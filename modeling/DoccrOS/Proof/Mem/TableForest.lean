import DoccrOS.Proof.Mem.DestroyedSpace
import DoccrOS.Proof.Mem.RoundTrip

namespace DoccrOS.Mem
open Lib.Radix Lib

/-- A page of a data region of the space maps the frame. -/
structure Space.DataAt (m : Machine) (space : Space) (page frame : Nat) : Prop where
  inData : ∃ region ∈ space.regions, hasFlag region.flags vmmRegionMmio = false ∧ region.covers page
  maps : ∃ entry, m.findPte space.pml4Phys (page * pageSize) = some entry ∧ entryAddr entry = frame * pageSize

/-- A page of a data region of a live space maps the frame. -/
def Kernel.DataAt (k : Kernel) (ptr : HeapPtr) (page frame : Nat) : Prop :=
  ∃ space, k.spaces ptr = some space ∧ space.DataAt k.machine page frame

/-- The frame is a user-half table of a live space, or a data page maps it. -/
def Kernel.takes (k : Kernel) (frame : Nat) : Prop :=
  (∃ table ∈ Tables k.machine k.roots, table / pageSize = frame) ∨ ∃ ptr page, k.DataAt ptr page frame

/-- The user-half tables of the live spaces are a forest without empty tables, every data frame has one page and is no table,
and the used frames are those that were used at the start and those that the spaces take. -/
structure ForestInv (start : Machine) (k : Kernel) : Prop where
  tables : TableInv k.machine k.roots
  occupied : AllOccupied k.machine k.roots
  distinct : ∀ ptr ptr' space space', k.spaces ptr = some space → k.spaces ptr' = some space' →
    space.pml4Phys = space'.pml4Phys → ptr = ptr'
  spaces : ∀ ptr space, k.spaces ptr = some space → SpaceInv k.machine space
  data : ∀ ptr page frame, k.DataAt ptr page frame → Allocated k.machine (frame * pageSize) ∧
    frame * pageSize ∉ Tables k.machine k.roots ∧ (k.machine.phys.pageframes frame).rc ≤ 1
  single : ∀ ptr ptr' page page' frame, k.DataAt ptr page frame → k.DataAt ptr' page' frame → ptr = ptr' ∧ page = page'
  used : ∀ frame, k.machine.phys.used frame = true ↔ start.phys.used frame = true ∨ k.takes frame
  fresh : ∀ frame, k.takes frame → start.phys.used frame = false
  total : k.machine.phys.total = start.phys.total

/-- The spaces but one keep their records and the translations of their user halves. -/
def SpacesKept (ptr : HeapPtr) (k k' : Kernel) : Prop :=
  ∀ owner, owner ≠ ptr → k'.spaces owner = k.spaces owner ∧ ∀ space, k.spaces owner = some space → ∀ va, UserVa va →
    k'.machine.findPte space.pml4Phys va = k.machine.findPte space.pml4Phys va

/-- A call on one space takes frames that were free for its tables and its data, what it gives up is free, and nothing else
changes. -/
structure ForestStep (ptr : HeapPtr) (k k' : Kernel) : Prop where
  others : SpacesKept ptr k k'
  tables : TableInv k'.machine k'.roots
  occupied : AllOccupied k'.machine k'.roots
  apart : ∀ owner space value, owner ≠ ptr → k'.spaces ptr = some space → k.spaces owner = some value →
    value.pml4Phys ≠ space.pml4Phys
  space : ∀ space, k'.spaces ptr = some space → SpaceInv k'.machine space
  newTables : ∀ table ∈ Tables k'.machine k'.roots, table ∉ Tables k.machine k.roots →
    k.machine.phys.used (table / pageSize) = false
  lostTables : ∀ table ∈ Tables k.machine k.roots, table ∉ Tables k'.machine k'.roots →
    k'.machine.phys.used (table / pageSize) = false
  newData : ∀ page frame, k'.DataAt ptr page frame → k.DataAt ptr page frame ∨ k.machine.phys.used frame = false ∧
    (Allocated k'.machine (frame * pageSize) ∧ frame * pageSize ∉ Tables k'.machine k'.roots ∧
      (k'.machine.phys.pageframes frame).rc ≤ 1) ∧ ∀ page', k'.DataAt ptr page' frame → page' = page
  lostData : ∀ page frame, k.DataAt ptr page frame → ¬k'.DataAt ptr page frame → k'.machine.phys.used frame = false
  kept : ∀ frame,
    (∀ table ∈ Tables k'.machine k'.roots, table ∉ Tables k.machine k.roots → table / pageSize ≠ frame) →
    (∀ table ∈ Tables k.machine k.roots, table ∉ Tables k'.machine k'.roots → table / pageSize ≠ frame) →
    (∀ page, k'.DataAt ptr page frame ↔ k.DataAt ptr page frame) →
    k'.machine.phys.used frame = k.machine.phys.used frame ∧
      k'.machine.phys.pageframes frame = k.machine.phys.pageframes frame
  total : k'.machine.phys.total = k.machine.phys.total

section
variable {start m m' : Machine} {k k' : Kernel} {ptr : HeapPtr} {space space' : Space} {page frame : Nat}

theorem RegionInv.small {region : Region} (inv : RegionInv region) (covers : region.covers page) : page < 2 ^ 35 := by
  obtain ⟨i, inside, rfl⟩ := Region.covers_iff.mp covers
  obtain ⟨_, user, number⟩ := inv.range.address inside
  rw [← number]
  exact user.small

/-- The data pages of a space depend on its user half only. -/
theorem Space.DataAt.congr (regions : ∀ region ∈ space.regions, RegionInv region) (data : space.DataAt m page frame)
    (leaf : ∀ va, UserVa va → m'.findPte space.pml4Phys va = m.findPte space.pml4Phys va) :
    space.DataAt m' page frame := by
  obtain ⟨⟨region, member, isData, covers⟩, entry, found, same⟩ := data
  refine ⟨⟨region, member, isData, covers⟩, entry, ?_, same⟩
  rw [leaf _ (userVa_page ((regions region member).small covers))]
  exact found

/-- A space without new user pages keeps its invariant. -/
theorem SpaceInv.within (inv : SpaceInv m space) (leaf : ∀ va, UserVa va → m'.findPte space.pml4Phys va ≠ none →
    m.findPte space.pml4Phys va ≠ none) : SpaceInv m' space := by
  apply inv.congr
  intro page small shown absent
  apply leaf _ (userVa_page small)
  · intro gone
    apply shown
    rw [look, gone, Option.map_none]
  · exact Option.map_eq_none_iff.mp absent

/-- Whoever takes a frame has it marked used. -/
theorem ForestInv.taken (inv : ForestInv start k) (takes : k.takes frame) : k.machine.phys.used frame = true :=
  (inv.used frame).mpr (Or.inr takes)

theorem ForestInv.data_used (inv : ForestInv start k) (data : k.DataAt ptr page frame) :
    k.machine.phys.used frame = true := inv.taken (Or.inr ⟨ptr, page, data⟩)

theorem ForestInv.table_used (inv : ForestInv start k) {table : Nat} (owned : table ∈ Tables k.machine k.roots) :
    k.machine.phys.used (table / pageSize) = true := inv.taken (Or.inl ⟨table, owned, rfl⟩)

/-- The frame of a table is no data frame. -/
theorem ForestInv.table_data (inv : ForestInv start k) {table : Nat} (owned : table ∈ Tables k.machine k.roots)
    (data : k.DataAt ptr page (table / pageSize)) : False := by
  have aligned := (inv.tables.allocated table owned).aligned
  have same : table / pageSize * pageSize = table := Nat.div_mul_cancel (Nat.dvd_of_mod_eq_zero aligned)
  apply (inv.data ptr page _ data).2.1
  rw [same]
  exact owned

section
variable {owner : HeapPtr}

/-- The other spaces keep their data pages. -/
theorem ForestStep.data_other (inv : ForestInv start k) (step : ForestStep ptr k k') (different : owner ≠ ptr) :
    k'.DataAt owner page frame ↔ k.DataAt owner page frame := by
  obtain ⟨same, leaf⟩ := step.others owner different
  unfold Kernel.DataAt
  rw [same]
  constructor
  · rintro ⟨space, live, data⟩
    exact ⟨space, live, data.congr (inv.spaces owner space live).regions fun va user => (leaf space live va user).symm⟩
  · rintro ⟨space, live, data⟩
    exact ⟨space, live, data.congr (inv.spaces owner space live).regions (leaf space live)⟩

/-- A data frame of a call was a data frame of the same page before, or it was free. -/
theorem ForestStep.data_cases (inv : ForestInv start k) (step : ForestStep ptr k k') (data : k'.DataAt owner page frame) :
    k.DataAt owner page frame ∨ owner = ptr ∧ k.machine.phys.used frame = false := by
  by_cases here : owner = ptr
  · rw [here] at data ⊢
    exact (step.newData page frame data).imp id fun new => ⟨rfl, new.1⟩
  · exact Or.inl ((step.data_other inv here).mp data)

/-- A data page that stays keeps its frame as it was. -/
theorem ForestStep.data_kept (inv : ForestInv start k) (step : ForestStep ptr k k') (before : k.DataAt owner page frame)
    (after : k'.DataAt owner page frame) : k'.machine.phys.used frame = k.machine.phys.used frame ∧
      k'.machine.phys.pageframes frame = k.machine.phys.pageframes frame := by
  apply step.kept
  · intro table owned new same
    have unused := step.newTables table owned new
    rw [same, inv.data_used before] at unused
    cases unused
  · intro table owned _ same
    rw [← same] at before
    exact inv.table_data owned before
  · intro page'
    constructor
    · intro data
      rcases step.data_cases inv data with old | ⟨_, unused⟩
      · exact old
      · rw [inv.data_used before] at unused
        cases unused
    · intro data
      obtain ⟨rfl, rfl⟩ := inv.single _ _ _ _ frame before data
      exact after

/-- The data frames after a call are allocated, no tables, and counted at most once. -/
theorem ForestStep.data (inv : ForestInv start k) (step : ForestStep ptr k k') (after : k'.DataAt owner page frame) :
    Allocated k'.machine (frame * pageSize) ∧ frame * pageSize ∉ Tables k'.machine k'.roots ∧
      (k'.machine.phys.pageframes frame).rc ≤ 1 := by
  by_cases before : k.DataAt owner page frame
  · obtain ⟨⟨aligned, nonzero, inside, used⟩, notTable, rc⟩ := inv.data owner page frame before
    obtain ⟨sameUsed, samePageframe⟩ := step.data_kept inv before after
    refine ⟨⟨aligned, nonzero, ?_, ?_⟩, ?_, ?_⟩
    · rw [step.total]
      exact inside
    · rw [page_div] at used ⊢
      rw [sameUsed]
      exact used
    · intro owned
      have unused := step.newTables _ owned notTable
      rw [page_div, inv.data_used before] at unused
      cases unused
    · rw [samePageframe]
      exact rc
  · rcases step.data_cases inv after with old | ⟨rfl, _⟩
    · exact absurd old before
    · exact ((step.newData page frame after).resolve_left before).2.1

/-- A data frame after a call has one page. -/
theorem ForestStep.single (inv : ForestInv start k) (step : ForestStep ptr k k') {owner' : HeapPtr} {page' : Nat}
    (first : k'.DataAt owner page frame) (second : k'.DataAt owner' page' frame) : owner = owner' ∧ page = page' := by
  rcases step.data_cases inv first with old | ⟨rfl, unused⟩
  · rcases step.data_cases inv second with old' | ⟨_, unused⟩
    · exact inv.single _ _ _ _ frame old old'
    · rw [inv.data_used old] at unused
      cases unused
  · rcases step.data_cases inv second with old' | ⟨rfl, _⟩
    · rw [inv.data_used old'] at unused
      cases unused
    · rcases step.newData page frame first with old | ⟨_, _, sole⟩
      · rw [inv.data_used old] at unused
        cases unused
      · exact ⟨rfl, (sole page' second).symm⟩

/-- Whoever takes a frame after a call has it marked used. -/
theorem ForestStep.owned (inv : ForestInv start k) (step : ForestStep ptr k k') (takes : k'.takes frame) :
    k'.machine.phys.used frame = true := by
  rcases takes with ⟨table, owned, same⟩ | ⟨owner, page, data⟩
  · rw [← same]
    exact (step.tables.allocated table owned).used
  · have used := (step.data inv data).1.used
    rw [page_div] at used
    exact used

/-- A frame that a call takes was free. -/
theorem ForestStep.gained (inv : ForestInv start k) (step : ForestStep ptr k k') (takes : k'.takes frame)
    (before : ¬k.takes frame) : k.machine.phys.used frame = false := by
  rcases takes with ⟨table, owned, same⟩ | ⟨owner, page, data⟩
  · rw [← same]
    apply step.newTables table owned
    intro old
    exact before (Or.inl ⟨table, old, same⟩)
  · rcases step.data_cases inv data with old | ⟨_, unused⟩
    · exact absurd (Or.inr ⟨owner, page, old⟩) before
    · exact unused

/-- A frame that a call gives up is free. -/
theorem ForestStep.lost (inv : ForestInv start k) (step : ForestStep ptr k k') (takes : k.takes frame)
    (after : ¬k'.takes frame) : k'.machine.phys.used frame = false := by
  rcases takes with ⟨table, owned, same⟩ | ⟨owner, page, data⟩
  · rw [← same]
    apply step.lostTables table owned
    intro still
    exact after (Or.inl ⟨table, still, same⟩)
  · have gone : ¬k'.DataAt owner page frame := fun still => after (Or.inr ⟨owner, page, still⟩)
    by_cases here : owner = ptr
    · rw [here] at data gone
      exact step.lostData page frame data gone
    · exact absurd ((step.data_other inv here).mpr data) gone

/-- A frame that nobody takes stays as it was. -/
theorem ForestStep.untouched (step : ForestStep ptr k k') (before : ¬k.takes frame) (after : ¬k'.takes frame) :
    k'.machine.phys.used frame = k.machine.phys.used frame := by
  refine (step.kept frame ?_ ?_ ?_).1
  · exact fun table owned _ same => after (Or.inl ⟨table, owned, same⟩)
  · exact fun table owned _ same => before (Or.inl ⟨table, owned, same⟩)
  · intro page
    constructor
    · exact fun data => absurd (Or.inr ⟨ptr, page, data⟩) after
    · exact fun data => absurd (Or.inr ⟨ptr, page, data⟩) before

/-- The frames that the spaces take were free at the start. -/
theorem ForestStep.fresh (inv : ForestInv start k) (step : ForestStep ptr k k') (takes : k'.takes frame) :
    start.phys.used frame = false := by
  by_cases before : k.takes frame
  · exact inv.fresh frame before
  · rw [← Bool.not_eq_true]
    intro old
    have used := (inv.used frame).mpr (Or.inl old)
    rw [step.gained inv takes before] at used
    cases used

/-- The used frames stay accounted for. -/
theorem ForestStep.used (inv : ForestInv start k) (step : ForestStep ptr k k') (frame : Nat) :
    k'.machine.phys.used frame = true ↔ start.phys.used frame = true ∨ k'.takes frame := by
  by_cases takes : k'.takes frame
  · exact ⟨fun _ => Or.inr takes, fun _ => step.owned inv takes⟩
  · rw [or_iff_left takes]
    by_cases before : k.takes frame
    · rw [step.lost inv before takes, inv.fresh frame before]
    · rw [step.untouched before takes, inv.used frame, or_iff_left before]

/-- A call on one space keeps the invariant of the forest. -/
theorem ForestInv.step (inv : ForestInv start k) (step : ForestStep ptr k k') : ForestInv start k' where
  tables := step.tables
  occupied := step.occupied
  distinct := by
    intro first second space space' live live' same
    by_cases here : first = ptr
    · by_cases here' : second = ptr
      · rw [here, here']
      · rw [here] at live
        rw [(step.others second here').1] at live'
        exact absurd same.symm (step.apart second space space' here' live live')
    · rw [(step.others first here).1] at live
      by_cases here' : second = ptr
      · rw [here'] at live'
        exact absurd same (step.apart first space' space here live' live)
      · rw [(step.others second here').1] at live'
        exact inv.distinct first second space space' live live' same
  spaces := by
    intro owner space live
    by_cases here : owner = ptr
    · rw [here] at live
      exact step.space space live
    · obtain ⟨same, leaf⟩ := step.others owner here
      rw [same] at live
      apply (inv.spaces owner space live).within
      intro va user shown
      rw [leaf space live va user] at shown
      exact shown
  data _ _ _ data := step.data inv data
  single _ _ _ _ _ first second := step.single inv first second
  used := step.used inv
  fresh _ takes := step.fresh inv takes
  total := step.total.trans inv.total

end

/-- Nobody takes a frame of the kernel before the first space. -/
theorem Boot.forestInv (boot : Boot k) : ForestInv k.machine k := by
  have none (ptr : HeapPtr) (space : Space) (live : k.spaces ptr = some space) : False := by
    rw [boot.noSpaces ptr] at live
    cases live
  have tables : Tables k.machine k.roots = ∅ := by
    rw [boot.roots, Finset.coe_empty]
    exact tables_empty _
  have takes (frame : Nat) : ¬k.takes frame := by
    rintro (⟨table, owned, _⟩ | ⟨ptr, page, space, live, _⟩)
    · rw [tables] at owned
      exact owned
    · exact none ptr space live
  refine ⟨?_, ?_, ?_, ?_, ?_, ?_, ?_, ?_, rfl⟩
  · rw [boot.roots, Finset.coe_empty]
    exact boot.tables
  · intro table owned
    rw [tables] at owned
    exact owned.elim
  · exact fun ptr _ space _ live _ _ => (none ptr space live).elim
  · exact fun ptr space live => (none ptr space live).elim
  · exact fun ptr page frame ⟨space, live, _⟩ => (none ptr space live).elim
  · exact fun ptr _ page _ frame ⟨space, live, _⟩ _ => (none ptr space live).elim
  · exact fun frame => ⟨Or.inl, fun either => either.resolve_right (takes frame)⟩
  · exact fun frame taken => (takes frame taken).elim

/-- The data pages of a changed space. -/
theorem Kernel.dataAt_put : (k.put ptr m' (some space')).DataAt ptr page frame ↔ space'.DataAt m' page frame := by
  unfold Kernel.DataAt
  rw [put_spaces, if_pos rfl, put_machine]
  constructor
  · rintro ⟨space, same, data⟩
    rw [← Option.some.inj same] at data
    exact data
  · exact fun data => ⟨space', rfl, data⟩

theorem Kernel.dataAt_live (live : k.spaces ptr = some space) :
    k.DataAt ptr page frame ↔ space.DataAt k.machine page frame := by
  unfold Kernel.DataAt
  rw [live]
  constructor
  · rintro ⟨value, same, data⟩
    rw [← Option.some.inj same] at data
    exact data
  · exact fun data => ⟨space, rfl, data⟩

/-- A changed record keeps the other spaces if their pages stay. -/
theorem SpacesKept.put {value : Option Space} (leaf : ∀ owner space, owner ≠ ptr → k.spaces owner = some space → ∀ va,
    UserVa va → m'.findPte space.pml4Phys va = k.machine.findPte space.pml4Phys va) :
    SpacesKept ptr k (k.put ptr m' value) := by
  intro owner different
  rw [put_spaces, if_neg different]
  exact ⟨rfl, fun space live va user => leaf owner space different live va user⟩

theorem SpacesKept.refl : SpacesKept ptr k k := fun _ _ => ⟨rfl, fun _ _ _ _ => rfl⟩

theorem SpacesKept.trans {k'' : Kernel} (first : SpacesKept ptr k k') (second : SpacesKept ptr k' k'') :
    SpacesKept ptr k k'' := by
  intro owner different
  obtain ⟨same, leaf⟩ := first owner different
  obtain ⟨same', leaf'⟩ := second owner different
  refine ⟨same'.trans same, ?_⟩
  intro space live va user
  rw [leaf' space (same.trans live) va user, leaf space live va user]

end

end DoccrOS.Mem
