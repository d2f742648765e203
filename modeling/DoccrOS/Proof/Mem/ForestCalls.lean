import DoccrOS.Proof.Mem.TableForest

namespace DoccrOS.Mem
open Lib.Radix Lib

/-- A call on one space takes frames that were free for its tables and its data, and what it gives up is free. -/
structure SpaceStep (m m' : Machine) (roots : Set Nat) (space space' : Space) : Prop where
  root : space'.pml4Phys = space.pml4Phys
  tables : TableInv m' roots
  occupied : AllOccupied m' roots
  inv : SpaceInv m' space'
  leaf : ∀ root ∈ roots, root ≠ space.pml4Phys → ∀ va, UserVa va → m'.findPte root va = m.findPte root va
  newTables : ∀ table ∈ Tables m' roots, table ∉ Tables m roots → m.phys.used (table / pageSize) = false
  lostTables : ∀ table ∈ Tables m roots, table ∉ Tables m' roots → m'.phys.used (table / pageSize) = false
  newData : ∀ page frame, space'.DataAt m' page frame → space.DataAt m page frame ∨ m.phys.used frame = false ∧
    (Allocated m' (frame * pageSize) ∧ frame * pageSize ∉ Tables m' roots ∧ (m'.phys.pageframes frame).rc ≤ 1) ∧
    ∀ page', space'.DataAt m' page' frame → page' = page
  lostData : ∀ page frame, space.DataAt m page frame → ¬space'.DataAt m' page frame → m'.phys.used frame = false
  kept : ∀ frame, (∀ table ∈ Tables m' roots, table ∉ Tables m roots → table / pageSize ≠ frame) →
    (∀ table ∈ Tables m roots, table ∉ Tables m' roots → table / pageSize ≠ frame) →
    (∀ page, space'.DataAt m' page frame ↔ space.DataAt m page frame) →
    m'.phys.used frame = m.phys.used frame ∧ m'.phys.pageframes frame = m.phys.pageframes frame
  total : m'.phys.total = m.phys.total

section
variable {start m m' : Machine} {k k' : Kernel} {ptr : HeapPtr} {space space' : Space} {page frame base count : Nat}
  {node cur : Region} {roots : Set Nat}

/-- The roots of other spaces differ. -/
theorem ForestInv.apart (inv : ForestInv start k) (live : k.spaces ptr = some space) {owner : HeapPtr} {value : Space}
    (different : owner ≠ ptr) (shown : k.spaces owner = some value) : value.pml4Phys ≠ space.pml4Phys :=
  fun same => different (inv.distinct owner ptr value space shown live same)

/-- What a call does to its space is a step of the kernel. -/
theorem SpaceStep.forestStep (inv : ForestInv start k) (live : k.spaces ptr = some space)
    (step : SpaceStep k.machine m' k.roots space space') : ForestStep ptr k (k.put ptr m' (some space')) := by
  have roots : (k.put ptr m' (some space')).roots = k.roots := put_roots live step.root
  constructor
  · apply SpacesKept.put
    intro owner value different shown
    exact step.leaf _ (Kernel.isRoot shown) (inv.apart live different shown)
  · rw [roots]
    exact step.tables
  · rw [roots]
    exact step.occupied
  · intro owner value other different isNew shown
    rw [put_spaces, if_pos rfl] at isNew
    rw [← Option.some.inj isNew, step.root]
    exact inv.apart live different shown
  · intro value isNew
    rw [put_spaces, if_pos rfl] at isNew
    rw [← Option.some.inj isNew]
    exact step.inv
  · rw [roots]
    exact step.newTables
  · rw [roots]
    exact step.lostTables
  · intro page frame
    rw [roots]
    simp only [Kernel.dataAt_put, Kernel.dataAt_live live]
    exact step.newData page frame
  · intro page frame
    rw [Kernel.dataAt_put, Kernel.dataAt_live live]
    exact step.lostData page frame
  · intro frame
    rw [roots]
    simp only [Kernel.dataAt_put, Kernel.dataAt_live live]
    exact step.kept frame
  · exact step.total

/-- A recorded region holds the new pages, and the old ones stay. -/
theorem SpaceInv.recorded (inv : SpaceInv m space) (region : RegionInv node) (apart : ∀ other ∈ space.regions, node.apart other)
    (outside : ∀ page, page < 2 ^ 35 → ¬node.covers page →
      m'.findPte space.pml4Phys (page * pageSize) = m.findPte space.pml4Phys (page * pageSize)) :
    SpaceInv m' (space.record node) := by
  have recorded : SpaceInv m (space.record node) := inv.record region apart fun _ _ _ => rfl
  refine ⟨recorded.regions, recorded.disjoint, ?_⟩
  intro page small shown
  by_cases here : node.covers page
  · exact ⟨node, (insertRegion_perm node space.regions).mem_iff.mpr List.mem_cons_self, here⟩
  · apply recorded.covered page small
    rw [look] at shown ⊢
    change (m'.findPte space.pml4Phys (page * pageSize)).map _ ≠ none at shown
    change (m.findPte space.pml4Phys (page * pageSize)).map _ ≠ none
    rw [outside page small here] at shown
    rw [Ne, Option.map_eq_none_iff] at shown ⊢
    exact shown

/-- The data pages of a space with a recorded region. -/
theorem Space.DataAt.recorded (inv : SpaceInv m space) (apart : ∀ other ∈ space.regions, node.apart other)
    (outside : ∀ page, page < 2 ^ 35 → ¬node.covers page →
      m'.findPte space.pml4Phys (page * pageSize) = m.findPte space.pml4Phys (page * pageSize)) :
    (space.record node).DataAt m' page frame ↔ space.DataAt m page frame ∨ hasFlag node.flags vmmRegionMmio = false ∧
      node.covers page ∧ ∃ entry, m'.findPte space.pml4Phys (page * pageSize) = some entry ∧
        entryAddr entry = frame * pageSize := by
  have old (region : Region) (member : region ∈ space.regions) (covers : region.covers page) :
      m'.findPte space.pml4Phys (page * pageSize) = m.findPte space.pml4Phys (page * pageSize) :=
    outside page ((inv.regions region member).small covers) fun here => apart region member page here covers
  constructor
  · rintro ⟨⟨region, member, isData, covers⟩, maps⟩
    rcases List.mem_cons.mp ((insertRegion_perm _ _).mem_iff.mp member) with rfl | member
    · exact Or.inr ⟨isData, covers, maps⟩
    · have leaf := old region member covers
      refine Or.inl ⟨⟨region, member, isData, covers⟩, ?_⟩
      rw [← leaf]
      exact maps
  · rintro (⟨⟨region, member, isData, covers⟩, maps⟩ | ⟨isData, covers, maps⟩)
    · refine ⟨⟨region, (insertRegion_perm _ _).mem_iff.mpr (List.mem_cons_of_mem _ member), isData, covers⟩, ?_⟩
      have leaf := old region member covers
      rw [← leaf] at maps
      exact maps
    · exact ⟨⟨node, (insertRegion_perm _ _).mem_iff.mpr List.mem_cons_self, isData, covers⟩, maps⟩

/-- The page of a range at its address. -/
theorem UserRange.page_address (range : UserRange base count) (i : Nat) :
    (base / pageSize + i) * pageSize = base + i * pageSize := by
  rw [Nat.add_mul, Nat.div_mul_cancel (Nat.dvd_of_mod_eq_zero range.aligned)]

/-- A page outside a new region is outside its range. -/
theorem newRegion_outside {flags : BitVec 32} (range : UserRange base count)
    (outside : ¬Region.covers ⟨base, wrap64 (count * pageSize), flags⟩ page) : ¬InRange base count (page * pageSize) := by
  intro inside
  rw [InRange, page_div] at inside
  apply outside
  rw [newRegion_covers range]
  exact ⟨page - base / pageSize, by omega, by omega⟩

/-- The new region of a call meets no region of the space. -/
theorem newRegion_apart {flags : BitVec 32} (inv : SpaceInv m space) (range : UserRange base count)
    (apart : ∀ region ∈ space.regions, base + count * pageSize ≤ region.base ∨ region.base + region.size ≤ base) :
    ∀ other ∈ space.regions, Region.apart ⟨base, wrap64 (count * pageSize), flags⟩ other := by
  intro other member page covers
  exact newRange_apart range (inv.regions other member) (apart other member) ((newRegion_covers range page).mp covers)

/-- A call that only adds tables loses none. -/
theorem tables_grow (walks : ∀ root ∈ roots, ∀ path table, userPaths.holds path → walk m.child root path = some table →
    walk m'.child root path = some table) : Tables m roots ⊆ Tables m' roots := by
  rintro table ⟨root, isRoot, path, admitted, reached⟩
  exact mem_nodes isRoot admitted (walks root isRoot path table admitted reached)

/-- A filled range takes its tables and its frames from the free ones. -/
theorem AllocatedRange.spaceStep {flags : BitVec 32} {frames : Nat → Nat} (inv : SpaceInv m space)
    (occupied : AllOccupied m roots) (used : ∀ page frame, space.DataAt m page frame → m.phys.used frame = true)
    (isRoot : space.pml4Phys ∈ roots) (range : UserRange base count)
    (apart : ∀ region ∈ space.regions, base + count * pageSize ≤ region.base ∨ region.base + region.size ≤ base)
    (noMmio : hasFlag flags vmmRegionMmio = false)
    (filled : AllocatedRange m m' roots space.pml4Phys base count (flagsToPte flags) frames) :
    SpaceStep m m' roots space (space.record ⟨base, wrap64 (count * pageSize), vmmRegionUsed ||| flags⟩) := by
  have page := flagsToPte_page flags
  have meets : ∀ other ∈ space.regions,
      Region.apart ⟨base, wrap64 (count * pageSize), vmmRegionUsed ||| flags⟩ other := newRegion_apart inv range apart
  have outside (page : Nat) (small : page < 2 ^ 35)
      (notHere : ¬Region.covers ⟨base, wrap64 (count * pageSize), vmmRegionUsed ||| flags⟩ page) :
      m'.findPte space.pml4Phys (page * pageSize) = m.findPte space.pml4Phys (page * pageSize) := by
    rw [filled.leaf _ isRoot _ (userVa_page small), if_neg]
    exact fun here => newRegion_outside range notHere here.2
  have fresh (page frame : Nat) : (space.record ⟨base, wrap64 (count * pageSize), vmmRegionUsed ||| flags⟩).DataAt m' page frame ↔
      space.DataAt m page frame ∨ ∃ i, i < count ∧ page = base / pageSize + i ∧ frame = frames i := by
    rw [Space.DataAt.recorded inv meets outside, newRegion_covers range]
    apply or_congr_right
    constructor
    · rintro ⟨_, ⟨i, inside, rfl⟩, entry, found, same⟩
      rw [range.page_address, filled.mapped isRoot range inside] at found
      rw [← Option.some.inj found, (filled.frame page inside).2] at same
      exact ⟨i, inside, rfl, (Nat.mul_right_cancel (by decide) same).symm⟩
    · rintro ⟨i, inside, rfl, rfl⟩
      refine ⟨(recorded_mmio flags).trans noMmio, ⟨i, inside, rfl⟩, _, ?_, (filled.frame page inside).2⟩
      rw [range.page_address]
      exact filled.mapped isRoot range inside
  have unused (i : Nat) (inside : i < count) : m.phys.used (frames i) = false := (filled.free i inside).2.2
  constructor
  · rfl
  · exact filled.tables
  · exact filled.occupied occupied
  · exact inv.recorded (newRegion_inv range (recorded_used flags)) meets outside
  · intro root isRoot different va user
    rw [filled.leaf root isRoot va user, if_neg fun here => different here.1]
  · exact fun table owned new => (filled.fresh table owned new).1.2
  · exact fun table owned gone => absurd (tables_grow filled.walks owned) gone
  · intro page' frame data
    rcases (fresh page' frame).mp data with old | ⟨i, inside, rfl, rfl⟩
    · exact Or.inl old
    · obtain ⟨_, pageframe, notTable⟩ := filled.taken i inside
      refine Or.inr ⟨unused i inside, ⟨(filled.frame page inside).1, notTable, ?_⟩, ?_⟩
      · rw [pageframe]
      · intro page' again
        rcases (fresh page' (frames i)).mp again with old | ⟨j, inside', rfl, same⟩
        · have taken := used page' _ old
          rw [unused i inside] at taken
          cases taken
        · rw [filled.distinct i j inside inside' same]
  · exact fun page' frame data gone => absurd ((fresh page' frame).mpr (Or.inl data)) gone
  · intro frame new _ same
    apply filled.kept frame new
    rintro i inside rfl
    have data := (same (base / pageSize + i)).mp ((fresh _ _).mpr (Or.inr ⟨i, inside, rfl, rfl⟩))
    have taken := used _ _ data
    rw [unused i inside] at taken
    cases taken
  · exact filled.total

/-- A mapped device range takes its tables from the free frames. -/
theorem MappedRange.spaceStep {flags : BitVec 32} {entry : Nat → Word} (inv : SpaceInv m space)
    (occupied : AllOccupied m roots) (isRoot : space.pml4Phys ∈ roots) (range : UserRange base count)
    (apart : ∀ region ∈ space.regions, base + count * pageSize ≤ region.base ∨ region.base + region.size ≤ base)
    (used : hasFlag flags vmmRegionUsed = true) (mmio : hasFlag flags vmmRegionMmio = true)
    (mapped : MappedRange m m' roots space.pml4Phys base count entry) :
    SpaceStep m m' roots space (space.record ⟨base, wrap64 (count * pageSize), flags⟩) := by
  have meets : ∀ other ∈ space.regions, Region.apart ⟨base, wrap64 (count * pageSize), flags⟩ other :=
    newRegion_apart inv range apart
  have outside (page : Nat) (small : page < 2 ^ 35) (notHere : ¬Region.covers ⟨base, wrap64 (count * pageSize), flags⟩ page) :
      m'.findPte space.pml4Phys (page * pageSize) = m.findPte space.pml4Phys (page * pageSize) := by
    rw [mapped.leaf _ isRoot _ (userVa_page small), if_neg]
    exact fun here => newRegion_outside range notHere here.2
  have same (page frame : Nat) : (space.record ⟨base, wrap64 (count * pageSize), flags⟩).DataAt m' page frame ↔
      space.DataAt m page frame := by
    rw [Space.DataAt.recorded inv meets outside, or_iff_left]
    rintro ⟨isData, _⟩
    change hasFlag flags vmmRegionMmio = false at isData
    rw [mmio] at isData
    cases isData
  constructor
  · rfl
  · exact mapped.grown.inv
  · exact mapped.occupied occupied
  · exact inv.recorded (newRegion_inv range used) meets outside
  · intro root isRoot different va user
    rw [mapped.leaf root isRoot va user, if_neg fun here => different here.1]
  · exact fun table owned new => (mapped.grown.fresh table owned new).1.2
  · exact fun table owned gone => absurd (tables_grow mapped.grown.walks owned) gone
  · exact fun page frame data => Or.inl ((same page frame).mp data)
  · exact fun page frame data gone => absurd ((same page frame).mpr data) gone
  · exact fun frame new _ _ => mapped.grown.kept frame new
  · exact mapped.grown.total

theorem Region.covers_range : cur.covers page ↔ InRange cur.base (cur.size / pageSize) (page * pageSize) := by
  rw [InRange, page_div]
  rfl

/-- The regions other than one do not meet it. -/
theorem SpaceInv.rest {before after : List Region} (inv : SpaceInv m space) (split : space.regions = before ++ cur :: after) :
    (∀ region ∈ before ++ after, cur.apart region) ∧ (before ++ after).Pairwise Region.apart := by
  have disjoint := inv.disjoint
  rw [split, List.pairwise_middle Region.apart.symm] at disjoint
  exact List.pairwise_cons.mp disjoint

/-- A freed region takes its data pages out of the space. -/
theorem Space.DataAt.freed {before after : List Region} (inv : SpaceInv m space)
    (split : space.regions = before ++ cur :: after) (root : space'.pml4Phys = space.pml4Phys)
    (regions : space'.regions = before ++ after)
    (leaf : ∀ page, page < 2 ^ 35 → ¬cur.covers page →
      m'.findPte space.pml4Phys (page * pageSize) = m.findPte space.pml4Phys (page * pageSize)) :
    space'.DataAt m' page frame ↔ space.DataAt m page frame ∧ ¬cur.covers page := by
  have member (region : Region) : region ∈ space.regions ↔ region = cur ∨ region ∈ before ++ after := by
    rw [split, List.mem_append, List.mem_cons, List.mem_append, or_left_comm]
  constructor
  · rintro ⟨⟨region, isRest, isData, covers⟩, maps⟩
    rw [regions] at isRest
    have old : region ∈ space.regions := (member region).mpr (Or.inr isRest)
    have outside : ¬cur.covers page := fun here => (inv.rest split).1 region isRest page here covers
    rw [root, leaf page ((inv.regions region old).small covers) outside] at maps
    exact ⟨⟨⟨region, old, isData, covers⟩, maps⟩, outside⟩
  · rintro ⟨⟨⟨region, old, isData, covers⟩, maps⟩, outside⟩
    rw [← leaf page ((inv.regions region old).small covers) outside, ← root] at maps
    refine ⟨⟨region, ?_, isData, covers⟩, maps⟩
    rw [regions]
    apply ((member region).mp old).resolve_left
    intro same
    rw [same] at covers
    exact outside covers

/-- A frame of a data page is dropped with its region. -/
theorem Space.DataAt.dropped (inv : SpaceInv m space) (isCur : cur ∈ space.regions) (data : space.DataAt m page frame)
    (covers : cur.covers page) :
    0 < dropCount m space.pml4Phys cur.base (hasFlag cur.flags vmmRegionMmio) frame (cur.size / pageSize) := by
  obtain ⟨⟨region, member, isData, covers'⟩, entry, found, same⟩ := data
  rw [Region.covers_unique inv.disjoint member isCur covers' covers] at isData
  obtain ⟨i, inside, rfl⟩ := Region.covers_iff.mp covers
  rw [(inv.regions cur isCur).range.page_address] at found
  apply List.countP_pos_iff.mpr
  refine ⟨i, List.mem_range.mpr inside, ?_⟩
  rw [dropsFrame, isData, found, Option.any_some, same, page_div, beq_self_eq_true]
  rfl

/-- A frame that a region drops is the frame of a data page. -/
theorem Space.DataAt.of_dropped (inv : SpaceInv m space) (isCur : cur ∈ space.regions)
    (drops : 0 < dropCount m space.pml4Phys cur.base (hasFlag cur.flags vmmRegionMmio) frame (cur.size / pageSize)) :
    ∃ page, cur.covers page ∧ space.DataAt m page frame := by
  obtain ⟨i, inside, hits⟩ := List.countP_pos_iff.mp drops
  rw [List.mem_range] at inside
  rw [dropsFrame, Bool.and_eq_true, Bool.not_eq_true', Option.any_eq_true] at hits
  obtain ⟨isData, entry, found, same⟩ := hits
  have covers : cur.covers (cur.base / pageSize + i) := Region.covers_iff.mpr ⟨i, inside, rfl⟩
  refine ⟨_, covers, ⟨cur, isCur, isData, covers⟩, entry, ?_, ?_⟩
  · rw [(inv.regions cur isCur).range.page_address]
    exact found
  · rw [← beq_iff_eq.mp same, Nat.div_mul_cancel (Nat.dvd_of_mod_eq_zero (entryAddr_aligned entry))]

/-- A freed region leaves the space with the other regions and their pages. -/
theorem FreedRange.spaceInv {before after : List Region} {isMmio : Bool} (inv : SpaceInv m space)
    (isRoot : space.pml4Phys ∈ roots) (split : space.regions = before ++ cur :: after)
    (root : space'.pml4Phys = space.pml4Phys) (regions : space'.regions = before ++ after)
    (freed : FreedRange m m' roots space.pml4Phys cur.base (cur.size / pageSize) isMmio) : SpaceInv m' space' := by
  refine ⟨?_, ?_, ?_⟩
  · intro region member
    rw [regions] at member
    apply inv.regions region
    rw [split]
    rcases List.mem_append.mp member with first | last
    · exact List.mem_append_left _ first
    · exact List.mem_append_right _ (List.mem_cons_of_mem _ last)
  · rw [regions]
    exact (inv.rest split).2
  · intro page small shown
    rw [root, look] at shown
    have notHere : ¬cur.covers page := by
      intro here
      apply shown
      rw [freed.leaf _ isRoot _ (userVa_page small), if_pos ⟨rfl, Region.covers_range.mp here⟩]
      rfl
    rw [freed.leaf _ isRoot _ (userVa_page small), if_neg fun here => notHere (Region.covers_range.mpr here.2)] at shown
    have before : look m (space.pml4Phys, page) ≠ none := by
      rw [Ne, Option.map_eq_none_iff] at shown
      rw [look, Ne, Option.map_eq_none_iff]
      exact shown
    obtain ⟨region, member, covers⟩ := inv.covered page small before
    refine ⟨region, ?_, covers⟩
    rw [split, List.mem_append, List.mem_cons] at member
    rw [regions, List.mem_append]
    rcases member with first | rfl | last
    · exact Or.inl first
    · exact absurd covers notHere
    · exact Or.inr last

/-- A freed region gives up its tables and its data frames. -/
theorem FreedRange.spaceStep {before after : List Region} (inv : SpaceInv m space) (occupied : AllOccupied m roots)
    (data : ∀ page frame, space.DataAt m page frame → frame * pageSize ∉ Tables m roots ∧ (m.phys.pageframes frame).rc ≤ 1)
    (tables : TableInv m roots) (isRoot : space.pml4Phys ∈ roots) (split : space.regions = before ++ cur :: after)
    (root : space'.pml4Phys = space.pml4Phys) (regions : space'.regions = before ++ after)
    (freed : FreedRange m m' roots space.pml4Phys cur.base (cur.size / pageSize) (hasFlag cur.flags vmmRegionMmio)) :
    SpaceStep m m' roots space space' := by
  have isCur : cur ∈ space.regions := by
    rw [split]
    exact List.mem_append_right _ List.mem_cons_self
  have outside (page : Nat) (small : page < 2 ^ 35) (notHere : ¬cur.covers page) :
      m'.findPte space.pml4Phys (page * pageSize) = m.findPte space.pml4Phys (page * pageSize) := by
    rw [freed.leaf _ isRoot _ (userVa_page small), if_neg]
    exact fun here => notHere (Region.covers_range.mpr here.2)
  have left (page frame : Nat) : space'.DataAt m' page frame ↔ space.DataAt m page frame ∧ ¬cur.covers page :=
    Space.DataAt.freed inv split root regions outside
  constructor
  · exact root
  · exact freed.inv
  · exact freed.occupied occupied
  · exact freed.spaceInv inv isRoot split root regions
  · intro root' isRoot' different va user
    rw [freed.leaf root' isRoot' va user, if_neg fun here => different here.1]
  · exact fun table owned new => absurd (freed.tables owned) new
  · exact fun table owned gone => (freed.gone table owned gone).1
  · exact fun page frame shown => Or.inl ((left page frame).mp shown).1
  · intro page frame shown gone
    obtain ⟨notTable, rc⟩ := data page frame shown
    have covers : cur.covers page := by
      by_contra notHere
      exact gone ((left page frame).mpr ⟨shown, notHere⟩)
    have drops := shown.dropped inv isCur covers
    have dropped := freed.frames frame fun table owned _ same => notTable (by
      rw [← same, Nat.div_mul_cancel (Nat.dvd_of_mod_eq_zero (tables.allocated table owned).aligned)]
      exact owned)
    rw [Dropped, if_neg (Nat.pos_iff_ne_zero.mp drops), if_neg (by omega)] at dropped
    exact dropped.1
  · intro frame _ lost same
    have dropped := freed.frames frame lost
    rw [Dropped, if_pos] at dropped
    · exact dropped
    · rw [← Nat.le_zero, ← Nat.not_lt]
      intro drops
      obtain ⟨page, covers, shown⟩ := Space.DataAt.of_dropped inv isCur drops
      exact ((left page frame).mp ((same page).mpr shown)).2 covers
  · exact freed.total

end

end DoccrOS.Mem
