import DoccrOS.Proof.Mem.AllocRanges
import DoccrOS.Proof.Mem.CowRanges
import DoccrOS.Proof.Mem.FreeRanges

namespace DoccrOS.Mem
open Lib.Radix Lib

/-- The places of a range of pages. -/
def rangePlaces (root base count : Nat) : Finset Place := (Finset.range count).image (pageAt root base)

theorem mem_rangePlaces {root base count : Nat} {place : Place} :
    place ∈ rangePlaces root base count ↔ place.1 = root ∧ InRange base count (place.2 * pageSize) := by
  unfold rangePlaces InRange
  rw [Finset.mem_image, page_div]
  constructor
  · rintro ⟨i, inside, same⟩
    rw [Finset.mem_range] at inside
    rw [← same]
    exact ⟨rfl, Nat.le_add_right _ _, Nat.add_lt_add_left inside _⟩
  · rintro ⟨sameRoot, least, below⟩
    refine ⟨place.2 - base / pageSize, Finset.mem_range.mpr (by omega), ?_⟩
    exact Prod.ext sameRoot.symm (Nat.add_sub_cancel' least)

/-- The tracked places map allocated frames whose counters are never too small, and the shielded pages are neither free
nor tables nor tracked data. -/
structure MemInv (shield : Set Nat) (m : Machine) (roots : Set Nat) (places : Finset Place) : Prop where
  data : DataInv m roots places
  counted : (pageView m places).Counted Sharing.Sound
  shielded : ∀ page ∈ shield, page % pageSize = 0 ∧ ¬m.phys.Free (page / pageSize) ∧ page ∉ Tables m roots ∧
    ∀ place, (pageView m places).map place ≠ some page

/-- The shielded pages and the kernel halves of the roots keep their contents. -/
structure Spared (shield : Set Nat) (m m' : Machine) (roots : Set Nat) : Prop where
  ram : ∀ page ∈ shield, m'.ram page = m.ram page
  kernelHalf : ∀ root ∈ roots, ∀ index : Fin 512, 256 ≤ index.val → m'.ram root index = m.ram root index
  kernelPml4 : m'.kernelPml4 = m.kernelPml4

section
variable {shield : Set Nat} {m m' m'' : Machine} {roots : Set Nat} {places : Finset Place} {root base count : Nat}
  {flags : Word} {frames : Nat → Nat} {isMmio : Bool}

theorem Spared.refl (m : Machine) : Spared shield m m roots := ⟨fun _ _ => rfl, fun _ _ _ _ => rfl, rfl⟩

theorem Spared.trans (first : Spared shield m m' roots) (second : Spared shield m' m'' roots) :
    Spared shield m m'' roots where
  ram page member := (second.ram page member).trans (first.ram page member)
  kernelHalf root isRoot index high :=
    (second.kernelHalf root isRoot index high).trans (first.kernelHalf root isRoot index high)
  kernelPml4 := second.kernelPml4.trans first.kernelPml4

/-- Fewer references keep a sound counter sound. -/
theorem sound_fewer {rc refs refs' : Nat} (sound : Sharing.Sound rc refs) (fewer : refs' ≤ refs) :
    Sharing.Sound rc refs' := by
  unfold Sharing.Sound at *
  omega

/-- An allocated data frame survives an allocation of a range. -/
theorem AllocatedRange.cells (range : AllocatedRange m m' roots root base count flags frames) {cell : Nat}
    (allocated : Allocated m cell) (notTable : cell ∉ Tables m roots) : Allocated m' cell ∧ cell ∉ Tables m' roots ∧
      m'.ram cell = m.ram cell ∧ m'.phys.pageframes (cell / pageSize) = m.phys.pageframes (cell / pageSize) ∧
      ∀ i, i < count → frames i ≠ cell / pageSize := by
  have used := allocated.used
  have apart : ∀ table ∈ Tables m' roots, table ∉ Tables m roots → table / pageSize ≠ cell / pageSize := by
    intro table owned new same
    have free := (range.fresh table owned new).1.2
    rw [same, used] at free
    exact Bool.false_ne_true free.symm
  have apart' : ∀ i, i < count → frames i ≠ cell / pageSize := by
    intro i inside same
    have free := (range.free i inside).2.2
    rw [same, used] at free
    exact Bool.false_ne_true free.symm
  have outside : cell ∉ Tables m' roots := fun owned => apart cell owned notTable rfl
  obtain ⟨sameUsed, sameRecord⟩ := range.kept _ apart apart'
  refine ⟨⟨allocated.aligned, allocated.nonzero, ?_, sameUsed.trans used⟩, outside, range.ram cell outside, sameRecord,
    apart'⟩
  rw [range.total]
  exact allocated.inside

/-- A fresh frame of the range is allocated, and its page entry names it. -/
theorem AllocatedRange.frame (range : AllocatedRange m m' roots root base count flags frames) (page : PageFlags flags)
    {i : Nat} (inside : i < count) : Allocated m' (frames i * pageSize) ∧
      entryAddr (leafEntry (frames i * pageSize) flags) = frames i * pageSize := by
  obtain ⟨nonzero, free⟩ := range.free i inside
  have allocated : Allocated m' (frames i * pageSize) := by
    refine ⟨by simp [pageSize], by simp [pageSize, nonzero], ?_, ?_⟩
    · rw [page_div, range.total]
      exact free.1
    · rw [page_div]
      exact (range.taken i inside).1
  exact ⟨allocated, allocated.entryAddr_leaf page⟩

/-- What a tracked place maps after an allocation: a fresh frame in the range, its old frame outside. -/
theorem AllocatedRange.map (range : AllocatedRange m m' roots root base count flags frames) (page : PageFlags flags)
    (data : DataInv m roots places) (isRoot : root ∈ roots) (user : UserRange base count) {place : Place} {cell : Nat}
    (mapped : (pageView m' (places ∪ rangePlaces root base count)).map place = some cell) :
    (∃ i, i < count ∧ place = pageAt root base i ∧ cell = frames i * pageSize) ∨
      (pageView m places).map place = some cell := by
  obtain ⟨member, entry, found, same⟩ := pageView_map.mp mapped
  by_cases here : place ∈ rangePlaces root base count
  · left
    obtain ⟨i, inside, shape⟩ := Finset.mem_image.mp here
    rw [Finset.mem_range] at inside
    have address := user.address inside
    refine ⟨i, inside, shape.symm, ?_⟩
    rw [← shape] at found
    have number : (base / pageSize + i) * pageSize = base + i * pageSize := by
      rw [Nat.add_mul, Nat.div_mul_cancel (Nat.dvd_of_mod_eq_zero user.aligned)]
    have shown := range.mapped isRoot user inside
    change m'.findPte root ((base / pageSize + i) * pageSize) = some entry at found
    rw [number, shown] at found
    rw [← same, ← Option.some.inj found]
    exact (range.frame page inside).2
  · right
    have tracked := (Finset.mem_union.mp member).resolve_right here
    obtain ⟨isRoot', small⟩ := data.within place tracked
    refine pageView_map.mpr ⟨tracked, entry, ?_, same⟩
    rw [range.leaf place.1 isRoot' _ (userVa_page small), if_neg fun both => here (mem_rangePlaces.mpr both)] at found
    exact found

/-- An allocation of any user range keeps the invariant: remapped pages lose their old frames, which stay counted. -/
theorem MemInv.allocated (inv : MemInv shield m roots places)
    (range : AllocatedRange m m' roots root base count flags frames) (page : PageFlags flags) (isRoot : root ∈ roots)
    (user : UserRange base count) :
    MemInv shield m' roots (places ∪ rangePlaces root base count) ∧ Spared shield m m' roots := by
  have old {place : Place} {cell : Nat} (mapped : (pageView m places).map place = some cell) :=
    range.cells (inv.data.data place cell mapped).1 (inv.data.data place cell mapped).2
  have data : DataInv m' roots (places ∪ rangePlaces root base count) := by
    refine ⟨range.tables, ?_, ?_⟩
    · intro place member
      rcases Finset.mem_union.mp member with tracked | new
      · exact inv.data.within place tracked
      · obtain ⟨sameRoot, _, below⟩ := mem_rangePlaces.mp new
        have fits := user.fits
        rw [page_div] at below
        simp only [pageSize] at below fits
        exact ⟨sameRoot ▸ isRoot, by omega⟩
    · intro place cell mapped
      rcases range.map page inv.data isRoot user mapped with ⟨i, inside, _, rfl⟩ | before
      · exact ⟨(range.frame page inside).1, (range.taken i inside).2.2⟩
      · exact ⟨(old before).1, (old before).2.1⟩
  have shielded : ∀ query ∈ shield, query ∉ Tables m' roots := by
    intro query member owned
    obtain ⟨_, notFree, notTable, _⟩ := inv.shielded query member
    exact notFree (range.fresh query owned notTable).1
  refine ⟨⟨data, ?_, ?_⟩, ⟨fun query member => range.ram query (shielded query member), range.kernelHalf,
    range.kernelPml4⟩⟩
  · intro cell referenced
    obtain ⟨place, mapped⟩ := Sharing.exists_of_count_pos referenced
    rcases range.map page inv.data isRoot user mapped with ⟨i, inside, _, rfl⟩ | before
    · have rc : (pageView m' (places ∪ rangePlaces root base count)).rc (frames i * pageSize) = 1 := by
        change (m'.phys.pageframes (frames i * pageSize / pageSize)).rc = 1
        rw [page_div, (range.taken i inside).2.1]
      rw [rc]
      refine Or.inl ((Set.ncard_le_one (Sharing.refs_finite _ _)).mpr ?_)
      have only (other : Place) (maps : (pageView m' (places ∪ rangePlaces root base count)).map other =
          some (frames i * pageSize)) : other = pageAt root base i := by
        rcases range.map page inv.data isRoot user maps with ⟨j, insideJ, shape, same⟩ | before
        · have sameFrame := Nat.eq_of_mul_eq_mul_right (by decide : 0 < pageSize) same
          rw [shape, range.distinct i j inside insideJ sameFrame]
        · exact absurd (page_div (frames i)).symm ((old before).2.2.2.2 i inside)
      intro first atFirst second atSecond
      exact (only first atFirst).trans (only second atSecond).symm
    · obtain ⟨_, _, _, record, apart⟩ := old before
      have rc : (pageView m' (places ∪ rangePlaces root base count)).rc cell = (pageView m places).rc cell := by
        change (m'.phys.pageframes (cell / pageSize)).rc = (m.phys.pageframes (cell / pageSize)).rc
        rw [record]
      rw [rc]
      refine sound_fewer (inv.counted cell (Sharing.count_pos before)) ?_
      refine Set.ncard_le_ncard ?_ (Sharing.refs_finite _ _)
      intro other maps
      rcases range.map page inv.data isRoot user maps with ⟨i, inside, _, same⟩ | before'
      · exact absurd (by rw [same, page_div]) (apart i inside)
      · exact before'
  · intro query member
    obtain ⟨aligned, notFree, notTable, notData⟩ := inv.shielded query member
    refine ⟨aligned, fun free => notFree (range.stillFree free).1, shielded query member, ?_⟩
    intro place mapped
    rcases range.map page inv.data isRoot user mapped with ⟨i, inside, _, rfl⟩ | before
    · rw [page_div] at notFree
      exact notFree (range.free i inside).2
    · exact notData place before

/-- A change after which every tracked place maps what it mapped before, or nothing, keeps the invariant. -/
theorem MemInv.shrink {places' : Finset Place} (inv : MemInv shield m roots places) (tables : TableInv m' roots)
    (within : ∀ place ∈ places', place.1 ∈ roots ∧ place.2 < 2 ^ 35)
    (maps : ∀ place cell, (pageView m' places').map place = some cell → (pageView m places).map place = some cell ∧
      Allocated m' cell ∧ cell ∉ Tables m' roots ∧ Sharing.Sound (m'.phys.pageframes (cell / pageSize)).rc
        ((pageView m' places').count cell))
    (shielded : ∀ page ∈ shield, ¬m'.phys.Free (page / pageSize) ∧ page ∉ Tables m' roots) :
    MemInv shield m' roots places' := by
  refine ⟨⟨tables, within, fun place cell mapped => ⟨(maps place cell mapped).2.1, (maps place cell mapped).2.2.1⟩⟩, ?_, ?_⟩
  · intro cell referenced
    obtain ⟨place, mapped⟩ := Sharing.exists_of_count_pos referenced
    exact (maps place cell mapped).2.2.2
  · intro page member
    obtain ⟨aligned, _, _, notData⟩ := inv.shielded page member
    exact ⟨aligned, (shielded page member).1, (shielded page member).2,
      fun place mapped => notData place (maps place page mapped).1⟩

/-- A place that still maps a cell outside a cleared range mapped it before. -/
theorem pageView_outside {places' : Finset Place} (subset : places' ⊆ places) (data : DataInv m roots places)
    {place : Place} {cell : Nat} (mapped : (pageView m' places').map place = some cell)
    (leaf : ∀ root' ∈ roots, ∀ va, UserVa va → ¬(root' = root ∧ InRange base count va) →
      m'.findPte root' va = m.findPte root' va)
    (outside : ¬(place.1 = root ∧ InRange base count (place.2 * pageSize))) :
    (pageView m places).map place = some cell := by
  obtain ⟨member, entry, found, same⟩ := pageView_map.mp mapped
  obtain ⟨isRoot, small⟩ := data.within place (subset member)
  rw [leaf place.1 isRoot _ (userVa_page small) outside] at found
  exact pageView_map.mpr ⟨subset member, entry, found, same⟩

/-- A place in a cleared range maps nothing. -/
theorem pageView_cleared (data : DataInv m roots places) {place : Place} {cell : Nat}
    (mapped : (pageView m' places).map place = some cell)
    (leaf : ∀ root' ∈ roots, ∀ va, UserVa va → m'.findPte root' va =
      if root' = root ∧ InRange base count va then none else m.findPte root' va) :
    (pageView m places).map place = some cell ∧ ¬(place.1 = root ∧ InRange base count (place.2 * pageSize)) := by
  have outside : ¬(place.1 = root ∧ InRange base count (place.2 * pageSize)) := by
    intro inside
    obtain ⟨member, entry, found, _⟩ := pageView_map.mp mapped
    obtain ⟨isRoot, small⟩ := data.within place member
    rw [leaf place.1 isRoot _ (userVa_page small), if_pos inside] at found
    cases found
  refine ⟨pageView_outside (Finset.Subset.refl _) data mapped ?_ outside, outside⟩
  intro root' isRoot va user notIn
  rw [leaf root' isRoot va user, if_neg notIn]

/-- Fewer places map a cell after a change. -/
theorem pageView_count_le {places' : Finset Place} {cell : Nat}
    (maps : ∀ place, (pageView m' places').map place = some cell → (pageView m places).map place = some cell) :
    (pageView m' places').count cell ≤ (pageView m places).count cell :=
  Set.ncard_le_ncard maps (Sharing.refs_finite _ _)

/-- The rollback of an allocation leaks its frames and keeps the invariant. -/
theorem MemInv.unmapped (inv : MemInv shield m roots places) (range : UnmappedRange m m' roots root base count) :
    MemInv shield m' roots places ∧ Spared shield m m' roots := by
  have same : ∀ place cell, (pageView m' places).map place = some cell → (pageView m places).map place = some cell :=
    fun place cell mapped => (pageView_cleared inv.data mapped range.leaf).1
  refine ⟨inv.shrink range.inv inv.data.within ?_ ?_, ⟨?_, range.kernelHalf, range.kernelPml4⟩⟩
  · intro place cell mapped
    have before := same place cell mapped
    obtain ⟨allocated, notTable⟩ := inv.data.data place cell before
    refine ⟨before, ?_, ?_, ?_⟩
    · obtain ⟨aligned, nonzero, inside, used⟩ := allocated
      refine ⟨aligned, nonzero, ?_, ?_⟩
      · rw [range.phys]
        exact inside
      · rw [range.phys]
        exact used
    · rw [range.tables]
      exact notTable
    · rw [range.phys]
      refine sound_fewer (inv.counted cell (Sharing.count_pos before)) (pageView_count_le fun other => same other cell)
  · intro page member
    obtain ⟨_, notFree, notTable, _⟩ := inv.shielded page member
    rw [range.phys, range.tables]
    exact ⟨notFree, notTable⟩
  · intro page member
    exact range.ram page (inv.shielded page member).2.2.1

/-- A device mapping takes its pages out of the tracked places. -/
theorem MemInv.mapped {entry : Nat → Word} (inv : MemInv shield m roots places)
    (range : MappedRange m m' roots root base count entry) :
    MemInv shield m' roots (places \ rangePlaces root base count) ∧ Spared shield m m' roots := by
  have shielded : ∀ page ∈ shield, page ∉ Tables m' roots := by
    intro page member owned
    obtain ⟨_, notFree, notTable, _⟩ := inv.shielded page member
    exact notFree (range.grown.fresh page owned notTable).1
  have same : ∀ place cell, (pageView m' (places \ rangePlaces root base count)).map place = some cell →
      (pageView m places).map place = some cell := by
    intro place cell mapped
    have outside : ¬(place.1 = root ∧ InRange base count (place.2 * pageSize)) := by
      intro inside
      exact (Finset.mem_sdiff.mp (pageView_map.mp mapped).1).2 (mem_rangePlaces.mpr inside)
    refine pageView_outside Finset.sdiff_subset inv.data mapped ?_ outside
    intro root' isRoot va user notIn
    rw [range.leaf root' isRoot va user, if_neg notIn]
  refine ⟨inv.shrink range.grown.inv ?_ ?_ ?_, ⟨?_, range.grown.kernelHalf, range.grown.kernelPml4⟩⟩
  · intro place member
    exact inv.data.within place (Finset.mem_sdiff.mp member).1
  · intro place cell mapped
    have before := same place cell mapped
    obtain ⟨allocated, notTable⟩ := inv.data.data place cell before
    obtain ⟨kept, outside, _, record⟩ := range.grown.cells allocated notTable
    refine ⟨before, kept, outside, ?_⟩
    rw [record]
    exact sound_fewer (inv.counted cell (Sharing.count_pos before)) (pageView_count_le fun other => same other cell)
  · intro page member
    refine ⟨?_, shielded page member⟩
    intro free
    exact (inv.shielded page member).2.1 (range.grown.free free)
  · intro page member
    exact range.grown.ram page (shielded page member)

theorem dropCount_eq (frame : Nat) : dropCount m root base isMmio frame count =
    ((Finset.range count).filter fun i => dropsFrame m root base isMmio frame i = true).card := by
  induction count with
  | zero => rfl
  | succ count ih =>
      rw [dropCount, List.range_succ, List.countP_append, List.countP_singleton, Finset.range_add_one, Finset.filter_insert]
      have before : (List.range count).countP (dropsFrame m root base isMmio frame) =
          ((Finset.range count).filter fun i => dropsFrame m root base isMmio frame i = true).card := ih
      split
      · rw [Finset.card_insert_of_notMem (by simp), before]
      · exact before

/-- The pages that a release drops are references that go. -/
theorem FreedRange.count_le (freed : FreedRange m m' roots root base count isMmio) (data : DataInv m roots places)
    (user : UserRange base count) (tracked : isMmio = false → rangePlaces root base count ⊆ places) {cell : Nat}
    (aligned : cell % pageSize = 0) :
    (pageView m' places).count cell + dropCount m root base isMmio (cell / pageSize) count ≤
      (pageView m places).count cell := by
  classical
  set dropped := ((Finset.range count).filter fun i => dropsFrame m root base isMmio (cell / pageSize) i = true).image
    (pageAt root base) with shape
  have card : (dropped : Set Place).ncard = dropCount m root base isMmio (cell / pageSize) count := by
    rw [Set.ncard_coe_finset, shape, dropCount_eq]
    exact Finset.card_image_of_injective _ fun i j same => pageAt_inj.mp same
  have gone : Disjoint ((pageView m' places).refs cell) (dropped : Set Place) := by
    rw [Set.disjoint_left]
    intro place mapped member
    obtain ⟨i, filtered, rfl⟩ := Finset.mem_image.mp (Finset.mem_coe.mp member)
    have inside := Finset.mem_range.mp (Finset.mem_filter.mp filtered).1
    refine (pageView_cleared data mapped freed.leaf).2 (mem_rangePlaces.mp ?_)
    exact Finset.mem_image_of_mem _ (Finset.mem_range.mpr inside)
  have subset : (pageView m' places).refs cell ∪ (dropped : Set Place) ⊆ (pageView m places).refs cell := by
    intro place member
    rcases member with mapped | member
    · exact (pageView_cleared data mapped freed.leaf).1
    · obtain ⟨i, filtered, rfl⟩ := Finset.mem_image.mp (Finset.mem_coe.mp member)
      obtain ⟨bound, drops⟩ := Finset.mem_filter.mp filtered
      have inside := Finset.mem_range.mp bound
      simp only [dropsFrame, Bool.and_eq_true, Bool.not_eq_true', Option.any_eq_true, beq_iff_eq] at drops
      obtain ⟨isData, entry, found, frame⟩ := drops
      have number : (base / pageSize + i) * pageSize = base + i * pageSize := by
        rw [Nat.add_mul, Nat.div_mul_cancel (Nat.dvd_of_mod_eq_zero user.aligned)]
      refine pageView_map.mpr ⟨tracked isData (Finset.mem_image_of_mem _ bound), entry, ?_, ?_⟩
      · change m.findPte root ((base / pageSize + i) * pageSize) = some entry
        rw [number]
        exact found
      · exact frameNumber_inj (entryAddr_aligned entry) aligned frame
  calc (pageView m' places).count cell + dropCount m root base isMmio (cell / pageSize) count
      = ((pageView m' places).refs cell ∪ (dropped : Set Place)).ncard := by
        rw [Set.ncard_union_eq gone (Sharing.refs_finite _ _) dropped.finite_toSet, card]
        rfl
    _ ≤ (pageView m places).count cell := Set.ncard_le_ncard subset (Sharing.refs_finite _ _)

/-- A frame that is still referenced after a release keeps its place and a sound counter. -/
theorem FreedRange.cells (freed : FreedRange m m' roots root base count isMmio) (inv : MemInv shield m roots places)
    (user : UserRange base count) (tracked : isMmio = false → rangePlaces root base count ⊆ places) {place : Place}
    {cell : Nat} (mapped : (pageView m' places).map place = some cell) : Allocated m' cell ∧ cell ∉ Tables m' roots ∧
      Sharing.Sound (m'.phys.pageframes (cell / pageSize)).rc ((pageView m' places).count cell) := by
  have before := (pageView_cleared inv.data mapped freed.leaf).1
  obtain ⟨⟨aligned, nonzero, inside, used⟩, notTable⟩ := inv.data.data place cell before
  have apart : ∀ table ∈ Tables m roots, table ∉ Tables m' roots → table / pageSize ≠ cell / pageSize := by
    intro table owned _ same
    have sameFrame := frameNumber_inj (inv.data.tables.allocated table owned).aligned aligned same
    exact notTable (sameFrame ▸ owned)
  have dropped := freed.frames _ apart
  have fewer := freed.count_le inv.data user tracked aligned
  have positive := Sharing.count_pos mapped
  have sound : Sharing.Sound (m.phys.pageframes (cell / pageSize)).rc ((pageView m places).count cell) :=
    inv.counted cell (Sharing.count_pos before)
  have bound : cell / pageSize < m'.phys.total := by
    rw [freed.total]
    exact inside
  have outside : cell ∉ Tables m' roots := fun owned => notTable (freed.tables owned)
  unfold Sharing.Sound at sound ⊢
  unfold Dropped at dropped
  split at dropped
  · rename_i none
    rw [dropped.2]
    exact ⟨⟨aligned, nonzero, bound, dropped.1.trans used⟩, outside, by omega⟩
  · split at dropped
    · rw [dropped.2]
      exact ⟨⟨aligned, nonzero, bound, dropped.1.trans used⟩, outside, by simp only; omega⟩
    · omega

/-- A release of a region keeps the invariant if the pages of a data region are tracked. -/
theorem MemInv.freed (inv : MemInv shield m roots places) (freed : FreedRange m m' roots root base count isMmio)
    (user : UserRange base count)
    (tracked : isMmio = false → rangePlaces root base count ⊆ places) :
    MemInv shield m' roots places ∧ Spared shield m m' roots := by
  refine ⟨inv.shrink freed.inv inv.data.within ?_ ?_, ⟨?_, freed.kernelHalf, freed.kernelPml4⟩⟩
  · intro place cell mapped
    exact ⟨(pageView_cleared inv.data mapped freed.leaf).1, freed.cells inv user tracked mapped⟩
  · intro page member
    obtain ⟨aligned, notFree, notTable, notData⟩ := inv.shielded page member
    refine ⟨?_, fun owned => notTable (freed.tables owned)⟩
    have apart : ∀ table ∈ Tables m roots, table ∉ Tables m' roots → table / pageSize ≠ page / pageSize := by
      intro table owned _ same
      have sameFrame := frameNumber_inj (inv.data.tables.allocated table owned).aligned aligned same
      exact notTable (sameFrame ▸ owned)
    have none : dropCount m root base isMmio (page / pageSize) count = 0 := by
      rw [dropCount_eq, Finset.card_eq_zero, Finset.filter_eq_empty_iff]
      intro i bound drops
      simp only [dropsFrame, Bool.and_eq_true, Bool.not_eq_true', Option.any_eq_true, beq_iff_eq] at drops
      obtain ⟨isData, entry, found, frame⟩ := drops
      have number : (base / pageSize + i) * pageSize = base + i * pageSize := by
        rw [Nat.add_mul, Nat.div_mul_cancel (Nat.dvd_of_mod_eq_zero user.aligned)]
      refine notData (pageAt root base i) (pageView_map.mpr ⟨tracked isData (Finset.mem_image_of_mem _ bound), entry, ?_, ?_⟩)
      · change m.findPte root ((base / pageSize + i) * pageSize) = some entry
        rw [number]
        exact found
      · exact frameNumber_inj (entryAddr_aligned entry) aligned frame
    have dropped := freed.frames _ apart
    rw [none] at dropped
    intro free
    refine notFree ⟨?_, ?_⟩
    · rw [← freed.total]
      exact free.1
    · rw [← dropped.1]
      exact free.2
  · intro page member
    exact freed.ram page (inv.shielded page member).2.2.1

end

end DoccrOS.Mem
