import DoccrOS.Proof.Mem.CowCalls
import DoccrOS.Proof.Mem.KernelHalf
import DoccrOS.Proof.Mem.Roots
import DoccrOS.Proof.Mem.UserMemory

namespace DoccrOS.Mem
open Lib.Radix Lib

/-- The regions of a space are ranges of whole user pages, and the pages of its data regions are tracked. They may overlap. -/
structure RegionsInv (space : Space) (places : Finset Place) : Prop where
  regions : ∀ region ∈ space.regions, RegionInv region
  tracked : ∀ region ∈ space.regions, hasFlag region.flags vmmRegionMmio = false →
    rangePlaces space.pml4Phys region.base (region.size / pageSize) ⊆ places

/-- The kernel table and the tables below the kernel halves of the roots. -/
def kernelPages (m : Machine) (roots : Set Nat) : Set Nat :=
  {page | page = m.kernelPml4 ∨ ∃ root, (root ∈ roots ∨ root = m.kernelPml4) ∧ KernelTable m root page}

section
variable {shield : Set Nat} {m m' : Machine} {roots : Set Nat} {places places' : Finset Place} {space space' : Space}
  {base count root va : Nat}

/-- The kernel half is translated as before if the kernel pages are spared. -/
theorem Spared.findPte_kernel (spared : Spared (kernelPages m roots) m m' roots) (isRoot : root ∈ roots ∨ root = m.kernelPml4)
    (kernel : KernelVa va) : m'.findPte root va = m.findPte root va := by
  refine Mem.findPte_kernel kernel ?_ ?_
  · intro index high
    rcases isRoot with member | same
    · exact spared.kernelHalf root member index high
    · rw [same, spared.ram _ (Or.inl rfl)]
  · intro table owned
    exact spared.ram table (Or.inr ⟨root, isRoot, owned⟩)

/-- The kernel halves of the roots have the same tables if the kernel pages are spared. -/
theorem Spared.kernelTable_iff (spared : Spared (kernelPages m roots) m m' roots) (isRoot : root ∈ roots ∨ root = m.kernelPml4)
    (table : Nat) : KernelTable m' root table ↔ KernelTable m root table := by
  apply kernelTable_congr
  · intro index high
    rcases isRoot with member | same
    · exact spared.kernelHalf root member index high
    · rw [same, spared.ram _ (Or.inl rfl)]
  · intro table owned
    exact spared.ram table (Or.inr ⟨root, isRoot, owned⟩)

theorem Spared.kernelPages_eq (spared : Spared (kernelPages m roots) m m' roots) : kernelPages m' roots = kernelPages m roots := by
  ext page
  unfold kernelPages
  rw [Set.mem_ofPred_eq, Set.mem_ofPred_eq, spared.kernelPml4]
  apply or_congr Iff.rfl
  apply exists_congr
  intro root
  apply and_congr_right
  intro isRoot
  exact spared.kernelTable_iff isRoot page

theorem RegionsInv.mono (inv : RegionsInv space places) (more : places ⊆ places') : RegionsInv space places' :=
  ⟨inv.regions, fun region member isData => (inv.tracked region member isData).trans more⟩

theorem RegionsInv.sublist (inv : RegionsInv space places) (sameRoot : space'.pml4Phys = space.pml4Phys)
    (fewer : space'.regions.Sublist space.regions) : RegionsInv space' places := by
  refine ⟨fun region member => inv.regions region (fewer.subset member), ?_⟩
  intro region member isData
  rw [sameRoot]
  exact inv.tracked region (fewer.subset member) isData

theorem RegionsInv.record {node : Region} (inv : RegionsInv space places) (region : RegionInv node)
    (tracked : hasFlag node.flags vmmRegionMmio = false →
      rangePlaces space.pml4Phys node.base (node.size / pageSize) ⊆ places) : RegionsInv (space.record node) places := by
  have members (other : Region) (member : other ∈ (space.record node).regions) : other = node ∨ other ∈ space.regions :=
    List.mem_cons.mp ((insertRegion_perm node space.regions).mem_iff.mp member)
  constructor
  · intro other member
    rcases members other member with rfl | old
    · exact region
    · exact inv.regions other old
  · intro other member isData
    rcases members other member with rfl | old
    · exact tracked isData
    · exact inv.tracked other old isData

/-- The region that an allocation records is tracked with its pages. -/
theorem RegionsInv.allocated (inv : RegionsInv space places) (range : UserRange base count) (flags : BitVec 32) :
    RegionsInv (space.record ⟨base, wrap64 (count * pageSize), vmmRegionUsed ||| flags⟩)
      (places ∪ rangePlaces space.pml4Phys base count) := by
  refine (inv.mono Finset.subset_union_left).record (newRegion_inv range (recorded_used flags)) ?_
  have size : wrap64 (count * pageSize) / pageSize = count := by
    have fits := range.fits
    simp only [pageSize] at fits
    rw [wrap64, Nat.mod_eq_of_lt (by simp only [pageSize]; omega), Nat.mul_div_cancel _ (by decide)]
  intro _
  simp only [size]
  exact Finset.subset_union_right

/-- An allocation of any user range keeps the invariants of the memory and of its space. -/
theorem MemInv.alloc {value : Nat} {flags : BitVec 32} {nodeOk : Bool} (inv : MemInv shield m roots places)
    (regions : RegionsInv space places) (isRoot : space.pml4Phys ∈ roots) (range : UserRange base count)
    (outcome : AllocOutcome m roots space base count flags nodeOk value m' space') :
    ∃ places', places ⊆ places' ∧ MemInv shield m' roots places' ∧ RegionsInv space' places' ∧
      space'.pml4Phys = space.pml4Phys ∧ Spared shield m m' roots := by
  cases outcome with
  | refused why => exact ⟨places, Finset.Subset.refl _, inv, regions, rfl, Spared.refl m⟩
  | failed i frames full inside node filled exhausted _ undone =>
      obtain ⟨inv₁, spared₁⟩ := inv.allocated filled (flagsToPte_page flags) isRoot (range.shorter inside.le)
      obtain ⟨inv₂, spared₂⟩ := inv₁.unmapped undone
      exact ⟨_, Finset.subset_union_left, inv₂, regions.mono Finset.subset_union_left, rfl, spared₁.trans spared₂⟩
  | done frames _ positive node filled =>
      obtain ⟨inv₁, spared₁⟩ := inv.allocated filled (flagsToPte_page flags) isRoot range
      exact ⟨_, Finset.subset_union_left, inv₁, regions.allocated range flags, rfl, spared₁⟩

/-- The bytes of a region end below the end of the address range. -/
theorem RegionInv.stop {region : Region} (inv : RegionInv region) :
    region.size / pageSize * pageSize = region.size ∧ wrap64 (region.base + region.size) = region.base + region.size :=
  Region.stop inv.range inv.whole

/-- The addresses of a region are those of its pages. -/
theorem RegionInv.holds_iff {region : Region} (inv : RegionInv region) :
    region.holds va = true ↔ InRange region.base (region.size / pageSize) va := Region.holds_iff inv.range inv.whole

theorem RegionInv.holds_user {region : Region} (inv : RegionInv region) (holds : region.holds va = true) : UserVa va :=
  Region.holds_user inv.range inv.whole holds

theorem RegionInv.holds_base {region : Region} (inv : RegionInv region) (positive : 0 < region.size) :
    region.holds region.base = true := by
  rw [Region.holds, inv.stop.2, Bool.and_eq_true, decide_eq_true_eq, decide_eq_true_eq]
  omega

/-- A mapped page of a data region is tracked data. -/
theorem RegionsInv.tracks {region : Region} {entry : Word} (regions : RegionsInv space places)
    (member : region ∈ space.regions) (isData : hasFlag region.flags vmmRegionMmio = false)
    (holds : region.holds va = true) (found : m.findPte space.pml4Phys va = some entry) :
    (pageView m places).map (space.pml4Phys, va / pageSize) = some (entryAddr entry) := by
  refine pageView_map.mpr ⟨regions.tracked region member isData ?_, entry, ?_, rfl⟩
  · have inside := (regions.regions region member).holds_iff.mp holds
    refine mem_rangePlaces.mpr ⟨rfl, ?_⟩
    unfold InRange at *
    rw [page_div]
    exact inside
  · exact (findPte_align m space.pml4Phys va).trans found

/-- The frames that a release of a region drops are tracked data. -/
theorem MemInv.dropsData {cur : Region} (inv : MemInv shield m roots places) (regions : RegionsInv space places)
    (member : cur ∈ space.regions) :
    DropsData m roots space.pml4Phys cur.base (cur.size / pageSize) (hasFlag cur.flags vmmRegionMmio) := by
  have range := (regions.regions cur member).range
  intro i entry inside isData mapped
  have tracked := regions.tracked cur member isData
  refine inv.data.data (pageAt space.pml4Phys cur.base i) (entryAddr entry) (pageView_map.mpr ⟨?_, entry, ?_, rfl⟩)
  · exact tracked (Finset.mem_image_of_mem _ (Finset.mem_range.mpr inside))
  · have number : (cur.base / pageSize + i) * pageSize = cur.base + i * pageSize := by
      rw [Nat.add_mul, Nat.div_mul_cancel (Nat.dvd_of_mod_eq_zero range.aligned)]
    change m.findPte space.pml4Phys ((cur.base / pageSize + i) * pageSize) = some entry
    rw [number]
    exact mapped

theorem selected_mem {cur : Region} {vaddr : Nat} (found : space.selected vaddr = some cur) : cur ∈ space.regions := by
  unfold Space.selected at found
  split at found
  · cases found
  · exact List.mem_of_find?_eq_some found

/-- A release keeps the invariants of the memory and of its space. -/
theorem MemInv.free {vaddr : Nat} (inv : MemInv shield m roots places) (regions : RegionsInv space places)
    (isRoot : space.pml4Phys ∈ roots) (returned : vmmSpaceFree m space vaddr = (m', space')) :
    MemInv shield m' roots places ∧ RegionsInv space' places ∧ space'.pml4Phys = space.pml4Phys ∧
      Spared shield m m' roots := by
  have outcome := vmmSpaceFree_spec inv.data.tables isRoot ?_ returned
  · cases outcome with
    | missing none => exact ⟨inv, regions, rfl, Spared.refl m⟩
    | freed cur _ found range =>
        have tracked := regions.tracked cur (selected_mem found)
        obtain ⟨inv', spared⟩ := inv.freed range (regions.regions cur (selected_mem found)).range tracked
        exact ⟨inv', regions.sublist rfl List.eraseP_sublist, rfl, spared⟩
  · intro cur found
    exact ⟨(regions.regions cur (selected_mem found)).range, inv.dropsData regions (selected_mem found)⟩

/-- The loop of `vmm_space_destroy` spares the shielded pages. -/
theorem MemInv.destroyLoop {fuel : Nat} (inv : MemInv shield m roots places) (regions : RegionsInv space places)
    (isRoot : space.pml4Phys ∈ roots) (returned : vmmSpaceDestroyLoop fuel m space = .ok (m', space')) :
    Spared shield m m' roots := by
  induction fuel generalizing m space with
  | zero => cases returned
  | succ fuel ih =>
      rw [vmmSpaceDestroyLoop] at returned
      split at returned
      · cases returned
        exact Spared.refl _
      · rename_i cur rest isRegions
        cases freed : vmmSpaceFree m space cur.base with
        | mk m₁ space₁ =>
            obtain ⟨inv₁, regions₁, sameRoot, spared⟩ := inv.free regions isRoot freed
            rw [freed] at returned
            exact spared.trans (ih inv₁ regions₁ (sameRoot ▸ isRoot) returned)

theorem MemInv.destroy (inv : MemInv shield m roots places) (regions : RegionsInv space places)
    (isRoot : space.pml4Phys ∈ roots) (returned : vmmSpaceDestroy m space = .ok m') : Spared shield m m' roots := by
  obtain ⟨⟨m₁, space₁⟩, loop, rest⟩ := Result.bind_ok returned
  have spared := inv.destroyLoop regions isRoot loop
  simp only at rest
  split at rest
  · cases rest
    exact ⟨spared.ram, spared.kernelHalf, spared.kernelPml4⟩
  · cases rest
    exact spared

/-- The first tables of the machine: the kernel table and the tables below its upper half are page-aligned used frames. -/
def KernelUsed (m : Machine) : Prop :=
  (m.kernelPml4 % pageSize = 0 ∧ ¬m.phys.Free (m.kernelPml4 / pageSize)) ∧
    ∀ table, KernelTable m m.kernelPml4 table → ¬m.phys.Free (table / pageSize)

theorem kernelTable_aligned {table : Nat} (owned : KernelTable m root table) : table % pageSize = 0 := by
  obtain ⟨index, _, path, _, reached⟩ := owned
  have link (parent : Nat) (i : Fin 512) (below : m.child parent i = some table) : table % pageSize = 0 := by
    unfold Machine.child at below
    split at below
    · rw [← Option.some.inj below]
      exact entryAddr_aligned _
    · cases below
  induction path using List.reverseRecOn with
  | nil => exact link root index (by simpa [walk] using reached)
  | append_singleton path i _ =>
      rw [← List.cons_append, walk_snoc] at reached
      obtain ⟨parent, _, below⟩ := Option.bind_eq_some_iff.mp reached
      exact link parent i below

/-- The kernel pages of a machine without spaces. -/
theorem KernelUsed.shielded (used : KernelUsed m) {page : Nat} (member : page ∈ kernelPages m ∅) :
    page % pageSize = 0 ∧ ¬m.phys.Free (page / pageSize) := by
  rcases member with rfl | ⟨root, isRoot | rfl, owned⟩
  · exact used.1
  · exact isRoot.elim
  · exact ⟨kernelTable_aligned owned, used.2 page owned⟩

/-- A new root shares the kernel half and has no user pages. -/
theorem MemInv.addRoot (inv : MemInv (kernelPages m roots) m roots places) (added : RootAdded m m' roots root) :
    MemInv (kernelPages m roots) m' (insert root roots) places ∧ Spared (kernelPages m roots) m m' roots ∧
      kernelPages m' (insert root roots) = kernelPages m roots := by
  have apart (page : Nat) (member : page ∈ kernelPages m roots) : page ≠ root := by
    intro same
    exact (inv.shielded page member).2.1 (same ▸ added.free)
  have different : m.kernelPml4 ≠ root := apart _ (Or.inl rfl)
  have notRoot : ∀ root' ∈ roots, root' ≠ root := by
    intro root' isRoot same
    exact added.notTable inv.data.tables (same ▸ root_mem_nodes isRoot)
  have spared : Spared (kernelPages m roots) m m' roots :=
    ⟨fun page member => added.ram page (apart page member), fun root' isRoot _ _ => by rw [added.ram _ (notRoot _ isRoot)],
      added.kernelPml4⟩
  have fresh (table : Nat) : KernelTable m' root table ↔ KernelTable m m.kernelPml4 table :=
    kernelTable_congr (added.kernelHalf different) fun table owned => spared.ram table (Or.inr ⟨_, Or.inr rfl, owned⟩)
  have pages : kernelPages m' (insert root roots) = kernelPages m roots := by
    ext page
    unfold kernelPages
    simp only [Set.mem_ofPred_eq, Set.mem_insert_iff, added.kernelPml4]
    constructor
    · rintro (same | ⟨root', (rfl | member) | rfl, owned⟩)
      · exact Or.inl same
      · exact Or.inr ⟨_, Or.inr rfl, (fresh page).mp owned⟩
      · exact Or.inr ⟨_, Or.inl member, (spared.kernelTable_iff (Or.inl member) page).mp owned⟩
      · exact Or.inr ⟨_, Or.inr rfl, (spared.kernelTable_iff (Or.inr rfl) page).mp owned⟩
    · rintro (same | ⟨root', member | rfl, owned⟩)
      · exact Or.inl same
      · exact Or.inr ⟨_, Or.inl (Or.inr member), (spared.kernelTable_iff (Or.inl member) page).mpr owned⟩
      · exact Or.inr ⟨_, Or.inr rfl, (spared.kernelTable_iff (Or.inr rfl) page).mpr owned⟩
  have maps (place : Place) : (pageView m' places).map place = (pageView m places).map place := by
    by_cases tracked : place ∈ places
    · obtain ⟨isRoot, small⟩ := inv.data.within place tracked
      simp only [pageView, tracked, if_true, added.leaf place.1 isRoot _ (userVa_page small)]
    · simp [pageView, tracked]
  have frames (cell : Nat) (allocated : Allocated m cell) : cell / pageSize ≠ root / pageSize := by
    intro same
    have isUsed := allocated.used
    rw [same, added.free.2] at isUsed
    exact Bool.false_ne_true isUsed
  refine ⟨⟨⟨added.inv, ?_, ?_⟩, ?_, ?_⟩, spared, pages⟩
  · intro place tracked
    obtain ⟨isRoot, small⟩ := inv.data.within place tracked
    exact ⟨Set.mem_insert_of_mem _ isRoot, small⟩
  · intro place cell mapped
    rw [maps] at mapped
    obtain ⟨allocated, notTable⟩ := inv.data.data place cell mapped
    have other := frames cell allocated
    refine ⟨⟨allocated.aligned, allocated.nonzero, ?_, ?_⟩, ?_⟩
    · rw [added.phys]
      exact allocated.inside
    · rw [added.phys, markUsed_used, if_neg other]
      exact allocated.used
    · rw [added.tables]
      rintro (rfl | owned)
      · exact other rfl
      · exact notTable owned
  · intro cell referenced
    have sameCount : (pageView m' places).count cell = (pageView m places).count cell := by
      simp only [Sharing.count, Sharing.refs, maps]
    rw [sameCount] at referenced ⊢
    obtain ⟨place, mapped⟩ := Sharing.exists_of_count_pos referenced
    have other := frames cell (inv.data.data place cell mapped).1
    have sameRc : (pageView m' places).rc cell = (pageView m places).rc cell := by
      change (m'.phys.pageframes (cell / pageSize)).rc = (m.phys.pageframes (cell / pageSize)).rc
      rw [added.phys, markUsed_pageframes, if_neg other]
    rw [sameRc]
    exact inv.counted cell referenced
  · intro page member
    obtain ⟨aligned, notFree, notTable, notData⟩ := inv.shielded page member
    refine ⟨aligned, ?_, ?_, ?_⟩
    · intro free
      apply notFree
      rw [added.phys] at free
      refine ⟨free.1, ?_⟩
      have unused := free.2
      rw [markUsed_used] at unused
      split at unused
      · cases unused
      · exact unused
    · rw [added.tables]
      rintro (same | owned)
      · exact apart page member same
      · exact notTable owned
    · intro place mapped
      rw [maps] at mapped
      exact notData place mapped

/-- A machine without spaces has the invariant. -/
theorem KernelUsed.memInv (used : KernelUsed m) (tables : TableInv m ∅) (empty : Tables m ∅ = ∅) :
    MemInv (kernelPages m ∅) m ∅ ∅ := by
  have unmapped (place : Place) : (pageView m ∅).map place = none := by simp [pageView]
  refine ⟨⟨tables, fun place member => absurd member (Finset.notMem_empty place), ?_⟩, ?_, ?_⟩
  · intro place cell mapped
    rw [unmapped] at mapped
    cases mapped
  · intro cell referenced
    obtain ⟨place, mapped⟩ := Sharing.exists_of_count_pos referenced
    rw [unmapped] at mapped
    cases mapped
  · intro page member
    obtain ⟨aligned, notFree⟩ := used.shielded member
    refine ⟨aligned, notFree, by rw [empty]; exact Set.notMem_empty page, ?_⟩
    intro place mapped
    rw [unmapped] at mapped
    cases mapped

end

end DoccrOS.Mem
