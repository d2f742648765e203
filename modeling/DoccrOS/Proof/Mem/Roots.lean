import DoccrOS.Proof.Mem.CowPages

namespace DoccrOS.Mem
open Lib.Radix Lib

/-- A new root has an empty user half and the kernel half of the kernel table. -/
structure RootAdded (m m' : Machine) (roots : Set Nat) (root : Nat) : Prop where
  aligned : root % pageSize = 0
  free : m.phys.Free (root / pageSize)
  inv : TableInv m' (insert root roots)
  tables : Tables m' (insert root roots) = insert root (Tables m roots)
  leaf : ∀ root' ∈ roots, ∀ va, UserVa va → m'.findPte root' va = m.findPte root' va
  empty : ∀ va, UserVa va → m'.findPte root va = none
  ram : ∀ page, page ≠ root → m'.ram page = m.ram page
  kernelHalf : m.kernelPml4 ≠ root → ∀ index : Fin 512, 256 ≤ index.val → m'.ram root index = m.ram m.kernelPml4 index
  phys : m'.phys = m.phys.markUsed (root / pageSize)
  kernelPml4 : m'.kernelPml4 = m.kernelPml4

section
variable {m m' : Machine} {roots : Set Nat} {root : Nat}

theorem RootAdded.notTable (added : RootAdded m m' roots root) (inv : TableInv m roots) : root ∉ Tables m roots := by
  intro owned
  have used := (inv.allocated root owned).used
  rw [added.free.2] at used
  exact Bool.false_ne_true used

/-- A creation fails without an effect, or it adds a new root. -/
theorem vmmSpaceCreate_spec {kmallocOk : Bool} {result : Option Space} (inv : TableInv m roots)
    (returned : vmmSpaceCreate m kmallocOk = (result, m')) :
    (result = none ∧ m' = m ∧ (kmallocOk = false ∨ ∀ frame, ¬m.phys.Free frame)) ∨
      ∃ root, result = some ⟨root, [], 0, 0⟩ ∧ RootAdded m m' roots root := by
  unfold vmmSpaceCreate at returned
  cases kmallocOk with
  | false =>
      obtain ⟨rfl, rfl⟩ := Prod.mk.inj returned
      exact Or.inl ⟨rfl, rfl, Or.inl rfl⟩
  | true =>
      rcases physmemAllocTo_one m.phys inv.zeroUsed with ⟨failed, none⟩ | ⟨frame, nonzero, free, allocated⟩
      · simp only [failed, Bool.not_true, Bool.false_eq_true, if_false, if_true] at returned
        obtain ⟨rfl, rfl⟩ := Prod.mk.inj returned
        exact Or.inl ⟨rfl, rfl, Or.inr none⟩
      · right
        have address : frame * pageSize ≠ 0 := by simp [pageSize, nonzero]
        simp only [allocated, address, Bool.not_true, Bool.false_eq_true, if_false] at returned
        obtain ⟨rfl, shape⟩ := Prod.mk.inj returned
        refine ⟨frame * pageSize, rfl, ?_⟩
        have ram : ∀ page, page ≠ frame * pageSize → m'.ram page = m.ram page := by
          intro page different
          rw [← shape]
          simp [copyKernelHalf, Machine.zeroPage, different]
        have low : ∀ index : Fin 512, index.val < 256 → m'.ram (frame * pageSize) index = 0 := by
          intro index small
          have notHigh : ¬256 ≤ index.val := by omega
          rw [← shape]
          simp [copyKernelHalf, Machine.zeroPage, notHigh]
        have phys : m'.phys = m.phys.markUsed frame := by rw [← shape]; rfl
        have fresh : frame * pageSize ∉ Tables m roots := by
          intro owned
          have used := (inv.allocated _ owned).used
          rw [page_div, free.2] at used
          exact Bool.false_ne_true used
        have add : AddRoot m.child m'.child roots userPaths (frame * pageSize) := by
          refine ⟨fresh, ?_, ?_⟩
          · intro index admitted
            have small : index.val < 256 := admitted.2 index rfl
            simp [Machine.child, low index small, entryPresent_eq]
          · intro node index different
            simp only [Machine.child, ram node different]
        have nodes : Tables m' (insert (frame * pageSize) roots) = insert (frame * pageSize) (Tables m roots) := add.nodes
        refine ⟨by simp [pageSize], by rw [page_div]; exact free, ⟨add.forest inv.forest, ?_, ?_⟩, nodes, ?_, ?_, ram,
          ?_, by rw [page_div]; exact phys, by rw [← shape]; rfl⟩
        · intro table owned
          rw [nodes] at owned
          rcases owned with new | old
          · rw [new]
            refine ⟨by simp [pageSize], address, ?_, ?_⟩
            · rw [page_div, phys]
              exact free.1
            · rw [page_div, phys, markUsed_used, if_pos rfl]
          · obtain ⟨aligned, nonzero', inside, used⟩ := inv.allocated table old
            refine ⟨aligned, nonzero', ?_, ?_⟩
            · rw [phys]
              exact inside
            · rw [phys, markUsed_used, used]
              simp
        · rw [phys, markUsed_used, inv.zeroUsed]
          simp
        · intro root' isRoot' va user
          rw [findPte_eq, findPte_eq, add.walk_old isRoot' _ (tablePath_user user)]
          cases reached : walk m.child root' (tablePath va) with
          | none => rfl
          | some pt =>
              have owned : pt ∈ Tables m roots := mem_nodes isRoot' (tablePath_user user) reached
              simp only [Option.bind_some, ram pt fun same => fresh (same ▸ owned)]
        · intro va user
          rw [findPte_eq, add.walk_root _ (tablePath_user user) (by simp [tablePath])]
          rfl
        · intro notKernel index high
          rw [← shape]
          simp [copyKernelHalf, Machine.zeroPage, high, notKernel]

/-- The frame of a root that has no live space any more is released. -/
structure RootRemoved (m m' : Machine) (roots : Set Nat) (root : Nat) : Prop where
  inv : TableInv m' (roots \ {root})
  tables : Tables m' (roots \ {root}) ⊆ Tables m roots \ {root}
  leaf : ∀ root' va, m'.findPte root' va = m.findPte root' va
  ram : m'.ram = m.ram
  phys : m'.phys = m.phys.markFree (root / pageSize)
  kernelPml4 : m'.kernelPml4 = m.kernelPml4

theorem removeRoot_spec (inv : TableInv m roots) (isRoot : root ∈ roots) :
    RootRemoved m { m with phys := physmemFreeTo m.phys root 1 } roots root := by
  obtain ⟨aligned, nonzero, inside, used⟩ := inv.allocated root (root_mem_nodes isRoot)
  have address : root / pageSize * pageSize = root := Nat.div_mul_cancel (Nat.dvd_of_mod_eq_zero aligned)
  have phys : physmemFreeTo m.phys root 1 = m.phys.markFree (root / pageSize) := by
    have freed := physmemFreeTo_one m.phys inside
    rw [address] at freed
    exact freed
  rw [phys]
  have tables : Tables { m with phys := m.phys.markFree (root / pageSize) } (roots \ {root}) ⊆
      Tables m roots \ {root} := by
    intro table owned
    obtain ⟨first, ⟨isFirst, different⟩, path, admitted, reached⟩ := owned
    refine ⟨mem_nodes isFirst admitted reached, ?_⟩
    intro isTable
    have isTable' : table = root := isTable
    rw [isTable'] at reached
    exact different (inv.forest isFirst isRoot admitted userPaths.nil reached (walk_nil _ _)).1
  refine ⟨⟨inv.forest.mono Set.sdiff_subset, ?_, ?_⟩, tables, fun _ _ => rfl, rfl, rfl, rfl⟩
  · intro table owned
    obtain ⟨old, different⟩ := tables owned
    obtain ⟨aligned', nonzero', inside', used'⟩ := inv.allocated table old
    refine ⟨aligned', nonzero', inside', ?_⟩
    rw [markFree_used, if_neg fun same => different (frameNumber_inj aligned' aligned same)]
    exact used'
  · have notZero : 0 ≠ root / pageSize := by
      intro zero
      simp only [pageSize] at aligned zero
      omega
    rw [markFree_used, if_neg notZero]
    exact inv.zeroUsed

end

section
variable {rel : Nat → Nat → Prop} {keep : Set Nat} {m m' : Machine} {roots : Finset Nat} {root : Nat}

/-- A new root has no mapped page, and the pages of the other roots stay. -/
theorem PageInv.addRoot (inv : PageInv rel keep m roots) (added : RootAdded m m' roots root) :
    PageInv rel keep m' (insert root roots) ∧ (∀ page, page < 2 ^ 35 → look m' (root, page) = none) ∧
      ∀ place ∈ userPlaces roots, look m' place = look m place := by
  have notTable := added.notTable inv.data.tables
  have notRoot : root ∉ roots := fun isRoot => notTable (root_mem_nodes isRoot)
  have used : ∀ frame, m.phys.used frame = true → m'.phys.used frame = true := by
    intro frame taken
    rw [added.phys, markUsed_used, taken]
    simp
  have map : ∀ place, (userView m' (insert root roots)).map place = (userView m roots).map place := by
    intro place
    by_cases member : place ∈ userPlaces (insert root roots)
    · obtain ⟨isRoot, small⟩ := mem_userPlaces.mp member
      rcases Finset.mem_insert.mp isRoot with new | old
      · have outside : place ∉ userPlaces roots := fun tracked => notRoot (new ▸ (mem_userPlaces.mp tracked).1)
        simp [pageView, outside, new, added.empty _ (userVa_page small)]
      · simp [pageView, member, mem_userPlaces.mpr ⟨old, small⟩, added.leaf place.1 old _ (userVa_page small)]
    · have outside : place ∉ userPlaces roots := by
        intro tracked
        obtain ⟨isRoot, small⟩ := mem_userPlaces.mp tracked
        exact member (mem_userPlaces.mpr ⟨Finset.mem_insert_of_mem isRoot, small⟩)
      simp [pageView, member, outside]
  have held : ∀ place cell, (userView m roots).map place = some cell → cell ≠ root ∧
      cell / pageSize ≠ root / pageSize := by
    intro place cell mapped
    obtain ⟨allocated, _⟩ := inv.data.data place cell mapped
    have apart : cell / pageSize ≠ root / pageSize := by
      intro same
      have taken := allocated.used
      rw [same, added.free.2] at taken
      exact Bool.false_ne_true taken
    exact ⟨fun same => apart (by rw [same]), apart⟩
  have data : DataInv m' (insert root roots : Finset Nat) (userPlaces (insert root roots)) := by
    rw [Finset.coe_insert]
    refine ⟨added.inv, ?_, ?_⟩
    · intro place member
      obtain ⟨isRoot, small⟩ := mem_userPlaces.mp member
      rw [← Finset.coe_insert]
      exact ⟨isRoot, small⟩
    · intro place cell mapped
      have mapped' := (map place).symm.trans mapped
      obtain ⟨⟨aligned, nonzero, inside, taken⟩, outside⟩ := inv.data.data place cell mapped'
      refine ⟨⟨aligned, nonzero, ?_, used _ taken⟩, ?_⟩
      · rw [added.phys]
        exact inside
      · rw [added.tables]
        intro owned
        rcases owned with same | old
        · exact (held place cell mapped').1 same
        · exact outside old
  refine ⟨inv.congr data map ?_ ?_, ?_, ?_⟩
  · intro place cell mapped
    change (m'.phys.pageframes (cell / pageSize)).rc = (m.phys.pageframes (cell / pageSize)).rc
    rw [added.phys, markUsed_pageframes, if_neg (held place cell mapped).2]
  · intro place mapped written
    obtain ⟨isRoot, small⟩ := inv.data.within place (pageView_mem mapped)
    obtain ⟨entry, found, allowed⟩ := written
    rw [added.leaf place.1 isRoot _ (userVa_page small)] at found
    exact ⟨entry, found, allowed⟩
  · intro page small
    simp [look, added.empty _ (userVa_page small)]
  · intro place member
    obtain ⟨isRoot, small⟩ := mem_userPlaces.mp member
    have leaf := added.leaf place.1 isRoot _ (userVa_page small)
    cases found : m.findPte place.1 (place.2 * pageSize) with
    | none => simp [look, leaf, found]
    | some entry =>
        have mapped : (userView m roots).map place = some (entryAddr entry) :=
          pageView_map.mpr ⟨member, entry, found, rfl⟩
        simp [look, leaf, found, added.ram _ (held place _ mapped).1]

/-- A root without mapped pages goes, and the pages of the other roots stay. -/
theorem PageInv.removeRoot (inv : PageInv rel keep m roots) (isRoot : root ∈ roots)
    (empty : ∀ page, page < 2 ^ 35 → look m (root, page) = none) (removed : RootRemoved m m' roots root) :
    PageInv rel keep m' (roots.erase root) ∧ ∀ place, look m' place = look m place := by
  have sameLook : ∀ place, look m' place = look m place := by
    intro place
    simp only [look, removed.leaf, removed.ram]
  have map : ∀ place, (userView m' (roots.erase root)).map place = (userView m roots).map place := by
    intro place
    by_cases member : place ∈ userPlaces (roots.erase root)
    · obtain ⟨isRoot', small⟩ := mem_userPlaces.mp member
      simp [pageView, member, mem_userPlaces.mpr ⟨Finset.mem_of_mem_erase isRoot', small⟩, removed.leaf]
    · by_cases old : place ∈ userPlaces roots
      · obtain ⟨isRoot', small⟩ := mem_userPlaces.mp old
        have here : place.1 = root := by
          by_contra different
          exact member (mem_userPlaces.mpr ⟨Finset.mem_erase.mpr ⟨different, isRoot'⟩, small⟩)
        have absent : (userView m roots).map place = none := by
          rw [← look_none old, ← empty place.2 small, ← here]
        rw [absent]
        simp [pageView, member]
      · simp [pageView, member, old]
  have apart : ∀ place cell, (userView m roots).map place = some cell → cell / pageSize ≠ root / pageSize := by
    intro place cell mapped same
    obtain ⟨allocated, notTable⟩ := inv.data.data place cell mapped
    have table : root ∈ Tables m roots := root_mem_nodes isRoot
    have sameFrame := frameNumber_inj allocated.aligned (inv.data.tables.allocated root table).aligned same
    exact notTable (sameFrame ▸ table)
  have data : DataInv m' (roots.erase root : Finset Nat) (userPlaces (roots.erase root)) := by
    rw [Finset.coe_erase]
    refine ⟨removed.inv, ?_, ?_⟩
    · intro place member
      obtain ⟨isRoot', small⟩ := mem_userPlaces.mp member
      rw [← Finset.coe_erase]
      exact ⟨isRoot', small⟩
    · intro place cell mapped
      have mapped' := (map place).symm.trans mapped
      obtain ⟨⟨aligned, nonzero, inside, taken⟩, outside⟩ := inv.data.data place cell mapped'
      refine ⟨⟨aligned, nonzero, ?_, ?_⟩, fun owned => outside (removed.tables owned).1⟩
      · rw [removed.phys]
        exact inside
      · rw [removed.phys, markFree_used, if_neg (apart place cell mapped')]
        exact taken
  refine ⟨inv.congr data map ?_ ?_, sameLook⟩
  · intro place cell mapped
    change (m'.phys.pageframes (cell / pageSize)).rc = (m.phys.pageframes (cell / pageSize)).rc
    rw [removed.phys, markFree_pageframes, if_neg (apart place cell mapped)]
  · intro place _ written
    obtain ⟨entry, found, allowed⟩ := written
    rw [removed.leaf] at found
    exact ⟨entry, found, allowed⟩

end

end DoccrOS.Mem
