import DoccrOS.Construction.Mem.Vmm
import DoccrOS.Proof.Mem.Paging

namespace DoccrOS.Mem
open Lib.Radix

/-- Every table below a root holds a present entry. -/
def AllOccupied (m : Machine) (roots : Set Nat) : Prop :=
  ∀ table ∈ Tables m roots, table ∉ roots → Occupied m table

/-- Every table below a root except one holds a present entry. -/
def OccupiedExcept (m : Machine) (roots : Set Nat) (exempt : Nat) : Prop :=
  ∀ table ∈ Tables m roots, table ∉ roots → table ≠ exempt → Occupied m table

/-- The tables of `m'` are those of `m` less some that were released, and nothing else changes hands. -/
structure Pruned (m m' : Machine) (roots : Set Nat) : Prop where
  inv : TableInv m' roots
  walks : ∀ root ∈ roots, ∀ path table, userPaths.holds path → walk m'.child root path = some table →
    walk m.child root path = some table
  leaf : ∀ root ∈ roots, ∀ va, UserVa va → m'.findPte root va = m.findPte root va
  ram : ∀ page, page ∉ Tables m roots → m'.ram page = m.ram page
  kernelHalf : ∀ root ∈ roots, ∀ index : Fin 512, 256 ≤ index.val → m'.ram root index = m.ram root index
  gone : ∀ table ∈ Tables m roots, table ∉ Tables m' roots → m'.phys.used (table / pageSize) = false ∧
    m'.phys.pageframes (table / pageSize) = ⟨0, frameFree⟩
  kept : ∀ frame, (∀ table ∈ Tables m roots, table ∉ Tables m' roots → table / pageSize ≠ frame) →
    m'.phys.used frame = m.phys.used frame ∧ m'.phys.pageframes frame = m.phys.pageframes frame
  total : m'.phys.total = m.phys.total
  kernelPml4 : m'.kernelPml4 = m.kernelPml4

section
variable {m m' m'' : Machine} {roots : Set Nat}

theorem Pruned.refl (inv : TableInv m roots) : Pruned m m roots where
  inv := inv
  walks _ _ _ _ _ reached := reached
  leaf _ _ _ _ := rfl
  ram _ _ := rfl
  kernelHalf _ _ _ _ := rfl
  gone _ owned notOwned := absurd owned notOwned
  kept _ _ := ⟨rfl, rfl⟩
  total := rfl
  kernelPml4 := rfl

theorem Pruned.tables (pruned : Pruned m m' roots) : Tables m' roots ⊆ Tables m roots := by
  intro table owned
  obtain ⟨root, isRoot, path, admitted, reached⟩ := owned
  exact mem_nodes isRoot admitted (pruned.walks root isRoot path table admitted reached)

theorem Pruned.trans (first : Pruned m m' roots) (second : Pruned m' m'' roots) : Pruned m m'' roots where
  inv := second.inv
  walks root isRoot path table admitted reached :=
    first.walks root isRoot path table admitted (second.walks root isRoot path table admitted reached)
  leaf root isRoot va user := (second.leaf root isRoot va user).trans (first.leaf root isRoot va user)
  ram page notOwned := (second.ram page fun owned => notOwned (first.tables owned)).trans (first.ram page notOwned)
  kernelHalf root isRoot index high :=
    (second.kernelHalf root isRoot index high).trans (first.kernelHalf root isRoot index high)
  gone table owned notOwned := by
    by_cases middle : table ∈ Tables m' roots
    · exact second.gone table middle notOwned
    · obtain ⟨free, frame⟩ := first.gone table owned middle
      have apart : ∀ other ∈ Tables m' roots, other ∉ Tables m'' roots → other / pageSize ≠ table / pageSize := by
        intro other otherOwned _ same
        have used := (first.inv.allocated other otherOwned).used
        rw [same, free] at used
        exact Bool.false_ne_true used
      rw [(second.kept _ apart).1, (second.kept _ apart).2]
      exact ⟨free, frame⟩
  kept frame apart := by
    have late := second.kept frame fun table owned notOwned => apart table (first.tables owned) notOwned
    have early := first.kept frame fun table owned notOwned => apart table owned fun here =>
      notOwned (second.tables here)
    exact ⟨late.1.trans early.1, late.2.trans early.2⟩
  total := second.total.trans first.total
  kernelPml4 := second.kernelPml4.trans first.kernelPml4

theorem tableEmpty_iff {table : Nat} : m.tableEmpty table = true ↔ ¬Occupied m table := by
  simp [Machine.tableEmpty, Occupied]

theorem releaseTable_child {parent query : Nat} {index slot : Fin 512} :
    (releaseTable m parent index).child query slot =
      if query = parent ∧ slot = index then none else m.child query slot := by
  have same : (releaseTable m parent index).child query slot = (m.setEntry parent index 0).child query slot := rfl
  rw [same, setEntry_child]
  simp [entryPresent_eq]

/-- The release of an empty table is an unlink. -/
theorem releaseTable_unlink {root parent child : Nat} {path : List (Fin 512)} {index : Fin 512}
    (isRoot : root ∈ roots) (reached : walk m.child root path = some parent)
    (admitted : userPaths.holds (path ++ [index])) (present : m.child parent index = some child)
    (empty : ¬Occupied m child) :
    Unlink m.child (releaseTable m parent index).child roots userPaths root path index parent child := by
  refine ⟨isRoot, admitted, reached, present, ?_, ?_, ?_⟩
  · intro slot
    cases below : m.child child slot with
    | none => rfl
    | some table => exact absurd (child_occupied m child slot below) empty
  · rw [releaseTable_child, if_pos ⟨rfl, rfl⟩]
  · intro node slot notHere
    rw [releaseTable_child, if_neg notHere]

theorem releaseTable_phys {parent child : Nat} {index : Fin 512} (present : m.child parent index = some child)
    (allocated : Allocated m child) : (releaseTable m parent index).phys = m.phys.markFree (child / pageSize) := by
  have address : entryAddr (m.ram parent index) = child / pageSize * pageSize := by
    have shown : entryAddr (m.ram parent index) = child := by
      unfold Machine.child at present
      split at present
      · injection present
      · cases present
    rw [shown, Nat.div_mul_cancel (Nat.dvd_of_mod_eq_zero allocated.aligned)]
  rw [releaseTable, address, physmemFreeTo_one m.phys allocated.inside]

/-- The release of an empty table changes no leaf entry. -/
theorem releaseTable_leaf {root parent child : Nat} {path : List (Fin 512)} {index : Fin 512}
    (inv : TableInv m roots) (empty : ¬Occupied m child)
    (unlink : Unlink m.child (releaseTable m parent index).child roots userPaths root path index parent child)
    {root' va : Nat} (isRoot' : root' ∈ roots) (user : UserVa va) :
    (releaseTable m parent index).findPte root' va = m.findPte root' va := by
  obtain ⟨new, old⟩ := unlink.walk_new inv.forest root' isRoot' (tablePath va) (tablePath_user user)
  rw [findPte_eq, findPte_eq]
  by_cases atOld : root' = root ∧ tablePath va = path ++ [index]
  · have hidden : entryPresent (m.ram child (ptIndex va)) = false := by
      by_contra shown
      exact empty ⟨ptIndex va, by simpa using shown⟩
    rw [new atOld, atOld.1, atOld.2, walk_snoc, unlink.reached]
    simp [unlink.present, hidden]
  · rw [old atOld]
    cases reached : walk m.child root' (tablePath va) with
    | none => rfl
    | some pt =>
        have notParent : pt ≠ parent := by
          intro same
          subst same
          have samePath := (inv.forest isRoot' unlink.isRoot (tablePath_user user)
            (userPaths.init path index unlink.admitted) reached unlink.reached).2
          have short := unlink.admitted.1
          rw [← samePath] at short
          simp [tablePath] at short
        have same : (releaseTable m parent index).ram pt = m.ram pt := setEntry_ram_ne m _ _ _ _ notParent
        simp only [Option.bind_some, same]

theorem releaseTable_pruned {root parent child : Nat} {path : List (Fin 512)} {index : Fin 512}
    (inv : TableInv m roots) (empty : ¬Occupied m child)
    (unlink : Unlink m.child (releaseTable m parent index).child roots userPaths root path index parent child) :
    Pruned m (releaseTable m parent index) roots ∧
      Tables (releaseTable m parent index) roots = Tables m roots \ {child} := by
  have reachedChild : walk m.child root (path ++ [index]) = some child := by
    rw [walk_snoc, unlink.reached]
    exact unlink.present
  have owned : child ∈ Tables m roots := mem_nodes unlink.isRoot unlink.admitted reachedChild
  have allocated := inv.allocated child owned
  have phys := releaseTable_phys unlink.present allocated
  have nodes : Tables (releaseTable m parent index) roots = Tables m roots \ {child} := unlink.nodes inv.forest
  have parentOwned : parent ∈ Tables m roots :=
    mem_nodes unlink.isRoot (userPaths.init path index unlink.admitted) unlink.reached
  refine ⟨⟨⟨unlink.forest inv.forest, ?_, ?_⟩, ?_, ?_, ?_, ?_, ?_, ?_, by rw [phys]; rfl, rfl⟩, nodes⟩
  · intro table member
    rw [nodes] at member
    obtain ⟨aligned, nonzero, inside, used⟩ := inv.allocated table member.1
    have apart : table / pageSize ≠ child / pageSize := fun same =>
      member.2 (frameNumber_inj aligned allocated.aligned same)
    refine ⟨aligned, nonzero, by rw [phys]; exact inside, ?_⟩
    rw [phys, markFree_used, if_neg apart]
    exact used
  · have notZero : 0 ≠ child / pageSize := by
      intro zero
      have aligned := allocated.aligned
      have nonzero := allocated.nonzero
      simp only [pageSize] at aligned zero
      omega
    rw [phys, markFree_used, if_neg notZero]
    exact inv.zeroUsed
  · intro root' isRoot' path' table admitted reached
    exact unlink.walk_mono inv.forest isRoot' admitted reached
  · intro root' isRoot' va user
    exact releaseTable_leaf inv empty unlink isRoot' user
  · intro page notOwned
    exact setEntry_ram_ne m _ _ _ _ fun same => notOwned (same ▸ parentOwned)
  · intro root' isRoot' slot high
    have same : (releaseTable m parent index).ram root' slot = (m.setEntry parent index 0).ram root' slot := rfl
    rw [same, setEntry_ram]
    apply if_neg
    intro here
    have samePath := (inv.forest unlink.isRoot isRoot' (userPaths.init path index unlink.admitted) userPaths.nil
      unlink.reached (by rw [walk_nil, here.1])).2
    have low := unlink.admitted.2 index (by rw [samePath]; rfl)
    rw [here.2] at high
    omega
  · intro table member notMember
    rw [nodes] at notMember
    have same : table = child := by
      by_contra different
      exact notMember ⟨member, different⟩
    rw [phys, same, markFree_used, markFree_pageframes, if_pos rfl, if_pos rfl]
    exact ⟨rfl, rfl⟩
  · intro frame apart
    have different : frame ≠ child / pageSize := by
      intro same
      exact apart child owned (by rw [nodes]; exact fun here => here.2 rfl) same.symm
    rw [phys, markFree_used, markFree_pageframes, if_neg different, if_neg different]
    exact ⟨rfl, rfl⟩

/-- The release moves the exemption from the empty table to its parent. -/
theorem releaseTable_occupied {parent child : Nat} {index : Fin 512}
    (nodes : Tables (releaseTable m parent index) roots = Tables m roots \ {child})
    (occupied : OccupiedExcept m roots child) : OccupiedExcept (releaseTable m parent index) roots parent := by
  intro table member notRoot notParent
  rw [nodes] at member
  obtain ⟨slot, shown⟩ := occupied table member.1 notRoot member.2
  refine ⟨slot, ?_⟩
  have same : (releaseTable m parent index).ram table = m.ram table := setEntry_ram_ne m _ _ _ _ notParent
  rw [same]
  exact shown

/-- One pruning step: the empty table goes, and the walks to its ancestors stay. -/
theorem prune_step {root parent child : Nat} {path : List (Fin 512)} {index : Fin 512}
    (inv : TableInv m roots) (isRoot : root ∈ roots) (reached : walk m.child root path = some parent)
    (admitted : userPaths.holds (path ++ [index])) (reachedChild : walk m.child root (path ++ [index]) = some child)
    (empty : ¬Occupied m child) :
    Pruned m (releaseTable m parent index) roots ∧
      (OccupiedExcept m roots child → OccupiedExcept (releaseTable m parent index) roots parent) ∧
      ∀ path', userPaths.holds path' → path'.length ≤ path.length →
        walk (releaseTable m parent index).child root path' = walk m.child root path' := by
  have present : m.child parent index = some child := by
    rw [walk_snoc, reached] at reachedChild
    exact reachedChild
  have unlink := releaseTable_unlink isRoot reached admitted present empty
  obtain ⟨pruned, nodes⟩ := releaseTable_pruned inv empty unlink
  refine ⟨pruned, releaseTable_occupied nodes, ?_⟩
  intro path' admitted' short
  apply (unlink.walk_new inv.forest root isRoot path' admitted').2
  intro same
  rw [same.2] at short
  simp at short

/-- A cleared page has no leaf entry, every other user page keeps its entry, and only empty tables are released. -/
structure Cleared (m m' : Machine) (roots : Set Nat) (root va : Nat) : Prop where
  inv : TableInv m' roots
  tables : Tables m' roots ⊆ Tables m roots
  leaf : ∀ root' ∈ roots, ∀ va', UserVa va' → m'.findPte root' va' =
    if root' = root ∧ va' / pageSize = va / pageSize then none else m.findPte root' va'
  ram : ∀ page, page ∉ Tables m roots → m'.ram page = m.ram page
  kernelHalf : ∀ root' ∈ roots, ∀ index : Fin 512, 256 ≤ index.val → m'.ram root' index = m.ram root' index
  gone : ∀ table ∈ Tables m roots, table ∉ Tables m' roots → m'.phys.used (table / pageSize) = false ∧
    m'.phys.pageframes (table / pageSize) = ⟨0, frameFree⟩
  kept : ∀ frame, (∀ table ∈ Tables m roots, table ∉ Tables m' roots → table / pageSize ≠ frame) →
    m'.phys.used frame = m.phys.used frame ∧ m'.phys.pageframes frame = m.phys.pageframes frame
  occupied : AllOccupied m roots → AllOccupied m' roots
  total : m'.phys.total = m.phys.total
  kernelPml4 : m'.kernelPml4 = m.kernelPml4

theorem LeafSet.cleared {root va : Nat} (set : LeafSet m m' roots root va none) (pruned : Pruned m' m'' roots)
    (occupied : AllOccupied m roots → AllOccupied m'' roots) : Cleared m m'' roots root va where
  inv := pruned.inv
  tables := set.tables ▸ pruned.tables
  leaf root' isRoot' va' user' := (pruned.leaf root' isRoot' va' user').trans (set.leaf root' isRoot' va' user')
  ram page notOwned := (pruned.ram page (set.tables.symm ▸ notOwned)).trans (set.ram page notOwned)
  kernelHalf root' isRoot' index high :=
    (pruned.kernelHalf root' isRoot' index high).trans (set.kernelHalf root' isRoot' index high)
  gone table owned notOwned := pruned.gone table (set.tables.symm ▸ owned) notOwned
  kept frame apart := by
    have same := pruned.kept frame (set.tables.symm ▸ apart)
    rw [set.phys] at same
    exact same
  occupied := occupied
  total := pruned.total.trans (by rw [set.phys])
  kernelPml4 := pruned.kernelPml4.trans set.kernelPml4

theorem OccupiedExcept.all {exempt : Nat} (occupied : OccupiedExcept m roots exempt)
    (here : Occupied m exempt ∨ exempt ∈ roots) : AllOccupied m roots := by
  intro table owned notRoot
  by_cases same : table = exempt
  · rw [same] at notRoot ⊢
    exact here.resolve_right notRoot
  · exact occupied table owned notRoot same

/-- The leaf entry goes first, then the tables that are empty. -/
def ClearedFirst (m m' : Machine) (roots : Set Nat) (root va : Nat) : Prop :=
  ∃ middle, LeafSet m middle roots root va none ∧ Pruned middle m' roots ∧ (AllOccupied m roots → AllOccupied m' roots)

theorem ClearedFirst.cleared {root va : Nat} (first : ClearedFirst m m' roots root va) : Cleared m m' roots root va := by
  obtain ⟨middle, set, pruned, occupied⟩ := first
  exact set.cleared pruned occupied

theorem ClearedFirst.walks {root va root' table : Nat} {path : List (Fin 512)} (first : ClearedFirst m m' roots root va)
    (isRoot : root' ∈ roots) (admitted : userPaths.holds path) (reached : walk m'.child root' path = some table) :
    walk m.child root' path = some table := by
  obtain ⟨middle, set, pruned, _⟩ := first
  rw [← set.walks root' isRoot path admitted]
  exact pruned.walks root' isRoot path table admitted reached

theorem clearAndPrune_first {root pdpt pd pt va : Nat} (inv : TableInv m roots) (isRoot : root ∈ roots)
    (user : UserVa va) (at₁ : walk m.child root [pml4Index va] = some pdpt)
    (at₂ : walk m.child root [pml4Index va, pdpIndex va] = some pd)
    (at₃ : walk m.child root (tablePath va) = some pt) :
    ClearedFirst m (clearAndPrune m root pdpt pd pt va) roots root va := by
  have admitted := tablePath_user user
  have admitted₂ : userPaths.holds [pml4Index va, pdpIndex va] := userPaths.init _ (pdIndex va) admitted
  have admitted₁ : userPaths.holds [pml4Index va] := userPaths.init _ (pdpIndex va) admitted₂
  have set : LeafSet m (m.setEntry pt (ptIndex va) 0) roots root va none := by
    simpa [entryPresent_eq] using setLeaf_spec inv isRoot user at₃ 0
  have walk₁ := (set.walks root isRoot _ admitted₁).trans at₁
  have walk₂ := (set.walks root isRoot _ admitted₂).trans at₂
  have walk₃ := (set.walks root isRoot _ admitted).trans at₃
  have start : AllOccupied m roots → OccupiedExcept (m.setEntry pt (ptIndex va) 0) roots pt := by
    intro all table owned notRoot notPt
    rw [set.tables] at owned
    obtain ⟨slot, shown⟩ := all table owned notRoot
    exact ⟨slot, by rw [setEntry_ram_ne _ _ _ _ _ notPt]; exact shown⟩
  unfold clearAndPrune
  generalize m.setEntry pt (ptIndex va) 0 = m₀ at set walk₁ walk₂ walk₃ start
  by_cases empty₃ : m₀.tableEmpty pt = true
  · simp only [empty₃, Bool.not_true, Bool.false_eq_true, if_false]
    obtain ⟨pruned₁, occupied₁, walks₁⟩ := prune_step set.inv isRoot walk₂ admitted walk₃ (tableEmpty_iff.mp empty₃)
    rw [← walks₁ _ admitted₂ (by simp)] at walk₂
    rw [← walks₁ _ admitted₁ (by simp)] at walk₁
    generalize releaseTable m₀ pd (pdIndex va) = m₁ at pruned₁ occupied₁ walk₁ walk₂
    by_cases empty₂ : m₁.tableEmpty pd = true
    · simp only [empty₂, Bool.not_true, Bool.false_eq_true, if_false]
      obtain ⟨pruned₂, occupied₂, walks₂⟩ :=
        prune_step pruned₁.inv isRoot walk₁ admitted₂ walk₂ (tableEmpty_iff.mp empty₂)
      rw [← walks₂ _ admitted₁ (by simp)] at walk₁
      generalize releaseTable m₁ pdpt (pdpIndex va) = m₂ at pruned₂ occupied₂ walk₁
      by_cases empty₁ : m₂.tableEmpty pdpt = true
      · simp only [empty₁, Bool.not_true, Bool.false_eq_true, if_false]
        obtain ⟨pruned₃, occupied₃, _⟩ :=
          prune_step pruned₂.inv isRoot (walk_nil _ _) admitted₁ walk₁ (tableEmpty_iff.mp empty₁)
        refine ⟨_, set, (pruned₁.trans pruned₂).trans pruned₃, ?_⟩
        intro all
        exact (occupied₃ (occupied₂ (occupied₁ (start all)))).all (Or.inr isRoot)
      · simp only [empty₁, Bool.not_false, if_true]
        refine ⟨_, set, pruned₁.trans pruned₂, ?_⟩
        intro all
        exact (occupied₂ (occupied₁ (start all))).all (Or.inl (not_not.mp (mt tableEmpty_iff.mpr empty₁)))
    · simp only [empty₂, Bool.not_false, if_true]
      refine ⟨_, set, pruned₁, ?_⟩
      intro all
      exact (occupied₁ (start all)).all (Or.inl (not_not.mp (mt tableEmpty_iff.mpr empty₂)))
  · simp only [empty₃, Bool.not_false, if_true]
    refine ⟨_, set, Pruned.refl set.inv, ?_⟩
    intro all
    exact (start all).all (Or.inl (not_not.mp (mt tableEmpty_iff.mpr empty₃)))

/-- A change of the tracking tables keeps the table invariant if it spares the table frames and frame `0`. -/
theorem TableInv.withPhys (inv : TableInv m roots) {p : PhysMem} (total : p.total = m.phys.total)
    (zero : p.used 0 = true)
    (spared : ∀ table ∈ Tables m roots, p.used (table / pageSize) = m.phys.used (table / pageSize)) :
    TableInv { m with phys := p } roots := by
  refine ⟨inv.forest, ?_, zero⟩
  intro table owned
  obtain ⟨aligned, nonzero, inside, used⟩ := inv.allocated table owned
  exact ⟨aligned, nonzero, by rw [total]; exact inside, (spared table owned).trans used⟩

/-- The tables of a machine are unchanged when a free frame is taken. -/
theorem TableInv.takeFrame (inv : TableInv m roots) (frame : Nat) :
    TableInv { m with phys := m.phys.markUsed frame } roots := by
  refine inv.withPhys (markUsed_total _ _) ?_ ?_
  · rw [markUsed_used, inv.zeroUsed, ite_self]
  · intro table owned
    rw [markUsed_used, (inv.allocated table owned).used, ite_self]

end

section
variable {p : PhysMem} {phys : Nat}

/-- The last reference releases the frame. -/
theorem dropFrame_last (aligned : phys % pageSize = 0) (inside : phys / pageSize < p.total)
    (last : (p.pageframes (phys / pageSize)).rc ≤ 1) (query : Nat) :
    (dropFrame p phys).total = p.total ∧
      (dropFrame p phys).used query = (if query = phys / pageSize then false else p.used query) ∧
      (dropFrame p phys).pageframes query =
        if query = phys / pageSize then ⟨0, frameFree⟩ else p.pageframes query := by
  have address : phys = phys / pageSize * pageSize := (Nat.div_mul_cancel (Nat.dvd_of_mod_eq_zero aligned)).symm
  have notBeyond : ¬phys / pageSize ≥ p.total := by omega
  have released (q : PhysMem) (total : q.total = p.total) :
      physmemFreeTo (physmemFrameFlagsSet q phys frameFree) phys 1 =
        (q.setFrame (phys / pageSize) { q.pageframes (phys / pageSize) with flags := frameFree }).markFree
          (phys / pageSize) := by
    have notBeyond' : ¬phys / pageSize ≥ q.total := by omega
    rw [physmemFrameFlagsSet]
    simp only [notBeyond', if_false]
    conv_lhs => arg 2; rw [address]
    rw [physmemFreeTo_one _ (by simp only [setFrame_total]; omega)]
  unfold dropFrame physmemFrameRcDecAndGet
  simp only [notBeyond, if_false]
  by_cases held : (p.pageframes (phys / pageSize)).rc > 0
  · have one : (p.pageframes (phys / pageSize)).rc - 1 = 0 := by omega
    simp only [held, if_true, one, released _ (setFrame_total _ _ _)]
    refine ⟨rfl, by simp, ?_⟩
    by_cases here : query = phys / pageSize
    · simp [here]
    · simp [here]
  · have zero : (p.pageframes (phys / pageSize)).rc = 0 := by omega
    rw [if_neg held]
    simp only [zero, if_true, released p rfl]
    refine ⟨rfl, by simp, ?_⟩
    by_cases here : query = phys / pageSize
    · simp [here]
    · simp [here]

/-- A reference among several is only counted down. -/
theorem dropFrame_more (inside : phys / pageSize < p.total) (more : 1 < (p.pageframes (phys / pageSize)).rc) :
    dropFrame p phys = p.setFrame (phys / pageSize)
      { p.pageframes (phys / pageSize) with rc := (p.pageframes (phys / pageSize)).rc - 1 } := by
  have notBeyond : ¬phys / pageSize ≥ p.total := by omega
  have held : (p.pageframes (phys / pageSize)).rc > 0 := by omega
  have rest : ¬(p.pageframes (phys / pageSize)).rc - 1 = 0 := by omega
  unfold dropFrame physmemFrameRcDecAndGet
  simp only [notBeyond, if_false, held, if_true, rest]

/-- Dropping a frame spares every other frame. -/
theorem dropFrame_other (aligned : phys % pageSize = 0) (inside : phys / pageSize < p.total) (query : Nat) :
    (dropFrame p phys).total = p.total ∧ (query ≠ phys / pageSize →
      (dropFrame p phys).used query = p.used query ∧ (dropFrame p phys).pageframes query = p.pageframes query) := by
  by_cases last : (p.pageframes (phys / pageSize)).rc ≤ 1
  · obtain ⟨total, used, frames⟩ := dropFrame_last aligned inside last query
    refine ⟨total, fun different => ?_⟩
    rw [used, frames, if_neg different, if_neg different]
    exact ⟨rfl, rfl⟩
  · rw [dropFrame_more inside (by omega)]
    refine ⟨rfl, fun different => ?_⟩
    rw [setFrame_used, setFrame_pageframes, if_neg different]
    exact ⟨rfl, rfl⟩

end

section
variable {m : Machine} {roots : Set Nat}

/-- The machine after `vmm_space_free` dropped the data frame of one page. -/
def dropData (m : Machine) (isMmio : Bool) (phys : Nat) : Machine :=
  if isMmio then m else { m with phys := dropFrame m.phys phys }

/-- The loop body of `vmm_space_free` skips an unmapped page, or drops its frame and clears its entry. -/
theorem vmmSpaceFreePage_first {root va : Nat} {isMmio : Bool} (isRoot : root ∈ roots) (user : UserVa va)
    (invAfter : ∀ entry, m.findPte root va = some entry → TableInv (dropData m isMmio (entryAddr entry)) roots) :
    (m.findPte root va = none ∧ vmmSpaceFreePage m root va isMmio = m) ∨
      ∃ entry, m.findPte root va = some entry ∧
        ClearedFirst (dropData m isMmio (entryAddr entry)) (vmmSpaceFreePage m root va isMmio) roots root va := by
  cases found : m.findPte root va with
  | none =>
      left
      refine ⟨rfl, ?_⟩
      unfold vmmSpaceFreePage
      cases at₁ : m.child root (pml4Index va) with
      | none => rfl
      | some pdpt =>
          cases at₂ : m.child pdpt (pdpIndex va) with
          | none => simp only [at₂]
          | some pd =>
              cases at₃ : m.child pd (pdIndex va) with
              | none => simp only [at₂, at₃]
              | some pt =>
                  have reached : walk m.child root (tablePath va) = some pt := by
                    rw [← findPt_eq]
                    simp [Machine.findPt, at₁, at₂, at₃]
                  simp [at₂, at₃, findPte_none found reached]
  | some entry =>
      right
      obtain ⟨pt, reached, stored, shown⟩ := findPte_some found
      have descent := reached
      rw [← findPt_eq] at descent
      unfold Machine.findPt at descent
      obtain ⟨pdpt, at₁, descent⟩ := Option.bind_eq_some_iff.mp descent
      obtain ⟨pd, at₂, at₃⟩ := Option.bind_eq_some_iff.mp descent
      refine ⟨entry, rfl, ?_⟩
      have inv := invAfter entry found
      have sameChild : (dropData m isMmio (entryAddr entry)).child = m.child := by
        unfold dropData
        split <;> rfl
      have body : vmmSpaceFreePage m root va isMmio =
          clearAndPrune (dropData m isMmio (entryAddr entry)) root pdpt pd pt va := by
        unfold vmmSpaceFreePage
        simp only [at₁, at₂, at₃, stored, shown, Bool.not_true, Bool.false_eq_true, if_false]
        rfl
      rw [body]
      apply clearAndPrune_first inv isRoot user
      · rw [sameChild]
        simpa [walk] using at₁
      · rw [sameChild]
        simp [walk, at₁, at₂]
      · rw [sameChild]
        exact reached

theorem vmmSpaceFreePage_spec {root va : Nat} {isMmio : Bool} (isRoot : root ∈ roots) (user : UserVa va)
    (invAfter : ∀ entry, m.findPte root va = some entry → TableInv (dropData m isMmio (entryAddr entry)) roots) :
    (m.findPte root va = none ∧ vmmSpaceFreePage m root va isMmio = m) ∨
      ∃ entry, m.findPte root va = some entry ∧
        Cleared (dropData m isMmio (entryAddr entry)) (vmmSpaceFreePage m root va isMmio) roots root va := by
  rcases vmmSpaceFreePage_first isRoot user invAfter with skipped | ⟨entry, found, first⟩
  · exact Or.inl skipped
  · exact Or.inr ⟨entry, found, first.cleared⟩

end

end DoccrOS.Mem
