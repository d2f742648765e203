import DoccrOS.Lib.Radix
import DoccrOS.Construction.Mem.Paging
import DoccrOS.Proof.Mem.PhysMem

namespace DoccrOS.Mem
open Lib.Radix

/-- The address mask keeps the bits 12 to 51 of an entry. -/
theorem entryAddr_eq (entry : Word) : entryAddr entry = entry.toNat / 2 ^ 12 % 2 ^ 40 * 2 ^ 12 := by
  have mask : pteAddrMask.toNat = (2 ^ 40 - 1) <<< 12 := by decide
  rw [entryAddr, BitVec.toNat_and, mask]
  apply Nat.eq_of_testBit_eq
  intro bit
  rw [Nat.testBit_and, Nat.testBit_shiftLeft, Nat.testBit_two_pow_sub_one, Nat.testBit_mul_two_pow,
    Nat.testBit_mod_two_pow, Nat.testBit_div_two_pow]
  by_cases low : 12 ≤ bit
  · simp [low, Bool.and_comm]
  · simp [low]

theorem entryAddr_aligned (entry : Word) : entryAddr entry % pageSize = 0 := by
  rw [entryAddr_eq, pageSize]
  omega

/-- A leaf entry holds the low 40 bits of a frame number if its flags use no address bit. -/
theorem entryFrame_leaf {phys : Nat} {flags : Word} (noAddr : flags &&& pteAddrMask = 0) (fits : phys < 2 ^ 64) :
    entryAddr (leafEntry phys flags) / pageSize = phys / pageSize % 2 ^ 40 := by
  have masked : leafEntry phys flags &&& pteAddrMask = BitVec.ofNat 64 phys &&& pteAddrMask := by
    rw [leafEntry, BitVec.and_or_distrib_right, noAddr, BitVec.and_assoc, BitVec.and_self]
    simp
  have plain : entryAddr (BitVec.ofNat 64 phys) / pageSize = phys / pageSize % 2 ^ 40 := by
    rw [entryAddr_eq, BitVec.toNat_ofNat, Nat.mod_eq_of_lt fits, pageSize]
    omega
  rw [entryAddr, masked]
  exact plain

/-- A page address survives in an entry whose flags use no address bit. -/
theorem entryAddr_leaf {phys : Nat} {flags : Word} (noAddr : flags &&& pteAddrMask = 0)
    (aligned : phys % pageSize = 0) (fits : phys < 2 ^ 52) : entryAddr (leafEntry phys flags) = phys := by
  have number := entryFrame_leaf noAddr (show phys < 2 ^ 64 by omega)
  have whole := entryAddr_aligned (leafEntry phys flags)
  simp only [pageSize] at aligned number whole
  omega

theorem entryPresent_eq (entry : Word) : entryPresent entry = entry.getLsbD 0 := by
  rw [entryPresent, show ptePresent = 1#64 from rfl, BitVec.and_one_eq_setWidth_ofBool_getLsbD]
  cases entry.getLsbD 0 <;> rfl

theorem entryPresent_leaf {phys : Nat} {flags : Word} (present : entryPresent flags = true) :
    entryPresent (leafEntry phys flags) = true := by
  rw [entryPresent_eq] at present ⊢
  rw [leafEntry, BitVec.getLsbD_or, present, Bool.or_true]

/-- A table entry is a leaf entry with the three table flags. -/
theorem tableEntry_eq (phys : Nat) : tableEntry phys = leafEntry phys (ptePresent ||| pteWritable ||| pteUser) := by
  simp only [tableEntry, leafEntry, BitVec.or_assoc]

/-- The user half holds the paths whose first index is below 256. -/
def userPaths : Admissible (Fin 512) where
  holds path := path.length ≤ 3 ∧ ∀ i ∈ path.head?, i.val < 256
  nil := by simp
  init path i admitted := by
    refine ⟨by have := admitted.1; simp at this; omega, ?_⟩
    intro first member
    apply admitted.2
    cases path with
    | nil => simp at member
    | cons head tail => simpa using member

/-- The table frames of the user halves below the roots. -/
def Tables (m : Machine) (roots : Set Nat) : Set Nat := Nodes m.child roots userPaths

/-- The three table indices of an address. -/
def tablePath (va : Nat) : List (Fin 512) := [pml4Index va, pdpIndex va, pdIndex va]

/-- A canonical address of the user half. -/
def UserVa (va : Nat) : Prop := va < 2 ^ 47

instance (va : Nat) : Decidable (UserVa va) := inferInstanceAs (Decidable (va < 2 ^ 47))

theorem findPt_eq (m : Machine) (root va : Nat) : m.findPt root va = walk m.child root (tablePath va) := by
  simp [Machine.findPt, walk, tablePath]

theorem findPte_eq (m : Machine) (root va : Nat) :
    m.findPte root va = (walk m.child root (tablePath va)).bind fun pt =>
      if entryPresent (m.ram pt (ptIndex va)) then some (m.ram pt (ptIndex va)) else none := by
  rw [Machine.findPte, findPt_eq]
  rfl

theorem tablePath_user {va : Nat} (user : UserVa va) : userPaths.holds (tablePath va) := by
  refine ⟨by simp [tablePath], ?_⟩
  intro i member
  have head : pml4Index va = i := by simpa [tablePath] using member
  rw [← head]
  simp only [pml4Index, Fin.val_ofNat, Nat.shiftRight_eq_div_pow]
  unfold UserVa at user
  omega

/-- Two user addresses share a leaf slot exactly when they share a page. -/
theorem samePage_iff {va va' : Nat} (user : UserVa va) (user' : UserVa va') :
    tablePath va = tablePath va' ∧ ptIndex va = ptIndex va' ↔ va / pageSize = va' / pageSize := by
  unfold UserVa at user user'
  have split (x : Nat) : x / 2 ^ 39 = x / 2 ^ 12 / 2 ^ 27 ∧ x / 2 ^ 30 = x / 2 ^ 12 / 2 ^ 18 ∧
      x / 2 ^ 21 = x / 2 ^ 12 / 2 ^ 9 := by
    simp only [Nat.div_div_eq_div_mul]
    exact ⟨rfl, rfl, rfl⟩
  simp only [tablePath, pml4Index, pdpIndex, pdIndex, ptIndex, List.cons.injEq, Fin.ext_iff, Fin.val_ofNat,
    Nat.shiftRight_eq_div_pow, (split va).1, (split va).2.1, (split va).2.2, (split va').1, (split va').2.1,
    (split va').2.2, show pageSize = 2 ^ 12 from rfl]
  constructor
  · intro same
    omega
  · intro same
    simp only [same, and_self]

/-- A table frame is page aligned, tracked, used and not the frame `0`. -/
structure Allocated (m : Machine) (phys : Nat) : Prop where
  aligned : phys % pageSize = 0
  nonzero : phys ≠ 0
  inside : phys / pageSize < m.phys.total
  used : m.phys.used (phys / pageSize) = true

/-- The user-half tables form a forest of used frames, and frame `0` is never free. -/
structure TableInv (m : Machine) (roots : Set Nat) : Prop where
  forest : Forest m.child roots userPaths
  allocated : ∀ table ∈ Tables m roots, Allocated m table
  zeroUsed : m.phys.used 0 = true

/-- A table with a present entry is not empty. -/
def Occupied (m : Machine) (table : Nat) : Prop := ∃ index, entryPresent (m.ram table index) = true

theorem frameNumber_inj {first second : Nat} (aligned : first % pageSize = 0) (aligned' : second % pageSize = 0)
    (same : first / pageSize = second / pageSize) : first = second := by
  simp only [pageSize] at aligned aligned' same
  omega

section
variable (m : Machine) (table page query : Nat) (index slot : Fin 512) (entry : Word)

theorem setEntry_ram : (m.setEntry table index entry).ram query slot =
    if query = table ∧ slot = index then entry else m.ram query slot := by
  by_cases here : query = table
  · subst here
    by_cases at' : slot = index
    · simp [Machine.setEntry, at']
    · simp [Machine.setEntry, at']
  · simp [Machine.setEntry, here]

theorem setEntry_ram_ne (different : query ≠ table) : (m.setEntry table index entry).ram query = m.ram query := by
  simp [Machine.setEntry, different]

@[simp] theorem setEntry_phys : (m.setEntry table index entry).phys = m.phys := rfl
@[simp] theorem setEntry_kernelPml4 : (m.setEntry table index entry).kernelPml4 = m.kernelPml4 := rfl
@[simp] theorem zeroPage_phys : (m.zeroPage page).phys = m.phys := rfl
@[simp] theorem zeroPage_kernelPml4 : (m.zeroPage page).kernelPml4 = m.kernelPml4 := rfl
@[simp] theorem zeroPage_ram : (m.zeroPage page).ram page slot = 0 := by simp [Machine.zeroPage]

theorem zeroPage_ram_ne (different : query ≠ page) : (m.zeroPage page).ram query = m.ram query := by
  simp [Machine.zeroPage, different]

theorem setEntry_child : (m.setEntry table index entry).child query slot =
    if query = table ∧ slot = index then (if entryPresent entry then some (entryAddr entry) else none)
    else m.child query slot := by
  simp only [Machine.child, setEntry_ram]
  split <;> rfl

theorem child_occupied {below : Nat} (present : m.child table index = some below) : Occupied m table := by
  refine ⟨index, ?_⟩
  unfold Machine.child at present
  by_cases here : entryPresent (m.ram table index) = true
  · exact here
  · simp [here] at present

end

/-- Machines that agree on all table links own the same tables. -/
theorem tables_congr {m m' : Machine} {roots : Set Nat}
    (same : ∀ table ∈ Tables m roots, ∀ path index, userPaths.holds (path ++ [index]) →
      (∃ root ∈ roots, walk m.child root path = some table) → m'.child table index = m.child table index) :
    (∀ root ∈ roots, ∀ path, userPaths.holds path → walk m'.child root path = walk m.child root path) ∧
      Tables m' roots = Tables m roots := by
  have walks : ∀ root ∈ roots, ∀ path, userPaths.holds path →
      walk m'.child root path = walk m.child root path := by
    intro root isRoot path admitted
    refine walk_congr (fun first isFirst before index node admitted' reached => ?_) isRoot path admitted
    exact same node (mem_nodes isFirst (userPaths.init before index admitted') reached) before index admitted'
      ⟨first, isFirst, reached⟩
  exact ⟨walks, nodes_congr walks⟩

/-- The tables of `m'` extend those of `m` by frames that were free, and nothing else is taken or written. -/
structure Grown (m m' : Machine) (roots : Set Nat) : Prop where
  inv : TableInv m' roots
  walks : ∀ root ∈ roots, ∀ path table, userPaths.holds path → walk m.child root path = some table →
    walk m'.child root path = some table
  ram : ∀ page, page ∉ Tables m' roots → m'.ram page = m.ram page
  kernelHalf : ∀ root ∈ roots, ∀ index : Fin 512, 256 ≤ index.val → m'.ram root index = m.ram root index
  fresh : ∀ table ∈ Tables m' roots, table ∉ Tables m roots → m.phys.Free (table / pageSize) ∧
    m'.phys.pageframes (table / pageSize) = ⟨1, frameUsed⟩
  kept : ∀ frame, (∀ table ∈ Tables m' roots, table ∉ Tables m roots → table / pageSize ≠ frame) →
    m'.phys.used frame = m.phys.used frame ∧ m'.phys.pageframes frame = m.phys.pageframes frame
  total : m'.phys.total = m.phys.total
  kernelPml4 : m'.kernelPml4 = m.kernelPml4

section
variable {m m' m'' : Machine} {roots : Set Nat}

theorem Grown.refl (inv : TableInv m roots) : Grown m m roots where
  inv := inv
  walks _ _ _ _ _ reached := reached
  ram _ _ := rfl
  kernelHalf _ _ _ _ := rfl
  fresh _ owned notOwned := absurd owned notOwned
  kept _ _ := ⟨rfl, rfl⟩
  total := rfl
  kernelPml4 := rfl

theorem Grown.tables (grown : Grown m m' roots) : Tables m roots ⊆ Tables m' roots := by
  intro table owned
  obtain ⟨root, isRoot, path, admitted, reached⟩ := owned
  exact mem_nodes isRoot admitted (grown.walks root isRoot path table admitted reached)

/-- Frames that are free after the growth were free before it. -/
theorem Grown.free (grown : Grown m m' roots) {frame : Nat} (free : m'.phys.Free frame) : m.phys.Free frame := by
  have notNew : ∀ table ∈ Tables m' roots, table ∉ Tables m roots → table / pageSize ≠ frame := by
    intro table owned _ same
    have used := (grown.inv.allocated table owned).used
    rw [same, free.2] at used
    exact Bool.false_ne_true used
  refine ⟨grown.total ▸ free.1, ?_⟩
  rw [← (grown.kept frame notNew).1]
  exact free.2

theorem Grown.trans (first : Grown m m' roots) (second : Grown m' m'' roots) : Grown m m'' roots where
  inv := second.inv
  walks root isRoot path table admitted reached :=
    second.walks root isRoot path table admitted (first.walks root isRoot path table admitted reached)
  ram page notOwned := (second.ram page notOwned).trans (first.ram page fun owned => notOwned (second.tables owned))
  kernelHalf root isRoot index high :=
    (second.kernelHalf root isRoot index high).trans (first.kernelHalf root isRoot index high)
  fresh table owned notOwned := by
    by_cases middle : table ∈ Tables m' roots
    · obtain ⟨free, frame⟩ := first.fresh table middle notOwned
      refine ⟨free, ?_⟩
      have notNew : ∀ other ∈ Tables m'' roots, other ∉ Tables m' roots → other / pageSize ≠ table / pageSize := by
        intro other otherOwned otherNew same
        have otherFree := (second.fresh other otherOwned otherNew).1
        rw [same] at otherFree
        have used := (first.inv.allocated table middle).used
        rw [otherFree.2] at used
        exact Bool.false_ne_true used
      rw [(second.kept _ notNew).2]
      exact frame
    · obtain ⟨free, frame⟩ := second.fresh table owned middle
      exact ⟨first.free free, frame⟩
  kept frame notNew := by
    have late := second.kept frame fun table owned notOwned => notNew table owned fun old =>
      notOwned (first.tables old)
    have early := first.kept frame fun table owned notOwned => notNew table (second.tables owned) notOwned
    exact ⟨late.1.trans early.1, late.2.trans early.2⟩
  total := second.total.trans first.total
  kernelPml4 := second.kernelPml4.trans first.kernelPml4

/-- The machine after `getOrCreate` linked the new table `frame * pageSize`. -/
def linkTable (m : Machine) (table : Nat) (index : Fin 512) (frame : Nat) : Machine :=
  (({ m with phys := m.phys.markUsed frame } : Machine).setEntry table index
    (tableEntry (frame * pageSize))).zeroPage (frame * pageSize)

theorem linkTable_child {table frame query : Nat} {index slot : Fin 512} (fits : frame < 2 ^ 40) :
    (linkTable m table index frame).child query slot =
      if query = frame * pageSize then none
      else if query = table ∧ slot = index then some (frame * pageSize) else m.child query slot := by
  have entry : (if entryPresent (tableEntry (frame * pageSize)) then
      some (entryAddr (tableEntry (frame * pageSize))) else none) = some (frame * pageSize) := by
    rw [tableEntry_eq, entryPresent_leaf (by decide), if_pos rfl, entryAddr_leaf (by decide)
      (by simp [pageSize]) (by simp only [pageSize]; omega)]
  by_cases here : query = frame * pageSize
  · subst here
    simp [linkTable, Machine.child, entryPresent_eq]
  · rw [if_neg here, ← entry]
    have same : (linkTable m table index frame).child query slot =
        (({ m with phys := m.phys.markUsed frame } : Machine).setEntry table index
          (tableEntry (frame * pageSize))).child query slot := by
      simp only [linkTable, Machine.child, zeroPage_ram_ne _ _ _ here]
    rw [same, setEntry_child]
    rfl

theorem linkTable_link {root table frame : Nat} {path : List (Fin 512)} {index : Fin 512}
    (inv : TableInv m roots) (isRoot : root ∈ roots) (reached : walk m.child root path = some table)
    (admitted : userPaths.holds (path ++ [index])) (absent : m.child table index = none)
    (free : m.phys.Free frame) :
    Link m.child (linkTable m table index frame).child roots userPaths root path index table (frame * pageSize) := by
  have fits : frame < 2 ^ 40 := Nat.lt_of_lt_of_le free.1 m.phys.totalFits
  have number : frame * pageSize / pageSize = frame := Nat.mul_div_cancel frame (by decide)
  have fresh : frame * pageSize ∉ Tables m roots := by
    intro owned
    have used := (inv.allocated _ owned).used
    rw [number, free.2] at used
    exact Bool.false_ne_true used
  have different : table ≠ frame * pageSize := by
    intro same
    exact fresh (same ▸ mem_nodes isRoot (userPaths.init path index admitted) reached)
  refine ⟨isRoot, admitted, reached, absent, fresh, ?_, ?_, ?_⟩
  · rw [linkTable_child fits, if_neg different, if_pos ⟨rfl, rfl⟩]
  · intro slot
    rw [linkTable_child fits, if_pos rfl]
  · intro node slot notNew notHere
    rw [linkTable_child fits, if_neg notNew, if_neg notHere]

/-- A new table changes no leaf entry. -/
theorem linkTable_leaf {root table frame : Nat} {path : List (Fin 512)} {index : Fin 512}
    (inv : TableInv m roots)
    (link : Link m.child (linkTable m table index frame).child roots userPaths root path index table
      (frame * pageSize))
    {root' va : Nat} (isRoot' : root' ∈ roots) (user : UserVa va) :
    (linkTable m table index frame).findPte root' va = m.findPte root' va := by
  obtain ⟨new, old⟩ := link.walk_new inv.forest root' isRoot' (tablePath va) (tablePath_user user)
  rw [findPte_eq, findPte_eq]
  by_cases atNew : root' = root ∧ tablePath va = path ++ [index]
  · rw [new atNew, atNew.1, atNew.2, walk_snoc, link.reached]
    simp [link.absent, linkTable, entryPresent_eq]
  · rw [old atNew]
    cases reached : walk m.child root' (tablePath va) with
    | none => rfl
    | some pt =>
        have owned : pt ∈ Tables m roots := mem_nodes isRoot' (tablePath_user user) reached
        have notNew : pt ≠ frame * pageSize := fun same => link.fresh (same ▸ owned)
        have notTable : pt ≠ table := by
          intro same
          subst same
          have samePath := (inv.forest isRoot' link.isRoot (tablePath_user user)
            (userPaths.init path index link.admitted) reached link.reached).2
          have short := link.admitted.1
          rw [← samePath] at short
          simp [tablePath] at short
        have same : (linkTable m table index frame).ram pt = m.ram pt := by
          rw [linkTable, zeroPage_ram_ne _ _ _ notNew, setEntry_ram_ne _ _ _ _ _ notTable]
        simp only [Option.bind_some, same]

theorem linkTable_grown {root table frame : Nat} {path : List (Fin 512)} {index : Fin 512}
    (inv : TableInv m roots) (nonzero : frame ≠ 0) (free : m.phys.Free frame)
    (link : Link m.child (linkTable m table index frame).child roots userPaths root path index table
      (frame * pageSize)) :
    Grown m (linkTable m table index frame) roots := by
  have number : frame * pageSize / pageSize = frame := Nat.mul_div_cancel frame (by decide)
  have nodes : Tables (linkTable m table index frame) roots = insert (frame * pageSize) (Tables m roots) :=
    link.nodes inv.forest
  have parent : table ∈ Tables m roots := link.parent_mem
  have used (query : Nat) : (linkTable m table index frame).phys.used query =
      if query = frame then true else m.phys.used query := markUsed_used m.phys frame query
  have frames (query : Nat) : (linkTable m table index frame).phys.pageframes query =
      if query = frame then ⟨1, frameUsed⟩ else m.phys.pageframes query := markUsed_pageframes m.phys frame query
  have notParent : table ≠ frame * pageSize := fun same => link.fresh (same ▸ parent)
  refine ⟨⟨link.forest inv.forest, ?_, ?_⟩, ?_, ?_, ?_, ?_, ?_, rfl, rfl⟩
  · intro owner owned
    rw [nodes] at owned
    rcases owned with new | old
    · subst new
      refine ⟨by simp [pageSize], by simp [pageSize, nonzero], ?_, ?_⟩
      · rw [number]
        exact free.1
      · rw [number, used, if_pos rfl]
    · obtain ⟨aligned, nonzero', inside, taken⟩ := inv.allocated owner old
      refine ⟨aligned, nonzero', inside, ?_⟩
      rw [used, taken]
      simp
  · rw [used, inv.zeroUsed]
    simp
  · intro root' isRoot' path' owner admitted reached
    have notNew : ¬(root' = root ∧ path' = path ++ [index]) := by
      intro same
      rw [same.1, same.2, walk_snoc, link.reached] at reached
      simp [link.absent] at reached
    exact ((link.walk_new inv.forest root' isRoot' path' admitted).2 notNew).trans reached
  · intro page notOwned
    rw [nodes] at notOwned
    have notNew : page ≠ frame * pageSize := fun same => notOwned (Or.inl same)
    have notTable : page ≠ table := fun same => notOwned (Or.inr (same ▸ parent))
    rw [linkTable, zeroPage_ram_ne _ _ _ notNew, setEntry_ram_ne _ _ _ _ _ notTable]
  · intro root' isRoot' slot high
    have notNew : root' ≠ frame * pageSize := fun same => link.fresh (same ▸ root_mem_nodes isRoot')
    rw [linkTable, zeroPage_ram_ne _ _ _ notNew, setEntry_ram]
    apply if_neg
    intro same
    have samePath := (inv.forest link.isRoot isRoot' (userPaths.init path index link.admitted) userPaths.nil
      link.reached (by rw [walk_nil, same.1])).2
    have low := link.admitted.2 index (by rw [samePath]; rfl)
    rw [same.2] at high
    omega
  · intro owner owned notOwned
    rw [nodes] at owned
    rcases owned with new | old
    · subst new
      rw [number]
      exact ⟨free, by rw [frames, if_pos rfl]⟩
    · exact absurd old notOwned
  · intro query notNew
    have different : query ≠ frame := by
      intro same
      exact notNew (frame * pageSize) (nodes ▸ Or.inl rfl) link.fresh (number.trans same.symm)
    rw [used, frames, if_neg different, if_neg different]
    exact ⟨rfl, rfl⟩

/-- A new table empties no other table. -/
theorem linkTable_occupied {root table frame : Nat} {path : List (Fin 512)} {index : Fin 512}
    (link : Link m.child (linkTable m table index frame).child roots userPaths root path index table
      (frame * pageSize))
    {owner : Nat} (owned : owner ∈ Tables m roots) (here : Occupied m owner) :
    Occupied (linkTable m table index frame) owner := by
  obtain ⟨slot, present⟩ := here
  refine ⟨slot, ?_⟩
  have notNew : owner ≠ frame * pageSize := fun same => link.fresh (same ▸ owned)
  rw [linkTable, zeroPage_ram_ne _ _ _ notNew, setEntry_ram]
  split
  · rw [tableEntry_eq]
    exact entryPresent_leaf (by decide)
  · exact present

/-- What one level of the descent establishes for the table `below` it returns. -/
structure Descended (m m' : Machine) (roots : Set Nat) (root table below : Nat) (path : List (Fin 512))
    (index : Fin 512) : Prop where
  grown : Grown m m' roots
  reached : walk m'.child root (path ++ [index]) = some below
  leaf : ∀ root' ∈ roots, ∀ va, UserVa va → m'.findPte root' va = m.findPte root' va
  parent : Occupied m' table
  occupied : ∀ owner ∈ Tables m roots, Occupied m owner → Occupied m' owner
  only : ∀ other ∈ Tables m' roots, other ∉ Tables m roots → other = below

/-- One level of the descent returns the table below and grows the forest by at most that table. -/
theorem getOrCreate_spec {message : String} {root table below : Nat} {path : List (Fin 512)} {index : Fin 512}
    (inv : TableInv m roots) (isRoot : root ∈ roots) (reached : walk m.child root path = some table)
    (admitted : userPaths.holds (path ++ [index])) (returned : getOrCreate message m table index = .ok (below, m')) :
    Descended m m' roots root table below path index := by
  unfold getOrCreate at returned
  cases present : m.child table index with
  | some child =>
      rw [present] at returned
      injection returned with same
      obtain ⟨rfl, rfl⟩ := Prod.mk.inj same
      refine ⟨Grown.refl inv, ?_, fun _ _ _ _ => rfl, child_occupied m table index present, fun _ _ here => here,
        fun other owned notOwned => absurd owned notOwned⟩
      rw [walk_snoc, reached]
      exact present
  | none =>
      rw [present] at returned
      rcases physmemAllocTo_one m.phys inv.zeroUsed with ⟨failed, _⟩ | ⟨frame, nonzero, free, allocated⟩
      · simp [failed] at returned
      · have address : frame * pageSize ≠ 0 := by simp [pageSize, nonzero]
        simp only [allocated, address, if_false] at returned
        injection returned with same
        obtain ⟨rfl, same'⟩ := Prod.mk.inj same
        have shape : m' = linkTable m table index frame := same'.symm
        subst shape
        have link := linkTable_link inv isRoot reached admitted present free
        refine ⟨linkTable_grown inv nonzero free link, ?_, fun root' isRoot' va user =>
          linkTable_leaf inv link isRoot' user, ?_, fun owner owned here => linkTable_occupied link owned here, ?_⟩
        · exact (link.walk_new inv.forest root isRoot _ admitted).1 ⟨rfl, rfl⟩
        · exact child_occupied _ table index link.linked
        · intro other owned notOwned
          have nodes : Tables (linkTable m table index frame) roots = insert (frame * pageSize) (Tables m roots) :=
            link.nodes inv.forest
          rw [nodes] at owned
          exact owned.resolve_right notOwned

/-- A store into a page table moves no walk and changes one leaf entry. -/
structure LeafSet (m m' : Machine) (roots : Set Nat) (root va : Nat) (slot : Option Word) : Prop where
  inv : TableInv m' roots
  walks : ∀ root' ∈ roots, ∀ path, userPaths.holds path → walk m'.child root' path = walk m.child root' path
  tables : Tables m' roots = Tables m roots
  leaf : ∀ root' ∈ roots, ∀ va', UserVa va' → m'.findPte root' va' =
    if root' = root ∧ va' / pageSize = va / pageSize then slot else m.findPte root' va'
  ram : ∀ page, page ∉ Tables m roots → m'.ram page = m.ram page
  kernelHalf : ∀ root' ∈ roots, ∀ index : Fin 512, 256 ≤ index.val → m'.ram root' index = m.ram root' index
  phys : m'.phys = m.phys
  kernelPml4 : m'.kernelPml4 = m.kernelPml4

theorem setLeaf_spec {root va pt : Nat} (inv : TableInv m roots) (isRoot : root ∈ roots) (user : UserVa va)
    (reached : walk m.child root (tablePath va) = some pt) (entry : Word) :
    LeafSet m (m.setEntry pt (ptIndex va) entry) roots root va
      (if entryPresent entry then some entry else none) := by
  have owned : pt ∈ Tables m roots := mem_nodes isRoot (tablePath_user user) reached
  have deep : ∀ root' ∈ roots, ∀ path, userPaths.holds path → walk m.child root' path = some pt →
      root' = root ∧ path = tablePath va := by
    intro root' isRoot' path admitted reached'
    exact inv.forest isRoot' isRoot admitted (tablePath_user user) reached' reached
  obtain ⟨walks, tables⟩ : (∀ root' ∈ roots, ∀ path, userPaths.holds path →
      walk (m.setEntry pt (ptIndex va) entry).child root' path = walk m.child root' path) ∧
        Tables (m.setEntry pt (ptIndex va) entry) roots = Tables m roots := by
    apply tables_congr
    intro table _ path index admitted reached'
    obtain ⟨root', isRoot', reached'⟩ := reached'
    rw [setEntry_child]
    apply if_neg
    intro same
    rw [same.1] at reached'
    have long := (deep root' isRoot' path (userPaths.init path index admitted) reached').2
    have short := admitted.1
    rw [long] at short
    simp [tablePath] at short
  refine ⟨⟨inv.forest.congr walks, ?_, inv.zeroUsed⟩, walks, tables, ?_, ?_, ?_, rfl, rfl⟩
  · intro table member
    rw [tables] at member
    obtain ⟨aligned, nonzero, inside, used⟩ := inv.allocated table member
    exact ⟨aligned, nonzero, inside, used⟩
  · intro root' isRoot' va' user'
    rw [findPte_eq, findPte_eq, walks root' isRoot' _ (tablePath_user user')]
    by_cases here : root' = root ∧ va' / pageSize = va / pageSize
    · obtain ⟨samePath, sameSlot⟩ := (samePage_iff user' user).mpr here.2
      rw [if_pos here, here.1, samePath, reached, Option.bind_some, sameSlot]
      simp only [setEntry_ram, and_self, if_true]
    · rw [if_neg here]
      cases reached' : walk m.child root' (tablePath va') with
      | none => rfl
      | some pt' =>
          have notHere : ¬(pt' = pt ∧ ptIndex va' = ptIndex va) := by
            intro same
            rw [same.1] at reached'
            obtain ⟨sameRoot, samePath⟩ := deep root' isRoot' _ (tablePath_user user') reached'
            exact here ⟨sameRoot, (samePage_iff user' user).mp ⟨samePath, same.2⟩⟩
          rw [Option.bind_some, Option.bind_some, setEntry_ram, if_neg notHere]
  · intro page notOwned
    exact setEntry_ram_ne _ _ _ _ _ fun same => notOwned (same ▸ owned)
  · intro root' isRoot' index _
    rw [setEntry_ram]
    apply if_neg
    intro same
    have path := (deep root' isRoot' [] userPaths.nil (by rw [walk_nil, same.1])).2
    simp [tablePath] at path

theorem LeafSet.grown {root va : Nat} {slot : Option Word} (set : LeafSet m m' roots root va slot) :
    Grown m m' roots where
  inv := set.inv
  walks root' isRoot' path table admitted reached := (set.walks root' isRoot' path admitted).trans reached
  ram page notOwned := set.ram page (set.tables ▸ notOwned)
  kernelHalf := set.kernelHalf
  fresh table owned notOwned := absurd (set.tables ▸ owned) notOwned
  kept _ _ := by rw [set.phys]; exact ⟨rfl, rfl⟩
  total := by rw [set.phys]
  kernelPml4 := set.kernelPml4

/-- A mapped page has the new leaf entry, and every other user page of every root keeps its entry. -/
structure Mapped (m m' : Machine) (roots : Set Nat) (root va : Nat) (entry : Word) : Prop where
  grown : Grown m m' roots
  leaf : ∀ root' ∈ roots, ∀ va', UserVa va' → m'.findPte root' va' =
    if root' = root ∧ va' / pageSize = va / pageSize then some entry else m.findPte root' va'
  occupied : ∀ owner ∈ Tables m' roots, (owner ∈ Tables m roots → Occupied m owner ∨ owner ∈ roots) →
    Occupied m' owner ∨ owner ∈ roots

theorem pagingMapPageIn_spec {root va phys : Nat} {flags : Word} (inv : TableInv m roots) (isRoot : root ∈ roots)
    (user : UserVa va) (present : entryPresent flags = true)
    (returned : pagingMapPageIn m root va phys flags = .ok m') :
    Mapped m m' roots root va (leafEntry phys flags) := by
  have admitted := tablePath_user user
  have admitted₂ : userPaths.holds [pml4Index va, pdpIndex va] := userPaths.init _ (pdIndex va) admitted
  have admitted₁ : userPaths.holds [pml4Index va] := userPaths.init _ (pdpIndex va) admitted₂
  unfold pagingMapPageIn at returned
  obtain ⟨⟨pdpt, m₁⟩, call₁, returned⟩ := Result.bind_ok returned
  obtain ⟨⟨pd, m₂⟩, call₂, returned⟩ := Result.bind_ok returned
  obtain ⟨⟨pt, m₃⟩, call₃, returned⟩ := Result.bind_ok returned
  have step₁ := getOrCreate_spec inv isRoot (walk_nil _ _) admitted₁ call₁
  have step₂ := getOrCreate_spec step₁.grown.inv isRoot step₁.reached admitted₂ call₂
  have step₃ := getOrCreate_spec step₂.grown.inv isRoot step₂.reached admitted call₃
  have set := setLeaf_spec step₃.grown.inv isRoot user step₃.reached (leafEntry phys flags)
  injection returned with same
  rw [same] at set
  rw [entryPresent_leaf present, if_pos rfl] at set
  have grown₂ := step₁.grown.trans step₂.grown
  refine ⟨(grown₂.trans step₃.grown).trans set.grown, ?_, ?_⟩
  · intro root' isRoot' va' user'
    rw [set.leaf root' isRoot' va' user', step₃.leaf root' isRoot' va' user',
      step₂.leaf root' isRoot' va' user', step₁.leaf root' isRoot' va' user']
  · intro owner owned old
    have keep : ∀ {table}, Occupied m₃ table → Occupied m' table := by
      intro table here
      obtain ⟨index, shown⟩ := here
      refine ⟨index, ?_⟩
      rw [← same, setEntry_ram]
      split
      · exact entryPresent_leaf present
      · exact shown
    rw [set.tables] at owned
    by_cases in₂ : owner ∈ Tables m₂ roots
    · by_cases in₁ : owner ∈ Tables m₁ roots
      · by_cases in₀ : owner ∈ Tables m roots
        · rcases old in₀ with here | isRoot'
          · exact Or.inl (keep (step₃.occupied _ in₂ (step₂.occupied _ in₁ (step₁.occupied _ in₀ here))))
          · exact Or.inr isRoot'
        · rw [step₁.only owner in₁ in₀]
          rw [step₁.only owner in₁ in₀] at in₂
          exact Or.inl (keep (step₃.occupied _ in₂ step₂.parent))
      · rw [step₂.only owner in₂ in₁]
        exact Or.inl (keep step₃.parent)
    · rw [step₃.only owner owned in₂]
      refine Or.inl ⟨ptIndex va, ?_⟩
      rw [← same, setEntry_ram, if_pos ⟨rfl, rfl⟩]
      exact entryPresent_leaf present

/-- A page that is mapped can be mapped again without a new table. -/
theorem pagingMapPageIn_ok {root va phys : Nat} {flags entry : Word} (found : m.findPte root va = some entry) :
    ∃ m', pagingMapPageIn m root va phys flags = .ok m' := by
  unfold Machine.findPte Machine.findPt at found
  obtain ⟨pt, descent, _⟩ := Option.bind_eq_some_iff.mp found
  obtain ⟨pdpt, at₁, descent⟩ := Option.bind_eq_some_iff.mp descent
  obtain ⟨pd, at₂, at₃⟩ := Option.bind_eq_some_iff.mp descent
  refine ⟨m.setEntry pt (ptIndex va) (leafEntry phys flags), ?_⟩
  simp only [pagingMapPageIn, getOrCreate, at₁, at₂, at₃, bind, Except.bind]
  rfl

/-- The present leaf entry of an address lies in the page table of its walk. -/
theorem findPte_some {root va : Nat} {entry : Word} (found : m.findPte root va = some entry) :
    ∃ pt, walk m.child root (tablePath va) = some pt ∧ m.ram pt (ptIndex va) = entry ∧ entryPresent entry = true := by
  rw [findPte_eq] at found
  obtain ⟨pt, reached, shown⟩ := Option.bind_eq_some_iff.mp found
  refine ⟨pt, reached, ?_⟩
  by_cases here : entryPresent (m.ram pt (ptIndex va)) = true
  · rw [if_pos here] at shown
    injection shown with same
    rw [same] at here
    exact ⟨same, here⟩
  · simp [here] at shown

theorem findPte_none {root va pt : Nat} (absent : m.findPte root va = none)
    (reached : walk m.child root (tablePath va) = some pt) : entryPresent (m.ram pt (ptIndex va)) = false := by
  rw [findPte_eq, reached] at absent
  by_contra shown
  simp [Bool.not_eq_false _ ▸ shown] at absent

/-- An unmapped page has no leaf entry, and nothing else changes. -/
theorem pagingUnmapPageIn_spec {root va : Nat} (inv : TableInv m roots) (isRoot : root ∈ roots) (user : UserVa va) :
    LeafSet m (pagingUnmapPageIn m root va) roots root va none := by
  unfold pagingUnmapPageIn
  rw [findPt_eq]
  have unchanged (absent : m.findPte root va = none) : LeafSet m m roots root va none := by
    refine ⟨inv, fun _ _ _ _ => rfl, rfl, ?_, fun _ _ => rfl, fun _ _ _ _ => rfl, rfl, rfl⟩
    intro root' isRoot' va' user'
    split
    · rename_i here
      obtain ⟨samePath, sameSlot⟩ := (samePage_iff user' user).mpr here.2
      rw [← absent, findPte_eq, findPte_eq, samePath, sameSlot, here.1]
    · rfl
  cases reached : walk m.child root (tablePath va) with
  | none => exact unchanged (by rw [findPte_eq, reached]; rfl)
  | some pt =>
      by_cases here : entryPresent (m.ram pt (ptIndex va)) = true
      · have set := setLeaf_spec inv isRoot user reached 0
        simp only [here, if_true]
        simpa [entryPresent_eq] using set
      · simp only [here, Bool.false_eq_true, if_false]
        exact unchanged (by rw [findPte_eq, reached]; simp [here])

end

end DoccrOS.Mem
