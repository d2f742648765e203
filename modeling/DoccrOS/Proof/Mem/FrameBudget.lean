import DoccrOS.Proof.Mem.SpaceLoops

namespace DoccrOS.Mem
open Lib.Radix Lib

/-- The table paths that the pages of a range need. -/
def neededPaths (base count : Nat) : Finset (List (Fin 512)) :=
  (Finset.range count).biUnion fun i =>
    let va := base + i * pageSize
    {[pml4Index va], [pml4Index va, pdpIndex va], tablePath va}

/-- The paths that lead to no table yet. -/
def missingPaths (m : Machine) (root : Nat) (paths : Finset (List (Fin 512))) : Finset (List (Fin 512)) :=
  paths.filter fun path => walk m.child root path = none

theorem physmemFreeGet_eq (p : PhysMem) :
    physmemFreeGet p = ((Finset.range p.total).filter fun frame => p.used frame = false).card := by
  rw [physmemFreeGet, List.countP_eq_length_filter, ← List.toFinset_card_of_nodup (List.nodup_range.filter _)]
  congr 1
  ext frame
  rw [List.mem_toFinset, List.mem_filter, List.mem_range, Finset.mem_filter, Finset.mem_range, Bool.not_eq_true']
  rfl

/-- Taking a free frame lowers the number of free frames by one. -/
theorem physmemFreeGet_markUsed {p : PhysMem} {frame : Nat} (free : p.Free frame) :
    physmemFreeGet (p.markUsed frame) + 1 = physmemFreeGet p := by
  rw [physmemFreeGet_eq, physmemFreeGet_eq, markUsed_total]
  have member : frame ∈ (Finset.range p.total).filter fun query => p.used query = false :=
    Finset.mem_filter.mpr ⟨Finset.mem_range.mpr free.1, free.2⟩
  have erased : ((Finset.range p.total).filter fun query => (p.markUsed frame).used query = false) =
      ((Finset.range p.total).filter fun query => p.used query = false).erase frame := by
    ext query
    rw [Finset.mem_erase, Finset.mem_filter, Finset.mem_filter, markUsed_used]
    by_cases here : query = frame
    · simp [here]
    · simp [here]
  rw [erased, Finset.card_erase_add_one member]

theorem physmemFreeGet_pos {p : PhysMem} (positive : 0 < physmemFreeGet p) : ∃ frame, p.Free frame := by
  rw [physmemFreeGet_eq, Finset.card_pos] at positive
  obtain ⟨frame, member⟩ := positive
  obtain ⟨inside, free⟩ := Finset.mem_filter.mp member
  exact ⟨frame, Finset.mem_range.mp inside, free⟩

/-- The free frames and the missing tables go down together. -/
def Balanced (m m' : Machine) (root : Nat) (paths : Finset (List (Fin 512))) : Prop :=
  physmemFreeGet m'.phys + (missingPaths m root paths).card = physmemFreeGet m.phys + (missingPaths m' root paths).card

section
variable {m m' : Machine} {roots : Set Nat} {root : Nat} {paths : Finset (List (Fin 512))}

theorem Balanced.trans {m'' : Machine} (first : Balanced m m' root paths) (second : Balanced m' m'' root paths) :
    Balanced m m'' root paths := by
  unfold Balanced at *
  omega

/-- One level of the descent takes a frame exactly for a missing table. -/
theorem getOrCreate_balanced {message : String} {table below : Nat} {path : List (Fin 512)} {index : Fin 512}
    (inv : TableInv m roots) (isRoot : root ∈ roots) (reached : walk m.child root path = some table)
    (admitted : userPaths.holds (path ++ [index])) (user : ∀ path ∈ paths, userPaths.holds path)
    (needed : path ++ [index] ∈ paths) (returned : getOrCreate message m table index = .ok (below, m')) :
    Balanced m m' root paths := by
  unfold getOrCreate at returned
  cases present : m.child table index with
  | some child =>
      rw [present] at returned
      injection returned with same
      obtain ⟨rfl, rfl⟩ := Prod.mk.inj same
      rfl
  | none =>
      rw [present] at returned
      rcases physmemAllocTo_one m.phys inv.zeroUsed with ⟨failed, _⟩ | ⟨frame, nonzero, free, allocated⟩
      · simp [failed] at returned
      · have address : frame * pageSize ≠ 0 := by simp [pageSize, nonzero]
        simp only [allocated, address, if_false] at returned
        injection returned with same
        obtain ⟨rfl, same'⟩ := Prod.mk.inj same
        have shape : m' = linkTable m table index frame := same'.symm
        have link := linkTable_link inv isRoot reached admitted present free
        have absent : walk m.child root (path ++ [index]) = none := by
          rw [walk_snoc, reached]
          exact present
        have member : path ++ [index] ∈ missingPaths m root paths := Finset.mem_filter.mpr ⟨needed, absent⟩
        have erased : missingPaths m' root paths = (missingPaths m root paths).erase (path ++ [index]) := by
          ext query
          rw [Finset.mem_erase, missingPaths, missingPaths, Finset.mem_filter, Finset.mem_filter, shape]
          constructor
          · rintro ⟨inside, gone⟩
            obtain ⟨new, old⟩ := link.walk_new inv.forest root isRoot query (user query inside)
            have notNew : query ≠ path ++ [index] := by
              intro here
              rw [new ⟨rfl, here⟩] at gone
              cases gone
            rw [old fun both => notNew both.2] at gone
            exact ⟨notNew, inside, gone⟩
          · rintro ⟨notNew, inside, gone⟩
            obtain ⟨_, old⟩ := link.walk_new inv.forest root isRoot query (user query inside)
            rw [old fun both => notNew both.2]
            exact ⟨inside, gone⟩
        have fewer := Finset.card_erase_add_one member
        have taken : physmemFreeGet m'.phys + 1 = physmemFreeGet m.phys := by
          rw [shape]
          exact physmemFreeGet_markUsed free
        rw [Balanced, erased]
        omega

/-- A mapped page takes frames for its missing tables only. -/
theorem pagingMapPageIn_balanced {va phys : Nat} {flags : Word} (inv : TableInv m roots) (isRoot : root ∈ roots)
    (userVa : UserVa va) (user : ∀ path ∈ paths, userPaths.holds path)
    (needed : [pml4Index va] ∈ paths ∧ [pml4Index va, pdpIndex va] ∈ paths ∧ tablePath va ∈ paths)
    (returned : pagingMapPageIn m root va phys flags = .ok m') : Balanced m m' root paths := by
  obtain ⟨needed₁, needed₂, needed₃⟩ := needed
  unfold pagingMapPageIn at returned
  obtain ⟨⟨pdpt, m₁⟩, call₁, returned⟩ := Result.bind_ok returned
  obtain ⟨⟨pd, m₂⟩, call₂, returned⟩ := Result.bind_ok returned
  obtain ⟨⟨pt, m₃⟩, call₃, returned⟩ := Result.bind_ok returned
  have step₁ := getOrCreate_spec inv isRoot (walk_nil _ _) (user _ needed₁) call₁
  have step₂ := getOrCreate_spec step₁.grown.inv isRoot step₁.reached (user _ needed₂) call₂
  have step₃ := getOrCreate_spec step₂.grown.inv isRoot step₂.reached (tablePath_user userVa) call₃
  have balance₁ := getOrCreate_balanced inv isRoot (walk_nil _ _) (user _ needed₁) user needed₁ call₁
  have balance₂ := getOrCreate_balanced step₁.grown.inv isRoot step₁.reached (user _ needed₂) user needed₂ call₂
  have balance₃ := getOrCreate_balanced step₂.grown.inv isRoot step₂.reached (tablePath_user userVa) user needed₃ call₃
  have set := setLeaf_spec step₃.grown.inv isRoot userVa step₃.reached (leafEntry phys flags)
  injection returned with same
  rw [same] at set
  refine (balance₁.trans balance₂).trans (balance₃.trans ?_)
  have sameMissing : missingPaths m' root paths = missingPaths m₃ root paths := by
    refine Finset.filter_congr ?_
    intro path inside
    rw [set.walks root isRoot path (user path inside)]
  rw [Balanced, sameMissing, set.phys]

theorem neededPaths_user {base count : Nat} (range : UserRange base count) :
    ∀ path ∈ neededPaths base count, userPaths.holds path := by
  intro path member
  obtain ⟨i, inside, one⟩ := Finset.mem_biUnion.mp member
  have user := (range.address (Finset.mem_range.mp inside)).2.1
  have admitted := tablePath_user user
  have admitted₂ := userPaths.init [pml4Index (base + i * pageSize), pdpIndex (base + i * pageSize)] _ admitted
  have admitted₁ := userPaths.init [pml4Index (base + i * pageSize)] _ admitted₂
  simp only [Finset.mem_insert, Finset.mem_singleton] at one
  rcases one with first | second | third
  · rw [first]
    exact admitted₁
  · rw [second]
    exact admitted₂
  · rw [third]
    exact admitted

theorem mem_neededPaths {base count i : Nat} (inside : i < count) :
    [pml4Index (base + i * pageSize)] ∈ neededPaths base count ∧
      [pml4Index (base + i * pageSize), pdpIndex (base + i * pageSize)] ∈ neededPaths base count ∧
      tablePath (base + i * pageSize) ∈ neededPaths base count := by
  have here (path : List (Fin 512)) (one : path ∈ ({[pml4Index (base + i * pageSize)],
      [pml4Index (base + i * pageSize), pdpIndex (base + i * pageSize)], tablePath (base + i * pageSize)} :
        Finset (List (Fin 512)))) : path ∈ neededPaths base count :=
    Finset.mem_biUnion.mpr ⟨i, Finset.mem_range.mpr inside, one⟩
  exact ⟨here _ (by simp), here _ (by simp), here _ (by simp)⟩

/-- A descent halts only when no frame is free for a missing table. -/
theorem getOrCreate_error {message : String} {table : Nat} {index : Fin 512} {halt : Halt} (inv : TableInv m roots)
    (returned : getOrCreate message m table index = .error halt) :
    m.child table index = none ∧ physmemFreeGet m.phys = 0 := by
  unfold getOrCreate at returned
  cases present : m.child table index with
  | some child => simp [present] at returned
  | none =>
      rw [present] at returned
      rcases physmemAllocTo_one m.phys inv.zeroUsed with ⟨_, none⟩ | ⟨frame, nonzero, _, allocated⟩
      · refine ⟨rfl, Nat.eq_zero_of_not_pos ?_⟩
        intro positive
        obtain ⟨frame, free⟩ := physmemFreeGet_pos positive
        exact none frame free
      · have address : frame * pageSize ≠ 0 := by simp [pageSize, nonzero]
        simp [allocated, address] at returned

/-- A mapping halts only when more tables are missing than frames are free. -/
theorem pagingMapPageIn_error {va phys : Nat} {flags : Word} {halt : Halt} (inv : TableInv m roots) (isRoot : root ∈ roots)
    (user : ∀ path ∈ paths, userPaths.holds path)
    (needed : [pml4Index va] ∈ paths ∧ [pml4Index va, pdpIndex va] ∈ paths ∧ tablePath va ∈ paths)
    (returned : pagingMapPageIn m root va phys flags = .error halt) :
    physmemFreeGet m.phys < (missingPaths m root paths).card := by
  obtain ⟨needed₁, needed₂, needed₃⟩ := needed
  have short (path : List (Fin 512)) {state : Machine} {table : Nat} {index : Fin 512} {message : String}
      (held : TableInv state roots) (balance : Balanced m state root paths) (reached : walk state.child root path = some table)
      (member : path ++ [index] ∈ paths) (stuck : getOrCreate message state table index = .error halt) :
      physmemFreeGet m.phys < (missingPaths m root paths).card := by
    obtain ⟨absent, exhausted⟩ := getOrCreate_error held stuck
    have missing : path ++ [index] ∈ missingPaths state root paths := by
      refine Finset.mem_filter.mpr ⟨member, ?_⟩
      rw [walk_snoc, reached]
      exact absent
    have positive := Finset.card_pos.mpr ⟨_, missing⟩
    unfold Balanced at balance
    omega
  unfold pagingMapPageIn at returned
  cases call₁ : getOrCreate "paging_map_page_in: could not allocate PDPT" m root (pml4Index va) with
  | error halt₁ =>
      rw [call₁] at returned
      cases returned
      exact short [] inv rfl rfl needed₁ call₁
  | ok result₁ =>
      obtain ⟨pdpt, m₁⟩ := result₁
      have step₁ := getOrCreate_spec inv isRoot (walk_nil _ _) (user _ needed₁) call₁
      have balance₁ := getOrCreate_balanced inv isRoot (walk_nil _ _) (user _ needed₁) user needed₁ call₁
      simp only [call₁, bind, Except.bind] at returned
      cases call₂ : getOrCreate "paging_map_page_in: could not allocate PD" m₁ pdpt (pdpIndex va) with
      | error halt₂ =>
          rw [call₂] at returned
          cases returned
          exact short _ step₁.grown.inv balance₁ step₁.reached needed₂ call₂
      | ok result₂ =>
          obtain ⟨pd, m₂⟩ := result₂
          have step₂ := getOrCreate_spec step₁.grown.inv isRoot step₁.reached (user _ needed₂) call₂
          have balance₂ := getOrCreate_balanced step₁.grown.inv isRoot step₁.reached (user _ needed₂) user needed₂ call₂
          simp only [call₂] at returned
          cases call₃ : getOrCreate "paging_map_page_in: could not allocate PT" m₂ pd (pdIndex va) with
          | error halt₃ =>
              rw [call₃] at returned
              cases returned
              exact short _ step₂.grown.inv (balance₁.trans balance₂) step₂.reached needed₃ call₃
          | ok result₃ =>
              simp only [call₃] at returned
              cases returned

/-- One page of an allocation keeps the budget of the pages after it. -/
theorem allocPage_ok {base count i left frame : Nat} {flags : Word} (inv : TableInv m roots) (isRoot : root ∈ roots)
    (range : UserRange base count) (page : PageFlags flags) (inside : i < count) (free : m.phys.Free frame)
    (budget : left + 1 + (missingPaths m root (neededPaths base count)).card ≤ physmemFreeGet m.phys) :
    ∃ m', pagingMapPageIn { m with phys := m.phys.markUsed frame } root (base + i * pageSize) (frame * pageSize) flags = .ok m' ∧
      TableInv m' roots ∧ left + (missingPaths m' root (neededPaths base count)).card ≤ physmemFreeGet m'.phys := by
  have user := neededPaths_user range
  have userVa := (range.address inside).2.1
  have down := physmemFreeGet_markUsed free
  have held : TableInv { m with phys := m.phys.markUsed frame } roots := inv.takeFrame frame
  cases mapped : pagingMapPageIn { m with phys := m.phys.markUsed frame } root (base + i * pageSize) (frame * pageSize) flags with
  | error halt =>
      have short := pagingMapPageIn_error held isRoot user (mem_neededPaths inside) mapped
      change physmemFreeGet (m.phys.markUsed frame) < (missingPaths m root (neededPaths base count)).card at short
      omega
  | ok next =>
      have spec := pagingMapPageIn_spec held isRoot userVa page.present mapped
      have balance : physmemFreeGet next.phys + (missingPaths m root (neededPaths base count)).card =
          physmemFreeGet (m.phys.markUsed frame) + (missingPaths next root (neededPaths base count)).card :=
        pagingMapPageIn_balanced held isRoot userVa user (mem_neededPaths inside) mapped
      exact ⟨next, rfl, spec.grown.inv, by omega⟩

/-- An allocation with frames for its pages and its missing tables fills the range. -/
theorem vmmSpaceAllocPages_ok {base count : Nat} {flags : Word} (inv : TableInv m roots) (isRoot : root ∈ roots)
    (range : UserRange base count) (page : PageFlags flags)
    (enough : count + (missingPaths m root (neededPaths base count)).card ≤ physmemFreeGet m.phys) :
    ∃ m', vmmSpaceAllocPages root base flags count 0 m = .ok (none, m') := by
  have general : ∀ left i state, i + left = count → TableInv state roots →
      left + (missingPaths state root (neededPaths base count)).card ≤ physmemFreeGet state.phys →
      ∃ m', vmmSpaceAllocPages root base flags left i state = .ok (none, m') := by
    intro left
    induction left with
    | zero =>
        intro i state _ _ _
        exact ⟨state, rfl⟩
    | succ left ih =>
        intro i state total held budget
        have inside : i < count := by omega
        rw [vmmSpaceAllocPages, (range.address inside).1]
        rcases physmemAllocTo_one state.phys held.zeroUsed with ⟨_, none⟩ | ⟨frame, nonzero, free, taken⟩
        · have positive : 0 < physmemFreeGet state.phys := by omega
          obtain ⟨frame, free⟩ := physmemFreeGet_pos positive
          exact absurd free (none frame)
        · have address : frame * pageSize ≠ 0 := by simp [pageSize, nonzero]
          obtain ⟨next, mapped, held', budget'⟩ := allocPage_ok held isRoot range page inside free budget
          obtain ⟨filled, returned⟩ := ih (i + 1) next (by omega) held' budget'
          refine ⟨filled, ?_⟩
          simp only [taken, address, if_false, mapped, Result.ok_bind]
          exact returned
  exact general count 0 m (by omega) inv enough

theorem vmmSpaceAllocPages_enough {base count : Nat} {flags : Word} (inv : TableInv m roots) (isRoot : root ∈ roots)
    (range : UserRange base count) (page : PageFlags flags)
    (enough : count + (missingPaths m root (neededPaths base count)).card ≤ physmemFreeGet m.phys) (failed : Nat) :
    vmmSpaceAllocPages root base flags count 0 m ≠ .ok (some failed, m') := by
  obtain ⟨filled, returned⟩ := vmmSpaceAllocPages_ok inv isRoot range page enough
  rw [returned]
  intro same
  cases same

/-- An allocation that fills the range took a frame for each page and for each table that was missing. -/
theorem vmmSpaceAllocPages_balanced {base count : Nat} {flags : Word} (inv : TableInv m roots) (isRoot : root ∈ roots)
    (range : UserRange base count) (page : PageFlags flags)
    (returned : vmmSpaceAllocPages root base flags count 0 m = .ok (none, m')) :
    physmemFreeGet m'.phys + count + (missingPaths m root (neededPaths base count)).card =
      physmemFreeGet m.phys + (missingPaths m' root (neededPaths base count)).card := by
  have user := neededPaths_user range
  have general : ∀ left i state, i + left = count → TableInv state roots →
      vmmSpaceAllocPages root base flags left i state = .ok (none, m') →
      physmemFreeGet m'.phys + left + (missingPaths state root (neededPaths base count)).card =
        physmemFreeGet state.phys + (missingPaths m' root (neededPaths base count)).card := by
    intro left
    induction left with
    | zero =>
        intro i state _ _ call
        cases call
        rfl
    | succ left ih =>
        intro i state total held call
        have inside : i < count := by omega
        obtain ⟨wrapped, userVa, _⟩ := range.address inside
        rw [vmmSpaceAllocPages, wrapped] at call
        rcases physmemAllocTo_one state.phys held.zeroUsed with ⟨exhausted, _⟩ | ⟨frame, nonzero, free, taken⟩
        · simp only [exhausted, if_true] at call
          cases call
        · have address : frame * pageSize ≠ 0 := by simp [pageSize, nonzero]
          simp only [taken, address, if_false] at call
          obtain ⟨next, mapped, rest⟩ := Result.bind_ok call
          have held' : TableInv { state with phys := state.phys.markUsed frame } roots := held.takeFrame frame
          have spec := pagingMapPageIn_spec held' isRoot userVa page.present mapped
          have balance : physmemFreeGet next.phys + (missingPaths state root (neededPaths base count)).card =
              physmemFreeGet (state.phys.markUsed frame) + (missingPaths next root (neededPaths base count)).card :=
            pagingMapPageIn_balanced held' isRoot userVa user (mem_neededPaths inside) mapped
          have down := physmemFreeGet_markUsed free
          have rest' := ih (i + 1) next (by omega) spec.grown.inv rest
          omega
  exact general count 0 m (by omega) inv returned

/-- An allocation without any free frame fails at its first page. -/
theorem vmmSpaceAllocPages_none {base count : Nat} {flags : Word} (inv : TableInv m roots)
    (none : physmemFreeGet m.phys = 0) (failed : Nat) :
    vmmSpaceAllocPages root base flags count 0 m ≠ .ok (some (failed + 1), m') := by
  intro call
  cases count with
  | zero => cases call
  | succ count =>
      rw [vmmSpaceAllocPages] at call
      rcases physmemAllocTo_one m.phys inv.zeroUsed with ⟨exhausted, _⟩ | ⟨frame, _, free, _⟩
      · simp [exhausted] at call
      · have positive := physmemFreeGet_markUsed free
        omega

end

end DoccrOS.Mem
