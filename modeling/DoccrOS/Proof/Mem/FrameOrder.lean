import DoccrOS.Proof.Mem.AllOrNothing
import DoccrOS.Proof.Mem.PhysMemRuns

namespace DoccrOS.Mem
open Lib.Radix Lib

/-- The number of free frames below a frame. -/
def PhysMem.freeBelow (p : PhysMem) (frame : Nat) : Nat := ((Finset.range frame).filter fun query => p.used query = false).card

/-- The frame is the first free one. -/
structure PhysMem.FirstFree (p : PhysMem) (frame : Nat) : Prop where
  free : p.Free frame
  first : ∀ query, p.Free query → frame ≤ query

/-- The frames that were taken between two states lie below those that are still free. -/
structure TakesLowest (p p' : PhysMem) : Prop where
  total : p'.total = p.total
  used : ∀ frame, p.used frame = true → p'.used frame = true
  lowest : ∀ taken left, p.Free taken → p'.used taken = true → p'.Free left → taken < left

section
variable {p p' p'' : PhysMem} {frame other : Nat} {m m' : Machine} {roots : Set Nat} {root base count : Nat} {flags : Word}

theorem TakesLowest.free (takes : TakesLowest p p') (free : p'.Free frame) : p.Free frame := by
  refine ⟨takes.total ▸ free.1, ?_⟩
  rw [← Bool.not_eq_true]
  intro used
  have used' := takes.used frame used
  rw [free.2] at used'
  cases used'

theorem TakesLowest.refl (p : PhysMem) : TakesLowest p p := by
  refine ⟨rfl, fun _ used => used, ?_⟩
  intro taken left free used
  rw [free.2] at used
  cases used

theorem TakesLowest.trans (first : TakesLowest p p') (second : TakesLowest p' p'') : TakesLowest p p'' := by
  refine ⟨second.total.trans first.total, fun frame used => second.used frame (first.used frame used), ?_⟩
  intro taken left free used stillFree
  by_cases early : p'.used taken = true
  · exact first.lowest taken left free early (second.free stillFree)
  · have late : p'.Free taken := by
      refine ⟨?_, Bool.eq_false_of_not_eq_true early⟩
      rw [first.total]
      exact free.1
    exact second.lowest taken left late used stillFree

/-- Taking the first free frame takes the lowest one. -/
theorem PhysMem.FirstFree.takes (first : p.FirstFree frame) : TakesLowest p (p.markUsed frame) := by
  refine ⟨rfl, ?_, ?_⟩
  · intro query used
    rw [markUsed_used, used, ite_self]
  · rintro taken left free used ⟨inside, stillFree⟩
    rw [markUsed_used] at used stillFree
    have here : taken = frame := by
      by_contra different
      rw [if_neg different, free.2] at used
      cases used
    have apart : left ≠ frame := by
      intro same
      rw [if_pos same] at stillFree
      cases stillFree
    rw [if_neg apart] at stillFree
    have above := first.first left ⟨inside, stillFree⟩
    omega

/-- A one-frame allocation takes the first free frame. -/
theorem physmemAllocTo_first (nonzero : frame ≠ 0) (taken : physmemAllocTo p 1 = (frame * pageSize, p.markUsed frame)) :
    p.FirstFree frame := by
  rcases physmemAllocTo_spec p Nat.one_pos with ⟨start, free, lowest, address, _⟩ | ⟨_, failed⟩
  · rw [taken] at address
    have same : frame = start := Nat.mul_right_cancel (by decide) address
    rw [same]
    refine ⟨free start (Nat.le_refl _) (Nat.lt_succ_self _), ?_⟩
    intro query isFree
    rw [← Nat.not_lt]
    intro earlier
    apply lowest query earlier
    intro other above below
    rw [show other = query by omega]
    exact isFree
  · rw [taken] at failed
    have zero : frame * pageSize = 0 := congrArg Prod.fst failed
    exact absurd ((Nat.mul_eq_zero.mp zero).resolve_right (by decide)) nonzero

/-- The first free frame has as many free frames below it as were taken before. -/
theorem TakesLowest.freeBelow (takes : TakesLowest p p') (first : p'.FirstFree frame) :
    p.freeBelow frame + physmemFreeGet p' = physmemFreeGet p := by
  rw [physmemFreeGet_eq, physmemFreeGet_eq, PhysMem.freeBelow, takes.total]
  have split : (Finset.range p.total).filter (fun query => p.used query = false) =
      ((Finset.range frame).filter fun query => p.used query = false) ∪
        (Finset.range p.total).filter fun query => p'.used query = false := by
    ext query
    simp only [Finset.mem_union, Finset.mem_filter, Finset.mem_range]
    constructor
    · rintro ⟨inside, free⟩
      by_cases later : p'.used query = false
      · exact Or.inr ⟨inside, later⟩
      · exact Or.inl ⟨takes.lowest query frame ⟨inside, free⟩ (Bool.eq_true_of_not_eq_false later) first.free, free⟩
    · rintro (⟨below, free⟩ | ⟨inside, free⟩)
      · have bound := (takes.free first.free).1
        exact ⟨by omega, free⟩
      · exact takes.free ⟨takes.total.symm ▸ inside, free⟩
  have disjoint : Disjoint ((Finset.range frame).filter fun query => p.used query = false)
      ((Finset.range p.total).filter fun query => p'.used query = false) := by
    rw [Finset.disjoint_left]
    intro query low high
    have below := Finset.mem_range.mp (Finset.mem_filter.mp low).1
    obtain ⟨inside, free⟩ := Finset.mem_filter.mp high
    have above := first.first query ⟨takes.total.symm ▸ Finset.mem_range.mp inside, free⟩
    omega
  rw [split, Finset.card_union_of_disjoint disjoint]

/-- Two free frames with the same number of free frames below them are the same. -/
theorem PhysMem.freeBelow_inj (free : p.Free frame) (free' : p.Free other) (same : p.freeBelow frame = p.freeBelow other) :
    frame = other := by
  have grows {low high : Nat} (isFree : p.Free low) (below : low < high) : p.freeBelow low < p.freeBelow high := by
    apply Finset.card_lt_card
    rw [Finset.ssubset_iff]
    refine ⟨low, ?_, ?_⟩
    · rw [Finset.mem_filter, Finset.mem_range]
      exact fun both => Nat.lt_irrefl _ both.1
    · intro query member
      rw [Finset.mem_filter, Finset.mem_range]
      rcases Finset.mem_insert.mp member with rfl | old
      · exact ⟨below, isFree.2⟩
      · rw [Finset.mem_filter, Finset.mem_range] at old
        exact ⟨by omega, old.2⟩
  rcases Nat.lt_trichotomy frame other with less | equal | more
  · have different := grows free less
    omega
  · exact equal
  · have different := grows free' more
    omega

theorem getOrCreate_lowest {message : String} {table below : Nat} {index : Fin 512} (inv : TableInv m roots)
    (returned : getOrCreate message m table index = .ok (below, m')) : TakesLowest m.phys m'.phys := by
  unfold getOrCreate at returned
  cases present : m.child table index with
  | some child =>
      rw [present] at returned
      cases returned
      exact TakesLowest.refl _
  | none =>
      rw [present] at returned
      rcases physmemAllocTo_one m.phys inv.zeroUsed with ⟨failed, _⟩ | ⟨frame, nonzero, _, taken⟩
      · simp only [failed, if_true] at returned
        cases returned
      · have address : frame * pageSize ≠ 0 := by simp [pageSize, nonzero]
        have first := physmemAllocTo_first nonzero taken
        simp only [taken, address, if_false] at returned
        cases returned
        exact first.takes

/-- A mapped page takes the lowest frames for its tables. -/
theorem pagingMapPageIn_lowest {va phys : Nat} (inv : TableInv m roots) (isRoot : root ∈ roots) (user : UserVa va)
    (returned : pagingMapPageIn m root va phys flags = .ok m') : TakesLowest m.phys m'.phys := by
  have admitted := tablePath_user user
  have admitted₂ : userPaths.holds [pml4Index va, pdpIndex va] := userPaths.init _ (pdIndex va) admitted
  have admitted₁ : userPaths.holds [pml4Index va] := userPaths.init _ (pdpIndex va) admitted₂
  unfold pagingMapPageIn at returned
  obtain ⟨⟨pdpt, m₁⟩, call₁, returned⟩ := Result.bind_ok returned
  obtain ⟨⟨pd, m₂⟩, call₂, returned⟩ := Result.bind_ok returned
  obtain ⟨⟨pt, m₃⟩, call₃, returned⟩ := Result.bind_ok returned
  have step₁ := getOrCreate_spec inv isRoot (walk_nil _ _) admitted₁ call₁
  have step₂ := getOrCreate_spec step₁.grown.inv isRoot step₁.reached admitted₂ call₂
  have takes := ((getOrCreate_lowest inv call₁).trans (getOrCreate_lowest step₁.grown.inv call₂)).trans
    (getOrCreate_lowest step₂.grown.inv call₃)
  cases returned
  exact takes

/-- An allocation has filled the first pages of its range, and every page and every missing table took the next free frame. -/
structure RankedRange (m m' : Machine) (roots : Set Nat) (root base count stop : Nat) (flags : Word) (frames : Nat → Nat) :
    Prop where
  filled : AllocatedRange m m' roots root base count flags frames
  takes : TakesLowest m.phys m'.phys
  budget : ∀ last, count ≤ last → last ≤ stop →
    physmemFreeGet m'.phys + count + (missingPaths m root (neededPaths base last)).card =
      physmemFreeGet m.phys + (missingPaths m' root (neededPaths base last)).card
  ranks : ∀ i, i < count → m.phys.freeBelow (frames i) = i + (missingPaths m root (neededPaths base i)).card

/-- The page of a range that is filled next gets the frame with its rank. -/
theorem RankedRange.step {stop i frame : Nat} {frames : Nat → Nat} {next : Machine} (range : UserRange base stop)
    (page : PageFlags flags) (isRoot : root ∈ roots) (before : RankedRange m m' roots root base i stop flags frames)
    (inside : i < stop) (nonzero : frame ≠ 0) (first : m'.phys.FirstFree frame)
    (mapped : pagingMapPageIn { m' with phys := m'.phys.markUsed frame } root (base + i * pageSize) (frame * pageSize) flags =
      .ok next) :
    RankedRange m next roots root base (i + 1) stop flags (Function.update frames i frame) := by
  have held : TableInv { m' with phys := m'.phys.markUsed frame } roots := before.filled.tables.takeFrame frame
  have user := (range.address inside).2.1
  have last := pagingMapPageIn_spec held isRoot user page.present mapped
  have down := physmemFreeGet_markUsed first.free
  have filled := before.filled.step range inside nonzero first.free last
  constructor
  · exact filled
  · exact (before.takes.trans first.takes).trans (pagingMapPageIn_lowest held isRoot user mapped)
  · intro final above below
    have paths := neededPaths_user (range.shorter below)
    have balance : physmemFreeGet next.phys + (missingPaths m' root (neededPaths base final)).card =
        physmemFreeGet (m'.phys.markUsed frame) + (missingPaths next root (neededPaths base final)).card :=
      pagingMapPageIn_balanced held isRoot user paths (mem_neededPaths (Nat.lt_of_succ_le above)) mapped
    have budget := before.budget final (Nat.le_of_succ_le above) below
    omega
  · intro j early
    by_cases here : j = i
    · rw [here, Function.update_self]
      have filledBefore := missingPaths_filled fun k (below : k < i) => by
        rw [before.filled.mapped isRoot (range.shorter (Nat.le_of_lt inside)) below]
        exact Option.some_ne_none _
      have budget := before.budget i (Nat.le_refl _) (Nat.le_of_lt inside)
      rw [filledBefore, Finset.card_empty] at budget
      have rank := before.takes.freeBelow first
      omega
    · rw [Function.update_of_ne here]
      exact before.ranks j (by omega)

/-- An allocation that succeeds hands out the free frames in their order. The induction is on the pages that are left. -/
theorem vmmSpaceAllocPages_ranked (inv : TableInv m roots) (isRoot : root ∈ roots) (range : UserRange base count)
    (page : PageFlags flags) (returned : vmmSpaceAllocPages root base flags count 0 m = .ok (none, m')) :
    ∃ frames, RankedRange m m' roots root base count count flags frames := by
  have general : ∀ left i state frames, i + left = count → RankedRange m state roots root base i count flags frames →
      vmmSpaceAllocPages root base flags left i state = .ok (none, m') →
      ∃ frames, RankedRange m m' roots root base count count flags frames := by
    intro left
    induction left with
    | zero =>
        intro i state frames total held call
        cases call
        rw [Nat.add_zero] at total
        rw [total] at held
        exact ⟨frames, held⟩
    | succ left inductionHypothesis =>
        intro i state frames total held call
        have inside : i < count := by omega
        rw [vmmSpaceAllocPages, (range.address inside).1] at call
        rcases physmemAllocTo_one state.phys held.filled.tables.zeroUsed with ⟨exhausted, _⟩ | ⟨frame, nonzero, _, taken⟩
        · simp only [exhausted, if_true] at call
          cases call
        · have address : frame * pageSize ≠ 0 := by simp [pageSize, nonzero]
          have first := physmemAllocTo_first nonzero taken
          simp only [taken, address, if_false] at call
          obtain ⟨next, mapped, rest⟩ := Result.bind_ok call
          exact inductionHypothesis (i + 1) next _ (by omega) (held.step range page isRoot inside nonzero first mapped) rest
  apply general count 0 m (fun _ => 0) (Nat.zero_add count) _ returned
  refine ⟨AllocatedRange.refl inv, TakesLowest.refl _, fun _ _ _ => rfl, fun i early => absurd early (Nat.not_lt_zero i)⟩

/-- A call of `vmm_space_alloc` that succeeds hands out the free frames in their order. -/
theorem vmmSpaceAlloc_ranked {space space' : Space} {vaddr value : Nat} {flags : BitVec 32} {nodeOk : Bool}
    (inv : TableInv m roots) (isRoot : space.pml4Phys ∈ roots) (range : UserRange (pageAlignDown vaddr) count)
    (returned : vmmSpaceAlloc m space vaddr count flags nodeOk = .ok (value, m', space')) (success : value ≠ 0) :
    value = pageAlignDown vaddr ∧ space'.pml4Phys = space.pml4Phys ∧ 0 < count ∧
      ∃ frames, RankedRange m m' roots space.pml4Phys (pageAlignDown vaddr) count count (flagsToPte flags) frames := by
  unfold vmmSpaceAlloc at returned
  split at returned
  · cases returned
    exact absurd rfl success
  · rename_i several
    split at returned
    · cases returned
      exact absurd rfl success
    · obtain ⟨⟨failed, full⟩, pages, rest⟩ := Result.bind_ok returned
      cases failed with
      | some i =>
          cases rest
          exact absurd rfl success
      | none =>
          cases rest
          exact ⟨rfl, rfl, Nat.pos_of_ne_zero several, vmmSpaceAllocPages_ranked inv isRoot range (flagsToPte_page flags) pages⟩

/-- The pages of an allocated range avoid the free frames of another state just if all its frames do. -/
theorem AllocatedRange.avoids_iff {frames : Nat → Nat} (filled : AllocatedRange m m' roots root base count flags frames)
    (page : PageFlags flags) (isRoot : root ∈ roots) (range : UserRange base count) :
    (∀ va entry, InRange base count va → m'.findPte root va = some entry → ¬p.Free (entryAddr entry / pageSize)) ↔
      ∀ i, i < count → ¬p.Free (frames i) := by
  constructor
  · intro avoids i inside
    have address := (filled.frame page inside).2
    have inRange : InRange base count (base + i * pageSize) := by
      unfold InRange
      rw [(range.address inside).2.2]
      omega
    have apart := avoids _ _ inRange (filled.mapped isRoot range inside)
    rw [address, page_div] at apart
    exact apart
  · intro avoids va entry inside found
    rw [filled.leaf root isRoot va (range.userVa inside), if_pos ⟨rfl, inside⟩] at found
    have index : va / pageSize - base / pageSize < count := by
      unfold InRange at inside
      omega
    rw [← Option.some.inj found, (filled.frame page index).2, page_div]
    exact avoids _ index

end

end DoccrOS.Mem
