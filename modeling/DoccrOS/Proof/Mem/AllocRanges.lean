import DoccrOS.Proof.Mem.MapRanges

namespace DoccrOS.Mem
open Lib.Radix Lib

/-- The pages of a range map fresh frames of their own, new tables were free frames, and nothing else changed. -/
structure AllocatedRange (m m' : Machine) (roots : Set Nat) (root base count : Nat) (flags : Word) (frames : Nat → Nat) :
    Prop where
  tables : TableInv m' roots
  walks : ∀ root' ∈ roots, ∀ path table, userPaths.holds path → walk m.child root' path = some table →
    walk m'.child root' path = some table
  leaf : ∀ root' ∈ roots, ∀ va, UserVa va → m'.findPte root' va =
    if root' = root ∧ InRange base count va then
      some (leafEntry (frames (va / pageSize - base / pageSize) * pageSize) flags)
    else m.findPte root' va
  free : ∀ i, i < count → frames i ≠ 0 ∧ m.phys.Free (frames i)
  distinct : ∀ i j, i < count → j < count → frames i = frames j → i = j
  taken : ∀ i, i < count → m'.phys.used (frames i) = true ∧ m'.phys.pageframes (frames i) = ⟨1, frameUsed⟩ ∧
    frames i * pageSize ∉ Tables m' roots
  fresh : ∀ table ∈ Tables m' roots, table ∉ Tables m roots → m.phys.Free (table / pageSize) ∧
    m'.phys.pageframes (table / pageSize) = ⟨1, frameUsed⟩
  kept : ∀ frame, (∀ table ∈ Tables m' roots, table ∉ Tables m roots → table / pageSize ≠ frame) →
    (∀ i, i < count → frames i ≠ frame) →
    m'.phys.used frame = m.phys.used frame ∧ m'.phys.pageframes frame = m.phys.pageframes frame
  ram : ∀ page, page ∉ Tables m' roots → m'.ram page = m.ram page
  kernelHalf : ∀ root' ∈ roots, ∀ index : Fin 512, 256 ≤ index.val → m'.ram root' index = m.ram root' index
  occupied : AllOccupied m roots → AllOccupied m' roots
  total : m'.phys.total = m.phys.total
  kernelPml4 : m'.kernelPml4 = m.kernelPml4

section
variable {m m' next : Machine} {roots : Set Nat} {root base count i frame : Nat} {flags : Word} {frames : Nat → Nat}

theorem AllocatedRange.refl (inv : TableInv m roots) : AllocatedRange m m roots root base 0 flags frames where
  tables := inv
  walks _ _ _ _ _ reached := reached
  leaf root' isRoot' va user := by
    rw [if_neg]
    rintro ⟨_, inside⟩
    unfold InRange at inside
    omega
  free i inside := by omega
  distinct i j inside := by omega
  taken i inside := by omega
  fresh table owned notOwned := absurd owned notOwned
  kept _ _ _ := ⟨rfl, rfl⟩
  ram _ _ := rfl
  kernelHalf _ _ _ _ := rfl
  occupied held := held
  total := rfl
  kernelPml4 := rfl

/-- A frame that is free after the allocation was free before and was not handed out. -/
theorem AllocatedRange.stillFree (range : AllocatedRange m m' roots root base count flags frames)
    (free : m'.phys.Free frame) : m.phys.Free frame ∧ ∀ i, i < count → frames i ≠ frame := by
  have apart : ∀ i, i < count → frames i ≠ frame := by
    intro i inside same
    have used := (range.taken i inside).1
    rw [same, free.2] at used
    exact Bool.false_ne_true used
  have notTable : ∀ table ∈ Tables m' roots, table ∉ Tables m roots → table / pageSize ≠ frame := by
    intro table owned _ same
    have used := (range.tables.allocated table owned).used
    rw [same, free.2] at used
    exact Bool.false_ne_true used
  refine ⟨⟨?_, ?_⟩, apart⟩
  · rw [← range.total]
    exact free.1
  · rw [← (range.kept frame notTable apart).1]
    exact free.2

/-- A growth after a frame was taken keeps every frame that was used before. -/
theorem Grown.usedFrame {p : PhysMem} (grown : Grown { m with phys := p } next roots) {query : Nat}
    (used : p.used query = true) : (∀ table ∈ Tables next roots, table ∉ Tables m roots → table / pageSize ≠ query) ∧
      next.phys.used query = true ∧ next.phys.pageframes query = p.pageframes query := by
  have apart : ∀ table ∈ Tables next roots, table ∉ Tables m roots → table / pageSize ≠ query := by
    intro table owned new same
    have free := (grown.fresh table owned new).1
    rw [same] at free
    rw [free.2] at used
    exact Bool.false_ne_true used
  obtain ⟨sameUsed, sameFrame⟩ := grown.kept query apart
  exact ⟨apart, sameUsed.trans used, sameFrame⟩

/-- A further page extends the range by a fresh frame. -/
theorem AllocatedRange.step (range : UserRange base count) (inside : i < count)
    (before : AllocatedRange m m' roots root base i flags frames) (nonzero : frame ≠ 0) (free : m'.phys.Free frame)
    (last : Mapped { m' with phys := m'.phys.markUsed frame } next roots root (base + i * pageSize)
      (leafEntry (frame * pageSize) flags)) :
    AllocatedRange m next roots root base (i + 1) flags (Function.update frames i frame) := by
  have grown := last.grown
  have wasFree := before.stillFree free
  have marked (query : Nat) (used : m'.phys.used query = true) : query ≠ frame ∧
      (m'.phys.markUsed frame).used query = true ∧
      (m'.phys.markUsed frame).pageframes query = m'.phys.pageframes query := by
    have different : query ≠ frame := by
      intro same
      rw [same, free.2] at used
      exact Bool.false_ne_true used
    rw [markUsed_used, markUsed_pageframes, if_neg different, if_neg different]
    exact ⟨different, used, rfl⟩
  have older (j : Nat) (earlier : j < i) : Function.update frames i frame j = frames j :=
    Function.update_of_ne (by omega) _ _
  have newer : Function.update frames i frame i = frame := Function.update_self _ _ _
  have here : (m'.phys.markUsed frame).used frame = true := by rw [markUsed_used, if_pos rfl]
  refine ⟨grown.inv, ?_, ?_, ?_, ?_, ?_, ?_, ?_, ?_, ?_, ?_, ?_, ?_⟩
  · intro root' isRoot' path table admitted reached
    exact grown.walks root' isRoot' path table admitted (before.walks root' isRoot' path table admitted reached)
  · intro root' isRoot' va user
    rw [last.leaf root' isRoot' va user, (range.address inside).2.2, findPte_withPhys, before.leaf root' isRoot' va user]
    unfold InRange
    by_cases same : root' = root
    · by_cases page : va / pageSize = base / pageSize + i
      · rw [if_pos ⟨same, page⟩, if_pos ⟨same, by omega⟩, page, Nat.add_sub_cancel_left, newer]
      · rw [if_neg fun both => page both.2]
        by_cases earlier : base / pageSize ≤ va / pageSize ∧ va / pageSize < base / pageSize + i
        · rw [if_pos ⟨same, earlier⟩, if_pos ⟨same, by omega⟩, older _ (by omega)]
        · rw [if_neg fun both => earlier both.2, if_neg fun both => earlier (by omega)]
    · simp only [same, false_and, if_false]
  · intro j bound
    rcases Nat.lt_succ_iff_lt_or_eq.mp bound with earlier | rfl
    · rw [older j earlier]
      exact before.free j earlier
    · rw [newer]
      exact ⟨nonzero, wasFree.1⟩
  · intro j k boundJ boundK same
    rcases Nat.lt_succ_iff_lt_or_eq.mp boundJ with earlierJ | rfl <;>
      rcases Nat.lt_succ_iff_lt_or_eq.mp boundK with earlierK | rfl
    · rw [older j earlierJ, older k earlierK] at same
      exact before.distinct j k earlierJ earlierK same
    · rw [older j earlierJ, newer] at same
      exact absurd same (wasFree.2 j earlierJ)
    · rw [older k earlierK, newer] at same
      exact absurd same.symm (wasFree.2 k earlierK)
    · rfl
  · intro j bound
    rcases Nat.lt_succ_iff_lt_or_eq.mp bound with earlier | rfl
    · rw [older j earlier]
      obtain ⟨used, pageframe, notTable⟩ := before.taken j earlier
      obtain ⟨_, used', pageframe'⟩ := marked _ used
      obtain ⟨apart, stays, record⟩ := grown.usedFrame used'
      refine ⟨stays, record.trans (pageframe'.trans pageframe), ?_⟩
      intro owned
      exact apart _ owned notTable (page_div _)
    · rw [newer]
      obtain ⟨apart, stays, record⟩ := grown.usedFrame here
      refine ⟨stays, ?_, ?_⟩
      · rw [record, markUsed_pageframes, if_pos rfl]
      · intro owned
        refine apart _ owned ?_ (page_div _)
        intro old
        have used := (before.tables.allocated _ old).used
        rw [page_div, free.2] at used
        exact Bool.false_ne_true used
  · intro table owned new
    by_cases middle : table ∈ Tables m' roots
    · obtain ⟨wasFree', pageframe⟩ := before.fresh table middle new
      obtain ⟨_, used', pageframe'⟩ := marked _ (before.tables.allocated table middle).used
      exact ⟨wasFree', (grown.usedFrame used').2.2.trans (pageframe'.trans pageframe)⟩
    · obtain ⟨free', pageframe⟩ := grown.fresh table owned middle
      have unused : m'.phys.Free (table / pageSize) := by
        refine ⟨by rw [← markUsed_total m'.phys frame]; exact free'.1, ?_⟩
        have notUsed : (m'.phys.markUsed frame).used (table / pageSize) = false := free'.2
        rw [markUsed_used] at notUsed
        split at notUsed
        · cases notUsed
        · exact notUsed
      exact ⟨(before.stillFree unused).1, pageframe⟩
  · intro query apart apart'
    have different : query ≠ frame := by
      intro same
      exact apart' i (Nat.lt_succ_self i) (newer.trans same.symm)
    obtain ⟨sameUsed, sameFrame⟩ := grown.kept query fun table owned new =>
      apart table owned fun old => new (by
        obtain ⟨root', isRoot', path, admitted, reached⟩ := old
        exact mem_nodes isRoot' admitted (before.walks root' isRoot' path table admitted reached))
    rw [markUsed_used, if_neg different] at sameUsed
    rw [markUsed_pageframes, if_neg different] at sameFrame
    obtain ⟨sameUsed', sameFrame'⟩ := before.kept query
      (fun table owned new => apart table (grown.tables owned) new)
      (fun j earlier same => apart' j (by omega) (by rw [older j earlier]; exact same))
    exact ⟨sameUsed.trans sameUsed', sameFrame.trans sameFrame'⟩
  · intro page notOwned
    exact (grown.ram page notOwned).trans (before.ram page fun owned => notOwned (grown.tables owned))
  · intro root' isRoot' index high
    exact (grown.kernelHalf root' isRoot' index high).trans (before.kernelHalf root' isRoot' index high)
  · intro held
    exact last.allOccupied (before.occupied held)
  · exact grown.total.trans ((markUsed_total _ _).trans before.total)
  · exact grown.kernelPml4.trans before.kernelPml4

theorem UserRange.shorter (range : UserRange base count) (fewer : i ≤ count) : UserRange base i :=
  ⟨range.aligned, (Nat.add_le_add_left (Nat.mul_le_mul_right _ fewer) _).trans range.fits⟩

/-- The addresses of a range lie in the user half. -/
theorem UserRange.userVa {va : Nat} (range : UserRange base count) (inside : InRange base count va) : UserVa va := by
  have fits := range.fits
  have aligned := range.aligned
  unfold InRange at inside
  unfold UserVa
  simp only [pageSize] at *
  omega

/-- A page of the range maps its own frame. -/
theorem AllocatedRange.mapped (filled : AllocatedRange m m' roots root base count flags frames) (isRoot : root ∈ roots)
    (range : UserRange base count) (inside : i < count) : m'.findPte root (base + i * pageSize) = some (leafEntry (frames i * pageSize) flags) := by
  have address := range.address inside
  rw [filled.leaf root isRoot _ address.2.1, if_pos ⟨rfl, by unfold InRange; omega⟩, address.2.2, Nat.add_sub_cancel_left]

/-- The page loop of `vmm_space_alloc` fills the range, or it stops at a page for which no frame is free. -/
theorem vmmSpaceAllocPages_spec {failed : Option Nat} (inv : TableInv m roots) (isRoot : root ∈ roots)
    (range : UserRange base count) (page : PageFlags flags)
    (returned : vmmSpaceAllocPages root base flags count 0 m = .ok (failed, m')) :
    ∃ frames, (failed = none ∧ AllocatedRange m m' roots root base count flags frames) ∨
      ∃ i, i < count ∧ failed = some i ∧ AllocatedRange m m' roots root base i flags frames ∧
        ∀ frame, ¬m'.phys.Free frame := by
  have general : ∀ left i state frames, i + left = count → AllocatedRange m state roots root base i flags frames →
      vmmSpaceAllocPages root base flags left i state = .ok (failed, m') →
      ∃ frames, (failed = none ∧ AllocatedRange m m' roots root base count flags frames) ∨
        ∃ i, i < count ∧ failed = some i ∧ AllocatedRange m m' roots root base i flags frames ∧
          ∀ frame, ¬m'.phys.Free frame := by
    intro left
    induction left with
    | zero =>
        intro i state frames total held call
        injection call with same
        obtain ⟨rfl, rfl⟩ := Prod.mk.inj same
        refine ⟨frames, Or.inl ⟨rfl, ?_⟩⟩
        rw [← total]
        exact held
    | succ left ih =>
        intro i state frames total held call
        have inside : i < count := by omega
        rw [vmmSpaceAllocPages, (range.address inside).1] at call
        rcases physmemAllocTo_one state.phys held.tables.zeroUsed with ⟨exhausted, none⟩ | ⟨frame, nonzero, free, taken⟩
        · simp only [exhausted, if_true] at call
          injection call with same
          obtain ⟨rfl, rfl⟩ := Prod.mk.inj same
          exact ⟨frames, Or.inr ⟨i, inside, rfl, held, none⟩⟩
        · have address : frame * pageSize ≠ 0 := by simp [pageSize, nonzero]
          simp only [taken, address, if_false] at call
          obtain ⟨next, mapped, rest⟩ := Result.bind_ok call
          have last := pagingMapPageIn_spec (held.tables.takeFrame frame) isRoot (range.address inside).2.1 page.present mapped
          exact ih (i + 1) next _ (by omega) (held.step range inside nonzero free last) rest
  exact general count 0 m (fun _ => 0) (by omega) (AllocatedRange.refl inv) returned

/-- The entries of a range are cleared, and nothing else changes. -/
structure UnmappedRange (m m' : Machine) (roots : Set Nat) (root base count : Nat) : Prop where
  inv : TableInv m' roots
  walks : ∀ root' ∈ roots, ∀ path, userPaths.holds path → walk m'.child root' path = walk m.child root' path
  tables : Tables m' roots = Tables m roots
  leaf : ∀ root' ∈ roots, ∀ va, UserVa va → m'.findPte root' va =
    if root' = root ∧ InRange base count va then none else m.findPte root' va
  ram : ∀ page, page ∉ Tables m roots → m'.ram page = m.ram page
  kernelHalf : ∀ root' ∈ roots, ∀ index : Fin 512, 256 ≤ index.val → m'.ram root' index = m.ram root' index
  phys : m'.phys = m.phys
  kernelPml4 : m'.kernelPml4 = m.kernelPml4

theorem vmmSpaceAllocUndo_spec (inv : TableInv m roots) (isRoot : root ∈ roots) (range : UserRange base count) :
    UnmappedRange m (vmmSpaceAllocUndo root base count m) roots root base count := by
  let holds (i : Nat) (state : Machine) : Prop := UnmappedRange m state roots root base i
  have tables (i : Nat) (state : Machine) (held : holds i state) : TableInv state roots := held.inv
  refine vmmSpaceAllocUndo_rule range isRoot tables ?_ ?_
  · intro i state next inside held set
    refine ⟨set.inv, ?_, set.tables.trans held.tables, ?_, ?_, ?_, set.phys.trans held.phys,
      set.kernelPml4.trans held.kernelPml4⟩
    · intro root' isRoot' path admitted
      exact (set.walks root' isRoot' path admitted).trans (held.walks root' isRoot' path admitted)
    · intro root' isRoot' va user
      rw [set.leaf root' isRoot' va user, (range.address inside).2.2, held.leaf root' isRoot' va user]
      unfold InRange
      by_cases same : root' = root
      · by_cases here : va / pageSize = base / pageSize + i
        · rw [if_pos ⟨same, here⟩, if_pos ⟨same, by omega⟩]
        · rw [if_neg fun both => here both.2]
          by_cases earlier : base / pageSize ≤ va / pageSize ∧ va / pageSize < base / pageSize + i
          · rw [if_pos ⟨same, earlier⟩, if_pos ⟨same, by omega⟩]
          · rw [if_neg fun both => earlier both.2, if_neg fun both => earlier (by omega)]
      · simp only [same, false_and, if_false]
    · intro page notOwned
      exact (set.ram page (held.tables.symm ▸ notOwned)).trans (held.ram page notOwned)
    · intro root' isRoot' index high
      exact (set.kernelHalf root' isRoot' index high).trans (held.kernelHalf root' isRoot' index high)
  · refine ⟨inv, fun _ _ _ _ => rfl, rfl, ?_, fun _ _ => rfl, fun _ _ _ _ => rfl, rfl, rfl⟩
    intro root' isRoot' va user
    rw [if_neg]
    rintro ⟨_, inside⟩
    unfold InRange at inside
    omega

/-- What a call of `vmm_space_alloc` on a user range can do. -/
inductive AllocOutcome (m : Machine) (roots : Set Nat) (space : Space) (base count : Nat) (flags : BitVec 32) (nodeOk : Bool) :
    Nat → Machine → Space → Prop where
  | refused (why : count = 0 ∨ nodeOk = false) : AllocOutcome m roots space base count flags nodeOk 0 m space
  | failed (i : Nat) (frames : Nat → Nat) (full : Machine) (inside : i < count) (node : nodeOk = true)
      (range : AllocatedRange m full roots space.pml4Phys base i (flagsToPte flags) frames)
      (exhausted : ∀ frame, ¬full.phys.Free frame) (m' : Machine)
      (undone : UnmappedRange full m' roots space.pml4Phys base i) :
      AllocOutcome m roots space base count flags nodeOk 0 m' space
  | done (frames : Nat → Nat) (m' : Machine) (positive : 0 < count) (node : nodeOk = true)
      (range : AllocatedRange m m' roots space.pml4Phys base count (flagsToPte flags) frames) :
      AllocOutcome m roots space base count flags nodeOk base m'
        (space.record ⟨base, wrap64 (count * pageSize), vmmRegionUsed ||| flags⟩)

theorem vmmSpaceAlloc_spec {space space' : Space} {vaddr value : Nat} {flags : BitVec 32} {nodeOk : Bool}
    (inv : TableInv m roots) (isRoot : space.pml4Phys ∈ roots) (range : UserRange (pageAlignDown vaddr) count)
    (returned : vmmSpaceAlloc m space vaddr count flags nodeOk = .ok (value, m', space')) :
    AllocOutcome m roots space (pageAlignDown vaddr) count flags nodeOk value m' space' := by
  unfold vmmSpaceAlloc at returned
  split at returned
  · rename_i none
    cases returned
    exact .refused (Or.inl none)
  · rename_i several
    cases nodeOk with
    | false =>
        cases returned
        exact .refused (Or.inr rfl)
    | true =>
        obtain ⟨⟨failed, full⟩, pages, rest⟩ := Result.bind_ok returned
        obtain ⟨frames, ⟨rfl, filled⟩ | ⟨i, inside, rfl, filled, exhausted⟩⟩ :=
          vmmSpaceAllocPages_spec inv isRoot range (flagsToPte_page flags) pages
        · injection rest with same
          simp only [Prod.mk.injEq] at same
          obtain ⟨rfl, rfl, rfl⟩ := same
          exact .done frames _ (by omega) rfl filled
        · injection rest with same
          simp only [Prod.mk.injEq] at same
          obtain ⟨rfl, rfl, rfl⟩ := same
          have undone := vmmSpaceAllocUndo_spec filled.tables isRoot (range.shorter inside.le)
          exact .failed i frames full inside rfl filled exhausted _ undone

end

end DoccrOS.Mem
