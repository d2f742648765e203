import DoccrOS.Proof.User.StdlibSizes

namespace DoccrOS.User
open Lib

/-- The heap and all pointers that it returned so far. -/
structure HeapLog where
  state : HeapState
  returned : List Nat

def HeapLog.serve (log : HeapLog) (call : HeapCall) : Result HeapLog :=
  (log.state.answer call).map fun answer => ⟨answer.2, log.returned ++ answer.1.toList⟩

/-- A request of `size` bytes fails while the arena is one free block or does not exist. -/
def HeapState.unmet (s : HeapState) (size : Nat) (mmap : Option Nat) : Bool :=
  size == 0 || s.heap.blocks.isNone && mmap.isNone || decide (arenaSize - sizeofBlock < alignSize size)

/-- A call that returns no pointer while nothing is allocated. -/
def HeapState.refuses (s : HeapState) : HeapCall → Bool
  | .op (.malloc size mmap) | .reallocNull size mmap => s.unmet size mmap
  | .calloc count size mmap => decide (2 ^ 64 ≤ count * size) || s.unmet (count * size) mmap
  | .op _ => false

section
variable {s : HeapState} {log log' : HeapLog} {call : HeapCall} {calls : List HeapCall} {mmap : Option Nat}

/-- The first allocation fails or takes the start of the arena. -/
theorem LibcInv.first_malloc (inv : LibcInv s) (unused : s.live = ∅) (returns : mmapReturns mmap = true) (size : Nat) :
    s.unmet size mmap = true ∧ (∃ h', User.malloc s.heap size mmap = .ok (none, h') ∧ LibcInv ⟨h', s.live⟩) ∨
      s.unmet size mmap = false ∧
        ∃ new h', User.malloc s.heap size mmap = .ok (some new, h') ∧ ¬ mallocAlignment ∣ new := by
  by_cases zero : size = 0
  · left
    exact ⟨by rw [HeapState.unmet, zero]; rfl, s.heap, by rw [User.malloc, if_pos zero], inv⟩
  have nonzero : (size == 0) = false := beq_false_of_ne zero
  rcases inv.ready returns with failed | ⟨h₁, arena, list, ready, fits, aligned, inv₁⟩
  · left
    refine ⟨?_, s.heap, by rw [User.malloc, if_neg zero, failed], inv⟩
    rw [HeapState.unmet, nonzero]
    unfold heapInit at failed
    cases blocks : s.heap.blocks <;> cases mmap <;> simp [blocks] at failed ⊢
  · have exists_arena : (s.heap.blocks.isNone && mmap.isNone) = false := by
      unfold heapInit at ready
      cases blocks : s.heap.blocks <;> cases mmap <;> simp [blocks] at ready ⊢
    rw [HeapState.unmet, nonzero, exists_arena, Bool.or_self, Bool.false_or]
    obtain ⟨same, _⟩ := malloc_ready ready (heapInit_done inv₁.valid mmap)
    rw [same, if_neg zero]
    have whole := inv₁.whole unused
    have lacks : h₁.lacks size mmap = true ↔ arenaSize - sizeofBlock < alignSize size := by
      rw [inv₁.valid.lacks_iff mmap, whole, List.forall_mem_singleton]
      exact ⟨fun short => short rfl, fun short _ => short⟩
    rcases inv₁.valid.malloc fits inv₁.coalesced size mmap with
      ⟨refused, reason⟩ | ⟨found, h', list', new, granted, grants, piece, member, free, position⟩
    · left
      rw [or_iff_right zero, lacks] at reason
      exact ⟨decide_eq_true reason, h₁, refused, Or.inr ⟨arena, list, fits, aligned, inv₁⟩⟩
    · right
      rw [← Bool.not_eq_true, lacks] at found
      refine ⟨decide_eq_false found, _, h', granted, ?_⟩
      rw [whole, List.mem_singleton] at member
      rw [position, member]
      simp only [pageSize, mallocAlignment, sizeofBlock] at aligned ⊢
      omega

/-- The first call that is not refused returns a pointer that is not aligned. -/
theorem LibcInv.first_call (inv : LibcInv s) (unused : s.live = ∅) (permitted : s.permitted call = true) :
    s.refuses call = true ∧ (∃ s', s.answer call = .ok (none, s') ∧ LibcInv s' ∧ s'.live = ∅) ∨
      s.refuses call = false ∧ ∃ new s', s.answer call = .ok (some new, s') ∧ ¬ mallocAlignment ∣ new := by
  have none_live (h : Heap) : (⟨h, s.live ∪ (none : Option Nat).toFinset⟩ : HeapState) = ⟨h, s.live⟩ := by
    rw [Option.toFinset_none, Finset.union_empty]
  have allocates (size : Nat) (mmap : Option Nat) (returns : mmapReturns mmap = true) :
      s.unmet size mmap = true ∧ (∃ s', s.call (.malloc size mmap) = .ok (none, s') ∧ LibcInv s' ∧ s'.live = ∅) ∨
        s.unmet size mmap = false ∧
          ∃ new s', s.call (.malloc size mmap) = .ok (some new, s') ∧ ¬ mallocAlignment ∣ new := by
    rcases inv.first_malloc unused returns size with ⟨unmet, h', refused, inv'⟩ | ⟨met, new, h', granted, misaligned⟩
    · refine Or.inl ⟨unmet, ⟨h', s.live⟩, ?_, inv', unused⟩
      rw [HeapState.call, refused, ← none_live]
      rfl
    · refine Or.inr ⟨met, new, ⟨h', s.live ∪ (some new).toFinset⟩, ?_, misaligned⟩
      rw [HeapState.call, granted]
      rfl
  have owned {pointer : Nat} (member : pointer ∈ s.live) : False := by
    rw [unused] at member
    exact absurd member (Finset.notMem_empty _)
  cases call with
  | op op =>
      cases op with
      | malloc size mmap =>
          simp only [HeapState.permitted, Bool.and_eq_true] at permitted
          exact allocates size mmap permitted.2
      | free pointer => exact (owned (of_decide_eq_true permitted)).elim
      | realloc pointer size mmap =>
          simp only [HeapState.permitted, Bool.and_eq_true, decide_eq_true_eq] at permitted
          exact (owned permitted.1.1).elim
      | write pointer offset byte =>
          simp only [HeapState.permitted, HeapState.allowed, Bool.and_eq_true, decide_eq_true_eq] at permitted
          exact (owned permitted.1).elim
  | calloc count size mmap =>
      simp only [HeapState.permitted, Bool.and_eq_true] at permitted
      rw [HeapState.refuses]
      by_cases large : 2 ^ 64 ≤ count * size
      · refine Or.inl ⟨by rw [decide_eq_true large, Bool.true_or], s, ?_, inv, unused⟩
        rw [HeapState.answer, User.calloc, if_pos (calloc_guard.mpr large), Result.ok_bind]
        exact congrArg (fun state => Except.ok (none, state)) (none_live s.heap)
      · rw [decide_eq_false large, Bool.false_or]
        have guarded := mt calloc_guard.mp large
        have whole : wrap64 (count * size) = count * size := Mem.wrap64_of_lt (by omega)
        rcases inv.first_malloc unused permitted.2 (count * size) with
          ⟨unmet, h', refused, inv'⟩ | ⟨met, new, h', granted, misaligned⟩
        · refine Or.inl ⟨unmet, ⟨h', s.live⟩, ?_, inv', unused⟩
          rw [HeapState.answer, User.calloc, if_neg guarded]
          simp only [whole, refused, ← none_live h']
          rfl
        · refine Or.inr ⟨met, new, cleared ⟨h', s.live ∪ (some new).toFinset⟩ new (count * size), ?_, misaligned⟩
          rw [HeapState.answer, User.calloc, if_neg guarded]
          simp only [whole, granted]
          rfl
  | reallocNull size mmap =>
      simp only [HeapState.permitted, Bool.and_eq_true] at permitted
      exact allocates size mmap permitted.2

theorem HeapLog.returned_prefix {allowed : HeapLog → HeapCall → Prop} (run : Run HeapLog.serve allowed log calls log') :
    log.returned <+: log'.returned := by
  refine run.invariant (fun after => log.returned <+: after.returned) ?_ List.prefix_rfl
  intro before call after grown _ returned
  obtain ⟨answer, _, isAfter⟩ := Result.map_ok returned
  rw [← isAfter]
  exact grown.trans (List.prefix_append _ _)

/-- Nothing was returned before; all pointers are aligned exactly when no pointer is returned. -/
theorem LibcInv.aligned_iff
    (run : Run HeapLog.serve (fun log call => log.state.permitted call = true) log calls log')
    (inv : LibcInv log.state) (unused : log.state.live = ∅) (start : log.returned = []) :
    (∀ pointer ∈ log'.returned, mallocAlignment ∣ pointer) ↔
      Run HeapLog.serve (fun log call => log.state.permitted call = true ∧ log.state.refuses call = true) log calls log' := by
  induction run with
  | nil log =>
      rw [start]
      exact ⟨fun _ => Run.nil log, fun _ => nofun⟩
  | @cons log middle log' call calls permitted returned rest ih =>
      have next := returned
      rw [HeapLog.serve] at next
      rcases inv.first_call unused permitted with
        ⟨refused, s', answered, inv', unused'⟩ | ⟨granted, new, s', answered, misaligned⟩
      · rw [answered] at next
        have isMiddle : (⟨s', log.returned ++ []⟩ : HeapLog) = middle := Except.ok.inj next
        rw [List.append_nil, start] at isMiddle
        rw [← isMiddle] at ih returned
        rw [ih inv' unused' rfl]
        constructor
        · intro refusing
          exact Run.cons ⟨permitted, refused⟩ returned refusing
        · intro refusing
          cases refusing with
          | cons _ returned' rest' =>
              rw [returned] at returned'
              rw [Except.ok.inj returned']
              exact rest'
      · rw [answered] at next
        have isMiddle : (⟨s', log.returned ++ [new]⟩ : HeapLog) = middle := Except.ok.inj next
        constructor
        · intro aligned
          refine absurd (aligned new ((HeapLog.returned_prefix rest).subset ?_)) misaligned
          rw [← isMiddle]
          exact List.mem_append_right _ (List.mem_singleton_self _)
        · intro refusing
          cases refusing with
          | cons both _ _ =>
              rw [granted] at both
              cases both.2

end

/-- In a run from the start of a program all returned pointers are multiples of `MALLOC_ALIGNMENT` exactly when every
request is refused: the first pointer that is returned lies `sizeof(block_t)` bytes behind the page-aligned arena. -/
theorem libc_alignment {mem : Bytes} {calls : List HeapCall} {log : HeapLog}
    (run : Run HeapLog.serve (fun log call => log.state.permitted call = true) ⟨⟨⟨mem, none⟩, ∅⟩, []⟩ calls log) :
    (∀ pointer ∈ log.returned, mallocAlignment ∣ pointer) ↔
      Run HeapLog.serve (fun log call => log.state.permitted call = true ∧ log.state.refuses call = true)
        ⟨⟨⟨mem, none⟩, ∅⟩, []⟩ calls log :=
  LibcInv.aligned_iff run (Or.inl ⟨rfl, rfl⟩) rfl rfl

/-- Requests without bytes, with too many bytes and without an arena return no pointer. -/
theorem libc_alignment_refused : ∃ log,
    Run HeapLog.serve (fun log call => log.state.permitted call = true) ⟨⟨⟨fun _ => 0, none⟩, ∅⟩, []⟩
      [.op (.malloc 24 none), .op (.malloc 0 none), .calloc (2 ^ 63) 2 none, .reallocNull arenaSize (some 0x1000000)] log ∧
    ∀ pointer ∈ log.returned, mallocAlignment ∣ pointer := by
  have checked : (exec HeapLog.serve (fun log call => log.state.permitted call && log.state.refuses call)
      [.op (.malloc 24 none), .op (.malloc 0 none), .calloc (2 ^ 63) 2 none, .reallocNull arenaSize (some 0x1000000)]
      ⟨⟨⟨fun _ => 0, none⟩, ∅⟩, []⟩).any (fun _ => true) = true := by decide +kernel
  obtain ⟨log, run, _⟩ := Run.exists_of_check checked
  have refusing := run.mono fun log call => (Bool.and_eq_true _ _).mp
  have permitted := refusing.mono fun log call both => both.1
  exact ⟨log, permitted, (libc_alignment permitted).mpr refusing⟩

/-- The first `malloc` returns the address 24 bytes behind the arena. -/
theorem libc_misaligned : ∃ log,
    Run HeapLog.serve (fun log call => log.state.permitted call = true) ⟨⟨⟨fun _ => 0, none⟩, ∅⟩, []⟩
      [.op (.malloc 16 (some 0x1000000))] log ∧
    log.returned = [0x1000018] ∧ ¬ ∀ pointer ∈ log.returned, mallocAlignment ∣ pointer := by
  have checked : (exec HeapLog.serve (fun log call => log.state.permitted call) [.op (.malloc 16 (some 0x1000000))]
      ⟨⟨⟨fun _ => 0, none⟩, ∅⟩, []⟩).any (fun log => decide (log.returned = [0x1000018])) = true := by decide +kernel
  obtain ⟨log, run, shown⟩ := Run.exists_of_check checked
  have returned := of_decide_eq_true shown
  refine ⟨log, run, returned, ?_⟩
  rw [returned, List.forall_mem_singleton]
  decide

end DoccrOS.User
