import DoccrOS.Proof.User.StdlibRuns

namespace DoccrOS.User
open Lib
open Mem (wrap64_of_lt)

/-- There is no arena yet, or the arena is tiled by blocks. -/
def LibcInv (s : HeapState) : Prop :=
  s.heap.blocks = none ∧ s.live = ∅ ∨ ∃ arena list, ArenaFits arena ∧ pageSize ∣ arena ∧ HeapInv arena s list

/-- The number of bytes that a call requests. -/
def HeapCall.requested : HeapCall → Nat
  | .op (.malloc size _) | .op (.realloc _ size _) | .reallocNull size _ => size
  | .op _ => 0
  | .calloc count size _ => count * size

/-- The size that reaches the search for a block keeps the request, or nothing is found. -/
def HeapState.fits (s : HeapState) : HeapCall → Bool
  | .op (.malloc size mmap) | .op (.realloc _ size mmap) | .reallocNull size mmap =>
    decide (size ≤ 2 ^ 64 - 16) || s.heap.lacks size mmap
  | .op _ => true
  | .calloc count size mmap =>
    decide (count * size ≤ 2 ^ 64 - 16) || decide (2 ^ 64 ≤ count * size) || s.heap.lacks (count * size) mmap

/-- A call returns the null pointer or a pointer to a live block of the requested size. -/
def Suffices (s : HeapState) (call : HeapCall) : Prop :=
  ∃ result s', s.answer call = .ok (result, s') ∧
    ∀ new, result = some new → new ∈ s'.live ∧ call.requested ≤ s'.blockSize new

/-- A successful `calloc` clears the requested bytes of the block that `malloc` returns and no others. -/
def Clears (s : HeapState) (count size : Nat) (mmap : Option Nat) : Prop :=
  ∀ new s', s.answer (.calloc count size mmap) = .ok (some new, s') →
    count * size ≤ s'.blockSize new ∧ (∀ i, i < count * size → s'.heap.mem (new + i) = 0) ∧
      ∃ s₁, s.answer (.op (.malloc (count * size) mmap)) = .ok (some new, s₁) ∧
        SameOutside s₁.heap.mem s'.heap.mem new (count * size)

section
variable {s s' : HeapState} {h' : Heap} {arena size count : Nat} {list : List Piece} {new : Piece} {mmap : Option Nat}
  {call : HeapCall}

/-- The heap after `heap_init`. -/
theorem LibcInv.ready (inv : LibcInv s) (returns : mmapReturns mmap = true) :
    heapInit s.heap mmap = (false, s.heap) ∨
      ∃ h₁ arena list, heapInit s.heap mmap = (true, h₁) ∧ ArenaFits arena ∧ pageSize ∣ arena ∧
        HeapInv arena ⟨h₁, s.live⟩ list := by
  rcases inv with ⟨none, live⟩ | ⟨arena, list, fits, aligned, inv⟩
  · obtain ⟨⟨mem, blocks⟩, owned⟩ := s
    simp only at none live
    subst none live
    cases mmap with
    | none => exact Or.inl rfl
    | some arena =>
        simp only [mmapReturns, Option.all_some, Bool.and_eq_true, decide_eq_true_eq] at returns
        exact Or.inr ⟨_, arena, _, rfl, returns.1, returns.2, heapInit_inv mem arena⟩
  · exact Or.inr ⟨s.heap, arena, list, heapInit_done inv.valid mmap, fits, aligned, inv⟩

/-- `malloc` first sets the arena up. -/
theorem malloc_ready {h₁ : Heap} (ready : heapInit s.heap mmap = (true, h₁)) (done : heapInit h₁ mmap = (true, h₁)) :
    malloc s.heap size mmap = (if size = 0 then .ok (none, s.heap) else malloc h₁ size mmap) ∧
      s.heap.lacks size mmap = h₁.lacks size mmap := by
  constructor
  · by_cases zero : size = 0
    · rw [if_pos zero, malloc, if_pos zero]
    · rw [if_neg zero, malloc, if_neg zero, malloc, if_neg zero, ready, done]
  · rw [Heap.lacks, Heap.lacks, ready, done]

/-- The two outcomes of `malloc`. -/
theorem LibcInv.malloc (inv : LibcInv s) (returns : mmapReturns mmap = true) (size : Nat) :
    (∃ h', malloc s.heap size mmap = .ok (none, h') ∧ LibcInv ⟨h', s.live⟩ ∧ (size = 0 ∨ s.heap.lacks size mmap = true)) ∨
    size ≠ 0 ∧ s.heap.lacks size mmap = false ∧ ∃ h₁ h' arena list list' new, ArenaFits arena ∧ pageSize ∣ arena ∧
      HeapInv arena ⟨h₁, s.live⟩ list ∧ Grants h₁ h' arena list list' size new ∧
      malloc s.heap size mmap = .ok (some (new.position + sizeofBlock), h') := by
  by_cases zero : size = 0
  · exact Or.inl ⟨s.heap, by rw [User.malloc, if_pos zero], inv, Or.inl zero⟩
  rcases inv.ready returns with failed | ⟨h₁, arena, list, ready, fits, aligned, inv₁⟩
  · refine Or.inl ⟨s.heap, by rw [User.malloc, if_neg zero, failed], inv, Or.inr ?_⟩
    rw [Heap.lacks, failed]
  · obtain ⟨same, sameLacks⟩ := malloc_ready ready (heapInit_done inv₁.valid mmap)
    rw [if_neg zero] at same
    rw [same, sameLacks]
    rcases inv₁.valid.malloc fits inv₁.coalesced size mmap with
      ⟨refused, reason⟩ | ⟨found, h', list', new, granted, grants, _⟩
    · exact Or.inl ⟨h₁, refused, Or.inr ⟨arena, list, fits, aligned, inv₁⟩, reason⟩
    · exact Or.inr ⟨zero, found, h₁, h', arena, list, list', new, fits, aligned, inv₁, grants, granted⟩

/-- A granted block is live with its size. -/
theorem HeapInv.live_block (inv : HeapInv arena s list) (used : UsedIn list new) :
    new.position + sizeofBlock ∈ s.live ∧ s.blockSize (new.position + sizeofBlock) = new.size := by
  refine ⟨(inv.live _).mpr ⟨new, used, rfl⟩, ?_⟩
  rw [HeapState.blockSize, Nat.add_sub_cancel, inv.valid.size_eq used.1]

/-- A block lies inside the arena, so that it has less than `2 ^ 64 - 16` bytes. -/
theorem Arena.size_lt {h : Heap} (valid : Arena h arena list) (fits : ArenaFits arena) (member : new ∈ list) :
    new.size < 2 ^ 64 - 16 := by
  have inside := valid.inside member
  have small := fits.2
  omega

/-- The filled bytes behind a header leave the header. -/
theorem blockAt_fillBytes (mem : Bytes) (byte : BitVec 8) (block count : Nat) :
    blockAt (fillBytes mem (block + sizeofBlock) byte count) block = blockAt mem block := by
  have field (offset width : Nat) (inside : offset + width ≤ sizeofBlock) :
      load (fillBytes mem (block + sizeofBlock) byte count) width (block + offset) = load mem width (block + offset) :=
    load_outside (fillBytes_outside _ _ _ _) (by omega)
  unfold blockAt
  rw [field 0 8 (by decide), field 8 8 (by decide), field 16 4 (by decide)]

/-- A returned block that is too small refutes the promise. -/
theorem too_short {short : Nat}
    (checked : ((s.answer call).map fun answer => answer.1.map answer.2.blockSize).toOption = some (some short))
    (less : short < call.requested) :
    (∃ new s', s.answer call = .ok (some new, s') ∧ s'.blockSize new = short) ∧ ¬ Suffices s call := by
  obtain ⟨⟨result, s'⟩, answered, sizes⟩ := exists_of_toOption checked
  obtain ⟨new, isNew, isSize⟩ := Option.map_eq_some_iff.mp sizes
  simp only at isNew isSize
  rw [isNew] at answered
  refine ⟨⟨new, s', answered, isSize⟩, ?_⟩
  rintro ⟨result, s'', called, enough⟩
  rw [answered] at called
  obtain ⟨sameResult, sameState⟩ := Prod.mk.inj (Except.ok.inj called)
  have bound := (enough new sameResult.symm).2
  rw [← sameState, isSize] at bound
  omega

/-- The request of `malloc` is met exactly when it is not rounded down or when nothing is found. -/
theorem LibcInv.malloc_suffices (inv : LibcInv s) (returns : mmapReturns mmap = true) :
    Suffices s (.op (.malloc size mmap)) ↔ s.fits (.op (.malloc size mmap)) = true := by
  rw [HeapState.fits, Bool.or_eq_true, decide_eq_true_eq]
  rcases inv.malloc returns size with
    ⟨h', refused, _, reason⟩ | ⟨_, found, h₁, h', arena, list, list', new, fits, _, inv₁, grants, granted⟩
  · have answered : s.answer (.op (.malloc size mmap)) = .ok (none, ⟨h', s.live ∪ (none : Option Nat).toFinset⟩) := by
      rw [HeapState.answer, HeapState.call, refused]
      rfl
    refine ⟨fun _ => ?_, fun _ => ⟨none, _, answered, (by rintro _ ⟨⟩)⟩⟩
    rcases reason with zero | lacks
    · left
      omega
    · exact Or.inr lacks
  · have isUsed := (grants.used new).mpr (Or.inr rfl)
    obtain ⟨isLive, isSize⟩ := (inv₁.granted grants).live_block isUsed
    have answered : s.answer (.op (.malloc size mmap)) = .ok (some (new.position + sizeofBlock),
        ⟨h', s.live ∪ (some (new.position + sizeofBlock)).toFinset⟩) := by
      rw [HeapState.answer, HeapState.call, granted]
      rfl
    constructor
    · rintro ⟨result, s', called, enough⟩
      rw [answered] at called
      obtain ⟨sameResult, sameState⟩ := Prod.mk.inj (Except.ok.inj called)
      have bound := (enough _ sameResult.symm).2
      rw [← sameState, isSize] at bound
      exact Or.inl (bound.trans (grants.valid.size_lt fits isUsed.1).le)
    · intro either
      refine ⟨_, _, answered, ?_⟩
      intro result isResult
      rw [← Option.some.inj isResult, isSize]
      refine ⟨isLive, ?_⟩
      rcases either with small | lacks
      · exact (le_alignSize small).trans grants.fits
      · rw [found] at lacks
        cases lacks

/-- The guard of `calloc` holds exactly for the products that do not fit into 64 bits. -/
theorem calloc_guard : (size ≠ 0 ∧ count > (2 ^ 64 - 1) / size) ↔ 2 ^ 64 ≤ count * size := by
  rcases Nat.eq_zero_or_pos size with zero | positive
  · simp [zero]
  · rw [gt_iff_lt, Nat.div_lt_iff_lt_mul positive]
    omega

/-- The state after the filled bytes of `calloc`. -/
def cleared (s : HeapState) (pointer count : Nat) : HeapState :=
  { s with heap := { s.heap with mem := fillBytes s.heap.mem pointer 0 count } }

/-- The two outcomes of `calloc`. -/
theorem LibcInv.calloc (inv : LibcInv s) (returns : mmapReturns mmap = true) (count size : Nat) :
    (∃ s', s.answer (.calloc count size mmap) = .ok (none, s') ∧ LibcInv s' ∧
      (2 ^ 64 ≤ count * size ∨ count * size = 0 ∨ s.heap.lacks (count * size) mmap = true)) ∨
    count * size < 2 ^ 64 ∧ count * size ≠ 0 ∧ s.heap.lacks (count * size) mmap = false ∧
      ∃ s₁ arena list' new, ArenaFits arena ∧ pageSize ∣ arena ∧ HeapInv arena s₁ list' ∧ UsedIn list' new ∧
        alignSize (count * size) ≤ new.size ∧
        s.answer (.op (.malloc (count * size) mmap)) = .ok (some (new.position + sizeofBlock), s₁) ∧
        s.answer (.calloc count size mmap) = .ok (some (new.position + sizeofBlock),
          cleared s₁ (new.position + sizeofBlock) (count * size)) := by
  have live : (⟨s.heap, s.live ∪ (none : Option Nat).toFinset⟩ : HeapState) = s := by
    rw [Option.toFinset_none, Finset.union_empty]
  by_cases large : 2 ^ 64 ≤ count * size
  · refine Or.inl ⟨s, ?_, inv, Or.inl large⟩
    rw [HeapState.answer, User.calloc, if_pos (calloc_guard.mpr large), Result.ok_bind]
    exact congrArg (fun state => Except.ok (none, state)) live
  · have whole : wrap64 (count * size) = count * size := wrap64_of_lt (by omega)
    have guarded := mt calloc_guard.mp large
    rcases inv.malloc returns (count * size) with
      ⟨h', refused, inv', reason⟩ | ⟨nonzero, found, h₁, h', arena, list, list', new, fits, aligned, inv₁, grants, granted⟩
    · refine Or.inl ⟨⟨h', s.live ∪ (none : Option Nat).toFinset⟩, ?_, ?_, Or.inr reason⟩
      · rw [HeapState.answer, User.calloc, if_neg guarded]
        simp only [whole, refused]
        rfl
      · rw [Option.toFinset_none, Finset.union_empty]
        exact inv'
    · refine Or.inr ⟨by omega, nonzero, found, _, arena, list', new, fits, aligned, inv₁.granted grants,
        (grants.used new).mpr (Or.inr rfl), grants.fits, ?_, ?_⟩
      · rw [HeapState.answer, HeapState.call, granted]
        rfl
      · rw [HeapState.answer, User.calloc, if_neg guarded]
        simp only [whole, granted]
        rfl

theorem cleared_size (s : HeapState) (block count : Nat) :
    (cleared s (block + sizeofBlock) count).blockSize (block + sizeofBlock) = s.blockSize (block + sizeofBlock) := by
  rw [HeapState.blockSize, HeapState.blockSize, Nat.add_sub_cancel, cleared, blockAt_fillBytes]

/-- The request of `calloc` is met exactly when the product is not rounded down or when nothing is returned. -/
theorem LibcInv.calloc_suffices (inv : LibcInv s) (returns : mmapReturns mmap = true) :
    Suffices s (.calloc count size mmap) ↔ s.fits (.calloc count size mmap) = true := by
  rw [HeapState.fits, Bool.or_eq_true, Bool.or_eq_true, decide_eq_true_eq, decide_eq_true_eq]
  rcases inv.calloc returns count size with
    ⟨s', answered, _, reason⟩ | ⟨small, nonzero, found, s₁, arena, list', new, fits, _, inv₁, used, enough, _, answered⟩
  · refine ⟨fun _ => ?_, fun _ => ⟨none, _, answered, nofun⟩⟩
    rcases reason with large | zero | lacks
    · exact Or.inl (Or.inr large)
    · left
      left
      omega
    · exact Or.inr lacks
  · obtain ⟨isLive, isSize⟩ := inv₁.live_block used
    constructor
    · rintro ⟨result, s', called, met⟩
      rw [answered] at called
      obtain ⟨sameResult, sameState⟩ := Prod.mk.inj (Except.ok.inj called)
      have bound := (met _ sameResult.symm).2
      rw [← sameState, cleared_size, isSize] at bound
      exact Or.inl (Or.inl (bound.trans (inv₁.valid.size_lt fits used.1).le))
    · intro either
      refine ⟨_, _, answered, ?_⟩
      intro result isResult
      rw [← Option.some.inj isResult, cleared_size, isSize]
      refine ⟨isLive, ?_⟩
      rcases either with (exact | large) | lacks
      · exact (le_alignSize exact).trans enough
      · omega
      · rw [found] at lacks
        cases lacks

/-- A `calloc` whose product is not rounded down clears bytes of its block only. -/
theorem LibcInv.clears (inv : LibcInv s) (returns : mmapReturns mmap = true)
    (met : s.fits (.calloc count size mmap) = true) : Clears s count size mmap := by
  intro new s' returned
  obtain ⟨result, s'', answered', enough⟩ := (inv.calloc_suffices returns).mpr met
  rw [returned] at answered'
  obtain ⟨sameResult, sameState⟩ := Prod.mk.inj (Except.ok.inj answered')
  rw [← sameState] at enough
  refine ⟨(enough new sameResult.symm).2, ?_⟩
  rcases inv.calloc returns count size with
    ⟨s', answered, _⟩ | ⟨_, _, _, s₁, arena, list', block, _, _, _, _, _, allocated, answered⟩
  · rw [returned] at answered
    cases answered
  · rw [returned] at answered
    obtain ⟨isPointer, isState⟩ := Prod.mk.inj (Except.ok.inj answered)
    rw [Option.some.inj isPointer, isState]
    exact ⟨fun i inside => fillBytes_inside _ _ _ inside, s₁, allocated, fillBytes_outside _ _ _ _⟩

/-- A call whose size reaches the search keeps the invariant and returns enough bytes. -/
theorem LibcInv.answer (inv : LibcInv s) (permitted : s.permitted call = true) (fits : s.fits call = true) :
    ∃ result s', s.answer call = .ok (result, s') ∧ LibcInv s' ∧
      ∀ new, result = some new → new ∈ s'.live ∧ call.requested ≤ s'.blockSize new := by
  have given (size : Nat) (mmap : Option Nat) (returns : mmapReturns mmap = true)
      (fits : s.fits (.op (.malloc size mmap)) = true) :
      ∃ result s', s.call (.malloc size mmap) = .ok (result, s') ∧ LibcInv s' ∧
        ∀ new, result = some new → new ∈ s'.live ∧ size ≤ s'.blockSize new := by
    obtain ⟨result, s', answered, enough⟩ := (inv.malloc_suffices returns).mpr fits
    refine ⟨result, s', answered, ?_, enough⟩
    rcases inv.malloc returns size with
      ⟨h', refused, inv', _⟩ | ⟨_, _, h₁, h', arena, list, list', new, arenaFits, aligned, inv₁, grants, granted⟩
    · rw [HeapState.answer, HeapState.call, refused] at answered
      rw [← (Prod.mk.inj (Except.ok.inj answered)).2, Option.toFinset_none, Finset.union_empty]
      exact inv'
    · rw [HeapState.answer, HeapState.call, granted] at answered
      rw [← (Prod.mk.inj (Except.ok.inj answered)).2]
      exact Or.inr ⟨arena, list', arenaFits, aligned, inv₁.granted grants⟩
  have owned {pointer : Nat} (member : pointer ∈ s.live) :
      ∃ arena list, ArenaFits arena ∧ pageSize ∣ arena ∧ HeapInv arena s list := by
    rcases inv with ⟨_, live⟩ | valid
    · rw [live] at member
      exact absurd member (Finset.notMem_empty _)
    · exact valid
  cases call with
  | op op =>
      cases op with
      | malloc size mmap =>
          simp only [HeapState.permitted, Bool.and_eq_true] at permitted
          exact given size mmap permitted.2 fits
      | free pointer =>
          have member : pointer ∈ s.live := of_decide_eq_true permitted
          obtain ⟨arena, list, arenaFits, aligned, valid⟩ := owned member
          obtain ⟨s', returned, ⟨list', inv'⟩, _⟩ := valid.call_free arenaFits member
          exact ⟨none, s', returned, Or.inr ⟨arena, list', arenaFits, aligned, inv'⟩, (by rintro _ ⟨⟩)⟩
      | realloc pointer size mmap =>
          simp only [HeapState.permitted, Bool.and_eq_true, decide_eq_true_eq] at permitted
          simp only [HeapState.fits, Bool.or_eq_true, decide_eq_true_eq] at fits
          obtain ⟨arena, list, arenaFits, aligned, valid⟩ := owned permitted.1.1
          obtain ⟨result, s', returned, ⟨⟨list', inv'⟩, _⟩, moved, enough⟩ :=
            valid.call_realloc arenaFits permitted.1.1 mmap fits
          exact ⟨result, s', returned, Or.inr ⟨arena, list', arenaFits, aligned, inv'⟩,
            fun new isNew => ⟨(moved.1 new isNew).1, enough new isNew⟩⟩
      | write pointer offset byte =>
          simp only [HeapState.permitted, HeapState.allowed, Bool.and_eq_true, decide_eq_true_eq] at permitted
          obtain ⟨arena, list, arenaFits, aligned, valid⟩ := owned permitted.1
          obtain ⟨s', returned, ⟨list', inv'⟩, _⟩ := valid.call_write permitted.1 permitted.2
          exact ⟨none, s', returned, Or.inr ⟨arena, list', arenaFits, aligned, inv'⟩, (by rintro _ ⟨⟩)⟩
  | calloc count size mmap =>
      simp only [HeapState.permitted, Bool.and_eq_true] at permitted
      obtain ⟨result, s', answered, enough⟩ := (inv.calloc_suffices permitted.2).mpr fits
      refine ⟨result, s', answered, ?_, enough⟩
      rcases inv.calloc permitted.2 count size with ⟨s'', none, inv'', _⟩ |
        ⟨small, nonzero, found, s₁, arena, list', new, arenaFits, aligned, inv₁, used, rounded, _, some⟩
      · rw [none] at answered
        rw [← (Prod.mk.inj (Except.ok.inj answered)).2]
        exact inv''
      · rw [some] at answered
        rw [← (Prod.mk.inj (Except.ok.inj answered)).2]
        have exact : count * size ≤ new.size := by
          obtain ⟨isLive, isSize⟩ := inv₁.live_block used
          have bound := (enough _ (Prod.mk.inj (Except.ok.inj answered)).1.symm).2
          rw [← (Prod.mk.inj (Except.ok.inj answered)).2, cleared_size, isSize] at bound
          exact bound
        have outside : SameOutside s₁.heap.mem (fillBytes s₁.heap.mem (new.position + sizeofBlock) 0 (count * size))
            (new.position + sizeofBlock + 0) (count * size) := fillBytes_outside _ _ _ _
        have filled := inv₁.valid.fill used.1 (by omega) outside
        exact Or.inr ⟨arena, list', arenaFits, aligned, filled.1, inv₁.coalesced, inv₁.live⟩
  | reallocNull size mmap =>
      simp only [HeapState.permitted, Bool.and_eq_true] at permitted
      exact given size mmap permitted.2 fits

end

/-- As long as no requested size is lost in the rounding before the search for a block, unless nothing is found, every
call returns enough bytes, and `calloc` clears bytes of its block only. For `malloc` and `calloc` this condition is exact. -/
theorem libc_sizes {mem : Bytes} {calls : List HeapCall} {s : HeapState}
    (run : Run HeapState.serve (fun s call => s.permitted call = true ∧ s.fits call = true) ⟨⟨mem, none⟩, ∅⟩ calls s) :
    (∀ call, s.permitted call = true → s.fits call = true → Suffices s call) ∧
    (∀ size mmap, mmapReturns mmap = true → Suffices s (.op (.malloc size mmap)) → s.fits (.op (.malloc size mmap)) = true) ∧
    ∀ count size mmap, mmapReturns mmap = true →
      (Suffices s (.calloc count size mmap) → s.fits (.calloc count size mmap) = true) ∧
      (s.fits (.calloc count size mmap) = true → Clears s count size mmap) := by
  have inv : LibcInv s := by
    refine run.invariant LibcInv ?_ (Or.inl ⟨rfl, rfl⟩)
    intro before call after inv allowed returned
    obtain ⟨result, s', answered, inv', _⟩ := inv.answer allowed.1 allowed.2
    rw [HeapState.serve, answered] at returned
    rw [← Except.ok.inj returned]
    exact inv'
  refine ⟨?_, fun size mmap returns => (inv.malloc_suffices returns).mp, ?_⟩
  · intro call permitted fits
    obtain ⟨result, s', answered, _, enough⟩ := inv.answer permitted fits
    exact ⟨result, s', answered, enough⟩
  · intro count size mmap returns
    exact ⟨(inv.calloc_suffices returns).mp, inv.clears returns⟩

/-- A product that does not fit, an allocation that moves and the largest request that is not rounded down. -/
theorem libc_sizes_small : ∃ s, Run HeapState.serve (fun s call => s.permitted call = true ∧ s.fits call = true)
      ⟨⟨fun _ => 0, none⟩, ∅⟩ [.op (.malloc 24 (some 0x1000000)), .calloc (2 ^ 63) 2 none, .calloc 3 5 none,
        .op (.realloc 0x1000018 100 none)] s ∧
    Suffices s (.op (.malloc (2 ^ 64 - 16) none)) ∧ Clears s 3 5 none := by
  have checked : (exec HeapState.serve (fun s call => s.permitted call && s.fits call)
      [.op (.malloc 24 (some 0x1000000)), .calloc (2 ^ 63) 2 none, .calloc 3 5 none, .op (.realloc 0x1000018 100 none)]
      ⟨⟨fun _ => 0, none⟩, ∅⟩).any (fun _ => true) = true := by decide +kernel
  obtain ⟨s, run, _⟩ := Run.exists_of_check checked
  have permitted := run.mono fun s call => (Bool.and_eq_true _ _).mp
  obtain ⟨enough, _, clears⟩ := libc_sizes permitted
  refine ⟨s, permitted, enough (.op (.malloc (2 ^ 64 - 16) none)) ?_ ?_, (clears 3 5 none rfl).2 ?_⟩
  · simp [HeapState.permitted, mmapReturns]
  · simp [HeapState.fits]
  · simp [HeapState.fits]

/-- The largest size is rounded to zero, and `malloc` returns a block without bytes. -/
theorem libc_wrapped :
    (⟨⟨fun _ => 0, none⟩, ∅⟩ : HeapState).permitted (.op (.malloc (2 ^ 64 - 1) (some 0x1000000))) = true ∧
    (∃ new s', (⟨⟨fun _ => 0, none⟩, ∅⟩ : HeapState).answer (.op (.malloc (2 ^ 64 - 1) (some 0x1000000))) =
      .ok (some new, s') ∧ s'.blockSize new = 0) ∧
    ¬ Suffices ⟨⟨fun _ => 0, none⟩, ∅⟩ (.op (.malloc (2 ^ 64 - 1) (some 0x1000000))) :=
  ⟨by decide +kernel, too_short (by decide +kernel) (by decide)⟩

end DoccrOS.User
