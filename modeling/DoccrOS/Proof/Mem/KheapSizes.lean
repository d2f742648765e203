import DoccrOS.Proof.Mem.KheapPayloads

namespace DoccrOS.Mem
open Lib

/-- The number of bytes that a call requests. -/
def KheapCall.requested : KheapCall → Nat
  | .op (.kmalloc size) | .op (.krealloc _ size) | .kreallocNull size => size
  | .op _ => 0
  | .kcalloc count size => count * size

/-- The size that reaches the search for a block keeps the request, or the search finds nothing. -/
def KheapState.fits (s : KheapState) : KheapCall → Bool
  | .op (.kmalloc size) | .op (.krealloc _ size) | .kreallocNull size =>
    decide (size ≤ 2 ^ 64 - 8) || s.heap.lacks (kheapRound size)
  | .op _ => true
  | .kcalloc count size =>
    decide (count * size ≤ 2 ^ 64 - 8) || wrap64 (count * size) == 0 || s.heap.lacks (kheapRound (wrap64 (count * size)))

/-- A call returns the null pointer or a pointer to a live block of the requested size. -/
def Suffices (s : KheapState) (call : KheapCall) : Prop :=
  ∃ result s', s.answer call = .ok (result, s') ∧
    ∀ new, result = some new → new ∈ s'.live ∧ call.requested ≤ s'.blockSize new

section
variable {s s' : KheapState} {list list' : List (Nat × BlockInfo)} {size count addr : Nat} {info : BlockInfo} {h' : Kheap}
  {call : KheapCall}

/-- A granted block is live with its size. -/
theorem KheapInv.live_block (inv : KheapInv s' list') (used : UsedIn list' (addr, info)) :
    addr + blockHeader ∈ s'.live ∧ s'.blockSize (addr + blockHeader) = info.size := by
  refine ⟨(inv.live _).mpr ⟨_, used, rfl⟩, ?_⟩
  rw [KheapState.blockSize, Nat.add_sub_cancel, inv.blocks.size_eq used.1]

/-- The filled bytes behind a header leave the header. -/
theorem blockAt_fillBytes (mem : Bytes) (byte : BitVec 8) (count : Nat) :
    blockAt (fillBytes mem (addr + blockHeader) byte count) addr = blockAt mem addr := by
  have field (offset width : Nat) (inside : offset + width ≤ blockHeader) :
      load (fillBytes mem (addr + blockHeader) byte count) width (addr + offset) = load mem width (addr + offset) :=
    load_outside (fillBytes_outside _ _ _ _) (by omega)
  unfold blockAt
  rw [field 24 8 (by decide), field 16 8 (by decide), field 0 4 (by decide), field 8 8 (by decide),
    field 32 1 (by decide)]

/-- A block lies inside the heap, so that it has less than `2 ^ 64 - 8` bytes. -/
theorem Blocks.size_lt {h : Kheap} (blocks : Blocks h list) (member : (addr, info) ∈ list) : info.size < 2 ^ 64 - 8 := by
  have inside := blocks.inside member
  simp only [heapStart, heapSize, blockHeader] at inside
  omega

/-- A returned block that is too small refutes the promise. -/
theorem too_short {short : Nat}
    (checked : ((s.answer call).map fun answer => answer.1.map answer.2.blockSize).toOption = some (some short))
    (less : short < call.requested) :
    (∃ new s', s.answer call = .ok (some new, s') ∧ s'.blockSize new = short) ∧ ¬ Suffices s call := by
  obtain ⟨⟨result, s'⟩, answered, sizes⟩ := exists_of_toOption checked
  obtain ⟨new, isNew, isSize⟩ := Option.map_eq_some_iff.mp sizes
  simp only at isNew isSize
  rw [isNew] at answered
  refine ⟨⟨new, s', answered, isSize⟩, ?_⟩
  rintro ⟨result, s'', called, enough⟩
  rw [answered] at called
  obtain ⟨sameResult, sameState⟩ := Prod.mk.inj (Except.ok.inj called)
  have bound := (enough new sameResult.symm).2
  rw [← sameState, isSize] at bound
  omega

/-- The request of `kmalloc` is met exactly when it is not rounded down or when no block is free. -/
theorem KheapInv.kmalloc_suffices (inv : KheapInv s list) :
    Suffices s (.op (.kmalloc size)) ↔ s.fits (.op (.kmalloc size)) = true := by
  rw [KheapState.fits, Bool.or_eq_true, decide_eq_true_eq]
  rcases inv.blocks.kmalloc inv.coalesced size with
    ⟨failed, reason⟩ | ⟨found, h', list', addr, info, returned, grants⟩
  · have answered : s.answer (.op (.kmalloc size)) = .ok (none, ⟨s.heap, s.live ∪ (none : Option Nat).toFinset⟩) := by
      rw [KheapState.answer, KheapState.call, failed]
      rfl
    refine ⟨fun _ => ?_, fun _ => ⟨none, _, answered, (by rintro _ ⟨⟩)⟩⟩
    rcases reason with zero | lacks
    · left
      omega
    · exact Or.inr lacks
  · have isUsed := (grants.used _).mpr (Or.inr rfl)
    obtain ⟨isLive, isSize⟩ := (inv.granted grants).1.live_block isUsed
    have answered : s.answer (.op (.kmalloc size)) =
        .ok (some (addr + blockHeader), ⟨h', s.live ∪ (some (addr + blockHeader)).toFinset⟩) := by
      rw [KheapState.answer, KheapState.call, returned]
      rfl
    constructor
    · rintro ⟨result, s', called, enough⟩
      rw [answered] at called
      obtain ⟨sameResult, sameState⟩ := Prod.mk.inj (Except.ok.inj called)
      have bound := (enough _ sameResult.symm).2
      rw [← sameState, isSize] at bound
      exact Or.inl (bound.trans (grants.blocks.size_lt isUsed.1).le)
    · intro either
      refine ⟨_, _, answered, ?_⟩
      intro new isNew
      rw [← Option.some.inj isNew, isSize]
      refine ⟨isLive, ?_⟩
      rcases either with small | lacks
      · exact (le_rounded small).trans grants.fits
      · rw [found] at lacks
        cases lacks

/-- The cleared bytes lie inside the new block. -/
theorem KheapInv.cleared (inv : KheapInv s list') (used : UsedIn list' (addr, info)) (fits : count ≤ info.size) :
    KheapInv { s with heap := { s.heap with mem := fillBytes s.heap.mem (addr + blockHeader) 0 count } } list' := by
  have outside : SameOutside s.heap.mem (fillBytes s.heap.mem (addr + blockHeader) 0 count) (addr + blockHeader + 0) count :=
    fillBytes_outside _ _ _ _
  exact ⟨(inv.blocks.fill used.1 (by omega) outside).1, inv.coalesced, inv.live⟩

/-- The two outcomes of `kcalloc`. -/
theorem KheapInv.kcalloc (inv : KheapInv s list) :
    (s.answer (.kcalloc count size) = .ok (none, s) ∧
      (wrap64 (count * size) = 0 ∨ s.heap.lacks (kheapRound (wrap64 (count * size))) = true)) ∨
    wrap64 (count * size) ≠ 0 ∧ s.heap.lacks (kheapRound (wrap64 (count * size))) = false ∧
      ∃ s' list' addr info, KheapInv s' list' ∧ UsedIn list' (addr, info) ∧ kheapRound (wrap64 (count * size)) ≤ info.size ∧
        s.answer (.kcalloc count size) = .ok (some (addr + blockHeader),
          { s' with heap := { s'.heap with
            mem := fillBytes s'.heap.mem (addr + blockHeader) 0 (wrap64 (count * size)) } }) := by
  rcases inv.blocks.kmalloc inv.coalesced (wrap64 (count * size)) with
    ⟨failed, reason⟩ | ⟨found, h', list', addr, info, returned, grants⟩
  · left
    refine ⟨?_, reason⟩
    rw [KheapState.answer, Mem.kcalloc, failed, Result.ok_bind]
    exact congrArg (fun state => Except.ok (none, state)) (live_none s)
  · right
    have isUsed := (grants.used _).mpr (Or.inr rfl)
    refine ⟨?_, found, _, list', addr, info, (inv.granted grants).1, isUsed, grants.fits, ?_⟩
    · intro zero
      rw [zero, kmalloc, if_pos rfl] at returned
      cases returned
    · rw [KheapState.answer, Mem.kcalloc, returned, Result.ok_bind]
      rfl

/-- The request of `kcalloc` is met exactly when the product is neither too large nor rounded down, or when nothing is
returned. -/
theorem KheapInv.kcalloc_suffices (inv : KheapInv s list) :
    Suffices s (.kcalloc count size) ↔ s.fits (.kcalloc count size) = true := by
  rw [KheapState.fits, Bool.or_eq_true, Bool.or_eq_true, decide_eq_true_eq, beq_iff_eq]
  rcases inv.kcalloc with ⟨answered, reason⟩ | ⟨nonzero, found, s', list', addr, info, inv', used, enough, answered⟩
  · refine ⟨fun _ => ?_, fun _ => ⟨none, _, answered, (by rintro _ ⟨⟩)⟩⟩
    rcases reason with zero | lacks
    · exact Or.inl (Or.inr zero)
    · exact Or.inr lacks
  · obtain ⟨isLive, isSize⟩ := inv'.live_block used
    rw [KheapState.blockSize, Nat.add_sub_cancel] at isSize
    constructor
    · rintro ⟨result, s'', called, met⟩
      rw [answered] at called
      obtain ⟨sameResult, sameState⟩ := Prod.mk.inj (Except.ok.inj called)
      have bound := (met _ sameResult.symm).2
      rw [← sameState, KheapState.blockSize, Nat.add_sub_cancel, blockAt_fillBytes, isSize] at bound
      exact Or.inl (Or.inl (bound.trans (inv'.blocks.size_lt used.1).le))
    · intro either
      refine ⟨_, _, answered, ?_⟩
      intro new isNew
      rw [← Option.some.inj isNew, KheapState.blockSize, Nat.add_sub_cancel, blockAt_fillBytes, isSize]
      refine ⟨isLive, ?_⟩
      rcases either with (small | zero) | lacks
      · have whole : wrap64 (count * size) = count * size := wrap64_of_lt (by omega)
        rw [whole] at enough
        exact (le_rounded small).trans enough
      · exact absurd zero nonzero
      · rw [found] at lacks
        cases lacks

/-- A call whose size reaches the search keeps the invariant and returns enough bytes. -/
theorem KheapInv.answer (inv : KheapInv s list) (permitted : s.permitted call = true) (fits : s.fits call = true) :
    ∃ result s', s.answer call = .ok (result, s') ∧ (∃ list', KheapInv s' list') ∧
      ∀ new, result = some new → new ∈ s'.live ∧ call.requested ≤ s'.blockSize new := by
  have given (size : Nat) (fits : s.fits (.op (.kmalloc size)) = true) :
      ∃ result s', s.call (.kmalloc size) = .ok (result, s') ∧ (∃ list', KheapInv s' list') ∧
        ∀ new, result = some new → new ∈ s'.live ∧ size ≤ s'.blockSize new := by
    obtain ⟨result, s', returned, holds⟩ := inv.call_kmalloc size
    obtain ⟨result', s'', answered, enough⟩ := inv.kmalloc_suffices.mpr fits
    rw [KheapState.answer, returned] at answered
    obtain ⟨sameResult, sameState⟩ := Prod.mk.inj (Except.ok.inj answered)
    rw [← sameResult, ← sameState] at enough
    exact ⟨result, s', returned, holds.1, enough⟩
  cases call with
  | op op =>
      cases op with
      | kmalloc size => exact given size fits
      | kfree ptr =>
          obtain ⟨s', returned, holds⟩ := inv.call_kfree (of_decide_eq_true permitted)
          exact ⟨none, s', returned, holds.1, nofun⟩
      | krealloc ptr size =>
          simp only [KheapState.permitted, Bool.and_eq_true, decide_eq_true_eq] at permitted
          simp only [KheapState.fits, Bool.or_eq_true, decide_eq_true_eq] at fits
          obtain ⟨result, s', returned, holds, moved, enough⟩ := inv.call_krealloc permitted.1 fits
          exact ⟨result, s', returned, holds.1, fun new isNew => ⟨(moved.1 new isNew).1, enough new isNew⟩⟩
      | write ptr offset byte =>
          simp only [KheapState.permitted, KheapState.allowed, Bool.and_eq_true, decide_eq_true_eq] at permitted
          obtain ⟨s', returned, holds⟩ := inv.call_write permitted.1 permitted.2
          exact ⟨none, s', returned, holds.1, nofun⟩
  | kcalloc count size =>
      obtain ⟨result, s', answered, enough⟩ := inv.kcalloc_suffices.mpr fits
      refine ⟨result, s', answered, ?_, enough⟩
      rcases inv.kcalloc with ⟨none, _⟩ | ⟨nonzero, found, s₁, list₁, addr, info, inv₁, used, size₁, some⟩
      · rw [none] at answered
        rw [← (Prod.mk.inj (Except.ok.inj answered)).2]
        exact ⟨list, inv⟩
      · rw [some] at answered
        rw [← (Prod.mk.inj (Except.ok.inj answered)).2]
        simp only [KheapState.fits, Bool.or_eq_true, decide_eq_true_eq, beq_iff_eq, nonzero, or_false, found,
          Bool.false_eq_true] at fits
        have whole : wrap64 (count * size) = count * size := wrap64_of_lt (by omega)
        have rounded := le_rounded fits
        rw [← whole] at rounded
        exact ⟨list₁, inv₁.cleared used (rounded.trans size₁)⟩
  | kreallocNull size => exact given size fits

/-- `kmalloc` fails only if no free block is large enough. -/
theorem KheapInv.kmalloc_none {h : Kheap} (inv : KheapInv s list) (positive : 0 < size)
    (failed : kmalloc s.heap size = .ok (none, h)) :
    ∀ block ∈ list, block.2.used = false → block.2.size < (size + 7) / 8 * 8 := by
  rcases inv.blocks.kmalloc inv.coalesced size with ⟨_, reason⟩ | ⟨_, h', list', addr, info, returned, _⟩
  · rcases reason with zero | lacks
    · omega
    · intro block member free
      have short := inv.blocks.lacks_iff.mp lacks block member
      simp only [kmallocFits, free, Bool.not_false, Bool.true_and, decide_eq_false_iff_not, not_le] at short
      have rounded : kheapRound size ≤ (size + 7) / 8 * 8 := by
        simp only [kheapRound, wrap64]
        omega
      exact Nat.lt_of_lt_of_le short rounded
  · rw [returned] at failed
    cases failed

end

/-- As long as no requested size is lost in the rounding or the multiplication before the search for a block, unless the
search finds nothing, every call returns enough bytes. For `kmalloc` and `kcalloc` this condition is exact. -/
theorem kheap_sizes {mem : Bytes} {calls : List KheapCall} {s : KheapState}
    (run : Run KheapState.serve (fun s call => s.permitted call = true ∧ s.fits call = true) ⟨kheapInit mem, ∅⟩ calls s) :
    (∀ call, s.permitted call = true → s.fits call = true → Suffices s call) ∧
    (∀ size, Suffices s (.op (.kmalloc size)) → s.fits (.op (.kmalloc size)) = true) ∧
    (∀ count size, Suffices s (.kcalloc count size) → s.fits (.kcalloc count size) = true) ∧
    ∃ list, Blocks s.heap list ∧ ∀ size h, 0 < size → kmalloc s.heap size = .ok (none, h) →
      ∀ block ∈ list, block.2.used = false → block.2.size < (size + 7) / 8 * 8 := by
  obtain ⟨list, inv⟩ : ∃ list, KheapInv s list := by
    refine run.invariant (fun s => ∃ list, KheapInv s list) ?_ ⟨_, kheapInit_inv mem⟩
    rintro before call after ⟨list, inv⟩ allowed returned
    obtain ⟨result, s', answered, inv', _⟩ := inv.answer allowed.1 allowed.2
    rw [KheapState.serve, answered] at returned
    rw [← Except.ok.inj returned]
    exact inv'
  refine ⟨?_, fun size => inv.kmalloc_suffices.mp, fun count size => inv.kcalloc_suffices.mp, list, inv.blocks, ?_⟩
  · intro call permitted fits
    obtain ⟨result, s', answered, _, enough⟩ := inv.answer permitted fits
    exact ⟨result, s', answered, enough⟩
  · intro size h positive failed
    exact inv.kmalloc_none positive failed

/-- The heap after a product that wraps around to zero has room for the largest request. -/
theorem kheap_sizes_small : ∃ s, Run KheapState.serve (fun s call => s.permitted call = true ∧ s.fits call = true)
      ⟨kheapInit fun _ => 0, ∅⟩ [.op (.kmalloc 24), .kcalloc (2 ^ 63) 2, .kcalloc 3 5,
        .op (.krealloc (heapStart + blockHeader) 100)] s ∧
    Suffices s (.op (.kmalloc (2 ^ 64 - 8))) ∧ ∃ list, Blocks s.heap list := by
  have checked : (exec KheapState.serve (fun s call => s.permitted call && s.fits call)
      [.op (.kmalloc 24), .kcalloc (2 ^ 63) 2, .kcalloc 3 5, .op (.krealloc (heapStart + blockHeader) 100)]
      ⟨kheapInit fun _ => 0, ∅⟩).any (fun _ => true) = true := by decide +kernel
  obtain ⟨s, run, _⟩ := Run.exists_of_check checked
  have permitted := run.mono fun s call => (Bool.and_eq_true _ _).mp
  obtain ⟨enough, _, _, list, blocks, _⟩ := kheap_sizes permitted
  refine ⟨s, permitted, enough (.op (.kmalloc (2 ^ 64 - 8))) ?_ ?_, list, blocks⟩
  · simp [KheapState.permitted, KheapState.allowed]
  · simp [KheapState.fits]

/-- The largest size is rounded to zero, and `kmalloc` returns a block without bytes. -/
theorem kheap_wrapped : (⟨kheapInit fun _ => 0, ∅⟩ : KheapState).permitted (.op (.kmalloc (2 ^ 64 - 1))) = true ∧
    (∃ new s', (⟨kheapInit fun _ => 0, ∅⟩ : KheapState).answer (.op (.kmalloc (2 ^ 64 - 1))) = .ok (some new, s') ∧
      s'.blockSize new = 0) ∧
    ¬ Suffices ⟨kheapInit fun _ => 0, ∅⟩ (.op (.kmalloc (2 ^ 64 - 1))) :=
  ⟨by decide +kernel, too_short (by decide +kernel) (by decide)⟩

end DoccrOS.Mem
