import DoccrOS.Lib.Run
import DoccrOS.Proof.User.Stdlib

namespace DoccrOS.User
open Lib
open Mem (wrap64_of_lt sub64_of_le)

/-- The arena is tiled, no free blocks are neighbours, and the owned pointers are those of the used blocks. -/
structure HeapInv (arena : Nat) (s : HeapState) (list : List Piece) : Prop where
  valid : Arena s.heap arena list
  coalesced : Coalesced list
  live : ∀ pointer, pointer ∈ s.live ↔ ∃ piece, UsedIn list piece ∧ pointer = piece.position + sizeofBlock

/-- The pointer that a call passes. -/
def HeapOp.target : HeapOp → Option Nat
  | .malloc _ _ => none
  | .free pointer | .realloc pointer _ _ | .write pointer _ _ => some pointer

/-- The allocation stays with its size and its bytes. -/
def Undisturbed (s s' : HeapState) (pointer : Nat) : Prop :=
  pointer ∈ s'.live ∧ s'.blockSize pointer = s.blockSize pointer ∧
    ∀ i, i < s.blockSize pointer → s'.heap.mem (pointer + i) = s.heap.mem (pointer + i)

/-- What one call does: it keeps the invariant and disturbs no other allocation. -/
def CallHolds (arena : Nat) (s : HeapState) (op : HeapOp) (s' : HeapState) : Prop :=
  (∃ list', HeapInv arena s' list') ∧ ∀ pointer ∈ s.live, op.target ≠ some pointer → Undisturbed s s' pointer

/-- What a `realloc` returns: a pointer to the old bytes, or nothing while the old allocation stays. -/
def ReallocHolds (s s' : HeapState) (pointer size : Nat) (result : Option Nat) : Prop :=
  (∀ new, result = some new → new ∈ s'.live ∧
    ∀ i, i < min (s.blockSize pointer) size → s'.heap.mem (new + i) = s.heap.mem (pointer + i)) ∧
  (result = none → 0 < size → Undisturbed s s' pointer)

section
variable {arena size pointer : Nat} {s s' : HeapState} {list list' : List Piece} {piece new : Piece} {mmap result : Option Nat}
  {op : HeapOp}

theorem Arena.size_eq {h : Heap} (valid : Arena h arena list) (member : piece ∈ list) :
    (blockAt h.mem piece.position).size = piece.size := by
  obtain ⟨left, right, split⟩ := List.append_of_mem member
  rw [split] at valid
  rw [valid.node]
  rfl

/-- An owned pointer belongs to a used block. -/
theorem HeapInv.owned (inv : HeapInv arena s list) (member : pointer ∈ s.live) :
    ∃ piece, UsedIn list piece ∧ pointer = piece.position + sizeofBlock ∧ s.blockSize pointer = piece.size := by
  obtain ⟨piece, used, same⟩ := (inv.live pointer).mp member
  refine ⟨piece, used, same, ?_⟩
  rw [HeapState.blockSize, same, Nat.add_sub_cancel, inv.valid.size_eq used.1]

/-- A used block whose payload stays is undisturbed. -/
theorem HeapInv.undisturbed (inv : HeapInv arena s list) (inv' : HeapInv arena s' list') (used : UsedIn list piece)
    (used' : UsedIn list' piece) (same : PayloadSame s.heap.mem s'.heap.mem piece) :
    Undisturbed s s' (piece.position + sizeofBlock) := by
  refine ⟨(inv'.live _).mpr ⟨piece, used', rfl⟩, ?_, ?_⟩
  · rw [HeapState.blockSize, HeapState.blockSize, Nat.add_sub_cancel, inv.valid.size_eq used.1, inv'.valid.size_eq used'.1]
  · intro i inside
    rw [HeapState.blockSize, Nat.add_sub_cancel, inv.valid.size_eq used.1] at inside
    exact same i inside

/-- The arena is one free block after the initialisation. -/
theorem heapInit_inv (mem : Bytes) (arena : Nat) :
    HeapInv arena ⟨(heapInit ⟨mem, none⟩ (some arena)).2, ∅⟩ [⟨arena, arenaSize - sizeofBlock, false⟩] := by
  refine ⟨⟨rfl, ⟨?_, trivial⟩, ⟨rfl, ?_⟩⟩, List.isChain_singleton _, ?_⟩
  · have valid : (none : Option Nat) ≠ some 0 := nofun
    simp only [heapInit]
    rw [blockAt_setFree, blockAt_setNext _ valid (by decide), blockAt_setSize _ (by decide)]
    rfl
  · show arena + sizeofBlock + (arenaSize - sizeofBlock) = arena + arenaSize
    rw [Nat.add_assoc, Nat.add_sub_of_le (by decide)]
  · intro pointer
    constructor
    · intro member
      exact absurd member (Finset.notMem_empty _)
    · rintro ⟨piece, used, _⟩
      have isFree := used.2
      rw [List.mem_singleton.mp used.1] at isFree
      cases isFree

/-- The pointers that are owned after an allocation. -/
theorem HeapInv.granted {h' : Heap} (inv : HeapInv arena s list) (grants : Grants s.heap h' arena list list' size new) :
    HeapInv arena ⟨h', s.live ∪ (some (new.position + sizeofBlock)).toFinset⟩ list' := by
  refine ⟨grants.valid, grants.coalesced, ?_⟩
  intro pointer
  rw [Finset.mem_union, Option.mem_toFinset, Option.mem_def, inv.live]
  constructor
  · rintro (⟨piece, used, same⟩ | isNew)
    · exact ⟨piece, (grants.used piece).mpr (Or.inl used), same⟩
    · exact ⟨new, (grants.used new).mpr (Or.inr rfl), (Option.some.inj isNew).symm⟩
  · rintro ⟨piece, used, same⟩
    rcases (grants.used piece).mp used with old | isNew
    · exact Or.inl ⟨piece, old, same⟩
    · rw [same, isNew]
      exact Or.inr rfl

theorem HeapInv.call_malloc (inv : HeapInv arena s list) (fits : ArenaFits arena) (size : Nat) (mmap : Option Nat) :
    ∃ result s', s.call (.malloc size mmap) = .ok (result, s') ∧ CallHolds arena s (.malloc size mmap) s' := by
  rcases inv.valid.malloc fits inv.coalesced size mmap with
    ⟨failed, _⟩ | ⟨_, h', list', new, returned, grants, _⟩
  · have same : (⟨s.heap, s.live ∪ (none : Option Nat).toFinset⟩ : HeapState) = s := by
      rw [Option.toFinset_none, Finset.union_empty]
    refine ⟨none, s, ?_, ⟨list, inv⟩, fun pointer member _ => ⟨member, rfl, fun _ _ => rfl⟩⟩
    rw [HeapState.call, failed, Result.ok_bind]
    show (Except.ok (none, (⟨s.heap, s.live ∪ (none : Option Nat).toFinset⟩ : HeapState)) : Result _) = _
    rw [same]
  · refine ⟨some (new.position + sizeofBlock), _, ?_, ⟨list', inv.granted grants⟩, ?_⟩
    · rw [HeapState.call, returned]
      rfl
    · intro pointer member _
      obtain ⟨piece, used, same, _⟩ := inv.owned member
      rw [same]
      exact inv.undisturbed (inv.granted grants) used ((grants.used piece).mpr (Or.inl used)) (grants.payload piece used)

/-- The pointers that are owned after a release. -/
theorem HeapInv.freed {h' : Heap} (inv : HeapInv arena s list) (valid : Arena h' arena list') (coalesced : Coalesced list')
    (used : ∀ other, UsedIn list' other ↔ UsedIn list other ∧ other.position ≠ piece.position) :
    HeapInv arena ⟨h', s.live.erase (piece.position + sizeofBlock)⟩ list' := by
  refine ⟨valid, coalesced, ?_⟩
  intro pointer
  rw [Finset.mem_erase, inv.live]
  constructor
  · rintro ⟨different, other, isUsed, same⟩
    refine ⟨other, (used other).mpr ⟨isUsed, ?_⟩, same⟩
    intro clash
    exact different (by rw [same, clash])
  · rintro ⟨other, isUsed, same⟩
    obtain ⟨old, different⟩ := (used other).mp isUsed
    refine ⟨?_, other, old, same⟩
    intro clash
    rw [same] at clash
    exact different (Nat.add_right_cancel clash)

/-- The part of a release that all calls share. -/
theorem HeapInv.release (inv : HeapInv arena s list) (fits : ArenaFits arena) (used : UsedIn list piece) :
    ∃ h' list', free s.heap (some (piece.position + sizeofBlock)) = .ok h' ∧
      HeapInv arena ⟨h', s.live.erase (piece.position + sizeofBlock)⟩ list' ∧
      ∀ pointer ∈ s.live, pointer ≠ piece.position + sizeofBlock →
        Undisturbed s ⟨h', s.live.erase (piece.position + sizeofBlock)⟩ pointer := by
  obtain ⟨h', list', returned, valid', coalesced', used', payload⟩ := inv.valid.free fits used
  have inv' := inv.freed valid' coalesced' used'
  refine ⟨h', list', returned, inv', ?_⟩
  intro pointer member different
  obtain ⟨other, isUsed, same, _⟩ := inv.owned member
  have away : other.position ≠ piece.position := by
    intro clash
    exact different (by rw [same, clash])
  rw [same]
  exact inv.undisturbed inv' isUsed ((used' other).mpr ⟨isUsed, away⟩) (payload other isUsed away)

theorem HeapInv.call_free (inv : HeapInv arena s list) (fits : ArenaFits arena) (member : pointer ∈ s.live) :
    ∃ s', s.call (.free pointer) = .ok (none, s') ∧ CallHolds arena s (.free pointer) s' := by
  obtain ⟨piece, used, isPointer, _⟩ := inv.owned member
  obtain ⟨h', list', returned, inv', others⟩ := inv.release fits used
  rw [isPointer]
  refine ⟨_, by rw [HeapState.call, returned]; rfl, ⟨list', inv'⟩, ?_⟩
  intro other isLive notTarget
  refine others other isLive ?_
  intro same
  exact notTarget (by rw [HeapOp.target, same])

/-- Stores inside the payload of a block keep the list and all other payloads. -/
theorem Arena.fill {h : Heap} (valid : Arena h arena list) {mem : Bytes} {count offset : Nat} (member : piece ∈ list)
    (room : offset + count ≤ piece.size) (same : SameOutside h.mem mem (piece.position + sizeofBlock + offset) count) :
    Arena { h with mem := mem } arena list ∧
      ∀ other ∈ list, other.position ≠ piece.position → PayloadSame h.mem mem other := by
  refine ⟨⟨valid.blocks, valid.chained.congr ?_, valid.tiles⟩, ?_⟩
  · intro other member'
    have apart := valid.tiles.payload_apart member member'
    have field (start : Nat) {width : Nat} (inside : start + width ≤ sizeofBlock) :
        load mem width (other.position + start) = load h.mem width (other.position + start) := by
      apply load_congr
      intro i small
      exact same _ (by omega)
    unfold blockAt
    rw [field 0 (by decide), field 8 (by decide), field 16 (by decide)]
  · intro other member' different i small
    have apart := valid.tiles.apart_of_mem member' member fun clash => different (congrArg Piece.position clash)
    exact same _ (by omega)

theorem HeapInv.call_write {offset : Nat} {byte : BitVec 8} (inv : HeapInv arena s list) (member : pointer ∈ s.live)
    (inside : offset < s.blockSize pointer) :
    ∃ s', s.call (.write pointer offset byte) = .ok (none, s') ∧ CallHolds arena s (.write pointer offset byte) s' := by
  obtain ⟨piece, used, isPointer, isSize⟩ := inv.owned member
  rw [isSize] at inside
  have outside : SameOutside s.heap.mem (Function.update s.heap.mem (pointer + offset) byte)
      (piece.position + sizeofBlock + offset) 1 := by
    intro query away
    rw [isPointer, Function.update_of_ne (by omega)]
  obtain ⟨valid', payload⟩ := inv.valid.fill used.1 (by omega) outside
  have inv' : HeapInv arena { s with heap := { s.heap with mem := Function.update s.heap.mem (pointer + offset) byte } } list :=
    ⟨valid', inv.coalesced, inv.live⟩
  refine ⟨_, rfl, ⟨list, inv'⟩, ?_⟩
  intro other isLive notTarget
  obtain ⟨old, isUsed, same, _⟩ := inv.owned isLive
  have different : old.position ≠ piece.position := by
    intro clash
    exact notTarget (by rw [HeapOp.target, same, clash, isPointer])
  rw [same]
  exact inv.undisturbed inv' isUsed isUsed (payload old isUsed.1 different)

/-- A request up to `2 ^ 64 - 16` is not rounded down. -/
theorem le_alignSize (bound : size ≤ 2 ^ 64 - 16) : size ≤ alignSize size := by
  rw [alignSize, mallocAlignment, wrap64_of_lt (by omega)]
  omega

/-- The branch of `realloc` that moves an allocation. -/
theorem HeapInv.move {h₁ : Heap} {list₁ : List Piece} (inv : HeapInv arena s list) (fits : ArenaFits arena)
    (used : UsedIn list piece) (larger : piece.size ≤ new.size) (grants : Grants s.heap h₁ arena list list₁ size new) :
    ∃ h₃ list₃, free { h₁ with mem := copyBytes h₁.mem (new.position + sizeofBlock) (piece.position + sizeofBlock) piece.size }
        (some (piece.position + sizeofBlock)) = .ok h₃ ∧
      HeapInv arena ⟨h₃, s.live.erase (piece.position + sizeofBlock) ∪ (some (new.position + sizeofBlock)).toFinset⟩ list₃ ∧
      UsedIn list₃ new ∧
      (∀ other, UsedIn list other → other.position ≠ piece.position →
        UsedIn list₃ other ∧ PayloadSame s.heap.mem h₃.mem other) ∧
      ∀ i, i < piece.size → h₃.mem (new.position + sizeofBlock + i) = s.heap.mem (piece.position + sizeofBlock + i) := by
  have differ : new.position ≠ piece.position := (grants.fresh piece used).symm
  have used₁ : UsedIn list₁ piece := (grants.used piece).mpr (Or.inl used)
  have usedNew : UsedIn list₁ new := (grants.used new).mpr (Or.inr rfl)
  have outside : SameOutside h₁.mem (copyBytes h₁.mem (new.position + sizeofBlock) (piece.position + sizeofBlock) piece.size)
      (new.position + sizeofBlock + 0) piece.size := copyBytes_outside _ _ _ _
  obtain ⟨valid₂, payload₂⟩ := grants.valid.fill usedNew.1 (by omega) outside
  obtain ⟨h₃, list₃, returned, valid₃, coalesced₃, used₃, payload₃⟩ := valid₂.free fits used₁
  have isUsed₃ : UsedIn list₃ new := (used₃ new).mpr ⟨usedNew, differ⟩
  have kept (other : Piece) (isUsed : UsedIn list other) (different : other.position ≠ piece.position) :
      UsedIn list₃ other ∧ PayloadSame s.heap.mem h₃.mem other := by
    have isUsed₁ : UsedIn list₁ other := (grants.used other).mpr (Or.inl isUsed)
    exact ⟨(used₃ other).mpr ⟨isUsed₁, different⟩, ((grants.payload other isUsed).trans
      (payload₂ other isUsed₁.1 (grants.fresh other isUsed))).trans (payload₃ other isUsed₁ different)⟩
  refine ⟨h₃, list₃, returned, ⟨valid₃, coalesced₃, ?_⟩, isUsed₃, kept, ?_⟩
  · intro pointer
    rw [Finset.mem_union, Finset.mem_erase, Option.mem_toFinset, Option.mem_def, inv.live]
    constructor
    · rintro (⟨different, other, isUsed, same⟩ | isNew)
      · refine ⟨other, (kept other isUsed ?_).1, same⟩
        intro clash
        exact different (by rw [same, clash])
      · exact ⟨new, isUsed₃, (Option.some.inj isNew).symm⟩
    · rintro ⟨other, isUsed, same⟩
      obtain ⟨isUsed₁, different⟩ := (used₃ other).mp isUsed
      rcases (grants.used other).mp isUsed₁ with old | isNew
      · refine Or.inl ⟨?_, other, old, same⟩
        intro clash
        rw [same] at clash
        exact different (Nat.add_right_cancel clash)
      · rw [same, isNew]
        exact Or.inr rfl
  · intro i inside
    have apart := grants.valid.tiles.apart_of_mem used₁.1 usedNew.1 fun clash => differ (by rw [clash])
    have copied : copyBytes h₁.mem (new.position + sizeofBlock) (piece.position + sizeofBlock) piece.size
        (new.position + sizeofBlock + i) = h₁.mem (piece.position + sizeofBlock + i) :=
      copyBytes_inside h₁.mem (by omega) inside
    calc h₃.mem (new.position + sizeofBlock + i)
        = copyBytes h₁.mem (new.position + sizeofBlock) (piece.position + sizeofBlock) piece.size
            (new.position + sizeofBlock + i) := payload₃ new usedNew differ i (by omega)
      _ = h₁.mem (piece.position + sizeofBlock + i) := copied
      _ = s.heap.mem (piece.position + sizeofBlock + i) := grants.payload piece used i inside

/-- The call keeps the state: the allocation is large enough, or there is no room for a larger one. -/
theorem HeapInv.unchanged (inv : HeapInv arena s list) (op : HeapOp) : CallHolds arena s op s :=
  ⟨⟨list, inv⟩, fun _ member _ => ⟨member, rfl, fun _ _ => rfl⟩⟩

/-- `realloc` keeps the invariant if its size is not rounded down or if no block is free. -/
theorem HeapInv.call_realloc (inv : HeapInv arena s list) (fits : ArenaFits arena) (member : pointer ∈ s.live)
    (mmap : Option Nat) (bound : size ≤ 2 ^ 64 - 16 ∨ s.heap.lacks size mmap = true) :
    ∃ result s', s.call (.realloc pointer size mmap) = .ok (result, s') ∧ CallHolds arena s (.realloc pointer size mmap) s' ∧
      ReallocHolds s s' pointer size result ∧ ∀ new, result = some new → size ≤ s'.blockSize new := by
  obtain ⟨piece, used, isPointer, isSize⟩ := inv.owned member
  have inside := inv.valid.inside used.1
  have block : sub64 (piece.position + sizeofBlock) sizeofBlock = piece.position := by
    obtain ⟨_, small⟩ := fits
    rw [sub64_of_le (Nat.le_add_left _ _) (by omega), Nat.add_sub_cancel]
  have header := inv.valid.size_eq used.1
  by_cases zero : size = 0
  · obtain ⟨h', list', freed, inv', others⟩ := inv.release fits used
    have live : s.live.erase pointer ∪ (none : Option Nat).toFinset = s.live.erase (piece.position + sizeofBlock) := by
      rw [Option.toFinset_none, Finset.union_empty, isPointer]
    refine ⟨none, ⟨h', s.live.erase (piece.position + sizeofBlock)⟩, ?_, ⟨⟨list', inv'⟩, ?_⟩, ⟨(by rintro _ ⟨⟩), ?_⟩, (by rintro _ ⟨⟩)⟩
    · have returned : User.realloc s.heap (some pointer) size mmap = .ok (none, h') := by
        rw [User.realloc, if_pos zero, isPointer, freed]
        rfl
      rw [HeapState.call, returned, Result.ok_bind]
      simp only [zero, beq_self_eq_true, Bool.or_true, if_true, live]
      rfl
    · intro other isLive notTarget
      refine others other isLive ?_
      intro same
      exact notTarget (by rw [HeapOp.target, same, isPointer])
    · intro _ positive
      omega
  · by_cases small : piece.size ≥ size
    · have live : s.live.erase pointer ∪ (some pointer).toFinset = s.live := by
        rw [Option.toFinset_some, Finset.union_comm, ← Finset.insert_eq, Finset.insert_erase member]
      refine ⟨some pointer, s, ?_, inv.unchanged _, ⟨?_, (by rintro ⟨⟩)⟩, ?_⟩
      · have returned : User.realloc s.heap (some pointer) size mmap = .ok (some pointer, s.heap) := by
          rw [User.realloc, if_neg zero, isPointer]
          simp only [block]
          rw [header, if_pos small]
        rw [HeapState.call, returned, Result.ok_bind]
        simp only [Option.isSome_some, Bool.true_or, if_true]
        rw [live]
        rfl
      · intro result isResult
        rw [← Option.some.inj isResult]
        exact ⟨member, fun _ _ => rfl⟩
      · intro result isResult
        rw [← Option.some.inj isResult, isSize]
        exact small
    · rcases inv.valid.malloc fits inv.coalesced size mmap with
        ⟨failed, _⟩ | ⟨found, h₁, list₁, new, granted, grants, _⟩
      · refine ⟨none, s, ?_, inv.unchanged _, ⟨(by rintro _ ⟨⟩), fun _ _ => ⟨member, rfl, fun _ _ => rfl⟩⟩, (by rintro _ ⟨⟩)⟩
        have returned : User.realloc s.heap (some pointer) size mmap = .ok (none, s.heap) := by
          rw [User.realloc, if_neg zero, isPointer]
          simp only [block]
          rw [header, if_neg small, failed]
          rfl
        rw [HeapState.call, returned, Result.ok_bind]
        simp only [Option.isSome_none, Bool.false_or, beq_iff_eq, zero, if_false, Option.toFinset_none, Finset.union_empty]
        rfl
      · have enough : size ≤ new.size := by
          rcases bound with small | lacks
          · exact (le_alignSize small).trans grants.fits
          · rw [found] at lacks
            cases lacks
        have larger : piece.size ≤ new.size := by omega
        have used₁ : UsedIn list₁ piece := (grants.used piece).mpr (Or.inl used)
        obtain ⟨h₃, list₃, freed, inv₃, usedNew, kept, moved⟩ := inv.move fits used larger grants
        refine ⟨some (new.position + sizeofBlock),
          ⟨h₃, s.live.erase (piece.position + sizeofBlock) ∪ (some (new.position + sizeofBlock)).toFinset⟩,
          ?_, ⟨⟨list₃, inv₃⟩, ?_⟩, ⟨?_, (by rintro ⟨⟩)⟩, ?_⟩
        · have returned : User.realloc s.heap (some pointer) size mmap = .ok (some (new.position + sizeofBlock), h₃) := by
            rw [User.realloc, if_neg zero, isPointer]
            simp only [block]
            rw [header, if_neg small, granted, Result.ok_bind]
            simp only [grants.valid.size_eq used₁.1]
            rw [freed]
            rfl
          rw [HeapState.call, returned, Result.ok_bind]
          simp only [Option.isSome_some, Bool.true_or, if_true]
          rw [isPointer]
          rfl
        · intro other isLive notTarget
          obtain ⟨old, isUsed, same, _⟩ := inv.owned isLive
          have different : old.position ≠ piece.position := by
            intro clash
            exact notTarget (by rw [HeapOp.target, same, clash, isPointer])
          obtain ⟨isUsed₃, payload⟩ := kept old isUsed different
          rw [same]
          exact inv.undisturbed inv₃ isUsed isUsed₃ payload
        · intro result isResult
          rw [← Option.some.inj isResult, isSize]
          refine ⟨(inv₃.live _).mpr ⟨new, usedNew, rfl⟩, ?_⟩
          intro i below
          rw [isPointer]
          exact moved i (by omega)
        · intro result isResult
          rw [← Option.some.inj isResult, HeapState.blockSize, Nat.add_sub_cancel, inv₃.valid.size_eq usedNew.1]
          exact enough

/-- Every call that is allowed returns, keeps the invariant and disturbs no other allocation. -/
theorem HeapInv.call (inv : HeapInv arena s list) (fits : ArenaFits arena) (allowed : s.allowed op = true) :
    ∃ result s', s.call op = .ok (result, s') ∧ CallHolds arena s op s' ∧
      ∀ pointer size mmap, op = .realloc pointer size mmap → ReallocHolds s s' pointer size result := by
  cases op with
  | malloc size mmap =>
      obtain ⟨result, s', returned, holds⟩ := inv.call_malloc fits size mmap
      exact ⟨result, s', returned, holds, nofun⟩
  | free pointer =>
      obtain ⟨s', returned, holds⟩ := inv.call_free fits (of_decide_eq_true allowed)
      exact ⟨none, s', returned, holds, nofun⟩
  | realloc pointer size mmap =>
      simp only [HeapState.allowed, Bool.and_eq_true, decide_eq_true_eq] at allowed
      obtain ⟨result, s', returned, holds, moved, _⟩ := inv.call_realloc fits allowed.1 mmap (Or.inl allowed.2)
      refine ⟨result, s', returned, holds, ?_⟩
      intro pointer' size' mmap' same
      obtain ⟨samePointer, sameSize, _⟩ := HeapOp.realloc.inj same
      rw [← samePointer, ← sameSize]
      exact moved
  | write pointer offset byte =>
      simp only [HeapState.allowed, Bool.and_eq_true, decide_eq_true_eq] at allowed
      obtain ⟨s', returned, holds⟩ := inv.call_write allowed.1 allowed.2
      exact ⟨none, s', returned, holds, nofun⟩

/-- Every reachable heap keeps the invariant. -/
theorem heapRun_inv {mem : Bytes} {ops : List HeapOp} (fits : ArenaFits arena)
    (run : Run HeapState.step (fun s op => s.allowed op = true) ⟨(heapInit ⟨mem, none⟩ (some arena)).2, ∅⟩ ops s) :
    ∃ list, HeapInv arena s list := by
  refine run.invariant (fun s => ∃ list, HeapInv arena s list) ?_ ⟨_, heapInit_inv mem arena⟩
  rintro before op after ⟨list, inv⟩ allowed returned
  obtain ⟨result, s', called, holds, _⟩ := inv.call fits allowed
  rw [HeapState.step, called] at returned
  injection returned with same
  rw [← same]
  exact holds.1

/-- The arena is one free block when the program owns no pointer. -/
theorem HeapInv.whole (inv : HeapInv arena s list) (none : s.live = ∅) : list = [⟨arena, arenaSize - sizeofBlock, false⟩] := by
  have unused : ∀ other ∈ list, other.used = false := by
    intro other member
    cases isUsed : other.used with
    | false => rfl
    | true =>
        have owned := (inv.live _).mpr ⟨other, ⟨member, isUsed⟩, rfl⟩
        rw [none] at owned
        exact absurd owned (Finset.notMem_empty _)
  have tiles := inv.valid.tiles
  have coalesced := inv.coalesced
  obtain ⟨first, rest, isList, atStart⟩ := inv.valid.head
  rw [isList] at unused tiles coalesced ⊢
  have alone := coalesced.single unused
  rw [alone] at tiles ⊢
  have last : arena + sizeofBlock + first.size = arena + arenaSize := tiles.2
  have isFree := unused first List.mem_cons_self
  have size : first.size = arenaSize - sizeofBlock := by omega
  rw [← atStart, ← size, ← isFree]

end

/-- In every reachable state the block list tiles the arena, no two neighbours are free, and the payloads lie apart from
each other and from all headers. Every call returns and disturbs no other allocation, and a `realloc` moves the old bytes
or leaves them where they are. When the program owns nothing the arena is the initial block again. -/
theorem libc_heap_tiled {mem : Bytes} {arena : Nat} {ops : List HeapOp} {s : HeapState} (fits : ArenaFits arena)
    (run : Run HeapState.step (fun s op => s.allowed op = true) ⟨(heapInit ⟨mem, none⟩ (some arena)).2, ∅⟩ ops s) :
    (∃ list, Arena s.heap arena list ∧ Coalesced list ∧
      (∀ pointer ∈ s.live, ∀ block ∈ list,
        pointer + s.blockSize pointer ≤ block.position ∨ block.position + sizeofBlock ≤ pointer) ∧
      (s.live = ∅ → list = [⟨arena, arenaSize - sizeofBlock, false⟩])) ∧
    (∀ pointer ∈ s.live, ∀ other ∈ s.live, pointer ≠ other →
      pointer + s.blockSize pointer ≤ other ∨ other + s.blockSize other ≤ pointer) ∧
    ∀ op, s.allowed op = true → ∃ result s', s.call op = .ok (result, s') ∧
      (∀ pointer ∈ s.live, op.target ≠ some pointer → Undisturbed s s' pointer) ∧
      ∀ pointer size mmap, op = .realloc pointer size mmap → ReallocHolds s s' pointer size result := by
  obtain ⟨list, inv⟩ := heapRun_inv fits run
  refine ⟨⟨list, inv.valid, inv.coalesced, ?_, inv.whole⟩, ?_, ?_⟩
  · intro pointer member block isBlock
    obtain ⟨piece, used, isPointer, isSize⟩ := inv.owned member
    have apart := inv.valid.tiles.payload_apart used.1 isBlock
    omega
  · intro pointer member other member' different
    obtain ⟨piece, used, isPointer, isSize⟩ := inv.owned member
    obtain ⟨piece', used', isPointer', isSize'⟩ := inv.owned member'
    have apart := inv.valid.tiles.apart_of_mem used.1 used'.1 fun same => different (by rw [isPointer, isPointer', same])
    omega
  · intro op allowed
    obtain ⟨result, s', called, holds, moved⟩ := inv.call fits allowed
    exact ⟨result, s', called, holds.2, moved⟩

/-- Two allocations of which the first moves, and both are freed. -/
theorem libc_heap_tiled_moved : ∃ s list, ArenaFits 0x1000000 ∧ Run HeapState.step (fun s op => s.allowed op = true)
      ⟨(heapInit ⟨fun _ => 0, none⟩ (some 0x1000000)).2, ∅⟩
      [.malloc 24 none, .malloc 100 none, .realloc 0x1000018 200 none, .free 0x1000050, .free 0x10000d8] s ∧
      s.live = ∅ ∧ Arena s.heap 0x1000000 list ∧ list = [⟨0x1000000, arenaSize - sizeofBlock, false⟩] := by
  have fits : ArenaFits 0x1000000 := ⟨by decide, by decide⟩
  have checked : (exec HeapState.step HeapState.allowed
      [.malloc 24 none, .malloc 100 none, .realloc 0x1000018 200 none, .free 0x1000050, .free 0x10000d8]
      ⟨(heapInit ⟨fun _ => 0, none⟩ (some 0x1000000)).2, ∅⟩).any (fun s => decide (s.live = ∅)) = true := by decide +kernel
  obtain ⟨s, run, shown⟩ := Run.exists_of_check checked
  have empty := of_decide_eq_true shown
  obtain ⟨⟨list, valid, _, _, whole⟩, _⟩ := libc_heap_tiled fits run
  exact ⟨s, list, fits, run, empty, valid, whole empty⟩

end DoccrOS.User
