import DoccrOS.Proof.Mem.KheapRuns

namespace DoccrOS.Mem
open Lib

/-- The heap is tiled, no free blocks are neighbours, and the owned pointers are those of the used blocks. -/
structure KheapInv (s : KheapState) (list : List (Nat × BlockInfo)) : Prop where
  blocks : Blocks s.heap list
  coalesced : Coalesced (blockPieces list)
  live : ∀ ptr, ptr ∈ s.live ↔ ∃ block, UsedIn list block ∧ ptr = block.1 + blockHeader

/-- The pointer that a call passes. -/
def KheapOp.target : KheapOp → Option Nat
  | .kmalloc _ => none
  | .kfree ptr | .krealloc ptr _ | .write ptr _ _ => some ptr

/-- The allocation stays with its size and its bytes. -/
def Undisturbed (s s' : KheapState) (ptr : Nat) : Prop :=
  ptr ∈ s'.live ∧ s'.blockSize ptr = s.blockSize ptr ∧ ∀ i, i < s.blockSize ptr → s'.heap.mem (ptr + i) = s.heap.mem (ptr + i)

section
variable {s s' : KheapState} {list list' : List (Nat × BlockInfo)} {ptr size : Nat} {result : Option Nat} {op : KheapOp}

/-- The size that the header of a block shows. -/
theorem Blocks.size_eq {h : Kheap} {addr : Nat} {info : BlockInfo} (blocks : Blocks h list) (member : (addr, info) ∈ list) :
    (blockAt h.mem addr).value = info := by
  obtain ⟨left, right, split⟩ := List.append_of_mem member
  rw [split] at blocks
  rw [blocks.node]

/-- An owned pointer belongs to a used block. -/
theorem KheapInv.owned (inv : KheapInv s list) (member : ptr ∈ s.live) :
    ∃ addr info, UsedIn list (addr, info) ∧ ptr = addr + blockHeader ∧ s.blockSize ptr = info.size := by
  obtain ⟨⟨addr, info⟩, used, same⟩ := (inv.live ptr).mp member
  refine ⟨addr, info, used, same, ?_⟩
  rw [KheapState.blockSize, same, Nat.add_sub_cancel, inv.blocks.size_eq used.1]

/-- A used block whose payload stays is undisturbed. -/
theorem KheapInv.undisturbed (inv : KheapInv s list) (inv' : KheapInv s' list') {addr : Nat} {info : BlockInfo}
    (used : UsedIn list (addr, info)) (used' : UsedIn list' (addr, info))
    (same : PayloadSame s.heap.mem s'.heap.mem (addr, info)) : Undisturbed s s' (addr + blockHeader) := by
  refine ⟨(inv'.live _).mpr ⟨_, used', rfl⟩, ?_, ?_⟩
  · rw [KheapState.blockSize, KheapState.blockSize, Nat.add_sub_cancel, inv.blocks.size_eq used.1,
      inv'.blocks.size_eq used'.1]
  · intro i inside
    rw [KheapState.blockSize, Nat.add_sub_cancel, inv.blocks.size_eq used.1] at inside
    exact same i inside

/-- The initial heap is one free block. -/
theorem kheapInit_inv (mem : Bytes) :
    KheapInv ⟨kheapInit mem, ∅⟩ [(heapStart, ⟨blockMagic, heapSize - blockHeader, false⟩)] := by
  refine ⟨⟨rfl, rfl, ?_, ?_, ?_, ?_⟩, List.isChain_singleton _, ?_⟩
  · refine ⟨?_, trivial⟩
    have valid : (none : Option Nat) ≠ some 0 := nofun
    simp only [kheapInit]
    rw [blockAt_setPrev _ valid (by decide), blockAt_setNext _ valid (by decide), blockAt_setUsed,
      blockAt_setSize _ (by decide), blockAt_setMagic _ (by decide)]
    rfl
  · exact ⟨rfl, rfl⟩
  · intro block member
    rw [List.mem_singleton.mp member]
    exact ⟨rfl, by decide⟩
  · rfl
  · intro ptr
    constructor
    · intro member
      exact absurd member (Finset.notMem_empty _)
    · rintro ⟨block, used, _⟩
      have isFree := used.2
      rw [List.mem_singleton.mp used.1] at isFree
      cases isFree

/-- What one call does: it keeps the invariant and disturbs no other allocation. -/
def CallHolds (s : KheapState) (op : KheapOp) (s' : KheapState) : Prop :=
  (∃ list', KheapInv s' list') ∧ ∀ ptr ∈ s.live, op.target ≠ some ptr → Undisturbed s s' ptr

/-- The pointer of a granted block is owned, and no other allocation is disturbed. -/
theorem KheapInv.granted {h' : Kheap} {addr : Nat} {info : BlockInfo} (inv : KheapInv s list)
    (grants : Grants s.heap h' list list' size addr info) :
    KheapInv ⟨h', s.live ∪ (some (addr + blockHeader)).toFinset⟩ list' ∧
      ∀ ptr ∈ s.live, Undisturbed s ⟨h', s.live ∪ (some (addr + blockHeader)).toFinset⟩ ptr := by
  have inv' : KheapInv ⟨h', s.live ∪ (some (addr + blockHeader)).toFinset⟩ list' := by
    refine ⟨grants.blocks, grants.coalesced, ?_⟩
    intro ptr
    rw [Finset.mem_union, Option.mem_toFinset, Option.mem_def, inv.live]
    constructor
    · intro either
      rcases either with ⟨block, used, same⟩ | new
      · exact ⟨block, (grants.used block).mpr (Or.inl used), same⟩
      · exact ⟨_, (grants.used _).mpr (Or.inr rfl), (Option.some.inj new).symm⟩
    · rintro ⟨block, used, same⟩
      rcases (grants.used block).mp used with old | new
      · exact Or.inl ⟨block, old, same⟩
      · rw [same, new]
        exact Or.inr rfl
  refine ⟨inv', ?_⟩
  intro ptr member
  obtain ⟨old, oldInfo, used, same, _⟩ := inv.owned member
  rw [same]
  exact inv.undisturbed inv' used ((grants.used _).mpr (Or.inl used)) (grants.payload _ used)

/-- The pointers that are owned after a request that failed. -/
theorem live_none (s : KheapState) : (⟨s.heap, s.live ∪ (none : Option Nat).toFinset⟩ : KheapState) = s := by
  rw [Option.toFinset_none, Finset.union_empty]

theorem KheapInv.call_kmalloc (inv : KheapInv s list) (size : Nat) :
    ∃ result s', s.call (.kmalloc size) = .ok (result, s') ∧ CallHolds s (.kmalloc size) s' := by
  rcases inv.blocks.kmalloc inv.coalesced size with ⟨failed, _⟩ | ⟨_, h', list', addr, info, returned, grants⟩
  · refine ⟨none, ⟨s.heap, s.live ∪ (none : Option Nat).toFinset⟩, by rw [KheapState.call, failed]; rfl, ?_⟩
    rw [live_none]
    exact ⟨⟨list, inv⟩, fun ptr member _ => ⟨member, rfl, fun _ _ => rfl⟩⟩
  · obtain ⟨inv', undisturbed⟩ := inv.granted grants
    exact ⟨some (addr + blockHeader), ⟨h', s.live ∪ (some (addr + blockHeader)).toFinset⟩,
      by rw [KheapState.call, returned]; rfl, ⟨list', inv'⟩, fun ptr member _ => undisturbed ptr member⟩

/-- The pointers that are owned after a free. -/
theorem KheapInv.freed {h' : Kheap} {addr : Nat} (inv : KheapInv s list) (blocks : Blocks h' list')
    (coalesced : Coalesced (blockPieces list'))
    (used : ∀ block, UsedIn list' block ↔ UsedIn list block ∧ block.1 ≠ addr) :
    KheapInv ⟨h', s.live.erase (addr + blockHeader)⟩ list' := by
  refine ⟨blocks, coalesced, ?_⟩
  intro ptr
  rw [Finset.mem_erase, inv.live]
  constructor
  · rintro ⟨different, block, isUsed, same⟩
    refine ⟨block, (used block).mpr ⟨isUsed, ?_⟩, same⟩
    intro clash
    exact different (by rw [same, clash])
  · rintro ⟨block, isUsed, same⟩
    obtain ⟨old, different⟩ := (used block).mp isUsed
    refine ⟨?_, block, old, same⟩
    intro clash
    rw [same] at clash
    exact different (Nat.add_right_cancel clash)

theorem KheapInv.call_kfree (inv : KheapInv s list) (member : ptr ∈ s.live) :
    ∃ s', s.call (.kfree ptr) = .ok (none, s') ∧ CallHolds s (.kfree ptr) s' := by
  obtain ⟨addr, info, used, isPtr, _⟩ := inv.owned member
  obtain ⟨h', list', freed, blocks', coalesced', used', payload⟩ := inv.blocks.kfree inv.coalesced used
  rw [isPtr]
  have inv' := inv.freed blocks' coalesced' used'
  refine ⟨_, by rw [KheapState.call, freed]; rfl, ⟨list', inv'⟩, ?_⟩
  intro other isLive notTarget
  obtain ⟨old, oldInfo, isUsed, same, _⟩ := inv.owned isLive
  have different : old ≠ addr := by
    intro clash
    exact notTarget (by rw [KheapOp.target, same, clash])
  rw [same]
  exact inv.undisturbed inv' isUsed ((used' _).mpr ⟨isUsed, different⟩) (payload _ isUsed different)

theorem KheapInv.call_write {offset : Nat} {byte : BitVec 8} (inv : KheapInv s list) (member : ptr ∈ s.live)
    (inside : offset < s.blockSize ptr) :
    ∃ s', s.call (.write ptr offset byte) = .ok (none, s') ∧ CallHolds s (.write ptr offset byte) s' := by
  obtain ⟨addr, info, used, isPtr, isSize⟩ := inv.owned member
  rw [isSize] at inside
  have outside : SameOutside s.heap.mem (Function.update s.heap.mem (ptr + offset) byte) (addr + blockHeader + offset) 1 := by
    intro query away
    rw [isPtr, Function.update_of_ne (by omega)]
  obtain ⟨blocks', payload⟩ := inv.blocks.fill used.1 (by omega) outside
  have inv' : KheapInv { s with heap := { s.heap with mem := Function.update s.heap.mem (ptr + offset) byte } } list :=
    ⟨blocks', inv.coalesced, inv.live⟩
  refine ⟨_, rfl, ⟨list, inv'⟩, ?_⟩
  intro other isLive notTarget
  obtain ⟨old, oldInfo, isUsed, same, _⟩ := inv.owned isLive
  have different : old ≠ addr := by
    intro clash
    exact notTarget (by rw [KheapOp.target, same, clash, isPtr])
  rw [same]
  exact inv.undisturbed inv' isUsed isUsed (payload _ isUsed.1 different)

/-- What a `krealloc` returns: a pointer to the old bytes, or nothing while the old allocation stays. -/
def ReallocHolds (s s' : KheapState) (ptr size : Nat) (result : Option Nat) : Prop :=
  (∀ new, result = some new → new ∈ s'.live ∧
    ∀ i, i < min (s.blockSize ptr) size → s'.heap.mem (new + i) = s.heap.mem (ptr + i)) ∧
  (result = none → 0 < size → Undisturbed s s' ptr)

/-- A request below `2 ^ 64 - 8` is not rounded down. -/
theorem le_rounded (bound : size ≤ 2 ^ 64 - 8) : size ≤ kheapRound size := by
  rw [kheapRound, wrap64_of_lt (by omega)]
  omega

/-- The branch of `krealloc` that moves an allocation. -/
theorem KheapInv.move {addr : Nat} {info : BlockInfo} {h₁ : Kheap} {list₁ : List (Nat × BlockInfo)} {new : Nat}
    {newInfo : BlockInfo} (inv : KheapInv s list) (used : UsedIn list (addr, info)) (larger : info.size ≤ newInfo.size)
    (grants : Grants s.heap h₁ list list₁ size new newInfo) :
    ∃ h₃ list₃, kfree { h₁ with mem := copyBytes h₁.mem (new + blockHeader) (addr + blockHeader) info.size }
        (some (addr + blockHeader)) = .ok h₃ ∧
      KheapInv ⟨h₃, s.live.erase (addr + blockHeader) ∪ (some (new + blockHeader)).toFinset⟩ list₃ ∧
      UsedIn list₃ (new, newInfo) ∧
      (∀ block, UsedIn list block → block.1 ≠ addr → UsedIn list₃ block ∧ PayloadSame s.heap.mem h₃.mem block) ∧
      ∀ i, i < info.size → h₃.mem (new + blockHeader + i) = s.heap.mem (addr + blockHeader + i) := by
  have differ : new ≠ addr := by
    intro same
    rw [← same] at used
    exact grants.fresh info used
  have used₁ : UsedIn list₁ (addr, info) := (grants.used _).mpr (Or.inl used)
  have usedNew : UsedIn list₁ (new, newInfo) := (grants.used _).mpr (Or.inr rfl)
  have outside : SameOutside h₁.mem (copyBytes h₁.mem (new + blockHeader) (addr + blockHeader) info.size)
      (new + blockHeader + 0) info.size := copyBytes_outside _ _ _ _
  obtain ⟨blocks₂, payload₂⟩ := grants.blocks.fill usedNew.1 (by omega) outside
  obtain ⟨h₃, list₃, freed, blocks₃, coalesced₃, used₃, payload₃⟩ := blocks₂.kfree grants.coalesced used₁
  have kept : ∀ block, UsedIn list block → block.1 ≠ addr → UsedIn list₃ block ∧ PayloadSame s.heap.mem h₃.mem block := by
    intro block isUsed different
    have isUsed₁ : UsedIn list₁ block := (grants.used _).mpr (Or.inl isUsed)
    have notNew : block.1 ≠ new := by
      intro same
      rw [← same] at grants
      exact grants.fresh block.2 isUsed
    exact ⟨(used₃ block).mpr ⟨isUsed₁, different⟩, ((grants.payload block isUsed).trans
      (payload₂ block isUsed₁.1 notNew)).trans (payload₃ block isUsed₁ different)⟩
  refine ⟨h₃, list₃, freed, ⟨blocks₃, coalesced₃, ?_⟩, (used₃ _).mpr ⟨usedNew, differ⟩, kept, ?_⟩
  · intro ptr
    rw [Finset.mem_union, Finset.mem_erase, Option.mem_toFinset, Option.mem_def, inv.live]
    constructor
    · intro either
      rcases either with ⟨different, block, isUsed, same⟩ | isNew
      · refine ⟨block, (kept block isUsed ?_).1, same⟩
        intro clash
        exact different (by rw [same, clash])
      · exact ⟨_, (used₃ _).mpr ⟨usedNew, differ⟩, (Option.some.inj isNew).symm⟩
    · rintro ⟨block, isUsed, same⟩
      obtain ⟨isUsed₁, different⟩ := (used₃ block).mp isUsed
      rcases (grants.used block).mp isUsed₁ with old | isNew
      · refine Or.inl ⟨?_, block, old, same⟩
        intro clash
        rw [same] at clash
        exact different (Nat.add_right_cancel clash)
      · rw [same, isNew]
        exact Or.inr rfl
  · intro i inside
    have apart := tiles_apart grants.blocks.tiles used₁.1 usedNew.1 (Ne.symm differ)
    simp only at apart
    have moved := payload₃ (new, newInfo) usedNew differ i (show i < newInfo.size by omega)
    have copied : copyBytes h₁.mem (new + blockHeader) (addr + blockHeader) info.size (new + blockHeader + i) =
        h₁.mem (addr + blockHeader + i) := copyBytes_inside h₁.mem (by omega) inside
    have old := grants.payload (addr, info) used i inside
    exact (moved.trans copied).trans old

/-- `krealloc` keeps the invariant if its size is not rounded down or if no block is free. -/
theorem KheapInv.call_krealloc (inv : KheapInv s list) (member : ptr ∈ s.live)
    (bound : size ≤ 2 ^ 64 - 8 ∨ s.heap.lacks (kheapRound size) = true) :
    ∃ result s', s.call (.krealloc ptr size) = .ok (result, s') ∧ CallHolds s (.krealloc ptr size) s' ∧
      ReallocHolds s s' ptr size result ∧ ∀ new, result = some new → size ≤ s'.blockSize new := by
  obtain ⟨addr, info, used, isPtr, isSize⟩ := inv.owned member
  have inside := inv.blocks.inside used.1
  have hereInfo := inv.blocks.info _ used.1
  have blk : sub64 (addr + blockHeader) blockHeader = addr := by
    simp only [heapStart, heapSize] at inside
    rw [sub64_of_le (Nat.le_add_left _ _) (by omega), Nat.add_sub_cancel]
  have header := inv.blocks.size_eq used.1
  have magic : ¬(blockAt s.heap.mem addr).value.magic ≠ blockMagic := by
    rw [header]
    exact not_not.mpr hereInfo.1
  by_cases zero : size = 0
  · obtain ⟨h', list', freed, blocks', coalesced', used', payload⟩ := inv.blocks.kfree inv.coalesced used
    have inv' := inv.freed blocks' coalesced' used'
    have live : s.live.erase ptr ∪ (none : Option Nat).toFinset = s.live.erase (addr + blockHeader) := by
      rw [Option.toFinset_none, Finset.union_empty, isPtr]
    refine ⟨none, ⟨h', s.live.erase (addr + blockHeader)⟩, ?_, ⟨⟨list', inv'⟩, ?_⟩, ⟨(by rintro _ ⟨⟩), ?_⟩, (by rintro _ ⟨⟩)⟩
    · have returned : krealloc s.heap (some ptr) size = .ok (none, h') := by
        rw [krealloc, if_pos zero, isPtr, freed]
        rfl
      rw [KheapState.call, returned, Result.ok_bind]
      simp only [zero, beq_self_eq_true, Bool.or_true, if_true, live]
      rfl
    · intro other isLive notTarget
      obtain ⟨old, oldInfo, isUsed, same, _⟩ := inv.owned isLive
      have different : old ≠ addr := by
        intro clash
        exact notTarget (by rw [KheapOp.target, same, clash, isPtr])
      rw [same]
      exact inv.undisturbed inv' isUsed ((used' _).mpr ⟨isUsed, different⟩) (payload _ isUsed different)
    · intro _ positive
      omega
  · by_cases small : size ≤ info.size
    · have live : s.live.erase ptr ∪ (some ptr).toFinset = s.live := by
        rw [Option.toFinset_some, Finset.union_comm, ← Finset.insert_eq, Finset.insert_erase member]
      refine ⟨some ptr, s, ?_, ⟨⟨list, inv⟩, fun other isLive _ => ⟨isLive, rfl, fun _ _ => rfl⟩⟩, ⟨?_, (by rintro ⟨⟩)⟩, ?_⟩
      · have returned : krealloc s.heap (some ptr) size = .ok (some ptr, s.heap) := by
          rw [krealloc, if_neg zero, isPtr]
          simp only [blk]
          rw [if_neg magic, header, if_pos small]
        rw [KheapState.call, returned, Result.ok_bind]
        simp only [Option.isSome_some, Bool.true_or, if_true]
        rw [live]
        rfl
      · intro new isNew
        rw [← Option.some.inj isNew]
        exact ⟨member, fun _ _ => rfl⟩
      · intro new isNew
        rw [← Option.some.inj isNew, isSize]
        exact small
    · rcases inv.blocks.kmalloc inv.coalesced size with
        ⟨failed, _⟩ | ⟨found, h₁, list₁, new, newInfo, granted, grants⟩
      · refine ⟨none, s, ?_, ⟨⟨list, inv⟩, fun other isLive _ => ⟨isLive, rfl, fun _ _ => rfl⟩⟩, ⟨(by rintro _ ⟨⟩), ?_⟩, (by rintro _ ⟨⟩)⟩
        · have returned : krealloc s.heap (some ptr) size = .ok (none, s.heap) := by
            rw [krealloc, if_neg zero, isPtr]
            simp only [blk]
            rw [if_neg magic, header, if_neg small, failed]
            rfl
          rw [KheapState.call, returned, Result.ok_bind]
          simp only [Option.isSome_none, Bool.false_or, beq_iff_eq, zero, if_false, Option.toFinset_none, Finset.union_empty]
          rfl
        · intro _ _
          exact ⟨member, rfl, fun _ _ => rfl⟩
      · have enough : size ≤ newInfo.size := by
          rcases bound with small | lacks
          · exact (le_rounded small).trans grants.fits
          · rw [found] at lacks
            cases lacks
        have larger : info.size ≤ newInfo.size := by omega
        have used₁ : UsedIn list₁ (addr, info) := (grants.used _).mpr (Or.inl used)
        obtain ⟨h₃, list₃, freed, inv₃, usedNew, kept, moved⟩ := inv.move used larger grants
        refine ⟨some (new + blockHeader), ⟨h₃, s.live.erase (addr + blockHeader) ∪ (some (new + blockHeader)).toFinset⟩,
          ?_, ⟨⟨list₃, inv₃⟩, ?_⟩, ⟨?_, (by rintro ⟨⟩)⟩, ?_⟩
        · have returned : krealloc s.heap (some ptr) size = .ok (some (new + blockHeader), h₃) := by
            rw [krealloc, if_neg zero, isPtr]
            simp only [blk]
            rw [if_neg magic, header, if_neg small, granted, Result.ok_bind]
            simp only [grants.blocks.size_eq used₁.1]
            rw [freed]
            rfl
          rw [KheapState.call, returned, Result.ok_bind]
          simp only [Option.isSome_some, Bool.true_or, if_true]
          rw [isPtr]
          rfl
        · intro other isLive notTarget
          obtain ⟨old, oldInfo, isUsed, same, _⟩ := inv.owned isLive
          have different : old ≠ addr := by
            intro clash
            exact notTarget (by rw [KheapOp.target, same, clash, isPtr])
          obtain ⟨isUsed₃, payload⟩ := kept _ isUsed different
          rw [same]
          exact inv.undisturbed inv₃ isUsed isUsed₃ payload
        · intro result isResult
          rw [← Option.some.inj isResult, isSize]
          refine ⟨(inv₃.live _).mpr ⟨_, usedNew, rfl⟩, ?_⟩
          intro i below
          rw [isPtr]
          exact moved i (by omega)
        · intro result isResult
          rw [← Option.some.inj isResult, KheapState.blockSize, Nat.add_sub_cancel, inv₃.blocks.size_eq usedNew.1]
          exact enough

/-- Every call that is allowed returns, keeps the invariant and disturbs no other allocation. -/
theorem KheapInv.call (inv : KheapInv s list) (allowed : s.allowed op = true) :
    ∃ result s', s.call op = .ok (result, s') ∧ CallHolds s op s' ∧
      ∀ ptr size, op = .krealloc ptr size → ReallocHolds s s' ptr size result := by
  cases op with
  | kmalloc size =>
      obtain ⟨result, s', returned, holds⟩ := inv.call_kmalloc size
      exact ⟨result, s', returned, holds, nofun⟩
  | kfree ptr =>
      obtain ⟨s', returned, holds⟩ := inv.call_kfree (of_decide_eq_true allowed)
      exact ⟨none, s', returned, holds, nofun⟩
  | krealloc ptr size =>
      simp only [KheapState.allowed, Bool.and_eq_true, decide_eq_true_eq] at allowed
      obtain ⟨result, s', returned, holds, moved, _⟩ := inv.call_krealloc allowed.1 (Or.inl allowed.2)
      refine ⟨result, s', returned, holds, ?_⟩
      intro ptr' size' same
      obtain ⟨samePtr, sameSize⟩ := KheapOp.krealloc.inj same
      rw [← samePtr, ← sameSize]
      exact moved
  | write ptr offset byte =>
      simp only [KheapState.allowed, Bool.and_eq_true, decide_eq_true_eq] at allowed
      obtain ⟨s', returned, holds⟩ := inv.call_write allowed.1 allowed.2
      exact ⟨none, s', returned, holds, nofun⟩

/-- Every reachable heap keeps the invariant. -/
theorem kheapRun_inv {mem : Bytes} {ops : List KheapOp}
    (run : Run KheapState.step (fun s op => s.allowed op = true) ⟨kheapInit mem, ∅⟩ ops s) : ∃ list, KheapInv s list := by
  refine run.invariant (fun s => ∃ list, KheapInv s list) ?_ ⟨_, kheapInit_inv mem⟩
  rintro before op after ⟨list, inv⟩ allowed returned
  obtain ⟨result, s', called, holds, _⟩ := inv.call allowed
  rw [KheapState.step, called] at returned
  injection returned with same
  rw [← same]
  exact holds.1

end

/-- In every reachable state the block list tiles the heap, no two neighbours are free and the counters are exact.
Every call returns. -/
theorem kheap_tiled {mem : Bytes} {ops : List KheapOp} {s : KheapState}
    (run : Run KheapState.step (fun s op => s.allowed op = true) ⟨kheapInit mem, ∅⟩ ops s) :
    (∃ list, Blocks s.heap list ∧ Coalesced (blockPieces list) ∧
      s.heap.stats.usedSize + s.heap.stats.freeSize + blockHeader * s.heap.stats.totalBlocks = heapSize) ∧
      ∀ op, s.allowed op = true → ∃ s', s.step op = .ok s' := by
  obtain ⟨list, inv⟩ := kheapRun_inv run
  refine ⟨⟨list, inv.blocks, inv.coalesced, ?_⟩, ?_⟩
  · have total := inv.blocks.total
    rw [inv.blocks.stats, statsOf, blockPieces_length]
    exact total
  · intro op allowed
    obtain ⟨result, s', called, _⟩ := inv.call allowed
    exact ⟨s', by rw [KheapState.step, called]; rfl⟩

/-- Two allocations of which the first is freed. -/
theorem kheap_tiled_two_blocks : ∃ s list, Run KheapState.step (fun s op => s.allowed op = true)
      ⟨kheapInit fun _ => 0, ∅⟩ [.kmalloc 24, .kmalloc 100, .kfree (heapStart + blockHeader)] s ∧ Blocks s.heap list := by
  have checked : (exec KheapState.step KheapState.allowed [.kmalloc 24, .kmalloc 100, .kfree (heapStart + blockHeader)]
      ⟨kheapInit fun _ => 0, ∅⟩).any (fun _ => true) = true := by decide +kernel
  obtain ⟨s, run, _⟩ := Run.exists_of_check checked
  obtain ⟨⟨list, blocks, _⟩, _⟩ := kheap_tiled run
  exact ⟨s, list, run, blocks⟩

/-- A call disturbs no other allocation, the payloads lie apart from each other and from all headers, and a `krealloc`
moves the old bytes or leaves them where they are. -/
theorem kheap_payloads {mem : Bytes} {ops : List KheapOp} {s : KheapState} {op : KheapOp}
    (run : Run KheapState.step (fun s op => s.allowed op = true) ⟨kheapInit mem, ∅⟩ ops s)
    (allowed : s.allowed op = true) :
    (∃ result s', s.call op = .ok (result, s') ∧ (∀ ptr ∈ s.live, op.target ≠ some ptr → Undisturbed s s' ptr) ∧
      ∀ ptr size, op = .krealloc ptr size → ReallocHolds s s' ptr size result) ∧
    (∀ ptr ∈ s.live, ∀ other ∈ s.live, ptr ≠ other →
      ptr + s.blockSize ptr ≤ other ∨ other + s.blockSize other ≤ ptr) ∧
    ∃ list, Blocks s.heap list ∧ ∀ ptr ∈ s.live, ∀ header ∈ list.map Prod.fst,
      ptr + s.blockSize ptr ≤ header ∨ header + blockHeader ≤ ptr := by
  obtain ⟨list, inv⟩ := kheapRun_inv run
  refine ⟨?_, ?_, list, inv.blocks, ?_⟩
  · obtain ⟨result, s', called, holds, moved⟩ := inv.call allowed
    exact ⟨result, s', called, holds.2, moved⟩
  · intro ptr member other member' different
    obtain ⟨addr, info, used, isPtr, isSize⟩ := inv.owned member
    obtain ⟨addr', info', used', isPtr', isSize'⟩ := inv.owned member'
    have apart := tiles_apart inv.blocks.tiles used.1 used'.1 fun same => different (by
      rw [isPtr, isPtr']
      exact congrArg (· + blockHeader) same)
    simp only at apart
    omega
  · intro ptr member header isHeader
    obtain ⟨addr, info, used, isPtr, isSize⟩ := inv.owned member
    have apart := payload_apart inv.blocks.tiles used.1 isHeader
    simp only at apart
    omega

/-- The byte of an allocation moves with a `krealloc`. -/
theorem kheap_payloads_moved : ∃ s s' new, Run KheapState.step (fun s op => s.allowed op = true) ⟨kheapInit fun _ => 0, ∅⟩
      [.kmalloc 24, .kmalloc 24, .write (heapStart + blockHeader) 0 7] s ∧
      s.call (.krealloc (heapStart + blockHeader) 100) = .ok (some new, s') ∧
      s'.heap.mem new = s.heap.mem (heapStart + blockHeader) := by
  have checked : (exec KheapState.step KheapState.allowed
      [.kmalloc 24, .kmalloc 24, .write (heapStart + blockHeader) 0 7] ⟨kheapInit fun _ => 0, ∅⟩).any (fun s =>
        s.allowed (.krealloc (heapStart + blockHeader) 100) && decide (0 < s.blockSize (heapStart + blockHeader)) &&
        (match s.call (.krealloc (heapStart + blockHeader) 100) with
          | .ok (result, _) => result.isSome
          | .error _ => false)) = true := by decide +kernel
  obtain ⟨s, run, shown⟩ := Run.exists_of_check checked
  simp only [Bool.and_eq_true, decide_eq_true_eq] at shown
  obtain ⟨⟨allowed, positive⟩, returns⟩ := shown
  obtain ⟨⟨result, s', called, _, moved⟩, _⟩ := kheap_payloads run allowed
  rw [called] at returns
  obtain ⟨new, isNew⟩ := Option.isSome_iff_exists.mp returns
  rw [isNew] at called
  exact ⟨s, s', new, run, called, ((moved _ _ rfl).1 new isNew).2 0 (lt_min positive (by decide))⟩

end DoccrOS.Mem
