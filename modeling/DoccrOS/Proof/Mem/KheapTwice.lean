import DoccrOS.Proof.Mem.KheapSizes

namespace DoccrOS.Mem
open Lib

/-- The magic number and the usage flag of the header at an address are the same. -/
def StatusSame (mem mem' : Bytes) (addr : Nat) : Prop :=
  (blockAt mem' addr).value.magic = (blockAt mem addr).value.magic ∧
    (blockAt mem' addr).value.used = (blockAt mem addr).value.used

/-- The header at an address is that of the record, or it shares no byte with it. -/
def HeaderApart (record addr : Nat) : Prop :=
  addr = record ∨ addr + blockHeader ≤ record ∨ record + blockHeader ≤ addr

/-- The bytes that a call stores by itself lie inside the block that it gets: the rounding of the request does not wrap. -/
def KheapCall.bounded : KheapCall → Bool
  | .op (.krealloc _ size) => decide (size ≤ 2 ^ 64 - 8)
  | .kcalloc count size => decide (wrap64 (count * size) ≤ 2 ^ 64 - 8)
  | _ => true

section
variable {h h' : Kheap} {mem mem' mem'' : Bytes} {left right list : List (Nat × BlockInfo)} {addr next record : Nat}
  {info nextInfo : BlockInfo} {fuel : Nat} {s s' : KheapState} {call : KheapCall}

theorem StatusSame.trans (first : StatusSame mem mem' addr) (second : StatusSame mem' mem'' addr) :
    StatusSame mem mem'' addr :=
  ⟨second.1.trans first.1, second.2.trans first.2⟩

/-- The fields between the magic number and the usage flag do not show in the status. -/
theorem store_status (mem : Bytes) {offset width : Nat} (value : Nat) (behind : 4 ≤ offset) (before : offset + width ≤ 32)
    (apart : HeaderApart record addr) : StatusSame mem (store mem width (record + offset) value) addr := by
  have room : addr = record ∨ addr + 40 ≤ record ∨ record + 40 ≤ addr := apart
  constructor
  · exact load_store_apart mem (by omega)
  · show (load _ 1 (addr + 32) != 0) = (load mem 1 (addr + 32) != 0)
    rw [load_store_apart mem (by omega)]

theorem relink_status (mem : Bytes) {target : Option Nat} (prev : Nat)
    (apart : ∀ record, target = some record → HeaderApart record addr) : StatusSame mem (relink mem target prev) addr := by
  cases target with
  | none => exact ⟨rfl, rfl⟩
  | some record => exact store_status mem _ (by decide) (by decide) (apart record rfl)

theorem setSize_status (mem : Bytes) (size : Nat) (apart : HeaderApart record addr) :
    StatusSame mem (setSize mem record size) addr :=
  store_status mem size (by decide) (by decide) apart

theorem setNext_status (mem : Bytes) (target : Option Nat) (apart : HeaderApart record addr) :
    StatusSame mem (setNext mem record target) addr :=
  store_status mem (ofPtr target) (by decide) (by decide) apart

theorem kheapAbsorb_mem (h : Kheap) (current next : Nat) : (kheapAbsorb h current next).mem =
    relink (setNext (setSize h.mem current (wrap64 ((blockAt h.mem current).value.size +
      (blockHeader + (blockAt h.mem next).value.size)))) current (blockAt h.mem next).next)
      (blockAt h.mem next).next current := by
  simp only [kheapAbsorb]

/-- A block that takes in its successor changes the links and the size of records of the list only. -/
theorem kheapAbsorb_status (h : Kheap) (current next : Nat) (here : HeaderApart current addr)
    (behind : ∀ record, (blockAt h.mem next).next = some record → HeaderApart record addr) :
    StatusSame h.mem (kheapAbsorb h current next).mem addr := by
  rw [kheapAbsorb_mem]
  apply StatusSame.trans (setSize_status h.mem _ here)
  apply StatusSame.trans (setNext_status _ _ here)
  exact relink_status _ current behind

/-- The successor of a block that is taken in is a block of the list. -/
theorem Blocks.absorb_status (blocks : Blocks h (left ++ (next, info) :: (record, nextInfo) :: right))
    (apart : ∀ other ∈ (left ++ (next, info) :: (record, nextInfo) :: right).map Prod.fst, HeaderApart other addr) :
    StatusSame h.mem (kheapAbsorb h next record).mem addr := by
  have blocks₁ : Blocks h ((left ++ [(next, info)]) ++ (record, nextInfo) :: right) := by simpa using blocks
  apply kheapAbsorb_status
  · exact apart next (by simp)
  · intro other isNext
    rw [blocks₁.node] at isNext
    apply apart
    have member := firstPtr_mem isNext
    simp only [List.map_append, List.map_cons, List.mem_append, List.mem_cons]
    exact Or.inr (Or.inr (Or.inr member))

/-- The forward loop leaves the status of every header of the list and of every address apart from all of them. -/
theorem Blocks.mergeForward_status (blocks : Blocks h (left ++ (next, info) :: right)) (free : info.used = false)
    (apart : ∀ other ∈ (left ++ (next, info) :: right).map Prod.fst, HeaderApart other addr)
    (merged : kheapMergeForward fuel h next = .ok h') : StatusSame h.mem h'.mem addr := by
  induction right generalizing h info fuel with
  | nil =>
      cases fuel with
      | zero => cases merged
      | succ fuel =>
          rw [kheapMergeForward, blocks.node] at merged
          rw [← Except.ok.inj merged]
          exact ⟨rfl, rfl⟩
  | cons second right inductionHypothesis =>
      obtain ⟨after, afterInfo⟩ := second
      have blocks₁ : Blocks h ((left ++ [(next, info)]) ++ (after, afterInfo) :: right) := by simpa using blocks
      cases fuel with
      | zero => cases merged
      | succ fuel =>
          rw [kheapMergeForward, blocks.node] at merged
          simp only [firstPtr, blocks₁.node] at merged
          cases stops : afterInfo.used with
          | true =>
              rw [stops, if_pos rfl] at merged
              rw [← Except.ok.inj merged]
              exact ⟨rfl, rfl⟩
          | false =>
              rw [stops, if_neg Bool.false_ne_true] at merged
              apply (blocks.absorb_status apart).trans
              apply inductionHypothesis (blocks.absorb free stops).1 free ?_ merged
              intro other member
              apply apart other
              simp only [List.map_append, List.map_cons, List.mem_append, List.mem_cons] at member ⊢
              tauto

/-- The backward loop leaves the same status. -/
theorem Blocks.mergeBackward_status (blocks : Blocks h (left ++ (next, info) :: right)) (free : info.used = false)
    (apart : ∀ other ∈ (left ++ (next, info) :: right).map Prod.fst, HeaderApart other addr)
    (merged : kheapMergeBackward fuel h next = .ok h') : StatusSame h.mem h'.mem addr := by
  induction left using List.reverseRecOn generalizing h next info fuel with
  | nil =>
      cases fuel with
      | zero => cases merged
      | succ fuel =>
          rw [kheapMergeBackward, blocks.node] at merged
          rw [← Except.ok.inj merged]
          exact ⟨rfl, rfl⟩
  | append_singleton left first inductionHypothesis =>
      obtain ⟨before, beforeInfo⟩ := first
      have blocks₁ : Blocks h (left ++ (before, beforeInfo) :: (next, info) :: right) := by simpa using blocks
      have last : lastPtr none (left ++ [(before, beforeInfo)]) = some before := lastPtr_append
      cases fuel with
      | zero => cases merged
      | succ fuel =>
          rw [kheapMergeBackward, blocks.node] at merged
          simp only [last, blocks₁.node] at merged
          cases stops : beforeInfo.used with
          | true =>
              rw [stops, if_pos rfl] at merged
              rw [← Except.ok.inj merged]
              exact ⟨rfl, rfl⟩
          | false =>
              rw [stops, if_neg Bool.false_ne_true] at merged
              have apart₁ : ∀ other ∈ (left ++ (before, beforeInfo) :: (next, info) :: right).map Prod.fst,
                  HeaderApart other addr := by simpa using apart
              apply (blocks₁.absorb_status apart₁).trans
              apply inductionHypothesis (blocks₁.absorb stops free).1 stops ?_ merged
              intro other member
              apply apart₁ other
              simp only [List.map_append, List.map_cons, List.mem_append, List.mem_cons] at member ⊢
              tauto

/-- After the release of a block its header is still marked as a free block, also when it stands inside a merged one. -/
theorem Blocks.mergeFreeBlocks_status (blocks : Blocks h (left ++ (addr, info) :: right)) (free : info.used = false)
    (merged : kheapMergeFreeBlocks h addr = .ok h') : StatusSame h.mem h'.mem addr := by
  have apart : ∀ other ∈ (left ++ (addr, info) :: right).map Prod.fst, HeaderApart other addr := by
    intro other member
    by_cases same : addr = other
    · exact Or.inl same
    · exact Or.inr (tiles_header_apart blocks.tiles (by simp) member same)
  have length := blocks.length_le
  rw [List.length_append, List.length_cons] at length
  obtain ⟨h₁, info₁, right', forward, blocks₁, free₁, suffix, _⟩ :=
    blocks.mergeForward free (show right.length < heapSize by omega)
  rw [kheapMergeFreeBlocks, forward, Result.ok_bind] at merged
  apply (blocks.mergeForward_status free apart forward).trans
  apply blocks₁.mergeBackward_status free₁ ?_ merged
  intro other member
  apply apart other
  rw [List.map_append, List.map_cons, List.mem_append, List.mem_cons] at member ⊢
  exact member.imp_right (Or.imp_right fun later => (suffix.map Prod.fst).subset later)

/-- `kfree` of a used block releases it and merges it with its free neighbours. -/
theorem kfree_used {ptr : Nat} (magic : (blockAt h.mem (sub64 ptr blockHeader)).value.magic = blockMagic)
    (used : (blockAt h.mem (sub64 ptr blockHeader)).value.used = true) :
    kfree h (some ptr) =
      kheapMergeFreeBlocks (kfreeRelease h (sub64 ptr blockHeader)) (sub64 ptr blockHeader) := by
  rw [kfree]
  rw [if_neg (not_not.mpr magic), used, Bool.not_true, if_neg Bool.false_ne_true]

/-- `kfree` of a freed block returns at its flag. -/
theorem kfree_unused {ptr : Nat} (free : (blockAt h.mem (sub64 ptr blockHeader)).value.used = false) :
    kfree h (some ptr) = .ok h := by
  rw [kfree]
  split
  · rfl
  · rw [free, Bool.not_false, if_pos rfl]

/-- A second `kfree` of the same pointer changes nothing. -/
theorem Blocks.kfree_twice (blocks : Blocks h list) (coalesced : Coalesced (blockPieces list))
    (used : UsedIn list (addr, info)) : ∃ h', Mem.kfree h (some (addr + blockHeader)) = .ok h' ∧
      Mem.kfree h' (some (addr + blockHeader)) = .ok h' := by
  obtain ⟨h', list', freed, _⟩ := blocks.kfree coalesced used
  refine ⟨h', freed, ?_⟩
  have inside := blocks.inside used.1
  have blk : sub64 (addr + blockHeader) blockHeader = addr := by
    simp only [heapStart, heapSize] at inside
    rw [sub64_of_le (Nat.le_add_left _ _) (by omega), Nat.add_sub_cancel]
  have header := blocks.size_eq used.1
  have magic := (blocks.info _ used.1).1
  obtain ⟨left, right, split⟩ := List.append_of_mem used.1
  rw [split] at blocks
  obtain ⟨released, _⟩ := blocks.release used.2
  rw [kfree_used (by rw [blk, header]; exact magic) (by rw [blk, header]; exact used.2), blk] at freed
  apply kfree_unused
  rw [blk, (released.mergeFreeBlocks_status rfl freed).2, released.node]

/-- A call whose own stores stay in its block keeps the invariant. -/
theorem KheapInv.serve (inv : KheapInv s list) (permitted : s.permitted call = true) (bounded : call.bounded = true)
    (served : s.serve call = .ok s') : ∃ list', KheapInv s' list' := by
  have granted (size : Nat) (granted : s.serve (.op (.kmalloc size)) = .ok s') : ∃ list', KheapInv s' list' := by
    obtain ⟨result, s'', returned, holds⟩ := inv.call_kmalloc size
    rw [KheapState.serve, KheapState.answer, returned] at granted
    rw [← Except.ok.inj granted]
    exact holds.1
  have fitting (fits : s.fits call = true) : ∃ list', KheapInv s' list' := by
    obtain ⟨result, s'', answered, inv', _⟩ := inv.answer permitted fits
    rw [KheapState.serve, answered] at served
    rw [← Except.ok.inj served]
    exact inv'
  cases call with
  | op op =>
      cases op with
      | kmalloc size => exact granted size served
      | kfree ptr => exact fitting rfl
      | krealloc ptr size => exact fitting (by rw [KheapState.fits, Bool.or_eq_true]; exact Or.inl bounded)
      | write ptr offset byte => exact fitting rfl
  | kcalloc count size =>
      rcases inv.kcalloc with ⟨none, _⟩ | ⟨_, _, s₁, list₁, addr, info, inv₁, used, size₁, some⟩
      · rw [KheapState.serve, none] at served
        rw [← Except.ok.inj served]
        exact ⟨list, inv⟩
      · rw [KheapState.serve, some] at served
        rw [← Except.ok.inj served]
        exact ⟨list₁, inv₁.cleared used ((le_rounded (of_decide_eq_true bounded)).trans size₁)⟩
  | kreallocNull size => exact granted size served

end

/-- In every reachable heap a second `kfree` of an owned pointer leaves the heap of the first one, with its blocks, its
headers and its counters. -/
theorem kfree_kfree {mem : Bytes} {calls : List KheapCall} {s : KheapState} {ptr : Nat}
    (run : Run KheapState.serve (fun s call => s.permitted call = true ∧ call.bounded = true) ⟨kheapInit mem, ∅⟩ calls s)
    (live : ptr ∈ s.live) : ∃ h, kfree s.heap (some ptr) = .ok h ∧ kfree h (some ptr) = .ok h := by
  obtain ⟨list, inv⟩ : ∃ list, KheapInv s list := by
    refine run.invariant (fun s => ∃ list, KheapInv s list) ?_ ⟨_, kheapInit_inv mem⟩
    rintro before call after ⟨list, inv⟩ allowed served
    exact inv.serve allowed.1 allowed.2 served
  obtain ⟨addr, info, used, isPtr, _⟩ := inv.owned live
  rw [isPtr]
  exact inv.blocks.kfree_twice inv.coalesced used

/-- The freed block stands between two free ones. -/
theorem kfree_kfree_between : ∃ s h, Run KheapState.serve (fun s call => s.permitted call = true ∧ call.bounded = true)
      ⟨kheapInit fun _ => 0, ∅⟩ [.op (.kmalloc 24), .kcalloc 2 8, .op (.kfree (heapStart + blockHeader))] s ∧
    kfree s.heap (some (heapStart + 104)) = .ok h ∧ h.stats.totalBlocks = 1 ∧ kfree h (some (heapStart + 104)) = .ok h := by
  have checked : (exec KheapState.serve (fun s call => s.permitted call && call.bounded)
      [.op (.kmalloc 24), .kcalloc 2 8, .op (.kfree (heapStart + blockHeader))] ⟨kheapInit fun _ => 0, ∅⟩).any (fun s =>
        decide (heapStart + 104 ∈ s.live) && (match kfree s.heap (some (heapStart + 104)) with
          | .ok h => h.stats.totalBlocks == 1
          | .error _ => false)) = true := by decide +kernel
  obtain ⟨s, run, shown⟩ := Run.exists_of_check checked
  simp only [Bool.and_eq_true, decide_eq_true_eq] at shown
  have permitted := run.mono fun s call => (Bool.and_eq_true _ _).mp
  obtain ⟨h, freed, again⟩ := kfree_kfree permitted shown.1
  have single := shown.2
  rw [freed] at single
  exact ⟨s, h, permitted, freed, beq_iff_eq.mp single, again⟩

end DoccrOS.Mem
