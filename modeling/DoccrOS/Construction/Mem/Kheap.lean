import DoccrOS.Construction.Types
import DoccrOS.Lib.Bytes
import DoccrOS.Lib.Linked

namespace DoccrOS.Mem
open Lib

/-- This is `HEAP_START`. -/
def heapStart : Nat := 0xFFFF880000000000

/-- This is `HEAP_SIZE`. -/
def heapSize : Nat := 33554432

/-- A pointer that `kmalloc` returns is an offset into the kernel heap. -/
structure HeapPtr where
  offset : Nat
  inside : offset < heapSize
deriving DecidableEq

instance : Fintype HeapPtr :=
  Fintype.ofEquiv (Fin heapSize)
    ⟨fun index => ⟨index.val, index.isLt⟩, fun ptr => ⟨ptr.offset, ptr.inside⟩, fun _ => rfl, fun _ => rfl⟩

theorem heapPtr_card : Fintype.card HeapPtr = heapSize := by
  have equiv : HeapPtr ≃ Fin heapSize :=
    ⟨fun ptr => ⟨ptr.offset, ptr.inside⟩, fun index => ⟨index.val, index.isLt⟩, fun _ => rfl, fun _ => rfl⟩
  rw [Fintype.card_congr equiv, Fintype.card_fin]

/-- The record at an offset of the kernel heap. -/
def heapPtr (offset : Nat) : HeapPtr := ⟨offset % heapSize, Nat.mod_lt _ (by decide)⟩

/-- This is `BLOCK_MAGIC`. -/
def blockMagic : Nat := 0xDEADBEEF

/-- This is `sizeof(kheap_block_t)`. -/
def blockHeader : Nat := 40

/-- The fields of `kheap_block_t` other than its links. -/
structure BlockInfo where
  magic : Nat
  size : Nat
  used : Bool

/-- This is `kheap_block_t`. -/
abbrev KheapBlock := Node Nat BlockInfo

/-- This is `kheap_stats`. -/
structure KheapStats where
  totalSize : Nat
  usedSize : Nat
  freeSize : Nat
  totalBlocks : Nat
  usedBlocks : Nat

/-- The memory, `kheap_start` and `kheap_stats`. The headers of the blocks stand in the memory. -/
structure Kheap where
  mem : Bytes
  start : Option Nat
  stats : KheapStats

/-- The address `0` is the null pointer. -/
def toPtr (addr : Nat) : Option Nat := if addr = 0 then none else some addr

def ofPtr : Option Nat → Nat
  | none => 0
  | some addr => addr

/-- The header at an address: `magic` at 0, `size` at 8, `next` at 16, `prev` at 24 and `used` at 32. -/
def blockAt (mem : Bytes) (addr : Nat) : KheapBlock :=
  ⟨toPtr (load mem 8 (addr + 24)), toPtr (load mem 8 (addr + 16)),
    ⟨load mem 4 (addr + 0), load mem 8 (addr + 8), load mem 1 (addr + 32) != 0⟩⟩

def setMagic (mem : Bytes) (addr magic : Nat) : Bytes := store mem 4 (addr + 0) magic
def setSize (mem : Bytes) (addr size : Nat) : Bytes := store mem 8 (addr + 8) size
def setNext (mem : Bytes) (addr : Nat) (next : Option Nat) : Bytes := store mem 8 (addr + 16) (ofPtr next)
def setPrev (mem : Bytes) (addr : Nat) (prev : Option Nat) : Bytes := store mem 8 (addr + 24) (ofPtr prev)
def setUsed (mem : Bytes) (addr : Nat) (used : Bool) : Bytes := store mem 1 (addr + 32) used.toNat

/-- The store `if (target) target->prev = prev`. -/
def relink (mem : Bytes) (target : Option Nat) (prev : Nat) : Bytes :=
  match target with
  | none => mem
  | some addr => setPrev mem addr (some prev)

/-- The body of both loops of `kheap_merge_free_blocks`: a block takes in its free successor. -/
def kheapAbsorb (h : Kheap) (current next : Nat) : Kheap :=
  let size := wrap64 ((blockAt h.mem current).value.size + (blockHeader + (blockAt h.mem next).value.size))
  let after := (blockAt h.mem next).next
  { h with
    mem := relink (setNext (setSize h.mem current size) current after) after current
    stats := { h.stats with
      totalBlocks := sub64 h.stats.totalBlocks 1
      freeSize := wrap64 (h.stats.freeSize + blockHeader) } }

/-- The first loop of `kheap_merge_free_blocks`. -/
def kheapMergeForward : (fuel : Nat) → Kheap → (current : Nat) → Result Kheap
  | 0, _, _ => .error .hang
  | fuel + 1, h, current =>
    match (blockAt h.mem current).next with
    | none => .ok h
    | some next =>
      if (blockAt h.mem next).value.used then .ok h else kheapMergeForward fuel (kheapAbsorb h current next) current

/-- The second loop of `kheap_merge_free_blocks`. -/
def kheapMergeBackward : (fuel : Nat) → Kheap → (current : Nat) → Result Kheap
  | 0, _, _ => .error .hang
  | fuel + 1, h, current =>
    match (blockAt h.mem current).prev with
    | none => .ok h
    | some prev =>
      if (blockAt h.mem prev).value.used then .ok h else kheapMergeBackward fuel (kheapAbsorb h prev current) prev

def kheapMergeFreeBlocks (h : Kheap) (block : Nat) : Result Kheap := do
  let h ← kheapMergeForward heapSize h block
  kheapMergeBackward heapSize h block

/-- The memory has arbitrary contents before. -/
def kheapInit (mem : Bytes) : Kheap :=
  let size := heapSize - blockHeader
  let mem := setMagic mem heapStart blockMagic
  let mem := setSize mem heapStart size
  let mem := setUsed mem heapStart false
  let mem := setNext mem heapStart none
  let mem := setPrev mem heapStart none
  ⟨mem, some heapStart, ⟨heapSize, 0, size, 1, 0⟩⟩

/-- The branch of `kmalloc` that cuts the rest of a block off. -/
def kmallocSplit (h : Kheap) (bestFit size : Nat) : Kheap :=
  let newBlock := wrap64 (bestFit + blockHeader + size)
  let best := blockAt h.mem bestFit
  let mem := setMagic h.mem newBlock blockMagic
  let mem := setSize mem newBlock (sub64 (sub64 best.value.size size) blockHeader)
  let mem := setUsed mem newBlock false
  let mem := setNext mem newBlock best.next
  let mem := setPrev mem newBlock (some bestFit)
  let mem := relink mem best.next newBlock
  let mem := setSize mem bestFit size
  { h with
    mem := setNext mem bestFit (some newBlock)
    stats := { h.stats with
      totalBlocks := wrap64 (h.stats.totalBlocks + 1)
      freeSize := sub64 h.stats.freeSize blockHeader } }

/-- The end of `kmalloc` that marks a block used. -/
def kmallocUse (h : Kheap) (bestFit : Nat) : Kheap :=
  let mem := setUsed h.mem bestFit true
  let size := (blockAt mem bestFit).value.size
  { h with
    mem := mem
    stats := { h.stats with
      usedSize := wrap64 (h.stats.usedSize + size)
      freeSize := sub64 h.stats.freeSize size
      usedBlocks := wrap64 (h.stats.usedBlocks + 1) } }

/-- The test of the search loop of `kmalloc`. -/
def kmallocFits (size : Nat) (block : BlockInfo) : Bool := !block.used && decide (block.size ≥ size)

def kmalloc (h : Kheap) (size : Nat) : Result (Option Nat × Kheap) :=
  if size = 0 then .ok (none, h)
  else
    let size := wrap64 (size + 7) - wrap64 (size + 7) % 8
    match seek (fun addr => some (blockAt h.mem addr)) (kmallocFits size) heapSize h.start with
    | none => .error .hang
    | some none => .ok (none, h)
    | some (some bestFit) =>
      let cuts := decide ((blockAt h.mem bestFit).value.size ≥ wrap64 (size + blockHeader + 16))
      let h := if cuts then kmallocSplit h bestFit size else h
      .ok (some (wrap64 (bestFit + blockHeader)), kmallocUse h bestFit)

/-- The part of `kfree` that marks a block free. -/
def kfreeRelease (h : Kheap) (blk : Nat) : Kheap :=
  let mem := setUsed h.mem blk false
  let size := (blockAt mem blk).value.size
  { h with
    mem := mem
    stats := { h.stats with
      usedSize := sub64 h.stats.usedSize size
      freeSize := wrap64 (h.stats.freeSize + size)
      usedBlocks := sub64 h.stats.usedBlocks 1 } }

def kfree (h : Kheap) : Option Nat → Result Kheap
  | none => .ok h
  | some ptr =>
    let blk := sub64 ptr blockHeader
    if (blockAt h.mem blk).value.magic ≠ blockMagic then .ok h
    else if !(blockAt h.mem blk).value.used then .ok h
    else kheapMergeFreeBlocks (kfreeRelease h blk) blk

def kcalloc (h : Kheap) (count size : Nat) : Result (Option Nat × Kheap) := do
  let total := wrap64 (count * size)
  let (ptr, h) ← kmalloc h total
  match ptr with
  | none => return (none, h)
  | some ptr => return (some ptr, { h with mem := fillBytes h.mem ptr 0 total })

def krealloc (h : Kheap) (ptr : Option Nat) (size : Nat) : Result (Option Nat × Kheap) :=
  match ptr with
  | none => kmalloc h size
  | some ptr =>
    if size = 0 then do
      let h ← kfree h (some ptr)
      return (none, h)
    else
      let blk := sub64 ptr blockHeader
      if (blockAt h.mem blk).value.magic ≠ blockMagic then .ok (none, h)
      else if size ≤ (blockAt h.mem blk).value.size then .ok (some ptr, h)
      else do
        let (ptrNew, h) ← kmalloc h size
        match ptrNew with
        | none => return (none, h)
        | some new =>
          let h := { h with mem := copyBytes h.mem new ptr (blockAt h.mem blk).value.size }
          let h ← kfree h (some ptr)
          return (some new, h)

/-- The heap and the pointers that its callers own. -/
structure KheapState where
  heap : Kheap
  live : Finset Nat

/-- A call of a heap function, or a store of an owner to its payload. -/
inductive KheapOp where
  | kmalloc (size : Nat)
  | kfree (ptr : Nat)
  | krealloc (ptr size : Nat)
  | write (ptr offset : Nat) (byte : BitVec 8)

/-- The size of the block below a pointer. -/
def KheapState.blockSize (s : KheapState) (ptr : Nat) : Nat := (blockAt s.heap.mem (ptr - blockHeader)).value.size

/-- The callers pass 64-bit sizes and pointers that they own, and they store inside their payloads. -/
def KheapState.allowed (s : KheapState) : KheapOp → Bool
  | .kmalloc size => decide (size < 2 ^ 64)
  | .kfree ptr => decide (ptr ∈ s.live)
  | .krealloc ptr size => decide (ptr ∈ s.live) && decide (size ≤ 2 ^ 64 - 8)
  | .write ptr offset _ => decide (ptr ∈ s.live) && decide (offset < s.blockSize ptr)

/-- The returned pointer, if any, and the state after a call. -/
def KheapState.call (s : KheapState) : KheapOp → Result (Option Nat × KheapState)
  | .kmalloc size => do
    let (ptr, heap) ← Mem.kmalloc s.heap size
    return (ptr, ⟨heap, s.live ∪ ptr.toFinset⟩)
  | .kfree ptr => do
    let heap ← Mem.kfree s.heap (some ptr)
    return (none, ⟨heap, s.live.erase ptr⟩)
  | .krealloc ptr size => do
    let (new, heap) ← Mem.krealloc s.heap (some ptr) size
    let live := if new.isSome || size == 0 then s.live.erase ptr else s.live
    return (new, ⟨heap, live ∪ new.toFinset⟩)
  | .write ptr offset byte =>
    .ok (none, { s with heap := { s.heap with mem := Function.update s.heap.mem (ptr + offset) byte } })

def KheapState.step (s : KheapState) (op : KheapOp) : Result KheapState := (s.call op).map Prod.snd

/-- A call of any heap function. -/
inductive KheapCall where
  | op (op : KheapOp)
  | kcalloc (count size : Nat)
  | kreallocNull (size : Nat)

/-- The callers pass any 64-bit sizes. -/
def KheapState.permitted (s : KheapState) : KheapCall → Bool
  | .op (.krealloc ptr size) => decide (ptr ∈ s.live) && decide (size < 2 ^ 64)
  | .op op => s.allowed op
  | .kcalloc count size => decide (count < 2 ^ 64) && decide (size < 2 ^ 64)
  | .kreallocNull size => decide (size < 2 ^ 64)

def KheapState.answer (s : KheapState) : KheapCall → Result (Option Nat × KheapState)
  | .op op => s.call op
  | .kcalloc count size => do
    let (ptr, heap) ← Mem.kcalloc s.heap count size
    return (ptr, ⟨heap, s.live ∪ ptr.toFinset⟩)
  | .kreallocNull size => do
    let (ptr, heap) ← Mem.krealloc s.heap none size
    return (ptr, ⟨heap, s.live ∪ ptr.toFinset⟩)

def KheapState.serve (s : KheapState) (call : KheapCall) : Result KheapState := (s.answer call).map Prod.snd

end DoccrOS.Mem
