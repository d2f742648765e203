import DoccrOS.Construction.Mem.Kheap

namespace DoccrOS.User
open Lib
open Mem (toPtr ofPtr)

/-- This is `ARENA_SIZE`. -/
def arenaSize : Nat := 8 * 1024 * 1024

/-- This is `MALLOC_ALIGNMENT`. -/
def mallocAlignment : Nat := 16

/-- This is `sizeof(block_t)`. -/
def sizeofBlock : Nat := 24

/-- This is `block_t`. -/
structure Block where
  size : Nat
  next : Option Nat
  free : Bool

/-- The memory and the static variable `blocks`. The headers of the blocks stand in the memory. -/
structure Heap where
  mem : Bytes
  blocks : Option Nat

/-- The header at an address: `size` at 0, `next` at 8 and `free` at 16. -/
def blockAt (mem : Bytes) (addr : Nat) : Block :=
  ⟨load mem 8 (addr + 0), toPtr (load mem 8 (addr + 8)), load mem 4 (addr + 16) != 0⟩

def setSize (mem : Bytes) (addr size : Nat) : Bytes := store mem 8 (addr + 0) size
def setNext (mem : Bytes) (addr : Nat) (next : Option Nat) : Bytes := store mem 8 (addr + 8) (ofPtr next)
def setFree (mem : Bytes) (addr : Nat) (free : Bool) : Bytes := store mem 4 (addr + 16) free.toNat

def alignSize (size : Nat) : Nat :=
  wrap64 (size + mallocAlignment - 1) - wrap64 (size + mallocAlignment - 1) % mallocAlignment

/-- The argument `mmap` is the result of `mmap` for the arena, `none` for `MAP_FAILED`. -/
def heapInit (h : Heap) (mmap : Option Nat) : Bool × Heap :=
  match h.blocks with
  | some _ => (true, h)
  | none =>
    match mmap with
    | none => (false, h)
    | some arena =>
      let mem := setSize h.mem arena (arenaSize - sizeofBlock)
      let mem := setNext mem arena none
      let mem := setFree mem arena true
      (true, ⟨mem, some arena⟩)

def splitBlock (mem : Bytes) (block size : Nat) : Bytes :=
  let remainder := wrap64 (block + sizeofBlock + size)
  let mem := setSize mem remainder (sub64 (sub64 (blockAt mem block).size size) sizeofBlock)
  let mem := setNext mem remainder (blockAt mem block).next
  let mem := setFree mem remainder true
  let mem := setNext mem block (some remainder)
  setSize mem block size

/-- The loop of `malloc`: the first free block that is large enough. -/
def mallocSearch (mem : Bytes) (size : Nat) : (fuel : Nat) → (block : Option Nat) → Option (Option Nat)
  | _, none => some none
  | 0, some _ => none
  | fuel + 1, some block =>
    if !(blockAt mem block).free || decide ((blockAt mem block).size < size) then
      mallocSearch mem size fuel (blockAt mem block).next
    else some (some block)

def malloc (h : Heap) (size : Nat) (mmap : Option Nat) : Result (Option Nat × Heap) :=
  if size = 0 then .ok (none, h)
  else
    match heapInit h mmap with
    | (false, h) => .ok (none, h)
    | (true, h) =>
      let size := alignSize size
      match mallocSearch h.mem size arenaSize h.blocks with
      | none => .error .hang
      | some none => .ok (none, h)
      | some (some block) =>
        let splits := decide ((blockAt h.mem block).size ≥ wrap64 (size + sizeofBlock + mallocAlignment))
        let mem := if splits then splitBlock h.mem block size else h.mem
        .ok (some (wrap64 (block + sizeofBlock)), { h with mem := setFree mem block false })

/-- The body of the loop of `free`: a block takes in its successor. -/
def absorb (mem : Bytes) (block next : Nat) : Bytes :=
  let mem := setSize mem block (wrap64 ((blockAt mem block).size + (sizeofBlock + (blockAt mem next).size)))
  setNext mem block (blockAt mem next).next

/-- The loop of `free`. -/
def coalesce : (fuel : Nat) → (mem : Bytes) → (block : Option Nat) → Result Bytes
  | 0, _, _ => .error .hang
  | _ + 1, mem, none => .ok mem
  | fuel + 1, mem, some block =>
    match (blockAt mem block).next with
    | none => .ok mem
    | some next =>
      if (blockAt mem block).free && (blockAt mem next).free then coalesce fuel (absorb mem block next) (some block)
      else coalesce fuel mem (some next)

def free (h : Heap) : Option Nat → Result Heap
  | none => .ok h
  | some pointer => do
    let mem ← coalesce arenaSize (setFree h.mem (sub64 pointer sizeofBlock) true) h.blocks
    return { h with mem := mem }

def calloc (h : Heap) (count size : Nat) (mmap : Option Nat) : Result (Option Nat × Heap) :=
  if size ≠ 0 ∧ count > (2 ^ 64 - 1) / size then .ok (none, h)
  else do
    let total := wrap64 (count * size)
    let (pointer, h) ← malloc h total mmap
    match pointer with
    | none => return (none, h)
    | some pointer => return (some pointer, { h with mem := fillBytes h.mem pointer 0 total })

def realloc (h : Heap) (pointer : Option Nat) (size : Nat) (mmap : Option Nat) : Result (Option Nat × Heap) :=
  match pointer with
  | none => malloc h size mmap
  | some pointer =>
    if size = 0 then do
      let h ← free h (some pointer)
      return (none, h)
    else
      let oldBlock := sub64 pointer sizeofBlock
      if (blockAt h.mem oldBlock).size ≥ size then .ok (some pointer, h)
      else do
        let (newPointer, h) ← malloc h size mmap
        match newPointer with
        | none => return (none, h)
        | some new =>
          let h := { h with mem := copyBytes h.mem new pointer (blockAt h.mem oldBlock).size }
          let h ← free h (some pointer)
          return (some new, h)

/-- The heap and the pointers that the program owns. -/
structure HeapState where
  heap : Heap
  live : Finset Nat

/-- A call of a heap function, or a store of the program to one of its payloads. -/
inductive HeapOp where
  | malloc (size : Nat) (mmap : Option Nat)
  | free (pointer : Nat)
  | realloc (pointer size : Nat) (mmap : Option Nat)
  | write (pointer offset : Nat) (byte : BitVec 8)

/-- The size of the block below a pointer. -/
def HeapState.blockSize (s : HeapState) (pointer : Nat) : Nat := (blockAt s.heap.mem (pointer - sizeofBlock)).size

/-- The program passes 64-bit sizes and pointers that it owns, and it stores inside its payloads. -/
def HeapState.allowed (s : HeapState) : HeapOp → Bool
  | .malloc size _ => decide (size < 2 ^ 64)
  | .free pointer => decide (pointer ∈ s.live)
  | .realloc pointer size _ => decide (pointer ∈ s.live) && decide (size ≤ 2 ^ 64 - 16)
  | .write pointer offset _ => decide (pointer ∈ s.live) && decide (offset < s.blockSize pointer)

/-- The returned pointer, if any, and the state after a call. -/
def HeapState.call (s : HeapState) : HeapOp → Result (Option Nat × HeapState)
  | .malloc size mmap => do
    let (pointer, heap) ← User.malloc s.heap size mmap
    return (pointer, ⟨heap, s.live ∪ pointer.toFinset⟩)
  | .free pointer => do
    let heap ← User.free s.heap (some pointer)
    return (none, ⟨heap, s.live.erase pointer⟩)
  | .realloc pointer size mmap => do
    let (new, heap) ← User.realloc s.heap (some pointer) size mmap
    let live := if new.isSome || size == 0 then s.live.erase pointer else s.live
    return (new, ⟨heap, live ∪ new.toFinset⟩)
  | .write pointer offset byte =>
    .ok (none, { s with heap := { s.heap with mem := Function.update s.heap.mem (pointer + offset) byte } })

def HeapState.step (s : HeapState) (op : HeapOp) : Result HeapState := (s.call op).map Prod.snd

/-- A call of any heap function. -/
inductive HeapCall where
  | op (op : HeapOp)
  | calloc (count size : Nat) (mmap : Option Nat)
  | reallocNull (size : Nat) (mmap : Option Nat)

/-- `mmap` fails or returns page-aligned memory in the user half that does not start at address 0. -/
def mmapReturns (mmap : Option Nat) : Bool :=
  mmap.all fun arena => decide (0 < arena) && decide (arena + arenaSize ≤ 2 ^ 47) && decide (pageSize ∣ arena)

/-- The program passes any 64-bit sizes. -/
def HeapState.permitted (s : HeapState) : HeapCall → Bool
  | .op (.malloc size mmap) => decide (size < 2 ^ 64) && mmapReturns mmap
  | .op (.realloc pointer size mmap) => decide (pointer ∈ s.live) && decide (size < 2 ^ 64) && mmapReturns mmap
  | .op op => s.allowed op
  | .calloc count size mmap => decide (count < 2 ^ 64) && decide (size < 2 ^ 64) && mmapReturns mmap
  | .reallocNull size mmap => decide (size < 2 ^ 64) && mmapReturns mmap

def HeapState.answer (s : HeapState) : HeapCall → Result (Option Nat × HeapState)
  | .op op => s.call op
  | .calloc count size mmap => do
    let (pointer, heap) ← User.calloc s.heap count size mmap
    return (pointer, ⟨heap, s.live ∪ pointer.toFinset⟩)
  | .reallocNull size mmap => do
    let (pointer, heap) ← User.realloc s.heap none size mmap
    return (pointer, ⟨heap, s.live ∪ pointer.toFinset⟩)

def HeapState.serve (s : HeapState) (call : HeapCall) : Result HeapState := (s.answer call).map Prod.snd

end DoccrOS.User
