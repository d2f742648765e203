import DoccrOS.Construction.Mem.Kheap
import DoccrOS.Construction.Mem.Vmm

namespace DoccrOS.Mem
open Lib

/-- This is `VMM_BASE`. -/
def vmmBase : Nat := 0xFFFF900000000000

/-- This is `VMM_LIMIT`. -/
def vmmLimit : Nat := 0xFFFFF00000000000

/-- This is `VMM_REGION_FREE`. -/
def vmmRegionFree : BitVec 32 := 0x00

/-- The region nodes that `kmalloc` handed out, `vmm_head` and the counters of `vmm_get_stats`. -/
structure VmmRanges where
  nodes : HeapPtr → Option (Node HeapPtr Region)
  head : Option HeapPtr
  total : Nat
  used : Nat
  freeBytes : Nat
  regions : Nat
  usedRegions : Nat

/-- A store to a region node. -/
def VmmRanges.set (v : VmmRanges) (ptr : HeapPtr) (node : Node HeapPtr Region) : VmmRanges :=
  { v with nodes := Function.update v.nodes ptr (some node) }

/-- The store `if (target) target->prev = prev`; a dangling target is not valid. -/
def VmmRanges.relink (v : VmmRanges) (target : Option HeapPtr) (prev : HeapPtr) : Result VmmRanges :=
  match target with
  | none => .ok v
  | some ptr =>
    match v.nodes ptr with
    | none => .error .invalid
    | some node => .ok (v.set ptr { node with prev := some prev })

def regionFree (v : VmmRanges) (ptr : HeapPtr) : VmmRanges :=
  { v with nodes := Function.update v.nodes ptr none }

/-- The tail of `merge_with_next` for two neighbours. -/
def mergeNodes (v : VmmRanges) (r nx : HeapPtr) (node next : Node HeapPtr Region) : Result VmmRanges :=
  if hasFlag node.value.flags vmmRegionUsed || hasFlag next.value.flags vmmRegionUsed then .ok v
  else if wrap64 (node.value.base + node.value.size) ≠ next.value.base then .ok v
  else do
    let size := wrap64 (node.value.size + next.value.size)
    let v := v.set r { node with next := next.next, value := { node.value with size := size } }
    let v ← v.relink next.next r
    let v := regionFree v nx
    return { v with regions := sub64 v.regions 1 }

def mergeWithNext (v : VmmRanges) (r : HeapPtr) : Result VmmRanges :=
  match v.nodes r with
  | none => .error .invalid
  | some node =>
    match node.next with
    | none => .ok v
    | some nx =>
      match v.nodes nx with
      | none => .error .invalid
      | some next => mergeNodes v r nx node next

/-- The loop of `vmm_init` that frees the nodes of an old list. -/
def vmmInitFree : (fuel : Nat) → VmmRanges → (cur : Option HeapPtr) → Result VmmRanges
  | _, v, none => .ok v
  | 0, _, some _ => .error .hang
  | fuel + 1, v, some ptr =>
    match v.nodes ptr with
    | none => .error .invalid
    | some node => vmmInitFree fuel (regionFree v ptr) node.next

/-- The part of `vmm_init` that sets up the region list. The argument `node` is the result of `region_alloc`, which returns
no node that is in use. -/
def vmmInit (v : VmmRanges) (node : Option HeapPtr) : Result VmmRanges := do
  let v ← vmmInitFree heapSize v v.head
  let total := vmmLimit - vmmBase
  match node with
  | none => .error (.panic "VMM: failed to allocate initial region node")
  | some ptr =>
    if (v.nodes ptr).isSome then .error .invalid
    else
      let v := v.set ptr ⟨none, none, ⟨vmmBase, total, vmmRegionFree⟩⟩
      return ⟨v.nodes, some ptr, total, 0, total, 1, 0⟩

/-- The end of `vmm_alloc` that marks a region used. -/
def vmmAllocUse (v : VmmRanges) (cur : HeapPtr) (node : Node HeapPtr Region) (size : Nat) (flags : BitVec 32) : VmmRanges :=
  let v := v.set cur { node with value := { node.value with size := size, flags := vmmRegionUsed ||| flags } }
  { v with
    used := wrap64 (v.used + size)
    freeBytes := sub64 v.freeBytes size
    usedRegions := wrap64 (v.usedRegions + 1) }

/-- The branch of `vmm_alloc` that splits a region. -/
def vmmAllocSplit (v : VmmRanges) (cur split : HeapPtr) (node : Node HeapPtr Region) (size : Nat) : Result VmmRanges := do
  let leftover := node.value.size - size
  let v := v.set split ⟨some cur, node.next, ⟨wrap64 (node.value.base + size), leftover, vmmRegionFree⟩⟩
  let v ← v.relink node.next split
  let v := v.set cur { node with next := some split }
  return { v with regions := wrap64 (v.regions + 1) }

/-- The test of the loop in `vmm_alloc`. -/
def vmmAllocFits (size : Nat) (region : Region) : Bool :=
  !hasFlag region.flags vmmRegionUsed && decide (region.size ≥ size)

/-- The argument `split` is the result of `region_alloc`, if it is called. -/
def vmmAlloc (v : VmmRanges) (size : Nat) (flags : BitVec 32) (split : Option HeapPtr) : Result (Nat × VmmRanges) :=
  if size = 0 then .ok (0, v)
  else
    let size := pageAlignUp size
    match seek v.nodes (vmmAllocFits size) heapSize v.head with
    | none => .error .hang
    | some none => .ok (0, v)
    | some (some cur) =>
      match v.nodes cur with
      | none => .error .invalid
      | some node =>
        if node.value.size - size ≥ 0x1000 then
          match split with
          | none => .ok (0, v)
          | some split =>
            if (v.nodes split).isSome then .error .invalid
            else do
              let v ← vmmAllocSplit v cur split node size
              return (node.value.base, vmmAllocUse v cur { node with next := some split } size flags)
        else .ok (node.value.base, vmmAllocUse v cur node size flags)

/-- The part of `vmm_free` that marks a region free. -/
def vmmFreeRelease (v : VmmRanges) (cur : HeapPtr) (node : Node HeapPtr Region) : VmmRanges :=
  let v : VmmRanges := { v with
    used := sub64 v.used node.value.size
    freeBytes := wrap64 (v.freeBytes + node.value.size)
    usedRegions := sub64 v.usedRegions 1 }
  v.set cur { node with value := { node.value with flags := vmmRegionFree } }

def vmmFree (v : VmmRanges) (base : Nat) : Result VmmRanges :=
  if base = 0 then .ok v
  else
    match seek v.nodes (fun region => region.base == base && hasFlag region.flags vmmRegionUsed) heapSize v.head with
    | none => .error .hang
    | some none => .ok v
    | some (some cur) =>
      match v.nodes cur with
      | none => .error .invalid
      | some node => do
        let v ← mergeWithNext (vmmFreeRelease v cur node) cur
        match (v.nodes cur).bind (·.prev) with
        | none => return v
        | some prev => mergeWithNext v prev

/-- This is `vmm_stats_t`. -/
structure VmmStats where
  totalVirtual : Nat
  usedVirtual : Nat
  freeVirtual : Nat
  regionCount : Nat
  usedRegionCount : Nat

def vmmGetStats (v : VmmRanges) : VmmStats := ⟨v.total, v.used, v.freeBytes, v.regions, v.usedRegions⟩

/-- A call of the range allocator with the outcome of its `region_alloc`. -/
inductive RangeOp where
  | init (node : Option HeapPtr)
  | alloc (size : Nat) (flags : BitVec 32) (split : Option HeapPtr)
  | free (base : Nat)

def VmmRanges.step (v : VmmRanges) : RangeOp → Result VmmRanges
  | .init node => vmmInit v node
  | .alloc size flags split => (vmmAlloc v size flags split).map Prod.snd
  | .free base => vmmFree v base

/-- `kmalloc` hands out no node that is in use. -/
def VmmRanges.allowed (v : VmmRanges) : RangeOp → Bool
  | .alloc _ _ split => split.all fun new => (v.nodes new).isNone
  | _ => true

/-- The calls after `vmm_init`. -/
def VmmRanges.allocates (v : VmmRanges) : RangeOp → Bool
  | .init _ => false
  | op => v.allowed op

/-- The static variables before the first call. -/
def vmmBoot : VmmRanges := ⟨fun _ => none, none, 0, 0, 0, 0, 0⟩

end DoccrOS.Mem
