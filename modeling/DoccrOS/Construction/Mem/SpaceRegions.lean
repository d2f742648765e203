import DoccrOS.Construction.Mem.Kheap
import DoccrOS.Construction.Mem.Vmm

namespace DoccrOS.Mem
open Lib

/-- A pointer to `kernel_space` or to a space record that `kmalloc` returned. -/
inductive SpacePtr where
  | kernel
  | heap (ptr : HeapPtr)
deriving DecidableEq

/-- This is `vmm_space_t` with the pointer to its first region node. -/
structure SpaceRecord where
  pml4Phys : Nat
  regions : Option HeapPtr
  regionCount : Nat
  usedVirtual : Nat
deriving DecidableEq

/-- The machine, the region nodes that `kmalloc` handed out and the live space records. -/
structure SpaceLists where
  machine : Machine
  nodes : HeapPtr → Option (Node HeapPtr Region)
  spaces : SpacePtr → Option SpaceRecord

/-- The state after `vmm_init` set up `kernel_space`. -/
def spaceListsInit (m : Machine) : SpaceLists :=
  ⟨m, fun _ => none, fun space => if space = .kernel then some ⟨m.kernelPml4, none, 0, 0⟩ else none⟩

/-- A store to a region node. -/
def SpaceLists.setNode (s : SpaceLists) (ptr : HeapPtr) (node : Option (Node HeapPtr Region)) : SpaceLists :=
  { s with nodes := Function.update s.nodes ptr node }

/-- A store to a space record. -/
def SpaceLists.setSpace (s : SpaceLists) (space : SpacePtr) (record : Option SpaceRecord) : SpaceLists :=
  { s with spaces := Function.update s.spaces space record }

def SpaceLists.setMachine (s : SpaceLists) (m : Machine) : SpaceLists := { s with machine := m }

/-- The loads from a region node; a dangling pointer is not valid. -/
def SpaceLists.node (s : SpaceLists) (ptr : HeapPtr) : Result (Node HeapPtr Region) :=
  match s.nodes ptr with
  | some node => .ok node
  | none => .error .invalid

/-- The loads from a space record; a dangling pointer is not valid. -/
def SpaceLists.space (s : SpaceLists) (space : SpacePtr) : Result SpaceRecord :=
  match s.spaces space with
  | some record => .ok record
  | none => .error .invalid

/-- The store `if (prev) prev->next = next; else space->regions = next`. -/
def SpaceLists.linkBehind (s : SpaceLists) (space : SpacePtr) (prev next : Option HeapPtr) : Result SpaceLists :=
  match prev with
  | some ptr => do
    let node ← s.node ptr
    return s.setNode ptr (some { node with next := next })
  | none => do
    let record ← s.space space
    return s.setSpace space (some { record with regions := next })

/-- The store `if (next) next->prev = prev`. -/
def SpaceLists.linkAhead (s : SpaceLists) (next prev : Option HeapPtr) : Result SpaceLists :=
  match next with
  | some ptr => do
    let node ← s.node ptr
    return s.setNode ptr (some { node with prev := prev })
  | none => .ok s

/-- The loop of a sorted insert moves `prev` and `cur` past the regions with a smaller base. -/
def insertSeek (nodes : HeapPtr → Option (Node HeapPtr Region)) (base : Nat) :
    (fuel : Nat) → (prev cur : Option HeapPtr) → Result (Option HeapPtr × Option HeapPtr)
  | _, prev, none => .ok (prev, none)
  | 0, _, some _ => .error .hang
  | fuel + 1, prev, some ptr =>
    match nodes ptr with
    | none => .error .invalid
    | some node =>
      if node.value.base < base then insertSeek nodes base fuel (some ptr) node.next else .ok (prev, some ptr)

/-- The end of `vmm_space_alloc`, of `vmm_map_phys` and of the loop body of `vmm_clone_space`, which links a node in. -/
def SpaceLists.insertNode (s : SpaceLists) (space : SpacePtr) (node : HeapPtr) (region : Region) : Result SpaceLists := do
  let record ← s.space space
  let (prev, cur) ← insertSeek s.nodes region.base heapSize none record.regions
  let s := s.setNode node (some ⟨prev, cur, region⟩)
  let s ← s.linkBehind space prev (some node)
  let s ← s.linkAhead cur (some node)
  let record ← s.space space
  return s.setSpace space (some { record with
    regionCount := wrap64 (record.regionCount + 1)
    usedVirtual := wrap64 (record.usedVirtual + region.size) })

/-- The end of `vmm_space_free`, which takes a node out and frees it. -/
def SpaceLists.removeNode (s : SpaceLists) (space : SpacePtr) (cur : HeapPtr) (node : Node HeapPtr Region) :
    Result SpaceLists := do
  let record ← s.space space
  let s := s.setSpace space (some { record with
    usedVirtual := sub64 record.usedVirtual node.value.size
    regionCount := sub64 record.regionCount 1 })
  let s ← s.linkBehind space node.prev node.next
  let s ← s.linkAhead node.next node.prev
  return s.setNode cur none

/-- This is `vmm_space_create`; the argument is the result of its `kmalloc`. -/
def spaceCreateAt (s : SpaceLists) (ptr : Option HeapPtr) : Option SpacePtr × SpaceLists :=
  match ptr, vmmSpaceCreate s.machine ptr.isSome with
  | some ptr, (some space, m) =>
    (some (.heap ptr),
      (s.setMachine m).setSpace (.heap ptr) (some ⟨space.pml4Phys, none, space.regionCount, space.usedVirtual⟩))
  | _, (_, m) => (none, s.setMachine m)

/-- This is `vmm_space_alloc`; the argument `node` is the result of `region_alloc`. -/
def spaceAllocAt (s : SpaceLists) (space : SpacePtr) (vaddr pageCount : Nat) (flags : BitVec 32) (node : Option HeapPtr) :
    Result (Nat × SpaceLists) :=
  if pageCount = 0 then .ok (0, s)
  else
    let vaddr := pageAlignDown vaddr
    let size := wrap64 (pageCount * pageSize)
    match node with
    | none => .ok (0, s)
    | some node => do
      let record ← s.space space
      let (failed, m) ← vmmSpaceAllocPages record.pml4Phys vaddr (flagsToPte flags) pageCount 0 s.machine
      match failed with
      | some i => return (0, s.setMachine (vmmSpaceAllocUndo record.pml4Phys vaddr i m))
      | none =>
        let s ← (s.setMachine m).insertNode space node ⟨vaddr, size, vmmRegionUsed ||| flags⟩
        return (vaddr, s)

/-- This is `vmm_map_phys`; the argument `node` is the result of `region_alloc`. -/
def mapPhysAt (s : SpaceLists) (space : SpacePtr) (vaddr physAddr pageCount : Nat) (flags : BitVec 32)
    (node : Option HeapPtr) : Result (Nat × SpaceLists) :=
  if pageCount = 0 then .ok (0, s)
  else
    let vaddr := pageAlignDown vaddr
    let physAddr := pageAlignDown physAddr
    let size := wrap64 (pageCount * pageSize)
    match node with
    | none => .ok (0, s)
    | some node => do
      let record ← s.space space
      let m ← vmmMapPhysPages record.pml4Phys vaddr physAddr (flagsToPte flags) pageCount s.machine
      let s ← (s.setMachine m).insertNode space node ⟨vaddr, size, vmmRegionUsed ||| vmmRegionMmio ||| flags⟩
      return (vaddr, s)

/-- The walk to the first region that passes a test. -/
def SpaceLists.find (s : SpaceLists) (test : Region → Bool) (regions : Option HeapPtr) : Result (Option HeapPtr) :=
  match seek s.nodes test heapSize regions with
  | some found => .ok found
  | none => .error .hang

/-- This is `vmm_space_free`. -/
def spaceFreeAt (s : SpaceLists) (space : SpacePtr) (vaddr : Nat) : Result SpaceLists :=
  if vaddr = 0 then .ok s
  else do
    let record ← s.space space
    let found ← s.find (·.matches vaddr) record.regions
    match found with
    | none => return s
    | some cur =>
      let node ← s.node cur
      let pageCount := node.value.size / pageSize
      let isMmio := hasFlag node.value.flags vmmRegionMmio
      let m := (List.range pageCount).foldl
        (fun m i => vmmSpaceFreePage m record.pml4Phys (wrap64 (vaddr + i * pageSize)) isMmio) s.machine
      (s.setMachine m).removeNode space cur node

/-- The loop of `vmm_space_destroy`; it hangs when the fuel runs out. -/
def spaceDestroyLoop (space : SpacePtr) : (fuel : Nat) → SpaceLists → Result SpaceLists
  | 0, _ => .error .hang
  | fuel + 1, s => do
    let record ← s.space space
    match record.regions with
    | none => return s
    | some cur =>
      let node ← s.node cur
      let s ← spaceFreeAt s space node.value.base
      spaceDestroyLoop space fuel s

/-- This is `vmm_space_destroy`. A list has at most `heapSize` nodes. -/
def spaceDestroyAt (s : SpaceLists) (space : SpacePtr) : Result SpaceLists :=
  if space = .kernel then .ok s
  else do
    let s ← spaceDestroyLoop space (heapSize + 1) s
    let record ← s.space space
    let m := if record.pml4Phys ≠ 0 then { s.machine with phys := physmemFreeTo s.machine.phys record.pml4Phys 1 } else s.machine
    return (s.setMachine m).setSpace space none

/-- The region loop of `vmm_clone_space`. The pointer `nodes i` is the result of the `i`-th `region_alloc`, and the result
tells whether all of them succeeded. -/
def cloneRegionsAt (src dst : SpacePtr) (srcPml4 dstPml4 : Nat) (nodes : Nat → Option HeapPtr) :
    (fuel i : Nat) → (srcCur : Option HeapPtr) → SpaceLists → Result (Bool × SpaceLists)
  | _, _, none, s => .ok (true, s)
  | 0, _, some _, _ => .error .hang
  | fuel + 1, i, some srcCur, s =>
    match nodes i with
    | none => .ok (false, s)
    | some node => do
      let cur ← s.node srcCur
      let region : Region := ⟨cur.value.base, cur.value.size, cowFlags cur.value.flags⟩
      let pageCount := cur.value.size / pageSize
      let pteFlags := flagsToPte region.flags &&& ~~~pteWritable
      let srcPteFlags := flagsToPte cur.value.flags &&& ~~~pteWritable
      let m ← vmmClonePages srcPml4 dstPml4 cur.value.base srcPteFlags pteFlags pageCount s.machine
      let s := (s.setMachine m).setNode srcCur (some { cur with value := { cur.value with flags := cowFlags cur.value.flags } })
      let s ← s.insertNode dst node region
      let cur ← s.node srcCur
      cloneRegionsAt src dst srcPml4 dstPml4 nodes fuel (i + 1) cur.next s

/-- This is `vmm_clone_space`; the argument `ptr` is the result of the `kmalloc` in `vmm_space_create`. -/
def cloneSpaceAt (s : SpaceLists) (src : SpacePtr) (ptr : Option HeapPtr) (nodes : Nat → Option HeapPtr) :
    Result (Option SpacePtr × SpaceLists) :=
  match spaceCreateAt s ptr with
  | (none, s) => .ok (none, s)
  | (some dst, s) => do
    let srcRecord ← s.space src
    let dstRecord ← s.space dst
    let (done, s) ← cloneRegionsAt src dst srcRecord.pml4Phys dstRecord.pml4Phys nodes heapSize 0 srcRecord.regions s
    if done then return (some dst, s)
    else
      let s ← spaceDestroyAt s dst
      return (none, s)

/-- The tail of `vmm_cow_break` for a mapped page of a copy-on-write region. -/
def cowBreakPageAt (s : SpaceLists) (pml4Phys : Nat) (region : HeapPtr) (node : Node HeapPtr Region)
    (faultAddr oldPhys : Nat) : Result SpaceLists :=
  let flags := brokenFlags node.value.flags
  let broken := s.setNode region (some { node with value := { node.value with flags := flags } })
  let (rc, p) := physmemFrameRcDecAndGet s.machine.phys oldPhys
  if rc = 0 then do
    let p := physmemFrameFlagsSet p oldPhys frameUsed
    let m ← pagingMapPageIn { s.machine with phys := p } pml4Phys faultAddr oldPhys (flagsToPte flags)
    return broken.setMachine m
  else
    let (newPhys, p) := physmemAllocTo p 1
    if newPhys = 0 then .error (.panic "vmm_cow_break: out of physical memory")
    else do
      let m := ({ s.machine with phys := p } : Machine).copyPage newPhys oldPhys
      let m : Machine := { m with phys := physmemFrameFlagsSet m.phys newPhys frameUsed }
      let m ← pagingMapPageIn m pml4Phys faultAddr newPhys (flagsToPte flags)
      return broken.setMachine m

/-- This is `vmm_cow_break`. -/
def cowBreakAt (s : SpaceLists) (space : SpacePtr) (faultAddr : Nat) : Result SpaceLists := do
  let faultAddr := pageAlignDown faultAddr
  let record ← s.space space
  let found ← s.find (·.holds faultAddr) record.regions
  match found with
  | none => return s
  | some region =>
    let node ← s.node region
    if !hasFlag node.value.flags vmmRegionCow then return s
    else
      match s.machine.findPte record.pml4Phys faultAddr with
      | none => return s
      | some entry => cowBreakPageAt s record.pml4Phys region node faultAddr (entryAddr entry)

/-- A call on the address spaces with the results of its `kmalloc` calls; a null space is `none`. The list of a clone holds
the region nodes that it gets before the first failure. -/
inductive SpaceOp where
  | create (ptr : Option HeapPtr)
  | alloc (space : Option SpacePtr) (vaddr pageCount : Nat) (flags : BitVec 32) (node : Option HeapPtr)
  | mapPhys (space : Option SpacePtr) (vaddr physAddr pageCount : Nat) (flags : BitVec 32) (node : Option HeapPtr)
  | free (space : Option SpacePtr) (vaddr : Nat)
  | clone (src : Option SpacePtr) (ptr : Option HeapPtr) (nodes : List HeapPtr)
  | destroy (space : Option SpacePtr)
  | cowBreak (space : Option SpacePtr) (faultAddr : Nat)

/-- A call with a null space returns at once. -/
def SpaceLists.onSpace (s : SpaceLists) (space : Option SpacePtr) (call : SpacePtr → Result SpaceLists) : Result SpaceLists :=
  match space with
  | some space => call space
  | none => .ok s

def SpaceLists.step (s : SpaceLists) : SpaceOp → Result SpaceLists
  | .create ptr => .ok (spaceCreateAt s ptr).2
  | .alloc space vaddr pageCount flags node => s.onSpace space fun space =>
    (spaceAllocAt s space vaddr pageCount flags node).map Prod.snd
  | .mapPhys space vaddr physAddr pageCount flags node => s.onSpace space fun space =>
    (mapPhysAt s space vaddr physAddr pageCount flags node).map Prod.snd
  | .free space vaddr => s.onSpace space fun space => spaceFreeAt s space vaddr
  | .clone src ptr nodes => s.onSpace src fun src => (cloneSpaceAt s src ptr fun i => nodes[i]?).map Prod.snd
  | .destroy space => s.onSpace space fun space => spaceDestroyAt s space
  | .cowBreak space faultAddr => s.onSpace space fun space => cowBreakAt s space faultAddr

/-- Memory that `kmalloc` hands out is not in use. -/
def SpaceLists.isNew (s : SpaceLists) (ptr : HeapPtr) : Bool := (s.nodes ptr).isNone && (s.spaces (.heap ptr)).isNone

/-- A pointer to a space is null or points to a live record. -/
def SpaceLists.isLive (s : SpaceLists) (space : Option SpacePtr) : Bool := space.all fun ptr => (s.spaces ptr).isSome

/-- The callers pass live spaces, and `kmalloc` hands out memory that is not in use. -/
def SpaceLists.allowed (s : SpaceLists) : SpaceOp → Bool
  | .create ptr => ptr.all s.isNew
  | .alloc space _ _ _ node => s.isLive space && node.all s.isNew
  | .mapPhys space _ _ _ _ node => s.isLive space && node.all s.isNew
  | .free space _ => s.isLive space
  | .clone src ptr nodes =>
    s.isLive src && ptr.all s.isNew && nodes.all (fun new => s.isNew new && decide (ptr ≠ some new)) && decide nodes.Nodup
  | .destroy space => s.isLive space
  | .cowBreak space _ => s.isLive space

end DoccrOS.Mem
