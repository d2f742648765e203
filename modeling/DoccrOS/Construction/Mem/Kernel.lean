import DoccrOS.Construction.Mem.Kheap
import DoccrOS.Construction.Mem.Vmm

namespace DoccrOS.Mem

/-- The machine and the records of the live address spaces. -/
structure Kernel where
  machine : Machine
  spaces : HeapPtr → Option Space

def Kernel.put (k : Kernel) (ptr : HeapPtr) (m : Machine) (space : Option Space) : Kernel :=
  ⟨m, Function.update k.spaces ptr space⟩

/-- A call of the memory manager with the outcomes of its `kmalloc` calls, or a write access of a process. -/
inductive Op where
  | create (ptr : Option HeapPtr)
  | alloc (ptr : HeapPtr) (vaddr pageCount : Nat) (flags : BitVec 32) (nodeOk : Bool)
  | mapPhys (ptr : HeapPtr) (vaddr physAddr pageCount : Nat) (flags : BitVec 32) (nodeOk : Bool)
  | clone (src : HeapPtr) (ptr : Option HeapPtr) (nodes : Nat → Bool)
  | free (ptr : HeapPtr) (vaddr : Nat)
  | destroy (ptr : HeapPtr)
  | cowBreak (ptr : HeapPtr) (faultAddr : Nat)
  | write (ptr : HeapPtr) (va : Nat) (byte : BitVec 8)

/-- A call on a live space; other pointers are not valid. -/
def Kernel.onSpace (k : Kernel) (ptr : HeapPtr) (call : Space → Result Kernel) : Result Kernel :=
  match k.spaces ptr with
  | some space => call space
  | none => .error .invalid

/-- A record that `kmalloc` returns is not one of the live ones. -/
def Kernel.isNew (k : Kernel) : Option HeapPtr → Bool
  | some ptr => (k.spaces ptr).isNone
  | none => true

def Kernel.step (k : Kernel) : Op → Result Kernel
  | .create ptr =>
    if !k.isNew ptr then .error .invalid
    else
      match ptr, vmmSpaceCreate k.machine ptr.isSome with
      | some ptr, (some space, m) => .ok (k.put ptr m (some space))
      | _, (_, m) => .ok { k with machine := m }
  | .alloc ptr vaddr pageCount flags nodeOk => k.onSpace ptr fun space => do
    let (_, m, space) ← vmmSpaceAlloc k.machine space vaddr pageCount flags nodeOk
    return k.put ptr m (some space)
  | .mapPhys ptr vaddr physAddr pageCount flags nodeOk => k.onSpace ptr fun space => do
    let (_, m, space) ← vmmMapPhys k.machine space vaddr physAddr pageCount flags nodeOk
    return k.put ptr m (some space)
  | .clone src ptr nodes =>
    if !k.isNew ptr then .error .invalid
    else k.onSpace src fun space => do
      let (clone, m, space) ← vmmCloneSpace k.machine space ptr.isSome nodes
      match ptr, clone with
      | some ptr, some clone => return (k.put src m (some space)).put ptr m (some clone)
      | _, _ => return k.put src m (some space)
  | .free ptr vaddr => k.onSpace ptr fun space =>
    let (m, space) := vmmSpaceFree k.machine space vaddr
    .ok (k.put ptr m (some space))
  | .destroy ptr => k.onSpace ptr fun space => do
    let m ← vmmSpaceDestroy k.machine space
    return k.put ptr m none
  | .cowBreak ptr faultAddr => k.onSpace ptr fun space => do
    let (m, space) ← vmmCowBreak k.machine space faultAddr
    return k.put ptr m (some space)
  | .write ptr va byte => k.onSpace ptr fun space => do
    let (m, space) ← userWrite k.machine space va byte
    return k.put ptr m (some space)

/-- What a space reads at the addresses of its user half. -/
def Kernel.reads (k : Kernel) (ptr : HeapPtr) : Option (Nat → Option (BitVec 8)) :=
  (k.spaces ptr).map fun space va => if va < 2 ^ 47 then userRead k.machine space va else none

/-- The pages of an allocation lie in the user half and outside the regions of the space. -/
def Kernel.newRange (k : Kernel) (ptr : HeapPtr) (vaddr pageCount : Nat) : Bool :=
  match k.spaces ptr with
  | none => false
  | some space =>
    let base := pageAlignDown vaddr
    let size := pageCount * pageSize
    decide (vaddr ≠ 0) && decide (base + size ≤ 2 ^ 47) && space.regions.all fun region =>
      decide (base + size ≤ region.base) || decide (region.base + region.size ≤ base)

/-- The region that `vmm_space_free` selects. -/
def Space.selected (space : Space) (vaddr : Nat) : Option Region :=
  if vaddr = 0 then none else space.regions.find? (·.matches vaddr)

/-- The bytes that the live spaces read. -/
abbrev Contents := HeapPtr → Option (Nat → Option (BitVec 8))

/-- The address lies in the region that `vmm_space_free` selects. -/
def Kernel.frees (k : Kernel) (ptr : HeapPtr) (vaddr va : Nat) : Bool :=
  match (k.spaces ptr).bind (·.selected vaddr) with
  | some region => decide (region.base ≤ va) && decide (va < region.base + region.size)
  | none => false

/-- The reference model without sharing: a clone copies every byte at once, and a write changes one byte of one space.
A call that may fail may leave all bytes alone. The contents of a new page are arbitrary. -/
def eagerStep (k : Kernel) (before after : Contents) : Op → Prop
  | .create ptr =>
    after = before ∨ ∃ new, ptr = some new ∧ before new = none ∧ after = Function.update before new (some fun _ => none)
  | .alloc ptr vaddr pageCount _ _ =>
    after = before ∨ ∃ old new, before ptr = some old ∧ after = Function.update before ptr (some new) ∧
      ∀ va, if pageAlignDown vaddr ≤ va ∧ va < pageAlignDown vaddr + pageCount * pageSize then new va ≠ none
        else new va = old va
  | .mapPhys .. => False
  | .clone src ptr _ =>
    after = before ∨ ∃ new bytes, ptr = some new ∧ before new = none ∧ before src = some bytes ∧
      after = Function.update before new (some bytes)
  | .free ptr vaddr =>
    ∃ old, before ptr = some old ∧
      after = Function.update before ptr (some fun va => if k.frees ptr vaddr va then none else old va)
  | .destroy ptr => after = Function.update before ptr none
  | .cowBreak .. => after = before
  | .write ptr va byte =>
    ∃ old, before ptr = some old ∧ old va ≠ none ∧
      after = Function.update before ptr (some (Function.update old va (some byte)))

end DoccrOS.Mem
