import DoccrOS.Construction.User.SysFs
import DoccrOS.Lib.Logged

namespace DoccrOS.User
open Lib Proc Fs

/-- A computation with the addresses that it stores to or loads from for the buffer argument. -/
abbrev Accesses (A : Type) := Logged Nat Halt A

/-- The addresses of `count` bytes from an address on. -/
def byteRange (address count : Nat) : List Nat := (List.range count).map fun i => wrap64 (address + i)

/-- An address of the user half. -/
def UserAddress (address : Nat) : Prop := 1 ≤ address ∧ address ≤ userTop

instance (address : Nat) : Decidable (UserAddress address) := by
  unfold UserAddress
  infer_instance

/-- This is `sizeof(input_event_t)`. -/
def sizeofInputEvent : Nat := 16

/-- The loop of `kbd_read_events` and of `mouse_read`, which finds `pending` events in the queue. -/
def readEvents (address size : Nat) : (pending written : Nat) → Accesses Nat
  | 0, written => return written
  | pending + 1, written =>
    if written + sizeofInputEvent ≤ size then do
      Logged.access (byteRange (address + written) sizeofInputEvent) ()
      readEvents address size pending (written + sizeofInputEvent)
    else return written

/-- The device modules that the kernel registers. -/
inductive DeviceModule where
  | kbd
  | mouse
  | fb0
deriving DecidableEq, Repr

/-- The numbers of events that a call finds in the queues, and the modules by the addresses of their handlers. -/
structure Inputs where
  kbd : Nat
  mouse : Nat
  module : Nat → DeviceModule

/-- The events of a module with a callback `read`. -/
def Inputs.pending (inputs : Inputs) : DeviceModule → Option Nat
  | .kbd => some inputs.kbd
  | .mouse => some inputs.mouse
  | .fb0 => none

/-- The result of a read of events. -/
def eventBytes (pending size : Nat) : Nat := sizeofInputEvent * min pending (size / sizeofInputEvent)

/-- The drivers with these queues. The module `fb0` has a callback `open`, and no module has a callback `write`. -/
def Inputs.drivers (inputs : Inputs) (fb0Open : List Char → Option Nat) : Drivers where
  handler device :=
    { «open» := if inputs.module device = .fb0 then some fb0Open else none
      read := (inputs.pending (inputs.module device)).map fun pending _ size => castInt (eventBytes pending size)
      write := none }
  kbdReadEvents := eventBytes inputs.kbd

/-- The guards of the calls on a descriptor, and the rest for its node. -/
def onFdNode {A : Type} (s : FsState) (p : Option Nat) (fd : Nat) (refused : A)
    (rest : Nat → FileDescriptor → NodePtr → VfsNode → Accesses A) : Accesses A := do
  match ← Logged.lift (usedFd s p fd) with
  | none => return refused
  | some (p, descriptor) =>
    match descriptor.node with
    | none => return refused
    | some ptr =>
      let node ← Logged.lift (s.vfs.node ptr)
      rest p descriptor ptr node

/-- The part of `sys_read` for the node of the descriptor. -/
def readNode (inputs : Inputs) (s : FsState) (p fd address len : Nat) (descriptor : FileDescriptor) (node : VfsNode) :
    Accesses (Nat × List (BitVec 8) × FsState) :=
  match node.type with
  | .device =>
    match node.device.bind fun device => inputs.pending (inputs.module device) with
    | none => return (minusOne, [], s)
    | some pending => do
      let written ← readEvents address len pending 0
      return (castU64 (castInt written), [], s)
  | .directory => return (minusOne, [], s)
  | .file =>
    if descriptor.offset ≥ node.size then return (0, [], s)
    else
      let toCopy := min len (node.size - descriptor.offset)
      let s' := s.setFd p fd { descriptor with offset := descriptor.offset + toCopy }
      match node.data with
      | none => if toCopy = 0 then return (0, [], s') else .lift (.error .invalid)
      | some data => do
        Logged.access (byteRange address toCopy) ()
        return (toCopy, copyOut s.vfs.bytes (data + descriptor.offset) toCopy, s')

/-- The function `sys_read` with its accesses. -/
def sysReadAccesses (inputs : Inputs) (s : FsState) (p : Option Nat) (fd address len : Nat) :
    Accesses (Nat × List (BitVec 8) × FsState) := do
  if !userPtrOk address then return (minusOne, [], s)
  else if fd = 0 then
    let written ← readEvents address len inputs.kbd 0
    return (written, [], s)
  else
    onFdNode s p fd (minusOne, [], s) fun p descriptor _ node => readNode inputs s p fd address len descriptor node

/-- The function `vfs_write` with its loads from the buffer. -/
def vfsWriteAccesses (v : Vfs) (ptr : NodePtr) (address : Nat) (buf : List (BitVec 8)) (kmalloc : Option Nat) :
    Accesses (Int × Vfs) := do
  let node ← Logged.lift (v.node ptr)
  if node.type ≠ .file then return (-1, v)
  else if buf.length > vfsMaxFileSize then return (-1, v)
  else
    let node := if node.borrowed then { node with data := none, capacity := 0, borrowed := false } else node
    let v := v.setNode ptr node
    let (grown, v) ← Logged.lift (growBuffer v node buf.length kmalloc)
    match grown with
    | none => return (-1, v)
    | some node =>
      match node.data with
      | none => .lift (.error .invalid)
      | some data =>
        Logged.access (byteRange address buf.length) ()
        return (castInt buf.length, { v.setNode ptr { node with size := buf.length } with bytes := copyIn v.bytes data buf })

/-- The part of `sys_write` for the node of the descriptor. -/
def writeNode (s : FsState) (address : Nat) (buf : List (BitVec 8)) (kmalloc : Option Nat) (ptr : NodePtr) (node : VfsNode) :
    Accesses (Nat × FsState) :=
  match node.type with
  | .device => return (minusOne, s)
  | .directory => return (minusOne, s)
  | .file => do
    let (written, v) ← vfsWriteAccesses s.vfs ptr address buf kmalloc
    return (if written < 0 then minusOne else castU64 written, { s with vfs := v })

/-- The function `sys_write` with its accesses. The loop that writes to the console loads every byte. -/
def sysWriteAccesses (s : FsState) (p : Option Nat) (fd address : Nat) (buf : List (BitVec 8)) (kmalloc : Option Nat) :
    Accesses (Nat × FsState) := do
  if !userPtrOk address then return (minusOne, s)
  else if fd = 1 ∨ fd = 2 then
    Logged.access (byteRange address buf.length) ()
    return (buf.length, s)
  else
    onFdNode s p fd (minusOne, s) fun _ _ ptr node => writeNode s address buf kmalloc ptr node

/-- The number of bytes of an entry that `sys_getdents` stores: the four numbers, and the name with its final zero. -/
def direntStores (node : VfsNode) : Nat := 20 + min node.name.length 255

/-- The loop of `sys_getdents` with its stores. -/
def getdentsFromAccesses (v : Vfs) (dir : VfsNode) (address bufSize : Nat) :
    (left i written offset : Nat) → Accesses (List Dirent × Nat × Nat)
  | 0, _, written, offset => return ([], written, offset)
  | left + 1, i, written, offset =>
    match dir.children i with
    | none => getdentsFromAccesses v dir address bufSize left (i + 1) written offset
    | some child => do
      let node ← Logged.lift (v.node child)
      if written + sizeofDirent > bufSize then return ([], written, offset)
      else
        Logged.access (byteRange (address + written) (direntStores node)) ()
        let entry : Dirent :=
          ⟨i + 1, written + sizeofDirent, sizeofDirent, if node.type = .directory then 4 else 8, node.name⟩
        let (entries, written, offset) ←
          getdentsFromAccesses v dir address bufSize left (i + 1) (written + sizeofDirent) (i + 1)
        return (entry :: entries, written, offset)

/-- The part of `sys_getdents` for the node of the descriptor. -/
def getdentsNode (s : FsState) (p fd address bufSize : Nat) (descriptor : FileDescriptor) (dir : VfsNode) :
    Accesses (Nat × List Dirent × FsState) :=
  if dir.type ≠ .directory then return (minusOne, [], s)
  else
    let start := castInt descriptor.offset
    if start < 0 then .lift (.error .invalid)
    else do
      let (entries, written, offset) ← getdentsFromAccesses s.vfs dir address bufSize (dir.childCount - start.toNat)
        start.toNat 0 descriptor.offset
      return (written, entries, s.setFd p fd { descriptor with offset := offset })

/-- The function `sys_getdents` with its accesses. -/
def sysGetdentsAccesses (s : FsState) (p : Option Nat) (fd address bufSize : Nat) :
    Accesses (Nat × List Dirent × FsState) :=
  if !userPtrOk address then return (minusOne, [], s)
  else
    onFdNode s p fd (minusOne, [], s) fun p descriptor _ dir => getdentsNode s p fd address bufSize descriptor dir

end DoccrOS.User
