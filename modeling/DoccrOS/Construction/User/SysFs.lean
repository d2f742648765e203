import DoccrOS.Construction.Fs.Vfs
import DoccrOS.Construction.User.SysProcess

namespace DoccrOS.User
open Lib Proc Fs

/-- This is `FD_MAX`. -/
def fdMax : Nat := 64

/-- This is `file_descriptor_t`. -/
structure FileDescriptor where
  node : Option NodePtr
  offset : Nat
  used : Bool
  deviceHandle : Option Nat
deriving DecidableEq, Repr

/-- The array `fd_table` of a process. -/
abbrev FdTable := Nat → FileDescriptor

/-- The table that `process_create` leaves: the first three entries are used and have no node. -/
def FdTable.fresh : FdTable := fun fd => ⟨none, 0, decide (fd < 3), none⟩

/-- The callbacks of `device_handler` that the system calls use, by their results. A callback may be missing. -/
structure DeviceHandler where
  «open» : Option (List Char → Option Nat)
  read : Option (Option Nat → Nat → Int)
  write : Option (Option Nat → Nat → Int)

/-- The drivers: the handler at an address, and the result of `kbd_read_events`. -/
structure Drivers where
  handler : Nat → DeviceHandler
  kbdReadEvents : Nat → Nat

/-- The file system and the descriptor tables of the processes. -/
structure FsState where
  vfs : Vfs
  tables : List FdTable

/-- The table of a process. -/
def FsState.table (s : FsState) (p : Nat) : Result FdTable :=
  match s.tables[p]? with
  | some table => .ok table
  | none => .error .invalid

/-- A store to an entry of the table of a process. -/
def FsState.setFd (s : FsState) (p fd : Nat) (descriptor : FileDescriptor) : FsState :=
  { s with tables := s.tables.modify p fun table => Function.update table fd descriptor }

def userPtrOk (ptr : Nat) : Bool := ptr ≠ 0 && ptr ≤ userTop

/-- The cast `(u64)` of a signed value. -/
def castU64 (n : Int) : Nat := (BitVec.ofInt 64 n).toNat

/-- The cast `(i64)` of an unsigned value. -/
def castI64 (n : Nat) : Int := (BitVec.ofNat 64 n).toInt

/-- The part of `sys_open` that opens the device of a node. The result is `none` when the device refuses. -/
def openDevice (drivers : Drivers) (node : VfsNode) (path : List Char) : Option (Option Nat) :=
  if node.type = .device then
    match node.device.bind fun device => (drivers.handler device).open with
    | some callback => (callback path).map some
    | none => some none
  else some none

/-- The argument `p` is the result of `process_get_current`. -/
def sysOpen (drivers : Drivers) (s : FsState) (p : Option Nat) (address : Nat) (path : List Char) : Result (Nat × FsState) := do
  if !userPtrOk address then return (minusOne, s)
  else
    match ← vfsFind s.vfs path with
    | none => return (minusOne, s)
    | some ptr =>
      match p with
      | none => return (minusOne, s)
      | some p =>
        let table ← s.table p
        match (List.range fdMax).find? fun fd => 3 ≤ fd && !(table fd).used with
        | none => return (minusOne, s)
        | some fd =>
          let node ← s.vfs.node ptr
          match openDevice drivers node path with
          | none => return (minusOne, s)
          | some handle => return (fd, s.setFd p fd ⟨some ptr, 0, true, handle⟩)

/-- The shared guard of the calls on a descriptor: it is in range and used by the current process. -/
def usedFd (s : FsState) (p : Option Nat) (fd : Nat) : Result (Option (Nat × FileDescriptor)) :=
  if fd < 3 ∨ fd ≥ fdMax then .ok none
  else
    match p with
    | none => .ok none
    | some p => do
      let table ← s.table p
      return if (table fd).used then some (p, table fd) else none

/-- The callback `close` of a device returns nothing. -/
def sysClose (s : FsState) (p : Option Nat) (fd : Nat) : Result (Nat × FsState) := do
  match ← usedFd s p fd with
  | none => return (minusOne, s)
  | some (p, descriptor) =>
    match descriptor.node with
    | none => return (0, s.setFd p fd ⟨none, 0, false, none⟩)
    | some ptr =>
      let _ ← s.vfs.node ptr
      return (0, s.setFd p fd ⟨none, 0, false, none⟩)

def sysLseek (s : FsState) (p : Option Nat) (fd rsi : Nat) (whence : Int) : Result (Nat × FsState) := do
  match ← usedFd s p fd with
  | none => return (minusOne, s)
  | some (p, descriptor) =>
    match descriptor.node with
    | none => return (minusOne, s)
    | some ptr =>
      let node ← s.vfs.node ptr
      if node.type ≠ .file then return (minusOne, s)
      else
        let base := if whence = 0 then some 0 else if whence = 1 then some descriptor.offset
          else if whence = 2 then some node.size else none
        match base with
        | none => return (minusOne, s)
        | some base =>
          let newOff := castI64 (base + rsi)
          if newOff < 0 then return (minusOne, s)
          else return (castU64 newOff, s.setFd p fd { descriptor with offset := castU64 newOff })

/-- This is `linux_dirent64_t`. -/
structure Dirent where
  ino : Nat
  off : Nat
  reclen : Nat
  type : Nat
  name : List Char
deriving DecidableEq, Repr

/-- This is `sizeof(linux_dirent64_t)`. -/
def sizeofDirent : Nat := 280

/-- The loop of `sys_getdents` over the children from `i` on. It returns the entries, the bytes written and the offset. -/
def getdentsFrom (v : Vfs) (dir : VfsNode) (bufSize : Nat) : (left i written offset : Nat) → Result (List Dirent × Nat × Nat)
  | 0, _, written, offset => .ok ([], written, offset)
  | left + 1, i, written, offset =>
    match dir.children i with
    | none => getdentsFrom v dir bufSize left (i + 1) written offset
    | some child => do
      let node ← v.node child
      if written + sizeofDirent > bufSize then return ([], written, offset)
      else
        let entry : Dirent :=
          ⟨i + 1, written + sizeofDirent, sizeofDirent, if node.type = .directory then 4 else 8, node.name⟩
        let (entries, written, offset) ← getdentsFrom v dir bufSize left (i + 1) (written + sizeofDirent) (i + 1)
        return (entry :: entries, written, offset)

def sysGetdents (s : FsState) (p : Option Nat) (fd address bufSize : Nat) : Result (Nat × List Dirent × FsState) := do
  if !userPtrOk address then return (minusOne, [], s)
  else
    match ← usedFd s p fd with
    | none => return (minusOne, [], s)
    | some (p, descriptor) =>
      match descriptor.node with
      | none => return (minusOne, [], s)
      | some ptr =>
        let dir ← s.vfs.node ptr
        if dir.type ≠ .directory then return (minusOne, [], s)
        else
          let start := castInt descriptor.offset
          if start < 0 then .error .invalid
          else
            let (entries, written, offset) ←
              getdentsFrom s.vfs dir bufSize (dir.childCount - start.toNat) start.toNat 0 descriptor.offset
            return (written, entries, s.setFd p fd { descriptor with offset := offset })

/-- The result is the register `rax` and the bytes that arrive in the buffer. -/
def sysRead (drivers : Drivers) (s : FsState) (p : Option Nat) (fd address len : Nat) :
    Result (Nat × List (BitVec 8) × FsState) := do
  if !userPtrOk address then return (minusOne, [], s)
  else if fd = 0 then return (drivers.kbdReadEvents len, [], s)
  else
    match ← usedFd s p fd with
    | none => return (minusOne, [], s)
    | some (p, descriptor) =>
      match descriptor.node with
      | none => return (minusOne, [], s)
      | some ptr =>
        let node ← s.vfs.node ptr
        match node.type with
        | .device =>
          match node.device.bind fun device => (drivers.handler device).read with
          | none => return (minusOne, [], s)
          | some callback => return (castU64 (callback descriptor.deviceHandle len), [], s)
        | .directory => return (minusOne, [], s)
        | .file =>
          if descriptor.offset ≥ node.size then return (0, [], s)
          else
            let toCopy := min len (node.size - descriptor.offset)
            let s' := s.setFd p fd { descriptor with offset := descriptor.offset + toCopy }
            match node.data with
            | none => if toCopy = 0 then return (0, [], s') else .error .invalid
            | some data => return (toCopy, copyOut s.vfs.bytes (data + descriptor.offset) toCopy, s')

/-- The argument `buf` holds the `len` bytes at the address. Output to the console changes no file. -/
def sysWrite (drivers : Drivers) (s : FsState) (p : Option Nat) (fd address : Nat) (buf : List (BitVec 8))
    (kmalloc : Option Nat) : Result (Nat × FsState) := do
  if !userPtrOk address then return (minusOne, s)
  else if fd = 1 ∨ fd = 2 then return (buf.length, s)
  else
    match ← usedFd s p fd with
    | none => return (minusOne, s)
    | some (_, descriptor) =>
      match descriptor.node with
      | none => return (minusOne, s)
      | some ptr =>
        let node ← s.vfs.node ptr
        match node.type with
        | .device =>
          match node.device.bind fun device => (drivers.handler device).write with
          | none => return (minusOne, s)
          | some callback => return (castU64 (callback descriptor.deviceHandle buf.length), s)
        | .directory => return (minusOne, s)
        | .file =>
          let (written, v) ← vfsWrite s.vfs (some ptr) (some buf) kmalloc
          return (if written < 0 then minusOne else castU64 written, { s with vfs := v })

def sysMkdir (s : FsState) (address : Nat) (path : List Char) (kmallocs : List (Option NodePtr)) : Result (Nat × FsState) := do
  if !userPtrOk address then return (minusOne, s)
  else
    let (node, v) ← vfsMkdir s.vfs path kmallocs
    return (if node.isNone then minusOne else 0, { s with vfs := v })

def sysUnlink (s : FsState) (address : Nat) (path : List Char) : Result (Nat × FsState) := do
  if !userPtrOk address then return (minusOne, s)
  else
    let (result, v) ← vfsRemove s.vfs path
    return (if result = 0 then 0 else minusOne, { s with vfs := v })

/-- A system call on files. -/
inductive FsCall where
  | «open» (address : Nat) (path : List Char)
  | close (fd : Nat)
  | read (fd address len : Nat)
  | write (fd address : Nat) (buf : List (BitVec 8)) (kmalloc : Option Nat)
  | lseek (fd rsi : Nat) (whence : Int)
  | getdents (fd address bufSize : Nat)
  | mkdir (address : Nat) (path : List Char) (kmallocs : List (Option NodePtr))
  | unlink (address : Nat) (path : List Char)

/-- A call of a process, or of a thread without one. -/
structure FsOp where
  process : Option Nat
  call : FsCall

def FsState.step (drivers : Drivers) (s : FsState) (op : FsOp) : Result FsState :=
  match op.call with
  | .open address path => (sysOpen drivers s op.process address path).map Prod.snd
  | .close fd => (sysClose s op.process fd).map Prod.snd
  | .read fd address len => (sysRead drivers s op.process fd address len).map fun result => result.2.2
  | .write fd address buf kmalloc => (sysWrite drivers s op.process fd address buf kmalloc).map Prod.snd
  | .lseek fd rsi whence => (sysLseek s op.process fd rsi whence).map Prod.snd
  | .getdents fd address bufSize => (sysGetdents s op.process fd address bufSize).map fun result => result.2.2
  | .mkdir address path kmallocs => (sysMkdir s address path kmallocs).map Prod.snd
  | .unlink address path => (sysUnlink s address path).map Prod.snd

end DoccrOS.User
