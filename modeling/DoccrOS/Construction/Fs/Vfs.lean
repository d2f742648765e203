import DoccrOS.Construction.Types
import DoccrOS.Lib.Bytes

namespace DoccrOS.Fs
open Lib

/-- This is `VFS_NAME_MAX`. -/
def vfsNameMax : Nat := 64

/-- This is `VFS_MAX_CHILDREN`. -/
def vfsMaxChildren : Nat := 64

/-- This is `VFS_MAX_FILE_SIZE`. -/
def vfsMaxFileSize : Nat := 64 * 1024 * 1024

/-- This is `VFS_MAX_PATH`. -/
def vfsMaxPath : Nat := 256

inductive VfsType where
  | file
  | directory
  | device
deriving DecidableEq, Repr

/-- A node is named by the address that `kmalloc` returned for it. -/
abbrev NodePtr := Nat

/-- This is `vfs_node_t`. A string is the list of its characters before the final zero. -/
structure VfsNode where
  name : List Char
  type : VfsType
  data : Option Nat
  size : Nat
  capacity : Nat
  borrowed : Bool
  device : Option Nat
  parent : Option NodePtr
  children : Nat → Option NodePtr
  childCount : Nat

/-- The record that `memset` leaves. -/
def VfsNode.zero : VfsNode := ⟨[], .file, none, 0, 0, false, none, none, fun _ => none, 0⟩

/-- A range of addresses. -/
structure Block where
  start : Nat
  size : Nat
deriving DecidableEq, Repr

/-- Two blocks share no address. -/
def Block.Apart (block other : Block) : Prop :=
  block.start + block.size ≤ other.start ∨ other.start + other.size ≤ block.start

instance (block other : Block) : Decidable (block.Apart other) := by
  unfold Block.Apart
  infer_instance

/-- The static variable `vfs_root`, the allocated nodes, the data buffers that `kmalloc` returned and `kfree` has not seen,
the memory that holds the contents, and the block of the initial archive. -/
structure Vfs where
  root : Option NodePtr
  nodes : NodePtr → Option VfsNode
  buffers : List Block
  bytes : Bytes
  archive : Block

/-- The state before `vfs_init`. -/
def Vfs.boot (bytes : Bytes) (archive : Block) : Vfs := ⟨none, fun _ => none, [], bytes, archive⟩

/-- The record below a pointer. -/
def Vfs.node (v : Vfs) (ptr : NodePtr) : Result VfsNode :=
  match v.nodes ptr with
  | some node => .ok node
  | none => .error .invalid

def Vfs.setNode (v : Vfs) (ptr : NodePtr) (node : VfsNode) : Vfs :=
  { v with nodes := Function.update v.nodes ptr (some node) }

/-- The argument is the result of `kmalloc`, which returns no address that is in use. -/
def nodeAlloc (v : Vfs) : (kmalloc : Option NodePtr) → Result (Option NodePtr × Vfs)
  | none => .ok (none, v)
  | some ptr =>
    match v.nodes ptr with
    | some _ => .error .invalid
    | none => .ok (some ptr, v.setNode ptr .zero)

def vfsInit (v : Vfs) (kmalloc : Option NodePtr) : Result Vfs := do
  let (root, v) ← nodeAlloc v kmalloc
  match root with
  | none => return { v with root := none }
  | some ptr =>
    let node ← v.node ptr
    return { v.setNode ptr { node with name := ['/'], type := .directory, parent := none, childCount := 0 } with root := root }

/-- The loop of `vfs_find_child` over the children from `i` on. -/
def vfsFindChildFrom (v : Vfs) (dir : VfsNode) (name : List Char) : (left i : Nat) → Result (Option NodePtr)
  | 0, _ => .ok none
  | left + 1, i =>
    match dir.children i with
    | none => .error .invalid
    | some child => do
      let node ← v.node child
      if node.name = name then return some child else vfsFindChildFrom v dir name left (i + 1)

def vfsFindChild (v : Vfs) (dir : Option NodePtr) (name : Option (List Char)) : Result (Option NodePtr) :=
  match dir, name with
  | some dir, some name => do
    let node ← v.node dir
    vfsFindChildFrom v node name node.childCount 0
  | _, _ => .ok none

def vfsCreateNode (v : Vfs) (parent : Option NodePtr) (name : Option (List Char)) (type : VfsType) (kmalloc : Option NodePtr) :
    Result (Option NodePtr × Vfs) := do
  let existing ← vfsFindChild v parent name
  let (n, v) ← nodeAlloc v kmalloc
  match parent, name with
  | some parent, some name =>
    if name = [] then return (none, v)
    else
      let dir ← v.node parent
      if dir.type ≠ .directory then return (none, v)
      else
        match existing with
        | some existing => return (some existing, v)
        | none =>
          if dir.childCount ≥ vfsMaxChildren then return (none, v)
          else
            match n with
            | none => return (none, v)
            | some n =>
              let node ← v.node n
              let v := v.setNode n { node with
                name := name, type := type, parent := some parent, childCount := 0, data := none, size := 0, capacity := 0,
                device := none }
              let v := v.setNode parent { dir with
                children := Function.update dir.children dir.childCount (some n), childCount := dir.childCount + 1 }
              return (some n, v)
  | _, _ => return (none, v)

/-- The loop `while (*p == '/') p++`. -/
def skipSlashes : List Char → List Char
  | [] => []
  | c :: p => if c = '/' then skipSlashes p else c :: p

/-- The loop that copies a token of at most `room` characters. It returns the token and the rest of the path. -/
def takeToken : (room : Nat) → List Char → List Char × List Char
  | 0, p => ([], p)
  | _ + 1, [] => ([], [])
  | room + 1, c :: p =>
    if c = '/' then ([], c :: p)
    else
      let (token, rest) := takeToken room p
      (c :: token, rest)

/-- The loop of `vfs_find`. -/
def vfsFindFrom (v : Vfs) : (fuel : Nat) → (cur : NodePtr) → (p : List Char) → Result (Option NodePtr)
  | 0, _, _ => .error .hang
  | fuel + 1, cur, p =>
    if p = [] then .ok (some cur)
    else
      let (token, p) := takeToken (vfsNameMax - 1) p
      if token = [] then .ok (some cur)
      else do
        let next ← vfsFindChild v (some cur) (some token)
        match next with
        | none => return none
        | some next => vfsFindFrom v fuel next (skipSlashes p)

def vfsFind (v : Vfs) (path : List Char) : Result (Option NodePtr) :=
  match v.root with
  | none => .ok none
  | some root =>
    if path = [] ∨ path = ['/'] then .ok (some root)
    else vfsFindFrom v (path.length + 1) root (skipSlashes path)

/-- The loop of `vfs_mkdir`. The argument `kmallocs` lists the results of the calls of `kmalloc`, `none` at its end. -/
def vfsMkdirFrom : (fuel : Nat) → Vfs → (cur : NodePtr) → (p : List Char) → (kmallocs : List (Option NodePtr)) →
    Result (Option NodePtr × Vfs)
  | 0, _, _, _, _ => .error .hang
  | fuel + 1, v, cur, p, kmallocs =>
    if p = [] then .ok (some cur, v)
    else
      let (token, p) := takeToken (vfsNameMax - 1) p
      if token = [] then .ok (some cur, v)
      else do
        let next ← vfsFindChild v (some cur) (some token)
        match next with
        | none =>
          let (next, v) ← vfsCreateNode v (some cur) (some token) .directory kmallocs.head?.join
          match next with
          | none => return (none, v)
          | some next => vfsMkdirFrom fuel v next (skipSlashes p) kmallocs.tail
        | some next =>
          let node ← v.node next
          if node.type ≠ .directory then return (none, v)
          else vfsMkdirFrom fuel v next (skipSlashes p) kmallocs

def vfsMkdir (v : Vfs) (path : List Char) (kmallocs : List (Option NodePtr)) : Result (Option NodePtr × Vfs) :=
  match v.root with
  | none => .ok (none, v)
  | some root =>
    if path = [] ∨ path = ['/'] then .ok (some root, v)
    else vfsMkdirFrom (path.length + 1) v root (skipSlashes path) kmallocs

/-- The loop that moves the children behind `i` one place down. -/
def moveDown (children : Nat → Option NodePtr) : (i steps : Nat) → Nat → Option NodePtr
  | _, 0 => children
  | i, steps + 1 => moveDown (Function.update children i (children (i + 1))) (i + 1) steps

/-- The call `kfree` of a data buffer. -/
def Vfs.freeBuffer (v : Vfs) (ptr : Nat) : Result Vfs :=
  match v.buffers.find? fun block => block.start == ptr with
  | some block => .ok { v with buffers := v.buffers.erase block }
  | none => .error .invalid

/-- The statement `if (node->data) kfree(node->data)`. -/
def Vfs.freeData (v : Vfs) (node : VfsNode) : Result Vfs :=
  match node.data with
  | some data => v.freeBuffer data
  | none => .ok v

/-- The statement `if (node->data && !node->borrowed) kfree(node->data)`. -/
def Vfs.freeOwned (v : Vfs) (node : VfsNode) : Result Vfs :=
  match node.data with
  | some data => if node.borrowed then .ok v else v.freeBuffer data
  | none => .ok v

def vfsRemove (v : Vfs) (path : List Char) : Result (Int × Vfs) := do
  let found ← vfsFind v path
  match found with
  | none => return (-1, v)
  | some ptr =>
    if some ptr = v.root then return (-1, v)
    else
      let node ← v.node ptr
      match node.parent with
      | none => return (-1, v)
      | some parent =>
        if node.type = .directory ∧ node.childCount > 0 then return (-1, v)
        else
          let dir ← v.node parent
          match (List.range dir.childCount).find? fun i => dir.children i == some ptr with
          | none => return (-1, v)
          | some idx =>
            let v := v.setNode parent { dir with
              children := moveDown dir.children idx (dir.childCount - 1 - idx), childCount := dir.childCount - 1 }
            let v ← v.freeOwned node
            return (0, { v with nodes := Function.update v.nodes ptr none })

/-- The loop of `vfs_split_path` that finds the last slash. -/
def lastSlash : (i : Nat) → (last : Option Nat) → List Char → Option Nat
  | _, last, [] => last
  | i, last, c :: path => lastSlash (i + 1) (if c = '/' then some i else last) path

/-- The call `str_copy(fname_out, name)` into a buffer of `VFS_NAME_MAX` characters. -/
def copyName (name : List Char) : Result (List Char) := if name.length < vfsNameMax then .ok name else .error .invalid

def vfsSplitPath (path : List Char) : Result (List Char × List Char) :=
  match lastSlash 0 none path with
  | none => do
    let fname ← copyName path
    return (['/'], fname)
  | some 0 => do
    let fname ← copyName (path.drop 1)
    return (['/'], fname)
  | some last => do
    let fname ← copyName (path.drop (last + 1))
    return (path.take (min last (vfsMaxPath - 1)), fname)

/-- The shared part of `vfs_create_file` and `vfs_create_device`. The argument `kmallocs` is for the directories and `kmalloc`
is for the node. -/
def vfsCreateAt (v : Vfs) (path : List Char) (type : VfsType) (kmallocs : List (Option NodePtr)) (kmalloc : Option NodePtr) :
    Result (Option NodePtr × Vfs) :=
  match v.root with
  | none => .ok (none, v)
  | some _ => do
    let (dirpath, fname) ← vfsSplitPath path
    if fname = [] then return (none, v)
    else
      let found ← vfsFind v dirpath
      let (dir, v) ← match found with
        | some dir => pure (some dir, v)
        | none => vfsMkdir v dirpath kmallocs
      match dir with
      | none => return (none, v)
      | some dir => vfsCreateNode v (some dir) (some fname) type kmalloc

def vfsCreateFile (v : Vfs) (path : List Char) (kmallocs : List (Option NodePtr)) (kmalloc : Option NodePtr) :
    Result (Option NodePtr × Vfs) :=
  vfsCreateAt v path .file kmallocs kmalloc

def vfsCreateDevice (v : Vfs) (path : List Char) (device : Option Nat) (kmallocs : List (Option NodePtr))
    (kmalloc : Option NodePtr) : Result (Option NodePtr × Vfs) :=
  match device with
  | none => .ok (none, v)
  | some device => do
    let (node, v) ← vfsCreateAt v path .device kmallocs kmalloc
    match node with
    | none => return (none, v)
    | some ptr =>
      let node ← v.node ptr
      return (some ptr, v.setNode ptr { node with device := some device })

/-- The call `kmalloc` of a data buffer. It returns no memory that is in use. -/
def Vfs.allocBuffer (v : Vfs) (size : Nat) : (kmalloc : Option Nat) → Result (Option Nat × Vfs)
  | none => .ok (none, v)
  | some ptr =>
    if ∀ block ∈ v.archive :: v.buffers, Block.Apart ⟨ptr, size⟩ block then
      .ok (some ptr, { v with buffers := ⟨ptr, size⟩ :: v.buffers })
    else .error .invalid

/-- The call `memcpy` of a list of bytes to an address. -/
def copyIn (bytes : Bytes) : (dst : Nat) → List (BitVec 8) → Bytes
  | _, [] => bytes
  | dst, byte :: src => copyIn (Function.update bytes dst byte) (dst + 1) src

/-- The bytes that `memcpy` takes from an address on. -/
def copyOut (bytes : Bytes) (src count : Nat) : List (BitVec 8) := (List.range count).map fun i => bytes (src + i)

/-- The cast `(int)` of an unsigned value. -/
def castInt (n : Nat) : Int := (BitVec.ofNat 32 n).toInt

/-- The part of `vfs_write` that makes the buffer of a node large enough. -/
def growBuffer (v : Vfs) (node : VfsNode) (size : Nat) (kmalloc : Option Nat) : Result (Option VfsNode × Vfs) :=
  if node.data = none ∨ node.capacity < size then do
    let (newbuf, v) ← v.allocBuffer size kmalloc
    match newbuf with
    | none => return (none, v)
    | some newbuf => do
      let v ← v.freeData node
      return (some { node with data := newbuf, capacity := size }, v)
  else return (some node, v)

def vfsWrite (v : Vfs) (node : Option NodePtr) (buf : Option (List (BitVec 8))) (kmalloc : Option Nat) : Result (Int × Vfs) :=
  match node, buf with
  | some ptr, some buf => do
    let node ← v.node ptr
    if node.type ≠ .file then return (-1, v)
    else if buf.length > vfsMaxFileSize then return (-1, v)
    else
      let node := if node.borrowed then { node with data := none, capacity := 0, borrowed := false } else node
      let v := v.setNode ptr node
      let (grown, v) ← growBuffer v node buf.length kmalloc
      match grown with
      | none => return (-1, v)
      | some node =>
        match node.data with
        | none => .error .invalid
        | some data =>
          return (castInt buf.length, { v.setNode ptr { node with size := buf.length } with bytes := copyIn v.bytes data buf })
  | _, _ => .ok (-1, v)

def vfsSetData (v : Vfs) (node : Option NodePtr) (data size : Nat) : Result Vfs :=
  match node with
  | none => .ok v
  | some ptr => do
    let node ← v.node ptr
    if node.type ≠ .file then return v
    else
      let v ← v.freeOwned node
      return v.setNode ptr { node with data := some data, size := size, capacity := size, borrowed := true }

/-- The result is the returned value and the bytes that arrive in the buffer. -/
def vfsRead (v : Vfs) (node : Option NodePtr) (size : Nat) : Result (Int × List (BitVec 8)) :=
  match node with
  | none => .ok (-1, [])
  | some ptr => do
    let node ← v.node ptr
    if node.type ≠ .file then return (-1, [])
    else
      let toCopy := if size < node.size then size else node.size
      if toCopy > 0 then
        match node.data with
        | none => .error .invalid
        | some data => return (castInt toCopy, copyOut v.bytes data toCopy)
      else return (castInt toCopy, [])

/-- A call to the file system. -/
inductive VfsOp where
  | mkdir (path : List Char) (kmallocs : List (Option NodePtr))
  | createFile (path : List Char) (kmallocs : List (Option NodePtr)) (kmalloc : Option NodePtr)
  | createDevice (path : List Char) (device : Nat) (kmallocs : List (Option NodePtr)) (kmalloc : Option NodePtr)
  | setData (node : NodePtr) (data size : Nat)
  | write (node : NodePtr) (buf : List (BitVec 8)) (kmalloc : Option Nat)
  | read (node : NodePtr) (size : Nat)
  | remove (path : List Char)

def Vfs.step (v : Vfs) : VfsOp → Result Vfs
  | .mkdir path kmallocs => (vfsMkdir v path kmallocs).map Prod.snd
  | .createFile path kmallocs kmalloc => (vfsCreateFile v path kmallocs kmalloc).map Prod.snd
  | .createDevice path device kmallocs kmalloc => (vfsCreateDevice v path (some device) kmallocs kmalloc).map Prod.snd
  | .setData node data size => vfsSetData v (some node) data size
  | .write node buf kmalloc => (vfsWrite v (some node) (some buf) kmalloc).map Prod.snd
  | .read node size => (vfsRead v (some node) size).map fun _ => v
  | .remove path => (vfsRemove v path).map Prod.snd

end DoccrOS.Fs
