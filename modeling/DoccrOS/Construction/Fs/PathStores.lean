import DoccrOS.Construction.Fs.Vfs
import DoccrOS.Lib.Logged

namespace DoccrOS.Fs
open Lib

/-- The arrays that the path routines store characters into. The array `name` is the field of a node. -/
inductive PathBuffer where
  | token
  | fname
  | dirpath
  | name
deriving DecidableEq, Repr

/-- The length of the array. -/
def PathBuffer.size : PathBuffer → Nat
  | .dirpath => vfsMaxPath
  | _ => vfsNameMax

/-- A store to an entry of an array. -/
structure PathStore where
  buffer : PathBuffer
  index : Nat
deriving DecidableEq, Repr

/-- The entry is one of the array. -/
def PathStore.Inside (store : PathStore) : Prop := store.index < store.buffer.size

/-- A computation with the stores that it makes. -/
abbrev Stores (A : Type) := Logged PathStore Halt A

/-- The loop of `str_copy` from `dest[i]` on. -/
def strCopy (dest : PathBuffer) : (i : Nat) → (src : List Char) → Stores Unit
  | i, [] => .access [⟨dest, i⟩] ()
  | i, _ :: src => do
    Logged.access [⟨dest, i⟩] ()
    strCopy dest (i + 1) src

/-- The loop that copies a token, with its stores from `token[i]` on. -/
def takeTokenStores : (room i : Nat) → List Char → Stores (List Char × List Char)
  | 0, i, p => .access [⟨.token, i⟩] ([], p)
  | _ + 1, i, [] => .access [⟨.token, i⟩] ([], [])
  | room + 1, i, c :: p =>
    if c = '/' then .access [⟨.token, i⟩] ([], c :: p)
    else do
      Logged.access [⟨.token, i⟩] ()
      let (token, rest) ← takeTokenStores room (i + 1) p
      return (c :: token, rest)

/-- The function `vfs_create_node` with its stores. -/
def vfsCreateNodeStores (v : Vfs) (parent : Option NodePtr) (name : Option (List Char)) (type : VfsType)
    (kmalloc : Option NodePtr) : Stores (Option NodePtr × Vfs) := do
  let existing ← Logged.lift (vfsFindChild v parent name)
  let (n, v) ← Logged.lift (nodeAlloc v kmalloc)
  match parent, name with
  | some parent, some name =>
    if name = [] then return (none, v)
    else
      let dir ← Logged.lift (v.node parent)
      if dir.type ≠ .directory then return (none, v)
      else
        match existing with
        | some existing => return (some existing, v)
        | none =>
          if dir.childCount ≥ vfsMaxChildren then return (none, v)
          else
            match n with
            | none => return (none, v)
            | some n =>
              let node ← Logged.lift (v.node n)
              strCopy .name 0 name
              let v := v.setNode n { node with
                name := name, type := type, parent := some parent, childCount := 0, data := none, size := 0, capacity := 0,
                device := none }
              let v := v.setNode parent { dir with
                children := Function.update dir.children dir.childCount (some n), childCount := dir.childCount + 1 }
              return (some n, v)
  | _, _ => return (none, v)

/-- The loop of `vfs_find` with its stores. -/
def vfsFindFromStores (v : Vfs) : (fuel : Nat) → (cur : NodePtr) → (p : List Char) → Stores (Option NodePtr)
  | 0, _, _ => .lift (.error .hang)
  | fuel + 1, cur, p =>
    if p = [] then return some cur
    else do
      let (token, p) ← takeTokenStores (vfsNameMax - 1) 0 p
      if token = [] then return some cur
      else
        match ← Logged.lift (vfsFindChild v (some cur) (some token)) with
        | none => return none
        | some next => vfsFindFromStores v fuel next (skipSlashes p)

/-- The function `vfs_find` with its stores. -/
def vfsFindStores (v : Vfs) (path : List Char) : Stores (Option NodePtr) :=
  match v.root with
  | none => return none
  | some root =>
    if path = [] ∨ path = ['/'] then return some root
    else vfsFindFromStores v (path.length + 1) root (skipSlashes path)

/-- The loop of `vfs_mkdir` with its stores. -/
def vfsMkdirFromStores : (fuel : Nat) → Vfs → (cur : NodePtr) → (p : List Char) → (kmallocs : List (Option NodePtr)) →
    Stores (Option NodePtr × Vfs)
  | 0, _, _, _, _ => .lift (.error .hang)
  | fuel + 1, v, cur, p, kmallocs =>
    if p = [] then return (some cur, v)
    else do
      let (token, p) ← takeTokenStores (vfsNameMax - 1) 0 p
      if token = [] then return (some cur, v)
      else
        match ← Logged.lift (vfsFindChild v (some cur) (some token)) with
        | none =>
          let (next, v) ← vfsCreateNodeStores v (some cur) (some token) .directory kmallocs.head?.join
          match next with
          | none => return (none, v)
          | some next => vfsMkdirFromStores fuel v next (skipSlashes p) kmallocs.tail
        | some next =>
          let node ← Logged.lift (v.node next)
          if node.type ≠ .directory then return (none, v)
          else vfsMkdirFromStores fuel v next (skipSlashes p) kmallocs

/-- The function `vfs_mkdir` with its stores. -/
def vfsMkdirStores (v : Vfs) (path : List Char) (kmallocs : List (Option NodePtr)) : Stores (Option NodePtr × Vfs) :=
  match v.root with
  | none => return (none, v)
  | some root =>
    if path = [] ∨ path = ['/'] then return (some root, v)
    else vfsMkdirFromStores (path.length + 1) v root (skipSlashes path) kmallocs

/-- The call `str_copy(fname_out, name)` with its stores. It does not know the length of `fname`. -/
def copyNameStores (name : List Char) : Stores (List Char) := do
  strCopy .fname 0 name
  Logged.lift (copyName name)

/-- The loop of `vfs_split_path` that copies the directory part, with its stores from `dirpath_out[i]` on. -/
def copyDirpath : (left i : Nat) → (path : List Char) → Stores (List Char)
  | 0, i, _ => .access [⟨.dirpath, i⟩] []
  | _ + 1, i, [] => .access [⟨.dirpath, i⟩] []
  | left + 1, i, c :: path => do
    Logged.access [⟨.dirpath, i⟩] ()
    let rest ← copyDirpath left (i + 1) path
    return c :: rest

/-- The function `vfs_split_path` with its stores. -/
def vfsSplitPathStores (path : List Char) : Stores (List Char × List Char) :=
  match lastSlash 0 none path with
  | none => do
    strCopy .dirpath 0 ['/']
    let fname ← copyNameStores path
    return (['/'], fname)
  | some 0 => do
    strCopy .dirpath 0 ['/']
    let fname ← copyNameStores (path.drop 1)
    return (['/'], fname)
  | some last => do
    let dirpath ← copyDirpath (min last (vfsMaxPath - 1)) 0 path
    let fname ← copyNameStores (path.drop (last + 1))
    return (dirpath, fname)

/-- The shared part of `vfs_create_file` and `vfs_create_device` with its stores. -/
def vfsCreateAtStores (v : Vfs) (path : List Char) (type : VfsType) (kmallocs : List (Option NodePtr))
    (kmalloc : Option NodePtr) : Stores (Option NodePtr × Vfs) :=
  match v.root with
  | none => return (none, v)
  | some _ => do
    let (dirpath, fname) ← vfsSplitPathStores path
    if fname = [] then return (none, v)
    else
      let found ← vfsFindStores v dirpath
      let (dir, v) ← match found with
        | some dir => pure (some dir, v)
        | none => vfsMkdirStores v dirpath kmallocs
      match dir with
      | none => return (none, v)
      | some dir => vfsCreateNodeStores v (some dir) (some fname) type kmalloc

/-- The function `vfs_create_file` with its stores. -/
def vfsCreateFileStores (v : Vfs) (path : List Char) (kmallocs : List (Option NodePtr)) (kmalloc : Option NodePtr) :
    Stores (Option NodePtr × Vfs) :=
  vfsCreateAtStores v path .file kmallocs kmalloc

/-- The function `vfs_create_device` with its stores. -/
def vfsCreateDeviceStores (v : Vfs) (path : List Char) (device : Option Nat) (kmallocs : List (Option NodePtr))
    (kmalloc : Option NodePtr) : Stores (Option NodePtr × Vfs) :=
  match device with
  | none => return (none, v)
  | some device => do
    let (node, v) ← vfsCreateAtStores v path .device kmallocs kmalloc
    match node with
    | none => return (none, v)
    | some ptr =>
      let node ← Logged.lift (v.node ptr)
      return (some ptr, v.setNode ptr { node with device := some device })

end DoccrOS.Fs
