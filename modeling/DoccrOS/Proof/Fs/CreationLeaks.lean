import DoccrOS.Proof.Fs.FileRuns

namespace DoccrOS.Fs
open Lib

/-- The addresses of the nodes that `kmalloc` handed out and `kfree` has not seen. -/
def Vfs.liveNodes (v : Vfs) : Set NodePtr := {ptr | v.nodes ptr ≠ none}

/-- The call has changed neither the tree nor the live allocations. -/
structure Spared (v v' : Vfs) : Prop where
  tree : v'.child = v.child
  nodes : v'.liveNodes = v.liveNodes
  buffers : v'.buffers = v.buffers

/-- A failing creation keeps the node that it allocated before its checks. -/
def Vfs.leak (v : Vfs) : (kmalloc : Option NodePtr) → Vfs
  | none => v
  | some new => v.setNode new .zero

/-- A directory with as many children as it can hold. -/
def Full (v : Vfs) (dir : NodePtr) : Prop :=
  ∃ node, v.nodes dir = some node ∧ node.type = .directory ∧ vfsMaxChildren ≤ node.childCount

/-- A path whose directory exists and has the name already or is full. -/
def FruitlessAt (v : Vfs) (path : List Char) : Prop :=
  ∃ dirpath fname dir, vfsSplitPath path = .ok (dirpath, fname) ∧ fname ≠ [] ∧ v.lookup (tokens dirpath) = some dir ∧
    (v.child dir fname ≠ none ∨ Full v dir)

/-- A creation on a path that exists or in a full directory. -/
def VfsOp.Fruitless (v : Vfs) : VfsOp → Prop
  | .mkdir path _ => v.lookup (tokens path) ≠ none ∨ ∃ front token rest last,
      tokens path = front ++ token :: rest ∧ v.lookup front = some last ∧ v.child last token = none ∧ Full v last
  | .createFile path _ _ => FruitlessAt v path
  | .createDevice path _ _ _ => FruitlessAt v path
  | _ => False

/-- The result of the `kmalloc` call of a fruitless creation. `vfs_mkdir` of a path that exists does not call `kmalloc`. -/
def VfsOp.handedOut (v : Vfs) : VfsOp → Option NodePtr
  | .mkdir path kmallocs => if v.lookup (tokens path) = none then kmallocs.head?.join else none
  | .createFile _ _ kmalloc => kmalloc
  | .createDevice _ _ _ kmalloc => kmalloc
  | _ => none

/-- The call keeps the tree and leaks a node. -/
structure Leaks (v v' : Vfs) (kmalloc : Option NodePtr) : Prop where
  tree : v'.child = v.child
  buffers : v'.buffers = v.buffers
  nodes : v'.liveNodes = v.liveNodes ∪ {new | kmalloc = some new}
  dead : ∀ new, kmalloc = some new → v.nodes new = none

theorem Spared.trans {v v' v'' : Vfs} (first : Spared v v') (second : Spared v' v'') : Spared v v'' :=
  ⟨second.tree.trans first.tree, second.nodes.trans first.nodes, second.buffers.trans first.buffers⟩

section
variable {v v' : Vfs} {parent kmalloc result : Option NodePtr} {name : Option (List Char)} {type : VfsType} {dir new : NodePtr}
  {kmallocs : List (Option NodePtr)} {path p : List Char} {front : List (List Char)} {token : List Char} {fuel : Nat}

theorem nodeAlloc_leak {n : Option NodePtr} (allocated : nodeAlloc v kmalloc = .ok (n, v')) :
    n = kmalloc ∧ v' = v.leak kmalloc ∧ ∀ new, kmalloc = some new → v.nodes new = none := by
  cases kmalloc with
  | none =>
      cases allocated
      exact ⟨rfl, rfl, nofun⟩
  | some new =>
      cases dead : v.nodes new with
      | some old =>
          simp only [nodeAlloc, dead] at allocated
          cases allocated
      | none =>
          simp only [nodeAlloc, dead] at allocated
          cases allocated
          refine ⟨rfl, rfl, ?_⟩
          rintro _ ⟨⟩
          exact dead

/-- A call of `vfs_create_node` that returns NULL or a node that lived before leaks the node it allocated. -/
theorem createNode_leaks (returned : vfsCreateNode v parent name type kmalloc = .ok (result, v'))
    (nothing : ∀ ptr, result = some ptr → v.nodes ptr ≠ none) :
    v' = v.leak kmalloc ∧ ∀ new, kmalloc = some new → v.nodes new = none := by
  unfold vfsCreateNode at returned
  obtain ⟨existing, _, rest⟩ := Result.bind_ok returned
  obtain ⟨⟨n, v₁⟩, allocated, rest⟩ := Result.bind_ok rest
  obtain ⟨rfl, rfl, dead⟩ := nodeAlloc_leak allocated
  suffices same : v' = v.leak n from ⟨same, dead⟩
  cases parent with
  | none =>
      cases rest
      rfl
  | some parent =>
      cases name with
      | none =>
          cases rest
          rfl
      | some name =>
          simp only at rest
          split at rest
          · cases rest
            rfl
          obtain ⟨dir, _, rest⟩ := Result.bind_ok rest
          split at rest
          · cases rest
            rfl
          cases existing with
          | some existing =>
              cases rest
              rfl
          | none =>
              simp only at rest
              split at rest
              · cases rest
                rfl
              cases n with
              | none =>
                  cases rest
                  rfl
              | some new =>
                  -- the branch that links the new node returns a node that was dead
                  obtain ⟨node, _, rest⟩ := Result.bind_ok rest
                  cases rest
                  exact absurd (dead new rfl) (nothing new rfl)

theorem liveNodes_leak : (v.leak kmalloc).liveNodes = v.liveNodes ∪ {new | kmalloc = some new} := by
  ext ptr
  cases kmalloc with
  | none => simp [Vfs.leak]
  | some new =>
      by_cases isNew : ptr = new
      · simp [Vfs.leak, Vfs.liveNodes, isNew]
      · simp [Vfs.leak, Vfs.liveNodes, setNode_other v .zero isNew, isNew, eq_comm]

theorem VfsInv.leak (inv : VfsInv v) (dead : ∀ new, kmalloc = some new → v.nodes new = none) :
    Leaks v (v.leak kmalloc) kmalloc := by
  cases kmalloc with
  | none => exact ⟨rfl, rfl, liveNodes_leak, dead⟩
  | some new => exact ⟨(inv.alloc (dead new rfl)).2, rfl, liveNodes_leak, dead⟩

/-- A leak spares the heap exactly when there is nothing to leak. -/
theorem leaked_none (nodes : v'.liveNodes = v.liveNodes ∪ {new | kmalloc = some new})
    (dead : ∀ new, kmalloc = some new → v.nodes new = none) (same : v'.liveNodes = v.liveNodes) : kmalloc = none := by
  cases kmalloc with
  | none => rfl
  | some new =>
      have live : new ∈ v.liveNodes := by
        rw [← same, nodes]
        exact Or.inr rfl
      exact absurd (dead new rfl) live

/-- `vfs_mkdir` of a path that exists allocates nothing. -/
theorem VfsInv.mkdirFrom_existing (inv : VfsInv v) (live : v.nodes dir ≠ none) (noSlash : p.head? ≠ some '/')
    (exists_ : resolve v.child dir (tokensFrom fuel p) ≠ none)
    (returned : vfsMkdirFrom fuel v dir p kmallocs = .ok (result, v')) : v' = v := by
  induction fuel generalizing dir p with
  | zero => cases returned
  | succ fuel ih =>
      by_cases empty : p = []
      · rw [vfsMkdirFrom, if_pos empty] at returned
        cases returned
        rfl
      obtain ⟨ok, _⟩ := takeToken_ok empty noSlash
      obtain ⟨node, isNode⟩ := Option.ne_none_iff_exists'.mp live
      rw [tokensFrom_succ empty noSlash, resolve, List.foldlM_cons] at exists_
      rw [vfsMkdirFrom, if_neg empty] at returned
      simp only [if_neg ok.nonempty] at returned
      rw [inv.findChild isNode, Result.ok_bind] at returned
      cases found : v.child dir (takeToken (vfsNameMax - 1) p).1 with
      | none =>
          rw [found] at exists_
          exact absurd rfl exists_
      | some next =>
          rw [found] at exists_
          simp only [found] at returned
          obtain ⟨value, isNext, rest⟩ := Result.bind_ok returned
          split at rest
          · cases rest
            rfl
          · exact ih (by rw [node_some.mp isNext]; exact Option.some_ne_none _) (skipSlashes_head _) exists_ rest

/-- `vfs_create_node` below a directory that has the name or is full leaks the node it allocated. -/
theorem VfsInv.createNode_refused (inv : VfsInv v) (live : v.nodes dir ≠ none) (ok : TokenOk token)
    (refuses : v.child dir token ≠ none ∨ Full v dir)
    (returned : vfsCreateNode v (some dir) (some token) type kmalloc = .ok (result, v')) :
    v' = v.leak kmalloc ∧ (∀ new, kmalloc = some new → v.nodes new = none) ∧ (v.child dir token = none → result = none) := by
  obtain ⟨node, isNode⟩ := Option.ne_none_iff_exists'.mp live
  obtain ⟨_, _, creates⟩ := inv.createNode isNode ok returned
  cases creates with
  | failed _ =>
      obtain ⟨same, dead⟩ := createNode_leaks returned nofun
      exact ⟨same, dead, fun _ => rfl⟩
  | existing ptr found _ =>
      obtain ⟨_, below, _, _, liveKid, _⟩ := inv.child_spec found
      obtain ⟨same, dead⟩ := createNode_leaks returned fun other isPtr => by
        rw [← Option.some.inj isPtr, liveKid]
        exact Option.some_ne_none below
      refine ⟨same, dead, fun absent => ?_⟩
      rw [found] at absent
      cases absent
  | linked new before below links isName _ =>
      rcases refuses with found | ⟨other, isOther, _, full⟩
      · exact absurd (isName ▸ links.absent) found
      · rw [links.live] at isOther
        cases isOther
        exact absurd links.room (Nat.not_lt.mpr full)

/-- `vfs_mkdir` leaks a node at a full directory that misses the next name. -/
theorem VfsInv.mkdirFrom_full (inv : VfsInv v) (noSlash : p.head? ≠ some '/') {rest : List (List Char)} {last : NodePtr}
    (names : tokensFrom fuel p = front ++ token :: rest) (reached : resolve v.child dir front = some last)
    (absent : v.child last token = none) (full : Full v last)
    (returned : vfsMkdirFrom fuel v dir p kmallocs = .ok (result, v')) (live : v.nodes dir ≠ none) :
    v' = v.leak kmallocs.head?.join ∧ ∀ new, kmallocs.head?.join = some new → v.nodes new = none := by
  induction fuel generalizing dir p front with
  | zero => cases returned
  | succ fuel ih =>
      by_cases empty : p = []
      · rw [tokensFrom, if_pos empty] at names
        exact absurd names (by simp)
      obtain ⟨ok, _⟩ := takeToken_ok empty noSlash
      obtain ⟨node, isNode⟩ := Option.ne_none_iff_exists'.mp live
      rw [tokensFrom_succ empty noSlash] at names
      rw [vfsMkdirFrom, if_neg empty] at returned
      simp only [if_neg ok.nonempty] at returned
      rw [inv.findChild isNode, Result.ok_bind] at returned
      cases front with
      | nil =>
          obtain ⟨sameToken, _⟩ := List.cons.inj names
          cases reached
          rw [sameToken] at ok returned
          rw [absent] at returned
          obtain ⟨⟨next, v₁⟩, created, rest⟩ := Result.bind_ok returned
          obtain ⟨same, dead, none⟩ := inv.createNode_refused live ok (Or.inr full) created
          cases none absent
          cases rest
          exact ⟨same, dead⟩
      | cons first front =>
          obtain ⟨sameToken, tail⟩ := List.cons.inj names
          rw [resolve, List.foldlM_cons] at reached
          obtain ⟨next, found, reached⟩ := Option.bind_eq_some_iff.mp reached
          rw [sameToken, found] at returned
          obtain ⟨value, isNext, rest⟩ := Result.bind_ok returned
          have liveNext := node_some.mp isNext
          -- a directory with a child, or the full one itself
          have directory : value.type = .directory := by
            cases front with
            | nil =>
                cases reached
                obtain ⟨other, isOther, isDirectory, _⟩ := full
                rw [liveNext] at isOther
                cases isOther
                exact isDirectory
            | cons second front =>
                by_contra other
                have noKids := (inv.node next value liveNext).directory other
                rw [List.foldlM_cons, child_some liveNext, noKids] at reached
                cases reached
          rw [if_neg (not_not.mpr directory)] at rest
          exact ih (skipSlashes_head _) tail reached rest (by rw [liveNext]; exact Option.some_ne_none _)

/-- `vfs_mkdir` leaks at most one node on a path that exists or ends in a full directory. -/
theorem VfsInv.mkdir_fruitless (inv : VfsInv v) (fruitless : (VfsOp.mkdir path kmallocs).Fruitless v)
    (returned : vfsMkdir v path kmallocs = .ok (result, v')) : Leaks v v' ((VfsOp.mkdir path kmallocs).handedOut v) := by
  have kept : v' = v → v.lookup (tokens path) ≠ none → Leaks v v' ((VfsOp.mkdir path kmallocs).handedOut v) := by
    intro same found
    rw [same, VfsOp.handedOut, if_neg found]
    exact @VfsInv.leak v none inv nofun
  unfold vfsMkdir at returned
  cases isRoot : v.root with
  | none =>
      rcases fruitless with found | ⟨_, _, _, _, _, found, _⟩
      · exact absurd (by rw [Vfs.lookup, isRoot]; rfl) found
      · rw [Vfs.lookup, isRoot] at found
        cases found
  | some root =>
      obtain ⟨node, live, _⟩ := inv.root root isRoot
      have isLive : v.nodes root ≠ none := by
        rw [live]
        exact Option.some_ne_none node
      simp only [isRoot] at returned
      by_cases short : path = [] ∨ path = ['/']
      · rw [if_pos short] at returned
        cases returned
        refine kept rfl ?_
        rw [tokens_root short, lookup_of_root isRoot]
        exact Option.some_ne_none root
      rw [if_neg short] at returned
      by_cases found : v.lookup (tokens path) = none
      · rcases fruitless with here | ⟨front, token, rest, last, names, reached, absent, full⟩
        · exact absurd found here
        · rw [lookup_of_root isRoot] at reached
          obtain ⟨same, dead⟩ := inv.mkdirFrom_full (skipSlashes_head path) names reached absent full returned isLive
          rw [same, VfsOp.handedOut, if_pos found]
          exact inv.leak dead
      · refine kept (inv.mkdirFrom_existing isLive (skipSlashes_head path) ?_ returned) found
        rwa [lookup_of_root isRoot] at found

theorem VfsInv.createAt_fruitless (inv : VfsInv v) (fruitless : FruitlessAt v path)
    (returned : vfsCreateAt v path type kmallocs kmalloc = .ok (result, v')) : Leaks v v' kmalloc := by
  obtain ⟨dirpath, fname, dir, split, nonempty, found, refuses⟩ := fruitless
  obtain ⟨noSlash, short⟩ := vfsSplitPath_name split
  unfold vfsCreateAt at returned
  obtain ⟨root, isRoot, reached⟩ := Option.bind_eq_some_iff.mp found
  simp only [isRoot, split, Result.ok_bind, if_neg nonempty] at returned
  rw [inv.find, Result.ok_bind, isRoot, Option.bind_some, reached] at returned
  obtain ⟨node, live⟩ := inv.resolve_live isRoot reached
  have isLive : v.nodes dir ≠ none := by
    rw [live]
    exact Option.some_ne_none node
  obtain ⟨same, dead, _⟩ := inv.createNode_refused isLive ⟨nonempty, noSlash, short⟩ refuses returned
  rw [same]
  exact inv.leak dead

/-- The edges of the tree depend on the names and the children only. -/
theorem child_congr (same : ∀ ptr, (v'.nodes ptr).map (fun node => (node.name, node.kids)) =
    (v.nodes ptr).map fun node => (node.name, node.kids)) : v'.child = v.child := by
  have named : v'.named = v.named := by
    funext name ptr
    have shape (v : Vfs) : v.named name ptr = ((v.nodes ptr).map fun node => (node.name, node.kids)).any
        fun shape => shape.1 == name := by
      rw [Option.any_map]
      rfl
    rw [shape, shape, same]
  funext dir name
  have shape (v : Vfs) : v.child dir name = ((v.nodes dir).map fun node => (node.name, node.kids)).bind
      fun shape => shape.2.find? (v.named name) := by
    rw [Option.bind_map]
    rfl
  rw [shape, shape, same, named]

/-- A new device keeps the tree and the live nodes. -/
theorem Leaks.setDevice {ptr : NodePtr} {node : VfsNode} (leaks : Leaks v v' kmalloc) (live : v'.nodes ptr = some node)
    (device : Option Nat) : Leaks v (v'.setNode ptr { node with device := device }) kmalloc := by
  refine ⟨Eq.trans (child_congr fun query => ?_) leaks.tree, leaks.buffers, Eq.trans ?_ leaks.nodes, leaks.dead⟩
  · by_cases here : query = ptr
    · rw [here, setNode_here, live]
      rfl
    · rw [setNode_other _ _ here]
  · ext query
    by_cases here : query = ptr
    · simp [Vfs.liveNodes, here, live]
    · simp [Vfs.liveNodes, setNode_other _ _ here]

/-- Every fruitless creation leaks the node that `kmalloc` gives it. -/
theorem VfsInv.step_fruitless {op : VfsOp} (inv : VfsInv v) (fruitless : op.Fruitless v) (returned : v.step op = .ok v') :
    Leaks v v' (op.handedOut v) := by
  cases op with
  | mkdir path kmallocs =>
      obtain ⟨⟨result, after⟩, called, rfl⟩ := Result.map_ok returned
      exact inv.mkdir_fruitless fruitless called
  | createFile path kmallocs kmalloc =>
      obtain ⟨⟨result, after⟩, called, rfl⟩ := Result.map_ok returned
      exact inv.createAt_fruitless fruitless called
  | createDevice path device kmallocs kmalloc =>
      obtain ⟨⟨result, after⟩, called, rfl⟩ := Result.map_ok returned
      obtain ⟨⟨made, v₁⟩, created, rest⟩ := Result.bind_ok called
      have leaks := inv.createAt_fruitless fruitless created
      cases made with
      | none =>
          cases rest
          exact leaks
      | some ptr =>
          obtain ⟨node, isNode, rest⟩ := Result.bind_ok rest
          cases rest
          exact leaks.setDevice (node_some.mp isNode) _
  | setData node data size => cases fruitless
  | write node buf kmalloc => cases fruitless
  | read node size => cases fruitless
  | remove path => cases fruitless

end

section
variable {start final : Vfs} {ops : List VfsOp}

/-- Fruitless creations never give a live node back. -/
theorem fruitless_grows (inv : VfsInv start) (run : Run Vfs.step (fun v op => op.Fruitless v) start ops final) :
    start.liveNodes ⊆ final.liveNodes := by
  induction run with
  | nil state => exact Set.Subset.rfl
  | cons permitted returned _ ih =>
      refine Set.Subset.trans ?_ (ih (inv.step returned))
      rw [(inv.step_fruitless permitted returned).nodes]
      exact Set.subset_union_left

/-- Fruitless creations spare the heap exactly when `kmalloc` gives none of them a node. -/
theorem fruitless_spared (inv : VfsInv start) (run : Run Vfs.step (fun v op => op.Fruitless v) start ops final) :
    Spared start final ↔ Run Vfs.step (fun v op => op.Fruitless v ∧ op.handedOut v = none) start ops final := by
  induction run with
  | nil state => exact ⟨fun _ => Run.nil state, fun _ => ⟨rfl, rfl, rfl⟩⟩
  | cons permitted returned rest ih =>
      rename_i before middle last op ops
      have leaks := inv.step_fruitless permitted returned
      have inv' := inv.step returned
      have spare : op.handedOut before = none → Spared before middle := by
        intro none
        have nodes := leaks.nodes
        rw [none] at nodes
        exact ⟨leaks.tree, by simpa using nodes, leaks.buffers⟩
      constructor
      · intro spared
        have same : middle.liveNodes = before.liveNodes := by
          apply Set.Subset.antisymm
          · rw [← spared.nodes]
            exact fruitless_grows inv' rest
          · rw [leaks.nodes]
            exact Set.subset_union_left
        have none := leaked_none leaks.nodes leaks.dead same
        have first := spare none
        have second : Spared middle last :=
          ⟨spared.tree.trans first.tree.symm, spared.nodes.trans same.symm, spared.buffers.trans first.buffers.symm⟩
        exact Run.cons ⟨permitted, none⟩ returned ((ih inv').mp second)
      · intro run
        cases run with
        | cons permitted' returned' rest' =>
            rw [returned] at returned'
            cases returned'
            exact (spare permitted'.2).trans ((ih inv').mpr rest')

/-- A creation that returns NULL or an old node costs nothing exactly when `kmalloc` gave it no node. The same holds for runs of
creations on existing paths and in full directories. -/
theorem creation_costs (v : Vfs) (parent : Option NodePtr) (name : Option (List Char)) (type : VfsType)
    (kmalloc : Option NodePtr) (start : Vfs) (ops : List VfsOp) :
    (∀ result v', vfsCreateNode v parent name type kmalloc = .ok (result, v') →
      (∀ ptr, result = some ptr → v.nodes ptr ≠ none) → (Spared v v' ↔ kmalloc = none)) ∧
    ∀ final, VfsInv start → Run Vfs.step (fun v op => op.Fruitless v) start ops final →
      (Spared start final ↔ Run Vfs.step (fun v op => op.Fruitless v ∧ op.handedOut v = none) start ops final) := by
  refine ⟨?_, fun _ inv run => fruitless_spared inv run⟩
  intro result v' returned nothing
  obtain ⟨rfl, dead⟩ := createNode_leaks returned nothing
  constructor
  · intro spared
    exact leaked_none liveNodes_leak dead spared.nodes
  · rintro rfl
    exact ⟨rfl, rfl, rfl⟩

end

/-- The second creation of one name returns the first node and leaks its own. -/
theorem creation_leaks : ¬∀ (v v' : Vfs) (parent : Option NodePtr) (name : Option (List Char)) (type : VfsType)
    (kmalloc result : Option NodePtr), VfsInv v → vfsCreateNode v parent name type kmalloc = .ok (result, v') →
    (∀ ptr, result = some ptr → v.nodes ptr ≠ none) → Spared v v' := by
  intro claim
  cases booted : vfsInit (Vfs.boot (fun _ => 0) ⟨0x1000, 16⟩) (some 1) with
  | error halt => cases booted
  | ok start =>
      have second : ((start.step (.createFile ['/', 'a'] [] (some 2))).bind fun v =>
          (vfsCreateNode v (some 1) (some ['a']) .file (some 3)).map fun made =>
            (made.1, (v.nodes 2).isSome, (v.nodes 3).isSome, (made.2.nodes 3).isSome)).toOption =
          some (some 2, true, false, true) := by
        cases booted
        decide +kernel
      cases first : start.step (.createFile ['/', 'a'] [] (some 2)) with
      | error halt =>
          rw [first] at second
          cases second
      | ok v =>
          rw [first] at second
          obtain ⟨⟨result, v'⟩, returned, shown⟩ := exists_of_toOption second
          simp only [Prod.mk.injEq] at shown
          obtain ⟨rfl, old, dead, leaked⟩ := shown
          have spared := claim v v' (some 1) (some ['a']) .file (some 3) (some 2) ((vfsInit_inv booted).1.step first) returned
            fun ptr isPtr => by
              rw [← Option.some.inj isPtr]
              exact Option.ne_none_iff_isSome.mpr old
          have live : 3 ∈ v.liveNodes := by
            rw [← spared.nodes]
            exact Option.ne_none_iff_isSome.mpr leaked
          rw [Option.ne_none_iff_isSome.mp live] at dead
          cases dead

end DoccrOS.Fs
