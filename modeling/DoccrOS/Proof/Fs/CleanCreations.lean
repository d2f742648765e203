import DoccrOS.Proof.Fs.CreatedNodes

namespace DoccrOS.Fs
open Lib

/-- The root, the edges and the records of the nodes are the same. A leaked node lies outside the tree. -/
structure SameTree (v v' : Vfs) : Prop where
  root : v'.root = v.root
  child : v'.child = v.child
  node : ∀ ptr node, v.nodes ptr = some node → v'.nodes ptr = some node

/-- The node cannot take another child. -/
def Vfs.refuses (v : Vfs) (dir : NodePtr) : Bool :=
  (v.nodes dir).any fun node => node.type != .directory || decide (vfsMaxChildren ≤ node.childCount)

/-- A directory without children. -/
def EmptyDirectory (v : Vfs) (dir : NodePtr) : Prop :=
  ∃ node, v.nodes dir = some node ∧ node.type = .directory ∧ node.childCount = 0

/-- The results of `kmalloc` that a creation asks for: one for each missing directory and one for the node. -/
def creationMemory (kmallocs : List (Option NodePtr)) (kmalloc : Option NodePtr) (count : Nat) : List (Option NodePtr) :=
  (List.range count).map (fun i => kmallocs[i]?.join) ++ [kmalloc]

/-- A creation that leaves nothing half made and takes no other node. On a path with a node, the node has the type and is not
taken. On a path without one, the creation fails at the first missing name or gets the memory it asks for. -/
def Vfs.cleanAt (v : Vfs) (path : List Char) (type : VfsType) (kmallocs : List (Option NodePtr)) (kmalloc : Option NodePtr)
    (taken : List (List Char) → Bool) : Bool :=
  match v.root, vfsSplitPath path with
  | some root, .ok (dirpath, fname) =>
    let names := tokens dirpath ++ [fname]
    fname == [] ||
      match resolve v.child root names with
      | some n => tokens path == names && (v.nodes n).any (fun node => node.type == type) && !taken names
      | none =>
        let memory := creationMemory kmallocs kmalloc (missing v.child root (tokens dirpath))
        v.refuses (deepest v.child root names) || memory.head? == some none ||
          (tokens path == names && memory.all Option.isSome)
  | _, _ => true

/-- The node at the names stays there with its type and its device. -/
def KeepsNode (v v' : Vfs) (names : List (List Char)) : Prop :=
  ∀ n node, v.lookup names = some n → v.nodes n = some node →
    v'.lookup names = some n ∧ ∃ node', v'.nodes n = some node' ∧ node'.type = node.type ∧ node'.device = node.device

/-- The path leads to a device node of the handler. -/
def MountedAt (v : Vfs) (path : List Char) (device : Nat) : Prop :=
  ∃ n node, vfsFind v path = .ok (some n) ∧ v.nodes n = some node ∧ node.type = .device ∧ node.device = some device

/-- The first `count` results of `kmalloc` are addresses. -/
def Given (kmallocs : List (Option NodePtr)) (count : Nat) : Prop := ∀ i < count, kmallocs[i]?.join.isSome = true

section
variable {v v' : Vfs} {dir new root : NodePtr} {node : VfsNode} {name p path dirpath fname : List Char} {type : VfsType}
  {fuel count : Nat} {kmalloc result : Option NodePtr} {kmallocs : List (Option NodePtr)}

theorem SameTree.refl (v : Vfs) : SameTree v v := ⟨rfl, rfl, fun _ _ live => live⟩

theorem VfsInv.sameTree_leak (inv : VfsInv v) (dead : ∀ new, kmalloc = some new → v.nodes new = none) :
    SameTree v (v.leak kmalloc) := by
  have leaks := inv.leak dead
  cases kmalloc with
  | none => exact SameTree.refl v
  | some new =>
      refine ⟨rfl, leaks.tree, ?_⟩
      intro ptr node live
      have different : ptr ≠ new := by
        intro same
        rw [same, dead new rfl] at live
        cases live
      exact (setNode_other v .zero different).trans live

/-- A call of `vfs_create_node` that returns NULL keeps the tree. -/
theorem VfsInv.createNode_failed (inv : VfsInv v) {parent : Option NodePtr} {name : Option (List Char)}
    (returned : vfsCreateNode v parent name type kmalloc = .ok (none, v')) : SameTree v v' := by
  obtain ⟨rfl, dead⟩ := createNode_leaks returned nofun
  exact inv.sameTree_leak dead

/-- A missing name gets no node below a node that refuses it or without memory. -/
theorem VfsInv.createNode_none (inv : VfsInv v) (live : v.nodes dir = some node) (token : TokenOk name)
    (absent : v.child dir name = none) (stopped : v.refuses dir = true ∨ kmalloc = none)
    (returned : vfsCreateNode v (some dir) (some name) type kmalloc = .ok (result, v')) : result = none := by
  obtain ⟨_, _, creates⟩ := inv.createNode live token returned
  cases creates with
  | failed _ => rfl
  | existing ptr found _ =>
      rw [absent] at found
      cases found
  | linked new before below links _ _ =>
      rcases stopped with refused | rfl
      · have room := links.room
        rw [Vfs.refuses, links.live, Option.any_some, links.directory] at refused
        simp at refused
        omega
      · obtain ⟨result', v'', returned', unused⟩ := inv.createNode_returns type live token.nonempty
          (fun new (isNew : none = some new) => nomatch isNew)
        cases returned.symm.trans returned'
        have none := unused new links.dead nofun
        rw [links.added] at none
        cases none

/-- A missing name gets a node without children below a directory with room. -/
theorem VfsInv.createNode_made (inv : VfsInv v) (live : v.nodes dir = some node) (token : TokenOk name)
    (absent : v.child dir name = none) (directory : node.type = .directory) (room : node.childCount < vfsMaxChildren)
    (returned : vfsCreateNode v (some dir) (some name) type (some new) = .ok (result, v')) :
    result = some new ∧ ∃ made, v'.nodes new = some made ∧ made.type = type ∧ made.childCount = 0 := by
  have isNew : result = some new := by
    have called := returned
    unfold vfsCreateNode at called
    rw [inv.findChild live, Result.ok_bind] at called
    obtain ⟨⟨n, v₁⟩, allocated, rest⟩ := Result.bind_ok called
    obtain ⟨rfl, rfl, dead⟩ := nodeAlloc_leak allocated
    have different : dir ≠ new := by
      intro same
      rw [same, dead new rfl] at live
      cases live
    have live₁ : (v.leak (some new)).nodes dir = some node := (setNode_other v .zero different).trans live
    simp only [if_neg token.nonempty] at rest
    rw [node_some.mpr live₁, Result.ok_bind, if_neg (not_not.mpr directory), absent] at rest
    simp only [if_neg (Nat.not_le.mpr room)] at rest
    obtain ⟨zero, _, rest⟩ := Result.bind_ok rest
    cases rest
    rfl
  obtain ⟨_, _, creates⟩ := inv.createNode live token returned
  refine ⟨isNew, ?_⟩
  cases creates with
  | failed _ => cases isNew
  | existing ptr found _ =>
      rw [absent] at found
      cases found
  | linked ptr before below links _ isType =>
      cases isNew
      exact ⟨below, links.added, isType, links.empty⟩

theorem Given.tail (given : Given kmallocs (count + 1)) : Given kmallocs.tail count := by
  intro i below
  have later := given (i + 1) (Nat.succ_lt_succ below)
  rw [List.getElem?_tail]
  exact later

theorem Given.head (given : Given kmallocs (count + 1)) : ∃ new, kmallocs.head?.join = some new := by
  have first := given 0 (Nat.succ_pos _)
  rw [← List.head?_eq_getElem?] at first
  exact Option.isSome_iff_exists.mp first

/-- Below an empty directory `vfs_mkdir` makes every directory of the path when it gets memory for it. -/
theorem VfsInv.mkdirFrom_fresh (inv : VfsInv v) (empty : EmptyDirectory v dir) (noSlash : p.head? ≠ some '/')
    (given : Given kmallocs (tokensFrom fuel p).length) (returned : vfsMkdirFrom fuel v dir p kmallocs = .ok (result, v')) :
    ∃ last, result = some last ∧ EmptyDirectory v' last := by
  induction fuel generalizing v dir p kmallocs with
  | zero => cases returned
  | succ fuel ih =>
      by_cases done : p = []
      · rw [vfsMkdirFrom, if_pos done] at returned
        cases returned
        exact ⟨dir, rfl, empty⟩
      obtain ⟨ok, _⟩ := takeToken_ok done noSlash
      obtain ⟨node, live, directory, none⟩ := empty
      have absent : v.child dir (takeToken (vfsNameMax - 1) p).1 = .none := by
        rw [child_some live, VfsNode.kids, none]
        rfl
      rw [tokensFrom_succ done noSlash, List.length_cons] at given
      rw [vfsMkdirFrom, if_neg done] at returned
      simp only [if_neg ok.nonempty] at returned
      rw [inv.findChild live, Result.ok_bind, absent] at returned
      obtain ⟨⟨next, v₁⟩, created, rest⟩ := Result.bind_ok returned
      obtain ⟨new, isNew⟩ := given.head
      rw [isNew] at created
      obtain ⟨rfl, made⟩ := inv.createNode_made live ok absent directory (by rw [none]; decide) created
      exact ih (inv.createNode live ok created).1 made (skipSlashes_head _) given.tail rest

/-- On a path that does not exist, `vfs_mkdir` fails at the first missing name and keeps the tree, or it makes every directory
that it gets memory for. -/
theorem VfsInv.mkdirFrom_lost (inv : VfsInv v) (live : v.nodes dir = some node) (noSlash : p.head? ≠ some '/')
    (lost : resolve v.child dir (tokensFrom fuel p) = none)
    (returned : vfsMkdirFrom fuel v dir p kmallocs = .ok (result, v')) :
    (result = none ∧ SameTree v v') ∨
      (v.refuses (deepest v.child dir (tokensFrom fuel p)) = false ∧ kmallocs.head?.join ≠ none ∧
        (Given kmallocs (missing v.child dir (tokensFrom fuel p)) → ∃ last, result = some last ∧ EmptyDirectory v' last)) := by
  induction fuel generalizing dir node p with
  | zero => cases returned
  | succ fuel ih =>
      by_cases done : p = []
      · rw [tokensFrom, if_pos done] at lost
        cases lost
      obtain ⟨ok, _⟩ := takeToken_ok done noSlash
      rw [tokensFrom_succ done noSlash, resolve_cons] at lost
      rw [tokensFrom_succ done noSlash, deepest, missing]
      rw [vfsMkdirFrom, if_neg done] at returned
      simp only [if_neg ok.nonempty] at returned
      rw [inv.findChild live, Result.ok_bind] at returned
      cases found : v.child dir (takeToken (vfsNameMax - 1) p).1 with
      | none =>
          rw [found] at returned
          obtain ⟨⟨next, v₁⟩, created, rest⟩ := Result.bind_ok returned
          cases next with
          | none =>
              cases rest
              exact Or.inl ⟨rfl, inv.createNode_failed created⟩
          | some next =>
              have open_ : ¬(v.refuses dir = true ∨ kmallocs.head?.join = none) := by
                intro stopped
                cases inv.createNode_none live ok found stopped created
              obtain ⟨accepts, memory⟩ := not_or.mp open_
              refine Or.inr ⟨Bool.eq_false_iff.mpr accepts, memory, ?_⟩
              intro given
              rw [Vfs.refuses, live, Option.any_some] at accepts
              simp at accepts
              obtain ⟨new, isNew⟩ := given.head
              rw [isNew] at created
              obtain ⟨made, empty⟩ := inv.createNode_made live ok found accepts.1 accepts.2 created
              cases made
              exact (inv.createNode live ok created).1.mkdirFrom_fresh empty (skipSlashes_head _) given.tail rest
      | some next =>
          rw [found] at lost
          simp only [found] at returned
          obtain ⟨value, isNext, rest⟩ := Result.bind_ok returned
          split at rest
          · cases rest
            exact Or.inl ⟨rfl, SameTree.refl v⟩
          · exact ih (node_some.mp isNext) (skipSlashes_head _) lost rest

theorem VfsInv.mkdir_lost (inv : VfsInv v) (isRoot : v.root = some root) (lost : resolve v.child root (tokens path) = none)
    (returned : vfsMkdir v path kmallocs = .ok (result, v')) :
    (result = none ∧ SameTree v v') ∨
      (v.refuses (deepest v.child root (tokens path)) = false ∧ kmallocs.head?.join ≠ none ∧
        (Given kmallocs (missing v.child root (tokens path)) → ∃ last, result = some last ∧ EmptyDirectory v' last)) := by
  obtain ⟨node, live, _⟩ := inv.root root isRoot
  unfold vfsMkdir at returned
  simp only [isRoot] at returned
  by_cases short : path = [] ∨ path = ['/']
  · rw [tokens_root short] at lost
    cases lost
  · rw [if_neg short] at returned
    exact inv.mkdirFrom_lost live (skipSlashes_head path) lost returned

/-- The memory of a creation is given when the memory of its directories and of its node is. -/
theorem creationMemory_all : (creationMemory kmallocs kmalloc count).all Option.isSome = true ↔
    Given kmallocs count ∧ kmalloc.isSome = true := by
  simp [creationMemory, Given]

theorem creationMemory_head (some : 0 < count) : (creationMemory kmallocs kmalloc count).head? = .some kmallocs.head?.join := by
  obtain ⟨count, rfl⟩ := Nat.exists_eq_succ_of_ne_zero (Nat.ne_of_gt some)
  rw [creationMemory, List.range_succ_eq_map, List.map_cons, List.cons_append, List.head?_cons, List.head?_eq_getElem?]

/-- A creation on a path without a node fails at the first missing name and keeps the tree, or it succeeds when it gets memory. -/
theorem VfsInv.createAt_lost (inv : VfsInv v) (isRoot : v.root = some root) (split : vfsSplitPath path = .ok (dirpath, fname))
    (named : fname ≠ []) (lost : resolve v.child root (tokens dirpath ++ [fname]) = none)
    (returned : vfsCreateAt v path type kmallocs kmalloc = .ok (result, v')) :
    (result = none ∧ SameTree v v') ∨
      (v.refuses (deepest v.child root (tokens dirpath ++ [fname])) = false ∧
        (creationMemory kmallocs kmalloc (missing v.child root (tokens dirpath))).head? ≠ some none ∧
        ((creationMemory kmallocs kmalloc (missing v.child root (tokens dirpath))).all Option.isSome = true → result ≠ none)) := by
  obtain ⟨noSlash, short⟩ := vfsSplitPath_name split
  have ok : TokenOk fname := ⟨named, noSlash, short⟩
  unfold vfsCreateAt at returned
  simp only [isRoot, split, Result.ok_bind, if_neg named] at returned
  rw [inv.find, Result.ok_bind, isRoot, Option.bind_some] at returned
  cases found : resolve v.child root (tokens dirpath) with
  | some dir =>
      simp only [found] at returned
      obtain ⟨node, live⟩ := inv.resolve_live isRoot found
      have absent : v.child dir fname = none := by
        rw [resolve_snoc, found] at lost
        exact lost
      cases result with
      | none => exact Or.inl ⟨rfl, inv.createNode_failed returned⟩
      | some new =>
          have deep : deepest v.child root (tokens dirpath ++ [fname]) = dir := by
            rw [deepest_append found, deepest, absent]
          have open_ : ¬(v.refuses dir = true ∨ kmalloc = none) := by
            intro stopped
            cases inv.createNode_none live ok absent stopped returned
          obtain ⟨accepts, memory⟩ := not_or.mp open_
          rw [deep, missing_eq_zero found]
          exact Or.inr ⟨Bool.eq_false_iff.mpr accepts, fun same => memory (Option.some.inj same), fun _ => Option.some_ne_none _⟩
  | none =>
      rw [found] at returned
      obtain ⟨⟨dir, v₁⟩, made, rest⟩ := Result.bind_ok returned
      rw [deepest_of_none found, creationMemory_head (missing_pos found), creationMemory_all]
      rcases inv.mkdir_lost isRoot found made with ⟨rfl, same⟩ | ⟨accepts, memory, makes⟩
      · cases rest
        exact Or.inl ⟨rfl, same⟩
      · refine Or.inr ⟨accepts, fun same => memory (Option.some.inj same), ?_⟩
        rintro ⟨given, isGiven⟩
        obtain ⟨last, rfl, node, live, directory, empty⟩ := makes given
        obtain ⟨new, rfl⟩ := Option.isSome_iff_exists.mp isGiven
        have absent : v₁.child last fname = none := by
          rw [child_some live, VfsNode.kids, empty]
          rfl
        have isNew := ((inv.mkdir made).1.createNode_made live ok absent directory (by rw [empty]; decide) rest).1
        rw [isNew]
        exact Option.some_ne_none new

/-- A clean creation keeps the tree, or it ends with a node of the type at its path. A node that was there is not taken. -/
theorem VfsInv.createAt_clean {taken : List (List Char) → Bool} (inv : VfsInv v)
    (clean : v.cleanAt path type kmallocs kmalloc taken = true)
    (returned : vfsCreateAt v path type kmallocs kmalloc = .ok (result, v')) :
    (result = none ∧ SameTree v v') ∨ ∃ n, result = some n ∧
      (∃ dirpath fname, tokens path = tokens dirpath ++ [fname] ∧ Placed v v' type n dirpath fname) ∧
      (∃ node, v'.nodes n = some node ∧ node.type = type) ∧
      (v.lookup (tokens path) = none ∨ taken (tokens path) = false) := by
  cases isRoot : v.root with
  | none =>
      unfold vfsCreateAt at returned
      rw [isRoot] at returned
      cases returned
      exact Or.inl ⟨rfl, SameTree.refl v⟩
  | some root =>
      have called := returned
      unfold vfsCreateAt at called
      simp only [isRoot] at called
      obtain ⟨⟨dirpath, fname⟩, split, rest⟩ := Result.bind_ok called
      by_cases named : fname = []
      · simp only [if_pos named] at rest
        cases rest
        exact Or.inl ⟨rfl, SameTree.refl v⟩
      have lookup := lookup_of_root isRoot
      unfold Vfs.cleanAt at clean
      simp only [isRoot, split, beq_eq_false_iff_ne.mpr named, Bool.false_or] at clean
      have placed (n : NodePtr) (isResult : result = some n) : Placed v v' type n dirpath fname := by
        rw [isResult] at returned
        obtain ⟨dirpath', fname', split', placed⟩ := inv.createAt_placed returned
        cases split.symm.trans split'
        exact placed
      cases found : resolve v.child root (tokens dirpath ++ [fname]) with
      | some old =>
          simp only [found, Bool.and_eq_true, beq_iff_eq, Bool.not_eq_true'] at clean
          obtain ⟨⟨direct, isType⟩, free⟩ := clean
          cases result with
          | none =>
              obtain ⟨dir, above, _⟩ := resolve_snoc_some found
              simp only [if_neg named] at rest
              rw [inv.find, Result.ok_bind, isRoot, Option.bind_some, above] at rest
              exact Or.inl ⟨rfl, inv.createNode_failed rest⟩
          | some n =>
              obtain ⟨node, live, ⟨absent, _⟩ | ⟨before, isN, liveOld, sameType⟩⟩ := (placed n rfl).node
              · rw [lookup, found] at absent
                cases absent
              · rw [lookup, found] at isN
                cases isN
                rw [liveOld, Option.any_some, beq_iff_eq] at isType
                exact Or.inr ⟨old, rfl, ⟨dirpath, fname, direct, placed old rfl⟩, ⟨node, live, sameType.trans isType⟩,
                  Or.inr (direct ▸ free)⟩
      | none =>
          simp only [found, Bool.or_eq_true, beq_iff_eq, Bool.and_eq_true] at clean
          rcases inv.createAt_lost isRoot split named found returned with failed | ⟨accepts, memory, makes⟩
          · exact Or.inl failed
          · rw [accepts] at clean
            rcases clean with (refused | none) | ⟨direct, all⟩
            · cases refused
            · exact absurd none memory
            · obtain ⟨n, rfl⟩ := Option.ne_none_iff_exists'.mp (makes all)
              obtain ⟨node, live, ⟨_, isType⟩ | ⟨old, before, _⟩⟩ := (placed n rfl).node
              · exact Or.inr ⟨n, rfl, ⟨dirpath, fname, direct, placed n rfl⟩, ⟨node, live, isType⟩,
                  Or.inl (by rw [lookup, direct, found])⟩
              · rw [lookup, found] at before
                cases before

end

section
variable {v v' : Vfs} {path : List Char} {names : List (List Char)} {device : Nat} {result kmalloc : Option NodePtr}
  {kmallocs : List (Option NodePtr)}

theorem SameTree.keeps (same : SameTree v v') (names : List (List Char)) : KeepsNode v v' names := by
  intro n node reached live
  refine ⟨?_, node, same.node n node live, rfl, rfl⟩
  rw [Vfs.lookup, same.root, same.child]
  exact reached

/-- Growth keeps every node at a list of names that leads where it led. -/
theorem Grows.keeps (grows : Grows v v') (leads : ∀ n, v.lookup names = some n → v'.lookup names = some n) :
    KeepsNode v v' names := by
  intro n node reached live
  obtain ⟨children, childCount, live'⟩ := grows.kept n node live
  exact ⟨leads n reached, _, live', rfl, rfl⟩

theorem VfsInv.mkdir_keeps (inv : VfsInv v) (returned : vfsMkdir v path kmallocs = .ok (result, v'))
    (names : List (List Char)) : KeepsNode v v' names := by
  obtain ⟨_, grows, leads⟩ := inv.mkdir returned
  apply grows.keeps
  intro n reached
  obtain ⟨root, isRoot, below⟩ := Option.bind_eq_some_iff.mp reached
  rw [lookup_of_root (grows.root.trans isRoot)]
  exact (leads root isRoot).1.kept below

/-- `vfs_remove` keeps the node of every other path. -/
theorem VfsInv.remove_keeps (inv : VfsInv v) {code : Int} (returned : vfsRemove v path = .ok (code, v')) :
    VfsInv v' ∧ ∀ names, names ≠ tokens path → KeepsNode v v' names := by
  rcases inv.remove returned with ⟨_, rfl⟩ | ⟨isZero, root, dir, ptr, node, below, idx, isRoot, reached, unlinks, _⟩
  · exact ⟨inv, fun names _ => (SameTree.refl v').keeps names⟩
  · refine ⟨unlinks.inv inv, ?_⟩
    intro names different n old reachedOld live
    rcases inv.remove_lookup returned with ⟨_, _, leads⟩ | ⟨failed, _⟩
    · have notPtr : n ≠ ptr := by
        intro same
        rw [same] at reachedOld
        exact different (inv.lookup_inj reachedOld ((lookup_of_root isRoot _).trans reached))
      refine ⟨(leads names different).trans reachedOld, ?_⟩
      by_cases isDir : n = dir
      · rw [isDir, unlinks.live] at live
        cases live
        exact ⟨_, (congrArg v'.nodes isDir).trans unlinks.here, rfl, rfl⟩
      · exact ⟨old, (unlinks.other n isDir notPtr).trans live, rfl, rfl⟩
    · rw [isZero] at failed
      cases failed

theorem MountedAt.kept (mounted : MountedAt v path device) (inv : VfsInv v) (inv' : VfsInv v')
    (keeps : KeepsNode v v' (tokens path)) : MountedAt v' path device := by
  obtain ⟨n, node, found, live, isType, isDevice⟩ := mounted
  rw [inv.find, Except.ok.injEq] at found
  obtain ⟨found', node', live', sameType, sameDevice⟩ := keeps n node found live
  exact ⟨n, node', (inv'.find path).trans (congrArg Except.ok found'), live', sameType.trans isType, sameDevice.trans isDevice⟩

/-- A clean `vfs_create_device` keeps the tree, or the path leads to the device and every other path keeps its node. -/
theorem VfsInv.createDevice_clean {taken : List (List Char) → Bool} (inv : VfsInv v)
    (clean : v.cleanAt path .device kmallocs kmalloc taken = true)
    (returned : vfsCreateDevice v path (some device) kmallocs kmalloc = .ok (result, v')) :
    VfsInv v' ∧ ((result = none ∧ SameTree v v') ∨ (result ≠ none ∧ MountedAt v' path device ∧
      (v.lookup (tokens path) = none ∨ taken (tokens path) = false) ∧ ∀ names, names ≠ tokens path → KeepsNode v v' names)) := by
  obtain ⟨⟨made, v₁⟩, created, rest⟩ := Result.bind_ok returned
  obtain ⟨inv₁, grows, _⟩ := inv.createAt created
  rcases inv.createAt_clean clean created with ⟨rfl, same⟩ |
    ⟨n, rfl, ⟨dirpath, fname, direct, placed⟩, ⟨node, live, isType⟩, free⟩
  · cases rest
    exact ⟨inv₁, Or.inl ⟨rfl, same⟩⟩
  · simp only [node_some.mpr live, Result.ok_bind] at rest
    cases rest
    have placed' := placed.setDevice live (some device)
    have found := placed'.found
    rw [← direct] at found
    refine ⟨placed'.inv, Or.inr ⟨Option.some_ne_none n, ?_, free, ?_⟩⟩
    · exact ⟨n, _, (placed'.inv.find path).trans (congrArg Except.ok found), setNode_here _ _ _, isType, rfl⟩
    · intro names different m old reached liveOld
      have kept := placed'.kept names m reached
      obtain ⟨children, childCount, live'⟩ := grows.kept m old liveOld
      have notNew : m ≠ n := by
        intro same
        rw [same] at kept
        exact different (placed'.inv.lookup_inj kept found)
      exact ⟨kept, _, (setNode_other _ _ notNew).trans live', rfl, rfl⟩

end

end DoccrOS.Fs
