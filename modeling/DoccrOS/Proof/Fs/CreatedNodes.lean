import DoccrOS.Proof.Fs.CreationLeaks

namespace DoccrOS.Fs
open Lib

/-- A path whose directory part is not cut off: its tokens are those of the directory and the name. -/
def Direct (path : List Char) : Prop :=
  ∀ dirpath fname, vfsSplitPath path = .ok (dirpath, fname) → tokens path = tokens dirpath ++ [fname]

/-- The path leads to the node, the node is as it should be, and every path that led to a node still leads there. -/
structure Created (v v' : Vfs) (path : List Char) (n : NodePtr) (good : VfsNode → Prop) : Prop where
  found : vfsFind v' path = .ok (some n)
  node : ∃ node, v'.nodes n = some node ∧ good node
  kept : ∀ other m, vfsFind v other = .ok (some m) → vfsFind v' other = .ok (some m)

/-- The path leads to no node, or to a node of the type. -/
def FreeFor (v : Vfs) (path : List Char) (type : VfsType) : Prop :=
  ∀ m node, vfsFind v path = .ok (some m) → v.nodes m = some node → node.type = type

/-- What a creation with a result does: the node lies below the directory, and it is new or it was there. -/
structure Placed (v v' : Vfs) (type : VfsType) (n : NodePtr) (dirpath fname : List Char) : Prop where
  inv : VfsInv v'
  found : v'.lookup (tokens dirpath ++ [fname]) = some n
  node : ∃ node, v'.nodes n = some node ∧ ((v.lookup (tokens dirpath ++ [fname]) = none ∧ node.type = type) ∨
    ∃ old, v.lookup (tokens dirpath ++ [fname]) = some n ∧ v.nodes n = some old ∧ node.type = old.type)
  kept : ∀ names m, v.lookup names = some m → v'.lookup names = some m

section
variable {v v' : Vfs} {path dirpath fname : List Char} {kmallocs : List (Option NodePtr)} {kmalloc : Option NodePtr}
  {type : VfsType} {n root : NodePtr}

/-- A path whose last slash is one of its first 256 characters is not cut off. -/
theorem direct_of_short (short : ∀ last, lastSlash 0 none path = some last → last < vfsMaxPath)
    (named : ∀ dirpath fname, vfsSplitPath path = .ok (dirpath, fname) → fname ≠ []) : Direct path := by
  intro dirpath fname split
  have nonempty := named dirpath fname split
  obtain ⟨noSlash, small⟩ := vfsSplitPath_name split
  have ok : TokenOk fname := ⟨nonempty, noSlash, small⟩
  unfold vfsSplitPath at split
  rcases lastSlash_spec 0 none path with ⟨_, same⟩ | ⟨front, name, isPath, _, found⟩
  · rw [same] at split
    obtain ⟨copied, copies, rest⟩ := Result.bind_ok split
    obtain ⟨rfl, _⟩ := copyName_ok copies
    cases rest
    exact tokens_name ok
  · have behind : path.drop (front.length + 1) = name := by
      rw [isPath, List.drop_append, List.drop_of_length_le (Nat.le_succ _), List.nil_append, Nat.add_sub_cancel_left]
      rfl
    have below := short _ found
    rw [found, Nat.zero_add] at split
    rw [Nat.zero_add] at below
    cases atStart : front.length with
    | zero =>
        rw [atStart] at split behind
        obtain ⟨copied, copies, rest⟩ := Result.bind_ok split
        obtain ⟨rfl, _⟩ := copyName_ok copies
        cases rest
        rw [behind] at ok ⊢
        rw [isPath, List.eq_nil_of_length_eq_zero atStart]
        exact tokens_append [] ok
    | succ last =>
        rw [atStart] at split behind below
        obtain ⟨copied, copies, rest⟩ := Result.bind_ok split
        obtain ⟨rfl, _⟩ := copyName_ok copies
        cases rest
        rw [behind] at ok ⊢
        have front' : path.take (min (last + 1) (vfsMaxPath - 1)) = front := by
          rw [Nat.min_eq_left (Nat.le_sub_one_of_lt below), isPath, ← atStart, List.take_left]
        rw [front', isPath, tokens_append front ok]

theorem AddsPrefixes.kept {child child' : NodePtr → List Char → Option NodePtr} {names other : List (List Char)}
    (adds : AddsPrefixes child child' root names) (reached : resolve child root other = some n) :
    resolve child' root other = some n := by
  by_contra differs
  rw [← reached] at differs
  rw [(adds other differs).1] at reached
  cases reached

/-- The last step of a creation, below a directory that `vfs_find` or `vfs_mkdir` gave. -/
theorem VfsInv.createNode_placed {v₁ : Vfs} {dir : NodePtr} (inv : VfsInv v) (inv₁ : VfsInv v₁) (isRoot : v.root = some root)
    (grows : Grows v v₁) (adds : AddsPrefixes v.child v₁.child root (tokens dirpath)) (ok : TokenOk fname)
    (reached : resolve v₁.child root (tokens dirpath) = some dir)
    (returned : vfsCreateNode v₁ (some dir) (some fname) type kmalloc = .ok (some n, v')) :
    Placed v v' type n dirpath fname := by
  have isRoot₁ : v₁.root = some root := grows.root.trans isRoot
  obtain ⟨node, live⟩ := inv₁.resolve_live isRoot₁ reached
  obtain ⟨inv', grows', creates⟩ := inv₁.createNode live ok returned
  obtain ⟨adds', leads⟩ := creates.resolve inv₁ isRoot₁ reached (List.prefix_refl _)
  have lookup := lookup_of_root isRoot
  have lookup' := lookup_of_root (grows'.root.trans isRoot₁)
  -- the directories of the path do not include the new name
  have same : resolve v₁.child root (tokens dirpath ++ [fname]) = resolve v.child root (tokens dirpath ++ [fname]) := by
    by_contra differs
    have shorter := (adds _ differs).2.length_le
    rw [List.length_append] at shorter
    exact absurd shorter (by simp)
  have below : resolve v₁.child root (tokens dirpath ++ [fname]) = v₁.child dir fname := by
    rw [resolve_snoc, reached, Option.bind_some]
  refine ⟨inv', by rw [lookup']; exact leads n rfl, ?_, ?_⟩
  · cases creates with
    | existing _ found _ =>
        rw [← below, same] at found
        obtain ⟨old, liveOld⟩ := inv.resolve_live isRoot found
        obtain ⟨children, childCount, live'⟩ := (grows.trans grows').kept n old liveOld
        exact ⟨_, live', Or.inr ⟨old, (lookup _).trans found, liveOld, rfl⟩⟩
    | linked _ before new links isName isType =>
        refine ⟨new, links.added, Or.inl ⟨?_, isType⟩⟩
        rw [lookup, ← same, below, ← isName]
        exact links.absent
  · intro names m reachedOld
    rw [lookup] at reachedOld
    rw [lookup']
    exact adds'.kept (adds.kept reachedOld)

theorem VfsInv.createAt_placed (inv : VfsInv v) (returned : vfsCreateAt v path type kmallocs kmalloc = .ok (some n, v')) :
    ∃ dirpath fname, vfsSplitPath path = .ok (dirpath, fname) ∧ Placed v v' type n dirpath fname := by
  unfold vfsCreateAt at returned
  cases isRoot : v.root with
  | none =>
      rw [isRoot] at returned
      cases returned
  | some root =>
      simp only [isRoot] at returned
      obtain ⟨⟨dirpath, fname⟩, split, rest⟩ := Result.bind_ok returned
      obtain ⟨noSlash, short⟩ := vfsSplitPath_name split
      refine ⟨dirpath, fname, split, ?_⟩
      by_cases empty : fname = []
      · simp only [if_pos empty] at rest
        cases rest
      have ok : TokenOk fname := ⟨empty, noSlash, short⟩
      simp only [if_neg empty] at rest
      rw [inv.find, Result.ok_bind, isRoot, Option.bind_some] at rest
      cases found : resolve v.child root (tokens dirpath) with
      | some dir =>
          rw [found] at rest
          exact inv.createNode_placed inv isRoot (Grows.refl v) (AddsPrefixes.of_same rfl) ok found rest
      | none =>
          rw [found] at rest
          obtain ⟨⟨dir, v₁⟩, made, rest⟩ := Result.bind_ok rest
          obtain ⟨inv₁, grows, leads⟩ := inv.mkdir made
          obtain ⟨adds, atEnd⟩ := leads root isRoot
          cases dir with
          | none => cases rest
          | some dir => exact inv.createNode_placed inv₁ isRoot grows adds ok (atEnd dir rfl) rest

/-- A placed node is the one that was asked for exactly when the path is not cut off and no node of another type was there. -/
theorem Placed.created_iff (inv : VfsInv v) (split : vfsSplitPath path = .ok (dirpath, fname))
    (placed : Placed v v' type n dirpath fname) {good : VfsNode → Prop}
    (isGood : ∀ node, v'.nodes n = some node → (good node ↔ node.type = type)) :
    Created v v' path n good ↔ Direct path ∧ FreeFor v path type := by
  obtain ⟨inv', found, ⟨node, live, kind⟩, kept⟩ := placed
  have direct : Direct path ↔ tokens path = tokens dirpath ++ [fname] := by
    constructor
    · intro direct
      exact direct dirpath fname split
    · intro same dirpath' fname' split'
      rw [split] at split'
      cases split'
      exact same
  have find (v : Vfs) (inv : VfsInv v) (other : List Char) : vfsFind v other = .ok (v.lookup (tokens other)) := inv.find other
  rw [direct]
  constructor
  · intro created
    have reached := created.found
    rw [find v' inv', Except.ok.injEq] at reached
    have same : tokens path = tokens dirpath ++ [fname] := inv'.lookup_inj reached found
    refine ⟨same, fun m old reached' liveOld => ?_⟩
    rw [find v inv, Except.ok.injEq, same] at reached'
    obtain ⟨value, liveValue, isType⟩ := created.node
    rw [live] at liveValue
    rw [isGood value (liveValue ▸ live), ← Option.some.inj liveValue] at isType
    rcases kind with ⟨none, _⟩ | ⟨before, isN, liveBefore, sameType⟩
    · rw [none] at reached'
      cases reached'
    · rw [isN] at reached'
      cases reached'
      rw [liveBefore] at liveOld
      rw [← Option.some.inj liveOld, ← sameType, isType]
  · rintro ⟨same, free⟩
    refine ⟨by rw [find v' inv', same, found], ⟨node, live, (isGood node live).mpr ?_⟩, ?_⟩
    · rcases kind with ⟨_, isType⟩ | ⟨old, isN, liveOld, sameType⟩
      · exact isType
      · rw [sameType]
        exact free n old (by rw [find v inv, same, isN]) liveOld
    · intro other m reached
      rw [find v inv, Except.ok.injEq] at reached
      rw [find v' inv', kept _ m reached]

/-- The device of a placed node does not move it. -/
theorem Placed.setDevice {node : VfsNode} (placed : Placed v v' type n dirpath fname) (live : v'.nodes n = some node)
    (device : Option Nat) : Placed v (v'.setNode n { node with device := device }) type n dirpath fname := by
  have same : (v'.setNode n { node with device := device }).child = v'.child := by
    refine child_congr fun query => ?_
    by_cases here : query = n
    · rw [here, setNode_here, live]
      rfl
    · rw [setNode_other _ _ here]
  have lookup (names : List (List Char)) : (v'.setNode n { node with device := device }).lookup names = v'.lookup names := by
    rw [Vfs.lookup, Vfs.lookup, same, setNode_root]
  refine ⟨?_, by rw [lookup]; exact placed.found, ?_, fun names m reached => by rw [lookup]; exact placed.kept names m reached⟩
  · exact placed.inv.setFile live _ _ _ _ _ rfl (fun _ different => setNode_other _ _ different) (setNode_here _ _ _)
  · obtain ⟨value, isNode, kind⟩ := placed.node
    rw [live] at isNode
    cases isNode
    exact ⟨_, setNode_here _ _ _, kind⟩

/-- A created file is found at its path exactly when the path is not cut off and named no node of another type. -/
theorem VfsInv.createFile_created_iff (inv : VfsInv v) {path : List Char} {kmallocs : List (Option NodePtr)}
    {kmalloc : Option NodePtr} {n : NodePtr} {v' : Vfs} (returned : vfsCreateFile v path kmallocs kmalloc = .ok (some n, v')) :
    Created v v' path n (fun node => node.type = .file) ↔ Direct path ∧ FreeFor v path .file := by
  obtain ⟨dirpath, fname, split, placed⟩ := inv.createAt_placed returned
  exact placed.created_iff inv split fun _ _ => Iff.rfl

/-- A created file or device is found at its path with its type exactly when the path is not cut off and named no node of another
type. -/
theorem created_nodes_found (inv : VfsInv v) (path : List Char) (kmallocs : List (Option NodePtr)) (kmalloc : Option NodePtr)
    (n : NodePtr) (v' : Vfs) :
    (vfsCreateFile v path kmallocs kmalloc = .ok (some n, v') →
      (Created v v' path n (fun node => node.type = .file) ↔ Direct path ∧ FreeFor v path .file)) ∧
    ∀ device, vfsCreateDevice v path (some device) kmallocs kmalloc = .ok (some n, v') →
      (Created v v' path n (fun node => node.type = .device ∧ node.device = some device) ↔
        Direct path ∧ FreeFor v path .device) := by
  constructor
  · exact inv.createFile_created_iff
  · intro device returned
    obtain ⟨⟨made, v₁⟩, created, rest⟩ := Result.bind_ok returned
    cases made with
    | none => cases rest
    | some ptr =>
        obtain ⟨node, isNode, rest⟩ := Result.bind_ok rest
        cases rest
        obtain ⟨dirpath, fname, split, placed⟩ := inv.createAt_placed created
        refine (placed.setDevice (node_some.mp isNode) (some device)).created_iff inv split fun value live => ?_
        rw [setNode_here] at live
        cases live
        exact and_iff_left rfl

end

/-- A file in a directory that is made for it. -/
theorem created_nodes_found_first : ∃ start v', vfsInit (Vfs.boot (fun _ => 0) ⟨0x1000, 16⟩) (some 1) = .ok start ∧
    vfsCreateFile start ['/', 'a', '/', 'b'] [some 2] (some 3) = .ok (some 3, v') ∧
    Created start v' ['/', 'a', '/', 'b'] 3 fun node => node.type = .file := by
  cases booted : vfsInit (Vfs.boot (fun _ => 0) ⟨0x1000, 16⟩) (some 1) with
  | error halt => cases booted
  | ok start =>
      have run : ((vfsCreateFile start ['/', 'a', '/', 'b'] [some 2] (some 3)).map Prod.fst).toOption = some (some 3) := by
        cases booted
        decide +kernel
      have absent : (vfsFind start ['/', 'a', '/', 'b']).toOption = some none := by
        cases booted
        decide +kernel
      obtain ⟨⟨result, v'⟩, returned, shown⟩ := exists_of_toOption run
      cases shown
      refine ⟨start, v', rfl, returned, ?_⟩
      refine ((created_nodes_found (vfsInit_inv booted).1 _ _ _ 3 v').1 returned).mpr ⟨direct_of_short ?_ ?_, ?_⟩
      · decide
      · intro dirpath fname split
        cases split
        decide
      · intro m node found _
        rw [found] at absent
        cases absent

/-- A file cannot be created where a directory is: the directory comes back. -/
theorem created_nodes_lost : ¬∀ (v v' : Vfs) (path : List Char) (kmallocs : List (Option NodePtr)) (kmalloc : Option NodePtr)
    (n : NodePtr), VfsInv v → vfsCreateFile v path kmallocs kmalloc = .ok (some n, v') →
    Created v v' path n fun node => node.type = .file := by
  intro claim
  cases booted : vfsInit (Vfs.boot (fun _ => 0) ⟨0x1000, 16⟩) (some 1) with
  | error halt => cases booted
  | ok start =>
      have second : ((start.step (.mkdir ['/', 'a'] [some 2])).bind fun v =>
          (vfsCreateFile v ['/', 'a'] [] (some 3)).map fun made =>
            (made.1, (made.2.nodes 2).map VfsNode.type)).toOption = some (some 2, some .directory) := by
        cases booted
        decide +kernel
      cases first : start.step (.mkdir ['/', 'a'] [some 2]) with
      | error halt =>
          rw [first] at second
          cases second
      | ok v =>
          rw [first] at second
          obtain ⟨⟨result, v'⟩, returned, shown⟩ := exists_of_toOption second
          simp only [Prod.mk.injEq] at shown
          obtain ⟨rfl, isDirectory⟩ := shown
          have created := claim v v' ['/', 'a'] [] (some 3) 2 ((vfsInit_inv booted).1.step first) returned
          obtain ⟨node, live, isFile⟩ := created.node
          rw [live, Option.map_some, isFile] at isDirectory
          cases isDirectory

end DoccrOS.Fs
