import DoccrOS.Proof.Fs.Tree

namespace DoccrOS.Fs
open Lib

section
variable {v v' : Vfs} {ptr dir kid new root : NodePtr} {node node' below : VfsNode} {name : List Char} {list : List NodePtr}
  {i steps : Nat}

/-- The entries of a node that holds a list. -/
theorem kids_of_slots (holds : RingHolds vfsMaxChildren node.children 0 list) (count : list.length = node.childCount) :
    node.kids = list :=
  holds.first_entries count

/-- The shift of the child array is that of a ring that starts at its first slot. -/
theorem moveDown_eq {capacity : Nat} (children : Nat → Option NodePtr) (inside : i + steps < capacity) :
    moveDown children i steps = shiftDown capacity 0 children i steps := by
  induction steps generalizing children i with
  | zero => rfl
  | succ steps ih =>
      have here : (0 + i) % capacity = i := by rw [Nat.zero_add, Nat.mod_eq_of_lt (by omega)]
      have next : (0 + i + 1) % capacity = i + 1 := by rw [Nat.zero_add, Nat.mod_eq_of_lt (by omega)]
      rw [moveDown, shiftDown, here, next]
      exact ih _ (by omega)

/-- A node stays well formed when its children keep their names and their parent. -/
theorem NodeOk.congr (ok : NodeOk v ptr node) (same : ∀ kid ∈ node.kids, ∀ below, v.nodes kid = some below →
    ∃ below', v'.nodes kid = some below' ∧ below'.name = below.name ∧ below'.parent = below.parent) : NodeOk v' ptr node := by
  have named : ∀ kid ∈ node.kids, ∀ name, v'.named name kid = v.named name kid := by
    intro kid member name
    obtain ⟨below, live, _⟩ := ok.child kid member
    obtain ⟨below', live', sameName, _⟩ := same kid member below live
    rw [Vfs.named, Vfs.named, live, live', Option.any_some, Option.any_some, sameName]
  refine ⟨ok.slots, ok.count, ?_, ?_, ok.directory⟩
  · intro kid member
    obtain ⟨below, live, parent, token⟩ := ok.child kid member
    obtain ⟨below', live', sameName, sameParent⟩ := same kid member below live
    exact ⟨below', live', sameParent.trans parent, by rw [sameName]; exact token⟩
  · refine ok.distinct.imp_of_mem ?_
    intro first second member member' apart name
    rw [named first member, named second member']
    exact apart name

/-- A directory gets a new child behind its last one. -/
structure Links (v v' : Vfs) (dir new : NodePtr) (node below : VfsNode) : Prop where
  live : v.nodes dir = some node
  directory : node.type = .directory
  room : node.childCount < vfsMaxChildren
  dead : v.nodes new = none
  empty : below.childCount = 0
  parent : below.parent = some dir
  token : TokenOk below.name
  absent : v.child dir below.name = none
  root : v'.root = v.root
  here : v'.nodes dir = some { node with
    children := Function.update node.children node.childCount (some new), childCount := node.childCount + 1 }
  added : v'.nodes new = some below
  other : ∀ ptr, ptr ≠ dir → ptr ≠ new → v'.nodes ptr = v.nodes ptr

theorem Links.different (links : Links v v' dir new node below) : dir ≠ new := by
  intro same
  have live := links.live
  rw [same, links.dead] at live
  cases live

/-- The old nodes keep their names and their parents. -/
theorem Links.kept (links : Links v v' dir new node below) {old : VfsNode} (live : v.nodes ptr = some old) :
    ∃ node', v'.nodes ptr = some node' ∧ node'.name = old.name ∧ node'.parent = old.parent := by
  by_cases isDir : ptr = dir
  · rw [isDir, links.live] at live
    rw [isDir, ← Option.some.inj live]
    exact ⟨_, links.here, rfl, rfl⟩
  · have notNew : ptr ≠ new := by
      intro same
      rw [same, links.dead] at live
      cases live
    exact ⟨old, (links.other ptr isDir notNew).trans live, rfl, rfl⟩

theorem Links.named (links : Links v v' dir new node below) (live : v.nodes ptr ≠ none) (name : List Char) :
    v'.named name ptr = v.named name ptr := by
  obtain ⟨old, isOld⟩ := Option.ne_none_iff_exists'.mp live
  obtain ⟨node', live', sameName, _⟩ := links.kept isOld
  rw [Vfs.named, Vfs.named, isOld, live', Option.any_some, Option.any_some, sameName]

theorem Links.named_new (links : Links v v' dir new node below) (name : List Char) :
    v'.named name new = true ↔ below.name = name := named_some links.added

theorem Links.kids (links : Links v v' dir new node below) (inv : VfsInv v) : RingHolds vfsMaxChildren
      (Function.update node.children node.childCount (some new)) 0 (node.kids ++ [new]) ∧
    ({ node with children := Function.update node.children node.childCount (some new), childCount := node.childCount + 1 } :
      VfsNode).kids = node.kids ++ [new] := by
  have ok := inv.node dir node links.live
  have room : node.kids.length < vfsMaxChildren := by
    rw [ok.count]
    exact links.room
  have pushed := ok.slots.push room new
  rw [Nat.zero_add, Nat.mod_eq_of_lt room, ok.count] at pushed
  refine ⟨pushed, kids_of_slots pushed ?_⟩
  rw [List.length_append, ok.count]
  rfl

/-- The entries of the directory that have a name. -/
theorem Links.find (links : Links v v' dir new node below) (inv : VfsInv v) (name : List Char) :
    (node.kids ++ [new]).find? (v'.named name) =
      if name = below.name then some new else node.kids.find? (v.named name) := by
  have ok := inv.node dir node links.live
  have same : node.kids.find? (v'.named name) = node.kids.find? (v.named name) := by
    have test : ∀ kid ∈ node.kids, v'.named name kid = v.named name kid := by
      intro kid member
      obtain ⟨old, live, _⟩ := ok.child kid member
      exact links.named (by rw [live]; exact Option.some_ne_none _) name
    exact List.find?_congr test
  rw [List.find?_append, same]
  by_cases isName : name = below.name
  · have absent := links.absent
    rw [child_some links.live, ← isName] at absent
    have found : v'.named name new = true := (links.named_new name).mpr isName.symm
    rw [absent, if_pos isName, Option.none_or, List.find?_cons_of_pos found]
  · have notFound : ¬v'.named name new = true := fun found => isName ((links.named_new name).mp found).symm
    rw [if_neg isName, List.find?_cons_of_neg notFound, List.find?_nil, Option.or_none]

theorem Links.inv (links : Links v v' dir new node below) (inv : VfsInv v) : VfsInv v' := by
  have ok := inv.node dir node links.live
  obtain ⟨slots, kids⟩ := links.kids inv
  refine ⟨?_, ?_⟩
  · intro ptr value live
    by_cases isDir : ptr = dir
    · rw [isDir, links.here] at live
      rw [isDir, ← Option.some.inj live]
      refine ⟨by rw [kids]; exact slots, ?_, ?_, ?_, ?_⟩
      · rw [kids, List.length_append, ok.count]
        rfl
      · rw [kids]
        intro kid member
        rcases List.mem_append.mp member with old | isNew
        · obtain ⟨old, liveOld, parent, token⟩ := ok.child kid old
          obtain ⟨old', liveOld', sameName, sameParent⟩ := links.kept liveOld
          exact ⟨old', liveOld', sameParent.trans parent, by rw [sameName]; exact token⟩
        · rw [List.mem_singleton.mp isNew]
          exact ⟨below, links.added, links.parent, links.token⟩
      · rw [kids, List.pairwise_append]
        have old : ∀ kid ∈ node.kids, ∀ name, v'.named name kid = v.named name kid := by
          intro kid member
          obtain ⟨old, live, _⟩ := ok.child kid member
          exact links.named (by rw [live]; exact Option.some_ne_none _)
        refine ⟨ok.distinct.imp_of_mem ?_, List.pairwise_singleton _ _, ?_⟩
        · intro first second member member' apart name
          rw [old first member, old second member']
          exact apart name
        · intro first member second isNew name named
          rw [List.mem_singleton.mp isNew]
          rw [old first member] at named
          cases named' : v'.named name new with
          | false => rfl
          | true =>
              have absent := links.absent
              rw [child_some links.live, (links.named_new name).mp named', List.find?_eq_none] at absent
              exact absurd named (absent first member)
      · intro notDirectory
        exact absurd links.directory notDirectory
    · by_cases isNew : ptr = new
      · rw [isNew, links.added] at live
        rw [isNew, ← Option.some.inj live]
        have none : below.kids = [] := by rw [VfsNode.kids, links.empty]; rfl
        refine ⟨by rw [none]; exact RingHolds.nil, by rw [none, links.empty]; rfl, ?_, by rw [none]; exact List.Pairwise.nil,
          fun _ => none⟩
        rw [none]
        exact nofun
      · rw [links.other ptr isDir isNew] at live
        exact (inv.node ptr value live).congr fun kid _ old liveOld => links.kept liveOld
  · intro ptr isRoot
    rw [links.root] at isRoot
    obtain ⟨value, live, type, parent⟩ := inv.root ptr isRoot
    by_cases isDir : ptr = dir
    · rw [isDir, links.live] at live
      have same := Option.some.inj live
      rw [isDir]
      exact ⟨_, links.here, by rw [same]; exact type, by rw [same]; exact parent⟩
    · have notNew : ptr ≠ new := by
        intro clash
        rw [clash, links.dead] at live
        cases live
      exact ⟨value, (links.other ptr isDir notNew).trans live, type, parent⟩

/-- The new edge is the only change to the edges. -/
theorem Links.adds (links : Links v v' dir new node below) (inv : VfsInv v) :
    AddsChild v.child v'.child dir below.name new := by
  obtain ⟨_, kids⟩ := links.kids inv
  have below_dir (name : List Char) : v'.child dir name = if name = below.name then some new else v.child dir name := by
    rw [child_some links.here, kids, links.find inv, child_some links.live]
  refine ⟨by rw [below_dir, if_pos rfl], links.absent, ?_, ?_⟩
  · intro name
    rw [child_some links.added, VfsNode.kids, links.empty]
    rfl
  · intro dir' name notNew away
    by_cases isDir : dir' = dir
    · rw [isDir] at away ⊢
      rw [below_dir, if_neg (away.resolve_left (not_not.mpr rfl))]
    · rw [Vfs.child, Vfs.child, links.other dir' isDir notNew]
      cases live : v.nodes dir' with
      | none => rfl
      | some value =>
          rw [Option.bind_some, Option.bind_some]
          apply List.find?_congr
          intro kid member
          obtain ⟨old, liveOld, _⟩ := (inv.node dir' value live).child kid member
          exact links.named (by rw [liveOld]; exact Option.some_ne_none _) name

/-- A fresh record is no part of the tree. -/
theorem VfsInv.alloc (inv : VfsInv v) (dead : v.nodes new = none) :
    VfsInv (v.setNode new .zero) ∧ (v.setNode new .zero).child = v.child := by
  have other (ptr : NodePtr) (different : ptr ≠ new) : (v.setNode new .zero).nodes ptr = v.nodes ptr :=
    setNode_other v .zero different
  have kept {ptr : NodePtr} {old : VfsNode} (live : v.nodes ptr = some old) :
      (v.setNode new .zero).nodes ptr = some old := by
    refine (other ptr ?_).trans live
    intro same
    rw [same, dead] at live
    cases live
  refine ⟨⟨?_, ?_⟩, ?_⟩
  · intro ptr value live
    by_cases isNew : ptr = new
    · rw [isNew, setNode_here] at live
      rw [isNew, ← Option.some.inj live]
      exact ⟨RingHolds.nil, rfl, nofun, List.Pairwise.nil, fun _ => rfl⟩
    · rw [other ptr isNew] at live
      exact (inv.node ptr value live).congr fun kid _ old liveOld => ⟨old, kept liveOld, rfl, rfl⟩
  · intro ptr isRoot
    obtain ⟨value, live, rest⟩ := inv.root ptr isRoot
    exact ⟨value, kept live, rest⟩
  · funext dir name
    by_cases isNew : dir = new
    · rw [Vfs.child, Vfs.child, isNew, dead, setNode_here]
      rfl
    · rw [Vfs.child, Vfs.child, other dir isNew]
      cases live : v.nodes dir with
      | none => rfl
      | some value =>
          rw [Option.bind_some, Option.bind_some]
          apply List.find?_congr
          intro kid member
          obtain ⟨old, liveOld, _⟩ := (inv.node dir value live).child kid member
          rw [Vfs.named, Vfs.named, kept liveOld, liveOld]

/-- An allocation fails, or it hands out a record that was not in use. -/
theorem nodeAlloc_spec {kmalloc result : Option NodePtr} (returned : nodeAlloc v kmalloc = .ok (result, v')) :
    (result = none ∧ v' = v) ∨ ∃ new, result = some new ∧ v.nodes new = none ∧ v' = v.setNode new .zero := by
  cases kmalloc with
  | none =>
      cases returned
      exact Or.inl ⟨rfl, rfl⟩
  | some new =>
      cases dead : v.nodes new with
      | some old =>
          simp only [nodeAlloc, dead] at returned
          cases returned
      | none =>
          simp only [nodeAlloc, dead] at returned
          cases returned
          exact Or.inr ⟨new, rfl, dead, rfl⟩

/-- The calls that add nodes keep all but the child arrays of the old nodes, and the new nodes hold no data. -/
structure Grows (v v' : Vfs) : Prop where
  root : v'.root = v.root
  buffers : v'.buffers = v.buffers
  bytes : v'.bytes = v.bytes
  archive : v'.archive = v.archive
  kept : ∀ ptr node, v.nodes ptr = some node →
    ∃ children childCount, v'.nodes ptr = some { node with children := children, childCount := childCount }
  fresh : ∀ ptr node, v.nodes ptr = none → v'.nodes ptr = some node →
    node.data = none ∧ node.size = 0 ∧ node.capacity = 0 ∧ node.borrowed = false

theorem Grows.refl (v : Vfs) : Grows v v := by
  refine ⟨rfl, rfl, rfl, rfl, fun ptr node live => ⟨_, _, live⟩, ?_⟩
  intro ptr node dead live
  rw [dead] at live
  cases live

theorem Grows.trans {v'' : Vfs} (first : Grows v v') (second : Grows v' v'') : Grows v v'' := by
  refine ⟨second.root.trans first.root, second.buffers.trans first.buffers, second.bytes.trans first.bytes,
    second.archive.trans first.archive, ?_, ?_⟩
  · intro ptr node live
    obtain ⟨children, childCount, live'⟩ := first.kept ptr node live
    obtain ⟨children', childCount', live''⟩ := second.kept ptr _ live'
    exact ⟨children', childCount', live''⟩
  · intro ptr node dead live
    cases live' : v'.nodes ptr with
    | none => exact second.fresh ptr node live' live
    | some node' =>
        obtain ⟨children, childCount, same⟩ := second.kept ptr node' live'
        rw [live] at same
        rw [Option.some.inj same]
        exact first.fresh ptr node' dead live'

/-- A fresh record holds no data. -/
theorem grows_alloc (dead : v.nodes new = none) : Grows v (v.setNode new .zero) := by
  refine ⟨rfl, rfl, rfl, rfl, ?_, ?_⟩
  · intro ptr node live
    have different : ptr ≠ new := by
      intro same
      rw [same, dead] at live
      cases live
    exact ⟨_, _, (setNode_other v .zero different).trans live⟩
  · intro ptr node dead' live
    by_cases isNew : ptr = new
    · rw [isNew, setNode_here] at live
      rw [← Option.some.inj live]
      exact ⟨rfl, rfl, rfl, rfl⟩
    · rw [setNode_other v .zero isNew, dead'] at live
      cases live

/-- A new child that holds no data leaves the files as they are. -/
theorem Links.grows (links : Links v v' dir new node below) (buffers : v'.buffers = v.buffers) (bytes : v'.bytes = v.bytes)
    (archive : v'.archive = v.archive) (noData : below.data = none ∧ below.size = 0 ∧ below.capacity = 0 ∧
      below.borrowed = false) : Grows v v' := by
  refine ⟨links.root, buffers, bytes, archive, ?_, ?_⟩
  · intro ptr old live
    by_cases isDir : ptr = dir
    · rw [isDir, links.live] at live
      rw [isDir, ← Option.some.inj live]
      exact ⟨_, _, links.here⟩
    · have notNew : ptr ≠ new := by
        intro same
        rw [same, links.dead] at live
        cases live
      exact ⟨_, _, (links.other ptr isDir notNew).trans live⟩
  · intro ptr node' dead live
    by_cases isNew : ptr = new
    · rw [isNew, links.added] at live
      rw [← Option.some.inj live]
      exact noData
    · have notDir : ptr ≠ dir := by
        intro same
        rw [same, links.live] at dead
        cases dead
      rw [links.other ptr notDir isNew, dead] at live
      cases live

/-- The result of `vfs_create_node`: it fails, finds the name, or gives the directory a new child. -/
inductive Creates (v v' : Vfs) (dir : NodePtr) (name : List Char) (type : VfsType) : Option NodePtr → Prop
  | failed (same : v'.child = v.child) : Creates v v' dir name type none
  | existing (ptr : NodePtr) (found : v.child dir name = some ptr) (same : v'.child = v.child) :
      Creates v v' dir name type (some ptr)
  | linked (new : NodePtr) (node below : VfsNode) (links : Links v v' dir new node below) (isName : below.name = name)
      (isType : below.type = type) : Creates v v' dir name type (some new)

/-- `vfs_create_node` keeps the tree well formed. -/
theorem VfsInv.createNode {type : VfsType} {kmalloc result : Option NodePtr} (inv : VfsInv v)
    (live : v.nodes dir = some node) (token : TokenOk name)
    (returned : vfsCreateNode v (some dir) (some name) type kmalloc = .ok (result, v')) :
    VfsInv v' ∧ Grows v v' ∧ Creates v v' dir name type result := by
  unfold vfsCreateNode at returned
  rw [inv.findChild live, Result.ok_bind] at returned
  obtain ⟨⟨n, v₁⟩, allocated, rest⟩ := Result.bind_ok returned
  have early : VfsInv v₁ ∧ Grows v v₁ ∧ v₁.child = v.child ∧ v₁.nodes dir = some node := by
    rcases nodeAlloc_spec allocated with ⟨_, rfl⟩ | ⟨new, _, dead, rfl⟩
    · exact ⟨inv, Grows.refl v₁, rfl, live⟩
    · obtain ⟨inv₁, sameChild⟩ := inv.alloc dead
      have different : dir ≠ new := by
        intro same
        rw [same, dead] at live
        cases live
      exact ⟨inv₁, grows_alloc dead, sameChild, (setNode_other v .zero different).trans live⟩
  obtain ⟨inv₁, grows₁, child₁, live₁⟩ := early
  have failed : result = none → v' = v₁ → VfsInv v' ∧ Grows v v' ∧ Creates v v' dir name type result := by
    rintro rfl rfl
    exact ⟨inv₁, grows₁, .failed child₁⟩
  simp only [if_neg token.nonempty, node_some.mpr live₁, Result.ok_bind] at rest
  by_cases directory : node.type ≠ .directory
  · rw [if_pos directory] at rest
    cases rest
    exact failed rfl rfl
  rw [if_neg directory] at rest
  cases found : v.child dir name with
  | some existing =>
      simp only [found] at rest
      cases rest
      exact ⟨inv₁, grows₁, .existing existing found child₁⟩
  | none =>
      simp only [found] at rest
      by_cases full : node.childCount ≥ vfsMaxChildren
      · rw [if_pos full] at rest
        cases rest
        exact failed rfl rfl
      rw [if_neg full] at rest
      cases n with
      | none =>
          cases rest
          exact failed rfl rfl
      | some new =>
          rcases nodeAlloc_spec allocated with ⟨isNone, _⟩ | ⟨new', isNew, dead, isFresh⟩
          · cases isNone
          have sameNew := Option.some.inj isNew
          rw [← sameNew] at dead isFresh
          rw [isFresh] at rest
          simp only [node_some.mpr (setNode_here v new .zero), Result.ok_bind] at rest
          cases rest
          have different : dir ≠ new := by
            intro same
            rw [same, dead] at live
            cases live
          let below : VfsNode := ⟨name, type, none, 0, 0, false, none, some dir, fun _ => none, 0⟩
          have links : Links v (((v.setNode new .zero).setNode new below).setNode dir
              { node with children := Function.update node.children node.childCount (some new)
                          childCount := node.childCount + 1 }) dir new node below :=
            { live := live, directory := not_not.mp directory, room := Nat.lt_of_not_le full, dead := dead, empty := rfl
              parent := rfl, token := token, absent := found, root := rfl, here := setNode_here _ _ _
              added := by
                rw [setNode_other _ _ different.symm]
                exact setNode_here _ _ _
              other := by
                intro ptr notDir notNew
                rw [setNode_other _ _ notDir, setNode_other _ _ notNew, setNode_other _ _ notNew] }
          refine ⟨links.inv inv, ?_, .linked new node below links rfl rfl⟩
          exact links.grows rfl rfl rfl ⟨rfl, rfl, rfl, rfl⟩

end

end DoccrOS.Fs
