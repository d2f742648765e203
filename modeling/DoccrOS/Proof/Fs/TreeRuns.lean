import DoccrOS.Lib.Run
import Mathlib.Data.List.ReduceOption
import DoccrOS.Proof.Fs.TreeRemoves

namespace DoccrOS.Fs
open Lib

/-- A change of the edges adds nodes at the prefixes of a list of names only. -/
def AddsPrefixes (child child' : NodePtr → List Char → Option NodePtr) (root : NodePtr) (names : List (List Char)) : Prop :=
  ∀ other, resolve child' root other ≠ resolve child root other →
    resolve child root other = none ∧ other <+: names

/-- No two allocations return one address, and no address is in use. -/
structure Fresh (v : Vfs) (kmallocs : List (Option NodePtr)) : Prop where
  nodup : kmallocs.reduceOption.Nodup
  dead : ∀ new ∈ kmallocs.reduceOption, v.nodes new = none

section
variable {v v' : Vfs} {ptr dir root new : NodePtr} {node : VfsNode} {name p path : List Char} {fuel : Nat}
  {front names : List (List Char)} {kmalloc result : Option NodePtr} {kmallocs : List (Option NodePtr)}

theorem AddsPrefixes.of_same (same : v'.child = v.child) : AddsPrefixes v.child v'.child root names := by
  intro other differs
  rw [same] at differs
  exact absurd rfl differs

theorem AddsPrefixes.trans {v'' : Vfs} (first : AddsPrefixes v.child v'.child root names)
    (second : AddsPrefixes v'.child v''.child root names) : AddsPrefixes v.child v''.child root names := by
  intro other differs
  by_cases early : resolve v'.child root other = resolve v.child root other
  · rw [← early] at differs ⊢
    exact second other differs
  · exact first other early

/-- A created node is the one that the name leads to. -/
theorem Creates.resolve {type : VfsType} (inv : VfsInv v) (isRoot : v.root = some root)
    (reached : Lib.resolve v.child root front = some dir) (creates : Creates v v' dir name type result)
    (isPrefix : front ++ [name] <+: names) : AddsPrefixes v.child v'.child root names ∧
      ∀ ptr, result = some ptr → Lib.resolve v'.child root (front ++ [name]) = some ptr := by
  cases creates with
  | failed same => exact ⟨AddsPrefixes.of_same same, nofun⟩
  | existing ptr found same =>
      refine ⟨AddsPrefixes.of_same same, ?_⟩
      rintro ptr ⟨⟩
      rw [same, resolve_snoc, reached, Option.bind_some, found]
  | linked new node below links isName _ =>
      have notRoot : root ≠ new := by
        intro same
        obtain ⟨value, live, _⟩ := inv.root root isRoot
        rw [same, links.dead] at live
        cases live
      have fresh : ∀ dir' name', v.child dir' name' ≠ some new := by
        intro dir' name' found
        obtain ⟨_, value, _, _, live, _⟩ := inv.child_spec found
        rw [links.dead] at live
        cases live
      obtain ⟨here, other⟩ := (links.adds inv).resolve (inv.tree isRoot) notRoot fresh reached
      rw [isName] at here other
      refine ⟨?_, ?_⟩
      · intro names' differs
        have isNew : names' = front ++ [name] := by
          by_contra different
          exact differs (other names' different)
        rw [isNew]
        refine ⟨?_, isPrefix⟩
        rw [resolve_snoc, reached, Option.bind_some, ← isName]
        exact links.absent
      · rintro ptr ⟨⟩
        exact here

/-- The loop of `vfs_mkdir` adds nodes at prefixes of its path, and its result is the node at the end. -/
theorem VfsInv.mkdirFrom (inv : VfsInv v) (isRoot : v.root = some root) (reached : resolve v.child root front = some dir)
    (noSlash : p.head? ≠ some '/') (returned : vfsMkdirFrom fuel v dir p kmallocs = .ok (result, v')) :
    VfsInv v' ∧ Grows v v' ∧ AddsPrefixes v.child v'.child root (front ++ tokensFrom fuel p) ∧
      ∀ ptr, result = some ptr → resolve v'.child root (front ++ tokensFrom fuel p) = some ptr := by
  induction fuel generalizing v dir p front kmallocs with
  | zero => cases returned
  | succ fuel ih =>
      by_cases empty : p = []
      · rw [vfsMkdirFrom, if_pos empty] at returned
        cases returned
        refine ⟨inv, Grows.refl _, AddsPrefixes.of_same rfl, ?_⟩
        rintro ptr ⟨⟩
        rw [tokensFrom, if_pos empty, List.append_nil]
        exact reached
      · obtain ⟨ok, _⟩ := takeToken_ok empty noSlash
        rw [vfsMkdirFrom, if_neg empty] at returned
        simp only [if_neg ok.nonempty] at returned
        obtain ⟨node, live⟩ := inv.resolve_live isRoot reached
        rw [inv.findChild live, Result.ok_bind] at returned
        rw [tokensFrom_succ empty noSlash]
        cases found : v.child dir (takeToken (vfsNameMax - 1) p).1 with
        | none =>
            rw [found] at returned
            obtain ⟨⟨next, v₁⟩, created, rest⟩ := Result.bind_ok returned
            obtain ⟨inv₁, grows₁, creates⟩ := inv.createNode live ok created
            have isPrefix : front ++ [(takeToken (vfsNameMax - 1) p).1] <+: front ++ (takeToken (vfsNameMax - 1) p).1 ::
                tokensFrom fuel (skipSlashes (takeToken (vfsNameMax - 1) p).2) := ⟨_, List.append_assoc _ _ _⟩
            obtain ⟨adds, leads⟩ := creates.resolve inv isRoot reached isPrefix
            cases next with
            | none =>
                cases rest
                exact ⟨inv₁, grows₁, adds, (by rintro _ ⟨⟩)⟩
            | some next =>
                obtain ⟨inv', grows', adds', leads'⟩ :=
                  ih inv₁ (grows₁.root.trans isRoot) (leads next rfl) (skipSlashes_head _) rest
                rw [← List.append_cons] at adds' leads'
                exact ⟨inv', grows₁.trans grows', adds.trans adds', leads'⟩
        | some next =>
            simp only [found] at returned
            obtain ⟨value, isNext, rest⟩ := Result.bind_ok returned
            by_cases directory : value.type ≠ .directory
            · rw [if_pos directory] at rest
              cases rest
              exact ⟨inv, Grows.refl _, AddsPrefixes.of_same rfl, (by rintro _ ⟨⟩)⟩
            · rw [if_neg directory] at rest
              have below : resolve v.child root (front ++ [(takeToken (vfsNameMax - 1) p).1]) = some next := by
                rw [resolve_snoc, reached, Option.bind_some, found]
              obtain ⟨inv', grows', adds', leads'⟩ := ih inv isRoot below (skipSlashes_head _) rest
              rw [← List.append_cons] at adds' leads'
              exact ⟨inv', grows', adds', leads'⟩

/-- `vfs_mkdir` adds nodes at prefixes of its path, and its result is the node at the path. -/
theorem VfsInv.mkdir (inv : VfsInv v) (returned : vfsMkdir v path kmallocs = .ok (result, v')) :
    VfsInv v' ∧ Grows v v' ∧ ∀ root, v.root = some root → AddsPrefixes v.child v'.child root (tokens path) ∧
      ∀ ptr, result = some ptr → resolve v'.child root (tokens path) = some ptr := by
  unfold vfsMkdir at returned
  cases isRoot : v.root with
  | none =>
      rw [isRoot] at returned
      cases returned
      exact ⟨inv, Grows.refl _, nofun⟩
  | some root =>
      simp only [isRoot] at returned
      by_cases short : path = [] ∨ path = ['/']
      · rw [if_pos short] at returned
        cases returned
        refine ⟨inv, Grows.refl _, ?_⟩
        rintro root ⟨⟩
        refine ⟨AddsPrefixes.of_same rfl, ?_⟩
        rintro ptr ⟨⟩
        rw [tokens_root short]
        rfl
      · rw [if_neg short] at returned
        have atRoot : resolve v.child root [] = some root := rfl
        obtain ⟨inv', grows, adds, leads⟩ := inv.mkdirFrom isRoot atRoot (skipSlashes_head path) returned
        refine ⟨inv', grows, ?_⟩
        rintro root ⟨⟩
        exact ⟨adds, leads⟩

theorem Fresh.head (fresh : Fresh v kmallocs) : ∀ new, kmallocs.head?.join = some new → v.nodes new = none := by
  intro new isHead
  cases kmallocs with
  | nil => cases isHead
  | cons kmalloc kmallocs =>
      apply fresh.dead
      rw [List.head?_cons, Option.join_some] at isHead
      rw [isHead, List.reduceOption_cons_of_some]
      exact List.mem_cons_self

/-- The later allocations are fresh after the first one is used. -/
theorem Fresh.tail (fresh : Fresh v kmallocs)
    (kept : ∀ ptr, v.nodes ptr = none → kmallocs.head?.join ≠ some ptr → v'.nodes ptr = none) : Fresh v' kmallocs.tail := by
  cases kmallocs with
  | nil => exact ⟨List.nodup_nil, nofun⟩
  | cons kmalloc kmallocs =>
      cases kmalloc with
      | none => exact ⟨fresh.nodup, fun new member => kept new (fresh.dead new member) nofun⟩
      | some first =>
          have nodup := fresh.nodup
          rw [List.reduceOption_cons_of_some, List.nodup_cons] at nodup
          refine ⟨nodup.2, ?_⟩
          intro new member
          apply kept new
          · apply fresh.dead
            rw [List.reduceOption_cons_of_some]
            exact List.mem_cons_of_mem _ member
          · intro same
            rw [List.head?_cons, Option.join_some] at same
            rw [Option.some.inj same] at nodup
            exact nodup.1 member

/-- `vfs_create_node` returns, and it uses no other address than the one it allocates. -/
theorem VfsInv.createNode_returns (inv : VfsInv v) (type : VfsType) (live : v.nodes dir = some node) (nonempty : name ≠ [])
    (dead : ∀ new, kmalloc = some new → v.nodes new = none) :
    ∃ result v', vfsCreateNode v (some dir) (some name) type kmalloc = .ok (result, v') ∧
      ∀ ptr, v.nodes ptr = none → kmalloc ≠ some ptr → v'.nodes ptr = none := by
  have allocated : ∃ v₁, nodeAlloc v kmalloc = .ok (kmalloc, v₁) ∧ v₁.nodes dir = some node ∧
      (∀ new, kmalloc = some new → v₁.nodes new = some .zero) ∧
      ∀ ptr, v.nodes ptr = none → kmalloc ≠ some ptr → v₁.nodes ptr = none := by
    cases kmalloc with
    | none => exact ⟨v, rfl, live, (by rintro _ ⟨⟩), fun _ none _ => none⟩
    | some new =>
        have unused := dead new rfl
        have different : dir ≠ new := by
          intro same
          rw [same, unused] at live
          cases live
        refine ⟨v.setNode new .zero, by simp only [nodeAlloc, unused], (setNode_other v .zero different).trans live, ?_, ?_⟩
        · rintro new ⟨⟩
          exact setNode_here _ _ _
        · intro ptr none notNew
          rw [setNode_other v .zero fun same => notNew (congrArg some same.symm)]
          exact none
  obtain ⟨v₁, isAlloc, live₁, zero, kept⟩ := allocated
  unfold vfsCreateNode
  rw [inv.findChild live]
  simp only [Result.ok_bind, isAlloc, if_neg nonempty, node_some.mpr live₁]
  by_cases directory : node.type ≠ .directory
  · rw [if_pos directory]
    exact ⟨none, v₁, rfl, kept⟩
  rw [if_neg directory]
  cases v.child dir name with
  | some existing => exact ⟨some existing, v₁, rfl, kept⟩
  | none =>
      by_cases full : node.childCount ≥ vfsMaxChildren
      · simp only [if_pos full]
        exact ⟨none, v₁, rfl, kept⟩
      simp only [if_neg full]
      cases isNew : kmalloc with
      | none =>
          refine ⟨none, v₁, rfl, ?_⟩
          intro ptr unused _
          exact kept ptr unused (by rw [isNew]; exact (Option.some_ne_none _).symm)
      | some new =>
          simp only [node_some.mpr (zero new isNew), Result.ok_bind]
          refine ⟨some new, _, rfl, ?_⟩
          intro ptr unused notNew
          have notDir : ptr ≠ dir := by
            intro same
            rw [same, live] at unused
            cases unused
          rw [setNode_other _ _ notDir, setNode_other _ _ fun same => notNew (congrArg some same.symm)]
          exact kept ptr unused (by rw [isNew]; exact notNew)

/-- `vfs_mkdir` returns when its allocations are fresh. -/
theorem VfsInv.mkdirFrom_returns (inv : VfsInv v) (isRoot : v.root = some root)
    (reached : resolve v.child root front = some dir) (noSlash : p.head? ≠ some '/') (enough : p.length < fuel)
    (fresh : Fresh v kmallocs) : ∃ result v', vfsMkdirFrom fuel v dir p kmallocs = .ok (result, v') := by
  induction fuel generalizing v dir p front kmallocs with
  | zero => exact absurd enough (Nat.not_lt_zero _)
  | succ fuel ih =>
      by_cases empty : p = []
      · rw [vfsMkdirFrom, if_pos empty]
        exact ⟨_, _, rfl⟩
      · obtain ⟨ok, _⟩ := takeToken_ok empty noSlash
        have shorter := skipSlashes_takeToken empty noSlash
        obtain ⟨node, live⟩ := inv.resolve_live isRoot reached
        rw [vfsMkdirFrom, if_neg empty]
        simp only [if_neg ok.nonempty]
        rw [inv.findChild live, Result.ok_bind]
        cases found : v.child dir (takeToken (vfsNameMax - 1) p).1 with
        | none =>
            obtain ⟨next, v₁, created, kept⟩ := inv.createNode_returns .directory live ok.nonempty fresh.head
            obtain ⟨inv₁, grows₁, creates⟩ := inv.createNode live ok created
            simp only [created, Result.ok_bind]
            cases next with
            | none => exact ⟨_, _, rfl⟩
            | some next =>
                have leads := (creates.resolve inv isRoot reached (List.prefix_refl _)).2 next rfl
                exact ih inv₁ (grows₁.root.trans isRoot) leads (skipSlashes_head _) (by omega) (fresh.tail kept)
        | some next =>
            obtain ⟨_, value, _, _, liveNext, _⟩ := inv.child_spec found
            simp only [node_some.mpr liveNext, Result.ok_bind]
            by_cases directory : value.type ≠ .directory
            · rw [if_pos directory]
              exact ⟨_, _, rfl⟩
            · rw [if_neg directory]
              have below : resolve v.child root (front ++ [(takeToken (vfsNameMax - 1) p).1]) = some next := by
                rw [resolve_snoc, reached, Option.bind_some, found]
              exact ih inv isRoot below (skipSlashes_head _) (by omega) fresh

theorem VfsInv.mkdir_returns (inv : VfsInv v) (path : List Char) (fresh : Fresh v kmallocs) :
    ∃ result v', vfsMkdir v path kmallocs = .ok (result, v') := by
  unfold vfsMkdir
  cases isRoot : v.root with
  | none => exact ⟨_, _, rfl⟩
  | some root =>
      by_cases short : path = [] ∨ path = ['/']
      · simp only [if_pos short]
        exact ⟨_, _, rfl⟩
      · simp only [if_neg short]
        have atRoot : resolve v.child root [] = some root := rfl
        exact inv.mkdirFrom_returns isRoot atRoot (skipSlashes_head path)
          (Nat.lt_succ_of_le (skipSlashes_length path)) fresh

/-- A node that a path leads to is the root or a child of the directory that the path without its last name leads to. -/
theorem VfsInv.reached_below (inv : VfsInv v) (reached : resolve v.child root names = some ptr) (notRoot : ptr ≠ root) :
    ∃ front dir node below, names = front ++ [below.name] ∧ resolve v.child root front = some dir ∧
      v.nodes dir = some node ∧ v.nodes ptr = some below ∧ below.parent = some dir := by
  induction names using List.reverseRecOn with
  | nil => exact absurd (Option.some.inj reached).symm notRoot
  | append_singleton front name _ =>
      obtain ⟨dir, above, found⟩ := resolve_snoc_some reached
      obtain ⟨node, below, live, _, liveKid, parent, isName, _⟩ := inv.child_spec found
      exact ⟨front, dir, node, below, by rw [isName], above, live, liveKid, parent⟩

/-- The buffers that a node frees are allocated. -/
def Freeable (buffers : List Block) (node : VfsNode) : Prop :=
  ∀ data, node.data = some data → node.borrowed = false → ∃ block ∈ buffers, block.start = data

theorem freeOwned_returns (freeable : Freeable v.buffers node) : ∃ v', v.freeOwned node = .ok v' := by
  unfold Vfs.freeOwned
  cases isData : node.data with
  | none => exact ⟨v, rfl⟩
  | some data =>
      cases borrowed : node.borrowed with
      | true => exact ⟨v, rfl⟩
      | false =>
          obtain ⟨block, member, start⟩ := freeable data isData borrowed
          have found : (v.buffers.find? fun block => block.start == data).isSome = true :=
            List.find?_isSome.mpr ⟨block, member, beq_iff_eq.mpr start⟩
          obtain ⟨first, isFirst⟩ := Option.isSome_iff_exists.mp found
          simp only [Bool.false_eq_true, if_false, Vfs.freeBuffer, isFirst]
          exact ⟨_, rfl⟩

/-- `vfs_remove` returns when the buffers that it may free are allocated. -/
theorem VfsInv.remove_returns (inv : VfsInv v) (path : List Char)
    (freeable : ∀ ptr node, v.nodes ptr = some node → Freeable v.buffers node) :
    ∃ code v', vfsRemove v path = .ok (code, v') := by
  unfold vfsRemove
  rw [inv.find, Result.ok_bind]
  cases isRoot : v.root with
  | none => exact ⟨_, _, rfl⟩
  | some root =>
      simp only [Option.bind_some]
      cases reached : resolve v.child root (tokens path) with
      | none => exact ⟨_, _, rfl⟩
      | some ptr =>
          by_cases atRoot : some ptr = some root
          · simp only [if_pos atRoot]
            exact ⟨_, _, rfl⟩
          obtain ⟨_, dir, node, below, _, _, live, liveKid, parent⟩ :=
            inv.reached_below reached fun same => atRoot (congrArg some same)
          simp only [if_neg atRoot, node_some.mpr liveKid, Result.ok_bind, parent, node_some.mpr live]
          by_cases busy : below.type = .directory ∧ below.childCount > 0
          · rw [if_pos busy]
            exact ⟨_, _, rfl⟩
          rw [if_neg busy]
          cases (List.range node.childCount).find? fun i => node.children i == some ptr with
          | none => exact ⟨_, _, rfl⟩
          | some idx =>
              obtain ⟨v', freed⟩ := freeOwned_returns (v := v.setNode dir { node with
                children := moveDown node.children idx (node.childCount - 1 - idx), childCount := node.childCount - 1 })
                (freeable ptr below liveKid)
              simp only [freed]
              exact ⟨_, _, rfl⟩

/-- After `vfs_init` the tree is the root alone, or the allocation failed. -/
theorem vfsInit_inv {bytes : Bytes} {archive : Block} (booted : vfsInit (Vfs.boot bytes archive) kmalloc = .ok v) :
    VfsInv v ∧ Grows { Vfs.boot bytes archive with root := v.root } v := by
  cases kmalloc with
  | none =>
      cases booted
      exact ⟨⟨(by rintro _ _ ⟨⟩), (by rintro _ ⟨⟩)⟩, Grows.refl _⟩
  | some root =>
      have dead : (Vfs.boot bytes archive).nodes root = none := rfl
      unfold vfsInit at booted
      simp only [nodeAlloc, dead, Result.ok_bind, node_some.mpr (setNode_here (Vfs.boot bytes archive) root .zero)] at booted
      cases booted
      have only {ptr : NodePtr} {node : VfsNode} (live : ({ ((Vfs.boot bytes archive).setNode root .zero).setNode root
          { VfsNode.zero with name := ['/'], type := .directory, parent := none, childCount := 0 } with
            root := some root } : Vfs).nodes ptr = some node) :
          ptr = root ∧ node = { VfsNode.zero with name := ['/'], type := .directory, parent := none, childCount := 0 } := by
        by_cases isRoot : ptr = root
        · rw [isRoot] at live
          have same := (setNode_here _ root _).symm.trans live
          exact ⟨isRoot, (Option.some.inj same).symm⟩
        · have missing := (setNode_other _ _ isRoot).symm.trans live
          rw [setNode_other _ _ isRoot] at missing
          cases missing
      refine ⟨⟨?_, ?_⟩, ⟨rfl, rfl, rfl, rfl, (by rintro _ _ ⟨⟩), ?_⟩⟩
      · intro ptr node live
        rw [(only live).2]
        exact ⟨RingHolds.nil, rfl, (by rintro _ ⟨⟩), List.Pairwise.nil, fun _ => rfl⟩
      · rintro ptr ⟨⟩
        exact ⟨_, setNode_here _ _ _, rfl, rfl⟩
      · intro ptr node _ live
        rw [(only live).2]
        exact ⟨rfl, rfl, rfl, rfl⟩

end

/-- The node that the map from lists of names holds. -/
def Vfs.lookup (v : Vfs) (names : List (List Char)) : Option NodePtr := v.root.bind fun root => resolve v.child root names

/-- This call changes the tree and no file. -/
def VfsOp.isTree : VfsOp → Bool
  | .mkdir _ _ => true
  | .remove _ => true
  | _ => false

/-- The tree is well formed and no node holds data. -/
structure TreeInv (v : Vfs) : Prop where
  inv : VfsInv v
  empty : ∀ ptr node, v.nodes ptr = some node → node.data = none

section
variable {v v' start : Vfs} {bytes : Bytes} {archive : Block} {kmalloc : Option NodePtr} {ops : List VfsOp} {root n : NodePtr}
  {names other : List (List Char)}

theorem lookup_of_root (isRoot : v.root = some root) (names : List (List Char)) : v.lookup names = resolve v.child root names := by
  rw [Vfs.lookup, isRoot, Option.bind_some]

/-- Only one list of names leads to a node. -/
theorem VfsInv.lookup_inj (inv : VfsInv v) (reached : v.lookup names = some n) (reached' : v.lookup other = some n) :
    names = other := by
  obtain ⟨root, isRoot, leads⟩ := Option.bind_eq_some_iff.mp reached
  rw [lookup_of_root isRoot] at reached'
  exact (inv.tree isRoot).resolve_inj leads reached'

/-- New nodes hold no data. -/
theorem Grows.empty (grows : Grows v v') (empty : ∀ ptr node, v.nodes ptr = some node → node.data = none) :
    ∀ ptr node, v'.nodes ptr = some node → node.data = none := by
  intro ptr node live
  cases old : v.nodes ptr with
  | none => exact (grows.fresh ptr node old live).1
  | some before =>
      obtain ⟨children, childCount, same⟩ := grows.kept ptr before old
      rw [live] at same
      rw [Option.some.inj same]
      exact empty ptr before old

/-- The calls of the tree keep the invariant. -/
theorem TreeInv.step (inv : TreeInv v) {op : VfsOp} (isTree : op.isTree = true) (returned : v.step op = .ok v') :
    TreeInv v' := by
  cases op with
  | mkdir path kmallocs =>
      obtain ⟨⟨result, after⟩, called, rfl⟩ := Result.map_ok returned
      obtain ⟨inv', grows, _⟩ := inv.inv.mkdir called
      exact ⟨inv', grows.empty inv.empty⟩
  | remove path =>
      obtain ⟨⟨code, after⟩, called, rfl⟩ := Result.map_ok returned
      rcases inv.inv.remove called with ⟨_, same⟩ | ⟨_, root, dir, ptr, node, below, idx, _, _, unlinks, _⟩
      · rw [same]
        exact inv
      · refine ⟨unlinks.inv inv.inv, ?_⟩
        intro query value live
        obtain ⟨_, old, _, _, before, rfl⟩ := unlinks.back live
        exact inv.empty query old before
  | createFile path kmallocs kmalloc => cases isTree
  | createDevice path device kmallocs kmalloc => cases isTree
  | setData node data size => cases isTree
  | write node buf kmalloc => cases isTree
  | read node size => cases isTree

/-- A removed path leads nowhere, and every path with other tokens leads where it led. -/
theorem VfsInv.remove_lookup {path : List Char} {code : Int} (inv : VfsInv v) (returned : vfsRemove v path = .ok (code, v')) :
    (code = 0 ∧ v'.lookup (tokens path) = none ∧ ∀ names, names ≠ tokens path → v'.lookup names = v.lookup names) ∨
      (code = -1 ∧ v' = v) := by
  rcases inv.remove returned with failed | ⟨isZero, root, dir, ptr, node, below, idx, isRoot, reached, unlinks, _⟩
  · exact Or.inr failed
  · have notRoot : ptr ≠ root := fun same => unlinks.notRoot (by rw [isRoot, same])
    obtain ⟨front, dir', _, below', isPath, above, _, live, parent⟩ := inv.reached_below reached notRoot
    rw [unlinks.gone] at live
    rw [← Option.some.inj live] at isPath parent
    rw [unlinks.parent] at parent
    rw [← Option.some.inj parent] at above
    obtain ⟨gone, other⟩ := (unlinks.drops inv).resolve (inv.tree isRoot) above
    refine Or.inl ⟨isZero, ?_, ?_⟩
    · rw [Vfs.lookup, unlinks.root, isRoot, isPath]
      exact gone
    · intro names' different
      rw [isPath] at different
      rw [Vfs.lookup, Vfs.lookup, unlinks.root, isRoot]
      exact other names' different

/-- From `vfs_init` on the nodes form a well-formed tree, and `vfs_find` looks its tokens up in a prefix-closed map. A
`vfs_mkdir` adds prefixes of its path that were absent and returns the node that the path leads to. A `vfs_remove` that
succeeds takes its path out of the map and nothing else, and one that fails changes nothing. -/
theorem vfs_refines_map (booted : vfsInit (Vfs.boot bytes archive) kmalloc = .ok start)
    (run : Run Vfs.step (fun _ op => op.isTree = true) start ops v) :
    VfsInv v ∧ (∀ ptr node, v.nodes ptr = some node → node.childCount ≤ vfsMaxChildren) ∧
    (∀ path, vfsFind v path = .ok (v.lookup (tokens path))) ∧
    (∀ names more, v.lookup (names ++ more) ≠ none → v.lookup names ≠ none) ∧
    (∀ path kmallocs, Fresh v kmallocs → ∃ result v', vfsMkdir v path kmallocs = .ok (result, v')) ∧
    (∀ path kmallocs result v', vfsMkdir v path kmallocs = .ok (result, v') →
      (∀ ptr, result = some ptr → vfsFind v' path = .ok (some ptr)) ∧
      ∀ names, v'.lookup names ≠ v.lookup names → v.lookup names = none ∧ names <+: tokens path) ∧
    (∀ path, ∃ code v', vfsRemove v path = .ok (code, v')) ∧
    ∀ path code v', vfsRemove v path = .ok (code, v') →
      (code = 0 → vfsFind v' path = .ok none ∧
        ∀ other, tokens other ≠ tokens path → vfsFind v' other = vfsFind v other) ∧
      (code ≠ 0 → v' = v) := by
  have initial : TreeInv start := by
    obtain ⟨inv, grows⟩ := vfsInit_inv booted
    exact ⟨inv, grows.empty nofun⟩
  have reached := run.invariant TreeInv (fun _ _ _ inv isTree returned => inv.step isTree returned) initial
  have inv := reached.inv
  refine ⟨inv, ?_, inv.find, ?_, ?_, ?_, ?_, ?_⟩
  · intro ptr node live
    have ok := inv.node ptr node live
    rw [← ok.count]
    exact ok.slots.1
  · intro names more present
    cases isRoot : v.root with
    | none => exact absurd (by rw [Vfs.lookup, isRoot]; rfl) present
    | some root =>
        rw [Vfs.lookup, isRoot] at present ⊢
        exact resolve_prefix present
  · exact fun path kmallocs fresh => inv.mkdir_returns path fresh
  · intro path kmallocs result v' called
    obtain ⟨inv', grows, leads⟩ := inv.mkdir called
    cases isRoot : v.root with
    | none =>
        unfold vfsMkdir at called
        rw [isRoot] at called
        cases called
        exact ⟨nofun, fun names differs => absurd rfl differs⟩
    | some root =>
        obtain ⟨adds, atEnd⟩ := leads root isRoot
        have isRoot' := grows.root.trans isRoot
        refine ⟨?_, ?_⟩
        · intro ptr isResult
          rw [inv'.find, isRoot']
          exact congrArg Except.ok (atEnd ptr isResult)
        · intro names differs
          rw [Vfs.lookup, Vfs.lookup, isRoot, isRoot'] at differs
          rw [Vfs.lookup, isRoot]
          exact adds names differs
  · intro path
    apply inv.remove_returns path
    intro ptr node live data isData
    rw [reached.empty ptr node live] at isData
    cases isData
  · intro path code v' called
    rcases inv.remove_lookup called with ⟨isZero, gone, other⟩ | ⟨isFailed, same⟩
    · have returned : v.step (.remove path) = .ok v' := by rw [Vfs.step, called]; rfl
      have inv' := (reached.step rfl returned).inv
      refine ⟨fun _ => ⟨?_, ?_⟩, fun failed => absurd isZero failed⟩
      · rw [inv'.find]
        exact congrArg Except.ok gone
      · intro path' different
        rw [inv'.find, inv.find]
        exact congrArg Except.ok (other _ different)
    · refine ⟨fun isZero => ?_, fun _ => same⟩
      rw [isFailed] at isZero
      cases isZero

/-- Two directories of which the inner one is removed again. -/
theorem vfs_refines_map_removed : ∃ start v, vfsInit (Vfs.boot (fun _ => 0) ⟨0x1000, 16⟩) (some 1) = .ok start ∧
    Run Vfs.step (fun _ op => op.isTree = true) start
      [.mkdir ['/', 'a', '/', '/', 'b'] [some 2, some 3], .remove ['a', '/', 'b', '/']] v ∧
    v.lookup [['a']] = some 2 ∧ vfsFind v ['a', '/', 'b'] = .ok (v.lookup [['a'], ['b']]) ∧ v.lookup [['a'], ['b']] = none := by
  cases booted : vfsInit (Vfs.boot (fun _ => 0) ⟨0x1000, 16⟩) (some 1) with
  | error halt => cases booted
  | ok start =>
      have checked : (exec Vfs.step (fun _ op => op.isTree)
          [.mkdir ['/', 'a', '/', '/', 'b'] [some 2, some 3], .remove ['a', '/', 'b', '/']] start).any
          (fun v => v.lookup [['a']] == some 2 && v.lookup [['a'], ['b']] == none) = true := by
        cases booted
        decide +kernel
      obtain ⟨v, run, shown⟩ := Run.exists_of_check checked
      rw [Bool.and_eq_true, beq_iff_eq, beq_iff_eq] at shown
      exact ⟨start, v, rfl, run, shown.1, (vfs_refines_map booted run).2.2.1 _, shown.2⟩

end

end DoccrOS.Fs
