import DoccrOS.Lib.NamedTree
import DoccrOS.Lib.Ring
import DoccrOS.Proof.Fs.Path

namespace DoccrOS.Fs
open Lib

/-- The first `childCount` entries of the child array. -/
def VfsNode.kids (node : VfsNode) : List NodePtr := (List.range node.childCount).filterMap node.children

/-- The node has the name. -/
def Vfs.named (v : Vfs) (name : List Char) (ptr : NodePtr) : Bool := (v.nodes ptr).any fun node => node.name == name

/-- The child of a directory with a name. -/
def Vfs.child (v : Vfs) (dir : NodePtr) (name : List Char) : Option NodePtr :=
  (v.nodes dir).bind fun node => node.kids.find? (v.named name)

/-- The child array of a node holds nodes with different names whose parent it is, and only directories have children. -/
structure NodeOk (v : Vfs) (ptr : NodePtr) (node : VfsNode) : Prop where
  slots : RingHolds vfsMaxChildren node.children 0 node.kids
  count : node.kids.length = node.childCount
  child : ∀ kid ∈ node.kids, ∃ below, v.nodes kid = some below ∧ below.parent = some ptr ∧ TokenOk below.name
  distinct : node.kids.Pairwise fun first second => ∀ name, v.named name first = true → v.named name second = false
  directory : node.type ≠ .directory → node.kids = []

/-- The tree is well formed and its root is a directory without a parent. -/
structure VfsInv (v : Vfs) : Prop where
  node : ∀ ptr node, v.nodes ptr = some node → NodeOk v ptr node
  root : ∀ ptr, v.root = some ptr → ∃ node, v.nodes ptr = some node ∧ node.type = .directory ∧ node.parent = none

section
variable {v v' : Vfs} {ptr dir kid new : NodePtr} {node node' below : VfsNode} {name name' : List Char}

@[simp] theorem setNode_here (v : Vfs) (ptr : NodePtr) (node : VfsNode) : (v.setNode ptr node).nodes ptr = some node :=
  Function.update_self _ _ _

theorem setNode_other (v : Vfs) (node : VfsNode) {other : NodePtr} (different : other ≠ ptr) :
    (v.setNode ptr node).nodes other = v.nodes other :=
  Function.update_of_ne different _ _

@[simp] theorem setNode_root (v : Vfs) (ptr : NodePtr) (node : VfsNode) : (v.setNode ptr node).root = v.root := rfl

@[simp] theorem setNode_buffers (v : Vfs) (ptr : NodePtr) (node : VfsNode) : (v.setNode ptr node).buffers = v.buffers := rfl

theorem node_some : v.node ptr = .ok node ↔ v.nodes ptr = some node := by
  unfold Vfs.node
  cases v.nodes ptr <;> simp

theorem named_some (live : v.nodes ptr = some node) : v.named name ptr = true ↔ node.name = name := by
  rw [Vfs.named, live, Option.any_some, beq_iff_eq]

theorem child_some (live : v.nodes dir = some node) : v.child dir name = node.kids.find? (v.named name) := by
  rw [Vfs.child, live, Option.bind_some]

/-- A child is an entry of its directory with its name. -/
theorem VfsInv.child_spec (inv : VfsInv v) (found : v.child dir name = some kid) :
    ∃ node below, v.nodes dir = some node ∧ kid ∈ node.kids ∧ v.nodes kid = some below ∧ below.parent = some dir ∧
      below.name = name ∧ TokenOk name := by
  obtain ⟨node, live, first⟩ := Option.bind_eq_some_iff.mp found
  have member := List.mem_of_find?_eq_some first
  obtain ⟨below, liveKid, parent, ok⟩ := (inv.node dir node live).child kid member
  have same := (named_some liveKid).mp (List.find?_some first)
  rw [same] at ok
  exact ⟨node, below, live, member, liveKid, parent, same, ok⟩

/-- The edges of a well-formed file system are those of a tree. -/
theorem VfsInv.tree (inv : VfsInv v) (isRoot : v.root = some ptr) : NamedTree v.child ptr := by
  refine ⟨?_, ?_⟩
  · intro dir dir' name name' kid found found'
    obtain ⟨_, below, _, _, live, parent, isName, _⟩ := inv.child_spec found
    obtain ⟨_, below', _, _, live', parent', isName', _⟩ := inv.child_spec found'
    have same : below = below' := Option.some.inj (live.symm.trans live')
    rw [← same] at parent' isName'
    exact ⟨Option.some.inj (parent.symm.trans parent'), isName.symm.trans isName'⟩
  · intro dir name found
    obtain ⟨_, below, _, _, live, parent, _⟩ := inv.child_spec found
    obtain ⟨node, liveRoot, _, none⟩ := inv.root ptr isRoot
    rw [live] at liveRoot
    rw [← Option.some.inj liveRoot, parent] at none
    cases none

/-- Every node that a path leads to is live. -/
theorem VfsInv.resolve_live (inv : VfsInv v) (isRoot : v.root = some ptr) {names : List (List Char)}
    (reached : resolve v.child ptr names = some dir) : ∃ node, v.nodes dir = some node := by
  induction names using List.reverseRecOn generalizing dir with
  | nil =>
      obtain ⟨node, live, _⟩ := inv.root ptr isRoot
      rw [← Option.some.inj reached]
      exact ⟨node, live⟩
  | append_singleton names name _ =>
      obtain ⟨_, _, found⟩ := resolve_snoc_some reached
      obtain ⟨_, below, _, _, live, _⟩ := inv.child_spec found
      exact ⟨below, live⟩

/-- The loop of `vfs_find_child` returns the first entry with the name. -/
theorem NodeOk.findFrom (ok : NodeOk v ptr node) {left i : Nat} (total : i + left = node.childCount) :
    vfsFindChildFrom v node name left i = .ok ((node.kids.drop i).find? (v.named name)) := by
  have count := ok.count
  induction left generalizing i with
  | zero =>
      rw [vfsFindChildFrom, List.drop_eq_nil_of_le (by omega)]
      rfl
  | succ left ih =>
      have inside : i < node.kids.length := by omega
      have small : i < vfsMaxChildren := Nat.lt_of_lt_of_le inside ok.slots.1
      have slot : node.children i = some node.kids[i] := by
        have held := ok.slots.2 i _ (List.getElem?_eq_getElem inside)
        rw [Nat.zero_add, Nat.mod_eq_of_lt small] at held
        exact held
      obtain ⟨below, live, _⟩ := ok.child node.kids[i] (List.getElem_mem inside)
      have read : v.node node.kids[i] = .ok below := by rw [Vfs.node, live]
      rw [vfsFindChildFrom, slot, List.drop_eq_getElem_cons inside]
      simp only [read, Result.ok_bind]
      by_cases same : below.name = name
      · rw [if_pos same, List.find?_cons_of_pos ((named_some live).mpr same)]
        rfl
      · rw [if_neg same, List.find?_cons_of_neg fun found => same ((named_some live).mp found)]
        exact ih (by omega)

theorem VfsInv.findChild (inv : VfsInv v) (live : v.nodes dir = some node) (name : List Char) :
    vfsFindChild v (some dir) (some name) = .ok (v.child dir name) := by
  have read : v.node dir = .ok node := by rw [Vfs.node, live]
  simp only [vfsFindChild, read, Result.ok_bind]
  rw [(inv.node dir node live).findFrom (Nat.zero_add _), child_some live, List.drop_zero]

/-- The loop of `vfs_find` follows the tokens. -/
theorem VfsInv.findFrom (inv : VfsInv v) {fuel : Nat} {p : List Char} (live : v.nodes dir = some node)
    (noSlash : p.head? ≠ some '/') (enough : p.length < fuel) :
    vfsFindFrom v fuel dir p = .ok (resolve v.child dir (tokensFrom fuel p)) := by
  induction fuel generalizing dir node p with
  | zero => exact absurd enough (Nat.not_lt_zero _)
  | succ fuel ih =>
      by_cases empty : p = []
      · rw [vfsFindFrom, tokensFrom, if_pos empty, if_pos empty]
        rfl
      · obtain ⟨ok, _⟩ := takeToken_ok empty noSlash
        have shorter := skipSlashes_takeToken empty noSlash
        rw [tokensFrom_succ empty noSlash, vfsFindFrom, if_neg empty]
        simp only [if_neg ok.nonempty]
        rw [inv.findChild live, Result.ok_bind]
        cases found : v.child dir (takeToken (vfsNameMax - 1) p).1 with
        | none =>
            rw [resolve, List.foldlM_cons, found]
            rfl
        | some next =>
            obtain ⟨_, below, _, _, liveNext, _⟩ := inv.child_spec found
            have rest := ih liveNext (skipSlashes_head (takeToken (vfsNameMax - 1) p).2) (by omega)
            rw [resolve, List.foldlM_cons, found]
            exact rest

/-- `vfs_find` depends on the tokens of the path only. -/
theorem VfsInv.find (inv : VfsInv v) (path : List Char) :
    vfsFind v path = .ok (v.root.bind fun root => resolve v.child root (tokens path)) := by
  unfold vfsFind
  cases isRoot : v.root with
  | none => rfl
  | some root =>
      simp only [Option.bind_some]
      by_cases short : path = [] ∨ path = ['/']
      · rw [if_pos short, tokens_root short]
        rfl
      · rw [if_neg short]
        obtain ⟨node, live, _⟩ := inv.root root isRoot
        exact inv.findFrom live (skipSlashes_head path) (Nat.lt_succ_of_le (skipSlashes_length path))

end

end DoccrOS.Fs
