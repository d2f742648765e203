import DoccrOS.Proof.Fs.TreeSteps

namespace DoccrOS.Fs
open Lib

/-- A directory loses the child at an index. -/
structure Unlinks (v v' : Vfs) (dir ptr : NodePtr) (node below : VfsNode) (idx : Nat) : Prop where
  live : v.nodes dir = some node
  gone : v.nodes ptr = some below
  parent : below.parent = some dir
  entry : node.kids[idx]? = some ptr
  empty : below.kids = []
  notRoot : v.root ≠ some ptr
  root : v'.root = v.root
  here : v'.nodes dir = some { node with
    children := moveDown node.children idx (node.childCount - 1 - idx), childCount := node.childCount - 1 }
  removed : v'.nodes ptr = none
  other : ∀ query, query ≠ dir → query ≠ ptr → v'.nodes query = v.nodes query

/-- The block of a node that owns one is freed. -/
def Frees (buffers buffers' : List Block) (node : VfsNode) : Prop :=
  (∃ data block, node.data = some data ∧ node.borrowed = false ∧ buffers.find? (fun block => block.start == data) = some block ∧
    buffers' = buffers.erase block) ∨ ((node.data = none ∨ node.borrowed = true) ∧ buffers' = buffers)

section
variable {v v' : Vfs} {ptr dir : NodePtr} {node below : VfsNode} {name : List Char} {idx : Nat}

/-- The names of the children are different, so the children are. -/
theorem NodeOk.nodup (ok : NodeOk v ptr node) : node.kids.Nodup := by
  refine ok.distinct.imp_of_mem ?_
  intro first second member _ apart same
  obtain ⟨below, live, _⟩ := ok.child first member
  have named : v.named below.name first = true := (named_some live).mpr rfl
  have other := apart below.name named
  rw [← same, named] at other
  cases other

/-- A name leads to the child that has it. -/
theorem VfsInv.child_of_mem (inv : VfsInv v) (live : v.nodes dir = some node) (member : ptr ∈ node.kids)
    (liveKid : v.nodes ptr = some below) : v.child dir below.name = some ptr := by
  have ok := inv.node dir node live
  have named : v.named below.name ptr = true := (named_some liveKid).mpr rfl
  rw [child_some live]
  obtain ⟨i, inside, atIndex⟩ := List.mem_iff_getElem.mp member
  rw [List.find?_eq_some_iff_getElem]
  refine ⟨named, i, inside, atIndex, ?_⟩
  intro j earlier
  cases other : v.named below.name node.kids[j] with
  | false => rfl
  | true =>
      have apart := List.pairwise_iff_getElem.mp ok.distinct j i (by omega) inside earlier below.name other
      rw [atIndex, named] at apart
      cases apart

theorem Unlinks.member (unlinks : Unlinks v v' dir ptr node below idx) : ptr ∈ node.kids :=
  List.mem_of_getElem? unlinks.entry

theorem Unlinks.different (unlinks : Unlinks v v' dir ptr node below idx) : dir ≠ ptr := by
  intro same
  have live := unlinks.live
  rw [same, unlinks.gone] at live
  have member := unlinks.member
  rw [← Option.some.inj live, unlinks.empty] at member
  cases member

/-- The kept nodes keep their names and parents. -/
theorem Unlinks.kept (unlinks : Unlinks v v' dir ptr node below idx) {query : NodePtr} {old : VfsNode}
    (live : v.nodes query = some old) (different : query ≠ ptr) :
    ∃ node', v'.nodes query = some node' ∧ node'.name = old.name ∧ node'.parent = old.parent := by
  by_cases isDir : query = dir
  · rw [isDir, unlinks.live] at live
    rw [isDir, ← Option.some.inj live]
    exact ⟨_, unlinks.here, rfl, rfl⟩
  · exact ⟨old, (unlinks.other query isDir different).trans live, rfl, rfl⟩

theorem Unlinks.named (unlinks : Unlinks v v' dir ptr node below idx) {query : NodePtr} {old : VfsNode}
    (live : v.nodes query = some old) (different : query ≠ ptr) (name : List Char) :
    v'.named name query = v.named name query := by
  obtain ⟨node', live', sameName, _⟩ := unlinks.kept live different
  rw [Vfs.named, Vfs.named, live, live', Option.any_some, Option.any_some, sameName]

/-- A node after the removal was there before with the same file. -/
theorem Unlinks.back (unlinks : Unlinks v v' dir ptr node below idx) {query : NodePtr} {value : VfsNode}
    (live : v'.nodes query = some value) : query ≠ ptr ∧ ∃ old children childCount, v.nodes query = some old ∧
      value = { old with children := children, childCount := childCount } := by
  have notPtr : query ≠ ptr := by
    intro same
    rw [same, unlinks.removed] at live
    cases live
  refine ⟨notPtr, ?_⟩
  by_cases isDir : query = dir
  · rw [isDir, unlinks.here] at live
    rw [isDir]
    exact ⟨node, _, _, unlinks.live, (Option.some.inj live).symm⟩
  · rw [unlinks.other query isDir notPtr] at live
    exact ⟨value, _, _, live, rfl⟩

/-- The child array of the directory after the removal. -/
theorem Unlinks.kids (unlinks : Unlinks v v' dir ptr node below idx) (inv : VfsInv v) : RingHolds vfsMaxChildren
      (moveDown node.children idx (node.childCount - 1 - idx)) 0 (node.kids.eraseIdx idx) ∧
    ({ node with children := moveDown node.children idx (node.childCount - 1 - idx), childCount := node.childCount - 1 } :
      VfsNode).kids = node.kids.eraseIdx idx ∧ (node.kids.eraseIdx idx).length = node.childCount - 1 := by
  have ok := inv.node dir node unlinks.live
  have count := ok.count
  have bound := ok.slots.1
  have inside : idx < node.kids.length := (List.getElem?_eq_some_iff.mp unlinks.entry).1
  have shifted := ok.slots.shift inside
  rw [← moveDown_eq node.children (by omega), count] at shifted
  have length : (node.kids.eraseIdx idx).length = node.childCount - 1 := by
    rw [List.length_eraseIdx_of_lt inside, count]
  exact ⟨shifted, kids_of_slots shifted length, length⟩

/-- The other children are not the removed one. -/
theorem Unlinks.mem_erase (unlinks : Unlinks v v' dir ptr node below idx) (inv : VfsInv v) {kid : NodePtr}
    (member : kid ∈ node.kids.eraseIdx idx) : kid ∈ node.kids ∧ kid ≠ ptr := by
  obtain ⟨inside, atIndex⟩ := List.getElem?_eq_some_iff.mp unlinks.entry
  have nodup := (inv.node dir node unlinks.live).nodup
  refine ⟨List.mem_of_mem_eraseIdx member, ?_⟩
  intro same
  obtain ⟨i, notIdx, atOther⟩ := List.mem_eraseIdx_iff_getElem?.mp member
  obtain ⟨inside', atOther⟩ := List.getElem?_eq_some_iff.mp atOther
  have sameEntry : node.kids[i] = node.kids[idx] := by rw [atOther, atIndex, same]
  exact notIdx (nodup.getElem_inj_iff.mp sameEntry)

theorem Unlinks.inv (unlinks : Unlinks v v' dir ptr node below idx) (inv : VfsInv v) : VfsInv v' := by
  have ok := inv.node dir node unlinks.live
  obtain ⟨slots, kids, length⟩ := unlinks.kids inv
  refine ⟨?_, ?_⟩
  · intro query value live
    have notPtr : query ≠ ptr := by
      intro same
      rw [same, unlinks.removed] at live
      cases live
    by_cases isDir : query = dir
    · rw [isDir, unlinks.here] at live
      rw [isDir, ← Option.some.inj live]
      refine ⟨by rw [kids]; exact slots, by rw [kids]; exact length, ?_, ?_, ?_⟩
      · rw [kids]
        intro kid member
        obtain ⟨old, different⟩ := unlinks.mem_erase inv member
        obtain ⟨old', live, parent, token⟩ := ok.child kid old
        obtain ⟨value', live', sameName, sameParent⟩ := unlinks.kept live different
        exact ⟨value', live', sameParent.trans parent, by rw [sameName]; exact token⟩
      · rw [kids]
        refine (ok.distinct.sublist (List.eraseIdx_sublist node.kids idx)).imp_of_mem ?_
        intro first second member member' apart name
        obtain ⟨old, different⟩ := unlinks.mem_erase inv member
        obtain ⟨old', different'⟩ := unlinks.mem_erase inv member'
        obtain ⟨_, live, _⟩ := ok.child first old
        obtain ⟨_, live', _⟩ := ok.child second old'
        rw [unlinks.named live different, unlinks.named live' different']
        exact apart name
      · intro notDirectory
        rw [kids, ok.directory notDirectory]
        rfl
    · rw [unlinks.other query isDir notPtr] at live
      refine (inv.node query value live).congr ?_
      intro kid member old liveOld
      apply unlinks.kept liveOld
      intro same
      obtain ⟨old', liveOld', parent, _⟩ := (inv.node query value live).child kid member
      rw [same, unlinks.gone] at liveOld'
      rw [← Option.some.inj liveOld', unlinks.parent] at parent
      exact isDir (Option.some.inj parent).symm
  · intro root isRoot
    rw [unlinks.root] at isRoot
    have notPtr : root ≠ ptr := by
      intro same
      exact unlinks.notRoot (same ▸ isRoot)
    obtain ⟨value, live, type, parent⟩ := inv.root root isRoot
    by_cases isDir : root = dir
    · rw [isDir, unlinks.live] at live
      have same := Option.some.inj live
      rw [isDir]
      exact ⟨_, unlinks.here, by rw [same]; exact type, by rw [same]; exact parent⟩
    · exact ⟨value, (unlinks.other root isDir notPtr).trans live, type, parent⟩

/-- A search that the entry at an index does not meet is the same without the entry. -/
theorem find_eraseIdx {list : List NodePtr} {test : NodePtr → Bool} (entry : list[idx]? = some ptr) (skips : test ptr = false) :
    (list.eraseIdx idx).find? test = list.find? test := by
  obtain ⟨inside, atIndex⟩ := List.getElem?_eq_some_iff.mp entry
  have parts : list = list.take idx ++ ptr :: list.drop (idx + 1) := by
    rw [← atIndex, List.getElem_cons_drop, List.take_append_drop]
  conv_rhs => rw [parts]
  rw [List.eraseIdx_eq_take_drop_succ, List.find?_append, List.find?_append, List.find?_cons_of_neg (by rw [skips]; decide)]

/-- The lost edge is the only change to the edges. -/
theorem Unlinks.drops (unlinks : Unlinks v v' dir ptr node below idx) (inv : VfsInv v) :
    DropsChild v.child v'.child dir below.name ptr := by
  have ok := inv.node dir node unlinks.live
  obtain ⟨_, kids, _⟩ := unlinks.kids inv
  have before := inv.child_of_mem unlinks.live unlinks.member unlinks.gone
  have named {kid : NodePtr} (member : kid ∈ node.kids.eraseIdx idx) (name : List Char) :
      v'.named name kid = v.named name kid := by
    obtain ⟨old, different⟩ := unlinks.mem_erase inv member
    obtain ⟨_, live, _⟩ := ok.child kid old
    exact unlinks.named live different name
  refine ⟨before, ?_, ?_, ?_⟩
  · rw [child_some unlinks.here, kids, List.find?_eq_none]
    intro kid member found
    obtain ⟨old, different⟩ := unlinks.mem_erase inv member
    obtain ⟨value, live, _⟩ := ok.child kid old
    rw [named member, named_some live] at found
    have again := inv.child_of_mem unlinks.live old live
    rw [found, before] at again
    exact different (Option.some.inj again).symm
  · intro name
    rw [child_some unlinks.gone, unlinks.empty]
    rfl
  · intro dir' name notPtr away
    by_cases isDir : dir' = dir
    · have otherName := away.resolve_left (not_not.mpr isDir)
      have skips : v.named name ptr = false := by
        rw [Bool.eq_false_iff]
        intro found
        exact otherName ((named_some unlinks.gone).mp found).symm
      rw [isDir, child_some unlinks.here, kids, child_some unlinks.live, ← find_eraseIdx unlinks.entry skips]
      apply List.find?_congr
      intro kid member
      exact named member name
    · rw [Vfs.child, Vfs.child, unlinks.other dir' isDir notPtr]
      cases live : v.nodes dir' with
      | none => rfl
      | some value =>
          rw [Option.bind_some, Option.bind_some]
          apply List.find?_congr
          intro kid member
          obtain ⟨old, liveOld, parent, _⟩ := (inv.node dir' value live).child kid member
          apply unlinks.named liveOld
          intro same
          rw [same, unlinks.gone] at liveOld
          rw [← Option.some.inj liveOld, unlinks.parent] at parent
          exact isDir (Option.some.inj parent).symm

/-- A node frees its data when it owns some. -/
theorem freeOwned_spec {value : VfsNode} (freed : v.freeOwned value = .ok v') :
    v'.root = v.root ∧ v'.nodes = v.nodes ∧ v'.bytes = v.bytes ∧ v'.archive = v.archive ∧
      Frees v.buffers v'.buffers value := by
  unfold Vfs.freeOwned at freed
  cases data : value.data with
  | none =>
      simp only [data] at freed
      cases freed
      exact ⟨rfl, rfl, rfl, rfl, Or.inr ⟨Or.inl data, rfl⟩⟩
  | some address =>
      simp only [data] at freed
      cases borrowed : value.borrowed with
      | true =>
          rw [borrowed, if_pos rfl] at freed
          cases freed
          exact ⟨rfl, rfl, rfl, rfl, Or.inr ⟨Or.inr borrowed, rfl⟩⟩
      | false =>
          rw [borrowed, if_neg Bool.false_ne_true] at freed
          unfold Vfs.freeBuffer at freed
          cases found : v.buffers.find? fun block => block.start == address with
          | none =>
              rw [found] at freed
              cases freed
          | some block =>
              rw [found] at freed
              cases freed
              exact ⟨rfl, rfl, rfl, rfl, Or.inl ⟨address, block, data, borrowed, found, rfl⟩⟩

/-- `vfs_remove` changes nothing, or it takes the node at the end of the path out of its directory. -/
theorem VfsInv.remove {path : List Char} {code : Int} (inv : VfsInv v) (returned : vfsRemove v path = .ok (code, v')) :
    (code = -1 ∧ v' = v) ∨ (code = 0 ∧ ∃ root dir ptr node below idx, v.root = some root ∧
      resolve v.child root (tokens path) = some ptr ∧ Unlinks v v' dir ptr node below idx ∧ v'.bytes = v.bytes ∧
      v'.archive = v.archive ∧ Frees v.buffers v'.buffers below) := by
  have failed : Except.ok ((-1 : Int), v) = (.ok (code, v') : Result (Int × Vfs)) → code = -1 ∧ v' = v := by
    intro same
    cases same
    exact ⟨rfl, rfl⟩
  unfold vfsRemove at returned
  rw [inv.find, Result.ok_bind] at returned
  cases isRoot : v.root with
  | none =>
      rw [isRoot] at returned
      exact Or.inl (failed returned)
  | some root =>
      simp only [isRoot, Option.bind_some] at returned
      cases reached : resolve v.child root (tokens path) with
      | none =>
          rw [reached] at returned
          exact Or.inl (failed returned)
      | some ptr =>
          simp only [reached] at returned
          by_cases atRoot : some ptr = some root
          · rw [if_pos atRoot] at returned
            exact Or.inl (failed returned)
          rw [if_neg atRoot] at returned
          obtain ⟨below, gone⟩ := inv.resolve_live isRoot reached
          rw [node_some.mpr gone, Result.ok_bind] at returned
          cases parent : below.parent with
          | none =>
              simp only [parent] at returned
              exact Or.inl (failed returned)
          | some dir =>
              simp only [parent] at returned
              by_cases busy : below.type = .directory ∧ below.childCount > 0
              · rw [if_pos busy] at returned
                exact Or.inl (failed returned)
              rw [if_neg busy] at returned
              obtain ⟨node, isDir, rest⟩ := Result.bind_ok returned
              have live := node_some.mp isDir
              have ok := inv.node dir node live
              have search := ok.slots.find ptr
              have slot : (List.range node.childCount).find? (fun i => node.children i == some ptr) =
                  node.kids.findIdx? (· == ptr) := by
                rw [← search, ok.count]
                apply List.find?_congr
                intro i inside
                have bound := ok.slots.1
                have small := List.mem_range.mp inside
                rw [← ok.count] at small
                rw [Nat.zero_add, Nat.mod_eq_of_lt (by omega)]
              rw [slot] at rest
              cases found : node.kids.findIdx? (· == ptr) with
              | none =>
                  rw [found] at rest
                  exact Or.inl (failed rest)
              | some idx =>
                  simp only [found] at rest
                  obtain ⟨v₁, freed, rest⟩ := Result.bind_ok rest
                  obtain ⟨root₁, nodes₁, bytes₁, archive₁, frees⟩ := freeOwned_spec freed
                  cases rest
                  obtain ⟨inside, isPtr, _⟩ := List.findIdx?_eq_some_iff_getElem.mp found
                  have entry : node.kids[idx]? = some ptr := by
                    rw [List.getElem?_eq_getElem inside]
                    exact congrArg some (beq_iff_eq.mp isPtr)
                  have empty : below.kids = [] := by
                    by_cases directory : below.type = .directory
                    · have none : below.childCount = 0 := by
                        by_contra some
                        exact busy ⟨directory, Nat.pos_of_ne_zero some⟩
                      rw [VfsNode.kids, none]
                      rfl
                    · exact (inv.node ptr below gone).directory directory
                  have different : dir ≠ ptr := by
                    intro same
                    rw [same, gone] at live
                    rw [← Option.some.inj live, empty] at entry
                    cases entry
                  refine Or.inr ⟨rfl, root, dir, ptr, node, below, idx, rfl, reached, ?_, bytes₁, archive₁, frees⟩
                  exact
                    { live := live, gone := gone, parent := parent, entry := entry, empty := empty
                      notRoot := by
                        rw [isRoot]
                        exact fun same => atRoot same.symm
                      root := root₁
                      here := by
                        change Function.update v₁.nodes ptr none dir = _
                        rw [Function.update_of_ne different, nodes₁]
                        exact setNode_here _ _ _
                      removed := Function.update_self _ _ _
                      other := by
                        intro query notDir notPtr
                        change Function.update v₁.nodes ptr none query = _
                        rw [Function.update_of_ne notPtr, nodes₁]
                        exact setNode_other _ _ notDir }

end

end DoccrOS.Fs
