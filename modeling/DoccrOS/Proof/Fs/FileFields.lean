import DoccrOS.Proof.Fs.FileRuns

namespace DoccrOS.Fs
open Lib

/-- The fields of a node agree: the size fits the buffer, and a node with contents has a buffer. -/
structure FieldsAgree (node : VfsNode) : Prop where
  room : node.size ≤ node.capacity
  data : 0 < node.size → node.data ≠ none

/-- What the callers and `kmalloc` promise: a pointer is not NULL, and no buffer of size 0 is handed out. -/
def VfsOp.real : VfsOp → Bool
  | .setData _ data _ => data != 0
  | .write _ buf kmalloc => !buf.isEmpty || kmalloc.isNone
  | _ => true

/-- A write that drops a borrowed buffer and gets no other one. -/
def VfsOp.losesBorrowed (v : Vfs) : VfsOp → Bool
  | .write ptr buf kmalloc => kmalloc.isNone && decide (buf.length ≤ vfsMaxFileSize) &&
      (v.nodes ptr).any fun node => node.type == .file && node.borrowed
  | _ => false

/-- The tree is well formed and the fields of every node agree. -/
structure FieldsInv (v : Vfs) : Prop where
  inv : VfsInv v
  agree : ∀ ptr node, v.nodes ptr = some node → FieldsAgree node

section
variable {v v' : Vfs} {ptr : NodePtr} {node node' : VfsNode} {buf : List (BitVec 8)} {kmalloc : Option Nat} {op : VfsOp}

/-- New nodes are empty, and the calls that add them leave the files alone. -/
theorem Grows.agree (grows : Grows v v') (agree : ∀ ptr node, v.nodes ptr = some node → FieldsAgree node) :
    ∀ ptr node, v'.nodes ptr = some node → FieldsAgree node := by
  intro ptr node live
  cases old : v.nodes ptr with
  | none =>
      obtain ⟨_, size, capacity, _⟩ := grows.fresh ptr node old live
      refine ⟨by rw [size, capacity], fun positive => ?_⟩
      rw [size] at positive
      exact absurd positive (Nat.lt_irrefl 0)
  | some before =>
      obtain ⟨children, childCount, same⟩ := grows.kept ptr before old
      rw [live] at same
      rw [Option.some.inj same]
      exact ⟨(agree ptr before old).room, (agree ptr before old).data⟩

theorem FieldsInv.touches (inv : FieldsInv v) (touches : Touches v v' ptr node node') (ok : FieldsAgree node') : FieldsInv v' := by
  refine ⟨touches.inv inv.inv, fun query value live => ?_⟩
  by_cases isPtr : query = ptr
  · rw [isPtr, touches.here] at live
    exact Option.some.inj live ▸ ok
  · rw [touches.other query isPtr] at live
    exact inv.agree query value live

/-- A write that keeps its borrowed buffer or gets a new one leaves the node as it was when it fails. -/
theorem vfsWrite_failed (kept : (VfsOp.write ptr buf kmalloc).losesBorrowed v = false)
    (returned : vfsWrite v (some ptr) (some buf) kmalloc = .ok (-1, v')) : v'.nodes = v.nodes := by
  generalize isCode : (-1 : Int) = code at returned
  cases vfsWrite_outcome returned with
  | refused same => rw [same]
  | failed node isFile fits none touches =>
      have owns : node.borrowed = false := by
        simpa [VfsOp.losesBorrowed, none, fits, touches.live, isFile] using kept
      funext query
      by_cases isPtr : query = ptr
      · rw [isPtr, touches.here, touches.live, VfsNode.unlent, owns, if_neg Bool.false_ne_true]
      · exact touches.other query isPtr
  | written node node' data touches size room isData bytes => omega

theorem FieldsInv.step (inv : FieldsInv v) (real : op.real = true) (kept : op.losesBorrowed v = false)
    (returned : v.step op = .ok v') : FieldsInv v' := by
  have inv' := inv.inv.step returned
  cases op with
  | mkdir path kmallocs =>
      obtain ⟨⟨result, after⟩, called, rfl⟩ := Result.map_ok returned
      exact ⟨inv', (inv.inv.mkdir called).2.1.agree inv.agree⟩
  | createFile path kmallocs kmalloc =>
      obtain ⟨⟨result, after⟩, called, rfl⟩ := Result.map_ok returned
      exact ⟨inv', (inv.inv.createAt called).2.1.agree inv.agree⟩
  | createDevice path device kmallocs kmalloc =>
      obtain ⟨⟨result, after⟩, called, rfl⟩ := Result.map_ok returned
      obtain ⟨v₁, inv₁, grows, same⟩ := inv.inv.createDevice called
      have agree₁ := grows.agree inv.agree
      rcases same with rfl | ⟨ptr, node, device, live, rfl⟩
      · exact ⟨inv', agree₁⟩
      · refine ⟨inv', fun query value isNode => ?_⟩
        by_cases isPtr : query = ptr
        · rw [isPtr, setNode_here] at isNode
          rw [← Option.some.inj isNode]
          exact ⟨(agree₁ ptr node live).room, (agree₁ ptr node live).data⟩
        · rw [setNode_other _ _ isPtr] at isNode
          exact agree₁ query value isNode
  | setData ptr data size =>
      rcases vfsSetData_touches returned with rfl | ⟨_, _, touches, isData, isSize, isCapacity⟩
      · exact inv
      · refine inv.touches touches ⟨by rw [isSize, isCapacity], fun _ => ?_⟩
        rw [isData]
        exact Option.some_ne_none data
  | write ptr buf kmalloc =>
      obtain ⟨⟨code, after⟩, called, rfl⟩ := Result.map_ok returned
      cases vfsWrite_outcome called with
      | refused same => exact same ▸ inv
      | failed node isFile fits none touches =>
          have same := vfsWrite_failed kept called
          refine ⟨inv', fun query value live => inv.agree query value ?_⟩
          rw [← same]
          exact live
      | written node node' data touches size room isData bytes =>
          refine inv.touches touches ⟨by rw [size]; exact room, fun _ => ?_⟩
          rw [isData]
          exact Option.some_ne_none data
  | read ptr size =>
      obtain ⟨_, _, rfl⟩ := Result.map_ok returned
      exact inv
  | remove path =>
      obtain ⟨⟨code, after⟩, called, rfl⟩ := Result.map_ok returned
      rcases inv.inv.remove called with ⟨_, rfl⟩ | ⟨_, _, _, _, _, _, _, _, _, unlinks, _⟩
      · exact inv
      · refine ⟨inv', fun query value live => ?_⟩
        obtain ⟨_, old, _, _, before, rfl⟩ := unlinks.back live
        exact ⟨(inv.agree query old before).room, (inv.agree query old before).data⟩

/-- `vfs_read` never copies from a missing buffer. -/
theorem FieldsAgree.read (agree : FieldsAgree node) (live : v.nodes ptr = some node) (size : Nat) :
    ∃ result, vfsRead v (some ptr) size = .ok result := by
  simp only [vfsRead, node_some.mpr live, Result.ok_bind]
  by_cases notFile : node.type ≠ .file
  · rw [if_pos notFile]
    exact ⟨_, rfl⟩
  rw [if_neg notFile]
  by_cases some : (if size < node.size then size else node.size) > 0
  · have positive : 0 < node.size := by
      split at some <;> omega
    obtain ⟨data, isData⟩ := Option.ne_none_iff_exists'.mp (agree.data positive)
    simp only [if_pos some, isData]
    exact ⟨_, rfl⟩
  · rw [if_neg some]
    exact ⟨_, rfl⟩

end

end DoccrOS.Fs
