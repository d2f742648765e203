import DoccrOS.Lib.Ownership
import DoccrOS.Proof.Fs.TreeRuns

namespace DoccrOS.Fs
open Lib

/-- The buffer that a node owns. -/
def VfsNode.buffer (node : VfsNode) : Option Block :=
  if node.borrowed then none else node.data.map fun data => ⟨data, node.capacity⟩

/-- The buffer that the node below a pointer owns. -/
def Vfs.owned (v : Vfs) (ptr : NodePtr) : Option Block := (v.nodes ptr).bind VfsNode.buffer

/-- The data of a node fits its capacity, and borrowed data lies in the archive. -/
structure FileOk (archive : Block) (node : VfsNode) : Prop where
  sized : node.data ≠ none → node.size ≤ node.capacity
  lent : node.borrowed = true → ∃ data, node.data = some data ∧ archive.start ≤ data ∧
    data + node.capacity ≤ archive.start + archive.size

/-- The tree is well formed, every buffer belongs to one node, and the buffers lie apart from each other and from the
archive. -/
structure FilesInv (v : Vfs) : Prop where
  inv : VfsInv v
  owning : Owning v.owned v.buffers
  apart : (v.archive :: v.buffers).Pairwise Block.Apart
  positive : ∀ block ∈ v.buffers, 0 < block.size
  file : ∀ ptr node, v.nodes ptr = some node → FileOk v.archive node

section
variable {v v' : Vfs} {ptr dir : NodePtr} {node below : VfsNode} {block other : Block} {data idx : Nat} {buffers : List Block}

instance : Std.Symm Block.Apart := ⟨fun _ _ => Or.symm⟩

theorem owned_some (live : v.nodes ptr = some node) : v.owned ptr = node.buffer := by
  rw [Vfs.owned, live, Option.bind_some]

theorem buffer_some (isData : node.data = some data) (owns : node.borrowed = false) :
    node.buffer = some ⟨data, node.capacity⟩ := by
  rw [VfsNode.buffer, owns, isData]
  rfl

theorem buffer_none (idle : node.data = none ∨ node.borrowed = true) : node.buffer = none := by
  rw [VfsNode.buffer]
  rcases idle with noData | borrowed
  · rw [noData, Option.map_none, ite_self]
  · rw [borrowed, if_pos rfl]

/-- No two buffers begin at one address. -/
theorem find_buffer (apart : buffers.Pairwise Block.Apart) (positive : ∀ block ∈ buffers, 0 < block.size)
    (member : block ∈ buffers) : buffers.find? (fun other => other.start == block.start) = some block := by
  cases found : buffers.find? fun other => other.start == block.start with
  | none =>
      have missed := List.find?_eq_none.mp found block member
      exact absurd (beq_self_eq_true block.start) missed
  | some first =>
      have isFirst := List.mem_of_find?_eq_some found
      have test := List.find?_some found
      have same : first.start = block.start := beq_iff_eq.mp test
      by_contra different
      have differs : first ≠ block := fun same => different (congrArg some same)
      have room := positive block member
      have room' := positive first isFirst
      rcases apart.forall isFirst member differs with before | after <;> omega

/-- Freeing the data of a node takes its buffer out of the allocated ones. -/
theorem FilesInv.frees (inv : FilesInv v) (live : v.nodes ptr = some node) (frees : Frees v.buffers buffers node) :
    Owning (Function.update v.owned ptr none) buffers ∧ buffers.Sublist v.buffers := by
  have owned := owned_some live
  rcases frees with ⟨data, block, isData, owns, found, rfl⟩ | ⟨idle, rfl⟩
  · rw [buffer_some isData owns] at owned
    have member := inv.owning.held owned
    have same := find_buffer inv.apart.of_cons inv.positive member
    rw [found] at same
    rw [Option.some.inj same]
    exact ⟨inv.owning.release owned, List.erase_sublist⟩
  · rw [buffer_none idle] at owned
    rw [← owned, Function.update_eq_self]
    exact ⟨inv.owning, List.Sublist.refl _⟩

/-- The buffers that a node frees are allocated. -/
theorem FilesInv.freeable (inv : FilesInv v) (live : v.nodes ptr = some node) : Freeable v.buffers node := by
  intro data isData owns
  have owned := owned_some live
  rw [buffer_some isData owns] at owned
  exact ⟨_, inv.owning.held owned, rfl⟩

/-- The calls that add nodes keep the files. -/
theorem FilesInv.grows (inv : FilesInv v) (inv' : VfsInv v') (grows : Grows v v') : FilesInv v' := by
  have back {ptr : NodePtr} {value : VfsNode} (live : v'.nodes ptr = some value) :
      (v.nodes ptr = none ∧ value.data = none ∧ value.size = 0 ∧ value.capacity = 0 ∧ value.borrowed = false) ∨
        ∃ old children childCount, v.nodes ptr = some old ∧
          value = { old with children := children, childCount := childCount } := by
    cases before : v.nodes ptr with
    | none => exact Or.inl ⟨rfl, grows.fresh ptr value before live⟩
    | some old =>
        obtain ⟨children, childCount, same⟩ := grows.kept ptr old before
        rw [live] at same
        exact Or.inr ⟨old, children, childCount, rfl, Option.some.inj same⟩
  have sameOwned : v'.owned = v.owned := by
    funext ptr
    cases after : v'.nodes ptr with
    | none =>
        cases before : v.nodes ptr with
        | none => rw [Vfs.owned, Vfs.owned, before, after]
        | some old =>
            obtain ⟨_, _, same⟩ := grows.kept ptr old before
            rw [after] at same
            cases same
    | some value =>
        rcases back after with ⟨dead, noData, _⟩ | ⟨old, children, childCount, before, same⟩
        · rw [owned_some after, buffer_none (Or.inl noData), Vfs.owned, dead]
          rfl
        · rw [owned_some after, owned_some before, same]
          rfl
  refine ⟨inv', by rw [sameOwned, grows.buffers]; exact inv.owning, by rw [grows.archive, grows.buffers]; exact inv.apart,
    by rw [grows.buffers]; exact inv.positive, ?_⟩
  intro ptr value live
  rw [grows.archive]
  rcases back live with ⟨_, noData, noSize, _, owns⟩ | ⟨old, children, childCount, before, same⟩
  · refine ⟨fun some => absurd noData some, ?_⟩
    intro borrowed
    rw [owns] at borrowed
    cases borrowed
  · rw [same]
    exact ⟨(inv.file ptr old before).sized, (inv.file ptr old before).lent⟩

/-- A removal frees the buffer of the removed node and keeps the other files. -/
theorem FilesInv.unlinks (inv : FilesInv v) (unlinks : Unlinks v v' dir ptr node below idx) (archive : v'.archive = v.archive)
    (frees : Frees v.buffers v'.buffers below) : FilesInv v' := by
  obtain ⟨owning, fewer⟩ := inv.frees unlinks.gone frees
  have sameOwned : v'.owned = Function.update v.owned ptr none := by
    funext query
    by_cases isPtr : query = ptr
    · rw [isPtr, Function.update_self, Vfs.owned, unlinks.removed]
      rfl
    · rw [Function.update_of_ne isPtr]
      by_cases isDir : query = dir
      · rw [isDir, owned_some unlinks.here, owned_some unlinks.live]
        rfl
      · rw [Vfs.owned, Vfs.owned, unlinks.other query isDir isPtr]
  refine ⟨unlinks.inv inv.inv, by rw [sameOwned]; exact owning, ?_, fun block member => inv.positive block (fewer.mem member), ?_⟩
  · rw [archive]
    exact inv.apart.sublist (fewer.cons_cons _)
  · intro query value live
    obtain ⟨_, old, children, childCount, before, same⟩ := unlinks.back live
    rw [archive, same]
    exact ⟨(inv.file query old before).sized, (inv.file query old before).lent⟩

/-- A change of the file of one node keeps the tree. -/
theorem VfsInv.setFile (inv : VfsInv v) (live : v.nodes ptr = some node) (size capacity : Nat) (data : Option Nat)
    (borrowed : Bool) (device : Option Nat) (root : v'.root = v.root) (other : ∀ query, query ≠ ptr → v'.nodes query = v.nodes query)
    (here : v'.nodes ptr = some { node with
      data := data, size := size, capacity := capacity, borrowed := borrowed, device := device }) : VfsInv v' := by
  have kept {query : NodePtr} {old : VfsNode} (before : v.nodes query = some old) : ∃ value, v'.nodes query = some value ∧
      value.name = old.name ∧ value.parent = old.parent ∧ value.type = old.type := by
    by_cases isPtr : query = ptr
    · rw [isPtr, live] at before
      rw [isPtr, ← Option.some.inj before]
      exact ⟨_, here, rfl, rfl, rfl⟩
    · exact ⟨old, (other query isPtr).trans before, rfl, rfl, rfl⟩
  have kids (kid : NodePtr) {below : VfsNode} (before : v.nodes kid = some below) : ∃ below', v'.nodes kid = some below' ∧
      below'.name = below.name ∧ below'.parent = below.parent := by
    obtain ⟨value, live', sameName, sameParent, _⟩ := kept before
    exact ⟨value, live', sameName, sameParent⟩
  refine ⟨?_, ?_⟩
  · intro query value live'
    by_cases isPtr : query = ptr
    · rw [isPtr, here] at live'
      rw [isPtr, ← Option.some.inj live']
      have ok := (inv.node ptr node live).congr fun kid _ below before => kids kid before
      exact ⟨ok.slots, ok.count, ok.child, ok.distinct, ok.directory⟩
    · rw [other query isPtr] at live'
      exact (inv.node query value live').congr fun kid _ below before => kids kid before
  · intro query isRoot
    rw [root] at isRoot
    obtain ⟨old, before, isDirectory, noParent⟩ := inv.root query isRoot
    obtain ⟨value, live', _, sameParent, sameType⟩ := kept before
    exact ⟨value, live', sameType.trans isDirectory, sameParent.trans noParent⟩

/-- A copy changes no byte outside its range. -/
theorem copyIn_outside (bytes : Bytes) (dst : Nat) (src : List (BitVec 8)) :
    SameOutside bytes (copyIn bytes dst src) dst src.length := by
  induction src generalizing bytes dst with
  | nil => exact fun _ _ => rfl
  | cons byte src ih =>
      intro query outside
      rw [List.length_cons] at outside
      rw [copyIn, ih _ _ query (by omega), Function.update_of_ne (by omega)]

/-- The copied bytes are those of the source. -/
theorem copyIn_at {bytes : Bytes} {dst i : Nat} {src : List (BitVec 8)} (inside : i < src.length) :
    copyIn bytes dst src (dst + i) = src[i] := by
  induction src generalizing bytes dst i with
  | nil => exact absurd inside (Nat.not_lt_zero i)
  | cons byte src ih =>
      cases i with
      | zero => rw [copyIn, copyIn_outside _ _ _ _ (Or.inl (by omega)), Nat.add_zero, Function.update_self, List.getElem_cons_zero]
      | succ i =>
          rw [copyIn, show dst + (i + 1) = dst + 1 + i by omega, List.getElem_cons_succ]
          exact ih _

/-- What is copied in comes out again. -/
theorem copyOut_copyIn {bytes : Bytes} {dst count : Nat} {src : List (BitVec 8)} (short : count ≤ src.length) :
    copyOut (copyIn bytes dst src) dst count = src.take count := by
  apply List.ext_getElem
  · rw [copyOut, List.length_map, List.length_range, List.length_take, Nat.min_eq_left short]
  · intro i inside inside'
    rw [copyOut, List.length_map, List.length_range] at inside
    simp only [copyOut, List.getElem_map, List.getElem_range, List.getElem_take]
    exact copyIn_at (by omega)

theorem copyOut_congr {bytes bytes' : Bytes} {src count : Nat} (same : ∀ i, i < count → bytes' (src + i) = bytes (src + i)) :
    copyOut bytes' src count = copyOut bytes src count := by
  apply List.map_congr_left
  intro i inside
  exact same i (List.mem_range.mp inside)

/-- The cast keeps small values. -/
theorem castInt_small {n : Nat} (small : n < 2 ^ 31) : castInt n = n := by
  rw [castInt, BitVec.toInt_eq_toNat_of_lt]
  · rw [BitVec.toNat_ofNat, Nat.mod_eq_of_lt (by omega)]
  · rw [BitVec.toNat_ofNat, Nat.mod_eq_of_lt (by omega)]
    omega

/-- A call changes the file of one node. -/
structure Touches (v v' : Vfs) (ptr : NodePtr) (node node' : VfsNode) : Prop where
  root : v'.root = v.root
  archive : v'.archive = v.archive
  live : v.nodes ptr = some node
  here : v'.nodes ptr = some node'
  other : ∀ query, query ≠ ptr → v'.nodes query = v.nodes query
  shape : ∃ data size capacity borrowed device, node' = { node with
    data := data, size := size, capacity := capacity, borrowed := borrowed, device := device }

theorem Touches.inv {node' : VfsNode} (touches : Touches v v' ptr node node') (inv : VfsInv v) : VfsInv v' := by
  obtain ⟨data, size, capacity, borrowed, device, same⟩ := touches.shape
  have here := touches.here
  rw [same] at here
  exact inv.setFile touches.live size capacity data borrowed device touches.root touches.other here

theorem Touches.owned {node' : VfsNode} (touches : Touches v v' ptr node node') :
    v'.owned = Function.update v.owned ptr node'.buffer := by
  funext query
  by_cases isPtr : query = ptr
  · rw [isPtr, Function.update_self, owned_some touches.here]
  · rw [Function.update_of_ne isPtr, Vfs.owned, Vfs.owned, touches.other query isPtr]

/-- The files stay well formed when the buffers of the changed node do. -/
theorem FilesInv.touches {node' : VfsNode} (inv : FilesInv v) (touches : Touches v v' ptr node node')
    (owning : Owning (Function.update v.owned ptr node'.buffer) v'.buffers)
    (apart : (v.archive :: v'.buffers).Pairwise Block.Apart) (positive : ∀ block ∈ v'.buffers, 0 < block.size)
    (ok : FileOk v.archive node') : FilesInv v' := by
  refine ⟨touches.inv inv.inv, by rw [touches.owned]; exact owning, by rw [touches.archive]; exact apart, positive, ?_⟩
  intro query value live
  rw [touches.archive]
  by_cases isPtr : query = ptr
  · rw [isPtr, touches.here] at live
    rw [← Option.some.inj live]
    exact ok
  · rw [touches.other query isPtr] at live
    exact inv.file query value live

/-- A borrowed pointer replaces the buffer of a file. -/
theorem FilesInv.setData {size : Nat} (inv : FilesInv v) (above : v.archive.start ≤ data)
    (inside : data + size ≤ v.archive.start + v.archive.size) (returned : vfsSetData v (some ptr) data size = .ok v') :
    FilesInv v' ∧ v'.bytes = v.bytes ∧ v'.archive = v.archive := by
  unfold vfsSetData at returned
  obtain ⟨node, isNode, rest⟩ := Result.bind_ok returned
  have live := node_some.mp isNode
  by_cases notFile : node.type ≠ .file
  · rw [if_pos notFile] at rest
    cases rest
    exact ⟨inv, rfl, rfl⟩
  · rw [if_neg notFile] at rest
    obtain ⟨v₁, freed, rest⟩ := Result.bind_ok rest
    obtain ⟨root₁, nodes₁, bytes₁, archive₁, frees⟩ := freeOwned_spec freed
    cases rest
    obtain ⟨owning, fewer⟩ := inv.frees live frees
    have touches : Touches v (v₁.setNode ptr { node with data := some data, size := size, capacity := size, borrowed := true })
        ptr node { node with data := some data, size := size, capacity := size, borrowed := true } := by
      refine ⟨root₁, archive₁, live, setNode_here _ _ _, ?_, ⟨_, _, _, _, _, rfl⟩⟩
      intro query different
      rw [setNode_other _ _ different, nodes₁]
    exact ⟨inv.touches touches owning (inv.apart.sublist (fewer.cons_cons _))
      (fun block member => inv.positive block (fewer.mem member))
      ⟨fun _ => Nat.le_refl size, fun _ => ⟨data, rfl, above, inside⟩⟩, bytes₁, archive₁⟩

/-- A node with a buffer of its own that is large enough for a number of bytes. -/
structure Grown (v v' : Vfs) (ptr : NodePtr) (node node' : VfsNode) (size : Nat) : Prop where
  root : v'.root = v.root
  nodes : v'.nodes = v.nodes
  bytes : v'.bytes = v.bytes
  archive : v'.archive = v.archive
  shape : ∃ data capacity, node' = { node with data := some data, capacity := capacity }
  room : size ≤ node'.capacity
  owning : Owning (Function.update v.owned ptr node'.buffer) v'.buffers
  apart : (v.archive :: v'.buffers).Pairwise Block.Apart
  positive : ∀ block ∈ v'.buffers, 0 < block.size

/-- A buffer that comes from `kmalloc` lies apart from everything in use. -/
theorem allocBuffer_spec {size : Nat} {kmalloc result : Option Nat} (returned : v.allocBuffer size kmalloc = .ok (result, v')) :
    (result = none ∧ v' = v) ∨ ∃ new, result = some new ∧ (∀ block ∈ v.archive :: v.buffers, Block.Apart ⟨new, size⟩ block) ∧
      v' = { v with buffers := ⟨new, size⟩ :: v.buffers } := by
  cases kmalloc with
  | none =>
      cases returned
      exact Or.inl ⟨rfl, rfl⟩
  | some new =>
      unfold Vfs.allocBuffer at returned
      by_cases apart : ∀ block ∈ v.archive :: v.buffers, Block.Apart ⟨new, size⟩ block
      · simp only [if_pos apart] at returned
        cases returned
        exact Or.inr ⟨new, rfl, apart, rfl⟩
      · simp only [if_neg apart] at returned
        cases returned

/-- A free changes the allocated buffers only. -/
theorem freeData_same (freed : v.freeData node = .ok v') :
    v'.root = v.root ∧ v'.nodes = v.nodes ∧ v'.archive = v.archive ∧ v'.bytes = v.bytes := by
  unfold Vfs.freeData at freed
  cases isData : node.data with
  | none =>
      simp only [isData] at freed
      cases freed
      exact ⟨rfl, rfl, rfl, rfl⟩
  | some data =>
      simp only [isData, Vfs.freeBuffer] at freed
      cases found : v.buffers.find? fun block => block.start == data with
      | none =>
          rw [found] at freed
          cases freed
      | some block =>
          rw [found] at freed
          cases freed
          exact ⟨rfl, rfl, rfl, rfl⟩

/-- The part of `vfs_write` that gets a buffer changes no node. -/
theorem growBuffer_same {size : Nat} {kmalloc : Option Nat} {grown : Option VfsNode}
    (returned : growBuffer v node size kmalloc = .ok (grown, v')) : v'.root = v.root ∧ v'.nodes = v.nodes ∧
      v'.archive = v.archive ∧ v'.bytes = v.bytes ∧ ∀ node', grown = some node' → ∃ data capacity, node' = { node with data := data, capacity := capacity } := by
  unfold growBuffer at returned
  by_cases short : node.data = none ∨ node.capacity < size
  · rw [if_pos short] at returned
    obtain ⟨⟨result, v₁⟩, allocated, rest⟩ := Result.bind_ok returned
    rcases allocBuffer_spec allocated with ⟨rfl, rfl⟩ | ⟨new, rfl, _, rfl⟩
    · cases rest
      exact ⟨rfl, rfl, rfl, rfl, nofun⟩
    · obtain ⟨v₂, freed, rest⟩ := Result.bind_ok rest
      obtain ⟨root, nodes, archive, bytes⟩ := freeData_same freed
      cases rest
      refine ⟨root, nodes, archive, bytes, ?_⟩
      rintro node' ⟨⟩
      exact ⟨_, _, rfl⟩
  · rw [if_neg short] at returned
    cases returned
    refine ⟨rfl, rfl, rfl, rfl, ?_⟩
    rintro node' ⟨⟩
    exact ⟨_, _, rfl⟩

/-- The part of `vfs_write` that gets a buffer fails with `kmalloc`, or the buffer is large enough. -/
theorem growBuffer_room {size : Nat} {kmalloc : Option Nat} {grown : Option VfsNode} (returned : growBuffer v node size kmalloc = .ok (grown, v')) :
    (grown = none → kmalloc = none) ∧ ∀ full, grown = some full → size ≤ full.capacity ∧ full.data ≠ none := by
  unfold growBuffer at returned
  by_cases short : node.data = none ∨ node.capacity < size
  · rw [if_pos short] at returned
    obtain ⟨⟨result, v₁⟩, allocated, rest⟩ := Result.bind_ok returned
    cases kmalloc with
    | none =>
        cases allocated
        cases rest
        exact ⟨fun _ => rfl, nofun⟩
    | some new =>
        rcases allocBuffer_spec allocated with ⟨rfl, _⟩ | ⟨_, rfl, _, rfl⟩
        · unfold Vfs.allocBuffer at allocated
          simp only at allocated
          split at allocated <;> cases allocated
        · obtain ⟨v₂, _, rest⟩ := Result.bind_ok rest
          cases rest
          refine ⟨nofun, ?_⟩
          rintro full ⟨⟩
          exact ⟨Nat.le_refl _, Option.some_ne_none _⟩
  · rw [if_neg short] at returned
    cases returned
    rw [not_or, Nat.not_lt] at short
    refine ⟨nofun, ?_⟩
    rintro full ⟨⟩
    exact ⟨short.2, short.1⟩

/-- A node without a buffer of its own takes a new one. -/
theorem Owning.takeApart {owns : NodePtr → Option Block} {archive new : Block} (owning : Owning owns buffers)
    (idle : owns ptr = none) (apart : (archive :: buffers).Pairwise Block.Apart) (positive : ∀ block ∈ buffers, 0 < block.size)
    (large : 0 < new.size) (fresh : ∀ block ∈ archive :: buffers, new.Apart block) :
    Owning (Function.update owns ptr (some new)) (new :: buffers) ∧ (archive :: new :: buffers).Pairwise Block.Apart ∧
      ∀ block ∈ new :: buffers, 0 < block.size := by
  have unused : new ∉ buffers := by
    intro member
    rcases fresh new (List.mem_cons_of_mem _ member) with before | after <;> omega
  have old := List.pairwise_cons.mp apart
  refine ⟨owning.take idle unused, List.pairwise_cons.mpr ⟨?_, List.pairwise_cons.mpr ⟨?_, old.2⟩⟩, ?_⟩
  · intro block member
    rcases List.mem_cons.mp member with rfl | before
    · exact Or.symm (fresh archive List.mem_cons_self)
    · exact old.1 block before
  · intro block member
    exact fresh block (List.mem_cons_of_mem _ member)
  · intro block member
    rcases List.mem_cons.mp member with rfl | before
    · exact large
    · exact positive block before

/-- The buffer of a node is made large enough, or nothing changes. -/
theorem FilesInv.grow {size : Nat} {kmalloc : Option Nat} {grown : Option VfsNode} (inv : FilesInv v)
    (live : v.nodes ptr = some node) (owns : node.borrowed = false) (positive : 0 < size)
    (returned : growBuffer v node size kmalloc = .ok (grown, v')) :
    (grown = none ∧ v' = v) ∨ ∃ node', grown = some node' ∧ Grown v v' ptr node node' size := by
  unfold growBuffer at returned
  by_cases short : node.data = none ∨ node.capacity < size
  · rw [if_pos short] at returned
    obtain ⟨⟨result, v₁⟩, allocated, rest⟩ := Result.bind_ok returned
    rcases allocBuffer_spec allocated with ⟨rfl, rfl⟩ | ⟨new, rfl, fresh, rfl⟩
    · cases rest
      exact Or.inl ⟨rfl, rfl⟩
    · obtain ⟨v₂, freed, rest⟩ := Result.bind_ok rest
      cases rest
      refine Or.inr ⟨_, rfl, ?_⟩
      have owned := owned_some live
      have isNew : ({ node with data := some new, capacity := size } : VfsNode).buffer = some ⟨new, size⟩ := buffer_some rfl owns
      unfold Vfs.freeData at freed
      cases isData : node.data with
      | none =>
          simp only [isData] at freed
          cases freed
          rw [buffer_none (Or.inl isData)] at owned
          obtain ⟨owning, apart, large⟩ := Owning.takeApart inv.owning owned inv.apart inv.positive positive fresh
          exact ⟨rfl, rfl, rfl, rfl, ⟨_, _, rfl⟩, Nat.le_refl _, by rw [isNew]; exact owning, apart, large⟩
      | some old =>
          simp only [isData] at freed
          rw [buffer_some isData owns] at owned
          have member := inv.owning.held owned
          -- The new block is no reason to free another one: it begins elsewhere.
          have different : new ≠ old := by
            intro same
            have large := inv.positive _ member
            rcases fresh _ (List.mem_cons_of_mem _ member) with before | after <;> dsimp only at * <;> omega
          have isOld : ((⟨new, size⟩ : Block) :: v.buffers).find? (fun block => block.start == old) =
              some ⟨old, node.capacity⟩ := by
            rw [List.find?_cons, beq_false_of_ne different]
            exact find_buffer inv.apart.of_cons inv.positive member
          simp only [Vfs.freeBuffer, isOld] at freed
          cases freed
          have erased : ((⟨new, size⟩ : Block) :: v.buffers).erase ⟨old, node.capacity⟩ =
              ⟨new, size⟩ :: v.buffers.erase ⟨old, node.capacity⟩ := by
            rw [List.erase_cons_tail]
            intro same
            exact different (congrArg Block.start (beq_iff_eq.mp same))
          have fewer : (v.buffers.erase ⟨old, node.capacity⟩).Sublist v.buffers := List.erase_sublist
          obtain ⟨owning, apart, large⟩ := Owning.takeApart (inv.owning.release owned) (Function.update_self ptr none v.owned)
            (inv.apart.sublist (fewer.cons_cons _)) (fun block before => inv.positive block (fewer.mem before)) positive
            fun block before => fresh block ((fewer.cons_cons _).mem before)
          rw [Function.update_idem] at owning
          refine ⟨rfl, rfl, rfl, rfl, ⟨_, _, rfl⟩, Nat.le_refl _, ?_, ?_, ?_⟩
          · rw [isNew, erased]
            exact owning
          · rw [erased]
            exact apart
          · rw [erased]
            exact large
  · rw [if_neg short] at returned
    cases returned
    obtain ⟨hasData, room⟩ := not_or.mp short
    obtain ⟨data, isData⟩ := Option.ne_none_iff_exists'.mp hasData
    refine Or.inr ⟨node, rfl, rfl, rfl, rfl, rfl, ⟨data, node.capacity, ?_⟩, Nat.le_of_not_lt room, ?_, inv.apart, inv.positive⟩
    · rw [← isData]
    · rw [← owned_some live, Function.update_eq_self]
      exact inv.owning

end

end DoccrOS.Fs
