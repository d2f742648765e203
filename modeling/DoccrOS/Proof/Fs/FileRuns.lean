import DoccrOS.Proof.Fs.Files

namespace DoccrOS.Fs
open Lib

/-- The loop of `vfs_split_path` finds the last slash. -/
theorem lastSlash_spec (i : Nat) (last : Option Nat) (path : List Char) :
    ('/' ∉ path ∧ lastSlash i last path = last) ∨
      ∃ front name, path = front ++ '/' :: name ∧ '/' ∉ name ∧ lastSlash i last path = some (i + front.length) := by
  induction path generalizing i last with
  | nil => exact Or.inl ⟨List.not_mem_nil, rfl⟩
  | cons c path ih =>
      rw [lastSlash]
      rcases ih (i + 1) (if c = '/' then some i else last) with ⟨noSlash, same⟩ | ⟨front, name, rfl, noSlash, found⟩
      · by_cases slash : c = '/'
        · refine Or.inr ⟨[], path, by rw [slash]; rfl, noSlash, ?_⟩
          rw [same, if_pos slash]
          rfl
        · refine Or.inl ⟨?_, by rw [same, if_neg slash]⟩
          intro member
          rcases List.mem_cons.mp member with isSlash | later
          · exact slash isSlash.symm
          · exact noSlash later
      · refine Or.inr ⟨c :: front, name, rfl, noSlash, ?_⟩
        rw [found, List.length_cons]
        congr 1
        omega

theorem copyName_ok {name copied : List Char} (returned : copyName name = .ok copied) :
    copied = name ∧ name.length < vfsNameMax := by
  unfold copyName at returned
  by_cases short : name.length < vfsNameMax
  · rw [if_pos short] at returned
    cases returned
    exact ⟨rfl, short⟩
  · rw [if_neg short] at returned
    cases returned

/-- The name behind the last slash has no slash and fits its buffer. -/
theorem vfsSplitPath_name {path dirpath fname : List Char} (returned : vfsSplitPath path = .ok (dirpath, fname)) :
    '/' ∉ fname ∧ fname.length < vfsNameMax := by
  unfold vfsSplitPath at returned
  rcases lastSlash_spec 0 none path with ⟨noSlash, same⟩ | ⟨front, name, isPath, noSlash, found⟩
  · rw [same] at returned
    obtain ⟨copied, copies, rest⟩ := Result.bind_ok returned
    obtain ⟨rfl, short⟩ := copyName_ok copies
    cases rest
    exact ⟨noSlash, short⟩
  · have behind : path.drop (front.length + 1) = name := by
      rw [isPath, List.drop_append, List.drop_of_length_le (Nat.le_succ _), List.nil_append, Nat.add_sub_cancel_left]
      rfl
    rw [found, Nat.zero_add] at returned
    cases atStart : front.length with
    | zero =>
        rw [atStart] at returned behind
        obtain ⟨copied, copies, rest⟩ := Result.bind_ok returned
        obtain ⟨rfl, short⟩ := copyName_ok copies
        cases rest
        rw [behind] at short ⊢
        exact ⟨noSlash, short⟩
    | succ last =>
        rw [atStart] at returned behind
        obtain ⟨copied, copies, rest⟩ := Result.bind_ok returned
        obtain ⟨rfl, short⟩ := copyName_ok copies
        cases rest
        rw [behind] at short ⊢
        exact ⟨noSlash, short⟩

section
variable {v v' : Vfs} {ptr root : NodePtr} {node : VfsNode} {path : List Char} {kmallocs : List (Option NodePtr)}
  {kmalloc result : Option NodePtr} {buf : List (BitVec 8)} {code : Int}

/-- The result of `vfs_create_node` is live. -/
theorem Creates.live {type : VfsType} {name : List Char} {dir ptr : NodePtr} (inv : VfsInv v) (grows : Grows v v')
    (creates : Creates v v' dir name type (some ptr)) : ∃ node, v'.nodes ptr = some node := by
  cases creates with
  | existing _ found _ =>
      obtain ⟨_, below, _, _, live, _⟩ := inv.child_spec found
      obtain ⟨_, _, live'⟩ := grows.kept ptr below live
      exact ⟨_, live'⟩
  | linked _ _ below links _ _ => exact ⟨below, links.added⟩

/-- `vfs_create_file` and `vfs_create_device` add nodes without data. -/
theorem VfsInv.createAt {type : VfsType} (inv : VfsInv v) (returned : vfsCreateAt v path type kmallocs kmalloc = .ok (result, v')) :
    VfsInv v' ∧ Grows v v' ∧ ∀ ptr, result = some ptr → ∃ node, v'.nodes ptr = some node := by
  unfold vfsCreateAt at returned
  cases isRoot : v.root with
  | none =>
      rw [isRoot] at returned
      cases returned
      exact ⟨inv, Grows.refl _, nofun⟩
  | some root =>
      simp only [isRoot] at returned
      obtain ⟨⟨dirpath, fname⟩, split, rest⟩ := Result.bind_ok returned
      obtain ⟨noSlash, short⟩ := vfsSplitPath_name split
      by_cases empty : fname = []
      · simp only [if_pos empty] at rest
        cases rest
        exact ⟨inv, Grows.refl _, nofun⟩
      · simp only [if_neg empty] at rest
        rw [inv.find, Result.ok_bind, isRoot, Option.bind_some] at rest
        have token : TokenOk fname := ⟨empty, noSlash, short⟩
        cases found : resolve v.child root (tokens dirpath) with
        | some dir =>
            rw [found] at rest
            obtain ⟨node, live⟩ := inv.resolve_live isRoot found
            obtain ⟨inv', grows, creates⟩ := inv.createNode live token rest
            refine ⟨inv', grows, ?_⟩
            rintro ptr rfl
            exact creates.live inv grows
        | none =>
            rw [found] at rest
            obtain ⟨⟨dir, v₁⟩, made, rest⟩ := Result.bind_ok rest
            obtain ⟨inv₁, grows₁, leads⟩ := inv.mkdir made
            cases dir with
            | none =>
                cases rest
                exact ⟨inv₁, grows₁, nofun⟩
            | some dir =>
                have reached := (leads root isRoot).2 dir rfl
                obtain ⟨node, live⟩ := inv₁.resolve_live (grows₁.root.trans isRoot) reached
                obtain ⟨inv', grows', creates⟩ := inv₁.createNode live token rest
                refine ⟨inv', grows₁.trans grows', ?_⟩
                rintro ptr rfl
                exact creates.live inv₁ grows'

/-- `vfs_create_device` adds nodes and sets the device of one. -/
theorem VfsInv.createDevice {device : Option Nat} (inv : VfsInv v)
    (returned : vfsCreateDevice v path device kmallocs kmalloc = .ok (result, v')) :
    ∃ v₁, VfsInv v₁ ∧ Grows v v₁ ∧ (v' = v₁ ∨ ∃ ptr node device, v₁.nodes ptr = some node ∧
      v' = v₁.setNode ptr { node with device := device }) := by
  unfold vfsCreateDevice at returned
  cases device with
  | none =>
      cases returned
      exact ⟨_, inv, Grows.refl _, Or.inl rfl⟩
  | some device =>
      obtain ⟨⟨made, v₁⟩, created, rest⟩ := Result.bind_ok returned
      obtain ⟨inv₁, grows, _⟩ := inv.createAt created
      refine ⟨v₁, inv₁, grows, ?_⟩
      cases made with
      | none =>
          cases rest
          exact Or.inl rfl
      | some ptr =>
          obtain ⟨node, isNode, rest⟩ := Result.bind_ok rest
          cases rest
          exact Or.inr ⟨ptr, node, some device, node_some.mp isNode, rfl⟩

/-- A file holds a list of bytes in a buffer of its own. -/
structure Holds (v v' : Vfs) (ptr : NodePtr) (buf : List (BitVec 8)) (node node' : VfsNode) (data : Nat) : Prop where
  touches : Touches v v' ptr node node'
  isFile : node.type = .file
  isData : node'.data = some data
  owns : node'.borrowed = false
  size : node'.size = buf.length
  bytes : v'.bytes = copyIn v.bytes data buf

/-- A change of one file keeps all nodes. -/
theorem Touches.kept {node' : VfsNode} (touches : Touches v v' ptr node node') {query : NodePtr} {value : VfsNode}
    (live : v.nodes query = some value) : ∃ value', v'.nodes query = some value' := by
  by_cases isPtr : query = ptr
  · rw [isPtr]
    exact ⟨node', touches.here⟩
  · exact ⟨value, (touches.other query isPtr).trans live⟩

/-- The node after the statement of `vfs_write` that drops a borrowed buffer. -/
def VfsNode.unlent (node : VfsNode) : VfsNode :=
  if node.borrowed then { node with data := none, capacity := 0, borrowed := false } else node

/-- How `vfs_write` ends: it refuses, it fails after it dropped a borrowed buffer, or it stores its bytes. -/
inductive WriteOutcome (v v' : Vfs) (ptr : NodePtr) (buf : List (BitVec 8)) (kmalloc : Option Nat) : Int → Prop
  | refused (same : v' = v) : WriteOutcome v v' ptr buf kmalloc (-1)
  | failed (node : VfsNode) (isFile : node.type = .file) (fits : buf.length ≤ vfsMaxFileSize) (none : kmalloc = none)
    (touches : Touches v v' ptr node node.unlent) : WriteOutcome v v' ptr buf kmalloc (-1)
  | written (node node' : VfsNode) (data : Nat) (touches : Touches v v' ptr node node') (size : node'.size = buf.length)
    (room : buf.length ≤ node'.capacity) (isData : node'.data = some data) (bytes : v'.bytes = copyIn v.bytes data buf) :
    WriteOutcome v v' ptr buf kmalloc buf.length

theorem unlent_shape (node : VfsNode) :
    ∃ data capacity borrowed, node.unlent = { node with data := data, capacity := capacity, borrowed := borrowed } := by
  unfold VfsNode.unlent
  by_cases borrowed : node.borrowed = true
  · exact ⟨_, _, _, if_pos borrowed⟩
  · exact ⟨node.data, node.capacity, node.borrowed, if_neg borrowed⟩

theorem vfsWrite_outcome {kmalloc : Option Nat} (returned : vfsWrite v (some ptr) (some buf) kmalloc = .ok (code, v')) :
    WriteOutcome v v' ptr buf kmalloc code := by
  unfold vfsWrite at returned
  obtain ⟨node, isNode, rest⟩ := Result.bind_ok returned
  have live := node_some.mp isNode
  by_cases notFile : node.type ≠ .file
  · rw [if_pos notFile] at rest
    cases rest
    exact .refused rfl
  rw [if_neg notFile] at rest
  by_cases large : buf.length > vfsMaxFileSize
  · rw [if_pos large] at rest
    cases rest
    exact .refused rfl
  rw [if_neg large] at rest
  change growBuffer (v.setNode ptr node.unlent) node.unlent buf.length kmalloc >>= _ = _ at rest
  obtain ⟨data, capacity, borrowed, isUnlent⟩ := unlent_shape node
  obtain ⟨⟨grown, v₁⟩, grew, rest⟩ := Result.bind_ok rest
  obtain ⟨root, nodes, archive, bytes, shape⟩ := growBuffer_same grew
  obtain ⟨fails, room⟩ := growBuffer_room grew
  have bare (query : NodePtr) (different : query ≠ ptr) : v₁.nodes query = v.nodes query := by
    rw [nodes]
    exact setNode_other _ _ different
  cases grown with
  | none =>
      cases rest
      refine .failed node (not_not.mp notFile) (Nat.le_of_not_lt large) (fails rfl) ?_
      exact ⟨root, archive, live, by rw [nodes]; exact setNode_here _ _ _, bare, ⟨_, _, _, _, _, isUnlent⟩⟩
  | some full =>
      obtain ⟨data', capacity', isFull⟩ := shape full rfl
      obtain ⟨large', isData⟩ := room full rfl
      obtain ⟨address, hasData⟩ := Option.ne_none_iff_exists'.mp isData
      simp only [hasData] at rest
      have small : castInt buf.length = buf.length := by
        apply castInt_small
        have bound := Nat.le_of_not_lt large
        unfold vfsMaxFileSize at bound
        omega
      rw [small] at rest
      cases rest
      refine .written node _ address ⟨root, archive, live, setNode_here _ _ _, ?_, ?_⟩ rfl large' rfl
        (congrArg (copyIn · address buf) bytes)
      · intro query different
        exact (setNode_other _ _ different).trans (bare query different)
      · simp only [isFull, isUnlent]
        exact ⟨_, _, _, _, _, rfl⟩

/-- `vfs_write` changes nothing, or the file of one node. -/
theorem vfsWrite_touches {kmalloc : Option Nat} (returned : vfsWrite v (some ptr) (some buf) kmalloc = .ok (code, v')) :
    v' = v ∨ ∃ node node', Touches v v' ptr node node' := by
  cases vfsWrite_outcome returned with
  | refused same => exact Or.inl same
  | failed node _ _ _ touches => exact Or.inr ⟨node, _, touches⟩
  | written node node' _ touches _ _ _ _ => exact Or.inr ⟨node, node', touches⟩

/-- A node without its borrowed buffer owns what it owned before. -/
theorem FilesInv.dropBorrowed (inv : FilesInv v) (live : v.nodes ptr = some node) :
    ∃ bare, (if node.borrowed then { node with data := none, capacity := 0, borrowed := false } else node) = bare ∧
      bare.borrowed = false ∧ (∃ data capacity, bare = { node with data := data, capacity := capacity, borrowed := false }) ∧
      Touches v (v.setNode ptr bare) ptr node bare ∧ FilesInv (v.setNode ptr bare) := by
  have dropped : ∃ bare, (if node.borrowed then { node with data := none, capacity := 0, borrowed := false } else node) = bare ∧
      bare.borrowed = false ∧ (∃ data capacity, bare = { node with data := data, capacity := capacity, borrowed := false }) ∧
      bare.buffer = node.buffer ∧ FileOk v.archive bare := by
    cases borrowed : node.borrowed with
    | true =>
        refine ⟨_, if_pos rfl, rfl, ⟨_, _, rfl⟩, ?_, ⟨fun some => absurd rfl some, nofun⟩⟩
        rw [buffer_none (Or.inl rfl), buffer_none (Or.inr borrowed)]
    | false =>
        refine ⟨node, if_neg Bool.false_ne_true, borrowed, ⟨node.data, node.capacity, ?_⟩, rfl, inv.file ptr node live⟩
        rw [← borrowed]
  obtain ⟨bare, isBare, owns, ⟨data, capacity, shape⟩, sameBuffer, bareOk⟩ := dropped
  have touches : Touches v (v.setNode ptr bare) ptr node bare :=
    ⟨rfl, rfl, live, setNode_here _ _ _, fun _ different => setNode_other _ _ different, ⟨_, _, _, _, _, shape⟩⟩
  refine ⟨bare, isBare, owns, ⟨data, capacity, shape⟩, touches, inv.touches touches ?_ inv.apart inv.positive bareOk⟩
  rw [sameBuffer, ← owned_some live, Function.update_eq_self]
  exact inv.owning

/-- `vfs_write` fails, or it stores its bytes in a buffer that only its node owns. -/
theorem FilesInv.write {kmalloc : Option Nat} (inv : FilesInv v) (nonempty : buf ≠ [])
    (returned : vfsWrite v (some ptr) (some buf) kmalloc = .ok (code, v')) :
    FilesInv v' ∧ v'.archive = v.archive ∧ ((code = -1 ∧ v'.bytes = v.bytes) ∨
      (code = buf.length ∧ buf.length ≤ vfsMaxFileSize ∧ ∃ node node' data, Holds v v' ptr buf node node' data)) := by
  have positive : 0 < buf.length := List.length_pos_of_ne_nil nonempty
  have failed : Except.ok ((-1 : Int), v) = (.ok (code, v') : Result (Int × Vfs)) → FilesInv v' ∧ v'.archive = v.archive ∧
      ((code = -1 ∧ v'.bytes = v.bytes) ∨
      (code = buf.length ∧ buf.length ≤ vfsMaxFileSize ∧ ∃ node node' data, Holds v v' ptr buf node node' data)) := by
    intro same
    cases same
    exact ⟨inv, rfl, Or.inl ⟨rfl, rfl⟩⟩
  unfold vfsWrite at returned
  obtain ⟨node, isNode, rest⟩ := Result.bind_ok returned
  have live := node_some.mp isNode
  by_cases notFile : node.type ≠ .file
  · rw [if_pos notFile] at rest
    exact failed rest
  rw [if_neg notFile] at rest
  by_cases large : buf.length > vfsMaxFileSize
  · rw [if_pos large] at rest
    exact failed rest
  rw [if_neg large] at rest
  obtain ⟨bare, isBare, owns, ⟨data₀, capacity₀, shape⟩, touches₀, inv₀⟩ := inv.dropBorrowed live
  rw [isBare] at rest
  obtain ⟨⟨grown, v₁⟩, grew, rest⟩ := Result.bind_ok rest
  rcases inv₀.grow (setNode_here _ _ _) owns positive grew with ⟨rfl, rfl⟩ | ⟨full, rfl, ok⟩
  · cases rest
    exact ⟨inv₀, rfl, Or.inl ⟨rfl, rfl⟩⟩
  · obtain ⟨data, capacity, isFull⟩ := ok.shape
    have room := ok.room
    have owning := ok.owning
    rw [touches₀.owned, Function.update_idem] at owning
    rw [isFull] at rest room owning
    cases rest
    let last : VfsNode := { bare with data := some data, capacity := capacity, size := buf.length }
    have touches : Touches v { v₁.setNode ptr last with bytes := copyIn v₁.bytes data buf } ptr node last := by
      refine ⟨ok.root, ok.archive, live, setNode_here _ _ _, ?_, ⟨some data, buf.length, capacity, bare.borrowed, bare.device, ?_⟩⟩
      · intro query different
        exact (setNode_other v₁ last different).trans
          ((congrFun ok.nodes query).trans (setNode_other v bare different))
      · simp only [last, shape]
    refine ⟨inv.touches touches owning ok.apart ok.positive ⟨fun _ => room, ?_⟩, ok.archive, Or.inr ⟨?_, Nat.le_of_not_lt large,
      node, last, data, ⟨touches, not_not.mp notFile, rfl, owns, rfl, ?_⟩⟩⟩
    · intro borrowed
      rw [show last.borrowed = bare.borrowed from rfl, owns] at borrowed
      cases borrowed
    · apply castInt_small
      have bound := Nat.le_of_not_lt large
      unfold vfsMaxFileSize at bound
      omega
    · exact congrArg (fun bytes => copyIn bytes data buf) ok.bytes

/-- The data of a node lies in the archive or in the buffer that the node owns. -/
theorem FilesInv.region {data : Nat} (inv : FilesInv v) (live : v.nodes ptr = some node) (isData : node.data = some data) :
    ∃ block, block.start ≤ data ∧ data + node.size ≤ block.start + block.size ∧
      (block = v.archive ∨ v.owned ptr = some block) := by
  have ok := inv.file ptr node live
  have sized := ok.sized (by rw [isData]; exact Option.some_ne_none _)
  cases borrowed : node.borrowed with
  | true =>
      obtain ⟨data', isData', above, inside⟩ := ok.lent borrowed
      rw [isData] at isData'
      rw [← Option.some.inj isData'] at above inside
      exact ⟨v.archive, above, by omega, Or.inl rfl⟩
  | false =>
      refine ⟨⟨data, node.capacity⟩, Nat.le_refl _, Nat.add_le_add_left sized _, Or.inr ?_⟩
      rw [owned_some live, buffer_some isData borrowed]

/-- The written buffer is the one that its node owns. -/
theorem Holds.written {node' : VfsNode} {data : Nat} (holds : Holds v v' ptr buf node node' data) (inv' : FilesInv v') :
    v'.owned ptr = some ⟨data, node'.capacity⟩ ∧ buf.length ≤ node'.capacity := by
  refine ⟨by rw [owned_some holds.touches.here, buffer_some holds.isData holds.owns], ?_⟩
  rw [← holds.size]
  exact (inv'.file ptr node' holds.touches.here).sized (by rw [holds.isData]; exact Option.some_ne_none _)

/-- The written bytes are no bytes of the archive. -/
theorem Holds.archive {node' : VfsNode} {data i : Nat} (holds : Holds v v' ptr buf node node' data) (inv' : FilesInv v')
    (inside : i < v.archive.size) : v'.bytes (v.archive.start + i) = v.bytes (v.archive.start + i) := by
  obtain ⟨owned, room⟩ := holds.written inv'
  have apart := (List.pairwise_cons.mp inv'.apart).1 _ (inv'.owning.held owned)
  rw [holds.touches.archive] at apart
  rw [holds.bytes]
  apply copyIn_outside
  rcases apart with before | after <;> dsimp only at * <;> omega

/-- The written bytes are no bytes of another file. -/
theorem Holds.apart {node' value : VfsNode} {other : NodePtr} {data data' : Nat} (holds : Holds v v' ptr buf node node' data)
    (inv' : FilesInv v') (different : other ≠ ptr) (live : v'.nodes other = some value) (isData : value.data = some data') :
    data' + value.size ≤ data ∨ data + buf.length ≤ data' := by
  obtain ⟨owned, room⟩ := holds.written inv'
  obtain ⟨block, above, inside, place⟩ := inv'.region live isData
  have apart : block.Apart ⟨data, node'.capacity⟩ := by
    have written := inv'.owning.held owned
    have parts := List.pairwise_cons.mp inv'.apart
    rcases place with isArchive | mine
    · rw [isArchive]
      exact parts.1 _ written
    · apply parts.2.forall (inv'.owning.held mine) written
      intro same
      rw [same] at mine
      exact different (inv'.owning.single mine owned)
  rcases apart with before | after <;> dsimp only at * <;> omega

/-- A file reads back what was written. -/
theorem Holds.read {node' : VfsNode} {data : Nat} (holds : Holds v v' ptr buf node node' data) (nonempty : buf ≠ [])
    (small : buf.length ≤ vfsMaxFileSize) (size : Nat) :
    vfsRead v' (some ptr) size = .ok (((min size buf.length : Nat) : Int), buf.take size) := by
  have positive := List.length_pos_of_ne_nil nonempty
  unfold vfsMaxFileSize at small
  obtain ⟨_, _, _, _, _, shape⟩ := holds.touches.shape
  have isFile : node'.type = .file := by rw [shape]; exact holds.isFile
  have count : (if size < buf.length then size else buf.length) = min size buf.length := by
    by_cases short : size < buf.length
    · rw [if_pos short, Nat.min_eq_left (Nat.le_of_lt short)]
    · rw [if_neg short, Nat.min_eq_right (Nat.le_of_not_lt short)]
  simp only [vfsRead, node_some.mpr holds.touches.here, Result.ok_bind, isFile, ne_eq, not_true_eq_false, if_false, holds.size,
    count, holds.isData, holds.bytes]
  rw [castInt_small (by omega)]
  by_cases some : min size buf.length > 0
  · rw [if_pos some, copyOut_copyIn (Nat.min_le_right _ _), ← List.take_eq_take_min]
    rfl
  · have zero : size = 0 := by omega
    rw [if_neg some, zero]
    rfl

/-- Another file reads as before. -/
theorem Holds.read_other {node' : VfsNode} {other : NodePtr} {data : Nat} (holds : Holds v v' ptr buf node node' data)
    (inv' : FilesInv v') (different : other ≠ ptr) (size : Nat) :
    vfsRead v' (some other) size = vfsRead v (some other) size := by
  have same : v'.node other = v.node other := by rw [Vfs.node, Vfs.node, holds.touches.other other different]
  simp only [vfsRead]
  rw [same]
  cases isNode : v.node other with
  | error halt => rfl
  | ok value =>
      have live := node_some.mp (same.trans isNode)
      simp only [Result.ok_bind]
      by_cases notFile : value.type ≠ .file
      · rw [if_pos notFile, if_pos notFile]
      · rw [if_neg notFile, if_neg notFile]
        cases isData : value.data with
        | none => rfl
        | some data' =>
            have apart := holds.apart inv' different live isData
            have copied : copyOut v'.bytes data' (if size < value.size then size else value.size) =
                copyOut v.bytes data' (if size < value.size then size else value.size) := by
              apply copyOut_congr
              intro i inside
              have bound : i < value.size := by
                split at inside <;> omega
              rw [holds.bytes]
              apply copyIn_outside
              omega
            simp only [copied]

/-- No memory in use overlaps the block that an allocation returns. -/
def FreshBuffer (v : Vfs) (size : Nat) (kmalloc : Option Nat) : Prop :=
  ∀ new, kmalloc = some new → ∀ block ∈ v.archive :: v.buffers, Block.Apart ⟨new, size⟩ block

theorem freeBuffer_returns {buffers : List Block} {data : Nat} {block : Block} (member : block ∈ buffers)
    (start : block.start = data) : ∃ v', Vfs.freeBuffer { v with buffers := buffers } data = .ok v' := by
  have found : (buffers.find? fun block => block.start == data).isSome = true :=
    List.find?_isSome.mpr ⟨block, member, beq_iff_eq.mpr start⟩
  obtain ⟨first, isFirst⟩ := Option.isSome_iff_exists.mp found
  simp only [Vfs.freeBuffer, isFirst]
  exact ⟨_, rfl⟩

theorem FilesInv.grow_returns {size : Nat} {kmalloc : Option Nat} (inv : FilesInv v) (live : v.nodes ptr = some node)
    (owns : node.borrowed = false) (fresh : FreshBuffer v size kmalloc) :
    ∃ grown v', growBuffer v node size kmalloc = .ok (grown, v') := by
  unfold growBuffer
  by_cases short : node.data = none ∨ node.capacity < size
  · rw [if_pos short]
    cases kmalloc with
    | none => exact ⟨_, _, rfl⟩
    | some new =>
        simp only [Vfs.allocBuffer, if_pos (fresh new rfl), Result.ok_bind]
        cases isData : node.data with
        | none =>
            simp only [Vfs.freeData, isData]
            exact ⟨_, _, rfl⟩
        | some data =>
            obtain ⟨block, member, start⟩ := inv.freeable live data isData owns
            obtain ⟨v', freed⟩ := freeBuffer_returns (v := v) (List.mem_cons_of_mem ⟨new, size⟩ member) start
            simp only [Vfs.freeData, isData, freed]
            exact ⟨_, _, rfl⟩
  · rw [if_neg short]
    exact ⟨_, _, rfl⟩

/-- `vfs_write` to a live node returns. -/
theorem FilesInv.write_returns {kmalloc : Option Nat} (inv : FilesInv v) (live : v.nodes ptr = some node) (nonempty : buf ≠ [])
    (fresh : FreshBuffer v buf.length kmalloc) : ∃ code v', vfsWrite v (some ptr) (some buf) kmalloc = .ok (code, v') := by
  obtain ⟨bare, isBare, owns, _, _, inv₀⟩ := inv.dropBorrowed live
  simp only [vfsWrite, node_some.mpr live, Result.ok_bind]
  by_cases notFile : node.type ≠ .file
  · rw [if_pos notFile]
    exact ⟨_, _, rfl⟩
  rw [if_neg notFile]
  by_cases large : buf.length > vfsMaxFileSize
  · rw [if_pos large]
    exact ⟨_, _, rfl⟩
  rw [if_neg large, isBare]
  obtain ⟨grown, v₁, grew⟩ := inv₀.grow_returns (setNode_here _ _ _) owns fresh
  rw [grew, Result.ok_bind]
  rcases inv₀.grow (setNode_here _ _ _) owns (List.length_pos_of_ne_nil nonempty) grew with ⟨rfl, _⟩ | ⟨full, rfl, ok⟩
  · exact ⟨_, _, rfl⟩
  · obtain ⟨data, capacity, isFull⟩ := ok.shape
    simp only [isFull]
    exact ⟨_, _, rfl⟩

/-- `vfs_set_data` on a live node returns. -/
theorem FilesInv.setData_returns (inv : FilesInv v) (live : v.nodes ptr = some node) (data size : Nat) :
    ∃ v', vfsSetData v (some ptr) data size = .ok v' := by
  simp only [vfsSetData, node_some.mpr live, Result.ok_bind]
  by_cases notFile : node.type ≠ .file
  · rw [if_pos notFile]
    exact ⟨_, rfl⟩
  rw [if_neg notFile]
  obtain ⟨v₁, freed⟩ := freeOwned_returns (inv.freeable live)
  rw [freed]
  exact ⟨_, rfl⟩

end

section
variable {v v' : Vfs} {op : VfsOp}

/-- `vfs_set_data` changes nothing, or it lends the buffer to one file. -/
theorem vfsSetData_touches {ptr : NodePtr} {data size : Nat} (returned : vfsSetData v (some ptr) data size = .ok v') :
    v' = v ∨ ∃ node node', Touches v v' ptr node node' ∧ node'.data = some data ∧ node'.size = size ∧
      node'.capacity = size := by
  unfold vfsSetData at returned
  obtain ⟨node, isNode, rest⟩ := Result.bind_ok returned
  by_cases notFile : node.type ≠ .file
  · rw [if_pos notFile] at rest
    cases rest
    exact Or.inl rfl
  · rw [if_neg notFile] at rest
    obtain ⟨v₁, freed, rest⟩ := Result.bind_ok rest
    obtain ⟨root₁, nodes₁, _, archive₁, _⟩ := freeOwned_spec freed
    cases rest
    refine Or.inr ⟨node, _, ⟨root₁, archive₁, node_some.mp isNode, setNode_here _ _ _, ?_, ⟨_, _, _, _, _, rfl⟩⟩, rfl, rfl, rfl⟩
    intro query different
    rw [setNode_other _ _ different, nodes₁]

/-- Every call of the file system keeps the tree well formed. -/
theorem VfsInv.step (inv : VfsInv v) (returned : v.step op = .ok v') : VfsInv v' := by
  cases op with
  | mkdir path kmallocs =>
      obtain ⟨⟨result, after⟩, called, rfl⟩ := Result.map_ok returned
      exact (inv.mkdir called).1
  | createFile path kmallocs kmalloc =>
      obtain ⟨⟨result, after⟩, called, rfl⟩ := Result.map_ok returned
      exact (inv.createAt called).1
  | createDevice path device kmallocs kmalloc =>
      obtain ⟨⟨result, after⟩, called, rfl⟩ := Result.map_ok returned
      obtain ⟨v₁, inv₁, _, same⟩ := inv.createDevice called
      rcases same with rfl | ⟨ptr, node, device, live, rfl⟩
      · exact inv₁
      · exact inv₁.setFile live _ _ _ _ _ rfl (fun _ different => setNode_other _ _ different) (setNode_here _ _ _)
  | setData node data size =>
      rcases vfsSetData_touches returned with rfl | ⟨_, _, touches, _⟩
      · exact inv
      · exact touches.inv inv
  | write node buf kmalloc =>
      obtain ⟨⟨code, after⟩, called, rfl⟩ := Result.map_ok returned
      rcases vfsWrite_touches called with rfl | ⟨_, _, touches⟩
      · exact inv
      · exact touches.inv inv
  | read node size =>
      obtain ⟨_, _, rfl⟩ := Result.map_ok returned
      exact inv
  | remove path =>
      obtain ⟨⟨code, after⟩, called, rfl⟩ := Result.map_ok returned
      rcases inv.remove called with ⟨_, rfl⟩ | ⟨_, _, _, _, _, _, _, _, _, unlinks, _⟩
      · exact inv
      · exact unlinks.inv inv

end

/-- A borrowed pointer lies in the archive, and no call writes an empty list. -/
def VfsOp.allowed (v : Vfs) : VfsOp → Bool
  | .setData _ data size => decide (v.archive.start ≤ data ∧ data + size ≤ v.archive.start + v.archive.size)
  | .write _ buf _ => buf ≠ []
  | _ => true

/-- The files are well formed and the archive is as it was at the start. -/
structure ArchiveKept (bytes : Bytes) (archive : Block) (v : Vfs) : Prop where
  files : FilesInv v
  same : v.archive = archive
  kept : ∀ i, i < archive.size → v.bytes (archive.start + i) = bytes (archive.start + i)

section
variable {v v' start : Vfs} {bytes : Bytes} {archive : Block} {kmalloc : Option NodePtr} {ops : List VfsOp}

/-- Every allowed call keeps the files well formed and the archive unmodified. -/
theorem ArchiveKept.step (inv : ArchiveKept bytes archive v) {op : VfsOp} (allowed : op.allowed v = true)
    (returned : v.step op = .ok v') : ArchiveKept bytes archive v' := by
  have quiet (files : FilesInv v') (sameArchive : v'.archive = v.archive) (sameBytes : v'.bytes = v.bytes) :
      ArchiveKept bytes archive v' := by
    refine ⟨files, sameArchive.trans inv.same, ?_⟩
    rw [sameBytes]
    exact inv.kept
  cases op with
  | mkdir path kmallocs =>
      obtain ⟨⟨result, after⟩, called, rfl⟩ := Result.map_ok returned
      obtain ⟨inv', grows, _⟩ := inv.files.inv.mkdir called
      exact quiet (inv.files.grows inv' grows) grows.archive grows.bytes
  | createFile path kmallocs kmalloc =>
      obtain ⟨⟨result, after⟩, called, rfl⟩ := Result.map_ok returned
      obtain ⟨inv', grows, _⟩ := inv.files.inv.createAt called
      exact quiet (inv.files.grows inv' grows) grows.archive grows.bytes
  | createDevice path device kmallocs kmalloc =>
      obtain ⟨⟨result, after⟩, called, rfl⟩ := Result.map_ok returned
      obtain ⟨v₁, inv₁, grows, same⟩ := inv.files.inv.createDevice called
      have files₁ := inv.files.grows inv₁ grows
      rcases same with rfl | ⟨ptr, node, device, live, rfl⟩
      · exact quiet files₁ grows.archive grows.bytes
      · have touches : Touches v₁ (v₁.setNode ptr { node with device := device }) ptr node { node with device := device } :=
          ⟨rfl, rfl, live, setNode_here _ _ _, fun _ different => setNode_other _ _ different, ⟨_, _, _, _, _, rfl⟩⟩
        refine quiet (files₁.touches touches ?_ files₁.apart files₁.positive ?_) grows.archive grows.bytes
        · have same : ({ node with device := device } : VfsNode).buffer = node.buffer := rfl
          rw [same, ← owned_some live, Function.update_eq_self]
          exact files₁.owning
        · exact ⟨(files₁.file ptr node live).sized, (files₁.file ptr node live).lent⟩
  | setData node data size =>
      obtain ⟨above, inside⟩ := of_decide_eq_true allowed
      obtain ⟨files, sameBytes, sameArchive⟩ := inv.files.setData above inside returned
      exact quiet files sameArchive sameBytes
  | write node buf kmalloc =>
      obtain ⟨⟨code, after⟩, called, rfl⟩ := Result.map_ok returned
      obtain ⟨files, sameArchive, written⟩ := inv.files.write (of_decide_eq_true allowed) called
      rcases written with ⟨_, sameBytes⟩ | ⟨_, _, _, _, _, holds⟩
      · exact quiet files sameArchive sameBytes
      · refine ⟨files, sameArchive.trans inv.same, ?_⟩
        intro i inside
        rw [← inv.same] at inside ⊢
        rw [holds.archive files inside, inv.same]
        exact inv.kept i (by rw [← inv.same]; exact inside)
  | read node size =>
      obtain ⟨_, _, rfl⟩ := Result.map_ok returned
      exact inv
  | remove path =>
      obtain ⟨⟨code, after⟩, called, rfl⟩ := Result.map_ok returned
      rcases inv.files.inv.remove called with ⟨_, same⟩ | ⟨_, _, _, _, _, _, _, _, _, unlinks, sameBytes, sameArchive, frees⟩
      · rw [same]
        exact inv
      · exact quiet (inv.files.unlinks unlinks sameArchive frees) sameArchive sameBytes

/-- In every reachable state the bytes of the archive are those of the start, every allocated buffer belongs to exactly one
node and lies apart from the archive, and the calls that free a buffer return. A write that succeeds is read back, and the
other files read as before. -/
theorem file_contents_owned (booted : vfsInit (Vfs.boot bytes archive) kmalloc = .ok start)
    (run : Run Vfs.step (fun v op => op.allowed v = true) start ops v) :
    (∀ i, i < archive.size → v.bytes (archive.start + i) = bytes (archive.start + i)) ∧
    (∀ block ∈ v.buffers, 0 < block.size ∧ block.Apart archive) ∧
    v.buffers.Pairwise Block.Apart ∧ v.buffers.Nodup ∧
    (∀ block ∈ v.buffers, ∃! ptr, ∃ node, v.nodes ptr = some node ∧ node.buffer = some block) ∧
    (∀ ptr node block, v.nodes ptr = some node → node.buffer = some block → block ∈ v.buffers) ∧
    (∀ path, ∃ code v', vfsRemove v path = .ok (code, v')) ∧
    (∀ ptr node, v.nodes ptr = some node → (∀ data size, ∃ v', vfsSetData v (some ptr) data size = .ok v') ∧
      ∀ buf kmalloc, buf ≠ [] → FreshBuffer v buf.length kmalloc →
        ∃ code v', vfsWrite v (some ptr) (some buf) kmalloc = .ok (code, v')) ∧
    ∀ ptr buf kmalloc v', buf ≠ [] → vfsWrite v (some ptr) (some buf) kmalloc = .ok ((buf.length : Int), v') →
      (∀ size, vfsRead v' (some ptr) size = .ok (((min size buf.length : Nat) : Int), buf.take size)) ∧
      ∀ other, other ≠ ptr → ∀ size, vfsRead v' (some other) size = vfsRead v (some other) size := by
  have initial : ArchiveKept bytes archive start := by
    obtain ⟨inv, grows⟩ := vfsInit_inv booted
    refine ⟨⟨inv, ?_, ?_, ?_, ?_⟩, grows.archive, fun i _ => by rw [grows.bytes]; rfl⟩
    · have none : start.owned = fun _ => none := by
        funext ptr
        cases live : start.nodes ptr with
        | none => rw [Vfs.owned, live]; rfl
        | some node => rw [owned_some live, buffer_none (Or.inl (grows.fresh ptr node rfl live).1)]
      rw [none, grows.buffers]
      exact Owning.empty
    · rw [grows.buffers]
      exact List.pairwise_singleton _ _
    · rw [grows.buffers]
      rintro _ ⟨⟩
    · intro ptr node live
      obtain ⟨noData, _, _, owns⟩ := grows.fresh ptr node rfl live
      refine ⟨fun some => absurd noData some, ?_⟩
      intro borrowed
      rw [owns] at borrowed
      cases borrowed
  have reached := run.invariant (ArchiveKept bytes archive)
    (fun _ _ _ inv allowed returned => inv.step allowed returned) initial
  have files := reached.files
  have parts := List.pairwise_cons.mp files.apart
  refine ⟨reached.kept, ?_, parts.2, files.owning.nodup, ?_, ?_, ?_, ?_, ?_⟩
  · intro block member
    refine ⟨files.positive block member, ?_⟩
    rw [← reached.same]
    exact Or.symm (parts.1 block member)
  · intro block member
    obtain ⟨ptr, owned⟩ := files.owning.covered member
    obtain ⟨node, live, isBuffer⟩ := Option.bind_eq_some_iff.mp owned
    refine ⟨ptr, ⟨node, live, isBuffer⟩, ?_⟩
    rintro other ⟨node', live', isBuffer'⟩
    exact files.owning.single ((owned_some live').trans isBuffer') owned
  · intro ptr node block live isBuffer
    exact files.owning.held ((owned_some live).trans isBuffer)
  · exact fun path => files.inv.remove_returns path fun ptr node live => files.freeable live
  · intro ptr node live
    exact ⟨fun data size => files.setData_returns live data size,
      fun buf kmalloc nonempty fresh => files.write_returns live nonempty fresh⟩
  · intro ptr buf kmalloc v' nonempty called
    obtain ⟨files', _, written⟩ := files.write nonempty called
    rcases written with ⟨failed, _⟩ | ⟨_, small, node, node', data, holds⟩
    · exact absurd failed (by omega)
    · exact ⟨holds.read nonempty small, fun other different => holds.read_other files' different⟩

/-- A file that borrows from the archive is written, and another file keeps its byte. -/
theorem file_contents_owned_written : ∃ start v v', vfsInit (Vfs.boot (fun _ => 7) ⟨0x1000, 16⟩) (some 1) = .ok start ∧
    Run Vfs.step (fun v op => op.allowed v = true) start
      [.createFile ['/', 'a'] [] (some 2), .setData 2 0x1004 8, .createFile ['b'] [] (some 3), .write 3 [9] (some 0x2000)] v ∧
    vfsWrite v (some 2) (some [1, 2, 3]) (some 0x3000) = .ok (3, v') ∧
    vfsRead v' (some 2) 2 = .ok (2, [1, 2]) ∧ vfsRead v' (some 3) 5 = vfsRead v (some 3) 5 := by
  cases booted : vfsInit (Vfs.boot (fun _ => 7) ⟨0x1000, 16⟩) (some 1) with
  | error halt => cases booted
  | ok start =>
      have checked : (exec Vfs.step (fun v op => op.allowed v)
          [.createFile ['/', 'a'] [] (some 2), .setData 2 0x1004 8, .createFile ['b'] [] (some 3), .write 3 [9] (some 0x2000)]
          start).any (fun v => (vfsWrite v (some 2) (some [1, 2, 3]) (some 0x3000)).toOption.any fun result =>
            result.1 == 3) = true := by
        cases booted
        decide +kernel
      obtain ⟨v, run, shown⟩ := Run.exists_of_check checked
      cases called : vfsWrite v (some 2) (some [1, 2, 3]) (some 0x3000) with
      | error halt =>
          rw [called] at shown
          cases shown
      | ok result =>
          rw [called] at shown
          have code : result.1 = 3 := beq_iff_eq.mp shown
          have isResult : (Except.ok result : Result (Int × Vfs)) = .ok (3, result.2) := by rw [← code]
          rw [isResult] at called
          obtain ⟨here, other⟩ := (file_contents_owned booted run).2.2.2.2.2.2.2.2 2 [1, 2, 3] (some 0x3000) result.2
            (List.cons_ne_nil _ _) called
          exact ⟨start, v, result.2, rfl, run, called, here 2, other 3 (by decide) 5⟩

end

end DoccrOS.Fs
