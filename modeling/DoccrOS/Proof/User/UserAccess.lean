import DoccrOS.Construction.User.UserAccess
import DoccrOS.Proof.Fs.FileRuns

namespace DoccrOS.User
open Lib Proc Fs

/-- The first address behind the user half. -/
def userEnd : Nat := 2 ^ 47

/-- The call accesses only user addresses, and if its buffer leaves the user half and it accesses an address there, then it returns
-1 without an access. -/
structure AccessesUser {A : Type} (call : Accesses (Nat × A)) (address len : Nat) : Prop where
  only : call.Only UserAddress
  refused : ¬(1 ≤ address ∧ address + len ≤ userEnd) → (∃ touched ∈ call.log, ¬UserAddress touched) →
    call.log = [] ∧ ∃ rest, call.result = .ok (minusOne, rest)

/-- The current process has a used descriptor that refers to a node. -/
def FdNode (s : FsState) (p : Option Nat) (fd : Nat) (descriptor : FileDescriptor) (ptr : NodePtr) (node : VfsNode) : Prop :=
  (∃ q, usedFd s p fd = .ok (some (q, descriptor))) ∧ descriptor.node = some ptr ∧ s.vfs.nodes ptr = some node

section
variable {A : Type} {s : FsState} {p : Option Nat} {fd address len count : Nat} {inputs : Inputs} {call : Accesses (Nat × A)}

theorem userAddress_iff {a : Nat} : UserAddress a ↔ 1 ≤ a ∧ a < userEnd := by
  unfold UserAddress userTop userEnd
  omega

/-- The call accesses only user addresses exactly when it meets both parts. -/
theorem accessesUser_iff : AccessesUser call address len ↔ call.Only UserAddress := by
  refine ⟨AccessesUser.only, fun only => ⟨only, fun _ ⟨touched, inside, outside⟩ => ?_⟩⟩
  exact absurd (only touched inside) outside

theorem userPtrOk_iff : userPtrOk address = true ↔ 1 ≤ address ∧ address < userEnd := by
  unfold userPtrOk userTop userEnd
  rw [Bool.and_eq_true, decide_eq_true_eq, decide_eq_true_eq]
  omega

/-- Bytes from an address on are user addresses exactly when they end in the user half. -/
theorem byteRange_only {value : A} (least : 1 ≤ address) (below : address < 2 ^ 63) (some : 0 < count) :
    (Logged.access (byteRange address count) value : Accesses A).Only UserAddress ↔ address + count ≤ userEnd := by
  rw [Logged.only_access]
  constructor
  · intro all
    by_contra beyond
    -- The first address behind the user half, or the first address at all, is accessed.
    have inside : max address userEnd - address < count := by
      unfold userEnd at *
      omega
    have touched := all _ (List.mem_map.mpr ⟨_, List.mem_range.mpr inside, rfl⟩)
    rw [userAddress_iff] at touched
    unfold wrap64 userEnd at touched
    omega
  · intro fits a member
    obtain ⟨i, inside, rfl⟩ := List.mem_map.mp member
    have small := List.mem_range.mp inside
    rw [userAddress_iff]
    unfold wrap64 userEnd at *
    omega

/-- No byte is accessed, or some. -/
theorem byteRange_fits {value : A} (least : 1 ≤ address) (below : address < userEnd) :
    (Logged.access (byteRange address count) value : Accesses A).Only UserAddress ↔ address + count ≤ userEnd := by
  cases count with
  | zero => exact iff_of_true (fun _ inside => absurd inside List.not_mem_nil) (Nat.le_of_lt below)
  | succ count => exact byteRange_only least (by unfold userEnd at below; omega) (Nat.succ_pos count)

/-- A call that refuses a bad pointer accesses what it accesses for a good one. -/
theorem userPtr_only {refused : A} {rest : Accesses A} {fits : Prop}
    (inner : 1 ≤ address → address < userEnd → (rest.Only UserAddress ↔ fits)) :
    (if !userPtrOk address then pure refused else rest).Only UserAddress ↔ (userPtrOk address = true → fits) := by
  cases valid : userPtrOk address with
  | false => exact iff_of_true Logged.only_pure nofun
  | true =>
      obtain ⟨least, below⟩ := userPtrOk_iff.mp valid
      simp only [Bool.not_true, Bool.false_eq_true, if_false, true_implies]
      exact inner least below

/-- A call on a descriptor accesses only what its part for the node accesses. -/
theorem onFdNode_only {refused : A} {rest : Nat → FileDescriptor → NodePtr → VfsNode → Accesses A} :
    (onFdNode s p fd refused rest).Only UserAddress ↔ ∀ q descriptor ptr node, usedFd s p fd = .ok (some (q, descriptor)) →
      descriptor.node = some ptr → s.vfs.nodes ptr = some node → (rest q descriptor ptr node).Only UserAddress := by
  unfold onFdNode
  rw [Logged.only_bind, and_iff_right Logged.only_lift, Logged.result_lift]
  constructor
  · intro all q descriptor ptr node found isNode live
    have inner := all _ found
    simp only [isNode] at inner
    exact (Logged.only_bind.mp inner).2 node (node_some.mpr live)
  · intro all found returned
    cases found with
    | none => exact Logged.only_pure
    | some pair =>
        obtain ⟨q, descriptor⟩ := pair
        cases isNode : descriptor.node with
        | none =>
            simp only [isNode]
            exact Logged.only_pure
        | some ptr =>
            simp only [isNode]
            refine Logged.only_bind.mpr ⟨Logged.only_lift, fun node live => ?_⟩
            exact all q descriptor ptr node returned isNode (node_some.mp live)

/-- The result of a call on a descriptor. -/
theorem onFdNode_value (s : FsState) (p : Option Nat) (fd : Nat) (refused : A)
    (rest : Nat → FileDescriptor → NodePtr → VfsNode → Accesses A) : (onFdNode s p fd refused rest).result =
      usedFd s p fd >>= fun found =>
        match found with
        | none => .ok refused
        | some (p, descriptor) =>
          match descriptor.node with
          | none => .ok refused
          | some ptr => s.vfs.node ptr >>= fun node => (rest p descriptor ptr node).result := by
  unfold onFdNode
  rw [Logged.result_bind, Logged.result_lift]
  congr 1
  funext found
  cases found with
  | none => rfl
  | some pair =>
      obtain ⟨q, descriptor⟩ := pair
      cases isNode : descriptor.node <;> simp only [isNode]
      · rfl
      · rw [Logged.result_bind, Logged.result_lift]

theorem eventBytes_succ {size pending written : Nat} (fits : written + sizeofInputEvent ≤ size) :
    sizeofInputEvent + eventBytes pending (size - (written + sizeofInputEvent)) = eventBytes (pending + 1) (size - written) := by
  have one : (size - written) / sizeofInputEvent = (size - (written + sizeofInputEvent)) / sizeofInputEvent + 1 := by
    rw [← Nat.add_div_right _ (by decide)]
    congr 1
    omega
  rw [eventBytes, eventBytes, one, Nat.add_min_add_right, Nat.mul_succ, Nat.add_comm]

theorem eventBytes_full {size pending written : Nat} (full : ¬written + sizeofInputEvent ≤ size) :
    eventBytes pending (size - written) = 0 := by
  have none : (size - written) / sizeofInputEvent = 0 := by
    apply Nat.div_eq_of_lt
    unfold sizeofInputEvent at full ⊢
    omega
  rw [eventBytes, none, Nat.min_zero, Nat.mul_zero]

/-- The loop over the events gives the number of bytes that fit. -/
theorem readEvents_value (address size pending written : Nat) : (readEvents address size pending written).result =
    .ok (written + eventBytes pending (size - written)) := by
  induction pending generalizing written with
  | zero =>
      rw [readEvents, eventBytes, Nat.zero_min]
      rfl
  | succ pending ih =>
      rw [readEvents, Logged.result_ite]
      by_cases fits : written + sizeofInputEvent ≤ size
      · rw [if_pos fits, Logged.result_bind, Logged.result_access, Result.ok_bind, ih, ← eventBytes_succ fits]
        rw [Nat.add_assoc]
      · rw [if_neg fits, eventBytes_full fits]
        rfl

/-- The loop over the events stores the bytes that it counts. -/
theorem readEvents_only {size pending written : Nat} (least : 1 ≤ address) (below : address + written < 2 ^ 63) :
    (readEvents address size pending written).Only UserAddress ↔
      eventBytes pending (size - written) = 0 ∨ address + written + eventBytes pending (size - written) ≤ userEnd := by
  induction pending generalizing written with
  | zero => exact iff_of_true Logged.only_pure (Or.inl (by rw [eventBytes, Nat.zero_min, Nat.mul_zero]))
  | succ pending ih =>
      rw [readEvents, Logged.only_ite]
      by_cases fits : written + sizeofInputEvent ≤ size
      · have positive : 0 < sizeofInputEvent := by decide
        rw [and_iff_left fun full => absurd fits full, ← eventBytes_succ fits, Logged.only_bind_value Logged.result_access,
          byteRange_only (by omega) below positive]
        by_cases here : address + written + sizeofInputEvent ≤ userEnd
        · rw [ih (by unfold userEnd at here; omega)]
          omega
        · omega
      · rw [eventBytes_full fits]
        exact iff_of_true ⟨fun full => absurd full fits, fun _ => Logged.only_pure⟩ (Or.inl rfl)

/-- The number of bytes from the buffer on that `sys_read` accesses for a node. -/
def readExtent (inputs : Inputs) (descriptor : FileDescriptor) (node : VfsNode) (len : Nat) : Nat :=
  match node.type with
  | .device =>
    match node.device.bind fun device => inputs.pending (inputs.module device) with
    | none => 0
    | some pending => eventBytes pending len
  | .directory => 0
  | .file => if node.data.isSome then min len (node.size - descriptor.offset) else 0

/-- The bytes that `sys_read` accesses are in the user half. -/
structure ReadFits (inputs : Inputs) (s : FsState) (p : Option Nat) (fd address len : Nat) : Prop where
  keyboard : fd = 0 → address + eventBytes inputs.kbd len ≤ userEnd
  node : fd ≠ 0 → ∀ descriptor ptr node, FdNode s p fd descriptor ptr node →
    address + readExtent inputs descriptor node len ≤ userEnd

/-- A read of events from the first on. -/
theorem readEvents_start {size pending : Nat} {finish : Nat → A} (least : 1 ≤ address) (below : address < userEnd) :
    (readEvents address size pending 0 >>= fun written => pure (finish written)).Only UserAddress ↔
      address + eventBytes pending size ≤ userEnd := by
  rw [Logged.only_bind, and_iff_left fun _ _ => Logged.only_pure,
    readEvents_only least (by unfold userEnd at below; omega), Nat.add_zero, Nat.sub_zero]
  omega

theorem readNode_only {q : Nat} {descriptor : FileDescriptor} {node : VfsNode} (least : 1 ≤ address) (below : address < userEnd) :
    (readNode inputs s q fd address len descriptor node).Only UserAddress ↔
      address + readExtent inputs descriptor node len ≤ userEnd := by
  unfold readNode readExtent
  cases node.type with
  | device =>
      cases node.device.bind fun device => inputs.pending (inputs.module device) with
      | none => exact iff_of_true Logged.only_pure (Nat.le_of_lt below)
      | some pending => exact readEvents_start least below
  | directory => exact iff_of_true Logged.only_pure (Nat.le_of_lt below)
  | file =>
      by_cases ended : descriptor.offset ≥ node.size
      · have none : node.size - descriptor.offset = 0 := Nat.sub_eq_zero_of_le ended
        simp only [if_pos ended, none, Nat.min_zero, ite_self]
        exact iff_of_true Logged.only_pure (Nat.le_of_lt below)
      · simp only [if_neg ended]
        cases node.data with
        | none =>
            refine iff_of_true (Logged.only_ite.mpr ⟨fun _ => Logged.only_pure, fun _ => Logged.only_lift⟩) ?_
            exact Nat.le_of_lt below
        | some data =>
            simp only [Option.isSome_some, if_true]
            rw [Logged.only_bind, and_iff_left fun _ _ => Logged.only_pure]
            exact byteRange_fits least below

/-- The function `sys_read` accesses only user addresses exactly when the bytes that it accesses end in the user half. -/
theorem sysRead_only : (sysReadAccesses inputs s p fd address len).Only UserAddress ↔
    (userPtrOk address = true → ReadFits inputs s p fd address len) := by
  unfold sysReadAccesses
  apply userPtr_only
  intro least below
  by_cases keyboard : fd = 0
  · rw [if_pos keyboard, readEvents_start least below]
    exact ⟨fun fits => ⟨fun _ => fits, fun other => absurd keyboard other⟩, fun fits => fits.keyboard keyboard⟩
  · rw [if_neg keyboard, onFdNode_only]
    constructor
    · intro all
      refine ⟨fun same => absurd same keyboard, fun _ descriptor ptr node ⟨⟨q, found⟩, isNode, live⟩ => ?_⟩
      exact (readNode_only least below).mp (all q descriptor ptr node found isNode live)
    · intro fits q descriptor ptr node found isNode live
      exact (readNode_only least below).mpr (fits.node keyboard descriptor ptr node ⟨⟨q, found⟩, isNode, live⟩)

/-- The part of `vfs_write` before its copy gives the file a buffer. -/
def GetsBuffer (v : Vfs) (ptr : NodePtr) (node : VfsNode) (len : Nat) (kmalloc : Option Nat) : Prop :=
  ∃ grown v', growBuffer (v.setNode ptr node.unlent) node.unlent len kmalloc = .ok (some grown, v')

/-- The bytes that `sys_write` accesses are in the user half. -/
structure WriteFits (s : FsState) (p : Option Nat) (fd address len : Nat) (kmalloc : Option Nat) : Prop where
  console : fd = 1 ∨ fd = 2 → address + len ≤ userEnd
  node : ¬(fd = 1 ∨ fd = 2) → ∀ descriptor ptr node, FdNode s p fd descriptor ptr node → node.type = .file →
    len ≤ vfsMaxFileSize → GetsBuffer s.vfs ptr node len kmalloc → address + len ≤ userEnd

theorem vfsWriteAccesses_value (v : Vfs) (ptr : NodePtr) (address : Nat) (buf : List (BitVec 8)) (kmalloc : Option Nat) :
    (vfsWriteAccesses v ptr address buf kmalloc).result = vfsWrite v (some ptr) (some buf) kmalloc := by
  unfold vfsWriteAccesses vfsWrite
  simp only [Logged.result_bind, Logged.result_ite, Logged.result_lift, Logged.result_pure]
  congr 1
  funext node
  congr 2
  congr 1
  funext pair
  obtain ⟨grown, v'⟩ := pair
  cases grown with
  | none => rfl
  | some full =>
      cases isData : full.data <;> simp only [isData]
      · rfl
      · rw [Logged.result_bind, Logged.result_access]
        rfl

/-- The function `vfs_write` loads its bytes exactly when it gets to its copy. -/
theorem vfsWriteAccesses_only {v : Vfs} {ptr : NodePtr} {node : VfsNode} {buf : List (BitVec 8)} {kmalloc : Option Nat}
    (live : v.nodes ptr = some node) (isFile : node.type = .file) (least : 1 ≤ address) (below : address < userEnd) :
    (vfsWriteAccesses v ptr address buf kmalloc).Only UserAddress ↔
      (buf.length ≤ vfsMaxFileSize → GetsBuffer v ptr node buf.length kmalloc → address + buf.length ≤ userEnd) := by
  unfold vfsWriteAccesses
  rw [Logged.only_bind_value ((Logged.result_lift).trans (node_some.mpr live)), and_iff_right Logged.only_lift,
    if_neg (not_not.mpr isFile)]
  by_cases large : buf.length > vfsMaxFileSize
  · rw [if_pos large]
    exact iff_of_true Logged.only_pure fun small => absurd small (Nat.not_le.mpr large)
  · rw [if_neg large]
    change (Logged.lift (growBuffer (v.setNode ptr node.unlent) node.unlent buf.length kmalloc) >>= _).Only _ ↔ _
    rw [Logged.only_bind, and_iff_right Logged.only_lift, Logged.result_lift]
    constructor
    · rintro all _ ⟨grown, v', returned⟩
      have only := all _ returned
      obtain ⟨data, isData⟩ := Option.ne_none_iff_exists'.mp ((growBuffer_room returned).2 grown rfl).2
      simp only [isData] at only
      rw [Logged.only_bind, and_iff_left fun _ _ => Logged.only_pure, byteRange_fits least below] at only
      exact only
    · rintro fits ⟨grown, v'⟩ returned
      cases grown with
      | none => exact Logged.only_pure
      | some grown =>
          cases isData : grown.data with
          | none =>
              simp only [isData]
              exact Logged.only_lift
          | some data =>
              simp only [isData]
              rw [Logged.only_bind, and_iff_left fun _ _ => Logged.only_pure, byteRange_fits least below]
              exact fits (Nat.le_of_not_lt large) ⟨grown, v', returned⟩

/-- The function `sys_write` accesses only user addresses exactly when the bytes that it accesses end in the user half. -/
theorem sysWrite_only {buf : List (BitVec 8)} {kmalloc : Option Nat} :
    (sysWriteAccesses s p fd address buf kmalloc).Only UserAddress ↔
      (userPtrOk address = true → WriteFits s p fd address buf.length kmalloc) := by
  unfold sysWriteAccesses
  apply userPtr_only
  intro least below
  by_cases console : fd = 1 ∨ fd = 2
  · rw [if_pos console, Logged.only_bind, and_iff_left fun _ _ => Logged.only_pure, byteRange_fits least below]
    exact ⟨fun fits => ⟨fun _ => fits, fun other => absurd console other⟩, fun fits => fits.console console⟩
  · rw [if_neg console, onFdNode_only]
    constructor
    · intro all
      refine ⟨fun same => absurd same console, fun _ descriptor ptr node ⟨⟨q, found⟩, isNode, live⟩ isFile => ?_⟩
      have inner := all q descriptor ptr node found isNode live
      rw [writeNode, isFile] at inner
      exact (vfsWriteAccesses_only live isFile least below).mp (Logged.only_bind.mp inner).1
    · intro fits q descriptor ptr node found isNode live
      have inner := fits.node console descriptor ptr node ⟨⟨q, found⟩, isNode, live⟩
      unfold writeNode
      cases isType : node.type with
      | device => exact Logged.only_pure
      | directory => exact Logged.only_pure
      | file => exact ((vfsWriteAccesses_only live isType least below).mpr (inner isType)).bind fun _ => Logged.only_pure

/-- The end of the last byte that the loop of `sys_getdents` stores, relative to the buffer, or 0. -/
def getdentsExtent (v : Vfs) (dir : VfsNode) (bufSize : Nat) : (left i written : Nat) → Nat
  | 0, _, _ => 0
  | left + 1, i, written =>
    match dir.children i with
    | none => getdentsExtent v dir bufSize left (i + 1) written
    | some child =>
      match v.nodes child with
      | none => 0
      | some node =>
        if written + sizeofDirent > bufSize then 0
        else max (written + direntStores node) (getdentsExtent v dir bufSize left (i + 1) (written + sizeofDirent))

/-- The bytes that `sys_getdents` stores are in the user half. -/
def GetdentsFits (s : FsState) (p : Option Nat) (fd address bufSize : Nat) : Prop :=
  ∀ descriptor ptr dir, FdNode s p fd descriptor ptr dir → dir.type = .directory → 0 ≤ castInt descriptor.offset →
    address + getdentsExtent s.vfs dir bufSize (dir.childCount - (castInt descriptor.offset).toNat)
      (castInt descriptor.offset).toNat 0 ≤ userEnd

theorem getdentsFromAccesses_value (v : Vfs) (dir : VfsNode) (address bufSize left i written offset : Nat) :
    (getdentsFromAccesses v dir address bufSize left i written offset).result =
      getdentsFrom v dir bufSize left i written offset := by
  induction left generalizing i written offset with
  | zero => rfl
  | succ left ih =>
      unfold getdentsFromAccesses getdentsFrom
      cases dir.children i with
      | none => exact ih _ _ _
      | some child =>
          simp only [Logged.result_bind, Logged.result_ite, Logged.result_lift, Logged.result_access, Result.ok_bind, ih]
          rfl

/-- The loop of `sys_getdents` stores only to user addresses exactly when its last byte is in the user half. -/
theorem getdentsFromAccesses_only {v : Vfs} {dir : VfsNode} {bufSize left i written offset : Nat} (least : 1 ≤ address)
    (below : address < userEnd) (reached : address + written < 2 ^ 63) :
    (getdentsFromAccesses v dir address bufSize left i written offset).Only UserAddress ↔
      address + getdentsExtent v dir bufSize left i written ≤ userEnd := by
  induction left generalizing i written offset with
  | zero => exact iff_of_true Logged.only_pure (Nat.le_of_lt below)
  | succ left ih =>
      unfold getdentsFromAccesses getdentsExtent
      cases dir.children i with
      | none => exact ih reached
      | some child =>
          cases live : v.nodes child with
          | none =>
              simp only [live]
              refine iff_of_true (Logged.only_bind.mpr ⟨Logged.only_lift, fun node returned => ?_⟩) (Nat.le_of_lt below)
              rw [Logged.result_lift, node_some, live] at returned
              cases returned
          | some node =>
              simp only [live]
              rw [Logged.only_bind_value (Logged.result_lift.trans (node_some.mpr live)), and_iff_right Logged.only_lift]
              by_cases full : written + sizeofDirent > bufSize
              · rw [if_pos full, if_pos full]
                exact iff_of_true Logged.only_pure (Nat.le_of_lt below)
              · have positive : 0 < direntStores node := by
                  unfold direntStores
                  omega
                rw [if_neg full, if_neg full, Logged.only_bind_value Logged.result_access,
                  byteRange_only (by omega) reached positive, Logged.only_bind, and_iff_left fun _ _ => Logged.only_pure]
                by_cases here : address + written + direntStores node ≤ userEnd
                · have next : address + (written + sizeofDirent) < 2 ^ 63 := by
                    unfold userEnd sizeofDirent at *
                    omega
                  rw [ih next]
                  omega
                · omega

/-- The function `sys_getdents` stores only to user addresses exactly when the bytes that it stores end in the user half. -/
theorem sysGetdents_only {bufSize : Nat} : (sysGetdentsAccesses s p fd address bufSize).Only UserAddress ↔
    (userPtrOk address = true → GetdentsFits s p fd address bufSize) := by
  unfold sysGetdentsAccesses
  apply userPtr_only
  intro least below
  have reached : address + 0 < 2 ^ 63 := by
    unfold userEnd at below
    omega
  rw [onFdNode_only]
  constructor
  · rintro all descriptor ptr dir ⟨⟨q, found⟩, isNode, live⟩ isDirectory natural
    have inner := all q descriptor ptr dir found isNode live
    unfold getdentsNode at inner
    rw [if_neg (not_not.mpr isDirectory), if_neg (Int.not_lt.mpr natural)] at inner
    exact (getdentsFromAccesses_only least below reached).mp (Logged.only_bind.mp inner).1
  · intro fits q descriptor ptr dir found isNode live
    have inner := fits descriptor ptr dir ⟨⟨q, found⟩, isNode, live⟩
    unfold getdentsNode
    refine Logged.only_ite.mpr ⟨fun _ => Logged.only_pure, fun isDirectory => ?_⟩
    refine Logged.only_ite.mpr ⟨fun _ => Logged.only_lift, fun natural => ?_⟩
    have ends := inner (not_not.mp isDirectory) (Int.not_lt.mp natural)
    exact ((getdentsFromAccesses_only least below reached).mpr ends).bind fun _ => Logged.only_pure

/-- The call with its accesses is the call. -/
theorem sysReadAccesses_value (inputs : Inputs) (fb0Open : List Char → Option Nat) (s : FsState) (p : Option Nat)
    (fd address len : Nat) :
    (sysReadAccesses inputs s p fd address len).result = sysRead (inputs.drivers fb0Open) s p fd address len := by
  unfold sysReadAccesses sysRead
  rw [Logged.result_ite, Logged.result_ite, onFdNode_value, Logged.result_bind, readEvents_value, Nat.zero_add, Nat.sub_zero]
  congr 3
  funext found
  cases found with
  | none => rfl
  | some pair =>
      obtain ⟨q, descriptor⟩ := pair
      cases isNode : descriptor.node with
      | none => simp only [isNode]; rfl
      | some ptr =>
          simp only [isNode]
          congr 1
          funext node
          unfold readNode
          cases node.type with
          | device =>
              cases isDevice : node.device with
              | none => rfl
              | some device =>
                  cases pending : inputs.pending (inputs.module device) with
                  | none => simp only [Option.bind_some, pending, Inputs.drivers, Option.map_none]; rfl
                  | some count =>
                      simp only [Option.bind_some, pending, Inputs.drivers, Option.map_some, Logged.result_bind,
                        readEvents_value, Nat.zero_add, Nat.sub_zero]
                      rfl
          | directory => rfl
          | file =>
              simp only [Logged.result_ite, isNode]
              cases node.data with
              | none =>
                  simp only [Logged.result_ite]
                  rfl
              | some data => rfl

theorem sysWriteAccesses_value (inputs : Inputs) (fb0Open : List Char → Option Nat) (s : FsState) (p : Option Nat)
    (fd address : Nat) (buf : List (BitVec 8)) (kmalloc : Option Nat) :
    (sysWriteAccesses s p fd address buf kmalloc).result = sysWrite (inputs.drivers fb0Open) s p fd address buf kmalloc := by
  unfold sysWriteAccesses sysWrite
  rw [Logged.result_ite, Logged.result_ite, onFdNode_value]
  congr 3
  funext found
  cases found with
  | none => rfl
  | some pair =>
      obtain ⟨q, descriptor⟩ := pair
      cases isNode : descriptor.node with
      | none => simp only [isNode]; rfl
      | some ptr =>
          simp only [isNode]
          congr 1
          funext node
          unfold writeNode
          cases node.type with
          | device => cases node.device <;> rfl
          | directory => rfl
          | file =>
              simp only [Logged.result_bind, vfsWriteAccesses_value]
              rfl

theorem sysGetdentsAccesses_value (s : FsState) (p : Option Nat) (fd address bufSize : Nat) :
    (sysGetdentsAccesses s p fd address bufSize).result = sysGetdents s p fd address bufSize := by
  unfold sysGetdentsAccesses sysGetdents
  rw [Logged.result_ite, onFdNode_value]
  congr 2
  funext found
  cases found with
  | none => rfl
  | some pair =>
      obtain ⟨q, descriptor⟩ := pair
      cases isNode : descriptor.node with
      | none => simp only [isNode]; rfl
      | some ptr =>
          simp only [isNode]
          congr 1
          funext dir
          simp only [getdentsNode, Logged.result_ite, Logged.result_bind, getdentsFromAccesses_value, isNode]
          rfl

/-- The calls with their accesses are the calls. Each accesses only user addresses exactly when its address is refused or the
bytes that its back end accesses end in the user half. A call with a refused address accesses nothing. -/
theorem calls_access_user (inputs : Inputs) (fb0Open : List Char → Option Nat) (s : FsState) (p : Option Nat)
    (fd address len : Nat) (buf : List (BitVec 8)) (kmalloc : Option Nat) :
    ((sysReadAccesses inputs s p fd address len).result = sysRead (inputs.drivers fb0Open) s p fd address len ∧
      (AccessesUser (sysReadAccesses inputs s p fd address len) address len ↔
        (userPtrOk address = true → ReadFits inputs s p fd address len))) ∧
    ((sysWriteAccesses s p fd address buf kmalloc).result = sysWrite (inputs.drivers fb0Open) s p fd address buf kmalloc ∧
      (AccessesUser (sysWriteAccesses s p fd address buf kmalloc) address buf.length ↔
        (userPtrOk address = true → WriteFits s p fd address buf.length kmalloc))) ∧
    (sysGetdentsAccesses s p fd address len).result = sysGetdents s p fd address len ∧
      (AccessesUser (sysGetdentsAccesses s p fd address len) address len ↔
        (userPtrOk address = true → GetdentsFits s p fd address len)) := by
  refine ⟨⟨?_, ?_⟩, ⟨?_, ?_⟩, ?_, ?_⟩
  · exact sysReadAccesses_value inputs fb0Open s p fd address len
  · rw [accessesUser_iff]
    exact sysRead_only
  · exact sysWriteAccesses_value inputs fb0Open s p fd address buf kmalloc
  · rw [accessesUser_iff]
    exact sysWrite_only
  · exact sysGetdentsAccesses_value s p fd address len
  · rw [accessesUser_iff]
    exact sysGetdents_only

end

/-- A write of two bytes to the console from the last user address loads a byte behind the user half. -/
theorem calls_access_beyond : ¬∀ (s : FsState) (p : Option Nat) (fd address : Nat) (buf : List (BitVec 8)) (kmalloc : Option Nat),
    address < 2 ^ 64 → buf.length < 2 ^ 64 → AccessesUser (sysWriteAccesses s p fd address buf kmalloc) address buf.length := by
  intro claim
  have only := (claim ⟨Vfs.boot (fun _ => 0) ⟨0x1000, 16⟩, []⟩ none 1 0x7FFFFFFFFFFF [0, 0] none (by decide) (by decide)).only
  have touched : 0x800000000000 ∈ (sysWriteAccesses ⟨Vfs.boot (fun _ => 0) ⟨0x1000, 16⟩, []⟩ none 1 0x7FFFFFFFFFFF [0, 0]
      none).log := by
    decide +kernel
  exact absurd (only _ touched) (by decide)

end DoccrOS.User
