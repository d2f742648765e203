import DoccrOS.Proof.Fs.FileFields
import DoccrOS.Proof.User.Descriptors

namespace DoccrOS.User
open Lib Fs Proc

/-- The file holds the contents. -/
structure FileHas (v : Vfs) (node : VfsNode) (content : List (BitVec 8)) : Prop where
  isFile : node.type = .file
  size : node.size = content.length
  data : content ≠ [] → ∃ data, node.data = some data ∧ copyOut v.bytes data content.length = content

/-- A used descriptor of the process refers to a node and has an offset. -/
structure OpenAt (s : FsState) (p fd : Nat) (ptr : NodePtr) (offset : Nat) : Prop where
  low : 3 ≤ fd
  high : fd < fdMax
  entry : ∃ table, s.tables[p]? = some table ∧ (table fd).used = true ∧ (table fd).node = some ptr ∧
    (table fd).offset = offset

/-- A descriptor of the process with an offset in a file with contents. -/
def FileView (s : FsState) (p fd offset : Nat) (content : List (BitVec 8)) : Prop :=
  ∃ ptr node, OpenAt s p fd ptr offset ∧ s.vfs.nodes ptr = some node ∧ FileHas s.vfs node content

/-- A call of `sys_read`: the length it asks for and the bytes it delivers. -/
structure ReadEvent where
  len : Nat
  bytes : List (BitVec 8)

/-- A sequence of reads through a descriptor. Between two reads anything may happen that leaves the file and the descriptor alone. -/
inductive Reads (drivers : Drivers) (p fd : Nat) : FsState → List ReadEvent → FsState → Prop
  | done (s : FsState) : Reads drivers p fd s [] s
  | read {s s₁ s' : FsState} {address len rax : Nat} {bytes : List (BitVec 8)} {events : List ReadEvent}
    (valid : userPtrOk address = true) (returned : sysRead drivers s (some p) fd address len = .ok (rax, bytes, s₁))
    (rest : Reads drivers p fd s₁ events s') : Reads drivers p fd s (⟨len, bytes⟩ :: events) s'
  | other {s s₁ s' : FsState} {events : List ReadEvent}
    (same : ∀ offset content, FileView s p fd offset content → FileView s₁ p fd offset content)
    (rest : Reads drivers p fd s₁ events s') : Reads drivers p fd s events s'

section
variable {s s' : FsState} {p fd offset rax address len : Nat} {ptr : NodePtr} {node : VfsNode} {content bytes : List (BitVec 8)}
  {descriptor : FileDescriptor} {drivers : Drivers}

/-- The guard of the system calls finds a used descriptor. -/
theorem OpenAt.guard (opened : OpenAt s p fd ptr offset) :
    ∃ handle, usedFd s (some p) fd = .ok (some (p, ⟨some ptr, offset, true, handle⟩)) := by
  obtain ⟨low, high, table, isTable, used, isNode, isOffset⟩ := opened
  refine ⟨(table fd).deviceHandle, ?_⟩
  have inside : ¬(fd < 3 ∨ fd ≥ fdMax) := by omega
  have entry : table fd = ⟨some ptr, offset, true, (table fd).deviceHandle⟩ := by
    rw [← isNode, ← isOffset, ← used]
  simp only [usedFd, if_neg inside, FsState.table, isTable, Result.ok_bind, used, if_true]
  rw [entry]
  rfl

/-- The descriptor after a store to it. -/
theorem OpenAt.setFd {handle : Option Nat} (opened : OpenAt s p fd ptr offset) (offset' : Nat) :
    OpenAt (s.setFd p fd ⟨some ptr, offset', true, handle⟩) p fd ptr offset' := by
  obtain ⟨low, high, table, isTable, _⟩ := opened
  refine ⟨low, high, Function.update table fd ⟨some ptr, offset', true, handle⟩, ?_, ?_⟩
  · rw [FsState.setFd, List.getElem?_modify_eq, isTable]
    rfl
  · rw [Function.update_self]
    exact ⟨rfl, rfl, rfl⟩

/-- Every file whose fields agree has contents. -/
theorem fileHas (v : Vfs) (isFile : node.type = .file) (agree : FieldsAgree node) :
    ∃ content, FileHas v node content := by
  cases isData : node.data with
  | none =>
      refine ⟨[], isFile, ?_, fun some => absurd rfl some⟩
      by_contra several
      exact agree.data (Nat.pos_of_ne_zero several) isData
  | some data =>
      have length : (copyOut v.bytes data node.size).length = node.size := by
        rw [copyOut, List.length_map, List.length_range]
      refine ⟨copyOut v.bytes data node.size, isFile, length.symm, fun _ => ⟨data, isData, ?_⟩⟩
      rw [length]

/-- The bytes that a copy takes from the middle of the contents. -/
theorem copyOut_middle {memory : Bytes} {data : Nat} (holds : copyOut memory data content.length = content)
    (inside : offset + len ≤ content.length) : copyOut memory (data + offset) len = (content.drop offset).take len := by
  apply List.ext_getElem
  · rw [copyOut, List.length_map, List.length_range, List.length_take, List.length_drop]
    omega
  · intro i small _
    rw [copyOut, List.length_map, List.length_range] at small
    have at_ : content[offset + i]? = some (memory (data + (offset + i))) := by
      conv_lhs => rw [← holds]
      rw [copyOut, List.getElem?_map, List.getElem?_range (by omega)]
      rfl
    rw [List.getElem_take, List.getElem_drop]
    have := List.getElem?_eq_some_iff.mp at_
    obtain ⟨_, value⟩ := this
    rw [value]
    simp [copyOut, Nat.add_assoc]

/-- `sys_read` delivers the next bytes of the file and moves the offset behind them. -/
theorem FileView.read (view : FileView s p fd offset content) (valid : userPtrOk address = true) :
    ∃ s', sysRead drivers s (some p) fd address len =
        .ok (((content.drop offset).take len).length, (content.drop offset).take len, s') ∧
      FileView s' p fd (offset + ((content.drop offset).take len).length) content ∧ s'.vfs = s.vfs := by
  obtain ⟨ptr, node, opened, live, has⟩ := view
  obtain ⟨handle, guard⟩ := opened.guard
  have notKeyboard : fd ≠ 0 := by
    have low := opened.low
    omega
  simp only [sysRead, valid, Bool.not_true, Bool.false_eq_true, if_false, notKeyboard, guard, Result.ok_bind,
    node_some.mpr live, has.isFile]
  by_cases beyond : offset ≥ node.size
  · have none : content.drop offset = [] := List.drop_eq_nil_of_le (has.size ▸ beyond)
    rw [if_pos beyond, none, List.take_nil]
    exact ⟨s, rfl, ⟨ptr, node, opened, live, has⟩, rfl⟩
  · rw [if_neg beyond]
    have several : content ≠ [] := by
      rintro rfl
      exact beyond (by rw [has.size]; exact Nat.zero_le _)
    obtain ⟨data, isData, holds⟩ := has.data several
    have room : offset ≤ content.length := by
      rw [has.size] at beyond
      omega
    have taken : copyOut s.vfs.bytes (data + offset) (min len (node.size - offset)) = (content.drop offset).take len := by
      rw [copyOut_middle holds (by rw [has.size]; omega), has.size, ← List.length_drop, ← List.take_take, List.take_length]
    have count : min len (node.size - offset) = ((content.drop offset).take len).length := by
      rw [List.length_take, List.length_drop, has.size]
    simp only [isData]
    refine ⟨s.setFd p fd ⟨some ptr, offset + ((content.drop offset).take len).length, true, handle⟩, ?_,
      ⟨ptr, node, opened.setFd _, live, has⟩, rfl⟩
    rw [taken, count]
    rfl

theorem castI64_eq (n : Nat) :
    castI64 n = if n % 2 ^ 64 < 2 ^ 63 then ((n % 2 ^ 64 : Nat) : Int) else ((n % 2 ^ 64 : Nat) : Int) - 2 ^ 64 := by
  unfold castI64
  rw [BitVec.toInt_eq_toNat_cond, BitVec.toNat_ofNat]
  by_cases low : n % 2 ^ 64 < 2 ^ 63
  · rw [if_pos low, if_pos (by omega)]
  · rw [if_neg low, if_neg (by omega)]
    rfl

theorem castU64_of_nonneg {n : Int} (least : 0 ≤ n) (most : n < 2 ^ 63) : castU64 n = n.toNat := by
  unfold castU64
  rw [BitVec.toNat_ofInt]
  omega

/-- The base of a seek. -/
def seekBase (offset size : Nat) (whence : Int) : Nat := if whence = 0 then 0 else if whence = 1 then offset else size

/-- `sys_lseek` moves to the exact sum when that is an offset, and it fails otherwise. -/
theorem FileView.lseek {rsi : Nat} {whence : Int} (view : FileView s p fd offset content) (small : content.length < 2 ^ 63)
    (below : offset < 2 ^ 63) (known : whence = 0 ∨ whence = 1 ∨ whence = 2) {target : Int}
    (exact_ : target = seekBase offset content.length whence + castI64 rsi) :
    (0 ≤ target → target < 2 ^ 63 → ∃ s', sysLseek s (some p) fd rsi whence = .ok (target.toNat, s') ∧
      FileView s' p fd target.toNat content ∧ s'.vfs = s.vfs) ∧
    (¬(0 ≤ target ∧ target < 2 ^ 63) → sysLseek s (some p) fd rsi whence = .ok (minusOne, s)) := by
  obtain ⟨ptr, node, opened, live, has⟩ := view
  obtain ⟨handle, guard⟩ := opened.guard
  have isBase : (if whence = 0 then some 0 else if whence = 1 then some offset else if whence = 2 then some node.size
      else none) = some (seekBase offset content.length whence) := by
    rcases known with rfl | rfl | rfl
    · rfl
    · rfl
    · exact congrArg some has.size
  have bounded : seekBase offset content.length whence < 2 ^ 63 := by
    unfold seekBase
    split
    · decide
    · split <;> assumption
  simp only [sysLseek, guard, Result.ok_bind, node_some.mpr live, has.isFile, ne_eq, not_true_eq_false, if_false, isBase]
  generalize seekBase offset content.length whence = base at exact_ bounded
  have sum : castI64 (base + rsi) = if target < 2 ^ 63 then target else target - 2 ^ 64 := by
    rw [exact_, castI64_eq, castI64_eq]
    omega
  have low : -2 ^ 63 ≤ target := by
    rw [exact_, castI64_eq]
    omega
  have high : target < 2 ^ 64 := by
    rw [exact_, castI64_eq]
    omega
  rw [sum]
  constructor
  · intro least most
    rw [if_pos most, if_neg (Int.not_lt.mpr least), castU64_of_nonneg least most]
    exact ⟨_, rfl, ⟨ptr, node, opened.setFd _, live, has⟩, rfl⟩
  · intro outside
    rw [if_pos (by split <;> omega)]
    rfl

/-- A descriptor that `sys_open` returns is at the start of the node at the path. -/
theorem sysOpen_openAt {path : List Char} (returned : sysOpen drivers s (some p) address path = .ok (fd, s'))
    (success : fd ≠ minusOne) : ∃ ptr, vfsFind s.vfs path = .ok (some ptr) ∧ OpenAt s' p fd ptr 0 ∧ s'.vfs = s.vfs := by
  unfold sysOpen at returned
  split at returned
  · cases returned
    exact absurd rfl success
  obtain ⟨found, lookup, rest⟩ := Result.bind_ok returned
  cases found with
  | none =>
      cases rest
      exact absurd rfl success
  | some ptr =>
      obtain ⟨table, isTable, rest⟩ := Result.bind_ok rest
      cases free : (List.range fdMax).find? fun fd => 3 ≤ fd && !(table fd).used with
      | none =>
          simp only [free] at rest
          cases rest
          exact absurd rfl success
      | some slot =>
          simp only [free] at rest
          obtain ⟨node, isNode, rest⟩ := Result.bind_ok rest
          cases device : openDevice drivers node path with
          | none =>
              simp only [device] at rest
              cases rest
              exact absurd rfl success
          | some handle =>
              simp only [device] at rest
              cases rest
              have fits := List.mem_range.mp (List.mem_of_find?_eq_some free)
              have low := List.find?_some free
              rw [Bool.and_eq_true, decide_eq_true_eq] at low
              refine ⟨ptr, lookup, ⟨low.1, fits, Function.update table fd ⟨some ptr, 0, true, handle⟩, ?_, ?_⟩, rfl⟩
              · unfold FsState.table at isTable
                rw [FsState.setFd, List.getElem?_modify_eq]
                cases entry : s.tables[p]? with
                | none =>
                    rw [entry] at isTable
                    cases isTable
                | some table' =>
                    rw [entry] at isTable
                    cases isTable
                    rfl
              · rw [Function.update_self]
                exact ⟨rfl, rfl, rfl⟩

/-- A first piece of a list and what follows it. -/
theorem take_piece {A : Type*} (list : List A) (first rest : Nat) :
    list.take (first + rest) = list.take first ++ (list.drop (list.take first).length).take rest := by
  rw [List.take_add, List.length_take]
  congr 2
  rcases Nat.le_total first list.length with short | long
  · rw [Nat.min_eq_left short]
  · rw [Nat.min_eq_right long, List.drop_length, List.drop_eq_nil_of_le long]

/-- A sequence of reads delivers what one read of all their lengths would deliver. -/
theorem Reads.delivers {events : List ReadEvent} (reads : Reads drivers p fd s events s')
    (view : FileView s p fd offset content) :
    events.flatMap ReadEvent.bytes = (content.drop offset).take (events.map ReadEvent.len).sum ∧
      FileView s' p fd (offset + (events.flatMap ReadEvent.bytes).length) content := by
  induction reads generalizing offset with
  | done s => exact ⟨rfl, view⟩
  | read valid returned rest ih =>
      rename_i s s₁ s' address len rax bytes events
      obtain ⟨s₂, same, next, _⟩ := @FileView.read s p fd offset address len content drivers view valid
      rw [returned] at same
      cases same
      obtain ⟨delivered, last⟩ := ih next
      rw [List.flatMap_cons, List.map_cons, List.sum_cons]
      refine ⟨?_, ?_⟩
      · rw [delivered, take_piece, List.drop_drop]
      · rw [List.length_append, ← Nat.add_assoc]
        exact last
  | other same rest ih => exact ih (same offset content view)

/-- Reads in pieces deliver what one read delivers, and seeks are exact. -/
theorem reads_in_pieces (view : FileView s p fd offset content) (small : content.length < 2 ^ 63) (below : offset < 2 ^ 63) :
    (∀ rsi whence target, whence = 0 ∨ whence = 1 ∨ whence = 2 →
      target = seekBase offset content.length whence + castI64 rsi →
      (0 ≤ target → target < 2 ^ 63 → ∃ s', sysLseek s (some p) fd rsi whence = .ok (target.toNat, s') ∧
        FileView s' p fd target.toNat content ∧ s'.vfs = s.vfs) ∧
      (¬(0 ≤ target ∧ target < 2 ^ 63) → sysLseek s (some p) fd rsi whence = .ok (minusOne, s))) ∧
    (∀ drivers address len, userPtrOk address = true → ∃ bytes s',
      sysRead drivers s (some p) fd address len = .ok (bytes.length, bytes, s') ∧
      bytes = (content.drop offset).take len ∧ FileView s' p fd (offset + bytes.length) content ∧
      (bytes.length = 0 ↔ len = 0 ∨ content.length ≤ offset)) ∧
    ∀ drivers events s', Reads drivers p fd s events s' →
      events.flatMap ReadEvent.bytes = (content.drop offset).take (events.map ReadEvent.len).sum := by
  refine ⟨fun rsi whence target known isTarget => view.lseek small below known isTarget, ?_, ?_⟩
  · intro drivers address len valid
    obtain ⟨s', returned, next, _⟩ := @FileView.read s p fd offset address len content drivers view valid
    refine ⟨_, s', returned, rfl, next, ?_⟩
    rw [List.length_take, List.length_drop]
    omega
  · exact fun drivers events s' reads => (reads.delivers view).1

/-- `sys_read` of a process returns when the nodes of its descriptors are live and the fields of the files agree. -/
theorem sysRead_returns (agree : ∀ ptr node, s.vfs.nodes ptr = some node → node.type = .file → FieldsAgree node)
    (inv : FsInv s) (inside : p < s.tables.length) (drivers : Drivers) (fd address len : Nat) :
    ∃ result, sysRead drivers s (some p) fd address len = .ok result := by
  cases valid : userPtrOk address with
  | false => exact ⟨_, by rw [sysRead, valid]; rfl⟩
  | true =>
      by_cases keyboard : fd = 0
      · exact ⟨_, by rw [sysRead, valid, if_neg (by decide), if_pos keyboard]; rfl⟩
      by_cases low : fd < 3 ∨ fd ≥ fdMax
      · exact ⟨_, by rw [sysRead, valid, if_neg (by decide), if_neg keyboard, usedFd, if_pos low]; rfl⟩
      have isTable : s.tables[p]? = some s.tables[p] := List.getElem?_eq_getElem inside
      cases used : (s.tables[p] fd).used with
      | false =>
          refine ⟨(minusOne, [], s), ?_⟩
          simp only [sysRead, valid, usedFd, FsState.table, isTable, keyboard, low, used, Result.ok_bind]
          rfl
      | true =>
          obtain ⟨ptr, node, isNode, live⟩ := inv.live _ (List.getElem_mem inside) fd (by omega) (by omega) used
          have opened : OpenAt s p fd ptr (s.tables[p] fd).offset :=
            ⟨by omega, by omega, s.tables[p], isTable, used, isNode, rfl⟩
          obtain ⟨handle, guard⟩ := opened.guard
          cases type : node.type with
          | file =>
              obtain ⟨content, has⟩ := fileHas s.vfs type (agree ptr node live type)
              have view : FileView s p fd (s.tables[p] fd).offset content := ⟨ptr, node, opened, live, has⟩
              obtain ⟨s', returned, _⟩ := @FileView.read s p fd _ address len content drivers view valid
              exact ⟨_, returned⟩
          | directory =>
              refine ⟨(minusOne, [], s), ?_⟩
              simp only [sysRead, valid, keyboard, guard, Result.ok_bind, node_some.mpr live, type]
              rfl
          | device =>
              simp only [sysRead, valid, keyboard, guard, Result.ok_bind, node_some.mpr live, type, Bool.not_true,
                Bool.false_eq_true, if_false]
              split
              · exact ⟨_, rfl⟩
              · exact ⟨_, rfl⟩

end

section
variable {v start : Vfs} {bytes : Bytes} {archive : Fs.Block} {kmalloc : Option NodePtr} {ops : List VfsOp}

/-- The fields of every file agree, a write that fails changes no node, and `vfs_read` and `sys_read` find the buffer that they
copy from, in every state of a run in which no write to a borrowed file fails in `kmalloc`. -/
theorem file_fields_agree (booted : vfsInit (Vfs.boot bytes archive) kmalloc = .ok start)
    (run : Run Vfs.step (fun v op => (op.real && !op.losesBorrowed v) = true) start ops v) :
    (∀ ptr node, v.nodes ptr = some node → node.type = .file → FieldsAgree node) ∧
    (∀ ptr buf kmalloc v', (VfsOp.write ptr buf kmalloc).losesBorrowed v = false →
      vfsWrite v (some ptr) (some buf) kmalloc = .ok (-1, v') → v'.nodes = v.nodes) ∧
    (∀ ptr node size, v.nodes ptr = some node → ∃ result, vfsRead v (some ptr) size = .ok result) ∧
    ∀ drivers s p fd address len, s.vfs = v → FsInv s → p < s.tables.length →
      ∃ result, sysRead drivers s (some p) fd address len = .ok result := by
  have initial : FieldsInv start := by
    obtain ⟨inv, grows⟩ := vfsInit_inv booted
    exact ⟨inv, grows.agree nofun⟩
  have reached : FieldsInv v := by
    refine run.invariant FieldsInv (fun before op after inv allowed returned => ?_) initial
    rw [Bool.and_eq_true, Bool.not_eq_true'] at allowed
    exact inv.step allowed.1 allowed.2 returned
  refine ⟨fun ptr node live _ => reached.agree ptr node live, ?_, ?_, ?_⟩
  · exact fun ptr buf kmalloc v' kept returned => vfsWrite_failed kept returned
  · exact fun ptr node size live => (reached.agree ptr node live).read live size
  · rintro drivers s p fd address len rfl inv inside
    exact sysRead_returns (fun ptr node live _ => reached.agree ptr node live) inv inside drivers fd address len

end

/-- A process that has opened a file of three bytes. -/
def threeBytes : Result FsState := do
  let v ← vfsInit (Vfs.boot (fun _ => 0) ⟨0x1000, 16⟩) (some 1)
  let (_, v) ← vfsCreateFile v ['/', 'a'] [] (some 2)
  let (_, v) ← vfsWrite v (some 2) (some [1, 2, 3]) (some 0x2000)
  let (_, s) ← sysOpen noDrivers ⟨v, [FdTable.fresh]⟩ (some 0) 0x400000 ['/', 'a']
  return s

theorem threeBytes_view : ∃ s, threeBytes = .ok s ∧ FileView s 0 3 0 [1, 2, 3] := by
  have run : (threeBytes.map fun s => (s.tables[0]?.any fun table => table 3 == ⟨some 2, 0, true, none⟩) &&
      ((s.vfs.nodes 2).any fun node => node.type == .file && (node.size == 3 && node.data == some 0x2000)) &&
      copyOut s.vfs.bytes 0x2000 3 == [1, 2, 3]).toOption = some true := by
    decide +kernel
  obtain ⟨s, returned, shown⟩ := exists_of_toOption run
  simp only [Bool.and_eq_true, Option.any_eq_true, beq_iff_eq] at shown
  obtain ⟨⟨⟨table, isTable, entry⟩, node, live, isFile, size, data⟩, holds⟩ := shown
  refine ⟨s, returned, 2, node, ⟨by decide, by decide, table, isTable, ?_⟩, live, isFile, size, fun _ => ⟨_, data, holds⟩⟩
  rw [entry]
  exact ⟨rfl, rfl, rfl⟩

/-- The reads of the file of three bytes. -/
theorem reads_in_pieces_three : ∃ s, threeBytes = .ok s ∧ ∀ drivers events s', Reads drivers 0 3 s events s' →
    events.flatMap ReadEvent.bytes = ([1, 2, 3] : List (BitVec 8)).take (events.map ReadEvent.len).sum := by
  obtain ⟨s, returned, view⟩ := threeBytes_view
  exact ⟨s, returned, (reads_in_pieces view (by decide) (by decide)).2.2⟩

/-- A write to a borrowed file that gets its buffer. -/
theorem file_fields_agree_written : ∃ start v, vfsInit (Vfs.boot (fun _ => 7) ⟨0x1000, 16⟩) (some 1) = .ok start ∧
    Run Vfs.step (fun v op => (op.real && !op.losesBorrowed v) = true) start
      [.createFile ['a'] [] (some 2), .setData 2 0x1000 8, .write 2 [1] (some 0x2000)] v ∧
    ∃ node, v.nodes 2 = some node ∧ node.size = 1 ∧ FieldsAgree node := by
  cases booted : vfsInit (Vfs.boot (fun _ => 7) ⟨0x1000, 16⟩) (some 1) with
  | error halt => cases booted
  | ok start =>
      have checked : (exec Vfs.step (fun v op => op.real && !op.losesBorrowed v)
          [.createFile ['a'] [] (some 2), .setData 2 0x1000 8, .write 2 [1] (some 0x2000)] start).any
          (fun v => (v.nodes 2).any fun node => node.type == .file && node.size == 1) = true := by
        cases booted
        decide +kernel
      obtain ⟨v, run, shown⟩ := Run.exists_of_check checked
      obtain ⟨node, live, shape⟩ := (Option.any_eq_true _ _).mp shown
      rw [Bool.and_eq_true, beq_iff_eq, beq_iff_eq] at shape
      exact ⟨start, v, rfl, run, node, live, shape.2, (file_fields_agree booted run).1 2 node live shape.1⟩

/-- A write to a borrowed file that gets no buffer leaves the file with a size and without data. -/
theorem file_fields_lost : ¬∀ (bytes : Bytes) (archive : Fs.Block) (kmalloc : Option NodePtr) (start v : Vfs) (ops : List VfsOp),
    vfsInit (Vfs.boot bytes archive) kmalloc = .ok start → Run Vfs.step (fun _ op => op.real = true) start ops v →
    ∀ ptr node, v.nodes ptr = some node → node.type = .file → FieldsAgree node := by
  intro claim
  cases booted : vfsInit (Vfs.boot (fun _ => 7) ⟨0x1000, 16⟩) (some 1) with
  | error halt => cases booted
  | ok start =>
      have checked : (exec Vfs.step (fun _ op => op.real)
          [.createFile ['a'] [] (some 2), .setData 2 0x1000 8, .write 2 [1] none] start).any
          (fun v => (v.nodes 2).any fun node => node.type == .file && (node.size == 8 && node.data == none)) = true := by
        cases booted
        decide +kernel
      obtain ⟨v, run, shown⟩ := Run.exists_of_check checked
      obtain ⟨node, live, shape⟩ := (Option.any_eq_true _ _).mp shown
      rw [Bool.and_eq_true, Bool.and_eq_true, beq_iff_eq, beq_iff_eq, beq_iff_eq] at shape
      obtain ⟨isFile, size, noData⟩ := shape
      have agree := claim _ _ _ start v _ booted run 2 node live isFile
      exact agree.data (by rw [size]; decide) noData

end DoccrOS.User
