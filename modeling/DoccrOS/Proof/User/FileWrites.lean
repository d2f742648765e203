import DoccrOS.Proof.User.FileReads

namespace DoccrOS.User
open Lib Fs Proc

/-- A call of `sys_write` that writes its whole string, and the state after it. -/
structure WriteEvent where
  buf : List (BitVec 8)
  after : FsState

/-- A sequence of writes through a descriptor. -/
inductive Writes (drivers : Drivers) (p fd : Nat) : FsState → List WriteEvent → FsState → Prop
  | done (s : FsState) : Writes drivers p fd s [] s
  | write {s s₁ s' : FsState} {address : Nat} {buf : List (BitVec 8)} {kmalloc : Option Nat} {events : List WriteEvent}
    (valid : userPtrOk address = true) (real : buf.length < 2 ^ 63)
    (returned : sysWrite drivers s (some p) fd address buf kmalloc = .ok (buf.length, s₁))
    (rest : Writes drivers p fd s₁ events s') : Writes drivers p fd s (⟨buf, s₁⟩ :: events) s'

/-- The offset after every write is the number of bytes that are written so far. -/
def OffsetsFollow (p fd : Nat) (events : List WriteEvent) : Prop :=
  ∀ front event rest, events = front ++ event :: rest →
    (event.after.tables[p]?).map (fun table => (table fd).offset) =
      some ((front.map fun event => event.buf.length).sum + event.buf.length)

/-- Reads from the start that ask for enough bytes deliver all written strings. -/
def ReadsBack (p fd : Nat) (events : List WriteEvent) (s : FsState) : Prop :=
  ∀ drivers rax s₁ reads s₂, sysLseek s (some p) fd 0 0 = .ok (rax, s₁) → Reads drivers p fd s₁ reads s₂ →
    (events.map fun event => event.buf.length).sum ≤ (reads.map ReadEvent.len).sum →
    reads.flatMap ReadEvent.bytes = events.flatMap WriteEvent.buf

section
variable {s s' : FsState} {p fd offset address : Nat} {content buf : List (BitVec 8)} {kmalloc : Option Nat} {drivers : Drivers}
  {events : List WriteEvent}

/-- A write of the whole string replaces the contents of the file and leaves the offset where it was. -/
theorem FileView.write (view : FileView s p fd offset content) (valid : userPtrOk address = true) (real : buf.length < 2 ^ 63)
    (returned : sysWrite drivers s (some p) fd address buf kmalloc = .ok (buf.length, s')) : FileView s' p fd offset buf := by
  obtain ⟨ptr, node, opened, live, has⟩ := view
  obtain ⟨handle, guard⟩ := opened.guard
  have low := opened.low
  have notConsole : ¬(fd = 1 ∨ fd = 2) := by omega
  simp only [sysWrite, valid, Bool.not_true, Bool.false_eq_true, if_false, if_neg notConsole, guard, Result.ok_bind,
    node_some.mpr live, has.isFile] at returned
  obtain ⟨⟨code, v⟩, called, rest⟩ := Result.bind_ok returned
  have count : (if code < 0 then minusOne else castU64 code) = buf.length := congrArg Prod.fst (Except.ok.inj rest)
  have isState : s' = { s with vfs := v } := (congrArg Prod.snd (Except.ok.inj rest)).symm
  rw [isState]
  cases vfsWrite_outcome called with
  | refused same =>
      rw [if_pos (by decide)] at count
      unfold minusOne at count
      omega
  | failed node _ _ _ _ =>
      rw [if_pos (by decide)] at count
      unfold minusOne at count
      omega
  | written before node' data touches size room isData bytes =>
      obtain ⟨_, _, _, _, _, shape⟩ := touches.shape
      have isBefore : before = node := Option.some.inj (touches.live.symm.trans live)
      refine ⟨ptr, node', ⟨opened.low, opened.high, opened.entry⟩, touches.here, ?_, size, fun _ => ⟨data, isData, ?_⟩⟩
      · rw [shape, isBefore]
        exact has.isFile
      · change copyOut v.bytes data buf.length = buf
        rw [bytes, copyOut_copyIn (Nat.le_refl _), List.take_length]

/-- A sequence of writes never moves the offset and keeps one of the strings. -/
theorem Writes.view (writes : Writes drivers p fd s events s') (view : FileView s p fd offset content) :
    (∃ last, FileView s' p fd offset last ∧ (last = content ∨ ∃ event ∈ events, last = event.buf)) ∧
      ∀ event ∈ events, FileView event.after p fd offset event.buf := by
  induction writes generalizing content with
  | done s => exact ⟨⟨content, view, Or.inl rfl⟩, nofun⟩
  | write valid real returned rest ih =>
      rename_i s s₁ s' address buf kmalloc events
      have next := view.write valid real returned
      obtain ⟨⟨last, final, origin⟩, all⟩ := ih next
      refine ⟨⟨last, final, Or.inr ?_⟩, ?_⟩
      · rcases origin with rfl | ⟨event, member, rfl⟩
        · exact ⟨_, List.mem_cons_self, rfl⟩
        · exact ⟨event, List.mem_cons_of_mem _ member, rfl⟩
      · intro event member
        rcases List.mem_cons.mp member with rfl | later
        · exact next
        · exact all event later

/-- A view of a file shows the offset of its descriptor. -/
theorem FileView.offset_eq (view : FileView s p fd offset content) :
    (s.tables[p]?).map (fun table => (table fd).offset) = some offset := by
  obtain ⟨_, _, ⟨_, _, table, isTable, _, _, isOffset⟩, _⟩ := view
  rw [isTable, Option.map_some, isOffset]

/-- Writes to an empty file append at the offset exactly when they write nothing. -/
theorem writes_append_iff (view : FileView s p fd 0 []) (writes : Writes drivers p fd s events s') :
    OffsetsFollow p fd events ∧ ReadsBack p fd events s' ↔ ∀ event ∈ events, event.buf = [] := by
  obtain ⟨⟨last, final, origin⟩, all⟩ := writes.view view
  constructor
  · rintro ⟨follow, _⟩ event member
    obtain ⟨front, rest, isEvents⟩ := List.append_of_mem member
    have offset := follow front event rest isEvents
    rw [(all event member).offset_eq, Option.some.injEq] at offset
    exact List.eq_nil_of_length_eq_zero (by omega)
  · intro empty
    have lengths (list : List WriteEvent) (inside : ∀ event ∈ list, event ∈ events) :
        (list.map fun event => event.buf.length).sum = 0 := by
      refine List.sum_eq_zero fun length listed => ?_
      obtain ⟨event, member, rfl⟩ := List.mem_map.mp listed
      rw [empty event (inside event member), List.length_nil]
    constructor
    · intro front event rest isEvents
      have member : event ∈ events := isEvents ▸ List.mem_append_right _ List.mem_cons_self
      rw [(all event member).offset_eq, lengths front fun other listed => isEvents ▸ List.mem_append_left _ listed,
        empty event member]
      rfl
    · intro drivers rax s₁ reads s₂ sought trace _
      have isLast : last = [] := by
        rcases origin with same | ⟨event, member, same⟩
        · exact same
        · exact same.trans (empty event member)
      rw [isLast] at final
      have start : (0 : Int) = seekBase 0 ([] : List (BitVec 8)).length 0 + castI64 0 := by decide
      obtain ⟨s₃, returned, next, _⟩ := (final.lseek (by decide) (by decide) (Or.inl rfl) start).1 (by decide) (by decide)
      rw [sought] at returned
      cases returned
      obtain ⟨delivered, _⟩ := trace.delivers next
      rw [delivered, List.drop_nil, List.take_nil]
      refine (List.flatMap_eq_nil_iff.mpr fun event member => empty event member).symm

end

/-- A process that has opened an empty file. -/
def noBytes : Result FsState := do
  let v ← vfsInit (Vfs.boot (fun _ => 0) ⟨0x1000, 16⟩) (some 1)
  let (_, v) ← vfsCreateFile v ['/', 'a'] [] (some 2)
  let (_, s) ← sysOpen noDrivers ⟨v, [FdTable.fresh]⟩ (some 0) 0x400000 ['/', 'a']
  return s

theorem noBytes_view : ∃ s, noBytes = .ok s ∧ FileView s 0 3 0 [] := by
  have run : (noBytes.map fun s => (s.tables[0]?.any fun table => table 3 == ⟨some 2, 0, true, none⟩) &&
      ((s.vfs.nodes 2).any fun node => node.type == .file && node.size == 0)).toOption = some true := by
    decide +kernel
  obtain ⟨s, returned, shown⟩ := exists_of_toOption run
  simp only [Bool.and_eq_true, Option.any_eq_true, beq_iff_eq] at shown
  obtain ⟨⟨table, isTable, entry⟩, node, live, isFile, size⟩ := shown
  refine ⟨s, returned, 2, node, ⟨by decide, by decide, table, isTable, ?_⟩, live, isFile, size, fun some => absurd rfl some⟩
  rw [entry]
  exact ⟨rfl, rfl, rfl⟩

/-- A write of one byte does not move the offset. -/
theorem writes_append_lost : ¬∀ (drivers : Drivers) (p fd : Nat) (s s' : FsState) (events : List WriteEvent),
    FileView s p fd 0 [] → Writes drivers p fd s events s' → OffsetsFollow p fd events ∧ ReadsBack p fd events s' := by
  intro claim
  obtain ⟨s, returned, view⟩ := noBytes_view
  have run : (noBytes.bind fun s => (sysWrite noDrivers s (some 0) 3 0x400000 [7] (some 0x2000)).map fun result =>
      (result.1, (result.2.tables[0]?).map fun table => (table 3).offset)).toOption = some (1, some 0) := by
    decide +kernel
  rw [returned] at run
  obtain ⟨⟨rax, s'⟩, written, shown⟩ := exists_of_toOption run
  simp only [Prod.mk.injEq] at shown
  obtain ⟨rfl, offset⟩ := shown
  have writes : Writes noDrivers 0 3 s [⟨[7], s'⟩] s' := .write (by decide) (by decide) written (.done s')
  have follow := (claim noDrivers 0 3 s s' _ view writes).1 [] ⟨[7], s'⟩ [] rfl
  rw [offset] at follow
  simp at follow

/-- An empty write to a file that was emptied before. -/
theorem writes_append_empty : ∃ s s', FileView s 0 3 0 [] ∧ Writes noDrivers 0 3 s [⟨[], s'⟩] s' ∧
    OffsetsFollow 0 3 [⟨[], s'⟩] ∧ ReadsBack 0 3 [⟨[], s'⟩] s' := by
  obtain ⟨s₀, returned, view⟩ := threeBytes_view
  have run : (threeBytes.bind fun s => (sysWrite noDrivers s (some 0) 3 0x400000 [] none).map Prod.fst).toOption = some 0 := by
    decide +kernel
  rw [returned] at run
  obtain ⟨⟨rax, s⟩, first, shown⟩ := exists_of_toOption run
  cases shown
  have emptied := view.write (by decide) (by decide) first
  have again : (threeBytes.bind fun s => (sysWrite noDrivers s (some 0) 3 0x400000 [] none).bind fun result =>
      (sysWrite noDrivers result.2 (some 0) 3 0x400000 [] none).map Prod.fst).toOption = some 0 := by
    decide +kernel
  rw [returned] at again
  change ((sysWrite noDrivers s₀ (some 0) 3 0x400000 [] none).bind fun result =>
    (sysWrite noDrivers result.2 (some 0) 3 0x400000 [] none).map Prod.fst).toOption = some 0 at again
  rw [first] at again
  obtain ⟨⟨rax, s'⟩, second, shown⟩ := exists_of_toOption again
  cases shown
  have writes : Writes noDrivers 0 3 s [⟨[], s'⟩] s' := .write (by decide) (by decide) second (.done s')
  exact ⟨s, s', emptied, writes, (writes_append_iff emptied writes).mpr (by simp)⟩

end DoccrOS.User
