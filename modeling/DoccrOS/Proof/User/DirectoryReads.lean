import DoccrOS.Proof.Fs.TreeRemoves
import DoccrOS.Proof.User.FileReads

namespace DoccrOS.User
open Lib Fs Proc

/-- The name of a node and the value of `d_type` for its type. -/
def direntOf (node : VfsNode) : List Char × Nat := (node.name, if node.type = .directory then 4 else 8)

/-- The name and the type of an entry. -/
def Dirent.shown (entry : Dirent) : List Char × Nat := (entry.name, entry.type)

/-- The directory has the entries. -/
structure DirHas (v : Vfs) (dir : VfsNode) (entries : List (List Char × Nat)) : Prop where
  isDirectory : dir.type = .directory
  count : dir.childCount = entries.length
  few : entries.length ≤ vfsMaxChildren
  slot : ∀ i entry, entries[i]? = some entry →
    ∃ kid below, dir.children i = some kid ∧ v.nodes kid = some below ∧ direntOf below = entry

/-- A descriptor of the process with an offset in a directory with entries. -/
def DirView (s : FsState) (p fd offset : Nat) (entries : List (List Char × Nat)) : Prop :=
  ∃ ptr dir, OpenAt s p fd ptr offset ∧ s.vfs.nodes ptr = some dir ∧ DirHas s.vfs dir entries ∧ offset ≤ entries.length

/-- A call of `sys_getdents`: the size of its buffer, its result and the entries that it stores. -/
structure ListEvent where
  bufSize : Nat
  rax : Nat
  dirents : List Dirent

/-- A listing of a directory through a descriptor, with buffers of one entry or more. Between two calls anything may happen that
leaves the directory and the descriptor alone. -/
inductive Lists (p fd : Nat) : FsState → List ListEvent → FsState → Prop
  | done (s : FsState) : Lists p fd s [] s
  | call {s s₁ s' : FsState} {address bufSize rax : Nat} {dirents : List Dirent} {events : List ListEvent}
    (valid : userPtrOk address = true) (room : sizeofDirent ≤ bufSize)
    (returned : sysGetdents s (some p) fd address bufSize = .ok (rax, dirents, s₁))
    (rest : Lists p fd s₁ events s') : Lists p fd s (⟨bufSize, rax, dirents⟩ :: events) s'
  | other {s s₁ s' : FsState} {events : List ListEvent}
    (same : ∀ offset entries, DirView s p fd offset entries → DirView s₁ p fd offset entries)
    (rest : Lists p fd s₁ events s') : Lists p fd s events s'

/-- The entries that a list of calls stores. -/
def listed (events : List ListEvent) : List (List Char × Nat) := events.flatMap fun event => event.dirents.map Dirent.shown

section
variable {s s' : FsState} {p fd offset rax address bufSize : Nat} {ptr : NodePtr} {dir : VfsNode} {v : Vfs}
  {entries : List (List Char × Nat)} {events : List ListEvent}

/-- The entries of a directory are its children in their order, and no name comes twice. -/
theorem dirHas (inv : VfsInv v) (live : v.nodes ptr = some dir) (isDirectory : dir.type = .directory) :
    ∃ nodes : List VfsNode, dir.kids.map v.nodes = nodes.map some ∧ (nodes.map VfsNode.name).Nodup ∧
      DirHas v dir (nodes.map direntOf) := by
  have ok := inv.node ptr dir live
  have alive (kid : NodePtr) (member : kid ∈ dir.kids) : ∃ below, v.nodes kid = some below := by
    obtain ⟨below, isBelow, _⟩ := ok.child kid member
    exact ⟨below, isBelow⟩
  have all : ∃ nodes : List VfsNode, dir.kids.map v.nodes = nodes.map some := by
    generalize dir.kids = kids at alive
    induction kids with
    | nil => exact ⟨[], rfl⟩
    | cons kid kids ih =>
        obtain ⟨below, isBelow⟩ := alive kid List.mem_cons_self
        obtain ⟨nodes, same⟩ := ih fun other member => alive other (List.mem_cons_of_mem _ member)
        exact ⟨below :: nodes, by rw [List.map_cons, List.map_cons, isBelow, same]⟩
  obtain ⟨nodes, same⟩ := all
  have length : nodes.length = dir.childCount := by
    rw [← ok.count, ← List.length_map (f := some), ← same, List.length_map]
  have at_ (i : Nat) (below : VfsNode) (atIndex : nodes[i]? = some below) :
      ∃ kid, dir.kids[i]? = some kid ∧ v.nodes kid = some below := by
    have both := congrArg (fun list => list[i]?) same
    simp only [List.getElem?_map, atIndex, Option.map_some] at both
    exact Option.map_eq_some_iff.mp both
  refine ⟨nodes, same, ?_, isDirectory, ?_, ?_, ?_⟩
  · rw [List.nodup_iff_pairwise_ne, List.pairwise_map, List.pairwise_iff_getElem]
    intro i j first second before equal
    obtain ⟨one, isOne, liveOne⟩ := at_ i _ (List.getElem?_eq_getElem first)
    obtain ⟨two, isTwo, liveTwo⟩ := at_ j _ (List.getElem?_eq_getElem second)
    obtain ⟨inOne, rfl⟩ := List.getElem?_eq_some_iff.mp isOne
    obtain ⟨inTwo, rfl⟩ := List.getElem?_eq_some_iff.mp isTwo
    have named := List.pairwise_iff_getElem.mp ok.distinct i j inOne inTwo before _ ((named_some liveOne).mpr rfl)
    exact absurd ((named_some liveTwo).mpr equal.symm) (by rw [named]; exact Bool.false_ne_true)
  · rw [List.length_map, length]
  · rw [List.length_map, length, ← ok.count]
    exact ok.slots.1
  · intro i entry atIndex
    rw [List.getElem?_map] at atIndex
    obtain ⟨below, isNode, rfl⟩ := Option.map_eq_some_iff.mp atIndex
    obtain ⟨kid, isKid, isBelow⟩ := at_ i below isNode
    have slot := ok.slots.2 i kid isKid
    have small : i < vfsMaxChildren := Nat.lt_of_lt_of_le (List.getElem?_eq_some_iff.mp isKid).1 ok.slots.1
    rw [Nat.zero_add, Nat.mod_eq_of_lt small] at slot
    exact ⟨kid, below, slot, isBelow, rfl⟩

/-- The loop of `sys_getdents` stores the next entries that fit into the buffer. -/
theorem DirHas.getdentsFrom (has : DirHas v dir entries) {left i written : Nat} (total : i + left = entries.length) :
    ∃ dirents, getdentsFrom v dir bufSize left i written i =
        .ok (dirents, written + sizeofDirent * dirents.length, i + dirents.length) ∧
      dirents.map Dirent.shown = (entries.drop i).take ((bufSize - written) / sizeofDirent) := by
  induction left generalizing i written with
  | zero =>
      refine ⟨[], rfl, ?_⟩
      rw [List.drop_eq_nil_of_le (by omega), List.take_nil]
      rfl
  | succ left ih =>
      have inside : i < entries.length := by omega
      obtain ⟨kid, below, isKid, isBelow, isEntry⟩ := has.slot i _ (List.getElem?_eq_getElem inside)
      rw [List.drop_eq_getElem_cons inside]
      simp only [User.getdentsFrom, isKid, node_some.mpr isBelow, Result.ok_bind]
      by_cases full : written + sizeofDirent > bufSize
      · rw [if_pos full]
        have none : (bufSize - written) / sizeofDirent = 0 := by
          apply Nat.div_eq_of_lt
          unfold sizeofDirent at full ⊢
          omega
        rw [none, List.take_zero]
        exact ⟨[], rfl, rfl⟩
      · rw [if_neg full]
        obtain ⟨dirents, returned, shown⟩ := @ih (i + 1) (written + sizeofDirent) (by omega)
        have room : (bufSize - written) / sizeofDirent = (bufSize - (written + sizeofDirent)) / sizeofDirent + 1 := by
          rw [← Nat.add_div_right _ (by decide)]
          congr 1
          omega
        rw [returned, room, List.take_succ_cons, ← shown]
        refine ⟨⟨i + 1, written + sizeofDirent, sizeofDirent, if below.type = .directory then 4 else 8, below.name⟩ :: dirents,
          ?_, ?_⟩
        · have bytes : written + sizeofDirent * (dirents.length + 1) = written + sizeofDirent + sizeofDirent * dirents.length := by
            rw [Nat.mul_succ]
            omega
          have last : i + (dirents.length + 1) = i + 1 + dirents.length := by omega
          rw [List.length_cons, bytes, last]
          rfl
        · rw [List.map_cons, ← isEntry]
          rfl

/-- `sys_getdents` stores the next entries that fit and moves the offset behind them. -/
theorem DirView.getdents (view : DirView s p fd offset entries) (valid : userPtrOk address = true) :
    ∃ dirents s', sysGetdents s (some p) fd address bufSize = .ok (sizeofDirent * dirents.length, dirents, s') ∧
      dirents.map Dirent.shown = (entries.drop offset).take (bufSize / sizeofDirent) ∧
      DirView s' p fd (offset + dirents.length) entries ∧ s'.vfs = s.vfs := by
  obtain ⟨ptr, dir, opened, live, has, inside⟩ := view
  obtain ⟨handle, guard⟩ := opened.guard
  have few : offset < 2 ^ 31 := by
    have few := has.few
    unfold vfsMaxChildren at few
    omega
  obtain ⟨dirents, returned, shown⟩ := @DirHas.getdentsFrom bufSize dir s.vfs entries has (dir.childCount - offset) offset 0
    (by rw [has.count]; omega)
  rw [Nat.zero_add, Nat.sub_zero] at *
  refine ⟨dirents, s.setFd p fd ⟨some ptr, offset + dirents.length, true, handle⟩, ?_, shown,
    ⟨ptr, dir, opened.setFd _, live, has, ?_⟩, rfl⟩
  · simp only [sysGetdents, valid, Bool.not_true, Bool.false_eq_true, if_false, guard, Result.ok_bind, node_some.mpr live,
      has.isDirectory, ne_eq, not_true_eq_false, castInt_small few, Int.toNat_natCast]
    rw [if_neg (by omega), returned]
    rfl
  · have length := congrArg List.length shown
    rw [List.length_map, List.length_take, List.length_drop] at length
    omega

/-- A listing that starts at an offset stores the entries from there on, up to those that its buffers have room for. -/
theorem Lists.delivers (lists : Lists p fd s events s') (view : DirView s p fd offset entries) :
    listed events = (entries.drop offset).take (events.map fun event => event.bufSize / sizeofDirent).sum ∧
      DirView s' p fd (offset + (listed events).length) entries ∧
      (∀ event ∈ events, event.rax = sizeofDirent * event.dirents.length ∧ event.rax ≤ event.bufSize) ∧
      ∀ front event rest, events = front ++ event :: rest →
        (event.rax = 0 ↔ listed front = entries.drop offset) := by
  induction lists generalizing offset with
  | done s => exact ⟨rfl, view, nofun, fun front event rest isEvents => by cases front <;> cases isEvents⟩
  | call valid room returned rest ih =>
      rename_i s s₁ s' address bufSize rax dirents events
      obtain ⟨stored, s₂, same, shown, next, _⟩ := @DirView.getdents s p fd offset address bufSize entries view valid
      rw [returned] at same
      cases same
      obtain ⟨delivered, last, sizes, ends⟩ := ih next
      have isListed : listed (⟨bufSize, sizeofDirent * dirents.length, dirents⟩ :: events) =
          dirents.map Dirent.shown ++ listed events := List.flatMap_cons
      have count : ((entries.drop offset).take (bufSize / sizeofDirent)).length = dirents.length := by
        rw [← shown, List.length_map]
      have behind : entries.drop offset = dirents.map Dirent.shown ++ entries.drop (offset + dirents.length) := by
        rw [shown, ← count, ← List.drop_drop]
        exact List.prefix_append_drop (List.take_prefix _ _)
      refine ⟨?_, ?_, ?_, ?_⟩
      · rw [isListed, delivered, shown, List.map_cons, List.sum_cons, take_piece, List.drop_drop, count]
      · rw [isListed, List.length_append, List.length_map, ← Nat.add_assoc]
        exact last
      · intro event member
        rcases List.mem_cons.mp member with rfl | later
        · refine ⟨rfl, ?_⟩
          have most : dirents.length ≤ bufSize / sizeofDirent := count ▸ List.length_take_le _ _
          exact (Nat.mul_le_mul_left _ most).trans (Nat.mul_div_le _ _)
        · exact sizes event later
      · intro front event later isEvents
        cases front with
        | nil =>
            obtain ⟨rfl, rfl⟩ := List.cons.inj isEvents
            have several : 0 < bufSize / sizeofDirent := Nat.div_pos room (by decide)
            rw [List.length_take] at count
            change sizeofDirent * dirents.length = 0 ↔ [] = entries.drop offset
            rw [@eq_comm _ [] _, List.eq_nil_iff_length_eq_zero, Nat.mul_eq_zero]
            have positive : sizeofDirent ≠ 0 := by decide
            omega
        | cons first front =>
            obtain ⟨rfl, rfl⟩ := List.cons.inj isEvents
            rw [ends front event later rfl, behind]
            exact (List.append_right_inj _).symm
  | other same rest ih => exact ih (same offset entries view)

/-- A listing of a directory delivers its children in their order, each once, and ends with 0. -/
theorem listing_complete (inv : VfsInv s.vfs) (opened : OpenAt s p fd ptr 0) (live : s.vfs.nodes ptr = some dir)
    (isDirectory : dir.type = .directory) :
    ∃ nodes : List VfsNode, dir.kids.map s.vfs.nodes = nodes.map some ∧ (nodes.map VfsNode.name).Nodup ∧
      ∀ events s', Lists p fd s events s' →
        listed events = (nodes.map direntOf).take (events.map fun event => event.bufSize / sizeofDirent).sum ∧
        (∀ event ∈ events, event.rax = sizeofDirent * event.dirents.length ∧ event.rax ≤ event.bufSize) ∧
        (∀ front event rest, events = front ++ event :: rest → (event.rax = 0 ↔ listed front = nodes.map direntOf)) ∧
        ∀ address bufSize, userPtrOk address = true → ∃ result, sysGetdents s' (some p) fd address bufSize = .ok result := by
  obtain ⟨nodes, isNodes, distinct, has⟩ := dirHas inv live isDirectory
  refine ⟨nodes, isNodes, distinct, fun events s' lists => ?_⟩
  obtain ⟨delivered, last, sizes, ends⟩ := lists.delivers ⟨ptr, dir, opened, live, has, Nat.zero_le _⟩
  refine ⟨delivered, sizes, ends, fun address bufSize valid => ?_⟩
  obtain ⟨dirents, after, returned, _⟩ := @DirView.getdents s' p fd _ address bufSize _ last valid
  exact ⟨_, returned⟩

end

/-- A process that has opened the root, in which there are a file and a directory. -/
def twoEntries : Result FsState := do
  let v ← vfsInit (Vfs.boot (fun _ => 0) ⟨0x1000, 16⟩) (some 1)
  let (_, v) ← vfsCreateFile v ['/', 'a'] [] (some 2)
  let (_, v) ← vfsMkdir v ['/', 'd'] [some 3]
  let (_, s) ← sysOpen noDrivers ⟨v, [FdTable.fresh]⟩ (some 0) 0x400000 ['/']
  return s

/-- The tree of that process is well formed. -/
theorem twoEntries_inv {s : FsState} (returned : twoEntries = .ok s) : VfsInv s.vfs := by
  obtain ⟨v, booted, rest⟩ := Result.bind_ok returned
  obtain ⟨⟨_, v₁⟩, created, rest⟩ := Result.bind_ok rest
  obtain ⟨⟨_, v₂⟩, made, rest⟩ := Result.bind_ok rest
  obtain ⟨⟨fd, s'⟩, opened, rest⟩ := Result.bind_ok rest
  cases rest
  have inv := (((vfsInit_inv booted).1.createAt created).1.mkdir made).1
  exact ((freshTables_inv inv 1).open opened).tree

/-- The listings of that root. -/
theorem listing_complete_two : ∃ s, twoEntries = .ok s ∧ ∃ nodes : List VfsNode, nodes.map direntOf = [(['a'], 8), (['d'], 4)] ∧
    ∀ events s', Lists 0 3 s events s' →
      listed events = (nodes.map direntOf).take (events.map fun event => event.bufSize / sizeofDirent).sum := by
  have run : (twoEntries.map fun s => (s.tables[0]?.any fun table => table 3 == ⟨some 1, 0, true, none⟩) &&
      ((s.vfs.nodes 1).any fun dir => dir.type == .directory &&
        dir.kids.map (fun kid => (s.vfs.nodes kid).map direntOf) == [some (['a'], 8), some (['d'], 4)])).toOption = some true := by
    decide +kernel
  obtain ⟨s, returned, shown⟩ := exists_of_toOption run
  simp only [Bool.and_eq_true, Option.any_eq_true, beq_iff_eq] at shown
  obtain ⟨⟨table, isTable, entry⟩, dir, live, isDirectory, kids⟩ := shown
  have opened : OpenAt s 0 3 1 0 := ⟨by decide, by decide, table, isTable, by rw [entry]; exact ⟨rfl, rfl, rfl⟩⟩
  obtain ⟨nodes, isNodes, _, all⟩ := listing_complete (twoEntries_inv returned) opened live isDirectory
  refine ⟨s, returned, nodes, ?_, fun events s' lists => (all events s' lists).1⟩
  have both : (dir.kids.map s.vfs.nodes).map (Option.map direntOf) = (nodes.map direntOf).map some := by
    rw [isNodes, List.map_map, List.map_map]
    rfl
  rw [List.map_map] at both
  apply List.map_injective_iff.mpr (Option.some_injective _)
  exact both.symm.trans kids

end DoccrOS.User
