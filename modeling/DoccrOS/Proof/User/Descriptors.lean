import DoccrOS.Construction.User.SysFs
import DoccrOS.Proof.Fs.FileRuns

namespace DoccrOS.User
open Lib Fs

/-- A used descriptor of some process refers to the node. -/
def FsState.opened (s : FsState) (ptr : NodePtr) : Bool :=
  s.tables.any fun table => (List.range fdMax).any fun fd => 3 ≤ fd && (table fd).used && (table fd).node == some ptr

/-- `vfs_remove` refuses the root and directories that have children. -/
def refuses (v : Vfs) (ptr : NodePtr) : Bool :=
  v.root == some ptr || (v.nodes ptr).any fun node => node.type == .directory && 0 < node.childCount

/-- The call unlinks no node that a used descriptor refers to. -/
def FsOp.keepsOpen (s : FsState) (op : FsOp) : Bool :=
  match op.call with
  | .unlink _ path =>
    match vfsFind s.vfs path with
    | .ok (some ptr) => !s.opened ptr || refuses s.vfs ptr
    | _ => true
  | _ => true

/-- The node of a used descriptor is live. -/
def LiveFd (v : Vfs) (descriptor : FileDescriptor) : Prop :=
  descriptor.used = true → ∃ ptr node, descriptor.node = some ptr ∧ v.nodes ptr = some node

/-- The tree is well formed and the nodes of all used descriptors are live. -/
structure FsInv (s : FsState) : Prop where
  tree : VfsInv s.vfs
  live : ∀ table ∈ s.tables, ∀ fd, 3 ≤ fd → fd < fdMax → LiveFd s.vfs (table fd)

section
variable {s s' : FsState} {v v' : Vfs} {p : Option Nat} {fd rax i : Nat} {descriptor : FileDescriptor} {drivers : Drivers}

theorem usedFd_spec {found : Option (Nat × FileDescriptor)} (returned : usedFd s p fd = .ok found) :
    found = none ∨ ∃ p' table, found = some (p', table fd) ∧ 3 ≤ fd ∧ fd < fdMax ∧ table ∈ s.tables ∧ (table fd).used = true := by
  unfold usedFd at returned
  by_cases range : fd < 3 ∨ fd ≥ fdMax
  · rw [if_pos range] at returned
    exact Or.inl (Except.ok.inj returned).symm
  · rw [if_neg range] at returned
    cases p with
    | none => exact Or.inl (Except.ok.inj returned).symm
    | some p =>
        obtain ⟨table, isTable, rest⟩ := Result.bind_ok returned
        have member : table ∈ s.tables := by
          unfold FsState.table at isTable
          cases entry : s.tables[p]? with
          | none =>
              rw [entry] at isTable
              cases isTable
          | some table' =>
              rw [entry] at isTable
              cases isTable
              exact List.mem_of_getElem? entry
        by_cases used : (table fd).used = true
        · rw [if_pos used] at rest
          exact Or.inr ⟨p, table, (Except.ok.inj rest).symm, by omega, by omega, member, used⟩
        · rw [if_neg used] at rest
          exact Or.inl (Except.ok.inj rest).symm

/-- A store of a descriptor with a live node keeps the invariant. -/
theorem FsInv.setFd (inv : FsInv s) (p fd : Nat) (live : LiveFd s.vfs descriptor) : FsInv (s.setFd p fd descriptor) := by
  refine ⟨inv.tree, ?_⟩
  intro table member query low high
  obtain ⟨i, inside, atIndex⟩ := List.mem_iff_getElem.mp member
  have inside' : i < s.tables.length := by
    have length := List.length_modify (fun table : FdTable => Function.update table fd descriptor) s.tables p
    rw [← length]
    exact inside
  have entry : table = if p = i then Function.update s.tables[i] fd descriptor else s.tables[i] := by
    rw [← atIndex]
    exact List.getElem_modify _ _ _ _ _
  have old := inv.live s.tables[i] (List.getElem_mem inside') query low high
  rw [entry]
  by_cases here : p = i
  · rw [if_pos here]
    by_cases isFd : query = fd
    · rw [isFd, Function.update_self]
      exact live
    · rw [Function.update_of_ne isFd]
      exact old
  · rw [if_neg here]
    exact old

/-- A change of the file system that keeps the open nodes keeps the invariant. -/
theorem FsInv.setVfs (inv : FsInv s) (tree : VfsInv v')
    (kept : ∀ ptr node, s.opened ptr = true → s.vfs.nodes ptr = some node → ∃ node', v'.nodes ptr = some node') :
    FsInv { s with vfs := v' } := by
  refine ⟨tree, ?_⟩
  intro table member query low high used
  obtain ⟨ptr, node, isNode, live⟩ := inv.live table member query low high used
  have opened : s.opened ptr = true := by
    rw [FsState.opened, List.any_eq_true]
    refine ⟨table, member, ?_⟩
    rw [List.any_eq_true]
    refine ⟨query, List.mem_range.mpr high, ?_⟩
    rw [isNode, used, beq_self_eq_true, Bool.and_true, Bool.and_true]
    exact decide_eq_true low
  obtain ⟨node', live'⟩ := kept ptr node opened live
  exact ⟨ptr, node', isNode, live'⟩

/-- The shared part of the calls that store a descriptor with the node that it had. -/
theorem FsInv.setUsed (inv : FsInv s) {table : FdTable} (member : table ∈ s.tables) (low : 3 ≤ fd) (high : fd < fdMax)
    (same : descriptor.node = (table fd).node) (used : (table fd).used = true) (p : Nat) :
    FsInv (s.setFd p fd descriptor) := by
  apply inv.setFd
  intro _
  rw [same]
  exact inv.live table member fd low high used

theorem FsInv.open (inv : FsInv s) {address : Nat} {path : List Char}
    (returned : sysOpen drivers s p address path = .ok (rax, s')) : FsInv s' := by
  unfold sysOpen at returned
  by_cases bad : (!userPtrOk address) = true
  · rw [if_pos bad] at returned
    cases returned
    exact inv
  rw [if_neg bad, inv.tree.find, Result.ok_bind] at returned
  cases found : s.vfs.root.bind fun root => resolve s.vfs.child root (tokens path) with
  | none =>
      rw [found] at returned
      cases returned
      exact inv
  | some ptr =>
      simp only [found] at returned
      cases p with
      | none =>
          cases returned
          exact inv
      | some p =>
          obtain ⟨table, _, rest⟩ := Result.bind_ok returned
          cases free : (List.range fdMax).find? fun fd => 3 ≤ fd && !(table fd).used with
          | none =>
              rw [free] at rest
              cases rest
              exact inv
          | some fd =>
              simp only [free] at rest
              obtain ⟨node, isNode, rest⟩ := Result.bind_ok rest
              cases handle : openDevice drivers node path with
              | none =>
                  rw [handle] at rest
                  cases rest
                  exact inv
              | some handle' =>
                  rw [handle] at rest
                  cases rest
                  have live : LiveFd s.vfs ⟨some ptr, 0, true, handle'⟩ := fun _ => ⟨ptr, node, rfl, node_some.mp isNode⟩
                  exact inv.setFd p _ live

theorem FsInv.close (inv : FsInv s) (returned : sysClose s p fd = .ok (rax, s')) : FsInv s' := by
  unfold sysClose at returned
  obtain ⟨found, guard, rest⟩ := Result.bind_ok returned
  rcases usedFd_spec guard with rfl | ⟨p', table, rfl, low, high, member, used⟩
  · cases rest
    exact inv
  · have closed (p fd : Nat) : FsInv (s.setFd p fd ⟨none, 0, false, none⟩) := inv.setFd p fd nofun
    cases isNode : (table fd).node with
    | none =>
        simp only [isNode] at rest
        cases rest
        exact closed p' fd
    | some ptr =>
        simp only [isNode] at rest
        obtain ⟨node, _, rest⟩ := Result.bind_ok rest
        cases rest
        exact closed p' fd

theorem FsInv.lseek (inv : FsInv s) {rsi : Nat} {whence : Int} (returned : sysLseek s p fd rsi whence = .ok (rax, s')) :
    FsInv s' := by
  unfold sysLseek at returned
  obtain ⟨found, guard, rest⟩ := Result.bind_ok returned
  rcases usedFd_spec guard with rfl | ⟨p', table, rfl, low, high, member, used⟩
  · cases rest
    exact inv
  · cases isNode : (table fd).node with
    | none =>
        simp only [isNode] at rest
        cases rest
        exact inv
    | some ptr =>
        simp only [isNode] at rest
        obtain ⟨node, _, rest⟩ := Result.bind_ok rest
        by_cases notFile : node.type ≠ .file
        · rw [if_pos notFile] at rest
          cases rest
          exact inv
        rw [if_neg notFile] at rest
        split at rest
        · cases rest
          exact inv
        · split at rest
          · cases rest
            exact inv
          · cases rest
            exact inv.setUsed member low high isNode.symm used p'

theorem FsInv.getdents (inv : FsInv s) {address bufSize : Nat} {entries : List Dirent}
    (returned : sysGetdents s p fd address bufSize = .ok (rax, entries, s')) : FsInv s' := by
  unfold sysGetdents at returned
  by_cases bad : (!userPtrOk address) = true
  · rw [if_pos bad] at returned
    cases returned
    exact inv
  rw [if_neg bad] at returned
  obtain ⟨found, guard, rest⟩ := Result.bind_ok returned
  rcases usedFd_spec guard with rfl | ⟨p', table, rfl, low, high, member, used⟩
  · cases rest
    exact inv
  · cases isNode : (table fd).node with
    | none =>
        simp only [isNode] at rest
        cases rest
        exact inv
    | some ptr =>
        simp only [isNode] at rest
        obtain ⟨dir, _, rest⟩ := Result.bind_ok rest
        by_cases notDirectory : dir.type ≠ .directory
        · rw [if_pos notDirectory] at rest
          cases rest
          exact inv
        rw [if_neg notDirectory] at rest
        split at rest
        · cases rest
        · obtain ⟨⟨list, written, offset⟩, _, rest⟩ := Result.bind_ok rest
          cases rest
          exact inv.setUsed member low high isNode.symm used p'

theorem FsInv.read (inv : FsInv s) {address len : Nat} {bytes : List (BitVec 8)}
    (returned : sysRead drivers s p fd address len = .ok (rax, bytes, s')) : FsInv s' := by
  unfold sysRead at returned
  by_cases bad : (!userPtrOk address) = true
  · rw [if_pos bad] at returned
    cases returned
    exact inv
  rw [if_neg bad] at returned
  by_cases keyboard : fd = 0
  · rw [if_pos keyboard] at returned
    cases returned
    exact inv
  rw [if_neg keyboard] at returned
  obtain ⟨found, guard, rest⟩ := Result.bind_ok returned
  rcases usedFd_spec guard with rfl | ⟨p', table, rfl, low, high, member, used⟩
  · cases rest
    exact inv
  · have stored (count : Nat) : FsInv (s.setFd p' fd { table fd with offset := (table fd).offset + count }) := by
      apply inv.setUsed member low high _ used
      rfl
    cases isNode : (table fd).node with
    | none =>
        simp only [isNode] at rest
        cases rest
        exact inv
    | some ptr =>
        simp only [isNode] at rest
        obtain ⟨node, _, rest⟩ := Result.bind_ok rest
        cases isType : node.type with
        | device =>
            simp only [isType] at rest
            split at rest <;> cases rest <;> exact inv
        | directory =>
            simp only [isType] at rest
            cases rest
            exact inv
        | file =>
            simp only [isType] at rest
            by_cases atEnd : (table fd).offset ≥ node.size
            · rw [if_pos atEnd] at rest
              cases rest
              exact inv
            rw [if_neg atEnd] at rest
            split at rest
            · split at rest
              · cases rest
                have after := stored (min len (node.size - (table fd).offset))
                simp only [isNode] at after
                exact after
              · cases rest
            · cases rest
              have after := stored (min len (node.size - (table fd).offset))
              simp only [isNode] at after
              exact after

theorem FsInv.write (inv : FsInv s) {address : Nat} {buf : List (BitVec 8)} {kmalloc : Option Nat}
    (returned : sysWrite drivers s p fd address buf kmalloc = .ok (rax, s')) : FsInv s' := by
  unfold sysWrite at returned
  by_cases bad : (!userPtrOk address) = true
  · rw [if_pos bad] at returned
    cases returned
    exact inv
  rw [if_neg bad] at returned
  by_cases console : fd = 1 ∨ fd = 2
  · rw [if_pos console] at returned
    cases returned
    exact inv
  rw [if_neg console] at returned
  obtain ⟨found, guard, rest⟩ := Result.bind_ok returned
  rcases usedFd_spec guard with rfl | ⟨p', table, rfl, _, _, _, _⟩
  · cases rest
    exact inv
  · cases isNode : (table fd).node with
    | none =>
        simp only [isNode] at rest
        cases rest
        exact inv
    | some ptr =>
        simp only [isNode] at rest
        obtain ⟨node, _, rest⟩ := Result.bind_ok rest
        cases isType : node.type with
        | device =>
            simp only [isType] at rest
            split at rest <;> cases rest <;> exact inv
        | directory =>
            simp only [isType] at rest
            cases rest
            exact inv
        | file =>
            simp only [isType] at rest
            obtain ⟨⟨written, v⟩, called, rest⟩ := Result.bind_ok rest
            cases rest
            rcases vfsWrite_touches called with rfl | ⟨_, _, touches⟩
            · exact inv
            · exact inv.setVfs (touches.inv inv.tree) fun _ _ _ live => touches.kept live

theorem FsInv.mkdir (inv : FsInv s) {address : Nat} {path : List Char} {kmallocs : List (Option NodePtr)}
    (returned : sysMkdir s address path kmallocs = .ok (rax, s')) : FsInv s' := by
  unfold sysMkdir at returned
  by_cases bad : (!userPtrOk address) = true
  · rw [if_pos bad] at returned
    cases returned
    exact inv
  rw [if_neg bad] at returned
  obtain ⟨⟨node, v⟩, called, rest⟩ := Result.bind_ok returned
  obtain ⟨tree, grows, _⟩ := inv.tree.mkdir called
  cases rest
  apply inv.setVfs tree
  intro ptr value _ live
  obtain ⟨_, _, live'⟩ := grows.kept ptr value live
  exact ⟨_, live'⟩

/-- A node that `vfs_remove` took out was not refused. -/
theorem unlinks_not_refused {dir ptr : NodePtr} {node below : VfsNode} {idx : Nat} (inv : VfsInv v)
    (unlinks : Unlinks v v' dir ptr node below idx) : refuses v ptr = false := by
  have count := (inv.node ptr below unlinks.gone).count
  rw [unlinks.empty] at count
  have notRoot : (v.root == some ptr) = false := beq_false_of_ne unlinks.notRoot
  rw [refuses, notRoot, unlinks.gone, Option.any_some, ← count]
  simp

theorem FsInv.unlink (inv : FsInv s) {address : Nat} {path : List Char}
    (safe : FsOp.keepsOpen s ⟨p, .unlink address path⟩ = true)
    (returned : sysUnlink s address path = .ok (rax, s')) : FsInv s' := by
  unfold sysUnlink at returned
  by_cases bad : (!userPtrOk address) = true
  · rw [if_pos bad] at returned
    cases returned
    exact inv
  rw [if_neg bad] at returned
  obtain ⟨⟨code, v⟩, called, rest⟩ := Result.bind_ok returned
  cases rest
  rcases inv.tree.remove called with ⟨_, rfl⟩ | ⟨_, root, dir, ptr, node, below, idx, isRoot, reached, unlinks, _⟩
  · exact inv
  · have found : vfsFind s.vfs path = .ok (some ptr) := by rw [inv.tree.find, isRoot, Option.bind_some, reached]
    simp only [FsOp.keepsOpen, found, unlinks_not_refused inv.tree unlinks, Bool.or_false, Bool.not_eq_true'] at safe
    apply inv.setVfs (unlinks.inv inv.tree)
    intro query value opened live
    have different : query ≠ ptr := by
      intro same
      rw [same, safe] at opened
      cases opened
    obtain ⟨node', live', _⟩ := unlinks.kept live different
    exact ⟨node', live'⟩

/-- Every call that keeps the open nodes keeps the invariant. -/
theorem FsInv.step (inv : FsInv s) {op : FsOp} (safe : op.keepsOpen s = true) (returned : s.step drivers op = .ok s') :
    FsInv s' := by
  obtain ⟨p, call⟩ := op
  cases call with
  | «open» address path =>
      obtain ⟨⟨rax, after⟩, called, rfl⟩ := Result.map_ok returned
      exact inv.open called
  | close fd =>
      obtain ⟨⟨rax, after⟩, called, rfl⟩ := Result.map_ok returned
      exact inv.close called
  | read fd address len =>
      obtain ⟨⟨rax, bytes, after⟩, called, rfl⟩ := Result.map_ok returned
      exact inv.read called
  | write fd address buf kmalloc =>
      obtain ⟨⟨rax, after⟩, called, rfl⟩ := Result.map_ok returned
      exact inv.write called
  | lseek fd rsi whence =>
      obtain ⟨⟨rax, after⟩, called, rfl⟩ := Result.map_ok returned
      exact inv.lseek called
  | getdents fd address bufSize =>
      obtain ⟨⟨rax, entries, after⟩, called, rfl⟩ := Result.map_ok returned
      exact inv.getdents called
  | mkdir address path kmallocs =>
      obtain ⟨⟨rax, after⟩, called, rfl⟩ := Result.map_ok returned
      exact inv.mkdir called
  | unlink address path =>
      obtain ⟨⟨rax, after⟩, called, rfl⟩ := Result.map_ok returned
      exact inv.unlink safe called

/-- After the calls that set the file system up no descriptor is used but the first three. -/
theorem freshTables_inv (tree : VfsInv v) (n : Nat) : FsInv ⟨v, List.replicate n FdTable.fresh⟩ := by
  refine ⟨tree, ?_⟩
  intro table member fd low _ used
  rw [List.eq_of_mem_replicate member] at used
  have small := of_decide_eq_true used
  omega

end

section
variable {start v : Vfs} {s : FsState} {bytes : Bytes} {archive : Fs.Block} {kmalloc : Option NodePtr} {setup : List VfsOp}
  {ops : List FsOp} {drivers : Drivers} {n : Nat}

/-- While no process unlinks a node that a descriptor refers to, every used descriptor refers to a live node. -/
theorem descriptors_live (booted : vfsInit (Vfs.boot bytes archive) kmalloc = .ok start)
    (filled : Run Vfs.step (fun _ _ => True) start setup v)
    (run : Run (FsState.step drivers) (fun s op => op.keepsOpen s = true) ⟨v, List.replicate n FdTable.fresh⟩ ops s) :
    ∀ table ∈ s.tables, ∀ fd, 3 ≤ fd → fd < fdMax → (table fd).used = true →
      ∃ ptr node, (table fd).node = some ptr ∧ s.vfs.nodes ptr = some node := by
  have tree := filled.invariant VfsInv (fun _ _ _ inv _ returned => inv.step returned) (vfsInit_inv booted).1
  have inv := run.invariant FsInv (fun _ _ _ inv safe returned => inv.step safe returned) (freshTables_inv tree n)
  exact inv.live

end

/-- Drivers without devices. -/
def noDrivers : Drivers := ⟨fun _ => ⟨none, none, none⟩, fun _ => 0⟩

/-- Two files, of which a process opens one and another process unlinks the other one. -/
theorem descriptors_live_other : ∃ start v s, vfsInit (Vfs.boot (fun _ => 0) ⟨0x1000, 16⟩) (some 1) = .ok start ∧
    Run Vfs.step (fun _ _ => True) start [.createFile ['/', 'a'] [] (some 2), .createFile ['/', 'b'] [] (some 3)] v ∧
    Run (FsState.step noDrivers) (fun s op => op.keepsOpen s = true) ⟨v, List.replicate 2 FdTable.fresh⟩
      [⟨some 0, .open 0x400000 ['/', 'a']⟩, ⟨some 1, .unlink 0x400000 ['/', 'b']⟩] s ∧ s.opened 2 = true ∧
    ∀ table ∈ s.tables, ∀ fd, 3 ≤ fd → fd < fdMax → (table fd).used = true →
      ∃ ptr node, (table fd).node = some ptr ∧ s.vfs.nodes ptr = some node := by
  cases booted : vfsInit (Vfs.boot (fun _ => 0) ⟨0x1000, 16⟩) (some 1) with
  | error halt => cases booted
  | ok start =>
      have checked : (exec Vfs.step (fun _ _ => true)
          [.createFile ['/', 'a'] [] (some 2), .createFile ['/', 'b'] [] (some 3)] start).any (fun v =>
          (exec (FsState.step noDrivers) (fun s op => op.keepsOpen s)
            [⟨some 0, .open 0x400000 ['/', 'a']⟩, ⟨some 1, .unlink 0x400000 ['/', 'b']⟩]
            ⟨v, List.replicate 2 FdTable.fresh⟩).any fun s => s.opened 2) = true := by
        cases booted
        decide +kernel
      obtain ⟨v, filled, shown⟩ := Run.exists_of_check checked
      have filled' := filled.mono fun _ _ _ => trivial
      obtain ⟨s, run, opened⟩ := Run.exists_of_check shown
      exact ⟨start, v, s, rfl, filled', run, opened, descriptors_live booted filled' run⟩

/-- A process opens a file and another process unlinks it. -/
theorem descriptors_dangle : ∃ start v s, vfsInit (Vfs.boot (fun _ => 0) ⟨0x1000, 16⟩) (some 1) = .ok start ∧
    Run Vfs.step (fun _ _ => True) start [.createFile ['/', 'a'] [] (some 2)] v ∧
    Run (FsState.step noDrivers) (fun _ _ => True) ⟨v, List.replicate 2 FdTable.fresh⟩
      [⟨some 0, .open 0x400000 ['/', 'a']⟩, ⟨some 1, .unlink 0x400000 ['/', 'a']⟩] s ∧
    ¬∀ table ∈ s.tables, ∀ fd, 3 ≤ fd → fd < fdMax → (table fd).used = true →
      ∃ ptr node, (table fd).node = some ptr ∧ s.vfs.nodes ptr = some node := by
  cases booted : vfsInit (Vfs.boot (fun _ => 0) ⟨0x1000, 16⟩) (some 1) with
  | error halt => cases booted
  | ok start =>
      have checked : (exec Vfs.step (fun _ _ => true) [.createFile ['/', 'a'] [] (some 2)] start).any (fun v =>
          (exec (FsState.step noDrivers) (fun _ _ => true)
            [⟨some 0, .open 0x400000 ['/', 'a']⟩, ⟨some 1, .unlink 0x400000 ['/', 'a']⟩]
            ⟨v, List.replicate 2 FdTable.fresh⟩).any fun s => s.opened 2 && (s.vfs.nodes 2).isNone) = true := by
        cases booted
        decide +kernel
      obtain ⟨v, filled, shown⟩ := Run.exists_of_check checked
      obtain ⟨s, run, dangles⟩ := Run.exists_of_check shown
      obtain ⟨opened, freed⟩ := (Bool.and_eq_true _ _).mp dangles
      refine ⟨start, v, s, rfl, filled.mono fun _ _ _ => trivial, run.mono fun _ _ _ => trivial, ?_⟩
      intro live
      obtain ⟨table, member, used⟩ := List.any_eq_true.mp opened
      obtain ⟨fd, inside, used⟩ := List.any_eq_true.mp used
      simp only [Bool.and_eq_true, decide_eq_true_eq, beq_iff_eq] at used
      obtain ⟨ptr, node, isNode, alive⟩ := live table member fd used.1.1 (List.mem_range.mp inside) used.1.2
      rw [used.2] at isNode
      rw [← Option.some.inj isNode, Option.isNone_iff_eq_none.mp freed] at alive
      cases alive

end DoccrOS.User
