import DoccrOS.Proof.Proc.ActiveSpace

namespace DoccrOS.Proc
open Lib Mem User

section
variable {s s' s₀ : Sched} {queue : List ThreadPtr} {thread : Thread} {ptr : HeapPtr} {op : ProcOp} {ops : List ProcOp}

/-- A call without a result returns when its function does. -/
theorem step_plain {call : Result Sched}
    (returned : (call >>= fun w => (.ok (false, w) : Result (Bool × Sched))).map Prod.snd = .ok s') : call = .ok s' := by
  obtain ⟨pair, made, same⟩ := Result.map_ok returned
  obtain ⟨w, called, rest⟩ := Result.bind_ok made
  rw [called, ← same, ← Except.ok.inj rest]

/-- A call with a result returns when its function does. -/
theorem step_pair {A : Type} {call : Result (Option A × Sched)}
    (returned : (call >>= fun w => (.ok (w.map Option.isNone id) : Result (Bool × Sched))).map Prod.snd = .ok s') :
    ∃ result, call = .ok (result, s') := by
  obtain ⟨pair, made, same⟩ := Result.map_ok returned
  obtain ⟨⟨result, w⟩, called, rest⟩ := Result.bind_ok made
  refine ⟨result, ?_⟩
  rw [called, ← same, ← Except.ok.inj rest]
  rfl

/-- A call that does not switch keeps the active space, if it keeps the processes with live threads and the owner of the
current thread. -/
theorem ActiveInv.keep (active : ActiveInv s) (sameActive : s'.activeSpace = s.activeSpace)
    (spaced : ∀ p proc, s'.procs p = some proc → proc.space ≠ none)
    (kept : ∀ p proc, s.procs p = some proc → proc.state = .alive → 0 < proc.aliveCount →
      ∃ proc', s'.procs p = some proc' ∧ proc'.space = proc.space ∧ proc'.state = .alive ∧ 0 < proc'.aliveCount)
    (owner : ∀ thread' p, s'.threads s'.current = some thread' → thread'.owner = some p →
      ∃ thread, s.threads s.current = some thread ∧ thread.owner = some p ∧ ∀ proc, s.procs p = some proc →
        ∃ proc', s'.procs p = some proc' ∧ proc'.space = proc.space) : ActiveInv s' := by
  refine ⟨spaced, ?_, ?_⟩
  · intro ptr isActive
    obtain ⟨p, proc, existing, isSpace, isAlive, positive⟩ := active.owner ptr (sameActive.symm.trans isActive)
    obtain ⟨proc', existing', sameSpace, facts⟩ := kept p proc existing isAlive positive
    exact ⟨p, proc', existing', sameSpace.trans isSpace, facts⟩
  · intro thread' p here isOwner
    obtain ⟨thread, found, isOwner', keeps⟩ := owner thread' p here isOwner
    obtain ⟨proc, existing, isSpace⟩ := active.current thread p found isOwner'
    obtain ⟨proc', existing', sameSpace⟩ := keeps proc existing
    exact ⟨proc', existing', by rw [sameSpace, isSpace, sameActive]⟩

/-- A call that changes no process, no owner of a thread and no current thread. -/
theorem ActiveInv.same (active : ActiveInv s) (sameActive : s'.activeSpace = s.activeSpace) (sameProcs : s'.procs = s.procs)
    (owner : ∀ thread', s'.threads s'.current = some thread' →
      ∃ thread, s.threads s.current = some thread ∧ thread.owner = thread'.owner) : ActiveInv s' := by
  refine active.keep sameActive ?_ ?_ ?_
  · rw [sameProcs]
    exact active.spaced
  · intro p proc existing isAlive positive
    exact ⟨proc, by rw [sameProcs, existing], rfl, isAlive, positive⟩
  · intro thread' p here isOwner
    obtain ⟨thread, found, same⟩ := owner thread' here
    exact ⟨thread, found, same.trans isOwner, fun proc existing => ⟨proc, by rw [sameProcs, existing], rfl⟩⟩

/-- A new process. -/
theorem ActiveInv.addProc (active : ActiveInv s) {p : HeapPtr} (fresh : s.procs p = none) (proc : Process)
    (hasSpace : proc.space ≠ none) (sameActive : s'.activeSpace = s.activeSpace)
    (isProcs : s'.procs = Function.update s.procs p (some proc))
    (owner : ∀ thread', s'.threads s'.current = some thread' →
      ∃ thread, s.threads s.current = some thread ∧ thread.owner = thread'.owner) : ActiveInv s' := by
  have kept (q : HeapPtr) (other : Process) (existing : s.procs q = some other) : s'.procs q = some other := by
    rw [isProcs, Function.update_of_ne, existing]
    intro same
    rw [same, fresh] at existing
    cases existing
  refine active.keep sameActive ?_ ?_ ?_
  · intro q other existing
    rw [isProcs, Function.update_apply] at existing
    split at existing
    · rw [← Option.some.inj existing]
      exact hasSpace
    · exact active.spaced q other existing
  · intro q other existing isAlive positive
    exact ⟨other, kept q other existing, rfl, isAlive, positive⟩
  · intro thread' q here isOwner
    obtain ⟨thread, found, same⟩ := owner thread' here
    exact ⟨thread, found, same.trans isOwner, fun other existing => ⟨other, kept q other existing, rfl⟩⟩

/-- A freed process is neither the owner of the active space nor of the current thread. -/
theorem ActiveInv.freeProc (active : ActiveInv s) {p : HeapPtr} (sameActive : s'.activeSpace = s.activeSpace)
    (isProcs : s'.procs = Function.update s.procs p none) (sameThreads : s'.threads = s.threads)
    (sameCurrent : s'.current = s.current)
    (idle : ∀ proc, s.procs p = some proc → proc.state = .alive → proc.aliveCount ≤ 0)
    (notOwner : ∀ thread, s.threads s.current = some thread → thread.owner ≠ some p) : ActiveInv s' := by
  refine active.keep sameActive ?_ ?_ ?_
  · intro q other existing
    rw [isProcs, Function.update_apply] at existing
    split at existing
    · cases existing
    · exact active.spaced q other existing
  · intro q other existing isAlive positive
    refine ⟨other, ?_, rfl, isAlive, positive⟩
    rw [isProcs, Function.update_of_ne, existing]
    intro same
    rw [same] at existing
    have none := idle other existing isAlive
    omega
  · intro thread q here isOwner
    rw [sameThreads, sameCurrent] at here
    refine ⟨thread, here, isOwner, fun proc existing => ⟨proc, ?_, rfl⟩⟩
    rw [isProcs, Function.update_of_ne, existing]
    intro same
    rw [same] at isOwner
    exact notOwner thread here isOwner

/-- What a call must do: it destroys another space than the active one, and it keeps the invariant. -/
def ActiveKept (s : Sched) (op : ProcOp) : Prop :=
  (∀ ptr, s.activeSpace = .user ptr → ptr ∉ s.destroys op) ∧ ∀ s', s.step op = .ok s' → ActiveInv s'

theorem ActiveInv.schedYield (active : ActiveInv s) (inv : ProcInv False s queue) :
    (∀ ptr, s.activeSpace = .user ptr → ptr ∉ yieldDestroys s) ∧ ∀ s', Proc.schedYield s = .ok s' → ActiveInv s' := by
  cases enabled : s.enabled with
  | false =>
      refine ⟨fun ptr _ => by simp [yieldDestroys, enabled], ?_⟩
      intro s' returned
      rw [Proc.schedYield, enabled] at returned
      rw [← Except.ok.inj returned]
      exact active
  | true =>
      obtain ⟨prev, ready⟩ := inv.run.yieldInv enabled
      have yields := active.activeYield inv.run inv.table ready.current
      exact ⟨fun ptr => yields.notDestroyed inv.table ready.zombieList, fun s' => yields.yield ready inv.table⟩

theorem ActiveInv.schedTick (active : ActiveInv s) (inv : ProcInv False s queue) : ActiveKept s .schedTick := by
  have active' : ActiveInv { s with ticks := wrap64 (s.ticks + 1) } := ⟨active.spaced, active.owner, active.current⟩
  have inv' : ProcInv False { s with ticks := wrap64 (s.ticks + 1) } queue :=
    ⟨inv.run.congr rfl rfl rfl rfl rfl rfl, inv.table⟩
  obtain ⟨spared, ticked⟩ := active'.schedYield inv'
  constructor
  · intro ptr isActive
    simp only [destroys_schedTick]
    split
    · exact spared ptr isActive
    · exact List.not_mem_nil
  · intro s' returned
    have tick := step_plain returned
    rw [Proc.schedTick] at tick
    split at tick
    · rw [← Except.ok.inj tick]
      exact active
    · simp only at tick
      split at tick
      · exact ticked s' tick
      · rw [← Except.ok.inj tick]
        exact ⟨active.spaced, active.owner, active.current⟩

theorem ActiveInv.schedStart (active : ActiveInv s) (inv : ProcInv False s queue) (isBoot : s.current = .bootstrap) :
    ActiveKept s .schedStart := by
  obtain ⟨boot, here, owner, _, ready, table⟩ := inv.started isBoot
  have yields : ActiveYield (started s boot) { boot with state := .blocked } := by
    refine ⟨active.spaced, ?_, ?_⟩
    · intro ptr isActive
      obtain ⟨p, proc, existing, isSpace, alive⟩ := active.owner ptr isActive
      exact ⟨p, proc, existing, isSpace, Or.inl alive⟩
    · intro p isOwner
      rw [owner] at isOwner
      cases isOwner
  constructor
  · intro ptr isActive
    simp only [destroys_schedStart, here, Option.map_some, Option.getD_some]
    exact yields.notDestroyed table ready.zombieList isActive
  · intro s' returned
    have starts := step_plain returned
    simp only [Proc.schedStart, Sched.thread, here, Result.ok_bind] at starts
    exact yields.yield ready table starts

theorem ActiveInv.threadExit (active : ActiveInv s) (inv : ProcInv False s queue)
    (here : s.threads s.current = some thread) (awake : thread.state ≠ .dead) (notBoot : s.current ≠ .bootstrap)
    (notIdle : s.idleThread ≠ some s.current) (toOwned : exitsToOwned s .threadExit = true) :
    ActiveKept s .threadExit := by
  obtain ⟨s₀, isExit, exited, table, sameActive, _⟩ := exitState_spec inv.table here awake
  obtain ⟨ready, alive⟩ := exited.yieldInv inv.run here awake notBoot notIdle
  have yields := exited.activeYield active inv sameActive here awake notIdle alive toOwned
  constructor
  · intro ptr isActive
    simp only [destroys_threadExit, isExit]
    exact yields.notDestroyed table ready.zombieList (sameActive.trans isActive)
  · intro s' returned
    have exits := step_plain returned
    rw [threadExit_eq, isExit, Result.ok_bind] at exits
    exact yields.yield ready table exits

theorem ActiveInv.processDestroy (active : ActiveInv s) (inv : ProcInv False s queue) {p : HeapPtr} {proc : Process}
    (runs : s.runs = true) (existing : s.procs p = some proc) (isAlive : proc.state = .alive) (alone : proc.threads = []) :
    ActiveKept s (.processDestroy p) := by
  have none : proc.aliveCount = 0 := by
    rw [(inv.table.ok p proc existing).alive, alone]
    rfl
  constructor
  · intro ptr isActive member
    simp only [destroys_processDestroy, existing, Option.bind_some, Option.mem_toList, userSpace_some] at member
    obtain ⟨q, other, existing', isSpace, _, positive⟩ := active.owner ptr isActive
    have same := inv.table.spaceInj p q proc other ptr existing existing' member isSpace
    rw [← same, existing] at existing'
    rw [← Option.some.inj existing', none] at positive
    exact absurd positive (lt_irrefl 0)
  · intro s' returned
    have destroyed := step_plain returned
    have inside : p ∈ s.head := (inv.table.head p).mpr ⟨proc, existing, isAlive⟩
    obtain ⟨spaces, _, isState⟩ := processDestroy_spec existing alone inside destroyed
    subst isState
    refine active.freeProc rfl rfl rfl rfl ?_ ?_
    · intro other existing' _
      rw [existing] at existing'
      rw [← Option.some.inj existing', none]
    · intro thread here isOwner
      obtain ⟨current, isCurrent, awake⟩ := Sched.runs_iff runs
      rw [here] at isCurrent
      obtain ⟨other, existing', member, _⟩ := inv.table.alive_pos here (Option.some.inj isCurrent ▸ awake) isOwner
      rw [existing] at existing'
      rw [← Option.some.inj existing', alone] at member
      cases member

theorem ActiveInv.processWaitpid (active : ActiveInv s) (inv : ProcInv False s queue) (runs : s.runs = true)
    (target : Nat) : ActiveKept s (.processWaitpid target) := by
  have zombie (cur : HeapPtr) (proc : Process) (member : cur ∈ s.procZombies) (existing : s.procs cur = some proc) :
      proc.state = .zombie := by
    obtain ⟨other, existing', state⟩ := (inv.table.zombie cur).mp member
    have found : s.procs cur = some other := existing'
    rw [existing] at found
    rw [Option.some.inj found]
    exact state
  constructor
  · intro ptr isActive member
    simp only [destroys_processWaitpid] at member
    split at member
    · rename_i cur proc rest searched
      rcases waitpidSearch_spec searched with ⟨isNone, _⟩ | ⟨cur', proc', isSome, listed, existing, _⟩
      · cases isNone
      · obtain ⟨rfl, rfl⟩ := Prod.mk.inj (Option.some.inj isSome)
        simp only [Option.mem_toList, userSpace_some] at member
        obtain ⟨q, other, existing', isSpace, isAlive, _⟩ := active.owner ptr isActive
        have same := inv.table.spaceInj cur q proc other ptr existing existing' member isSpace
        rw [← same, existing] at existing'
        rw [← Option.some.inj existing', zombie cur proc listed existing] at isAlive
        cases isAlive
    · cases member
  · intro s' returned
    obtain ⟨result, waited⟩ := step_pair returned
    rcases processWaitpid_spec waited with ⟨_, same, _⟩ | ⟨cur, proc, spaces, _, member, existing, _, _, isState⟩
    · rw [same]
      exact active
    · have isZombie := zombie cur proc member existing
      subst isState
      refine active.freeProc rfl rfl rfl rfl ?_ ?_
      · intro other existing' isAlive
        rw [existing] at existing'
        rw [← Option.some.inj existing', isZombie] at isAlive
        cases isAlive
      · intro thread here isOwner
        obtain ⟨current, isCurrent, awake⟩ := Sched.runs_iff runs
        rw [here] at isCurrent
        have awake : thread.state ≠ .dead := Option.some.inj isCurrent ▸ awake
        have owners : s.table.owners s.current = some (some cur, true) := by
          refine (ownersOf_some here).trans ?_
          rw [isOwner, bne_iff_ne.mpr awake]
        obtain ⟨other, existing', _, alive⟩ := inv.table.owned s.current cur true owners (Or.inr rfl)
        have found : s.procs cur = some other := existing'
        rw [existing] at found
        rw [← Option.some.inj found, isZombie] at alive
        cases alive.resolve_left id

/-- A new thread with or without an owner. -/
theorem ActiveInv.threadNew (active : ActiveInv s) (inv : ProcInv False s queue) {owner new : Option HeapPtr}
    {isUser stack : Bool} {result : Option ThreadPtr} (returned : threadNew s owner isUser new stack = .ok (result, s')) :
    ActiveInv s' := by
  rcases threadNew_spec returned with ⟨_, same⟩ | ⟨ptr, _, fresh, made⟩
  · rw [same]
    exact active
  · obtain ⟨current, here, _⟩ := inv.run.current
    have different : s.current ≠ .heap ptr := by
      intro same
      rw [same, fresh] at here
      cases here
    have sameCurrent (procs : HeapPtr → Option Process) (thread' : Thread)
        (here' : (withThread s ptr owner isUser procs).threads s.current = some thread') :
        s.threads s.current = some thread' := by
      rw [← here']
      simp only [withThread, Function.update_of_ne different]
    rcases made with ⟨_, isState⟩ | ⟨p, proc, _, existing, isState⟩
    · subst isState
      exact active.same rfl rfl fun thread' here' => ⟨thread', sameCurrent _ thread' here', rfl⟩
    · subst isState
      have kept (q : HeapPtr) (other : Process) (existing' : s.procs q = some other) :
          ∃ other', Function.update s.procs p (some (withNew proc (.heap ptr))) q = some other' ∧
            other'.space = other.space ∧ other'.state = other.state ∧ other.aliveCount ≤ other'.aliveCount := by
        rw [Function.update_apply]
        split
        · rename_i same
          rw [same, existing] at existing'
          rw [← Option.some.inj existing']
          exact ⟨_, rfl, rfl, rfl, Int.le_add_one (Int.le_refl _)⟩
        · exact ⟨other, existing', rfl, rfl, Int.le_refl _⟩
      refine active.keep rfl ?_ ?_ ?_
      · intro q other existing'
        simp only [withThread, Function.update_apply] at existing'
        split at existing'
        · rw [← Option.some.inj existing']
          exact active.spaced p proc existing
        · exact active.spaced q other existing'
      · intro q other existing' isAlive positive
        obtain ⟨other', isOther, sameSpace, sameState, later⟩ := kept q other existing'
        exact ⟨other', isOther, sameSpace, sameState.trans isAlive, lt_of_lt_of_le positive later⟩
      · intro thread' q here' isOwner
        refine ⟨thread', sameCurrent _ thread' here', isOwner, ?_⟩
        intro other existing'
        obtain ⟨other', isOther, sameSpace, _⟩ := kept q other existing'
        exact ⟨other', isOther, sameSpace⟩

/-- A failed creation changes nothing but the next process id. -/
theorem ActiveInv.onlyPid (active : ActiveInv s) (only : OnlyPid s s') : ActiveInv s' := by
  obtain ⟨nextPid, _, isState⟩ := only
  subst isState
  exact ⟨active.spaced, active.owner, active.current⟩

theorem ActiveInv.processFork (active : ActiveInv s) (inv : ProcInv False s queue) {new space thread : Option HeapPtr}
    {stack : Bool} (unused : (space.all fun sp => !s.spaces sp) = true) :
    ActiveKept s (.processFork new space thread stack) := by
  constructor
  · intro ptr isActive member
    simp only [destroys_processFork] at member
    split at member
    · obtain ⟨p, proc, existing, isSpace, _⟩ := active.owner ptr isActive
      have live : s.spaces ptr = true := inv.table.space p proc ptr existing isSpace
      rw [Option.mem_toList] at member
      rw [Option.mem_def.mp member, Option.all_some, live] at unused
      cases unused
    · cases member
  · intro s' returned
    obtain ⟨result, forked⟩ := step_pair returned
    rcases processFork_spec forked with ⟨_, only⟩ | ⟨child, sp, ptr, _, fresh, _, free, isState⟩
    · exact active.onlyPid only
    · obtain ⟨current, here, _⟩ := inv.run.current
      have different : s.current ≠ .heap ptr := by
        intro same
        rw [same, free] at here
        cases here
      subst isState
      refine active.addProc fresh (withNew ⟨s.nextPid, .alive, 0, some (.user sp), [], 0, 0⟩ (.heap ptr)) nofun rfl rfl ?_
      intro thread' here'
      refine ⟨thread', ?_, rfl⟩
      rw [← here']
      simp only [withThread, withChild, Function.update_of_ne different]

/-- Each call spares the active space and keeps the invariant, if the last exit of a process goes to an owned thread. -/
theorem ActiveInv.step (active : ActiveInv s) (inv : ProcInv False s queue) (permitted : s.allowed op = true)
    (toOwned : exitsToOwned s op = true) : ActiveKept s op := by
  have nothing : ∀ ptr, s.activeSpace = .user ptr → ptr ∉ ([] : List HeapPtr) := fun _ _ => List.not_mem_nil
  cases op with
  | processCreate new =>
      refine ⟨nothing, ?_⟩
      intro s' returned
      obtain ⟨result, made⟩ := step_pair returned
      rcases processCreate_spec made with ⟨_, same⟩ | ⟨p, _, fresh, isState⟩
      · rw [same]
        exact active
      · subst isState
        refine active.addProc fresh _ ?_ rfl rfl fun thread' here => ⟨thread', here, rfl⟩
        exact Option.some_ne_none _
  | processCreateUser new space =>
      refine ⟨nothing, ?_⟩
      intro s' returned
      obtain ⟨result, made⟩ := step_pair returned
      rcases processCreateUser_spec made with ⟨_, only⟩ | ⟨p, ptr, _, fresh, _, isState⟩
      · exact active.onlyPid only
      · subst isState
        refine active.addProc fresh _ ?_ rfl rfl fun thread' here => ⟨thread', here, rfl⟩
        exact Option.some_ne_none _
  | processDestroy p =>
      simp only [Sched.allowed, Bool.and_eq_true, Option.any_eq_true, beq_iff_eq, List.isEmpty_iff] at permitted
      obtain ⟨runs, proc, existing, isAlive, alone⟩ := permitted
      exact active.processDestroy inv runs existing isAlive alone
  | threadCreate owner entry new stack =>
      refine ⟨nothing, ?_⟩
      intro s' returned
      obtain ⟨result, made⟩ := step_pair returned
      rw [threadCreate] at made
      split at made
      · rw [← (Prod.mk.inj (Except.ok.inj made)).2]
        exact active
      · exact active.threadNew inv made
  | threadCreateUser owner entry new stack =>
      refine ⟨nothing, ?_⟩
      intro s' returned
      obtain ⟨result, made⟩ := step_pair returned
      rw [threadCreateUser] at made
      split at made
      · rw [← (Prod.mk.inj (Except.ok.inj made)).2]
        exact active
      · exact active.threadNew inv made
  | processFork new space thread stack =>
      simp only [Sched.allowed, Bool.and_eq_true] at permitted
      exact active.processFork inv permitted.1.2
  | schedSetIdle idle =>
      refine ⟨nothing, ?_⟩
      intro s' returned
      have set := step_plain returned
      cases idle with
      | none =>
          rw [← Except.ok.inj set]
          exact active
      | some t =>
          obtain ⟨other, found, stored⟩ := Result.bind_ok set
          have here := Sched.threads_of_ok found
          rw [← Except.ok.inj stored]
          refine active.same rfl rfl ?_
          intro thread' here'
          simp only [schedRemove, Sched.setThread, Function.update_apply] at here' here
          split at here'
          · rename_i same
            refine ⟨other, by rw [same]; exact here, ?_⟩
            rw [← Option.some.inj here']
          · exact ⟨thread', here', rfl⟩
  | schedStart =>
      simp only [Sched.allowed, Bool.and_eq_true, beq_iff_eq] at permitted
      exact active.schedStart inv permitted.2
  | schedYield =>
      obtain ⟨spared, kept⟩ := active.schedYield inv
      refine ⟨spared, ?_⟩
      intro s' returned
      have yielded := step_plain returned
      exact kept s' yielded
  | schedTick => exact active.schedTick inv
  | threadExit =>
      simp only [Sched.allowed, Bool.and_eq_true, bne_iff_ne, ne_eq] at permitted
      obtain ⟨⟨runs, notBoot⟩, notIdle⟩ := permitted
      obtain ⟨current, here, awake⟩ := Sched.runs_iff runs
      exact active.threadExit inv here awake notBoot (Ne.symm notIdle) toOwned
  | processWaitpid target => exact active.processWaitpid inv permitted target

/-- A call destroys the live spaces that it is said to destroy, and no others. -/
theorem destroys_spec (inv : ProcInv False s queue) (permitted : s.allowed op = true) (returned : s.step op = .ok s')
    (live : s.spaces ptr = true) : s'.spaces ptr = false ↔ ptr ∈ s.destroys op := by
  have unchanged (same : s'.spaces ptr = s.spaces ptr) (none : ptr ∉ s.destroys op) :
      s'.spaces ptr = false ↔ ptr ∈ s.destroys op := by
    rw [same, live]
    exact ⟨nofun, fun member => absurd member none⟩
  have cleared (list : List HeapPtr) (isList : s.destroys op = list)
      (spaces : s'.spaces ptr = if ptr ∈ list then false else s.spaces ptr) : s'.spaces ptr = false ↔ ptr ∈ s.destroys op := by
    rw [isList, spaces, live]
    simp
  cases op with
  | processCreate new =>
      obtain ⟨result, made⟩ := step_pair returned
      refine unchanged ?_ List.not_mem_nil
      rcases processCreate_spec made with ⟨_, same⟩ | ⟨p, _, _, same⟩ <;> rw [same]
  | processCreateUser new space =>
      obtain ⟨result, made⟩ := step_pair returned
      refine unchanged ?_ List.not_mem_nil
      rcases processCreateUser_spec made with ⟨_, _, _, same⟩ | ⟨p, other, _, _, unused, same⟩
      · rw [same]
      · have different : ptr ≠ other := by
          intro same
          rw [same, unused] at live
          cases live
        rw [same]
        exact Function.update_of_ne different _ _
  | processDestroy p =>
      have destroyed := step_plain returned
      simp only [Sched.allowed, Bool.and_eq_true, Option.any_eq_true, beq_iff_eq, List.isEmpty_iff] at permitted
      obtain ⟨_, proc, existing, _, alone⟩ := permitted
      simp only [Proc.processDestroy, s.proc_ok existing, alone, destroyThreads, Result.ok_bind] at destroyed
      obtain ⟨w, cleared', rest⟩ := Result.bind_ok destroyed
      have final : s'.spaces = w.spaces := by
        split at rest
        · rw [← Except.ok.inj rest]
          rfl
        · rw [← Except.ok.inj rest]
      refine cleared ((userSpace proc.space).toList) ?_ ?_
      · simp [destroys_processDestroy, existing]
      · rw [final, destroySpace_spaces cleared']
        simp
  | threadCreate owner entry new stack =>
      obtain ⟨result, made⟩ := step_pair returned
      refine unchanged ?_ List.not_mem_nil
      rw [Proc.threadCreate] at made
      split at made
      · rw [← (Prod.mk.inj (Except.ok.inj made)).2]
      · rcases threadNew_spec made with ⟨_, same⟩ | ⟨_, _, _, ⟨_, same⟩ | ⟨_, _, _, _, same⟩⟩ <;> rw [same] <;> rfl
  | threadCreateUser owner entry new stack =>
      obtain ⟨result, made⟩ := step_pair returned
      refine unchanged ?_ List.not_mem_nil
      rw [Proc.threadCreateUser] at made
      split at made
      · rw [← (Prod.mk.inj (Except.ok.inj made)).2]
      · rcases threadNew_spec made with ⟨_, same⟩ | ⟨_, _, _, ⟨_, same⟩ | ⟨_, _, _, _, same⟩⟩ <;> rw [same] <;> rfl
  | processFork new space thread stack =>
      obtain ⟨result, made⟩ := step_pair returned
      simp only [Sched.allowed, Bool.and_eq_true] at permitted
      have fresh : ∀ sp ∈ space, sp ≠ ptr := by
        intro sp isSpace same
        have unused := permitted.1.2
        rw [Option.mem_def.mp isSpace, Option.all_some, same, live] at unused
        cases unused
      refine unchanged ?_ ?_
      · rcases processFork_spec made with ⟨_, _, _, same⟩ | ⟨child, sp, t, ⟨_, _, isSpace, _⟩, _, _, _, same⟩
        · rw [same]
        · rw [same]
          exact Function.update_of_ne (Ne.symm (fresh sp isSpace)) _ _
      · intro member
        simp only [destroys_processFork] at member
        split at member
        · rw [Option.mem_toList] at member
          exact fresh ptr member rfl
        · cases member
  | schedSetIdle idle =>
      have set := step_plain returned
      refine unchanged ?_ List.not_mem_nil
      cases idle with
      | none => rw [← Except.ok.inj set]
      | some t =>
          obtain ⟨other, _, stored⟩ := Result.bind_ok set
          rw [← Except.ok.inj stored]
          rfl
  | schedStart =>
      have starts := step_plain returned
      simp only [Sched.allowed, Bool.and_eq_true, beq_iff_eq] at permitted
      obtain ⟨boot, here, _, _, ready, table⟩ := inv.started permitted.2
      simp only [Proc.schedStart, Sched.thread, here, Result.ok_bind] at starts
      refine cleared (yieldDestroys (started s boot)) ?_ (schedYield_spaces table ready.zombieList starts ptr)
      simp [destroys_schedStart, here]
  | schedYield =>
      have yielded := step_plain returned
      exact cleared _ rfl (schedYield_spaces inv.table inv.run.parts.zombieList yielded ptr)
  | schedTick =>
      have tick := step_plain returned
      rw [Proc.schedTick] at tick
      split at tick
      · rename_i disabled
        rw [Bool.not_eq_true'] at disabled
        refine unchanged (by rw [← Except.ok.inj tick]) ?_
        simp [destroys_schedTick, yieldDestroys, disabled]
      · simp only at tick
        split at tick
        · rename_i expired
          obtain ⟨holds, nodup, zombie⟩ := inv.run.parts.zombieList
          have zombies : ZombieList { s with ticks := wrap64 (s.ticks + 1) } queue := ⟨holds, nodup, zombie⟩
          have table : TableInv False ({ s with ticks := wrap64 (s.ticks + 1) } : Sched).table := inv.table
          refine cleared (yieldDestroys { s with ticks := wrap64 (s.ticks + 1) }) ?_
            (schedYield_spaces table zombies tick ptr)
          rw [destroys_schedTick, if_pos expired]
        · rename_i running
          refine unchanged (by rw [← Except.ok.inj tick]) ?_
          rw [destroys_schedTick, if_neg running]
          exact List.not_mem_nil
  | threadExit =>
      have exits := step_plain returned
      simp only [Sched.allowed, Bool.and_eq_true, bne_iff_ne, ne_eq] at permitted
      obtain ⟨⟨runs, notBoot⟩, notIdle⟩ := permitted
      obtain ⟨current, here, awake⟩ := Sched.runs_iff runs
      obtain ⟨s₀, isExit, exited, table, _, sameSpaces⟩ := exitState_spec inv.table here awake
      obtain ⟨ready, _⟩ := exited.yieldInv inv.run here awake notBoot (Ne.symm notIdle)
      rw [threadExit_eq, isExit, Result.ok_bind] at exits
      have spaces := schedYield_spaces table ready.zombieList exits ptr
      rw [sameSpaces] at spaces
      refine cleared (yieldDestroys s₀) ?_ spaces
      simp only [destroys_threadExit, isExit]
  | processWaitpid target =>
      obtain ⟨result, waited⟩ := step_pair returned
      obtain ⟨⟨found, rest⟩, searched, waited⟩ := Result.bind_ok waited
      cases found with
      | none =>
          refine unchanged (by rw [← (Prod.mk.inj (Except.ok.inj waited)).2]) ?_
          simp [destroys_processWaitpid, searched]
      | some pair =>
          obtain ⟨w, destroyed, waited⟩ := Result.bind_ok waited
          refine cleared ((userSpace pair.2.space).toList) ?_ ?_
          · simp only [destroys_processWaitpid, searched]
          · rw [← (Prod.mk.inj (Except.ok.inj waited)).2]
            refine (destroySpace_spaces destroyed ptr).trans ?_
            simp

theorem schedBoot_active : ActiveInv schedBoot := by
  refine ⟨nofun, nofun, ?_⟩
  intro thread p here isOwner
  simp only [schedBoot, if_true] at here
  rw [← Option.some.inj here] at isOwner
  cases isOwner

/-- In every run in which the last exit of a process with its own space goes to a thread with an owner, no call destroys the
active space, and the active space is that of the owner of the current thread. -/
theorem active_space_kept (run : Run Sched.step (fun s op => allowedAlive s op = true ∧ exitsToOwned s op = true) schedBoot
    ops s) :
    (∀ op, allowedAlive s op = true → exitsToOwned s op = true →
      ∀ ptr, s.activeSpace = .user ptr → ptr ∉ s.destroys op) ∧
    ∀ thread p, s.threads s.current = some thread → thread.owner = some p →
      ∃ proc, s.procs p = some proc ∧ proc.space = some s.activeSpace := by
  have kept : (∃ queue, ProcInv False s queue) ∧ ActiveInv s := by
    refine run.invariant (fun s => (∃ queue, ProcInv False s queue) ∧ ActiveInv s) ?_ ⟨⟨[], schedBoot_inv⟩, schedBoot_active⟩
    rintro before op after ⟨⟨queue, inv⟩, active⟩ ⟨permitted, toOwned⟩ returned
    obtain ⟨queue', inv', _⟩ := allowedAlive_step inv permitted returned
    rw [allowedAlive, Bool.and_eq_true] at permitted
    exact ⟨⟨queue', inv'⟩, (active.step inv permitted.1 toOwned).2 after returned⟩
  obtain ⟨⟨queue, inv⟩, active⟩ := kept
  refine ⟨?_, active.current⟩
  intro op permitted toOwned
  rw [allowedAlive, Bool.and_eq_true] at permitted
  exact (active.step inv permitted.1 toOwned).1

end

/-- A process and a kernel thread without owner; the thread of the process exits. -/
def exitToKernelThread : List ProcOp :=
  [.processCreateUser (some (heapPtr 0)) (some (heapPtr 1)), .threadCreateUser (some (heapPtr 0)) 1 (some (heapPtr 2)) true,
    .threadCreate none 1 (some (heapPtr 3)) true, .schedStart, .threadExit]

/-- The kernel thread runs in the space of the process that exited, and its next yield destroys that space. -/
theorem active_space_destroyed : ¬∀ (ops : List ProcOp) (s : Sched),
    Run Sched.step (fun s op => allowedAlive s op = true) schedBoot ops s → s.enabled = true →
    (∀ op, allowedAlive s op = true → ∀ ptr, s.activeSpace = .user ptr → ptr ∉ s.destroys op) ∧
    ∀ thread p, s.threads s.current = some thread → thread.owner = some p →
      ∃ proc, s.procs p = some proc ∧ proc.space = some s.activeSpace := by
  intro claim
  have checked : (exec Sched.step allowedAlive exitToKernelThread schedBoot).any (fun s => s.enabled &&
      allowedAlive s .schedYield && decide (s.activeSpace = .user (heapPtr 1)) &&
      decide (heapPtr 1 ∈ s.destroys .schedYield)) = true := by decide +kernel
  obtain ⟨s, run, facts⟩ := Run.exists_of_check checked
  simp only [Bool.and_eq_true, decide_eq_true_eq] at facts
  obtain ⟨⟨⟨enabled, permitted⟩, isActive⟩, destroyed⟩ := facts
  exact (claim _ s run enabled).1 .schedYield permitted _ isActive destroyed

/-- Two processes; the thread of the first one exits and the thread of the second one yields. -/
def exitToProcess : List ProcOp :=
  [.processCreateUser (some (heapPtr 0)) (some (heapPtr 1)), .processCreateUser (some (heapPtr 2)) (some (heapPtr 3)),
    .threadCreateUser (some (heapPtr 0)) 1 (some (heapPtr 4)) true,
    .threadCreateUser (some (heapPtr 2)) 1 (some (heapPtr 5)) true, .schedStart, .threadExit]

theorem active_space_kept_exit : ∃ s, Run Sched.step (fun s op => allowedAlive s op = true ∧ exitsToOwned s op = true)
    schedBoot exitToProcess s ∧ s.destroys .schedYield = [heapPtr 1] ∧ heapPtr 3 ∉ s.destroys .schedYield := by
  have checked : (exec Sched.step (fun s op => allowedAlive s op && exitsToOwned s op) exitToProcess schedBoot).any
      (fun s => allowedAlive s .schedYield && exitsToOwned s .schedYield && decide (s.activeSpace = .user (heapPtr 3)) &&
        decide (s.destroys .schedYield = [heapPtr 1])) = true := by decide +kernel
  obtain ⟨s, run, facts⟩ := Run.exists_of_check checked
  simp only [Bool.and_eq_true, decide_eq_true_eq] at facts
  obtain ⟨⟨⟨permitted, toOwned⟩, isActive⟩, destroyed⟩ := facts
  have run' := run.mono fun _ _ both => Bool.and_eq_true_iff.mp both
  exact ⟨s, run', destroyed, (active_space_kept run').1 _ permitted toOwned _ isActive⟩

end DoccrOS.Proc
