import DoccrOS.Proof.Proc.Steps

namespace DoccrOS.Proc
open Lib Mem

section
variable {strict orphans : Prop} {exits : ThreadPtr → Prop} {s s' s₀ : Sched} {queue : List ThreadPtr} {t : ThreadPtr} {thread prev : Thread} {p : HeapPtr}
  {proc : Process}

theorem dropAll_count {list : List ThreadPtr} (count : proc.threadCount = proc.threads.length) :
    (dropAll proc list).threadCount = (dropAll proc list).threads.length := by
  induction list generalizing proc with
  | nil => exact count
  | cons t list ih =>
      refine @ih (dropFrom proc t) ?_
      unfold dropFrom
      split
      · rename_i member
        have positive := List.length_pos_of_mem member
        simp only [count, List.length_erase_of_mem member]
        omega
      · exact count

/-- The process reaper frees a zombie process when all its threads are in the zombie list. -/
theorem spent_iff (inv : TableInv strict s.table) (existing : s.procs p = some proc) :
    spent (droppedProcs s) p = true ↔ ∀ t ∈ proc.threads, t ∈ s.zombies := by
  have ok := inv.ok p proc existing
  have count : (dropAll proc s.zombies).threadCount = (dropAll proc s.zombies).threads.length := dropAll_count ok.count
  have threads : (dropAll proc s.zombies).threads = proc.threads.filter (fun t => decide (t ∉ s.zombies)) := by
    rw [dropAll_threads, ok.nodup.sdiff_eq_filter]
  simp only [spent, droppedProcs, existing, Option.map_some, Option.any_some, beq_iff_eq, count, threads]
  rw [Int.natCast_eq_zero, List.length_eq_zero_iff, List.filter_eq_nil_iff]
  simp

theorem droppedProcs_some {proc' : Process} (dropped : droppedProcs s p = some proc') :
    ∃ proc, s.procs p = some proc ∧ proc' = dropAll proc s.zombies := by
  obtain ⟨proc, existing, same⟩ := Option.map_eq_some_iff.mp dropped
  exact ⟨proc, existing, same.symm⟩

/-- What a yield does to the processes and the threads. -/
theorem Yields.changes (yields : Yields s s') (inv : TableInv strict s.table)
    (dead : ∀ t ∈ s.zombies, stateOf s.threads t = some .dead) {turns : HeapPtr → Prop} (none : ∀ p, ¬turns p) :
    Changes strict orphans s s' turns exits := by
  have gone (t : ThreadPtr) : s'.threads t = Option.none ↔ t ∈ s.zombies ∨ s.threads t = Option.none := by
    have owners := congrFun yields.owners t
    simp only [ownersOf] at owners
    constructor
    · intro isNone
      rw [isNone] at owners
      split at owners
      · rename_i member
        exact Or.inl member
      · exact Or.inr (Option.map_eq_none_iff.mp owners.symm)
    · intro reason
      rw [← Option.map_eq_none_iff, owners]
      split
      · rfl
      · rename_i outside
        rw [reason.resolve_left outside]
        rfl
  refine ⟨?_, fun p turns => absurd turns (none p), ?_, ?_, ?_, ?_, ?_⟩
  · intro p proc proc' existing existing' _
    rw [yields.procs, reapedProcs] at existing'
    split at existing'
    · cases existing'
    · obtain ⟨other, isOther, same⟩ := droppedProcs_some existing'
      rw [existing] at isOther
      rw [same, dropAll_fields.2.1, Option.some.inj isOther]
  · intro _ p proc existing freed t member
    rw [yields.procs, reapedProcs] at freed
    split at freed
    · rename_i reaped
      exact (gone t).mpr (Or.inl ((spent_iff inv existing).mp reaped.2 t member))
    · rw [droppedProcs, existing] at freed
      cases freed
  · rintro pid ⟨used, absent⟩
    refine ⟨by rw [yields.nextPid]; exact used, ?_⟩
    intro p proc' existing'
    rw [yields.procs, reapedProcs] at existing'
    split at existing'
    · cases existing'
    · obtain ⟨proc, existing, same⟩ := droppedProcs_some existing'
      rw [same, dropAll_fields.1]
      exact absent p proc existing
  · intro t thread here isGone
    rcases (gone t).mp isGone with member | isNone
    · exact member
    · rw [here] at isNone
      cases isNone
  · intro t live _
    have outside : t ∉ s.zombies := by
      intro member
      obtain ⟨thread, here, isDead⟩ := exists_of_stateOf (dead t member)
      rw [liveIn_some here, isDead] at live
      cases live
    have same := congrFun yields.owners t
    simp only [if_neg outside] at same
    rw [liveIn, same]
    exact live
  · intro t thread' here noOwner
    have owners := congrFun yields.owners t
    rw [ownersOf_some here, noOwner] at owners
    split at owners
    · cases owners
    · obtain ⟨thread, here', same⟩ := Option.map_eq_some_iff.mp owners.symm
      exact Or.inr ⟨thread, here', (Prod.mk.inj same).1⟩

theorem RunInv.notQueued (inv : RunInv s queue) : s.current ∉ queue := by
  intro member
  obtain ⟨current, here, awake, _⟩ := inv.current
  have isReady := inv.parts.ready _ member
  rw [stateOf_some here] at isReady
  exact awake (Option.some.inj isReady)

/-- A yield between two calls. -/
theorem RunInv.yieldInv (inv : RunInv s queue) (enabled : s.enabled = true) : ∃ prev, YieldInv s queue prev := by
  obtain ⟨prev, here, awake, blocked, _⟩ := inv.current
  obtain ⟨boot, isBoot, owner, state⟩ := inv.parts.bootstrap
  rw [enabled, if_pos rfl] at state
  exact ⟨prev, inv.parts.holds, inv.parts.nodup, inv.parts.ready, inv.parts.idle, inv.parts.zombieNodup,
    fun t member => (inv.parts.zombie t).mp member, fun t dead => Or.inl ((inv.parts.zombie t).mpr dead),
    ⟨boot, isBoot, owner, state⟩, here, awake, blocked, enabled⟩

theorem ProcInv.schedYield (inv : ProcInv strict s queue) {turns : HeapPtr → Prop} (none : ∀ p, ¬turns p)
    (returned : schedYield s = .ok s') :
    ∃ queue', ProcInv strict s' queue' ∧
      (NoneLost s queue → (s.enabled = true → requeues s = true → s.readyQ.cnt < schedMaxThreads) → NoneLost s' queue') ∧
      Changes strict orphans s s' turns exits := by
  cases enabled : s.enabled with
  | false =>
      rw [Proc.schedYield, enabled] at returned
      rw [← Except.ok.inj returned]
      refine ⟨queue, inv, fun noneLost _ => noneLost, ?_⟩
      exact Changes.of_same none rfl rfl (Nat.le_refl _)
  | true =>
      obtain ⟨prev, ready⟩ := inv.run.yieldInv enabled
      obtain ⟨queue', run, table, yields, noneLost⟩ := ready.yield inv.table returned
      exact ⟨queue', ⟨run, table⟩, fun kept room => noneLost kept (room rfl), yields.changes inv.table ready.zombie none⟩

theorem ProcInv.schedTick (inv : ProcInv strict s queue) {turns : HeapPtr → Prop} (none : ∀ p, ¬turns p)
    (returned : schedTick s = .ok s') :
    ∃ queue', ProcInv strict s' queue' ∧
      (NoneLost s queue →
        (s.enabled = true → wrap64 (s.ticks + 1) % quantum = 0 → requeues s = true → s.readyQ.cnt < schedMaxThreads) →
        NoneLost s' queue') ∧
      Changes strict orphans s s' turns exits := by
  rw [Proc.schedTick] at returned
  split at returned
  · rw [← Except.ok.inj returned]
    refine ⟨queue, inv, fun noneLost _ => noneLost, ?_⟩
    exact Changes.of_same none rfl rfl (Nat.le_refl _)
  · have inv' : ProcInv strict { s with ticks := wrap64 (s.ticks + 1) } queue :=
      ⟨inv.run.congr rfl rfl rfl rfl rfl rfl, inv.table⟩
    simp only at returned
    split at returned
    · rename_i expired
      obtain ⟨queue', inv'', noneLost, changes⟩ := inv'.schedYield none returned
      refine ⟨queue', inv'', ?_, changes.state, changes.turned, changes.freed, changes.gone, changes.vanished, changes.awake, changes.orphan⟩
      exact fun kept room => noneLost (kept.congr rfl rfl rfl) fun isOn => room isOn expired
    · rw [← Except.ok.inj returned]
      refine ⟨queue, inv', fun noneLost _ => noneLost.congr rfl rfl rfl, ?_⟩
      exact Changes.of_same none rfl rfl (Nat.le_refl _)

/-- The state in which `sched_start` yields. -/
def started (s : Sched) (boot : Thread) : Sched :=
  { s with
    enabled := true
    threads := Function.update s.threads .bootstrap (some { boot with state := .blocked }) }

theorem started_bootstrap (s : Sched) (boot : Thread) :
    (started s boot).threads .bootstrap = some { boot with state := .blocked } := by
  simp only [started, Function.update_self]

theorem started_other (boot : Thread) (different : t ≠ .bootstrap) : (started s boot).threads t = s.threads t := by
  simp only [started, Function.update_of_ne different]

/-- The scheduler when `sched_start` yields. -/
theorem ProcInv.started (inv : ProcInv strict s queue) (isBoot : s.current = .bootstrap) :
    ∃ boot, s.threads .bootstrap = some boot ∧ boot.owner = none ∧ boot.state ≠ .dead ∧
      YieldInv (started s boot) queue { boot with state := .blocked } ∧ TableInv strict (started s boot).table := by
  obtain ⟨boot, here, owner, state⟩ := inv.run.parts.bootstrap
  have awake : boot.state ≠ .dead := by
    rw [state]
    split <;> rintro ⟨⟩
  have notReady : boot.state ≠ .ready := by
    rw [state]
    split <;> rintro ⟨⟩
  have isBlocked := started_bootstrap s boot
  have sameOwners : ownersOf (Function.update s.threads .bootstrap (some { boot with state := .blocked })) =
      ownersOf s.threads := ownersOf_setState s.threads here awake (by rintro ⟨⟩)
  have states (u : ThreadPtr) (state : ThreadState) (isState : stateOf s.threads u = some state)
      (different : u ≠ .bootstrap) : stateOf (Proc.started s boot).threads u = some state := by
    rw [stateOf, started_other boot different]
    exact isState
  have queued (u : ThreadPtr) (member : u ∈ queue) : u ≠ .bootstrap := by
    intro same
    have isReady := inv.run.parts.ready u member
    rw [same, stateOf_some here] at isReady
    exact notReady (Option.some.inj isReady)
  have buried (u : ThreadPtr) (dead : stateOf s.threads u = some .dead) : u ≠ .bootstrap := by
    intro same
    rw [same, stateOf_some here] at dead
    exact awake (Option.some.inj dead)
  refine ⟨boot, here, owner, awake, ?_, ?_⟩
  · refine ⟨inv.run.parts.holds, inv.run.parts.nodup, ?_, ?_, inv.run.parts.zombieNodup, ?_, ?_,
      ⟨_, isBlocked, owner, rfl⟩, ?_, (by rintro ⟨⟩), fun _ => isBoot, rfl⟩
    · exact fun u member => states u .ready (inv.run.parts.ready u member) (queued u member)
    · intro u isIdle
      obtain ⟨outside, notBoot, other, here', awake'⟩ := inv.run.parts.idle u isIdle
      exact ⟨outside, notBoot, other, (started_other boot notBoot).trans here', awake'⟩
    · intro u member
      have dead := (inv.run.parts.zombie u).mp member
      exact states u .dead dead (buried u dead)
    · intro u dead
      simp only [Proc.started, stateOf_update] at dead
      split at dead
      · cases dead
      · exact Or.inl ((inv.run.parts.zombie u).mpr dead)
    · rw [← isBoot] at isBlocked
      exact isBlocked
  · simp only [Sched.table, Proc.started, sameOwners]
    exact inv.table

theorem ProcInv.schedStart (inv : ProcInv strict s queue) (isBoot : s.current = .bootstrap) {turns : HeapPtr → Prop}
    (none : ∀ p, ¬turns p) (returned : schedStart s = .ok s') :
    ∃ queue', ProcInv strict s' queue' ∧ (NoneLost s queue → NoneLost s' queue') ∧ Changes strict orphans s s' turns exits := by
  obtain ⟨boot, here, owner, awake, ready, table⟩ := inv.started isBoot
  simp only [Proc.schedStart, Sched.thread, here, Result.ok_bind] at returned
  obtain ⟨queue', run, table', yields, noneLost⟩ := ready.yield table returned
  refine ⟨queue', ⟨run, table'⟩, ?_, ?_⟩
  · intro kept
    refine noneLost (kept.congr (ownersOf_setState s.threads here awake (by rintro ⟨⟩)) rfl rfl) ?_
    intro pushes
    have isCurrent : (Proc.started s boot).current = .bootstrap := isBoot
    simp [requeues, isCurrent, started_bootstrap] at pushes
  · have later : Changes strict orphans _ s' turns exits := yields.changes table ready.zombie none
    obtain ⟨states', turned, freed, gone, vanished, awake', orphan⟩ := later
    refine ⟨states', turned, freed, gone, ?_, ?_, ?_⟩
    · intro u other here' gone
      by_cases same : u = .bootstrap
      · rw [same] at gone ⊢
        exact vanished .bootstrap _ (started_bootstrap s boot) gone
      · exact vanished u other ((started_other boot same).trans here') gone
    · intro u live
      refine awake' u ?_
      simp only [Proc.started, ownersOf_setState s.threads here awake ((by rintro ⟨⟩) : ThreadState.blocked ≠ .dead), live]
    · intro u other here' noOwner
      refine (orphan u other here' noOwner).imp id ?_
      rintro ⟨before, isBefore, noOwner'⟩
      by_cases same : u = .bootstrap
      · rw [same]
        exact ⟨boot, here, owner⟩
      · exact ⟨before, (started_other boot same).symm.trans isBefore, noOwner'⟩

/-- The current thread is the last live one of a process that is alive. -/
def lastOf (s : Sched) (p : HeapPtr) : Prop :=
  ∃ self proc, s.threads s.current = some self ∧ self.owner = some p ∧ s.procs p = some proc ∧ proc.state = .alive ∧
    proc.aliveCount = 1

/-- The part of `thread_exit` before the yield. -/
def exitState (s : Sched) : Result Sched := do
  let self ← s.thread s.current
  let s := s.setThread s.current { self with state := .dead }
  match self.owner with
  | none => return s
  | some owner => do
    let proc ← s.proc owner
    let s := s.setProc owner { proc with aliveCount := proc.aliveCount - 1 }
    if proc.aliveCount - 1 ≤ 0 ∧ proc.state = .alive then processExit s owner 0 else return s

theorem threadExit_eq (s : Sched) : threadExit s = exitState s >>= Proc.schedYield := by
  rw [threadExit, exitState, bind_assoc]
  congr 1
  funext self
  cases self.owner with
  | none => rfl
  | some owner =>
      simp only [bind_assoc]
      congr 1
      funext proc
      split <;> rfl

/-- The state in which a thread that exits yields. -/
structure Exited (s s₀ : Sched) (exiting : Thread) : Prop where
  threads : s₀.threads = Function.update s.threads s.current (some { exiting with state := .dead })
  readyQ : s₀.readyQ = s.readyQ
  idle : s₀.idleThread = s.idleThread
  zombies : s₀.zombies = s.zombies
  enabled : s₀.enabled = s.enabled
  current : s₀.current = s.current
  nextPid : s₀.nextPid = s.nextPid
  procs : (exiting.owner = none ∧ s₀.procs = s.procs) ∨ ∃ p proc, exiting.owner = some p ∧ s.procs p = some proc ∧
    ((s₀.procs = Function.update s.procs p (some { proc with aliveCount := proc.aliveCount - 1 }) ∧ ¬lastOf s p) ∨
      (s₀.procs = Function.update s.procs p
        (some { proc with aliveCount := proc.aliveCount - 1, exitCode := 0, state := .zombie }) ∧ lastOf s p))

/-- The counter of a process with a live thread. -/
theorem TableInv.alive_pos (inv : TableInv strict s.table) (here : s.threads t = some thread) (awake : thread.state ≠ .dead)
    (isOwner : thread.owner = some p) : ∃ proc, s.procs p = some proc ∧ t ∈ proc.threads ∧ 0 < proc.aliveCount := by
  have live : liveIn (ownersOf s.threads) t = true := by
    rw [liveIn_some here]
    exact bne_iff_ne.mpr awake
  have owners : s.table.owners t = some (some p, true) := by
    refine (ownersOf_some here).trans ?_
    rw [isOwner, bne_iff_ne.mpr awake]
  obtain ⟨proc, existing, member, _⟩ := inv.owned t p true owners (Or.inr rfl)
  refine ⟨proc, existing, member, ?_⟩
  rw [(inv.ok p proc existing).alive]
  exact Int.natCast_pos.mpr (List.countP_pos_iff.mpr ⟨t, member, live⟩)

/-- The part of `thread_exit` before the yield. -/
theorem exitState_spec (inv : TableInv strict s.table) (here : s.threads s.current = some thread)
    (awake : thread.state ≠ .dead) :
    ∃ s₀, exitState s = .ok s₀ ∧ Exited s s₀ thread ∧ TableInv strict s₀.table ∧ s₀.activeSpace = s.activeSpace ∧
      s₀.spaces = s.spaces := by
  have isAwake : (thread.state != .dead) = true := bne_iff_ne.mpr awake
  simp only [exitState, s.thread_ok here, Result.ok_bind]
  split
  · rename_i owner
    refine ⟨_, rfl, ⟨rfl, rfl, rfl, rfl, rfl, rfl, rfl, Or.inl ⟨owner, rfl⟩⟩, ?_, rfl, rfl⟩
    simp only [Sched.table, Sched.setThread, ownersOf_update]
    refine inv.setOrphan ?_ ?_
    · intro q other existing
      refine inv.notListed (ownersOf_some here) existing ?_
      rw [owner]
      rintro ⟨⟩
    · intro q live
      simp [owner]
  · rename_i p owner
    obtain ⟨proc, existing, _, positive⟩ := inv.alive_pos here awake owner
    have owners : s.table.owners s.current = some (some p, true) := by
      refine (ownersOf_some here).trans ?_
      rw [owner, isAwake]
    have killed := inv.kill owners existing
    simp only [Sched.setThread, Sched.proc, existing, Result.ok_bind]
    by_cases last : proc.aliveCount - 1 ≤ 0 ∧ proc.state = .alive
    · rw [if_pos last]
      have isLast : lastOf s p := ⟨thread, proc, here, owner, existing, last.2, by omega⟩
      simp only [processExit, Sched.proc, Sched.setProc, Function.update_self, Result.ok_bind, last.2, ne_eq,
        not_true_eq_false, if_false]
      refine ⟨_, rfl, ⟨rfl, rfl, rfl, rfl, rfl, rfl, rfl, Or.inr ⟨p, proc, owner, existing, Or.inr ⟨?_, isLast⟩⟩⟩, ?_, rfl, rfl⟩
      · simp only [unlinkProc, Function.update_idem]
      · have existing' : Function.update s.procs p (some { proc with aliveCount := proc.aliveCount - 1 }) p =
            some { proc with aliveCount := proc.aliveCount - 1 } := Function.update_self _ _ _
        have exited := killed.exit existing' last.2 0 last.1
        simp only [Function.update_idem] at exited
        simp only [Sched.table, unlinkProc, ownersOf_update, Function.update_idem, Option.map_some, owner]
        exact exited
    · rw [if_neg last]
      have notLast : ¬lastOf s p := by
        rintro ⟨_, other, _, _, existing', isAlive, count⟩
        rw [existing] at existing'
        rw [← Option.some.inj existing'] at isAlive count
        exact last ⟨by omega, isAlive⟩
      refine ⟨_, rfl, ⟨rfl, rfl, rfl, rfl, rfl, rfl, rfl, Or.inr ⟨p, proc, owner, existing, Or.inl ⟨rfl, notLast⟩⟩⟩, ?_, rfl, rfl⟩
      simp only [Sched.table, Sched.setProc, ownersOf_update, Option.map_some, owner]
      exact killed

theorem threadExit_spec (inv : TableInv strict s.table) (here : s.threads s.current = some thread)
    (awake : thread.state ≠ .dead) :
    ∃ s₀, threadExit s = Proc.schedYield s₀ ∧ Exited s s₀ thread ∧ TableInv strict s₀.table := by
  obtain ⟨s₀, exited, facts, table, _⟩ := exitState_spec inv here awake
  refine ⟨s₀, ?_, facts, table⟩
  rw [threadExit_eq, exited, Result.ok_bind]

/-- The scheduler when a thread that exits yields. -/
theorem Exited.yieldInv (exited : Exited s s₀ thread) (inv : RunInv s queue) (here : s.threads s.current = some thread)
    (awake : thread.state ≠ .dead) (notBoot : s.current ≠ .bootstrap) (notIdle : s.idleThread ≠ some s.current) :
    YieldInv s₀ queue { thread with state := .dead } ∧ s₀.current ∉ s₀.zombies := by
  have notZombie : s.current ∉ s.zombies := by
    intro member
    have dead := (inv.parts.zombie _).mp member
    rw [stateOf_some here] at dead
    exact awake (Option.some.inj dead)
  have others (u : ThreadPtr) (different : u ≠ s.current) : s₀.threads u = s.threads u := by
    rw [exited.threads, Function.update_of_ne different]
  have enabled : s.enabled = true := by
    cases isOn : s.enabled with
    | true => rfl
    | false => exact absurd (inv.disabled isOn) notBoot
  refine ⟨⟨?_, inv.parts.nodup, ?_, ?_, ?_, ?_, ?_, ?_, ?_, nofun, nofun, ?_⟩, ?_⟩
  · rw [exited.readyQ]
    exact inv.parts.holds
  · intro u member
    have different : u ≠ s.current := fun same => inv.notQueued (same ▸ member)
    rw [stateOf, others u different]
    exact inv.parts.ready u member
  · intro u isIdle
    rw [exited.idle] at isIdle
    obtain ⟨outside, notBoot', other, here', awake'⟩ := inv.parts.idle u isIdle
    refine ⟨outside, notBoot', other, ?_, awake'⟩
    rw [others u fun same => notIdle (same ▸ isIdle), here']
  · rw [exited.zombies]
    exact inv.parts.zombieNodup
  · intro u member
    rw [exited.zombies] at member
    rw [stateOf, others u fun same => notZombie (same ▸ member)]
    exact (inv.parts.zombie u).mp member
  · intro u dead
    by_cases same : u = s.current
    · rw [exited.current]
      exact Or.inr same
    · rw [stateOf, others u same] at dead
      rw [exited.zombies]
      exact Or.inl ((inv.parts.zombie u).mpr dead)
  · obtain ⟨boot, isBoot, owner, state⟩ := inv.parts.bootstrap
    rw [enabled, if_pos rfl] at state
    exact ⟨boot, (others .bootstrap (Ne.symm notBoot)).trans isBoot, owner, state⟩
  · rw [exited.current, exited.threads, Function.update_self]
  · rw [exited.enabled]
    exact enabled
  · rw [exited.current, exited.zombies]
    exact notZombie

/-- An exit kills the current thread, and the process of the last thread becomes a zombie that stays. -/
theorem Exited.changes (exited : Exited s s₀ thread) (inv : TableInv strict s.table) (table : TableInv strict s₀.table)
    (here : s.threads s.current = some thread) (awake : thread.state ≠ .dead) (alive : s₀.current ∉ s₀.zombies)
    (dead : ∀ t ∈ s₀.zombies, stateOf s₀.threads t = some .dead) (yields : Yields s₀ s') :
    Changes strict orphans s s' (lastOf s) (· = s.current) := by
  have later : Changes strict orphans s₀ s' (fun _ => False) (fun _ => False) := yields.changes table dead fun _ => id
  have isOwner (p : HeapPtr) (last : lastOf s p) : thread.owner = some p := by
    obtain ⟨self, _, isSelf, isOwner, _⟩ := last
    rw [here] at isSelf
    rw [Option.some.inj isSelf]
    exact isOwner
  have before (p : HeapPtr) (proc : Process) (existing : s.procs p = some proc) :
      ∃ proc₀, s₀.procs p = some proc₀ ∧ proc₀.threads = proc.threads ∧ (¬lastOf s p → proc₀.state = proc.state) ∧
        (lastOf s p → proc₀.state = .zombie) := by
    rcases exited.procs with ⟨noOwner, same⟩ | ⟨q, other, isOwner', existing', stored⟩
    · refine ⟨proc, by rw [same, existing], rfl, fun _ => rfl, ?_⟩
      intro last
      rw [isOwner p last] at noOwner
      cases noOwner
    · by_cases same : p = q
      · subst same
        rw [existing] at existing'
        have isOther := Option.some.inj existing'
        subst isOther
        rcases stored with ⟨isStored, notLast⟩ | ⟨isStored, last⟩
        · rw [isStored, Function.update_self]
          exact ⟨_, rfl, rfl, fun _ => rfl, fun last => absurd last notLast⟩
        · rw [isStored, Function.update_self]
          exact ⟨_, rfl, rfl, fun notLast => absurd last notLast, fun _ => rfl⟩
      · have kept : s₀.procs p = some proc := by
          rcases stored with ⟨isStored, _⟩ | ⟨isStored, _⟩ <;> rw [isStored, Function.update_of_ne same, existing]
        refine ⟨proc, kept, rfl, fun _ => rfl, ?_⟩
        intro last
        rw [isOwner p last] at isOwner'
        exact absurd (Option.some.inj isOwner') same
  have kept (pid : Nat) (absent : s.gone pid) : s₀.gone pid := by
    refine ⟨by rw [exited.nextPid]; exact absent.1, ?_⟩
    intro p proc₀ existing₀
    rcases exited.procs with ⟨_, same⟩ | ⟨q, other, _, existing, stored⟩
    · rw [same] at existing₀
      exact absent.2 p proc₀ existing₀
    · rcases stored with ⟨isStored, _⟩ | ⟨isStored, _⟩ <;> rw [isStored, Function.update_apply] at existing₀ <;>
        split at existing₀
      · rw [← Option.some.inj existing₀]
        exact absent.2 q other existing
      · exact absent.2 p proc₀ existing₀
      · rw [← Option.some.inj existing₀]
        exact absent.2 q other existing
      · exact absent.2 p proc₀ existing₀
  refine ⟨?_, ?_, ?_, fun pid absent => later.gone pid (kept pid absent), ?_, ?_, ?_⟩
  · intro p proc proc' existing existing' notLast
    obtain ⟨proc₀, existing₀, _, sameState, _⟩ := before p proc existing
    rw [later.state p proc₀ proc' existing₀ existing' id, sameState notLast]
  · intro p last
    obtain ⟨self, proc, isSelf, _, existing, _⟩ := id last
    obtain ⟨proc₀, existing₀, sameThreads, _, isZombie⟩ := before p proc existing
    obtain ⟨other, isOther, member, _⟩ := inv.alive_pos here awake (isOwner p last)
    rw [existing] at isOther
    rw [← Option.some.inj isOther, ← sameThreads] at member
    have notSpent : ¬spent (droppedProcs s₀) p = true := by
      rw [spent_iff table existing₀]
      intro all
      rw [← exited.current] at member
      exact alive (all _ member)
    refine ⟨dropAll proc₀ s₀.zombies, ?_, ?_⟩
    · rw [yields.procs, reapedProcs, if_neg fun both => notSpent both.2, droppedProcs, existing₀, Option.map_some]
    · rw [dropAll_fields.2.1, isZombie last]
  · intro isStrict p proc existing gone t member
    obtain ⟨proc₀, existing₀, sameThreads, _⟩ := before p proc existing
    rw [← sameThreads] at member
    exact later.freed isStrict p proc₀ existing₀ gone t member
  · intro t other here' gone
    have exists₀ : ∃ other₀, s₀.threads t = some other₀ := by
      rw [exited.threads, Function.update_apply]
      split
      · exact ⟨_, rfl⟩
      · exact ⟨other, here'⟩
    obtain ⟨other₀, here₀⟩ := exists₀
    rw [← exited.zombies]
    exact later.vanished t other₀ here₀ gone
  · intro t live different
    refine later.awake t ?_ id
    rw [exited.threads, ownersOf_update, liveIn_update, if_neg different]
    exact live
  · intro t other here' noOwner
    refine (later.orphan t other here' noOwner).imp id ?_
    rintro ⟨before, isBefore, noOwner'⟩
    rw [exited.threads, Function.update_apply] at isBefore
    split at isBefore
    · rename_i same
      rw [← Option.some.inj isBefore] at noOwner'
      rw [same]
      exact ⟨thread, here, noOwner'⟩
    · exact ⟨before, isBefore, noOwner'⟩

theorem ProcInv.threadExit (inv : ProcInv strict s queue) (here : s.threads s.current = some thread)
    (awake : thread.state ≠ .dead) (notBoot : s.current ≠ .bootstrap) (notIdle : s.idleThread ≠ some s.current)
    (returned : threadExit s = .ok s') :
    ∃ queue', ProcInv strict s' queue' ∧ (NoneLost s queue → NoneLost s' queue') ∧ Changes strict orphans s s' (lastOf s) (· = s.current) := by
  obtain ⟨s₀, same, exited, table⟩ := threadExit_spec inv.table here awake
  rw [same] at returned
  obtain ⟨ready, alive⟩ := exited.yieldInv inv.run here awake notBoot notIdle
  obtain ⟨queue', run, table', yields, noneLost⟩ := ready.yield table returned
  refine ⟨queue', ⟨run, table'⟩, ?_, exited.changes inv.table table here awake alive ready.zombie yields⟩
  intro kept
  refine noneLost ?_ ?_
  · intro t live notBoot' notIdle'
    rw [exited.threads, ownersOf_update, liveIn_update] at live
    rw [exited.idle] at notIdle'
    rw [exited.current]
    split at live
    · cases live
    · exact kept t live notBoot' notIdle'
  · intro pushes
    simp [requeues, ready.current] at pushes

/-- A freed process does not bring back a process id. -/
theorem Sched.gone_freeProc {spaces : HeapPtr → Bool} {head procZombies : List HeapPtr} (pid : Nat) (absent : s.gone pid) :
    Sched.gone { s with
      procs := Function.update s.procs p none
      spaces := spaces
      head := head
      procZombies := procZombies } pid := by
  refine ⟨absent.1, ?_⟩
  intro q other existing
  simp only [Function.update_apply] at existing
  split at existing
  · cases existing
  · exact absent.2 q other existing

/-- A process without threads is destroyed. -/
theorem ProcInv.processDestroy (inv : ProcInv strict s queue) (existing : s.procs p = some proc)
    (isAlive : proc.state = .alive) (alone : proc.threads = []) {turns : HeapPtr → Prop} (none : ∀ p, ¬turns p)
    (returned : processDestroy s p = .ok s') :
    ProcInv strict s' queue ∧ (NoneLost s queue → NoneLost s' queue) ∧ Changes strict orphans s s' turns exits := by
  have inside : p ∈ s.head := (inv.table.head p).mpr ⟨proc, existing, isAlive⟩
  obtain ⟨spaces, kept, isState⟩ := processDestroy_spec existing alone inside returned
  subst isState
  have notZombie : p ∉ s.procZombies := by
    intro member
    exact inv.table.zombie_notHead member inside
  have table := inv.table.freeProc existing (inv.table.unowned_of_alone existing alone) spaces kept
  have sameZombies : s.table.zombies.erase p = s.procZombies := List.erase_of_not_mem notZombie
  rw [sameZombies] at table
  refine ⟨⟨inv.run.congr rfl rfl rfl rfl rfl rfl, table⟩, fun noneLost => noneLost.congr rfl rfl rfl, ?_, ?_, ?_,
    Sched.gone_freeProc, ?_, fun t live _ => live, fun t other here noOwner => Or.inr ⟨other, here, noOwner⟩⟩
  · intro q other other' exists' exists'' _
    simp only [Function.update_apply] at exists''
    split at exists''
    · cases exists''
    · rw [exists'] at exists''
      rw [Option.some.inj exists'']
  · exact fun q turns => absurd turns (none q)
  · intro _ q other exists' gone t member
    simp only [Function.update_apply] at gone
    split at gone
    · rename_i same
      rw [same, existing] at exists'
      rw [← Option.some.inj exists', alone] at member
      cases member
    · rw [exists'] at gone
      cases gone
  · intro t other here gone
    rw [here] at gone
    cases gone

/-- `process_waitpid` frees a zombie process. In the strict form it must have no threads. -/
theorem ProcInv.processWaitpid (inv : ProcInv strict s queue) {target : Nat} {result : Option Int}
    (safe : strict → ∀ p ∈ s.procZombies, ∀ proc, s.procs p = some proc → (target = minusOne ∨ target = proc.pid) →
      proc.threads = [])
    {turns : HeapPtr → Prop} (none : ∀ p, ¬turns p) (returned : processWaitpid s target = .ok (result, s')) :
    ProcInv strict s' queue ∧ (NoneLost s queue → NoneLost s' queue) ∧ Changes strict orphans s s' turns exits := by
  rcases processWaitpid_spec returned with ⟨_, same, _⟩ | ⟨cur, proc, spaces, _, member, existing, isMatch, kept, isState⟩
  · subst same
    exact ⟨inv, id, Changes.of_same none rfl rfl (Nat.le_refl _)⟩
  · subst isState
    have isZombie : proc.state = .zombie := by
      obtain ⟨other, existing', state⟩ := (inv.table.zombie cur).mp member
      have existing'' : s.procs cur = some other := existing'
      rw [existing] at existing''
      rw [Option.some.inj existing'']
      exact state
    have unowned : ∀ t live, s.table.owners t = some (some cur, live) → ¬(strict ∨ live = true) := by
      intro t live isOwner awake
      obtain ⟨other, existing', inside, state⟩ := inv.table.owned t cur live isOwner awake
      have existing'' : s.procs cur = some other := existing'
      rw [existing] at existing''
      have same := Option.some.inj existing''
      subst same
      rcases state with isStrict | isAlive
      · rw [safe isStrict cur member proc existing isMatch] at inside
        cases inside
      · rw [isZombie] at isAlive
        cases isAlive
    have table := inv.table.freeProc existing unowned spaces kept
    have notHead : cur ∉ s.head := inv.table.zombie_notHead member
    have sameHead : s.table.head.erase cur = s.head := List.erase_of_not_mem notHead
    rw [sameHead] at table
    refine ⟨⟨inv.run.congr rfl rfl rfl rfl rfl rfl, table⟩, fun noneLost => noneLost.congr rfl rfl rfl, ?_, ?_, ?_,
    Sched.gone_freeProc, ?_, fun t live _ => live, fun t other here noOwner => Or.inr ⟨other, here, noOwner⟩⟩
    · intro q other other' exists' exists'' _
      simp only [Function.update_apply] at exists''
      split at exists''
      · cases exists''
      · rw [exists'] at exists''
        rw [Option.some.inj exists'']
    · exact fun q turns => absurd turns (none q)
    · intro isStrict q other exists' gone t inside
      simp only [Function.update_apply] at gone
      split at gone
      · rename_i same
        rw [same, existing] at exists'
        rw [← Option.some.inj exists', safe isStrict cur member proc existing isMatch] at inside
        cases inside
      · rw [exists'] at gone
        cases gone
    · intro t other here gone
      rw [here] at gone
      cases gone

end

end DoccrOS.Proc
