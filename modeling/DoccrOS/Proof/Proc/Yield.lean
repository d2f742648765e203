import DoccrOS.Proof.Proc.Reap

namespace DoccrOS.Proc
open Lib Mem

def stateOf (threads : ThreadPtr → Option Thread) (t : ThreadPtr) : Option ThreadState := (threads t).map Thread.state

/-- The queue holds threads that are ready, the zombie list holds the dead ones, and the idle thread is in neither. -/
structure QueueInv (s : Sched) (queue : List ThreadPtr) : Prop where
  holds : QueueHolds s.readyQ queue
  nodup : queue.Nodup
  ready : ∀ t ∈ queue, stateOf s.threads t = some .ready
  idle : ∀ t, s.idleThread = some t → t ∉ queue ∧ t ≠ .bootstrap ∧ ∃ thread, s.threads t = some thread ∧ thread.state ≠ .dead
  zombieNodup : s.zombies.Nodup
  zombie : ∀ t, t ∈ s.zombies ↔ stateOf s.threads t = some .dead
  bootstrap : ∃ thread, s.threads .bootstrap = some thread ∧ thread.owner = none ∧
    thread.state = if s.enabled then .blocked else .running

/-- The scheduler between two calls. -/
structure RunInv (s : Sched) (queue : List ThreadPtr) : Prop where
  parts : QueueInv s queue
  current : ∃ thread, s.threads s.current = some thread ∧ thread.state ≠ .ready ∧
    (thread.state = .blocked → s.current = .bootstrap) ∧ (thread.state = .dead → s.idleThread = none)
  disabled : s.enabled = false → s.current = .bootstrap

/-- The scheduler at a call of `sched_yield`: the current thread may have died without being in the zombie list. -/
structure YieldInv (s : Sched) (queue : List ThreadPtr) (prev : Thread) : Prop where
  holds : QueueHolds s.readyQ queue
  nodup : queue.Nodup
  ready : ∀ t ∈ queue, stateOf s.threads t = some .ready
  idle : ∀ t, s.idleThread = some t → t ∉ queue ∧ t ≠ .bootstrap ∧ ∃ thread, s.threads t = some thread ∧ thread.state ≠ .dead
  zombieNodup : s.zombies.Nodup
  zombie : ∀ t ∈ s.zombies, stateOf s.threads t = some .dead
  buried : ∀ t, stateOf s.threads t = some .dead → t ∈ s.zombies ∨ t = s.current
  bootstrap : ∃ thread, s.threads .bootstrap = some thread ∧ thread.owner = none ∧ thread.state = .blocked
  current : s.threads s.current = some prev
  awake : prev.state ≠ .ready
  blocked : prev.state = .blocked → s.current = .bootstrap
  enabled : s.enabled = true

/-- What a yield does to the process table. -/
structure Yields (s s' : Sched) : Prop where
  owners : ownersOf s'.threads = fun t => if t ∈ s.zombies then none else ownersOf s.threads t
  procs : s'.procs = reapedProcs s
  head : s'.head = s.head
  procZombies : s'.procZombies = s.procZombies.filter fun p => !spent (droppedProcs s) p
  nextPid : s'.nextPid = s.nextPid
  idle : s'.idleThread = s.idleThread
  enabled : s'.enabled = s.enabled

section
variable {strict : Prop} {s s' : Sched} {queue : List ThreadPtr} {t next : ThreadPtr} {thread prev : Thread}

theorem stateOf_some {threads : ThreadPtr → Option Thread} (here : threads t = some thread) :
    stateOf threads t = some thread.state := by
  rw [stateOf, here]
  rfl

theorem stateOf_update (threads : ThreadPtr → Option Thread) (entry : Option Thread) (u : ThreadPtr) :
    stateOf (Function.update threads t entry) u = if u = t then entry.map Thread.state else stateOf threads u := by
  rw [stateOf, Function.update_apply]
  split <;> rfl

theorem exists_of_stateOf {threads : ThreadPtr → Option Thread} {state : ThreadState}
    (here : stateOf threads t = some state) : ∃ thread, threads t = some thread ∧ thread.state = state :=
  Option.map_eq_some_iff.mp here

theorem ownersOf_setState (threads : ThreadPtr → Option Thread) (here : threads t = some thread) (awake : thread.state ≠ .dead)
    {state : ThreadState} (awake' : state ≠ .dead) :
    ownersOf (Function.update threads t (some { thread with state := state })) = ownersOf threads := by
  rw [ownersOf_update]
  refine Function.update_eq_self_iff.mpr ?_
  have isAwake : (thread.state != .dead) = true := bne_iff_ne.mpr awake
  have isAwake' : (state != .dead) = true := bne_iff_ne.mpr awake'
  simp only [ownersOf_some here, Option.map_some, isAwake, isAwake']

/-- A thread gets a new state. -/
theorem QueueInv.setState (inv : QueueInv s queue) (here : s.threads t = some thread) (awake : thread.state ≠ .dead)
    (notBoot : t ≠ .bootstrap) (state : ThreadState) (awake' : state ≠ .dead) (ready : t ∈ queue → state = .ready) :
    QueueInv { s with threads := Function.update s.threads t (some { thread with state := state }) } queue := by
  refine ⟨inv.holds, inv.nodup, ?_, ?_, inv.zombieNodup, ?_, ?_⟩
  · intro u member
    simp only [stateOf_update]
    split
    · rename_i same
      rw [same] at member
      simp only [Option.map_some, ready member]
    · exact inv.ready u member
  · intro u isIdle
    obtain ⟨outside, notBoot', other, here', awake''⟩ := inv.idle u isIdle
    refine ⟨outside, notBoot', ?_⟩
    simp only [Function.update_apply]
    split
    · exact ⟨_, rfl, awake'⟩
    · exact ⟨other, here', awake''⟩
  · intro u
    simp only [stateOf_update]
    split
    · rename_i same
      rw [same, inv.zombie, stateOf_some here]
      simp [awake, awake']
    · exact inv.zombie u
  · obtain ⟨boot, here', facts⟩ := inv.bootstrap
    refine ⟨boot, ?_, facts⟩
    simp only
    rw [Function.update_of_ne (Ne.symm notBoot), here']

/-- The state of `switch_to` after the switch. -/
theorem switchTo_spec (here : s.threads next = some thread) (returned : switchTo s next = .ok s') :
    s' = { s with
      threads := Function.update s.threads next (some { thread with state := .running })
      current := next
      switchCount := s'.switchCount
      activeSpace := s'.activeSpace } := by
  have running := returned
  simp only [switchTo, s.thread_ok here, Result.ok_bind] at running
  by_cases same : next = s.current
  · rw [if_pos (by simpa [Sched.setThread] using same)] at running
    rw [← Except.ok.inj running, same]
    rfl
  · rw [if_neg (by simpa [Sched.setThread] using same)] at running
    split at running
    · rw [← Except.ok.inj running]
      rfl
    · obtain ⟨proc, _, rest⟩ := Result.bind_ok running
      split at rest
      · rw [← Except.ok.inj rest]
        rfl
      · rename_i space _
        cases space with
        | kernel =>
            rw [← Except.ok.inj rest]
            rfl
        | user ptr =>
            rw [vmmSpaceActivate] at rest
            split at rest
            · rw [← Except.ok.inj rest]
              rfl
            · cases rest

/-- The switch to a thread that is not in the queue. -/
theorem QueueInv.switch (inv : QueueInv s queue) (enabled : s.enabled = true) (here : s.threads next = some thread)
    (awake : thread.state ≠ .dead) (notBoot : next ≠ .bootstrap) (outside : next ∉ queue)
    (returned : switchTo s next = .ok s') :
    RunInv s' queue ∧ ownersOf s'.threads = ownersOf s.threads ∧ s' = { s with
      threads := s'.threads
      current := next
      switchCount := s'.switchCount
      activeSpace := s'.activeSpace } := by
  have isState := switchTo_spec here returned
  have parts := inv.setState here awake notBoot .running nofun (fun member => absurd member outside)
  refine ⟨⟨?_, ?_, ?_⟩, ?_, ?_⟩
  · rw [isState]
    obtain ⟨holds, nodup, ready, idle, zombieNodup, zombie, bootstrap⟩ := parts
    exact ⟨holds, nodup, ready, idle, zombieNodup, zombie, bootstrap⟩
  · rw [isState]
    refine ⟨_, Function.update_self _ _ _, nofun, nofun, nofun⟩
  · rw [isState]
    intro disabled
    rw [enabled] at disabled
    cases disabled
  · rw [isState]
    exact ownersOf_setState s.threads here awake nofun
  · rw [isState]

theorem QueueInv.congr (inv : QueueInv s queue) (sameThreads : s'.threads = s.threads) (sameQueue : s'.readyQ = s.readyQ)
    (sameIdle : s'.idleThread = s.idleThread) (sameZombies : s'.zombies = s.zombies) (sameEnabled : s'.enabled = s.enabled) :
    QueueInv s' queue := by
  obtain ⟨holds, nodup, ready, idle, zombieNodup, zombie, bootstrap⟩ := inv
  rw [← sameQueue] at holds
  rw [← sameThreads] at ready idle zombie bootstrap
  rw [← sameIdle] at idle
  rw [← sameZombies] at zombieNodup zombie
  rw [← sameEnabled] at bootstrap
  exact ⟨holds, nodup, ready, idle, zombieNodup, zombie, bootstrap⟩

theorem QueueInv.zombieList (inv : QueueInv s queue) : ZombieList s queue := by
  refine ⟨inv.holds, inv.zombieNodup, ?_⟩
  intro z member
  have dead := (inv.zombie z).mp member
  refine ⟨?_, ?_, exists_of_stateOf dead⟩
  · intro queued
    rw [inv.ready z queued] at dead
    cases dead
  · intro same
    obtain ⟨boot, here, _, state⟩ := inv.bootstrap
    rw [same, stateOf_some here, state] at dead
    split at dead <;> cases dead

/-- The process table does not depend on the state of the scheduler. -/
theorem table_congr (owners : ownersOf s'.threads = ownersOf s.threads)
    (fields : s' = { s with
      threads := s'.threads
      readyQ := s'.readyQ
      current := s'.current
      switchCount := s'.switchCount
      activeSpace := s'.activeSpace }) : s'.table = s.table := by
  rw [Sched.table, Sched.table, owners, fields]

/-- The next thread is the first of the queue, or the idle thread if the queue is empty. -/
theorem QueueInv.pickNext (inv : QueueInv s queue) (enabled : s.enabled = true)
    (stays : queue = [] → s.threads s.current = some prev ∧ prev.state ≠ .ready ∧
      (prev.state = .blocked → s.current = .bootstrap))
    (returned : pickNext s prev = .ok s') :
    ∃ queue', RunInv s' queue' ∧ ownersOf s'.threads = ownersOf s.threads ∧
      (∀ t ∈ queue, t = s'.current ∨ t ∈ queue') ∧
      s' = { s with
        threads := s'.threads
        readyQ := s'.readyQ
        current := s'.current
        switchCount := s'.switchCount
        activeSpace := s'.activeSpace } := by
  cases queue with
  | nil =>
      obtain ⟨here, awake, blocked⟩ := stays rfl
      simp only [Proc.pickNext, inv.holds.pop_nil] at returned
      split at returned
      · rename_i isIdle
        rw [← Except.ok.inj returned]
        refine ⟨[], ⟨inv.congr rfl rfl rfl rfl rfl, ⟨prev, here, awake, blocked, ?_⟩, ?_⟩, rfl, nofun, rfl⟩
        · intro dead
          rw [isIdle.2] at dead
          cases dead
        · intro disabled
          rw [enabled] at disabled
          cases disabled
      · split at returned
        · rename_i noIdle
          rw [← Except.ok.inj returned]
          refine ⟨[], ⟨inv.congr rfl rfl rfl rfl rfl, ⟨prev, here, awake, blocked, fun _ => noIdle⟩, ?_⟩, rfl, nofun, rfl⟩
          intro disabled
          rw [enabled] at disabled
          cases disabled
        · rename_i idle isIdle
          obtain ⟨_, notBoot, thread, here', awake'⟩ := inv.idle idle isIdle
          obtain ⟨run, owners, fields⟩ := inv.switch enabled here' awake' notBoot nofun returned
          refine ⟨[], run, owners, nofun, ?_⟩
          rw [fields]
  | cons next rest =>
      obtain ⟨q', popped, holds⟩ := inv.holds.pop
      simp only [Proc.pickNext, popped] at returned
      obtain ⟨notIn, nodup⟩ := List.nodup_cons.mp inv.nodup
      obtain ⟨thread, here', isReady⟩ := exists_of_stateOf (inv.ready next List.mem_cons_self)
      have rest : QueueInv { s with readyQ := q' } rest := by
        refine ⟨holds, nodup, fun t member => inv.ready t (List.mem_cons_of_mem _ member), ?_, inv.zombieNodup, inv.zombie,
          inv.bootstrap⟩
        intro t isIdle
        obtain ⟨outside, others⟩ := inv.idle t isIdle
        exact ⟨fun member => outside (List.mem_cons_of_mem _ member), others⟩
      have notBoot : next ≠ .bootstrap := by
        intro same
        obtain ⟨boot, isBoot, _, state⟩ := inv.bootstrap
        rw [enabled] at state
        rw [same, isBoot] at here'
        rw [← Option.some.inj here', state] at isReady
        cases isReady
      have awake' : thread.state ≠ .dead := by
        rw [isReady]
        exact nofun
      obtain ⟨run, owners, fields⟩ := rest.switch enabled here' awake' notBoot notIn returned
      refine ⟨_, run, owners, ?_, ?_⟩
      · intro t member
        rw [fields]
        exact List.mem_cons.mp member
      · rw [fields]

theorem YieldInv.notQueued (inv : YieldInv s queue prev) : s.current ∉ queue := by
  intro member
  have isReady := inv.ready _ member
  rw [stateOf_some inv.current] at isReady
  exact inv.awake (Option.some.inj isReady)

theorem YieldInv.zombieList (inv : YieldInv s queue prev) : ZombieList s queue := by
  refine ⟨inv.holds, inv.zombieNodup, ?_⟩
  intro z member
  have dead := inv.zombie z member
  refine ⟨?_, ?_, exists_of_stateOf dead⟩
  · intro queued
    rw [inv.ready z queued] at dead
    cases dead
  · intro same
    obtain ⟨boot, here, _, state⟩ := inv.bootstrap
    rw [same, stateOf_some here, state] at dead
    cases dead

/-- The queue after the reapers, with the current thread in the zombie list if it is dead. -/
theorem YieldInv.buried_parts (inv : YieldInv s queue prev) (alive : s.current ∉ s.zombies)
    (sameThreads : s'.threads = fun t => if t ∈ s.zombies then none else s.threads t) (sameQueue : s'.readyQ = s.readyQ)
    (sameIdle : s'.idleThread = s.idleThread) (sameEnabled : s'.enabled = s.enabled)
    (buried : s'.zombies = if prev.state = .dead then [s.current] else []) : QueueInv s' queue := by
  have zombies := inv.zombieList
  have kept (t : ThreadPtr) (state : ThreadState) (notDead : state ≠ .dead) (isState : stateOf s.threads t = some state) :
      t ∉ s.zombies := by
    intro member
    rw [inv.zombie t member] at isState
    exact notDead (Option.some.inj isState).symm
  refine ⟨?_, inv.nodup, ?_, ?_, ?_, ?_, ?_⟩
  · rw [sameQueue]
    exact inv.holds
  · intro t member
    have isReady := inv.ready t member
    rw [stateOf, sameThreads]
    simp only [if_neg (kept t .ready nofun isReady)]
    exact isReady
  · intro t isIdle
    rw [sameIdle] at isIdle
    obtain ⟨outside, notBoot, thread, here, awake⟩ := inv.idle t isIdle
    refine ⟨outside, notBoot, thread, ?_, awake⟩
    rw [sameThreads]
    simp only [if_neg (kept t thread.state awake (stateOf_some here)), here]
  · rw [buried]
    split
    · exact List.nodup_singleton _
    · exact List.nodup_nil
  · intro t
    rw [buried, stateOf, sameThreads]
    simp only
    by_cases member : t ∈ s.zombies
    · have different : t ≠ s.current := fun same => alive (same ▸ member)
      rw [if_pos member]
      split <;> simp [different]
    · rw [if_neg member]
      by_cases same : t = s.current
      · rw [same, inv.current]
        split <;> simp [*]
      · have notDead : (s.threads t).map Thread.state ≠ some .dead := by
          intro dead
          rcases inv.buried t dead with isZombie | isCurrent
          · exact member isZombie
          · exact same isCurrent
        split <;> simp [same, notDead]
  · obtain ⟨boot, here, owner, state⟩ := inv.bootstrap
    refine ⟨boot, ?_, owner, ?_⟩
    · rw [sameThreads]
      simp only [if_neg (kept .bootstrap boot.state (by rw [state]; exact nofun) (stateOf_some here)), here]
    · rw [sameEnabled, inv.enabled, state]
      rfl

/-- A running thread goes to the end of the queue, if there is room. -/
theorem QueueInv.requeue (inv : QueueInv s queue) (here : s.threads t = some prev) (running : prev.state = .running)
    (notBoot : t ≠ .bootstrap) (notIdle : s.idleThread ≠ some t) :
    ∃ queue', QueueInv { s with
        threads := Function.update s.threads t (some { prev with state := .ready })
        readyQ := qPush s.readyQ t } queue' ∧
      queue' = if s.readyQ.cnt < schedMaxThreads then queue ++ [t] else queue := by
  have outside : t ∉ queue := by
    intro member
    have isReady := inv.ready t member
    rw [stateOf_some here, running] at isReady
    cases isReady
  have awake : prev.state ≠ .dead := by
    rw [running]
    exact nofun
  have parts := inv.setState here awake notBoot .ready nofun fun _ => rfl
  refine ⟨_, ?_, rfl⟩
  by_cases room : s.readyQ.cnt < schedMaxThreads
  · rw [if_pos room]
    refine ⟨inv.holds.push room t, ?_, ?_, ?_, parts.zombieNodup, parts.zombie, parts.bootstrap⟩
    · exact List.nodup_append_comm.mp (List.nodup_cons.mpr ⟨outside, inv.nodup⟩)
    · intro u member
      rcases List.mem_append.mp member with early | last
      · exact parts.ready u early
      · rw [List.mem_singleton.mp last]
        exact stateOf_some (Function.update_self _ _ _)
    · intro u isIdle
      obtain ⟨notIn, others⟩ := parts.idle u isIdle
      refine ⟨?_, others⟩
      intro member
      rcases List.mem_append.mp member with early | last
      · exact notIn early
      · rw [List.mem_singleton.mp last] at isIdle
        exact notIdle isIdle
  · rw [if_neg room, qPush_full (Nat.not_lt.mp room)]
    exact parts.congr rfl rfl rfl rfl rfl

/-- Every live thread other than the bootstrap and the idle thread is the current one or in the queue. -/
def NoneLost (s : Sched) (queue : List ThreadPtr) : Prop :=
  ∀ t, liveIn (ownersOf s.threads) t = true → t ≠ .bootstrap → s.idleThread ≠ some t → t = s.current ∨ t ∈ queue

/-- The yield pushes the current thread to the queue. -/
def requeues (s : Sched) : Bool :=
  (s.threads s.current).any (fun prev => prev.state == .running) && some s.current != s.idleThread && !qEmpty s.readyQ

theorem liveIn_some {threads : ThreadPtr → Option Thread} (here : threads t = some thread) :
    liveIn (ownersOf threads) t = (thread.state != .dead) := by
  rw [liveIn, ownersOf_some here]
  rfl

/-- The part of `sched_yield` behind the reapers. -/
def yieldRest (s : Sched) (prev : Thread) : Result Sched :=
  if prev.state = .dead then pickNext { s with zombies := s.current :: s.zombies } prev
  else if prev.state = .running ∧ some s.current ≠ s.idleThread then
    if qEmpty s.readyQ then .ok s
    else
      let s := s.setThread s.current { prev with state := .ready }
      pickNext { s with readyQ := qPush s.readyQ s.current } { prev with state := .ready }
  else pickNext s prev

/-- The state behind the reapers. -/
abbrev reaped (s : Sched) (spaces : HeapPtr → Bool) : Sched :=
  { s with
    threads := fun t => if t ∈ s.zombies then none else s.threads t
    procs := reapedProcs s
    spaces := spaces
    zombies := []
    procZombies := s.procZombies.filter fun p => !spent (droppedProcs s) p }

/-- A yield reaps the dead and goes on if the current thread is not one of them. -/
theorem YieldInv.reaped (inv : YieldInv s queue prev) (table : TableInv strict s.table) (returned : schedYield s = .ok s') :
    ∃ spaces, yieldRest (Proc.reaped s spaces) prev = .ok s' ∧ TableInv strict (Proc.reaped s spaces).table ∧
      s.current ∉ s.zombies := by
  rw [schedYield, inv.enabled] at returned
  simp only [Bool.not_true, Bool.false_eq_true, if_false] at returned
  obtain ⟨s₁, reapedThreads, returned⟩ := Result.bind_ok returned
  obtain ⟨s₂, reapedProcs, returned⟩ := Result.bind_ok returned
  obtain ⟨prev', found, returned⟩ := Result.bind_ok returned
  obtain ⟨isReaped, table₂⟩ := reap_spec table inv.zombieList reapedThreads reapedProcs
  have isReaped' : s₂ = Proc.reaped s s₂.spaces := isReaped
  rw [isReaped'] at found returned table₂
  have here := Sched.threads_of_ok found
  have alive : s.current ∉ s.zombies := by
    intro member
    simp only [if_pos member] at here
    cases here
  simp only [if_neg alive, inv.current] at here
  rw [← Option.some.inj here] at returned
  exact ⟨s₂.spaces, returned, table₂, alive⟩

/-- A yield reaps the dead, and it loses no thread unless it pushes to a full queue. -/
theorem YieldInv.yield (inv : YieldInv s queue prev) (table : TableInv strict s.table) (returned : schedYield s = .ok s') :
    ∃ queue', RunInv s' queue' ∧ TableInv strict s'.table ∧ Yields s s' ∧
      (NoneLost s queue → (requeues s = true → s.readyQ.cnt < schedMaxThreads) → NoneLost s' queue') := by
  obtain ⟨spaces, returned, table₂, alive⟩ := inv.reaped table returned
  rw [yieldRest] at returned
  obtain ⟨s₂, isReaped⟩ : ∃ s₂, s₂ = Proc.reaped s spaces := ⟨_, rfl⟩
  rw [← isReaped] at returned table₂
  have sameThreads : s₂.threads = fun t => if t ∈ s.zombies then none else s.threads t := by rw [isReaped]
  have sameCurrent : s₂.current = s.current := by rw [isReaped]
  have sameIdle : s₂.idleThread = s.idleThread := by rw [isReaped]
  have sameQueue : s₂.readyQ = s.readyQ := by rw [isReaped]
  have enabled : s₂.enabled = true := by
    rw [isReaped]
    exact inv.enabled
  have here : s₂.threads s₂.current = some prev := by
    rw [sameThreads, sameCurrent]
    simp only [if_neg alive, inv.current]
  have owners₂ : ownersOf s₂.threads = fun t => if t ∈ s.zombies then none else ownersOf s.threads t := by
    funext t
    rw [ownersOf, sameThreads]
    simp only
    split <;> rfl
  have yields (w : Sched) (owners : ownersOf w.threads = ownersOf s₂.threads) (procs : w.procs = s₂.procs)
      (head : w.head = s₂.head) (procZombies : w.procZombies = s₂.procZombies) (nextPid : w.nextPid = s₂.nextPid)
      (idle : w.idleThread = s₂.idleThread) (on : w.enabled = s₂.enabled) : Yields s w := by
    refine ⟨owners.trans owners₂, ?_, ?_, ?_, ?_, idle.trans sameIdle, ?_⟩
    · rw [procs, isReaped]
    · rw [head, isReaped]
    · rw [procZombies, isReaped]
    · rw [nextPid, isReaped]
    · rw [on, isReaped]
  have alive₂ (w : Sched) (owners : ownersOf w.threads = ownersOf s₂.threads) (t : ThreadPtr)
      (live : liveIn (ownersOf w.threads) t = true) : liveIn (ownersOf s.threads) t = true := by
    rw [owners, owners₂, liveIn] at live
    split at live
    · cases live
    · exact live
  by_cases dead : prev.state = .dead
  · rw [if_pos dead] at returned
    have parts : QueueInv { s₂ with zombies := s₂.current :: s₂.zombies } queue := by
      refine inv.buried_parts alive sameThreads sameQueue sameIdle (enabled.trans inv.enabled.symm) ?_
      rw [if_pos dead, isReaped]
    obtain ⟨queue', run, owners, members, fields⟩ := parts.pickNext enabled
      (fun _ => ⟨here, inv.awake, fun blocked => sameCurrent.trans (inv.blocked blocked)⟩) returned
    refine ⟨queue', run, ?_, ?_, ?_⟩
    · rw [table_congr owners fields]
      exact table₂
    · refine yields s' owners ?_ ?_ ?_ ?_ ?_ ?_ <;> rw [fields]
    · intro noneLost _ t live notBoot notIdle
      have isIdle : s'.idleThread = s.idleThread := by rw [fields]; exact sameIdle
      rw [isIdle] at notIdle
      have live' := alive₂ s' owners t live
      rcases noneLost t live' notBoot notIdle with isCurrent | member
      · rw [isCurrent, liveIn_some inv.current, dead] at live'
        cases live'
      · exact members t member
  · rw [if_neg dead] at returned
    have parts : QueueInv s₂ queue := by
      refine inv.buried_parts alive sameThreads sameQueue sameIdle (enabled.trans inv.enabled.symm) ?_
      rw [if_neg dead, isReaped]
    by_cases running : prev.state = .running ∧ some s₂.current ≠ s₂.idleThread
    · rw [if_pos running] at returned
      cases empty : qEmpty s₂.readyQ with
      | true =>
          simp only [empty, if_true] at returned
          rw [← Except.ok.inj returned]
          refine ⟨queue, ⟨parts, ⟨prev, here, inv.awake, fun blocked => sameCurrent.trans (inv.blocked blocked), ?_⟩, ?_⟩,
            table₂, yields s₂ rfl rfl rfl rfl rfl rfl rfl, ?_⟩
          · exact fun isDead => absurd isDead dead
          · intro disabled
            rw [enabled] at disabled
            cases disabled
          · intro noneLost _ t live notBoot notIdle
            rw [sameIdle] at notIdle
            rw [sameCurrent]
            exact noneLost t (alive₂ s₂ rfl t live) notBoot notIdle
      | false =>
          simp only [empty, Bool.false_eq_true, if_false] at returned
          have notBoot : s₂.current ≠ .bootstrap := by
            intro isBoot
            obtain ⟨boot, here', _, state⟩ := inv.bootstrap
            have isPrev := inv.current
            rw [← sameCurrent, isBoot, here'] at isPrev
            rw [← Option.some.inj isPrev, state] at running
            cases running.1
          obtain ⟨queue₁, parts₁, isQueue⟩ := parts.requeue here running.1 notBoot (Ne.symm running.2)
          have notEmpty : queue ≠ [] := by
            intro isNil
            rw [parts.holds.empty_iff.mpr isNil] at empty
            cases empty
          have notEmpty₁ : queue₁ ≠ [] := by
            rw [isQueue]
            split
            · simp
            · exact notEmpty
          obtain ⟨queue', run, owners, members, fields⟩ := parts₁.pickNext enabled
            (fun isNil => absurd isNil notEmpty₁) returned
          have owners' : ownersOf s'.threads = ownersOf s₂.threads := by
            rw [owners]
            exact ownersOf_setState s₂.threads here dead (by rintro ⟨⟩)
          refine ⟨queue', run, ?_, ?_, ?_⟩
          · have sameTable : s'.table = s₂.table := by rw [Sched.table, Sched.table, owners', fields]
            rw [sameTable]
            exact table₂
          · refine yields s' owners' ?_ ?_ ?_ ?_ ?_ ?_ <;> rw [fields]
          · intro noneLost room t live notBoot' notIdle
            have isIdle : s'.idleThread = s.idleThread := by rw [fields]; exact sameIdle
            rw [isIdle] at notIdle
            have pushes : requeues s = true := by
              rw [sameIdle, sameCurrent] at running
              rw [sameQueue] at empty
              simp [requeues, inv.current, running.1, running.2, empty]
            rw [sameQueue, if_pos (room pushes)] at isQueue
            refine members t ?_
            rw [isQueue]
            rcases noneLost t (alive₂ s' owners' t live) notBoot' notIdle with isCurrent | member
            · rw [isCurrent, sameCurrent]
              exact List.mem_append_right _ (List.mem_singleton_self _)
            · exact List.mem_append_left _ member
    · rw [if_neg running] at returned
      obtain ⟨queue', run, owners, members, fields⟩ := parts.pickNext enabled
        (fun _ => ⟨here, inv.awake, fun blocked => sameCurrent.trans (inv.blocked blocked)⟩) returned
      refine ⟨queue', run, ?_, ?_, ?_⟩
      · rw [table_congr owners fields]
        exact table₂
      · refine yields s' owners ?_ ?_ ?_ ?_ ?_ ?_ <;> rw [fields]
      · intro noneLost _ t live notBoot notIdle
        have isIdle : s'.idleThread = s.idleThread := by rw [fields]; exact sameIdle
        rw [isIdle] at notIdle
        rcases noneLost t (alive₂ s' owners t live) notBoot notIdle with isCurrent | member
        · -- The current thread is the bootstrap or the idle thread.
          rw [sameIdle, sameCurrent] at running
          cases state : prev.state with
          | ready => exact absurd state inv.awake
          | dead => exact absurd state dead
          | running =>
              refine absurd ⟨state, ?_⟩ running
              rw [← isCurrent]
              exact Ne.symm notIdle
          | blocked =>
              rw [isCurrent] at notBoot
              exact absurd (inv.blocked state) notBoot
        · exact members t member

theorem switchTo_ok (table : TableInv True s.table) (here : s.threads next = some thread) :
    ∃ s', switchTo s next = .ok s' := by
  simp only [switchTo, s.thread_ok here, Result.ok_bind]
  split
  · exact ⟨_, rfl⟩
  · cases owner : thread.owner with
    | none => exact ⟨_, rfl⟩
    | some p =>
        obtain ⟨proc, existing, _⟩ := table.owned next p _ ((ownersOf_some here).trans (by rw [owner])) (Or.inl trivial)
        have found : s.procs p = some proc := existing
        simp only [Sched.setThread, Sched.proc, found, Result.ok_bind]
        cases space : proc.space with
        | none => exact ⟨_, rfl⟩
        | some ptr =>
            cases ptr with
            | kernel => exact ⟨_, rfl⟩
            | user ptr =>
                have live : s.spaces ptr = true := table.space p proc ptr existing space
                simp only [vmmSpaceActivate, live, if_true]
                exact ⟨_, rfl⟩

theorem QueueInv.pickNext_ok (inv : QueueInv s queue) (table : TableInv True s.table) (prev : Thread) :
    ∃ s', Proc.pickNext s prev = .ok s' := by
  cases queue with
  | nil =>
      simp only [Proc.pickNext, inv.holds.pop_nil]
      split
      · exact ⟨_, rfl⟩
      · cases isIdle : s.idleThread with
        | none => exact ⟨_, rfl⟩
        | some idle =>
            obtain ⟨_, _, thread, here, _⟩ := inv.idle idle isIdle
            exact switchTo_ok table here
  | cons next rest =>
      obtain ⟨q', popped, _⟩ := inv.holds.pop
      obtain ⟨thread, here, _⟩ := exists_of_stateOf (inv.ready next List.mem_cons_self)
      simp only [Proc.pickNext, popped]
      exact switchTo_ok table here

/-- A yield returns unless the current thread is in the zombie list. -/
theorem YieldInv.yield_ok (inv : YieldInv s queue prev) (table : TableInv True s.table) (alive : s.current ∉ s.zombies) :
    ∃ s', schedYield s = .ok s' := by
  obtain ⟨s₁, s₂, reaped, reaped'⟩ := reap_ok table inv.zombieList
  obtain ⟨isReaped, table₂⟩ := reap_spec table inv.zombieList reaped reaped'
  have here : s₂.threads s₂.current = some prev := by
    rw [isReaped]
    simp only [if_neg alive, inv.current]
  have enabled : s₂.enabled = s.enabled := by rw [isReaped]
  rw [schedYield, inv.enabled]
  simp only [Bool.not_true, Bool.false_eq_true, if_false, reaped, reaped', s₂.thread_ok here, Result.ok_bind]
  by_cases dead : prev.state = .dead
  · rw [if_pos dead]
    have parts : QueueInv { s₂ with zombies := s₂.current :: s₂.zombies } queue := by
      refine inv.buried_parts alive ?_ ?_ ?_ enabled ?_ <;> rw [isReaped]
      rw [if_pos dead]
    exact parts.pickNext_ok table₂ prev
  · have parts : QueueInv s₂ queue := by
      refine inv.buried_parts alive ?_ ?_ ?_ enabled ?_ <;> rw [isReaped]
      rw [if_neg dead]
    rw [if_neg dead]
    by_cases running : prev.state = .running ∧ some s₂.current ≠ s₂.idleThread
    · rw [if_pos running]
      split
      · exact ⟨_, rfl⟩
      · have notBoot : s₂.current ≠ .bootstrap := by
          intro isBoot
          obtain ⟨boot, here', _, state⟩ := parts.bootstrap
          rw [isBoot, here'] at here
          rw [enabled, inv.enabled, if_pos rfl] at state
          rw [← Option.some.inj here, state] at running
          cases running.1
        obtain ⟨queue₁, parts₁, _⟩ := parts.requeue here running.1 notBoot (Ne.symm running.2)
        have sameOwners : ownersOf (Function.update s₂.threads s₂.current (some { prev with state := .ready })) =
            ownersOf s₂.threads := ownersOf_setState s₂.threads here dead nofun
        refine parts₁.pickNext_ok ?_ _
        simp only [Sched.table, sameOwners]
        exact table₂
    · rw [if_neg running]
      exact parts.pickNext_ok table₂ prev

end

end DoccrOS.Proc
