import DoccrOS.Proof.Proc.Calls

namespace DoccrOS.Proc
open Lib Mem

/-- The scheduler and the process table between two calls. -/
structure ProcInv (strict : Prop) (s : Sched) (queue : List ThreadPtr) : Prop where
  run : RunInv s queue
  table : TableInv strict s.table

/-- A process id that has been used and that no process has. -/
def Sched.gone (s : Sched) (pid : Nat) : Prop := pid < s.nextPid ∧ ∀ p proc, s.procs p = some proc → proc.pid ≠ pid

/-- What a call does to the processes and the threads that exist: the chosen processes become zombies, a freed process has
lost its threads, no process id is used twice, a destroyed thread was in the zombie list, only the chosen threads die, and
there are no more threads without owner unless the call makes them. -/
structure Changes (strict orphans : Prop) (s s' : Sched) (turns : HeapPtr → Prop) (exits : ThreadPtr → Prop) : Prop where
  state : ∀ p proc proc', s.procs p = some proc → s'.procs p = some proc' → ¬turns p → proc'.state = proc.state
  turned : ∀ p, turns p → ∃ proc', s'.procs p = some proc' ∧ proc'.state = .zombie
  freed : strict → ∀ p proc, s.procs p = some proc → s'.procs p = none → ∀ t ∈ proc.threads, s'.threads t = none
  gone : ∀ pid, s.gone pid → s'.gone pid
  vanished : ∀ t thread, s.threads t = some thread → s'.threads t = none → t ∈ s.zombies
  awake : ∀ t, liveIn (ownersOf s.threads) t = true → ¬exits t → liveIn (ownersOf s'.threads) t = true
  orphan : ∀ t thread', s'.threads t = some thread' → thread'.owner = none →
    orphans ∨ ∃ thread, s.threads t = some thread ∧ thread.owner = none

section
variable {strict orphans : Prop} {exits : ThreadPtr → Prop} {s s' : Sched} {queue : List ThreadPtr} {t : ThreadPtr} {thread prev : Thread} {p : HeapPtr}
  {proc : Process}

theorem RunInv.congr (inv : RunInv s queue) (sameThreads : s'.threads = s.threads) (sameQueue : s'.readyQ = s.readyQ)
    (sameIdle : s'.idleThread = s.idleThread) (sameZombies : s'.zombies = s.zombies) (sameEnabled : s'.enabled = s.enabled)
    (sameCurrent : s'.current = s.current) : RunInv s' queue := by
  obtain ⟨parts, current, disabled⟩ := inv
  rw [← sameThreads, ← sameIdle, ← sameCurrent] at current
  rw [← sameEnabled, ← sameCurrent] at disabled
  exact ⟨parts.congr sameThreads sameQueue sameIdle sameZombies sameEnabled, current, disabled⟩

theorem NoneLost.congr (noneLost : NoneLost s queue) (sameOwners : ownersOf s'.threads = ownersOf s.threads)
    (sameIdle : s'.idleThread = s.idleThread) (sameCurrent : s'.current = s.current) : NoneLost s' queue := by
  intro t live notBoot notIdle
  rw [sameOwners] at live
  rw [sameIdle] at notIdle
  rw [sameCurrent]
  exact noneLost t live notBoot notIdle

theorem schedBoot_inv : ProcInv strict schedBoot [] := by
  have threads (t : ThreadPtr) (thread : Thread) (here : schedBoot.threads t = some thread) :
      t = .bootstrap ∧ thread = ⟨0, .running, none, false⟩ := by
    simp only [schedBoot] at here
    split at here
    · rename_i isBoot
      exact ⟨isBoot, (Option.some.inj here).symm⟩
    · cases here
  refine ⟨⟨⟨⟨RingHolds.nil, rfl, Nat.zero_lt_succ _, rfl⟩, List.nodup_nil, nofun, nofun, List.nodup_nil, ?_,
    ⟨_, rfl, rfl, rfl⟩⟩, ⟨_, rfl, nofun, nofun, nofun⟩, fun _ => rfl⟩, ?_⟩
  · intro t
    refine ⟨nofun, ?_⟩
    intro dead
    obtain ⟨thread, here, isDead⟩ := exists_of_stateOf dead
    rw [(threads t thread here).2] at isDead
    cases isDead
  · have noProc (p : HeapPtr) (proc : Process) : schedBoot.table.procs p ≠ some proc := by
      simp [Sched.table, schedBoot]
    refine ⟨?_, fun p proc here => absurd here (noProc p proc), List.nodup_nil, ?_, List.nodup_nil, ?_,
      fun p proc here => absurd here (noProc p proc), fun p proc here => absurd here (noProc p proc),
      fun p _ proc _ here => absurd here (noProc p proc), fun p proc _ here => absurd here (noProc p proc),
      fun p _ proc _ _ here => absurd here (noProc p proc)⟩
    · intro t p live isOwner
      obtain ⟨thread, here, same⟩ := Option.map_eq_some_iff.mp isOwner
      rw [(threads t thread here).2] at same
      cases (Prod.mk.inj same).1
    · intro p
      simp [Sched.table, schedBoot]
    · intro p
      simp [Sched.table, schedBoot]

/-- A call that only adds processes and threads. -/
theorem Changes.of_kept {turns : HeapPtr → Prop} (none : ∀ p, ¬turns p)
    (kept : ∀ p proc, s.procs p = some proc → ∃ proc', s'.procs p = some proc' ∧ proc'.state = proc.state)
    (gone : ∀ pid, s.gone pid → s'.gone pid)
    (threads : ∀ t thread, s.threads t = some thread →
      ∃ thread', s'.threads t = some thread' ∧ (thread.state ≠ .dead → thread'.state ≠ .dead))
    (orphan : ∀ t thread', s'.threads t = some thread' → thread'.owner = Option.none →
      orphans ∨ ∃ thread, s.threads t = some thread ∧ thread.owner = Option.none) : Changes strict orphans s s' turns exits := by
  refine ⟨?_, ?_, ?_, gone, ?_, ?_, orphan⟩
  · intro p proc proc' existing existing' _
    obtain ⟨other, isOther, same⟩ := kept p proc existing
    rw [existing'] at isOther
    rw [Option.some.inj isOther]
    exact same
  · intro p turns
    exact absurd turns (none p)
  · intro _ p proc existing freed
    obtain ⟨other, isOther, _⟩ := kept p proc existing
    rw [freed] at isOther
    cases isOther
  · intro t thread here gone
    obtain ⟨thread', here', _⟩ := threads t thread here
    rw [gone] at here'
    cases here'
  · intro t live _
    obtain ⟨⟨owner, alive⟩, isOwner, isAlive⟩ := (Option.any_eq_true _ _).mp live
    obtain ⟨thread, here, same⟩ := Option.map_eq_some_iff.mp isOwner
    obtain ⟨thread', here', awake⟩ := threads t thread here
    rw [liveIn_some here] at live
    rw [liveIn_some here', bne_iff_ne]
    exact awake (bne_iff_ne.mp live)

/-- A call that leaves the processes and the threads alone. -/
theorem Changes.of_same {turns : HeapPtr → Prop} (none : ∀ p, ¬turns p) (sameProcs : s'.procs = s.procs)
    (sameThreads : s'.threads = s.threads) (later : s.nextPid ≤ s'.nextPid) : Changes strict orphans s s' turns exits := by
  refine Changes.of_kept none ?_ ?_ ?_ ?_
  · intro p proc existing
    rw [sameProcs]
    exact ⟨proc, existing, rfl⟩
  · rintro pid ⟨used, absent⟩
    refine ⟨Nat.lt_of_lt_of_le used later, ?_⟩
    rw [sameProcs]
    exact absent
  · intro t thread here
    rw [sameThreads]
    exact ⟨thread, here, id⟩
  · intro t thread here noOwner
    rw [sameThreads] at here
    exact Or.inr ⟨thread, here, noOwner⟩

theorem TableInv.nextPid {table : Table} (inv : TableInv strict table) {nextPid : Nat} (later : table.nextPid ≤ nextPid) :
    TableInv strict { table with nextPid := nextPid } :=
  ⟨inv.owned, inv.ok, inv.headNodup, inv.head, inv.zombieNodup, inv.zombie, inv.status,
    fun p proc existing => Nat.lt_of_lt_of_le (inv.pid p proc existing) later, inv.pidInj, inv.space, inv.spaceInj⟩

/-- A failed creation changes nothing but the next process id. -/
theorem ProcInv.onlyPid (inv : ProcInv strict s queue) (only : OnlyPid s s') {turns : HeapPtr → Prop}
    (none : ∀ p, ¬turns p) :
    ProcInv strict s' queue ∧ (NoneLost s queue → NoneLost s' queue) ∧ Changes strict orphans s s' turns exits := by
  obtain ⟨nextPid, later, isState⟩ := only
  subst isState
  refine ⟨⟨inv.run.congr rfl rfl rfl rfl rfl rfl, inv.table.nextPid later⟩, fun noneLost => noneLost.congr rfl rfl rfl, ?_⟩
  exact Changes.of_same none rfl rfl later

/-- A new process. -/
theorem ProcInv.addProc (inv : ProcInv strict s queue) (fresh : s.procs p = none) (spaces : HeapPtr → Bool)
    (space : Option SpacePtr) (kept : ∀ ptr, s.spaces ptr = true → spaces ptr = true)
    (own : ∀ ptr, space = some (.user ptr) → s.spaces ptr = false ∧ spaces ptr = true) {turns : HeapPtr → Prop}
    (none : ∀ p, ¬turns p) (isState : s' = { s with
      procs := Function.update s.procs p (some ⟨s.nextPid, .alive, 0, space, [], 0, 0⟩)
      spaces := spaces
      nextPid := s.nextPid + 1
      head := p :: s.head }) :
    ProcInv strict s' queue ∧ (NoneLost s queue → NoneLost s' queue) ∧ Changes strict orphans s s' turns exits := by
  subst isState
  refine ⟨⟨inv.run.congr rfl rfl rfl rfl rfl rfl, inv.table.addProc fresh spaces space kept own⟩,
    fun noneLost => noneLost.congr rfl rfl rfl, Changes.of_kept none ?_ ?_ (fun _ thread here => ⟨thread, here, id⟩)
      fun t thread here noOwner => Or.inr ⟨thread, here, noOwner⟩⟩
  · intro q other existing
    have different : q ≠ p := by
      intro same
      rw [same, fresh] at existing
      cases existing
    exact ⟨other, by simp only [Function.update_of_ne different, existing], rfl⟩
  · rintro pid ⟨used, absent⟩
    refine ⟨Nat.lt_succ_of_lt used, ?_⟩
    intro q other existing
    simp only [Function.update_apply] at existing
    split at existing
    · rw [← Option.some.inj existing]
      exact Nat.ne_of_gt used
    · exact absent q other existing

/-- A new thread goes to the end of the queue, if there is room. -/
theorem RunInv.withThread (inv : RunInv s queue) {ptr : HeapPtr} (fresh : s.threads (.heap ptr) = none)
    (owner : Option HeapPtr) (isUser : Bool) (procs : HeapPtr → Option Process) :
    ∃ queue', RunInv (withThread s ptr owner isUser procs) queue' ∧
      queue' = if s.readyQ.cnt < schedMaxThreads then queue ++ [.heap ptr] else queue := by
  have different (u : ThreadPtr) (other : Thread) (here : s.threads u = some other) : u ≠ .heap ptr := by
    intro same
    rw [same, fresh] at here
    cases here
  have outside : .heap ptr ∉ queue := by
    intro member
    obtain ⟨other, here, _⟩ := exists_of_stateOf (inv.parts.ready _ member)
    exact different _ other here rfl
  have others (u : ThreadPtr) (other : Thread) (here : s.threads u = some other) :
      (Proc.withThread s ptr owner isUser procs).threads u = some other := by
    simp only [Proc.withThread, Function.update_of_ne (different u other here), here]
  have states (u : ThreadPtr) (state : ThreadState) (here : stateOf s.threads u = some state) :
      stateOf (Proc.withThread s ptr owner isUser procs).threads u = some state := by
    obtain ⟨other, here, isState⟩ := exists_of_stateOf here
    rw [stateOf_some (others u other here), isState]
  have idle : ∀ u, s.idleThread = some u → u ∉ queue ∧ u ≠ .heap ptr ∧ u ≠ .bootstrap ∧
      ∃ other, (Proc.withThread s ptr owner isUser procs).threads u = some other ∧ other.state ≠ .dead := by
    intro u isIdle
    obtain ⟨notIn, notBoot, other, here, awake⟩ := inv.parts.idle u isIdle
    exact ⟨notIn, different u other here, notBoot, other, others u other here, awake⟩
  have zombie : ∀ u, u ∈ s.zombies ↔ stateOf (Proc.withThread s ptr owner isUser procs).threads u = some .dead := by
    intro u
    rw [inv.parts.zombie u]
    simp only [Proc.withThread, stateOf_update]
    split
    · rename_i same
      rw [same, stateOf, fresh]
      simp
    · rfl
  obtain ⟨boot, isBoot, bootFacts⟩ := inv.parts.bootstrap
  obtain ⟨current, here, facts⟩ := inv.current
  refine ⟨_, ⟨?_, ⟨current, others _ _ here, facts⟩, inv.disabled⟩, rfl⟩
  by_cases room : s.readyQ.cnt < schedMaxThreads
  · rw [if_pos room]
    refine ⟨inv.parts.holds.push room _, ?_, ?_, ?_, inv.parts.zombieNodup, zombie, boot, others _ _ isBoot, bootFacts⟩
    · exact List.nodup_append_comm.mp (List.nodup_cons.mpr ⟨outside, inv.parts.nodup⟩)
    · intro u member
      rcases List.mem_append.mp member with early | last
      · exact states u .ready (inv.parts.ready u early)
      · rw [List.mem_singleton.mp last]
        exact stateOf_some (Function.update_self _ _ _)
    · intro u isIdle
      obtain ⟨notIn, notNew, others⟩ := idle u isIdle
      refine ⟨?_, others⟩
      intro member
      rcases List.mem_append.mp member with early | last
      · exact notIn early
      · exact notNew (List.mem_singleton.mp last)
  · rw [if_neg room]
    refine ⟨?_, inv.parts.nodup, fun u member => states u .ready (inv.parts.ready u member), ?_, inv.parts.zombieNodup,
      zombie, boot, others _ _ isBoot, bootFacts⟩
    · have full : (Proc.withThread s ptr owner isUser procs).readyQ = s.readyQ := qPush_full (Nat.not_lt.mp room) _
      rw [full]
      exact inv.parts.holds
    · intro u isIdle
      obtain ⟨notIn, _, others⟩ := idle u isIdle
      exact ⟨notIn, others⟩

/-- The condition under which a call that pushes to the ready queue loses no thread. -/
theorem ProcInv.addThread (inv : ProcInv strict s queue) {ptr : HeapPtr} (fresh : s.threads (.heap ptr) = none)
    {owner : Option HeapPtr} {isUser : Bool} {procs : HeapPtr → Option Process}
    (table : TableInv strict (withThread s ptr owner isUser procs).table)
    (kept : ∀ p proc, s.procs p = some proc → ∃ proc', procs p = some proc' ∧ proc'.state = proc.state)
    (gone : ∀ pid, s.gone pid → (withThread s ptr owner isUser procs).gone pid)
    {turns : HeapPtr → Prop} (none : ∀ p, ¬turns p) (orphan : owner = Option.none → orphans) :
    ∃ queue', ProcInv strict (withThread s ptr owner isUser procs) queue' ∧
      (NoneLost s queue → s.readyQ.cnt < schedMaxThreads → NoneLost (withThread s ptr owner isUser procs) queue') ∧
      Changes strict orphans s (withThread s ptr owner isUser procs) turns exits := by
  obtain ⟨queue', run, isQueue⟩ := inv.run.withThread fresh owner isUser procs
  refine ⟨queue', ⟨run, table⟩, ?_, Changes.of_kept none kept gone ?_ ?_⟩
  · intro noneLost room t live notBoot notIdle
    rw [if_pos room] at isQueue
    rw [isQueue]
    by_cases isNew : t = .heap ptr
    · rw [isNew]
      exact Or.inr (List.mem_append_right _ (List.mem_singleton_self _))
    · have old : liveIn (ownersOf s.threads) t = true := by
        simp only [withThread, ownersOf_update, liveIn_update, if_neg isNew] at live
        exact live
      rcases noneLost t old notBoot notIdle with isCurrent | member
      · exact Or.inl isCurrent
      · exact Or.inr (List.mem_append_left _ member)
  · intro t thread here
    have different : t ≠ .heap ptr := by
      intro same
      rw [same, fresh] at here
      cases here
    exact ⟨thread, by simp only [withThread, Function.update_of_ne different, here], id⟩
  · intro t thread here noOwner
    simp only [withThread, Function.update_apply] at here
    split at here
    · rw [← Option.some.inj here] at noOwner
      exact Or.inl (orphan noOwner)
    · exact Or.inr ⟨thread, here, noOwner⟩

/-- The table with a new thread. -/
theorem TableInv.withThread (inv : TableInv strict s.table) {ptr : HeapPtr} (fresh : s.threads (.heap ptr) = none)
    (isUser : Bool) (existing : s.procs p = some proc) (permitted : strict ∨ proc.state = .alive) :
    TableInv strict (withThread s ptr (some p) isUser
      (Function.update s.procs p (some (withNew proc (.heap ptr))))).table := by
  have unused : s.table.owners (.heap ptr) = none := by
    simp only [Sched.table, ownersOf, fresh, Option.map_none]
  simp only [Sched.table, Proc.withThread, ownersOf_update]
  exact inv.linkThread unused existing permitted

theorem TableInv.withOrphan (inv : TableInv strict s.table) {ptr : HeapPtr} (fresh : s.threads (.heap ptr) = none)
    (isUser : Bool) : TableInv strict (Proc.withThread s ptr none isUser s.procs).table := by
  have unused : s.table.owners (.heap ptr) = none := by
    simp only [Sched.table, ownersOf, fresh, Option.map_none]
  simp only [Sched.table, Proc.withThread, ownersOf_update]
  exact inv.setOrphan (fun q other existing => inv.fresh_notListed unused existing) (by rintro _ _ ⟨⟩)

/-- `thread_create` and `thread_create_user`. -/
theorem ProcInv.threadNew (inv : ProcInv strict s queue) {owner new : Option HeapPtr} {isUser stack : Bool}
    {result : Option ThreadPtr} (permitted : ∀ p ∈ owner, ∀ proc, s.procs p = some proc → strict ∨ proc.state = .alive)
    {turns : HeapPtr → Prop} (none : ∀ p, ¬turns p) (orphan : owner = Option.none → orphans)
    (returned : threadNew s owner isUser new stack = .ok (result, s')) :
    ∃ queue', ProcInv strict s' queue' ∧
      (NoneLost s queue → (new.isSome = true → stack = true → s.readyQ.cnt < schedMaxThreads) → NoneLost s' queue') ∧
      Changes strict orphans s s' turns exits := by
  rcases threadNew_spec returned with ⟨isNone, same⟩ | ⟨ptr, ⟨_, isNew, isStack⟩, fresh, made⟩
  · subst isNone same
    refine ⟨queue, inv, fun noneLost _ => noneLost, ?_⟩
    exact Changes.of_same none rfl rfl (Nat.le_refl _)
  · rcases made with ⟨isNone, isState⟩ | ⟨p, proc, isOwner, existing, isState⟩
    · subst isNone isState
      obtain ⟨queue', inv', noneLost, changes⟩ := inv.addThread fresh (inv.table.withOrphan fresh isUser)
        (fun p proc existing => ⟨proc, existing, rfl⟩) (fun _ absent => absent) none orphan
      refine ⟨queue', inv', fun kept room => noneLost kept (room ?_ isStack), changes⟩
      rw [isNew]
      rfl
    · subst isOwner isState
      have kept : ∀ q other, s.procs q = some other →
          ∃ other', Function.update s.procs p (some (withNew proc (.heap ptr))) q = some other' ∧
            other'.state = other.state := by
        intro q other existing'
        rw [Function.update_apply]
        split
        · rename_i same
          rw [same, existing] at existing'
          rw [← Option.some.inj existing']
          exact ⟨_, rfl, rfl⟩
        · exact ⟨other, existing', rfl⟩
      have gone : ∀ pid, s.gone pid → (withThread s ptr (some p) isUser
          (Function.update s.procs p (some (withNew proc (.heap ptr))))).gone pid := by
        rintro pid ⟨used, absent⟩
        refine ⟨used, ?_⟩
        intro q other existing'
        simp only [withThread, Function.update_apply] at existing'
        split at existing'
        · rw [← Option.some.inj existing']
          exact absent p proc existing
        · exact absent q other existing'
      obtain ⟨queue', inv', noneLost, changes⟩ := inv.addThread fresh
        (inv.table.withThread fresh isUser existing (permitted p rfl proc existing)) kept gone none orphan
      refine ⟨queue', inv', fun kept room => noneLost kept (room ?_ isStack), changes⟩
      rw [isNew]
      rfl

/-- `process_fork` with its new process and its new thread. -/
theorem ProcInv.processFork (inv : ProcInv strict s queue) {new space thread : Option HeapPtr} {stack : Bool}
    {result : Option HeapPtr} {turns : HeapPtr → Prop} (none : ∀ p, ¬turns p)
    (returned : processFork s new space thread stack = .ok (result, s')) :
    ∃ queue', ProcInv strict s' queue' ∧
      (NoneLost s queue → ((new.isSome && space.isSome && thread.isSome && stack) = true → s.readyQ.cnt < schedMaxThreads) →
        NoneLost s' queue') ∧
      Changes strict orphans s s' turns exits := by
  rcases processFork_spec returned with ⟨isNone, only⟩ |
    ⟨child, sp, ptr, ⟨_, isNew, isSpace, isThread, isStack⟩, fresh, unused, free, isState⟩
  · obtain ⟨inv', noneLost, changes⟩ := inv.onlyPid only none
    exact ⟨queue, inv', fun kept _ => noneLost kept, changes⟩
  · subst isState
    have added : ProcInv strict (withChild s child sp) queue ∧ (NoneLost s queue → NoneLost (withChild s child sp) queue) ∧
        Changes strict orphans s (withChild s child sp) turns exits := by
      refine inv.addProc fresh (Function.update s.spaces sp true) (some (.user sp)) ?_ ?_ none rfl
      · intro ptr used
        rw [Function.update_apply]
        split
        · rfl
        · exact used
      · intro ptr same
        injection same with same
        injection same with same
        rw [← same, Function.update_self]
        exact ⟨unused, rfl⟩
    obtain ⟨inv₁, noneLost₁, changes₁⟩ := added
    have existing : (withChild s child sp).procs child = some ⟨s.nextPid, .alive, 0, some (.user sp), [], 0, 0⟩ := by
      simp only [withChild, Function.update_self]
    have table := inv₁.table.withThread free true existing (Or.inr rfl)
    have sameProcs : Function.update (withChild s child sp).procs child
        (some (withNew ⟨s.nextPid, .alive, 0, some (.user sp), [], 0, 0⟩ (.heap ptr))) =
        Function.update s.procs child
          (some (withNew ⟨s.nextPid, .alive, 0, some (.user sp), [], 0, 0⟩ (.heap ptr))) := by
      simp only [withChild, Function.update_idem]
    rw [sameProcs] at table
    have others (q : HeapPtr) (other : Process) (exists' : s.procs q = some other) : q ≠ child := by
      intro same
      rw [same, fresh] at exists'
      cases exists'
    have kept : ∀ q other, (withChild s child sp).procs q = some other →
        ∃ other', Function.update s.procs child
          (some (withNew ⟨s.nextPid, .alive, 0, some (.user sp), [], 0, 0⟩ (.heap ptr))) q = some other' ∧
          other'.state = other.state := by
      intro q other exists'
      rw [Function.update_apply]
      split
      · rename_i same
        rw [same, existing] at exists'
        rw [← Option.some.inj exists']
        exact ⟨_, rfl, rfl⟩
      · rename_i different
        simp only [withChild, Function.update_of_ne different] at exists'
        exact ⟨other, exists', rfl⟩
    have gone : ∀ pid, (withChild s child sp).gone pid → (withThread (withChild s child sp) ptr (some child) true
        (Function.update s.procs child
          (some (withNew ⟨s.nextPid, .alive, 0, some (.user sp), [], 0, 0⟩ (.heap ptr))))).gone pid := by
      rintro pid ⟨used, absent⟩
      refine ⟨used, ?_⟩
      intro q other exists'
      simp only [withThread, Function.update_apply] at exists'
      have notNew := absent child _ existing
      split at exists'
      · rw [← Option.some.inj exists']
        exact notNew
      · rename_i different
        refine absent q other ?_
        simp only [withChild, Function.update_of_ne different, exists']
    have noOrphan : some child = Option.none → orphans := (by rintro ⟨⟩)
    have later : ∃ queue', ProcInv strict _ queue' ∧ (NoneLost (withChild s child sp) queue → _ → NoneLost _ queue') ∧
        Changes strict orphans (withChild s child sp) _ turns exits := inv₁.addThread free table kept gone none noOrphan
    obtain ⟨queue', inv', noneLost, changes⟩ := later
    refine ⟨queue', inv', fun lost room => noneLost (noneLost₁ lost) (room ?_),
      Changes.of_kept none ?_ (fun pid absent => changes.gone pid (changes₁.gone pid absent)) ?_ ?_⟩
    · simp [isNew, isSpace, isThread, isStack]
    · intro q other exists'
      refine ⟨other, ?_, rfl⟩
      simp only [withThread, Function.update_of_ne (others q other exists'), exists']
    · intro t other here
      have different : t ≠ .heap ptr := by
        intro same
        rw [same, free] at here
        cases here
      exact ⟨other, by simp only [withThread, withChild, Function.update_of_ne different, here], id⟩
    · intro t other here noOwner
      exact changes.orphan t other here noOwner

end

end DoccrOS.Proc
