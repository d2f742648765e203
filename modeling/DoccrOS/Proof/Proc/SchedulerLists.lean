import DoccrOS.Proof.Proc.Returns

namespace DoccrOS.Proc
open Lib Mem

def ProcOp.isWaitpid : ProcOp → Bool
  | .processWaitpid _ => true
  | _ => false

/-- The calls that the kernel makes, without `process_waitpid`. -/
def Sched.schedules (s : Sched) (op : ProcOp) : Bool := s.allowed op && !op.isWaitpid

/-- The calls that find room in the ready queue when they push a thread. -/
def Sched.findsRoom (s : Sched) (op : ProcOp) : Bool :=
  s.schedules op && (!s.pushes op || decide (s.readyQ.cnt < schedMaxThreads))

/-- A thread that has been created and has not called `thread_exit`. -/
def Sched.awake (s : Sched) (t : ThreadPtr) : Bool := (s.threads t).any fun thread => thread.state != .dead

section
variable {s s' : Sched} {queue : List ThreadPtr} {t : ThreadPtr} {op : ProcOp} {ops : List ProcOp}

theorem Sched.awake_eq (s : Sched) (t : ThreadPtr) : s.awake t = liveIn (ownersOf s.threads) t := by
  rw [Sched.awake, liveIn, ownersOf, Option.any_map]

theorem Sched.call_of_step (returned : s.step op = .ok s') : ∃ null, s.call op = .ok (null, s') := by
  cases called : s.call op with
  | error halt =>
      rw [Sched.step, called] at returned
      cases returned
  | ok result =>
      rw [Sched.step, called] at returned
      exact ⟨result.1, by rw [← Except.ok.inj returned]⟩

theorem Sched.step_of_call {result : Bool × Sched} (called : s.call op = .ok result) : s.step op = .ok result.2 := by
  rw [Sched.step, called]
  rfl

/-- A call other than `process_waitpid` keeps the invariant in its strict form. -/
theorem ProcInv.schedules (inv : ProcInv True s queue) (permitted : s.schedules op = true) (returned : s.step op = .ok s') :
    ∃ queue', ProcInv True s' queue' ∧
      (NoneLost s queue → (s.pushes op = true → s.readyQ.cnt < schedMaxThreads) → NoneLost s' queue') ∧
      Changes True (op.orphans = true) s s' (fun p => op = .threadExit ∧ lastOf s p)
        fun t => op = .threadExit ∧ t = s.current := by
  rw [Sched.schedules, Bool.and_eq_true, Bool.not_eq_true'] at permitted
  obtain ⟨null, called⟩ := Sched.call_of_step returned
  refine inv.step permitted.1 (fun _ _ _ _ => Or.inl trivial) ?_ called
  intro _
  cases op <;> first | rfl | cases permitted.2

theorem schedules_inv (run : Run Sched.step (fun s op => s.schedules op = true) schedBoot ops s) :
    ∃ queue, ProcInv True s queue := by
  refine run.invariant (fun s => ∃ queue, ProcInv True s queue) ?_ ⟨[], schedBoot_inv⟩
  rintro before op after ⟨queue, inv⟩ permitted returned
  obtain ⟨queue', inv', _⟩ := inv.schedules permitted returned
  exact ⟨queue', inv'⟩

theorem findsRoom_inv (run : Run Sched.step (fun s op => s.findsRoom op = true) schedBoot ops s) :
    ∃ queue, ProcInv True s queue ∧ NoneLost s queue := by
  refine run.invariant (fun s => ∃ queue, ProcInv True s queue ∧ NoneLost s queue) ?_ ⟨[], schedBoot_inv, ?_⟩
  · rintro before op after ⟨queue, inv, noneLost⟩ permitted returned
    simp only [Sched.findsRoom, Bool.and_eq_true, Bool.or_eq_true, Bool.not_eq_true', decide_eq_true_eq] at permitted
    obtain ⟨queue', inv', kept, _⟩ := inv.schedules permitted.1 returned
    refine ⟨queue', inv', kept noneLost ?_⟩
    intro pushes
    rw [pushes] at permitted
    exact permitted.2.resolve_left nofun
  · intro t live notBoot _
    rw [← Sched.awake_eq] at live
    simp [Sched.awake, schedBoot, notBoot] at live

/-- In every run whose calls find room in the ready queue, each thread that has not exited is current or queued, and no call
ends a thread but `thread_exit`, which ends the current one. -/
theorem threads_never_lost (run : Run Sched.step (fun s op => s.findsRoom op = true) schedBoot ops s) :
    (∀ t, s.awake t = true → t ≠ .bootstrap → s.idleThread ≠ some t → t = s.current ∨ t ∈ s.readyQ.threads) ∧
      ∀ op s', s.findsRoom op = true → s.step op = .ok s' → ∀ t, s.awake t = true →
        s'.awake t = true ∨ (op = .threadExit ∧ t = s.current) := by
  obtain ⟨queue, inv, noneLost⟩ := findsRoom_inv run
  constructor
  · intro t live notBoot notIdle
    rw [Sched.awake_eq] at live
    rw [inv.run.parts.holds.threads]
    exact noneLost t live notBoot notIdle
  · intro op s' permitted returned t live
    simp only [Sched.findsRoom, Bool.and_eq_true] at permitted
    obtain ⟨_, _, _, changes⟩ := inv.schedules permitted.1 returned
    rw [Sched.awake_eq] at live ⊢
    by_cases exits : op = .threadExit ∧ t = s.current
    · exact Or.inr exits
    · exact Or.inl (changes.awake t live exits)

/-- The lists of the scheduler are duplicate-free, hold the threads they should and refer to threads that exist. -/
structure ListsOk (s : Sched) : Prop where
  queueNodup : s.readyQ.threads.Nodup
  queueCurrent : s.current ∉ s.readyQ.threads
  queueIdle : ∀ t, s.idleThread = some t → t ∉ s.readyQ.threads
  queueAwake : ∀ t ∈ s.readyQ.threads, s.awake t = true
  zombieNodup : s.zombies.Nodup
  zombieDead : ∀ t ∈ s.zombies, ∃ thread, s.threads t = some thread ∧ thread.state = .dead
  zombieCurrent : s.current ∉ s.zombies
  current : (s.threads s.current).isSome = true
  listed : ∀ p proc, s.procs p = some proc → ∀ t ∈ proc.threads, (s.threads t).isSome = true

theorem ProcInv.listsOk (inv : ProcInv True s queue) (idle : s.idleThread.isSome = true) : ListsOk s := by
  have isQueue : s.readyQ.threads = queue := inv.run.parts.holds.threads
  obtain ⟨current, isCurrent, notReady, _, noIdle⟩ := inv.run.current
  refine ⟨?_, ?_, ?_, ?_, inv.run.parts.zombieNodup, ?_, ?_, ?_, ?_⟩
  · rw [isQueue]
    exact inv.run.parts.nodup
  · rw [isQueue]
    exact inv.run.notQueued
  · intro t isIdle
    rw [isQueue]
    exact (inv.run.parts.idle t isIdle).1
  · intro t member
    rw [isQueue] at member
    obtain ⟨thread, here, isReady⟩ := exists_of_stateOf (inv.run.parts.ready t member)
    simp [Sched.awake, here, isReady]
  · intro t member
    exact exists_of_stateOf ((inv.run.parts.zombie t).mp member)
  · intro member
    have dead := (inv.run.parts.zombie _).mp member
    rw [stateOf_some isCurrent] at dead
    rw [noIdle (Option.some.inj dead)] at idle
    cases idle
  · rw [isCurrent]
    rfl
  · intro p proc existing t member
    obtain ⟨live, isOwner⟩ := (inv.table.ok p proc existing).listed t member
    obtain ⟨thread, here, _⟩ := Option.map_eq_some_iff.mp isOwner
    rw [here]
    rfl

/-- With an idle thread the lists are well formed in every state, every call returns, so that no thread is destroyed twice,
and a call only destroys threads of the zombie list, none of which is current. -/
theorem scheduler_lists (run : Run Sched.step (fun s op => s.schedules op = true) schedBoot ops s)
    (idle : s.idleThread.isSome = true) :
    ListsOk s ∧ ∀ op, s.schedules op = true → ∃ s', s.step op = .ok s' ∧
      ∀ t, (s.threads t).isSome = true → s'.threads t = none → t ∈ s.zombies ∧ t ≠ s.current := by
  obtain ⟨queue, inv⟩ := schedules_inv run
  have lists := inv.listsOk idle
  refine ⟨lists, ?_⟩
  intro op permitted
  have allowed : s.allowed op = true := (Bool.and_eq_true _ _ ▸ permitted : _ ∧ _).1
  obtain ⟨result, called⟩ := inv.returns allowed lists.zombieCurrent
  have returned := Sched.step_of_call called
  refine ⟨result.2, returned, ?_⟩
  intro t here gone
  obtain ⟨thread, isThread⟩ := Option.isSome_iff_exists.mp here
  obtain ⟨_, _, _, changes⟩ := inv.schedules permitted returned
  have member := changes.vanished t thread isThread gone
  refine ⟨member, ?_⟩
  intro same
  rw [same] at member
  exact lists.zombieCurrent member

end

/-- One thread starts the scheduler and the thread that runs creates more. -/
def createThreads (count : Nat) : List ProcOp :=
  .threadCreate none 1 (some (heapPtr 0)) true :: .schedStart ::
    (List.range count).map fun i => .threadCreate none 1 (some (heapPtr (i + 1))) true

theorem threads_never_lost_three : ∃ s, Run Sched.step (fun s op => s.findsRoom op = true) schedBoot (createThreads 2) s ∧
    s.awake (.heap (heapPtr 2)) = true ∧ (.heap (heapPtr 2) = s.current ∨ .heap (heapPtr 2) ∈ s.readyQ.threads) := by
  have checked : (exec Sched.step Sched.findsRoom (createThreads 2) schedBoot).any
      (fun s => s.awake (.heap (heapPtr 2)) && decide (s.idleThread = none)) = true := by decide +kernel
  obtain ⟨s, run, facts⟩ := Run.exists_of_check checked
  simp only [Bool.and_eq_true, decide_eq_true_eq] at facts
  refine ⟨s, run, facts.1, ?_⟩
  exact (threads_never_lost run).1 _ facts.1 nofun (by rw [facts.2]; exact nofun)

/-- The ready queue holds 64 threads; the next one is dropped. -/
theorem threads_lost : ¬∀ (ops : List ProcOp) (s : Sched),
    Run Sched.step (fun s op => s.schedules op = true) schedBoot ops s → s.enabled = true →
    ∀ t, s.awake t = true → t ≠ .bootstrap → s.idleThread ≠ some t → t = s.current ∨ t ∈ s.readyQ.threads := by
  intro claim
  have checked : (exec Sched.step Sched.schedules (createThreads 65) schedBoot).any
      (fun s => s.enabled && s.awake (.heap (heapPtr 65)) && decide (s.idleThread = none) &&
        decide (s.current ≠ .heap (heapPtr 65)) && decide (.heap (heapPtr 65) ∉ s.readyQ.threads)) = true := by
    decide +kernel
  obtain ⟨s, run, facts⟩ := Run.exists_of_check checked
  simp only [Bool.and_eq_true, decide_eq_true_eq] at facts
  obtain ⟨⟨⟨⟨enabled, live⟩, noIdle⟩, notCurrent⟩, notQueued⟩ := facts
  rcases claim _ s run enabled _ live nofun (by rw [noIdle]; exact nofun) with isCurrent | member
  · exact notCurrent isCurrent.symm
  · exact notQueued member

/-- A process with two threads: the first one exits and the second one yields to the idle thread. -/
def exitWithIdle : List ProcOp :=
  [.processCreate (some (heapPtr 0)), .threadCreate none 1 (some (heapPtr 1)) true,
    .schedSetIdle (some (.heap (heapPtr 1))), .threadCreate (some (heapPtr 0)) 1 (some (heapPtr 2)) true,
    .threadCreate (some (heapPtr 0)) 1 (some (heapPtr 3)) true, .schedStart, .threadExit]

theorem scheduler_lists_exit :
    ∃ s, Run Sched.step (fun s op => s.schedules op = true) schedBoot exitWithIdle s ∧ ListsOk s ∧
      s.zombies = [.heap (heapPtr 2)] ∧ ∃ s', s.step .schedYield = .ok s' ∧ s'.threads (.heap (heapPtr 2)) = none := by
  have checked : (exec Sched.step Sched.schedules exitWithIdle schedBoot).any
      (fun s => s.idleThread.isSome && s.schedules .schedYield && decide (s.zombies = [.heap (heapPtr 2)]) &&
        checkStep Sched.step .schedYield (fun _ s' => (s'.threads (.heap (heapPtr 2))).isNone) s) = true := by decide +kernel
  obtain ⟨s, run, facts⟩ := Run.exists_of_check checked
  simp only [Bool.and_eq_true, decide_eq_true_eq] at facts
  obtain ⟨⟨⟨idle, _⟩, zombies⟩, yielded⟩ := facts
  obtain ⟨s', returned, gone⟩ := exists_of_checkStep yielded
  exact ⟨s, run, (scheduler_lists run idle).1, zombies, s', returned, Option.isNone_iff_eq_none.mp gone⟩

/-- The calls that the kernel makes with threads that have an owner. -/
def Sched.owns (s : Sched) (op : ProcOp) : Bool := s.allowed op && !op.orphans

/-- The process that owns a thread has not been freed. -/
def Sched.ownerExists (s : Sched) (t : ThreadPtr) : Bool :=
  (s.threads t).any fun thread => thread.owner.any s.hasProc

/-- The thread is current, in the ready queue or in the zombie list. -/
def Sched.refersTo (s : Sched) (t : ThreadPtr) : Prop := t = s.current ∨ t ∈ s.readyQ.threads ∨ t ∈ s.zombies

section
variable {s s' : Sched} {queue : List ThreadPtr} {t : ThreadPtr} {op : ProcOp} {ops : List ProcOp}

/-- A thread to which the scheduler refers exists. -/
theorem ProcInv.refersTo (inv : ProcInv True s queue) (refers : s.refersTo t) : ∃ thread, s.threads t = some thread := by
  rcases refers with isCurrent | queued | buried
  · obtain ⟨thread, here, _⟩ := inv.run.current
    rw [isCurrent]
    exact ⟨thread, here⟩
  · rw [inv.run.parts.holds.threads] at queued
    obtain ⟨thread, here, _⟩ := exists_of_stateOf (inv.run.parts.ready t queued)
    exact ⟨thread, here⟩
  · obtain ⟨thread, here, _⟩ := exists_of_stateOf ((inv.run.parts.zombie t).mp buried)
    exact ⟨thread, here⟩

theorem owns_inv (run : Run Sched.step (fun s op => s.owns op = true ∧ s.waitsSafely op = true) schedBoot ops s) :
    (∃ queue, ProcInv True s queue) ∧ ∀ t thread, s.threads t = some thread → thread.owner = none → t = .bootstrap := by
  refine run.invariant
    (fun s => (∃ queue, ProcInv True s queue) ∧
      ∀ t thread, s.threads t = some thread → thread.owner = none → t = .bootstrap) ?_ ⟨⟨[], schedBoot_inv⟩, ?_⟩
  · rintro before op after ⟨⟨queue, inv⟩, owned⟩ ⟨permitted, safe⟩ returned
    rw [Sched.owns, Bool.and_eq_true, Bool.not_eq_true'] at permitted
    obtain ⟨null, called⟩ := Sched.call_of_step returned
    obtain ⟨queue', inv', _, changes⟩ := inv.step permitted.1 (fun _ _ _ _ => Or.inl trivial) (fun _ => safe) called
    refine ⟨⟨queue', inv'⟩, ?_⟩
    intro t thread here noOwner
    rcases changes.orphan t thread here noOwner with orphans | ⟨old, here', noOwner'⟩
    · rw [permitted.2] at orphans
      cases orphans
    · exact owned t old here' noOwner'
  · intro t thread here _
    simp only [schedBoot] at here
    split at here
    · assumption
    · cases here

/-- In every run in which `process_waitpid` frees no process that has threads, the owner of each thread that the scheduler
refers to exists, and `reap_zombies` follows no freed process. The static bootstrap thread has no owner. -/
theorem owners_exist (run : Run Sched.step (fun s op => s.owns op = true ∧ s.waitsSafely op = true) schedBoot ops s) :
    (∀ t, s.refersTo t → t ≠ .bootstrap → s.ownerExists t = true) ∧ ∃ s', reapZombies s = .ok s' := by
  obtain ⟨⟨queue, inv⟩, owned⟩ := owns_inv run
  constructor
  · intro t refers notBoot
    obtain ⟨thread, here⟩ := inv.refersTo refers
    cases owner : thread.owner with
    | none => exact absurd (owned t thread here owner) notBoot
    | some p =>
        have owners : s.table.owners t = some (some p, thread.state != .dead) := by
          refine (ownersOf_some here).trans ?_
          rw [owner]
        obtain ⟨proc, existing, _⟩ := inv.table.owned t p _ owners (Or.inl trivial)
        have found : s.procs p = some proc := existing
        simp [Sched.ownerExists, Sched.hasProc, here, owner, found]
  · obtain ⟨s₁, _, reaped, _⟩ := reap_ok inv.table inv.run.parts.zombieList
    exact ⟨s₁, reaped⟩

end

/-- Two processes with one thread each; the first thread exits. -/
def exitBeforeWait : List ProcOp :=
  [.processCreateUser (some (heapPtr 0)) (some (heapPtr 0)), .processCreateUser (some (heapPtr 1)) (some (heapPtr 1)),
    .threadCreateUser (some (heapPtr 0)) 1 (some (heapPtr 2)) true,
    .threadCreateUser (some (heapPtr 1)) 1 (some (heapPtr 3)) true, .schedStart, .threadExit]

theorem owners_exist_exit : ∃ s, Run Sched.step (fun s op => s.owns op = true ∧ s.waitsSafely op = true) schedBoot
    exitBeforeWait s ∧ s.refersTo (.heap (heapPtr 2)) ∧ s.ownerExists (.heap (heapPtr 2)) = true := by
  have checked : (exec Sched.step (fun s op => s.owns op && s.waitsSafely op) exitBeforeWait schedBoot).any
      (fun s => decide (.heap (heapPtr 2) ∈ s.zombies)) = true := by decide +kernel
  obtain ⟨s, run, buried⟩ := Run.exists_of_check checked
  have refers : s.refersTo (.heap (heapPtr 2)) := Or.inr (Or.inr (of_decide_eq_true buried))
  have run' := run.mono fun _ _ both => (Bool.and_eq_true _ _ ▸ both : _ ∧ _)
  exact ⟨s, run', refers, (owners_exist run').1 _ refers nofun⟩

/-- `process_waitpid` frees the process of a dead thread that waits in the zombie list. -/
theorem owners_freed : ¬∀ (ops : List ProcOp) (s : Sched), Run Sched.step (fun s op => s.owns op = true) schedBoot ops s →
    (∀ t, s.refersTo t → t ≠ .bootstrap → s.ownerExists t = true) ∧ ∃ s', reapZombies s = .ok s' := by
  intro claim
  have checked : (exec Sched.step Sched.owns (exitBeforeWait ++ [.processWaitpid minusOne]) schedBoot).any
      (fun s => decide (.heap (heapPtr 2) ∈ s.zombies) && !s.ownerExists (.heap (heapPtr 2))) = true := by decide +kernel
  obtain ⟨s, run, facts⟩ := Run.exists_of_check checked
  simp only [Bool.and_eq_true, decide_eq_true_eq, Bool.not_eq_true'] at facts
  have freed := (claim _ s run).1 _ (Or.inr (Or.inr facts.1)) nofun
  rw [facts.2] at freed
  cases freed

end DoccrOS.Proc
