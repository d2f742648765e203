import DoccrOS.Proof.User.ExitStatus

namespace DoccrOS.Proc
open Lib Mem User

/-- The call passes `sched_yield` while the scheduler is on. -/
def Sched.switches (s : Sched) : ProcOp → Bool
  | .schedStart => true
  | .schedYield | .threadExit => s.enabled
  | .schedTick => s.enabled && wrap64 (s.ticks + 1) % quantum == 0
  | _ => false

/-- The calls that may pass `sched_yield`. -/
def ProcOp.yields : ProcOp → Bool
  | .schedStart | .schedYield | .schedTick | .threadExit => true
  | _ => false

def ProcOp.setsIdle : ProcOp → Bool
  | .schedSetIdle _ => true
  | _ => false

def ProcOp.isTick : ProcOp → Bool
  | .schedTick => true
  | _ => false

/-- The threads that a run of calls dispatches: the current thread behind each yield. -/
def Sched.dispatches (s : Sched) : List ProcOp → List ThreadPtr
  | [] => []
  | op :: ops =>
    match s.step op with
    | .error _ => []
    | .ok s' => if s.switches op then s'.current :: s'.dispatches ops else s'.dispatches ops

/-- The number of ticks until the quantum ends. The counter wraps before a whole quantum. -/
def ticksLeft (ticks : Nat) : Nat := min (quantum - ticks % quantum) (2 ^ 64 - ticks)

/-- A call leaves the clock, the switch and the idle thread of the scheduler alone. -/
structure SameClock (s s' : Sched) : Prop where
  ticks : s'.ticks = s.ticks
  enabled : s'.enabled = s.enabled
  idle : s'.idleThread = s.idleThread

/-- A call appends to the ready queue, and the current thread stays. -/
structure Appends (s s' : Sched) (queue : List ThreadPtr) : Prop where
  clock : SameClock s s'
  current : s'.current = s.current
  queued : ∃ pushed, QueueHolds s'.readyQ (queue ++ pushed)

/-- A yield takes the first thread of the ready queue, if there is one. -/
structure TakesFirst (s s' : Sched) (queue : List ThreadPtr) : Prop where
  clock : SameClock s s'
  queued : ∃ pushed, QueueHolds s'.readyQ (queue.tail ++ pushed)
  first : ∀ t ∈ queue.head?, s'.current = t

/-- What a call does while the scheduler is on: a yield takes the first thread of the queue, and any other call appends. -/
structure Turned (s s' : Sched) (op : ProcOp) (queue : List ThreadPtr) : Prop where
  enabled : s'.enabled = true
  idle : s'.idleThread = s.idleThread
  ticks : s'.ticks = if op.isTick then wrap64 (s.ticks + 1) else s.ticks
  taken : s.switches op = true → (∃ pushed, QueueHolds s'.readyQ (queue.tail ++ pushed)) ∧ ∀ t ∈ queue.head?, s'.current = t
  kept : s.switches op = false → ∃ pushed, QueueHolds s'.readyQ (queue ++ pushed)

section
variable {s s' s₀ : Sched} {queue : List ThreadPtr} {t next : ThreadPtr} {thread prev : Thread} {op : ProcOp} {ops : List ProcOp}

theorem SameClock.refl (s : Sched) : SameClock s s := ⟨rfl, rfl, rfl⟩

theorem SameClock.after (second : SameClock s₀ s') (first : SameClock s s₀) : SameClock s s' :=
  ⟨second.ticks.trans first.ticks, second.enabled.trans first.enabled, second.idle.trans first.idle⟩

theorem TakesFirst.behind (takes : TakesFirst s₀ s' queue) (clock : SameClock s s₀) : TakesFirst s s' queue :=
  ⟨takes.clock.after clock, takes.queued, takes.first⟩

/-- A push appends the thread, if there is room. -/
theorem QueueHolds.pushed {q : ReadyQueue} (holds : QueueHolds q queue) (t : ThreadPtr) :
    ∃ pushed, QueueHolds (qPush q t) (queue ++ pushed) := by
  rcases Nat.lt_or_ge q.cnt schedMaxThreads with room | full
  · exact ⟨[t], holds.push room t⟩
  · refine ⟨[], ?_⟩
    rw [qPush_full full, List.append_nil]
    exact holds

/-- The switch makes the chosen thread the current one. -/
theorem switchTo_clock (returned : switchTo s next = .ok s') :
    SameClock s s' ∧ s'.readyQ = s.readyQ ∧ s'.current = next := by
  obtain ⟨thread, read, _⟩ := Result.bind_ok returned
  have isState := switchTo_spec (Sched.threads_of_ok read) returned
  rw [isState]
  exact ⟨⟨rfl, rfl, rfl⟩, rfl, rfl⟩

theorem Appends.same (holds : QueueHolds s.readyQ queue) (clock : SameClock s s') (current : s'.current = s.current)
    (sameQueue : s'.readyQ = s.readyQ) : Appends s s' queue := by
  refine ⟨clock, current, [], ?_⟩
  rw [sameQueue, List.append_nil]
  exact holds

/-- The choice of the next thread. -/
theorem pickNext_takes (returned : pickNext s prev = .ok s') (holds : QueueHolds s.readyQ queue) : TakesFirst s s' queue := by
  cases queue with
  | nil =>
      rw [pickNext, holds.pop_nil] at returned
      have stays (clock : SameClock s s') (sameQueue : s'.readyQ = s.readyQ) : TakesFirst s s' [] := by
        refine ⟨clock, ⟨[], ?_⟩, fun t member => ?_⟩
        · rw [sameQueue]
          exact holds
        · cases member
      simp only at returned
      split at returned
      · cases returned
        exact stays ⟨rfl, rfl, rfl⟩ rfl
      · split at returned
        · cases returned
          exact stays ⟨rfl, rfl, rfl⟩ rfl
        · obtain ⟨clock, sameQueue, _⟩ := switchTo_clock returned
          exact stays clock sameQueue
  | cons first rest =>
      obtain ⟨q', popped, holds'⟩ := holds.pop
      rw [pickNext, popped] at returned
      obtain ⟨clock, sameQueue, isCurrent⟩ := switchTo_clock returned
      refine ⟨clock.after ⟨rfl, rfl, rfl⟩, ⟨[], ?_⟩, ?_⟩
      · rw [sameQueue, List.append_nil]
        exact holds'
      · intro t isFirst
        rw [isCurrent]
        exact Option.some.inj isFirst

/-- The part of `sched_yield` behind the reapers. A thread that goes on leaves the queue empty. -/
theorem yieldRest_takes (returned : yieldRest s prev = .ok s') (holds : QueueHolds s.readyQ queue) :
    TakesFirst s s' queue := by
  rw [yieldRest] at returned
  split at returned
  · exact (pickNext_takes returned holds).behind ⟨rfl, rfl, rfl⟩
  · split at returned
    · split at returned
      · rename_i empty
        have isNil := holds.empty_iff.mp empty
        cases returned
        refine ⟨SameClock.refl s, ⟨[], ?_⟩, ?_⟩
        · rw [isNil] at holds ⊢
          exact holds
        · intro t member
          rw [isNil] at member
          cases member
      · rename_i several
        obtain ⟨pushed, holds'⟩ := holds.pushed s.current
        have notNil : queue ≠ [] := fun isNil => several (holds.empty_iff.mpr isNil)
        obtain ⟨clock, ⟨more, behind⟩, first⟩ := pickNext_takes returned holds'
        refine ⟨clock.after ⟨rfl, rfl, rfl⟩, ⟨pushed ++ more, ?_⟩, ?_⟩
        · rw [← List.append_assoc, ← List.tail_append_of_ne_nil notNil]
          exact behind
        · intro t isFirst
          apply first
          rw [List.head?_append_of_ne_nil _ notNil]
          exact isFirst
    · exact pickNext_takes returned holds

/-- A yield with the scheduler on. -/
theorem YieldInv.takes {strict : Prop} (inv : YieldInv s queue prev) (table : TableInv strict s.table)
    (returned : schedYield s = .ok s') : TakesFirst s s' queue := by
  obtain ⟨spaces, rest, _, _⟩ := inv.reaped table returned
  exact (yieldRest_takes rest inv.holds).behind ⟨rfl, rfl, rfl⟩

theorem withThread_appends (holds : QueueHolds s.readyQ queue) {ptr : HeapPtr} {owner : Option HeapPtr} {isUser : Bool}
    {procs : HeapPtr → Option Process} : Appends s (withThread s ptr owner isUser procs) queue :=
  ⟨⟨rfl, rfl, rfl⟩, rfl, holds.pushed _⟩

theorem threadNew_appends {owner new : Option HeapPtr} {isUser stack : Bool} {result : Option ThreadPtr}
    (holds : QueueHolds s.readyQ queue) (returned : threadNew s owner isUser new stack = .ok (result, s')) :
    Appends s s' queue := by
  rcases threadNew_spec returned with ⟨_, same⟩ | ⟨ptr, _, _, ⟨_, same⟩ | ⟨p, proc, _, _, same⟩⟩
  · rw [same]
    exact Appends.same holds ⟨rfl, rfl, rfl⟩ rfl rfl
  · rw [same]
    exact withThread_appends holds
  · rw [same]
    exact withThread_appends holds

/-- A call that is no yield appends at most one thread. -/
theorem ProcInv.appends (inv : ProcInv False s queue) (permitted : s.allowed op = true) (idle : op.setsIdle = false)
    (returned : s.step op = .ok s') (other : op.yields = false) : Appends s s' queue := by
  have holds := inv.run.parts.holds
  obtain ⟨null, called⟩ := Sched.call_of_step returned
  cases op with
  | processCreate new =>
      obtain ⟨⟨result, w⟩, made, rest⟩ := Result.bind_ok called
      cases rest
      rcases processCreate_spec made with ⟨_, same⟩ | ⟨p, _, _, same⟩
      · rw [same]
        exact Appends.same holds ⟨rfl, rfl, rfl⟩ rfl rfl
      · rw [same]
        exact Appends.same holds ⟨rfl, rfl, rfl⟩ rfl rfl
  | processCreateUser new space =>
      obtain ⟨⟨result, w⟩, made, rest⟩ := Result.bind_ok called
      cases rest
      rcases processCreateUser_spec made with ⟨_, nextPid, _, same⟩ | ⟨p, ptr, _, _, _, same⟩
      · rw [same]
        exact Appends.same holds ⟨rfl, rfl, rfl⟩ rfl rfl
      · rw [same]
        exact Appends.same holds ⟨rfl, rfl, rfl⟩ rfl rfl
  | processDestroy p =>
      obtain ⟨w, made, rest⟩ := Result.bind_ok called
      cases rest
      simp only [Sched.allowed, Bool.and_eq_true, Option.any_eq_true, beq_iff_eq, List.isEmpty_iff] at permitted
      obtain ⟨_, proc, existing, isAlive, alone⟩ := permitted
      have inside : p ∈ s.head := (inv.table.head p).mpr ⟨proc, existing, isAlive⟩
      obtain ⟨spaces, _, same⟩ := processDestroy_spec existing alone inside made
      rw [same]
      exact Appends.same holds ⟨rfl, rfl, rfl⟩ rfl rfl
  | threadCreate owner entry new stack =>
      obtain ⟨⟨result, w⟩, made, rest⟩ := Result.bind_ok called
      cases rest
      rw [threadCreate] at made
      split at made
      · cases made
        exact Appends.same holds ⟨rfl, rfl, rfl⟩ rfl rfl
      · exact threadNew_appends holds made
  | threadCreateUser owner entry new stack =>
      obtain ⟨⟨result, w⟩, made, rest⟩ := Result.bind_ok called
      cases rest
      rw [threadCreateUser] at made
      split at made
      · cases made
        exact Appends.same holds ⟨rfl, rfl, rfl⟩ rfl rfl
      · exact threadNew_appends holds made
  | processFork new space thread stack =>
      obtain ⟨⟨result, w⟩, made, rest⟩ := Result.bind_ok called
      cases rest
      rcases processFork_spec made with ⟨_, nextPid, _, same⟩ | ⟨child, sp, ptr, _, _, _, _, same⟩
      · rw [same]
        exact Appends.same holds ⟨rfl, rfl, rfl⟩ rfl rfl
      · rw [same]
        exact ⟨⟨rfl, rfl, rfl⟩, rfl, holds.pushed _⟩
  | schedSetIdle t => cases idle
  | schedStart => cases other
  | schedYield => cases other
  | schedTick => cases other
  | threadExit => cases other
  | processWaitpid target =>
      obtain ⟨⟨result, w⟩, made, rest⟩ := Result.bind_ok called
      cases rest
      rcases processWaitpid_spec made with ⟨_, same, _⟩ | ⟨cur, proc, spaces, _, _, _, _, _, same⟩
      · rw [same]
        exact Appends.same holds ⟨rfl, rfl, rfl⟩ rfl rfl
      · rw [same]
        exact Appends.same holds ⟨rfl, rfl, rfl⟩ rfl rfl

theorem Turned.of_takes (takes : TakesFirst s₀ s' queue) (enabled : s₀.enabled = true) (idle : s₀.idleThread = s.idleThread)
    (ticks : s₀.ticks = if op.isTick then wrap64 (s.ticks + 1) else s.ticks) (switches : s.switches op = true) :
    Turned s s' op queue := by
  refine ⟨takes.clock.enabled.trans enabled, takes.clock.idle.trans idle, takes.clock.ticks.trans ticks, ?_, ?_⟩
  · intro _
    exact ⟨takes.queued, takes.first⟩
  · intro stays
    rw [switches] at stays
    cases stays

/-- The part of `thread_exit` before the yield leaves the clock alone. -/
theorem exitState_ticks (returned : exitState s = .ok s') : s'.ticks = s.ticks := by
  obtain ⟨self, _, returned⟩ := Result.bind_ok returned
  split at returned
  · cases returned
    rfl
  · obtain ⟨proc, _, returned⟩ := Result.bind_ok returned
    split at returned
    · obtain ⟨other, _, returned⟩ := Result.bind_ok returned
      split at returned
      · cases returned
        rfl
      · cases returned
        rfl
    · cases returned
      rfl

/-- A call while the scheduler is on. -/
theorem ProcInv.turned (inv : ProcInv False s queue) (enabled : s.enabled = true) (idle : op.setsIdle = false)
    (permitted : s.allowed op = true) (returned : s.step op = .ok s') : Turned s s' op queue := by
  cases other : op.yields with
  | false =>
      obtain ⟨clock, _, queued⟩ := inv.appends permitted idle returned other
      have notTick : op.isTick = false := by
        cases op <;> first | rfl | cases other
      have stays : s.switches op = false := by
        cases op <;> first | rfl | cases other
      refine ⟨clock.enabled.trans enabled, clock.idle, ?_, ?_, fun _ => queued⟩
      · rw [notTick]
        exact clock.ticks
      · intro switches
        rw [stays] at switches
        cases switches
  | true =>
      obtain ⟨null, called⟩ := Sched.call_of_step returned
      obtain ⟨prev, atYield⟩ := inv.run.yieldInv enabled
      cases op with
      | schedStart =>
          simp only [Sched.allowed, enabled, Bool.not_true, Bool.and_false, Bool.false_and] at permitted
          cases permitted
      | schedYield =>
          obtain ⟨w, yielded, rest⟩ := Result.bind_ok called
          cases rest
          exact Turned.of_takes (atYield.takes inv.table yielded) enabled rfl rfl enabled
      | schedTick =>
          obtain ⟨w, ticked, rest⟩ := Result.bind_ok called
          cases rest
          have isOn : ¬(!s.enabled) = true := by
            rw [enabled]
            decide
          rw [Proc.schedTick, if_neg isOn] at ticked
          simp only at ticked
          split at ticked
          · rename_i expired
            have atTick : YieldInv { s with ticks := wrap64 (s.ticks + 1) } queue prev := ⟨atYield.holds, atYield.nodup,
              atYield.ready, atYield.idle, atYield.zombieNodup, atYield.zombie, atYield.buried, atYield.bootstrap,
              atYield.current, atYield.awake, atYield.blocked, atYield.enabled⟩
            refine Turned.of_takes (atTick.takes inv.table ticked) enabled rfl rfl ?_
            rw [Sched.switches, enabled, expired]
            rfl
          · rename_i early
            cases ticked
            refine ⟨enabled, rfl, rfl, ?_, ?_⟩
            · intro switches
              rw [Sched.switches, enabled, Bool.true_and, beq_iff_eq] at switches
              exact absurd switches early
            · intro _
              exact (Appends.same inv.run.parts.holds (SameClock.refl s) rfl rfl).queued
      | threadExit =>
          obtain ⟨w, exits, rest⟩ := Result.bind_ok called
          cases rest
          simp only [Sched.allowed, Bool.and_eq_true, bne_iff_ne, ne_eq] at permitted
          obtain ⟨⟨runs, notBoot⟩, notIdle⟩ := permitted
          obtain ⟨current, here, awake⟩ := Sched.runs_iff runs
          obtain ⟨s₀, exited, facts, table, _⟩ := exitState_spec inv.table here awake
          obtain ⟨atExit, _⟩ := facts.yieldInv inv.run here awake notBoot (Ne.symm notIdle)
          rw [threadExit_eq, exited, Result.ok_bind] at exits
          exact Turned.of_takes (atExit.takes table exits) (facts.enabled.trans enabled) facts.idle (exitState_ticks exited)
            enabled
      | processCreate new => cases other
      | processCreateUser new space => cases other
      | processDestroy p => cases other
      | threadCreate owner entry new stack => cases other
      | threadCreateUser owner entry new stack => cases other
      | processFork new space thread stack => cases other
      | schedSetIdle idle => cases other
      | processWaitpid target => cases other

/-- The idle thread is set once. -/
theorem setsIdle_of_isSome (idle : s.idleThread.isSome = true) (permitted : s.allowed op = true) : op.setsIdle = false := by
  cases op with
  | schedSetIdle t =>
      simp only [Sched.allowed, Bool.and_eq_true, Option.isNone_iff_eq_none] at permitted
      rw [permitted.1.2] at idle
      cases idle
  | _ => rfl

/-- A call counts in 64 bits. -/
theorem ProcInv.ticks (inv : ProcInv False s queue) (permitted : s.allowed op = true) (returned : s.step op = .ok s')
    (below : s.ticks < 2 ^ 64) : s'.ticks < 2 ^ 64 := by
  have same (stays : s'.ticks = s.ticks) : s'.ticks < 2 ^ 64 := by
    rw [stays]
    exact below
  cases setsIdle : op.setsIdle with
  | true =>
      obtain ⟨null, called⟩ := Sched.call_of_step returned
      cases op with
      | schedSetIdle idle =>
          obtain ⟨w, set, rest⟩ := Result.bind_ok called
          cases rest
          cases idle with
          | none =>
              cases set
              exact same rfl
          | some t =>
              obtain ⟨thread, _, set⟩ := Result.bind_ok set
              cases set
              exact same rfl
      | _ => cases setsIdle
  | false =>
      cases enabled : s.enabled with
      | true =>
          have ticks := (inv.turned enabled setsIdle permitted returned).ticks
          rw [ticks]
          split
          · exact Nat.mod_lt _ (by decide)
          · exact below
      | false =>
          cases other : op.yields with
          | false => exact same (inv.appends permitted setsIdle returned other).clock.ticks
          | true =>
              obtain ⟨null, called⟩ := Sched.call_of_step returned
              have off : (!s.enabled) = true := by
                rw [enabled]
                rfl
              cases op with
              | schedStart =>
                  simp only [Sched.allowed, Bool.and_eq_true, beq_iff_eq] at permitted
                  obtain ⟨boot, here, _, _, atStart, table⟩ := inv.started permitted.2
                  obtain ⟨w, starts, rest⟩ := Result.bind_ok called
                  cases rest
                  obtain ⟨other, read, yielded⟩ := Result.bind_ok starts
                  have isBoot : some other = some boot := (Sched.threads_of_ok read).symm.trans here
                  rw [Option.some.inj isBoot] at yielded
                  exact same (atStart.takes table yielded).clock.ticks
              | schedYield =>
                  obtain ⟨w, yielded, rest⟩ := Result.bind_ok called
                  cases rest
                  rw [Proc.schedYield, if_pos off] at yielded
                  cases yielded
                  exact same rfl
              | schedTick =>
                  obtain ⟨w, ticked, rest⟩ := Result.bind_ok called
                  cases rest
                  rw [Proc.schedTick, if_pos off] at ticked
                  cases ticked
                  exact same rfl
              | threadExit =>
                  simp only [Sched.allowed, Bool.and_eq_true, bne_iff_ne, ne_eq] at permitted
                  exact absurd (inv.run.disabled enabled) permitted.1.2
              | _ => cases other

/-- The next tick ends the quantum just if one tick is left. -/
theorem ticksLeft_step {ticks : Nat} (below : ticks < 2 ^ 64) :
    0 < ticksLeft ticks ∧ ticksLeft ticks ≤ quantum ∧ (wrap64 (ticks + 1) % quantum ≠ 0 →
      ticksLeft (wrap64 (ticks + 1)) + 1 = ticksLeft ticks) := by
  unfold ticksLeft wrap64
  simp only [quantum]
  rcases Nat.lt_or_ge (ticks + 1) (2 ^ 64) with inside | last
  · rw [Nat.mod_eq_of_lt inside]
    omega
  · have wraps : (ticks + 1) % 2 ^ 64 = 0 := by
      have isLast : ticks + 1 = 2 ^ 64 := by omega
      rw [isLast, Nat.mod_self]
    rw [wraps]
    omega

/-- What a run of calls does to the ready queue, to the clock and to the current thread. -/
structure RunTurns (s s' : Sched) (ops : List ProcOp) (queue : List ThreadPtr) : Prop where
  order : ∀ (i : Nat) (t c : ThreadPtr), queue[i]? = some t → (s.dispatches ops)[i]? = some c → c = t
  waits : ∀ (i : Nat) (t : ThreadPtr), queue[i]? = some t → (s.dispatches ops).length ≤ i →
    s'.readyQ.threads[i - (s.dispatches ops).length]? = some t
  ticks : ops.countP ProcOp.isTick + ticksLeft s'.ticks ≤ ticksLeft s.ticks + quantum * (s.dispatches ops).length

/-- A run of calls while the scheduler is on. The induction is on the run. -/
theorem ProcInv.turns (inv : ProcInv False s queue) (enabled : s.enabled = true) (idle : s.idleThread.isSome = true)
    (below : s.ticks < 2 ^ 64) (run : Run Sched.step (fun s op => allowedAlive s op = true) s ops s') :
    RunTurns s s' ops queue := by
  induction run generalizing queue with
  | nil s =>
      refine ⟨?_, ?_, ?_⟩
      · intro i t c _ none
        cases none
      · intro i t here _
        rw [inv.run.parts.holds.threads]
        exact here
      · exact Nat.zero_add _ ▸ Nat.le_add_right _ _
  | @cons s middle s' op ops permitted returned rest inductionHypothesis =>
      have allowed := (Bool.and_eq_true_iff.mp permitted).1
      have turned := inv.turned enabled (setsIdle_of_isSome idle allowed) allowed returned
      obtain ⟨queue', inv', _⟩ := allowedAlive_step inv permitted returned
      have sameQueue := inv'.run.parts.holds.threads
      have below' : middle.ticks < 2 ^ 64 := by
        rw [turned.ticks]
        split
        · exact Nat.mod_lt _ (by decide)
        · exact below
      have later := inductionHypothesis inv' turned.enabled (turned.idle ▸ idle) below'
      obtain ⟨positive, most, next⟩ := ticksLeft_step below
      cases switches : s.switches op with
      | true =>
          obtain ⟨⟨pushed, holds⟩, first⟩ := turned.taken switches
          rw [sameQueue.symm.trans holds.threads] at later
          have isList : s.dispatches (op :: ops) = middle.current :: middle.dispatches ops := by
            rw [Sched.dispatches, returned]
            exact if_pos switches
          have behind {i : Nat} {t : ThreadPtr} (queued : queue[i + 1]? = some t) : (queue.tail ++ pushed)[i]? = some t := by
            rw [← List.getElem?_tail] at queued
            rw [List.getElem?_append_left (List.getElem?_eq_some_iff.mp queued).1]
            exact queued
          refine ⟨?_, ?_, ?_⟩
          · intro i t c queued dispatched
            rw [isList] at dispatched
            cases i with
            | zero =>
                rw [List.getElem?_cons_zero] at dispatched
                rw [← Option.some.inj dispatched]
                apply first
                rw [List.head?_eq_getElem?]
                exact queued
            | succ i => exact later.order i t c (behind queued) dispatched
          · intro i t queued late
            rw [isList, List.length_cons] at late ⊢
            cases i with
            | zero => exact absurd late (Nat.not_succ_le_zero _)
            | succ i =>
                rw [Nat.add_sub_add_right]
                exact later.waits i t (behind queued) (Nat.le_of_succ_le_succ late)
          · have counted := later.ticks
            have most' := (ticksLeft_step below').2.1
            rw [isList, List.length_cons, List.countP_cons, Nat.mul_succ]
            rw [turned.ticks] at counted most'
            cases isTick : op.isTick with
            | false =>
                rw [isTick] at counted
                simp only [Bool.false_eq_true, if_false] at counted ⊢
                omega
            | true =>
                rw [isTick] at counted most'
                simp only [if_true] at counted most' ⊢
                omega
      | false =>
          obtain ⟨pushed, holds⟩ := turned.kept switches
          rw [sameQueue.symm.trans holds.threads] at later
          have isList : s.dispatches (op :: ops) = middle.dispatches ops := by
            rw [Sched.dispatches, returned]
            exact if_neg (Bool.eq_false_iff.mp switches)
          have behind {i : Nat} {t : ThreadPtr} (queued : queue[i]? = some t) : (queue ++ pushed)[i]? = some t := by
            rw [List.getElem?_append_left (List.getElem?_eq_some_iff.mp queued).1]
            exact queued
          refine ⟨?_, ?_, ?_⟩
          · intro i t c queued dispatched
            rw [isList] at dispatched
            exact later.order i t c (behind queued) dispatched
          · intro i t queued late
            rw [isList] at late ⊢
            exact later.waits i t (behind queued) late
          · have counted := later.ticks
            rw [isList, List.countP_cons]
            rw [turned.ticks] at counted
            cases isTick : op.isTick with
            | false =>
                rw [isTick] at counted
                simp only [Bool.false_eq_true, if_false] at counted ⊢
                omega
            | true =>
                have early : wrap64 (s.ticks + 1) % quantum ≠ 0 := by
                  cases op with
                  | schedTick =>
                      rw [Sched.switches, enabled, Bool.true_and, beq_eq_false_iff_ne] at switches
                      exact switches
                  | _ => cases isTick
                have fewer := next early
                rw [isTick] at counted
                simp only [if_true] at counted ⊢
                omega

/-- The scheduler counts its ticks in 64 bits. -/
theorem ticks_below (run : Run Sched.step (fun s op => allowedAlive s op = true) schedBoot ops s) : s.ticks < 2 ^ 64 := by
  have kept : (∃ queue, ProcInv False s queue) ∧ s.ticks < 2 ^ 64 := by
    refine run.invariant (fun s => (∃ queue, ProcInv False s queue) ∧ s.ticks < 2 ^ 64) ?_ ⟨⟨[], schedBoot_inv⟩, by decide⟩
    rintro before op after ⟨⟨queue, inv⟩, below⟩ permitted returned
    obtain ⟨queue', inv', _⟩ := allowedAlive_step inv permitted returned
    exact ⟨⟨queue', inv'⟩, inv.ticks (Bool.and_eq_true_iff.mp permitted).1 returned below⟩
  exact kept.2

/-- The thread at position `i` of the ready queue is the one that the yield number `i` dispatches, it moves up one position with
each yield, and `(i + 1) * QUANTUM` ticks dispatch it, whatever calls the threads make in between. -/
theorem ready_threads_in_turn {before : List ProcOp} {i : Nat}
    (reached : Run Sched.step (fun s op => allowedAlive s op = true) schedBoot before s) (enabled : s.enabled = true)
    (idle : s.idleThread.isSome = true) (run : Run Sched.step (fun s op => allowedAlive s op = true) s ops s')
    (queued : s.readyQ.threads[i]? = some t) :
    (∀ c, (s.dispatches ops)[i]? = some c → c = t) ∧
    ((s.dispatches ops).length ≤ i → s'.readyQ.threads[i - (s.dispatches ops).length]? = some t) ∧
    ((i + 1) * quantum ≤ ops.countP ProcOp.isTick → (s.dispatches ops)[i]? = some t) := by
  obtain ⟨⟨queue, inv⟩, _⟩ := allowedAlive_inv schedBoot_inv reached
  have below := ticks_below reached
  have turns := inv.turns enabled idle below run
  rw [inv.run.parts.holds.threads] at queued
  refine ⟨fun c => turns.order i t c queued, turns.waits i t queued, ?_⟩
  intro expired
  have counted := turns.ticks
  have most := (ticksLeft_step below).2.1
  have positive := (ticksLeft_step (ticks_below (reached.append run))).1
  have reaches : i < (s.dispatches ops).length := by
    simp only [quantum] at *
    omega
  have here := List.getElem?_eq_getElem reaches
  rw [here]
  exact congrArg some (turns.order i t _ queued here)

end

/-- An idle thread and three others, of which the first one runs. -/
def threeThreads : List ProcOp :=
  [.threadCreate none 1 (some (heapPtr 0)) true, .schedSetIdle (some (.heap (heapPtr 0))),
    .threadCreate none 1 (some (heapPtr 1)) true, .threadCreate none 1 (some (heapPtr 2)) true,
    .threadCreate none 1 (some (heapPtr 3)) true, .schedStart]

theorem ready_threads_in_turn_ticks : ∃ s s', Run Sched.step (fun s op => allowedAlive s op = true) schedBoot threeThreads s ∧
    Run Sched.step (fun s op => allowedAlive s op = true) s (List.replicate 20 .schedTick) s' ∧
    (s.dispatches (List.replicate 20 .schedTick))[1]? = some (.heap (heapPtr 3)) := by
  have checked : (exec Sched.step allowedAlive threeThreads schedBoot).any (fun s => s.enabled && s.idleThread.isSome &&
      decide (s.readyQ.threads[1]? = some (.heap (heapPtr 3))) &&
      (exec Sched.step allowedAlive (List.replicate 20 .schedTick) s).any fun _ => true) = true := by decide +kernel
  obtain ⟨s, reached, facts⟩ := Run.exists_of_check checked
  simp only [Bool.and_eq_true, decide_eq_true_eq] at facts
  obtain ⟨⟨⟨enabled, idle⟩, queued⟩, ticked⟩ := facts
  obtain ⟨s', run, _⟩ := Run.exists_of_check ticked
  exact ⟨s, s', reached, run, (ready_threads_in_turn reached enabled idle run queued).2.2 (by decide)⟩

end DoccrOS.Proc
