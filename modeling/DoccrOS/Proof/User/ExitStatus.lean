import DoccrOS.Construction.User.SysProcess
import DoccrOS.Proof.Proc.Bookkeeping

namespace DoccrOS.User
open Lib Mem Proc

/-- The calls that the kernel makes when it creates threads for processes that are alive. -/
def allowedAlive (s : Sched) (op : ProcOp) : Bool :=
  s.allowed op && op.owner.all fun p => (s.procs p).all fun proc => proc.state == .alive

/-- The calls that another thread makes between the exit and the wait. -/
def yieldsOrTicks : ProcOp → Bool
  | .schedYield => true
  | .schedTick => true
  | _ => false

/-- No call yields: each one is a tick that does not end the quantum. -/
def noYield : (ticks : Nat) → List ProcOp → Bool
  | _, [] => true
  | ticks, .schedTick :: ops => wrap64 (ticks + 1) % quantum != 0 && noYield (wrap64 (ticks + 1)) ops
  | _, _ :: _ => false

/-- The call delivers the status of an exit with a code: it returns the process id and stores the status, each later call
for the process id returns `-1`, and the call reaps no process if it returns `-1`. -/
structure Delivered (s : Sched) (pid code : Nat) (call : CpuState) : Prop where
  status : ∃ state s', sysWaitpid s call = .ok (state, some (call.rsi, waitStatus code), s') ∧ state.rax = pid ∧
    ∀ ops s'', Run Sched.step (fun s op => allowedAlive s op = true) s' ops s'' → ∀ again : CpuState, again.rdi = pid →
      ∃ state', sysWaitpid s'' again = .ok (state', none, s'') ∧ state'.rax = minusOne
  reaped : ∀ state stored s', sysWaitpid s call = .ok (state, stored, s') → state.rax = minusOne → s'.procs = s.procs

/-- A process that died with all its threads and that has not been freed. -/
structure Expired (s : Sched) (p : HeapPtr) (pid : Nat) (proc : Process) : Prop where
  existing : s.procs p = some proc
  state : proc.state = .zombie
  pid : proc.pid = pid
  exitCode : proc.exitCode = 0
  aliveCount : proc.aliveCount = 0

section
variable {s s' s₁ s₂ : Sched} {queue : List ThreadPtr} {p : HeapPtr} {proc : Process} {op : ProcOp} {ops : List ProcOp}
  {pid : Nat} {self : Thread}

theorem allowedAlive_step (inv : ProcInv False s queue) (permitted : allowedAlive s op = true) (returned : s.step op = .ok s') :
    ∃ queue', ProcInv False s' queue' ∧ Changes False (op.orphans = true) s s' (fun p => op = .threadExit ∧ lastOf s p)
      fun t => op = .threadExit ∧ t = s.current := by
  rw [allowedAlive, Bool.and_eq_true] at permitted
  obtain ⟨null, called⟩ := Sched.call_of_step returned
  have alive : ∀ p ∈ op.owner, ∀ proc, s.procs p = some proc → False ∨ proc.state = .alive := by
    intro p isOwner proc existing
    have all := permitted.2
    rw [Option.mem_def.mp isOwner, Option.all_some, existing, Option.all_some, beq_iff_eq] at all
    exact Or.inr all
  obtain ⟨queue', inv', _, changes⟩ := inv.step permitted.1 alive (fun never => never.elim) called
  exact ⟨queue', inv', changes⟩

theorem allowedAlive_inv (inv : ProcInv False s queue) (run : Run Sched.step (fun s op => allowedAlive s op = true) s ops s') :
    (∃ queue', ProcInv False s' queue') ∧ ∀ pid, s.gone pid → s'.gone pid := by
  refine run.invariant (fun s' => (∃ queue', ProcInv False s' queue') ∧ ∀ pid, s.gone pid → s'.gone pid) ?_
    ⟨⟨queue, inv⟩, fun _ absent => absent⟩
  rintro before op after ⟨⟨queue, inv⟩, kept⟩ permitted returned
  obtain ⟨queue', inv', changes⟩ := allowedAlive_step inv permitted returned
  exact ⟨⟨queue', inv'⟩, fun pid absent => changes.gone pid (kept pid absent)⟩

/-- A call for a process id that is gone returns `-1` and changes nothing. -/
theorem sysWaitpid_gone (inv : ProcInv False s queue) (absent : s.gone pid) {call : CpuState} (target : call.rdi = pid)
    (notAny : pid ≠ minusOne) : sysWaitpid s call = .ok ({ call with rax := minusOne }, none, s) := by
  obtain ⟨thread, here, _⟩ := inv.run.current
  obtain ⟨⟨result, s'⟩, returned⟩ := processWaitpid_ok inv.table call.rdi
  simp only [sysWaitpid, processGetCurrent, s.thread_ok here, Result.ok_bind, pure_bind]
  split
  · rfl
  · rw [returned]
    rcases processWaitpid_spec returned with ⟨isNone, same, _⟩ | ⟨cur, proc, _, _, _, existing, isMatch, _⟩
    · rw [isNone, same]
      rfl
    · rw [target] at isMatch
      exact absurd (isMatch.resolve_left notAny).symm (absent.2 cur proc existing)

/-- A call for the process id of a dead process frees it. -/
theorem sysWaitpid_expired (inv : ProcInv False s queue) (expired : Expired s p pid proc) {call : CpuState}
    (here : s.threads s.current = some self) (owned : self.owner.isSome = true) (target : call.rdi = pid)
    (notAny : call.rdi ≠ minusOne) :
    ∃ s', sysWaitpid s call = .ok ({ call with rax := call.rdi },
        if call.rsi ≠ 0 ∧ call.rsi ≤ userTop then some (call.rsi, waitStatus 0) else none, s') ∧
      s'.gone pid ∧ ProcInv False s' queue := by
  have member : p ∈ s.procZombies := (inv.table.zombie p).mpr ⟨proc, expired.existing, expired.state⟩
  obtain ⟨⟨result, s'⟩, returned⟩ := processWaitpid_ok inv.table call.rdi
  obtain ⟨owner, isOwner⟩ := Option.isSome_iff_exists.mp owned
  have kept : ProcInv False s' queue ∧ (NoneLost s queue → NoneLost s' queue) ∧
      Changes False False s s' (fun _ => False) fun _ => False :=
    inv.processWaitpid (fun never => never.elim) (fun _ => id) returned
  rcases processWaitpid_spec returned with ⟨_, _, others⟩ | ⟨cur, other, spaces, isSome, _, existing, isMatch, _, isState⟩
  · have differs := (others p member proc expired.existing).2
    rw [expired.pid] at differs
    exact absurd target differs
  · have samePid := isMatch.resolve_left notAny
    rw [target, ← expired.pid] at samePid
    have same : cur = p := inv.table.pidInj cur p other proc existing expired.existing samePid.symm
    subst same
    have found : s.procs cur = some proc := expired.existing
    rw [existing] at found
    rw [Option.some.inj found, expired.exitCode] at isSome
    refine ⟨s', ?_, ?_, kept.1⟩
    · simp only [sysWaitpid, processGetCurrent, s.thread_ok here, isOwner, returned, isSome, Result.ok_bind, pure_bind]
      rfl
    · rw [isState]
      refine ⟨?_, ?_⟩
      · rw [← expired.pid]
        exact inv.table.pid cur proc expired.existing
      · intro q third existing' same
        simp only [Function.update_apply] at existing'
        split at existing'
        · cases existing'
        · rename_i different
          rw [← expired.pid] at same
          exact different (inv.table.pidInj q cur third proc existing' expired.existing same)

/-- A call for any process that stores a status frees a process and returns `-1`. -/
theorem sysWaitpid_any {call state : CpuState} {value : Nat × Int} (target : call.rdi = minusOne)
    (returned : sysWaitpid s call = .ok (state, some value, s')) : state.rax = minusOne ∧ s'.procs ≠ s.procs := by
  obtain ⟨caller, _, returned⟩ := Result.bind_ok returned
  cases caller with
  | none => cases (Prod.mk.inj (Prod.mk.inj (Except.ok.inj returned)).2).1
  | some owner =>
      obtain ⟨⟨result, w⟩, waited, returned⟩ := Result.bind_ok returned
      cases result with
      | none => cases (Prod.mk.inj (Prod.mk.inj (Except.ok.inj returned)).2).1
      | some exitCode =>
          obtain ⟨isState, others⟩ := Prod.mk.inj (Except.ok.inj returned)
          refine ⟨by rw [← isState]; exact target, ?_⟩
          rw [← (Prod.mk.inj others).2]
          rcases processWaitpid_spec waited with ⟨isNone, _⟩ | ⟨cur, proc, _, _, _, existing, _, _, after⟩
          · cases isNone
          · intro same
            rw [after] at same
            have freed := congrFun same cur
            simp only [Function.update_self, existing] at freed
            cases freed

/-- The threads of a dead process wait in the zombie list. -/
theorem Expired.buried (expired : Expired s p pid proc) (inv : ProcInv False s queue) : ∀ t ∈ proc.threads, t ∈ s.zombies := by
  intro t member
  have ok := inv.table.ok p proc expired.existing
  obtain ⟨live, isOwner⟩ := ok.listed t member
  obtain ⟨thread, here, _⟩ := Option.map_eq_some_iff.mp isOwner
  have none : proc.threads.countP (liveIn (ownersOf s.threads)) = 0 := by
    have count := ok.alive
    rw [expired.aliveCount] at count
    exact_mod_cast count.symm
  have dead := List.countP_eq_zero.mp none t member
  rw [liveIn_some here, bne_iff_ne, ne_eq, not_not] at dead
  exact (inv.run.parts.zombie t).mpr ((stateOf_some here).trans (by rw [dead]))

/-- The first yield after the exit frees the process. -/
theorem Expired.yield (expired : Expired s p pid proc) (inv : ProcInv False s queue) (enabled : s.enabled = true)
    (returned : schedYield s = .ok s') : s'.gone pid := by
  obtain ⟨prev, ready⟩ := inv.run.yieldInv enabled
  obtain ⟨_, _, _, yields, _⟩ := ready.yield inv.table returned
  have member : p ∈ s.procZombies := (inv.table.zombie p).mpr ⟨proc, expired.existing, expired.state⟩
  have isSpent := (spent_iff inv.table expired.existing).mpr (expired.buried inv)
  refine ⟨?_, ?_⟩
  · rw [yields.nextPid, ← expired.pid]
    exact inv.table.pid p proc expired.existing
  · intro q other existing same
    rw [yields.procs, reapedProcs] at existing
    split at existing
    · cases existing
    · rename_i kept
      obtain ⟨before, existing', isDropped⟩ := droppedProcs_some existing
      rw [isDropped, dropAll_fields.1, ← expired.pid] at same
      have samePtr := inv.table.pidInj q p before proc existing' expired.existing same
      rw [samePtr] at kept
      exact kept ⟨member, isSpent⟩

/-- A tick within the quantum. -/
theorem schedTick_quiet (enabled : s.enabled = true) (quiet : wrap64 (s.ticks + 1) % quantum ≠ 0) :
    schedTick s = .ok { s with ticks := wrap64 (s.ticks + 1) } := by
  rw [schedTick, enabled]
  exact if_neg quiet

/-- A tick that ends the quantum. -/
theorem schedTick_yields (enabled : s.enabled = true) (ends : wrap64 (s.ticks + 1) % quantum = 0) :
    schedTick s = schedYield { s with ticks := wrap64 (s.ticks + 1) } := by
  rw [schedTick, enabled]
  exact if_pos ends

theorem allowedAlive_of_yieldsOrTicks (permitted : s.allowed op = true ∧ yieldsOrTicks op = true) : allowedAlive s op = true := by
  rw [allowedAlive, permitted.1]
  cases op <;> first | rfl | cases permitted.2

/-- The dead process is there until the first yield and gone from then on. -/
theorem Expired.wait (expired : Expired s p pid proc) (inv : ProcInv False s queue) (enabled : s.enabled = true)
    (run : Run Sched.step (fun s op => s.allowed op = true ∧ yieldsOrTicks op = true) s ops s') :
    (∃ queue', ProcInv False s' queue') ∧
      if noYield s.ticks ops then Expired s' p pid proc else s'.gone pid := by
  have wider (first last : Sched) (list : List ProcOp)
      (rest : Run Sched.step (fun s op => s.allowed op = true ∧ yieldsOrTicks op = true) first list last) :
      Run Sched.step (fun s op => allowedAlive s op = true) first list last :=
    rest.mono fun _ _ permitted => allowedAlive_of_yieldsOrTicks permitted
  refine ⟨(allowedAlive_inv inv (wider _ _ _ run)).1, ?_⟩
  induction run generalizing queue with
  | nil s => exact expired
  | @cons s middle final op ops permitted returned rest ih =>
      obtain ⟨queue', inv', _⟩ := allowedAlive_step inv (allowedAlive_of_yieldsOrTicks permitted) returned
      have stays (absent : middle.gone pid) : final.gone pid := (allowedAlive_inv inv' (wider _ _ _ rest)).2 pid absent
      obtain ⟨null, called⟩ := Sched.call_of_step returned
      cases op with
      | schedYield =>
          obtain ⟨w, yielded, same⟩ := Result.bind_ok called
          rw [(Prod.mk.inj (Except.ok.inj same)).2] at yielded
          exact stays (expired.yield inv enabled yielded)
      | schedTick =>
          obtain ⟨w, ticked, same⟩ := Result.bind_ok called
          rw [(Prod.mk.inj (Except.ok.inj same)).2] at ticked
          by_cases ends : wrap64 (s.ticks + 1) % quantum = 0
          · rw [schedTick_yields enabled ends] at ticked
            have inv₁ : ProcInv False { s with ticks := wrap64 (s.ticks + 1) } queue :=
              ⟨inv.run.congr rfl rfl rfl rfl rfl rfl, inv.table⟩
            have expired₁ : Expired { s with ticks := wrap64 (s.ticks + 1) } p pid proc :=
              ⟨expired.existing, expired.state, expired.pid, expired.exitCode, expired.aliveCount⟩
            have absent := expired₁.yield inv₁ enabled ticked
            have yields : noYield s.ticks (.schedTick :: ops) = false := by
              simp only [noYield, ends, bne_self_eq_false, Bool.false_and]
            rw [yields]
            exact stays absent
          · rw [schedTick_quiet enabled ends] at ticked
            have isMiddle := Except.ok.inj ticked
            have quiet : noYield s.ticks (.schedTick :: ops) = noYield middle.ticks ops := by
              rw [← isMiddle]
              simp only [noYield, bne_iff_ne.mpr ends, Bool.true_and]
            rw [quiet]
            subst isMiddle
            refine ih ?_ inv' enabled
            exact ⟨expired.existing, expired.state, expired.pid, expired.exitCode, expired.aliveCount⟩
      | _ => cases permitted.2

/-- The counter of the live threads is one when the current thread is the last one. -/
theorem lastOf_of_lastLive (inv : TableInv False s.table) (last : s.lastLive p) : lastOf s p := by
  obtain ⟨runs, ⟨self, here, isOwner⟩, only⟩ := last
  have awake : self.state ≠ .dead := by
    rw [Sched.awake, here] at runs
    exact bne_iff_ne.mp runs
  have owners : s.table.owners s.current = some (some p, true) := by
    refine (ownersOf_some here).trans ?_
    rw [isOwner, bne_iff_ne.mpr awake]
  obtain ⟨proc, existing, member, alive⟩ := inv.owned _ _ _ owners (Or.inr rfl)
  have ok := inv.ok p proc existing
  refine ⟨self, proc, here, isOwner, existing, alive.resolve_left id, ?_⟩
  have single : proc.threads.countP (liveIn (ownersOf s.threads)) = proc.threads.count s.current := by
    apply List.countP_congr
    intro t inside
    obtain ⟨live, isOwner'⟩ := ok.listed t inside
    obtain ⟨thread, here', same⟩ := Option.map_eq_some_iff.mp isOwner'
    rw [beq_iff_eq, ← Sched.awake_eq]
    constructor
    · exact only t thread here' (Prod.mk.inj same).1
    · intro isCurrent
      rw [isCurrent]
      exact runs
  have count : proc.aliveCount = proc.threads.countP (liveIn (ownersOf s.threads)) := ok.alive
  rw [count, single, ok.nodup.count, if_pos member]
  rfl

/-- The exit of the last thread leaves a dead process with exit code 0. -/
theorem threadExit_expired (inv : ProcInv False s queue) (permitted : s.allowed .threadExit = true)
    (existing : s.procs p = some proc) (last : s.lastLive p) (returned : threadExit s = .ok s') :
    (∃ queue', ProcInv False s' queue') ∧ s'.enabled = true ∧ ∃ proc', Expired s' p proc.pid proc' := by
  simp only [Sched.allowed, Bool.and_eq_true, bne_iff_ne, ne_eq] at permitted
  obtain ⟨⟨runs, notBoot⟩, notIdle⟩ := permitted
  obtain ⟨self, here, awake⟩ := Sched.runs_iff runs
  have isLast := lastOf_of_lastLive inv.table last
  obtain ⟨s₀, same, exited, table⟩ := threadExit_spec inv.table here awake
  rw [same] at returned
  obtain ⟨ready, alive⟩ := exited.yieldInv inv.run here awake notBoot (Ne.symm notIdle)
  obtain ⟨queue', run, table', yields, _⟩ := ready.yield table returned
  refine ⟨⟨queue', run, table'⟩, yields.enabled.trans ready.enabled, ?_⟩
  obtain ⟨self', other, here', isOwner, existing', isAlive, one⟩ := isLast
  rw [here] at here'
  rw [← Option.some.inj here'] at isOwner
  rw [existing] at existing'
  rw [← Option.some.inj existing'] at isAlive one
  have stored : s₀.procs p = some { proc with aliveCount := proc.aliveCount - 1, exitCode := 0, state := .zombie } := by
    rcases exited.procs with ⟨noOwner, _⟩ | ⟨q, third, isOwner', existing'', cases'⟩
    · rw [isOwner] at noOwner
      cases noOwner
    · rw [isOwner] at isOwner'
      have samePtr := Option.some.inj isOwner'
      subst samePtr
      rw [existing] at existing''
      rw [← Option.some.inj existing''] at cases'
      rcases cases' with ⟨_, notLast⟩ | ⟨isStored, _⟩
      · exact absurd ⟨self, proc, here, isOwner, existing, isAlive, one⟩ notLast
      · rw [isStored, Function.update_self]
  have notSpent : ¬spent (droppedProcs s₀) p = true := by
    obtain ⟨third, existing'', member, _⟩ := inv.table.alive_pos here awake isOwner
    rw [existing] at existing''
    rw [← Option.some.inj existing''] at member
    rw [spent_iff table stored]
    intro all
    rw [← exited.current] at member
    exact alive (all _ member)
  refine ⟨dropAll { proc with aliveCount := proc.aliveCount - 1, exitCode := 0, state := .zombie } s₀.zombies,
    ?_, ?_, ?_, ?_, ?_⟩
  · rw [yields.procs, reapedProcs, if_neg fun both => notSpent both.2, droppedProcs, stored, Option.map_some]
  · rw [dropAll_fields.2.1]
  · rw [dropAll_fields.1]
  · rw [dropAll_fields.2.2.1]
  · rw [dropAll_aliveCount, one]
    rfl

/-- The only thread of a process is the last live one. -/
theorem lastLive_of_single (inv : TableInv False s.table) (existing : s.procs p = some proc)
    (single : proc.threads = [s.current]) (runs : s.awake s.current = true) : s.lastLive p := by
  have ok := inv.ok p proc existing
  obtain ⟨live, isOwner⟩ := ok.listed s.current (by rw [single]; exact List.mem_singleton_self _)
  obtain ⟨self, here, same⟩ := Option.map_eq_some_iff.mp isOwner
  refine ⟨runs, ⟨self, here, (Prod.mk.inj same).1⟩, ?_⟩
  intro t thread here' isOwner' awake
  have owners : s.table.owners t = some (some p, true) := by
    rw [Sched.awake, here'] at awake
    refine (ownersOf_some here').trans ?_
    rw [isOwner', show (thread.state != .dead) = true from awake]
  obtain ⟨other, existing', member, _⟩ := inv.owned t p true owners (Or.inr rfl)
  have found : s.procs p = some other := existing'
  rw [existing] at found
  rw [← Option.some.inj found, single] at member
  exact List.mem_singleton.mp member

/-- The status reaches the caller exactly when the code is a multiple of 256, the call names the process and no thread yields
between the exit and the call. -/
theorem exit_status_delivered {between : List ProcOp} {exit call : CpuState}
    (reached : Run Sched.step (fun s op => allowedAlive s op = true) schedBoot ops s)
    (permitted : s.allowed .threadExit = true) (existing : s.procs p = some proc) (last : s.lastLive p)
    (exited : sysExit s exit = .ok s₁)
    (waited : Run Sched.step (fun s op => s.allowed op = true ∧ yieldsOrTicks op = true) s₁ between s₂)
    (caller : s₂.threads s₂.current = some self) (owned : self.owner.isSome = true)
    (target : call.rdi = proc.pid ∨ call.rdi = minusOne ∧ ∀ q ∈ s₂.procZombies, q = p)
    (pointer : call.rsi ≠ 0 ∧ call.rsi ≤ userTop) :
    Delivered s₂ proc.pid exit.rdi call ↔
      exit.rdi % 256 = 0 ∧ call.rdi ≠ minusOne ∧ noYield s₁.ticks between = true := by
  obtain ⟨queue, inv⟩ := (allowedAlive_inv schedBoot_inv reached).1
  obtain ⟨⟨queue₁, inv₁⟩, enabled, proc', expired⟩ := threadExit_expired inv permitted existing last exited
  obtain ⟨⟨queue₂, inv₂⟩, outcome⟩ := expired.wait inv₁ enabled waited
  constructor
  · rintro ⟨⟨state, s₃, returned, isPid, _⟩, reaped⟩
    have notAny : call.rdi ≠ minusOne := by
      intro isAny
      obtain ⟨isMinus, freed⟩ := sysWaitpid_any isAny returned
      exact freed (reaped state _ s₃ returned isMinus)
    have isTarget : call.rdi = proc.pid := target.resolve_right fun any => notAny any.1
    cases quiet : noYield s₁.ticks between with
    | false =>
        rw [quiet] at outcome
        have missing := sysWaitpid_gone inv₂ outcome isTarget (isTarget ▸ notAny)
        rw [missing] at returned
        cases (Prod.mk.inj (Prod.mk.inj (Except.ok.inj returned)).2).1
    | true =>
        rw [quiet] at outcome
        obtain ⟨s₄, found, _⟩ := sysWaitpid_expired inv₂ outcome caller owned isTarget notAny
        rw [found, if_pos pointer] at returned
        have status := (Prod.mk.inj (Option.some.inj (Prod.mk.inj (Prod.mk.inj (Except.ok.inj returned)).2).1)).2
        refine ⟨?_, notAny, rfl⟩
        simp only [waitStatus] at status
        omega
  · rintro ⟨isZero, notAny, quiet⟩
    rw [quiet] at outcome
    have isTarget : call.rdi = proc.pid := target.resolve_right fun any => notAny any.1
    obtain ⟨s₃, found, absent, inv₃⟩ := sysWaitpid_expired inv₂ outcome caller owned isTarget notAny
    have sameStatus : waitStatus 0 = waitStatus exit.rdi := by
      simp only [waitStatus]
      omega
    rw [if_pos pointer, sameStatus] at found
    refine ⟨⟨_, s₃, found, isTarget, ?_⟩, ?_⟩
    · intro later s₄ run again isAgain
      obtain ⟨⟨queue₄, inv₄⟩, kept⟩ := allowedAlive_inv inv₃ run
      exact ⟨_, sysWaitpid_gone inv₄ (kept _ absent) isAgain (isTarget ▸ notAny), rfl⟩
    · intro state stored s₄ returned isMinus
      rw [found] at returned
      rw [← (Prod.mk.inj (Except.ok.inj returned)).1] at isMinus
      exact absurd isMinus notAny

end

/-- Two processes with one thread each; the first thread runs. -/
def twoProcesses : List ProcOp :=
  [.processCreateUser (some (heapPtr 0)) (some (heapPtr 0)), .processCreateUser (some (heapPtr 1)) (some (heapPtr 1)),
    .threadCreateUser (some (heapPtr 0)) 1 (some (heapPtr 2)) true,
    .threadCreateUser (some (heapPtr 1)) 1 (some (heapPtr 3)) true, .schedStart]

/-- The registers of `exit(code)`. -/
def exitCall (code : Nat) : CpuState := ⟨0, code, 0, 0, 0⟩

/-- The registers of a call for the first process. -/
def waitCall : CpuState := ⟨0, 1, 0x400000, 0, 0⟩

/-- The first process is alive and the thread that runs is its only one. -/
def firstRuns (s : Sched) : Bool :=
  s.allowed .threadExit && s.awake s.current &&
    (s.procs (heapPtr 0)).any fun proc => proc.pid == 1 && proc.threads == [s.current]

/-- The thread that runs belongs to a process. -/
def ownedRuns (s : Sched) : Bool := (s.threads s.current).any fun self => self.owner.isSome

theorem exit_status_delivered_zero : ∃ s s₁ s₂, Run Sched.step (fun s op => allowedAlive s op = true) schedBoot twoProcesses s ∧
    sysExit s (exitCall 0) = .ok s₁ ∧ s₁.step .schedTick = .ok s₂ ∧ Delivered s₂ 1 0 waitCall := by
  have checked : (exec Sched.step allowedAlive twoProcesses schedBoot).any (fun s => firstRuns s &&
      match sysExit s (exitCall 0) with
      | .ok s₁ => decide (s₁.ticks = 0) && checkStep Sched.step .schedTick (fun _ s₂ => ownedRuns s₂) s₁
      | .error _ => false) = true := by decide +kernel
  obtain ⟨s, run, facts⟩ := Run.exists_of_check checked
  rw [Bool.and_eq_true] at facts
  obtain ⟨first, exits⟩ := facts
  simp only [firstRuns, Bool.and_eq_true, Option.any_eq_true, beq_iff_eq] at first
  obtain ⟨⟨permitted, runs⟩, proc, existing, isPid, single⟩ := first
  split at exits
  · rename_i s₁ exited
    rw [Bool.and_eq_true, decide_eq_true_eq] at exits
    obtain ⟨s₂, ticked, owned⟩ := exists_of_checkStep exits.2
    obtain ⟨self, caller, isOwned⟩ := (Option.any_eq_true _ _).mp owned
    obtain ⟨queue, inv⟩ := (allowedAlive_inv schedBoot_inv run).1
    have last := lastLive_of_single inv.table existing single runs
    have waited : Run Sched.step (fun s op => s.allowed op = true ∧ yieldsOrTicks op = true) s₁ [.schedTick] s₂ :=
      Run.cons ⟨rfl, rfl⟩ ticked (Run.nil s₂)
    have quiet : noYield s₁.ticks [.schedTick] = true := by
      rw [exits.1]
      decide
    have delivered : Delivered s₂ proc.pid (exitCall 0).rdi waitCall :=
      (exit_status_delivered run permitted existing last exited waited caller isOwned (Or.inl isPid.symm)
        (by decide)).mpr ⟨rfl, by decide, quiet⟩
    rw [isPid] at delivered
    exact ⟨s, s₁, s₂, run, exited, ticked, delivered⟩
  · cases exits

/-- The exit code 1 is lost. -/
theorem exit_status_lost : ¬∀ (ops between : List ProcOp) (s s₁ s₂ : Sched) (p : HeapPtr) (proc : Process) (self : Thread)
    (exit call : CpuState), Run Sched.step (fun s op => allowedAlive s op = true) schedBoot ops s →
    s.allowed .threadExit = true → s.procs p = some proc → s.lastLive p → sysExit s exit = .ok s₁ →
    Run Sched.step (fun s op => s.allowed op = true ∧ yieldsOrTicks op = true) s₁ between s₂ →
    s₂.threads s₂.current = some self → self.owner.isSome = true →
    (call.rdi = proc.pid ∨ call.rdi = minusOne ∧ ∀ q ∈ s₂.procZombies, q = p) → call.rsi ≠ 0 ∧ call.rsi ≤ userTop →
    Delivered s₂ proc.pid exit.rdi call := by
  intro claim
  have checked : (exec Sched.step allowedAlive twoProcesses schedBoot).any (fun s => firstRuns s &&
      match sysExit s (exitCall 1) with
      | .ok s₁ => ownedRuns s₁ &&
        match sysWaitpid s₁ waitCall with
        | .ok (_, stored, _) => stored == some (0x400000, 0)
        | .error _ => false
      | .error _ => false) = true := by decide +kernel
  obtain ⟨s, run, facts⟩ := Run.exists_of_check checked
  rw [Bool.and_eq_true] at facts
  obtain ⟨first, exits⟩ := facts
  simp only [firstRuns, Bool.and_eq_true, Option.any_eq_true, beq_iff_eq] at first
  obtain ⟨⟨permitted, runs⟩, proc, existing, isPid, single⟩ := first
  split at exits
  · rename_i s₁ exited
    rw [Bool.and_eq_true] at exits
    obtain ⟨self, caller, isOwned⟩ := (Option.any_eq_true _ _).mp exits.1
    obtain ⟨queue, inv⟩ := (allowedAlive_inv schedBoot_inv run).1
    have last := lastLive_of_single inv.table existing single runs
    obtain ⟨⟨state, s₃, returned, _⟩, _⟩ := claim _ [] s s₁ s₁ _ proc self (exitCall 1) waitCall run permitted existing last
      exited (Run.nil s₁) caller isOwned (Or.inl isPid.symm) (by decide)
    have stored := exits.2
    rw [returned] at stored
    have same : (some (waitCall.rsi, waitStatus (exitCall 1).rdi) == some (0x400000, 0)) = true := stored
    exact absurd same (by decide)
  · cases exits

end DoccrOS.User
