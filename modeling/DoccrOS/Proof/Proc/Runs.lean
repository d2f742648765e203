import DoccrOS.Lib.Run
import DoccrOS.Proof.Proc.Exits

namespace DoccrOS.Proc
open Lib Mem

/-- The owner that a call gives to a new thread. -/
def ProcOp.owner : ProcOp → Option HeapPtr
  | .threadCreate owner _ _ _ => owner
  | .threadCreateUser owner _ _ _ => owner
  | _ => none

/-- The call pushes a thread to the ready queue. -/
def Sched.pushes (s : Sched) : ProcOp → Bool
  | .threadCreate _ entry new stack => entry != 0 && new.isSome && stack
  | .threadCreateUser owner entry new stack => entry != 0 && owner.isSome && new.isSome && stack
  | .processFork new space thread stack => new.isSome && space.isSome && thread.isSome && stack
  | .schedYield => s.enabled && requeues s
  | .schedTick => s.enabled && wrap64 (s.ticks + 1) % quantum == 0 && requeues s
  | _ => false

/-- The call makes a thread without owner. -/
def ProcOp.orphans : ProcOp → Bool
  | .threadCreate owner _ _ _ => owner.isNone
  | _ => false

/-- The process that `process_waitpid` would free has no threads. -/
def Sched.waitsSafely (s : Sched) : ProcOp → Bool
  | .processWaitpid target => s.procZombies.all fun p =>
      (s.procs p).all fun proc => (target != minusOne && target != proc.pid) || proc.threads.isEmpty
  | _ => true

section
variable {strict : Prop} {exits : ThreadPtr → Prop} {s s' : Sched} {queue : List ThreadPtr} {t : ThreadPtr} {thread : Thread} {op : ProcOp}

/-- The idle thread leaves the queue. -/
theorem ProcInv.schedSetIdle {orphans : Prop} (inv : ProcInv strict s queue) (noIdle : s.idleThread = none)
    (here : s.threads t = some thread) (awake : thread.state ≠ .dead) (notBoot : t ≠ .bootstrap)
    (notCurrent : t ≠ s.current) (runs : ∀ current, s.threads s.current = some current → current.state ≠ .dead)
    {turns : HeapPtr → Prop} (none : ∀ p, ¬turns p) (returned : schedSetIdle s (some t) = .ok s') :
    ∃ queue', ProcInv strict s' queue' ∧ (NoneLost s queue → NoneLost s' queue') ∧ Changes strict orphans s s' turns exits := by
  simp only [Proc.schedSetIdle, schedRemove, Sched.thread, here, Result.ok_bind] at returned
  have isState := (Except.ok.inj returned).symm
  have sameOwners : ownersOf (Function.update s.threads t (some { thread with state := .ready })) = ownersOf s.threads :=
    ownersOf_setState s.threads here awake (by rintro ⟨⟩)
  have parts := inv.run.parts.setState here awake notBoot .ready (by rintro ⟨⟩) fun _ => rfl
  subst isState
  refine ⟨queue.erase t, ⟨⟨⟨inv.run.parts.holds.remove t, inv.run.parts.nodup.erase t, ?_, ?_, parts.zombieNodup, parts.zombie,
    parts.bootstrap⟩, ?_, inv.run.disabled⟩, ?_⟩, ?_, Changes.of_kept none (fun p proc existing => ⟨proc, existing, rfl⟩)
    (fun _ absent => absent) ?_ ?_⟩
  · exact fun u member => parts.ready u (List.mem_of_mem_erase member)
  · intro u isIdle
    injection isIdle with isIdle
    rw [← isIdle]
    refine ⟨?_, notBoot, { thread with state := .ready }, Function.update_self _ _ _, (by rintro ⟨⟩)⟩
    intro member
    exact ((inv.run.parts.nodup.mem_erase_iff).mp member).1 rfl
  · obtain ⟨current, isCurrent, notReady, blocked, _⟩ := inv.run.current
    refine ⟨current, ?_, notReady, blocked, ?_⟩
    · exact (Function.update_of_ne (Ne.symm notCurrent) _ _).trans isCurrent
    · exact fun dead => absurd dead (runs current isCurrent)
  · simp only [Sched.table, Sched.setThread, sameOwners]
    exact inv.table
  · intro noneLost u live notBoot' notIdle
    have live' : liveIn (ownersOf s.threads) u = true := by
      rw [← sameOwners]
      exact live
    have different : u ≠ t := fun same => notIdle (by rw [same])
    rcases noneLost u live' notBoot' (by rw [noIdle]; rintro ⟨⟩) with isCurrent | member
    · exact Or.inl isCurrent
    · exact Or.inr (List.mem_erase_of_ne different |>.mpr member)
  · intro u other here'
    simp only [Sched.setThread, Function.update_apply]
    split
    · exact ⟨_, rfl, fun _ => (by rintro ⟨⟩)⟩
    · exact ⟨other, here', id⟩
  · intro u other here' noOwner
    simp only [Sched.setThread, Function.update_apply] at here'
    split at here'
    · rename_i same
      rw [← Option.some.inj here'] at noOwner
      exact Or.inr ⟨thread, by rw [same]; exact here, noOwner⟩
    · exact Or.inr ⟨other, here', noOwner⟩

theorem Sched.runs_iff (runs : s.runs = true) : ∃ thread, s.threads s.current = some thread ∧ thread.state ≠ .dead := by
  simp only [Sched.runs, Option.any_eq_true, bne_iff_ne] at runs
  exact runs

/-- Each call keeps the invariant. It loses no thread unless it pushes to a full queue. -/
theorem ProcInv.step (inv : ProcInv strict s queue) (allowed : s.allowed op = true)
    (alive : ∀ p ∈ op.owner, ∀ proc, s.procs p = some proc → strict ∨ proc.state = .alive)
    (safe : strict → s.waitsSafely op = true) {null : Bool} (called : s.call op = .ok (null, s')) :
    ∃ queue', ProcInv strict s' queue' ∧
      (NoneLost s queue → (s.pushes op = true → s.readyQ.cnt < schedMaxThreads) → NoneLost s' queue') ∧
      Changes strict (op.orphans = true) s s' (fun p => op = .threadExit ∧ lastOf s p)
        fun t => op = .threadExit ∧ t = s.current := by
  cases op with
  | processCreate new =>
      obtain ⟨⟨result, w⟩, returned, rest⟩ := Result.bind_ok called
      have isState : w = s' := (Prod.mk.inj (Except.ok.inj rest)).2
      subst isState
      have never : ∀ p, ¬(ProcOp.processCreate new = .threadExit ∧ lastOf s p) := fun p => nofun
      rcases processCreate_spec returned with ⟨_, same⟩ | ⟨p, _, fresh, made⟩
      · subst same
        exact ⟨queue, inv, fun noneLost _ => noneLost, Changes.of_same never rfl rfl (Nat.le_refl _)⟩
      · obtain ⟨inv', noneLost, changes⟩ := inv.addProc fresh s.spaces (some .kernel) (fun _ => id) nofun never made
        exact ⟨queue, inv', fun kept _ => noneLost kept, changes⟩
  | processCreateUser new space =>
      obtain ⟨⟨result, w⟩, returned, rest⟩ := Result.bind_ok called
      have isState : w = s' := (Prod.mk.inj (Except.ok.inj rest)).2
      subst isState
      have never : ∀ p, ¬(ProcOp.processCreateUser new space = .threadExit ∧ lastOf s p) := fun p => nofun
      rcases processCreateUser_spec returned with ⟨_, only⟩ | ⟨p, ptr, _, fresh, unused, made⟩
      · obtain ⟨inv', noneLost, changes⟩ := inv.onlyPid only never
        exact ⟨queue, inv', fun kept _ => noneLost kept, changes⟩
      · have kept : ∀ other, s.spaces other = true → Function.update s.spaces ptr true other = true := by
          intro other used
          rw [Function.update_apply]
          split
          · rfl
          · exact used
        have own : ∀ other, some (SpacePtr.user ptr) = some (.user other) →
            s.spaces other = false ∧ Function.update s.spaces ptr true other = true := by
          intro other same
          injection same with same
          injection same with same
          rw [← same, Function.update_self]
          exact ⟨unused, rfl⟩
        obtain ⟨inv', noneLost, changes⟩ := inv.addProc fresh _ (some (.user ptr)) kept own never made
        exact ⟨queue, inv', fun lost _ => noneLost lost, changes⟩
  | processDestroy p =>
      obtain ⟨w, returned, rest⟩ := Result.bind_ok called
      have isState : w = s' := (Prod.mk.inj (Except.ok.inj rest)).2
      subst isState
      simp only [Sched.allowed, Bool.and_eq_true, Option.any_eq_true, beq_iff_eq, List.isEmpty_iff] at allowed
      obtain ⟨_, proc, existing, isAlive, alone⟩ := allowed
      have never : ∀ q, ¬(ProcOp.processDestroy p = .threadExit ∧ lastOf s q) := fun q => nofun
      obtain ⟨inv', noneLost, changes⟩ := inv.processDestroy existing isAlive alone never returned
      exact ⟨queue, inv', fun lost _ => noneLost lost, changes⟩
  | threadCreate owner entry new stack =>
      obtain ⟨⟨result, w⟩, returned, rest⟩ := Result.bind_ok called
      have isState : w = s' := (Prod.mk.inj (Except.ok.inj rest)).2
      subst isState
      have never : ∀ p, ¬(ProcOp.threadCreate owner entry new stack = .threadExit ∧ lastOf s p) := fun p => nofun
      have orphan : owner = none → (ProcOp.threadCreate owner entry new stack).orphans = true := Option.isNone_iff_eq_none.mpr
      rw [threadCreate] at returned
      split at returned
      · have same := (Prod.mk.inj (Except.ok.inj returned)).2
        subst same
        exact ⟨queue, inv, fun noneLost _ => noneLost, Changes.of_same never rfl rfl (Nat.le_refl _)⟩
      · rename_i entered
        obtain ⟨queue', inv', noneLost, changes⟩ := inv.threadNew alive never orphan returned
        refine ⟨queue', inv', fun lost room => noneLost lost fun isNew isStack => room ?_, changes⟩
        simp [Sched.pushes, entered, isNew, isStack]
  | threadCreateUser owner entry new stack =>
      obtain ⟨⟨result, w⟩, returned, rest⟩ := Result.bind_ok called
      have isState : w = s' := (Prod.mk.inj (Except.ok.inj rest)).2
      subst isState
      have never : ∀ p, ¬(ProcOp.threadCreateUser owner entry new stack = .threadExit ∧ lastOf s p) := fun p => nofun
      rw [threadCreateUser] at returned
      split at returned
      · have same := (Prod.mk.inj (Except.ok.inj returned)).2
        subst same
        exact ⟨queue, inv, fun noneLost _ => noneLost, Changes.of_same never rfl rfl (Nat.le_refl _)⟩
      · rename_i entered
        rw [not_or] at entered
        obtain ⟨queue', inv', noneLost, changes⟩ := inv.threadNew alive never (fun noOwner => absurd noOwner entered.2) returned
        refine ⟨queue', inv', fun lost room => noneLost lost fun isNew isStack => room ?_, changes⟩
        simp [Sched.pushes, entered, isNew, isStack, Option.isSome_iff_ne_none]
  | processFork new space thread stack =>
      obtain ⟨⟨result, w⟩, returned, rest⟩ := Result.bind_ok called
      have isState : w = s' := (Prod.mk.inj (Except.ok.inj rest)).2
      subst isState
      have never : ∀ p, ¬(ProcOp.processFork new space thread stack = .threadExit ∧ lastOf s p) := fun p => nofun
      exact inv.processFork never returned
  | schedSetIdle idle =>
      obtain ⟨w, returned, rest⟩ := Result.bind_ok called
      have isState : w = s' := (Prod.mk.inj (Except.ok.inj rest)).2
      subst isState
      have never : ∀ p, ¬(ProcOp.schedSetIdle idle = .threadExit ∧ lastOf s p) := fun p => nofun
      cases idle with
      | none =>
          rw [← Except.ok.inj returned]
          exact ⟨queue, inv, fun noneLost _ => noneLost, Changes.of_same never rfl rfl (Nat.le_refl _)⟩
      | some t =>
          simp only [Sched.allowed, Bool.and_eq_true, Option.isNone_iff_eq_none, Option.all_some, bne_iff_ne, ne_eq,
            Option.any_eq_true] at allowed
          obtain ⟨⟨runs, noIdle⟩, ⟨notCurrent, notBoot⟩, thread, here, awake⟩ := allowed
          have isRunning : ∀ current, s.threads s.current = some current → current.state ≠ .dead := by
            obtain ⟨current, isCurrent, awake'⟩ := Sched.runs_iff runs
            intro other isOther
            rw [isCurrent] at isOther
            rw [← Option.some.inj isOther]
            exact awake'
          obtain ⟨queue', inv', noneLost, changes⟩ := inv.schedSetIdle noIdle here awake notBoot notCurrent isRunning never
            returned
          exact ⟨queue', inv', fun lost _ => noneLost lost, changes⟩
  | schedStart =>
      obtain ⟨w, returned, rest⟩ := Result.bind_ok called
      have isState : w = s' := (Prod.mk.inj (Except.ok.inj rest)).2
      subst isState
      have never : ∀ p, ¬(ProcOp.schedStart = .threadExit ∧ lastOf s p) := fun p => nofun
      simp only [Sched.allowed, Bool.and_eq_true, beq_iff_eq] at allowed
      obtain ⟨queue', inv', noneLost, changes⟩ := inv.schedStart allowed.2 never returned
      exact ⟨queue', inv', fun lost _ => noneLost lost, changes⟩
  | schedYield =>
      obtain ⟨w, returned, rest⟩ := Result.bind_ok called
      have isState : w = s' := (Prod.mk.inj (Except.ok.inj rest)).2
      subst isState
      have never : ∀ p, ¬(ProcOp.schedYield = .threadExit ∧ lastOf s p) := fun p => nofun
      obtain ⟨queue', inv', noneLost, changes⟩ := inv.schedYield never returned
      refine ⟨queue', inv', fun lost room => noneLost lost fun isOn pushes => room ?_, changes⟩
      simp [Sched.pushes, isOn, pushes]
  | schedTick =>
      obtain ⟨w, returned, rest⟩ := Result.bind_ok called
      have isState : w = s' := (Prod.mk.inj (Except.ok.inj rest)).2
      subst isState
      have never : ∀ p, ¬(ProcOp.schedTick = .threadExit ∧ lastOf s p) := fun p => nofun
      obtain ⟨queue', inv', noneLost, changes⟩ := inv.schedTick never returned
      refine ⟨queue', inv', fun lost room => noneLost lost fun isOn expired pushes => room ?_, changes⟩
      simp [Sched.pushes, isOn, expired, pushes]
  | threadExit =>
      obtain ⟨w, returned, rest⟩ := Result.bind_ok called
      have isState : w = s' := (Prod.mk.inj (Except.ok.inj rest)).2
      subst isState
      simp only [Sched.allowed, Bool.and_eq_true, bne_iff_ne, ne_eq] at allowed
      obtain ⟨⟨runs, notBoot⟩, notIdle⟩ := allowed
      obtain ⟨current, here, awake⟩ := Sched.runs_iff runs
      obtain ⟨queue', inv', noneLost, changes⟩ := inv.threadExit here awake notBoot (Ne.symm notIdle) returned
      refine ⟨queue', inv', fun lost _ => noneLost lost, ?_⟩
      simpa using changes
  | processWaitpid target =>
      obtain ⟨⟨result, w⟩, returned, rest⟩ := Result.bind_ok called
      have isState : w = s' := (Prod.mk.inj (Except.ok.inj rest)).2
      subst isState
      have never : ∀ p, ¬(ProcOp.processWaitpid target = .threadExit ∧ lastOf s p) := fun p => nofun
      have alone : strict → ∀ p ∈ s.procZombies, ∀ proc, s.procs p = some proc →
          (target = minusOne ∨ target = proc.pid) → proc.threads = [] := by
        intro isStrict p member proc existing isMatch
        have waits := safe isStrict
        simp only [Sched.waitsSafely, List.all_eq_true] at waits
        have here := waits p member
        rw [existing, Option.all_some, Bool.or_eq_true, Bool.and_eq_true, bne_iff_ne, bne_iff_ne, List.isEmpty_iff] at here
        rcases here with ⟨notAny, notPid⟩ | empty
        · exact absurd isMatch (not_or.mpr ⟨notAny, notPid⟩)
        · exact empty
      obtain ⟨inv', noneLost, changes⟩ := inv.processWaitpid alone never returned
      exact ⟨queue, inv', fun lost _ => noneLost lost, changes⟩

end

end DoccrOS.Proc
