import DoccrOS.Proof.User.ExitStatus

namespace DoccrOS.Proc
open Lib Mem User

/-- The space of a process, if it is not the kernel space. -/
def userSpace : Option SpacePtr → Option HeapPtr
  | some (.user ptr) => some ptr
  | _ => none

/-- The space that `process_reap_zombies` destroys for a process, if it has no threads. -/
def freedSpace (procs : HeapPtr → Option Process) (p : HeapPtr) : Option HeapPtr :=
  (procs p).bind fun proc => if proc.threadCount = 0 then userSpace proc.space else none

/-- The spaces that the reapers of a yield destroy: those of the zombie processes that `reap_zombies` leaves without threads. -/
def yieldDestroys (s : Sched) : List HeapPtr :=
  if !s.enabled then []
  else
    match reapZombies s with
    | .error _ => []
    | .ok s => s.procZombies.filterMap (freedSpace s.procs)

/-- The spaces for which a call runs `vmm_space_destroy`. -/
def Sched.destroys (s : Sched) : ProcOp → List HeapPtr
  | .schedYield => yieldDestroys s
  | .schedTick =>
    if wrap64 (s.ticks + 1) % quantum = 0 then yieldDestroys { s with ticks := wrap64 (s.ticks + 1) } else []
  | .schedStart => ((s.threads .bootstrap).map fun boot => yieldDestroys (started s boot)).getD []
  | .threadExit =>
    match exitState s with
    | .error _ => []
    | .ok s => yieldDestroys s
  | .processWaitpid target =>
    match waitpidSearch s target s.procZombies with
    | .ok (some (_, proc), _) => (userSpace proc.space).toList
    | _ => []
  | .processDestroy p => ((s.procs p).bind fun proc => userSpace proc.space).toList
  | .processFork new space thread stack =>
    if (s.threads s.current).any (·.owner.isSome) && new.isSome && !(thread.isSome && stack) then space.toList else []
  | _ => []

section
variable (s : Sched)

theorem destroys_schedTick : s.destroys .schedTick =
    if wrap64 (s.ticks + 1) % quantum = 0 then yieldDestroys { s with ticks := wrap64 (s.ticks + 1) } else [] := rfl

theorem destroys_schedStart : s.destroys .schedStart =
    ((s.threads .bootstrap).map fun boot => yieldDestroys (started s boot)).getD [] := rfl

theorem destroys_threadExit : s.destroys .threadExit =
    match exitState s with
    | .error _ => []
    | .ok s => yieldDestroys s := rfl

theorem destroys_processWaitpid (target : Nat) : s.destroys (.processWaitpid target) =
    match waitpidSearch s target s.procZombies with
    | .ok (some (_, proc), _) => (userSpace proc.space).toList
    | _ => [] := rfl

theorem destroys_processDestroy (p : HeapPtr) : s.destroys (.processDestroy p) =
    ((s.procs p).bind fun proc => userSpace proc.space).toList := rfl

theorem destroys_processFork (new space thread : Option HeapPtr) (stack : Bool) :
    s.destroys (.processFork new space thread stack) =
      if (s.threads s.current).any (·.owner.isSome) && new.isSome && !(thread.isSome && stack) then space.toList else [] := rfl

end

/-- The thread to which a yield of a dead thread switches. -/
def Sched.nextThread (s : Sched) : Option ThreadPtr := (qPop s.readyQ).1.or s.idleThread

/-- The current thread is the last live one of a process with a space of its own. -/
def Sched.lastOfUser (s : Sched) : Bool :=
  (s.threads s.current).any fun self => self.owner.any fun p => (s.procs p).any fun proc =>
    proc.state == .alive && proc.aliveCount == 1 && (userSpace proc.space).isSome

/-- When the last thread of a process exits, the thread that runs next has an owner. -/
def exitsToOwned (s : Sched) : ProcOp → Bool
  | .threadExit => !s.lastOfUser || s.nextThread.any fun t => (s.threads t).any fun thread => thread.owner.isSome
  | _ => true

/-- The active space is the kernel space or the space of a process with a live thread, and it is the space of the owner of
the current thread. -/
structure ActiveInv (s : Sched) : Prop where
  spaced : ∀ p proc, s.procs p = some proc → proc.space ≠ none
  owner : ∀ ptr, s.activeSpace = .user ptr →
    ∃ p proc, s.procs p = some proc ∧ proc.space = some (.user ptr) ∧ proc.state = .alive ∧ 0 < proc.aliveCount
  current : ∀ thread p, s.threads s.current = some thread → thread.owner = some p →
    ∃ proc, s.procs p = some proc ∧ proc.space = some s.activeSpace

/-- The active space at a call of `sched_yield`. Its process may just have lost its last thread if an owned thread is next. -/
structure ActiveYield (s : Sched) (prev : Thread) : Prop where
  spaced : ∀ p proc, s.procs p = some proc → proc.space ≠ none
  owner : ∀ ptr, s.activeSpace = .user ptr → ∃ p proc, s.procs p = some proc ∧ proc.space = some (.user ptr) ∧
    ((proc.state = .alive ∧ 0 < proc.aliveCount) ∨ (s.current ∈ proc.threads ∧ s.current ∉ s.zombies ∧ prev.state = .dead ∧
      ∃ t thread, s.nextThread = some t ∧ t ≠ s.current ∧ s.threads t = some thread ∧ thread.owner ≠ none))
  current : ∀ p, prev.owner = some p → s.current ∉ s.zombies →
    ∃ proc, s.procs p = some proc ∧ s.current ∈ proc.threads ∧ proc.space = some s.activeSpace

/-- The yield stays with its thread and the active space, or it switches to a thread and activates the space of its owner. -/
inductive Moves (s s' : Sched) : Prop
  | stays (sameCurrent : s'.current = s.current) (sameActive : s'.activeSpace = s.activeSpace)
  | switches {thread : Thread} (different : s'.current ≠ s.current) (here : s.threads s'.current = some thread)
      (orphan : thread.owner = none → s'.activeSpace = s.activeSpace)
      (owned : ∀ p, thread.owner = some p →
        ∃ proc, s.procs p = some proc ∧ (proc.space ≠ none → proc.space = some s'.activeSpace))

section
variable {strict : Prop} {s s' s₀ : Sched} {queue : List ThreadPtr} {next : ThreadPtr} {thread prev : Thread} {ptr : HeapPtr}
  {op : ProcOp} {ops : List ProcOp}

theorem userSpace_some {space : Option SpacePtr} : userSpace space = some ptr ↔ space = some (.user ptr) := by
  unfold userSpace
  split <;> simp_all

theorem switchTo_moves (returned : switchTo s next = .ok s') : Moves s s' ∧ s'.current = next := by
  obtain ⟨thread, found, running⟩ := Result.bind_ok returned
  have here := Sched.threads_of_ok found
  have isState := switchTo_spec here returned
  have isCurrent : s'.current = next := by rw [isState]
  refine ⟨?_, isCurrent⟩
  by_cases same : next = s.current
  · rw [if_pos (by simpa [Sched.setThread] using same)] at running
    exact .stays (isCurrent.trans same) (by rw [← Except.ok.inj running]; rfl)
  · rw [if_neg (by simpa [Sched.setThread] using same)] at running
    have different : s'.current ≠ s.current := by
      rw [isCurrent]
      exact same
    rw [← isCurrent] at here
    split at running
    · rename_i noOwner
      refine .switches different here (fun _ => by rw [← Except.ok.inj running]; rfl) ?_
      rw [noOwner]
      rintro _ ⟨⟩
    · rename_i owner isOwner
      obtain ⟨proc, read, rest⟩ := Result.bind_ok running
      have existing : s.procs owner = some proc := Sched.procs_of_ok read
      refine .switches different here (by rw [isOwner]; rintro ⟨⟩) ?_
      intro p sameOwner
      rw [isOwner] at sameOwner
      rw [← Option.some.inj sameOwner]
      refine ⟨proc, existing, ?_⟩
      split at rest
      · rename_i noSpace
        exact fun some => absurd noSpace some
      · rename_i space isSpace
        intro _
        rw [isSpace]
        cases space with
        | kernel => rw [← Except.ok.inj rest]
        | user ptr =>
            rw [vmmSpaceActivate] at rest
            split at rest
            · rw [← Except.ok.inj rest]
            · cases rest

theorem pickNext_moves (returned : pickNext s prev = .ok s') :
    Moves s s' ∧ (prev.state = .dead → ∀ t, s.nextThread = some t → s'.current = t) := by
  unfold pickNext at returned
  unfold Sched.nextThread
  split at returned
  · rename_i next readyQ popped
    obtain ⟨moves, isCurrent⟩ := switchTo_moves returned
    refine ⟨?_, ?_⟩
    · cases moves with
      | stays sameCurrent sameActive => exact .stays sameCurrent sameActive
      | switches different here orphan owned => exact .switches different here orphan owned
    · intro _ t isNext
      rw [popped] at isNext
      exact isCurrent.trans (Option.some.inj isNext)
  · rename_i readyQ popped
    rw [popped]
    split at returned
    · rename_i isIdle
      rw [← Except.ok.inj returned]
      refine ⟨.stays rfl rfl, ?_⟩
      intro dead
      rw [isIdle.2] at dead
      cases dead
    · split at returned
      · rename_i noIdle
        rw [← Except.ok.inj returned, noIdle]
        exact ⟨.stays rfl rfl, fun _ _ => nofun⟩
      · rename_i idle isIdle
        obtain ⟨moves, isCurrent⟩ := switchTo_moves returned
        refine ⟨?_, ?_⟩
        · cases moves with
          | stays sameCurrent sameActive => exact .stays sameCurrent sameActive
          | switches different here orphan owned => exact .switches different here orphan owned
        · intro _ t isNext
          rw [isIdle] at isNext
          exact isCurrent.trans (Option.some.inj isNext)

/-- The end of a yield changes the current thread and the active space together. -/
theorem yieldRest_moves (returned : yieldRest s prev = .ok s') :
    Moves s s' ∧ (prev.state = .dead → ∀ t, s.nextThread = some t → s'.current = t) := by
  rw [yieldRest] at returned
  by_cases dead : prev.state = .dead
  · rw [if_pos dead] at returned
    obtain ⟨moves, isNext⟩ := pickNext_moves returned
    refine ⟨?_, isNext⟩
    cases moves with
    | stays sameCurrent sameActive => exact .stays sameCurrent sameActive
    | switches different here orphan owned => exact .switches different here orphan owned
  · rw [if_neg dead] at returned
    refine ⟨?_, fun isDead => absurd isDead dead⟩
    split at returned
    · split at returned
      · rw [← Except.ok.inj returned]
        exact .stays rfl rfl
      · obtain ⟨moves, _⟩ := pickNext_moves returned
        cases moves with
        | stays sameCurrent sameActive => exact .stays sameCurrent sameActive
        | switches different found orphan owned =>
            have different' : s'.current ≠ s.current := different
            simp only [Sched.setThread, Function.update_of_ne different'] at found
            exact .switches different found orphan owned
    · exact (pickNext_moves returned).1

/-- The reapers destroy the space of a zombie process whose threads are all in the zombie list. -/
theorem mem_yieldDestroys (table : TableInv strict s.table) (zombies : ZombieList s queue) (member : ptr ∈ yieldDestroys s) :
    ∃ p proc, s.procs p = some proc ∧ proc.state = .zombie ∧ proc.space = some (.user ptr) ∧
      ∀ t ∈ proc.threads, t ∈ s.zombies := by
  unfold yieldDestroys at member
  split at member
  · cases member
  · split at member
    · cases member
    · rename_i s₁ reaped
      obtain ⟨isReaped, _⟩ := reapThreads_spec table zombies.holds zombies.nodup zombies.zombie reaped
      obtain ⟨p, listed, found⟩ := List.mem_filterMap.mp member
      rw [isReaped] at listed found
      obtain ⟨dropped, isDropped, alone⟩ := Option.bind_eq_some_iff.mp found
      have isDropped' : droppedProcs s p = some dropped := isDropped
      obtain ⟨proc, existing, same⟩ := droppedProcs_some isDropped'
      split at alone
      · rename_i noThreads
        have isSpent : spent (droppedProcs s) p = true := by simp [spent, isDropped', noThreads]
        obtain ⟨other, existing', isZombie⟩ := (table.zombie p).mp listed
        have found' : s.procs p = some other := existing'
        rw [existing] at found'
        rw [← Option.some.inj found'] at isZombie
        rw [userSpace_some, same, dropAll_fields.2.2.2] at alone
        exact ⟨p, proc, existing, isZombie, alone, (spent_iff table existing).mp isSpent⟩
      · cases alone

/-- A process that is alive survives the reapers with its space and its live threads. -/
theorem reapedProcs_alive (table : TableInv strict s.table) {p : HeapPtr} {proc : Process} (existing : s.procs p = some proc)
    (isAlive : proc.state = .alive) : reapedProcs s p = some (dropAll proc s.zombies) := by
  have notZombie : p ∉ s.procZombies := by
    intro member
    obtain ⟨other, existing', isZombie⟩ := (table.zombie p).mp member
    have found : s.procs p = some other := existing'
    rw [existing] at found
    rw [← Option.some.inj found, isAlive] at isZombie
    cases isZombie
  rw [reapedProcs, if_neg fun both => notZombie both.1, droppedProcs, existing, Option.map_some]

theorem reapedProcs_some (s : Sched) {p : HeapPtr} {proc : Process} (existing : reapedProcs s p = some proc) :
    ∃ old, s.procs p = some old ∧ proc = dropAll old s.zombies := by
  rw [reapedProcs] at existing
  split at existing
  · cases existing
  · exact droppedProcs_some existing

/-- A process survives the reapers while one of its threads is not in the zombie list. -/
theorem reapedProcs_kept (table : TableInv strict s.table) {p : HeapPtr} {proc : Process} {t : ThreadPtr}
    (existing : s.procs p = some proc) (member : t ∈ proc.threads) (outside : t ∉ s.zombies) :
    reapedProcs s p = some (dropAll proc s.zombies) := by
  have notSpent : ¬spent (droppedProcs s) p = true := fun isSpent => outside ((spent_iff table existing).mp isSpent t member)
  rw [reapedProcs, if_neg fun both => notSpent both.2, droppedProcs, existing, Option.map_some]

theorem ActiveYield.notDestroyed (active : ActiveYield s prev) (table : TableInv strict s.table)
    (zombies : ZombieList s queue) (isActive : s.activeSpace = .user ptr) : ptr ∉ yieldDestroys s := by
  intro member
  obtain ⟨p, proc, existing, isZombie, isSpace, gone⟩ := mem_yieldDestroys table zombies member
  obtain ⟨q, other, existing', isSpace', reason⟩ := active.owner ptr isActive
  have same : p = q := table.spaceInj p q proc other ptr existing existing' isSpace isSpace'
  rw [same, existing'] at existing
  rw [← Option.some.inj existing] at isZombie gone
  rcases reason with ⟨isAlive, _⟩ | ⟨inside, outside, _⟩
  · rw [isAlive] at isZombie
    cases isZombie
  · exact outside (gone _ inside)

/-- A yield activates the space of the thread that it switches to. -/
theorem ActiveYield.yield (active : ActiveYield s prev) (inv : YieldInv s queue prev) (table : TableInv False s.table)
    (returned : schedYield s = .ok s') : ActiveInv s' := by
  obtain ⟨_, _, _, yields, _⟩ := inv.yield table returned
  obtain ⟨spaces, rest, _, alive⟩ := inv.reaped table returned
  obtain ⟨moves, isNext⟩ := yieldRest_moves rest
  have fields (proc : Process) : (dropAll proc s.zombies).space = proc.space := dropAll_fields.2.2.2
  have owned (p : HeapPtr) (proc : Process) (existing : s.procs p = some proc) (isAlive : proc.state = .alive)
      (positive : 0 < proc.aliveCount) (ptr : HeapPtr) (isSpace : proc.space = some (.user ptr)) :
      ∃ p proc, s'.procs p = some proc ∧ proc.space = some (.user ptr) ∧ proc.state = .alive ∧ 0 < proc.aliveCount := by
    refine ⟨p, dropAll proc s.zombies, ?_, (fields proc).trans isSpace, dropAll_fields.2.1.trans isAlive, ?_⟩
    · rw [yields.procs]
      exact reapedProcs_alive table existing isAlive
    · rw [dropAll_aliveCount]
      exact positive
  have sameOwner (thread' : Thread) (p : HeapPtr) (here' : s'.threads s'.current = some thread')
      (isOwner : thread'.owner = some p) : ∃ thread, s.threads s'.current = some thread ∧ thread.owner = some p := by
    have owners := congrFun yields.owners s'.current
    rw [ownersOf_some here', isOwner] at owners
    split at owners
    · cases owners
    · obtain ⟨thread, found, same⟩ := Option.map_eq_some_iff.mp owners.symm
      exact ⟨thread, found, (Prod.mk.inj same).1⟩
  have spaced : ∀ p proc, s'.procs p = some proc → proc.space ≠ none := by
    intro p proc existing
    rw [yields.procs] at existing
    obtain ⟨old, existing', same⟩ := reapedProcs_some s existing
    rw [same, fields]
    exact active.spaced p old existing'
  cases moves with
  | stays sameCurrent sameActive =>
      refine ⟨spaced, ?_, ?_⟩
      · intro ptr isActive
        obtain ⟨p, proc, existing, isSpace, reason⟩ := active.owner ptr (sameActive.symm.trans isActive)
        rcases reason with ⟨isAlive, positive⟩ | ⟨_, _, dead, t, _, isThread, different, _⟩
        · exact owned p proc existing isAlive positive ptr isSpace
        · exact absurd ((isNext dead t isThread).symm.trans sameCurrent) different
      · intro thread' p here' isOwner
        obtain ⟨thread, found, isOwner'⟩ := sameOwner thread' p here' isOwner
        rw [sameCurrent, inv.current] at found
        rw [← Option.some.inj found] at isOwner'
        obtain ⟨proc, existing, member, isSpace⟩ := active.current p isOwner' alive
        refine ⟨dropAll proc s.zombies, ?_, ?_⟩
        · rw [yields.procs]
          exact reapedProcs_kept table existing member alive
        · rw [fields, isSpace, sameActive]
  | switches different found orphan switched =>
      rename_i thread
      simp only at found
      split at found
      · cases found
      · rename_i outside
        cases isOwner : thread.owner with
        | none =>
            have sameActive := orphan isOwner
            refine ⟨spaced, ?_, ?_⟩
            · intro ptr isActive
              obtain ⟨p, proc, existing, isSpace, reason⟩ := active.owner ptr (sameActive.symm.trans isActive)
              rcases reason with ⟨isAlive, positive⟩ | ⟨_, _, dead, t, other, isThread, _, found', hasOwner⟩
              · exact owned p proc existing isAlive positive ptr isSpace
              · rw [← isNext dead t isThread, found] at found'
                rw [Option.some.inj found'] at isOwner
                exact absurd isOwner hasOwner
            · intro thread' p here' isOwner'
              obtain ⟨other, found', hasOwner⟩ := sameOwner thread' p here' isOwner'
              rw [found] at found'
              rw [← Option.some.inj found', isOwner] at hasOwner
              cases hasOwner
        | some q =>
            obtain ⟨proc', existing', isSpace'⟩ := switched q isOwner
            have inSpace := isSpace' (spaced q proc' (by rw [yields.procs]; exact existing'))
            have awake : thread.state ≠ .dead := by
              intro dead
              rcases inv.buried s'.current (by rw [stateOf_some found, dead]) with member | isCurrent
              · exact outside member
              · exact different isCurrent
            obtain ⟨proc, existing, _, positive⟩ := table.alive_pos found awake isOwner
            refine ⟨spaced, ?_, ?_⟩
            · intro ptr isActive
              have owners : s.table.owners s'.current = some (some q, true) := by
                refine (ownersOf_some found).trans ?_
                rw [isOwner, bne_iff_ne.mpr awake]
              obtain ⟨other, existing'', _, isAlive⟩ := table.owned s'.current q true owners (Or.inr rfl)
              have isOther : s.procs q = some other := existing''
              rw [existing] at isOther
              rw [← Option.some.inj isOther] at isAlive
              have isAlive := isAlive.resolve_left id
              obtain ⟨old, isOld, same⟩ := reapedProcs_some s existing'
              rw [existing] at isOld
              rw [← Option.some.inj isOld] at same
              rw [same, fields, isActive] at inSpace
              exact owned q proc existing isAlive positive ptr inSpace
            · intro thread' p here' isOwner'
              obtain ⟨other, found', hasOwner⟩ := sameOwner thread' p here' isOwner'
              rw [found] at found'
              rw [← Option.some.inj found', isOwner] at hasOwner
              refine ⟨proc', ?_, inSpace⟩
              rw [← Option.some.inj hasOwner, yields.procs]
              exact existing'

/-- The active space when a call between two switches yields. -/
theorem ActiveInv.activeYield (active : ActiveInv s) (run : RunInv s queue) (table : TableInv False s.table)
    (here : s.threads s.current = some prev) : ActiveYield s prev := by
  refine ⟨active.spaced, ?_, ?_⟩
  · intro ptr isActive
    obtain ⟨p, proc, existing, isSpace, alive⟩ := active.owner ptr isActive
    exact ⟨p, proc, existing, isSpace, Or.inl alive⟩
  · intro p isOwner outside
    have awake : prev.state ≠ .dead := by
      intro dead
      exact outside ((run.parts.zombie _).mpr (by rw [stateOf_some here, dead]))
    obtain ⟨proc, existing, isSpace⟩ := active.current prev p here isOwner
    obtain ⟨other, existing', member, _⟩ := table.alive_pos here awake isOwner
    rw [existing] at existing'
    rw [← Option.some.inj existing'] at member
    exact ⟨proc, existing, member, isSpace⟩

/-- The thread that runs after an exit is another one. -/
theorem RunInv.nextThread_ne (run : RunInv s queue) (notIdle : s.idleThread ≠ some s.current) {t : ThreadPtr}
    (isNext : s.nextThread = some t) : t ≠ s.current := by
  intro same
  unfold Sched.nextThread at isNext
  cases queue with
  | nil =>
      rw [run.parts.holds.pop_nil, Option.none_or, same] at isNext
      exact notIdle isNext
  | cons first rest =>
      obtain ⟨q', popped, _⟩ := run.parts.holds.pop
      rw [popped, Option.some_or] at isNext
      rw [Option.some.inj isNext, same] at run
      exact run.notQueued List.mem_cons_self

/-- The active space when a thread that exits yields. -/
theorem Exited.activeYield (exited : Exited s s₀ thread) (active : ActiveInv s) (inv : ProcInv False s queue)
    (sameActive : s₀.activeSpace = s.activeSpace) (here : s.threads s.current = some thread) (awake : thread.state ≠ .dead)
    (notIdle : s.idleThread ≠ some s.current) (alive : s₀.current ∉ s₀.zombies) (toOwned : exitsToOwned s .threadExit = true) :
    ActiveYield s₀ { thread with state := .dead } := by
  have stored (p : HeapPtr) (proc : Process) (existing : s.procs p = some proc) :
      ∃ proc₀, s₀.procs p = some proc₀ ∧ proc₀.space = proc.space ∧ proc₀.threads = proc.threads ∧
        (proc₀ = proc ∨ thread.owner = some p ∧
          (lastOf s p ∨ ¬lastOf s p ∧ proc₀ = { proc with aliveCount := proc.aliveCount - 1 })) := by
    rcases exited.procs with ⟨_, same⟩ | ⟨q, other, isOwner, existing', stored⟩
    · exact ⟨proc, by rw [same, existing], rfl, rfl, Or.inl rfl⟩
    · by_cases same : p = q
      · subst same
        have sameProc : proc = other := Option.some.inj (existing.symm.trans existing')
        subst sameProc
        rcases stored with ⟨isStored, notLast⟩ | ⟨isStored, last⟩
        · refine ⟨{ proc with aliveCount := proc.aliveCount - 1 }, ?_, rfl, rfl, Or.inr ⟨isOwner, Or.inr ⟨notLast, rfl⟩⟩⟩
          rw [isStored, Function.update_self]
        · refine ⟨{ proc with aliveCount := proc.aliveCount - 1, exitCode := 0, state := .zombie }, ?_, rfl, rfl,
            Or.inr ⟨isOwner, Or.inl last⟩⟩
          rw [isStored, Function.update_self]
      · refine ⟨proc, ?_, rfl, rfl, Or.inl rfl⟩
        rcases stored with ⟨isStored, _⟩ | ⟨isStored, _⟩ <;> rw [isStored, Function.update_of_ne same, existing]
  have absent (p : HeapPtr) (noProc : s.procs p = none) : s₀.procs p = none := by
    rcases exited.procs with ⟨_, same⟩ | ⟨q, _, _, existing, stored⟩
    · rw [same, noProc]
    · have different : p ≠ q := by
        intro same
        rw [same, existing] at noProc
        cases noProc
      rcases stored with ⟨isStored, _⟩ | ⟨isStored, _⟩ <;> rw [isStored, Function.update_of_ne different, noProc]
  refine ⟨?_, ?_, ?_⟩
  · intro p proc₀ existing₀
    cases existing : s.procs p with
    | none =>
        rw [absent p existing] at existing₀
        cases existing₀
    | some proc =>
        obtain ⟨proc₁, existing₁, isSpace, _⟩ := stored p proc existing
        rw [existing₀] at existing₁
        rw [Option.some.inj existing₁, isSpace]
        exact active.spaced p proc existing
  · intro ptr isActive
    rw [sameActive] at isActive
    obtain ⟨p, proc, existing, isSpace, isAlive, positive⟩ := active.owner ptr isActive
    obtain ⟨proc₀, existing₀, sameSpace, sameThreads, reason⟩ := stored p proc existing
    refine ⟨p, proc₀, existing₀, sameSpace.trans isSpace, ?_⟩
    rcases reason with same | ⟨isOwner, last | ⟨notLast, same⟩⟩
    · rw [same]
      exact Or.inl ⟨isAlive, positive⟩
    · obtain ⟨self, other, isSelf, _, existing', _, one⟩ := last
      obtain ⟨_, isOther, member, _⟩ := inv.table.alive_pos here awake isOwner
      rw [existing] at isOther existing'
      rw [← Option.some.inj isOther, ← sameThreads, ← exited.current] at member
      rw [← Option.some.inj existing'] at one
      have isLast : s.lastOfUser = true := by
        simp [Sched.lastOfUser, here, isOwner, existing, isAlive, one, isSpace, userSpace]
      simp only [exitsToOwned, isLast, Bool.not_true, Bool.false_or, Option.any_eq_true] at toOwned
      obtain ⟨t, isNext, other, found, hasOwner⟩ := toOwned
      have different := inv.run.nextThread_ne notIdle isNext
      refine Or.inr ⟨member, alive, rfl, t, other, ?_, ?_, ?_, Option.isSome_iff_ne_none.mp hasOwner⟩
      · rw [Sched.nextThread, exited.readyQ, exited.idle]
        exact isNext
      · rw [exited.current]
        exact different
      · rw [exited.threads, Function.update_of_ne different, found]
    · have several : proc.aliveCount ≠ 1 := fun one => notLast ⟨thread, proc, here, isOwner, existing, isAlive, one⟩
      rw [same]
      refine Or.inl ⟨isAlive, ?_⟩
      simp only
      omega
  · intro p isOwner outside
    obtain ⟨proc, existing, isSpace⟩ := active.current thread p here isOwner
    obtain ⟨_, isOther, member, _⟩ := inv.table.alive_pos here awake isOwner
    rw [existing] at isOther
    rw [← Option.some.inj isOther] at member
    obtain ⟨proc₀, existing₀, sameSpace, sameThreads, _⟩ := stored p proc existing
    refine ⟨proc₀, existing₀, ?_, by rw [sameSpace, isSpace, sameActive]⟩
    rw [sameThreads, exited.current]
    exact member

theorem destroySpace_spaces {space : Option SpacePtr} (returned : destroySpace s space = .ok s') (ptr : HeapPtr) :
    s'.spaces ptr = if userSpace space = some ptr then false else s.spaces ptr := by
  unfold destroySpace at returned
  split at returned
  · rw [← Except.ok.inj returned]
    rfl
  · rw [← Except.ok.inj returned]
    rfl
  · rename_i other
    rw [vmmSpaceDestroy] at returned
    split at returned
    · rw [← Except.ok.inj returned]
      simp only [userSpace, Function.update_apply, Option.some.injEq, eq_comm]
    · cases returned

/-- The process reaper destroys the spaces of the processes without threads. -/
theorem reapProcs_spaces {list kept : List HeapPtr} (nodup : list.Nodup) (returned : reapProcs s list = .ok (kept, s'))
    (ptr : HeapPtr) : s'.spaces ptr = if ptr ∈ list.filterMap (freedSpace s.procs) then false else s.spaces ptr := by
  induction list generalizing s s' kept with
  | nil =>
      rw [← (Prod.mk.inj (Except.ok.inj returned)).2]
      rfl
  | cons cur next ih =>
      obtain ⟨fresh, nodup⟩ := List.nodup_cons.mp nodup
      rw [reapProcs] at returned
      obtain ⟨proc, found, rest⟩ := Result.bind_ok returned
      have existing := s.procs_of_ok found
      by_cases none : proc.threadCount = 0
      · rw [if_pos none] at rest
        obtain ⟨w, destroyed, rest⟩ := Result.bind_ok rest
        obtain ⟨_, isMiddle, _⟩ := destroySpace_spec destroyed
        have sameProcs : w.procs = s.procs := by rw [isMiddle]
        have others : next.filterMap (freedSpace (w.freeProc cur).procs) = next.filterMap (freedSpace s.procs) := by
          apply List.filterMap_congr
          intro p member
          have different : p ≠ cur := fun same => fresh (same ▸ member)
          simp only [freedSpace, Sched.freeProc, Function.update_of_ne different, sameProcs]
        have here : freedSpace s.procs cur = userSpace proc.space := by simp [freedSpace, existing, none]
        have middle : (w.freeProc cur).spaces ptr = if userSpace proc.space = some ptr then false else s.spaces ptr :=
          destroySpace_spaces destroyed ptr
        rw [ih nodup rest, others, middle, List.filterMap_cons, here]
        cases space : userSpace proc.space with
        | none => simp
        | some other =>
            by_cases same : ptr = other
            · simp [same]
            · simp [same, Ne.symm same]
      · rw [if_neg none] at rest
        obtain ⟨⟨kept', w⟩, reaped, rest⟩ := Result.bind_ok rest
        rw [← (Prod.mk.inj (Except.ok.inj rest)).2, ih nodup reaped, List.filterMap_cons]
        simp [freedSpace, existing, none]

theorem switchTo_spaces (returned : switchTo s next = .ok s') : s'.spaces = s.spaces := by
  obtain ⟨thread, found, _⟩ := Result.bind_ok returned
  rw [switchTo_spec (Sched.threads_of_ok found) returned]

theorem pickNext_spaces (returned : pickNext s prev = .ok s') : s'.spaces = s.spaces := by
  unfold pickNext at returned
  split at returned
  · exact (switchTo_spaces returned).trans rfl
  · split at returned
    · rw [← Except.ok.inj returned]
    · split at returned
      · rw [← Except.ok.inj returned]
      · exact (switchTo_spaces returned).trans rfl

theorem yieldRest_spaces (returned : yieldRest s prev = .ok s') : s'.spaces = s.spaces := by
  unfold yieldRest at returned
  split at returned
  · exact (pickNext_spaces returned).trans rfl
  · split at returned
    · split at returned
      · rw [← Except.ok.inj returned]
      · exact (pickNext_spaces returned).trans rfl
    · exact (pickNext_spaces returned).trans rfl

/-- A yield destroys the listed spaces and no others. -/
theorem schedYield_spaces (table : TableInv strict s.table) (zombies : ZombieList s queue)
    (returned : schedYield s = .ok s') (ptr : HeapPtr) :
    s'.spaces ptr = if ptr ∈ yieldDestroys s then false else s.spaces ptr := by
  cases enabled : s.enabled with
  | false =>
      rw [schedYield, enabled] at returned
      rw [← Except.ok.inj returned]
      simp [yieldDestroys, enabled]
  | true =>
      rw [schedYield, enabled] at returned
      simp only [Bool.not_true, Bool.false_eq_true, if_false] at returned
      obtain ⟨s₁, reaped, returned⟩ := Result.bind_ok returned
      obtain ⟨s₂, reaped', returned⟩ := Result.bind_ok returned
      obtain ⟨prev, _, returned⟩ := Result.bind_ok returned
      obtain ⟨⟨kept, w⟩, freed, rest⟩ := Result.bind_ok reaped'
      obtain ⟨isReaped, _⟩ := reapThreads_spec table zombies.holds zombies.nodup zombies.zombie reaped
      have nodup : s₁.procZombies.Nodup := by
        rw [isReaped]
        exact table.zombieNodup
      have isRest : yieldRest s₂ prev = .ok s' := returned
      have same : s₁.spaces = s.spaces := by rw [isReaped]
      rw [yieldRest_spaces isRest, ← Except.ok.inj rest]
      simp only [yieldDestroys, enabled, Bool.not_true, Bool.false_eq_true, if_false, reaped]
      rw [reapProcs_spaces nodup freed, same]

end

end DoccrOS.Proc
