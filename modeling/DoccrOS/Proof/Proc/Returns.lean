import DoccrOS.Proof.Proc.Runs

namespace DoccrOS.Proc
open Lib Mem

section
variable {s s' : Sched} {queue : List ThreadPtr} {p : HeapPtr} {op : ProcOp}

theorem procAlloc_ok {new : Option HeapPtr} (fresh : new.all (fun p => !s.hasProc p) = true) :
    ∃ result, procAlloc s new = .ok result := by
  cases new with
  | none => exact ⟨_, rfl⟩
  | some p =>
      have unused : (s.procs p).isSome = false := by simpa [Sched.hasProc] using fresh
      rw [procAlloc, unused]
      exact ⟨_, rfl⟩

/-- A new process is there when `proc_alloc` returns. -/
theorem procAlloc_made {new : Option HeapPtr} (allocated : procAlloc s new = .ok (some p, s')) :
    s'.procs p = some ⟨s.nextPid, .alive, 0, none, [], 0, 0⟩ := by
  rcases procAlloc_spec allocated with ⟨isNone, _⟩ | ⟨q, same, _, _, isState⟩
  · cases isNone
  · rw [isState, Option.some.inj same]
    simp only [Function.update_self]

theorem procAlloc_spaces {new result : Option HeapPtr} (allocated : procAlloc s new = .ok (result, s')) :
    s'.spaces = s.spaces := by
  rcases procAlloc_spec allocated with ⟨_, same⟩ | ⟨q, _, _, _, isState⟩
  · rw [same]
  · rw [isState]

theorem threadNew_ok {owner new : Option HeapPtr} {isUser stack : Bool} (exists' : owner.all s.hasProc = true)
    (fresh : new.all (fun t => (s.threads (.heap t)).isNone) = true) :
    ∃ result, threadNew s owner isUser new stack = .ok result := by
  cases new with
  | none => exact ⟨_, rfl⟩
  | some ptr =>
      have unused : s.threads (.heap ptr) = none := by simpa using fresh
      rw [threadNew, unused]
      cases stack with
      | false => exact ⟨_, rfl⟩
      | true =>
          cases owner with
          | none =>
              simp only [schedAdd, Sched.thread, Sched.setThread, Function.update_self, Result.ok_bind]
              exact ⟨_, rfl⟩
          | some p =>
              obtain ⟨proc, existing⟩ : ∃ proc, s.procs p = some proc := by
                simpa [Sched.hasProc, Option.isSome_iff_exists] using exists'
              simp only [linkThread, schedAdd, Sched.thread, Sched.proc, Sched.setThread, Sched.setProc, existing,
                Function.update_self, Result.ok_bind, pure_bind]
              exact ⟨_, rfl⟩

theorem processFork_ok {new space thread : Option HeapPtr} {stack : Bool} (table : TableInv True s.table)
    (allowed : s.allowed (.processFork new space thread stack) = true) :
    ∃ result, processFork s new space thread stack = .ok result := by
  simp only [Sched.allowed, Bool.and_eq_true] at allowed
  obtain ⟨⟨⟨runs, fresh⟩, unused⟩, free⟩ := allowed
  obtain ⟨caller, here, _⟩ := Sched.runs_iff runs
  simp only [processFork, s.thread_ok here, Result.ok_bind]
  cases owner : caller.owner with
  | none => exact ⟨_, rfl⟩
  | some parent =>
      obtain ⟨proc, existing, _⟩ := table.owned s.current parent _ ((ownersOf_some here).trans (by rw [owner])) (Or.inl trivial)
      have found : s.procs parent = some proc := existing
      simp only [s.proc_ok found, Result.ok_bind]
      cases new with
      | none => exact ⟨_, rfl⟩
      | some child =>
          have isFresh : (s.procs child).isSome = false := by simpa [Sched.hasProc] using fresh
          simp only [procAlloc, isFresh, Bool.false_eq_true, if_false, Result.ok_bind]
          cases space with
          | none => exact ⟨_, rfl⟩
          | some sp =>
              have isUnused : s.spaces sp = false := by simpa using unused
              simp only [newSpace, Sched.setProc, isUnused, Bool.false_eq_true, if_false, Result.ok_bind, setSpace, Sched.proc,
                Function.update_self, pure_bind]
              cases thread with
              | none =>
                  simp only [forkUndo, vmmSpaceDestroy, Function.update_self, if_true, Result.ok_bind]
                  exact ⟨_, rfl⟩
              | some ptr =>
                  have isFree : (s.threads (.heap ptr)).isSome = false := by simpa using free
                  simp only [isFree, Bool.false_eq_true, if_false]
                  cases stack with
                  | false =>
                      simp only [forkUndo, vmmSpaceDestroy, Function.update_self, if_true, Result.ok_bind, Bool.not_false]
                      exact ⟨_, rfl⟩
                  | true =>
                      simp only [forkThread, linkThread, schedAdd, Sched.thread, Sched.proc, Sched.setThread, Sched.setProc,
                        Function.update_self, Result.ok_bind, pure_bind, Bool.not_true, Bool.false_eq_true, if_false]
                      exact ⟨_, rfl⟩

theorem waitpidSearch_ok (target : Nat) {list : List HeapPtr} (live : ∀ p ∈ list, ∃ proc, s.procs p = some proc) :
    ∃ result, waitpidSearch s target list = .ok result := by
  induction list with
  | nil => exact ⟨_, rfl⟩
  | cons cur next ih =>
      obtain ⟨proc, existing⟩ := live cur List.mem_cons_self
      obtain ⟨result, searched⟩ := ih fun p member => live p (List.mem_cons_of_mem cur member)
      simp only [waitpidSearch, s.proc_ok existing, searched, Result.ok_bind]
      split <;> exact ⟨_, rfl⟩

theorem processWaitpid_ok {strict : Prop} (table : TableInv strict s.table) (target : Nat) : ∃ result, processWaitpid s target = .ok result := by
  have live : ∀ p ∈ s.procZombies, ∃ proc, s.procs p = some proc := by
    intro p member
    obtain ⟨proc, existing, _⟩ := (table.zombie p).mp member
    exact ⟨proc, existing⟩
  obtain ⟨⟨found, rest⟩, searched⟩ := waitpidSearch_ok target live
  simp only [processWaitpid, searched, Result.ok_bind]
  cases found with
  | none => exact ⟨_, rfl⟩
  | some pair =>
      obtain ⟨cur, proc⟩ := pair
      have existing : s.procs cur = some proc := by
        rcases waitpidSearch_spec searched with ⟨isNone, _⟩ | ⟨cur', proc', same, _, existing, _⟩
        · cases isNone
        · obtain ⟨samePtr, sameProc⟩ := Prod.mk.inj (Option.some.inj same)
          rw [samePtr, sameProc]
          exact existing
      obtain ⟨s₁, destroyed⟩ := destroySpace_ok (s := { s with procZombies := rest }) (table.space cur proc · existing)
      simp only [destroyed, Result.ok_bind]
      exact ⟨_, rfl⟩

theorem processDestroy_ok (table : TableInv True s.table) {proc : Process} (existing : s.procs p = some proc)
    (alone : proc.threads = []) : ∃ s', processDestroy s p = .ok s' := by
  obtain ⟨s₁, destroyed⟩ := destroySpace_ok (table.space p proc · existing)
  simp only [processDestroy, s.proc_ok existing, alone, destroyThreads, destroyed, Result.ok_bind]
  split <;> exact ⟨_, rfl⟩

theorem ProcInv.schedYield_ok (inv : ProcInv True s queue) (alive : s.current ∉ s.zombies) : ∃ s', Proc.schedYield s = .ok s' := by
  cases enabled : s.enabled with
  | false =>
      rw [Proc.schedYield, enabled]
      exact ⟨_, rfl⟩
  | true =>
      obtain ⟨prev, ready⟩ := inv.run.yieldInv enabled
      exact ready.yield_ok inv.table alive

theorem ProcInv.schedTick_ok (inv : ProcInv True s queue) (alive : s.current ∉ s.zombies) : ∃ s', Proc.schedTick s = .ok s' := by
  have inv' : ProcInv True { s with ticks := wrap64 (s.ticks + 1) } queue :=
    ⟨inv.run.congr rfl rfl rfl rfl rfl rfl, inv.table⟩
  rw [Proc.schedTick]
  split
  · exact ⟨_, rfl⟩
  · simp only
    split
    · exact inv'.schedYield_ok alive
    · exact ⟨_, rfl⟩

/-- Every call that is allowed returns. -/
theorem ProcInv.returns (inv : ProcInv True s queue) (allowed : s.allowed op = true) (alive : s.current ∉ s.zombies) :
    ∃ result, s.call op = .ok result := by
  cases op with
  | processCreate new =>
      simp only [Sched.allowed, Bool.and_eq_true] at allowed
      obtain ⟨⟨made, s₁⟩, allocated⟩ := procAlloc_ok allowed.2
      simp only [Sched.call, processCreate, allocated, Result.ok_bind]
      cases made with
      | none => exact ⟨_, rfl⟩
      | some p =>
          simp only [setSpace, s₁.proc_ok (procAlloc_made allocated), Result.ok_bind]
          exact ⟨_, rfl⟩
  | processCreateUser new space =>
      simp only [Sched.allowed, Bool.and_eq_true] at allowed
      obtain ⟨⟨made, s₁⟩, allocated⟩ := procAlloc_ok allowed.1.2
      simp only [Sched.call, processCreateUser, allocated, Result.ok_bind]
      cases made with
      | none => exact ⟨_, rfl⟩
      | some p =>
          cases space with
          | none => exact ⟨_, rfl⟩
          | some ptr =>
              have unused : s₁.spaces ptr = false := by
                rw [procAlloc_spaces allocated]
                simpa using allowed.2
              have existing := procAlloc_made allocated
              simp only [newSpace, setSpace, Sched.proc, unused, existing, Bool.false_eq_true, if_false, Result.ok_bind]
              exact ⟨_, rfl⟩
  | processDestroy p =>
      simp only [Sched.allowed, Bool.and_eq_true, Option.any_eq_true, beq_iff_eq, List.isEmpty_iff] at allowed
      obtain ⟨_, proc, existing, _, alone⟩ := allowed
      obtain ⟨s', returned⟩ := processDestroy_ok inv.table existing alone
      simp only [Sched.call, returned, Result.ok_bind]
      exact ⟨_, rfl⟩
  | threadCreate owner entry new stack =>
      simp only [Sched.allowed, Bool.and_eq_true] at allowed
      have made : ∃ result, Proc.threadNew s owner false new stack = .ok result := threadNew_ok allowed.1.2 allowed.2
      obtain ⟨result, returned⟩ := made
      simp only [Sched.call, threadCreate]
      split
      · exact ⟨_, rfl⟩
      · simp only [returned, Result.ok_bind]
        exact ⟨_, rfl⟩
  | threadCreateUser owner entry new stack =>
      simp only [Sched.allowed, Bool.and_eq_true] at allowed
      have made : ∃ result, Proc.threadNew s owner true new stack = .ok result := threadNew_ok allowed.1.2 allowed.2
      obtain ⟨result, returned⟩ := made
      simp only [Sched.call, threadCreateUser]
      split
      · exact ⟨_, rfl⟩
      · simp only [returned, Result.ok_bind]
        exact ⟨_, rfl⟩
  | processFork new space thread stack =>
      obtain ⟨result, returned⟩ := processFork_ok inv.table allowed
      simp only [Sched.call, returned, Result.ok_bind]
      exact ⟨_, rfl⟩
  | schedSetIdle idle =>
      cases idle with
      | none => exact ⟨_, rfl⟩
      | some t =>
          simp only [Sched.allowed, Bool.and_eq_true, Option.all_some, Option.any_eq_true] at allowed
          obtain ⟨_, _, thread, here, _⟩ := allowed
          have found : Sched.thread (schedRemove s t) t = .ok thread := Sched.thread_ok here
          simp only [Sched.call, Proc.schedSetIdle, found, Result.ok_bind]
          exact ⟨_, rfl⟩
  | schedStart =>
      simp only [Sched.allowed, Bool.and_eq_true, beq_iff_eq] at allowed
      obtain ⟨boot, here, _, _, ready, table⟩ := inv.started allowed.2
      obtain ⟨s', returned⟩ := ready.yield_ok table alive
      have found : Sched.thread { s with enabled := true } .bootstrap = .ok boot := Sched.thread_ok here
      have started : Proc.schedStart s = Proc.schedYield (Proc.started s boot) := by
        simp only [Proc.schedStart, found, Result.ok_bind]
        rfl
      simp only [Sched.call, started, returned, Result.ok_bind]
      exact ⟨_, rfl⟩
  | schedYield =>
      obtain ⟨s', returned⟩ := inv.schedYield_ok alive
      simp only [Sched.call, returned, Result.ok_bind]
      exact ⟨_, rfl⟩
  | schedTick =>
      obtain ⟨s', returned⟩ := inv.schedTick_ok alive
      simp only [Sched.call, returned, Result.ok_bind]
      exact ⟨_, rfl⟩
  | threadExit =>
      simp only [Sched.allowed, Bool.and_eq_true, bne_iff_ne, ne_eq] at allowed
      obtain ⟨⟨runs, notBoot⟩, notIdle⟩ := allowed
      obtain ⟨current, here, awake⟩ := Sched.runs_iff runs
      obtain ⟨s₀, same, exited, table⟩ := threadExit_spec inv.table here awake
      obtain ⟨ready, alive'⟩ := exited.yieldInv inv.run here awake notBoot (Ne.symm notIdle)
      obtain ⟨s', returned⟩ := ready.yield_ok table alive'
      simp only [Sched.call, same, returned, Result.ok_bind]
      exact ⟨_, rfl⟩
  | processWaitpid target =>
      obtain ⟨result, returned⟩ := processWaitpid_ok inv.table target
      simp only [Sched.call, returned, Result.ok_bind]
      exact ⟨_, rfl⟩

end

end DoccrOS.Proc
