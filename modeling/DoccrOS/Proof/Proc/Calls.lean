import DoccrOS.Proof.Proc.Yield

namespace DoccrOS.Proc
open Lib Mem

section
variable {s s' : Sched} {new space thread : Option HeapPtr} {stack isUser : Bool} {owner : Option HeapPtr}

theorem procAlloc_spec {result : Option HeapPtr} (returned : procAlloc s new = .ok (result, s')) :
    (result = none ∧ s' = s) ∨ ∃ p, result = some p ∧ new = some p ∧ s.procs p = none ∧ s' = { s with
      procs := Function.update s.procs p (some ⟨s.nextPid, .alive, 0, none, [], 0, 0⟩)
      nextPid := s.nextPid + 1
      head := p :: s.head } := by
  cases new with
  | none =>
      have both := Prod.mk.inj (Except.ok.inj returned)
      exact Or.inl ⟨both.1.symm, both.2.symm⟩
  | some p =>
      rw [procAlloc] at returned
      split at returned
      · cases returned
      · rename_i fresh
        have both := Prod.mk.inj (Except.ok.inj returned)
        refine Or.inr ⟨p, both.1.symm, rfl, ?_, both.2.symm⟩
        simpa using fresh

theorem processCreate_spec {result : Option HeapPtr} (returned : processCreate s new = .ok (result, s')) :
    (result = none ∧ s' = s) ∨ ∃ p, result = some p ∧ s.procs p = none ∧ s' = { s with
      procs := Function.update s.procs p (some ⟨s.nextPid, .alive, 0, some .kernel, [], 0, 0⟩)
      nextPid := s.nextPid + 1
      head := p :: s.head } := by
  obtain ⟨⟨made, w⟩, allocated, rest⟩ := Result.bind_ok returned
  rcases procAlloc_spec allocated with ⟨isNone, same⟩ | ⟨p, isSome, _, fresh, same⟩
  · subst isNone same
    have both := Prod.mk.inj (Except.ok.inj rest)
    exact Or.inl ⟨both.1.symm, both.2.symm⟩
  · subst isSome same
    simp only [setSpace, Sched.proc, Function.update_self, Result.ok_bind] at rest
    have both := Prod.mk.inj (Except.ok.inj rest)
    refine Or.inr ⟨p, both.1.symm, fresh, ?_⟩
    rw [← both.2]
    simp only [Sched.setProc, Function.update_idem]

/-- A failed creation uses up a process id at most. -/
def OnlyPid (s s' : Sched) : Prop := ∃ nextPid, s.nextPid ≤ nextPid ∧ s' = { s with nextPid := nextPid }

theorem OnlyPid.refl : OnlyPid s s := ⟨s.nextPid, Nat.le_refl _, rfl⟩

theorem newSpace_spec {ptr : HeapPtr} (returned : newSpace s ptr = .ok s') :
    s.spaces ptr = false ∧ s' = { s with spaces := Function.update s.spaces ptr true } := by
  rw [newSpace] at returned
  split at returned
  · cases returned
  · rename_i fresh
    exact ⟨by simpa using fresh, (Except.ok.inj returned).symm⟩

theorem processCreateUser_spec {result : Option HeapPtr} (returned : processCreateUser s new space = .ok (result, s')) :
    (result = none ∧ OnlyPid s s') ∨ ∃ p ptr, result = some p ∧ s.procs p = none ∧ s.spaces ptr = false ∧ s' = { s with
      procs := Function.update s.procs p (some ⟨s.nextPid, .alive, 0, some (.user ptr), [], 0, 0⟩)
      spaces := Function.update s.spaces ptr true
      nextPid := s.nextPid + 1
      head := p :: s.head } := by
  obtain ⟨⟨made, w⟩, allocated, rest⟩ := Result.bind_ok returned
  rcases procAlloc_spec allocated with ⟨isNone, same⟩ | ⟨p, isSome, _, fresh, same⟩
  · subst isNone same
    have both := Prod.mk.inj (Except.ok.inj rest)
    exact Or.inl ⟨both.1.symm, both.2 ▸ OnlyPid.refl⟩
  · subst isSome same
    cases space with
    | none =>
        have both := Prod.mk.inj (Except.ok.inj rest)
        refine Or.inl ⟨both.1.symm, s.nextPid + 1, Nat.le_succ _, ?_⟩
        rw [← both.2]
        simp only [Sched.freeProc, Function.update_idem, List.tail_cons, ← fresh, Function.update_eq_self]
    | some ptr =>
        obtain ⟨w, made, rest⟩ := Result.bind_ok rest
        obtain ⟨unused, isNew⟩ := newSpace_spec made
        subst isNew
        simp only [setSpace, Sched.proc, Function.update_self, Result.ok_bind] at rest
        have both := Prod.mk.inj (Except.ok.inj rest)
        refine Or.inr ⟨p, ptr, both.1.symm, fresh, unused, ?_⟩
        rw [← both.2]
        simp only [Sched.setProc, Function.update_idem]

/-- A new thread with or without an owner. -/
def withThread (s : Sched) (ptr : HeapPtr) (owner : Option HeapPtr) (isUser : Bool) (procs : HeapPtr → Option Process) :
    Sched := { s with
  threads := Function.update s.threads (.heap ptr) (some ⟨s.nextTid, .ready, owner, isUser⟩)
  procs := procs
  readyQ := qPush s.readyQ (.heap ptr)
  nextTid := s.nextTid + 1 }

/-- The process with a new thread. -/
def withNew (proc : Process) (t : ThreadPtr) : Process :=
  { proc with threads := t :: proc.threads, threadCount := proc.threadCount + 1, aliveCount := proc.aliveCount + 1 }

theorem threadNew_spec {result : Option ThreadPtr} (returned : threadNew s owner isUser new stack = .ok (result, s')) :
    (result = none ∧ s' = s) ∨ ∃ ptr, (result = some (.heap ptr) ∧ new = some ptr ∧ stack = true) ∧
      s.threads (.heap ptr) = none ∧
      ((owner = none ∧ s' = withThread s ptr owner isUser s.procs) ∨ ∃ p proc, owner = some p ∧ s.procs p = some proc ∧
        s' = withThread s ptr owner isUser (Function.update s.procs p (some (withNew proc (.heap ptr))))) := by
  cases new with
  | none =>
      have both := Prod.mk.inj (Except.ok.inj returned)
      exact Or.inl ⟨both.1.symm, both.2.symm⟩
  | some ptr =>
      rw [threadNew] at returned
      split at returned
      · cases returned
      · rename_i fresh
        split at returned
        · have both := Prod.mk.inj (Except.ok.inj returned)
          exact Or.inl ⟨both.1.symm, both.2.symm⟩
        · right
          rename_i stacked
          have unused : s.threads (.heap ptr) = none := by simpa using fresh
          have isStack : stack = true := by simpa using stacked
          cases owner with
          | none =>
              simp only [schedAdd, Sched.thread, Sched.setThread, Function.update_self, Result.ok_bind] at returned
              have both := Prod.mk.inj (Except.ok.inj returned)
              refine ⟨ptr, ⟨both.1.symm, rfl, isStack⟩, unused, Or.inl ⟨rfl, ?_⟩⟩
              rw [← both.2]
              simp only [withThread, Function.update_idem]
          | some p =>
              obtain ⟨w, linked, returned⟩ := Result.bind_ok returned
              obtain ⟨proc, found, stored⟩ := Result.bind_ok linked
              have existing : s.procs p = some proc := Sched.procs_of_ok found
              rw [← Except.ok.inj stored] at returned
              simp only [schedAdd, Sched.thread, Sched.setThread, Sched.setProc, Function.update_self,
                Result.ok_bind] at returned
              have both := Prod.mk.inj (Except.ok.inj returned)
              refine ⟨ptr, ⟨both.1.symm, rfl, isStack⟩, unused, Or.inr ⟨p, proc, rfl, existing, ?_⟩⟩
              rw [← both.2]
              simp only [withThread, withNew, Function.update_idem]

/-- The child of a fork before its thread is started. -/
def withChild (s : Sched) (child ptr : HeapPtr) : Sched := { s with
  procs := Function.update s.procs child (some ⟨s.nextPid, .alive, 0, some (.user ptr), [], 0, 0⟩)
  spaces := Function.update s.spaces ptr true
  nextPid := s.nextPid + 1
  head := child :: s.head }

/-- The error branches behind the clone leave no trace of the child. -/
theorem forkUndo_child {child ptr : HeapPtr} {result : Option HeapPtr} (fresh : s.procs child = none)
    (unused : s.spaces ptr = false) (returned : forkUndo (withChild s child ptr) child (some ptr) = .ok (result, s')) :
    result = none ∧ OnlyPid s s' := by
  simp only [forkUndo, vmmSpaceDestroy, withChild, Function.update_self, if_true, Result.ok_bind] at returned
  have both := Prod.mk.inj (Except.ok.inj returned)
  refine ⟨both.1.symm, s.nextPid + 1, Nat.le_succ _, ?_⟩
  rw [← both.2]
  simp only [unlinkProc, Sched.freeProc, Function.update_idem, List.erase_cons_head, ← fresh, ← unused,
    Function.update_eq_self]

theorem processFork_spec {result : Option HeapPtr} (returned : processFork s new space thread stack = .ok (result, s')) :
    (result = none ∧ OnlyPid s s') ∨ ∃ child sp ptr,
      (result = some child ∧ new = some child ∧ space = some sp ∧ thread = some ptr ∧ stack = true) ∧
      s.procs child = none ∧ s.spaces sp = false ∧ s.threads (.heap ptr) = none ∧ s' = withThread (withChild s child sp) ptr (some child) true
        (Function.update s.procs child
          (some (withNew ⟨s.nextPid, .alive, 0, some (.user sp), [], 0, 0⟩ (.heap ptr)))) := by
  obtain ⟨caller, _, returned⟩ := Result.bind_ok returned
  cases isParent : caller.owner with
  | none =>
      rw [isParent] at returned
      have both := Prod.mk.inj (Except.ok.inj returned)
      exact Or.inl ⟨both.1.symm, both.2 ▸ OnlyPid.refl⟩
  | some parent =>
      rw [isParent] at returned
      obtain ⟨_, _, rest⟩ := Result.bind_ok returned
      obtain ⟨⟨made, w⟩, allocated, forked⟩ := Result.bind_ok rest
      rcases procAlloc_spec allocated with ⟨isNone, same⟩ | ⟨child, isSome, isNew, fresh, same⟩
      · subst isNone same
        have both := Prod.mk.inj (Except.ok.inj forked)
        exact Or.inl ⟨both.1.symm, both.2 ▸ OnlyPid.refl⟩
      · subst isSome same
        cases space with
        | none =>
            have both := Prod.mk.inj (Except.ok.inj forked)
            refine Or.inl ⟨both.1.symm, s.nextPid + 1, Nat.le_succ _, ?_⟩
            rw [← both.2]
            simp only [unlinkProc, Sched.freeProc, Function.update_idem, List.erase_cons_head, ← fresh,
              Function.update_eq_self]
        | some sp =>
            obtain ⟨w, made, rest⟩ := Result.bind_ok forked
            obtain ⟨unused, isMade⟩ := newSpace_spec made
            subst isMade
            obtain ⟨w, stored, threaded⟩ := Result.bind_ok rest
            simp only [setSpace, Sched.proc, Function.update_self, Result.ok_bind] at stored
            have isChild : w = withChild s child sp := by
              rw [← Except.ok.inj stored]
              simp only [Sched.setProc, Function.update_idem]
              rfl
            subst isChild
            cases thread with
            | none => exact Or.inl (forkUndo_child fresh unused threaded)
            | some ptr =>
                simp only at threaded
                split at threaded
                · cases threaded
                · rename_i isFresh
                  split at threaded
                  · exact Or.inl (forkUndo_child fresh unused threaded)
                  · rename_i stacked
                    have free : s.threads (.heap ptr) = none := by simpa [withChild] using isFresh
                    have isStack : stack = true := by simpa using stacked
                    simp only [forkThread, linkThread, schedAdd, Sched.thread, Sched.proc, Sched.setThread, Sched.setProc,
                      withChild, Function.update_self, Result.ok_bind, pure_bind] at threaded
                    have both := Prod.mk.inj (Except.ok.inj threaded)
                    refine Or.inr ⟨child, sp, ptr, ⟨both.1.symm, isNew, rfl, rfl, isStack⟩, fresh, unused, free, ?_⟩
                    rw [← both.2]
                    simp only [withThread, withChild, withNew, Function.update_idem]

/-- The search of `process_waitpid` finds the first match of the list. -/
theorem waitpidSearch_spec {target : Nat} {list rest : List HeapPtr} {found : Option (HeapPtr × Process)}
    (returned : waitpidSearch s target list = .ok (found, rest)) :
    (found = none ∧ rest = list ∧ ∀ p ∈ list, ∀ proc, s.procs p = some proc → target ≠ minusOne ∧ target ≠ proc.pid) ∨
      ∃ cur proc, found = some (cur, proc) ∧ cur ∈ list ∧ s.procs cur = some proc ∧
        (target = minusOne ∨ target = proc.pid) ∧ rest = list.erase cur := by
  induction list generalizing found rest with
  | nil =>
      have both := Prod.mk.inj (Except.ok.inj returned)
      exact Or.inl ⟨both.1.symm, both.2.symm, nofun⟩
  | cons cur next ih =>
      rw [waitpidSearch] at returned
      obtain ⟨proc, read, returned⟩ := Result.bind_ok returned
      have existing := s.procs_of_ok read
      by_cases isMatch : target = minusOne ∨ target = proc.pid
      · rw [if_pos isMatch] at returned
        have both := Prod.mk.inj (Except.ok.inj returned)
        refine Or.inr ⟨cur, proc, both.1.symm, List.mem_cons_self, existing, isMatch, ?_⟩
        rw [List.erase_cons_head]
        exact both.2.symm
      · rw [if_neg isMatch] at returned
        obtain ⟨⟨found', rest'⟩, searched, returned⟩ := Result.bind_ok returned
        have both := Prod.mk.inj (Except.ok.inj returned)
        rw [not_or] at isMatch
        rcases ih searched with ⟨isNone, same, others⟩ | ⟨p, other, isSome, member, exists', matches', isRest⟩
        · refine Or.inl ⟨both.1.symm.trans isNone, by rw [← both.2, same], ?_⟩
          intro p member other exists'
          rcases List.mem_cons.mp member with isCur | inNext
          · rw [isCur, existing] at exists'
            rw [← Option.some.inj exists']
            exact isMatch
          · exact others p inNext other exists'
        · have different : cur ≠ p := by
            intro same
            rw [← same, existing] at exists'
            rw [← Option.some.inj exists'] at matches'
            exact matches'.elim isMatch.1 isMatch.2
          refine Or.inr ⟨p, other, both.1.symm.trans isSome, List.mem_cons_of_mem _ member, exists', matches', ?_⟩
          rw [← both.2, isRest, List.erase_cons_tail]
          simpa using different

theorem processWaitpid_spec {target : Nat} {result : Option Int} (returned : processWaitpid s target = .ok (result, s')) :
    (result = none ∧ s' = s ∧
      ∀ p ∈ s.procZombies, ∀ proc, s.procs p = some proc → target ≠ minusOne ∧ target ≠ proc.pid) ∨
    ∃ cur proc spaces, result = some proc.exitCode ∧ cur ∈ s.procZombies ∧ s.procs cur = some proc ∧
      (target = minusOne ∨ target = proc.pid) ∧ (∀ ptr, proc.space ≠ some (.user ptr) → spaces ptr = s.spaces ptr) ∧
      s' = { s with
        procs := Function.update s.procs cur none
        spaces := spaces
        procZombies := s.procZombies.erase cur } := by
  obtain ⟨⟨found, rest⟩, searched, returned⟩ := Result.bind_ok returned
  rcases waitpidSearch_spec searched with ⟨isNone, _, others⟩ | ⟨cur, proc, isSome, member, existing, isMatch, isRest⟩
  · subst isNone
    have both := Prod.mk.inj (Except.ok.inj returned)
    exact Or.inl ⟨both.1.symm, both.2.symm, others⟩
  · subst isSome
    obtain ⟨w, destroyed, returned⟩ := Result.bind_ok returned
    obtain ⟨spaces, isMiddle, kept⟩ := destroySpace_spec destroyed
    have both := Prod.mk.inj (Except.ok.inj returned)
    refine Or.inr ⟨cur, proc, spaces, both.1.symm, member, existing, isMatch, kept, ?_⟩
    rw [← both.2, isMiddle, isRest]
    rfl

/-- `process_destroy` of a process without threads. -/
theorem processDestroy_spec {p : HeapPtr} {proc : Process} (existing : s.procs p = some proc) (alone : proc.threads = [])
    (inside : p ∈ s.head) (returned : processDestroy s p = .ok s') :
    ∃ spaces, (∀ ptr, proc.space ≠ some (.user ptr) → spaces ptr = s.spaces ptr) ∧ s' = { s with
      procs := Function.update s.procs p none
      spaces := spaces
      head := s.head.erase p } := by
  simp only [processDestroy, s.proc_ok existing, alone, destroyThreads, Result.ok_bind] at returned
  obtain ⟨w, destroyed, returned⟩ := Result.bind_ok returned
  obtain ⟨spaces, isMiddle, kept⟩ := destroySpace_spec destroyed
  subst isMiddle
  rw [if_pos inside] at returned
  exact ⟨spaces, kept, (Except.ok.inj returned).symm⟩

end

end DoccrOS.Proc
