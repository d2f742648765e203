import DoccrOS.Construction.Proc.Fork
import DoccrOS.Proof.Mem.UndoneClone
import DoccrOS.Proof.Proc.Calls

namespace DoccrOS.Proc
open Lib Mem

/-- A failed fork adds no process and no thread, and it leaves the regions and the pages of the parent and the records of all
frames as they were. -/
structure ForkUntouched (s s' : System) : Prop where
  sched : OnlyPid s.sched s'.sched
  spaces : s'.kernel.spaces = s.kernel.spaces
  kernelSpace : s'.kernelSpace = s.kernelSpace
  pages : ∀ src, s.parentSpace = some src → ∀ va, UserVa va →
    s'.kernel.machine.findPte src.pml4Phys va = s.kernel.machine.findPte src.pml4Phys va
  frames : ∀ frame, frame < s.kernel.machine.phys.total →
    s'.kernel.machine.phys.pageframes frame = s.kernel.machine.phys.pageframes frame

/-- A fork that gets as far as its region loop clones only regions that were shared before. -/
def ForkHarmless (s : System) (new space : Option HeapPtr) (nodes : Nat → Bool) : Prop :=
  ∀ src, s.parentSpace = some src → new.isSome = true → space.isSome = true →
    (∃ frame, s.kernel.machine.phys.Free frame) →
      AlreadyShared s.kernel.machine src (grantedRegions nodes 0 src.regions)

/-- The memory manager did not change. -/
def System.sameMemory (s s' : System) : Prop := s'.kernel = s.kernel ∧ s'.kernelSpace = s.kernelSpace

/-- How a failed fork ends: without a clone, or with a clone of the parent that was undone. -/
inductive ForkOutcome (s : System) (new space : Option HeapPtr) (nodes : Nat → Bool) (s' : System) : Prop where
  | early (why : s.parentSpace = none ∨ new.isSome = false ∨ space.isSome = false ∨
      ∀ frame, ¬s.kernel.machine.phys.Free frame) (same : s.sameMemory s')
  | undone (src src' : Space) (ptr : SpacePtr) (m' : Machine) (rest : List Region) (isParent : s.parentSpace = some src)
      (found : s.space ptr = some src) (allowed : new.isSome = true ∧ space.isSome = true)
      (room : ∃ frame, s.kernel.machine.phys.Free frame)
      (undone : UndoneClone s.kernel.machine m' src src' (grantedRegions nodes 0 src.regions) rest)
      (same : (s.putSpace m' src' ptr).sameMemory s')

section
variable {s s' : System} {roots : Set Nat} {new space thread : Option HeapPtr} {nodes : Nat → Bool} {stack : Bool}
  {result : Option HeapPtr} {src : Space}

theorem System.cloneSpace_spec {ptr : Option SpacePtr} (returned : s.cloneSpace ptr space nodes = .ok (result, s')) :
    (ptr = none ∧ result = none ∧ s' = s) ∨ ∃ src old clone m record, ptr = some src ∧ s.space src = some old ∧
      s.kernel.isNew space = true ∧ vmmCloneSpace s.kernel.machine old space.isSome nodes = .ok (clone, m, record) ∧
      ((result = none ∧ s' = s.putSpace m record src ∧ (space = none ∨ clone = none)) ∨ ∃ new dst, space = some new ∧
        clone = some dst ∧ result = some new ∧
        s' = { s.putSpace m record src with kernel := (s.putSpace m record src).kernel.put new m (some dst) }) := by
  unfold System.cloneSpace at returned
  cases ptr with
  | none =>
      have both := Prod.mk.inj (Except.ok.inj returned)
      exact Or.inl ⟨rfl, both.1.symm, both.2.symm⟩
  | some src =>
      cases isNew : s.kernel.isNew space with
      | false =>
          simp only [isNew] at returned
          cases returned
      | true =>
          simp only [isNew] at returned
          cases found : s.space src with
          | none =>
              simp only [found] at returned
              cases returned
          | some old =>
              simp only [found] at returned
              obtain ⟨⟨clone, m, record⟩, cloned, rest⟩ := Result.bind_ok returned
              refine Or.inr ⟨src, old, clone, m, record, rfl, found, rfl, cloned, ?_⟩
              cases space with
              | none =>
                  have both := Prod.mk.inj (Except.ok.inj rest)
                  exact Or.inl ⟨both.1.symm, both.2.symm, Or.inl rfl⟩
              | some new =>
                  cases clone with
                  | none =>
                      have both := Prod.mk.inj (Except.ok.inj rest)
                      exact Or.inl ⟨both.1.symm, both.2.symm, Or.inr rfl⟩
                  | some dst =>
                      have both := Prod.mk.inj (Except.ok.inj rest)
                      exact Or.inr ⟨new, dst, rfl, rfl, both.1.symm, both.2.symm⟩

theorem System.putSpace_sched (m : Machine) (record : Space) (ptr : SpacePtr) : (s.putSpace m record ptr).sched = s.sched := by
  cases ptr <;> rfl

theorem System.cloneSpace_sched {ptr : Option SpacePtr} (returned : s.cloneSpace ptr space nodes = .ok (result, s')) :
    s'.sched = s.sched := by
  rcases System.cloneSpace_spec returned with ⟨_, _, rfl⟩ | ⟨src, _, _, m, record, _, _, _, _, ⟨_, rfl, _⟩ | ⟨_, _, _, _, _, rfl⟩⟩
  · rfl
  · exact System.putSpace_sched m record src
  · exact System.putSpace_sched m record src

theorem System.forkUndo_spec {child : HeapPtr} (returned : s.forkUndo child space = .ok (result, s')) :
    Proc.forkUndo s.sched child space = .ok (result, s'.sched) ∧ s'.kernelSpace = s.kernelSpace ∧
      (space = none → s'.kernel = s.kernel) ∧ ∀ ptr, space = some ptr → s.kernel.step (.destroy ptr) = .ok s'.kernel := by
  cases space with
  | none =>
      have both := Prod.mk.inj (Except.ok.inj returned)
      rw [← both.1, ← both.2]
      exact ⟨rfl, rfl, fun _ => rfl, nofun⟩
  | some ptr =>
      obtain ⟨kernel, destroyed, rest⟩ := Result.bind_ok returned
      obtain ⟨⟨outcome, sched⟩, undone, last⟩ := Result.bind_ok rest
      have both := Prod.mk.inj (Except.ok.inj last)
      rw [undone, ← both.1, ← both.2]
      refine ⟨rfl, rfl, nofun, ?_⟩
      intro other same
      obtain rfl := Option.some.inj same
      exact destroyed

/-- The process manager sees the fork of a process whose clone succeeded or failed. -/
theorem System.processFork_sched (returned : s.processFork new space thread nodes stack = .ok (result, s')) :
    ∃ clone, Proc.processFork s.sched new clone thread stack = .ok (result, s'.sched) := by
  obtain ⟨caller, isCaller, returned⟩ := Result.bind_ok returned
  cases owner : caller.owner with
  | none =>
      rw [owner] at returned
      have both := Prod.mk.inj (Except.ok.inj returned)
      refine ⟨none, ?_⟩
      simp only [Proc.processFork, isCaller, owner, Result.ok_bind, ← both.1, ← both.2]
      rfl
  | some parent =>
      rw [owner] at returned
      obtain ⟨proc, isProc, rest⟩ := Result.bind_ok returned
      obtain ⟨⟨made, sched⟩, allocated, forked⟩ := Result.bind_ok rest
      cases made with
      | none =>
          have both := Prod.mk.inj (Except.ok.inj forked)
          refine ⟨none, ?_⟩
          simp only [Proc.processFork, isCaller, owner, isProc, allocated, Result.ok_bind, ← both.1, ← both.2]
          rfl
      | some child =>
          obtain ⟨⟨clone, s₁⟩, cloned, forked⟩ := Result.bind_ok forked
          have sameSched : s₁.sched = sched := System.cloneSpace_sched cloned
          refine ⟨clone, ?_⟩
          simp only [Proc.processFork, isCaller, owner, isProc, allocated, Result.ok_bind]
          cases clone with
          | none =>
              rw [← sameSched]
              exact (System.forkUndo_spec forked).1
          | some ptr =>
              obtain ⟨sched₁, made, forked⟩ := Result.bind_ok forked
              obtain ⟨sched₂, stored, forked⟩ := Result.bind_ok forked
              rw [sameSched] at made
              simp only [made, stored, Result.ok_bind]
              cases thread with
              | none => exact (System.forkUndo_spec forked).1
              | some thread =>
                  simp only at forked ⊢
                  split at forked
                  · cases forked
                  · rename_i free
                    rw [if_neg free]
                    split at forked
                    · rename_i failed
                      rw [if_pos failed]
                      exact (System.forkUndo_spec forked).1
                    · rename_i granted
                      rw [if_neg granted]
                      obtain ⟨⟨outcome, sched₃⟩, started, last⟩ := Result.bind_ok forked
                      have both := Prod.mk.inj (Except.ok.inj last)
                      rw [started, ← both.1, ← both.2]

/-- A store of the record that a space has changes nothing. -/
theorem System.putSpace_self {ptr : SpacePtr} (found : s.space ptr = some src) : s.putSpace s.kernel.machine src ptr = s := by
  cases ptr with
  | kernel =>
      obtain rfl := Option.some.inj found
      rfl
  | user ptr =>
      have same : Function.update s.kernel.spaces ptr (some src) = s.kernel.spaces := by
        rw [← found]
        exact Function.update_eq_self ptr s.kernel.spaces
      rw [putSpace, Kernel.put, same]

/-- The records behind a store differ only at the pointer. -/
theorem System.putSpace_new {ptr : SpacePtr} {new : HeapPtr} {m : Machine} {record : Space} (found : s.space ptr = some src)
    (isNew : s.kernel.isNew (some new) = true) : (s.putSpace m record ptr).kernel.spaces new = none := by
  have fresh : s.kernel.spaces new = none := by simpa [Kernel.isNew] using isNew
  cases ptr with
  | kernel => exact fresh
  | user ptr =>
      have different : new ≠ ptr := by
        rintro rfl
        exact absurd (fresh.symm.trans found) (by rintro ⟨⟩)
      exact (Function.update_of_ne different _ _).trans fresh

/-- The destruction of a new space takes its record away again. -/
theorem System.destroy_new {ptr : SpacePtr} {new : HeapPtr} {m : Machine} {record dst : Space} {kernel : Kernel}
    (found : s.space ptr = some src) (isNew : s.kernel.isNew (some new) = true)
    (destroyed : ((s.putSpace m record ptr).kernel.put new m (some dst)).step (.destroy new) = .ok kernel) :
    ∃ last, Mem.vmmSpaceDestroy m dst = .ok last ∧ kernel = (s.putSpace last record ptr).kernel := by
  have live : ((s.putSpace m record ptr).kernel.put new m (some dst)).spaces new = some dst := Function.update_self ..
  simp only [Kernel.step, Kernel.onSpace, live] at destroyed
  obtain ⟨last, returned, same⟩ := Result.bind_ok destroyed
  refine ⟨last, returned, ?_⟩
  have gone : (s.putSpace m record ptr).kernel.spaces new = none := System.putSpace_new found isNew
  rw [← Except.ok.inj same, Kernel.put, Kernel.put]
  simp only [Function.update_idem, ← gone, Function.update_eq_self]
  cases ptr <;> rfl

theorem System.parentSpace_eq {caller : Thread} {parent : HeapPtr} {proc : Process}
    (isCaller : s.sched.thread s.sched.current = .ok caller) (owner : caller.owner = some parent)
    (isProc : s.sched.proc parent = .ok proc) : s.parentSpace = proc.space.bind s.space := by
  have thread : s.sched.threads s.sched.current = some caller := Sched.threads_of_ok isCaller
  have process : s.sched.procs parent = some proc := Sched.procs_of_ok isProc
  simp only [parentSpace, thread, owner, process, Option.bind_eq_bind, Option.bind_some]

/-- The memory behind the branches that give up. -/
theorem ForkOutcome.given {sched : Sched} {s₁ s₂ : System} {ptr : Option SpacePtr} {clone : Option HeapPtr} {child : HeapPtr}
    (source : ∀ src, s.parentSpace = some src → CountedSource s.kernel.machine roots src)
    (parent : s.parentSpace = ptr.bind s.space) (isNew : new.isSome = true)
    (cloned : System.cloneSpace { s with sched := sched } ptr space nodes = .ok (clone, s₁))
    (sameKernel : s₂.kernel = s₁.kernel) (sameSpace : s₂.kernelSpace = s₁.kernelSpace)
    (undone : s₂.forkUndo child clone = .ok (result, s')) : ForkOutcome s new space nodes s' := by
  obtain ⟨_, sameSpace', stays, destroys⟩ := System.forkUndo_spec undone
  rw [sameSpace] at sameSpace'
  rw [sameKernel] at stays destroys
  rcases System.cloneSpace_spec cloned with ⟨rfl, rfl, rfl⟩ | ⟨p, old, result, m, record, rfl, found, fresh, copied, rest⟩
  · exact .early (Or.inl parent) ⟨stays rfl, sameSpace'⟩
  · have isParent : s.parentSpace = some old := parent.trans found
    have outcome := vmmCloneSpace_outcome (source old isParent) copied
    have memory (m : Machine) (record : Space) : (s.putSpace m record p).sameMemory
        (System.putSpace { s with sched := sched } m record p) := by
      cases p <;> exact ⟨rfl, rfl⟩
    rcases rest with ⟨rfl, rfl, failed⟩ | ⟨fork, dst, rfl, rfl, rfl, rfl⟩
    · cases outcome with
      | refused why =>
          have self : System.putSpace { s with sched := sched } s.kernel.machine old p = { s with sched := sched } :=
            System.putSpace_self found
          rw [self] at stays sameSpace'
          exact .early (Or.inr (Or.inr why)) ⟨stays rfl, sameSpace'⟩
      | failed _ _ rest allowed room undone =>
          have same := memory m record
          exact .undone old record p m rest isParent found ⟨isNew, allowed⟩ room undone
            ⟨(stays rfl).trans same.1, sameSpace'.trans same.2⟩
      | done dst _ _ allowed room undone =>
          rcases failed with none | none
          · rw [none] at allowed
            cases allowed
          · cases none
    · cases outcome with
      | done _ _ _ allowed room undone =>
          obtain ⟨last, returned, kernel⟩ := System.destroy_new found fresh (destroys fork rfl)
          have same := memory last record
          have sameRecord : (System.putSpace { s with sched := sched } m record p).kernelSpace =
              (System.putSpace { s with sched := sched } last record p).kernelSpace := by
            cases p <;> rfl
          exact .undone old record p last [] isParent found ⟨isNew, allowed⟩ room (undone last returned)
            ⟨kernel.trans same.1, (sameSpace'.trans sameRecord).trans same.2⟩

theorem System.processFork_outcome (source : ∀ src, s.parentSpace = some src → CountedSource s.kernel.machine roots src)
    (returned : s.processFork new space thread nodes stack = .ok (none, s')) : ForkOutcome s new space nodes s' := by
  obtain ⟨caller, isCaller, returned⟩ := Result.bind_ok returned
  cases owner : caller.owner with
  | none =>
      rw [owner] at returned
      have both := Prod.mk.inj (Except.ok.inj returned)
      refine .early (Or.inl ?_) ⟨by rw [← both.2], by rw [← both.2]⟩
      simp only [parentSpace, Sched.threads_of_ok isCaller, owner, Option.bind_eq_bind, Option.bind_some, Option.bind_none]
  | some parent =>
      rw [owner] at returned
      obtain ⟨proc, isProc, rest⟩ := Result.bind_ok returned
      have isParent := System.parentSpace_eq isCaller owner isProc
      obtain ⟨⟨made, sched⟩, allocated, forked⟩ := Result.bind_ok rest
      cases made with
      | none =>
          have both := Prod.mk.inj (Except.ok.inj forked)
          refine .early (Or.inr (Or.inl ?_)) ⟨by rw [← both.2], by rw [← both.2]⟩
          cases new with
          | none => rfl
          | some p =>
              rw [procAlloc] at allocated
              split at allocated
              · cases allocated
              · cases allocated
      | some child =>
          have isNew : new.isSome = true := by
            rcases procAlloc_spec allocated with ⟨isNone, _⟩ | ⟨p, _, isSome, _⟩
            · cases isNone
            · rw [isSome]
              rfl
          obtain ⟨⟨clone, s₁⟩, cloned, forked⟩ := Result.bind_ok forked
          cases clone with
          | none => exact .given source isParent isNew cloned rfl rfl forked
          | some ptr =>
              obtain ⟨sched₁, made, forked⟩ := Result.bind_ok forked
              obtain ⟨sched₂, stored, forked⟩ := Result.bind_ok forked
              cases thread with
              | none => exact .given source isParent isNew cloned (by exact rfl) (by exact rfl) forked
              | some thread =>
                  simp only at forked
                  split at forked
                  · cases forked
                  · split at forked
                    · exact .given source isParent isNew cloned (by exact rfl) (by exact rfl) forked
                    · obtain ⟨⟨outcome, sched₃⟩, started, last⟩ := Result.bind_ok forked
                      have both := Prod.mk.inj (Except.ok.inj last)
                      exfalso
                      obtain ⟨sched₄, _, started⟩ := Result.bind_ok started
                      obtain ⟨sched₅, _, started⟩ := Result.bind_ok started
                      have isSome := (Prod.mk.inj (Except.ok.inj started)).1
                      rw [show outcome = none from both.1] at isSome
                      cases isSome

/-- A store leaves the records alone exactly when it stores the record that the space has. -/
theorem System.putSpace_iff {ptr : SpacePtr} {m : Machine} {record : Space} (found : s.space ptr = some src)
    (same : (s.putSpace m record ptr).sameMemory s') :
    s'.kernel.spaces = s.kernel.spaces ∧ s'.kernelSpace = s.kernelSpace ↔ record = src := by
  rw [same.1, same.2]
  cases ptr with
  | kernel =>
      obtain rfl := Option.some.inj found
      exact ⟨fun both => both.2, fun same => ⟨rfl, same⟩⟩
  | user ptr =>
      constructor
      · intro both
        have stored := congrFun both.1 ptr
        have written : (s.putSpace m record (.user ptr)).kernel.spaces ptr = some record := Function.update_self ..
        rw [written, show s.kernel.spaces ptr = some src from found] at stored
        exact Option.some.inj stored
      · rintro rfl
        have self := congrArg (fun s => s.kernel.spaces) (System.putSpace_self found)
        exact ⟨self, rfl⟩

/-- A failed fork leaves the parent untouched exactly when it clones only regions that were shared before. -/
theorem failed_fork (source : ∀ src, s.parentSpace = some src → CountedSource s.kernel.machine roots src)
    (returned : s.processFork new space thread nodes stack = .ok (none, s')) :
    ForkUntouched s s' ↔ ForkHarmless s new space nodes := by
  obtain ⟨clone, forked⟩ := System.processFork_sched returned
  have sched : OnlyPid s.sched s'.sched := by
    rcases processFork_spec forked with ⟨_, only⟩ | ⟨_, _, _, ⟨isSome, _⟩, _⟩
    · exact only
    · cases isSome
  cases System.processFork_outcome source returned with
  | early why same =>
      obtain ⟨sameKernel, sameSpace⟩ := same
      constructor
      · intro _ src isParent isNew isSpace room
        exfalso
        rcases why with none | none | none | none
        · rw [none] at isParent
          cases isParent
        · rw [none] at isNew
          cases isNew
        · rw [none] at isSpace
          cases isSpace
        · obtain ⟨frame, free⟩ := room
          exact none frame free
      · intro _
        exact ⟨sched, by rw [sameKernel], sameSpace, fun _ _ _ _ => by rw [sameKernel], fun _ _ => by rw [sameKernel]⟩
  | undone src src' ptr m' rest isParent found allowed room undone same =>
      have untouched := undone.untouched_iff (source src isParent)
      have machine : s'.kernel.machine = m' := by
        rw [same.1]
        cases ptr <;> rfl
      constructor
      · intro kept other isOther _ _ _
        obtain rfl : src = other := Option.some.inj (isParent.symm.trans isOther)
        refine untouched.mp ⟨?_, ?_, ?_⟩
        · exact (System.putSpace_iff found same).mp ⟨kept.spaces, kept.kernelSpace⟩
        · rw [← machine]
          exact kept.pages src isParent
        · rw [← machine]
          exact kept.frames
      · intro harmless
        obtain ⟨rfl, pages, frames⟩ := untouched.mpr (harmless src isParent allowed.1 allowed.2 room)
        obtain ⟨spaces, kernelSpace⟩ := (System.putSpace_iff found same).mpr rfl
        refine ⟨sched, spaces, kernelSpace, ?_, ?_⟩
        · intro other isOther
          obtain rfl : src' = other := Option.some.inj (isParent.symm.trans isOther)
          rw [machine]
          exact pages
        · rw [machine]
          exact frames

end

/-- A process with one thread, whose space is given. -/
def smallParent (m : Machine) (space : Space) : System where
  sched := { schedBoot with
    threads := Function.update schedBoot.threads (.heap (heapPtr 2)) (some ⟨1, .running, some (heapPtr 1), true⟩)
    procs := fun p => if p = heapPtr 1 then some ⟨1, .alive, 0, some (.user (heapPtr 0)), [.heap (heapPtr 2)], 1, 1⟩ else none
    spaces := fun p => decide (p = heapPtr 0)
    current := .heap (heapPtr 2)
    head := [heapPtr 1]
    nextPid := 2
    nextTid := 2 }
  kernel := ⟨m, fun p => if p = heapPtr 0 then some space else none⟩
  kernelSpace := ⟨m.kernelPml4, [], 0, 0⟩

theorem smallParent_space (m : Machine) (space : Space) : (smallParent m space).parentSpace = some space := rfl

/-- A space with two data pages in one region. -/
def smallOwner : Space := ⟨0x2000, [⟨0x400000, 0x2000, 0x35⟩], 1, 0x2000⟩

theorem smallSource : ∃ m,
    vmmSpaceAlloc smallSpace.2 ⟨0x2000, [], 0, 0⟩ 0x400000 2 0x34 true = .ok (0x400000, m, smallOwner) ∧
      CountedSource m {0x2000} smallOwner := by
  have succeeds : ((vmmSpaceAlloc smallSpace.2 ⟨0x2000, [], 0, 0⟩ 0x400000 2 0x34 true).map Prod.fst).toOption =
      some 0x400000 := by decide +kernel
  obtain ⟨⟨value, m, taken⟩, allocated, rfl⟩ := exists_of_toOption succeeds
  have range : UserRange (pageAlignDown 0x400000) 2 := ⟨by decide, by decide⟩
  obtain ⟨rfl, frames, filled⟩ :=
    (vmmSpaceAlloc_spec smallSpace_wellFormed.tables (Set.mem_singleton 0x2000) range allocated).filled (by decide)
  exact ⟨m, allocated, filled.counted rfl range (by decide) smallSpace_wellFormed.resets⟩

/-- A fork whose first region node fails is harmless. -/
theorem failed_fork_first : ∃ m src s', (smallParent m src).processFork (some (heapPtr 3)) (some (heapPtr 4)) none
    (fun _ => false) true = .ok (none, s') ∧ ForkUntouched (smallParent m src) s' := by
  have checked : ((vmmSpaceAlloc smallSpace.2 ⟨0x2000, [], 0, 0⟩ 0x400000 2 0x34 true).bind fun taken =>
      ((smallParent taken.2.1 taken.2.2).processFork (some (heapPtr 3)) (some (heapPtr 4)) none (fun _ => false) true).map
        fun forked => forked.1.isNone).toOption = some true := by decide +kernel
  obtain ⟨m, allocated, source⟩ := smallSource
  rw [allocated] at checked
  obtain ⟨⟨child, s'⟩, returned, isNone⟩ := exists_of_toOption checked
  obtain rfl : child = none := by simpa using isNone
  have sources : ∀ src, (smallParent m smallOwner).parentSpace = some src → CountedSource m {0x2000} src := by
    intro src isParent
    obtain rfl := Option.some.inj ((smallParent_space m smallOwner).symm.trans isParent)
    exact source
  refine ⟨m, _, s', returned, (failed_fork sources returned).mpr ?_⟩
  intro src isParent _ _ _
  obtain rfl := Option.some.inj ((smallParent_space m smallOwner).symm.trans isParent)
  exact ⟨(by rintro _ ⟨⟩), (by rintro _ ⟨⟩), fun _ _ some => absurd rfl some⟩

/-- A fork whose thread fails leaves the region of the parent copy-on-write and read-only. -/
theorem failed_fork_changes : ∃ m src s', CountedSource m {0x2000} src ∧ (smallParent m src).processFork (some (heapPtr 3))
    (some (heapPtr 4)) none (fun _ => true) true = .ok (none, s') ∧ ¬ForkUntouched (smallParent m src) s' := by
  have checked : ((vmmSpaceAlloc smallSpace.2 ⟨0x2000, [], 0, 0⟩ 0x400000 2 0x34 true).bind fun taken =>
      ((smallParent taken.2.1 taken.2.2).processFork (some (heapPtr 3)) (some (heapPtr 4)) none (fun _ => true) true).map
        fun forked => forked.1.isNone && (forked.2.kernel.spaces (heapPtr 0)).any fun space =>
          space.regions.map Region.flags == [0x115]).toOption = some true := by decide +kernel
  obtain ⟨m, allocated, source⟩ := smallSource
  rw [allocated] at checked
  obtain ⟨⟨child, s'⟩, returned, both⟩ := exists_of_toOption checked
  obtain ⟨isNone, changed⟩ := Bool.and_eq_true_iff.mp both
  obtain rfl : child = none := by simpa using isNone
  refine ⟨m, _, s', source, returned, ?_⟩
  intro untouched
  rw [untouched.spaces] at changed
  have same : ([0x35] : List (BitVec 32)) == [0x115] := changed
  exact absurd same (by decide)

end DoccrOS.Proc
