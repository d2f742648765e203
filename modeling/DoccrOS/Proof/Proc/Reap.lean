import DoccrOS.Proof.Proc.Queue
import DoccrOS.Proof.Proc.Table

namespace DoccrOS.Proc
open Lib Mem

/-- The process without one of its threads. -/
def dropFrom (proc : Process) (t : ThreadPtr) : Process :=
  if t ∈ proc.threads then { proc with threads := proc.threads.erase t, threadCount := proc.threadCount - 1 } else proc

/-- The process without some of its threads. -/
def dropAll (proc : Process) (list : List ThreadPtr) : Process := list.foldl dropFrom proc

section
variable {strict : Prop} {s s' : Sched} {t : ThreadPtr} {p : HeapPtr} {proc : Process} {thread : Thread}
  {queue list : List ThreadPtr}

theorem Sched.thread_ok (here : s.threads t = some thread) : s.thread t = .ok thread := by rw [Sched.thread, here]

theorem Sched.proc_ok (here : s.procs p = some proc) : s.proc p = .ok proc := by rw [Sched.proc, here]

theorem Sched.threads_of_ok (returned : s.thread t = .ok thread) : s.threads t = some thread := by
  unfold Sched.thread at returned
  split at returned
  · cases returned
  · rename_i found
    rw [found, Except.ok.inj returned]

theorem Sched.procs_of_ok (returned : s.proc p = .ok proc) : s.procs p = some proc := by
  unfold Sched.proc at returned
  split at returned
  · cases returned
  · rename_i found
    rw [found, Except.ok.inj returned]

theorem ownersOf_some {threads : ThreadPtr → Option Thread} (here : threads t = some thread) :
    ownersOf threads t = some (thread.owner, thread.state != .dead) := by
  rw [ownersOf, here]
  rfl

theorem ownersOf_update (threads : ThreadPtr → Option Thread) (entry : Option Thread) :
    ownersOf (Function.update threads t entry) =
      Function.update (ownersOf threads) t (entry.map fun thread => (thread.owner, thread.state != .dead)) := by
  funext u
  rw [ownersOf, Function.update_apply, Function.update_apply]
  split <;> rfl

@[simp] theorem dropFrom_pid : (dropFrom proc t).pid = proc.pid := by unfold dropFrom; split <;> rfl
@[simp] theorem dropFrom_state : (dropFrom proc t).state = proc.state := by unfold dropFrom; split <;> rfl
@[simp] theorem dropFrom_exitCode : (dropFrom proc t).exitCode = proc.exitCode := by unfold dropFrom; split <;> rfl
@[simp] theorem dropFrom_space : (dropFrom proc t).space = proc.space := by unfold dropFrom; split <;> rfl

@[simp] theorem dropFrom_aliveCount : (dropFrom proc t).aliveCount = proc.aliveCount := by unfold dropFrom; split <;> rfl

theorem dropFrom_threads : (dropFrom proc t).threads = proc.threads.erase t := by
  unfold dropFrom
  split
  · rfl
  · rename_i outside
    rw [List.erase_of_not_mem outside]

theorem dropAll_fields : (dropAll proc list).pid = proc.pid ∧ (dropAll proc list).state = proc.state ∧
    (dropAll proc list).exitCode = proc.exitCode ∧ (dropAll proc list).space = proc.space := by
  induction list generalizing proc with
  | nil => exact ⟨rfl, rfl, rfl, rfl⟩
  | cons t list ih =>
      obtain ⟨pid, state, exitCode, space⟩ := @ih (dropFrom proc t)
      rw [dropFrom_pid] at pid
      rw [dropFrom_state] at state
      rw [dropFrom_exitCode] at exitCode
      rw [dropFrom_space] at space
      exact ⟨pid, state, exitCode, space⟩

theorem dropAll_aliveCount : (dropAll proc list).aliveCount = proc.aliveCount := by
  induction list generalizing proc with
  | nil => rfl
  | cons t list ih => exact (@ih (dropFrom proc t)).trans dropFrom_aliveCount

theorem dropAll_threads : (dropAll proc list).threads = proc.threads.diff list := by
  induction list generalizing proc with
  | nil => rfl
  | cons t list ih =>
      rw [List.diff_cons, ← dropFrom_threads]
      exact ih

/-- A destroyed thread leaves the list of its owner. -/
theorem threadDestroy_spec (inv : TableInv strict s.table) (holds : QueueHolds s.readyQ queue) (outside : t ∉ queue)
    (here : s.threads t = some thread) (dead : thread.state = .dead) (notBoot : t ≠ .bootstrap)
    (returned : threadDestroy s t = .ok s') :
    s' = { s with
      threads := Function.update s.threads t none
      procs := fun p => (s.procs p).map (dropFrom · t) } ∧ TableInv strict s'.table := by
  have isOwner : s.table.owners t = some (thread.owner, false) := by
    refine (ownersOf_some here).trans ?_
    rw [dead]
    rfl
  have freed (s : Sched) : s.freeThread t = { s with threads := Function.update s.threads t none } := by
    cases t with
    | bootstrap => exact absurd rfl notBoot
    | heap ptr => rfl
  have unlisted (q : HeapPtr) (other : Process) (existing : s.procs q = some other) (different : thread.owner ≠ some q) :
      dropFrom other t = other := if_neg (inv.notListed isOwner existing different)
  rw [threadDestroy, schedRemove, holds.remove_of_notMem outside] at returned
  simp only [s.thread_ok here, Result.ok_bind, freed] at returned
  cases owner : thread.owner with
  | none =>
      rw [owner] at returned isOwner unlisted
      have isState := (Except.ok.inj returned).symm
      have sameProcs : (fun p => (s.procs p).map (dropFrom · t)) = s.procs := by
        funext q
        cases existing : s.procs q with
        | none => rfl
        | some other => rw [Option.map_some, unlisted q other existing nofun]
      refine ⟨by rw [sameProcs]; exact isState, ?_⟩
      rw [isState, Sched.table, ownersOf_update]
      refine inv.setOrphan ?_ nofun
      intro q other existing
      exact inv.notListed isOwner existing nofun
  | some p =>
      rw [owner] at returned isOwner unlisted
      obtain ⟨w, unlinked, freed⟩ := Result.bind_ok returned
      have isState := (Except.ok.inj freed).symm
      rw [unlinkThread] at unlinked
      obtain ⟨proc, found, rest⟩ := Result.bind_ok unlinked
      have existing := s.procs_of_ok found
      have sameProcs : (fun p => (s.procs p).map (dropFrom · t)) = Function.update s.procs p (some (dropFrom proc t)) := by
        funext q
        rw [Function.update_apply]
        split
        · rename_i same
          rw [same, existing, Option.map_some]
        · rename_i different
          cases existing' : s.procs q with
          | none => rfl
          | some other =>
              rw [Option.map_some, unlisted q other existing' fun same => different (Option.some.inj same).symm]
      rw [sameProcs]
      by_cases member : t ∈ proc.threads
      · rw [if_pos member] at rest
        rw [← Except.ok.inj rest] at isState
        rw [dropFrom, if_pos member]
        refine ⟨isState, ?_⟩
        rw [isState, Sched.table, ownersOf_update]
        exact inv.unlinkThread isOwner existing member
      · rw [if_neg member] at rest
        rw [← Except.ok.inj rest] at isState
        rw [dropFrom, if_neg member, ← existing, Function.update_eq_self]
        refine ⟨isState, ?_⟩
        rw [isState, Sched.table, ownersOf_update]
        refine inv.setOrphan ?_ nofun
        intro q other existing'
        by_cases same : q = p
        · rw [same] at existing'
          rw [Option.some.inj (existing'.symm.trans existing)]
          exact member
        · exact inv.notListed isOwner existing' fun isHere => same (Option.some.inj isHere).symm

/-- A dead thread can be destroyed if its owner exists. -/
theorem threadDestroy_ok (holds : QueueHolds s.readyQ queue) (outside : t ∉ queue) (here : s.threads t = some thread)
    (owned : ∀ p, thread.owner = some p → ∃ proc, s.procs p = some proc) : ∃ s', threadDestroy s t = .ok s' := by
  rw [threadDestroy, schedRemove, holds.remove_of_notMem outside]
  simp only [s.thread_ok here, Result.ok_bind]
  cases owner : thread.owner with
  | none => exact ⟨_, rfl⟩
  | some p =>
      obtain ⟨proc, existing⟩ := owned p owner
      simp only [unlinkThread, s.proc_ok existing, Result.ok_bind]
      split <;> exact ⟨_, rfl⟩

/-- `reap_zombies` destroys the threads of a list and takes them out of the lists of their owners. -/
theorem reapThreads_spec (inv : TableInv strict s.table) (holds : QueueHolds s.readyQ queue) (nodup : list.Nodup)
    (zombie : ∀ z ∈ list, z ∉ queue ∧ z ≠ .bootstrap ∧ ∃ thread, s.threads z = some thread ∧ thread.state = .dead)
    (returned : reapThreads s list = .ok s') :
    s' = { s with
      threads := fun t => if t ∈ list then none else s.threads t
      procs := fun p => (s.procs p).map (dropAll · list)
      zombies := if list = [] then s.zombies else [] } ∧ TableInv strict s'.table := by
  induction list generalizing s with
  | nil =>
      rw [← Except.ok.inj returned]
      refine ⟨?_, inv⟩
      simp [dropAll]
  | cons z list ih =>
      obtain ⟨outside, notBoot, thread, here, dead⟩ := zombie z List.mem_cons_self
      obtain ⟨notIn, nodup⟩ := List.nodup_cons.mp nodup
      rw [reapThreads] at returned
      obtain ⟨w, destroyed, rest⟩ := Result.bind_ok returned
      obtain ⟨isMiddle, inv'⟩ := threadDestroy_spec (s := { s with zombies := list }) inv holds outside here dead notBoot
        destroyed
      have zombie' : ∀ u ∈ list, u ∉ queue ∧ u ≠ .bootstrap ∧ ∃ thread, w.threads u = some thread ∧ thread.state = .dead := by
        intro u member
        obtain ⟨outside', notBoot', other, here', dead'⟩ := zombie u (List.mem_cons_of_mem _ member)
        refine ⟨outside', notBoot', other, ?_, dead'⟩
        rw [isMiddle]
        simp only
        rw [Function.update_of_ne, here']
        intro same
        exact notIn (same ▸ member)
      obtain ⟨isFinal, inv''⟩ := ih inv' (by rw [isMiddle]; exact holds) nodup zombie' rest
      refine ⟨?_, inv''⟩
      rw [isFinal, isMiddle]
      simp only [Option.map_map, Sched.mk.injEq, true_and, and_true]
      refine ⟨?_, ?_, ?_⟩
      · funext t
        by_cases member : t ∈ list
        · rw [if_pos member, if_pos (List.mem_cons_of_mem _ member)]
        · rw [if_neg member, Function.update_apply]
          simp [member]
      · funext p
        rfl
      · split <;> simp_all

/-- The threads of a list can be destroyed if their owners exist. -/
theorem reapThreads_ok (inv : TableInv True s.table) (holds : QueueHolds s.readyQ queue) (nodup : list.Nodup)
    (zombie : ∀ z ∈ list, z ∉ queue ∧ z ≠ .bootstrap ∧ ∃ thread, s.threads z = some thread ∧ thread.state = .dead) :
    ∃ s', reapThreads s list = .ok s' := by
  induction list generalizing s with
  | nil => exact ⟨s, rfl⟩
  | cons z list ih =>
      obtain ⟨outside, notBoot, thread, here, dead⟩ := zombie z List.mem_cons_self
      obtain ⟨notIn, nodup⟩ := List.nodup_cons.mp nodup
      have owned : ∀ p, thread.owner = some p → ∃ proc, s.procs p = some proc := by
        intro p isOwner
        obtain ⟨proc, existing, _⟩ := inv.owned z p _ ((ownersOf_some here).trans (by rw [isOwner])) (Or.inl trivial)
        exact ⟨proc, existing⟩
      obtain ⟨w, destroyed⟩ := threadDestroy_ok (s := { s with zombies := list }) holds outside here owned
      obtain ⟨isMiddle, inv'⟩ := threadDestroy_spec (s := { s with zombies := list }) inv holds outside here dead notBoot
        destroyed
      rw [reapThreads, destroyed, Result.ok_bind]
      refine ih inv' (by rw [isMiddle]; exact holds) nodup ?_
      intro u member
      obtain ⟨outside', notBoot', other, here', dead'⟩ := zombie u (List.mem_cons_of_mem _ member)
      refine ⟨outside', notBoot', other, ?_, dead'⟩
      rw [isMiddle]
      simp only
      rw [Function.update_of_ne, here']
      intro same
      exact notIn (same ▸ member)

theorem destroySpace_spec {space : Option SpacePtr} (returned : destroySpace s space = .ok s') :
    ∃ spaces, s' = { s with spaces := spaces } ∧ ∀ ptr, space ≠ some (.user ptr) → spaces ptr = s.spaces ptr := by
  unfold destroySpace at returned
  split at returned
  · exact ⟨s.spaces, (Except.ok.inj returned).symm, fun _ _ => rfl⟩
  · exact ⟨s.spaces, (Except.ok.inj returned).symm, fun _ _ => rfl⟩
  · rename_i ptr
    rw [vmmSpaceDestroy] at returned
    split at returned
    · refine ⟨_, (Except.ok.inj returned).symm, ?_⟩
      intro other different
      rw [Function.update_of_ne]
      intro same
      rw [same] at different
      exact different rfl
    · cases returned

theorem destroySpace_ok {space : Option SpacePtr} (live : ∀ ptr, space = some (.user ptr) → s.spaces ptr = true) :
    ∃ s', destroySpace s space = .ok s' := by
  unfold destroySpace
  split
  · exact ⟨_, rfl⟩
  · exact ⟨_, rfl⟩
  · rename_i ptr
    rw [vmmSpaceDestroy, if_pos (live ptr rfl)]
    exact ⟨_, rfl⟩

/-- The test of `process_reap_zombies` for a process without threads. -/
def spent (procs : HeapPtr → Option Process) (p : HeapPtr) : Bool := (procs p).any fun proc => proc.threadCount == 0

/-- A zombie process is not in the list of the processes that are alive. -/
theorem TableInv.zombie_notHead {table : Table} (inv : TableInv strict table) (zombie : p ∈ table.zombies) :
    p ∉ table.head := by
  intro member
  obtain ⟨proc, existing, alive⟩ := (inv.head p).mp member
  obtain ⟨proc', existing', isZombie⟩ := (inv.zombie p).mp zombie
  rw [existing] at existing'
  rw [← Option.some.inj existing', alive] at isZombie
  cases isZombie

/-- A process whose counter is zero has no threads. -/
theorem ProcOk.alone {owners : ThreadPtr → Option (Option HeapPtr × Bool)} (ok : ProcOk owners p proc)
    (none : proc.threadCount = 0) : proc.threads = [] := by
  have count := ok.count
  rw [none] at count
  exact List.length_eq_zero_iff.mp (Int.ofNat_eq_zero.mp count.symm)

/-- `process_reap_zombies` frees the processes of a list that have no threads. -/
theorem reapProcs_spec {list before kept : List HeapPtr}
    (inv : TableInv strict { s.table with zombies := before ++ list }) (returned : reapProcs s list = .ok (kept, s')) :
    s' = { s with procs := fun p => if p ∈ list ∧ spent s.procs p then none else s.procs p, spaces := s'.spaces } ∧
      kept = list.filter (fun p => !spent s.procs p) ∧ TableInv strict { s'.table with zombies := before ++ kept } := by
  induction list generalizing s s' before kept with
  | nil =>
      have both := Prod.mk.inj (Except.ok.inj returned)
      rw [← both.1, ← both.2]
      refine ⟨?_, rfl, inv⟩
      simp
  | cons cur next ih =>
      rw [reapProcs] at returned
      obtain ⟨proc, found, rest⟩ := Result.bind_ok returned
      have existing := s.procs_of_ok found
      have nodup := inv.zombieNodup
      have fresh : cur ∉ next := (List.nodup_cons.mp (List.nodup_append.mp nodup).2.1).1
      have notBefore : cur ∉ before := by
        intro early
        exact (List.nodup_append.mp nodup).2.2 cur early cur List.mem_cons_self rfl
      by_cases none : proc.threadCount = 0
      · rw [if_pos none] at rest
        obtain ⟨w, destroyed, rest⟩ := Result.bind_ok rest
        obtain ⟨spaces, isMiddle, kept⟩ := destroySpace_spec destroyed
        have isSpent : spent s.procs cur = true := by simp [spent, existing, none]
        have freed := inv.freeProc existing (inv.unowned_of_alone existing ((inv.ok cur proc existing).alone none))
          spaces kept
        have notHead := inv.zombie_notHead (List.mem_append_right before List.mem_cons_self)
        have erased : (before ++ cur :: next).erase cur = before ++ next := by
          rw [List.erase_append_right _ notBefore, List.erase_cons_head]
        simp only at freed notHead
        rw [erased, List.erase_of_not_mem notHead] at freed
        rw [isMiddle] at rest
        obtain ⟨isFinal, isKept, inv'⟩ := ih freed rest
        have others (p : HeapPtr) (different : p ≠ cur) :
            spent (Function.update s.procs cur Option.none) p = spent s.procs p := by
          rw [spent, Function.update_of_ne different]
          rfl
        refine ⟨?_, ?_, inv'⟩
        · rw [isFinal]
          simp only [Sched.freeProc, Sched.mk.injEq, true_and, and_true]
          funext p
          by_cases same : p = cur
          · simp [same, fresh, isSpent]
          · simp [same, others p same]
        · rw [isKept, List.filter_cons_of_neg (by simp [isSpent])]
          apply List.filter_congr
          intro p member
          rw [Sched.freeProc, others p fun same => fresh (same ▸ member)]
      · rw [if_neg none] at rest
        obtain ⟨⟨kept', w⟩, reaped, rest⟩ := Result.bind_ok rest
        have both := Prod.mk.inj (Except.ok.inj rest)
        have isSpent : spent s.procs cur = false := by simp [spent, existing, none]
        have shifted : TableInv strict { s.table with zombies := (before ++ [cur]) ++ next } := by simpa using inv
        obtain ⟨isFinal, isKept, inv'⟩ := ih shifted reaped
        rw [← both.1, ← both.2]
        refine ⟨?_, ?_, by simpa using inv'⟩
        · rw [isFinal]
          simp only [Sched.mk.injEq, true_and, and_true]
          funext p
          by_cases same : p = cur
          · simp [same, fresh, isSpent]
          · simp [same]
        · rw [isKept, List.filter_cons_of_pos (by simp [isSpent])]

theorem reapProcs_ok {list before : List HeapPtr}
    (inv : TableInv strict { s.table with zombies := before ++ list }) : ∃ kept s', reapProcs s list = .ok (kept, s') := by
  induction list generalizing s before with
  | nil => exact ⟨[], s, rfl⟩
  | cons cur next ih =>
      obtain ⟨proc, existing, _⟩ := (inv.zombie cur).mp (List.mem_append_right before List.mem_cons_self)
      rw [reapProcs, s.proc_ok existing, Result.ok_bind]
      by_cases none : proc.threadCount = 0
      · obtain ⟨w, destroyed⟩ := destroySpace_ok (fun ptr isSpace => inv.space cur proc ptr existing isSpace)
        rw [if_pos none, destroyed, Result.ok_bind]
        obtain ⟨spaces, isMiddle, kept⟩ := destroySpace_spec destroyed
        have nodup := inv.zombieNodup
        have notBefore : cur ∉ before := by
          intro early
          exact (List.nodup_append.mp nodup).2.2 cur early cur List.mem_cons_self rfl
        have freed := inv.freeProc existing (inv.unowned_of_alone existing ((inv.ok cur proc existing).alone none))
          spaces kept
        have notHead := inv.zombie_notHead (List.mem_append_right before List.mem_cons_self)
        have erased : (before ++ cur :: next).erase cur = before ++ next := by
          rw [List.erase_append_right _ notBefore, List.erase_cons_head]
        simp only at freed notHead
        rw [erased, List.erase_of_not_mem notHead] at freed
        rw [isMiddle]
        exact ih freed
      · have shifted : TableInv strict { s.table with zombies := (before ++ [cur]) ++ next } := by simpa using inv
        obtain ⟨kept, w, reaped⟩ := ih shifted
        rw [if_neg none, reaped]
        exact ⟨cur :: kept, w, rfl⟩

end

/-- The processes after `reap_zombies`. -/
def droppedProcs (s : Sched) (p : HeapPtr) : Option Process := (s.procs p).map (dropAll · s.zombies)

/-- The processes after `process_reap_zombies`. -/
def reapedProcs (s : Sched) (p : HeapPtr) : Option Process :=
  if p ∈ s.procZombies ∧ spent (droppedProcs s) p then none else droppedProcs s p

/-- The dead threads wait in the zombie list. -/
structure ZombieList (s : Sched) (queue : List ThreadPtr) : Prop where
  holds : QueueHolds s.readyQ queue
  nodup : s.zombies.Nodup
  zombie : ∀ z ∈ s.zombies, z ∉ queue ∧ z ≠ .bootstrap ∧ ∃ thread, s.threads z = some thread ∧ thread.state = .dead

section
variable {strict : Prop} {s s₁ s₂ : Sched} {queue : List ThreadPtr}

/-- The two reapers at the start of `sched_yield`. -/
theorem reap_spec (inv : TableInv strict s.table) (zombies : ZombieList s queue) (reaped : reapZombies s = .ok s₁)
    (reaped' : processReapZombies s₁ = .ok s₂) :
    s₂ = { s with
      threads := fun t => if t ∈ s.zombies then none else s.threads t
      procs := reapedProcs s
      spaces := s₂.spaces
      zombies := []
      procZombies := s.procZombies.filter fun p => !spent (droppedProcs s) p } ∧ TableInv strict s₂.table := by
  obtain ⟨isMiddle, inv₁⟩ := reapThreads_spec inv zombies.holds zombies.nodup zombies.zombie reaped
  have noZombies : (if s.zombies = [] then s.zombies else []) = [] := by
    split
    · assumption
    · rfl
  rw [noZombies] at isMiddle
  obtain ⟨⟨kept, w⟩, freed, rest⟩ := Result.bind_ok reaped'
  have isFinal : s₂ = { w with procZombies := kept } := (Except.ok.inj rest).symm
  have whole : TableInv strict { s₁.table with zombies := [] ++ s₁.procZombies } := inv₁
  obtain ⟨isAfter, isKept, inv₂⟩ := reapProcs_spec whole freed
  refine ⟨?_, ?_⟩
  · rw [isFinal, isKept, isAfter, isMiddle]
    rfl
  · rw [isFinal]
    exact inv₂

/-- The reapers return when all owners exist. -/
theorem reap_ok (inv : TableInv True s.table) (zombies : ZombieList s queue) :
    ∃ s₁ s₂, reapZombies s = .ok s₁ ∧ processReapZombies s₁ = .ok s₂ := by
  obtain ⟨s₁, reaped⟩ := reapThreads_ok inv zombies.holds zombies.nodup zombies.zombie
  obtain ⟨_, inv₁⟩ := reapThreads_spec inv zombies.holds zombies.nodup zombies.zombie reaped
  have whole : TableInv True { s₁.table with zombies := [] ++ s₁.procZombies } := inv₁
  obtain ⟨kept, w, freed⟩ := reapProcs_ok whole
  refine ⟨s₁, { w with procZombies := kept }, reaped, ?_⟩
  rw [processReapZombies, freed]
  rfl

end

end DoccrOS.Proc
