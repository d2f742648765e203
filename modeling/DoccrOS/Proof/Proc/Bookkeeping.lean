import DoccrOS.Proof.Proc.SchedulerLists

namespace DoccrOS.Proc
open Lib Mem

/-- The current thread is the only live thread of a process. -/
def Sched.lastLive (s : Sched) (p : HeapPtr) : Prop :=
  s.awake s.current = true ∧ (∃ self, s.threads s.current = some self ∧ self.owner = some p) ∧
    ∀ t thread, s.threads t = some thread → thread.owner = some p → s.awake t = true → t = s.current

/-- The lists of processes, the ready queue and the thread lists are the same. -/
structure SameLists (s s' : Sched) : Prop where
  head : s'.head = s.head
  procZombies : s'.procZombies = s.procZombies
  readyQ : s'.readyQ = s.readyQ
  procs : s'.procs = s.procs
  threads : s'.threads = s.threads

section
variable {s s' : Sched} {queue : List ThreadPtr} {p : HeapPtr} {proc : Process} {op : ProcOp} {ops : List ProcOp}

theorem OnlyPid.sameLists (only : OnlyPid s s') : SameLists s s' := by
  obtain ⟨nextPid, _, isState⟩ := only
  subst isState
  exact ⟨rfl, rfl, rfl, rfl, rfl⟩

theorem SameLists.refl : SameLists s s := ⟨rfl, rfl, rfl, rfl, rfl⟩

end

end DoccrOS.Proc
