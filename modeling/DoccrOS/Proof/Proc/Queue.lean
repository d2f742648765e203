import DoccrOS.Construction.Proc.Scheduler
import DoccrOS.Lib.Run

namespace DoccrOS.Proc
open Lib Mem

/-- The ready queue holds a list of threads. -/
structure QueueHolds (q : ReadyQueue) (list : List ThreadPtr) : Prop where
  ring : RingHolds schedMaxThreads q.queue q.head list
  count : q.cnt = list.length
  head : q.head < schedMaxThreads
  tail : q.tail = (q.head + q.cnt) % schedMaxThreads

/-- The threads in the ready queue, the next one first. -/
def ReadyQueue.threads (q : ReadyQueue) : List ThreadPtr :=
  (List.range q.cnt).filterMap fun i => q.queue ((q.head + i) % schedMaxThreads)

section
variable {q : ReadyQueue} {list : List ThreadPtr} {t : ThreadPtr}

theorem qInit_holds (q : ReadyQueue) : QueueHolds (qInit q) [] := ⟨RingHolds.nil, rfl, Nat.zero_lt_succ _, rfl⟩

theorem QueueHolds.threads (holds : QueueHolds q list) : q.threads = list := by
  rw [ReadyQueue.threads, holds.count]
  exact holds.ring.entries

theorem QueueHolds.empty_iff (holds : QueueHolds q list) : qEmpty q = true ↔ list = [] := by
  rw [qEmpty, beq_iff_eq, holds.count, List.length_eq_zero_iff]

theorem QueueHolds.push (holds : QueueHolds q list) (room : q.cnt < schedMaxThreads) (t : ThreadPtr) :
    QueueHolds (qPush q t) (list ++ [t]) := by
  have stored := holds.ring.push (by rw [← holds.count]; exact room) t
  rw [← holds.count, ← holds.tail] at stored
  rw [qPush, if_neg (Nat.not_le.mpr room)]
  refine ⟨stored, ?_, holds.head, ?_⟩
  · simp only [List.length_append, List.length_singleton, holds.count]
  · simp only [holds.tail, Nat.mod_add_mod, Nat.add_assoc]

/-- A full queue drops the thread. -/
theorem qPush_full (full : schedMaxThreads ≤ q.cnt) (t : ThreadPtr) : qPush q t = q := if_pos full

theorem QueueHolds.pop (holds : QueueHolds q (t :: list)) : ∃ q', qPop q = (some t, q') ∧ QueueHolds q' list := by
  obtain ⟨first, rest⟩ := holds.ring.pop
  rw [Nat.mod_eq_of_lt holds.head] at first
  have count := holds.count
  rw [List.length_cons] at count
  have notEmpty : qEmpty q = false := by
    rw [qEmpty, count]
    rfl
  refine ⟨{ q with head := (q.head + 1) % schedMaxThreads, cnt := q.cnt - 1 }, ?_, rest, ?_, Nat.mod_lt _ (by decide), ?_⟩
  · rw [qPop, notEmpty, first]
    rfl
  · simp only [count, Nat.add_sub_cancel]
  · simp only [holds.tail, Nat.mod_add_mod]
    rw [count]
    congr 1
    omega

theorem QueueHolds.pop_nil (holds : QueueHolds q []) : qPop q = (none, q) := by
  rw [qPop, if_pos (holds.empty_iff.mpr rfl)]

/-- `sched_remove` takes out the first occurrence of a thread. -/
theorem QueueHolds.remove (holds : QueueHolds q list) (t : ThreadPtr) : QueueHolds (qRemove q t) (list.erase t) := by
  have search := holds.ring.find t
  rw [← holds.count] at search
  rw [qRemove, search]
  cases found : list.findIdx? (· == t) with
  | none =>
      have outside : t ∉ list := by
        intro member
        have differs := List.findIdx?_eq_none_iff.mp found t member
        simp at differs
      rw [List.erase_of_not_mem outside]
      exact holds
  | some index =>
      obtain ⟨inside, _⟩ := List.findIdx?_eq_some_iff_getElem.mp found
      have erased : list.erase t = list.eraseIdx index := by rw [List.erase_eq_eraseIdx, List.idxOf?, found]
      have shifted := holds.ring.shift inside
      have positive := List.length_pos_of_mem (List.getElem_mem inside)
      have count := holds.count
      rw [← count] at shifted
      rw [erased]
      refine ⟨shifted, ?_, holds.head, ?_⟩
      · simp only [List.length_eraseIdx_of_lt inside, count]
      · simp only [holds.tail, schedMaxThreads]
        omega

/-- `sched_remove` leaves the queue alone when the thread is not in it. -/
theorem QueueHolds.remove_of_notMem (holds : QueueHolds q list) (outside : t ∉ list) : qRemove q t = q := by
  have search := holds.ring.find t
  have absent : list.findIdx? (· == t) = none := by
    rw [List.findIdx?_eq_none_iff]
    intro u member
    rw [beq_eq_false_iff_ne]
    intro same
    exact outside (same ▸ member)
  rw [← holds.count, absent] at search
  rw [qRemove, search]

end

end DoccrOS.Proc

namespace DoccrOS.Proc
open Lib

/-- A call on the ready queue. The argument of `sched_remove` may be `NULL`. -/
inductive QueueOp where
  | push (t : ThreadPtr)
  | pop
  | remove (t : Option ThreadPtr)

/-- The returned thread, if any, and the queue after a call. -/
def ReadyQueue.call (q : ReadyQueue) : QueueOp → Option ThreadPtr × ReadyQueue
  | .push t => (none, qPush q t)
  | .pop => qPop q
  | .remove none => (none, q)
  | .remove (some t) => (none, qRemove q t)

/-- A bounded queue is a list: it appends while there is room, and it takes out the first entry or the first occurrence of an
entry. -/
def fifoCall (list : List ThreadPtr) : QueueOp → Option ThreadPtr × List ThreadPtr
  | .push t => (none, if list.length < schedMaxThreads then list ++ [t] else list)
  | .pop => (list.head?, list.tail)
  | .remove none => (none, list)
  | .remove (some t) => (none, list.erase t)

/-- The slots from `head` on, one for each entry. -/
def ReadyQueue.slots (q : ReadyQueue) : List (Option ThreadPtr) :=
  (List.range q.cnt).map fun i => q.queue ((q.head + i) % schedMaxThreads)

/-- The slots hold the list, and the indices agree with its length. -/
structure QueueShows (q : ReadyQueue) (list : List ThreadPtr) : Prop where
  slots : q.slots = list.map some
  tail : q.tail = (q.head + q.cnt) % schedMaxThreads
  bound : q.cnt ≤ schedMaxThreads

section
variable {q : ReadyQueue} {list : List ThreadPtr}

theorem QueueHolds.slots (holds : QueueHolds q list) : q.slots = list.map some := by
  apply List.ext_getElem?
  intro i
  rw [ReadyQueue.slots, List.getElem?_map, List.getElem?_map, holds.count]
  rcases Nat.lt_or_ge i list.length with inside | outside
  · rw [List.getElem?_range inside, List.getElem?_eq_getElem inside]
    exact congrArg some (holds.ring.2 i _ (List.getElem?_eq_getElem inside))
  · rw [List.getElem?_eq_none outside, List.getElem?_eq_none (List.length_range.trans_le outside)]
    rfl

theorem QueueHolds.shows (holds : QueueHolds q list) : QueueShows q list :=
  ⟨holds.slots, holds.tail, holds.count.trans_le holds.ring.1⟩

/-- A call does on the ring what it does on the list. -/
theorem QueueHolds.call (holds : QueueHolds q list) (op : QueueOp) :
    (q.call op).1 = (fifoCall list op).1 ∧ QueueHolds (q.call op).2 (fifoCall list op).2 := by
  cases op with
  | push t =>
      refine ⟨rfl, ?_⟩
      rw [ReadyQueue.call, fifoCall]
      rcases Nat.lt_or_ge q.cnt schedMaxThreads with room | full
      · rw [if_pos (holds.count ▸ room)]
        exact holds.push room t
      · rw [if_neg (Nat.not_lt.mpr (holds.count ▸ full)), qPush_full full]
        exact holds
  | pop =>
      rw [ReadyQueue.call]
      cases list with
      | nil =>
          rw [holds.pop_nil]
          exact ⟨rfl, holds⟩
      | cons t list =>
          obtain ⟨q', popped, rest⟩ := holds.pop
          rw [popped]
          exact ⟨rfl, rest⟩
  | remove t =>
      cases t with
      | none => exact ⟨rfl, holds⟩
      | some t => exact ⟨rfl, holds.remove t⟩

/-- The ready queue refines the bounded queue: in every run both give the same answers, and the slots show the list. -/
theorem readyQueue_refines (q : ReadyQueue) (ops : List QueueOp) :
    (respond ReadyQueue.call ops (qInit q)).1 = (respond fifoCall ops []).1 ∧
      QueueShows (respond ReadyQueue.call ops (qInit q)).2 (respond fifoCall ops []).2 := by
  have steps : ∀ (q : ReadyQueue) (list : List ThreadPtr) (op : QueueOp), QueueHolds q list →
      (q.call op).1 = (fifoCall list op).1 ∧ QueueHolds (q.call op).2 (fifoCall list op).2 :=
    fun _ _ op holds => holds.call op
  obtain ⟨same, holds⟩ := respond_refines steps (qInit_holds q) ops
  exact ⟨same, holds.shows⟩

end

end DoccrOS.Proc
