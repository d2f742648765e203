import DoccrOS.Construction.Devices.Input
import DoccrOS.Lib.Ring

namespace DoccrOS.Devices
open Lib Fs

/-- The events that a read has taken and not returned yet. -/
def Reader.held : Reader → List InputEvent
  | .idle => []
  | .test _ _ stored | .hasEvent _ _ stored | .copy _ _ stored | .advance _ _ stored _ | .count _ _ stored => stored
  | .store _ _ stored ev => stored ++ [ev]

/-- The queue has the waiting events from its tail on, and one slot stays free. -/
structure EventQueue.Holds (queueSize : Nat) (queue : EventQueue) (waiting : List InputEvent) : Prop where
  ring : RingHolds queueSize (some ∘ queue.buf) queue.tail waiting
  room : waiting.length < queueSize
  tail : queue.tail < queueSize
  head : queue.head = (queue.tail + waiting.length) % queueSize

/-- The count of a read is the size of the events that it stored, and it is not beyond the buffer. -/
def Counted (size written : Nat) (stored : List InputEvent) : Prop :=
  written = wrap64 (sizeofInputEvent * stored.length) ∧ written ≤ size

/-- What the next statement of a read relies on. -/
def Reader.Ready (waiting : List InputEvent) : Reader → Prop
  | .idle => True
  | .test size written stored => Counted size written stored
  | .hasEvent size written stored => Counted size written stored ∧ wrap64 (written + sizeofInputEvent) ≤ size
  | .copy size written stored =>
    (Counted size written stored ∧ wrap64 (written + sizeofInputEvent) ≤ size) ∧ waiting ≠ []
  | .advance size written stored ev =>
    (Counted size written stored ∧ wrap64 (written + sizeofInputEvent) ≤ size) ∧ waiting.head? = some ev
  | .store size written stored _ => Counted size written stored ∧ wrap64 (written + sizeofInputEvent) ≤ size
  | .count size written stored =>
    wrap64 (written + sizeofInputEvent) = wrap64 (sizeofInputEvent * stored.length) ∧ wrap64 (written + sizeofInputEvent) ≤ size

/-- A read returned the size of the events that it stored. -/
def ReadCall.Ok (d : InputDevice) (call : ReadCall) : Prop :=
  ∃ written, call.result = d.result written ∧ Counted call.size written call.stored

/-- The events in the queue are the accepted ones that are not delivered, and the delivered ones are in the buffers of the reads. -/
structure InputInv (d : InputDevice) (s : InputState) (waiting : List InputEvent) : Prop where
  queue : s.queue.Holds d.queueSize waiting
  accepted : s.accepted = s.delivered ++ waiting
  delivered : s.delivered = s.returned.flatMap ReadCall.stored ++ s.reader.held
  reader : s.reader.Ready waiting
  returned : ∀ call ∈ s.returned, call.Ok d

section
variable {d : InputDevice} {s : InputState} {waiting : List InputEvent} {queue : EventQueue} {queueSize : Nat} {ev : InputEvent}

/-- The queue is full exactly when one slot is free. -/
theorem EventQueue.Holds.full_iff (holds : queue.Holds queueSize waiting) :
    (queue.head + 1) % queueSize = queue.tail ↔ waiting.length + 1 = queueSize := by
  have tail := holds.tail
  rw [holds.head, Nat.mod_add_mod, Nat.add_assoc]
  constructor
  · intro same
    by_contra other
    have first : (queue.tail + (waiting.length + 1)) % queueSize = (queue.tail + 0) % queueSize := by
      rw [same, Nat.add_zero, Nat.mod_eq_of_lt tail]
    have more := holds.room
    have none := ringIndex_inj (by omega) (by omega) first
    omega
  · intro full
    rw [full, Nat.add_mod_right, Nat.mod_eq_of_lt tail]

/-- The queue is empty exactly when no event waits. -/
theorem EventQueue.Holds.empty_iff (holds : queue.Holds queueSize waiting) : queue.head = queue.tail ↔ waiting = [] := by
  have tail := holds.tail
  rw [holds.head]
  constructor
  · intro same
    have first : (queue.tail + waiting.length) % queueSize = (queue.tail + 0) % queueSize := by
      rw [same, Nat.add_zero, Nat.mod_eq_of_lt tail]
    exact List.eq_nil_of_length_eq_zero (ringIndex_inj holds.room (by omega) first)
  · rintro rfl
    exact Nat.mod_eq_of_lt tail

/-- A push to a queue that is not full appends the event. -/
theorem EventQueue.Holds.push (holds : queue.Holds queueSize waiting) (free : (queue.head + 1) % queueSize ≠ queue.tail) :
    (pushEvent queueSize queue ev).Holds queueSize (waiting ++ [ev]) := by
  have room : waiting.length + 1 < queueSize := by
    have less := holds.room
    have notFull := mt holds.full_iff.mpr free
    omega
  simp only [pushEvent, if_neg free]
  refine ⟨?_, ?_, holds.tail, ?_⟩
  · have pushed := holds.ring.push holds.room ev
    rw [← holds.head] at pushed
    rw [Function.comp_update]
    exact pushed
  · rw [List.length_append, List.length_singleton]
    exact room
  · rw [holds.head, Nat.mod_add_mod, List.length_append, List.length_singleton, Nat.add_assoc]

/-- The slot at the tail holds the first waiting event, and the next tail takes it out. -/
theorem EventQueue.Holds.pop (holds : queue.Holds queueSize (ev :: waiting)) : queue.buf queue.tail = ev ∧
    EventQueue.Holds queueSize { queue with tail := (queue.tail + 1) % queueSize } waiting := by
  obtain ⟨first, rest⟩ := holds.ring.pop
  rw [Nat.mod_eq_of_lt holds.tail] at first
  have room := holds.room
  rw [List.length_cons] at room
  refine ⟨Option.some.inj first, rest, by omega, Nat.mod_lt _ (by omega), ?_⟩
  rw [holds.head, List.length_cons, Nat.mod_add_mod, Nat.add_assoc, Nat.add_comm 1]

/-- A push changes nothing that the next statement relies on. -/
theorem Reader.Ready.push {reader : Reader} (ready : reader.Ready waiting) (ev : InputEvent) : reader.Ready (waiting ++ [ev]) := by
  cases reader with
  | idle => trivial
  | test size written stored => exact ready
  | hasEvent size written stored => exact ready
  | copy size written stored => exact ⟨ready.1, List.append_ne_nil_of_left_ne_nil ready.2 _⟩
  | advance size written stored first =>
      refine ⟨ready.1, ?_⟩
      rw [List.head?_append, ready.2]
      rfl
  | store size written stored ev => exact ready
  | count size written stored => exact ready

theorem Counted.start (size : Nat) : Counted size 0 [] := ⟨rfl, Nat.zero_le _⟩

theorem Counted.next {size written : Nat} {stored : List InputEvent} (counted : Counted size written stored) (ev : InputEvent) :
    wrap64 (written + sizeofInputEvent) = wrap64 (sizeofInputEvent * (stored ++ [ev]).length) := by
  rw [counted.1, List.length_append, List.length_singleton, Nat.mul_succ]
  exact Nat.mod_add_mod _ _ _

theorem InputInv.init (positive : 0 < d.queueSize) (buf : Nat → InputEvent) : InputInv d (InputState.init buf) [] := by
  refine ⟨⟨RingHolds.nil, positive, positive, ?_⟩, rfl, rfl, trivial, nofun⟩
  exact (Nat.zero_mod _).symm

/-- A push is dropped exactly when one slot is free, and then it changes nothing. -/
theorem InputInv.push (inv : InputInv d s waiting) (ev : InputEvent) :
    (waiting.length + 1 = d.queueSize ∧ s.push d ev = s) ∨
      (waiting.length + 1 < d.queueSize ∧ (s.push d ev).accepted = s.accepted ++ [ev] ∧
        InputInv d (s.push d ev) (waiting ++ [ev])) := by
  unfold InputState.push
  by_cases full : (s.queue.head + 1) % d.queueSize = s.queue.tail
  · exact Or.inl ⟨inv.queue.full_iff.mp full, if_pos full⟩
  · rw [if_neg full]
    have room := inv.queue.room
    have notFull := mt inv.queue.full_iff.mpr full
    refine Or.inr ⟨by omega, rfl, inv.queue.push full, ?_, inv.delivered, inv.reader.push ev, inv.returned⟩
    change s.accepted ++ [ev] = _
    rw [inv.accepted, List.append_assoc]

/-- The end of a read keeps the invariant. -/
theorem InputInv.finish (inv : InputInv d s waiting) {size written : Nat} {stored : List InputEvent}
    (held : s.reader.held = stored) (counted : Counted size written stored) :
    InputInv d (s.finish d size written stored) waiting := by
  refine ⟨inv.queue, inv.accepted, ?_, trivial, ?_⟩
  · change s.delivered = (s.returned ++ [_]).flatMap ReadCall.stored ++ []
    rw [inv.delivered, held, List.flatMap_append, List.flatMap_singleton, List.append_nil]
  · intro call member
    rcases List.mem_append.mp member with old | new
    · exact inv.returned call old
    · cases List.mem_singleton.mp new
      exact ⟨written, rfl, counted⟩

/-- A statement of a read keeps the invariant; the statement that moves the tail delivers the first waiting event. -/
theorem InputInv.statement (inv : InputInv d s waiting) : ∃ waiting', InputInv d (s.statement d) waiting' := by
  obtain ⟨queue, reader, accepted, delivered, returned⟩ := s
  have ready := inv.reader
  cases reader with
  | idle => exact ⟨waiting, inv⟩
  | test size written stored =>
      refine ⟨waiting, ?_⟩
      simp only [InputState.statement]
      by_cases fits : wrap64 (written + sizeofInputEvent) ≤ size
      · rw [if_pos fits]
        exact ⟨inv.queue, inv.accepted, inv.delivered, ⟨ready, fits⟩, inv.returned⟩
      · rw [if_neg fits]
        exact inv.finish rfl ready
  | hasEvent size written stored =>
      refine ⟨waiting, ?_⟩
      simp only [InputState.statement]
      by_cases empty : queue.head = queue.tail
      · rw [if_pos empty]
        exact inv.finish rfl ready.1
      · rw [if_neg empty]
        exact ⟨inv.queue, inv.accepted, inv.delivered, ⟨ready, mt inv.queue.empty_iff.mpr empty⟩, inv.returned⟩
  | copy size written stored =>
      obtain ⟨ev, rest, rfl⟩ := List.exists_cons_of_ne_nil ready.2
      refine ⟨_, inv.queue, inv.accepted, inv.delivered, ⟨ready.1, ?_⟩, inv.returned⟩
      exact congrArg some inv.queue.pop.1.symm
  | advance size written stored ev =>
      obtain ⟨rest, rfl⟩ := List.head?_eq_some_iff.mp ready.2
      refine ⟨rest, inv.queue.pop.2, ?_, ?_, ready.1, inv.returned⟩
      · change accepted = (delivered ++ [ev]) ++ rest
        rw [List.append_assoc]
        exact inv.accepted
      · change delivered ++ [ev] = returned.flatMap ReadCall.stored ++ (stored ++ [ev])
        rw [← List.append_assoc]
        exact congrArg (· ++ [ev]) inv.delivered
  | store size written stored ev =>
      exact ⟨waiting, inv.queue, inv.accepted, inv.delivered, ⟨ready.1.next ev, ready.2⟩, inv.returned⟩
  | count size written stored =>
      exact ⟨waiting, inv.queue, inv.accepted, inv.delivered, ready, inv.returned⟩

/-- Every step keeps the invariant. -/
theorem InputInv.step (inv : InputInv d s waiting) (action : InputAction) : ∃ waiting', InputInv d (s.step d action) waiting' := by
  cases action with
  | push ev =>
      rcases inv.push ev with ⟨_, same⟩ | ⟨_, _, next⟩
      · refine ⟨waiting, ?_⟩
        rw [InputState.step, same]
        exact inv
      · exact ⟨_, next⟩
  | call size =>
      obtain ⟨queue, reader, accepted, delivered, returned⟩ := s
      cases reader with
      | idle => exact ⟨waiting, inv.queue, inv.accepted, inv.delivered, Counted.start size, inv.returned⟩
      | _ => exact ⟨waiting, inv⟩
  | statement => exact inv.statement

theorem InputInv.run (inv : InputInv d s waiting) (actions : List InputAction) :
    ∃ waiting', InputInv d (actions.foldl (InputState.step d) s) waiting' := by
  induction actions generalizing s waiting with
  | nil => exact ⟨waiting, inv⟩
  | cons action actions ih =>
      obtain ⟨next, kept⟩ := inv.step action
      exact ih kept

/-- A queue is a lossless first-in-first-out queue: the delivered events are the first accepted ones, and they are in the buffers of
the reads in their order. A push is dropped, and changes nothing, exactly when the queue is at its capacity. A read returns a
multiple of the size of an event, and at most the size of its buffer. -/
structure LosslessFifo (d : InputDevice) (capacity : Nat) (s : InputState) : Prop where
  order : ∃ waiting, s.accepted = s.delivered ++ waiting ∧ waiting.length ≤ capacity
  buffers : s.delivered = s.returned.flatMap ReadCall.stored ++ s.reader.held
  queue : ∀ ev, (s.step d (.push ev)).queue = pushEvent d.queueSize s.queue ev
  dropped : ∀ ev, s.accepted.length = s.delivered.length + capacity → s.step d (.push ev) = s
  pushed : ∀ ev, s.accepted.length ≠ s.delivered.length + capacity → (s.step d (.push ev)).accepted = s.accepted ++ [ev]
  returned : ∀ call ∈ s.returned, (sizeofInputEvent : Int) ∣ call.result ∧ call.result ≤ call.size

/-- Every reachable state of a queue with one more slot than its capacity is lossless. -/
theorem InputInv.fifo {capacity : Nat} (inv : InputInv d s waiting) (size : d.queueSize = capacity + 1)
    (cast : ∀ written, sizeofInputEvent ∣ written → (sizeofInputEvent : Int) ∣ d.result written ∧ d.result written ≤ written) :
    LosslessFifo d capacity s := by
  have count : s.accepted.length = s.delivered.length + waiting.length := by
    rw [inv.accepted, List.length_append]
  refine ⟨⟨waiting, inv.accepted, ?_⟩, inv.delivered, ?_, ?_, ?_, ?_⟩
  · have room := inv.queue.room
    omega
  · intro ev
    change (s.push d ev).queue = _
    unfold InputState.push pushEvent
    by_cases full : (s.queue.head + 1) % d.queueSize = s.queue.tail
    · rw [if_pos full, if_pos full]
    · rw [if_neg full]
  · intro ev full
    rcases inv.push ev with ⟨_, same⟩ | ⟨free, _⟩
    · exact same
    · omega
  · intro ev notFull
    rcases inv.push ev with ⟨full, _⟩ | ⟨_, grown, _⟩
    · omega
    · exact grown
  · intro call member
    obtain ⟨written, isResult, isWritten, inside⟩ := inv.returned call member
    have whole : sizeofInputEvent ∣ written := by
      rw [isWritten]
      exact (Nat.dvd_mod_iff (by decide)).mpr (Nat.dvd_mul_right _ _)
    obtain ⟨divides, most⟩ := cast written whole
    rw [isResult]
    exact ⟨divides, most.trans (Int.ofNat_le.mpr inside)⟩

theorem castInt_whole {written : Nat} (whole : sizeofInputEvent ∣ written) :
    (sizeofInputEvent : Int) ∣ castInt written ∧ castInt written ≤ written := by
  unfold castInt sizeofInputEvent at *
  rw [BitVec.toInt_eq_toNat_cond, BitVec.toNat_ofNat]
  split <;> omega

/-- The queues of the keyboard and of the mouse are lossless up to 63 and 127 events, for every order of pushes and statements. -/
theorem input_queues_fifo (buf : Nat → InputEvent) (actions : List InputAction) :
    LosslessFifo kbdDevice 63 (actions.foldl (InputState.step kbdDevice) (InputState.init buf)) ∧
      LosslessFifo mouseDevice 127 (actions.foldl (InputState.step mouseDevice) (InputState.init buf)) := by
  constructor
  · obtain ⟨waiting, inv⟩ := (@InputInv.init kbdDevice (by decide) buf).run actions
    exact inv.fifo rfl fun written whole => ⟨Int.ofNat_dvd.mpr whole, le_refl _⟩
  · obtain ⟨waiting, inv⟩ := (@InputInv.init mouseDevice (by decide) buf).run actions
    exact inv.fifo rfl fun written whole => castInt_whole whole

end

end DoccrOS.Devices
