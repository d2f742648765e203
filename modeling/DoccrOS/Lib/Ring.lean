import Mathlib.Tactic

namespace DoccrOS.Lib

section
variable {A : Type} {capacity head : Nat} {slots : Nat → Option A} {list : List A} {value : A}

/-- The slots from `head` on hold the entries of a list; the index wraps at the capacity. -/
def RingHolds (capacity : Nat) (slots : Nat → Option A) (head : Nat) (list : List A) : Prop :=
  list.length ≤ capacity ∧ ∀ i value, list[i]? = some value → slots ((head + i) % capacity) = some value

/-- This moves the entries behind a slot one slot down. -/
def shiftDown (capacity head : Nat) : (slots : Nat → Option A) → (start steps : Nat) → Nat → Option A
  | slots, _, 0 => slots
  | slots, start, steps + 1 =>
    shiftDown capacity head
      (Function.update slots ((head + start) % capacity) (slots ((head + start + 1) % capacity))) (start + 1) steps

/-- Two entries have different slots. -/
theorem ringIndex_inj {i j : Nat} (small : i < capacity) (small' : j < capacity)
    (same : (head + i) % capacity = (head + j) % capacity) : i = j := by
  have congruent : i % capacity = j % capacity := Nat.ModEq.add_left_cancel' head same
  rw [Nat.mod_eq_of_lt small, Nat.mod_eq_of_lt small'] at congruent
  exact congruent

theorem RingHolds.nil : RingHolds capacity slots head [] := by
  refine ⟨Nat.zero_le _, ?_⟩
  intro i value atIndex
  simp at atIndex

/-- A store behind the last entry appends it. -/
theorem RingHolds.push (holds : RingHolds capacity slots head list) (room : list.length < capacity) (value : A) :
    RingHolds capacity (Function.update slots ((head + list.length) % capacity) (some value)) head (list ++ [value]) := by
  refine ⟨by simpa using room, ?_⟩
  intro i other atIndex
  by_cases last : i = list.length
  · rw [last, List.getElem?_append_right (Nat.le_refl _)] at atIndex
    rw [last, Function.update_self]
    simpa using atIndex
  · have inside : i < list.length := by
      have bound := (List.getElem?_eq_some_iff.mp atIndex).1
      rw [List.length_append, List.length_singleton] at bound
      omega
    rw [List.getElem?_append_left inside] at atIndex
    rw [Function.update_of_ne, holds.2 i other atIndex]
    intro same
    exact last (ringIndex_inj (by omega) room same)

/-- The first entry is at the head. -/
theorem RingHolds.pop (holds : RingHolds capacity slots head (value :: list)) :
    slots (head % capacity) = some value ∧ RingHolds capacity slots ((head + 1) % capacity) list := by
  refine ⟨holds.2 0 value rfl, ?_, ?_⟩
  · exact Nat.le_of_succ_le holds.1
  · intro i other atIndex
    rw [Nat.mod_add_mod, Nat.add_assoc, Nat.add_comm 1 i]
    exact holds.2 (i + 1) other atIndex

/-- The slots after a shift. -/
theorem shiftDown_at {start steps i : Nat} (inside : start + steps < capacity) (small : i < capacity) :
    shiftDown capacity head slots start steps ((head + i) % capacity) =
      if start ≤ i ∧ i < start + steps then slots ((head + i + 1) % capacity) else slots ((head + i) % capacity) := by
  induction steps generalizing slots start with
  | zero =>
      rw [shiftDown, if_neg]
      omega
  | succ steps ih =>
      rw [shiftDown, ih (by omega)]
      by_cases isStart : i = start
      · rw [if_neg (by omega), if_pos (by omega), isStart, Function.update_self]
      · by_cases moved : start + 1 ≤ i ∧ i < start + 1 + steps
        · rw [if_pos moved, if_pos (by omega), Function.update_of_ne]
          intro same
          rw [Nat.add_assoc head i 1] at same
          have late := ringIndex_inj (by omega) (by omega) same
          omega
        · rw [if_neg moved, if_neg (by omega), Function.update_of_ne]
          intro same
          exact isStart (ringIndex_inj small (by omega) same)

/-- A shift from an entry on takes the entry out. -/
theorem RingHolds.shift (holds : RingHolds capacity slots head list) {index : Nat} (inside : index < list.length) :
    RingHolds capacity (shiftDown capacity head slots index (list.length - 1 - index)) head (list.eraseIdx index) := by
  have bound := holds.1
  have length := List.length_eraseIdx_of_lt inside
  refine ⟨by omega, ?_⟩
  intro i value atIndex
  have small : i < list.length - 1 := by
    rw [← length]
    exact (List.getElem?_eq_some_iff.mp atIndex).1
  rw [List.getElem?_eraseIdx] at atIndex
  rw [shiftDown_at (by omega) (by omega)]
  by_cases before : i < index
  · rw [if_pos before] at atIndex
    rw [if_neg (by omega)]
    exact holds.2 i value atIndex
  · rw [if_neg before] at atIndex
    rw [if_pos (by omega), Nat.add_assoc]
    exact holds.2 (i + 1) value atIndex

/-- The first slot with a value is the first index of the value in the list. -/
theorem RingHolds.find [DecidableEq A] (holds : RingHolds capacity slots head list) (value : A) :
    (List.range list.length).find? (fun i => slots ((head + i) % capacity) == some value) = list.findIdx? (· == value) := by
  have entry (i : Nat) (inside : i < list.length) : slots ((head + i) % capacity) = some list[i] :=
    holds.2 i _ (List.getElem?_eq_getElem inside)
  cases found : list.findIdx? (· == value) with
  | none =>
      rw [List.find?_range_eq_none]
      intro i inside
      rw [entry i inside]
      have differs := List.findIdx?_eq_none_iff.mp found list[i] (List.getElem_mem inside)
      simpa using differs
  | some index =>
      rw [List.find?_range_eq_some]
      obtain ⟨inside, isValue, first⟩ := List.findIdx?_eq_some_iff_getElem.mp found
      refine ⟨?_, List.mem_range.mpr inside, ?_⟩
      · rw [entry index inside]
        simpa using isValue
      · intro i earlier
        rw [entry i (by omega)]
        simpa using first i earlier

/-- The entries of a list by index. -/
theorem filterMap_range_getElem? (list : List A) : (List.range list.length).filterMap (fun i => list[i]?) = list := by
  induction list using List.reverseRecOn with
  | nil => rfl
  | append_singleton list value ih =>
      have early : (List.range list.length).filterMap (fun i => (list ++ [value])[i]?) =
          (List.range list.length).filterMap fun i => list[i]? := by
        apply List.filterMap_congr
        intro i inside
        rw [List.getElem?_append_left (List.mem_range.mp inside)]
      rw [List.length_append, List.length_singleton, List.range_succ, List.filterMap_append, early, ih]
      simp

/-- The slots from `head` on read back as the list. -/
theorem RingHolds.entries (holds : RingHolds capacity slots head list) :
    (List.range list.length).filterMap (fun i => slots ((head + i) % capacity)) = list := by
  have same : (List.range list.length).filterMap (fun i => slots ((head + i) % capacity)) =
      (List.range list.length).filterMap fun i => list[i]? := by
    apply List.filterMap_congr
    intro i inside
    have entry := List.getElem?_eq_getElem (List.mem_range.mp inside)
    rw [entry]
    exact holds.2 i _ entry
  rw [same]
  exact filterMap_range_getElem? list

/-- The first slots of a ring that starts at its first slot read back as the list. -/
theorem RingHolds.first_entries {count : Nat} (holds : RingHolds capacity slots 0 list) (length : list.length = count) :
    (List.range count).filterMap slots = list := by
  rw [← length]
  conv_rhs => rw [← holds.entries]
  apply List.filterMap_congr
  intro i inside
  rw [Nat.zero_add, Nat.mod_eq_of_lt (Nat.lt_of_lt_of_le (List.mem_range.mp inside) holds.1)]

/-- A store behind the entries keeps them. -/
theorem RingHolds.behind {i : Nat} (holds : RingHolds capacity slots head list) (free : list.length ≤ i) (small : i < capacity)
    (value : Option A) : RingHolds capacity (Function.update slots ((head + i) % capacity) value) head list := by
  refine ⟨holds.1, ?_⟩
  intro j other atIndex
  have inside := (List.getElem?_eq_some_iff.mp atIndex).1
  rw [Function.update_of_ne, holds.2 j other atIndex]
  intro same
  have equal := ringIndex_inj (by omega) small same
  omega

end

end DoccrOS.Lib
