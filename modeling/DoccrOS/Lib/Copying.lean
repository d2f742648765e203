import Mathlib.Tactic

namespace DoccrOS.Lib

section
variable {A V : Type} [DecidableEq A] {mem : A → V} {dst src : Nat → A} {count : Nat}

/-- A copy of cells one by one, from the first to the last. -/
def copyUp (mem : A → V) (dst src : Nat → A) : (count : Nat) → A → V
  | 0 => mem
  | count + 1 =>
    let mem := copyUp mem dst src count
    Function.update mem (dst count) (mem (src count))

/-- A copy of cells one by one, from the last to the first. -/
def copyDown (mem : A → V) (dst src : Nat → A) : (count : Nat) → A → V
  | 0 => mem
  | count + 1 => copyDown (Function.update mem (dst count) (mem (src count))) dst src count

/-- The target cells show what the source cells had before, and no other cell has changed. -/
structure Moved (mem mem' : A → V) (dst src : Nat → A) (count : Nat) : Prop where
  inside : ∀ i < count, mem' (dst i) = mem (src i)
  outside : ∀ address, (∀ i < count, address ≠ dst i) → mem' address = mem address

/-- The first cells of a range have different addresses. -/
def Distinct (range : Nat → A) (count : Nat) : Prop := ∀ i < count, ∀ j < count, range i = range j → i = j

theorem copyUp_outside (mem : A → V) (dst src : Nat → A) (count : Nat) {address : A} (outside : ∀ i < count, address ≠ dst i) :
    copyUp mem dst src count address = mem address := by
  induction count with
  | zero => rfl
  | succ count inductionHypothesis =>
      rw [copyUp, Function.update_of_ne (outside count (Nat.lt_succ_self count))]
      exact inductionHypothesis fun i inside => outside i (Nat.lt_succ_of_lt inside)

theorem copyDown_outside (mem : A → V) (dst src : Nat → A) (count : Nat) {address : A} (outside : ∀ i < count, address ≠ dst i) :
    copyDown mem dst src count address = mem address := by
  induction count generalizing mem with
  | zero => rfl
  | succ count inductionHypothesis =>
      rw [copyDown, inductionHypothesis _ fun i inside => outside i (Nat.lt_succ_of_lt inside)]
      exact Function.update_of_ne (outside count (Nat.lt_succ_self count)) _ _

/-- An ascending copy is right when no target cell is a later source cell. -/
theorem copyUp_moved (mem : A → V) (distinct : Distinct dst count) (behind : ∀ i < count, ∀ j < i, src i ≠ dst j) :
    Moved mem (copyUp mem dst src count) dst src count := by
  refine ⟨?_, fun address outside => copyUp_outside mem dst src count outside⟩
  induction count with
  | zero => exact fun i inside => absurd inside (Nat.not_lt_zero i)
  | succ count inductionHypothesis =>
      intro i inside
      rw [copyUp]
      rcases Nat.lt_succ_iff_lt_or_eq.mp inside with early | rfl
      · have other : dst i ≠ dst count := fun same =>
          early.ne (distinct i inside count (Nat.lt_succ_self count) same)
        rw [Function.update_of_ne other]
        apply inductionHypothesis _ _ i early
        · exact fun j small k small' => distinct j (Nat.lt_succ_of_lt small) k (Nat.lt_succ_of_lt small')
        · exact fun j small => behind j (Nat.lt_succ_of_lt small)
      · -- The source cell is not yet overwritten when its turn comes.
        rw [Function.update_self]
        exact copyUp_outside mem dst src i (behind i inside)

/-- A descending copy is right when no target cell is an earlier source cell. -/
theorem copyDown_moved (mem : A → V) (distinct : Distinct dst count) (ahead : ∀ i < count, ∀ j < i, src j ≠ dst i) :
    Moved mem (copyDown mem dst src count) dst src count := by
  refine ⟨?_, fun address outside => copyDown_outside mem dst src count outside⟩
  induction count generalizing mem with
  | zero => exact fun i inside => absurd inside (Nat.not_lt_zero i)
  | succ count inductionHypothesis =>
      intro i inside
      rw [copyDown]
      rcases Nat.lt_succ_iff_lt_or_eq.mp inside with early | rfl
      · -- The first store does not reach the earlier source cells.
        have kept := ahead count (Nat.lt_succ_self count) i early
        rw [← Function.update_of_ne kept (mem (src count)) mem]
        apply inductionHypothesis _ _ _ i early
        · exact fun j small k small' => distinct j (Nat.lt_succ_of_lt small) k (Nat.lt_succ_of_lt small')
        · exact fun j small => ahead j (Nat.lt_succ_of_lt small)
      · rw [copyDown_outside, Function.update_self]
        intro j early same
        exact early.ne' (distinct i inside j (Nat.lt_succ_of_lt early) same)

end

end DoccrOS.Lib
