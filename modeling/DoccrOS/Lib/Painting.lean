import Mathlib.Tactic

namespace DoccrOS.Lib

section
variable {S O I V : Type} {good : S → Prop} {value : S → I → V} {step : S → O → S} {touches : O → I → Prop}
  {colour : O → V} {start : S} {ops : List O} {cell : I}

/-- An operation gives its colour to the cells that it touches and leaves the other cells alone. -/
structure Painting (good : S → Prop) (value : S → I → V) (step : S → O → S) (touches : O → I → Prop)
    (colour : O → V) : Prop where
  keeps : ∀ {state op}, good state → good (step state op)
  painted : ∀ {state op cell}, good state → touches op cell → value (step state op) cell = colour op
  left : ∀ {state op cell}, good state → ¬touches op cell → value (step state op) cell = value state cell

variable (painting : Painting good value step touches colour)
include painting

theorem Painting.run_keeps (ready : good start) : good (ops.foldl step start) := by
  induction ops generalizing start with
  | nil => exact ready
  | cons op ops inductionHypothesis => exact inductionHypothesis (painting.keeps ready)

/-- A cell that no operation touches keeps its value. -/
theorem Painting.untouched (ready : good start) (apart : ∀ op ∈ ops, ¬touches op cell) :
    value (ops.foldl step start) cell = value start cell := by
  induction ops generalizing start with
  | nil => rfl
  | cons op ops inductionHypothesis =>
      rw [List.forall_mem_cons] at apart
      rw [List.foldl_cons, inductionHypothesis (painting.keeps ready) apart.2]
      exact painting.left ready apart.1

/-- The order of the operations that touch a cell does not matter when they agree on the colour. -/
theorem Painting.agreed {agreed : V} (ready : good start) (touched : ∃ op ∈ ops, touches op cell)
    (same : ∀ op ∈ ops, touches op cell → colour op = agreed) : value (ops.foldl step start) cell = agreed := by
  induction ops generalizing start with
  | nil =>
      obtain ⟨op, member, _⟩ := touched
      cases member
  | cons op ops inductionHypothesis =>
      rw [List.forall_mem_cons] at same
      rw [List.foldl_cons]
      by_cases again : ∃ later ∈ ops, touches later cell
      · exact inductionHypothesis (painting.keeps ready) again same.2
      · push Not at again
        rw [painting.untouched (painting.keeps ready) again]
        have here : touches op cell := by
          obtain ⟨painter, member, touching⟩ := touched
          rcases List.mem_cons.mp member with rfl | later
          · exact touching
          · exact absurd touching (again painter later)
        rw [painting.painted ready here]
        exact same.1 here

end

/-- Operations of one colour give it to every cell that one of them touches. -/
theorem Painting.foldl_eq {S I V : Type} [DecidableEq I] {good : S → Prop} {value : S → I → V} {step : S → I → S}
    {colour : V} (painting : Painting good value step Eq fun _ => colour) {start : S} (ready : good start)
    (cells : List I) (cell : I) :
    value (cells.foldl step start) cell = if cell ∈ cells then colour else value start cell := by
  split
  next member => exact painting.agreed ready ⟨cell, member, rfl⟩ fun _ _ _ => rfl
  next apart =>
      apply painting.untouched ready
      rintro other member rfl
      exact apart member

end DoccrOS.Lib
