import Mathlib.Tactic

namespace DoccrOS.Lib

/-- A run takes steps that are allowed and that return. -/
inductive Run {S O E : Type} (step : S → O → Except E S) (allowed : S → O → Prop) : S → List O → S → Prop
  | nil (state : S) : Run step allowed state [] state
  | cons {state middle final : S} {op : O} {ops : List O} (permitted : allowed state op)
      (returned : step state op = .ok middle) (rest : Run step allowed middle ops final) :
      Run step allowed state (op :: ops) final

section
variable {S O E : Type} {step : S → O → Except E S} {allowed : S → O → Prop} {state final : S} {ops : List O}

/-- What every allowed step keeps holds after every run. -/
theorem Run.invariant (run : Run step allowed state ops final) (inv : S → Prop)
    (kept : ∀ before op after, inv before → allowed before op → step before op = .ok after → inv after)
    (start : inv state) : inv final := by
  induction run with
  | nil state => exact start
  | cons permitted returned rest ih => exact ih (kept _ _ _ start permitted returned)

/-- A run stays a run when more steps are allowed. -/
theorem Run.mono {more : S → O → Prop} (run : Run step allowed state ops final)
    (wider : ∀ before op, allowed before op → more before op) : Run step more state ops final := by
  induction run with
  | nil state => exact Run.nil state
  | cons permitted returned rest ih => exact Run.cons (wider _ _ permitted) returned ih

theorem Run.append {middle : S} {more : List O} (first : Run step allowed state ops middle)
    (second : Run step allowed middle more final) : Run step allowed state (ops ++ more) final := by
  induction first with
  | nil state => exact second
  | cons permitted returned rest ih => exact Run.cons permitted returned (ih second)

/-- This executes a run and checks that every step is allowed. -/
def exec (step : S → O → Except E S) (permits : S → O → Bool) : List O → S → Option S
  | [], state => some state
  | op :: ops, state =>
    if permits state op then
      match step state op with
      | .ok middle => exec step permits ops middle
      | .error _ => none
    else none

/-- An executed run is a run. -/
theorem Run.of_exec {permits : S → O → Bool} (executed : exec step permits ops state = some final) :
    Run step (fun state op => permits state op = true) state ops final := by
  induction ops generalizing state with
  | nil =>
      injection executed with same
      rw [same]
      exact Run.nil final
  | cons op ops ih =>
      rw [exec] at executed
      by_cases permitted : permits state op = true
      · rw [if_pos permitted] at executed
        cases returned : step state op with
        | error halt => simp [returned] at executed
        | ok middle =>
            rw [returned] at executed
            exact Run.cons permitted returned (ih executed)
      · rw [if_neg permitted] at executed
        cases executed

/-- A computed check of the last state shows that a run with the checked property exists. -/
theorem Run.exists_of_check {permits : S → O → Bool} {check : S → Bool}
    (checked : (exec step permits ops state).any check = true) :
    ∃ final, Run step (fun state op => permits state op = true) state ops final ∧ check final = true := by
  cases executed : exec step permits ops state with
  | none =>
      rw [executed] at checked
      cases checked
  | some final =>
      rw [executed] at checked
      exact ⟨final, Run.of_exec executed, checked⟩

/-- This takes one more step and checks it. -/
def checkStep (step : S → O → Except E S) (op : O) (check : S → S → Bool) (before : S) : Bool :=
  match step before op with
  | .ok after => check before after
  | .error _ => false

/-- A checked step returns. -/
theorem exists_of_checkStep {op : O} {check : S → S → Bool} (checked : checkStep step op check state = true) :
    ∃ after, step state op = .ok after ∧ check state after = true := by
  unfold checkStep at checked
  cases returned : step state op with
  | error halt =>
      rw [returned] at checked
      cases checked
  | ok after =>
      rw [returned] at checked
      exact ⟨after, rfl, checked⟩

/-- A computed value shows that a call returns. -/
theorem exists_of_toOption {A B : Type} {call : Except E A} {f : A → B} {value : B}
    (checked : (call.map f).toOption = some value) : ∃ result, call = .ok result ∧ f result = value := by
  cases call with
  | error halt => cases checked
  | ok result => exact ⟨result, rfl, Option.some.inj checked⟩

/-- A computed check of the step after a run. -/
theorem Run.exists_step_of_check {permits : S → O → Bool} {op : O} {check : S → S → Bool}
    (checked : (exec step permits ops state).any (checkStep step op check) = true) :
    ∃ before after, Run step (fun state op => permits state op = true) state ops before ∧
      step before op = .ok after ∧ check before after = true := by
  obtain ⟨before, run, shown⟩ := Run.exists_of_check checked
  obtain ⟨after, returned, holds⟩ := exists_of_checkStep shown
  exact ⟨before, after, run, returned, holds⟩

end

section
variable {S T O A : Type} {concrete : S → O → A × S} {abstract : T → O → A × T}

/-- The answers to a list of operations, with the last state. -/
def respond (step : S → O → A × S) : List O → S → List A × S
  | [], state => ([], state)
  | op :: ops, state =>
    let answer := step state op
    let rest := respond step ops answer.2
    (answer.1 :: rest.1, rest.2)

/-- Two systems whose steps give the same answers and keep a relation do so in every run. -/
theorem respond_refines {related : S → T → Prop}
    (steps : ∀ s t op, related s t → (concrete s op).1 = (abstract t op).1 ∧ related (concrete s op).2 (abstract t op).2)
    {s : S} {t : T} (start : related s t) (ops : List O) :
    (respond concrete ops s).1 = (respond abstract ops t).1 ∧ related (respond concrete ops s).2 (respond abstract ops t).2 := by
  induction ops generalizing s t with
  | nil => exact ⟨rfl, start⟩
  | cons op ops inductionHypothesis =>
      obtain ⟨same, next⟩ := steps s t op start
      obtain ⟨rest, last⟩ := inductionHypothesis next
      exact ⟨congrArg₂ List.cons same rest, last⟩

end

/-- An invariant of a counted loop that may stop holds after every complete pass. -/
theorem foldlM_range {ε A : Type} {body : A → Nat → Except ε A} {inv : Nat → A → Prop} {start final : A} {count : Nat}
    (initial : inv 0 start)
    (step : ∀ i state next, i < count → inv i state → body state i = .ok next → inv (i + 1) next)
    (returned : (List.range count).foldlM body start = .ok final) : inv count final := by
  induction count generalizing final with
  | zero =>
      injection returned with same
      rw [← same]
      exact initial
  | succ count ih =>
      rw [List.range_succ, List.foldlM_append] at returned
      cases before : (List.range count).foldlM body start with
      | error stopped => simp [before, bind, Except.bind] at returned
      | ok state =>
          have held := ih (fun i state next small => step i state next (by omega)) before
          simp only [before, bind, Except.bind, List.foldlM_cons, List.foldlM_nil] at returned
          cases last : body state count with
          | error stopped => simp [last] at returned
          | ok next =>
              simp only [last, pure, Except.pure] at returned
              injection returned with same
              rw [← same]
              exact step count state next (by omega) held last

/-- An invariant of a counted loop holds after its passes. -/
theorem foldl_range {A : Type} {body : A → Nat → A} {inv : Nat → A → Prop} {start : A} {count : Nat}
    (initial : inv 0 start) (step : ∀ i state, i < count → inv i state → inv (i + 1) (body state i)) :
    inv count ((List.range count).foldl body start) := by
  induction count with
  | zero => exact initial
  | succ count ih =>
      rw [List.range_succ, List.foldl_append]
      exact step count _ (by omega) (ih fun i state small => step i state (by omega))

end DoccrOS.Lib
