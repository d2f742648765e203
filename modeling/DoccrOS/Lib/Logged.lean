import Mathlib.Tactic

namespace DoccrOS.Lib

/-- A computation with the accesses that it makes, in their order. -/
structure Logged (X E A : Type) where
  log : List X
  result : Except E A

instance {X E : Type} : Monad (Logged X E) where
  pure value := ⟨[], .ok value⟩
  bind computation next :=
    match computation.result with
    | .ok value => ⟨computation.log ++ (next value).log, (next value).result⟩
    | .error halt => ⟨computation.log, .error halt⟩

/-- This gives a value and logs accesses. -/
def Logged.access {X E A : Type} (log : List X) (value : A) : Logged X E A := ⟨log, .ok value⟩

/-- A computation without an access. -/
def Logged.lift {X E A : Type} (result : Except E A) : Logged X E A := ⟨[], result⟩

/-- The same computation under other names of its accesses. -/
def Logged.tag {X Y E A : Type} (computation : Logged X E A) (name : X → Y) : Logged Y E A :=
  ⟨computation.log.map name, computation.result⟩

/-- Every access of the computation has the property. -/
def Logged.Only {X E A : Type} (computation : Logged X E A) (allowed : X → Prop) : Prop :=
  ∀ entry ∈ computation.log, allowed entry

section
variable {X E A B : Type} {computation other : Logged X E A} {next : A → Logged X E B} {allowed : X → Prop} {value : A}
  {entry : X} {entries : List X} {condition : Prop} [Decidable condition]

@[simp] theorem Logged.result_pure : (pure value : Logged X E A).result = .ok value := rfl

@[simp] theorem Logged.result_access : (Logged.access entries value : Logged X E A).result = .ok value := rfl

@[simp] theorem Logged.result_lift {result : Except E A} : (Logged.lift result : Logged X E A).result = result := rfl

@[simp] theorem Logged.result_bind :
    (computation >>= next).result = computation.result >>= fun value => (next value).result := by
  obtain ⟨log, result⟩ := computation
  cases result <;> rfl

@[simp] theorem Logged.result_ite :
    (if condition then computation else other).result = if condition then computation.result else other.result := by
  split <;> rfl

theorem Logged.access_bind {next : A → Logged X E B} : (Logged.access entries value : Logged X E A) >>= next =
    ⟨entries ++ (next value).log, (next value).result⟩ := rfl

theorem Logged.lift_ok_bind {next : A → Logged X E B} : (Logged.lift (.ok value) : Logged X E A) >>= next = next value := rfl

/-- The accesses of a sequence are those of its parts. -/
theorem Logged.mem_bind : entry ∈ (computation >>= next).log ↔
    entry ∈ computation.log ∨ ∃ value, computation.result = .ok value ∧ entry ∈ (next value).log := by
  obtain ⟨log, result⟩ := computation
  cases result with
  | error halt =>
      change entry ∈ log ↔ _
      simp
  | ok value =>
      change entry ∈ log ++ (next value).log ↔ _
      simp

theorem Logged.only_bind : (computation >>= next).Only allowed ↔
    computation.Only allowed ∧ ∀ value, computation.result = .ok value → (next value).Only allowed := by
  constructor
  · intro only
    refine ⟨fun entry inside => only entry (Logged.mem_bind.mpr (Or.inl inside)), ?_⟩
    intro value returned entry inside
    exact only entry (Logged.mem_bind.mpr (Or.inr ⟨value, returned, inside⟩))
  · rintro ⟨first, second⟩ entry inside
    rcases Logged.mem_bind.mp inside with early | ⟨value, returned, late⟩
    · exact first entry early
    · exact second value returned entry late

@[simp] theorem Logged.only_pure : (pure value : Logged X E A).Only allowed := fun _ inside => absurd inside List.not_mem_nil

@[simp] theorem Logged.only_lift {result : Except E A} : (Logged.lift result : Logged X E A).Only allowed :=
  fun _ inside => absurd inside List.not_mem_nil

theorem Logged.Only.bind (first : computation.Only allowed) (rest : ∀ value, (next value).Only allowed) :
    (computation >>= next).Only allowed :=
  Logged.only_bind.mpr ⟨first, fun value _ => rest value⟩

/-- The rest needs the property only for the value that the first part gives. -/
theorem Logged.only_bind_value (returned : computation.result = .ok value) :
    (computation >>= next).Only allowed ↔ computation.Only allowed ∧ (next value).Only allowed := by
  rw [Logged.only_bind, returned]
  exact and_congr_right' ⟨fun rest => rest value rfl, fun rest other given => Except.ok.inj given ▸ rest⟩

theorem Logged.Only.bind_value (first : computation.Only allowed) (returned : computation.result = .ok value)
    (rest : (next value).Only allowed) : (computation >>= next).Only allowed :=
  (Logged.only_bind_value returned).mpr ⟨first, rest⟩

/-- A choice needs the property in the branch that it takes. -/
theorem Logged.only_ite : (if condition then computation else other).Only allowed ↔
    (condition → computation.Only allowed) ∧ (¬condition → other.Only allowed) := by
  by_cases holds : condition <;> simp [holds]

/-- A test of the value that stops the computation adds no access. -/
theorem Logged.Only.guard {refused : A → Prop} [DecidablePred refused] {halted : B} (first : computation.Only allowed)
    (rest : ∀ value, (next value).Only allowed) :
    (computation >>= fun value => if refused value then pure halted else next value).Only allowed :=
  first.bind fun value => Logged.only_ite.mpr ⟨fun _ => Logged.only_pure, fun _ => rest value⟩

@[simp] theorem Logged.only_access :
    (Logged.access entries value : Logged X E A).Only allowed ↔ ∀ entry ∈ entries, allowed entry := Iff.rfl

/-- The computation makes allowed accesses only, and the value that it returns has the property. -/
structure Logged.Safe (computation : Logged X E A) (allowed : X → Prop) (ensured : A → Prop) : Prop where
  only : computation.Only allowed
  returned : ∀ value, computation.result = .ok value → ensured value

variable {ensured : A → Prop} {assured : B → Prop}

theorem Logged.Safe.bind (first : computation.Safe allowed ensured)
    (rest : ∀ value, ensured value → (next value).Safe allowed assured) : (computation >>= next).Safe allowed assured := by
  constructor
  · exact Logged.only_bind.mpr ⟨first.only, fun value given => (rest value (first.returned value given)).only⟩
  · intro value given
    rw [Logged.result_bind] at given
    cases middle : computation.result with
    | error halt =>
        rw [middle] at given
        cases given
    | ok passed =>
        rw [middle] at given
        exact (rest passed (first.returned passed middle)).returned value given

theorem Logged.Safe.pure (holds : ensured value) : (Pure.pure value : Logged X E A).Safe allowed ensured :=
  ⟨Logged.only_pure, fun _ given => Except.ok.inj given ▸ holds⟩

theorem Logged.Safe.access (inside : ∀ entry ∈ entries, allowed entry) (holds : ensured value) :
    (Logged.access entries value : Logged X E A).Safe allowed ensured :=
  ⟨inside, fun _ given => Except.ok.inj given ▸ holds⟩

theorem Logged.Safe.ite (first : condition → computation.Safe allowed ensured)
    (second : ¬condition → other.Safe allowed ensured) : (if condition then computation else other).Safe allowed ensured := by
  by_cases holds : condition
  · rw [if_pos holds]
    exact first holds
  · rw [if_neg holds]
    exact second holds

/-- A loop keeps what each round keeps. -/
theorem Logged.Safe.foldlM {items : List B} {body : A → B → Logged X E A} {kept : A → Prop} {state : A} (start : kept state)
    (round : ∀ state, kept state → ∀ item ∈ items, (body state item).Safe allowed kept) :
    (items.foldlM body state).Safe allowed kept := by
  induction items generalizing state with
  | nil => exact Logged.Safe.pure start
  | cons item items inductionHypothesis =>
      rw [List.foldlM_cons]
      apply (round state start item List.mem_cons_self).bind
      intro value held
      exact inductionHypothesis held fun state kept later inside => round state kept later (List.mem_cons_of_mem _ inside)

/-- A loop whose rounds all return gives the value of the fold. -/
theorem Logged.result_foldlM {items : List B} {body : A → B → Logged X E A} {value : A → B → A} {state : A}
    (round : ∀ state item, (body state item).result = .ok (value state item)) :
    (items.foldlM body state).result = .ok (items.foldl value state) := by
  induction items generalizing state with
  | nil => rfl
  | cons item items inductionHypothesis =>
      rw [List.foldlM_cons, Logged.result_bind, round]
      exact inductionHypothesis

theorem Logged.Safe.mono {weaker : X → Prop} (safe : computation.Safe allowed ensured)
    (implies : ∀ entry, allowed entry → weaker entry) : computation.Safe weaker ensured :=
  ⟨fun entry inside => implies entry (safe.only entry inside), safe.returned⟩

theorem Logged.Safe.tag {Y : Type} {name : X → Y} {named : Y → Prop} (safe : computation.Safe allowed ensured)
    (implies : ∀ entry, allowed entry → named (name entry)) : (computation.tag name).Safe named ensured := by
  refine ⟨fun entry inside => ?_, safe.returned⟩
  obtain ⟨origin, logged, isEntry⟩ := List.mem_map.mp inside
  rw [← isEntry]
  exact implies origin (safe.only origin logged)

end

end DoccrOS.Lib
