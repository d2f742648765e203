import Mathlib.Tactic

namespace DoccrOS.Lib

section
variable {A L : Type}

/-- What stands a number of links behind a start; `none` is the end of the chain. -/
def follow (next : A → Option A) : (count : Nat) → (start : Option A) → Option A
  | 0, start => start
  | count + 1, start => follow next count (start.bind next)

/-- The links lead to the end of the chain. -/
def ChainEnds (next : A → Option A) (start : Option A) : Prop := ∃ count, follow next count start = none

/-- The links come back to an item of the chain. -/
def Circular (next : A → Option A) (start : Option A) : Prop :=
  ∃ before gap item, follow next before start = some item ∧ follow next (gap + 1) (some item) = some item

/-- A search along a chain for the first item that passes the test, with no result when the fuel runs out. -/
def search (next : A → Option A) (test : A → Bool) : (fuel : Nat) → (start : Option A) → Option (Option A)
  | 0, _ => none
  | _ + 1, none => some none
  | fuel + 1, some item => if test item then some (some item) else search next test fuel (next item)

variable {next : A → Option A} {start : Option A} {item : A} {test : A → Bool} {before after count fuel : Nat}

theorem follow_succ : follow next (count + 1) start = follow next count (start.bind next) := rfl

theorem follow_add : follow next (before + after) start = follow next after (follow next before start) := by
  induction before generalizing start with
  | zero => rw [Nat.zero_add, follow]
  | succ before inductionHypothesis =>
      rw [Nat.succ_add, follow_succ, inductionHypothesis]
      rfl

/-- Nothing stands behind the end. -/
theorem follow_none : follow next count none = none := by
  induction count with
  | zero => rfl
  | succ count inductionHypothesis => exact inductionHypothesis

/-- A chain that comes back to an item comes back to it over and over. -/
theorem follow_turns {gap : Nat} (turn : follow next (gap + 1) (some item) = some item) (turns : Nat) :
    follow next (turns * (gap + 1)) (some item) = some item := by
  induction turns with
  | zero => rw [Nat.zero_mul, follow]
  | succ turns inductionHypothesis => rw [Nat.succ_mul, follow_add, inductionHypothesis, turn]

theorem Circular.not_ends (circular : Circular next start) : ¬ ChainEnds next start := by
  rintro ⟨count, ended⟩
  obtain ⟨before, gap, item, reached, turn⟩ := circular
  have around := follow_turns turn count
  -- The turns go past the place where the chain ends.
  obtain ⟨rest, long⟩ : ∃ rest, before + count * (gap + 1) = count + rest :=
    Nat.exists_eq_add_of_le (Nat.le_add_left_of_le (Nat.le_mul_of_pos_right count (Nat.succ_pos gap)))
  have behind : follow next (before + count * (gap + 1)) start = some item := by rw [follow_add, reached, around]
  rw [long, follow_add, ended, follow_none] at behind
  cases behind

/-- In a finite type a chain without an end comes back to an item. -/
theorem circular_of_not_ends [Finite A] (endless : ¬ ChainEnds next start) : Circular next start := by
  have present : ∀ count, ∃ item, follow next count start = some item := fun count =>
    Option.ne_none_iff_exists'.mp fun ended => endless ⟨count, ended⟩
  choose visited visits using present
  obtain ⟨first, second, different, same⟩ := Finite.exists_ne_map_eq_of_infinite visited
  wlog earlier : first < second generalizing first second with swapped
  · exact swapped second first different.symm same.symm (by omega)
  obtain ⟨gap, rfl⟩ := Nat.exists_eq_add_of_lt earlier
  refine ⟨first, gap, visited first, visits first, ?_⟩
  have later := visits (first + gap + 1)
  rw [Nat.add_assoc, follow_add, visits first, ← Nat.add_assoc, ← same] at later
  exact later

theorem chainEnds_iff_not_circular [Finite A] : ChainEnds next start ↔ ¬ Circular next start :=
  ⟨fun ends circular => circular.not_ends ends, fun straight => Classical.not_not.mp fun endless =>
    straight (circular_of_not_ends endless)⟩

theorem search_some : search next test (fuel + 1) (some item) =
    if test item then some (some item) else search next test fuel (next item) := rfl

/-- A search returns exactly when the chain leads to its end or to an item that passes the test. -/
theorem search_returns : (∃ fuel result, search next test fuel start = some result) ↔
    ∃ count, ∀ item, follow next count start = some item → test item = true := by
  constructor
  · rintro ⟨fuel, result, returned⟩
    induction fuel generalizing start with
    | zero => cases returned
    | succ fuel inductionHypothesis =>
        cases start with
        | none => exact ⟨0, fun item reached => by cases reached⟩
        | some head =>
            cases passed : test head with
            | true =>
                refine ⟨0, fun item reached => ?_⟩
                cases reached
                exact passed
            | false =>
                rw [search_some, passed, if_neg Bool.false_ne_true] at returned
                obtain ⟨count, stops⟩ := inductionHypothesis returned
                exact ⟨count + 1, stops⟩
  · rintro ⟨count, stops⟩
    induction count generalizing start with
    | zero =>
        cases start with
        | none => exact ⟨1, none, rfl⟩
        | some head =>
            refine ⟨1, some head, ?_⟩
            rw [search_some, stops head rfl, if_pos rfl]
    | succ count inductionHypothesis =>
        cases start with
        | none => exact ⟨1, none, rfl⟩
        | some head =>
            cases passed : test head with
            | true =>
                refine ⟨1, some head, ?_⟩
                rw [search_some, passed, if_pos rfl]
            | false =>
                obtain ⟨fuel, result, returned⟩ := inductionHypothesis stops
                refine ⟨fuel + 1, result, ?_⟩
                rw [search_some, passed, if_neg Bool.false_ne_true]
                exact returned

/-- With more labels than items, the searches for all labels return exactly when the chain ends. -/
theorem search_returns_every_label [Finite A] [Finite L] [DecidableEq L] (label : A → L) (fewer : Nat.card A < Nat.card L) :
    (∀ wanted, ∃ fuel result, search next (fun item => decide (label item = wanted)) fuel start = some result) ↔
      ChainEnds next start := by
  constructor
  · intro returns
    have missed : ¬ Function.Surjective label := fun onto => absurd (Nat.card_le_card_of_surjective label onto) (by omega)
    obtain ⟨wanted, unused⟩ := not_forall.mp missed
    obtain ⟨count, stops⟩ := search_returns.mp (returns wanted)
    refine ⟨count, Option.eq_none_iff_forall_ne_some.mpr fun item reached => ?_⟩
    exact unused ⟨item, of_decide_eq_true (stops item reached)⟩
  · rintro ⟨count, ended⟩ wanted
    refine search_returns.mpr ⟨count, fun item reached => ?_⟩
    rw [ended] at reached
    cases reached

end

end DoccrOS.Lib
