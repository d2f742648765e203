import Mathlib.Tactic

namespace DoccrOS.Lib

/-- The error term of a line walk after the given numbers of steps along the two axes. -/
def lineError (dx dy : Nat) (taken : Nat × Nat) : Int := (taken.2 + 1) * dx - (taken.1 + 1) * dy

/-- The numbers of steps along the two axes after a number of rounds. The error term decides which axes take a step. -/
def lineWalk (dx dy : Nat) : Nat → Nat × Nat
  | 0 => (0, 0)
  | rounds + 1 =>
    let taken := lineWalk dx dy rounds
    let doubled := 2 * lineError dx dy taken
    (taken.1 + (if doubled > -dy then 1 else 0), taken.2 + if doubled < dx then 1 else 0)

/-- The number of short steps whose height is nearest to the line, and the lower one of two. -/
def nearestStep (long short rounds : Nat) : Nat := (2 * (rounds * short) + long - 1) / (2 * long)

/-- The largest height of a step above the line. -/
def overshoot (long short : Nat) : Nat := Nat.gcd long short * ((long / Nat.gcd long short - 1) / 2)

section
variable {long short rounds step dx dy : Nat}

/-- The nearest step is at most half a long side away from the line. -/
theorem nearestStep_iff (positive : 0 < long) : nearestStep long short rounds = step ↔
    2 * (rounds * short) ≤ 2 * (step * long) + long ∧ 2 * (step * long) < 2 * (rounds * short) + long := by
  have product : step * (2 * long) = 2 * (step * long) := by ring
  rw [nearestStep, Nat.div_eq_iff (by omega), product]
  omega

theorem lineError_swap (taken : Nat × Nat) : lineError dy dx taken.swap = -lineError dx dy taken := by
  rw [lineError, lineError]
  exact (neg_sub _ _).symm

/-- A step along an axis changes the error term by the length of the other one. -/
theorem lineError_add (dx dy : Nat) (taken : Nat × Nat) (right up : Nat) :
    lineError dx dy (taken.1 + right, taken.2 + up) = lineError dx dy taken - right * dy + up * dx := by
  rw [lineError, lineError]
  push_cast
  ring

/-- The walk does not depend on the names of the axes. -/
theorem lineWalk_swap (dx dy rounds : Nat) : lineWalk dy dx rounds = (lineWalk dx dy rounds).swap := by
  induction rounds with
  | zero => rfl
  | succ rounds inductionHypothesis =>
      rw [lineWalk, lineWalk, inductionHypothesis]
      simp only [lineError_swap, Prod.fst_swap, Prod.snd_swap, Prod.swap_prod_mk]
      have first : 2 * -lineError dx dy (lineWalk dx dy rounds) > -dx ↔ 2 * lineError dx dy (lineWalk dx dy rounds) < dx := by omega
      have second : 2 * -lineError dx dy (lineWalk dx dy rounds) < dy ↔ 2 * lineError dx dy (lineWalk dx dy rounds) > -dy := by omega
      simp only [first, second]

/-- Along a flat line every round takes a long step, and the short steps stay nearest to the line. -/
theorem lineWalk_flat (positive : 0 < long) (flat : short ≤ long) (rounds : Nat) :
    lineWalk long short rounds = (rounds, nearestStep long short rounds) := by
  induction rounds with
  | zero =>
      have start : nearestStep long short 0 = 0 := (nearestStep_iff positive).mpr (by omega)
      rw [lineWalk, start]
  | succ rounds inductionHypothesis =>
      generalize isStep : nearestStep long short rounds = step at inductionHypothesis
      have near := (nearestStep_iff positive).mp isStep
      have doubled : 2 * lineError long short (rounds, step) =
          2 * (step * long : Nat) + 2 * long - 2 * (rounds * short : Nat) - 2 * short := by
        rw [lineError]
        push_cast
        ring
      have product : (rounds + 1) * short = rounds * short + short := by ring
      have longStep : 2 * lineError long short (rounds, step) > -short := by
        rw [doubled]
        rcases Nat.lt_or_eq_of_le flat with steeper | rfl
        · omega
        · -- On the diagonal both numbers of steps agree.
          obtain rfl : step = rounds := by nlinarith
          omega
      rw [lineWalk, inductionHypothesis]
      simp only [longStep, if_true]
      congr 1
      symm
      rw [nearestStep_iff positive, product, doubled]
      split
      · have product' : (step + 1) * long = step * long + long := by ring
        omega
      · rw [Nat.add_zero]
        omega

/-- The error term along a flat line. -/
theorem lineError_flat (rounds step : Nat) : lineError long short (rounds, step) =
    (long : Int) - short + ((step * long : Nat) - (rounds * short : Nat)) := by
  rw [lineError]
  push_cast
  ring

theorem gcd_dvd_height (long short rounds step : Nat) :
    (Nat.gcd long short : Int) ∣ (step * long : Nat) - (rounds * short : Nat) :=
  Int.dvd_sub (Int.natCast_dvd_natCast.mpr ((Nat.gcd_dvd_left long short).mul_left step))
    (Int.natCast_dvd_natCast.mpr ((Nat.gcd_dvd_right long short).mul_left rounds))

/-- The heights below half a long side are the multiples of the common divisor up to the overshoot. -/
theorem le_overshoot (positive : 0 < long) (short : Nat) (height : Int) :
    2 * (Nat.gcd long short * height) < long ↔ (Nat.gcd long short : Int) * height ≤ overshoot long short := by
  obtain ⟨count, isLong⟩ := Nat.gcd_dvd_left long short
  have gcdPositive : 0 < Nat.gcd long short := Nat.gcd_pos_of_pos_left short positive
  have quotient : long / Nat.gcd long short = count := Nat.div_eq_of_eq_mul_right gcdPositive isLong
  have countPositive : 0 < count := Nat.pos_of_mul_pos_left (isLong ▸ positive)
  have scaled : (0 : Int) < (Nat.gcd long short : Int) := Int.natCast_pos.mpr gcdPositive
  have whole : (long : Int) = (Nat.gcd long short : Int) * (count : Int) := by exact_mod_cast isLong
  have least : 2 * ((Nat.gcd long short : Int) * height) = (Nat.gcd long short : Int) * (2 * height) := by ring
  rw [overshoot, quotient, whole, least, Nat.cast_mul, mul_lt_mul_iff_right₀ scaled, mul_le_mul_iff_right₀ scaled]
  omega

/-- No step is higher above the line. -/
theorem height_le (positive : 0 < long) (short rounds : Nat) :
    ((nearestStep long short rounds * long : Nat) : Int) - (rounds * short : Nat) ≤ overshoot long short := by
  generalize isStep : nearestStep long short rounds = step
  obtain ⟨_, above⟩ := (nearestStep_iff positive).mp isStep
  obtain ⟨height, isHeight⟩ := gcd_dvd_height long short rounds step
  rw [isHeight, ← le_overshoot positive short, ← isHeight]
  omega

/-- Some step is that high. -/
theorem height_attained (positive : 0 < long) (short : Nat) :
    ∃ rounds < long, ((nearestStep long short rounds * long : Nat) : Int) - (rounds * short : Nat) = overshoot long short := by
  generalize isCount : (long / Nat.gcd long short - 1) / 2 = count
  have high : overshoot long short = Nat.gcd long short * count := by rw [overshoot, isCount]
  have below := (le_overshoot positive short count).mpr (by rw [high, Nat.cast_mul])
  have longPositive : (0 : Int) < long := Int.natCast_pos.mpr positive
  -- The coefficients of the common divisor give the round in which the walk is that high.
  have combination := Nat.gcd_eq_gcd_ab long short
  obtain ⟨rounds, isRounds⟩ := Int.eq_ofNat_of_zero_le (Int.emod_nonneg (-(count * Nat.gcdB long short : Int)) longPositive.ne')
  have inside := Int.emod_lt_of_pos (-(count * Nat.gcdB long short : Int)) longPositive
  have division := Int.emod_add_mul_ediv (-(count * Nat.gcdB long short : Int)) long
  generalize (-(count * Nat.gcdB long short : Int)) / long = turns at division
  rw [isRounds] at inside division
  generalize isSteps : count * Nat.gcdA long short - turns * short = steps
  have balance : steps * long - rounds * short = overshoot long short := by
    rw [high, Nat.cast_mul, combination, ← isSteps]
    linear_combination (-(short : Int)) * division
  have nonneg : 0 ≤ steps := by
    by_contra negative
    have product : 0 ≤ (rounds : Int) * short := by positivity
    nlinarith
  obtain ⟨step, rfl⟩ := Int.eq_ofNat_of_zero_le nonneg
  have heights : ((step * long : Nat) : Int) - (rounds * short : Nat) = overshoot long short := by
    push_cast
    exact balance
  have isStep : nearestStep long short rounds = step := by
    rw [nearestStep_iff positive]
    omega
  refine ⟨rounds, by omega, ?_⟩
  rw [isStep]
  exact heights

/-- A flat walk has not taken more short steps than the line has. -/
theorem nearestStep_le (positive : 0 < long) (early : rounds ≤ long) : nearestStep long short rounds ≤ short := by
  generalize isStep : nearestStep long short rounds = step
  obtain ⟨_, above⟩ := (nearestStep_iff positive).mp isStep
  have most : rounds * short ≤ long * short := Nat.mul_le_mul_right short early
  by_contra more
  have product : (short + 1) * long ≤ step * long := Nat.mul_le_mul_right long (by omega)
  nlinarith

theorem nearestStep_last (positive : 0 < long) : nearestStep long short long = short := by
  rw [nearestStep_iff positive, Nat.mul_comm short long]
  omega

/-- A walk does not step beyond the end of its line. -/
theorem lineWalk_within (early : rounds ≤ max dx dy) : (lineWalk dx dy rounds).1 ≤ dx ∧ (lineWalk dx dy rounds).2 ≤ dy := by
  have flat {long short : Nat} (short_le : short ≤ long) (early : rounds ≤ long) :
      (lineWalk long short rounds).1 ≤ long ∧ (lineWalk long short rounds).2 ≤ short := by
    rcases Nat.eq_zero_or_pos long with rfl | positive
    · obtain rfl := Nat.le_zero.mp early
      exact ⟨Nat.le_refl 0, Nat.zero_le short⟩
    · rw [lineWalk_flat positive short_le]
      exact ⟨early, nearestStep_le positive early⟩
  rcases Nat.le_total dy dx with isFlat | isSteep
  · exact flat isFlat (early.trans_eq (Nat.max_eq_left isFlat))
  · rw [lineWalk_swap dy dx]
    exact (flat isSteep (early.trans_eq (Nat.max_eq_right isSteep))).symm

/-- A walk arrives after as many rounds as the longer side has steps. -/
theorem lineWalk_last (dx dy : Nat) : lineWalk dx dy (max dx dy) = (dx, dy) := by
  have flat {long short : Nat} (short_le : short ≤ long) : lineWalk long short long = (long, short) := by
    rcases Nat.eq_zero_or_pos long with rfl | positive
    · obtain rfl := Nat.le_zero.mp short_le
      rfl
    · rw [lineWalk_flat positive short_le, nearestStep_last positive]
  rcases Nat.le_total dy dx with isFlat | isSteep
  · rw [Nat.max_eq_left isFlat, flat isFlat]
  · rw [Nat.max_eq_right isSteep, lineWalk_swap, flat isSteep]
    rfl

/-- It does not arrive earlier. -/
theorem lineWalk_before (early : rounds < max dx dy) : lineWalk dx dy rounds ≠ (dx, dy) := by
  have flat {long short : Nat} (short_le : short ≤ long) (early : rounds < long) : (lineWalk long short rounds).1 ≠ long := by
    rw [lineWalk_flat (by omega) short_le]
    exact early.ne
  intro same
  rcases Nat.le_total dy dx with isFlat | isSteep
  · exact flat isFlat (early.trans_eq (Nat.max_eq_left isFlat)) (congrArg Prod.fst same)
  · refine flat isSteep (early.trans_eq (Nat.max_eq_right isSteep)) ?_
    rw [lineWalk_swap]
    exact congrArg Prod.snd same

/-- Two rounds that follow each other are at most one step apart along each axis. -/
theorem lineWalk_step (dx dy rounds : Nat) :
    ((lineWalk dx dy (rounds + 1)).1 = (lineWalk dx dy rounds).1 ∨ (lineWalk dx dy (rounds + 1)).1 = (lineWalk dx dy rounds).1 + 1) ∧
      ((lineWalk dx dy (rounds + 1)).2 = (lineWalk dx dy rounds).2 ∨
        (lineWalk dx dy (rounds + 1)).2 = (lineWalk dx dy rounds).2 + 1) := by
  rw [lineWalk]
  dsimp only
  split <;> split <;> simp

/-- The error term along a flat line lies between half a long side below zero and the overshoot. -/
theorem lineError_range (positive : 0 < long) (flat : short ≤ long) (rounds : Nat) :
    -(long : Int) ≤ 2 * lineError long short (lineWalk long short rounds) ∧
      lineError long short (lineWalk long short rounds) ≤ (long : Int) - short + overshoot long short := by
  have high := height_le positive short rounds
  rw [lineWalk_flat positive flat, lineError_flat]
  have near := (nearestStep_iff positive).mp (Eq.refl (nearestStep long short rounds))
  omega

theorem overshoot_lt (positive : 0 < long) (short : Nat) : 2 * overshoot long short < long := by
  have below := (le_overshoot positive short ((long / Nat.gcd long short - 1) / 2 : Nat)).mpr
    (by rw [overshoot, Nat.cast_mul])
  rw [overshoot]
  exact_mod_cast below

/-- The error term of every round fits below a limit exactly when the overshoot does. -/
theorem lineError_fits {limit : Nat} (positive : 0 < max dx dy) (small : max dx dy ≤ limit) :
    (∀ rounds < max dx dy, -(limit : Int) ≤ lineError dx dy (lineWalk dx dy rounds) ∧
        lineError dx dy (lineWalk dx dy rounds) < limit) ↔
      if dy ≤ dx then dx - dy + overshoot dx dy < limit else dy - dx + overshoot dy dx ≤ limit := by
  split
  · rename_i isFlat
    rw [Nat.max_eq_left isFlat] at positive small ⊢
    constructor
    · intro fits
      obtain ⟨rounds, early, high⟩ := height_attained positive dy
      have most := (fits rounds early).2
      rw [lineWalk_flat positive isFlat, lineError_flat, high] at most
      omega
    · intro fits rounds early
      have range := lineError_range positive isFlat rounds
      omega
  · rename_i isSteep
    have isSteep : dx ≤ dy := by omega
    rw [Nat.max_eq_right isSteep] at positive small ⊢
    have mirrored (rounds : Nat) : lineError dx dy (lineWalk dx dy rounds) = -lineError dy dx (lineWalk dy dx rounds) := by
      rw [lineWalk_swap dy dx, lineError_swap]
    constructor
    · intro fits
      obtain ⟨rounds, early, high⟩ := height_attained positive dx
      have least := (fits rounds early).1
      rw [mirrored, lineWalk_flat positive isSteep, lineError_flat, high] at least
      omega
    · intro fits rounds early
      have range := lineError_range positive isSteep rounds
      rw [mirrored]
      omega

/-- The error term is at most one and a half of the longer side. -/
theorem lineError_bound (positive : 0 < max dx dy) (rounds : Nat) :
    -(3 * (max dx dy : Nat) : Int) ≤ 2 * lineError dx dy (lineWalk dx dy rounds) ∧
      2 * lineError dx dy (lineWalk dx dy rounds) ≤ 3 * (max dx dy : Nat) := by
  rcases Nat.le_total dy dx with isFlat | isSteep
  · rw [Nat.max_eq_left isFlat] at positive ⊢
    have range := lineError_range positive isFlat rounds
    have high := overshoot_lt positive dy
    omega
  · rw [Nat.max_eq_right isSteep] at positive ⊢
    have range := lineError_range positive isSteep rounds
    have high := overshoot_lt positive dx
    rw [lineWalk_swap dy dx, lineError_swap]
    omega

end

end DoccrOS.Lib
