import DoccrOS.Construction.Screen.Draw
import DoccrOS.Lib.LineWalk

namespace DoccrOS.Screen
open Lib

/-- A coordinate after a number of steps in a direction. -/
def along (start : BitVec 32) (s : Int) (steps : Nat) : BitVec 32 := start + BitVec.ofInt 32 (s * steps)

/-- The number of steps between two coordinates. -/
def stepsBetween (start stop : BitVec 32) : Nat := ((stop.toNat : Int) - start.toNat).natAbs

/-- Two points differ by at most one in each coordinate. -/
def NearPoints (p q : Point) : Prop := stepsBetween p.1 q.1 ≤ 1 ∧ stepsBetween p.2 q.2 ≤ 1

/-- The points of a line: as many as the longer side has steps, and one, from the first to the last without a gap. -/
structure LineArrives (x0 y0 x1 y1 : BitVec 32) (points : List Point) : Prop where
  length : points.length = max (stepsBetween x0 x1) (stepsBetween y0 y1) + 1
  first : points.head? = some (x0, y0)
  last : points.getLast? = some (x1, y1)
  near : ∀ i p q, points[i]? = some p → points[i + 1]? = some q → NearPoints p q

/-- The function ends after it has plotted such points. No number overflows. -/
def LineDrawn (x0 y0 x1 y1 : BitVec 32) : Prop :=
  ∀ d color, ∃ fuel d', (drawLine fuel d x0 y0 x1 y1 color).result = .ok d' ∧
    LineArrives x0 y0 x1 y1 (drawLine fuel d x0 y0 x1 y1 color).log

/-- The doubled error term of a line with these sides fits in an `int`. -/
abbrev LineFits (dx dy : Nat) : Prop :=
  if dy ≤ dx then dx - dy + overshoot dx dy < 2 ^ 30 else dy - dx + overshoot dy dx ≤ 2 ^ 30

section
variable {start stop x0 y0 x1 y1 color : BitVec 32} {steps rounds fuel dx dy : Nat} {sx sy : Int} {d : Display}

theorem along_zero (start : BitVec 32) (s : Int) : along start s 0 = start := by
  rw [along, Nat.cast_zero, mul_zero]
  exact BitVec.add_zero start

theorem along_succ (start : BitVec 32) (s : Int) (steps : Nat) :
    along start s (steps + 1) = along start s steps + BitVec.ofInt 32 s := by
  rw [along, along, Nat.cast_succ, mul_add, mul_one, BitVec.ofInt_add, BitVec.add_assoc]

/-- One axis of a line between small coordinates. -/
structure Axis (start stop : BitVec 32) (s : Int) (steps : Nat) : Prop where
  small : steps < 2 ^ 30
  distance : distance start stop = .ok steps
  direction : direction start stop = s
  between : ∀ taken ≤ steps, ((along start s taken).toNat : Int) = start.toNat + s * taken
  unit : s = 1 ∨ s = -1
  arrives : (start.toNat : Int) + s * steps = stop.toNat

theorem axis_of_small (small : start.toNat < 2 ^ 30) (small' : stop.toNat < 2 ^ 30) :
    Axis start stop (direction start stop) (stepsBetween start stop) := by
  have forward : start < stop ↔ start.toNat < stop.toNat := BitVec.lt_def
  have difference : (stop - start).toInt = (stop.toNat : Int) - start.toNat := by
    rw [BitVec.toInt_eq_toNat_cond, BitVec.toNat_sub]
    split <;> omega
  refine ⟨by unfold stepsBetween; omega, ?_, rfl, ?_, ?_, ?_⟩
  · rw [distance, difference, stepsBetween]
    split
    · rw [checkedInt, if_pos (by omega)]
      congr 1
      omega
    · congr 1
      omega
  · intro taken early
    rw [stepsBetween] at early
    simp only [along, BitVec.toNat_add, BitVec.toNat_ofInt, direction, forward]
    split <;> omega
  · rw [direction]
    split
    · exact Or.inl rfl
    · exact Or.inr rfl
  · simp only [direction, stepsBetween, forward]
    split <;> omega

/-- A coordinate on the way is the last one only after all steps. -/
theorem Axis.eq_stop (axis : Axis start stop sx dx) (early : steps ≤ dx) : along start sx steps = stop ↔ steps = dx := by
  have here := axis.between steps early
  have there := axis.between dx (Nat.le_refl dx)
  have arrives := axis.arrives
  constructor
  · intro same
    rw [same] at here
    rcases axis.unit with rfl | rfl <;> omega
  · rintro rfl
    apply BitVec.eq_of_toNat_eq
    omega

/-- One more step changes a coordinate by one. -/
theorem Axis.near (axis : Axis start stop sx dx) {next : Nat} (early : next ≤ dx) (step : next = steps ∨ next = steps + 1) :
    stepsBetween (along start sx steps) (along start sx next) ≤ 1 := by
  have here := axis.between steps (by omega)
  have there := axis.between next early
  rw [stepsBetween, here, there]
  rcases axis.unit with rfl | rfl <;> omega

/-- The point after a number of rounds. -/
def linePoint (x0 y0 : BitVec 32) (sx sy : Int) (dx dy rounds : Nat) : Point :=
  (along x0 sx (lineWalk dx dy rounds).1, along y0 sy (lineWalk dx dy rounds).2)

/-- The doubled error term of a round fits in an `int`. -/
def RoundFits (dx dy rounds : Nat) : Prop :=
  -(2 ^ 30 : Nat) ≤ lineError dx dy (lineWalk dx dy rounds) ∧ lineError dx dy (lineWalk dx dy rounds) < (2 ^ 30 : Nat)

/-- A round of the loop is a round of the walk when its doubled error term fits. -/
theorem lineStep_walk (positive : 0 < max dx dy) (small : max dx dy < 2 ^ 30) (fits : RoundFits dx dy rounds) :
    lineStep dx dy sx sy (linePoint x0 y0 sx sy dx dy rounds).1 (linePoint x0 y0 sx sy dx dy rounds).2
        (lineError dx dy (lineWalk dx dy rounds)) =
      .ok ((linePoint x0 y0 sx sy dx dy (rounds + 1)).1, (linePoint x0 y0 sx sy dx dy (rounds + 1)).2,
        lineError dx dy (lineWalk dx dy (rounds + 1))) := by
  have bound := lineError_bound positive rounds
  have doubled : checkedInt (2 * lineError dx dy (lineWalk dx dy rounds)) = .ok (2 * lineError dx dy (lineWalk dx dy rounds)) := by
    rw [checkedInt, if_pos]
    obtain ⟨least, most⟩ := fits
    omega
  have fitting {n : Int} (least : -2 ^ 31 ≤ n) (most : n < 2 ^ 31) : checkedInt n = .ok n := if_pos ⟨least, most⟩
  have dxSmall := (Nat.le_max_left dx dy).trans_lt small
  have dySmall := (Nat.le_max_right dx dy).trans_lt small
  rw [lineStep, doubled, fitting (n := -dy) (by omega) (by omega)]
  simp only [linePoint, lineWalk, lineError_add]
  generalize lineWalk dx dy rounds = taken at bound ⊢
  generalize lineError dx dy taken = err at bound ⊢
  -- Each sum is formed only when the error term leaves room for it.
  have right (goesRight : 2 * err > -dy) : checkedInt (err - dy) = .ok (err - dy) := fitting (by omega) (by omega)
  have up (goesUp : 2 * err < dx) : checkedInt (err + dx) = .ok (err + dx) := fitting (by omega) (by omega)
  have both (goesRight : 2 * err > -dy) (goesUp : 2 * err < dx) : checkedInt (err - dy + dx) = .ok (err - dy + dx) :=
    fitting (by omega) (by omega)
  by_cases goesRight : 2 * err > -dy
  · by_cases goesUp : 2 * err < dx
    · simp [goesRight, goesUp, right, both, along_succ, bind, Except.bind, pure, Except.pure]
    · simp [goesRight, goesUp, right, along_succ, bind, Except.bind, pure, Except.pure]
  · by_cases goesUp : 2 * err < dx
    · simp [goesRight, goesUp, up, along_succ, bind, Except.bind, pure, Except.pure]
    · simp [goesRight, goesUp, bind, Except.bind, pure, Except.pure]

/-- The doubled error term overflows when it does not fit. -/
theorem lineStep_overflow (unfit : ¬RoundFits dx dy rounds) (x y : BitVec 32) :
    lineStep dx dy sx sy x y (lineError dx dy (lineWalk dx dy rounds)) = .error .overflow := by
  have doubled : checkedInt (2 * lineError dx dy (lineWalk dx dy rounds)) = .error .overflow := by
    rw [checkedInt, if_neg]
    intro fits
    apply unfit
    rw [RoundFits]
    omega
  rw [lineStep, doubled]
  rfl

/-- The walk meets the last point only in its last round. -/
theorem linePoint_before (axisX : Axis x0 x1 sx dx) (axisY : Axis y0 y1 sy dy) (early : rounds < max dx dy) :
    ¬((linePoint x0 y0 sx sy dx dy rounds).1 = x1 ∧ (linePoint x0 y0 sx sy dx dy rounds).2 = y1) := by
  obtain ⟨withinX, withinY⟩ := lineWalk_within early.le
  rintro ⟨sameX, sameY⟩
  exact lineWalk_before early (Prod.ext ((axisX.eq_stop withinX).mp sameX) ((axisY.eq_stop withinY).mp sameY))

theorem linePoint_last (axisX : Axis x0 x1 sx dx) (axisY : Axis y0 y1 sy dy) :
    linePoint x0 y0 sx sy dx dy (max dx dy) = (x1, y1) := by
  rw [linePoint, lineWalk_last]
  exact Prod.ext ((axisX.eq_stop (Nat.le_refl dx)).mpr rfl) ((axisY.eq_stop (Nat.le_refl dy)).mpr rfl)

/-- The rest of the loop plots the rest of the walk. The induction is on the rounds that are left. -/
theorem lineLoop_drawn (axisX : Axis x0 x1 sx dx) (axisY : Axis y0 y1 sy dy)
    (fits : ∀ later < max dx dy, RoundFits dx dy later) {left : Nat} (split : rounds + left = max dx dy) (d : Display)
    (color : BitVec 32) : ∃ d', lineLoop x1 y1 color dx dy sx sy (left + 1) d (linePoint x0 y0 sx sy dx dy rounds).1
        (linePoint x0 y0 sx sy dx dy rounds).2 (lineError dx dy (lineWalk dx dy rounds)) =
      ⟨(List.range' rounds (left + 1)).map (linePoint x0 y0 sx sy dx dy), .ok d'⟩ := by
  induction left generalizing rounds d with
  | zero =>
      have last := linePoint_last axisX axisY
      rw [← split, Nat.add_zero] at last
      rw [lineLoop, Logged.access_bind, last, if_pos ⟨rfl, rfl⟩, List.range'_succ, List.map_cons, last]
      exact ⟨_, rfl⟩
  | succ left inductionHypothesis =>
      have early : rounds < max dx dy := by omega
      have small : max dx dy < 2 ^ 30 := Nat.max_lt.mpr ⟨axisX.small, axisY.small⟩
      obtain ⟨d', rest⟩ := @inductionHypothesis (rounds + 1) (by omega)
        (putpixel d (linePoint x0 y0 sx sy dx dy rounds).1.toNat (linePoint x0 y0 sx sy dx dy rounds).2.toNat color)
      refine ⟨d', ?_⟩
      rw [lineLoop, Logged.access_bind, if_neg (linePoint_before axisX axisY early),
        lineStep_walk (by omega) small (fits rounds early), Logged.lift_ok_bind]
      dsimp only
      rw [rest, List.range'_succ, List.map_cons]
      rfl

/-- The loop does not return when a later error term does not fit. -/
theorem lineLoop_overflow (axisX : Axis x0 x1 sx dx) (axisY : Axis y0 y1 sy dy) {later : Nat} (unfit : ¬RoundFits dx dy later)
    (early : later < max dx dy) {left : Nat} (split : rounds + left = later) (fuel : Nat) (d d' : Display) :
    (lineLoop x1 y1 color dx dy sx sy fuel d (linePoint x0 y0 sx sy dx dy rounds).1
      (linePoint x0 y0 sx sy dx dy rounds).2 (lineError dx dy (lineWalk dx dy rounds))).result ≠ .ok d' := by
  induction left generalizing rounds fuel d with
  | zero =>
      rw [Nat.add_zero] at split
      obtain rfl := split
      cases fuel with
      | zero => exact nofun
      | succ fuel =>
          rw [lineLoop, Logged.access_bind, if_neg (linePoint_before axisX axisY early), lineStep_overflow unfit]
          exact nofun
  | succ left inductionHypothesis =>
      cases fuel with
      | zero => exact nofun
      | succ fuel =>
          rw [lineLoop, Logged.access_bind, if_neg (linePoint_before axisX axisY (by omega))]
          by_cases fits : RoundFits dx dy rounds
          · have small : max dx dy < 2 ^ 30 := Nat.max_lt.mpr ⟨axisX.small, axisY.small⟩
            rw [lineStep_walk (by omega) small fits, Logged.lift_ok_bind]
            exact inductionHypothesis (by omega) fuel _
          · rw [lineStep_overflow fits]
            exact nofun

/-- The function enters its loop at the first point. -/
theorem drawLine_start (axisX : Axis x0 x1 sx dx) (axisY : Axis y0 y1 sy dy) (fuel : Nat) (d : Display) :
    drawLine fuel d x0 y0 x1 y1 color =
      lineLoop x1 y1 color dx dy sx sy fuel d (linePoint x0 y0 sx sy dx dy 0).1 (linePoint x0 y0 sx sy dx dy 0).2
        (lineError dx dy (lineWalk dx dy 0)) := by
  have smallX := axisX.small
  have smallY := axisY.small
  have error : lineError dx dy (lineWalk dx dy 0) = (dx : Int) - dy := by simp [lineError, lineWalk]
  have fits : checkedInt ((dx : Int) - dy) = .ok ((dx : Int) - dy) := if_pos (by omega)
  rw [drawLine, axisX.distance, axisY.distance, Logged.lift_ok_bind, Logged.lift_ok_bind, fits, Logged.lift_ok_bind,
    axisX.direction, axisY.direction, error, linePoint, lineWalk, along_zero, along_zero]

/-- The points of a walk are those of a line. -/
theorem linePoints_arrive (axisX : Axis x0 x1 sx (stepsBetween x0 x1)) (axisY : Axis y0 y1 sy (stepsBetween y0 y1)) :
    LineArrives x0 y0 x1 y1 ((List.range' 0 (max (stepsBetween x0 x1) (stepsBetween y0 y1) + 1)).map
      (linePoint x0 y0 sx sy (stepsBetween x0 x1) (stepsBetween y0 y1))) := by
  refine ⟨?_, ?_, ?_, ?_⟩
  · rw [List.length_map, List.length_range']
  · rw [List.range'_succ, List.map_cons, List.head?_cons, linePoint, lineWalk, along_zero, along_zero]
  · rw [List.getLast?_map, List.getLast?_range', if_neg (Nat.succ_ne_zero _), Option.map_some]
    simp only [Nat.zero_add, Nat.add_sub_cancel]
    exact congrArg some (linePoint_last axisX axisY)
  · intro i p q here next
    obtain ⟨inside, rfl⟩ := List.getElem?_eq_some_iff.mp next
    rw [List.length_map, List.length_range'] at inside
    rw [List.getElem?_map, List.getElem?_range' (by omega), Option.map_some, Option.some.injEq] at here
    rw [← here, List.getElem_map, List.getElem_range']
    simp only [Nat.zero_add, Nat.one_mul]
    obtain ⟨withinX, withinY⟩ := lineWalk_within (show i + 1 ≤ max (stepsBetween x0 x1) (stepsBetween y0 y1) by omega)
    obtain ⟨stepX, stepY⟩ := lineWalk_step (stepsBetween x0 x1) (stepsBetween y0 y1) i
    exact ⟨axisX.near withinX stepX, axisY.near withinY stepY⟩

/-- The condition says that no error term overflows before the last point. -/
theorem lineFits_iff (small : max dx dy < 2 ^ 30) : LineFits dx dy ↔ ∀ later < max dx dy, RoundFits dx dy later := by
  rcases Nat.eq_zero_or_pos (max dx dy) with zero | positive
  · obtain ⟨rfl, rfl⟩ : dx = 0 ∧ dy = 0 := by omega
    exact iff_of_true (by decide) (by simp)
  · exact (lineError_fits positive small.le).symm

/-- A line that is drawn has room for its error terms. -/
theorem LineDrawn.fits (drawn : LineDrawn x0 y0 x1 y1) (axisX : Axis x0 x1 sx dx) (axisY : Axis y0 y1 sy dy) : LineFits dx dy := by
  rw [lineFits_iff (Nat.max_lt.mpr ⟨axisX.small, axisY.small⟩)]
  intro later early
  by_contra unfit
  obtain ⟨fuel, d', returned, _⟩ := drawn ⟨none, 0, 0, 0⟩ 0
  rw [drawLine_start axisX axisY] at returned
  exact lineLoop_overflow axisX axisY unfit early (Nat.zero_add later) fuel _ d' returned

/-- A line between small coordinates is drawn exactly when its sides leave room for the doubled error term. -/
theorem lineDrawn_iff (smallX0 : x0.toNat < 2 ^ 30) (smallY0 : y0.toNat < 2 ^ 30) (smallX1 : x1.toNat < 2 ^ 30)
    (smallY1 : y1.toNat < 2 ^ 30) : LineDrawn x0 y0 x1 y1 ↔ LineFits (stepsBetween x0 x1) (stepsBetween y0 y1) := by
  have axisX := axis_of_small smallX0 smallX1
  have axisY := axis_of_small smallY0 smallY1
  constructor
  · exact fun drawn => drawn.fits axisX axisY
  · intro fits d color
    rw [lineFits_iff (Nat.max_lt.mpr ⟨axisX.small, axisY.small⟩)] at fits
    obtain ⟨d', whole⟩ := lineLoop_drawn axisX axisY fits (Nat.zero_add _) d color
    refine ⟨max (stepsBetween x0 x1) (stepsBetween y0 y1) + 1, d', ?_⟩
    rw [drawLine_start axisX axisY, whole]
    exact ⟨rfl, linePoints_arrive axisX axisY⟩

/-- A line of nine points fits. -/
theorem lineDrawn_iff_short : LineDrawn 1 2 9 5 ↔ LineFits (stepsBetween 1 9) (stepsBetween 2 5) :=
  lineDrawn_iff (by decide) (by decide) (by decide) (by decide)

/-- The longest line that ends one row below its start overflows the doubled error term. -/
theorem line_overflows : ¬∀ x0 y0 x1 y1 : BitVec 32, x0.toNat < 2 ^ 30 → y0.toNat < 2 ^ 30 → x1.toNat < 2 ^ 30 →
    y1.toNat < 2 ^ 30 → LineDrawn x0 y0 x1 y1 := by
  intro always
  have drawn := always 0 0 0x3FFFFFFF 1 (by decide) (by decide) (by decide) (by decide)
  have fits := drawn.fits (axis_of_small (by decide) (by decide)) (axis_of_small (by decide) (by decide))
  exact absurd fits (by decide)

end

end DoccrOS.Screen
