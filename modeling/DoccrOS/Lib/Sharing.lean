import Mathlib.Data.Set.Card
import Mathlib.Tactic

namespace DoccrOS.Lib

/-- Finitely many places refer to shared cells. Every cell has a reference counter and contents. -/
structure Sharing (P F C : Type) where
  map : P → Option F
  writable : P → Prop
  rc : F → Nat
  data : F → C
  finite : {place | map place ≠ none}.Finite

namespace Sharing
variable {P F C : Type} {s s' : Sharing P F C} {place : P} {cell : F}

/-- The places that refer to a cell. -/
def refs (s : Sharing P F C) (cell : F) : Set P := {place | s.map place = some cell}

/-- The number of places that refer to a cell. -/
noncomputable def count (s : Sharing P F C) (cell : F) : Nat := (s.refs cell).ncard

/-- What a place shows is the contents of its cell. -/
def view (s : Sharing P F C) (place : P) : Option C := (s.map place).map s.data

theorem refs_finite (s : Sharing P F C) (cell : F) : (s.refs cell).Finite := by
  apply s.finite.subset
  intro place mapped
  rw [refs, Set.mem_ofPred_eq] at mapped
  rw [Set.mem_ofPred_eq, mapped]
  exact Option.some_ne_none cell

theorem count_pos (mapped : s.map place = some cell) : 0 < s.count cell :=
  (Set.ncard_pos (s.refs_finite cell)).mpr ⟨place, mapped⟩

theorem exists_of_count_pos (referenced : 0 < s.count cell) : ∃ place, s.map place = some cell :=
  (Set.ncard_pos (s.refs_finite cell)).mp referenced

theorem unmapped_of_count_zero (none : s.count cell = 0) (place : P) : s.map place ≠ some cell := by
  intro mapped
  have positive := count_pos mapped
  omega

theorem count_zero_of_unmapped (unmapped : ∀ place, s.map place ≠ some cell) : s.count cell = 0 := by
  have empty : s.refs cell = ∅ := Set.eq_empty_of_forall_notMem unmapped
  rw [count, empty, Set.ncard_empty]

theorem eq_of_count_le_one (single : s.count cell ≤ 1) {other : P} (mapped : s.map place = some cell)
    (mapped' : s.map other = some cell) : place = other :=
  (Set.ncard_le_one (s.refs_finite cell)).mp single place mapped other mapped'

/-- A cell with several references has one at another place. -/
theorem exists_other (several : 1 < s.count cell) (place : P) :
    ∃ other, s.map other = some cell ∧ other ≠ place := by
  by_contra alone
  push Not at alone
  have single : s.count cell ≤ 1 := by
    refine (Set.ncard_le_one (s.refs_finite cell)).mpr ?_
    intro first atFirst second atSecond
    rw [alone first atFirst, alone second atSecond]
  omega

/-- One place is redirected and every other place keeps its cell. -/
def Redirects (s s' : Sharing P F C) (place : P) (target : Option F) : Prop :=
  s'.map place = target ∧ ∀ other, other ≠ place → s'.map other = s.map other

/-- A redirect moves one reference from the old cell of the place to the new one. -/
theorem Redirects.count [DecidableEq F] {target : Option F} (redirects : Redirects s s' place target) (cell : F) :
    s'.count cell + (if s.map place = some cell then 1 else 0) =
      s.count cell + (if target = some cell then 1 else 0) := by
  have finite := s.refs_finite cell
  by_cases before : s.map place = some cell
  · have member : place ∈ s.refs cell := before
    have sub := Set.ncard_sdiff_singleton_add_one member finite
    by_cases after : target = some cell
    · have same : s'.refs cell = s.refs cell := by
        ext other
        by_cases here : other = place
        · rw [here]
          exact ⟨fun _ => member, fun _ => redirects.1.trans after⟩
        · simp only [refs, Set.mem_ofPred_eq, redirects.2 other here]
      simp only [Sharing.count, same, before, after]
    · have less : s'.refs cell = s.refs cell \ {place} := by
        ext other
        by_cases here : other = place
        · subst here
          simp only [refs, Set.mem_ofPred_eq, redirects.1, after, Set.mem_sdiff, Set.mem_singleton_iff,
            not_true_eq_false, and_false]
        · simp only [refs, Set.mem_ofPred_eq, redirects.2 other here, Set.mem_sdiff, Set.mem_singleton_iff, here,
            not_false_eq_true, and_true]
      simp only [Sharing.count, less, before, after, if_true, if_false]
      omega
  · have notMember : place ∉ s.refs cell := before
    by_cases after : target = some cell
    · have more : s'.refs cell = insert place (s.refs cell) := by
        ext other
        by_cases here : other = place
        · subst here
          simp [refs, redirects.1, after]
        · simp [refs, redirects.2 other here, here]
      simp only [Sharing.count, more, before, after, if_true, if_false, Set.ncard_insert_of_notMem notMember finite]
    · have same : s'.refs cell = s.refs cell := by
        ext other
        by_cases here : other = place
        · subst here
          simp [refs, redirects.1, after, before]
        · simp [refs, redirects.2 other here]
      simp only [Sharing.count, same, before, after]

/-- A redirect to an unreferenced cell gives it its only reference. -/
theorem Redirects.count_new (redirects : Redirects s s' place (some cell)) (unused : s.count cell = 0) :
    s'.count cell = 1 := by
  classical
  have moved := redirects.count cell
  rw [if_neg (unmapped_of_count_zero unused place), if_pos rfl, unused] at moved
  exact moved

/-- The counter of every referenced cell is related to the number of its references. -/
def Counted (s : Sharing P F C) (rel : Nat → Nat → Prop) : Prop :=
  ∀ cell, 0 < s.count cell → rel (s.rc cell) (s.count cell)

/-- A relation of counters and reference numbers that survives fresh cells and dropped references. -/
structure Discipline (rel : Nat → Nat → Prop) : Prop where
  fresh : rel 1 1
  sole : ∀ rc refs, rel rc refs → rc ≤ 1 → refs ≤ 1
  drop : ∀ rc refs, rel rc refs → 1 < refs → rel (rc - 1) (refs - 1)

/-- A counter that is never too small, except that the only reference of a cell may be uncounted. -/
def Sound (rc refs : Nat) : Prop := refs ≤ rc ∨ (rc = 0 ∧ refs ≤ 1)

theorem sound_discipline : Discipline Sound where
  fresh := Or.inl (Nat.le_refl 1)
  sole rc refs related low := by
    unfold Sound at related
    omega
  drop rc refs related several := by
    unfold Sound at related ⊢
    omega

/-- An exact counter is the number of references. -/
def Exact (rc refs : Nat) : Prop := rc = refs

theorem exact_discipline : Discipline Exact where
  fresh := rfl
  sole rc refs related low := by
    unfold Exact at related
    omega
  drop rc refs related several := by
    unfold Exact at related ⊢
    omega

/-- A writable place has its cell for itself. -/
def Exclusive (s : Sharing P F C) : Prop :=
  ∀ place cell, s.writable place → s.map place = some cell → s.count cell ≤ 1

/-- The counters stay related if the counter of every touched cell follows its references. -/
theorem Counted.redirect {rel : Nat → Nat → Prop} {target : Option F} (counted : s.Counted rel)
    (redirects : Redirects s s' place target)
    (new : ∀ cell, target = some cell → s.map place ≠ some cell → rel (s'.rc cell) (s.count cell + 1))
    (same : ∀ cell, target = some cell → s.map place = some cell → rel (s'.rc cell) (s.count cell))
    (old : ∀ cell, s.map place = some cell → target ≠ some cell → 1 < s.count cell →
      rel (s'.rc cell) (s.count cell - 1))
    (kept : ∀ cell, 0 < s.count cell → target ≠ some cell → s.map place ≠ some cell → s'.rc cell = s.rc cell) :
    s'.Counted rel := by
  classical
  intro cell referenced
  have moved := redirects.count cell
  by_cases after : target = some cell
  · by_cases before : s.map place = some cell
    · rw [if_pos after, if_pos before] at moved
      rw [Nat.add_right_cancel moved]
      exact same cell after before
    · rw [if_pos after, if_neg before] at moved
      rw [show s'.count cell = s.count cell + 1 from moved]
      exact new cell after before
  · by_cases before : s.map place = some cell
    · rw [if_neg after, if_pos before] at moved
      rw [show s'.count cell = s.count cell - 1 by omega]
      exact old cell before after (by omega)
    · rw [if_neg after, if_neg before] at moved
      have unmoved : s'.count cell = s.count cell := moved
      rw [unmoved] at referenced ⊢
      rw [kept cell referenced after before]
      exact counted cell referenced

/-- Writable places stay exclusive if the redirect adds no reference to a cell with a writable place. -/
theorem Exclusive.redirect {target : Option F} (exclusive : s.Exclusive) (redirects : Redirects s s' place target)
    (here : ∀ cell, target = some cell → s'.writable place → s'.count cell ≤ 1)
    (added : ∀ other cell, other ≠ place → target = some cell → s.map place ≠ some cell → s.map other = some cell →
      ¬s'.writable other)
    (kept : ∀ other, other ≠ place → s'.writable other → s.map other ≠ none → s.writable other) :
    s'.Exclusive := by
  classical
  intro other cell writable mapped
  by_cases isPlace : other = place
  · rw [isPlace] at writable mapped
    exact here cell (redirects.1.symm.trans mapped) writable
  · have before : s.map other = some cell := (redirects.2 other isPlace).symm.trans mapped
    have single := exclusive other cell (kept other isPlace writable (by rw [before]; exact Option.some_ne_none _)) before
    have moved := redirects.count cell
    by_cases after : target = some cell
    · by_cases held : s.map place = some cell
      · rw [if_pos after, if_pos held] at moved
        omega
      · exact absurd writable (added other cell isPlace after held before)
    · rw [if_neg after] at moved
      omega

end Sharing

end DoccrOS.Lib
