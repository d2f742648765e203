import Mathlib.Tactic

namespace DoccrOS.Lib

section
variable {C : Type} {str : Nat → C} {list right : List C} {c : C}

/-- The cells of an array begin with the characters of a list. -/
def Shows (str : Nat → C) (list : List C) : Prop := ∀ i c, list[i]? = some c → str i = c

/-- The cells of an array hold the characters of a list up to a terminator. -/
structure HoldsText (nul : C) (str : Nat → C) (list : List C) : Prop where
  shows : Shows str (list ++ [nul])
  strict : nul ∉ list

theorem shows_nil (str : Nat → C) : Shows str [] := by
  intro i c atIndex
  simp at atIndex

/-- The rest of a text stands behind its first character. -/
theorem shows_cons : Shows str (c :: list) ↔ str 0 = c ∧ Shows (fun i => str (i + 1)) list := by
  constructor
  · exact fun given => ⟨given 0 c rfl, fun i c atIndex => given (i + 1) c atIndex⟩
  · rintro ⟨first, rest⟩ (_ | i) other atIndex
    · rw [List.getElem?_cons_zero, Option.some.injEq] at atIndex
      rw [first, atIndex]
    · exact rest i other atIndex

/-- A store behind the characters adds one. -/
theorem Shows.push (shows : Shows str list) (c : C) : Shows (Function.update str list.length c) (list ++ [c]) := by
  intro i other atIndex
  by_cases last : i = list.length
  · rw [last, Function.update_self]
    rw [last, List.getElem?_concat_length, Option.some.injEq] at atIndex
    exact atIndex
  · have inside := (List.getElem?_eq_some_iff.mp atIndex).1
    rw [List.length_append, List.length_singleton] at inside
    rw [List.getElem?_append_left (by omega)] at atIndex
    rw [Function.update_of_ne last]
    exact shows i other atIndex

theorem Shows.left (shows : Shows str (list ++ right)) : Shows str list := by
  intro i c atIndex
  apply shows
  rw [List.getElem?_append_left (List.getElem?_eq_some_iff.mp atIndex).1]
  exact atIndex

theorem Shows.behind (shows : Shows str (list ++ right)) : Shows (fun i => str (list.length + i)) right := by
  intro i c atIndex
  apply shows
  rw [List.getElem?_append_right (Nat.le_add_right _ _), Nat.add_sub_cancel_left]
  exact atIndex

/-- The blocks of one length stand behind each other. -/
theorem Shows.block {block : Nat → List C} {width count k : Nat} (same : ∀ k, (block k).length = width)
    (shows : Shows str ((List.range count).flatMap block)) (inside : k < count) :
    Shows (fun i => str (width * k + i)) (block k) := by
  induction count with
  | zero => omega
  | succ count inductionHypothesis =>
      rw [List.range_succ, List.flatMap_append] at shows
      by_cases last : k = count
      · have before : ((List.range count).flatMap block).length = width * count := by
          simp [List.length_flatMap, same, Nat.mul_comm]
        have final := shows.behind
        rw [before, List.flatMap_singleton] at final
        rw [last]
        exact final
      · exact inductionHypothesis shows.left (by omega)

theorem Shows.cells (shows : Shows str list) : (List.range list.length).map str = list := by
  apply List.ext_getElem?
  intro i
  by_cases inside : i < list.length
  · obtain ⟨c, here⟩ : ∃ c, list[i]? = some c := ⟨list[i], List.getElem?_eq_getElem inside⟩
    rw [List.getElem?_map, List.getElem?_range inside, here, Option.map_some, shows i c here]
  · rw [List.getElem?_eq_none (by simp; omega), List.getElem?_eq_none (by omega)]

/-- The end of a text is its terminator. -/
theorem HoldsText.nil_iff {nul : C} (str : Nat → C) : HoldsText nul str [] ↔ str 0 = nul := by
  constructor
  · exact fun text => (shows_cons.mp text.shows).1
  · exact fun ends => ⟨shows_cons.mpr ⟨ends, shows_nil _⟩, List.not_mem_nil⟩

theorem HoldsText.cons_iff {nul : C} : HoldsText nul str (c :: list) ↔
    str 0 = c ∧ c ≠ nul ∧ HoldsText nul (fun i => str (i + 1)) list := by
  constructor
  · rintro ⟨shows, strict⟩
    rw [List.cons_append, shows_cons] at shows
    rw [List.mem_cons, not_or] at strict
    exact ⟨shows.1, Ne.symm strict.1, shows.2, strict.2⟩
  · rintro ⟨first, visible, shows, strict⟩
    refine ⟨shows_cons.mpr ⟨first, shows⟩, ?_⟩
    rw [List.mem_cons, not_or]
    exact ⟨visible.symm, strict⟩

/-- An array holds the text of its first cells when a terminator follows. -/
theorem HoldsText.of_range {nul : C} (cells : (List.range list.length).map str = list) (ends : str list.length = nul)
    (strict : nul ∉ list) : HoldsText nul str list := by
  refine ⟨fun i c atIndex => ?_, strict⟩
  by_cases inside : i < list.length
  · have cell : list[i]? = some (str i) := by
      rw [← cells, List.getElem?_map, List.getElem?_range (by simpa using inside), Option.map_some]
    rw [List.getElem?_append_left inside, cell] at atIndex
    exact Option.some.inj atIndex
  · have last := (List.getElem?_eq_some_iff.mp atIndex).1
    rw [List.length_append, List.length_singleton] at last
    obtain rfl : i = list.length := by omega
    rw [List.getElem?_concat_length] at atIndex
    rw [ends]
    exact Option.some.inj atIndex

/-- The decimal digits of a number, the first digit first. -/
def decimalDigits (n : Nat) : List Nat := (if n = 0 then [0] else Nat.digits 10 n).reverse

theorem decimalDigits_lt {n d : Nat} (digit : d ∈ decimalDigits n) : d < 10 := by
  rw [decimalDigits, List.mem_reverse] at digit
  split at digit
  · rw [List.mem_singleton] at digit
    omega
  · exact Nat.digits_lt_base (by decide) digit

theorem decimalDigits_ne_nil (n : Nat) : decimalDigits n ≠ [] := by
  rw [decimalDigits, ne_eq, List.reverse_eq_nil_iff]
  split
  · exact List.cons_ne_nil 0 []
  · rename_i positive
    exact Nat.digits_ne_nil_iff_ne_zero.mpr positive

theorem decimalDigits_small {n : Nat} (small : n < 10) : decimalDigits n = [n] := by
  rw [decimalDigits]
  split
  · rename_i zero
    rw [zero]
    rfl
  · rename_i positive
    rw [Nat.digits_of_lt 10 n positive small]
    rfl

/-- The last digit stands behind the digits of the quotient. -/
theorem decimalDigits_step {n : Nat} (large : 10 ≤ n) : decimalDigits n = decimalDigits (n / 10) ++ [n % 10] := by
  rw [decimalDigits, decimalDigits, if_neg (by omega), if_neg (by omega), Nat.digits_def' (by decide) (by omega),
    List.reverse_cons]

/-- A reader of digits that multiplies and adds finds the number, in any arithmetic. -/
theorem foldl_decimalDigits {R : Type} [CommSemiring R] (n : Nat) :
    (decimalDigits n).foldl (fun (value : R) (digit : Nat) => value * 10 + (digit : R)) 0 = n := by
  have digits : Nat.ofDigits 10 (decimalDigits n).reverse = n := by
    rw [decimalDigits, List.reverse_reverse]
    split
    · rename_i zero
      rw [zero, Nat.ofDigits_singleton]
    · exact Nat.ofDigits_digits 10 n
  have step : (fun (value : R) (digit : Nat) => value * 10 + (digit : R)) =
      fun (value : R) (digit : Nat) => (digit : R) + ((10 : Nat) : R) * value := by
    funext value digit
    push_cast
    ring
  rw [step, ← List.foldr_reverse, ← Nat.ofDigits_eq_foldr, ← Nat.coe_ofDigits, digits]

/-- A number has at most as many digits as its bound has zeroes. -/
theorem decimalDigits_length {n count : Nat} (positive : 0 < count) : (decimalDigits n).length ≤ count ↔ n < 10 ^ count := by
  rw [decimalDigits, List.length_reverse]
  split
  · rename_i zero
    rw [zero]
    exact iff_of_true positive (by positivity)
  · exact Nat.digits_length_le_iff (by decide) n

end

end DoccrOS.Lib
