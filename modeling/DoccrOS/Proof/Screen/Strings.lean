import DoccrOS.Construction.Screen.Strings
import DoccrOS.Lib.Run
import DoccrOS.Lib.Text
import Mathlib.Data.BitVec

namespace DoccrOS.Screen
open Lib

/-- The character of a digit. -/
def digitByte (digit : Nat) : BitVec 8 := BitVec.ofNat 8 (0x30 + digit)

/-- The decimal text of a number. -/
def numeral (n : Nat) : List (BitVec 8) := (decimalDigits n).map digitByte

/-- The decimal text of a number with its sign. -/
def signedNumeral (isNegative : Bool) (n : Nat) : List (BitVec 8) := if isNegative then 0x2D :: numeral n else numeral n

/-- The digits of a value that the loop of `str_from_int` stores. -/
def storedDigits (value : BitVec 32) : List (BitVec 8) := (Nat.digits 10 value.toNat).map digitByte

section
variable {str temp buf buffer : CharPtr} {list rest : List (BitVec 8)} {value v : BitVec 32} {n fuel : Nat}

theorem digitByte_isDigit {digit : Nat} (small : digit < 10) : isDigit (digitByte digit) = true ∧
    (digitByte digit).signExtend 32 - 0x30 = (digit : BitVec 32) := by
  have all : ∀ digit : Fin 10, isDigit (digitByte digit.val) = true ∧
      (digitByte digit.val).signExtend 32 - 0x30 = BitVec.ofNat 32 digit.val := by decide
  exact all ⟨digit, small⟩

/-- A digit is no other character that the functions know. -/
theorem isDigit_ne {c : BitVec 8} (digit : isDigit c = true) :
    c ≠ 0 ∧ c ≠ 0x20 ∧ c ≠ 0x09 ∧ c ≠ 0x2D ∧ c ≠ 0x2B := by
  refine ⟨?_, ?_, ?_, ?_, ?_⟩
  all_goals
    rintro rfl
    exact absurd digit (by decide)

theorem numeral_isDigit {c : BitVec 8} (inside : c ∈ numeral n) : isDigit c = true := by
  obtain ⟨digit, isDigit, rfl⟩ := List.mem_map.mp inside
  exact (digitByte_isDigit (decimalDigits_lt isDigit)).1

theorem numeral_first (n : Nat) : ∃ c more, numeral n = c :: more ∧ isDigit c = true := by
  obtain ⟨c, more, isNumeral⟩ := List.exists_cons_of_ne_nil (mt List.map_eq_nil_iff.mp (decimalDigits_ne_nil n))
  exact ⟨c, more, isNumeral, numeral_isDigit (isNumeral ▸ List.mem_cons_self)⟩

/-- The digits of a text are converted up to its terminator. -/
theorem convertDigits_text {digits : List Nat} (small : ∀ digit ∈ digits, digit < 10)
    (text : HoldsText 0 str (digits.map digitByte)) (enough : digits.length < fuel) (result : BitVec 32) :
    convertDigits fuel str result =
      .ok (digits.foldl (fun (value : BitVec 32) (digit : Nat) => value * 10 + (digit : BitVec 32)) result) := by
  induction digits generalizing str fuel result with
  | nil =>
      obtain ⟨fuel, rfl⟩ : ∃ left, fuel = left + 1 := ⟨fuel - 1, by omega⟩
      rw [convertDigits, (HoldsText.nil_iff str).mp text]
      rfl
  | cons digit digits inductionHypothesis =>
      obtain ⟨fuel, rfl⟩ : ∃ left, fuel = left + 1 := ⟨fuel - 1, by omega⟩
      obtain ⟨first, _, later⟩ := HoldsText.cons_iff.mp text
      obtain ⟨isDigit, isValue⟩ := digitByte_isDigit (small digit List.mem_cons_self)
      rw [convertDigits, first, if_pos isDigit, isValue, List.foldl_cons]
      apply inductionHypothesis (fun other inside => small other (List.mem_cons_of_mem _ inside)) later
      rw [List.length_cons] at enough
      omega

theorem skipWhitespace_stop (stops : str 0 ≠ 0x20 ∧ str 0 ≠ 0x09) : skipWhitespace addressSpace str = .ok str := by
  have enough : addressSpace = (addressSpace - 1) + 1 := by decide
  rw [enough, skipWhitespace, if_neg (not_or.mpr stops)]

/-- The decoder reads a number and its sign. -/
theorem strToInt_text {isNegative : Bool} (text : HoldsText 0 str (signedNumeral isNegative n)) (short : (numeral n).length < 100) :
    strToInt str = .ok ((n : BitVec 32) * if isNegative then -1 else 1) := by
  have reads {ptr : CharPtr} (number : HoldsText 0 ptr (numeral n)) : convertDigits addressSpace ptr 0 = .ok (n : BitVec 32) := by
    rw [numeral, List.length_map] at short
    rw [convertDigits_text (fun _ => decimalDigits_lt) number (short.trans (by decide))]
    exact congrArg Except.ok (foldl_decimalDigits (R := BitVec 32) n)
  rw [strToInt]
  cases isNegative with
  | true =>
      obtain ⟨first, _, number⟩ := HoldsText.cons_iff.mp text
      rw [skipWhitespace_stop (by rw [first]; decide), Result.ok_bind]
      simp only [first, if_true]
      rw [show convertDigits addressSpace str.next 0 = .ok (n : BitVec 32) from reads number]
      rfl
  | false =>
      obtain ⟨c, more, isNumeral, digit⟩ := numeral_first n
      have number : HoldsText 0 str (numeral n) := text
      have first : str 0 = c := (HoldsText.cons_iff.mp (isNumeral ▸ number)).1
      obtain ⟨_, blank, tab, minus, plus⟩ := isDigit_ne digit
      rw [skipWhitespace_stop (by rw [first]; exact ⟨blank, tab⟩), Result.ok_bind]
      simp only [first, if_neg minus, if_neg plus]
      rw [reads number]
      rfl

theorem strLenFrom_text {len : Nat} (text : HoldsText 0 (fun i => str (len + i)) rest) (enough : rest.length < fuel) :
    strLenFrom str fuel len = .ok (len + rest.length) := by
  induction rest generalizing len fuel with
  | nil =>
      obtain ⟨fuel, rfl⟩ : ∃ left, fuel = left + 1 := ⟨fuel - 1, by omega⟩
      have ends : str len = 0 := (HoldsText.nil_iff _).mp text
      rw [strLenFrom, if_pos ends]
      rfl
  | cons c rest inductionHypothesis =>
      obtain ⟨fuel, rfl⟩ : ∃ left, fuel = left + 1 := ⟨fuel - 1, by omega⟩
      obtain ⟨first, visible, later⟩ := HoldsText.cons_iff.mp text
      have more : str len ≠ 0 := fun ends => visible (first.symm.trans ends)
      have shifted : HoldsText 0 (fun i => str (len + 1 + i)) rest := by
        simpa only [Nat.add_assoc, Nat.add_comm 1] using later
      rw [List.length_cons] at enough ⊢
      rw [strLenFrom, if_neg more, inductionHypothesis shifted (by omega), Nat.add_assoc, Nat.add_comm 1]

theorem strLen_text (text : HoldsText 0 str list) (short : list.length < addressSpace) : strLen str = .ok list.length := by
  have whole : HoldsText 0 (fun i => str (0 + i)) list := by simpa only [Nat.zero_add] using text
  rw [strLen, strLenFrom_text whole short, Nat.zero_add]

/-- The exchange of the ends turns a text around. -/
theorem strReverse_text (text : HoldsText 0 str list) (short : list.length < addressSpace) :
    ∃ str', strReverse str = .ok str' ∧ HoldsText 0 str' list.reverse := by
  refine ⟨_, by rw [strReverse, strLen_text text short]; rfl, ?_⟩
  let holds (done : Nat) (ptr : CharPtr) : Prop :=
    ∀ i, ptr i = if i < done ∨ (list.length - done ≤ i ∧ i < list.length) then str (list.length - 1 - i) else str i
  have ends : holds (list.length / 2) ((List.range (list.length / 2)).foldl (swapEnds list.length) str) := by
    refine foldl_range (by intro i; rw [if_neg (by omega)]) ?_
    intro done ptr inside held i
    rw [swapEnds, Function.update_apply, Function.update_apply, held i, held done, held (list.length - 1 - done)]
    grind
  refine ⟨?_, mt List.mem_reverse.mp text.strict⟩
  intro i c atIndex
  have inside := (List.getElem?_eq_some_iff.mp atIndex).1
  rw [List.length_append, List.length_reverse, List.length_singleton] at inside
  by_cases last : i = list.length
  · rw [ends i, if_neg (by omega)]
    apply text.shows
    rw [last, List.getElem?_concat_length]
    rw [last, List.getElem?_append_right (List.length_reverse.trans_le (Nat.le_refl _)), List.length_reverse, Nat.sub_self] at atIndex
    exact atIndex
  · have reads : str (list.length - 1 - i) = c := by
      apply text.shows.left
      rw [List.getElem?_append_left (by rw [List.length_reverse]; omega), List.getElem?_reverse (by omega)] at atIndex
      exact atIndex
    -- The character in the middle of an odd length stays where it is.
    have middle : str i = str (list.length - 1 - i) ∨ i < list.length / 2 ∨ list.length - list.length / 2 ≤ i := by
      by_cases center : i = list.length - 1 - i
      · exact Or.inl (congrArg str center)
      · omega
    rw [ends i, ← reads]
    grind

theorem sdiv_ten (nonneg : value.msb = false) : (value.sdiv 10).msb = false ∧ (value.sdiv 10).toNat = value.toNat / 10 := by
  have quotient : (value.sdiv 10).toNat = value.toNat / 10 := by
    rw [BitVec.toNat_sdiv, nonneg]
    rfl
  refine ⟨?_, quotient⟩
  rw [BitVec.msb_eq_false_iff_two_mul_lt] at nonneg ⊢
  omega

theorem slt_zero (nonneg : value.msb = false) : BitVec.slt 0 value = true ↔ 0 < value.toNat := by
  rw [BitVec.slt_iff_toInt_lt, BitVec.toInt_eq_toNat_of_msb nonneg]
  exact Int.natCast_pos

theorem lastDigit_eq (nonneg : value.msb = false) : lastDigit value = digitByte (value.toNat % 10) := by
  have remainder : (value.srem 10).toNat = value.toNat % 10 := by
    rw [BitVec.toNat_srem, nonneg]
    rfl
  apply BitVec.eq_of_toNat_eq
  rw [lastDigit, digitByte, BitVec.toNat_setWidth, BitVec.toNat_add, remainder, BitVec.toNat_ofNat]
  change (0x30 + value.toNat % 10) % 2 ^ 32 % 2 ^ 8 = _
  omega

/-- The loop of `str_from_int` stores the digits of a value behind the characters that stand already. -/
theorem storeDigits_shows (nonneg : value.msb = false) (shows : Shows buf list) :
    ∃ buf', storeDigits buf list.length value = (buf', (list ++ storedDigits value).length) ∧
      Shows buf' (list ++ storedDigits value) := by
  induction isNumber : value.toNat using Nat.strong_induction_on generalizing buf list value with
  | _ number inductionHypothesis =>
      obtain ⟨nonneg', quotient⟩ := sdiv_ten nonneg
      rw [storeDigits, storedDigits, isNumber]
      by_cases positive : 0 < number
      · have split : Nat.digits 10 number = number % 10 :: Nat.digits 10 (number / 10) := Nat.digits_def' (by decide) positive
        obtain ⟨buf', stored, shows'⟩ := inductionHypothesis (number / 10) (by omega) nonneg'
          (shows.push (lastDigit value)) (quotient.trans (congrArg (· / 10) isNumber))
        rw [List.length_append, List.length_singleton] at stored
        rw [if_pos ((slt_zero nonneg).mpr (isNumber ▸ positive)), stored, split, List.map_cons]
        rw [storedDigits, quotient, isNumber, lastDigit_eq nonneg, isNumber, List.append_assoc, List.singleton_append] at shows'
        rw [storedDigits, quotient, isNumber, lastDigit_eq nonneg, isNumber, List.append_assoc, List.singleton_append]
        exact ⟨buf', rfl, shows'⟩
      · obtain rfl : number = 0 := by omega
        rw [if_neg (mt (slt_zero nonneg).mp (by omega)), Nat.digits_zero, List.map_nil, List.append_nil]
        exact ⟨buf, rfl, shows⟩

theorem numeral_small (small : n < 10) : numeral n = [digitByte n] := by
  rw [numeral, decimalDigits_small small]
  rfl

theorem numeral_step (large : 10 ≤ n) : numeral n = numeral (n / 10) ++ [digitByte (n % 10)] := by
  rw [numeral, decimalDigits_step large, List.map_append]
  rfl

/-- The loop of `IntToString` stores the digits of a value in `temp`, at least one. -/
theorem tempDigits_shows (nonneg : value.msb = false) (shows : Shows temp list) :
    ∃ temp', (tempDigits temp list.length value).result =
        .ok (temp', (list ++ (numeral value.toNat).reverse).length) ∧ Shows temp' (list ++ (numeral value.toNat).reverse) := by
  induction isNumber : value.toNat using Nat.strong_induction_on generalizing temp list value with
  | _ number inductionHypothesis =>
      obtain ⟨nonneg', quotient⟩ := sdiv_ten nonneg
      rw [isNumber] at quotient
      have pushed := shows.push (lastDigit value)
      rw [lastDigit_eq nonneg, isNumber] at pushed
      rw [tempDigits, Logged.result_bind, Logged.result_access, Result.ok_bind, Logged.result_ite, lastDigit_eq nonneg, isNumber]
      by_cases large : 10 ≤ number
      · obtain ⟨temp', stored, shows'⟩ := inductionHypothesis (number / 10) (by omega) nonneg' pushed quotient
        rw [List.length_append, List.length_singleton] at stored
        rw [if_pos ((slt_zero nonneg').mpr (by omega)), stored, numeral_step large, List.reverse_append, List.reverse_singleton,
          ← List.append_assoc]
        exact ⟨temp', rfl, shows'⟩
      · rw [Nat.mod_eq_of_lt (by omega)] at pushed ⊢
        rw [if_neg (mt (slt_zero nonneg').mp (by omega)), numeral_small (by omega), List.reverse_singleton, List.length_append]
        exact ⟨_, rfl, pushed⟩

theorem tempDigits_only {allowed : TextStore → Prop} {i : Nat} (nonneg : value.msb = false) :
    (tempDigits temp i value).Only allowed ↔ ∀ k < (numeral value.toNat).length, allowed (.temp (i + k)) := by
  induction isNumber : value.toNat using Nat.strong_induction_on generalizing temp i value with
  | _ number inductionHypothesis =>
      obtain ⟨nonneg', quotient⟩ := sdiv_ten nonneg
      rw [isNumber] at quotient
      have first : (Logged.access [.temp i] (Function.update temp i (lastDigit value)) : TextStores CharPtr).Only allowed ↔
          allowed (.temp (i + 0)) := by simp
      rw [tempDigits, Logged.only_bind_value rfl, first, Logged.only_ite]
      by_cases large : 10 ≤ number
      · have continues : BitVec.slt 0 (value.sdiv 10) = true := (slt_zero nonneg').mpr (by omega)
        rw [inductionHypothesis (number / 10) (by omega) nonneg' quotient, numeral_step large, List.length_append,
          List.length_singleton, Nat.forall_lt_succ_left]
        simp only [continues, not_true_eq_false, false_implies, true_implies, and_true, Nat.add_assoc, Nat.add_comm 1]
      · have stops : ¬BitVec.slt 0 (value.sdiv 10) = true := mt (slt_zero nonneg').mp (by omega)
        rw [numeral_small (by omega)]
        simp only [stops]
        simp

theorem storeSign_shows (isNegative : Bool) (shows : Shows buf (numeral n).reverse) :
    ∃ buf', storeSign buf (numeral n).reverse.length isNegative = (buf', (signedNumeral isNegative n).length) ∧
      Shows buf' (signedNumeral isNegative n).reverse := by
  cases isNegative with
  | true =>
      refine ⟨_, by rw [storeSign, signedNumeral, List.length_reverse]; rfl, ?_⟩
      simpa [signedNumeral] using shows.push 0x2D
  | false => exact ⟨buf, by rw [storeSign, signedNumeral, List.length_reverse]; rfl, shows⟩

theorem tempSign_result (isNegative : Bool) (i : Nat) :
    (tempSign temp i isNegative).result = .ok (storeSign temp i isNegative) := by
  cases isNegative <;> rfl

theorem signedNumeral_strict (isNegative : Bool) (n : Nat) : 0 ∉ signedNumeral isNegative n := by
  have strict : 0 ∉ numeral n := fun inside => (isDigit_ne (numeral_isDigit inside)).1 rfl
  cases isNegative with
  | true =>
      rw [signedNumeral, if_pos rfl, List.mem_cons, not_or]
      exact ⟨by decide, strict⟩
  | false => exact strict

/-- The loop at the end of `IntToString` writes the characters of `temp` in reverse order. -/
theorem copyReversed_shows {left j i : Nat} (shows : Shows temp list.reverse) (split : j + left = i) (isLength : list.length = i)
    (done : Shows buffer (list.take j)) :
    ∃ buffer', (copyReversed temp i left j buffer).result = .ok buffer' ∧ Shows buffer' list := by
  induction left generalizing j buffer with
  | zero =>
      rw [List.take_of_length_le (by omega)] at done
      exact ⟨buffer, rfl, done⟩
  | succ left inductionHypothesis =>
      have inside : j < list.length := by omega
      have char : temp (i - j - 1) = list[j] := by
        apply shows
        rw [List.getElem?_reverse (by omega), ← List.getElem?_eq_getElem inside]
        congr 1
        omega
      have pushed := done.push list[j]
      rw [List.length_take_of_le inside.le, List.take_concat_get' list j inside] at pushed
      rw [copyReversed, Logged.result_bind, Logged.result_access, Result.ok_bind, char]
      exact inductionHypothesis (by omega) pushed

theorem copyReversed_only {allowed : TextStore → Prop} {left j i : Nat} :
    (copyReversed temp i left j buffer).Only allowed ↔ ∀ k < left, allowed (.buffer (j + k)) := by
  induction left generalizing j buffer with
  | zero => simp [copyReversed]
  | succ left inductionHypothesis =>
      rw [copyReversed, Logged.only_bind_value rfl, inductionHypothesis, Nat.forall_lt_succ_left, Logged.only_access,
        List.forall_mem_singleton]
      simp only [Nat.add_zero, Nat.add_assoc, Nat.add_comm 1]

/-- Every number but the most negative one gets another sign. -/
theorem magnitude_natAbs (usual : v ≠ BitVec.intMin 32) :
    (magnitude v).toNat = v.toInt.natAbs ∧ (magnitude v).msb = false := by
  have bound := v.isLt
  have different : v.toNat ≠ 2 ^ 31 := fun same => usual (BitVec.eq_of_toNat_eq same)
  have isNegative : BitVec.slt v 0 = true ↔ v.toInt < 0 := BitVec.slt_iff_toInt_lt
  have value := BitVec.toInt_eq_toNat_cond v
  rw [BitVec.msb_eq_false_iff_two_mul_lt, magnitude]
  by_cases sign : BitVec.slt v 0 = true
  · have below := isNegative.mp sign
    rw [if_pos sign, BitVec.toNat_neg]
    split at value <;> omega
  · have least := mt isNegative.mpr sign
    rw [if_neg sign]
    split at value <;> omega

theorem magnitude_sign (v : BitVec 32) :
    ((magnitude v).toNat : BitVec 32) * (if BitVec.slt v 0 then -1 else 1) = v := by
  have cast (word : BitVec 32) : (word.toNat : BitVec 32) = word := BitVec.ofNat_toNat 32 word
  rw [cast, magnitude]
  split
  · rw [neg_mul_neg, mul_one]
  · rw [mul_one]

theorem numeral_length_le (n : Nat) {count : Nat} (positive : 0 < count) : (numeral n).length ≤ count ↔ n < 10 ^ count := by
  rw [numeral, List.length_map]
  exact decimalDigits_length positive

theorem numeral_short (value : BitVec 32) : (numeral value.toNat).length ≤ 10 :=
  (numeral_length_le _ (by decide)).mpr (value.isLt.trans (by decide))

/-- The text of a number. -/
def decimalText (v : BitVec 32) : List (BitVec 8) := signedNumeral (BitVec.slt v 0) (magnitude v).toNat

theorem decimalText_length (v : BitVec 32) : (decimalText v).length =
    (numeral (magnitude v).toNat).length + if BitVec.slt v 0 then 1 else 0 := by
  rw [decimalText, signedNumeral]
  split
  · rw [List.length_cons]
  · rw [Nat.add_zero]

theorem decimalText_short (v : BitVec 32) : (decimalText v).length ≤ 11 := by
  have digits := numeral_short (magnitude v)
  rw [decimalText_length]
  split <;> omega

/-- The decoder finds the number of a text. -/
theorem strToInt_decimalText (text : HoldsText 0 str (decimalText v)) : strToInt str = .ok v := by
  rw [strToInt_text text ((numeral_short _).trans_lt (by decide)), magnitude_sign]

/-- A text that shows a list of characters is terminated behind them. -/
theorem HoldsText.terminate (shows : Shows str list) (strict : 0 ∉ list) : HoldsText 0 (Function.update str list.length 0) list :=
  ⟨shows.push 0, strict⟩

theorem strFromInt_text (usual : v ≠ BitVec.intMin 32) (buf : CharPtr) :
    ∃ text, strFromInt buf v = .ok text ∧ HoldsText 0 text (decimalText v) := by
  rw [strFromInt]
  by_cases zero : v = 0
  · subst zero
    refine ⟨_, if_pos rfl, ?_⟩
    have shows : Shows (Function.update buf 0 0x30) [0x30] := (shows_nil buf).push 0x30
    exact HoldsText.terminate shows (by decide)
  · obtain ⟨isNumber, nonneg⟩ := magnitude_natAbs usual
    have positive : (magnitude v).toNat ≠ 0 := by
      rw [isNumber, Int.natAbs_ne_zero]
      exact fun same => zero (BitVec.eq_of_toInt_eq same)
    have digits : storedDigits (magnitude v) = (numeral (magnitude v).toNat).reverse := by
      rw [storedDigits, numeral, decimalDigits, if_neg positive, List.map_reverse, List.reverse_reverse]
    obtain ⟨digitsBuf, stored, shows⟩ := storeDigits_shows nonneg (shows_nil buf)
    rw [digits] at stored shows
    obtain ⟨signBuf, signed, shows'⟩ := storeSign_shows (BitVec.slt v 0) shows
    have strict : 0 ∉ (decimalText v).reverse := mt List.mem_reverse.mp (signedNumeral_strict _ _)
    have text := HoldsText.terminate shows' strict
    rw [List.length_reverse] at text
    obtain ⟨reversed, turned, text'⟩ := strReverse_text text (by
      rw [List.length_reverse]
      exact (decimalText_short v).trans_lt (by decide))
    rw [List.reverse_reverse] at text'
    refine ⟨reversed, ?_, text'⟩
    rw [if_neg zero]
    simp only [List.nil_append, List.length_nil] at stored
    simp only [stored, signed]
    exact turned

/-- What is known after the sign and the terminator of `temp`. -/
theorem intToString_result (usual : v ≠ BitVec.intMin 32) (temp buffer : CharPtr) :
    ∃ digitsTemp signTemp buffer',
      (tempDigits temp 0 (magnitude v)).result = .ok (digitsTemp, (numeral (magnitude v).toNat).length) ∧
      storeSign digitsTemp (numeral (magnitude v).toNat).length (BitVec.slt v 0) = (signTemp, (decimalText v).length) ∧
      (copyReversed (Function.update signTemp (decimalText v).length 0) (decimalText v).length (decimalText v).length 0 buffer).result =
        .ok buffer' ∧ Shows buffer' (decimalText v) := by
  obtain ⟨digitsTemp, stored, shows⟩ := tempDigits_shows (magnitude_natAbs usual).2 (shows_nil temp)
  rw [List.nil_append] at stored shows
  obtain ⟨signTemp, signed, shows'⟩ := storeSign_shows (BitVec.slt v 0) shows
  rw [List.length_reverse] at stored signed
  have ended := (shows'.push 0).left
  rw [List.length_reverse] at ended
  obtain ⟨buffer', copied, shows''⟩ := copyReversed_shows (i := (decimalText v).length) ended (Nat.zero_add _) rfl (shows_nil buffer)
  exact ⟨digitsTemp, signTemp, buffer', stored, signed, copied, shows''⟩

theorem intToString_text (usual : v ≠ BitVec.intMin 32) (temp buffer : CharPtr) :
    ∃ text, (intToString temp v buffer).result = .ok text ∧ HoldsText 0 text (decimalText v) := by
  obtain ⟨digitsTemp, signTemp, buffer', stored, signed, copied, shows⟩ := intToString_result usual temp buffer
  refine ⟨_, ?_, HoldsText.terminate shows (signedNumeral_strict _ _)⟩
  rw [intToString, Logged.result_bind, stored, Result.ok_bind, Logged.result_bind, tempSign_result, signed, Result.ok_bind,
    Logged.result_bind, Logged.result_access, Result.ok_bind, Logged.result_bind, copied]
  rfl

/-- The stores of `IntToString` stay in its array and in the buffer of `printInt`. -/
def TextStore.Inside : TextStore → Prop
  | .temp index => index < tempSize
  | .buffer index => index < printIntSize

/-- The array `temp` is long enough for a text with its terminator when the text has at most ten characters. -/
theorem intToString_inside (usual : v ≠ BitVec.intMin 32) (temp buffer : CharPtr) :
    (intToString temp v buffer).Only TextStore.Inside ↔ (decimalText v).length < tempSize := by
  obtain ⟨digitsTemp, signTemp, buffer', stored, signed, copied, _⟩ := intToString_result usual temp buffer
  have short := decimalText_short v
  have long := decimalText_length v
  rw [intToString, Logged.only_bind_value stored, tempDigits_only (magnitude_natAbs usual).2,
    Logged.only_bind_value ((tempSign_result _ _).trans (congrArg Except.ok signed)), Logged.only_bind_value rfl,
    Logged.only_bind_value copied, copyReversed_only]
  constructor
  · rintro ⟨_, _, terminator, _⟩
    exact terminator _ (List.mem_singleton_self _)
  · intro fits
    have buffers {index : Nat} (inside : index ≤ (decimalText v).length) : TextStore.Inside (.buffer index) := by
      change index < 12
      omega
    have temps {index : Nat} (inside : index ≤ (decimalText v).length) : TextStore.Inside (.temp index) := by
      exact inside.trans_lt fits
    refine ⟨?_, ?_, ?_, ?_, ?_⟩
    · intro k inside
      exact temps (by omega)
    · rw [tempSign]
      split
      · exact List.forall_mem_singleton.mpr (temps (by omega))
      · exact Logged.only_pure
    · exact List.forall_mem_singleton.mpr (temps (Nat.le_refl _))
    · intro k inside
      exact buffers (by omega)
    · exact List.forall_mem_singleton.mpr (buffers (Nat.le_refl _))

/-- Both encoders produce a text that reads back as the number, and `IntToString` stores inside its two arrays. -/
structure RoundTrips (v : BitVec 32) : Prop where
  fromInt : ∀ buf, ∃ text, strFromInt buf v = .ok text ∧ strToInt text = .ok v
  intToString : ∀ temp buffer, ∃ text, (intToString temp v buffer).result = .ok text ∧ strToInt text = .ok v
  inside : ∀ temp buffer, (Screen.intToString temp v buffer).Only TextStore.Inside

/-- The most negative number has no digits for `str_from_int`: its text is a sign, which reads back as zero. -/
theorem strFromInt_intMin (buf : CharPtr) :
    ∃ text, strFromInt buf (BitVec.intMin 32) = .ok text ∧ strToInt text = .ok 0 := by
  have none : storeDigits buf 0 (magnitude (BitVec.intMin 32)) = (buf, 0) := by
    rw [storeDigits, if_neg (by decide)]
  have shows : HoldsText 0 (Function.update (Function.update buf 0 0x2D) 1 0) [0x2D] :=
    HoldsText.terminate ((shows_nil buf).push 0x2D) (by decide)
  obtain ⟨text, turned, text'⟩ := strReverse_text shows (by decide)
  refine ⟨text, ?_, ?_⟩
  · rw [strFromInt, if_neg (by decide)]
    simp only [none]
    exact turned
  · obtain ⟨first, _, ends⟩ := HoldsText.cons_iff.mp text'
    have noDigits : convertDigits addressSpace (fun i => text (i + 1)) 0 = .ok 0 :=
      @convertDigits_text _ addressSpace [] nofun ends (by decide) 0
    rw [strToInt, skipWhitespace_stop (by rw [first]; decide), Result.ok_bind]
    simp only [first, if_true]
    rw [show convertDigits addressSpace text.next 0 = .ok 0 from noDigits]
    rfl

/-- The conversions are right for the numbers whose sign and digits, with a terminator, fit in `temp`. -/
theorem conversions_round_trip (v : BitVec 32) : RoundTrips v ↔ -1000000000 < v.toInt := by
  by_cases least : v = BitVec.intMin 32
  · subst least
    refine iff_of_false ?_ (by decide)
    intro trips
    obtain ⟨text, given, reads⟩ := trips.fromInt (fun _ => 0)
    obtain ⟨text', given', zero⟩ := strFromInt_intMin (fun _ => 0)
    obtain rfl := Except.ok.inj (given.symm.trans given')
    exact absurd (Except.ok.inj (reads.symm.trans zero)) (by decide)
  · have fits : (decimalText v).length < tempSize ↔ -1000000000 < v.toInt := by
      obtain ⟨isNumber, _⟩ := magnitude_natAbs least
      have short := numeral_short (magnitude v)
      have digits := numeral_length_le (magnitude v).toNat (show 0 < 9 by decide)
      have isNegative : BitVec.slt v 0 = true ↔ v.toInt < 0 := BitVec.slt_iff_toInt_lt
      rw [decimalText_length, tempSize]
      split
      · have below := isNegative.mp ‹_›
        omega
      · have least := mt isNegative.mpr ‹_›
        omega
    rw [← fits]
    constructor
    · exact fun trips => (intToString_inside least (fun _ => 0) (fun _ => 0)).mp (trips.inside _ _)
    · intro long
      refine ⟨?_, ?_, fun temp buffer => (intToString_inside least temp buffer).mpr long⟩
      · intro buf
        obtain ⟨text, given, holds⟩ := strFromInt_text least buf
        exact ⟨text, given, strToInt_decimalText holds⟩
      · intro temp buffer
        obtain ⟨text, given, holds⟩ := intToString_text least temp buffer
        exact ⟨text, given, strToInt_decimalText holds⟩

/-- The terminator of `-1000000000` is stored behind the end of `temp`. -/
theorem intToString_overflows : ¬∀ v : BitVec 32, RoundTrips v := by
  intro trips
  have inside := (trips (-1000000000)).inside (fun _ => 0) (fun _ => 0)
  have long := (intToString_inside (by decide) _ _).mp inside
  rw [decimalText_length] at long
  have digits := numeral_length_le 1000000000 (show 0 < 9 by decide)
  have number : (magnitude (-1000000000)).toNat = 1000000000 := by decide
  rw [number, if_pos (by decide), tempSize] at long
  omega

end

end DoccrOS.Screen
