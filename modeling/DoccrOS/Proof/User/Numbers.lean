import DoccrOS.Construction.User.Printf
import DoccrOS.Lib.Text
import DoccrOS.Proof.User.Stdio

namespace DoccrOS.User
open Lib

/-- The characters of decimal digits. -/
def digitsText (digits : List Nat) : List Char := digits.map (digitChar false)

/-- The modifiers of a `%d`: a zero or none, a width or none, and a precision or none. -/
structure NumberForm where
  zero : Bool
  width : Option Nat
  precision : Option Nat
deriving DecidableEq, Repr

def NumberForm.widthDigits (form : NumberForm) : List Nat := form.width.elim [] decimalDigits

def NumberForm.precisionText (form : NumberForm) : List Char :=
  form.precision.elim [] fun precision => '.' :: digitsText (decimalDigits precision)

/-- The format of a number. -/
def NumberForm.text (form : NumberForm) : List Char :=
  '%' :: ((if form.zero then ['0'] else []) ++ (digitsText form.widthDigits ++ (form.precisionText ++ ['d'])))

/-- The most characters that a number of 32 bits takes in its format. -/
def NumberForm.room (form : NumberForm) : Nat := max (max (form.width.getD 0) (form.precision.getD 0 + 1)) 11

/-- The text of a number: spaces, its sign, zeroes and its digits. -/
def numberText (spaces zeroes : Nat) (negative : Bool) (value : Nat) : List Char :=
  List.replicate spaces ' ' ++ (signText negative ++ digitsText (List.replicate zeroes 0 ++ decimalDigits value))

section
variable {length size next : Nat} {output : OutputBuffer} {arguments : Arguments} {rest : List Char} {digits : List Nat}
  {form : NumberForm} {negative : Bool} {value : Nat}

theorem wrapInt_eq (n : Int) : wrapInt n = n.bmod (2 ^ 32) := BitVec.toInt_ofInt n

theorem wrapInt_small {n : Int} (least : -2 ^ 31 ≤ n) (most : n < 2 ^ 31) : wrapInt n = n := by
  rw [wrapInt_eq]
  exact Int.bmod_eq_of_le (by omega) (by omega)

/-- A round of the reader wraps once. -/
theorem wrapInt_round (n : Int) (d : Nat) : wrapInt (wrapInt (wrapInt n * 10) + (48 + d : Nat) - 48) = wrapInt (n * 10 + d) := by
  have sum : wrapInt (wrapInt n * 10) + ((48 + d : Nat) : Int) - 48 = wrapInt (wrapInt n * 10) + d := by
    push_cast
    ring
  rw [sum]
  simp only [wrapInt_eq, Int.bmod_add_bmod, Int.bmod_mul_bmod]

/-- The character of a digit is a digit, and its code is that of the digit. -/
theorem digitChar_facts {d : Nat} (small : d < 10) : isdigit (digitChar false d) = true ∧
    (digitChar false d).toNat = 48 + d ∧ digitChar false d ≠ nul := by
  have checked : ∀ d < 10, isdigit (digitChar false d) = true ∧ (digitChar false d).toNat = 48 + d ∧
      digitChar false d ≠ nul := by decide
  exact checked d small

theorem readDigits_stop (value : Int) (stops : isdigit (rest.headD nul) = false) : readDigits value rest = (value, rest) := by
  cases rest with
  | nil => rfl
  | cons c rest =>
      rw [List.headD_cons] at stops
      rw [readDigits, stops, if_neg Bool.false_ne_true]

/-- The reader takes the digits at the start of a text. -/
theorem readDigits_text (small : ∀ d ∈ digits, d < 10) (stops : isdigit (rest.headD nul) = false) (start : Int) :
    readDigits (wrapInt start) (digitsText digits ++ rest) =
      (wrapInt (digits.foldl (fun (value : Int) (digit : Nat) => value * 10 + (digit : Int)) start), rest) := by
  induction digits generalizing start with
  | nil => exact readDigits_stop _ stops
  | cons d digits inductionHypothesis =>
      obtain ⟨digit, code, -⟩ := digitChar_facts (small d List.mem_cons_self)
      rw [digitsText, List.map_cons, List.cons_append, readDigits, if_pos digit, code]
      change readDigits (wrapInt (wrapInt (wrapInt start * 10) + ((48 + d : Nat) : Int) - 48)) (digitsText digits ++ rest) = _
      rw [wrapInt_round, List.foldl_cons]
      exact inductionHypothesis (fun d inside => small d (List.mem_cons_of_mem _ inside)) _

theorem leadingZeroes_lt (zeroes value : Nat) : ∀ d ∈ List.replicate zeroes 0 ++ decimalDigits value, d < 10 := by
  intro d inside
  rcases List.mem_append.mp inside with isZero | isDigit
  · rw [List.eq_of_mem_replicate isZero]
    decide
  · exact decimalDigits_lt isDigit

/-- Zeroes before the digits do not count. -/
theorem readDigits_decimal (zeroes value : Nat) (stops : isdigit (rest.headD nul) = false) :
    readDigits 0 (digitsText (List.replicate zeroes 0 ++ decimalDigits value) ++ rest) = (wrapInt value, rest) := by
  have small := leadingZeroes_lt zeroes value
  have zero : (List.replicate zeroes 0).foldl (fun (value : Int) (digit : Nat) => value * 10 + (digit : Int)) 0 = 0 := by
    induction zeroes with
    | zero => rfl
    | succ zeroes inductionHypothesis => exact inductionHypothesis (leadingZeroes_lt zeroes value)
  have read := readDigits_text small stops 0
  rw [List.foldl_append, zero, foldl_decimalDigits] at read
  exact read

/-- The reader of the format is the reader of the texts. -/
theorem readNumber_value (number : Int) (rest : List Char) :
    (readNumber length number rest).result = .ok (readDigits number rest) := by
  induction rest generalizing number with
  | nil => rfl
  | cons c rest inductionHypothesis =>
      rw [readNumber, Logged.result_bind, readAt_result, Result.ok_bind, List.headD_cons, readDigits]
      by_cases digit : isdigit c = true
      · rw [if_pos digit, if_pos digit, Logged.result_bind, readAt_result, Result.ok_bind, List.headD_cons]
        exact inductionHypothesis _
      · rw [if_neg digit, if_neg digit]
        rfl

/-- A text of digits starts with a zero or not at all with one. -/
theorem digitsText_head (small : ∀ d ∈ digits, d < 10) (stops : rest.headD nul ≠ '0') :
    (digitsText digits ++ rest).headD nul = '0' ↔ ∃ later, digits = 0 :: later := by
  cases digits with
  | nil =>
      refine iff_of_false stops ?_
      rintro ⟨later, isCons⟩
      cases isCons
  | cons d digits =>
      have checked : ∀ d < 10, digitChar false d = '0' ↔ d = 0 := by decide
      change digitChar false d = '0' ↔ _
      rw [checked d (small d List.mem_cons_self)]
      constructor
      · exact fun zero => ⟨digits, by rw [zero]⟩
      · rintro ⟨later, isCons⟩
        exact (List.cons.inj isCons).1

theorem decimalDigits_fold (n : Nat) :
    (decimalDigits n).foldl (fun (value : Int) (digit : Nat) => value * 10 + (digit : Int)) 0 = n :=
  foldl_decimalDigits n

/-- The zero of a width is taken as the flag, which does not change the width. -/
theorem readPadding_form (form : NumberForm) (stops : isdigit (rest.headD nul) = false) :
    ∃ padding digits, (readPadding length ((if form.zero then ['0'] else []) ++ (digitsText form.widthDigits ++ rest))).result =
        .ok (padding, digitsText digits ++ rest) ∧ (∀ d ∈ digits, d < 10) ∧
      digits.foldl (fun (value : Int) (digit : Nat) => value * 10 + (digit : Int)) 0 = (form.width.getD 0 : Nat) := by
  have small : ∀ d ∈ form.widthDigits, d < 10 := by
    rw [NumberForm.widthDigits]
    cases form.width with
    | none => exact nofun
    | some width => exact fun d => decimalDigits_lt
  have fold : form.widthDigits.foldl (fun (value : Int) (digit : Nat) => value * 10 + (digit : Int)) 0 =
      (form.width.getD 0 : Nat) := by
    rw [NumberForm.widthDigits]
    cases form.width with
    | none => rfl
    | some width => exact decimalDigits_fold width
  have notZero : rest.headD nul ≠ '0' := by
    intro isZero
    rw [isZero] at stops
    cases stops
  have head := digitsText_head small notZero
  rw [readPadding, Logged.result_bind, readAt_result, Result.ok_bind, Logged.result_pure]
  cases form.zero with
  | true => exact ⟨'0', form.widthDigits, rfl, small, fold⟩
  | false =>
      rw [if_neg Bool.false_ne_true, List.nil_append]
      by_cases isZero : (digitsText form.widthDigits ++ rest).headD nul = '0'
      · obtain ⟨later, isCons⟩ := head.mp isZero
        rw [isCons] at small fold
        refine ⟨'0', later, ?_, fun d inside => small d (List.mem_cons_of_mem _ inside), fold⟩
        rw [if_pos isZero, isCons]
        rfl
      · exact ⟨' ', form.widthDigits, by rw [if_neg isZero], small, fold⟩

/-- The precision of a form, which is negative when there is none. -/
def NumberForm.precisionValue (form : NumberForm) : Int := form.precision.elim (-1) fun precision => precision

/-- The width and the precision of a form are read as they are, when they are small. -/
theorem readDirective_form (form : NumberForm) (width : form.width.getD 0 < 2 ^ 31)
    (precision : form.precision.getD 0 < 2 ^ 31) : ∃ padding, (readDirective length ((if form.zero then ['0'] else []) ++
      (digitsText form.widthDigits ++ (form.precisionText ++ ['d'])))).result =
        .ok (⟨padding, (form.width.getD 0 : Nat), form.precisionValue, 0⟩, ['d']) := by
  have stops : isdigit ((form.precisionText ++ ['d']).headD nul) = false := by
    rw [NumberForm.precisionText]
    cases form.precision <;> rfl
  obtain ⟨padding, digits, padded, small, fold⟩ := @readPadding_form length _ form stops
  have wide := readDigits_text small stops 0
  rw [fold, wrapInt_small (by omega) (by omega), wrapInt_small (n := ((form.width.getD 0 : Nat) : Int)) (by omega) (by omega)]
    at wide
  have precise : (readPrecision length (form.precisionText ++ ['d'])).result = .ok (form.precisionValue, ['d']) := by
    rw [readPrecision, Logged.result_bind, readAt_result, Result.ok_bind, NumberForm.precisionText,
      NumberForm.precisionValue]
    cases given : form.precision with
    | none => rfl
    | some number =>
        rw [given, Option.getD_some] at precision
        have read := @readDigits_decimal ['d'] 0 number rfl
        rw [wrapInt_small (by omega) (by omega)] at read
        have value := @readNumber_value length 0 (digitsText (decimalDigits number) ++ ['d'])
        rw [show readDigits 0 (digitsText (decimalDigits number) ++ ['d']) = ((number : Int), ['d']) from read] at value
        exact value
  refine ⟨padding, ?_⟩
  simp only [readDirective, Logged.result_bind, padded, readNumber_value, wide, precise, Result.ok_bind]
  rfl

/-- The digits of a number are stored with the last one first. -/
theorem reverseDigits_decimal (value : Nat) :
    (reverseDigits .decimal false value).result = .ok (digitsText (decimalDigits value)).reverse := by
  have stored (value : Nat) : ∀ digits,
      (storeDigits .decimal false digits value).result = .ok (digitsText (Nat.digits 10 value)) := by
    induction value using Nat.strong_induction_on with
    | _ value inductionHypothesis =>
        intro digits
        rw [storeDigits]
        by_cases zero : value = 0
        · rw [if_pos zero, zero, Nat.digits_zero]
          rfl
        · have less : value / 10 < value := Nat.div_lt_self (by omega) (by decide)
          rw [if_neg zero, Nat.digits_def' (by decide) (by omega)]
          simp only [Logged.result_bind, Logged.result_access, Result.ok_bind, Radix.base,
            inductionHypothesis _ less (digits + 1), Logged.result_pure]
          rfl
  rw [reverseDigits, decimalDigits, digitsText, List.map_reverse, List.reverse_reverse]
  by_cases zero : value = 0
  · rw [if_pos zero, if_pos zero]
    rfl
  · rw [if_neg zero, if_neg zero]
    exact stored value 0

/-- The padding of a number is zeroes behind the sign, or spaces before it. -/
theorem emitPadding_text (negative zeroPadded : Bool) (count : Nat) (output : OutputBuffer) :
    (emitPadding output negative zeroPadded count).result =
      .ok (output.puts (if zeroPadded then signText negative ++ List.replicate count '0' else List.replicate count ' '),
        negative && !zeroPadded) := by
  cases zeroPadded with
  | true =>
      simp only [emitPadding, if_true, Logged.result_bind, emitSign_result, emitAll_result, Result.ok_bind,
        Logged.result_pure, OutputBuffer.puts_append, Bool.not_true, Bool.and_false]
  | false =>
      simp only [emitPadding, Bool.false_eq_true, if_false, Logged.result_bind, emitAll_result, Result.ok_bind,
        Logged.result_pure, Bool.not_false, Bool.and_true]

theorem digitsText_zeroes (zeroes : Nat) (digits : List Nat) :
    digitsText (List.replicate zeroes 0 ++ digits) = List.replicate zeroes '0' ++ digitsText digits := by
  rw [digitsText, List.map_append, List.map_replicate]
  rfl

theorem signText_length (negative : Bool) : (signText negative).length = if negative then 1 else 0 := by
  cases negative <;> rfl

theorem numberText_length (spaces zeroes : Nat) (negative : Bool) (value : Nat) :
    (numberText spaces zeroes negative value).length =
      spaces + ((if negative then 1 else 0) + (zeroes + (decimalDigits value).length)) := by
  simp only [numberText, digitsText, List.length_append, List.length_map, List.length_replicate, signText_length]

/-- In each branch `emit_number` emits spaces, the sign, zeroes and the digits, as many as the width and the precision ask for. -/
theorem emitNumber_text (value : Nat) (negative : Bool) (width precision : Int) (padding : Char)
    (precise : precision < 2 ^ 30) (short : (decimalDigits value).length ≤ 20) :
    ∃ spaces zeroes, (∀ output, (emitNumber output value .decimal false negative width precision padding).result =
        .ok (output.puts (numberText spaces zeroes negative value))) ∧
      ((numberText spaces zeroes negative value).length : Int) ≤
        max (max width (precision + 1)) ((decimalDigits value).length + 1) ∧
      (width ≤ 0 → precision < 0 → spaces = 0 ∧ zeroes = 0) := by
  have digits : (digitsText (decimalDigits value)).reverse.length = (decimalDigits value).length := by
    rw [List.length_reverse, digitsText, List.length_map]
  have sign : (if negative then (1 : Int) else 0) ≤ 1 ∧ 0 ≤ (if negative then (1 : Int) else 0) := by
    cases negative <;> decide
  obtain ⟨zeroes, isZeroes⟩ : ∃ zeroes : Nat, (if precision > ((decimalDigits value).length : Int)
      then precision - (decimalDigits value).length else 0) = zeroes :=
    ⟨(precision - (decimalDigits value).length).toNat, by split_ifs <;> omega⟩
  have bound : ((decimalDigits value).length : Int) + zeroes ≤ max precision (decimalDigits value).length := by
    rw [← isZeroes]
    split_ifs <;> omega
  have none : precision < 0 → zeroes = 0 := by
    intro absent
    rw [if_neg (by omega)] at isZeroes
    exact Nat.cast_eq_zero.mp isZeroes.symm
  have total : wrapInt ((decimalDigits value).length + zeroes + if negative then 1 else 0) =
      (decimalDigits value).length + zeroes + if negative then 1 else 0 := wrapInt_small (by omega) (by omega)
  obtain ⟨count, isCount⟩ : ∃ count : Nat,
    (width - ((decimalDigits value).length + zeroes + if negative then 1 else 0)).toNat = count := ⟨_, rfl⟩
  have length (spaces zeroes : Nat) : ((numberText spaces zeroes negative value).length : Int) =
      spaces + ((if negative then 1 else 0) + (zeroes + (decimalDigits value).length)) := by
    rw [numberText_length]
    cases negative <;> simp
  have emitted (zeroPadded : Bool) (output : OutputBuffer)
      (isPadded : decide (padding = '0' ∧ precision < 0) = zeroPadded) :
      (emitNumber output value .decimal false negative width precision padding).result =
        .ok (output.puts ((if zeroPadded then signText negative ++ List.replicate count '0' else List.replicate count ' ') ++
          (signText (negative && !zeroPadded) ++ (List.replicate zeroes '0' ++ digitsText (decimalDigits value))))) := by
    rw [emitNumber, Logged.result_bind, reverseDigits_decimal, Result.ok_bind]
    simp only [digits, isZeroes, total, isCount, isPadded, Logged.result_bind, emitPadding_text, Result.ok_bind,
      emitSign_result, emitAll_result, Int.toNat_natCast, List.reverse_reverse, ← OutputBuffer.puts_append]
  by_cases padded : padding = '0' ∧ precision < 0
  · refine ⟨0, count, fun output => ?_, ?_, ?_⟩
    · rw [emitted true output (decide_eq_true padded), none padded.2, numberText, digitsText_zeroes, Bool.not_true,
        Bool.and_false, if_pos rfl]
      simp only [signText, Bool.false_eq_true, if_false, List.replicate_zero, List.nil_append, List.append_assoc]
    · rw [length]
      omega
    · intro narrow absent
      exact ⟨rfl, by omega⟩
  · refine ⟨count, zeroes, fun output => ?_, ?_, ?_⟩
    · rw [emitted false output (decide_eq_false padded), numberText, digitsText_zeroes, Bool.not_false, Bool.and_true,
        if_neg Bool.false_ne_true]
    · rw [length]
      omega
    · intro narrow absent
      exact ⟨by omega, none absent⟩

/-- A number of 32 bits has at most ten digits. -/
theorem int_digits (word : BitVec 32) : (decimalDigits word.toInt.natAbs).length ≤ 10 := by
  have least := word.le_toInt
  have most := @BitVec.toInt_lt 32 word
  refine (decimalDigits_length (by decide)).mpr ?_
  simp only [Nat.reduceSub, Nat.reducePow] at least most ⊢
  omega

/-- The loop of `vsnprintf` emits the text of the number for its format. -/
theorem vsnprintfLoop_form (form : NumberForm) (width : form.width.getD 0 < 2 ^ 30) (precision : form.precision.getD 0 < 2 ^ 30)
    (format : CString) (isFormat : format.chars = form.text) (arguments : Arguments) :
    Complete vsnprintfSkip format.chars ∧ ∃ spaces zeroes,
      (∀ output, ((vsnprintfLoop format.chars.length arguments).run format.chars.length (format.chars.length + 2)
        (some format.chars) (output, 0)).result =
          .ok (output.puts (numberText spaces zeroes (arguments.int 0 < 0) (arguments.int 0).natAbs), 1)) ∧
      (numberText spaces zeroes (arguments.int 0 < 0) (arguments.int 0).natAbs).length ≤ form.room ∧
      (form = ⟨false, none, none⟩ → spaces = 0 ∧ zeroes = 0) := by
  have precise : form.precisionValue < 2 ^ 30 ∧ form.precisionValue + 1 ≤ (form.precision.getD 0 + 1 : Nat) := by
    rw [NumberForm.precisionValue]
    cases given : form.precision with
    | none => decide
    | some number =>
        rw [given, Option.getD_some] at precision
        simp only [Option.elim_some, Option.getD_some]
        omega
  have short : (decimalDigits (arguments.int 0).natAbs).length ≤ 10 := int_digits _
  obtain ⟨padding, parsed⟩ := @readDirective_form format.chars.length form (by omega) (by omega)
  obtain ⟨spaces, zeroes, emitted, bound, plain⟩ := emitNumber_text (arguments.int 0).natAbs (arguments.int 0 < 0)
    (form.width.getD 0 : Nat) form.precisionValue padding precise.1 (by omega)
  rw [isFormat] at parsed ⊢
  refine ⟨?_, spaces, zeroes, fun output => ?_, ?_, ?_⟩
  · obtain ⟨given, skipped⟩ := @readDirective_result form.text.length ((if form.zero then ['0'] else []) ++
      (digitsText form.widthDigits ++ (form.precisionText ++ ['d'])))
    rw [parsed] at skipped
    exact Complete.directive (Prod.mk.inj (Except.ok.inj skipped)).2.symm Complete.nil
  · rw [NumberForm.text, Formatter.run_directive, Logged.result_bind, readAt_result, Result.ok_bind, Logged.result_bind]
    change (readDirective form.text.length _).result >>= _ = _
    rw [parsed, Result.ok_bind]
    change (convert form.text.length arguments _ ['d'] (output, 0) >>= _).result = _
    have converted : (convert form.text.length arguments ⟨padding, (form.width.getD 0 : Nat), form.precisionValue, 0⟩ ['d']
        (output, 0)).result =
          .ok (output.puts (numberText spaces zeroes (arguments.int 0 < 0) (arguments.int 0).natAbs), 1) := by
      rw [convert, Logged.result_bind, readAt_result, Result.ok_bind]
      change (emitNumber output (arguments.int 0).natAbs .decimal false (arguments.int 0 < 0) (form.width.getD 0 : Nat)
        form.precisionValue padding >>= fun output => pure (output, 1)).result = _
      rw [Logged.result_bind, emitted]
      rfl
    rw [Logged.result_bind, converted, Result.ok_bind]
    rfl
  · rw [NumberForm.room]
    omega
  · intro isPlain
    rw [isPlain] at plain
    exact plain le_rfl (by decide)

/-- The characters of a number other than its spaces are neither a space nor the terminator. -/
theorem digitsText_visible {c : Char} (small : ∀ d ∈ digits, d < 10) (inside : c ∈ digitsText digits) :
    c ≠ ' ' ∧ c ≠ '-' ∧ isdigit c = true ∧ c ≠ nul := by
  obtain ⟨d, isDigit, rfl⟩ := List.mem_map.mp inside
  have checked : ∀ d < 10, digitChar false d ≠ ' ' ∧ digitChar false d ≠ '-' ∧ isdigit (digitChar false d) = true ∧
      digitChar false d ≠ nul := by decide
  exact checked d (small d isDigit)

/-- The digits of a number start with a digit. -/
theorem digitsText_first (zeroes value : Nat) : ∃ c later, digitsText (List.replicate zeroes 0 ++ decimalDigits value) =
    c :: later ∧ c ≠ ' ' ∧ c ≠ '-' ∧ isdigit c = true ∧ c ≠ nul := by
  have small := leadingZeroes_lt zeroes value
  have some : digitsText (List.replicate zeroes 0 ++ decimalDigits value) ≠ [] := by
    rw [digitsText, ne_eq, List.map_eq_nil_iff, List.append_eq_nil_iff]
    exact fun both => decimalDigits_ne_nil value both.2
  obtain ⟨c, later, isCons⟩ := List.exists_cons_of_ne_nil some
  exact ⟨c, later, isCons, digitsText_visible small (by rw [isCons]; exact List.mem_cons_self)⟩

theorem numberText_strict (spaces zeroes : Nat) (negative : Bool) (value : Nat) :
    nul ∉ numberText spaces zeroes negative value := by
  intro inside
  rcases List.mem_append.mp inside with isSpace | inside
  · exact absurd (List.eq_of_mem_replicate isSpace) (by decide)
  · rcases List.mem_append.mp inside with isSign | isDigit
    · cases negative with
      | true => exact absurd isSign (by decide)
      | false => cases isSign
    · exact (digitsText_visible (leadingZeroes_lt zeroes value) isDigit).2.2.2 rfl

/-- The sign and the digits of a number give the number, when the arithmetic of 32 bits wraps. -/
theorem signed_value (word : BitVec 32) :
    wrapInt ((if word.toInt < 0 then -1 else 1) * wrapInt word.toInt.natAbs) = word.toInt := by
  have least := word.le_toInt
  have most := @BitVec.toInt_lt 32 word
  simp only [Nat.reduceSub] at least most
  have product : wrapInt ((if word.toInt < 0 then -1 else 1) * wrapInt word.toInt.natAbs) =
      wrapInt ((if word.toInt < 0 then -1 else 1) * word.toInt.natAbs) := by
    simp only [wrapInt_eq, Int.mul_bmod_bmod]
  have signed : (if word.toInt < 0 then -1 else 1) * (word.toInt.natAbs : Int) = word.toInt := by
    split_ifs <;> omega
  rw [product, signed, wrapInt_small least most]

/-- The reader of a signed number finds its sign and its digits. -/
theorem readSign_text (zeroes value : Nat) (negative : Bool) :
    readSign (signText negative ++ digitsText (List.replicate zeroes 0 ++ decimalDigits value)) =
      (if negative then -1 else 1, digitsText (List.replicate zeroes 0 ++ decimalDigits value)) := by
  cases negative with
  | true => rfl
  | false =>
      obtain ⟨c, later, isCons, -, notSign, -⟩ := digitsText_first zeroes value
      rw [isCons]
      exact if_neg notSign

/-- `atoi` skips the spaces and the zeroes. -/
theorem atoi_numberText (spaces zeroes : Nat) (word : BitVec 32) :
    atoi (numberText spaces zeroes (word.toInt < 0) word.toInt.natAbs) = word.toInt := by
  have skipped : (numberText spaces zeroes (word.toInt < 0) word.toInt.natAbs).dropWhile (· = ' ') =
      signText (word.toInt < 0) ++ digitsText (List.replicate zeroes 0 ++ decimalDigits word.toInt.natAbs) := by
    rw [numberText, List.dropWhile_append_of_pos fun c inside => decide_eq_true (List.eq_of_mem_replicate inside)]
    cases decide (word.toInt < 0) with
    | true => rfl
    | false =>
        obtain ⟨c, later, isCons, notSpace, -⟩ := digitsText_first zeroes word.toInt.natAbs
        rw [isCons]
        exact List.dropWhile_cons_of_neg (by rwa [decide_eq_true_iff])
  rw [atoi, skipped, readSign_text]
  have read := @readDigits_decimal [] zeroes word.toInt.natAbs rfl
  rw [List.append_nil] at read
  simp only [read, decide_eq_true_eq]
  exact signed_value word

/-- `sscanf` reads the number that `%d` prints. -/
theorem sscanf_numberText (word : BitVec 32) :
    sscanf (numberText 0 0 (word.toInt < 0) word.toInt.natAbs) ['%', 'd'] = (1, [.int word.toInt]) := by
  have text : numberText 0 0 (word.toInt < 0) word.toInt.natAbs =
      signText (word.toInt < 0) ++ digitsText (List.replicate 0 0 ++ decimalDigits word.toInt.natAbs) := List.nil_append _
  obtain ⟨c, later, isCons, -, -, digit, -⟩ := digitsText_first 0 word.toInt.natAbs
  have some : numberText 0 0 (word.toInt < 0) word.toInt.natAbs ≠ [] := by
    rw [text, isCons]
    exact List.append_ne_nil_of_right_ne_nil _ (List.cons_ne_nil c later)
  have read := @readDigits_decimal [] 0 word.toInt.natAbs rfl
  rw [List.append_nil] at read
  have scanned : sscanfLoop [] (numberText 0 0 (word.toInt < 0) word.toInt.natAbs) ['%', 'd'] = [.int word.toInt] := by
    rw [sscanfLoop, if_neg some, if_neg (by decide), if_neg (by decide)]
    simp only [true_or, if_true, text, readSign_text]
    rw [read, isCons, List.headD_cons, digit, Bool.not_true, if_neg Bool.false_ne_true, sscanfLoop]
    simp only [decide_eq_true_eq, List.nil_append, Int.mul_comm (wrapInt _)]
    rw [signed_value]
  rw [sscanf, scanned]
  rfl

end

/-- The call stores a whole text that reads back as the number. -/
def NumberReadsBack (form : NumberForm) (v : Int) (call : Formatting ((Nat → Char) × Int)) : Prop :=
  ∃ data text, call.result = .ok (data, text.length) ∧ HoldsText nul data text ∧ atoi text = v ∧
    (form = ⟨false, none, none⟩ → sscanf text ['%', 'd'] = (1, [.int v]))

/-- A number that is printed with `%d`, with any width and precision, reads back as itself. -/
theorem printed_number_reads_back (form : NumberForm) (width : form.width.getD 0 ≤ 10 ^ 6)
    (precision : form.precision.getD 0 ≤ 10 ^ 6) (format : CString) (isFormat : format.chars = form.text)
    (arguments : Arguments) (buffer : Nat → Char) {size : Nat} (room : form.room < size) :
    NumberReadsBack form (arguments.int 0) (vsnprintf buffer size format arguments) := by
  obtain ⟨complete, spaces, zeroes, emits, bound, plain⟩ := vsnprintfLoop_form form (by omega) (by omega) format isFormat
    arguments
  obtain ⟨data, result, returned, counted, stored⟩ := (@vsnprintf_truncates size _ _ _ _ emits complete buffer).returned
  have small : (numberText spaces zeroes (arguments.int 0 < 0) (arguments.int 0).natAbs).length < 2 ^ 31 := by
    rw [NumberForm.room] at bound
    omega
  obtain ⟨shown, ends⟩ := stored (by omega)
  rw [Nat.min_eq_left (by omega)] at shown ends
  rw [List.take_of_length_le (by omega)] at shown
  rw [counted small] at returned
  refine ⟨data, _, returned, HoldsText.of_range shown ends (numberText_strict _ _ _ _), atoi_numberText spaces zeroes _,
    fun isPlain => ?_⟩
  obtain ⟨noSpaces, noZeroes⟩ := plain isPlain
  rw [noSpaces, noZeroes]
  exact sscanf_numberText _

/-- The format `%05.3d`. -/
def paddedFormat : CString := ⟨['%', '0', '5', '.', '3', 'd'], by decide⟩

theorem paddedFormat_text : paddedFormat.chars = NumberForm.text ⟨true, some 5, some 3⟩ := by
  simp only [NumberForm.text, NumberForm.widthDigits, NumberForm.precisionText, Option.elim_some,
    decimalDigits_small (show 5 < 10 by decide), decimalDigits_small (show 3 < 10 by decide)]
  rfl

theorem printed_number_reads_back_padded : NumberReadsBack ⟨true, some 5, some 3⟩ (-42)
    (vsnprintf (fun _ => nul) 12 paddedFormat ⟨fun _ => -42, fun _ => paddedFormat⟩) :=
  printed_number_reads_back ⟨true, some 5, some 3⟩ (by decide) (by decide) paddedFormat paddedFormat_text
    ⟨fun _ => -42, fun _ => paddedFormat⟩ (fun _ => nul) (by decide)

end DoccrOS.User
