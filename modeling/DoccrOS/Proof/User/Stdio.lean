import DoccrOS.Construction.User.Stdio
import DoccrOS.Proof.Fs.Files

namespace DoccrOS.User
open Lib Fs

/-- The modifiers that `vsnprintf` takes after a `%`: a zero, a width, a precision and any number of `l`. -/
def vsnprintfSkip (rest : List Char) : List Char :=
  let rest := if rest.head? = some '0' then rest.tail else rest
  let rest := rest.dropWhile isdigit
  let rest := if rest.head? = some '.' then rest.tail.dropWhile isdigit else rest
  rest.dropWhile (· = 'l')

/-- The accesses of `vsnprintf` are within its format, within the buffer of its caller and within the array of digits. -/
def Within (length size : Nat) : FormatAccess → Prop
  | .format index => index ≤ length
  | .buffer index => index < size
  | .digit index => index < 32

/-- One character more is emitted. -/
def OutputBuffer.put (output : OutputBuffer) (character : Char) : OutputBuffer :=
  { output with
    data := if output.position + 1 < output.capacity then Function.update output.data output.position character else output.data
    position := output.position + 1 }

def OutputBuffer.puts (output : OutputBuffer) (text : List Char) : OutputBuffer := text.foldl OutputBuffer.put output

section
variable {length size fuel : Nat} {output : OutputBuffer} {character : Char} {text rest : List Char} {radix : Radix}
  {uppercase : Bool} {arguments : Arguments}

theorem OutputBuffer.puts_append (early late : List Char) : output.puts (early ++ late) = (output.puts early).puts late :=
  List.foldl_append

@[simp] theorem OutputBuffer.put_position : (output.put character).position = output.position + 1 := rfl

@[simp] theorem OutputBuffer.put_capacity : (output.put character).capacity = output.capacity := rfl

theorem OutputBuffer.puts_position : (output.puts text).position = output.position + text.length := by
  induction text generalizing output with
  | nil => rfl
  | cons c text inductionHypothesis =>
      have later := @inductionHypothesis (output.put c)
      change ((output.put c).puts text).position = _
      rw [later, List.length_cons, OutputBuffer.put_position]
      omega

/-- What was stored before the position stays. -/
theorem OutputBuffer.puts_before {i : Nat} (before : i < output.position) : (output.puts text).data i = output.data i := by
  induction text generalizing output with
  | nil => rfl
  | cons c text inductionHypothesis =>
      have later := @inductionHypothesis (output.put c) (Nat.lt_succ_of_lt before)
      change ((output.put c).puts text).data i = _
      rw [later, OutputBuffer.put]
      dsimp only
      split_ifs
      · exact Function.update_of_ne before.ne _ _
      · rfl

/-- The characters that fit are stored in their order. -/
theorem OutputBuffer.puts_data {i : Nat} (inside : i < text.length) (fits : output.position + i + 1 < output.capacity) :
    (output.puts text).data (output.position + i) = text[i] := by
  induction text generalizing output i with
  | nil => cases inside
  | cons c text inductionHypothesis =>
      change ((output.put c).puts text).data _ = _
      cases i with
      | zero =>
          rw [OutputBuffer.puts_before (Nat.lt_succ_self _), OutputBuffer.put]
          dsimp only
          rw [if_pos fits]
          exact Function.update_self _ _ _
      | succ i =>
          have room : (output.put c).position + i + 1 < (output.put c).capacity := by
            rw [OutputBuffer.put_position, OutputBuffer.put_capacity]
            omega
          have later := inductionHypothesis (Nat.lt_of_succ_lt_succ inside) room
          rw [OutputBuffer.put_position, Nat.add_right_comm] at later
          exact later

theorem emit_result : (emit output character).result = .ok (output.put character) := by
  rw [emit, OutputBuffer.put]
  by_cases fits : output.position + 1 < output.capacity
  · rw [if_pos ⟨by omega, fits⟩, if_pos fits]
    rfl
  · rw [if_neg fun both => fits both.2, if_neg fits]
    rfl

theorem emitAll_result : (emitAll output text).result = .ok (output.puts text) := by
  induction text generalizing output with
  | nil => rfl
  | cons c text inductionHypothesis =>
      rw [emitAll, Logged.result_bind, emit_result]
      exact inductionHypothesis

theorem emit_safe (capacity : output.capacity = size) :
    (emit output character).Safe (Within length size) fun output => output.capacity = size := by
  refine Logged.Safe.ite (fun fits => ?_) fun _ => Logged.Safe.pure capacity
  refine Logged.Safe.access (fun access inside => ?_) capacity
  rw [List.mem_singleton.mp inside]
  change output.position < size
  omega

theorem emitAll_safe (capacity : output.capacity = size) :
    (emitAll output text).Safe (Within length size) fun output => output.capacity = size := by
  induction text generalizing output with
  | nil => exact Logged.Safe.pure capacity
  | cons c text inductionHypothesis => exact (emit_safe capacity).bind fun output capacity => inductionHypothesis capacity

theorem Radix.base_ge (radix : Radix) : 10 ≤ radix.base := by
  cases radix <;> decide

/-- A value below a power of the base has at most as many digits, and none of them is stored beyond. -/
theorem storeDigits_safe (count : Nat) {digits value : Nat} (small : value < radix.base ^ count) :
    (storeDigits radix uppercase digits value).Safe (fun access => ∃ i < digits + count, access = .digit i) fun _ => True := by
  induction count generalizing digits value with
  | zero =>
      obtain rfl : value = 0 := Nat.lt_one_iff.mp small
      rw [storeDigits, if_pos rfl]
      exact Logged.Safe.pure trivial
  | succ count inductionHypothesis =>
      rw [storeDigits]
      refine Logged.Safe.ite (fun _ => Logged.Safe.pure trivial) fun _ => ?_
      have less : value / radix.base < radix.base ^ count := Nat.div_lt_of_lt_mul (by rwa [Nat.pow_succ'] at small)
      have later := @inductionHypothesis (digits + 1) _ less
      have first : (Logged.access [FormatAccess.digit digits] (digitChar uppercase (value % radix.base)) : Formatting Char).Safe
          (fun access => ∃ i < digits + (count + 1), access = .digit i) fun _ => True := by
        refine Logged.Safe.access (fun access inside => ⟨digits, by omega, List.mem_singleton.mp inside⟩) trivial
      refine first.bind fun _ _ => ?_
      have rest : (storeDigits radix uppercase (digits + 1) (value / radix.base)).Safe
          (fun access => ∃ i < digits + (count + 1), access = .digit i) fun _ => True := by
        refine ⟨fun access inside => ?_, later.returned⟩
        obtain ⟨i, below, same⟩ := later.only access inside
        exact ⟨i, by omega, same⟩
      exact rest.bind fun _ _ => Logged.Safe.pure trivial

/-- The digits of a 64-bit value are stored within the array of digits. -/
theorem reverseDigits_safe {value : Nat} (small : value < 2 ^ 64) :
    (reverseDigits radix uppercase value).Safe (Within length size) fun _ => True := by
  refine Logged.Safe.ite (fun _ => Logged.Safe.access (fun access inside => ?_) trivial) fun _ => ?_
  · rw [List.mem_singleton.mp inside]
    exact Nat.zero_lt_succ 31
  · have digits : value < radix.base ^ 20 :=
      small.trans (lt_of_lt_of_le (by decide : 2 ^ 64 < 10 ^ 20) (Nat.pow_le_pow_left radix.base_ge 20))
    have stored := @storeDigits_safe radix uppercase 20 0 value digits
    refine ⟨fun access inside => ?_, stored.returned⟩
    obtain ⟨i, below, rfl⟩ := stored.only access inside
    change i < 32
    omega

/-- A value has digits. -/
theorem storeDigits_result (radix : Radix) (uppercase : Bool) (digits value : Nat) :
    ∃ stored, (storeDigits radix uppercase digits value).result = .ok stored ∧ (value ≠ 0 → stored ≠ []) := by
  induction value using Nat.strong_induction_on generalizing digits with
  | _ value inductionHypothesis =>
      rw [storeDigits]
      by_cases zero : value = 0
      · rw [if_pos zero]
        exact ⟨[], rfl, fun positive => absurd zero positive⟩
      · have base := radix.base_ge
        have less : value / radix.base < value := Nat.div_lt_self (by omega) (by omega)
        obtain ⟨more, returned, -⟩ := inductionHypothesis _ less (digits + 1)
        rw [if_neg zero]
        refine ⟨_, ?_, fun _ => List.cons_ne_nil (digitChar uppercase (value % radix.base)) more⟩
        simp only [Logged.result_bind, Logged.result_access, returned]
        rfl

theorem reverseDigits_result (radix : Radix) (uppercase : Bool) (value : Nat) :
    ∃ reversed, (reverseDigits radix uppercase value).result = .ok reversed ∧ reversed ≠ [] := by
  rw [reverseDigits]
  by_cases zero : value = 0
  · rw [if_pos zero]
    exact ⟨_, rfl, List.cons_ne_nil _ _⟩
  · obtain ⟨stored, returned, digits⟩ := storeDigits_result radix uppercase 0 value
    rw [if_neg zero]
    exact ⟨stored, returned, digits zero⟩

/-- The sign of a number. -/
def signText (negative : Bool) : List Char := if negative then ['-'] else []

theorem emitSign_result (negative : Bool) : (emitSign output negative).result = .ok (output.puts (signText negative)) := by
  cases negative
  · rfl
  · exact emit_result

theorem emitSign_safe (negative : Bool) (capacity : output.capacity = size) :
    (emitSign output negative).Safe (Within length size) fun output => output.capacity = size :=
  Logged.Safe.ite (fun _ => emit_safe capacity) fun _ => Logged.Safe.pure capacity

/-- What the padding emits does not depend on the output. -/
theorem emitPadding_result (negative zeroPadded : Bool) (count : Nat) :
    ∃ text left, ∀ output, (emitPadding output negative zeroPadded count).result = .ok (output.puts text, left) := by
  cases zeroPadded
  · refine ⟨List.replicate count ' ', negative, fun output => ?_⟩
    simp only [emitPadding, Bool.false_eq_true, if_false, Logged.result_bind, emitAll_result, Result.ok_bind, Logged.result_pure]
  · refine ⟨signText negative ++ List.replicate count '0', false, fun output => ?_⟩
    simp only [emitPadding, if_true, Logged.result_bind, emitSign_result, emitAll_result, Result.ok_bind, Logged.result_pure,
      OutputBuffer.puts_append]

theorem emitPadding_safe (negative zeroPadded : Bool) (count : Nat) (capacity : output.capacity = size) :
    (emitPadding output negative zeroPadded count).Safe (Within length size) fun state => state.1.capacity = size := by
  refine Logged.Safe.ite (fun _ => ?_) fun _ => ?_
  · exact (emitSign_safe negative capacity).bind fun _ capacity => (emitAll_safe capacity).bind fun _ capacity =>
      Logged.Safe.pure capacity
  · exact (emitAll_safe capacity).bind fun _ capacity => Logged.Safe.pure capacity

/-- What `emit_number` emits does not depend on the output. -/
theorem emitNumber_result (value : Nat) (radix : Radix) (uppercase negative : Bool) (width precision : Int) (padding : Char) :
    ∃ text, ∀ output,
      (emitNumber output value radix uppercase negative width precision padding).result = .ok (output.puts text) := by
  obtain ⟨reversed, returned, -⟩ := reverseDigits_result radix uppercase value
  let zeroes : Int := if precision > reversed.length then precision - reversed.length else 0
  let total := wrapInt (reversed.length + zeroes + if negative then 1 else 0)
  obtain ⟨padded, left, padding⟩ := emitPadding_result negative (padding = '0' ∧ precision < 0) (width - total).toNat
  refine ⟨padded ++ signText left ++ List.replicate zeroes.toNat '0' ++ reversed.reverse, fun output => ?_⟩
  rw [emitNumber, Logged.result_bind, returned, Result.ok_bind, Logged.result_bind, padding, Result.ok_bind]
  simp only [Logged.result_bind, emitSign_result, emitAll_result, Result.ok_bind, OutputBuffer.puts_append, zeroes]

/-- The accesses of `emit_number` are within the buffer and the array of digits. -/
theorem emitNumber_safe {value : Nat} (small : value < 2 ^ 64) (capacity : output.capacity = size) (negative : Bool)
    (width precision : Int) (padding : Char) : (emitNumber output value radix uppercase negative width precision padding).Safe
      (Within length size) fun output => output.capacity = size := by
  refine (reverseDigits_safe small).bind fun reversed _ => (emitPadding_safe _ _ _ capacity).bind fun state capacity => ?_
  exact (emitSign_safe state.2 capacity).bind fun _ capacity => (emitAll_safe capacity).bind fun _ capacity =>
    emitAll_safe capacity

/-- What `%s` emits does not depend on the output. -/
theorem emitString_result (precision emitted : Int) (text : List Char) :
    ∃ shown, ∀ output, (emitString precision emitted output text).result = .ok (output.puts shown) := by
  induction text generalizing emitted with
  | nil => exact ⟨[], fun _ => rfl⟩
  | cons c text inductionHypothesis =>
      obtain ⟨shown, returned⟩ := inductionHypothesis (emitted + 1)
      by_cases more : precision < 0 ∨ emitted < precision
      · refine ⟨c :: shown, fun output => ?_⟩
        rw [emitString, if_pos more, Logged.result_bind, emit_result]
        exact returned _
      · refine ⟨[], fun output => ?_⟩
        rw [emitString, if_neg more]
        rfl

theorem emitString_safe (capacity : output.capacity = size) (precision emitted : Int) :
    (emitString precision emitted output text).Safe (Within length size) fun output => output.capacity = size := by
  induction text generalizing output emitted with
  | nil => exact Logged.Safe.pure capacity
  | cons c text inductionHypothesis =>
      refine Logged.Safe.ite (fun _ => ?_) fun _ => Logged.Safe.pure capacity
      exact (emit_safe capacity).bind fun _ capacity => inductionHypothesis capacity _

/-- A string without a precision is emitted whole. -/
theorem emitString_whole (text : List Char) (emitted : Int) :
    (emitString (-1) emitted output text).result = .ok (output.puts text) := by
  induction text generalizing output emitted with
  | nil => rfl
  | cons c text inductionHypothesis =>
      rw [emitString, if_pos (Or.inl (by decide)), Logged.result_bind, emit_result]
      exact inductionHypothesis _

/-- A character of the format is within it. -/
theorem format_within : ∀ i ≤ length, Within length size (.format i) := fun _ inside => inside

theorem readNumber_result (number : Int) (rest : List Char) :
    ∃ value, (readNumber length number rest).result = .ok (value, rest.dropWhile isdigit) := by
  induction rest generalizing number with
  | nil => exact ⟨number, rfl⟩
  | cons c rest inductionHypothesis =>
      rw [readNumber, Logged.result_bind, readAt_result, Result.ok_bind, List.headD_cons, List.dropWhile_cons]
      by_cases digit : isdigit c = true
      · rw [if_pos digit, if_pos digit, Logged.result_bind, readAt_result, Result.ok_bind, List.headD_cons]
        exact inductionHypothesis _
      · rw [if_neg digit, if_neg digit]
        exact ⟨number, rfl⟩

theorem readNumber_only (number : Int) (rest : List Char) : (readNumber length number rest).Only (Within length size) := by
  induction rest generalizing number with
  | nil => exact (readAt_safe format_within _).only.bind fun _ => Logged.only_pure
  | cons c rest inductionHypothesis =>
      refine (readAt_safe format_within _).only.bind fun c => Logged.only_ite.mpr ⟨fun _ => ?_, fun _ => Logged.only_pure⟩
      exact (readAt_safe format_within _).only.bind fun c => inductionHypothesis _

theorem readLong_result (longModifier : Nat) (rest : List Char) :
    ∃ count, (readLong length longModifier rest).result = .ok (count, rest.dropWhile (· = 'l')) := by
  induction rest generalizing longModifier with
  | nil => exact ⟨longModifier, rfl⟩
  | cons c rest inductionHypothesis =>
      rw [readLong, Logged.result_bind, readAt_result, Result.ok_bind, List.headD_cons, List.dropWhile_cons]
      by_cases long : c = 'l'
      · rw [if_pos long, if_pos (decide_eq_true long)]
        exact inductionHypothesis _
      · rw [if_neg long, if_neg (by rwa [decide_eq_true_iff])]
        exact ⟨longModifier, rfl⟩

theorem readLong_only (longModifier : Nat) (rest : List Char) : (readLong length longModifier rest).Only (Within length size) := by
  induction rest generalizing longModifier with
  | nil => exact (readAt_safe format_within _).only.bind fun _ => Logged.only_pure
  | cons c rest inductionHypothesis =>
      refine (readAt_safe format_within _).only.bind fun c => Logged.only_ite.mpr ⟨fun _ => ?_, fun _ => Logged.only_pure⟩
      exact inductionHypothesis _

/-- The character at a cursor is the one that comes next, unless the string ends there. -/
theorem headD_eq_iff {c : Char} (visible : c ≠ nul) : rest.headD nul = c ↔ rest.head? = some c := by
  cases rest with
  | nil => simp [visible.symm]
  | cons first rest => simp

theorem readPadding_result (rest : List Char) :
    ∃ padding, (readPadding length rest).result = .ok (padding, if rest.head? = some '0' then rest.tail else rest) := by
  have zero := @headD_eq_iff rest '0' (by decide)
  rw [readPadding, Logged.result_bind, readAt_result, Result.ok_bind, Logged.result_pure]
  by_cases padded : rest.head? = some '0'
  · rw [if_pos (zero.mpr padded), if_pos padded]
    exact ⟨_, rfl⟩
  · rw [if_neg (mt zero.mp padded), if_neg padded]
    exact ⟨_, rfl⟩

theorem readPrecision_result (rest : List Char) : ∃ precision, (readPrecision length rest).result =
    .ok (precision, if rest.head? = some '.' then rest.tail.dropWhile isdigit else rest) := by
  have point := @headD_eq_iff rest '.' (by decide)
  rw [readPrecision, Logged.result_bind, readAt_result, Result.ok_bind]
  by_cases given : rest.head? = some '.'
  · rw [if_pos (point.mpr given), if_pos given]
    exact readNumber_result 0 _
  · rw [if_neg (mt point.mp given), if_neg given]
    exact ⟨_, rfl⟩

theorem readDirective_result (rest : List Char) :
    ∃ given, (readDirective length rest).result = .ok (given, vsnprintfSkip rest) := by
  obtain ⟨padding, padded⟩ := @readPadding_result length rest
  obtain ⟨width, wide⟩ := @readNumber_result length 0 (if rest.head? = some '0' then rest.tail else rest)
  obtain ⟨precision, precise⟩ := @readPrecision_result length
    ((if rest.head? = some '0' then rest.tail else rest).dropWhile isdigit)
  obtain ⟨count, long⟩ := @readLong_result length 0 (if ((if rest.head? = some '0' then rest.tail else rest).dropWhile
    isdigit).head? = some '.' then ((if rest.head? = some '0' then rest.tail else rest).dropWhile isdigit).tail.dropWhile isdigit
      else (if rest.head? = some '0' then rest.tail else rest).dropWhile isdigit)
  refine ⟨⟨padding, width, precision, count⟩, ?_⟩
  simp only [readDirective, Logged.result_bind, padded, wide, precise, long, Result.ok_bind, Logged.result_pure]
  rfl

theorem readDirective_only (rest : List Char) : (readDirective length rest).Only (Within length size) := by
  have read (rest : List Char) : (readAt .format length rest : Formatting Char).Only (Within length size) :=
    (readAt_safe format_within rest).only
  refine ((read rest).bind fun _ => Logged.only_pure).bind fun padded => (readNumber_only _ _).bind fun wide => ?_
  refine Logged.Only.bind ?_ fun precise => (readLong_only _ _).bind fun long => Logged.only_pure
  exact (read _).bind fun c => Logged.only_ite.mpr ⟨fun _ => readNumber_only _ _, fun _ => Logged.only_pure⟩

theorem vsnprintfSkip_suffix (rest : List Char) : vsnprintfSkip rest <:+ rest := by
  have tail (condition : Prop) [Decidable condition] (rest : List Char) : (if condition then rest.tail else rest) <:+ rest := by
    split_ifs
    · exact List.tail_suffix rest
    · exact List.suffix_refl rest
  have digits (condition : Prop) [Decidable condition] (rest : List Char) :
      (if condition then rest.tail.dropWhile isdigit else rest) <:+ rest := by
    split_ifs
    · exact (List.dropWhile_suffix _).trans (List.tail_suffix rest)
    · exact List.suffix_refl rest
  exact (List.dropWhile_suffix _).trans ((digits _ _).trans ((List.dropWhile_suffix _).trans (tail _ _)))

/-- What is emitted does not depend on the output. -/
def Emits (part : OutputBuffer → Formatting (OutputBuffer × Nat)) : Prop :=
  ∃ text later, ∀ output, (part output).result = .ok (output.puts text, later)

theorem Emits.of_text {part : OutputBuffer → Formatting OutputBuffer}
    (emits : ∃ text, ∀ output, (part output).result = .ok (output.puts text)) (later : Nat) :
    Emits fun output => part output >>= fun output => pure (output, later) := by
  obtain ⟨text, returned⟩ := emits
  refine ⟨text, later, fun output => ?_⟩
  rw [Logged.result_bind, returned]
  rfl

theorem conversion_result (directive : Directive) (rest : List Char) (next : Nat) (c : Char) :
    Emits (conversion length arguments directive rest next c) := by
  unfold conversion
  split
  · exact Emits.of_text (emitString_result _ _ _) _
  · exact Emits.of_text ⟨[arguments.char next], fun output => emit_result⟩ _
  · exact Emits.of_text (emitNumber_result _ _ _ _ _ _ _) _
  · exact Emits.of_text (emitNumber_result _ _ _ _ _ _ _) _
  · exact Emits.of_text (emitNumber_result _ _ _ _ _ _ _) _
  · exact Emits.of_text (emitNumber_result _ _ _ _ _ _ _) _
  · exact Emits.of_text (emitNumber_result _ _ _ _ _ _ _) _
  · obtain ⟨text, returned⟩ := emitNumber_result (arguments.unsignedLong next) .hexadecimal false false 0 (-1) ' '
    refine ⟨['0', 'x'] ++ text, next + 1, fun output => ?_⟩
    simp only [Logged.result_bind, emit_result, Result.ok_bind, returned, Logged.result_pure, OutputBuffer.puts_append]
    rfl
  · exact Emits.of_text ⟨['%'], fun output => emit_result⟩ _
  · exact Emits.of_text ⟨[rest.headD nul], fun output => emit_result⟩ _

theorem natAbs_toInt_lt {w : Nat} (small : w ≤ 64) (word : BitVec w) : word.toInt.natAbs < 2 ^ 64 := by
  have most := @BitVec.toInt_lt w word
  have least := word.le_toInt
  have power : (2 : Int) ^ (w - 1) ≤ 2 ^ 63 := pow_le_pow_right₀ (by decide) (by omega)
  omega

/-- The arguments are 64-bit values. -/
theorem unsigned_lt (arguments : Arguments) (next : Nat) (long : Prop) [Decidable long] :
    (if long then arguments.unsignedLong next else arguments.unsigned next) < 2 ^ 64 := by
  split_ifs
  · exact (arguments.word next).isLt
  · exact ((arguments.word next).setWidth 32).isLt.trans (by decide)

theorem signed_lt (arguments : Arguments) (next : Nat) (long : Prop) [Decidable long] :
    (if long then arguments.long next else arguments.int next).natAbs < 2 ^ 64 := by
  split_ifs
  · exact natAbs_toInt_lt (by decide) _
  · exact natAbs_toInt_lt (by decide) _

/-- The emission of a conversion takes an argument. -/
theorem taken_safe {part : Formatting OutputBuffer} (safe : part.Safe (Within length size) fun output => output.capacity = size)
    (later : Nat) :
    (part >>= fun output => pure (output, later)).Safe (Within length size) fun state => state.1.capacity = size :=
  safe.bind fun _ capacity => Logged.Safe.pure capacity

theorem conversion_safe (directive : Directive) (rest : List Char) (next : Nat) (c : Char) (capacity : output.capacity = size) :
    (conversion length arguments directive rest next c output).Safe (Within length size) fun state => state.1.capacity = size := by
  have read : (readAt .format length rest : Formatting Char).Safe (Within length size) fun c => c = rest.headD nul :=
    readAt_safe format_within rest
  unfold conversion
  split
  · exact taken_safe (emitString_safe capacity _ _) _
  · exact taken_safe (emit_safe capacity) _
  · exact taken_safe (emitNumber_safe (signed_lt _ _ _) capacity _ _ _ _) _
  · exact taken_safe (emitNumber_safe (signed_lt _ _ _) capacity _ _ _ _) _
  · exact taken_safe (emitNumber_safe (unsigned_lt _ _ _) capacity _ _ _ _) _
  · exact read.bind fun _ _ => taken_safe (emitNumber_safe (unsigned_lt _ _ _) capacity _ _ _ _) _
  · exact read.bind fun _ _ => taken_safe (emitNumber_safe (unsigned_lt _ _ _) capacity _ _ _ _) _
  · refine (emit_safe capacity).bind fun _ capacity => (emit_safe capacity).bind fun _ capacity => ?_
    exact taken_safe (emitNumber_safe (arguments.word next).isLt capacity _ _ _ _) _
  · exact taken_safe (emit_safe capacity) _
  · exact read.bind fun _ _ => taken_safe (emit_safe capacity) _

/-- What `vsnprintf` relies on in each part of its loop. -/
theorem vsnprintfLoop_safe : (vsnprintfLoop length arguments).Safe (Within length size) fun state => state.1.capacity = size where
  plain _ _ capacity := taken_safe (emit_safe capacity) _
  directive := readDirective_only
  convert directive rest state capacity :=
    (readAt_safe format_within rest).bind fun c _ => conversion_safe directive rest state.2 c capacity

theorem vsnprintfLoop_skips : (vsnprintfLoop length arguments).Skips vsnprintfSkip where
  directive := readDirective_result
  suffix := vsnprintfSkip_suffix

theorem Emits.bind {part : OutputBuffer → Formatting (OutputBuffer × Nat)}
    {rest : OutputBuffer × Nat → Formatting (OutputBuffer × Nat)} (first : Emits part)
    (second : ∀ later, Emits fun output => rest (output, later)) : Emits fun output => part output >>= rest := by
  obtain ⟨early, middle, returned⟩ := first
  obtain ⟨late, last, continued⟩ := second middle
  refine ⟨early ++ late, last, fun output => ?_⟩
  rw [Logged.result_bind, returned, Result.ok_bind, continued, OutputBuffer.puts_append]

/-- A character of the format that is read before a part changes nothing that the part emits. -/
theorem Emits.read {part : Char → OutputBuffer → Formatting (OutputBuffer × Nat)} (emits : Emits (part (rest.headD nul))) :
    Emits fun output => (readAt .format length rest : Formatting Char) >>= fun c => part c output := by
  obtain ⟨text, later, returned⟩ := emits
  exact ⟨text, later, returned⟩

/-- What the loop emits for a format whose directives are complete does not depend on the output. -/
theorem vsnprintfLoop_emits (complete : Complete vsnprintfSkip rest) (strict : nul ∉ rest) (enough : rest.length < fuel)
    (next : Nat) : Emits fun output => (vsnprintfLoop length arguments).run length fuel (some rest) (output, next) := by
  induction complete generalizing fuel next with
  | nil =>
      obtain ⟨left, rfl⟩ : ∃ left, fuel = left + 1 := ⟨fuel - 1, by omega⟩
      exact ⟨[], next, fun _ => rfl⟩
  | @plain c rest plain complete inductionHypothesis =>
      rw [List.length_cons] at enough
      obtain ⟨left, rfl⟩ : ∃ left, fuel = left + 1 := ⟨fuel - 1, by omega⟩
      have later := @inductionHypothesis left (List.not_mem_of_not_mem_cons strict) (by omega)
      have emitted : Emits fun output => emit output c >>= fun output => pure (output, next) :=
        Emits.of_text ⟨[c], fun output => emit_result⟩ next
      simp only [Formatter.run_plain (List.ne_of_not_mem_cons strict).symm plain]
      exact Emits.read (Emits.read (emitted.bind later))
  | @directive rest after c conversion complete inductionHypothesis =>
      rw [List.length_cons] at enough
      obtain ⟨left, rfl⟩ : ∃ left, fuel = left + 1 := ⟨fuel - 1, by omega⟩
      have suffix := vsnprintfSkip_suffix rest
      rw [conversion] at suffix
      have shorter := suffix.length_le
      rw [List.length_cons] at shorter
      have later := @inductionHypothesis left
        (fun inside => strict (List.mem_cons_of_mem _ (suffix.subset (List.mem_cons_of_mem _ inside)))) (by omega)
      obtain ⟨given, parsed⟩ := @readDirective_result length rest
      rw [conversion] at parsed
      have converted : Emits fun output => convert length arguments given (c :: after) (output, next) :=
        Emits.read (conversion_result given (c :: after) next c)
      obtain ⟨text, last, returned⟩ := converted.bind later
      refine ⟨text, last, fun output => ?_⟩
      dsimp only
      rw [Formatter.run_directive, Logged.result_bind, readAt_result, Result.ok_bind, Logged.result_bind]
      change (readDirective length rest).result >>= _ = _
      rw [parsed]
      exact returned output

/-- The text that `vsnprintf` produces with unlimited room: its loop runs once to measure the text, and once with room for it. -/
def unlimitedText (format : CString) (arguments : Arguments) : Formatting (List Char) := do
  let length := format.chars.length
  let run (capacity : Nat) := (vsnprintfLoop length arguments).run length (length + 2) (some format.chars)
    (⟨fun _ => nul, capacity, 0⟩, 0)
  let (measured, _) ← run 0
  let (output, _) ← run (measured.position + 1)
  pure ((List.range output.position).map output.data)

/-- The call makes its accesses within its format and its buffer, returns the length of a text when it fits in an `int`, and
leaves as much of the text as there is room for, with its terminator. -/
structure Truncates (length size : Nat) (full : List Char) (call : Formatting ((Nat → Char) × Int)) : Prop where
  within : call.Only (Within length size)
  returned : ∃ data result, call.result = .ok (data, result) ∧ (full.length < 2 ^ 31 → result = full.length) ∧
    (0 < size → (List.range (min full.length (size - 1))).map data = full.take (size - 1) ∧
      data (min full.length (size - 1)) = nul)

/-- What an output of a known capacity holds after a text. -/
theorem puts_stored (buffer : Nat → Char) (size : Nat) (text : List Char) :
    (List.range (min text.length (size - 1))).map (OutputBuffer.puts ⟨buffer, size, 0⟩ text).data = text.take (size - 1) := by
  apply List.ext_getElem
  · simp [Nat.min_comm]
  · intro i inRange inTake
    rw [List.length_map, List.length_range] at inRange
    rw [List.getElem_map, List.getElem_range, List.getElem_take]
    have stored := @OutputBuffer.puts_data ⟨buffer, size, 0⟩ text i (by omega) (by dsimp only; omega)
    rw [Nat.zero_add] at stored
    exact stored

/-- With unlimited room the whole text is there. -/
theorem unlimitedText_result {format : CString} {full : List Char} {next : Nat}
    (emits : ∀ output, ((vsnprintfLoop format.chars.length arguments).run format.chars.length (format.chars.length + 2)
      (some format.chars) (output, 0)).result = .ok (output.puts full, next)) :
    (unlimitedText format arguments).result = .ok full := by
  have stored := puts_stored (fun _ => nul) (full.length + 1) full
  rw [Nat.add_sub_cancel, Nat.min_self, List.take_length] at stored
  simp only [unlimitedText, Logged.result_bind, emits, Result.ok_bind, OutputBuffer.puts_position, Nat.zero_add,
    Logged.result_pure, stored]

theorem terminate_only (output : OutputBuffer) : (terminate size output).Only (Within length size) := by
  refine Logged.only_ite.mpr ⟨fun room => Logged.only_access.mpr fun access inside => ?_, fun _ => Logged.only_pure⟩
  rw [List.mem_singleton.mp inside]
  change (if _ then _ else _) < size
  split_ifs with fits
  · exact fits
  · exact Nat.sub_one_lt room

/-- The terminator follows the characters that there is room for. -/
theorem terminate_result (output : OutputBuffer) : (terminate size output).result = .ok
    (if size ≠ 0 then Function.update output.data (min output.position (size - 1)) nul else output.data,
      castInt output.position) := by
  have last : (if output.position < size then output.position else size - 1) = min output.position (size - 1) := by
    split_ifs <;> omega
  rw [terminate, last]
  split_ifs <;> rfl

/-- What `vsnprintf` stores after its loop. -/
theorem vsnprintf_truncates {format : CString} {full : List Char} {next : Nat}
    (emits : ∀ output, ((vsnprintfLoop format.chars.length arguments).run format.chars.length (format.chars.length + 2)
      (some format.chars) (output, 0)).result = .ok (output.puts full, next))
    (complete : Complete vsnprintfSkip format.chars) (buffer : Nat → Char) :
    Truncates format.chars.length size full (vsnprintf buffer size format arguments) := by
  have looped := emits ⟨buffer, size, 0⟩
  constructor
  · refine Logged.Only.bind_value ?_ looped (terminate_only _)
    exact (Formatter.run_safe vsnprintfLoop_skips vsnprintfLoop_safe format_within complete format.terminated _ _ rfl).only
  · have returned : (vsnprintf buffer size format arguments).result =
        (terminate size (OutputBuffer.puts ⟨buffer, size, 0⟩ full)).result := by
      rw [vsnprintf, Logged.result_bind, looped]
      rfl
    rw [terminate_result, OutputBuffer.puts_position, Nat.zero_add] at returned
    refine ⟨_, _, returned, fun fits => castInt_small fits, fun room => ?_⟩
    rw [if_pos room.ne', ← puts_stored buffer size full]
    refine ⟨List.map_congr_left fun i inside => ?_, Function.update_self _ _ _⟩
    exact Function.update_of_ne (List.mem_range.mp inside).ne _ _

/-- A complete format has a text, and every call of `vsnprintf` cuts it off at its size. -/
theorem unlimitedText_cut (format : CString) (complete : Complete vsnprintfSkip format.chars) (arguments : Arguments) :
    ∃ full, (unlimitedText format arguments).result = .ok full ∧ ∀ buffer size,
      Truncates format.chars.length size full (vsnprintf buffer size format arguments) := by
  obtain ⟨full, next, emits⟩ := @vsnprintfLoop_emits format.chars.length (format.chars.length + 2) format.chars arguments
    complete format.terminated (by omega) 0
  exact ⟨full, unlimitedText_result emits, fun buffer size => vsnprintf_truncates emits complete buffer⟩

/-- With complete directives `vsnprintf` leaves as much of the text that unlimited room would take as there is room for, and a
number of 64 bits never goes beyond the array of digits. -/
theorem vsnprintf_cuts_text (format : CString) (complete : Complete vsnprintfSkip format.chars) (arguments : Arguments) :
    (∃ full, (unlimitedText format arguments).result = .ok full ∧ ∀ buffer size,
      Truncates format.chars.length size full (vsnprintf buffer size format arguments)) ∧
    ∀ (output : OutputBuffer) (value : BitVec 64) (radix : Radix) (uppercase negative : Bool) (width precision : Int)
      (padding : Char),
      (emitNumber output value.toNat radix uppercase negative width precision padding).Only fun access =>
        ∀ index, access = .digit index → index < 32 := by
  constructor
  · exact unlimitedText_cut format complete arguments
  · intro output value radix uppercase negative width precision padding access inside index same
    have safe := @emitNumber_safe 0 _ output radix uppercase _ value.isLt rfl negative width precision padding
    have within := safe.only access inside
    rw [same] at within
    exact within

/-- The format `%d%%`. -/
def numberFormat : CString := ⟨['%', 'd', '%', '%'], by decide⟩

theorem numberFormat_complete : Complete vsnprintfSkip numberFormat.chars :=
  @Complete.directive _ ['d', '%', '%'] ['%', '%'] 'd' (by decide) (@Complete.directive _ ['%'] [] '%' (by decide) Complete.nil)

theorem vsnprintf_cuts_text_number : ∃ full, (unlimitedText numberFormat ⟨fun _ => 42, fun _ => numberFormat⟩).result = .ok full ∧
    ∀ buffer size, Truncates 4 size full (vsnprintf buffer size numberFormat ⟨fun _ => 42, fun _ => numberFormat⟩) :=
  (vsnprintf_cuts_text numberFormat numberFormat_complete ⟨fun _ => 42, fun _ => numberFormat⟩).1

end

end DoccrOS.User
