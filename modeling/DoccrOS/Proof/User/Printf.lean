import DoccrOS.Construction.User.Printf
import DoccrOS.Proof.User.Stdio

namespace DoccrOS.User
open Lib Fs

/-- The format has plain characters and `%s` directives only, and the text has the strings in the place of the directives. -/
inductive PlainText (ap : Arguments) : Nat → List Char → List Char → Prop
  | nil (next : Nat) : PlainText ap next [] []
  | plain {next : Nat} {c : Char} {rest text : List Char} :
      c ≠ '%' → PlainText ap next rest text → PlainText ap next (c :: rest) (c :: text)
  | string {next : Nat} {rest text : List Char} :
      ap.word next ≠ 0 → PlainText ap (next + 1) rest text → PlainText ap next ('%' :: 's' :: rest) (ap.string next ++ text)

/-- The bytes of the calls of `write`. -/
def bytesOf (writes : List WriteCall) : List Char := writes.flatMap WriteCall.bytes

/-- The call writes a text to descriptor 1 and returns its length. -/
def Prints (full : List Char) (call : Formatting (List WriteCall × Int)) : Prop :=
  ∃ writes, call.result = .ok (writes, full.length) ∧ (∀ written ∈ writes, written.fd = 1) ∧ bytesOf writes = full

/-- The calls `printf` and `fprintf` on `stdout` print the text that `vsnprintf` produces with unlimited room. -/
def OneLanguage (format : CString) (arguments : Arguments) : Prop :=
  ∀ full, (unlimitedText format arguments).result = .ok full →
    Prints full (printf format arguments) ∧ ∀ buffer, Prints full (fprintf buffer 1 format arguments)

/-- A part of `printf` has written to descriptor 1, and has counted some of what it wrote. -/
structure Counts (before after : PrintfState) (bytes : List Char) (counted : Nat) : Prop where
  writes : ∃ more, after.writes = before.writes ++ more ∧ (∀ written ∈ more, written.fd = 1) ∧ bytesOf more = bytes
  bound : counted ≤ bytes.length
  written : after.written = before.written + counted

section
variable {length fuel : Nat} {rest text : List Char} {ap : Arguments} {state after : PrintfState} {format : CString}

theorem Counts.refl (state : PrintfState) : Counts state state [] 0 :=
  ⟨⟨[], (List.append_nil _).symm, fun _ inside => absurd inside List.not_mem_nil, rfl⟩, Nat.le_refl 0, rfl⟩

theorem Counts.trans {first second third : PrintfState} {early late : List Char} {some more : Nat}
    (before : Counts first second early some) (after : Counts second third late more) :
    Counts first third (early ++ late) (some + more) := by
  obtain ⟨written, same, fds, bytes⟩ := before.writes
  obtain ⟨written', same', fds', bytes'⟩ := after.writes
  refine ⟨⟨written ++ written', ?_, ?_, ?_⟩, ?_, ?_⟩
  · rw [same', same, List.append_assoc]
  · intro call inside
    exact (List.mem_append.mp inside).elim (fds call) (fds' call)
  · rw [bytesOf, List.flatMap_append]
    exact congrArg₂ (· ++ ·) bytes bytes'
  · rw [List.length_append]
    exact Nat.add_le_add before.bound after.bound
  · rw [after.written, before.written, Nat.add_assoc]

/-- An output that is not counted. -/
theorem Counts.out (state : PrintfState) (s : List Char) : Counts state (state.out s) s 0 := by
  refine ⟨⟨[⟨1, s⟩], rfl, fun call inside => ?_, List.append_nil s⟩, Nat.zero_le _, rfl⟩
  rw [List.mem_singleton.mp inside]

theorem Counts.outEach (state : PrintfState) (s : List Char) : Counts state (state.outEach s) s 0 := by
  induction s generalizing state with
  | nil => exact Counts.refl state
  | cons c s inductionHypothesis => exact (Counts.out state [c]).trans (inductionHypothesis _)

/-- A number writes its digits and counts none of them. -/
theorem printUint_counts {val : Nat} {radix : Radix} {upper : Bool}
    (returned : (printUint state val radix upper).result = .ok after) : ∃ digits, Counts state after digits 0 ∧ digits ≠ [] := by
  obtain ⟨reversed, stored, digits⟩ := reverseDigits_result radix upper val
  rw [printUint, Logged.result_bind, stored] at returned
  obtain rfl : state.outEach reversed.reverse = after := Except.ok.inj returned
  exact ⟨reversed.reverse, Counts.outEach state _, mt List.reverse_eq_nil_iff.mp digits⟩

/-- A conversion of `printf` is a string, or it writes something that it does not count. -/
theorem printfConvert_counts {c : Char} (returned : (printfConvert length ap (c :: rest) state).result = .ok after) :
    (c = 's' ∧ ap.word state.next ≠ 0 ∧ after.next = state.next + 1 ∧
      Counts state after (ap.string state.next) (ap.string state.next).length) ∨
    ∃ bytes, Counts state after bytes 0 ∧ bytes ≠ [] := by
  rw [printfConvert, Logged.result_bind, readAt_result, Result.ok_bind, List.headD_cons] at returned
  have taken : Counts state state.take [] 0 := ⟨(Counts.refl state).writes, Nat.le_refl 0, rfl⟩
  have out (bytes : List Char) (some : bytes ≠ []) (same : state.take.out bytes = after ∨ state.out bytes = after) :
      ∃ bytes, Counts state after bytes 0 ∧ bytes ≠ [] := by
    rcases same with rfl | rfl
    · exact ⟨bytes, taken.trans (Counts.out state.take bytes), some⟩
    · exact ⟨bytes, Counts.out state bytes, some⟩
  have number {before : PrintfState} {early : List Char} (counts : Counts state before early 0)
      (more : ∃ digits, Counts before after digits 0 ∧ digits ≠ []) : ∃ bytes, Counts state after bytes 0 ∧ bytes ≠ [] := by
    obtain ⟨digits, written, some⟩ := more
    exact ⟨early ++ digits, counts.trans written, List.append_ne_nil_of_right_ne_nil _ some⟩
  split at returned
  · left
    by_cases null : ap.word state.next = 0
    · rw [if_pos null] at returned
      cases returned
    · rw [if_neg null] at returned
      cases Except.ok.inj returned
      refine ⟨rfl, null, rfl, ?_, Nat.le_refl _, rfl⟩
      exact (Counts.out state (ap.string state.next)).writes
  all_goals right
  any_goals
    rw [printInt] at returned
    split_ifs at returned
    · exact number (taken.trans (Counts.out _ _)) (printUint_counts returned)
    · exact number taken (printUint_counts returned)
  · exact number taken (printUint_counts returned)
  · exact number taken (printUint_counts returned)
  · exact number taken (printUint_counts returned)
  · exact number (taken.trans (Counts.out _ _)) (printUint_counts returned)
  · exact out _ (List.cons_ne_nil _ _) (Or.inl (Except.ok.inj returned))
  · exact out _ (List.cons_ne_nil _ _) (Or.inr (Except.ok.inj returned))
  · exact out _ (List.cons_ne_nil _ _) (Or.inr (Except.ok.inj returned))

/-- The loop of `printf` counts at most what it writes, and it counts all of it only when the format is plain. -/
theorem printfLoop_counts (strict : nul ∉ rest)
    (returned : ((printfLoop length ap).run length fuel (some rest) state).result = .ok after) :
    ∃ bytes counted, Counts state after bytes counted ∧ (counted = bytes.length → PlainText ap state.next rest bytes) := by
  induction fuel generalizing rest state with
  | zero => cases returned
  | succ fuel inductionHypothesis =>
      cases rest with
      | nil =>
          cases Except.ok.inj returned
          exact ⟨[], 0, Counts.refl _, fun _ => PlainText.nil _⟩
      | cons c rest =>
          have strictRest := List.not_mem_of_not_mem_cons strict
          by_cases directive : c = '%'
          · subst directive
            have parsed : ((printfLoop length ap).directive rest).result = .ok ((), rest) := rfl
            rw [Formatter.run_directive, Logged.result_bind, readAt_result, Result.ok_bind, Logged.result_bind, parsed,
              Result.ok_bind, Logged.result_bind] at returned
            obtain ⟨middle, converted, continued⟩ := Result.bind_ok returned
            cases rest with
            | nil =>
                cases fuel <;> cases continued
            | cons c rest =>
                obtain ⟨bytes, counted, counts, plain⟩ := inductionHypothesis (List.not_mem_of_not_mem_cons strictRest) continued
                rcases printfConvert_counts converted with ⟨rfl, pointer, next, first⟩ | ⟨early, first, some⟩
                · refine ⟨_, _, first.trans counts, fun all => ?_⟩
                  rw [List.length_append] at all
                  rw [next] at plain
                  exact PlainText.string pointer (plain (Nat.add_left_cancel all))
                · refine ⟨early ++ bytes, 0 + counted, first.trans counts, fun all => ?_⟩
                  have positive := List.length_pos_iff.mpr some
                  have bound := counts.bound
                  rw [List.length_append] at all
                  omega
          · rw [Formatter.run_plain (List.ne_of_not_mem_cons strict).symm directive] at returned
            obtain ⟨bytes, counted, counts, plain⟩ := inductionHypothesis strictRest returned
            have first : Counts state { state.out [c] with written := state.written + 1 } [c] 1 :=
              ⟨(Counts.out state [c]).writes, Nat.le_refl 1, rfl⟩
            refine ⟨[c] ++ bytes, 1 + counted, first.trans counts, fun all => ?_⟩
            rw [List.length_append, List.length_singleton] at all
            exact PlainText.plain directive (plain (Nat.add_left_cancel all))

/-- A plain format is printed whole, and everything is counted. -/
theorem printfLoop_plain {next : Nat} (plain : PlainText ap next rest text) (strict : nul ∉ rest) (enough : rest.length < fuel)
    (here : state.next = next) : ∃ after, ((printfLoop length ap).run length fuel (some rest) state).result = .ok after ∧
      Counts state after text text.length := by
  induction plain generalizing fuel state with
  | nil next =>
      obtain ⟨left, rfl⟩ : ∃ left, fuel = left + 1 := ⟨fuel - 1, by omega⟩
      exact ⟨state, rfl, Counts.refl state⟩
  | @plain next c rest text plainChar plain inductionHypothesis =>
      rw [List.length_cons] at enough
      obtain ⟨left, rfl⟩ : ∃ left, fuel = left + 1 := ⟨fuel - 1, by omega⟩
      have first : Counts state { state.out [c] with written := state.written + 1 } [c] 1 :=
        ⟨(Counts.out state [c]).writes, Nat.le_refl 1, rfl⟩
      obtain ⟨after, returned, counts⟩ := @inductionHypothesis left { state.out [c] with written := state.written + 1 }
        (List.not_mem_of_not_mem_cons strict) (by omega) here
      refine ⟨after, ?_, ?_⟩
      · rw [Formatter.run_plain (List.ne_of_not_mem_cons strict).symm plainChar]
        exact returned
      · have both := first.trans counts
        rw [Nat.add_comm] at both
        exact both
  | @string next rest text pointer plain inductionHypothesis =>
      rw [List.length_cons, List.length_cons] at enough
      obtain ⟨left, rfl⟩ : ∃ left, fuel = left + 1 := ⟨fuel - 1, by omega⟩
      subst here
      let shown : PrintfState := { state.take.out (ap.string state.next) with
        written := state.written + (ap.string state.next).length }
      have first : Counts state shown (ap.string state.next) (ap.string state.next).length :=
        ⟨(Counts.out state (ap.string state.next)).writes, Nat.le_refl _, rfl⟩
      have converted : (printfConvert length ap ('s' :: rest) state).result = .ok shown := by
        rw [printfConvert, Logged.result_bind, readAt_result, Result.ok_bind]
        change (if ap.word state.next = 0 then _ else _ : Formatting PrintfState).result = _
        rw [if_neg pointer]
        rfl
      obtain ⟨after, returned, counts⟩ := @inductionHypothesis left shown
        (List.not_mem_of_not_mem_cons (List.not_mem_of_not_mem_cons strict)) (by omega) rfl
      refine ⟨after, ?_, ?_⟩
      · have parsed : ((printfLoop length ap).directive ('s' :: rest)).result = .ok ((), 's' :: rest) := rfl
        have step : ((printfLoop length ap).convert () ('s' :: rest) state).result = .ok shown := converted
        rw [Formatter.run_directive, Logged.result_bind, readAt_result, Result.ok_bind, Logged.result_bind, parsed,
          Result.ok_bind, Logged.result_bind, step]
        exact returned
      · have both := first.trans counts
        rw [← List.length_append] at both
        exact both

/-- The loop of `vsnprintf` emits the text of a plain format. -/
theorem vsnprintfLoop_plain {next : Nat} (plain : PlainText ap next rest text) (strict : nul ∉ rest)
    (enough : rest.length < fuel) : ∃ last, ∀ output, ((vsnprintfLoop length ap).run length fuel (some rest) (output, next)).result =
      .ok (output.puts text, last) := by
  induction plain generalizing fuel with
  | nil next =>
      obtain ⟨left, rfl⟩ : ∃ left, fuel = left + 1 := ⟨fuel - 1, by omega⟩
      exact ⟨next, fun _ => rfl⟩
  | @plain next c rest text plainChar plain inductionHypothesis =>
      rw [List.length_cons] at enough
      obtain ⟨left, rfl⟩ : ∃ left, fuel = left + 1 := ⟨fuel - 1, by omega⟩
      obtain ⟨last, returned⟩ := @inductionHypothesis left (List.not_mem_of_not_mem_cons strict) (by omega)
      refine ⟨last, fun output => ?_⟩
      have emitted : ((vsnprintfLoop length ap).plain c (output, next)).result = .ok (output.put c, next) := by
        change (emit output c >>= fun output => pure (output, next)).result = _
        rw [Logged.result_bind, emit_result]
        rfl
      rw [Formatter.run_plain (List.ne_of_not_mem_cons strict).symm plainChar]
      simp only [Logged.result_bind, readAt_result, Result.ok_bind, emitted]
      exact returned _
  | @string next rest text pointer plain inductionHypothesis =>
      rw [List.length_cons, List.length_cons] at enough
      obtain ⟨left, rfl⟩ : ∃ left, fuel = left + 1 := ⟨fuel - 1, by omega⟩
      obtain ⟨last, returned⟩ := @inductionHypothesis left
        (List.not_mem_of_not_mem_cons (List.not_mem_of_not_mem_cons strict)) (by omega)
      refine ⟨last, fun output => ?_⟩
      have parsed : ((vsnprintfLoop length ap).directive ('s' :: rest)).result = .ok (⟨' ', 0, -1, 0⟩, 's' :: rest) := rfl
      have converted : ((vsnprintfLoop length ap).convert ⟨' ', 0, -1, 0⟩ ('s' :: rest) (output, next)).result =
          .ok (output.puts (ap.string next), next + 1) := by
        change (emitString (-1) 0 output (if ap.word next = 0 then "(null)".toList else ap.string next) >>= fun output =>
          pure (output, next + 1)).result = _
        rw [if_neg pointer, Logged.result_bind, emitString_whole]
        rfl
      rw [Formatter.run_directive]
      simp only [Logged.result_bind, readAt_result, Result.ok_bind, parsed, converted, OutputBuffer.puts_append]
      exact returned _

/-- The cast of a count to `int` is at most the count. -/
theorem castInt_le (n : Nat) : castInt n ≤ n := by
  rw [castInt, BitVec.toInt_eq_toNat_cond, BitVec.toNat_ofNat]
  split_ifs <;> omega

/-- What `printf` prints is the text of a plain format when it returns the length of all that it wrote. -/
theorem printf_plain {full : List Char} (prints : Prints full (printf format ap)) : PlainText ap 0 format.chars full := by
  obtain ⟨writes, returned, -, bytes⟩ := prints
  rw [printf, Logged.result_bind] at returned
  obtain ⟨after, ran, finished⟩ := Result.bind_ok returned
  obtain ⟨same, length⟩ := Prod.mk.inj (Except.ok.inj finished)
  obtain ⟨printed, counted, counts, plain⟩ := printfLoop_counts format.terminated ran
  obtain ⟨more, appended, -, shown⟩ := counts.writes
  rw [List.nil_append] at appended
  rw [← same, appended, shown] at bytes
  have cast := castInt_le after.written
  have written := counts.written
  have bound := counts.bound
  rw [bytes] at bound plain
  exact plain (by dsimp only at written; omega)

/-- A plain format whose text has a length in the range of `int` is printed. -/
theorem printf_prints {full : List Char} (plain : PlainText ap 0 format.chars full) (small : full.length < 2 ^ 31) :
    Prints full (printf format ap) := by
  obtain ⟨after, returned, counts⟩ := @printfLoop_plain format.chars.length (format.chars.length + 2) format.chars full ap
    ⟨[], 0, 0⟩ 0 plain format.terminated (by omega) rfl
  obtain ⟨more, appended, fds, shown⟩ := counts.writes
  rw [List.nil_append] at appended
  have written : after.written = full.length := counts.written.trans (Nat.zero_add _)
  refine ⟨after.writes, ?_, appended ▸ fds, appended ▸ shown⟩
  rw [printf, Logged.result_bind, returned, Result.ok_bind, written, castInt_small small]
  rfl

/-- A text is printed through the array of `vfprintf` exactly when it fits in it. -/
theorem fprintf_prints {full : List Char} {buffer : Nat → Char}
    (truncates : Truncates format.chars.length 1024 full (vsnprintf buffer 1024 format ap)) :
    Prints full (fprintf buffer 1 format ap) ↔ full.length ≤ 1023 := by
  obtain ⟨data, result, returned, length, stored⟩ := truncates.returned
  have call : (fprintf buffer 1 format ap).result = .ok (if result < 0 then ([], result) else
      ([⟨1, (List.range (if result.toNat < 1024 then result.toNat else 1023)).map data⟩], result)) := by
    rw [fprintf, vfprintf, Logged.result_bind, returned, Result.ok_bind]
    dsimp only
    split_ifs <;> rfl
  constructor
  · rintro ⟨writes, printed, -, bytes⟩
    rw [call] at printed
    rw [← bytes]
    split_ifs at printed with negative short <;> obtain ⟨rfl, -⟩ := Prod.mk.inj (Except.ok.inj printed)
    · exact Nat.zero_le 1023
    · rw [bytesOf, List.flatMap_singleton, List.length_map, List.length_range]
      exact Nat.le_of_lt_succ short
    · rw [bytesOf, List.flatMap_singleton, List.length_map, List.length_range]
  · intro fits
    obtain rfl := length (by omega)
    have whole := (stored (by decide)).1
    rw [Nat.min_eq_left fits, List.take_of_length_le fits] at whole
    refine ⟨[⟨1, full⟩], ?_, fun written inside => ?_, List.append_nil full⟩
    · rw [call, if_neg (by omega), Int.toNat_natCast, if_pos (by omega), whole]
    · rw [List.mem_singleton.mp inside]

/-- With complete directives the three functions print one text exactly when the format has plain characters and `%s` directives
only, no string is `NULL`, and the text fits in the array of `vfprintf`. -/
theorem formatting_agrees (format : CString) (complete : Complete vsnprintfSkip format.chars) (ap : Arguments) :
    OneLanguage format ap ↔ ∃ text, PlainText ap 0 format.chars text ∧ text.length ≤ 1023 := by
  constructor
  · intro agrees
    obtain ⟨full, produced, truncates⟩ := unlimitedText_cut format complete ap
    obtain ⟨printed, streamed⟩ := agrees full produced
    exact ⟨full, printf_plain printed, (fprintf_prints (truncates (fun _ => nul) 1024)).mp (streamed _)⟩
  · rintro ⟨text, plain, fits⟩ full produced
    obtain ⟨last, emits⟩ := @vsnprintfLoop_plain format.chars.length (format.chars.length + 2) format.chars text ap 0 plain
      format.terminated (by omega)
    obtain rfl : text = full := Except.ok.inj ((unlimitedText_result emits).symm.trans produced)
    exact ⟨printf_prints plain (by omega), fun buffer => (fprintf_prints (vsnprintf_truncates emits complete buffer)).mpr fits⟩

/-- The format `%s` with a string of one character. -/
def stringFormat : CString := ⟨['%', 's'], by decide⟩

def stringArguments : Arguments := ⟨fun _ => 1, fun _ => ⟨['a'], by decide⟩⟩

theorem formatting_agrees_string : OneLanguage stringFormat stringArguments ↔
    ∃ text, PlainText stringArguments 0 stringFormat.chars text ∧ text.length ≤ 1023 :=
  formatting_agrees stringFormat (@Complete.directive _ ['s'] [] 's' (by decide) Complete.nil) stringArguments

/-- The format `%%`. -/
def percentFormat : CString := ⟨['%', '%'], by decide⟩

/-- The character of `%%` is not counted by `printf`. -/
theorem formatting_differs : Complete vsnprintfSkip percentFormat.chars ∧ ¬OneLanguage percentFormat stringArguments := by
  refine ⟨@Complete.directive _ ['%'] [] '%' (by decide) Complete.nil, fun agrees => ?_⟩
  have produced : (unlimitedText percentFormat stringArguments).result = .ok ['%'] := by decide +kernel
  obtain ⟨writes, returned, -⟩ := (agrees ['%'] produced).1
  have printed : (printf percentFormat stringArguments).result = .ok ([⟨1, ['%']⟩], 0) := by decide +kernel
  have same := Except.ok.inj (printed.symm.trans returned)
  exact absurd (Prod.mk.inj same).2 (by decide)

end

end DoccrOS.User
