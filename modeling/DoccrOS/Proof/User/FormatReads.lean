import DoccrOS.Construction.Devices.Serial
import DoccrOS.Construction.User.Printf
import DoccrOS.Proof.User.Stdio

namespace DoccrOS.User
open Lib Fs Devices

/-- The access reads no character beyond the terminator of the format. -/
def FormatRead (length : Nat) : FormatAccess → Prop
  | .format index => index ≤ length
  | _ => True

/-- The formatters stop at the end of a format, for all arguments. -/
def StopsAtEnd (format : CString) : Prop :=
  ∀ (arguments : Arguments) (buffer : Nat → Char) (size : Nat),
    (vsnprintf buffer size format arguments).Only (FormatRead format.chars.length) ∧
      (printf format arguments).Only (FormatRead format.chars.length) ∧
      (serialPrintf format arguments).Only (FormatRead format.chars.length)

/-- The modifiers that `serial_printf` takes after a `%`: up to two `l`. -/
def serialSkip (rest : List Char) : List Char :=
  if rest.head? = some 'l' then if rest.tail.head? = some 'l' then rest.tail.tail else rest.tail else rest

/-- No directive is cut off by the end of the format, as each of the formatters reads it. -/
structure AllComplete (format : CString) : Prop where
  vsnprintf : Complete vsnprintfSkip format.chars
  printf : Complete id format.chars
  serial : Complete serialSkip format.chars

section
variable {length fuel : Nat} {rest : List Char} {radix : Radix} {uppercase : Bool} {arguments : Arguments} {format : CString}

theorem reverseDigits_reads (radix : Radix) (uppercase : Bool) (value : Nat) :
    (reverseDigits radix uppercase value).Only (FormatRead length) := by
  refine Logged.only_ite.mpr ⟨fun _ access inside => ?_, fun _ access inside => ?_⟩
  · rw [List.mem_singleton.mp inside]
    trivial
  · have small : value < radix.base ^ value := Nat.lt_pow_self (lt_of_lt_of_le (by decide) radix.base_ge)
    obtain ⟨i, -, rfl⟩ := (storeDigits_safe value small).only access inside
    trivial

theorem readAt_reads (rest : List Char) : (readAt .format length rest : Formatting Char).Only (FormatRead length) :=
  (readAt_safe (fun _ inside => inside) rest).only

theorem printUint_reads (state : PrintfState) (val : Nat) : (printUint state val radix uppercase).Only (FormatRead length) :=
  (reverseDigits_reads _ _ _).bind fun _ => Logged.only_pure

theorem printfConvert_reads (rest : List Char) (state : PrintfState) :
    (printfConvert length arguments rest state).Only (FormatRead length) := by
  refine (readAt_reads rest).bind fun c => ?_
  split
  · exact Logged.only_ite.mpr ⟨fun _ => Logged.only_lift, fun _ => Logged.only_pure⟩
  all_goals first
    | exact printUint_reads _ _
    | exact Logged.only_pure
    | exact (readAt_reads rest).bind fun _ => Logged.only_pure

/-- A part without an invariant is safe when its accesses are allowed. -/
theorem safe_of_only {A : Type} {part : Formatting A} {allowed : FormatAccess → Prop} (only : part.Only allowed) :
    part.Safe allowed fun _ => True := ⟨only, fun _ _ => trivial⟩

theorem printfLoop_safe : (printfLoop length arguments).Safe (FormatRead length) fun _ => True where
  plain _ _ _ := safe_of_only Logged.only_pure
  directive _ := Logged.only_pure
  convert _ rest state _ := safe_of_only (printfConvert_reads rest state)

theorem printfLoop_skips : (printfLoop length arguments).Skips id where
  directive _ := ⟨(), rfl⟩
  suffix := List.suffix_refl

theorem reverseDigits_returns (radix : Radix) (uppercase : Bool) (value : Nat) :
    (reverseDigits radix uppercase value).Returns := by
  obtain ⟨reversed, returned, -⟩ := reverseDigits_result radix uppercase value
  exact ⟨reversed, returned⟩

theorem printUint_returns (state : PrintfState) (val : Nat) (radix : Radix) (upper : Bool) :
    (printUint state val radix upper).Returns :=
  (reverseDigits_returns _ _ _).bind fun _ => Logged.Returns.pure _

/-- A conversion of `printf` returns unless its string is `NULL`. -/
theorem printfLoop_returns (pointers : ∀ i, arguments.word i ≠ 0) : (printfLoop length arguments).Returns := by
  refine ⟨fun _ _ => Logged.Returns.pure _, fun _ rest state => (readAt_returns rest).bind fun c => ?_⟩
  split
  · rw [if_neg (pointers _)]
    exact Logged.Returns.pure _
  all_goals first
    | exact printUint_returns _ _ _ _
    | exact Logged.Returns.pure _
    | exact (readAt_returns rest).bind fun _ => Logged.Returns.pure _

theorem vsnprintfLoop_returns : (vsnprintfLoop length arguments).Returns := by
  constructor
  · intro c state
    exact Logged.Returns.bind ⟨_, emit_result⟩ fun _ => Logged.Returns.pure _
  · intro given rest state
    refine (readAt_returns rest).bind fun c => ?_
    obtain ⟨text, later, returned⟩ := @conversion_result length arguments given rest state.2 c
    exact ⟨_, returned state.1⟩

theorem printU64_reads (state : SerialState) (num : Nat) (radix : Radix) :
    (printU64 state num radix).Only (FormatRead length) := by
  refine Logged.only_ite.mpr ⟨fun _ => Logged.only_pure, fun nonzero => Logged.Only.bind ?_ fun _ => Logged.only_pure⟩
  have digits := @reverseDigits_reads length radix false num
  rwa [reverseDigits, if_neg nonzero] at digits

theorem printU64_returns (state : SerialState) (num : Nat) (radix : Radix) : (printU64 state num radix).Returns := by
  rw [printU64]
  split_ifs
  · exact Logged.Returns.pure _
  · obtain ⟨stored, returned, -⟩ := storeDigits_result radix false 0 num
    exact Logged.Returns.bind ⟨stored, returned⟩ fun _ => Logged.Returns.pure _

theorem printHexa_reads (state : SerialState) (count num : Nat) : (printHexa state count num).Only (FormatRead length) := by
  intro access inside
  obtain ⟨i, -, rfl⟩ := List.mem_map.mp inside
  trivial

theorem serialConvert_reads (flags : SerialLength) (rest : List Char) (state : SerialState) :
    (serialConvert length arguments flags rest state).Only (FormatRead length) := by
  refine (readAt_reads rest).bind fun c => ?_
  split
  all_goals first
    | exact Logged.only_ite.mpr ⟨fun _ => printU64_reads _ _ _, fun _ => printHexa_reads _ _ _⟩
    | exact printU64_reads _ _ _
    | exact printHexa_reads _ _ _
    | exact Logged.only_pure
    | exact (readAt_reads rest).bind fun _ => Logged.only_pure

theorem serialDirective_reads (rest : List Char) : (serialDirective length rest).Only (FormatRead length) := by
  refine (readAt_reads rest).bind fun c => Logged.only_ite.mpr ⟨fun _ => ?_, fun _ => Logged.only_pure⟩
  exact (readAt_reads _).bind fun c => Logged.only_ite.mpr ⟨fun _ => Logged.only_pure, fun _ => Logged.only_pure⟩

theorem serialDirective_result (rest : List Char) :
    ∃ flags, (serialDirective length rest).result = .ok (flags, serialSkip rest) := by
  have first := @headD_eq_iff rest 'l' (by decide)
  have second := @headD_eq_iff rest.tail 'l' (by decide)
  rw [serialDirective, serialSkip, Logged.result_bind, readAt_result, Result.ok_bind]
  by_cases long : rest.head? = some 'l'
  · rw [if_pos (first.mpr long), if_pos long, Logged.result_bind, readAt_result, Result.ok_bind]
    by_cases llong : rest.tail.head? = some 'l'
    · rw [if_pos (second.mpr llong), if_pos llong]
      exact ⟨_, rfl⟩
    · rw [if_neg (mt second.mp llong), if_neg llong]
      exact ⟨_, rfl⟩
  · rw [if_neg (mt first.mp long), if_neg long]
    exact ⟨_, rfl⟩

theorem serialLoop_safe : (serialLoop length arguments).Safe (FormatRead length) fun _ => True where
  plain _ _ _ := safe_of_only Logged.only_pure
  directive := serialDirective_reads
  convert flags rest state _ := safe_of_only (serialConvert_reads flags rest state)

theorem serialLoop_skips : (serialLoop length arguments).Skips serialSkip where
  directive := serialDirective_result
  suffix rest := by
    rw [serialSkip]
    split_ifs
    · exact (List.tail_suffix _).trans (List.tail_suffix rest)
    · exact List.tail_suffix rest
    · exact List.suffix_refl rest

theorem serialLoop_returns : (serialLoop length arguments).Returns := by
  refine ⟨fun _ _ => Logged.Returns.pure _, fun flags rest state => (readAt_returns rest).bind fun c => ?_⟩
  split
  all_goals first
    | exact printU64_returns _ _ _
    | exact Logged.Returns.pure _
    | exact ⟨_, rfl⟩
    | (split_ifs; exacts [printU64_returns _ _ _, ⟨_, rfl⟩])

/-- A formatter whose call starts with its loop stops at the end of a format exactly when the directives are complete. -/
theorem complete_of_only {S D A : Type} {f : Formatter FormatAccess Halt S D} {skip : List Char → List Char} {state : S}
    {finish : S → Formatting A} (skips : f.Skips skip) (returns : f.Returns) (entry : f.entry = .format)
    (only : (f.run format.chars.length (format.chars.length + 2) (some format.chars) state >>= finish).Only
      (FormatRead format.chars.length)) : Complete skip format.chars := by
  by_contra cut
  have beyond : f.entry (format.chars.length + 1) ∈
      (f.run format.chars.length (format.chars.length + 2) (some format.chars) state).log :=
    Formatter.run_beyond skips returns format.terminated cut (by omega)
  rw [entry] at beyond
  have within := only _ (Logged.mem_bind.mpr (Or.inl beyond))
  exact absurd within (Nat.not_succ_le_self _)

/-- The formatters stop at the end of a format exactly when no directive is cut off by it. -/
theorem formatters_stop (format : CString) : StopsAtEnd format ↔ AllComplete format := by
  constructor
  · intro stops
    obtain ⟨first, second, third⟩ := stops ⟨fun _ => 1, fun _ => ⟨[], List.not_mem_nil⟩⟩ (fun _ => nul) 0
    refine ⟨?_, ?_, ?_⟩
    · exact complete_of_only vsnprintfLoop_skips vsnprintfLoop_returns rfl first
    · exact complete_of_only printfLoop_skips (printfLoop_returns fun _ => (by decide : (1 : BitVec 64) ≠ 0)) rfl second
    · exact complete_of_only serialLoop_skips serialLoop_returns rfl third
  · intro complete arguments buffer size
    refine ⟨?_, ?_, ?_⟩
    · intro access inside
      obtain ⟨full, -, truncates⟩ := unlimitedText_cut format complete.vsnprintf arguments
      have allowed := (truncates buffer size).within access inside
      cases access with
      | format index => exact allowed
      | buffer index => trivial
      | digit index => trivial
    · exact (Formatter.run_safe printfLoop_skips printfLoop_safe (fun _ inside => inside) complete.printf format.terminated _ _
        trivial).only.bind fun _ => Logged.only_pure
    · exact (Formatter.run_safe serialLoop_skips serialLoop_safe (fun _ inside => inside) complete.serial format.terminated _ _
        trivial).only.bind fun _ => Logged.only_pure

/-- The format `%` is cut off. -/
theorem formatters_pass_end : ¬StopsAtEnd ⟨['%'], by decide⟩ := by
  intro stops
  obtain ⟨-, printed, -⟩ := stops ⟨fun _ => 1, fun _ => ⟨[], List.not_mem_nil⟩⟩ (fun _ => nul) 0
  have beyond : FormatAccess.format 2 ∈ (printf ⟨['%'], by decide⟩ ⟨fun _ => 1, fun _ => ⟨[], List.not_mem_nil⟩⟩).log := by
    decide
  exact absurd (printed _ beyond) (Nat.not_succ_le_self 1)

end

end DoccrOS.User
