import DoccrOS.Lib.Logged

namespace DoccrOS.Lib

/-- The character that ends a string. -/
def nul : Char := Char.ofNat 0

/-- The characters of a string before its terminator. -/
structure CString where
  chars : List Char
  terminated : nul ∉ chars

/-- The words of a `va_list`, and the strings that its pointers name. -/
structure Arguments where
  word : Nat → BitVec 64
  text : BitVec 64 → CString

def Arguments.int (args : Arguments) (i : Nat) : Int := ((args.word i).setWidth 32).toInt

def Arguments.unsigned (args : Arguments) (i : Nat) : Nat := ((args.word i).setWidth 32).toNat

def Arguments.long (args : Arguments) (i : Nat) : Int := (args.word i).toInt

def Arguments.unsignedLong (args : Arguments) (i : Nat) : Nat := (args.word i).toNat

def Arguments.char (args : Arguments) (i : Nat) : Char := Char.ofNat ((args.word i).setWidth 8).toNat

/-- The string of a pointer that is not `NULL`. -/
def Arguments.string (args : Arguments) (i : Nat) : List Char := (args.text (args.word i)).chars

/-- An access of a formatter: to its format, to the buffer of its caller or to its array of digits. -/
inductive FormatAccess where
  | format (index : Nat)
  | buffer (index : Nat)
  | digit (index : Nat)
deriving DecidableEq, Repr

/-- A cursor moves over the character at which it stands; it is beyond the string after the terminator. -/
def advance : List Char → Option (List Char)
  | [] => none
  | _ :: rest => some rest

/-- The character at a cursor, when `rest` is left of a string of the given length. -/
def readAt {X E : Type} (entry : Nat → X) (length : Nat) (rest : List Char) : Logged X E Char :=
  .access [entry (length - rest.length)] (rest.headD nul)

/-- A formatter: the access that reads a character of the format, the halts for a character beyond the format and for a loop
without an end, and what is done with a plain character, with the modifiers of a directive and with its conversion. -/
structure Formatter (X E S D : Type) where
  entry : Nat → X
  beyond : E
  endless : E
  plain : Char → S → Logged X E S
  directive : List Char → Logged X E (D × List Char)
  convert : D → List Char → S → Logged X E S

section
variable {X E S D : Type} {allowed : X → Prop} {rest : List Char} {skip : List Char → List Char}

/-- The loop of a formatter over a format of the given length. -/
def Formatter.run (f : Formatter X E S D) (length : Nat) : Nat → Option (List Char) → S → Logged X E S
  | 0, _, _ => .lift (.error f.endless)
  | _ + 1, none, _ => ⟨[f.entry (length + 1)], .error f.beyond⟩
  | fuel + 1, some rest, state => do
    let c ← readAt f.entry length rest
    if c = nul then pure state
    else if c ≠ '%' then
      let c ← readAt f.entry length rest
      let state ← f.plain c state
      f.run length fuel (some rest.tail) state
    else
      let (given, rest) ← f.directive rest.tail
      let state ← f.convert given rest state
      f.run length fuel (advance rest) state

/-- Every directive of a format has its conversion, when `skip` takes the modifiers away. -/
inductive Complete (skip : List Char → List Char) : List Char → Prop
  | nil : Complete skip []
  | plain {c : Char} {rest : List Char} : c ≠ '%' → Complete skip rest → Complete skip (c :: rest)
  | directive {rest after : List Char} {c : Char} : skip rest = c :: after → Complete skip after → Complete skip ('%' :: rest)

/-- The formatter takes the modifiers of a directive as `skip` does. -/
structure Formatter.Skips (f : Formatter X E S D) (skip : List Char → List Char) : Prop where
  directive : ∀ rest, ∃ given, (f.directive rest).result = .ok (given, skip rest)
  suffix : ∀ rest, skip rest <:+ rest

/-- The parts of a formatter make allowed accesses only, from states with the invariant, which they keep. -/
structure Formatter.Safe (f : Formatter X E S D) (allowed : X → Prop) (inv : S → Prop) : Prop where
  plain : ∀ c state, inv state → (f.plain c state).Safe allowed inv
  directive : ∀ rest, (f.directive rest).Only allowed
  convert : ∀ given rest state, inv state → (f.convert given rest state).Safe allowed inv

/-- The computation returns. -/
def Logged.Returns {A : Type} (computation : Logged X E A) : Prop := ∃ value, computation.result = .ok value

theorem Logged.Returns.bind {A B : Type} {computation : Logged X E A} {next : A → Logged X E B} (first : computation.Returns)
    (rest : ∀ value, (next value).Returns) : (computation >>= next).Returns := by
  obtain ⟨middle, returned⟩ := first
  obtain ⟨value, continued⟩ := rest middle
  refine ⟨value, ?_⟩
  rw [Logged.result_bind, returned]
  exact continued

theorem Logged.Returns.pure {A : Type} (value : A) : (Pure.pure value : Logged X E A).Returns := ⟨value, rfl⟩

/-- The parts of a formatter always return. -/
structure Formatter.Returns (f : Formatter X E S D) : Prop where
  plain : ∀ c state, (f.plain c state).Returns
  convert : ∀ given rest state, (f.convert given rest state).Returns

variable {f : Formatter X E S D} {length fuel : Nat} {state : S} {inv : S → Prop}

theorem readAt_safe {entry : Nat → X} (within : ∀ i ≤ length, allowed (entry i)) (rest : List Char) :
    (readAt entry length rest : Logged X E Char).Safe allowed fun c => c = rest.headD nul := by
  refine Logged.Safe.access (fun access inside => ?_) rfl
  rw [List.mem_singleton.mp inside]
  exact within _ (Nat.sub_le _ _)

theorem readAt_returns {entry : Nat → X} (rest : List Char) : (readAt entry length rest : Logged X E Char).Returns := ⟨_, rfl⟩

@[simp] theorem readAt_result {entry : Nat → X} :
    (readAt entry length rest : Logged X E Char).result = .ok (rest.headD nul) := rfl

theorem Formatter.run_nil : f.run length (fuel + 1) (some []) state = readAt f.entry length [] >>= fun _ => pure state := rfl

theorem Formatter.run_plain {c : Char} (notNul : c ≠ nul) (plain : c ≠ '%') :
    f.run length (fuel + 1) (some (c :: rest)) state = readAt f.entry length (c :: rest) >>= fun _ =>
      readAt f.entry length (c :: rest) >>= fun _ => f.plain c state >>= fun state => f.run length fuel (some rest) state := by
  change (readAt f.entry length (c :: rest) >>= fun _ => if c = nul then _ else if c ≠ '%' then _ else _) = _
  rw [if_neg notNul, if_pos plain]
  rfl

theorem Formatter.run_directive : f.run length (fuel + 1) (some ('%' :: rest)) state =
    readAt f.entry length ('%' :: rest) >>= fun _ => f.directive rest >>= fun parsed =>
      f.convert parsed.1 parsed.2 state >>= fun state => f.run length fuel (advance parsed.2) state := by
  rfl

/-- A formatter makes allowed accesses only when the directives of its format are complete: it reads no character beyond it. -/
theorem Formatter.run_safe (skips : f.Skips skip) (safe : f.Safe allowed inv) (within : ∀ i ≤ length, allowed (f.entry i))
    (complete : Complete skip rest) (strict : nul ∉ rest) :
    ∀ fuel state, inv state → (f.run length fuel (some rest) state).Safe allowed inv := by
  have endless (rest : Option (List Char)) (state : S) : (f.run length 0 rest state).Safe allowed inv := ⟨Logged.only_lift, nofun⟩
  induction complete with
  | nil =>
      intro fuel state holds
      cases fuel with
      | zero => exact endless _ _
      | succ fuel =>
          rw [Formatter.run_nil]
          exact (readAt_safe within _).bind fun _ _ => Logged.Safe.pure holds
  | @plain c rest plain complete inductionHypothesis =>
      intro fuel state holds
      have later := inductionHypothesis (List.not_mem_of_not_mem_cons strict)
      cases fuel with
      | zero => exact endless _ _
      | succ fuel =>
          rw [Formatter.run_plain (List.ne_of_not_mem_cons strict).symm plain]
          exact (readAt_safe within _).bind fun _ _ => (readAt_safe within _).bind fun _ _ =>
            (safe.plain c state holds).bind fun state holds => later fuel state holds
  | @directive rest after c conversion complete inductionHypothesis =>
      intro fuel state holds
      have inRest := (skips.suffix rest).subset
      rw [conversion] at inRest
      have later := inductionHypothesis fun inside =>
        strict (List.mem_cons_of_mem _ (inRest (List.mem_cons_of_mem _ inside)))
      cases fuel with
      | zero => exact endless _ _
      | succ fuel =>
          obtain ⟨given, parsed⟩ := skips.directive rest
          rw [conversion] at parsed
          rw [Formatter.run_directive]
          apply (readAt_safe within _).bind
          intro _ _
          have taken : (f.directive rest).Safe allowed fun value => value = (given, c :: after) :=
            ⟨safe.directive rest, fun value returned => Except.ok.inj (returned.symm.trans parsed)⟩
          apply taken.bind
          rintro _ rfl
          exact (safe.convert given _ state holds).bind fun state holds => later fuel state holds

/-- A formatter whose parts return reads a character beyond a format that ends within a directive. -/
theorem Formatter.run_beyond (skips : f.Skips skip) (returns : f.Returns) (strict : nul ∉ rest) (cut : ¬Complete skip rest)
    (enough : rest.length < fuel) : f.entry (length + 1) ∈ (f.run length fuel (some rest) state).log := by
  induction fuel generalizing rest state with
  | zero => omega
  | succ fuel inductionHypothesis =>
      cases rest with
      | nil => exact absurd Complete.nil cut
      | cons c rest =>
          rw [List.length_cons] at enough
          have notNul : c ≠ nul := (List.ne_of_not_mem_cons strict).symm
          have strictRest := List.not_mem_of_not_mem_cons strict
          by_cases plain : c = '%'
          · subst plain
            obtain ⟨given, parsed⟩ := skips.directive rest
            obtain ⟨converted, returned⟩ := returns.convert given (skip rest) state
            rw [Formatter.run_directive]
            apply Logged.mem_bind.mpr
            refine Or.inr ⟨_, rfl, Logged.mem_bind.mpr (Or.inr ⟨_, parsed, Logged.mem_bind.mpr (Or.inr ⟨_, returned, ?_⟩)⟩)⟩
            dsimp only
            cases conversion : skip rest with
            | nil =>
                obtain ⟨left, rfl⟩ : ∃ left, fuel = left + 1 := ⟨fuel - 1, by omega⟩
                exact List.mem_singleton_self _
            | cons c after =>
                have suffix := skips.suffix rest
                rw [conversion] at suffix
                have shorter := suffix.length_le
                rw [List.length_cons] at shorter
                apply inductionHypothesis
                · exact fun inside => strictRest (suffix.subset (List.mem_cons_of_mem _ inside))
                · exact fun complete => cut (Complete.directive conversion complete)
                · omega
          · obtain ⟨after, returned⟩ := returns.plain c state
            rw [Formatter.run_plain notNul plain]
            apply Logged.mem_bind.mpr
            refine Or.inr ⟨_, rfl, Logged.mem_bind.mpr (Or.inr ⟨_, rfl, Logged.mem_bind.mpr (Or.inr ⟨_, returned, ?_⟩)⟩)⟩
            exact inductionHypothesis strictRest (fun complete => cut (Complete.plain plain complete)) (by omega)

end

end DoccrOS.Lib
