import DoccrOS.Construction.User.Stdio

namespace DoccrOS.User
open Lib Fs

/-- The calls of `write` so far, the count `written` and the number of arguments that are taken. -/
structure PrintfState where
  writes : List WriteCall
  written : Nat
  next : Nat

/-- This is `out`. -/
def PrintfState.out (state : PrintfState) (s : List Char) : PrintfState := { state with writes := state.writes ++ [⟨1, s⟩] }

/-- One `out` for each character. -/
def PrintfState.outEach (state : PrintfState) (s : List Char) : PrintfState := s.foldl (fun state c => state.out [c]) state

def printUint (state : PrintfState) (val : Nat) (radix : Radix) (upper : Bool) : Formatting PrintfState := do
  let reversed ← reverseDigits radix upper val
  pure (state.outEach reversed.reverse)

def printInt (state : PrintfState) (val : Int) : Formatting PrintfState :=
  printUint (if val < 0 then state.out ['-'] else state) val.natAbs .decimal false

/-- An argument is taken. -/
def PrintfState.take (state : PrintfState) : PrintfState := { state with next := state.next + 1 }

/-- The `switch` of `printf`. -/
def printfConvert (length : Nat) (ap : Arguments) (rest : List Char) (state : PrintfState) : Formatting PrintfState := do
  let c ← readAt .format length rest
  match c with
  | 's' =>
    if ap.word state.next = 0 then .lift (.error .invalid)
    else
      let s := ap.string state.next
      pure { state.take.out s with written := state.written + s.length }
  | 'd' | 'i' => printInt state.take (ap.int state.next)
  | 'u' => printUint state.take (ap.unsigned state.next) .decimal false
  | 'x' => printUint state.take (ap.unsigned state.next) .hexadecimal false
  | 'X' => printUint state.take (ap.unsigned state.next) .hexadecimal true
  | 'p' => printUint (state.take.out ['0', 'x']) (ap.unsignedLong state.next) .hexadecimal false
  | 'c' => pure (state.take.out [ap.char state.next])
  | '%' => pure (state.out ['%'])
  | _ =>
    let c ← readAt .format length rest
    pure (state.out [c])

/-- The loop of `printf` over a format of the given length. -/
def printfLoop (length : Nat) (ap : Arguments) : Formatter FormatAccess Halt PrintfState Unit where
  entry := .format
  beyond := .invalid
  endless := .hang
  plain c state := pure { state.out [c] with written := state.written + 1 }
  directive rest := pure ((), rest)
  convert _ := printfConvert length ap

/-- The result holds the calls of `write` and the returned value. -/
def printf (fmt : CString) (ap : Arguments) : Formatting (List WriteCall × Int) := do
  let length := fmt.chars.length
  let state ← (printfLoop length ap).run length (length + 2) (some fmt.chars) ⟨[], 0, 0⟩
  pure (state.writes, castInt state.written)

end DoccrOS.User

namespace DoccrOS.User
open Lib

/-- This is `isspace`. -/
def isspace (character : Char) : Bool :=
  character = ' ' ∨ character = '\t' ∨ character = '\n' ∨ character = '\r' ∨ character = '\x0c' ∨ character = '\x0b'

/-- The loop that adds up the digits at the start of a text. -/
def readDigits : Int → List Char → Int × List Char
  | value, [] => (value, [])
  | value, c :: text =>
    if isdigit c then readDigits (wrapInt (wrapInt (value * 10) + c.toNat - '0'.toNat)) text else (value, c :: text)

/-- The sign at the start of a text. -/
def readSign (text : List Char) : Int × List Char := if text.headD nul = '-' then (-1, text.tail) else (1, text)

/-- The text is a string up to its terminator. -/
def atoi (text : List Char) : Int :=
  let text := text.dropWhile (· = ' ')
  let (sign, text) := readSign text
  let (value, _) := readDigits 0 text
  wrapInt (sign * value)

/-- A value that `sscanf` stores through one of its arguments. -/
inductive Scanned where
  | int (value : Int)
  | text (chars : List Char)
deriving DecidableEq, Repr

/-- The loop of `sscanf`, with the values that it has stored so far. The input and the format are the rests of their strings. -/
def sscanfLoop (stored : List Scanned) (input : List Char) : (format : List Char) → List Scanned
  | [] => stored
  | c :: format =>
    if input = [] then stored
    else if isspace c then sscanfLoop stored (input.dropWhile isspace) (format.dropWhile isspace)
    else if c ≠ '%' then
      if input.headD nul ≠ c then stored else sscanfLoop stored input.tail format
    else
      match format with
      | [] => stored
      | conversion :: format =>
        if conversion = 'd' ∨ conversion = 'i' then
          let (sign, input) := readSign input
          if !isdigit (input.headD nul) then stored
          else
            let (value, input) := readDigits 0 input
            sscanfLoop (stored ++ [.int (wrapInt (value * sign))]) input format
        else if conversion = 's' then
          let taken := input.takeWhile fun c => !isspace c
          sscanfLoop (stored ++ [.text taken]) (input.drop taken.length) format
        else stored
termination_by format => format.length
decreasing_by
  · exact Nat.lt_succ_of_le (List.dropWhile_suffix _).length_le
  · exact Nat.lt_succ_self _
  · simp only [List.length_cons]
    omega
  · simp only [List.length_cons]
    omega

/-- The number of assignments, and the values that are stored. -/
def sscanf (input format : List Char) : Int × List Scanned :=
  let stored := sscanfLoop [] input format
  (stored.length, stored)

end DoccrOS.User
