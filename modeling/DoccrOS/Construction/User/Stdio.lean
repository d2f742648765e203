import DoccrOS.Construction.Fs.Vfs
import DoccrOS.Lib.Formatter

namespace DoccrOS.User
open Lib Fs

/-- A part of a formatter with its accesses. -/
abbrev Formatting (A : Type) := Logged FormatAccess Halt A

/-- Signed 32-bit arithmetic wraps. -/
def wrapInt (n : Int) : Int := (BitVec.ofInt 32 n).toInt

/-- This is `isdigit`. -/
def isdigit (character : Char) : Bool := '0' ≤ character ∧ character ≤ '9'

/-- The two bases of the numbers. -/
inductive Radix where
  | decimal
  | hexadecimal
deriving DecidableEq, Repr

def Radix.base : Radix → Nat
  | .decimal => 10
  | .hexadecimal => 16

def digitChar (uppercase : Bool) (digit : Nat) : Char :=
  if digit < 10 then Char.ofNat ('0'.toNat + digit)
  else Char.ofNat ((if uppercase then 'A' else 'a').toNat + digit - 10)

/-- The loop that stores the digits of a value from an index on, the last digit first. -/
def storeDigits (radix : Radix) (uppercase : Bool) (digits value : Nat) : Formatting (List Char) :=
  if value = 0 then pure []
  else do
    let stored ← .access [.digit digits] (digitChar uppercase (value % radix.base))
    let more ← storeDigits radix uppercase (digits + 1) (value / radix.base)
    pure (stored :: more)
termination_by value
decreasing_by exact Nat.div_lt_self (by omega) (by cases radix <;> decide)

/-- The digits of a value, the last digit first, in the array of an integer conversion. -/
def reverseDigits (radix : Radix) (uppercase : Bool) (value : Nat) : Formatting (List Char) :=
  if value = 0 then .access [.digit 0] ['0'] else storeDigits radix uppercase 0 value

/-- This is `output_buffer_t`. -/
structure OutputBuffer where
  data : Nat → Char
  capacity : Nat
  position : Nat

def emit (output : OutputBuffer) (character : Char) : Formatting OutputBuffer :=
  if output.capacity ≠ 0 ∧ output.position + 1 < output.capacity then
    .access [.buffer output.position]
      { output with data := Function.update output.data output.position character, position := output.position + 1 }
  else pure { output with position := output.position + 1 }

/-- One `emit` after the other. -/
def emitAll : OutputBuffer → List Char → Formatting OutputBuffer
  | output, [] => pure output
  | output, character :: characters => do
    let output ← emit output character
    emitAll output characters

def emitSign (output : OutputBuffer) (negative : Bool) : Formatting OutputBuffer :=
  if negative then emit output '-' else pure output

/-- The padding of a number. The sign comes before zeroes, and is then not left to be emitted. -/
def emitPadding (output : OutputBuffer) (negative zeroPadded : Bool) (count : Nat) : Formatting (OutputBuffer × Bool) :=
  if zeroPadded then do
    let output ← emitSign output negative
    let output ← emitAll output (List.replicate count '0')
    pure (output, false)
  else do
    let output ← emitAll output (List.replicate count ' ')
    pure (output, negative)

def emitNumber (output : OutputBuffer) (value : Nat) (radix : Radix) (uppercase negative : Bool) (width precision : Int)
    (padding : Char) : Formatting OutputBuffer := do
  let reversed ← reverseDigits radix uppercase value
  let digits : Int := reversed.length
  let zeroes := if precision > digits then precision - digits else 0
  let total := wrapInt (digits + zeroes + if negative then 1 else 0)
  let (output, negative) ← emitPadding output negative (padding = '0' ∧ precision < 0) (width - total).toNat
  let output ← emitSign output negative
  let output ← emitAll output (List.replicate zeroes.toNat '0')
  emitAll output reversed.reverse

/-- The modifiers of a directive. -/
structure Directive where
  padding : Char
  width : Int
  precision : Int
  longModifier : Nat

/-- The loop that reads a number from a format of the given length. -/
def readNumber (length : Nat) : Int → List Char → Formatting (Int × List Char)
  | number, [] => do
    let _ ← readAt .format length []
    pure (number, [])
  | number, c :: rest => do
    let c ← readAt .format length (c :: rest)
    if isdigit c then
      let c ← readAt .format length (c :: rest)
      readNumber length (wrapInt (wrapInt (number * 10) + c.toNat - '0'.toNat)) rest
    else pure (number, c :: rest)

/-- The loop that counts the `l` of a directive. -/
def readLong (length : Nat) : Nat → List Char → Formatting (Nat × List Char)
  | longModifier, [] => do
    let _ ← readAt .format length []
    pure (longModifier, [])
  | longModifier, c :: rest => do
    let c ← readAt .format length (c :: rest)
    if c = 'l' then readLong length (longModifier + 1) rest
    else pure (longModifier, c :: rest)

/-- The padding is zeroes after a `0`. -/
def readPadding (length : Nat) (rest : List Char) : Formatting (Char × List Char) := do
  let c ← readAt .format length rest
  pure (if c = '0' then ('0', rest.tail) else (' ', rest))

/-- The precision is negative without a point. -/
def readPrecision (length : Nat) (rest : List Char) : Formatting (Int × List Char) := do
  let c ← readAt .format length rest
  if c = '.' then readNumber length 0 rest.tail else pure (-1, rest)

/-- The modifiers between the `%` and the conversion. -/
def readDirective (length : Nat) (rest : List Char) : Formatting (Directive × List Char) := do
  let (padding, rest) ← readPadding length rest
  let (width, rest) ← readNumber length 0 rest
  let (precision, rest) ← readPrecision length rest
  let (longModifier, rest) ← readLong length 0 rest
  pure (⟨padding, width, precision, longModifier⟩, rest)

/-- The loop of the conversion `%s`. -/
def emitString (precision : Int) : Int → OutputBuffer → List Char → Formatting OutputBuffer
  | _, output, [] => pure output
  | emitted, output, c :: text =>
    if precision < 0 ∨ emitted < precision then do
      let output ← emit output c
      emitString precision (emitted + 1) output text
    else pure output

/-- The case of a conversion in the `switch` of `vsnprintf`, when `next` arguments are taken. -/
def conversion (length : Nat) (arguments : Arguments) (directive : Directive) (rest : List Char) (next : Nat) (c : Char) :
    OutputBuffer → Formatting (OutputBuffer × Nat) :=
  match c with
  | 's' => fun output => do
    let text := if arguments.word next = 0 then "(null)".toList else arguments.string next
    let output ← emitString directive.precision 0 output text
    pure (output, next + 1)
  | 'c' => fun output => do
    let output ← emit output (arguments.char next)
    pure (output, next + 1)
  | 'd' | 'i' => fun output => do
    let value := if directive.longModifier ≠ 0 then arguments.long next else arguments.int next
    let output ← emitNumber output value.natAbs .decimal false (value < 0) directive.width directive.precision directive.padding
    pure (output, next + 1)
  | 'u' => fun output => do
    let value := if directive.longModifier ≠ 0 then arguments.unsignedLong next else arguments.unsigned next
    let output ← emitNumber output value .decimal false false directive.width directive.precision directive.padding
    pure (output, next + 1)
  | 'x' | 'X' => fun output => do
    let c ← readAt .format length rest
    let value := if directive.longModifier ≠ 0 then arguments.unsignedLong next else arguments.unsigned next
    let output ← emitNumber output value .hexadecimal (c = 'X') false directive.width directive.precision directive.padding
    pure (output, next + 1)
  | 'p' => fun output => do
    let output ← emit output '0'
    let output ← emit output 'x'
    let output ← emitNumber output (arguments.unsignedLong next) .hexadecimal false false 0 (-1) ' '
    pure (output, next + 1)
  | '%' => fun output => do
    let output ← emit output '%'
    pure (output, next)
  | _ => fun output => do
    let c ← readAt .format length rest
    let output ← emit output c
    pure (output, next)

/-- The `switch` of `vsnprintf`. The state has the output and the number of arguments that are taken. -/
def convert (length : Nat) (arguments : Arguments) (directive : Directive) (rest : List Char) (state : OutputBuffer × Nat) :
    Formatting (OutputBuffer × Nat) := do
  let c ← readAt .format length rest
  conversion length arguments directive rest state.2 c state.1

/-- The loop of `vsnprintf` over a format of the given length. -/
def vsnprintfLoop (length : Nat) (arguments : Arguments) : Formatter FormatAccess Halt (OutputBuffer × Nat) Directive where
  entry := .format
  beyond := .invalid
  endless := .hang
  plain c state := do
    let output ← emit state.1 c
    pure (output, state.2)
  directive := readDirective length
  convert := convert length arguments

/-- The end of `vsnprintf`, with the buffer and the returned value. -/
def terminate (size : Nat) (output : OutputBuffer) : Formatting ((Nat → Char) × Int) :=
  if size ≠ 0 then
    let last := if output.position < size then output.position else size - 1
    .access [.buffer last] (Function.update output.data last nul, castInt output.position)
  else pure (output.data, castInt output.position)

def vsnprintf (buffer : Nat → Char) (size : Nat) (format : CString) (arguments : Arguments) :
    Formatting ((Nat → Char) × Int) := do
  let length := format.chars.length
  let (output, _) ← (vsnprintfLoop length arguments).run length (length + 2) (some format.chars) (⟨buffer, size, 0⟩, 0)
  terminate size output

def snprintf (buffer : Nat → Char) (size : Nat) (format : CString) (arguments : Arguments) : Formatting ((Nat → Char) × Int) :=
  vsnprintf buffer size format arguments

def sprintf (buffer : Nat → Char) (format : CString) (arguments : Arguments) : Formatting ((Nat → Char) × Int) :=
  vsnprintf buffer (2 ^ 64 - 1) format arguments

/-- A call of `write` with its descriptor and its bytes. -/
structure WriteCall where
  fd : Nat
  bytes : List Char
deriving DecidableEq, Repr

/-- The local array of `vfprintf` has any contents before the call, and the call of `write` does not fail. -/
def vfprintf (buffer : Nat → Char) (fd : Nat) (format : CString) (arguments : Arguments) :
    Formatting (List WriteCall × Int) := do
  let (data, result) ← vsnprintf buffer 1024 format arguments
  if result < 0 then pure ([], result)
  else
    let bytes := if result.toNat < 1024 then result.toNat else 1023
    pure ([⟨fd, (List.range bytes).map data⟩], result)

def fprintf (buffer : Nat → Char) (fd : Nat) (format : CString) (arguments : Arguments) : Formatting (List WriteCall × Int) :=
  vfprintf buffer fd format arguments

end DoccrOS.User
