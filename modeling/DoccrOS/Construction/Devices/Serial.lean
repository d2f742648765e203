import DoccrOS.Construction.User.Stdio

namespace DoccrOS.Devices
open Lib User

/-- The bytes that `COM1` has got, and the number of arguments that are taken. -/
structure SerialState where
  sent : List Char
  next : Nat

/-- This is `serial_putchar`. -/
def SerialState.putchar (state : SerialState) (c : Char) : SerialState := { state with sent := state.sent ++ [c] }

/-- This is `serial_puts`. -/
def SerialState.puts (state : SerialState) (str : List Char) : SerialState := str.foldl SerialState.putchar state

/-- An argument is taken. -/
def SerialState.take (state : SerialState) : SerialState := { state with next := state.next + 1 }

def printU64 (state : SerialState) (num : Nat) (radix : Radix) : Formatting SerialState :=
  if num = 0 then pure (state.putchar '0')
  else do
    let reversed ← storeDigits radix false 0 num
    pure (state.puts reversed.reverse)

def printI64 (state : SerialState) (num : Int) : Formatting SerialState :=
  printU64 (if num < 0 then state.putchar '-' else state) num.natAbs .decimal

/-- The shared body of `print_hexa32` and `print_ptr`: a fixed number of hexadecimal digits, the first digit first. -/
def printHexa (state : SerialState) (count num : Nat) : Formatting SerialState :=
  .access ((List.range count).map .digit)
    ((state.puts ['0', 'x']).puts ((List.range count).map fun i => digitChar false (num / 16 ^ (count - 1 - i) % 16)))

def printHexa32 (state : SerialState) (num : Nat) : Formatting SerialState := printHexa state 8 num

def printPtr (state : SerialState) (ptr : Nat) : Formatting SerialState := printHexa state 16 ptr

/-- The flags `is_long` and `is_llong`. -/
structure SerialLength where
  isLong : Bool
  isLlong : Bool

/-- The modifiers between the `%` and the conversion. -/
def serialDirective (length : Nat) (rest : List Char) : Formatting (SerialLength × List Char) := do
  let c ← readAt .format length rest
  if c = 'l' then
    let rest := rest.tail
    let c ← readAt .format length rest
    if c = 'l' then pure (⟨true, true⟩, rest.tail) else pure (⟨true, false⟩, rest)
  else pure (⟨false, false⟩, rest)

/-- The value of a signed argument; `long` and `i64` have the same width. -/
def SerialLength.signed (flags : SerialLength) (args : Arguments) (i : Nat) : Int :=
  if flags.isLlong ∨ flags.isLong then args.long i else args.int i

/-- The value of an unsigned argument. -/
def SerialLength.unsigned (flags : SerialLength) (args : Arguments) (i : Nat) : Nat :=
  if flags.isLlong ∨ flags.isLong then args.unsignedLong i else args.unsigned i

/-- The `switch` of `serial_printf`. -/
def serialConvert (length : Nat) (args : Arguments) (flags : SerialLength) (rest : List Char) (state : SerialState) :
    Formatting SerialState := do
  let c ← readAt .format length rest
  match c with
  | 'd' | 'i' => printI64 state.take (flags.signed args state.next)
  | 'u' => printU64 state.take (flags.unsigned args state.next) .decimal
  | 'x' | 'X' =>
    if flags.isLlong then printU64 state.take (args.unsignedLong state.next) .hexadecimal
    else printHexa32 state.take (args.unsigned state.next)
  | 'p' => printPtr state.take (args.unsignedLong state.next)
  | 's' => pure (if args.word state.next = 0 then state.take else state.take.puts (args.string state.next))
  | 'c' => pure (state.take.putchar (args.char state.next))
  | '%' => pure (state.putchar '%')
  | _ =>
    let c ← readAt .format length rest
    let state := state.putchar '%'
    let state := if flags.isLlong then state.puts ['l', 'l'] else if flags.isLong then state.putchar 'l' else state
    pure (state.putchar c)

/-- The loop of `serial_printf` over a format of the given length. -/
def serialLoop (length : Nat) (args : Arguments) : Formatter FormatAccess Halt SerialState SerialLength where
  entry := .format
  beyond := .invalid
  endless := .hang
  plain c state := pure (state.putchar c)
  directive := serialDirective length
  convert := serialConvert length args

/-- The result holds the bytes that `COM1` gets. -/
def serialPrintf (format : CString) (args : Arguments) : Formatting (List Char) := do
  let length := format.chars.length
  let state ← (serialLoop length args).run length (length + 2) (some format.chars) ⟨[], 0⟩
  pure state.sent

end DoccrOS.Devices
