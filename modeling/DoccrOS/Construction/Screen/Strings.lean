import DoccrOS.Construction.Types
import DoccrOS.Lib.Logged

namespace DoccrOS.Screen
open Lib

/-- The characters from a `char *` on; the pointer is not `NULL`. -/
abbrev CharPtr := Nat → BitVec 8

/-- The pointer `str + 1`. -/
def CharPtr.next (str : CharPtr) : CharPtr := fun i => str (i + 1)

/-- A walk over the characters of a string stays in the address space. -/
def addressSpace : Nat := 2 ^ 64

/-- The loop of `str_len` from an index on. -/
def strLenFrom (str : CharPtr) : (fuel len : Nat) → Result Nat
  | 0, _ => .error .hang
  | fuel + 1, len => if str len = 0 then .ok len else strLenFrom str fuel (len + 1)

def strLen (str : CharPtr) : Result Nat := strLenFrom str addressSpace 0

/-- The body of the loop of `str_reverse` in a string of length `len`. -/
def swapEnds (len : Nat) (str : CharPtr) (i : Nat) : CharPtr :=
  Function.update (Function.update str i (str (len - 1 - i))) (len - 1 - i) (str i)

def strReverse (str : CharPtr) : Result CharPtr := do
  let len ← strLen str
  return (List.range (len / 2)).foldl (swapEnds len) str

/-- The loop of `str_to_int` that skips blanks and tabulators. -/
def skipWhitespace : (fuel : Nat) → CharPtr → Result CharPtr
  | 0, _ => .error .hang
  | fuel + 1, str => if str 0 = 0x20 ∨ str 0 = 0x09 then skipWhitespace fuel str.next else .ok str

/-- The test for a digit; a `char` is signed. -/
def isDigit (c : BitVec 8) : Bool := BitVec.sle 0x30 c && BitVec.sle c 0x39

/-- The loop of `str_to_int` that converts digits. -/
def convertDigits : (fuel : Nat) → CharPtr → (result : BitVec 32) → Result (BitVec 32)
  | 0, _, _ => .error .hang
  | fuel + 1, str, result =>
    if isDigit (str 0) then convertDigits fuel str.next (result * 10 + ((str 0).signExtend 32 - 0x30)) else .ok result

def strToInt (str : CharPtr) : Result (BitVec 32) := do
  let str ← skipWhitespace addressSpace str
  let (sign, str) := if str 0 = 0x2D then (-1, str.next) else if str 0 = 0x2B then (1, str.next) else (1, str)
  let result ← convertDigits addressSpace str 0
  return result * sign

/-- The character `'0' + value % 10`. -/
def lastDigit (value : BitVec 32) : BitVec 8 := (0x30 + value.srem 10).setWidth 8

theorem sdiv_ten_toInt (value : BitVec 32) : (value.sdiv 10).toInt = value.toInt.tdiv 10 :=
  BitVec.toInt_sdiv_of_ne_or_ne value 10 (Or.inr (by decide))

theorem sdiv_ten_lt {value : BitVec 32} (positive : 0 < value.toInt) : (value.sdiv 10).toInt.toNat < value.toInt.toNat := by
  rw [sdiv_ten_toInt, Int.tdiv_eq_ediv_of_nonneg positive.le]
  omega

/-- The loop of `str_from_int` that stores the digits of a value from an index on, the last digit first. -/
def storeDigits (buf : CharPtr) (i : Nat) (value : BitVec 32) : CharPtr × Nat :=
  if BitVec.slt 0 value then storeDigits (Function.update buf i (lastDigit value)) (i + 1) (value.sdiv 10) else (buf, i)
termination_by value.toInt.toNat
decreasing_by
  rename_i positive
  exact sdiv_ten_lt (BitVec.slt_iff_toInt_lt.mp positive)

/-- The sign behind the digits, with the index behind it. -/
def storeSign (buf : CharPtr) (i : Nat) (isNegative : Bool) : CharPtr × Nat :=
  if isNegative then (Function.update buf i 0x2D, i + 1) else (buf, i)

/-- The value whose digits are stored; the most negative value has no other sign. -/
def magnitude (value : BitVec 32) : BitVec 32 := if BitVec.slt value 0 then -value else value

def strFromInt (buf : CharPtr) (value : BitVec 32) : Result CharPtr :=
  if value = 0 then .ok (Function.update (Function.update buf 0 0x30) 1 0)
  else
    let (buf, i) := storeDigits buf 0 (magnitude value)
    let (buf, i) := storeSign buf i (BitVec.slt value 0)
    strReverse (Function.update buf i 0)

/-- A store of `IntToString` to its array `temp` or to the buffer of its caller. -/
inductive TextStore where
  | temp (index : Nat)
  | buffer (index : Nat)
deriving DecidableEq, Repr

/-- A computation with its stores. -/
abbrev TextStores (A : Type) := Logged TextStore Halt A

/-- The loop of `IntToString` that stores the digits of a value from an index on. -/
def tempDigits (temp : CharPtr) (i : Nat) (value : BitVec 32) : TextStores (CharPtr × Nat) := do
  let temp ← .access [.temp i] (Function.update temp i (lastDigit value))
  if BitVec.slt 0 (value.sdiv 10) then tempDigits temp (i + 1) (value.sdiv 10) else pure (temp, i + 1)
termination_by value.toInt.toNat
decreasing_by
  rename_i positive
  have quotient : 0 < (value.sdiv 10).toInt := BitVec.slt_iff_toInt_lt.mp positive
  apply sdiv_ten_lt
  rw [sdiv_ten_toInt] at quotient
  by_contra negative
  have quotient' := Int.tdiv_nonneg (a := -value.toInt) (b := 10) (by omega) (by decide)
  rw [Int.neg_tdiv] at quotient'
  exact absurd quotient (by omega)

/-- The sign behind the digits in `temp`. -/
def tempSign (temp : CharPtr) (i : Nat) (isNegative : Bool) : TextStores (CharPtr × Nat) :=
  if isNegative then .access [.temp i] (Function.update temp i 0x2D, i + 1) else pure (temp, i)

/-- The loop of `IntToString` that copies `temp` to the buffer in reverse order, from an index `j` on. -/
def copyReversed (temp : CharPtr) (i : Nat) : (left j : Nat) → (buffer : CharPtr) → TextStores CharPtr
  | 0, _, buffer => pure buffer
  | left + 1, j, buffer => do
    let buffer ← .access [.buffer j] (Function.update buffer j (temp (i - j - 1)))
    copyReversed temp i left (j + 1) buffer

/-- The array `temp` has any contents before. The result is the buffer. -/
def intToString (temp : CharPtr) (value : BitVec 32) (buffer : CharPtr) : TextStores CharPtr := do
  let (temp, i) ← tempDigits temp 0 (magnitude value)
  let (temp, i) ← tempSign temp i (BitVec.slt value 0)
  let temp ← .access [.temp i] (Function.update temp i 0)
  let buffer ← copyReversed temp i i 0 buffer
  .access [.buffer i] (Function.update buffer i 0)

/-- The length of `temp` in `IntToString`. -/
def tempSize : Nat := 11

/-- The length of `buffer` in `printInt`. -/
def printIntSize : Nat := 12

end DoccrOS.Screen
