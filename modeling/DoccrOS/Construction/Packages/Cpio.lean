import DoccrOS.Construction.Fs.Vfs
import DoccrOS.Lib.Logged

namespace DoccrOS.Packages
open Lib Fs

/-- The arguments of `cpio_extract`. The function gives the byte at every offset from the base, also the bytes of memory beyond
the archive. -/
structure Archive where
  base : Nat
  size : Nat
  data : Nat → BitVec 8

/-- The byte at an offset as a character. -/
def Archive.char (a : Archive) (i : Nat) : Char := Char.ofNat (a.data i).toNat

/-- A byte of the archive that is read. A byte of a name comes with the end of the `namesize` bytes of its entry. -/
inductive CpioRead where
  | header (index : Nat)
  | name (index nameEnd : Nat)
deriving DecidableEq, Repr

/-- The byte is one of the archive, and a byte of a name is one of its `namesize` bytes. -/
def CpioRead.Inside (size : Nat) : CpioRead → Prop
  | .header index => index < size
  | .name index nameEnd => index < size ∧ index < nameEnd

/-- A computation with the bytes of the archive that it reads. -/
abbrev CpioReads (A : Type) := Logged CpioRead Halt A

/-- This is `sizeof(cpio_header_t)`. -/
def sizeofCpioHeader : Nat := 110

def cpioTrailer : List Char := "TRAILER!!!".toList
def cpioTypeMask : Nat := 0xF000
def cpioTypeDir : Nat := 0x4000
def cpioTypeReg : Nat := 0x8000

/-- The value of a digit in the loop of `hex_val`. -/
def hexDigit (c : Char) : Nat :=
  if '0' ≤ c ∧ c ≤ '9' then c.toNat - '0'.toNat
  else if 'a' ≤ c ∧ c ≤ 'f' then c.toNat - 'a'.toNat + 10
  else if 'A' ≤ c ∧ c ≤ 'F' then c.toNat - 'A'.toNat + 10
  else 0

/-- The loop of `hex_val`. The value is a `u32`, whose upper digits are lost. -/
def hexVal : (val : Nat) → (s : List Char) → Nat
  | val, [] => val
  | val, c :: s => hexVal (val * 16 % 2 ^ 32 + hexDigit c) s

/-- The field of eight characters at an offset. -/
def Archive.hex (a : Archive) (i : Nat) : Nat := hexVal 0 ((List.range 8).map fun k => a.char (i + k))

def Archive.readHex (a : Archive) (i : Nat) : CpioReads Nat :=
  .access ((List.range 8).map fun k => .header (i + k)) (a.hex i)

def Archive.readHeader (a : Archive) (i : Nat) : CpioReads Char := .access [.header i] (a.char i)

def Archive.readName (a : Archive) (nameEnd i : Nat) : CpioReads Char := .access [.name i nameEnd] (a.char i)

def magicOk (a : Archive) (m : Nat) : CpioReads Bool := do
  if (← a.readHeader m) ≠ '0' then return false
  else if (← a.readHeader (m + 1)) ≠ '7' then return false
  else if (← a.readHeader (m + 2)) ≠ '0' then return false
  else if (← a.readHeader (m + 3)) ≠ '7' then return false
  else if (← a.readHeader (m + 4)) ≠ '0' then return false
  else
    let last ← a.readHeader (m + 5)
    return last = '1' || last = '2'

def align4 (x : Nat) : Nat := wrap64 (x + 3) / 4 * 4

/-- The function `str_equals` on the name at an offset and a constant without a zero. -/
def strEquals (a : Archive) (nameEnd : Nat) : (s1 : Nat) → (s2 : List Char) → CpioReads Bool
  | s1, [] => do
    let c ← a.readName nameEnd s1
    return c = '\x00'
  | s1, d :: s2 => do
    let c ← a.readName nameEnd s1
    if c = '\x00' then return false
    else if c ≠ d then return false
    else strEquals a nameEnd (s1 + 1) s2

/-- The string at an offset up to its final zero. The fuel is the number of addresses. -/
def readString (a : Archive) (nameEnd : Nat) : (fuel i : Nat) → CpioReads (List Char)
  | 0, _ => .lift (.error .hang)
  | fuel + 1, i => do
    let c ← a.readName nameEnd i
    if c = '\x00' then return []
    else
      let s ← readString a nameEnd fuel (i + 1)
      return c :: s

/-- The statement that steps over a leading `./`. -/
def skipDotSlash (a : Archive) (nameEnd name : Nat) : CpioReads Nat := do
  if (← a.readName nameEnd name) ≠ '.' then return name
  else if (← a.readName nameEnd (name + 1)) ≠ '/' then return name
  else return name + 2

/-- The results of `kmalloc` for an entry: for the directories that the calls create, and for the file. -/
structure CpioOutcome where
  directories : List (Option NodePtr)
  file : Option NodePtr

/-- The calls of the file system for an entry with a path. -/
def cpioUnpack (a : Archive) (v : Vfs) (path : List Char) (mode filesize dataOff : Nat) (outcome : CpioOutcome) : Result Vfs :=
  if mode &&& cpioTypeMask = cpioTypeDir then (vfsMkdir v path outcome.directories).map Prod.snd
  else if mode &&& cpioTypeMask = cpioTypeReg then do
    let (f, v) ← vfsCreateFile v path outcome.directories outcome.file
    if f.isSome ∧ filesize > 0 then vfsSetData v f (wrap64 (a.base + dataOff)) filesize else return v
  else return v

/-- The part of the loop that unpacks an entry, from the name behind a leading `./` on. The message prints the name up to its
final zero before the file system reads it. -/
def cpioPath (a : Archive) (v : Vfs) (nameEnd name mode filesize dataOff : Nat) (outcome : CpioOutcome) : CpioReads Vfs := do
  if (← a.readName nameEnd name) = '\x00' then return v
  else if ← strEquals a nameEnd name ['.'] then return v
  else
    let path ← readString a nameEnd (2 ^ 64) name
    Logged.lift (cpioUnpack a v path mode filesize dataOff outcome)

/-- The body of the loop of `cpio_extract`. It gives the next offset unless the loop ends. -/
def cpioEntry (a : Archive) (v : Vfs) (off : Nat) (outcome : CpioOutcome) : CpioReads (Option (Nat × Vfs)) := do
  if !(← magicOk a off) then return none
  else
    let namesize ← a.readHex (off + 94)
    let filesize ← a.readHex (off + 54)
    let mode ← a.readHex (off + 14)
    let name := off + sizeofCpioHeader
    let dataOff := align4 (wrap64 (off + sizeofCpioHeader + namesize))
    let nextOff := align4 (wrap64 (dataOff + filesize))
    if ← strEquals a (name + namesize) name cpioTrailer then return none
    else if nextOff > a.size then return none
    else
      let path ← skipDotSlash a (name + namesize) name
      let v ← cpioPath a v (name + namesize) path mode filesize dataOff outcome
      return some (nextOff, v)

/-- The loop of `cpio_extract` from the entry `i` on. The fuel is more than the number of entries. -/
def cpioLoop (a : Archive) (outcomes : Nat → CpioOutcome) : (fuel i off : Nat) → Vfs → CpioReads Vfs
  | 0, _, _, _ => .lift (.error .hang)
  | fuel + 1, i, off, v =>
    if wrap64 (off + sizeofCpioHeader) ≤ a.size then do
      match ← cpioEntry a v off (outcomes i) with
      | none => return v
      | some (off, v) => cpioLoop a outcomes fuel (i + 1) off v
    else return v

def cpioExtract (a : Archive) (v : Vfs) (outcomes : Nat → CpioOutcome) : CpioReads Vfs :=
  if a.base = 0 ∨ a.size < sizeofCpioHeader then return v else cpioLoop a outcomes (a.size + 1) 0 0 v

end DoccrOS.Packages
