import DoccrOS.Lib.Text
import DoccrOS.Proof.Packages.Cpio

namespace DoccrOS.Packages
open Lib Fs

/-- An entry of an archive: the kind of its magic number, its name, its mode, its contents and the other fields of its header. -/
structure CpioItem where
  crc : Bool
  name : List Char
  mode : Nat
  data : List (BitVec 8)
  other : Nat → Nat

def hexChar (d : Nat) : Char := if d < 10 then Char.ofNat (0x30 + d) else Char.ofNat (0x37 + d)

/-- The last digits of a number. -/
def hexDigits : (count n : Nat) → List Char
  | 0, _ => []
  | count + 1, n => hexDigits count (n / 16) ++ [hexChar (n % 16)]

/-- The value of a field by its place in the header. -/
def CpioItem.field (item : CpioItem) (k : Nat) : Nat :=
  if k = 1 then item.mode else if k = 6 then item.data.length else if k = 11 then item.name.length + 1 else item.other k

def CpioItem.header (item : CpioItem) : List Char :=
  ['0', '7', '0', '7', '0', if item.crc then '2' else '1'] ++ (List.range 13).flatMap fun k => hexDigits 8 (item.field k)

def charByte (c : Char) : BitVec 8 := BitVec.ofNat 8 c.toNat

/-- The bytes with zeroes up to a multiple of four. -/
def padded (bytes : List (BitVec 8)) : List (BitVec 8) := bytes ++ List.replicate ((4 - bytes.length % 4) % 4) 0

/-- The header and the name with its final zero. -/
def CpioItem.front (item : CpioItem) : List (BitVec 8) := (item.header ++ (item.name ++ ['\x00'])).map charByte

/-- The bytes of an entry. -/
def CpioItem.bytes (item : CpioItem) : List (BitVec 8) := padded (padded item.front ++ item.data)

/-- The entry can be written: its name is a string of bytes, and its numbers fit their fields. -/
structure CpioItem.Ok (item : CpioItem) : Prop where
  chars : ∀ c ∈ item.name, c.toNat < 256 ∧ c ≠ '\x00'
  name : item.name.length + 1 < 2 ^ 32
  mode : item.mode < 2 ^ 32
  data : item.data.length < 2 ^ 32

/-- The name behind a leading `./`. -/
def CpioItem.path (item : CpioItem) : List Char :=
  match item.name with
  | '.' :: '/' :: rest => rest
  | name => name

/-- The calls of the file system for an entry at an offset. -/
def CpioItem.unpack (item : CpioItem) (a : Archive) (off : Nat) (v : Vfs) (outcome : CpioOutcome) : Result Vfs :=
  if item.path = [] ∨ item.path = ['.'] then .ok v
  else cpioUnpack a v item.path item.mode item.data.length (off + (padded item.front).length) outcome

/-- The entries from the entry `i` at an offset on, one behind the other. -/
def unpackItems (a : Archive) (outcomes : Nat → CpioOutcome) : (i off : Nat) → List CpioItem → Vfs → Result Vfs
  | _, _, [], v => .ok v
  | i, off, item :: items, v => do
    let v ← item.unpack a off v (outcomes i)
    unpackItems a outcomes (i + 1) (off + item.bytes.length) items v

/-- The archive begins with the entries at an offset. -/
def Archive.Begins (a : Archive) (off : Nat) (items : List CpioItem) : Prop :=
  Shows (fun i => a.data (off + i)) (items.flatMap CpioItem.bytes)

section
variable {a : Archive} {item : CpioItem} {off i k n count : Nat} {list rest : List Char}

theorem hexDigit_hexChar {d : Nat} (digit : d < 16) : hexDigit (hexChar d) = d := by
  have all : ∀ d < 16, hexDigit (hexChar d) = d := by decide
  exact all d digit

theorem hexVal_snoc (val : Nat) (s : List Char) (c : Char) :
    hexVal val (s ++ [c]) = hexVal val s * 16 % 2 ^ 32 + hexDigit c := by
  induction s generalizing val with
  | nil => rfl
  | cons d s inductionHypothesis => exact inductionHypothesis _

/-- A field is read back. -/
theorem hexVal_hexDigits (small : n < 16 ^ count) (room : count ≤ 8) : hexVal 0 (hexDigits count n) = n := by
  induction count generalizing n with
  | zero =>
      rw [pow_zero] at small
      change 0 = n
      omega
  | succ count inductionHypothesis =>
      have bound : n < 2 ^ 32 := by
        calc n < 16 ^ (count + 1) := small
          _ ≤ 16 ^ 8 := Nat.pow_le_pow_right (by decide) room
      have less : n / 16 < 16 ^ count := by
        rw [pow_succ] at small
        omega
      rw [hexDigits, hexVal_snoc, inductionHypothesis less (by omega), hexDigit_hexChar (Nat.mod_lt n (by decide))]
      omega

theorem hexDigits_length (count n : Nat) : (hexDigits count n).length = count := by
  induction count generalizing n with
  | zero => rfl
  | succ count inductionHypothesis => rw [hexDigits, List.length_append, inductionHypothesis, List.length_singleton]

theorem hexDigits_small {c : Char} (digit : c ∈ hexDigits count n) : c.toNat < 256 := by
  induction count generalizing n with
  | zero => cases digit
  | succ count inductionHypothesis =>
      rcases List.mem_append.mp digit with before | last
      · exact inductionHypothesis before
      · have all : ∀ d < 16, (hexChar d).toNat < 256 := by decide
        rw [List.mem_singleton.mp last]
        exact all _ (Nat.mod_lt n (by decide))

theorem header_length (item : CpioItem) : item.header.length = sizeofCpioHeader := by
  simp [CpioItem.header, hexDigits_length, sizeofCpioHeader]

theorem header_small {c : Char} (inside : c ∈ item.header) : c.toNat < 256 := by
  rcases List.mem_append.mp inside with magic | field
  · have last : (if item.crc then '2' else '1').toNat < 256 := by
      cases item.crc <;> decide
    simp only [List.mem_cons, List.not_mem_nil, or_false] at magic
    rcases magic with rfl | rfl | rfl | rfl | rfl | rfl
    · decide
    · decide
    · decide
    · decide
    · decide
    · exact last
  · obtain ⟨k, _, digit⟩ := List.mem_flatMap.mp field
    exact hexDigits_small digit

theorem char_charByte {c : Char} (small : c.toNat < 256) (here : a.data i = charByte c) : a.char i = c := by
  rw [Archive.char, here, charByte, BitVec.toNat_ofNat, Nat.mod_eq_of_lt (by omega), Char.ofNat_toNat]

/-- Bytes of characters are read as the characters. -/
theorem Archive.shows_chars (small : ∀ c ∈ list, c.toNat < 256)
    (shows : Shows (fun i => a.data (off + i)) (list.map charByte)) : Shows (fun i => a.char (off + i)) list := by
  intro i c here
  apply char_charByte (small c (List.mem_of_getElem? here))
  apply shows
  rw [List.getElem?_map, here]
  rfl

theorem front_length (item : CpioItem) : item.front.length = sizeofCpioHeader + (item.name.length + 1) := by
  rw [CpioItem.front, List.length_map, List.length_append, header_length, List.length_append, List.length_singleton]

theorem padded_length (bytes : List (BitVec 8)) : (padded bytes).length = (bytes.length + 3) / 4 * 4 := by
  rw [padded, List.length_append, List.length_replicate]
  omega

/-- What the code reads from the header and the name of an entry. -/
structure Archive.HasItem (a : Archive) (off : Nat) (item : CpioItem) : Prop where
  magic : a.goodMagic off = true
  mode : a.hex (off + 14) = item.mode
  filesize : a.hex (off + 54) = item.data.length
  namesize : a.hex (off + 94) = item.name.length + 1
  name : HoldsText '\x00' (fun i => a.char (off + sizeofCpioHeader + i)) item.name

/-- A field of the header is read back. -/
theorem Archive.hex_field (shows : Shows (fun i => a.char (off + i)) item.header) (inside : k < 13) (isField : item.field k = n)
    (small : n < 2 ^ 32) : a.hex (off + (6 + 8 * k)) = n := by
  rw [← isField] at small ⊢
  have blocks := shows.behind
  have field := blocks.block (fun k => hexDigits_length 8 (item.field k)) inside
  have cells := field.cells
  rw [hexDigits_length] at cells
  have same : ((List.range 8).map fun j => a.char (off + (6 + 8 * k) + j)) = hexDigits 8 (item.field k) := by
    rw [← cells]
    apply List.map_congr_left
    intro j _
    congr 1
    change off + (6 + 8 * k) + j = off + (6 + (8 * k + j))
    omega
  rw [Archive.hex, same]
  exact hexVal_hexDigits small (Nat.le_refl 8)

theorem Archive.hasItem (ok : item.Ok) (shows : Shows (fun i => a.data (off + i)) item.front) : a.HasItem off item := by
  have small : ∀ c ∈ item.header ++ (item.name ++ ['\x00']), c.toNat < 256 := by
    intro c inside
    rcases List.mem_append.mp inside with header | name
    · exact header_small header
    · rcases List.mem_append.mp name with char | last
      · exact (ok.chars c char).1
      · rw [List.mem_singleton.mp last]
        decide
  have chars := a.shows_chars small shows
  have header := chars.left
  have name := chars.behind
  rw [header_length] at name
  refine ⟨?_, ?_, ?_, ?_, ?_⟩
  · have magic := header.left
    have at0 : a.char off = '0' := magic 0 '0' rfl
    have at1 : a.char (off + 1) = '7' := magic 1 '7' rfl
    have at2 : a.char (off + 2) = '0' := magic 2 '0' rfl
    have at3 : a.char (off + 3) = '7' := magic 3 '7' rfl
    have at4 : a.char (off + 4) = '0' := magic 4 '0' rfl
    have at5 : a.char (off + 5) = if item.crc then '2' else '1' := magic 5 _ rfl
    rw [Archive.goodMagic, at0, at1, at2, at3, at4, at5]
    cases item.crc <;> rfl
  · have read := a.hex_field header (by decide : 1 < 13) rfl ok.mode
    exact read
  · have read := a.hex_field header (by decide : 6 < 13) rfl ok.data
    exact read
  · have read := a.hex_field header (by decide : 11 < 13) rfl ok.name
    exact read
  · refine ⟨?_, fun inside => (ok.chars _ inside).2 rfl⟩
    intro i c here
    change a.char (off + sizeofCpioHeader + i) = c
    rw [Nat.add_assoc]
    exact name i c here

/-- The rest of a name stands behind its first character. -/
theorem Archive.text_cons {c : Char} (text : HoldsText '\x00' (fun j => a.char (i + j)) (c :: list)) :
    a.char i = c ∧ c ≠ '\x00' ∧ HoldsText '\x00' (fun j => a.char (i + 1 + j)) list := by
  obtain ⟨first, visible, rest⟩ := HoldsText.cons_iff.mp text
  have shifted : (fun j => a.char (i + (j + 1))) = fun j => a.char (i + 1 + j) := by
    funext j
    congr 1
    omega
  rw [shifted] at rest
  exact ⟨first, visible, rest⟩

/-- A comparison of a name with a constant. -/
theorem Archive.equals_iff {s2 : List Char} (text : HoldsText '\x00' (fun j => a.char (i + j)) list) (constant : '\x00' ∉ s2) :
    a.equals i s2 = true ↔ list = s2 := by
  induction list generalizing i s2 with
  | nil =>
      have ends : a.char i = '\x00' := (HoldsText.nil_iff _).mp text
      cases s2 with
      | nil => simp [Archive.equals, ends]
      | cons d s2 =>
          rw [List.mem_cons, not_or] at constant
          simp [Archive.equals, ends, constant.1]
  | cons c list inductionHypothesis =>
      obtain ⟨first, visible, rest⟩ := a.text_cons text
      cases s2 with
      | nil => simp [Archive.equals, first, visible]
      | cons d s2 =>
          rw [List.mem_cons, not_or] at constant
          have later := inductionHypothesis rest constant.2
          simp [Archive.equals, first, later]

/-- A string is read up to its final zero. -/
theorem readString_value {nameEnd fuel : Nat} (text : HoldsText '\x00' (fun j => a.char (i + j)) list)
    (enough : list.length < fuel) : (readString a nameEnd fuel i).result = .ok list := by
  induction list generalizing i fuel with
  | nil =>
      have ends : a.char i = '\x00' := (HoldsText.nil_iff _).mp text
      cases fuel with
      | zero => omega
      | succ fuel => simp [readString, ends, Result.ok_bind]
  | cons c list inductionHypothesis =>
      obtain ⟨first, visible, rest⟩ := a.text_cons text
      cases fuel with
      | zero => omega
      | succ fuel =>
          rw [List.length_cons] at enough
          have later := inductionHypothesis rest (by omega : list.length < fuel)
          simp [readString, first, visible, later, Result.ok_bind]

/-- The path of an entry stands behind the leading `./` that the code skips. -/
theorem Archive.HasItem.path (has : a.HasItem off item) :
    HoldsText '\x00' (fun j => a.char (a.skipped (off + sizeofCpioHeader) + j)) item.path := by
  have text := has.name
  unfold Archive.skipped CpioItem.path
  generalize item.name = name at text
  by_cases skips : a.char (off + sizeofCpioHeader) = '.' ∧ a.char (off + sizeofCpioHeader + 1) = '/'
  · rw [if_pos skips]
    obtain ⟨dot, slash⟩ := skips
    cases name with
    | nil =>
        have ends : a.char (off + sizeofCpioHeader) = '\x00' := (HoldsText.nil_iff _).mp text
        rw [dot] at ends
        exact absurd ends (by decide)
    | cons c list =>
        obtain ⟨first, _, rest⟩ := a.text_cons text
        cases list with
        | nil =>
            have ends : a.char (off + sizeofCpioHeader + 1) = '\x00' := (HoldsText.nil_iff _).mp rest
            rw [slash] at ends
            exact absurd ends (by decide)
        | cons d list =>
            obtain ⟨second, _, rest'⟩ := a.text_cons rest
            rw [dot] at first
            rw [slash] at second
            rw [← first, ← second]
            exact rest'
  · rw [if_neg skips]
    split
    · obtain ⟨dot, _, rest⟩ := a.text_cons text
      exact absurd ⟨dot, (a.text_cons rest).1⟩ skips
    · exact text

/-- The calls for an entry are those for its path. -/
theorem cpioPath_value {v : Vfs} {nameEnd mode filesize dataOff : Nat} {outcome : CpioOutcome}
    (text : HoldsText '\x00' (fun j => a.char (i + j)) list) (small : list.length < 2 ^ 64) :
    (cpioPath a v nameEnd i mode filesize dataOff outcome).result =
      if list = [] ∨ list = ['.'] then .ok v else cpioUnpack a v list mode filesize dataOff outcome := by
  have constant : '\x00' ∉ ['.'] := by decide
  have dot := a.equals_iff text constant
  have nothing : a.char i = '\x00' ↔ list = [] := by
    cases list with
    | nil => exact iff_of_true ((HoldsText.nil_iff _).mp text) rfl
    | cons c list =>
        obtain ⟨first, visible, _⟩ := a.text_cons text
        rw [first]
        exact iff_of_false visible (List.cons_ne_nil c list)
  simp only [cpioPath, Logged.result_bind, Logged.result_ite, Logged.result_pure, Logged.result_lift, readName_value,
    strEquals_value a _ _ constant, readString_value text small, Result.ok_bind]
  by_cases empty : list = []
  · rw [if_pos (nothing.mpr empty), if_pos (Or.inl empty)]
  · rw [if_neg fun ends => empty (nothing.mp ends)]
    by_cases isDot : list = ['.']
    · rw [if_pos (dot.mpr isDot), if_pos (Or.inr isDot)]
    · rw [if_neg fun same => isDot (dot.mp same), if_neg]
      rintro (isEmpty | isSame)
      · exact empty isEmpty
      · exact isDot isSame

theorem path_length (item : CpioItem) : item.path.length ≤ item.name.length := by
  unfold CpioItem.path
  split
  · rename_i rest isName
    rw [isName, List.length_cons, List.length_cons]
    omega
  · exact Nat.le_refl _

theorem bytes_length (item : CpioItem) : item.bytes.length = ((padded item.front).length + item.data.length + 3) / 4 * 4 := by
  rw [CpioItem.bytes, padded_length, List.length_append]

/-- The offsets that the code computes are those of the contents and of the next entry. -/
theorem Archive.HasItem.offsets (has : a.HasItem off item) (ok : item.Ok) (aligned : off % 4 = 0) (small : off < 2 ^ 63) :
    align4 (wrap64 (off + sizeofCpioHeader + (item.name.length + 1))) = off + (padded item.front).length ∧
      a.nextOff off = off + item.bytes.length := by
  have name := ok.name
  have data := ok.data
  have front : (padded item.front).length = (sizeofCpioHeader + (item.name.length + 1) + 3) / 4 * 4 := by
    rw [padded_length, front_length]
  have atData : align4 (wrap64 (off + sizeofCpioHeader + (item.name.length + 1))) = off + (padded item.front).length := by
    rw [front, align4_of_small (by unfold sizeofCpioHeader; omega)]
    unfold sizeofCpioHeader
    omega
  refine ⟨atData, ?_⟩
  rw [Archive.nextOff, has.namesize, has.filesize, atData, bytes_length, align4_of_small]
  · omega
  · rw [front]
    unfold sizeofCpioHeader
    omega

section
variable {v : Vfs} {outcome : CpioOutcome}

/-- The body of the loop unpacks an entry and goes on behind it. -/
theorem Archive.HasItem.entry (has : a.HasItem off item) (ok : item.Ok) (notTrailer : item.name ≠ cpioTrailer)
    (aligned : off % 4 = 0) (room : off + item.bytes.length ≤ a.size) (small : a.size < 2 ^ 63) :
    (cpioEntry a v off outcome).result =
      item.unpack a off v outcome >>= fun v => .ok (some (off + item.bytes.length, v)) := by
  have constant : '\x00' ∉ cpioTrailer := by decide
  obtain ⟨atData, atNext⟩ := has.offsets ok aligned (by omega)
  have short : item.path.length < 2 ^ 64 := by
    have path := path_length item
    have name := ok.name
    omega
  have different : ¬a.equals (off + sizeofCpioHeader) cpioTrailer = true :=
    fun same => notTrailer ((a.equals_iff has.name constant).mp same)
  rw [cpioEntry_value, has.magic, if_neg (by decide), if_neg different, atNext, if_neg (by omega), has.namesize, has.mode,
    has.filesize, atData, cpioPath_value has.path short]
  rfl

/-- The loop ends at the trailer. -/
theorem Archive.HasItem.trailer (has : a.HasItem off item) (isTrailer : item.name = cpioTrailer) :
    (cpioEntry a v off outcome).result = .ok none := by
  have constant : '\x00' ∉ cpioTrailer := by decide
  rw [cpioEntry_value, has.magic, if_neg (by decide), if_pos ((a.equals_iff has.name constant).mpr isTrailer)]

end

/-- The entries of an archive can be written, and only the last one is a trailer. -/
structure CpioOk (items : List CpioItem) (trailer : CpioItem) : Prop where
  entries : ∀ item ∈ items, item.Ok ∧ item.name ≠ cpioTrailer
  last : trailer.Ok
  ends : trailer.name = cpioTrailer

/-- An entry at the beginning of the archive. -/
theorem Archive.Begins.first {items : List CpioItem} (begins : a.Begins off (item :: items)) :
    Shows (fun i => a.data (off + i)) item.front ∧ Shows (fun i => a.data (off + ((padded item.front).length + i))) item.data ∧
      a.Begins (off + item.bytes.length) items := by
  unfold Archive.Begins at begins
  rw [List.flatMap_cons] at begins
  have here := begins.left
  refine ⟨?_, ?_, ?_⟩
  · exact here.left.left.left
  · exact here.left.behind
  · have rest := begins.behind
    intro i byte atIndex
    change a.data (off + item.bytes.length + i) = byte
    rw [Nat.add_assoc]
    exact rest i byte atIndex

theorem CpioItem.header_le (item : CpioItem) : sizeofCpioHeader ≤ item.bytes.length := by
  rw [bytes_length, padded_length, front_length]
  omega

theorem header_le (items : List CpioItem) (trailer : CpioItem) :
    sizeofCpioHeader ≤ ((items ++ [trailer]).flatMap CpioItem.bytes).length := by
  have own := trailer.header_le
  rw [List.flatMap_append, List.length_append, List.flatMap_singleton]
  omega

/-- The loop unpacks the entries up to the trailer. -/
theorem cpioLoop_items {outcomes : Nat → CpioOutcome} {fuel : Nat} {items : List CpioItem} {trailer : CpioItem} {v : Vfs}
    (ok : CpioOk items trailer) (begins : a.Begins off (items ++ [trailer])) (aligned : off % 4 = 0)
    (room : off + ((items ++ [trailer]).flatMap CpioItem.bytes).length ≤ a.size) (small : a.size < 2 ^ 63)
    (enough : a.size < off + fuel) :
    (cpioLoop a outcomes fuel i off v).result = unpackItems a outcomes i off items v := by
  induction items generalizing i off fuel v with
  | nil =>
      obtain ⟨front, _, _⟩ := begins.first
      have has := Archive.hasItem ok.last front
      have length : ([] ++ [trailer]).flatMap CpioItem.bytes = trailer.bytes := List.flatMap_singleton _ _
      rw [length] at room
      have header := trailer.header_le
      cases fuel with
      | zero => omega
      | succ fuel =>
          have noWrap : wrap64 (off + sizeofCpioHeader) = off + sizeofCpioHeader := Nat.mod_eq_of_lt (by omega)
          rw [cpioLoop, noWrap, if_pos (by omega), Logged.result_bind, has.trailer ok.ends]
          rfl
  | cons item items inductionHypothesis =>
      obtain ⟨front, _, rest⟩ := begins.first
      obtain ⟨itemOk, notTrailer⟩ := ok.entries item List.mem_cons_self
      have has := Archive.hasItem itemOk front
      have length : ((item :: items ++ [trailer]).flatMap CpioItem.bytes).length =
          item.bytes.length + ((items ++ [trailer]).flatMap CpioItem.bytes).length := by
        rw [List.cons_append, List.flatMap_cons, List.length_append]
      rw [length] at room
      have header := item.header_le
      have positive : 0 < sizeofCpioHeader := by decide
      have aligned' : (off + item.bytes.length) % 4 = 0 := by
        rw [bytes_length]
        omega
      cases fuel with
      | zero => omega
      | succ fuel =>
          have noWrap : wrap64 (off + sizeofCpioHeader) = off + sizeofCpioHeader := Nat.mod_eq_of_lt (by omega)
          rw [cpioLoop, noWrap, if_pos (by omega), Logged.result_bind,
            has.entry itemOk notTrailer aligned (by omega) small, unpackItems]
          cases unpacked : item.unpack a off v (outcomes i) with
          | error halt => rfl
          | ok v' =>
              apply inductionHypothesis ⟨fun item' member => ok.entries item' (List.mem_cons_of_mem item member), ok.last, ok.ends⟩
                rest aligned'
              · omega
              · omega

/-- The extraction of an archive makes the calls for its entries in their order and stops at the trailer. -/
theorem cpio_round_trip (items : List CpioItem) (trailer : CpioItem) (ok : CpioOk items trailer) (mapped : a.base ≠ 0)
    (begins : a.Begins 0 (items ++ [trailer])) (room : ((items ++ [trailer]).flatMap CpioItem.bytes).length ≤ a.size)
    (small : a.size < 2 ^ 63) (v : Vfs) (outcomes : Nat → CpioOutcome) :
    (cpioExtract a v outcomes).result = unpackItems a outcomes 0 0 items v := by
  have header := header_le items trailer
  rw [cpioExtract, if_neg (by omega)]
  exact cpioLoop_items ok begins rfl (by omega) small (by omega)

end

/-- An archive of a list of bytes. -/
def Archive.ofBytes (base : Nat) (bytes : List (BitVec 8)) : Archive := ⟨base, bytes.length, fun i => bytes.getD i 0⟩

theorem Archive.ofBytes_begins (base : Nat) (items : List CpioItem) :
    (Archive.ofBytes base (items.flatMap CpioItem.bytes)).Begins 0 items := by
  intro i byte atIndex
  change (items.flatMap CpioItem.bytes).getD (0 + i) 0 = byte
  rw [Nat.zero_add, List.getD_eq_getElem?_getD, atIndex]
  rfl

/-- A file with a leading `./` in its name. -/
def firstItem : CpioItem := ⟨false, ['.', '/', 'a'], 0x81A4, [1, 2, 3], fun _ => 0⟩

def lastItem : CpioItem := ⟨true, cpioTrailer, 0, [], fun _ => 0⟩

/-- The characters of a name can be checked one by one. -/
theorem chars_of_all {name : List Char} (all : name.all (fun c => decide (c.toNat < 256 ∧ c ≠ '\x00')) = true) :
    ∀ c ∈ name, c.toNat < 256 ∧ c ≠ '\x00' := by
  intro c member
  exact of_decide_eq_true (List.all_eq_true.mp all c member)

theorem firstItems_ok : CpioOk [firstItem] lastItem := by
  refine ⟨?_, ⟨chars_of_all (by decide), by decide, by decide, by decide⟩, rfl⟩
  intro item member
  rw [List.mem_singleton.mp member]
  exact ⟨⟨chars_of_all (by decide), by decide, by decide, by decide⟩, by decide⟩

def firstArchive : Archive := Archive.ofBytes 0x1000 (([firstItem] ++ [lastItem]).flatMap CpioItem.bytes)

theorem firstArchive_begins : firstArchive.Begins 0 ([firstItem] ++ [lastItem]) := Archive.ofBytes_begins _ _

theorem cpio_round_trip_first :
    (cpioExtract firstArchive (Vfs.boot (fun _ => 0) ⟨0x1000, 16⟩) fun _ => ⟨[], none⟩).result =
      unpackItems firstArchive (fun _ => ⟨[], none⟩) 0 0 [firstItem] (Vfs.boot (fun _ => 0) ⟨0x1000, 16⟩) :=
  cpio_round_trip [firstItem] lastItem firstItems_ok (by decide) firstArchive_begins (Nat.le_refl _) (by decide +kernel) _ _

end DoccrOS.Packages
