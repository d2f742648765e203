import DoccrOS.Construction.Packages.Cpio
import DoccrOS.Proof.Fs.FileRuns

namespace DoccrOS.Packages
open Lib Fs

/-- The header at an offset has a good magic number. -/
def Archive.goodMagic (a : Archive) (m : Nat) : Bool :=
  a.char m = '0' && a.char (m + 1) = '7' && a.char (m + 2) = '0' && a.char (m + 3) = '7' && a.char (m + 4) = '0' &&
    (a.char (m + 5) = '1' || a.char (m + 5) = '2')

/-- The string at an offset is the constant. -/
def Archive.equals (a : Archive) : (s1 : Nat) → (s2 : List Char) → Bool
  | s1, [] => a.char s1 = '\x00'
  | s1, d :: s2 => a.char s1 = d && a.equals (s1 + 1) s2

/-- The number of characters that a comparison with a constant looks at. -/
def Archive.compared (a : Archive) : (s1 : Nat) → (s2 : List Char) → Nat
  | _, [] => 1
  | s1, d :: s2 => if a.char s1 = d then a.compared (s1 + 1) s2 + 1 else 1

/-- The string at an offset has its final zero before the end of the name. -/
def Archive.Ends (a : Archive) (nameEnd i : Nat) : Prop := ∃ k, i ≤ k ∧ k < nameEnd ∧ a.char k = '\x00'

section
variable {a : Archive} {m i fuel nameEnd s1 : Nat} {s2 : List Char}

theorem readHeader_only (inside : i < a.size) : (a.readHeader i).Only (CpioRead.Inside a.size) := by
  rw [Archive.readHeader, Logged.only_access, List.forall_mem_singleton]
  exact inside

theorem readHex_only (inside : i + 8 ≤ a.size) : (a.readHex i).Only (CpioRead.Inside a.size) := by
  rw [Archive.readHex, Logged.only_access]
  intro entry member
  obtain ⟨k, small, rfl⟩ := List.mem_map.mp member
  have below := List.mem_range.mp small
  exact Nat.lt_of_lt_of_le (Nat.add_lt_add_left below i) inside

/-- A read of a name and the rest of the computation. -/
theorem readName_only {A : Type} {next : Char → CpioReads A} :
    (a.readName nameEnd i >>= next).Only (CpioRead.Inside a.size) ↔
      (i < a.size ∧ i < nameEnd) ∧ (next (a.char i)).Only (CpioRead.Inside a.size) := by
  rw [Archive.readName, Logged.only_bind_value Logged.result_access, Logged.only_access, List.forall_mem_singleton]
  rfl

@[simp] theorem readHeader_value (a : Archive) (i : Nat) : (a.readHeader i).result = .ok (a.char i) := rfl

@[simp] theorem readHex_value (a : Archive) (i : Nat) : (a.readHex i).result = .ok (a.hex i) := rfl

@[simp] theorem readName_value (a : Archive) (nameEnd i : Nat) : (a.readName nameEnd i).result = .ok (a.char i) := rfl

theorem magicOk_only (inside : m + sizeofCpioHeader ≤ a.size) : (magicOk a m).Only (CpioRead.Inside a.size) := by
  unfold sizeofCpioHeader at inside
  unfold magicOk
  refine (readHeader_only (by omega)).guard fun _ => (readHeader_only (by omega)).guard fun _ =>
    (readHeader_only (by omega)).guard fun _ => (readHeader_only (by omega)).guard fun _ =>
    (readHeader_only (by omega)).guard fun _ => (readHeader_only (by omega)).bind fun _ => Logged.only_pure

theorem magicOk_value (a : Archive) (m : Nat) : (magicOk a m).result = .ok (a.goodMagic m) := by
  unfold magicOk Archive.goodMagic
  simp only [Logged.result_bind, Logged.result_ite, readHeader_value, Result.ok_bind, Logged.result_pure]
  split_ifs <;> simp_all

theorem strEquals_value (a : Archive) (nameEnd s1 : Nat) (constant : '\x00' ∉ s2) :
    (strEquals a nameEnd s1 s2).result = .ok (a.equals s1 s2) := by
  induction s2 generalizing s1 with
  | nil => rfl
  | cons d s2 ih =>
      rw [List.mem_cons, not_or] at constant
      simp only [strEquals, Logged.result_bind, Logged.result_ite, readName_value, Result.ok_bind, Logged.result_pure,
        Archive.equals, ih (s1 + 1) constant.2]
      by_cases zero : a.char s1 = '\x00'
      · rw [if_pos zero, zero, decide_eq_false constant.1, Bool.false_and]
      · rw [if_neg zero]
        by_cases same : a.char s1 = d
        · rw [if_neg (not_not_intro same), decide_eq_true same, Bool.true_and]
        · rw [if_pos same, decide_eq_false same, Bool.false_and]

/-- A comparison reads inside the archive and the name exactly when the characters that it looks at are inside. -/
theorem strEquals_only (constant : '\x00' ∉ s2) : (strEquals a nameEnd s1 s2).Only (CpioRead.Inside a.size) ↔
    s1 + a.compared s1 s2 ≤ min a.size nameEnd := by
  induction s2 generalizing s1 with
  | nil =>
      rw [strEquals, readName_only, Archive.compared, Nat.le_min]
      exact and_iff_left Logged.only_pure
  | cons d s2 ih =>
      rw [List.mem_cons, not_or] at constant
      rw [strEquals, readName_only, Archive.compared, Logged.only_ite, Logged.only_ite, ih constant.2]
      by_cases same : a.char s1 = d
      · have other : d ≠ '\x00' := Ne.symm constant.1
        simp only [same, other, if_true, false_implies, true_and, not_true_eq_false, not_false_eq_true, true_implies, ne_eq]
        omega
      · simp only [same, if_false, ne_eq, not_false_eq_true, Logged.only_pure, not_true_eq_false, false_implies,
          implies_true, and_true, Nat.le_min]
        rfl

/-- A string is read inside the archive and the name exactly when it ends inside both. -/
theorem readString_only (start : i ≤ nameEnd) (enough : nameEnd < i + fuel) (inside : nameEnd ≤ a.size) :
    (readString a nameEnd fuel i).Only (CpioRead.Inside a.size) ↔ a.Ends nameEnd i := by
  induction fuel generalizing i with
  | zero => omega
  | succ fuel ih =>
      rw [readString, readName_only, Logged.only_ite]
      by_cases zero : a.char i = '\x00'
      · simp only [zero, true_implies, Logged.only_pure, not_true_eq_false, false_implies, and_true]
        constructor
        · exact fun here => ⟨i, Nat.le_refl _, here.2, zero⟩
        · rintro ⟨k, least, most, _⟩
          omega
      · simp only [zero, false_implies, not_false_eq_true, true_implies, true_and]
        constructor
        · rintro ⟨⟨_, below⟩, rest⟩
          obtain ⟨k, least, most, ends⟩ := (ih (by omega) (by omega)).mp (Logged.only_bind.mp rest).1
          exact ⟨k, by omega, most, ends⟩
        · rintro ⟨k, least, most, ends⟩
          have later : k ≠ i := by
            rintro rfl
            exact zero ends
          refine ⟨by omega, ((ih (by omega) (by omega)).mpr ⟨k, by omega, most, ends⟩).bind fun _ => Logged.only_pure⟩

/-- The offset of the name behind a leading `./`. -/
def Archive.skipped (a : Archive) (name : Nat) : Nat :=
  if a.char name = '.' ∧ a.char (name + 1) = '/' then name + 2 else name

theorem skipDotSlash_value (a : Archive) (nameEnd name : Nat) :
    (skipDotSlash a nameEnd name).result = .ok (a.skipped name) := by
  unfold skipDotSlash Archive.skipped
  simp only [Logged.result_bind, Logged.result_ite, readName_value, Result.ok_bind, Logged.result_pure]
  split_ifs <;> simp_all

theorem Archive.Ends.below (ends : a.Ends nameEnd i) : i < nameEnd := by
  obtain ⟨k, least, most, _⟩ := ends
  omega

theorem Archive.ends_succ (other : a.char i ≠ '\x00') : a.Ends nameEnd i ↔ a.Ends nameEnd (i + 1) := by
  constructor
  · rintro ⟨k, least, most, ends⟩
    have later : k ≠ i := by
      rintro rfl
      exact other ends
    exact ⟨k, by omega, most, ends⟩
  · rintro ⟨k, least, most, ends⟩
    exact ⟨k, by omega, most, ends⟩

section
variable {v : Vfs} {name mode filesize dataOff : Nat} {outcome : CpioOutcome}

/-- The path of an entry is read inside the bytes of the name exactly when it ends inside them. -/
theorem cpioPath_only (start : name ≤ nameEnd) (inside : nameEnd ≤ a.size) (small : nameEnd < 2 ^ 64) :
    (cpioPath a v nameEnd name mode filesize dataOff outcome).Only (CpioRead.Inside a.size) ↔ a.Ends nameEnd name := by
  have constant : '\x00' ∉ ['.'] := by decide
  have whole := @readString_only a name (2 ^ 64) nameEnd start (by omega) inside
  rw [cpioPath, readName_only, Logged.only_ite]
  by_cases zero : a.char name = '\x00'
  · simp only [zero, true_implies, Logged.only_pure, not_true_eq_false, false_implies, and_true]
    constructor
    · exact fun here => ⟨name, Nat.le_refl _, here.2, zero⟩
    · intro ends
      have below := ends.below
      omega
  · simp only [zero, false_implies, not_false_eq_true, true_implies, true_and]
    rw [Logged.only_bind, strEquals_only constant]
    constructor
    · rintro ⟨_, compares, rest⟩
      cases dot : a.equals name ['.'] with
      | true =>
          simp only [Archive.equals, Bool.and_eq_true, decide_eq_true_eq] at dot
          rw [Archive.compared, if_pos dot.1, Archive.compared] at compares
          exact ⟨name + 1, by omega, by omega, dot.2⟩
      | false =>
          have read := rest false ((strEquals_value a nameEnd name constant).trans (congrArg _ dot))
          exact whole.mp (Logged.only_bind.mp ((Logged.only_ite.mp read).2 (by rintro ⟨⟩))).1
    · intro ends
      have below := ends.below
      refine ⟨by omega, ?_, fun equal _ => ?_⟩
      · rw [Archive.compared, Archive.compared]
        by_cases dot : a.char name = '.'
        · have next := ((Archive.ends_succ zero).mp ends).below
          rw [if_pos dot]
          omega
        · rw [if_neg dot]
          omega
      · exact Logged.only_ite.mpr ⟨fun _ => Logged.only_pure, fun _ => (whole.mpr ends).bind fun _ => Logged.only_lift⟩

/-- A leading `./` is read inside the bytes of the name exactly when the name goes on behind what is read. -/
theorem skipDotSlash_only : (skipDotSlash a nameEnd name).Only (CpioRead.Inside a.size) ↔
    (name < a.size ∧ name < nameEnd) ∧ (a.char name = '.' → name + 1 < a.size ∧ name + 1 < nameEnd) := by
  rw [skipDotSlash, readName_only, Logged.only_ite, readName_only]
  simp only [ne_eq, Logged.only_pure, implies_true, true_and, not_not, Logged.only_ite, and_true]

/-- The name of an entry is read inside its bytes exactly when it ends inside them. -/
theorem cpioName_only {A : Type} (unpacked : Vfs → A) (start : name ≤ nameEnd) (inside : nameEnd ≤ a.size)
    (small : nameEnd < 2 ^ 64) :
    (skipDotSlash a nameEnd name >>= fun path => cpioPath a v nameEnd path mode filesize dataOff outcome >>= fun v =>
      pure (unpacked v)).Only (CpioRead.Inside a.size) ↔ a.Ends nameEnd name := by
  rw [Logged.only_bind_value (skipDotSlash_value a nameEnd name), skipDotSlash_only, Logged.only_bind,
    and_iff_left fun _ _ => Logged.only_pure]
  unfold Archive.skipped
  by_cases dot : a.char name = '.'
  · have notZero : a.char name ≠ '\x00' := by
      rw [dot]
      decide
    by_cases slash : a.char (name + 1) = '/'
    · have alsoNot : a.char (name + 1) ≠ '\x00' := by
        rw [slash]
        decide
      rw [if_pos ⟨dot, slash⟩, Archive.ends_succ notZero, Archive.ends_succ alsoNot]
      constructor
      · rintro ⟨⟨_, more⟩, rest⟩
        have room := (more dot).2
        exact (cpioPath_only room inside small).mp rest
      · intro ends
        have below := ends.below
        exact ⟨⟨by omega, fun _ => by omega⟩, (cpioPath_only (by omega) inside small).mpr ends⟩
    · rw [if_neg fun both => slash both.2, cpioPath_only start inside small]
      refine and_iff_right_of_imp fun ends => ?_
      have below := ((Archive.ends_succ notZero).mp ends).below
      exact ⟨by omega, fun _ => by omega⟩
  · rw [if_neg fun both => dot both.1, cpioPath_only start inside small]
    refine and_iff_right_of_imp fun ends => ?_
    have below := ends.below
    exact ⟨by omega, fun isDot => absurd isDot dot⟩

theorem hexDigit_lt (c : Char) : hexDigit c < 16 := by
  have most {d : Char} (below : c ≤ d) : c.toNat ≤ d.toNat := UInt32.le_iff_toNat_le.mp below
  have nine : '9'.toNat = '0'.toNat + 9 := rfl
  have lower : 'f'.toNat = 'a'.toNat + 5 := rfl
  have upper : 'F'.toNat = 'A'.toNat + 5 := rfl
  unfold hexDigit
  split_ifs with digit letter capital
  · have below := most digit.2
    omega
  · have below := most letter.2
    omega
  · have below := most capital.2
    omega
  · decide

/-- A field has 32 bits. -/
theorem hexVal_lt {val : Nat} (s : List Char) (small : val < 2 ^ 32) : hexVal val s < 2 ^ 32 := by
  induction s generalizing val with
  | nil => exact small
  | cons c s ih =>
      apply ih
      have digit := hexDigit_lt c
      omega

theorem hex_lt (a : Archive) (i : Nat) : a.hex i < 2 ^ 32 := hexVal_lt _ (by decide)

/-- The offset behind the entry at an offset. -/
def Archive.nextOff (a : Archive) (off : Nat) : Nat :=
  align4 (wrap64 (align4 (wrap64 (off + sizeofCpioHeader + a.hex (off + 94))) + a.hex (off + 54)))

theorem align4_of_small {x : Nat} (small : x < 2 ^ 63 + 2 ^ 60) : align4 (wrap64 x) = (x + 3) / 4 * 4 := by
  unfold align4 wrap64
  rw [Nat.mod_eq_of_lt (by omega : x < 2 ^ 64), Nat.mod_eq_of_lt (by omega)]

theorem nextOff_ge {off : Nat} (small : off < 2 ^ 63) : off + sizeofCpioHeader + a.hex (off + 94) ≤ a.nextOff off := by
  have namesize := hex_lt a (off + 94)
  have filesize := hex_lt a (off + 54)
  unfold Archive.nextOff sizeofCpioHeader
  rw [@align4_of_small (off + 110 + a.hex (off + 94)) (by omega), align4_of_small (by omega)]
  omega

/-- The comparison with the trailer stays inside the archive and the name, and a name that is used has its final zero in its
bytes. -/
structure EntryFits (a : Archive) (off : Nat) : Prop where
  trailer : off + sizeofCpioHeader + a.compared (off + sizeofCpioHeader) cpioTrailer ≤
    min a.size (off + sizeofCpioHeader + a.hex (off + 94))
  name : a.equals (off + sizeofCpioHeader) cpioTrailer = false → a.nextOff off ≤ a.size →
    a.Ends (off + sizeofCpioHeader + a.hex (off + 94)) (off + sizeofCpioHeader)

/-- The reads for an entry stay inside exactly when its magic number is bad or the entry fits. -/
theorem cpioEntry_only {off : Nat} (room : off + sizeofCpioHeader ≤ a.size) (small : a.size < 2 ^ 63) :
    (cpioEntry a v off outcome).Only (CpioRead.Inside a.size) ↔ (a.goodMagic off = true → EntryFits a off) := by
  have constant : '\x00' ∉ cpioTrailer := by decide
  have magic := @magicOk_only a off room
  have header {i : Nat} (below : i + 8 ≤ sizeofCpioHeader) : (a.readHex (off + i)).Only (CpioRead.Inside a.size) := by
    apply readHex_only
    omega
  unfold cpioEntry
  rw [Logged.only_bind_value (magicOk_value a off), and_iff_right magic]
  cases good : a.goodMagic off with
  | false => exact iff_of_true Logged.only_pure nofun
  | true =>
      simp only [Bool.not_true, Bool.false_eq_true, if_false, true_implies]
      rw [Logged.only_bind_value (readHex_value a _), and_iff_right (header (by decide)),
        Logged.only_bind_value (readHex_value a _), and_iff_right (header (by decide)),
        Logged.only_bind_value (readHex_value a _), and_iff_right (header (by decide)),
        Logged.only_bind_value (strEquals_value a _ _ constant), strEquals_only constant,
        Logged.only_ite, Logged.only_ite]
      have used (fits : a.nextOff off ≤ a.size) := by
        have more := @nextOff_ge a off (by omega)
        exact @cpioName_only a (off + sizeofCpioHeader + a.hex (off + 94)) v (off + sizeofCpioHeader) (a.hex (off + 14))
          (a.hex (off + 54)) (align4 (wrap64 (off + sizeofCpioHeader + a.hex (off + 94)))) outcome _
          (fun v => some (a.nextOff off, v)) (Nat.le_add_right _ _) (more.trans fits) (by omega)
      constructor
      · rintro ⟨compares, rest⟩
        refine ⟨compares, fun other fits => (used fits).mp ?_⟩
        exact (rest.2 (by rw [other]; exact Bool.false_ne_true)).2 (Nat.not_lt.mpr fits)
      · rintro ⟨compares, rest⟩
        refine ⟨compares, fun _ => Logged.only_pure, fun other => ⟨fun _ => Logged.only_pure, fun fits => ?_⟩⟩
        exact (used (Nat.not_lt.mp fits)).mpr (rest (Bool.not_eq_true _ ▸ other) (Nat.not_lt.mp fits))

/-- The entry at the offset `target` is reached from the entry `i` at an offset. -/
inductive CpioReaches (a : Archive) (outcomes : Nat → CpioOutcome) : (i off : Nat) → Vfs → (target : Nat) → Prop
  | here (i off : Nat) (v : Vfs) : CpioReaches a outcomes i off v off
  | next {i off target after : Nat} {v v' : Vfs} (room : off + sizeofCpioHeader ≤ a.size)
    (unpacked : (cpioEntry a v off (outcomes i)).result = .ok (some (after, v')))
    (rest : CpioReaches a outcomes (i + 1) after v' target) : CpioReaches a outcomes i off v target

/-- The result of the body of the loop. -/
theorem cpioEntry_value (a : Archive) (v : Vfs) (off : Nat) (outcome : CpioOutcome) :
    (cpioEntry a v off outcome).result =
      if !a.goodMagic off then .ok none
      else if a.equals (off + sizeofCpioHeader) cpioTrailer then .ok none
      else if a.nextOff off > a.size then .ok none
      else (cpioPath a v (off + sizeofCpioHeader + a.hex (off + 94)) (a.skipped (off + sizeofCpioHeader)) (a.hex (off + 14))
        (a.hex (off + 54)) (align4 (wrap64 (off + sizeofCpioHeader + a.hex (off + 94)))) outcome).result >>= fun v =>
          .ok (some (a.nextOff off, v)) := by
  have constant : '\x00' ∉ cpioTrailer := by decide
  simp only [cpioEntry, Logged.result_bind, Logged.result_ite, Logged.result_pure, magicOk_value, readHex_value,
    strEquals_value a _ _ constant, skipDotSlash_value, Result.ok_bind]
  rfl

/-- An entry that is unpacked lies in the archive and is followed by the next one. -/
theorem cpioEntry_next {off after : Nat} {v' : Vfs} (small : off < 2 ^ 63)
    (unpacked : (cpioEntry a v off outcome).result = .ok (some (after, v'))) : off < after ∧ after ≤ a.size := by
  rw [cpioEntry_value] at unpacked
  have header : 0 < sizeofCpioHeader := by decide
  have more := @nextOff_ge a off small
  split_ifs at unpacked with magic trailer beyond
  · cases unpacked
  · cases unpacked
  · cases unpacked
  · obtain ⟨v'', _, same⟩ := Result.bind_ok unpacked
    cases same
    omega

/-- The reads of the loop stay inside exactly when every reached entry with a good magic number fits. -/
theorem cpioLoop_only {outcomes : Nat → CpioOutcome} {fuel i off : Nat} {v : Vfs} (below : off ≤ a.size)
    (enough : a.size < off + fuel) (small : a.size < 2 ^ 63) :
    (cpioLoop a outcomes fuel i off v).Only (CpioRead.Inside a.size) ↔ ∀ target, CpioReaches a outcomes i off v target →
      target + sizeofCpioHeader ≤ a.size → a.goodMagic target = true → EntryFits a target := by
  induction fuel generalizing i off v with
  | zero => omega
  | succ fuel ih =>
      have noWrap : wrap64 (off + sizeofCpioHeader) = off + sizeofCpioHeader := by
        unfold sizeofCpioHeader
        exact Nat.mod_eq_of_lt (by omega)
      rw [cpioLoop, noWrap, Logged.only_ite]
      constructor
      · rintro ⟨only, _⟩ target reaches room good
        cases reaches with
        | here => exact (cpioEntry_only room small).mp (Logged.only_bind.mp (only room)).1 good
        | next first unpacked rest =>
            obtain ⟨later, inside⟩ := cpioEntry_next (by omega) unpacked
            have following := (Logged.only_bind.mp (only first)).2 _ unpacked
            exact (ih inside (by omega)).mp following target rest room good
      · intro fits
        refine ⟨fun room => ?_, fun _ => Logged.only_pure⟩
        have here := (@cpioEntry_only a v (outcomes i) off room small).mpr (fits off (.here i off v) room)
        refine Logged.only_bind.mpr ⟨here, fun result unpacked => ?_⟩
        cases result with
        | none => exact Logged.only_pure
        | some next =>
            obtain ⟨after, v'⟩ := next
            obtain ⟨later, inside⟩ := cpioEntry_next (by omega) unpacked
            exact (ih inside (by omega)).mpr fun target reaches => fits target (.next room unpacked reaches)

/-- The extraction reads only the archive, and a name only in its bytes, exactly when every reached entry with a good magic
number fits. -/
theorem cpio_reads_archive (v : Vfs) (outcomes : Nat → CpioOutcome) (small : a.size < 2 ^ 63) :
    (cpioExtract a v outcomes).Only (CpioRead.Inside a.size) ↔ a.base = 0 ∨ ∀ target, CpioReaches a outcomes 0 0 v target →
      target + sizeofCpioHeader ≤ a.size → a.goodMagic target = true → EntryFits a target := by
  unfold cpioExtract
  rw [Logged.only_ite]
  by_cases null : a.base = 0
  · exact iff_of_true ⟨fun _ => Logged.only_pure, fun used => absurd (Or.inl null) used⟩ (Or.inl null)
  · rw [or_iff_right null, or_iff_right null, ← @cpioLoop_only a outcomes (a.size + 1) 0 0 v (Nat.zero_le _) (by omega) small]
    refine ⟨fun only => ?_, fun only => ⟨fun _ => Logged.only_pure, fun _ => only⟩⟩
    by_cases short : a.size < sizeofCpioHeader
    · have noWrap : wrap64 (0 + sizeofCpioHeader) = sizeofCpioHeader := by decide
      rw [cpioLoop, noWrap, if_neg (Nat.not_le.mpr short)]
      exact Logged.only_pure
    · exact only.2 short

end

end

/-- The trailer of an archive: its header, its name and the padding. -/
def trailerEntry (size : Nat) : Archive :=
  ⟨0x1000, size, fun i => BitVec.ofNat 8 ((("070701".toList ++ List.replicate 88 '0' ++ "0000000B00000000".toList ++ cpioTrailer
    ++ List.replicate 4 '\x00').getD i '\x00').toNat)⟩

/-- An archive of a trailer is read inside. -/
theorem cpio_reads_archive_trailer :
    (cpioExtract (trailerEntry 124) (Vfs.boot (fun _ => 0) ⟨0x1000, 124⟩) fun _ => ⟨[], none⟩).Only (CpioRead.Inside 124) := by
  refine (@cpio_reads_archive (trailerEntry 124) _ _ (by decide)).mpr (Or.inr fun target reaches _ _ => ?_)
  cases reaches with
  | here => exact ⟨by decide +kernel, fun other => absurd other (by decide +kernel)⟩
  | next room unpacked rest =>
      rw [cpioEntry_value, if_neg (by decide +kernel), if_pos (by decide +kernel)] at unpacked
      cases unpacked

/-- An archive that ends behind the header of its trailer is read beyond its end. -/
theorem cpio_reads_outside : ¬∀ (a : Archive) (v : Vfs) (outcomes : Nat → CpioOutcome), a.size < 2 ^ 63 →
    (cpioExtract a v outcomes).Only (CpioRead.Inside a.size) := by
  intro claim
  have read : CpioRead.name 110 121 ∈
      (cpioExtract (trailerEntry 110) (Vfs.boot (fun _ => 0) ⟨0x1000, 110⟩) fun _ => ⟨[], none⟩).log := by
    decide +kernel
  exact absurd (claim _ _ _ (by decide) _ read).1 (Nat.lt_irrefl 110)

end DoccrOS.Packages
