import DoccrOS.Construction.Mem.PhysMem

namespace DoccrOS.Mem

/-- The bitmap test reads one bit of one byte. -/
theorem bitmapTest_eq (bitmap : Nat → BitVec 8) (idx : Nat) :
    bitmapTest bitmap idx = (bitmap (idx >>> 3)).getLsbD (idx % 8) := by
  rw [bitmapTest, BitVec.and_one_eq_setWidth_ofBool_getLsbD, BitVec.getLsbD_ushiftRight, Nat.add_zero]
  cases (bitmap (idx >>> 3)).getLsbD (idx % 8) <;> rfl

/-- Two frame numbers agree when their byte and bit numbers agree. -/
theorem bitPosition_inj {first second : Nat} (byte : first >>> 3 = second >>> 3) (bit : first % 8 = second % 8) :
    first = second := by
  simp only [Nat.shiftRight_eq_div_pow] at byte
  omega

/-- A set bit changes the test of its own frame only. -/
theorem bitmapTest_set (bitmap : Nat → BitVec 8) (idx query : Nat) :
    bitmapTest (bitmapSet bitmap idx) query = if query = idx then true else bitmapTest bitmap query := by
  have inByte : idx % 8 < 8 := Nat.mod_lt _ (by decide)
  rw [bitmapTest_eq, bitmapTest_eq, bitmapSet, ← BitVec.twoPow_eq]
  by_cases byte : query >>> 3 = idx >>> 3
  · rw [byte, Function.update_self, BitVec.getLsbD_or, BitVec.getLsbD_twoPow]
    by_cases bit : idx % 8 = query % 8
    · rw [bit] at inByte
      simp [bit, inByte, bitPosition_inj byte bit.symm]
    · have different : query ≠ idx := fun same => bit (by rw [same])
      simp [bit, different]
  · have different : query ≠ idx := fun same => byte (by rw [same])
    rw [Function.update_of_ne byte, if_neg different]

/-- A cleared bit changes the test of its own frame only. -/
theorem bitmapTest_clear (bitmap : Nat → BitVec 8) (idx query : Nat) :
    bitmapTest (bitmapClear bitmap idx) query = if query = idx then false else bitmapTest bitmap query := by
  have inByte : query % 8 < 8 := Nat.mod_lt _ (by decide)
  rw [bitmapTest_eq, bitmapTest_eq, bitmapClear, ← BitVec.twoPow_eq]
  by_cases byte : query >>> 3 = idx >>> 3
  · rw [byte, Function.update_self, BitVec.getLsbD_and, BitVec.getLsbD_not, BitVec.getLsbD_twoPow]
    by_cases bit : idx % 8 = query % 8
    · simp [bit, inByte, bitPosition_inj byte bit.symm]
    · have different : query ≠ idx := fun same => bit (by rw [same])
      simp [bit, inByte, different]
  · have different : query ≠ idx := fun same => byte (by rw [same])
    rw [Function.update_of_ne byte, if_neg different]

/-- The bitmap marks a frame as used. -/
def PhysMem.used (p : PhysMem) (frame : Nat) : Bool := bitmapTest p.bitmap frame

/-- A free frame lies in the tracked memory and has a clear bit. -/
def PhysMem.Free (p : PhysMem) (frame : Nat) : Prop := frame < p.total ∧ p.used frame = false

section
variable (p : PhysMem) (frame query : Nat) (value : Pageframe)

@[simp] theorem setFrame_used : (p.setFrame frame value).used query = p.used query := rfl
@[simp] theorem setFrame_total : (p.setFrame frame value).total = p.total := rfl
@[simp] theorem setFrame_pageframes : (p.setFrame frame value).pageframes query =
    if query = frame then value else p.pageframes query := by
  simp [PhysMem.setFrame, Function.update_apply]

@[simp] theorem markUsed_used : (p.markUsed frame).used query = if query = frame then true else p.used query :=
  bitmapTest_set p.bitmap frame query
@[simp] theorem markUsed_total : (p.markUsed frame).total = p.total := rfl
@[simp] theorem markUsed_pageframes : (p.markUsed frame).pageframes query =
    if query = frame then ⟨1, frameUsed⟩ else p.pageframes query := by
  simp [PhysMem.markUsed]

@[simp] theorem markFree_used : (p.markFree frame).used query = if query = frame then false else p.used query :=
  bitmapTest_clear p.bitmap frame query
@[simp] theorem markFree_total : (p.markFree frame).total = p.total := rfl
@[simp] theorem markFree_pageframes : (p.markFree frame).pageframes query =
    if query = frame then ⟨0, frameFree⟩ else p.pageframes query := by
  simp [PhysMem.markFree]

end

/-- One covered frame is the whole range. -/
theorem range_one (p : PhysMem) {frame : Nat} (inside : frame < p.total) :
    p.range (frame * pageSize) 1 = [frame] := by
  have fits := p.totalFits
  have start : frame * pageSize / pageSize = frame := Nat.mul_div_cancel frame (by decide)
  have wrapped : wrap64 (frame + 1) = frame + 1 := Nat.mod_eq_of_lt (by omega)
  simp only [PhysMem.range, start, wrapped]
  rw [if_neg (by omega), Nat.add_sub_cancel_left]
  rfl

/-- The scan for one frame returns the first free frame. -/
theorem physmemScan_one (p : PhysMem) (left frame startFrame : Nat) :
    match physmemScan p 1 left frame 0 startFrame with
    | some found => frame ≤ found ∧ found < frame + left ∧ p.used found = false
    | none => ∀ query, frame ≤ query → query < frame + left → p.used query = true := by
  induction left generalizing frame startFrame with
  | zero =>
      intro query above below
      omega
  | succ left ih =>
      rw [physmemScan]
      by_cases taken : bitmapTest p.bitmap frame = true
      · have rest := ih (frame + 1) startFrame
        simp only [taken, Bool.not_true, Bool.false_eq_true, if_false]
        cases found : physmemScan p 1 left (frame + 1) 0 startFrame with
        | some found' =>
            rw [found] at rest
            obtain ⟨above, below, free⟩ := rest
            exact ⟨by omega, by omega, free⟩
        | none =>
            rw [found] at rest
            intro query above below
            by_cases here : query = frame
            · rw [here]
              exact taken
            · exact rest query (by omega) (by omega)
      · have free : bitmapTest p.bitmap frame = false := by simpa using taken
        have here : frame ≤ frame ∧ frame < frame + (left + 1) ∧ p.used frame = false :=
          ⟨Nat.le_refl _, by omega, free⟩
        simpa [free] using here

/-- A one-frame allocation fails without a free frame, or marks one free frame other than frame `0`. -/
theorem physmemAllocTo_one (p : PhysMem) (zeroUsed : p.used 0 = true) :
    (physmemAllocTo p 1 = (0, p) ∧ ∀ frame, ¬p.Free frame) ∨
      ∃ frame, frame ≠ 0 ∧ p.Free frame ∧ physmemAllocTo p 1 = (frame * pageSize, p.markUsed frame) := by
  have scanned := physmemScan_one p p.total 0 0
  cases found : physmemScan p 1 p.total 0 0 0 with
  | none =>
      rw [found] at scanned
      left
      refine ⟨by simp [physmemAllocTo, found], ?_⟩
      intro frame free
      have taken := scanned frame (Nat.zero_le _) (by simpa using free.1)
      rw [free.2] at taken
      exact Bool.false_ne_true taken
  | some frame =>
      rw [found] at scanned
      obtain ⟨_, below, free⟩ := scanned
      rw [Nat.zero_add] at below
      right
      refine ⟨frame, ?_, ⟨below, free⟩, ?_⟩
      · intro zero
        rw [zero, zeroUsed] at free
        exact Bool.false_ne_true free.symm
      · simp [physmemAllocTo, found, physmemAddrMarkUsed, range_one p below]

/-- A one-frame release clears exactly its frame. -/
theorem physmemFreeTo_one (p : PhysMem) {frame : Nat} (inside : frame < p.total) :
    physmemFreeTo p (frame * pageSize) 1 = p.markFree frame := by
  simp [physmemFreeTo, physmemAddrMarkFree, range_one p inside]

end DoccrOS.Mem
