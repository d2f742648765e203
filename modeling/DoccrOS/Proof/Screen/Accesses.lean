import DoccrOS.Construction.Screen.Accesses

namespace DoccrOS.Screen
open Lib

/-- The word of the framebuffer that holds a pixel. -/
def Display.pixelIndex (d : Display) (px py : Nat) : Nat := py * (d.fbPitch / 4) + px

section
variable {fb : Nat → BitVec 32} {width height count : Nat}

/-- The product with a clamped height is small. -/
theorem bsSizeClamp_le (small : width < 2 ^ 32) (small' : height < 2 ^ 32) :
    width * (bsSizeClamp width height).2 ≤ bsMaxPixels := by
  have product : width * height < 2 ^ 32 * 2 ^ 32 := Nat.mul_lt_mul'' small small'
  unfold bsSizeClamp
  split
  · simp
  · split
    · rename_i fits
      rw [wrap64, Nat.mod_eq_of_lt (by omega)] at fits
      exact fits
    · exact Nat.mul_div_le bsMaxPixels width

theorem bsSizeClamp_width (width height : Nat) : (bsSizeClamp width height).1 = width := by
  unfold bsSizeClamp
  split <;> [rfl; split <;> rfl]

theorem graphicsInit_small (limine : LimineFramebuffer) :
    (graphicsInit limine).fbWidth < 2 ^ 32 ∧ (graphicsInit limine).fbHeight < 2 ^ 32 :=
  ⟨Nat.mod_lt _ (by decide), Nat.mod_lt _ (by decide)⟩

theorem bootscreenLayoutInit_bs3 (g : Graphics) (bs : Screens) :
    (bootscreenLayoutInit g bs .bs3).width = g.fbWidth ∧
      (bootscreenLayoutInit g bs .bs3).height = (bsSizeClamp g.fbWidth g.fbHeight).2 ∧
      (bootscreenLayoutInit g bs .bs3).pixelsPhys = 0 := by
  simp [bootscreenLayoutInit, bsSetupScreen, bsSizeClamp_width]

/-- Four bytes of a word are the bytes of the pixel when whole words make up a row. -/
theorem Display.pixelIndex_bytes (d : Display) (px py : Nat) (whole : 4 ∣ d.fbPitch) :
    4 * d.pixelIndex px py = py * d.fbPitch + 4 * px := by
  obtain ⟨words, isPitch⟩ := whole
  rw [Display.pixelIndex, isPitch, Nat.mul_div_cancel_left _ (by decide)]
  ring

/-- A pixel inside a rectangle has a smaller index than the rectangle has words. -/
theorem pixel_lt {px py : Nat} (inColumn : px < width) (inRow : py < height) : py * width + px < width * height := by
  calc py * width + px < py * width + width := Nat.add_lt_add_left inColumn _
    _ = (py + 1) * width := (Nat.succ_mul py width).symm
    _ ≤ height * width := Nat.mul_le_mul_right _ inRow
    _ = width * height := Nat.mul_comm _ _

theorem copyRow_result (d : Display) (words : Nat → BitVec 32) (dest start count : Nat) :
    (copyRow d words dest start count).result =
      .ok { d with framebuffer := d.framebuffer.map fun fb => copyWords fb words dest start count } := rfl

/-- The copies of rows that lie one behind another show all rows and change nothing else. -/
theorem copyRows_spec (d : Display) (words : Nat → BitVec 32) (dest start : Nat → Nat) (rows : Nat)
    (shown : d.framebuffer = some fb) (behind : ∀ row < rows, ∀ later < rows, row < later → dest row + count ≤ dest later) :
    ∃ after, (List.range rows).foldl (fun d row => { d with
        framebuffer := d.framebuffer.map fun fb => copyWords fb words (dest row) (start row) count }) d =
          { d with framebuffer := some after } ∧
      (∀ row < rows, ∀ k < count, after (dest row + k) = words (start row + k)) ∧
      ∀ index, (∀ row < rows, ∀ k < count, index ≠ dest row + k) → after index = fb index := by
  induction rows with
  | zero => exact ⟨fb, by rw [← shown]; rfl, nofun, fun _ _ => rfl⟩
  | succ rows inductionHypothesis =>
      obtain ⟨before, copied, inside, outside⟩ := inductionHypothesis fun row inRow later inLater =>
        behind row (Nat.lt_succ_of_lt inRow) later (Nat.lt_succ_of_lt inLater)
      refine ⟨copyWords before words (dest rows) (start rows) count, ?_, ?_, ?_⟩
      · rw [List.range_succ, List.foldl_append, copied]
        rfl
      · intro row inRow k small
        rcases Nat.lt_succ_iff_lt_or_eq.mp inRow with earlier | last
        · have apart := behind row (Nat.lt_succ_of_lt earlier) rows (Nat.lt_succ_self rows) earlier
          rw [copyWords, if_neg (by omega)]
          exact inside row earlier k small
        · rw [last, copyWords, if_pos (by omega), Nat.add_sub_cancel_left]
      · intro index other
        have missed : ¬(dest rows ≤ index ∧ index < dest rows + count) := by
          rintro ⟨lower, upper⟩
          exact other rows (Nat.lt_succ_self rows) (index - dest rows) (by omega) (by omega)
        rw [copyWords, if_neg missed]
        exact outside index fun row inRow => other row (Nat.lt_succ_of_lt inRow)

theorem putpixelAccesses_value (d : Display) (x y : Nat) (color : BitVec 32) :
    (putpixelAccesses d x y color).result = .ok (putpixel d x y color) := by
  rw [putpixelAccesses, putpixel]
  split_ifs <;> rfl

theorem bsSetpixelAccesses_value (con : Console) (x y : Nat) (color : BitVec 32) :
    (bsSetpixelAccesses con x y color).result = .ok (bsSetpixel con x y color) := by
  rw [bsSetpixelAccesses, bsSetpixel]
  split_ifs <;> rfl

theorem bsDrawGlyphAccesses_value (font : Font) (scale : Nat) (con : Console) (c : BitVec 8) (color : BitVec 32) :
    (bsDrawGlyphAccesses font scale con c color).result = .ok (bsDrawGlyph font scale con c color) := by
  apply Logged.result_foldlM
  intro con dy
  apply Logged.result_foldlM
  intro con dx
  split_ifs
  · rfl
  · apply Logged.result_foldlM
    intro con sy
    apply Logged.result_foldlM
    intro con sx
    exact bsSetpixelAccesses_value _ _ _ _

theorem flushRows_value (con : Console) (x y endX endY : Nat) : (flushRows con x y endX endY).result =
    .ok ((List.range' y (endY - y)).foldl (fun d yy => { d with
      framebuffer := d.framebuffer.map fun fb =>
        copyWords fb con.words (wrap32 (yy * (con.display.fbPitch / 4) + x)) (wrap32 (yy * con.screen.width + x))
          (wrap32 (endX + 2 ^ 32 - x)) }) con.display) := by
  apply Logged.result_foldlM
  intro d yy
  rfl

theorem flushPixels_value (con : Console) (x y endX endY : Nat) : (flushPixels con x y endX endY).result =
    .ok ((List.range' y (endY - y)).foldl (fun d yy => (List.range' x (endX - x)).foldl (fun d xx =>
      putpixel d (wrap32 (con.screen.x + xx)) (wrap32 (con.screen.y + yy)) (con.words (wrap32 (yy * con.screen.width + xx))))
        d) con.display) := by
  apply Logged.result_foldlM
  intro d yy
  apply Logged.result_foldlM
  intro d xx
  exact putpixelAccesses_value _ _ _ _

theorem bsFlushRectAccesses_value (con : Console) (x y w h : Nat) :
    (bsFlushRectAccesses con x y w h).result = .ok (bsFlushRect con x y w h) := by
  simp only [bsFlushRectAccesses, bsFlushRect, flushDisplay]
  split_ifs
  · rfl
  · rw [Logged.result_bind, flushRows_value]
    rfl
  · rw [Logged.result_bind, flushPixels_value]
    rfl

theorem bsClearAreaAccesses_value (con : Console) : (bsClearAreaAccesses con).result = .ok (bsClearArea con) := by
  rw [bsClearAreaAccesses, bsClearArea]
  split_ifs
  · rfl
  · have blackened : (blackWords con 0 con.screen.pixelCount).result =
        .ok { con with words := fun i => if i < con.screen.pixelCount then black else con.words i } := by
      simp only [blackWords, Logged.result_access, Nat.zero_le, true_and, Nat.zero_add]
    rw [Logged.result_bind, blackened]
    exact bsFlushRectAccesses_value _ _ _ _ _

theorem bsScrollAccesses_value (scale : Nat) (con : Console) :
    (bsScrollAccesses scale con).result = .ok (bsScroll scale con) := by
  rw [bsScrollAccesses, bsScroll]
  split_ifs
  · rw [Logged.result_bind, bsClearAreaAccesses_value]
    rfl
  · simp only [Logged.result_bind, moveWords, blackWords, Logged.result_access, Result.ok_bind, bsFlushAccesses,
      bsFlushRectAccesses_value, Logged.result_pure]
    rfl

theorem bsPrintAccesses_value (font : Font) (scale : Nat) (con : Console) (c : BitVec 8) (color : BitVec 32) :
    (bsPrintAccesses font scale con c color).result = .ok (bsPrint font scale con c color) := by
  simp only [bsPrintAccesses, Logged.result_bind, bsDrawGlyphAccesses_value, Result.ok_bind, bsFlushRectAccesses_value,
    Logged.result_pure]
  rfl

/-- The functions with their accesses compute what the functions of the console compute. -/
theorem bsPutcharAccesses_value (font : Font) (scale : Nat) (con : Console) (c : BitVec 8) (color : BitVec 32) :
    (bsPutcharAccesses font scale con c color).result = .ok (bsPutchar font scale con c color) := by
  have placed : (bsPlaceAccesses font scale con c color).result = .ok (bsPlace font scale con c color) := by
    rw [bsPlaceAccesses, bsPlace]
    split_ifs
    · rfl
    · exact bsPrintAccesses_value font scale _ c color
    · exact bsPrintAccesses_value font scale con c color
  have recorded (con : Console) : (bsRecordAccesses con c).result = .ok (bsRecord con c) := by
    rw [bsRecordAccesses, bsRecord]
    cases con.buffer with
    | none => rfl
    | some buffer =>
        dsimp only
        split_ifs <;> rfl
  have scrolled (con : Console) : (bsScrollFull scale con).result =
      .ok (if con.Full scale then bsScroll scale con else con) := by
    rw [bsScrollFull]
    split_ifs
    · exact bsScrollAccesses_value scale con
    · rfl
  rw [bsPutcharAccesses, bsPutchar]
  by_cases hidden : con.visible = false
  · rw [if_pos hidden, if_pos hidden]
    rfl
  · rw [if_neg hidden, if_neg hidden]
    simp only [Logged.result_bind, placed, Result.ok_bind, scrolled, recorded]

end

end DoccrOS.Screen
