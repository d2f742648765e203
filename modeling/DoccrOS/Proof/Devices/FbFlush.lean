import DoccrOS.Construction.Devices.Fb0
import DoccrOS.Proof.Screen.Accesses

namespace DoccrOS.Devices
open Lib Screen

/-- The pixel lies in the part of the rectangle that the screen shows. -/
def FbRect.Shows (rect : FbRect) (scr : BsScreen) (px py : Nat) : Prop :=
  (rect.x.toNat ≤ px ∧ px < min (rect.x.toNat + rect.width.toNat) scr.width) ∧
    rect.y.toNat ≤ py ∧ py < min (rect.y.toNat + rect.height.toNat) scr.height

/-- The console is the screen `BS3` of the layout with a backbuffer, and its framebuffer has rows of at least its width. -/
structure BackedBy (con : Console) (limine : LimineFramebuffer) (bs : Screens) : Prop where
  width : con.screen.width = (bootscreenLayoutInit (graphicsInit limine) bs .bs3).width
  height : con.screen.height = (bootscreenLayoutInit (graphicsInit limine) bs .bs3).height
  pixels : con.screen.pixels ≠ .null
  rows : 4 * con.screen.width ≤ con.display.fbPitch
  products : con.screen.height * (con.display.fbPitch / 4) < 2 ^ 32

/-- The loads inside the backbuffer, and the stores to the pixels of the framebuffer that the screen shows of the rectangle. -/
def FbRect.Allows (rect : FbRect) (con : Console) : ScreenAccess → Prop
  | .load index => index < con.screen.width * con.screen.height
  | .display index => ∃ px py, rect.Shows con.screen px py ∧ index = con.display.pixelIndex px py
  | _ => False

/-- The call copies the pixels that the screen shows of a rectangle, reads the backbuffer inside its bounds, and stores no
other word of the framebuffer. -/
structure RectCopied (con : Console) (framebuffer : Nat → BitVec 32) (rect : FbRect) (after : Nat → BitVec 32) : Prop where
  result : (fb0IoctlFlushRect con (some rect)).result =
    .ok (0, { con with display := { con.display with framebuffer := some after } })
  shown : ∀ px py, rect.Shows con.screen px py →
    after (con.display.pixelIndex px py) = con.words (py * con.screen.width + px)
  kept : ∀ index, (∀ px py, rect.Shows con.screen px py → index ≠ con.display.pixelIndex px py) →
    after index = framebuffer index
  accesses : (fb0IoctlFlushRect con (some rect)).Only (rect.Allows con)

section
variable {con : Console} {limine : LimineFramebuffer} {bs : Screens} {framebuffer : Nat → BitVec 32} {rect : FbRect}
  {start extent size offset : Nat}

/-- The cut extent ends where the smaller of the rectangle and the screen ends. -/
theorem clipExtent_end (inside : start < size) :
    start + clipExtent start extent size = min (start + extent) size := by
  unfold clipExtent
  split <;> omega

/-- An offset below the cut extent stays in the rectangle and on the screen. -/
theorem clipExtent_lt (inside : start < size) (small : offset < clipExtent start extent size) :
    start + offset < min (start + extent) size := by
  rw [← clipExtent_end inside]
  exact Nat.add_lt_add_left small start

theorem BackedBy.area (backed : BackedBy con limine bs) : con.screen.width * con.screen.height ≤ bsMaxPixels := by
  obtain ⟨width, height, -⟩ := bootscreenLayoutInit_bs3 (graphicsInit limine) bs
  have small := graphicsInit_small limine
  rw [backed.width, backed.height, width, height]
  exact bsSizeClamp_le small.1 small.2

/-- A pixel that the screen shows has its word of the framebuffer and of the backbuffer without a wrap. -/
theorem BackedBy.indices (backed : BackedBy con limine bs) {px py : Nat} (inColumn : px < con.screen.width)
    (inRow : py < con.screen.height) :
    wrap32 (py * (con.display.fbPitch / 4) + px) = con.display.pixelIndex px py ∧
      wrap32 (py * con.screen.width + px) = py * con.screen.width + px := by
  have rows := backed.rows
  have products := backed.products
  have area := backed.area
  have most : bsMaxPixels < 2 ^ 32 := by decide
  have stride : con.screen.width ≤ con.display.fbPitch / 4 := by omega
  have shown := (pixel_lt (inColumn.trans_le stride) inRow).trans_eq (Nat.mul_comm _ _)
  exact ⟨Nat.mod_eq_of_lt (shown.trans products),
    Nat.mod_eq_of_lt (((pixel_lt inColumn inRow).trans_le area).trans most)⟩

/-- A rectangle that starts outside the screen is refused. -/
theorem flushRect_refused (outside : con.screen.width ≤ rect.x.toNat ∨ con.screen.height ≤ rect.y.toNat) :
    fb0IoctlFlushRect con (some rect) = pure (-1, con) := by
  simp only [fb0IoctlFlushRect]
  exact if_pos (Or.inr (Or.inr outside))

/-- A rectangle that starts on the screen is copied row by row. -/
theorem flushRect_started (shown : con.display.framebuffer = some framebuffer) (pixels : con.screen.pixels ≠ .null)
    (inColumn : rect.x.toNat < con.screen.width) (inRow : rect.y.toNat < con.screen.height) :
    fb0IoctlFlushRect con (some rect) =
      (List.range (clipExtent rect.y.toNat rect.height.toNat con.screen.height)).foldlM (fun d row =>
        copyRow d con.words (wrap32 ((rect.y.toNat + row) * (con.display.fbPitch / 4) + rect.x.toNat))
          (wrap32 ((rect.y.toNat + row) * con.screen.width + rect.x.toNat))
          (clipExtent rect.x.toNat rect.width.toNat con.screen.width)) con.display >>=
        fun display => pure (0, { con with display }) := by
  simp only [fb0IoctlFlushRect]
  refine if_neg ?_
  rintro (none | null | right | below)
  · rw [shown] at none
    cases none
  · exact pixels null
  · omega
  · omega

/-- The rows of the rectangle lie one behind another in the framebuffer. -/
theorem BackedBy.behind (backed : BackedBy con limine bs) (inColumn : rect.x.toNat < con.screen.width)
    (inRow : rect.y.toNat < con.screen.height) :
    ∀ row < clipExtent rect.y.toNat rect.height.toNat con.screen.height,
      ∀ later < clipExtent rect.y.toNat rect.height.toNat con.screen.height, row < later →
      wrap32 ((rect.y.toNat + row) * (con.display.fbPitch / 4) + rect.x.toNat) +
          clipExtent rect.x.toNat rect.width.toNat con.screen.width ≤
        wrap32 ((rect.y.toNat + later) * (con.display.fbPitch / 4) + rect.x.toNat) := by
  intro row inRows later inRows' less
  have first := clipExtent_lt inRow inRows
  have second := clipExtent_lt inRow inRows'
  have columns := @clipExtent_end rect.x.toNat rect.width.toNat _ inColumn
  rw [(backed.indices inColumn (first.trans_le (min_le_right _ _))).1,
    (backed.indices inColumn (second.trans_le (min_le_right _ _))).1, Display.pixelIndex, Display.pixelIndex]
  have rows := backed.rows
  have apart : (rect.y.toNat + row + 1) * (con.display.fbPitch / 4) ≤
      (rect.y.toNat + later) * (con.display.fbPitch / 4) :=
    Nat.mul_le_mul_right _ (by omega)
  rw [Nat.succ_mul] at apart
  omega

end

/-- A flush of any rectangle is refused without an effect when the rectangle starts outside the backbuffer, and otherwise it
copies the pixels of the rectangle that the backbuffer has. -/
theorem flushRect_copies (limine : LimineFramebuffer) (bs : Screens) {con : Console} {framebuffer : Nat → BitVec 32}
    (rect : FbRect) (backed : BackedBy con limine bs)
    (shown : con.display.framebuffer = some framebuffer) :
    (rect.x.toNat ≥ con.screen.width ∨ rect.y.toNat ≥ con.screen.height →
      fb0IoctlFlushRect con (some rect) = pure (-1, con)) ∧
    (rect.x.toNat < con.screen.width ∧ rect.y.toNat < con.screen.height →
      ∃ after, RectCopied con framebuffer rect after) := by
  refine ⟨flushRect_refused, ?_⟩
  rintro ⟨inColumn, inRow⟩
  have started := flushRect_started shown backed.pixels inColumn inRow
  obtain ⟨after, copied, inside, outside⟩ := copyRows_spec con.display con.words
    (fun row => wrap32 ((rect.y.toNat + row) * (con.display.fbPitch / 4) + rect.x.toNat))
    (fun row => wrap32 ((rect.y.toNat + row) * con.screen.width + rect.x.toNat)) _ shown (backed.behind inColumn inRow)
  have place {row k : Nat} (inRows : row < clipExtent rect.y.toNat rect.height.toNat con.screen.height)
      (inColumns : k < clipExtent rect.x.toNat rect.width.toNat con.screen.width) :
      rect.Shows con.screen (rect.x.toNat + k) (rect.y.toNat + row) ∧
        wrap32 ((rect.y.toNat + row) * (con.display.fbPitch / 4) + rect.x.toNat) + k =
          con.display.pixelIndex (rect.x.toNat + k) (rect.y.toNat + row) ∧
        wrap32 ((rect.y.toNat + row) * con.screen.width + rect.x.toNat) + k =
          (rect.y.toNat + row) * con.screen.width + (rect.x.toNat + k) := by
    have rowShown := clipExtent_lt inRow inRows
    have columnShown := clipExtent_lt inColumn inColumns
    obtain ⟨target, source⟩ := backed.indices inColumn (rowShown.trans_le (min_le_right _ _))
    rw [target, source, Display.pixelIndex, Display.pixelIndex]
    exact ⟨⟨⟨Nat.le_add_right _ _, columnShown⟩, Nat.le_add_right _ _, rowShown⟩, Nat.add_assoc _ _ _, Nat.add_assoc _ _ _⟩
  have offsets {px py : Nat} (shows : rect.Shows con.screen px py) :
      py - rect.y.toNat < clipExtent rect.y.toNat rect.height.toNat con.screen.height ∧
        px - rect.x.toNat < clipExtent rect.x.toNat rect.width.toNat con.screen.width := by
    obtain ⟨⟨left, right⟩, top, bottom⟩ := shows
    rw [← clipExtent_end inColumn] at right
    rw [← clipExtent_end inRow] at bottom
    omega
  refine ⟨after, ?_, ?_, ?_, ?_⟩
  · rw [started, Logged.result_bind, Logged.result_foldlM fun _ _ => copyRow_result _ _ _ _ _, copied]
    rfl
  · intro px py shows
    obtain ⟨inRows, inColumns⟩ := offsets shows
    obtain ⟨-, target, source⟩ := place inRows inColumns
    have copiedHere := inside _ inRows _ inColumns
    rw [target, source, Nat.add_sub_cancel' shows.1.1, Nat.add_sub_cancel' shows.2.1] at copiedHere
    exact copiedHere
  · intro index other
    apply outside
    intro row inRows k inColumns
    obtain ⟨shows, target, -⟩ := place inRows inColumns
    rw [target]
    exact other _ _ shows
  · rw [started]
    refine Logged.Only.bind ?_ fun _ => Logged.only_pure
    let always (_ : Display) : Prop := True
    have start : always con.display := trivial
    refine (Logged.Safe.foldlM start fun d _ row inRange => ⟨?_, fun _ _ => trivial⟩).only
    have inRows := List.mem_range.mp inRange
    rw [copyRow, Logged.only_access]
    intro entry logged
    rcases List.mem_append.mp logged with read | stored
    · obtain ⟨k, inCount, isEntry⟩ := List.mem_map.mp read
      obtain ⟨⟨⟨-, right⟩, -, bottom⟩, -, source⟩ := place inRows (List.mem_range.mp inCount)
      rw [← isEntry, source]
      exact pixel_lt (right.trans_le (min_le_right _ _)) (bottom.trans_le (min_le_right _ _))
    · obtain ⟨k, inCount, isEntry⟩ := List.mem_map.mp stored
      obtain ⟨shows, target, -⟩ := place inRows (List.mem_range.mp inCount)
      rw [← isEntry, target]
      exact ⟨_, _, shows, rfl⟩

/-- The screen `BS3` of a display of 4 by 3 pixels with rows of five words. -/
def smallBacked : Console :=
  ⟨{ bootscreenLayoutInit (graphicsInit ⟨4, 3, 20, 32⟩) (fun _ => ⟨0, 0, 0, 0, 0, 0, .null, 0, 0⟩) .bs3 with
      pixels := .direct 4096 }, true, fun i => BitVec.ofNat 32 i, none, 0, ⟨some fun _ => 0, 4, 3, 20⟩⟩

theorem smallBacked_backed :
    BackedBy smallBacked ⟨4, 3, 20, 32⟩ fun _ => ⟨0, 0, 0, 0, 0, 0, .null, 0, 0⟩ :=
  ⟨rfl, rfl, nofun, by decide, by decide⟩

/-- The rectangle with the largest width is cut at the right end of the screen. -/
theorem flushRect_copies_small : ∃ after, RectCopied smallBacked (fun _ => 0) ⟨1, 1, 0xFFFFFFFF, 1⟩ after ∧
    after 6 = 5 ∧ after 9 = 0 := by
  obtain ⟨after, copied⟩ := (flushRect_copies ⟨4, 3, 20, 32⟩ _ ⟨1, 1, 0xFFFFFFFF, 1⟩ smallBacked_backed rfl).2 (by decide)
  refine ⟨after, copied, copied.shown 1 1 ⟨by decide, by decide⟩, copied.kept 9 ?_⟩
  rintro px py ⟨⟨left, right⟩, top, bottom⟩ same
  have upper : px < 4 := right.trans_le (min_le_right _ _)
  have row : py < 2 := bottom.trans_le (min_le_left _ _)
  have index : 9 = py * 5 + px := same
  have lower : 1 ≤ py := top
  omega

end DoccrOS.Devices
