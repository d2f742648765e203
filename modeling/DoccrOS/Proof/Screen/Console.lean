import DoccrOS.Construction.Screen.Console

namespace DoccrOS.Screen

/-- A font scale that `set_font_scale` takes, and a screen of at least one character and two lines that `bs_size_clamp` has cut. -/
structure Console.Sized (scale : Nat) (con : Console) : Prop where
  scaled : 1 ≤ scale ∧ scale ≤ 4
  wide : 8 * scale ≤ con.screen.width
  high : 2 * (10 * scale) ≤ con.screen.height
  clamped : con.screen.width * con.screen.height ≤ bsMaxPixels

/-- The cursor is at a place where a line fits. -/
structure Console.Ready (scale : Nat) (con : Console) : Prop extends con.Sized scale where
  column : con.screen.cursorX ≤ con.screen.width
  line : con.screen.cursorY + 10 * scale ≤ con.screen.height

def Console.pixel (con : Console) (row column : Nat) : BitVec 32 := con.words (row * con.screen.width + column)

/-- The current line has room for a character. -/
def Console.Room (scale : Nat) (con : Console) (c : BitVec 8) : Prop :=
  c ≠ 0x0A ∧ con.screen.cursorX + 8 * scale < con.screen.width

/-- A character on a line with room leaves the line in place, and the screen scrolls only when a newline or a wrap moves the
cursor past the last line. -/
structure LineKept (font : Font) (scale : Nat) (con : Console) (c : BitVec 8) (color : BitVec 32) : Prop where
  cursor : con.Room scale c → (bsPutchar font scale con c color).screen.cursorY = con.screen.cursorY ∧
    (bsPutchar font scale con c color).screen.cursorX = con.screen.cursorX + 8 * scale
  line : con.Room scale c → ∀ row column, con.screen.cursorY ≤ row → row < con.screen.cursorY + 10 * scale →
    column < con.screen.cursorX → (bsPutchar font scale con c color).pixel row column = con.pixel row column
  scrolls : (bsPlace font scale con c color).Full scale →
    ¬con.Room scale c ∧ con.screen.height < con.screen.cursorY + 2 * (10 * scale)

/-- Every character that is printed leaves the lines in place. -/
def TextKept (font : Font) (scale : Nat) (con : Console) : List (BitVec 8 × BitVec 32) → Prop
  | [] => True
  | (c, color) :: rest =>
    (con.visible = true → LineKept font scale con c color) ∧ TextKept font scale (bsPutchar font scale con c color) rest

/-- A character on a line with room is not printed at the bottom of the screen, and a newline or a wrap does not lead to a line that
ends at the bottom of the screen. -/
def Console.Above (scale : Nat) (con : Console) (c : BitVec 8) : Prop :=
  (con.Room scale c → con.screen.cursorY + 10 * scale ≠ con.screen.height) ∧
    (¬con.Room scale c → con.screen.cursorY + 2 * (10 * scale) ≠ con.screen.height)

/-- Every character that is printed stays above the bottom of the screen. -/
def TextAbove (font : Font) (scale : Nat) (con : Console) : List (BitVec 8 × BitVec 32) → Prop
  | [] => True
  | (c, color) :: rest =>
    (con.visible = true → con.Above scale c) ∧ TextAbove font scale (bsPutchar font scale con c color) rest

/-- The screen and its state stay, and so do the pixels to the left of a column. -/
structure Console.Kept (con after : Console) (left : Nat) : Prop where
  screen : after.screen = con.screen
  visible : after.visible = con.visible
  pixels : ∀ row column, column < left → after.pixel row column = con.pixel row column

section
variable {font : Font} {scale : Nat} {con : Console} {c : BitVec 8} {color : BitVec 32}

theorem Console.Kept.refl (con : Console) (left : Nat) : con.Kept con left := ⟨rfl, rfl, fun _ _ _ => rfl⟩

theorem Console.Kept.trans {first second third : Console} {left : Nat} (before : first.Kept second left)
    (after : second.Kept third left) : first.Kept third left := by
  refine ⟨after.screen.trans before.screen, after.visible.trans before.visible, fun row column inside => ?_⟩
  exact (after.pixels row column inside).trans (before.pixels row column inside)

/-- The sizes of a screen are small. -/
theorem Console.Sized.small (sized : con.Sized scale) :
    con.screen.width ≤ bsMaxPixels ∧ con.screen.height ≤ bsMaxPixels := by
  have scaled := sized.scaled
  have wide : 0 < con.screen.width := by
    have fits := sized.wide
    omega
  have high : 0 < con.screen.height := by
    have fits := sized.high
    omega
  exact ⟨(Nat.le_mul_of_pos_right _ high).trans sized.clamped, (Nat.le_mul_of_pos_left _ wide).trans sized.clamped⟩

theorem charW_eq (small : scale ≤ 4) : charW scale = 8 * scale := by
  rw [charW, wrap32]
  omega

theorem lineH_eq (small : scale ≤ 4) : lineH scale = 10 * scale := by
  rw [lineH, wrap32]
  omega

/-- A pixel at or to the right of a column leaves the pixels to the left of it. -/
theorem bsSetpixel_kept (clamped : con.screen.width * con.screen.height ≤ bsMaxPixels) {x y left : Nat} (right : left ≤ x) :
    con.Kept (bsSetpixel con x y color) left := by
  rw [bsSetpixel]
  split_ifs with null outside
  · exact Console.Kept.refl con left
  · exact Console.Kept.refl con left
  · refine ⟨rfl, rfl, fun row column inside => ?_⟩
    have x_lt : x < con.screen.width := by omega
    have y_lt : y < con.screen.height := by omega
    have last : y * con.screen.width + x < con.screen.width * con.screen.height := by nlinarith
    have index : wrap32 (y * con.screen.width + x) = y * con.screen.width + x :=
      Nat.mod_eq_of_lt (last.trans_le (clamped.trans (by decide)))
    apply Function.update_of_ne
    rw [index]
    intro same
    have columns := congrArg (· % con.screen.width) same
    simp only [Nat.mul_add_mod_self_right, Nat.mod_eq_of_lt x_lt, Nat.mod_eq_of_lt (inside.trans_le right |>.trans x_lt)] at columns
    omega

/-- A glyph leaves the pixels to the left of the cursor. -/
theorem bsDrawGlyph_kept (sized : con.Sized scale) (column : con.screen.cursorX ≤ con.screen.width) :
    con.Kept (bsDrawGlyph font scale con c color) con.screen.cursorX := by
  have kept {A : Type} (items : List A) (body : Console → A → Console)
      (step : ∀ state, con.Kept state con.screen.cursorX → ∀ item ∈ items, con.Kept (body state item) con.screen.cursorX)
      (state : Console) (before : con.Kept state con.screen.cursorX) : con.Kept (items.foldl body state) con.screen.cursorX :=
    List.foldlRecOn items body before step
  have scaled := sized.scaled
  have small := sized.small.1
  have most : bsMaxPixels < 2 ^ 31 := by decide
  refine kept _ _ (fun state held dy dyInside => ?_) con (Console.Kept.refl con _)
  refine kept _ _ (fun state held dx dxInside => ?_) state held
  split_ifs with clear
  · exact held
  · refine kept _ _ (fun state held sy syInside => ?_) state held
    refine kept _ _ (fun state held sx sxInside => ?_) state held
    have dx_lt := List.mem_range.mp dxInside
    have sx_lt := List.mem_range.mp sxInside
    have offset : dx * scale ≤ 7 * 4 := Nat.mul_le_mul (by omega) scaled.2
    apply held.trans
    apply bsSetpixel_kept
    · rw [held.screen]
      exact sized.clamped
    · rw [held.screen, wrap32, Nat.mod_eq_of_lt (by omega)]
      omega

/-- A flush copies to the display only. -/
theorem bsFlushRect_kept (con : Console) (x y w h left : Nat) : con.Kept (bsFlushRect con x y w h) left := by
  simp only [bsFlushRect]
  split_ifs <;> exact ⟨rfl, rfl, fun _ _ _ => rfl⟩

theorem bsFlush_screen (con : Console) : (bsFlush con).screen = con.screen := (bsFlushRect_kept con _ _ _ _ 0).screen

theorem bsFlush_words (con : Console) : (bsFlush con).words = con.words := by
  simp only [bsFlush, bsFlushRect]
  split_ifs <;> rfl

theorem bsClearArea_screen (con : Console) : (bsClearArea con).screen = con.screen := by
  rw [bsClearArea]
  split_ifs
  · rfl
  · exact bsFlush_screen _

theorem bsRecord_kept (con : Console) (c : BitVec 8) (left : Nat) : con.Kept (bsRecord con c) left := by
  rw [bsRecord]
  split
  · split <;> exact ⟨rfl, rfl, fun _ _ _ => rfl⟩
  · exact Console.Kept.refl con left

/-- A character that is drawn advances the cursor and leaves the pixels to the left of it. -/
theorem bsPrint_kept (sized : con.Sized scale) (column : con.screen.cursorX ≤ con.screen.width) :
    (bsPrint font scale con c color).screen = { con.screen with cursorX := con.screen.cursorX + 8 * scale } ∧
      (bsPrint font scale con c color).visible = con.visible ∧
      ∀ row column, column < con.screen.cursorX → (bsPrint font scale con c color).pixel row column = con.pixel row column := by
  have drawn := @bsDrawGlyph_kept font scale con c color sized column
  have kept := drawn.trans (bsFlushRect_kept (bsDrawGlyph font scale con c color)
    (bsDrawGlyph font scale con c color).screen.cursorX (bsDrawGlyph font scale con c color).screen.cursorY (charW scale)
    (charW scale) con.screen.cursorX)
  have small := sized.small.1
  have scaled := sized.scaled
  have most : bsMaxPixels < 2 ^ 31 := by decide
  have advanced : wrap32 (con.screen.cursorX + charW scale) = con.screen.cursorX + 8 * scale := by
    rw [charW_eq scaled.2, wrap32, Nat.mod_eq_of_lt (by omega)]
  refine ⟨?_, kept.visible, kept.pixels⟩
  simp only [bsPrint, Console.moveTo, kept.screen, advanced]

/-- The line after a newline. -/
theorem newline_screen (sized : con.Sized scale) (line : con.screen.cursorY + 10 * scale ≤ con.screen.height) :
    (con.newline scale).screen = { con.screen with cursorX := 0, cursorY := con.screen.cursorY + 10 * scale } := by
  have small := sized.small.2
  have most : bsMaxPixels < 2 ^ 31 := by decide
  rw [Console.newline, lineH_eq sized.scaled.2, wrap32, Nat.mod_eq_of_lt (by omega)]
  rfl

theorem Console.Ready.newline (ready : con.Ready scale) : (con.newline scale).Sized scale := by
  have screen := newline_screen ready.toSized ready.line
  constructor
  · exact ready.scaled
  · rw [screen]
    exact ready.wide
  · rw [screen]
    exact ready.high
  · rw [screen]
    exact ready.clamped

/-- The test for a wrap is that there is no room. -/
theorem wraps_iff (ready : con.Ready scale) (notNewline : c ≠ 0x0A) :
    wrap32 (con.screen.cursorX + charW scale) ≥ con.screen.width ↔ ¬con.Room scale c := by
  have small := ready.small.1
  have column := ready.column
  have scaled := ready.scaled
  have most : bsMaxPixels < 2 ^ 31 := by decide
  rw [charW_eq scaled.2, wrap32, Nat.mod_eq_of_lt (by omega), Console.Room, not_and, not_lt]
  exact ⟨fun wraps _ => wraps, fun wraps => wraps notNewline⟩

/-- A character on a line with room is printed on it. -/
theorem bsPlace_room (ready : con.Ready scale) (room : con.Room scale c) :
    bsPlace font scale con c color = bsPrint font scale con c color := by
  have stays := (not_congr (wraps_iff ready room.1)).mpr (not_not_intro room)
  rw [bsPlace, if_neg room.1, if_neg stays]

/-- A newline or a wrap leads to the next line. -/
theorem bsPlace_next (ready : con.Ready scale) (full : ¬con.Room scale c) :
    (∃ x ≤ con.screen.width, (bsPlace font scale con c color).screen =
      { con.screen with cursorX := x, cursorY := con.screen.cursorY + 10 * scale }) ∧
      (bsPlace font scale con c color).visible = con.visible := by
  have screen := newline_screen ready.toSized ready.line
  by_cases newline : c = 0x0A
  · rw [bsPlace, if_pos newline]
    exact ⟨⟨0, Nat.zero_le _, screen⟩, rfl⟩
  · have wraps := (wraps_iff ready newline).mpr full
    have column : (con.newline scale).screen.cursorX ≤ (con.newline scale).screen.width := Nat.zero_le _
    obtain ⟨printed, visible, -⟩ := @bsPrint_kept font scale _ c color ready.newline column
    rw [bsPlace, if_neg newline, if_pos wraps]
    refine ⟨⟨8 * scale, ready.wide, ?_⟩, visible⟩
    rw [printed, screen, Nat.zero_add]

/-- A scroll leaves a screen whose cursor is at the start of the last line, or at the top of an empty screen without pixels. -/
theorem bsScroll_screen (sized : con.Sized scale) : (bsScroll scale con).visible = con.visible ∧
    ∃ line, line + 10 * scale ≤ con.screen.height ∧
      (bsScroll scale con).screen = { con.screen with cursorX := 0, cursorY := line } := by
  have scaled := sized.scaled
  have high := sized.high
  have visible (con : Console) : (bsClearArea con).visible = con.visible := by
    rw [bsClearArea]
    split_ifs
    · rfl
    · exact (bsFlushRect_kept _ _ _ _ _ 0).visible
  rw [bsScroll, lineH_eq scaled.2]
  split_ifs with null
  · refine ⟨visible con, 0, by omega, ?_⟩
    simp only [Console.moveTo, bsClearArea_screen]
  · refine ⟨(bsFlushRect_kept _ _ _ _ _ 0).visible, con.screen.height - 10 * scale, by omega, ?_⟩
    simp only [Console.moveTo, bsFlush_screen]

/-- A scroll moves the contents up by one line and blackens the last line. -/
theorem bsScroll_pixel (sized : con.Sized scale) (pixels : con.screen.pixels ≠ .null) {row column : Nat}
    (inRow : row < con.screen.height) (inColumn : column < con.screen.width) :
    (bsScroll scale con).pixel row column =
      if row + 10 * scale < con.screen.height then con.pixel (row + 10 * scale) column else black := by
  have scaled := sized.scaled
  have high := sized.high
  have large : ¬(con.screen.pixels = .null ∨ lineH scale ≥ con.screen.height) := by
    rw [lineH_eq scaled.2]
    rintro (null | tiny)
    · exact pixels null
    · omega
  rw [Console.pixel, bsScroll, if_neg large, lineH_eq scaled.2]
  simp only [Console.moveTo, bsFlush_words, bsFlush_screen]
  have most : bsMaxPixels < 2 ^ 32 := by decide
  obtain ⟨keep, height⟩ : ∃ keep, con.screen.height = keep + 10 * scale := ⟨con.screen.height - 10 * scale, by omega⟩
  have total : con.screen.width * con.screen.height = keep * con.screen.width + 10 * scale * con.screen.width := by
    rw [height]
    ring
  have clamped := sized.clamped
  have rows : wrap32 (keep * con.screen.width) = keep * con.screen.width := Nat.mod_eq_of_lt (by omega)
  have line : wrap32 (10 * scale * con.screen.width) = 10 * scale * con.screen.width := Nat.mod_eq_of_lt (by omega)
  rw [height, Nat.add_sub_cancel, rows, line]
  by_cases upper : row < keep
  · have before : row * con.screen.width + column < keep * con.screen.width := by nlinarith
    have notBottom : ¬(keep * con.screen.width ≤ row * con.screen.width + column ∧
        row * con.screen.width + column < keep * con.screen.width + 10 * scale * con.screen.width) := by omega
    rw [if_neg notBottom, copyWords, if_pos ⟨Nat.zero_le _, by omega⟩, if_pos (by omega), Console.pixel]
    congr 1
    rw [Nat.sub_zero]
    ring
  · have after : keep * con.screen.width ≤ row * con.screen.width := Nat.mul_le_mul_right _ (Nat.le_of_not_lt upper)
    have inside : row * con.screen.width + column < con.screen.width * con.screen.height := by nlinarith
    rw [if_pos ⟨by omega, by omega⟩, if_neg (by omega)]

/-- What `bs_putchar` does on a visible screen. -/
theorem bsPutchar_visible (visible : con.visible = true) : bsPutchar font scale con c color =
    bsRecord (if (bsPlace font scale con c color).Full scale then bsScroll scale (bsPlace font scale con c color)
      else bsPlace font scale con c color) c := by
  rw [bsPutchar, visible]
  rfl

/-- A screen keeps its size when only its cursor moves. -/
theorem Console.Sized.moved (sized : con.Sized scale) {after : Console} {x y : Nat}
    (screen : after.screen = { con.screen with cursorX := x, cursorY := y }) : after.Sized scale := by
  constructor
  · exact sized.scaled
  · rw [screen]
    exact sized.wide
  · rw [screen]
    exact sized.high
  · rw [screen]
    exact sized.clamped

/-- A screen is ready when its cursor moves to a place where a line fits. -/
theorem Console.Sized.ready (sized : con.Sized scale) {after : Console} {x y : Nat}
    (screen : after.screen = { con.screen with cursorX := x, cursorY := y }) (column : x ≤ con.screen.width)
    (line : y + 10 * scale ≤ con.screen.height) : after.Ready scale := by
  refine ⟨sized.moved screen, ?_, ?_⟩
  · rw [screen]
    exact column
  · rw [screen]
    exact line

/-- On a line with room the end of the screen is reached exactly on the last line. -/
theorem full_room (ready : con.Ready scale) (room : con.Room scale c) :
    (bsPlace font scale con c color).Full scale ↔ con.screen.cursorY + 10 * scale = con.screen.height := by
  have line := ready.line
  have small := ready.small.2
  have most : bsMaxPixels < 2 ^ 31 := by decide
  rw [bsPlace_room ready room, Console.Full, (bsPrint_kept ready.toSized ready.column).1, lineH_eq ready.scaled.2, wrap32,
    Nat.mod_eq_of_lt (by dsimp only; omega)]
  dsimp only
  omega

/-- After a newline or a wrap the end of the screen is reached when the next line does not end above it. -/
theorem full_next (ready : con.Ready scale) (full : ¬con.Room scale c) :
    (bsPlace font scale con c color).Full scale ↔ con.screen.height ≤ con.screen.cursorY + 2 * (10 * scale) := by
  have line := ready.line
  have small := ready.small.2
  have scaled := ready.scaled
  have most : bsMaxPixels < 2 ^ 31 := by decide
  obtain ⟨⟨x, -, screen⟩, -⟩ := @bsPlace_next font scale con c color ready full
  rw [Console.Full, screen, lineH_eq scaled.2, wrap32, Nat.mod_eq_of_lt (by dsimp only; omega)]
  dsimp only
  omega

/-- A screen stays ready. -/
theorem Console.Ready.putchar (ready : con.Ready scale) : (bsPutchar font scale con c color).Ready scale := by
  cases visible : con.visible with
  | false =>
      rw [bsPutchar, if_pos visible]
      exact ready
  | true =>
      rw [bsPutchar_visible visible]
      have recorded := bsRecord_kept (if (bsPlace font scale con c color).Full scale then
        bsScroll scale (bsPlace font scale con c color) else bsPlace font scale con c color) c 0
      obtain ⟨x, y, screen, column, line⟩ : ∃ x y, (bsPlace font scale con c color).screen =
          { con.screen with cursorX := x, cursorY := y } ∧ x ≤ con.screen.width ∧
          (¬(bsPlace font scale con c color).Full scale → y + 10 * scale ≤ con.screen.height) := by
        by_cases room : con.Room scale c
        · have printed := (@bsPrint_kept font scale con c color ready.toSized ready.column).1
          rw [← bsPlace_room ready room] at printed
          exact ⟨_, _, printed, room.2.le, fun _ => ready.line⟩
        · obtain ⟨⟨x, inside, screen⟩, -⟩ := @bsPlace_next font scale con c color ready room
          refine ⟨x, _, screen, inside, fun notFull => ?_⟩
          have above := mt (full_next ready room).mpr notFull
          omega
      have sized := ready.toSized.moved screen
      split_ifs at recorded ⊢ with full
      · obtain ⟨-, bottom, fits, scrolled⟩ := bsScroll_screen sized
        rw [screen] at fits scrolled
        exact ready.toSized.ready (recorded.screen.trans scrolled) (Nat.zero_le _) fits
      · exact ready.toSized.ready (recorded.screen.trans screen) column (line full)

/-- A character leaves the lines in place exactly when it stays above the bottom of the screen. -/
theorem lineKept_iff (ready : con.Ready scale) (visible : con.visible = true) :
    LineKept font scale con c color ↔ con.Above scale c := by
  constructor
  · intro kept
    refine ⟨fun room bottom => ?_, fun full bottom => ?_⟩
    · exact (kept.scrolls ((full_room ready room).mpr bottom)).1 room
    · have past := (kept.scrolls ((full_next ready full).mpr bottom.ge)).2
      omega
  · intro above
    have printed (room : con.Room scale c) : bsPutchar font scale con c color = bsRecord (bsPrint font scale con c color) c := by
      have notFull := mt (@full_room font scale con c color ready room).mp (above.1 room)
      rw [bsPutchar_visible visible, if_neg notFull, bsPlace_room ready room]
    obtain ⟨screen, -, pixels⟩ := @bsPrint_kept font scale con c color ready.toSized ready.column
    have recorded := bsRecord_kept (bsPrint font scale con c color) c con.screen.cursorX
    constructor
    · intro room
      rw [printed room, recorded.screen, screen]
      exact ⟨rfl, rfl⟩
    · intro room row column _ _ left
      rw [printed room, recorded.pixels row column left]
      exact pixels row column left
    · intro full
      have noRoom : ¬con.Room scale c := fun room => above.1 room ((full_room ready room).mp full)
      have reached := (full_next ready noRoom).mp full
      have other := above.2 noRoom
      exact ⟨noRoom, by omega⟩

/-- A text leaves the lines in place exactly when every character stays above the bottom of the screen. -/
theorem console_text_kept (ready : con.Ready scale) (text : List (BitVec 8 × BitVec 32)) :
    TextKept font scale con text ↔ TextAbove font scale con text := by
  induction text generalizing con with
  | nil => exact Iff.rfl
  | cons first rest inductionHypothesis =>
      obtain ⟨c, color⟩ := first
      exact and_congr (forall_congr' fun visible => lineKept_iff ready visible) (inductionHypothesis ready.putchar)

/-- A screen of 64 by 25 pixels. -/
def smallConsole : Console := ⟨⟨0, 0, 0, 0, 64, 25, .static .bs1, 1600, 0⟩, true, fun _ => 0, none, 0, ⟨none, 0, 0, 0⟩⟩

theorem smallConsole_ready : smallConsole.Ready 1 := ⟨⟨by decide, by decide, by decide, by decide⟩, by decide, by decide⟩

theorem console_text_kept_small : smallConsole.Ready 1 ∧
    (TextKept (fun _ _ => 0xFF) 1 smallConsole [(0x41, 0xFFFFFFFF), (0x0A, 0xFFFFFFFF), (0x42, 0xFFFFFFFF)] ↔
      TextAbove (fun _ _ => 0xFF) 1 smallConsole [(0x41, 0xFFFFFFFF), (0x0A, 0xFFFFFFFF), (0x42, 0xFFFFFFFF)]) :=
  ⟨smallConsole_ready, console_text_kept smallConsole_ready _⟩

/-- After the screen has filled up a character scrolls its line away. -/
theorem console_text_lost :
    ¬TextKept (fun _ _ => 0xFF) 1 smallConsole [(0x0A, 0xFFFFFFFF), (0x0A, 0xFFFFFFFF), (0x41, 0xFFFFFFFF)] := by
  rintro ⟨-, -, printed, -⟩
  let newline (con : Console) : Console := bsPutchar (fun _ _ => 0xFF) 1 con 0x0A 0xFFFFFFFF
  have first : (newline smallConsole).Ready 1 := smallConsole_ready.putchar
  have ready : (newline (newline smallConsole)).Ready 1 := first.putchar
  have above := (lineKept_iff ready (by decide +kernel)).mp (printed (by decide +kernel))
  exact above.1 ⟨by decide, by decide +kernel⟩ (by decide +kernel)

end

end DoccrOS.Screen
