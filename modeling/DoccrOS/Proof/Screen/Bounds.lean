import DoccrOS.Construction.Screen.Boot
import DoccrOS.Proof.Screen.Accesses
import DoccrOS.Proof.Screen.Console

namespace DoccrOS.Screen
open Lib

/-- A framebuffer whose rows have whole words and room for the width, and whose size is below `2 ^ 32`. -/
structure Graphics.Usable (g : Graphics) : Prop where
  whole : 4 ∣ g.fbPitch
  rows : 4 * g.fbWidth ≤ g.fbPitch
  total : g.fbPitch * g.fbHeight < 2 ^ 32
  small : g.fbPitch < 2 ^ 32

/-- The access stays inside the pixel array of `count` words, inside a row of the framebuffer or inside the text, or the row
that is copied does not end before its start. -/
def ScreenAccess.Inside (g : Graphics) (count : Nat) : ScreenAccess → Prop
  | .load index => index < count
  | .store index => index < count
  | .display index => ∃ row < g.fbHeight, row * g.fbPitch ≤ 4 * index ∧ 4 * index + 4 ≤ (row + 1) * g.fbPitch
  | .text index => index < bsBufSize
  | .span start stop => start ≤ stop

/-- The display has the geometry of the framebuffer. -/
def Display.Of (g : Graphics) (d : Display) : Prop := d.fbWidth = g.fbWidth ∧ d.fbHeight = g.fbHeight ∧ d.fbPitch = g.fbPitch

/-- A screen that the layout has set up, wherever its cursor is. -/
structure Console.Framed (g : Graphics) (count : Nat) (con : Console) : Prop where
  area : con.screen.width * con.screen.height ≤ bsMaxPixels
  low : con.screen.height ≤ bsMaxPixels
  narrow : con.screen.width ≤ g.fbWidth
  pixelCount : con.screen.pixelCount = count
  isCount : count = con.screen.width * con.screen.height
  text : con.bufLen < bsBufSize
  display : con.display.Of g

/-- Between two calls the cursor is on the screen, or at the end of one character when the screen is narrower. -/
structure Console.Bounded (g : Graphics) (count : Nat) (con : Console) : Prop extends con.Framed g count where
  column : con.screen.cursorX ≤ max con.screen.width 32
  line : con.screen.cursorY ≤ con.screen.height

/-- The function leaves the screen in its place with its cursor. -/
def Console.Stays (g : Graphics) (con after : Console) : Prop :=
  after.screen = con.screen ∧ after.bufLen = con.bufLen ∧ after.display.Of g

section
variable {g : Graphics} {count x y w h start stop scale : Nat} {con after : Console} {d : Display} {color : BitVec 32}
  {font : Font} {c : BitVec 8}

theorem Console.Framed.stays (framed : con.Framed g count) (stays : con.Stays g after) : after.Framed g count := by
  obtain ⟨screen, text, display⟩ := stays
  refine ⟨?_, ?_, ?_, ?_, ?_, text ▸ framed.text, display⟩ <;> rw [screen]
  · exact framed.area
  · exact framed.low
  · exact framed.narrow
  · exact framed.pixelCount
  · exact framed.isCount

theorem Console.Framed.refl (framed : con.Framed g count) : con.Stays g con := ⟨rfl, rfl, framed.display⟩

theorem Console.Stays.trans {second third : Console} (first : con.Stays g second) (next : second.Stays g third) :
    con.Stays g third :=
  ⟨next.1.trans first.1, next.2.1.trans first.2.1, next.2.2⟩

/-- A cursor that moves leaves the frame. -/
theorem Console.Framed.moveTo (framed : con.Framed g count) (x y : Nat) : (con.moveTo x y).Framed g count :=
  ⟨framed.area, framed.low, framed.narrow, framed.pixelCount, framed.isCount, framed.text, framed.display⟩

/-- A screen is narrower than `2 ^ 30` pixels. -/
theorem Graphics.Usable.width_lt (usable : g.Usable) : g.fbWidth < 2 ^ 30 := by
  have rows := usable.rows
  have small := usable.small
  omega

/-- The word of a pixel of the display lies in its row. -/
theorem Graphics.Usable.display_inside (usable : g.Usable) (same : d.Of g) (inColumn : x < g.fbWidth)
    (inRow : y < g.fbHeight) : wrap32 (y * (d.fbPitch / 4) + x) = d.pixelIndex x y ∧
      (ScreenAccess.display (d.pixelIndex x y)).Inside g count := by
  have bytes := d.pixelIndex_bytes x y (same.2.2 ▸ usable.whole)
  have rows := usable.rows
  have next : (y + 1) * g.fbPitch = y * g.fbPitch + g.fbPitch := Nat.succ_mul _ _
  have last : (y + 1) * g.fbPitch ≤ g.fbHeight * g.fbPitch := Nat.mul_le_mul_right _ inRow
  have total := usable.total
  rw [Nat.mul_comm] at total
  rw [same.2.2] at bytes
  constructor
  · exact Nat.mod_eq_of_lt (by rw [Display.pixelIndex] at bytes; omega)
  · exact ⟨y, inRow, by omega, by omega⟩

theorem putpixelAccesses_safe (usable : g.Usable) (same : d.Of g) (x y : Nat) (color : BitVec 32) :
    (putpixelAccesses d x y color).Safe (ScreenAccess.Inside g count) (Display.Of g) := by
  rw [putpixelAccesses]
  refine Logged.Safe.ite (fun inside => Logged.Safe.access ?_ same) fun _ => Logged.Safe.pure same
  intro entry logged
  rw [same.1, same.2.1] at inside
  obtain ⟨index, stored⟩ := usable.display_inside same inside.1 inside.2
  rw [List.mem_singleton.mp logged, index]
  exact stored

/-- The words of a pixel of a screen do not wrap around. -/
theorem Console.Framed.pixel_inside (framed : con.Framed g count) (inColumn : x < con.screen.width)
    (inRow : y < con.screen.height) : wrap32 (y * con.screen.width + x) = y * con.screen.width + x ∧
      y * con.screen.width + x < count := by
  have shown := pixel_lt inColumn inRow
  have most : bsMaxPixels < 2 ^ 32 := by decide
  rw [framed.isCount]
  exact ⟨Nat.mod_eq_of_lt ((shown.trans_le framed.area).trans most), shown⟩

theorem bsSetpixelAccesses_safe (framed : con.Framed g count) (x y : Nat) (color : BitVec 32) :
    (bsSetpixelAccesses con x y color).Safe (ScreenAccess.Inside g count) (con.Stays g) := by
  rw [bsSetpixelAccesses]
  refine Logged.Safe.ite (fun _ => Logged.Safe.pure framed.refl) fun _ => ?_
  refine Logged.Safe.ite (fun _ => Logged.Safe.pure framed.refl) fun inside => ?_
  refine Logged.Safe.access ?_ ⟨rfl, rfl, framed.display⟩
  intro entry logged
  rw [not_or, not_le, not_le] at inside
  obtain ⟨index, stored⟩ := framed.pixel_inside inside.1 inside.2
  rw [List.mem_singleton.mp logged, index]
  exact stored

theorem bsDrawGlyphAccesses_safe (framed : con.Framed g count) (font : Font) (scale : Nat) (c : BitVec 8)
    (color : BitVec 32) :
    (bsDrawGlyphAccesses font scale con c color).Safe (ScreenAccess.Inside g count) (con.Stays g) := by
  refine Logged.Safe.foldlM framed.refl fun state kept dy _ => ?_
  refine Logged.Safe.foldlM kept fun state kept dx _ => ?_
  refine Logged.Safe.ite (fun _ => Logged.Safe.pure kept) fun _ => ?_
  refine Logged.Safe.foldlM kept fun state kept sy _ => ?_
  refine Logged.Safe.foldlM kept fun state kept sx _ => ?_
  have drawn := bsSetpixelAccesses_safe (framed.stays kept) (wrap32 (state.screen.cursorX + dx * scale + sx))
    (wrap32 (state.screen.cursorY + dy * scale + sy)) color
  exact ⟨drawn.only, fun after returned => kept.trans (drawn.returned after returned)⟩

/-- The rows of a screen that is the whole display are copied from its pixels to their places. -/
theorem flushRows_safe (usable : g.Usable) (framed : con.Framed g count) (wide : con.screen.width = g.fbWidth)
    (high : con.screen.height = g.fbHeight) (ordered : x ≤ stop) (inside : stop ≤ con.screen.width)
    (below : h ≤ con.screen.height) :
    (flushRows con x y stop h).Safe (ScreenAccess.Inside g count) (Display.Of g) := by
  have narrow := usable.width_lt
  have length : wrap32 (stop + 2 ^ 32 - x) = stop - x := by
    unfold wrap32
    omega
  refine Logged.Safe.foldlM framed.display fun d same yy inRange => ?_
  have inRow : yy < con.screen.height := by
    have bounds := List.mem_range'_1.mp inRange
    omega
  have counted : (Logged.access [.span x stop] (wrap32 (stop + 2 ^ 32 - x)) : Painted Nat).Safe
      (ScreenAccess.Inside g count) fun value => value = stop - x :=
    Logged.Safe.access (fun entry logged => by rw [List.mem_singleton.mp logged]; exact ordered) length
  refine counted.bind ?_
  rintro value rfl
  refine Logged.Safe.access ?_ same
  intro entry logged
  rcases List.mem_append.mp logged with read | stored
  · obtain ⟨k, inCount, isEntry⟩ := List.mem_map.mp read
    have small := List.mem_range.mp inCount
    have first := (framed.pixel_inside (show x < con.screen.width by omega) inRow).1
    have loaded := (framed.pixel_inside (show x + k < con.screen.width by omega) inRow).2
    rw [← isEntry, first, Nat.add_assoc]
    exact loaded
  · obtain ⟨k, inCount, isEntry⟩ := List.mem_map.mp stored
    have small := List.mem_range.mp inCount
    rw [wide] at inside
    rw [high] at inRow
    have first := (@Graphics.Usable.display_inside g count _ _ _ usable framed.display (show x < g.fbWidth by omega) inRow).1
    have shown := (@Graphics.Usable.display_inside g count _ _ _ usable framed.display (show x + k < g.fbWidth by omega)
      inRow).2
    rw [← isEntry, first, Display.pixelIndex, Nat.add_assoc]
    exact shown

/-- The pixels of another screen go through `putpixel`. -/
theorem flushPixels_safe (usable : g.Usable) (framed : con.Framed g count) (inside : stop ≤ con.screen.width)
    (below : h ≤ con.screen.height) :
    (flushPixels con x y stop h).Safe (ScreenAccess.Inside g count) (Display.Of g) := by
  refine Logged.Safe.foldlM framed.display fun d same yy inRows => ?_
  refine Logged.Safe.foldlM same fun d same xx inColumns => ?_
  have inRow : yy < con.screen.height := by
    have bounds := List.mem_range'_1.mp inRows
    omega
  have inColumn : xx < con.screen.width := by
    have bounds := List.mem_range'_1.mp inColumns
    omega
  obtain ⟨index, loaded⟩ := framed.pixel_inside inColumn inRow
  have read : (Logged.access [.load (wrap32 (yy * con.screen.width + xx))] (con.words (wrap32 (yy * con.screen.width + xx))) :
      Painted (BitVec 32)).Safe (ScreenAccess.Inside g count) fun _ => True :=
    Logged.Safe.access (fun entry logged => by rw [List.mem_singleton.mp logged, index]; exact loaded) trivial
  exact read.bind fun pixel _ => putpixelAccesses_safe usable same _ _ pixel

theorem flushDisplay_safe (usable : g.Usable) (framed : con.Framed g count) (ordered : x ≤ stop)
    (inside : stop ≤ con.screen.width) (below : h ≤ con.screen.height) :
    (flushDisplay con x y stop h).Safe (ScreenAccess.Inside g count) (Display.Of g) := by
  rw [flushDisplay]
  refine Logged.Safe.ite (fun whole => ?_) fun _ => flushPixels_safe usable framed inside below
  obtain ⟨-, -, -, wide, high⟩ := whole
  exact flushRows_safe usable framed (wide.trans framed.display.1) (high.trans framed.display.2.1) ordered inside below

/-- A rectangle that does not end before its start is flushed inside the bounds. -/
theorem bsFlushRectAccesses_safe (usable : g.Usable) (framed : con.Framed g count)
    (ordered : x ≤ min (wrap32 (x + w)) con.screen.width) :
    (bsFlushRectAccesses con x y w h).Safe (ScreenAccess.Inside g count) (con.Stays g) := by
  rw [bsFlushRectAccesses]
  refine Logged.Safe.ite (fun _ => Logged.Safe.pure framed.refl) fun _ => ?_
  exact (flushDisplay_safe usable framed ordered (min_le_right _ _) (min_le_right _ _)).bind fun d same =>
    Logged.Safe.pure ⟨rfl, rfl, same⟩

theorem bsFlushAccesses_safe (usable : g.Usable) (framed : con.Framed g count) :
    (bsFlushAccesses con).Safe (ScreenAccess.Inside g count) (con.Stays g) :=
  bsFlushRectAccesses_safe usable framed (Nat.zero_le _)

/-- The loads or stores of a run of words lie inside the array when the run does. -/
theorem run_inside {name : Nat → ScreenAccess} (same : ∀ index, index < count → (name index).Inside g count)
    (fits : start + stop ≤ count) : ∀ entry ∈ (List.range stop).map fun k => name (start + k), entry.Inside g count := by
  intro entry logged
  obtain ⟨k, inCount, isEntry⟩ := List.mem_map.mp logged
  have small := List.mem_range.mp inCount
  rw [← isEntry]
  exact same _ (by omega)

theorem blackWords_safe (framed : con.Framed g count) (fits : start + stop ≤ count) :
    (blackWords con start stop).Safe (ScreenAccess.Inside g count) (con.Stays g) :=
  Logged.Safe.access (run_inside (fun _ inside => inside) fits) ⟨rfl, rfl, framed.display⟩

theorem moveWords_safe (framed : con.Framed g count) {dest : Nat} (fits : start + stop ≤ count)
    (fits' : dest + stop ≤ count) :
    (moveWords con dest start stop).Safe (ScreenAccess.Inside g count) (con.Stays g) := by
  refine Logged.Safe.access ?_ ⟨rfl, rfl, framed.display⟩
  intro entry logged
  rcases List.mem_append.mp logged with read | stored
  · exact run_inside (fun _ inside => inside) fits entry read
  · exact run_inside (fun _ inside => inside) fits' entry stored

/-- Two functions that leave the screen in its place leave it there one behind the other. -/
theorem Console.Framed.safe_bind (framed : con.Framed g count) {first : Painted Console} {next : Console → Painted Console}
    (before : first.Safe (ScreenAccess.Inside g count) (con.Stays g))
    (behind : ∀ middle : Console, middle.Framed g count → middle.screen = con.screen →
      (next middle).Safe (ScreenAccess.Inside g count) (middle.Stays g)) :
    (first >>= next).Safe (ScreenAccess.Inside g count) (con.Stays g) := by
  refine before.bind fun middle stays => ?_
  have rest := behind middle (framed.stays stays) stays.1
  exact ⟨rest.only, fun after returned => stays.trans (rest.returned after returned)⟩

theorem bsClearAreaAccesses_safe (usable : g.Usable) (framed : con.Framed g count) :
    (bsClearAreaAccesses con).Safe (ScreenAccess.Inside g count) (con.Stays g) := by
  rw [bsClearAreaAccesses]
  refine Logged.Safe.ite (fun _ => Logged.Safe.pure framed.refl) fun _ => ?_
  exact framed.safe_bind (blackWords_safe framed (by rw [framed.pixelCount, Nat.zero_add]))
    fun middle kept _ => bsFlushAccesses_safe usable kept

/-- A scroll moves and blackens words of the array, and it leaves the cursor at the start of a line of the screen. -/
theorem bsScrollAccesses_safe (usable : g.Usable) (framed : con.Framed g count) (scale : Nat) :
    (bsScrollAccesses scale con).Safe (ScreenAccess.Inside g count) (Console.Bounded g count) := by
  rw [bsScrollAccesses]
  refine Logged.Safe.ite (fun _ => ?_) fun large => ?_
  · refine (bsClearAreaAccesses_safe usable framed).bind fun after stays => Logged.Safe.pure ?_
    exact ⟨(framed.stays stays).moveTo 0 0, Nat.zero_le _, Nat.zero_le _⟩
  · rw [not_or, not_le] at large
    have small : lineH scale < con.screen.height := large.2
    have split : (con.screen.height - lineH scale) * con.screen.width + lineH scale * con.screen.width = count := by
      rw [← Nat.add_mul, Nat.sub_add_cancel small.le, framed.isCount, Nat.mul_comm]
    have area := framed.area
    rw [← framed.isCount] at area
    have most : bsMaxPixels < 2 ^ 32 := by decide
    have kept : wrap32 ((con.screen.height - lineH scale) * con.screen.width) =
        (con.screen.height - lineH scale) * con.screen.width := Nat.mod_eq_of_lt (by omega)
    have line : wrap32 (lineH scale * con.screen.width) = lineH scale * con.screen.width := Nat.mod_eq_of_lt (by omega)
    dsimp only
    rw [kept, line]
    refine (moveWords_safe framed (by omega) (by omega)).bind fun moved stays => ?_
    refine (blackWords_safe (framed.stays stays) (by omega)).bind fun blackened stays' => ?_
    have framed' := (framed.stays stays).stays stays'
    refine (bsFlushAccesses_safe usable framed').bind fun after stays'' => Logged.Safe.pure ?_
    refine ⟨(framed'.stays stays'').moveTo _ _, Nat.zero_le _, ?_⟩
    have screen := (stays.trans (stays'.trans stays'')).1
    show con.screen.height - lineH scale ≤ after.screen.height
    rw [screen]
    exact Nat.sub_le _ _

/-- A character is drawn at a cursor from which it does not wrap around. -/
theorem bsPrintAccesses_safe (usable : g.Usable) (framed : con.Framed g count) (small : scale ≤ 4)
    (fits : con.screen.cursorX = 0 ∨ con.screen.cursorX + 8 * scale < con.screen.width) (font : Font) (c : BitVec 8)
    (color : BitVec 32) :
    (bsPrintAccesses font scale con c color).Safe (ScreenAccess.Inside g count) fun after => after.Framed g count ∧
      after.screen.width = con.screen.width ∧ after.screen.height = con.screen.height ∧
      after.screen.cursorX = con.screen.cursorX + 8 * scale ∧ after.screen.cursorY = con.screen.cursorY := by
  have narrow := framed.narrow
  have width := usable.width_lt
  rw [bsPrintAccesses]
  refine (bsDrawGlyphAccesses_safe framed font scale c color).bind fun drawn stays => ?_
  have framed' := framed.stays stays
  have screen := stays.1
  have advanced : wrap32 (con.screen.cursorX + 8 * scale) = con.screen.cursorX + 8 * scale :=
    Nat.mod_eq_of_lt (by omega)
  rw [charW_eq small]
  refine Logged.Safe.bind (bsFlushRectAccesses_safe usable framed' ?_) fun after stays' => Logged.Safe.pure ?_
  · rw [screen, advanced]
    omega
  · have same := stays'.1.trans screen
    have width' : after.screen.width = con.screen.width := by rw [same]
    have height' : after.screen.height = con.screen.height := by rw [same]
    rw [same]
    exact ⟨(framed'.stays stays').moveTo _ _, width', height', advanced, rfl⟩

/-- A character leaves the cursor on the screen, or below it when the screen has no line left. -/
theorem bsPlaceAccesses_safe (usable : g.Usable) (bounded : con.Bounded g count) (small : scale ≤ 4) (font : Font)
    (c : BitVec 8) (color : BitVec 32) :
    (bsPlaceAccesses font scale con c color).Safe (ScreenAccess.Inside g count) fun after => after.Framed g count ∧
      after.screen.cursorX ≤ max after.screen.width 32 ∧ after.screen.cursorY ≤ after.screen.height + 40 := by
  have narrow := bounded.narrow
  have width := usable.width_lt
  have column := bounded.column
  have line := bounded.line
  have low := bounded.low
  have most : bsMaxPixels < 2 ^ 31 := by decide
  have nextLine : wrap32 (con.screen.cursorY + lineH scale) = con.screen.cursorY + 10 * scale := by
    rw [lineH_eq small]
    exact Nat.mod_eq_of_lt (by omega)
  have framed := bounded.toFramed.moveTo 0 (wrap32 (con.screen.cursorY + lineH scale))
  rw [bsPlaceAccesses]
  refine Logged.Safe.ite (fun _ => ?_) fun _ => Logged.Safe.ite (fun _ => ?_) fun room => ?_
  · refine Logged.Safe.pure ⟨framed, Nat.zero_le _, ?_⟩
    show wrap32 (con.screen.cursorY + lineH scale) ≤ con.screen.height + 40
    omega
  · have printed := bsPrintAccesses_safe usable framed small (Or.inl rfl) font c color
    refine ⟨printed.only, fun after returned => ?_⟩
    obtain ⟨framed', width', height', cursorX, cursorY⟩ := printed.returned after returned
    refine ⟨framed', ?_, ?_⟩
    · rw [cursorX]
      show 0 + 8 * scale ≤ _
      omega
    · rw [cursorY, height']
      show wrap32 (con.screen.cursorY + lineH scale) ≤ con.screen.height + 40
      omega
  · rw [charW_eq small, wrap32, Nat.mod_eq_of_lt (by omega)] at room
    have printed := bsPrintAccesses_safe usable bounded.toFramed small (Or.inr (Nat.lt_of_not_le room)) font c color
    refine ⟨printed.only, fun after returned => ?_⟩
    obtain ⟨framed', width', height', cursorX, cursorY⟩ := printed.returned after returned
    refine ⟨framed', ?_, ?_⟩
    · rw [cursorX, width']
      omega
    · rw [cursorY, height']
      omega

/-- The test for the end of the screen brings the cursor back to it. -/
theorem bsScrollFull_safe (usable : g.Usable) (framed : con.Framed g count) (small : scale ≤ 4)
    (column : con.screen.cursorX ≤ max con.screen.width 32) (line : con.screen.cursorY ≤ con.screen.height + 40) :
    (bsScrollFull scale con).Safe (ScreenAccess.Inside g count) (Console.Bounded g count) := by
  have low := framed.low
  have most : bsMaxPixels < 2 ^ 31 := by decide
  rw [bsScrollFull]
  refine Logged.Safe.ite (fun _ => bsScrollAccesses_safe usable framed scale) fun room => Logged.Safe.pure ?_
  rw [Console.Full, lineH_eq small, wrap32, Nat.mod_eq_of_lt (by omega)] at room
  exact ⟨framed, column, by omega⟩

theorem bsRecordAccesses_safe (bounded : con.Bounded g count) (c : BitVec 8) :
    (bsRecordAccesses con c).Safe (ScreenAccess.Inside g count) (Console.Bounded g count) := by
  rw [bsRecordAccesses]
  split
  · refine Logged.Safe.ite (fun room => ?_) fun _ => Logged.Safe.pure bounded
    have next : con.bufLen + 1 < bsBufSize := by omega
    refine Logged.Safe.access ?_ ⟨⟨bounded.area, bounded.low, bounded.narrow, bounded.pixelCount, bounded.isCount, next,
      bounded.display⟩, bounded.column, bounded.line⟩
    intro entry logged
    rcases List.mem_cons.mp logged with first | second
    · rw [first]
      exact bounded.text
    · rw [List.mem_singleton.mp second]
      exact next
  · exact Logged.Safe.pure bounded

/-- A character is printed inside the bounds and leaves the cursor on the screen. -/
theorem bsPutcharAccesses_safe (usable : g.Usable) (bounded : con.Bounded g count) (small : scale ≤ 4) (font : Font)
    (c : BitVec 8) (color : BitVec 32) :
    (bsPutcharAccesses font scale con c color).Safe (ScreenAccess.Inside g count) (Console.Bounded g count) := by
  rw [bsPutcharAccesses]
  refine Logged.Safe.ite (fun _ => Logged.Safe.pure bounded) fun _ => ?_
  refine (bsPlaceAccesses_safe usable bounded small font c color).bind fun placed held => ?_
  refine (bsScrollFull_safe usable held.1 small held.2.1 held.2.2).bind fun scrolled kept => ?_
  exact bsRecordAccesses_safe kept c

theorem bsPrintText_safe (usable : g.Usable) (bounded : con.Bounded g count) (small : scale ≤ 4) (font : Font)
    (str : List (BitVec 8)) (color : BitVec 32) :
    (bsPrintText font scale con str color).Safe (ScreenAccess.Inside g count) (Console.Bounded g count) :=
  Logged.Safe.foldlM bounded fun _ kept c _ => bsPutcharAccesses_safe usable kept small font c color

/-- The screen stays bounded when it stays in its place. -/
theorem Console.Bounded.stays (bounded : con.Bounded g count) (stays : con.Stays g after) : after.Bounded g count := by
  refine ⟨bounded.toFramed.stays stays, ?_, ?_⟩ <;> rw [stays.1]
  · exact bounded.column
  · exact bounded.line

theorem bsPutpixel_safe (usable : g.Usable) (bounded : con.Bounded g count) (x y : Nat) (color : BitVec 32) :
    (bsPutpixel con x y color).Safe (ScreenAccess.Inside g count) (Console.Bounded g count) := by
  rw [bsPutpixel]
  refine Logged.Safe.ite (fun _ => Logged.Safe.pure bounded) fun _ => ?_
  refine (bsSetpixelAccesses_safe bounded.toFramed x y color).bind fun set stays => ?_
  refine (putpixelAccesses_safe usable stays.2.2 _ _ color).bind fun d same => Logged.Safe.pure ?_
  exact (bounded.stays stays).stays ⟨rfl, rfl, same⟩

theorem bsResetText_safe (bounded : con.Bounded g count) :
    (bsResetText con).Safe (ScreenAccess.Inside g count) (Console.Bounded g count) := by
  have empty : 0 < bsBufSize := by decide
  rw [bsResetText]
  split
  · exact Logged.Safe.pure ⟨⟨bounded.area, bounded.low, bounded.narrow, bounded.pixelCount, bounded.isCount, empty,
      bounded.display⟩, bounded.column, bounded.line⟩
  · refine Logged.Safe.access ?_ ⟨⟨bounded.area, bounded.low, bounded.narrow, bounded.pixelCount, bounded.isCount, empty,
      bounded.display⟩, bounded.column, bounded.line⟩
    intro entry logged
    rw [List.mem_singleton.mp logged]
    exact empty

theorem bsClear_safe (usable : g.Usable) (bounded : con.Bounded g count) :
    (bsClear con).Safe (ScreenAccess.Inside g count) (Console.Bounded g count) := by
  rw [bsClear]
  refine (bsClearAreaAccesses_safe usable bounded.toFramed).bind fun cleared stays => ?_
  exact bsResetText_safe ⟨(bounded.toFramed.stays stays).moveTo 0 0, Nat.zero_le _, Nat.zero_le _⟩

end

end DoccrOS.Screen
