import DoccrOS.Construction.Screen.Console
import DoccrOS.Construction.Types
import DoccrOS.Lib.Logged

namespace DoccrOS.Screen
open Lib

/-- An access of the functions of a screen: a load or a store of a word of its pixel array, a store of a word of the
framebuffer, a store of a byte of its text, or the start and the end of the row that `bs_flush_rect` copies. -/
inductive ScreenAccess where
  | load (index : Nat)
  | store (index : Nat)
  | display (index : Nat)
  | text (index : Nat)
  | span (start stop : Nat)
deriving DecidableEq, Repr

/-- A computation with its accesses. -/
abbrev Painted (A : Type) := Logged ScreenAccess Halt A

def putpixelAccesses (d : Display) (x y : Nat) (color : BitVec 32) : Painted Display :=
  if x < d.fbWidth ∧ y < d.fbHeight then
    .access [.display (wrap32 (y * (d.fbPitch / 4) + x))] { d with
      framebuffer := d.framebuffer.map fun fb => Function.update fb (wrap32 (y * (d.fbPitch / 4) + x)) color }
  else pure d

/-- The call `memcpy` from the pixel array to the framebuffer. -/
def copyRow (d : Display) (words : Nat → BitVec 32) (dest start count : Nat) : Painted Display :=
  .access (((List.range count).map fun k => .load (start + k)) ++ (List.range count).map fun k => .display (dest + k))
    { d with framebuffer := d.framebuffer.map fun fb => copyWords fb words dest start count }

def bsSetpixelAccesses (con : Console) (x y : Nat) (color : BitVec 32) : Painted Console :=
  if con.screen.pixels = .null then pure con
  else if x ≥ con.screen.width ∨ y ≥ con.screen.height then pure con
  else
    .access [.store (wrap32 (y * con.screen.width + x))]
      { con with words := Function.update con.words (wrap32 (y * con.screen.width + x)) color }

def bsDrawGlyphAccesses (font : Font) (scale : Nat) (con : Console) (c : BitVec 8) (color : BitVec 32) : Painted Console :=
  (List.range 8).foldlM (fun con dy =>
    (List.range 8).foldlM (fun con dx =>
      if (font c dy).getLsbD (7 - dx) = false then pure con
      else
        (List.range scale).foldlM (fun con sy =>
          (List.range scale).foldlM (fun con sx =>
            bsSetpixelAccesses con (wrap32 (con.screen.cursorX + dx * scale + sx))
              (wrap32 (con.screen.cursorY + dy * scale + sy)) color)
            con) con) con) con

/-- The loop of `bs_flush_rect` for a screen that is the whole display. -/
def flushRows (con : Console) (x y endX endY : Nat) : Painted Display :=
  (List.range' y (endY - y)).foldlM (fun d yy => do
    let count ← .access [.span x endX] (wrap32 (endX + 2 ^ 32 - x))
    copyRow d con.words (wrap32 (yy * (con.display.fbPitch / 4) + x)) (wrap32 (yy * con.screen.width + x)) count) con.display

/-- The loop of `bs_flush_rect` for the other screens. -/
def flushPixels (con : Console) (x y endX endY : Nat) : Painted Display :=
  (List.range' y (endY - y)).foldlM (fun d yy =>
    (List.range' x (endX - x)).foldlM (fun d xx => do
      let pixel ← .access [.load (wrap32 (yy * con.screen.width + xx))] (con.words (wrap32 (yy * con.screen.width + xx)))
      putpixelAccesses d (wrap32 (con.screen.x + xx)) (wrap32 (con.screen.y + yy)) pixel) d) con.display

/-- The choice of `bs_flush_rect` between its two loops. -/
def flushDisplay (con : Console) (x y endX endY : Nat) : Painted Display :=
  if con.display.framebuffer.isSome ∧ con.screen.x = 0 ∧ con.screen.y = 0 ∧ con.screen.width = con.display.fbWidth ∧
      con.screen.height = con.display.fbHeight then flushRows con x y endX endY
  else flushPixels con x y endX endY

def bsFlushRectAccesses (con : Console) (x y w h : Nat) : Painted Console :=
  if con.screen.pixels = .null then pure con
  else do
    let display ← flushDisplay con x y (min (wrap32 (x + w)) con.screen.width) (min (wrap32 (y + h)) con.screen.height)
    return { con with display }

def bsFlushAccesses (con : Console) : Painted Console := bsFlushRectAccesses con 0 0 con.screen.width con.screen.height

/-- The loop that blackens words of the pixel array. -/
def blackWords (con : Console) (start count : Nat) : Painted Console :=
  .access ((List.range count).map fun k => .store (start + k))
    { con with words := fun i => if start ≤ i ∧ i < start + count then black else con.words i }

def bsClearAreaAccesses (con : Console) : Painted Console :=
  if con.screen.pixels = .null then pure con
  else do
    let con ← blackWords con 0 con.screen.pixelCount
    bsFlushAccesses con

/-- The call `memmove` inside the pixel array. -/
def moveWords (con : Console) (dest start count : Nat) : Painted Console :=
  .access (((List.range count).map fun k => .load (start + k)) ++ (List.range count).map fun k => .store (dest + k))
    { con with words := copyWords con.words con.words dest start count }

def bsScrollAccesses (scale : Nat) (con : Console) : Painted Console :=
  if con.screen.pixels = .null ∨ lineH scale ≥ con.screen.height then do
    let con ← bsClearAreaAccesses con
    return con.moveTo 0 0
  else do
    let scr := con.screen
    let keepRows := scr.height - lineH scale
    let con ← moveWords con 0 (wrap32 (lineH scale * scr.width)) (wrap32 (keepRows * scr.width))
    let con ← blackWords con (wrap32 (keepRows * scr.width)) (wrap32 (lineH scale * scr.width))
    let con ← bsFlushAccesses con
    return con.moveTo 0 keepRows

def bsPrintAccesses (font : Font) (scale : Nat) (con : Console) (c : BitVec 8) (color : BitVec 32) : Painted Console := do
  let con ← bsDrawGlyphAccesses font scale con c color
  let con ← bsFlushRectAccesses con con.screen.cursorX con.screen.cursorY (charW scale) (charW scale)
  return con.moveTo (wrap32 (con.screen.cursorX + charW scale)) con.screen.cursorY

def bsPlaceAccesses (font : Font) (scale : Nat) (con : Console) (c : BitVec 8) (color : BitVec 32) : Painted Console :=
  if c = 0x0A then pure (con.newline scale)
  else if wrap32 (con.screen.cursorX + charW scale) ≥ con.screen.width then
    bsPrintAccesses font scale (con.newline scale) c color
  else bsPrintAccesses font scale con c color

def bsRecordAccesses (con : Console) (c : BitVec 8) : Painted Console :=
  match con.buffer with
  | some buffer =>
    if con.bufLen < bsBufSize - 1 then
      .access [.text con.bufLen, .text (con.bufLen + 1)] { con with
        buffer := some (Function.update (Function.update buffer con.bufLen c) (con.bufLen + 1) 0)
        bufLen := con.bufLen + 1 }
    else pure con
  | none => pure con

/-- The scroll of a screen that ran out of space. -/
def bsScrollFull (scale : Nat) (con : Console) : Painted Console :=
  if con.Full scale then bsScrollAccesses scale con else pure con

def bsPutcharAccesses (font : Font) (scale : Nat) (con : Console) (c : BitVec 8) (color : BitVec 32) : Painted Console :=
  if con.visible = false then pure con
  else do
    let con ← bsPlaceAccesses font scale con c color
    let con ← bsScrollFull scale con
    bsRecordAccesses con c

end DoccrOS.Screen
