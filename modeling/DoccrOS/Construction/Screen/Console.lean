import DoccrOS.Construction.Screen.Layout

namespace DoccrOS.Screen

/-- The framebuffer of the display. -/
structure Display where
  framebuffer : Option (Nat → BitVec 32)
  fbWidth : Nat
  fbHeight : Nat
  fbPitch : Nat

/-- The active screen, with the words at its pixel pointer and its copy of the text. -/
structure Console where
  screen : BsScreen
  visible : Bool
  words : Nat → BitVec 32
  buffer : Option (Nat → BitVec 8)
  bufLen : Nat
  display : Display

/-- This is `font_8x8`: the row of a character. -/
abbrev Font := BitVec 8 → Nat → BitVec 8

def black : BitVec 32 := 0xFF000000

/-- This is `BS_BUF_SIZE`. -/
def bsBufSize : Nat := 4096

def putpixel (d : Display) (x y : Nat) (color : BitVec 32) : Display :=
  if x < d.fbWidth ∧ y < d.fbHeight then
    { d with framebuffer := d.framebuffer.map fun fb => Function.update fb (wrap32 (y * (d.fbPitch / 4) + x)) color }
  else d

/-- The call `memcpy` on words. -/
def copyWords (target source : Nat → BitVec 32) (dest start count : Nat) : Nat → BitVec 32 :=
  fun i => if dest ≤ i ∧ i < dest + count then source (start + (i - dest)) else target i

def bsSetpixel (con : Console) (x y : Nat) (color : BitVec 32) : Console :=
  if con.screen.pixels = .null then con
  else if x ≥ con.screen.width ∨ y ≥ con.screen.height then con
  else { con with words := Function.update con.words (wrap32 (y * con.screen.width + x)) color }

def bsDrawGlyph (font : Font) (scale : Nat) (con : Console) (c : BitVec 8) (color : BitVec 32) : Console :=
  (List.range 8).foldl (fun con dy =>
    (List.range 8).foldl (fun con dx =>
      if (font c dy).getLsbD (7 - dx) = false then con
      else
        (List.range scale).foldl (fun con sy =>
          (List.range scale).foldl (fun con sx =>
            bsSetpixel con (wrap32 (con.screen.cursorX + dx * scale + sx)) (wrap32 (con.screen.cursorY + dy * scale + sy)) color)
            con) con) con) con

def bsFlushRect (con : Console) (x y w h : Nat) : Console :=
  if con.screen.pixels = .null then con
  else
    let scr := con.screen
    let endX := min (wrap32 (x + w)) scr.width
    let endY := min (wrap32 (y + h)) scr.height
    let stride := con.display.fbPitch / 4
    if con.display.framebuffer.isSome ∧ scr.x = 0 ∧ scr.y = 0 ∧ scr.width = con.display.fbWidth ∧
        scr.height = con.display.fbHeight then
      { con with
        display := (List.range' y (endY - y)).foldl (fun d yy =>
          { d with
            framebuffer := d.framebuffer.map fun fb =>
              copyWords fb con.words (wrap32 (yy * stride + x)) (wrap32 (yy * scr.width + x)) (wrap32 (endX + 2 ^ 32 - x)) })
          con.display }
    else
      { con with
        display := (List.range' y (endY - y)).foldl (fun d yy =>
          (List.range' x (endX - x)).foldl (fun d xx =>
            putpixel d (wrap32 (scr.x + xx)) (wrap32 (scr.y + yy)) (con.words (wrap32 (yy * scr.width + xx)))) d)
          con.display }

def bsFlush (con : Console) : Console := bsFlushRect con 0 0 con.screen.width con.screen.height

def bsClearArea (con : Console) : Console :=
  if con.screen.pixels = .null then con
  else bsFlush { con with words := fun i => if i < con.screen.pixelCount then black else con.words i }

/-- The width of a character. -/
def charW (scale : Nat) : Nat := wrap32 (8 * scale)

/-- The height of a line of text. -/
def lineH (scale : Nat) : Nat := wrap32 (8 * scale + 2 * scale)

/-- The cursor of the screen is set. -/
def Console.moveTo (con : Console) (x y : Nat) : Console := { con with screen := { con.screen with cursorX := x, cursorY := y } }

def bsScroll (scale : Nat) (con : Console) : Console :=
  if con.screen.pixels = .null ∨ lineH scale ≥ con.screen.height then (bsClearArea con).moveTo 0 0
  else
    let keepRows := con.screen.height - lineH scale
    let kept := copyWords con.words con.words 0 (wrap32 (lineH scale * con.screen.width)) (wrap32 (keepRows * con.screen.width))
    let bottom := wrap32 (keepRows * con.screen.width)
    let words := fun i => if bottom ≤ i ∧ i < bottom + wrap32 (lineH scale * con.screen.width) then black else kept i
    (bsFlush { con with words }).moveTo 0 keepRows

/-- The start of the next line. -/
def Console.newline (scale : Nat) (con : Console) : Console := con.moveTo 0 (wrap32 (con.screen.cursorY + lineH scale))

/-- The character is drawn at the cursor, which advances. -/
def bsPrint (font : Font) (scale : Nat) (con : Console) (c : BitVec 8) (color : BitVec 32) : Console :=
  let drawn := bsDrawGlyph font scale con c color
  let flushed := bsFlushRect drawn drawn.screen.cursorX drawn.screen.cursorY (charW scale) (charW scale)
  flushed.moveTo (wrap32 (flushed.screen.cursorX + charW scale)) flushed.screen.cursorY

/-- The part of `bs_putchar` before the test for the end of the screen. -/
def bsPlace (font : Font) (scale : Nat) (con : Console) (c : BitVec 8) (color : BitVec 32) : Console :=
  if c = 0x0A then con.newline scale
  else if wrap32 (con.screen.cursorX + charW scale) ≥ con.screen.width then bsPrint font scale (con.newline scale) c color
  else bsPrint font scale con c color

/-- The test of `bs_putchar` for the end of the screen. -/
abbrev Console.Full (scale : Nat) (con : Console) : Prop := wrap32 (con.screen.cursorY + lineH scale) ≥ con.screen.height

/-- The copy of the text in the buffer of the screen. -/
def bsRecord (con : Console) (c : BitVec 8) : Console :=
  match con.buffer with
  | some buffer =>
    if con.bufLen < bsBufSize - 1 then
      { con with
        buffer := some (Function.update (Function.update buffer con.bufLen c) (con.bufLen + 1) 0)
        bufLen := con.bufLen + 1 }
    else con
  | none => con

def bsPutchar (font : Font) (scale : Nat) (con : Console) (c : BitVec 8) (color : BitVec 32) : Console :=
  if con.visible = false then con
  else
    let placed := bsPlace font scale con c color
    bsRecord (if placed.Full scale then bsScroll scale placed else placed) c

end DoccrOS.Screen
