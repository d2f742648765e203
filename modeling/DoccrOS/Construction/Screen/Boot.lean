import DoccrOS.Construction.Screen.Accesses

namespace DoccrOS.Screen
open Lib

/-- The array `bs.Screens`, `active_screen` and `font_scale`. All screens share the display, so that the display that a
stored console carries is not read. -/
structure BootScreens where
  consoles : ScreenId → Console
  active : ScreenId
  fontScale : Nat
  display : Display

/-- A computation with the accesses of each screen. -/
abbrev BootPainted (A : Type) := Logged (ScreenId × ScreenAccess) Halt A

/-- The screen of a number, if it passes `screen < 0 || screen >= BS_COUNT`. -/
def screenOf : Int → Option ScreenId
  | 0 => some .bs1
  | 1 => some .bs2
  | 2 => some .bs3
  | 3 => some .bs4
  | _ => none

def BootScreens.console (s : BootScreens) (screen : ScreenId) : Console := { s.consoles screen with display := s.display }

/-- A function of one screen changes this screen and the display. -/
def BootScreens.paint (s : BootScreens) (screen : ScreenId) (call : Console → Painted Console) : BootPainted BootScreens := do
  let con ← (call (s.console screen)).tag fun access => (screen, access)
  return { s with consoles := Function.update s.consoles screen con, display := con.display }

/-- A function of a screen with a number. -/
def BootScreens.paintNumbered (s : BootScreens) (screen : Int) (call : Console → Painted Console) : BootPainted BootScreens :=
  match screenOf screen with
  | none => pure s
  | some screen => s.paint screen call

def bsSwitchScreen (s : BootScreens) (screen : Int) : BootScreens :=
  match screenOf screen with
  | none => s
  | some screen => { s with active := screen }

def bsScreensVisible (s : BootScreens) (screen : Int) (on : Bool) : BootScreens :=
  match screenOf screen with
  | none => s
  | some screen => { s with consoles := Function.update s.consoles screen { s.consoles screen with visible := on } }

/-- The loop of `bs_print` over the characters of a string. -/
def bsPrintText (font : Font) (scale : Nat) (con : Console) (str : List (BitVec 8)) (color : BitVec 32) : Painted Console :=
  (str.takeWhile fun c => decide (c ≠ 0)).foldlM (fun con c => bsPutcharAccesses font scale con c color) con

def bsPutpixel (con : Console) (x y : Nat) (color : BitVec 32) : Painted Console :=
  if con.visible = false then pure con
  else do
    let con ← bsSetpixelAccesses con x y color
    let display ← putpixelAccesses con.display (wrap32 (con.screen.x + x)) (wrap32 (con.screen.y + y)) color
    return { con with display }

/-- The part of `bs_clear` that empties the text. -/
def bsResetText (con : Console) : Painted Console :=
  match con.buffer with
  | none => pure { con with bufLen := 0 }
  | some buffer => .access [.text 0] { con with buffer := some (Function.update buffer 0 0), bufLen := 0 }

def bsClear (con : Console) : Painted Console := do
  let con ← bsClearAreaAccesses con
  bsResetText (con.moveTo 0 0)

def setFontScale (s : BootScreens) (scale : Nat) : BootScreens :=
  if scale ≥ 1 ∧ scale ≤ 4 then { s with fontScale := scale } else s

/-- The screen `BS3` gets the run of frames at `phys` that `physmem_alloc_to` gave to `bootscreen_bs3_init_backbuffer`. -/
def setBackbuffer (s : BootScreens) (phys : Nat) : BootScreens :=
  if phys = 0 then s
  else
    let con := s.consoles .bs3
    { s with
      consoles := Function.update s.consoles .bs3 { con with
        screen := { con.screen with pixels := .direct phys, pixelsPhys := phys }
        words := fun _ => 0 } }

/-- The screens after `bs_init`, which clears them, and `bootscreen_layout_init`, with the font scale of `graphics_init`. -/
def layoutScreens (g : Graphics) (framebuffer : Option (Nat → BitVec 32)) : BootScreens :=
  let display := ⟨framebuffer, g.fbWidth, g.fbHeight, g.fbPitch⟩
  let bs := bootscreenLayoutInit g fun _ => ⟨0, 0, 0, 0, 0, 0, .null, 0, 0⟩
  ⟨fun screen => ⟨bs screen, true, fun _ => 0, some fun _ => 0, 0, display⟩, .bs1, 1, display⟩

/-- A call of a function of `bs`, a change of the font scale, or the set-up of the backbuffer of `BS3`. -/
inductive ScreenOp where
  | switchScreen (screen : Int)
  | screensVisible (screen : Int) (on : Bool)
  | putchar (c : BitVec 8) (color : BitVec 32)
  | print (str : List (BitVec 8)) (color : BitVec 32)
  | putpixel (x y color : BitVec 32)
  | clear (screen : Int)
  | flush (screen : Int)
  | setFontScale (scale : BitVec 32)
  | setBackbuffer (phys : Nat)

def BootScreens.call (font : Font) (s : BootScreens) : ScreenOp → BootPainted BootScreens
  | .switchScreen screen => pure (bsSwitchScreen s screen)
  | .screensVisible screen on => pure (bsScreensVisible s screen on)
  | .putchar c color => s.paint s.active fun con => bsPutcharAccesses font s.fontScale con c color
  | .print str color => s.paint s.active fun con => bsPrintText font s.fontScale con str color
  | .putpixel x y color => s.paint s.active fun con => bsPutpixel con x.toNat y.toNat color
  | .clear screen => s.paintNumbered screen bsClear
  | .flush screen => s.paintNumbered screen bsFlushAccesses
  | .setFontScale scale => pure (Screen.setFontScale s scale.toNat)
  | .setBackbuffer phys => pure (Screen.setBackbuffer s phys)

/-- The screens after a sequence of calls. -/
def BootScreens.calls (font : Font) (s : BootScreens) (ops : List ScreenOp) : BootPainted BootScreens :=
  ops.foldlM (BootScreens.call font) s

end DoccrOS.Screen
