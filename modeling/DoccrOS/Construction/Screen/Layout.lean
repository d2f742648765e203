import DoccrOS.Construction.Mem.Paging

namespace DoccrOS.Screen
open Mem

/-- This is the part of `limine_framebuffer` that the kernel reads. -/
structure LimineFramebuffer where
  width : BitVec 64
  height : BitVec 64
  pitch : BitVec 64
  bpp : BitVec 16
deriving DecidableEq

/-- The variables of the framebuffer in `graphics.c`. -/
structure Graphics where
  fbWidth : Nat
  fbHeight : Nat
  fbPitch : Nat
  fbBpp : Nat
  fbSize : Nat
deriving DecidableEq

/-- The part of `graphics_init` that reads the geometry. The stores cut it to 32 bits. -/
def graphicsInit (fb : LimineFramebuffer) : Graphics :=
  let fbHeight := wrap32 fb.height.toNat
  let fbPitch := wrap32 fb.pitch.toNat
  ⟨wrap32 fb.width.toNat, fbHeight, fbPitch, fb.bpp.toNat, wrap64 (fbPitch * fbHeight)⟩

/-- The four screens `BS1` to `BS4`. -/
inductive ScreenId where
  | bs1
  | bs2
  | bs3
  | bs4
deriving DecidableEq, Repr

/-- A pixel pointer: `NULL`, the static array of a screen, or a physical address through the direct map. -/
inductive Pixels where
  | null
  | static (screen : ScreenId)
  | direct (phys : Nat)
deriving DecidableEq, Repr

/-- This is `bs_screen_t`. -/
structure BsScreen where
  cursorX : Nat
  cursorY : Nat
  x : Nat
  y : Nat
  width : Nat
  height : Nat
  pixels : Pixels
  pixelCount : Nat
  pixelsPhys : Nat
deriving DecidableEq

/-- The array `bs.Screens`. -/
abbrev Screens := ScreenId → BsScreen

/-- This is `BS_MAX_PIXELS`. -/
def bsMaxPixels : Nat := 1920 * 1080

/-- The result holds the width and the height. -/
def bsSizeClamp (width height : Nat) : Nat × Nat :=
  if width = 0 then (width, 0)
  else if wrap64 (width * height) ≤ bsMaxPixels then (width, height)
  else (width, bsMaxPixels / width)

def bsSetupScreen (bs : Screens) (screen : ScreenId) (pixels : Pixels) (x y width height : Nat) : Screens :=
  let (width, height) := bsSizeClamp width height
  Function.update bs screen ⟨0, 0, x, y, width, height, pixels, wrap32 (width * height), 0⟩

def bootscreenLayoutInit (g : Graphics) (bs : Screens) : Screens :=
  let fw := g.fbWidth
  let fh := g.fbHeight
  let half := fw / 2
  let mid := fh / 2
  let bs := bsSetupScreen bs .bs1 (.static .bs1) 0 0 half fh
  let bs := bsSetupScreen bs .bs2 (.static .bs2) half 0 half mid
  let bs := bsSetupScreen bs .bs3 .null 0 0 fw fh
  bsSetupScreen bs .bs4 (.static .bs4) half mid half (fh - mid)

/-- The number of pages of a size in bytes. -/
def pagesOfSize (size : Nat) : Nat := wrap64 (size + pageSize - 1) / pageSize

/-- The number of pages that `bootscreen_bs3_init_backbuffer` asks for. -/
def backbufferPages (scr : BsScreen) : Nat := pagesOfSize (wrap64 (wrap64 (scr.width * scr.height) * 4))

/-- The call `memset(pixels, 0, page_count * PAGE_SIZE)` on whole pages. -/
def zeroPages (m : Machine) (phys pageCount : Nat) : Machine :=
  (List.range pageCount).foldl (fun m i => m.zeroPage (phys + i * pageSize)) m

/-- The screen `BS3` stays without pixels when no run of frames is free. -/
def bootscreenBs3InitBackbuffer (bs : Screens) (m : Machine) : Screens × Machine :=
  let scr := bs .bs3
  let pageCount := backbufferPages scr
  let (phys, p) := physmemAllocTo m.phys pageCount
  let m : Machine := { m with phys := p }
  if phys = 0 then (bs, m)
  else (Function.update bs .bs3 { scr with pixels := .direct phys, pixelsPhys := phys }, zeroPages m phys pageCount)

end DoccrOS.Screen
