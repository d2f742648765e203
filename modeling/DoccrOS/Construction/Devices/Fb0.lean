import DoccrOS.Construction.Mem.Vmm
import DoccrOS.Construction.Screen.Accesses
import DoccrOS.Construction.Screen.Layout

namespace DoccrOS.Devices
open Mem Screen

/-- This is `FB_MAP_VADDR`. -/
def fbMapVaddr : Nat := 0x600000000000

/-- This is `fb_handle_t` without its owner. -/
structure FbHandle where
  mapped : Bool
  vaddr : Nat
deriving DecidableEq

/-- A user of the device: the machine, the handle, and the address space of its owner, if both pointers are set. -/
structure FbState where
  machine : Machine
  handle : FbHandle
  space : Option Space

/-- The result of `fb0_ioctl` and the value that it stores at `arg`. -/
structure FbReply where
  value : Int
  stored : Option Nat
deriving DecidableEq

/-- The flag `capable` tells whether a current process has `CAP_FRAMEBUFFER`, and `kmallocOk` is the outcome of `kmalloc`. -/
def fb0Open (bs : Screens) (capable kmallocOk : Bool) : Option FbHandle :=
  if (bs .bs3).pixels = .null || (bs .bs3).pixelsPhys = 0 then none
  else if !capable then none
  else if !kmallocOk then none
  else some ⟨false, 0⟩

/-- The number of pages that `FB_IOCTL_MAP` maps. -/
def fbMapPages (g : Graphics) : Nat := pagesOfSize (wrap32 (g.fbPitch * g.fbHeight))

def fbMapFlags : BitVec 32 := vmmRegionUser ||| vmmRegionRead ||| vmmRegionWrite

/-- The case `FB_IOCTL_MAP`. -/
def fb0IoctlMap (g : Graphics) (bs : Screens) (s : FbState) (arg : Nat) (nodeOk : Bool) : Result (FbReply × FbState) :=
  if arg = 0 then .ok (⟨-1, none⟩, s)
  else
    match s.space with
    | none => .ok (⟨-1, none⟩, s)
    | some space =>
      if s.handle.mapped then .ok (⟨0, some s.handle.vaddr⟩, s)
      else
        let phys := (bs .bs3).pixelsPhys
        if phys = 0 then .ok (⟨-1, none⟩, s)
        else do
          let (vaddr, m, space) ← vmmMapPhys s.machine space fbMapVaddr phys (fbMapPages g) fbMapFlags nodeOk
          if vaddr = 0 then return (⟨-1, none⟩, ⟨m, s.handle, some space⟩)
          else return (⟨0, some vaddr⟩, ⟨m, ⟨true, vaddr⟩, some space⟩)

/-- The case `FB_IOCTL_UNMAP`. The call `vmm_unmap_phys` is `vmm_space_free`. -/
def fb0IoctlUnmap (s : FbState) : FbReply × FbState :=
  if !s.handle.mapped then (⟨0, none⟩, s)
  else
    match s.space with
    | none => (⟨-1, none⟩, s)
    | some space =>
      let (m, space) := vmmSpaceFree s.machine space s.handle.vaddr
      (⟨0, none⟩, ⟨m, ⟨false, 0⟩, some space⟩)

end DoccrOS.Devices

namespace DoccrOS.Devices
open Lib Screen

/-- This is `fb_rect_t`. -/
structure FbRect where
  x : BitVec 32
  y : BitVec 32
  width : BitVec 32
  height : BitVec 32
deriving DecidableEq, Repr

/-- An extent of a rectangle after it is cut to what is left of the screen behind its start. -/
def clipExtent (start extent size : Nat) : Nat := if extent > size - start then size - start else extent

/-- The case `FB_IOCTL_FLUSH_RECT` of `fb0_ioctl` on the screen `BS3`, where `arg` is the rectangle that the caller passes,
if its pointer is not `NULL`. -/
def fb0IoctlFlushRect (con : Console) (arg : Option FbRect) : Painted (Int × Console) :=
  match arg with
  | none => pure (-1, con)
  | some rect =>
    let scr := con.screen
    let x := rect.x.toNat
    let y := rect.y.toNat
    if con.display.framebuffer = none ∨ scr.pixels = .null ∨ x ≥ scr.width ∨ y ≥ scr.height then pure (-1, con)
    else do
      let width := clipExtent x rect.width.toNat scr.width
      let height := clipExtent y rect.height.toNat scr.height
      let dstStride := con.display.fbPitch / 4
      let display ← (List.range height).foldlM (fun d row =>
        copyRow d con.words (wrap32 ((y + row) * dstStride + x)) (wrap32 ((y + row) * scr.width + x)) width) con.display
      return (0, { con with display })

end DoccrOS.Devices
