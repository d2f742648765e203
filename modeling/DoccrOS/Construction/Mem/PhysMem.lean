import DoccrOS.Construction.Types

namespace DoccrOS.Mem

/-- This is `physmem_pageframe_t`. -/
structure Pageframe where
  rc : Nat
  flags : BitVec 32
deriving DecidableEq

def frameFree : BitVec 32 := 0x00
def frameUsed : BitVec 32 := 0x01
def frameShared : BitVec 32 := 0x10
def frameCow : BitVec 32 := 0x20

/-- The tracking tables cover the frames below `total`. A physical address has at most 52 bits. -/
structure PhysMem where
  pageframes : Nat → Pageframe
  total : Nat
  bitmap : Nat → BitVec 8
  totalFits : total ≤ 2 ^ 40

def bitmapTest (bitmap : Nat → BitVec 8) (idx : Nat) : Bool :=
  ((bitmap (idx >>> 3) >>> (idx % 8)) &&& 1#8) != 0#8

def bitmapSet (bitmap : Nat → BitVec 8) (idx : Nat) : Nat → BitVec 8 :=
  Function.update bitmap (idx >>> 3) (bitmap (idx >>> 3) ||| (1#8 <<< (idx % 8)))

def bitmapClear (bitmap : Nat → BitVec 8) (idx : Nat) : Nat → BitVec 8 :=
  Function.update bitmap (idx >>> 3) (bitmap (idx >>> 3) &&& ~~~(1#8 <<< (idx % 8)))

/-- This stores one element of the array `physmem_pageframes`. -/
def PhysMem.setFrame (p : PhysMem) (frame : Nat) (value : Pageframe) : PhysMem :=
  { p with pageframes := Function.update p.pageframes frame value }

/-- The frames of `[addr, addr + count)` that the tracking tables cover. -/
def PhysMem.range (p : PhysMem) (physmemAddr count : Nat) : List Nat :=
  let frameStart := physmemAddr / pageSize
  let frameEnd := wrap64 (frameStart + count)
  let frameEnd := if frameEnd > p.total then p.total else frameEnd
  List.range' frameStart (frameEnd - frameStart)

/-- One iteration of the loop in `physmem_addr_mark_used`. -/
def PhysMem.markUsed (p : PhysMem) (frame : Nat) : PhysMem :=
  { p with bitmap := bitmapSet p.bitmap frame }.setFrame frame ⟨1, frameUsed⟩

/-- One iteration of the loop in `physmem_addr_mark_free`. -/
def PhysMem.markFree (p : PhysMem) (frame : Nat) : PhysMem :=
  { p with bitmap := bitmapClear p.bitmap frame }.setFrame frame ⟨0, frameFree⟩

def physmemAddrMarkUsed (p : PhysMem) (physmemAddr count : Nat) : PhysMem :=
  (p.range physmemAddr count).foldl PhysMem.markUsed p

def physmemAddrMarkFree (p : PhysMem) (physmemAddr count : Nat) : PhysMem :=
  (p.range physmemAddr count).foldl PhysMem.markFree p

/-- The scan of `physmem_alloc_to`: `left` frames remain from `frame` on. -/
def physmemScan (p : PhysMem) (count : Nat) : (left frame consecutive startFrame : Nat) → Option Nat
  | 0, _, _, _ => none
  | left + 1, frame, consecutive, startFrame =>
    if !bitmapTest p.bitmap frame then
      let startFrame := if consecutive = 0 then frame else startFrame
      if consecutive + 1 ≥ count then some startFrame
      else physmemScan p count left (frame + 1) (consecutive + 1) startFrame
    else physmemScan p count left (frame + 1) 0 startFrame

/-- The address `0` reports that no run of `count` free frames exists. -/
def physmemAllocTo (p : PhysMem) (count : Nat) : Nat × PhysMem :=
  if count = 0 then (0, p)
  else
    match physmemScan p count p.total 0 0 0 with
    | some startFrame =>
      let physmemAddr := startFrame * pageSize
      (physmemAddr, physmemAddrMarkUsed p physmemAddr count)
    | none => (0, p)

def physmemFreeTo (p : PhysMem) (physmemAddr count : Nat) : PhysMem :=
  if count = 0 then p else physmemAddrMarkFree p physmemAddr count

def physmemFreeGet (p : PhysMem) : Nat :=
  (List.range p.total).countP fun frame => !bitmapTest p.bitmap frame

def physmemFrameRcInc (p : PhysMem) (physAddr : Nat) : PhysMem :=
  let frame := physAddr / pageSize
  if frame ≥ p.total then p
  else
    let old := p.pageframes frame
    p.setFrame frame { old with rc := wrap32 (old.rc + 1) }

/-- The counter stops at `0`. -/
def physmemFrameRcDecAndGet (p : PhysMem) (physAddr : Nat) : Nat × PhysMem :=
  let frame := physAddr / pageSize
  if frame ≥ p.total then (0, p)
  else
    let old := p.pageframes frame
    if old.rc > 0 then (old.rc - 1, p.setFrame frame { old with rc := old.rc - 1 })
    else (old.rc, p)

def physmemFrameFlagsGet (p : PhysMem) (physAddr : Nat) : BitVec 32 :=
  let frame := physAddr / pageSize
  if frame ≥ p.total then 0 else (p.pageframes frame).flags

def physmemFrameFlagsSet (p : PhysMem) (physAddr : Nat) (flags : BitVec 32) : PhysMem :=
  let frame := physAddr / pageSize
  if frame ≥ p.total then p
  else
    let old := p.pageframes frame
    p.setFrame frame { old with flags := flags }

/-- The types of the ranges in the memory map of the boot loader. -/
inductive MemmapType where
  | usable
  | reserved
  | acpiReclaimable
  | acpiNvs
  | badMemory
  | bootloaderReclaimable
  | executableAndModules
  | framebuffer
  | reservedMapped
deriving DecidableEq, Repr

/-- This is `limine_memmap_entry`. It is a range of physical addresses, which have at most 52 bits. -/
structure MemmapEntry where
  base : Nat
  length : Nat
  type : MemmapType
  fits : base + length ≤ 2 ^ 52

def frameKernel : BitVec 32 := 0x02

/-- The frames of an entry that the tracking tables cover. -/
def MemmapEntry.frames (entry : MemmapEntry) (total : Nat) : List Nat :=
  let frameStart := entry.base / pageSize
  let frameEnd := (entry.base + entry.length) / pageSize
  let frameEnd := if frameEnd > total then total else frameEnd
  if frameStart ≥ total then [] else List.range' frameStart (frameEnd - frameStart)

/-- One iteration of the loop in `physmem_addr_mark` over the frames of a range that is not usable. -/
def PhysMem.markKernel (p : PhysMem) (frame : Nat) : PhysMem :=
  { p with bitmap := bitmapSet p.bitmap frame }.setFrame frame ⟨1, frameUsed ||| frameKernel⟩

/-- One iteration of the loop in `physmem_addr_mark` over the entries. -/
def PhysMem.markEntry (p : PhysMem) (entry : MemmapEntry) : PhysMem :=
  if entry.type = .usable then (entry.frames p.total).foldl PhysMem.markFree p
  else (entry.frames p.total).foldl PhysMem.markKernel p

def physmemAddrMark (p : PhysMem) (entries : List MemmapEntry) : PhysMem := entries.foldl PhysMem.markEntry p

/-- The first usable entry of a size that starts at an address or above it. -/
def firstUsable (entries : List MemmapEntry) (size least : Nat) : Option Nat :=
  (entries.find? fun entry => entry.type == .usable && entry.length ≥ size && entry.base ≥ least).map MemmapEntry.base

def physmemAddrGetTracking (entries : List MemmapEntry) (size : Nat) : Option Nat :=
  (firstUsable entries size 0x1000000).or ((firstUsable entries size 0x100000).or (firstUsable entries size 0))

def usedBytesToFrameCount (size : Nat) : Nat := wrap64 (size + pageSize - 1) / pageSize

/-- The loop of `physmem_init` that finds the end of the highest range of RAM. -/
def physmemAddrHighest (entries : List MemmapEntry) : Nat :=
  entries.foldl (fun highest entry =>
    if entry.type = .usable ∨ entry.type = .bootloaderReclaimable then max highest (entry.base + entry.length) else highest) 0

theorem physmemAddrHighest_le (entries : List MemmapEntry) : physmemAddrHighest entries ≤ 2 ^ 52 := by
  have bound (highest : Nat) (small : highest ≤ 2 ^ 52) : entries.foldl (fun highest entry =>
      if entry.type = .usable ∨ entry.type = .bootloaderReclaimable then max highest (entry.base + entry.length)
      else highest) highest ≤ 2 ^ 52 := by
    induction entries generalizing highest with
    | nil => exact small
    | cons entry entries ih =>
        rw [List.foldl_cons]
        apply ih
        split
        · exact Nat.max_le.mpr ⟨small, entry.fits⟩
        · exact small
  exact bound 0 (Nat.zero_le _)

/-- This is `sizeof(physmem_pageframe_t)`. -/
def pageframeSize : Nat := 8

/-- The argument `stale` is what the memory of the tracking table holds before the call. -/
def physmemInit (entries : List MemmapEntry) (stale : Nat → Pageframe) : Result PhysMem :=
  let physmemTotal := physmemAddrHighest entries / pageSize
  let physmemSize := physmemTotal * pageframeSize
  let bitmapSize := (physmemTotal + 7) / 8
  match physmemAddrGetTracking entries (physmemSize + bitmapSize) with
  | none => .error (.panic "No usable memory found for physmem_pageframes")
  | some 0 => .error (.panic "No usable memory found for physmem_pageframes")
  | some physmemPageframeAddr =>
    let p : PhysMem := ⟨stale, physmemTotal, fun _ => 0xFF#8, by
      have bound := physmemAddrHighest_le entries
      simp only [pageSize, physmemTotal]
      omega⟩
    let p := physmemAddrMark p entries
    let p := physmemAddrMarkUsed p physmemPageframeAddr (usedBytesToFrameCount (physmemSize + bitmapSize))
    .ok (physmemAddrMarkUsed p 0 256)

end DoccrOS.Mem
