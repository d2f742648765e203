import DoccrOS.Construction.Mem.PhysMem

namespace DoccrOS.Boot

open Mem

/-- This is `limine_memmap_entry` for any 64-bit range whose end does not wrap. -/
structure MemmapRange where
  base : Nat
  length : Nat
  type : MemmapType
  fits : base + length < 2 ^ 64
deriving DecidableEq

/-- The array `physmem_pageframes` lies at the physical address `addr` and the bitmap lies behind it.
The kernel reaches both through the offset of the direct map. -/
structure TrackingTables where
  pageframes : Nat → Pageframe
  total : Nat
  bitmap : Nat → BitVec 8
  bitmapSize : Nat
  addr : Nat
  offset : Nat

/-- This is the value of the pointer `physmem_pageframes`. -/
def TrackingTables.physmemPageframes (t : TrackingTables) : Nat := wrap64 (t.addr + t.offset)

/-- One iteration over a frame of a usable range. -/
def TrackingTables.markFree (t : TrackingTables) (frame : Nat) : TrackingTables :=
  { t with
    bitmap := bitmapClear t.bitmap frame
    pageframes := Function.update t.pageframes frame ⟨0, frameFree⟩ }

/-- One iteration over a frame of any other range. -/
def TrackingTables.markKernel (t : TrackingTables) (frame : Nat) : TrackingTables :=
  { t with
    bitmap := bitmapSet t.bitmap frame
    pageframes := Function.update t.pageframes frame ⟨1, frameUsed ||| frameKernel⟩ }

/-- One iteration of the loop in `physmem_addr_mark_used`. -/
def TrackingTables.markUsed (t : TrackingTables) (frame : Nat) : TrackingTables :=
  { t with
    bitmap := bitmapSet t.bitmap frame
    pageframes := Function.update t.pageframes frame ⟨1, frameUsed⟩ }

/-- The frames of an entry that `physmem_addr_mark` visits. -/
def MemmapRange.frames (entry : MemmapRange) (total : Nat) : List Nat :=
  let frameStart := entry.base / pageSize
  if frameStart ≥ total then []
  else
    let frameEnd := wrap64 (entry.base + entry.length) / pageSize
    let frameEnd := if frameEnd > total then total else frameEnd
    List.range' frameStart (frameEnd - frameStart)

def TrackingTables.markEntry (t : TrackingTables) (entry : MemmapRange) : TrackingTables :=
  if entry.type = .usable then (entry.frames t.total).foldl TrackingTables.markFree t
  else (entry.frames t.total).foldl TrackingTables.markKernel t

def physmemAddrMark (t : TrackingTables) (mpr : List MemmapRange) : Result TrackingTables :=
  if t.physmemPageframes = 0 then .error (.panic "PHYSMEM ADDR MARK PHYSMEM PAGEFRAMES NULL")
  else .ok (mpr.foldl TrackingTables.markEntry t)

/-- The frames that `physmem_addr_mark_used` visits. -/
def TrackingTables.range (t : TrackingTables) (physmemAddr count : Nat) : List Nat :=
  let frameStart := physmemAddr / pageSize
  let frameEnd := wrap64 (frameStart + count)
  let frameEnd := if frameEnd > t.total then t.total else frameEnd
  List.range' frameStart (frameEnd - frameStart)

def physmemAddrMarkUsed (t : TrackingTables) (physmemAddr count : Nat) : Result TrackingTables :=
  if t.physmemPageframes = 0 then .error (.panic "PHYSMEM ADDR MARK USED PHYSMEM PAGEFRAMES NULL")
  else .ok ((t.range physmemAddr count).foldl TrackingTables.markUsed t)

/-- The first usable entry of a size that starts at an address or above it. -/
def firstUsable (mpr : List MemmapRange) (size least : Nat) : Option MemmapRange :=
  mpr.find? fun entry => entry.type == .usable && entry.length ≥ size && entry.base ≥ least

/-- The address `0` is the null pointer, also when a usable entry starts there. -/
def physmemAddrGetTracking (mpr : List MemmapRange) (size : Nat) : Nat :=
  match (firstUsable mpr size 0x1000000).or ((firstUsable mpr size 0x100000).or (firstUsable mpr size 0)) with
  | some entry => entry.base
  | none => 0

/-- The loop of `physmem_init` that finds the end of the highest range of RAM. -/
def physmemAddrHighest (mpr : List MemmapRange) : Nat :=
  mpr.foldl (fun highest entry =>
    if entry.type = .usable ∨ entry.type = .bootloaderReclaimable then
      let endAddr := wrap64 (entry.base + entry.length)
      if endAddr > highest then endAddr else highest
    else highest) 0

/-- The arguments `staleFrames` and `staleBytes` are what the memory of the two tables holds before the call. -/
def physmemInit (mpr : List MemmapRange) (hhdmOffset : Nat) (staleFrames : Nat → Pageframe)
    (staleBytes : Nat → BitVec 8) : Result TrackingTables :=
  let physmemTotal := physmemAddrHighest mpr / pageSize
  let physmemSize := wrap64 (physmemTotal * pageframeSize)
  let bitmapSize := wrap64 (physmemTotal + 7) / 8
  let physmemPageframeAddr := physmemAddrGetTracking mpr (wrap64 (physmemSize + bitmapSize))
  if physmemPageframeAddr = 0 then .error (.panic "No usable memory found for physmem_pageframes")
  else do
    let cleared := fun byte => if byte < bitmapSize then 0xFF#8 else staleBytes byte
    let t ← physmemAddrMark ⟨staleFrames, physmemTotal, cleared, bitmapSize, physmemPageframeAddr, hhdmOffset⟩ mpr
    let toUsed := usedBytesToFrameCount (wrap64 (physmemSize + bitmapSize))
    let t ← physmemAddrMarkUsed t physmemPageframeAddr toUsed
    physmemAddrMarkUsed t 0 256

end DoccrOS.Boot
