import DoccrOS.Construction.Mem.Vmm

namespace DoccrOS.Packages
open Mem

/-- The argument `data` of `elf_load` with its size. The function gives the byte at every 64-bit offset from `data`, also the
bytes of memory beyond the image. -/
structure Image where
  size : Nat
  data : Nat → BitVec 8

/-- A little-endian number of `count` bytes. -/
def Image.load (image : Image) (offset count : Nat) : Nat :=
  (List.range count).foldr (fun i rest => (image.data (wrap64 (offset + i))).toNat * 256 ^ i + rest) 0

/-- This is `sizeof(elf64_ehdr_t)`. -/
def sizeofEhdr : Nat := 64

/-- This is `sizeof(elf64_phdr_t)`. -/
def sizeofPhdr : Nat := 56

def Image.eType (image : Image) : Nat := image.load 16 2
def Image.eMachine (image : Image) : Nat := image.load 18 2
def Image.eEntry (image : Image) : Nat := image.load 24 8
def Image.ePhoff (image : Image) : Nat := image.load 32 8
def Image.ePhentsize (image : Image) : Nat := image.load 54 2
def Image.ePhnum (image : Image) : Nat := image.load 56 2

def elfTypeExec : Nat := 2
def elfTypeDyn : Nat := 3
def elfMachX8664 : Nat := 0x3E
def ptLoad : Nat := 1
def pfX : BitVec 32 := 0x1
def pfW : BitVec 32 := 0x2

/-- The checks of `elf_check`. -/
def elfCheck (image : Image) : Bool :=
  if image.size < sizeofEhdr then false
  else if image.data 0 ≠ 0x7F || image.data 1 ≠ 0x45 || image.data 2 ≠ 0x4C || image.data 3 ≠ 0x46 then false
  else if image.data 4 ≠ 2 then false
  else if image.data 5 ≠ 1 then false
  else if image.eType ≠ elfTypeExec && image.eType ≠ elfTypeDyn then false
  else if image.eMachine ≠ elfMachX8664 then false
  else if image.ePhentsize < sizeofPhdr then false
  else
    let phEnd := wrap64 (image.ePhoff + image.ePhnum * image.ePhentsize)
    !decide (phEnd > image.size)

/-- The fields of `elf64_phdr_t` that `elf_load` reads. -/
structure Phdr where
  pType : Nat
  pFlags : BitVec 32
  pOffset : Nat
  pVaddr : Nat
  pFilesz : Nat
  pMemsz : Nat
deriving DecidableEq

/-- The program header `i`. -/
def Image.phdr (image : Image) (i : Nat) : Phdr :=
  let ph := wrap64 (image.ePhoff + i * image.ePhentsize)
  ⟨image.load ph 4, BitVec.ofNat 32 (image.load (wrap64 (ph + 4)) 4), image.load (wrap64 (ph + 8)) 8,
    image.load (wrap64 (ph + 16)) 8, image.load (wrap64 (ph + 32)) 8, image.load (wrap64 (ph + 40)) 8⟩

def Phdr.vaBase (ph : Phdr) : Nat := pageAlignDown ph.pVaddr
def Phdr.vaEnd (ph : Phdr) : Nat := pageAlignUp (wrap64 (ph.pVaddr + ph.pMemsz))
def Phdr.pgCount (ph : Phdr) : Nat := sub64 ph.vaEnd ph.vaBase / pageSize

def Phdr.vmmFlags (ph : Phdr) : BitVec 32 :=
  let vmmFlags := vmmRegionUser ||| vmmRegionRead
  let vmmFlags := if ph.pFlags &&& pfW != 0 then vmmFlags ||| vmmRegionWrite else vmmFlags
  if ph.pFlags &&& pfX != 0 then vmmFlags ||| vmmRegionExec else vmmFlags

/-- Stores of bytes to a page through the direct map. -/
def writeBytes (m : Machine) (page offset count : Nat) (byte : Nat → BitVec 8) : Machine :=
  (List.range count).foldl (fun m k => m.storeByte page (offset + k) (byte k)) m

/-- The loop of `elf_load` that fills a segment. It stops without a machine when a page is not mapped. -/
def fillSegment (image : Image) (space : Space) :
    (fuel : Nat) → Machine → (fileSrc fileRem vaCursor memRem : Nat) → Result (Bool × Machine)
  | 0, m, _, _, _, memRem => if memRem > 0 then .error .hang else .ok (true, m)
  | fuel + 1, m, fileSrc, fileRem, vaCursor, memRem =>
    if memRem > 0 then
      let pageVa := pageAlignDown vaCursor
      let pageOff := vaCursor - pageVa
      let phys := vmmSpaceGetPhys m space pageVa
      if phys = 0 then .ok (false, m)
      else
        let chunk := min (pageSize - pageOff) memRem
        let copy := min chunk fileRem
        let m := writeBytes m phys pageOff copy fun k => image.data (wrap64 (fileSrc + k))
        let m := writeBytes m phys (pageOff + copy) (chunk - copy) fun _ => 0
        fillSegment image space fuel m (wrap64 (fileSrc + copy)) (fileRem - copy) (wrap64 (vaCursor + chunk)) (memRem - chunk)
    else .ok (true, m)

/-- The body of the header loop of `elf_load`. The first result tells whether the load goes on. -/
def loadSegment (image : Image) (m : Machine) (space : Space) (ph : Phdr) (nodeOk : Bool) : Result (Bool × Machine × Space) :=
  if ph.pType ≠ ptLoad then .ok (true, m, space)
  else if wrap64 (ph.pOffset + ph.pFilesz) > image.size then .ok (false, m, space)
  else if ph.pMemsz < ph.pFilesz then .ok (false, m, space)
  else do
    let (mapped, m, space) ← vmmSpaceAlloc m space ph.vaBase ph.pgCount ph.vmmFlags nodeOk
    if mapped = 0 then return (false, m, space)
    else
      let (filled, m) ← fillSegment image space ph.pMemsz m ph.pOffset ph.pFilesz ph.pVaddr ph.pMemsz
      return (filled, m, space)

/-- The header loop of `elf_load`: `left` headers remain from `i` on. -/
def loadSegments (image : Image) (nodes : Nat → Bool) :
    (left i : Nat) → Machine → Space → Result (Bool × Machine × Space)
  | 0, _, m, space => .ok (true, m, space)
  | left + 1, i, m, space => do
    let (loaded, m, space) ← loadSegment image m space (image.phdr i) (nodes i)
    if loaded then loadSegments image nodes left (i + 1) m space else return (false, m, space)

def userStackPages : Nat := 16
def userStackTop : Nat := 0x00007FFFFFFFE000
def userStackBase : Nat := userStackTop - userStackPages * 4096

def stackFlags : BitVec 32 := vmmRegionUser ||| vmmRegionRead ||| vmmRegionWrite

/-- The outcomes of the heap allocations of a load: the process, its space, the region nodes and the thread. -/
structure LoadOutcomes where
  proc : Bool
  space : Bool
  nodes : Nat → Bool
  stackNode : Bool
  thread : Bool

/-- The space of the new process, or nothing when `elf_load` returns `-1`. -/
def elfLoad (image : Image) (m : Machine) (outcomes : LoadOutcomes) : Result (Option Space × Machine) :=
  if image.size = 0 then .ok (none, m)
  else if !elfCheck image then .ok (none, m)
  else if !outcomes.proc then .ok (none, m)
  else
    match vmmSpaceCreate m outcomes.space with
    | (none, m) => .ok (none, m)
    | (some space, m) => do
      let (loaded, m, space) ← loadSegments image outcomes.nodes image.ePhnum 0 m space
      if !loaded then
        let m ← vmmSpaceDestroy m space
        return (none, m)
      else
        let (stack, m, space) ← vmmSpaceAlloc m space userStackBase userStackPages stackFlags outcomes.stackNode
        if stack = 0 || image.eEntry = 0 || !outcomes.thread then
          let m ← vmmSpaceDestroy m space
          return (none, m)
        else return (some space, m)

end DoccrOS.Packages
