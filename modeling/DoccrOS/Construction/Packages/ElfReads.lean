import DoccrOS.Construction.Packages.Elf
import DoccrOS.Lib.Logged

namespace DoccrOS.Packages
open Lib Mem

/-- A computation with the indices of `data` that it reads. -/
abbrev Reads (A : Type) := Logged Nat Halt A

/-- The indices of `count` bytes from an offset on. -/
def indices (offset count : Nat) : List Nat := (List.range count).map fun i => wrap64 (offset + i)

def Image.readByte (image : Image) (offset : Nat) : Reads (BitVec 8) := .access [offset] (image.data offset)

def Image.readField (image : Image) (offset count : Nat) : Reads Nat :=
  .access (indices offset count) (image.load offset count)

/-- The bytes that `memcpy` reads. -/
def Image.readBytes (image : Image) (offset count : Nat) : Reads (Nat → BitVec 8) :=
  .access (indices offset count) fun k => image.data (wrap64 (offset + k))

/-- The function `elf_check` with its reads. -/
def elfCheckReads (image : Image) : Reads Bool := do
  if image.size < sizeofEhdr then return false
  else if (← image.readByte 0) ≠ 0x7F then return false
  else if (← image.readByte 1) ≠ 0x45 then return false
  else if (← image.readByte 2) ≠ 0x4C then return false
  else if (← image.readByte 3) ≠ 0x46 then return false
  else if (← image.readByte 4) ≠ 2 then return false
  else if (← image.readByte 5) ≠ 1 then return false
  else
    let eType ← image.readField 16 2
    if eType ≠ elfTypeExec && eType ≠ elfTypeDyn then return false
    else if (← image.readField 18 2) ≠ elfMachX8664 then return false
    else if (← image.readField 54 2) < sizeofPhdr then return false
    else
      let ePhoff ← image.readField 32 8
      let ePhnum ← image.readField 56 2
      let ePhentsize ← image.readField 54 2
      return !decide (wrap64 (ePhoff + ePhnum * ePhentsize) > image.size)

/-- The loop of `elf_load` that fills a segment, with its reads. -/
def fillSegmentReads (image : Image) (space : Space) :
    (fuel : Nat) → Machine → (fileSrc fileRem vaCursor memRem : Nat) → Reads (Bool × Machine)
  | 0, m, _, _, _, memRem => if memRem > 0 then .lift (.error .hang) else pure (true, m)
  | fuel + 1, m, fileSrc, fileRem, vaCursor, memRem =>
    if memRem > 0 then
      let pageVa := pageAlignDown vaCursor
      let pageOff := vaCursor - pageVa
      let phys := vmmSpaceGetPhys m space pageVa
      if phys = 0 then pure (false, m)
      else do
        let chunk := min (pageSize - pageOff) memRem
        let copy := min chunk fileRem
        let bytes ← image.readBytes fileSrc copy
        let m := writeBytes m phys pageOff copy bytes
        let m := writeBytes m phys (pageOff + copy) (chunk - copy) fun _ => 0
        fillSegmentReads image space fuel m (wrap64 (fileSrc + copy)) (fileRem - copy) (wrap64 (vaCursor + chunk))
          (memRem - chunk)
    else pure (true, m)

/-- The part of `elf_load` that maps and fills a segment, with its reads. The fields of the header are read already. -/
def mapSegmentReads (image : Image) (m : Machine) (space : Space) (ph : Phdr) (nodeOk : Bool) :
    Reads (Bool × Machine × Space) :=
  if wrap64 (ph.pOffset + ph.pFilesz) > image.size then return (false, m, space)
  else if ph.pMemsz < ph.pFilesz then return (false, m, space)
  else do
    let (mapped, m, space) ← Logged.lift (vmmSpaceAlloc m space ph.vaBase ph.pgCount ph.vmmFlags nodeOk)
    if mapped = 0 then return (false, m, space)
    else
      let (filled, m) ← fillSegmentReads image space ph.pMemsz m ph.pOffset ph.pFilesz ph.pVaddr ph.pMemsz
      return (filled, m, space)

/-- The body of the header loop of `elf_load` with its reads. -/
def loadSegmentReads (image : Image) (m : Machine) (space : Space) (i : Nat) (nodeOk : Bool) :
    Reads (Bool × Machine × Space) := do
  let ePhoff ← image.readField 32 8
  let ePhentsize ← image.readField 54 2
  let ph := wrap64 (ePhoff + i * ePhentsize)
  let pType ← image.readField ph 4
  if pType ≠ ptLoad then return (true, m, space)
  else
    let pVaddr ← image.readField (wrap64 (ph + 16)) 8
    let pFilesz ← image.readField (wrap64 (ph + 32)) 8
    let pMemsz ← image.readField (wrap64 (ph + 40)) 8
    let pFlags ← image.readField (wrap64 (ph + 4)) 4
    let pOffset ← image.readField (wrap64 (ph + 8)) 8
    mapSegmentReads image m space ⟨pType, BitVec.ofNat 32 pFlags, pOffset, pVaddr, pFilesz, pMemsz⟩ nodeOk

/-- The header loop of `elf_load` around its body: `left` headers remain from `i` on. Every test of the loop reads `e_phnum`. -/
def segmentLoop (image : Image) (body : Nat → Machine → Space → Reads (Bool × Machine × Space)) :
    (left i : Nat) → Machine → Space → Reads (Bool × Machine × Space)
  | 0, _, m, space => do
    let _ ← image.readField 56 2
    return (true, m, space)
  | left + 1, i, m, space => do
    let _ ← image.readField 56 2
    let (loaded, m, space) ← body i m space
    if loaded then segmentLoop image body left (i + 1) m space else return (false, m, space)

/-- The header loop of `elf_load` with its reads. -/
def loadSegmentsReads (image : Image) (nodes : Nat → Bool) : (left i : Nat) → Machine → Space → Reads (Bool × Machine × Space) :=
  segmentLoop image fun i m space => loadSegmentReads image m space i (nodes i)

/-- The function `elf_load` with its reads of `data`. -/
def elfLoadReads (image : Image) (m : Machine) (outcomes : LoadOutcomes) : Reads (Option Space × Machine) := do
  if image.size = 0 then return (none, m)
  else if !(← elfCheckReads image) then return (none, m)
  else
    let _ ← image.readField 16 2
    let _ ← image.readField 18 2
    let _ ← image.readField 24 8
    let ePhnum ← image.readField 56 2
    if !outcomes.proc then return (none, m)
    else
      match vmmSpaceCreate m outcomes.space with
      | (none, m) => return (none, m)
      | (some space, m) =>
        let (loaded, m, space) ← loadSegmentsReads image outcomes.nodes ePhnum 0 m space
        if !loaded then
          let m ← Logged.lift (vmmSpaceDestroy m space)
          return (none, m)
        else
          let (stack, m, space) ←
            Logged.lift (vmmSpaceAlloc m space userStackBase userStackPages stackFlags outcomes.stackNode)
          if stack = 0 then
            let m ← Logged.lift (vmmSpaceDestroy m space)
            return (none, m)
          else
            let eEntry ← image.readField 24 8
            if eEntry = 0 || !outcomes.thread then
              let m ← Logged.lift (vmmSpaceDestroy m space)
              return (none, m)
            else return (some space, m)

/-- An access of the loop that fills a segment: a byte of the file that it reads, or a byte of a frame that it stores. -/
inductive CopyAccess where
  | read (index : Nat)
  | store (frame offset : Nat)
deriving DecidableEq, Repr

/-- A computation with its accesses. -/
abbrev Copies (A : Type) := Logged CopyAccess Halt A

/-- Stores of bytes to a frame. -/
def storeBytes (m : Machine) (frame offset count : Nat) (byte : Nat → BitVec 8) : Copies Machine :=
  .access ((List.range count).map fun k => .store frame (offset + k)) (writeBytes m frame offset count byte)

/-- The call `memcpy` from the file to a frame. -/
def copyFile (image : Image) (m : Machine) (frame offset fileSrc count : Nat) : Copies Machine := do
  let bytes ← .access ((indices fileSrc count).map .read) fun k => image.data (wrap64 (fileSrc + k))
  storeBytes m frame offset count bytes

/-- The loop of `elf_load` that fills a segment, with its accesses. The function `getPhys` is the answer of
`vmm_space_get_phys` on the pages of the segment. -/
def copySegment (image : Image) (getPhys : Nat → Nat) :
    (fuel : Nat) → Machine → (fileSrc fileRem vaCursor memRem : Nat) → Copies (Bool × Machine)
  | 0, m, _, _, _, memRem => if memRem > 0 then .lift (.error .hang) else pure (true, m)
  | fuel + 1, m, fileSrc, fileRem, vaCursor, memRem =>
    if memRem > 0 then
      let pageVa := pageAlignDown vaCursor
      let pageOff := vaCursor - pageVa
      let phys := getPhys pageVa
      if phys = 0 then pure (false, m)
      else do
        let chunk := min (pageSize - pageOff) memRem
        let copy := min chunk fileRem
        let m ← copyFile image m phys pageOff fileSrc copy
        let m ← storeBytes m phys (pageOff + copy) (chunk - copy) fun _ => 0
        copySegment image getPhys fuel m (wrap64 (fileSrc + copy)) (fileRem - copy) (wrap64 (vaCursor + chunk)) (memRem - chunk)
    else pure (true, m)

end DoccrOS.Packages
