import DoccrOS.Construction.Mem.Paging

namespace DoccrOS.Mem

def vmmRegionUsed : BitVec 32 := 0x01
def vmmRegionUser : BitVec 32 := 0x04
def vmmRegionRead : BitVec 32 := 0x10
def vmmRegionWrite : BitVec 32 := 0x20
def vmmRegionExec : BitVec 32 := 0x40
def vmmRegionCow : BitVec 32 := 0x100
def vmmRegionMmio : BitVec 32 := 0x200

/-- The test `flags & mask`. -/
def hasFlag (flags mask : BitVec 32) : Bool := flags &&& mask != 0

/-- This is `vmm_region_t`. The list of the owning space stands for the links `prev` and `next`. -/
structure Region where
  base : Nat
  size : Nat
  flags : BitVec 32
deriving DecidableEq

/-- This is `vmm_space_t`. -/
structure Space where
  pml4Phys : Nat
  regions : List Region
  regionCount : Nat
  usedVirtual : Nat
deriving DecidableEq

def flagsToPte (flags : BitVec 32) : Word :=
  let pte := ptePresent
  let pte := if hasFlag flags vmmRegionWrite then pte ||| pteWritable else pte
  let pte := if hasFlag flags vmmRegionUser then pte ||| pteUser else pte
  if hasFlag flags vmmRegionExec then pte else pte ||| pteNoExec

/-- A sorted insert walks past the regions with a smaller base. -/
def insertRegion (node : Region) : List Region → List Region
  | [] => [node]
  | cur :: rest => if cur.base < node.base then cur :: insertRegion node rest else node :: cur :: rest

/-- The bookkeeping that records a region in a space. -/
def Space.record (space : Space) (node : Region) : Space :=
  { space with
    regions := insertRegion node space.regions
    regionCount := wrap64 (space.regionCount + 1)
    usedVirtual := wrap64 (space.usedVirtual + node.size) }

/-- The loop that copies the entries 256 to 511 of the kernel table into the new one. -/
def copyKernelHalf (m : Machine) (pml4Phys : Nat) : Machine :=
  { m with ram := Function.update m.ram pml4Phys fun i =>
      if 256 ≤ i.val then m.ram m.kernelPml4 i else m.ram pml4Phys i }

/-- The flag `kmallocOk` is the outcome of the `kmalloc` for the space record. -/
def vmmSpaceCreate (m : Machine) (kmallocOk : Bool) : Option Space × Machine :=
  if !kmallocOk then (none, m)
  else
    let (pml4Phys, p) := physmemAllocTo m.phys 1
    let m : Machine := { m with phys := p }
    if pml4Phys = 0 then (none, m)
    else (some ⟨pml4Phys, [], 0, 0⟩, copyKernelHalf (m.zeroPage pml4Phys) pml4Phys)

/-- The page loop of `vmm_space_alloc`. It returns the page whose frame allocation failed. -/
def vmmSpaceAllocPages (pml4Phys vaddr : Nat) (pteFlags : Word) :
    (left i : Nat) → Machine → Result (Option Nat × Machine)
  | 0, _, m => .ok (none, m)
  | left + 1, i, m =>
    let (phys, p) := physmemAllocTo m.phys 1
    let m : Machine := { m with phys := p }
    if phys = 0 then .ok (some i, m)
    else do
      let m ← pagingMapPageIn m pml4Phys (wrap64 (vaddr + i * pageSize)) phys pteFlags
      vmmSpaceAllocPages pml4Phys vaddr pteFlags left (i + 1) m

/-- The rollback of `vmm_space_alloc` unmaps the pages below the failed one. -/
def vmmSpaceAllocUndo (pml4Phys vaddr pages : Nat) (m : Machine) : Machine :=
  (List.range pages).foldl (fun m j => pagingUnmapPageIn m pml4Phys (wrap64 (vaddr + j * pageSize))) m

/-- The flag `nodeOk` is the outcome of `region_alloc`. -/
def vmmSpaceAlloc (m : Machine) (space : Space) (vaddr pageCount : Nat) (flags : BitVec 32) (nodeOk : Bool) :
    Result (Nat × Machine × Space) :=
  if pageCount = 0 then .ok (0, m, space)
  else
    let vaddr := pageAlignDown vaddr
    let size := wrap64 (pageCount * pageSize)
    if !nodeOk then .ok (0, m, space)
    else do
      let (failed, m) ← vmmSpaceAllocPages space.pml4Phys vaddr (flagsToPte flags) pageCount 0 m
      match failed with
      | some i => return (0, vmmSpaceAllocUndo space.pml4Phys vaddr i m, space)
      | none => return (vaddr, m, space.record ⟨vaddr, size, vmmRegionUsed ||| flags⟩)

/-- A data frame loses one reference and is released with its last one. -/
def dropFrame (p : PhysMem) (phys : Nat) : PhysMem :=
  let (rc, p) := physmemFrameRcDecAndGet p phys
  if rc = 0 then physmemFreeTo (physmemFrameFlagsSet p phys frameFree) phys 1 else p

/-- The scan of the 512 entries for a present one. -/
def Machine.tableEmpty (m : Machine) (table : Nat) : Bool := decide (∀ index, entryPresent (m.ram table index) = false)

/-- The parent entry is cleared and its table is released. -/
def releaseTable (m : Machine) (parent : Nat) (index : Fin 512) : Machine :=
  { m.setEntry parent index 0 with phys := physmemFreeTo m.phys (entryAddr (m.ram parent index)) 1 }

/-- The tail of the loop body of `vmm_space_free` clears the leaf entry and prunes the empty tables above it. -/
def clearAndPrune (m : Machine) (pml4 pdpt pd pt va : Nat) : Machine :=
  let m := m.setEntry pt (ptIndex va) 0
  if !m.tableEmpty pt then m
  else
    let m := releaseTable m pd (pdIndex va)
    if !m.tableEmpty pd then m
    else
      let m := releaseTable m pdpt (pdpIndex va)
      if !m.tableEmpty pdpt then m
      else releaseTable m pml4 (pml4Index va)

/-- The loop body of `vmm_space_free`. -/
def vmmSpaceFreePage (m : Machine) (pml4 va : Nat) (isMmio : Bool) : Machine :=
  match m.child pml4 (pml4Index va) with
  | none => m
  | some pdpt =>
    match m.child pdpt (pdpIndex va) with
    | none => m
    | some pd =>
      match m.child pd (pdIndex va) with
      | none => m
      | some pt =>
        let entry := m.ram pt (ptIndex va)
        if !entryPresent entry then m
        else
          let m := if isMmio then m else { m with phys := dropFrame m.phys (entryAddr entry) }
          clearAndPrune m pml4 pdpt pd pt va

/-- The test by which `vmm_space_free` selects a region. -/
def Region.matches (region : Region) (vaddr : Nat) : Bool :=
  region.base == vaddr && hasFlag region.flags vmmRegionUsed

def vmmSpaceFree (m : Machine) (space : Space) (vaddr : Nat) : Machine × Space :=
  if vaddr = 0 then (m, space)
  else
    match space.regions.find? (·.matches vaddr) with
    | none => (m, space)
    | some cur =>
      let pageCount := cur.size / pageSize
      let isMmio := hasFlag cur.flags vmmRegionMmio
      let m := (List.range pageCount).foldl
        (fun m i => vmmSpaceFreePage m space.pml4Phys (wrap64 (vaddr + i * pageSize)) isMmio) m
      (m, { space with
        regions := space.regions.eraseP (·.matches vaddr)
        regionCount := sub64 space.regionCount 1
        usedVirtual := sub64 space.usedVirtual cur.size })

/-- The loop of `vmm_space_destroy`; it hangs when the fuel runs out. -/
def vmmSpaceDestroyLoop : (fuel : Nat) → Machine → Space → Result (Machine × Space)
  | 0, _, _ => .error .hang
  | fuel + 1, m, space =>
    match space.regions with
    | [] => .ok (m, space)
    | cur :: _ =>
      let (m, space) := vmmSpaceFree m space cur.base
      vmmSpaceDestroyLoop fuel m space

def vmmSpaceDestroy (m : Machine) (space : Space) : Result Machine := do
  let (m, space) ← vmmSpaceDestroyLoop (space.regions.length + 1) m space
  if space.pml4Phys ≠ 0 then return { m with phys := physmemFreeTo m.phys space.pml4Phys 1 } else return m

/-- The test by which `vmm_space_find` selects a region. -/
def Region.holds (cur : Region) (vaddr : Nat) : Bool :=
  decide (vaddr ≥ cur.base) && decide (vaddr < wrap64 (cur.base + cur.size))

def vmmSpaceFind (space : Space) (vaddr : Nat) : Option Region := space.regions.find? (·.holds vaddr)

/-- The body of the page loop of `vmm_clone_space`. -/
def vmmClonePage (srcPml4 dstPml4 : Nat) (srcPteFlags dstPteFlags : Word) (m : Machine) (va : Nat) : Result Machine :=
  let phys := pteLookup m srcPml4 va
  if phys = 0 then .ok m
  else do
    let p := physmemFrameRcInc m.phys phys
    let p := physmemFrameFlagsSet p phys (physmemFrameFlagsGet p phys ||| frameCow ||| frameShared)
    let m ← pagingMapPageIn { m with phys := p } dstPml4 va phys dstPteFlags
    pagingMapPageIn m srcPml4 va phys srcPteFlags

/-- The page loop of `vmm_clone_space`. -/
def vmmClonePages (srcPml4 dstPml4 base : Nat) (srcPteFlags dstPteFlags : Word) (pageCount : Nat) (m : Machine) :
    Result Machine :=
  (List.range pageCount).foldlM
    (fun m i => vmmClonePage srcPml4 dstPml4 srcPteFlags dstPteFlags m (wrap64 (base + i * pageSize))) m

/-- The flags of a region after it was shared. -/
def cowFlags (flags : BitVec 32) : BitVec 32 := (flags ||| vmmRegionCow) &&& ~~~vmmRegionWrite

/-- The region loop of `vmm_clone_space`. The flag `nodes i` is the outcome of the `i`-th `region_alloc`,
and the result tells whether all of them succeeded. -/
def vmmCloneRegions (nodes : Nat → Bool) :
    (i : Nat) → (todo : List Region) → Machine → (src dst : Space) → Result (Bool × Machine × Space × Space)
  | _, [], m, src, dst => .ok (true, m, src, dst)
  | i, srcCur :: todo, m, src, dst =>
    if !nodes i then .ok (false, m, src, dst)
    else do
      let node : Region := ⟨srcCur.base, srcCur.size, cowFlags srcCur.flags⟩
      let pageCount := srcCur.size / pageSize
      let pteFlags := flagsToPte node.flags &&& ~~~pteWritable
      let srcPteFlags := flagsToPte srcCur.flags &&& ~~~pteWritable
      let m ← vmmClonePages src.pml4Phys dst.pml4Phys srcCur.base srcPteFlags pteFlags pageCount m
      let src := { src with regions := src.regions.set i { srcCur with flags := cowFlags srcCur.flags } }
      vmmCloneRegions nodes (i + 1) todo m src (dst.record node)

/-- The result holds the clone, if any, and the changed source. -/
def vmmCloneSpace (m : Machine) (src : Space) (kmallocOk : Bool) (nodes : Nat → Bool) :
    Result (Option Space × Machine × Space) :=
  match vmmSpaceCreate m kmallocOk with
  | (none, m) => .ok (none, m, src)
  | (some dst, m) => do
    let (done, m, src, dst) ← vmmCloneRegions nodes 0 src.regions m src dst
    if done then return (some dst, m, src)
    else
      let m ← vmmSpaceDestroy m dst
      return (none, m, src)

/-- The flags that `vmm_cow_break` gives to its region. -/
def brokenFlags (flags : BitVec 32) : BitVec 32 :=
  vmmRegionUsed ||| ((flags &&& ~~~vmmRegionCow) ||| vmmRegionWrite)

/-- This stores the flags of the region that `vmm_space_find` returns. -/
def setFoundFlags (vaddr : Nat) (flags : BitVec 32) : List Region → List Region
  | [] => []
  | cur :: rest =>
    if cur.holds vaddr then { cur with flags := flags } :: rest else cur :: setFoundFlags vaddr flags rest

/-- The tail of `vmm_cow_break` for a mapped page of a copy-on-write region. -/
def vmmCowBreakPage (m : Machine) (space : Space) (region : Region) (faultAddr oldPhys : Nat) :
    Result (Machine × Space) :=
  let flags := brokenFlags region.flags
  let broken := { space with regions := setFoundFlags faultAddr flags space.regions }
  let (rc, p) := physmemFrameRcDecAndGet m.phys oldPhys
  if rc = 0 then do
    let p := physmemFrameFlagsSet p oldPhys frameUsed
    let m ← pagingMapPageIn { m with phys := p } space.pml4Phys faultAddr oldPhys (flagsToPte flags)
    return (m, broken)
  else
    let (newPhys, p) := physmemAllocTo p 1
    if newPhys = 0 then .error (.panic "vmm_cow_break: out of physical memory")
    else do
      let m := ({ m with phys := p } : Machine).copyPage newPhys oldPhys
      let m : Machine := { m with phys := physmemFrameFlagsSet m.phys newPhys frameUsed }
      let m ← pagingMapPageIn m space.pml4Phys faultAddr newPhys (flagsToPte flags)
      return (m, broken)

def vmmCowBreak (m : Machine) (space : Space) (faultAddr : Nat) : Result (Machine × Space) :=
  let faultAddr := pageAlignDown faultAddr
  match vmmSpaceFind space faultAddr with
  | none => .ok (m, space)
  | some region =>
    if !hasFlag region.flags vmmRegionCow then .ok (m, space)
    else
      match m.findPte space.pml4Phys faultAddr with
      | none => .ok (m, space)
      | some entry => vmmCowBreakPage m space region faultAddr (entryAddr entry)

/-- The argument `space` is the active space. -/
def cowPageFaultHandler (m : Machine) (space : Space) (faultAddr : Nat) (errCode : Word) : Result (Machine × Space) :=
  let present := errCode &&& 1 != 0
  let write := errCode &&& 2 != 0
  if present && write then
    match vmmSpaceFind space faultAddr with
    | some region =>
      if hasFlag region.flags vmmRegionCow then vmmCowBreak m space faultAddr
      else .error (.panic "Page Fault")
    | none => .error (.panic "Page Fault")
  else .error (.panic "Page Fault")

/-- The page loop of `vmm_map_phys`. -/
def vmmMapPhysPages (pml4Phys vaddr physAddr : Nat) (pteFlags : Word) (pageCount : Nat) (m : Machine) : Result Machine :=
  (List.range pageCount).foldlM
    (fun m i => pagingMapPageIn m pml4Phys (wrap64 (vaddr + i * pageSize)) (wrap64 (physAddr + i * pageSize)) pteFlags) m

def vmmMapPhys (m : Machine) (space : Space) (vaddr physAddr pageCount : Nat) (flags : BitVec 32) (nodeOk : Bool) :
    Result (Nat × Machine × Space) :=
  if pageCount = 0 then .ok (0, m, space)
  else
    let vaddr := pageAlignDown vaddr
    let physAddr := pageAlignDown physAddr
    let size := wrap64 (pageCount * pageSize)
    if !nodeOk then .ok (0, m, space)
    else do
      let m ← vmmMapPhysPages space.pml4Phys vaddr physAddr (flagsToPte flags) pageCount m
      return (vaddr, m, space.record ⟨vaddr, size, vmmRegionUsed ||| vmmRegionMmio ||| flags⟩)

def vmmUnmapPhys (m : Machine) (space : Space) (vaddr : Nat) : Machine × Space := vmmSpaceFree m space vaddr

def vmmSpaceGetPhys (m : Machine) (space : Space) (vaddr : Nat) : Nat :=
  pteLookup m space.pml4Phys (pageAlignDown vaddr)

/-- The byte `i` of a little-endian word. -/
def byteOf (word : Word) (i : Nat) : BitVec 8 := (word >>> (8 * i)).setWidth 8

/-- The word with its byte `i` replaced. -/
def setByte (word : Word) (i : Nat) (byte : BitVec 8) : Word :=
  (word &&& ~~~(0xFF#64 <<< (8 * i))) ||| (byte.setWidth 64 <<< (8 * i))

def Machine.loadByte (m : Machine) (page offset : Nat) : BitVec 8 :=
  byteOf (m.ram page (Fin.ofNat 512 (offset / 8))) (offset % 8)

def Machine.storeByte (m : Machine) (page offset : Nat) (byte : BitVec 8) : Machine :=
  let slot := Fin.ofNat 512 (offset / 8)
  m.setEntry page slot (setByte (m.ram page slot) (offset % 8) byte)

/-- The processor reads a byte of the active space. -/
def userRead (m : Machine) (space : Space) (va : Nat) : Option (BitVec 8) :=
  (m.findPte space.pml4Phys va).map fun entry => m.loadByte (entryAddr entry) (va % pageSize)

/-- The processor stores a byte if the leaf entry allows it. -/
def tryStore (m : Machine) (space : Space) (va : Nat) (byte : BitVec 8) : Option Machine :=
  match m.findPte space.pml4Phys va with
  | some entry => if entryWritable entry then some (m.storeByte (entryAddr entry) (va % pageSize) byte) else none
  | none => none

/-- A write access of the active space. A refused store faults into the handler and is tried again. -/
def userWrite (m : Machine) (space : Space) (va : Nat) (byte : BitVec 8) : Result (Machine × Space) :=
  match tryStore m space va byte with
  | some m => .ok (m, space)
  | none => do
    let errCode : Word := if (m.findPte space.pml4Phys va).isSome then 3 else 2
    let (m, space) ← cowPageFaultHandler m space va errCode
    match tryStore m space va byte with
    | some m => return (m, space)
    | none => .error .hang

end DoccrOS.Mem
