import DoccrOS.Construction.Mem.Vmm
import DoccrOS.Construction.User.SysProcess

namespace DoccrOS.User
open Mem Proc

def mmapProtRead : Word := 0x1
def mmapProtWrite : Word := 0x2
def mmapProtExec : Word := 0x4
def mmapMapFixed : Word := 0x10
def mmapMapAnon : Word := 0x20

/-- The least address that `sys_mmap` accepts as a hint. -/
def userBottom : Nat := 0x1000000

/-- The parts of `proc_t` that the memory calls use. -/
structure UserProc where
  space : Option Space
  heapBreak : Nat
deriving DecidableEq

/-- The machine and the current process. -/
structure UserMem where
  machine : Machine
  proc : Option UserProc

/-- The address space of the current process. -/
def UserMem.space (s : UserMem) : Option Space := s.proc.bind UserProc.space

/-- A call on the space of the current process returns. -/
def UserMem.put (s : UserMem) (m : Machine) (space : Space) : UserMem :=
  ⟨m, s.proc.map fun p => { p with space := some space }⟩

/-- A region overlaps the range by the wrapping comparison of `is_vaddr_range_free`. -/
def meetsRange (cur : Region) (vaddr size : Nat) : Bool :=
  !(decide (wrap64 (cur.base + cur.size) ≤ vaddr) || decide (cur.base ≥ wrap64 (vaddr + size)))

def isVaddrRangeFree (space : Space) (vaddr size : Nat) : Bool :=
  if vaddr < userBottom ∨ wrap64 (vaddr + size) > userTop then false
  else space.regions.all fun cur => !meetsRange cur vaddr size

/-- The loop of `find_free_vaddr` over the regions. -/
def findFreeLoop (size : Nat) : (vaddrStart : Nat) → List Region → Nat
  | vaddrStart, [] => vaddrStart
  | vaddrStart, cur :: rest =>
    if wrap64 (cur.base + cur.size) ≤ vaddrStart then findFreeLoop size vaddrStart rest
    else if cur.base ≥ wrap64 (vaddrStart + size) then vaddrStart
    else findFreeLoop size (wrap64 (cur.base + cur.size)) rest

/-- The address `0` reports that no gap was found. -/
def findFreeVaddr (space : Space) (size : Nat) : Nat :=
  let vaddrStart := findFreeLoop size 0x50000000 space.regions
  if wrap64 (vaddrStart + size) > userTop then 0 else vaddrStart

/-- The number of pages that a length rounds up to. -/
def lengthPages (length : Nat) : Nat := wrap64 (length + pageSize - 1) / pageSize

/-- The flags of a region from the protection bits. -/
def protFlags (prot : Word) : BitVec 32 :=
  let vmmFlags := vmmRegionUser ||| vmmRegionUsed
  let vmmFlags := if prot &&& mmapProtRead != 0 then vmmFlags ||| vmmRegionRead else vmmFlags
  let vmmFlags := if prot &&& mmapProtWrite != 0 then vmmFlags ||| vmmRegionWrite else vmmFlags
  if prot &&& mmapProtExec != 0 then vmmFlags ||| vmmRegionExec else vmmFlags

/-- The hint of `sys_mmap` without its offset in the page. -/
def alignedHint (hint : Word) : Nat := pageAlignDown hint.toNat

/-- The part of `sys_mmap` before the search. It returns the address, or `0`, and may free a region at the hint. -/
def mmapTarget (m : Machine) (space : Space) (hint flags : Word) (size : Nat) : Nat × Machine × Space :=
  if hint = 0 then (0, m, space)
  else if flags &&& mmapMapFixed != 0 then
    if !isVaddrRangeFree space (alignedHint hint) size then
      let (m, space) := vmmSpaceFree m space (alignedHint hint)
      (alignedHint hint, m, space)
    else (alignedHint hint, m, space)
  else if isVaddrRangeFree space (alignedHint hint) size then (alignedHint hint, m, space)
  else (0, m, space)

/-- The flag `nodeOk` is the outcome of `region_alloc`. -/
def sysMmap (s : UserMem) (hint length prot flags : Word) (nodeOk : Bool) : Result (Nat × UserMem) :=
  if flags &&& mmapMapAnon = 0 then .ok (minusOne, s)
  else if length = 0 then .ok (minusOne, s)
  else
    match s.space with
    | none => .ok (minusOne, s)
    | some space =>
      let pageCount := lengthPages length.toNat
      let size := pageCount * pageSize
      let (targetVaddr, m, space) := mmapTarget s.machine space hint flags size
      let targetVaddr := if targetVaddr = 0 then findFreeVaddr space size else targetVaddr
      if targetVaddr = 0 then .ok (minusOne, s.put m space)
      else do
        let (vaddr, m, space) ← vmmSpaceAlloc m space targetVaddr pageCount (protFlags prot) nodeOk
        return (if vaddr = 0 then minusOne else vaddr, s.put m space)

def sysMunmap (s : UserMem) (addr : Word) : Nat × UserMem :=
  if addr.toNat = 0 ∨ addr.toNat > userTop then (minusOne, s)
  else
    match s.space with
    | none => (minusOne, s)
    | some space =>
      match vmmSpaceFind space addr.toNat with
      | none => (minusOne, s)
      | some _ =>
        let (m, space) := vmmSpaceFree s.machine space addr.toNat
        (0, s.put m space)

/-- The start of the heap when the break was never set. -/
def heapStart (heapBreak : Nat) : Nat := if heapBreak = 0 then 0x10000000 else heapBreak

def brkFlags : BitVec 32 := vmmRegionUser ||| vmmRegionUsed ||| vmmRegionRead ||| vmmRegionWrite

/-- The branch of `sys_brk` that grows the heap. -/
def growHeap (m : Machine) (p : UserProc) (newBreak : Nat) (nodeOk : Bool) : Result (Nat × UserMem) :=
  match p.space with
  | none => .ok (p.heapBreak, ⟨m, some p⟩)
  | some space => do
    let pages := lengthPages (newBreak - p.heapBreak)
    let (mapped, m, space) ← vmmSpaceAlloc m space p.heapBreak pages brkFlags nodeOk
    if mapped = 0 then return (p.heapBreak, ⟨m, some { p with space := some space }⟩)
    else return (newBreak, ⟨m, some ⟨some space, newBreak⟩⟩)

def sysBrk (s : UserMem) (newBreak : Word) (nodeOk : Bool) : Result (Nat × UserMem) :=
  match s.proc with
  | none => .ok (minusOne, s)
  | some p =>
    let p := { p with heapBreak := heapStart p.heapBreak }
    let newBreak := newBreak.toNat
    if newBreak = 0 then .ok (p.heapBreak, ⟨s.machine, some p⟩)
    else if newBreak > userTop then .ok (minusOne, ⟨s.machine, some p⟩)
    else if newBreak ≤ p.heapBreak then .ok (newBreak, ⟨s.machine, some { p with heapBreak := newBreak }⟩)
    else growHeap s.machine p newBreak nodeOk

/-- A memory call of the process with the outcome of its `region_alloc`. -/
inductive MemCall where
  | mmap (hint length prot flags : Word) (nodeOk : Bool)
  | munmap (addr : Word)
  | brk (newBreak : Word) (nodeOk : Bool)
deriving DecidableEq

/-- The value that a call leaves in `rax`, and the new state. -/
def UserMem.call (s : UserMem) : MemCall → Result (Nat × UserMem)
  | .mmap hint length prot flags nodeOk => sysMmap s hint length prot flags nodeOk
  | .munmap addr => .ok (sysMunmap s addr)
  | .brk newBreak nodeOk => sysBrk s newBreak nodeOk

def UserMem.step (s : UserMem) (call : MemCall) : Result UserMem := (s.call call).map Prod.snd

end DoccrOS.User
