import DoccrOS.Construction.Mem.PhysMem

namespace DoccrOS.Mem

def ptePresent : Word := 0x1
def pteWritable : Word := 0x2
def pteUser : Word := 0x4
def pteHuge : Word := 0x80
def pteNoExec : Word := 0x8000000000000000
def pteAddrMask : Word := 0x000FFFFFFFFFF000

/-- The test `entry & PTE_PRESENT`. -/
def entryPresent (entry : Word) : Bool := entry &&& ptePresent != 0

/-- The test `entry & PTE_WRITABLE`. -/
def entryWritable (entry : Word) : Bool := entry &&& pteWritable != 0

/-- The address `entry & 0x000FFFFFFFFFF000`. -/
def entryAddr (entry : Word) : Nat := (entry &&& pteAddrMask).toNat

/-- Physical memory is reached through the direct map. A page holds 512 words and is named by its address. -/
structure Machine where
  phys : PhysMem
  ram : Nat → Fin 512 → Word
  kernelPml4 : Nat

/-- The store `table->entries[index] = entry`. -/
def Machine.setEntry (m : Machine) (table : Nat) (index : Fin 512) (entry : Word) : Machine :=
  { m with ram := Function.update m.ram table (Function.update (m.ram table) index entry) }

/-- The call `memset(page, 0, PAGE_SIZE)`. -/
def Machine.zeroPage (m : Machine) (page : Nat) : Machine :=
  { m with ram := Function.update m.ram page fun _ => 0 }

/-- The call `memcpy(dst, src, PAGE_SIZE)` on two whole pages. -/
def Machine.copyPage (m : Machine) (dst src : Nat) : Machine :=
  { m with ram := Function.update m.ram dst (m.ram src) }

/-- The table below a present entry. -/
def Machine.child (m : Machine) (table : Nat) (index : Fin 512) : Option Nat :=
  if entryPresent (m.ram table index) then some (entryAddr (m.ram table index)) else none

/-- A table has a first slot. -/
instance slots_neZero : NeZero 512 := ⟨by decide⟩

def pml4Index (va : Nat) : Fin 512 := Fin.ofNat 512 (va >>> 39)
def pdpIndex (va : Nat) : Fin 512 := Fin.ofNat 512 (va >>> 30)
def pdIndex (va : Nat) : Fin 512 := Fin.ofNat 512 (va >>> 21)
def ptIndex (va : Nat) : Fin 512 := Fin.ofNat 512 (va >>> 12)

def tableEntry (phys : Nat) : Word :=
  (BitVec.ofNat 64 phys &&& pteAddrMask) ||| ptePresent ||| pteWritable ||| pteUser

def leafEntry (phys : Nat) (flags : Word) : Word := (BitVec.ofNat 64 phys &&& pteAddrMask) ||| flags

/-- One level of `paging_map_page_in`: get the table below an entry or create an empty one. -/
def getOrCreate (message : String) (m : Machine) (table : Nat) (index : Fin 512) : Result (Nat × Machine) :=
  match m.child table index with
  | some below => .ok (below, m)
  | none =>
    let (phys, p) := physmemAllocTo m.phys 1
    if phys = 0 then .error (.panic message)
    else .ok (phys, (({ m with phys := p } : Machine).setEntry table index (tableEntry phys)).zeroPage phys)

def pagingMapPageIn (m : Machine) (pml4Phys virtualAddr physicalAddr : Nat) (flags : Word) : Result Machine := do
  let (pdpt, m) ← getOrCreate "paging_map_page_in: could not allocate PDPT" m pml4Phys (pml4Index virtualAddr)
  let (pd, m) ← getOrCreate "paging_map_page_in: could not allocate PD" m pdpt (pdpIndex virtualAddr)
  let (pt, m) ← getOrCreate "paging_map_page_in: could not allocate PT" m pd (pdIndex virtualAddr)
  return m.setEntry pt (ptIndex virtualAddr) (leafEntry physicalAddr flags)

/-- The guarded descent to the page table of an address. -/
def Machine.findPt (m : Machine) (pml4Phys va : Nat) : Option Nat := do
  let pdpt ← m.child pml4Phys (pml4Index va)
  let pd ← m.child pdpt (pdpIndex va)
  m.child pd (pdIndex va)

/-- The present leaf entry of an address. -/
def Machine.findPte (m : Machine) (pml4Phys va : Nat) : Option Word := do
  let pt ← m.findPt pml4Phys va
  if entryPresent (m.ram pt (ptIndex va)) then some (m.ram pt (ptIndex va)) else none

def pagingUnmapPageIn (m : Machine) (pml4Phys virtualAddr : Nat) : Machine :=
  match m.findPt pml4Phys virtualAddr with
  | none => m
  | some pt =>
    if entryPresent (m.ram pt (ptIndex virtualAddr)) then m.setEntry pt (ptIndex virtualAddr) 0 else m

/-- The address `0` reports that the page is not mapped. -/
def pteLookup (m : Machine) (pml4Phys va : Nat) : Nat :=
  match m.findPte pml4Phys va with
  | none => 0
  | some entry => entryAddr entry

end DoccrOS.Mem
