import DoccrOS.Construction.Types
import DoccrOS.Lib.Copying

namespace DoccrOS
open Lib

/-- The bytes of an address space. -/
abbrev Memory := Word → BitVec 8

/-- The address `&p[i]` of a byte. -/
def byteAddress (p : Word) (i : Nat) : Word := p + BitVec.ofNat 64 i

namespace Mem

/-- The function of the kernel. -/
def memmove (mem : Memory) (dst src n : Word) : Memory :=
  if dst < src then copyUp mem (byteAddress dst) (byteAddress src) n.toNat
  else copyDown mem (byteAddress dst) (byteAddress src) n.toNat

end Mem

namespace User

/-- The function of the C library, which returns its destination. -/
def memmove (mem : Memory) (dst src n : Word) : Word × Memory :=
  if dst < src then (dst, copyUp mem (byteAddress dst) (byteAddress src) n.toNat)
  else if dst > src then (dst, copyDown mem (byteAddress dst) (byteAddress src) n.toNat)
  else (dst, mem)

end User

end DoccrOS
