import DoccrOS.Lib.Run
import DoccrOS.Proof.Mem.CowSteps

namespace DoccrOS.Mem
open Lib.Radix Lib

/-- The kernel before it creates a space. The frame `0` belongs to the first megabyte that `physmem_init` marks used. -/
structure Boot (k : Kernel) : Prop where
  noSpaces : ∀ ptr, k.spaces ptr = none
  zeroUsed : k.machine.phys.used 0 = true

section
variable {k : Kernel}

theorem Boot.roots (boot : Boot k) : k.roots = ∅ := by
  ext root
  rw [Kernel.mem_roots]
  constructor
  · rintro ⟨ptr, space, live, _⟩
    rw [boot.noSpaces ptr] at live
    cases live
  · intro member
    exact absurd member (Finset.notMem_empty root)

/-- No table belongs to no root. -/
theorem tables_empty (m : Machine) : Tables m ∅ = ∅ := by
  ext table
  constructor
  · intro owned
    obtain ⟨root, isRoot, _⟩ := owned
    exact isRoot
  · intro owned
    exact owned.elim

theorem Boot.tables (boot : Boot k) : TableInv k.machine ∅ := by
  refine ⟨fun _ _ _ _ _ isRoot => isRoot.elim, ?_, boot.zeroUsed⟩
  intro table owned
  rw [tables_empty] at owned
  exact owned.elim

theorem Boot.kernelInv (boot : Boot k) (policy : Policy) : KernelInv policy ∅ k := by
  have unmapped : ∀ place cell, (userView k.machine k.roots).map place ≠ some cell := by
    intro place cell mapped
    have tracked := (mem_userPlaces.mp (pageView_map.mp mapped).1).1
    rw [boot.roots] at tracked
    exact absurd tracked (Finset.notMem_empty _)
  refine ⟨⟨⟨?_, ?_, ?_⟩, ?_, ?_, ?_, ?_⟩, ?_, ?_, ?_⟩
  · rw [boot.roots, Finset.coe_empty]
    exact boot.tables
  · intro place tracked
    exact mem_userPlaces.mp tracked
  · intro place cell mapped
    exact absurd mapped (unmapped place cell)
  · intro cell referenced
    obtain ⟨place, mapped⟩ := Sharing.exists_of_count_pos referenced
    exact absurd mapped (unmapped place cell)
  · intro place cell _ mapped
    exact absurd mapped (unmapped place cell)
  · intro first second cell atFirst
    exact absurd atFirst (unmapped first cell)
  · intro frame member
    exact member.elim
  · intro ptr space live
    rw [boot.noSpaces ptr] at live
    cases live
  · intro ptr _ space _ live
    rw [boot.noSpaces ptr] at live
    cases live
  · intro ptr space live
    rw [boot.noSpaces ptr] at live
    cases live

end

/-- A machine with 64 frames, of which the first two are used, and an empty kernel table in the second. -/
def smallMachine : Machine where
  phys := ⟨fun frame => if frame < 2 then ⟨1, frameUsed⟩ else ⟨0, frameFree⟩, 64,
    fun byte => if byte = 0 then 3#8 else 0#8, by decide⟩
  ram _ _ := 0
  kernelPml4 := pageSize

/-- The small machine before the first space. -/
def smallKernel : Kernel := ⟨smallMachine, fun _ => none⟩

theorem smallKernel_boot : Boot smallKernel := ⟨fun _ => rfl, by decide⟩

end DoccrOS.Mem
