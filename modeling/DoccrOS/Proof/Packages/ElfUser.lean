import DoccrOS.Proof.Packages.ElfLoads
import DoccrOS.Proof.User.MemCalls

namespace DoccrOS.Packages
open Lib Mem

section
variable {roots : Set Nat} {m m' : Machine} {places : Finset Place} {image : Image} {outcomes : LoadOutcomes}
  {result : Option Space} {root : Nat}

/-- A new root translates the kernel half like the kernel table. -/
theorem RootAdded.shared {m₁ : Machine} (added : RootAdded m m₁ roots root) (memory : MemInv (kernelPages m roots) m roots places)
    (spared : Spared (kernelPages m roots) m₁ m' (insert root roots)) {va : Nat} (kernel : KernelVa va) :
    m'.findPte root va = m.findPte m.kernelPml4 va := by
  have different : m.kernelPml4 ≠ root := by
    intro same
    exact (memory.shielded _ (Or.inl rfl)).2.1 (same ▸ added.free)
  obtain ⟨_, spared₁, _⟩ := memory.addRoot added
  refine findPte_kernel kernel ?_ ?_
  · intro index high
    rw [spared.kernelHalf root (Set.mem_insert _ _) index high, added.kernelHalf different index high]
  · intro table owned
    have member : table ∈ kernelPages m roots := Or.inr ⟨_, Or.inr rfl, owned⟩
    exact (spared.ram table member).trans (spared₁.ram table member)

/-- An allocation that succeeds has recorded its range. -/
theorem vmmSpaceAlloc_records {space space' : Space} {base count value : Nat} {flags : BitVec 32} {nodeOk : Bool}
    (returned : vmmSpaceAlloc m space base count flags nodeOk = .ok (value, m', space')) (success : value ≠ 0) :
    count ≠ 0 ∧ space' = space.record ⟨pageAlignDown base, wrap64 (count * pageSize), vmmRegionUsed ||| flags⟩ := by
  unfold vmmSpaceAlloc at returned
  split at returned
  · cases returned
    exact absurd rfl success
  · rename_i several
    cases nodeOk with
    | false =>
        cases returned
        exact absurd rfl success
    | true =>
        obtain ⟨⟨failed, full⟩, _, rest⟩ := Result.bind_ok returned
        cases failed with
        | some i =>
            cases rest
            exact absurd rfl success
        | none =>
            cases rest
            exact ⟨several, rfl⟩

/-- The space has the region of the pages of the header. -/
def Phdr.RecordedIn (ph : Phdr) (space : Space) : Prop :=
  ∃ region ∈ space.regions, region.base = ph.vaBase ∧ region.size = wrap64 (ph.pgCount * pageSize)

theorem Phdr.RecordedIn.record {ph : Phdr} {space : Space} (recorded : ph.RecordedIn space) (node : Region) :
    ph.RecordedIn (space.record node) := by
  obtain ⟨region, member, shape⟩ := recorded
  exact ⟨region, (insertRegion_perm node space.regions).mem_iff.mpr (List.mem_cons_of_mem _ member), shape⟩

theorem loadSegment_records {space space' : Space} {ph : Phdr} {nodeOk : Bool}
    (returned : loadSegment image m space ph nodeOk = .ok (true, m', space')) :
    (∀ other : Phdr, other.RecordedIn space → other.RecordedIn space') ∧
      (ph.pType = ptLoad → ph.Accepted image ∧ ph.RecordedIn space') := by
  unfold loadSegment at returned
  split at returned
  · rename_i other
    cases returned
    exact ⟨fun _ recorded => recorded, fun isLoad => absurd isLoad other⟩
  split at returned
  · cases returned
  rename_i bounds
  split at returned
  · cases returned
  rename_i sizes
  obtain ⟨⟨mapped, m₁, space₁⟩, allocated, rest⟩ := Result.bind_ok returned
  by_cases failed : mapped = 0
  · simp only [failed, if_true] at rest
    cases rest
  · obtain ⟨pages, rfl⟩ := vmmSpaceAlloc_records allocated failed
    simp only [failed, if_false] at rest
    obtain ⟨⟨filled, m₂⟩, _, rest⟩ := Result.bind_ok rest
    cases rest
    refine ⟨fun other recorded => recorded.record _, fun _ => ⟨⟨by omega, by omega, pages⟩, ?_⟩⟩
    refine ⟨_, (insertRegion_perm _ _).mem_iff.mpr List.mem_cons_self, ?_, rfl⟩
    show pageAlignDown ph.vaBase = ph.vaBase
    unfold Phdr.vaBase pageAlignDown
    simp only [pageSize]
    omega

end

/-- The bytes of a little-endian number. -/
def littleEndian (count n : Nat) : List (BitVec 8) := (List.range count).map fun i => BitVec.ofNat 8 (n / 256 ^ i)

/-- The bytes of a program header for a loaded segment. -/
def Phdr.bytes (ph : Phdr) : List (BitVec 8) :=
  littleEndian 4 ph.pType ++ littleEndian 4 ph.pFlags.toNat ++ littleEndian 8 ph.pOffset ++ littleEndian 8 ph.pVaddr ++
    littleEndian 8 0 ++ littleEndian 8 ph.pFilesz ++ littleEndian 8 ph.pMemsz ++ littleEndian 8 pageSize

/-- The bytes of an executable with the given program headers behind the file header. -/
def executable (phdrs : List Phdr) (content : List (BitVec 8)) : Image :=
  let bytes := [0x7F, 0x45, 0x4C, 0x46, 2, 1, 1, 0] ++ littleEndian 8 0 ++ littleEndian 2 elfTypeExec ++
    littleEndian 2 elfMachX8664 ++ littleEndian 4 1 ++ littleEndian 8 0x400000 ++ littleEndian 8 sizeofEhdr ++
    littleEndian 8 0 ++ littleEndian 4 0 ++ littleEndian 2 sizeofEhdr ++ littleEndian 2 sizeofPhdr ++
    littleEndian 2 phdrs.length ++ littleEndian 6 0 ++ phdrs.flatMap Phdr.bytes ++ content
  ⟨bytes.length, fun offset => bytes.getD offset 0⟩

/-- All allocations of the heap succeed. -/
def allGranted : LoadOutcomes := ⟨true, true, fun _ => true, true, true⟩

/-- A segment of the user half with three bytes of the file. -/
def userSegment : Image := executable [⟨ptLoad, 5, 120, 0x400000, 3, 5⟩] [1, 2, 3]

theorem userSegment_headers : userSegment.ePhnum = 1 ∧ userSegment.phdr 0 = ⟨ptLoad, 5, 120, 0x400000, 3, 5⟩ := by
  refine ⟨?_, ?_⟩ <;> decide +kernel

theorem smallMachine_memInv : MemInv (kernelPages smallMachine ∅) smallMachine ∅ ∅ :=
  User.smallMachine_kernelUsed.memInv smallKernel_boot.tables (tables_empty _)

end DoccrOS.Packages
