import DoccrOS.Proof.Mem.FrameBudget
import DoccrOS.Proof.Mem.KernelHalf
import DoccrOS.Proof.Mem.RoundTrip

namespace DoccrOS.Mem
open Lib.Radix

/-- The bits 12 to 47 of an address, which select its page. -/
def pageBits (va : Nat) : Nat := va / pageSize % 2 ^ 36

/-- The address is in a user half, or the kernel halves of the roots stand apart. -/
def Observed (m : Machine) (roots : Set Nat) (va : Nat) : Prop := KernelVa va → KernelApart m roots

section
variable {m m' : Machine} {roots : Set Nat} {root va phys : Nat} {flags : Word} {slot : Option Word}

/-- The address that `pte_lookup` reads from a leaf entry. -/
def slotAddr (slot : Option Word) : Nat := (slot.map entryAddr).getD 0

theorem pteLookup_eq (m : Machine) (root va : Nat) : pteLookup m root va = slotAddr (m.findPte root va) := by
  unfold pteLookup slotAddr
  cases m.findPte root va <;> rfl

/-- A change of one user leaf that keeps the kernel half changes the look-ups of one page. -/
theorem lookup_changed (user : UserVa va) (grown : Grown m m' roots)
    (leaf : ∀ root' ∈ roots, ∀ va', UserVa va' → m'.findPte root' va' =
      if root' = root ∧ va' / pageSize = va / pageSize then slot else m.findPte root' va')
    {root' va' : Nat} (isRoot' : root' ∈ roots) (observed : Observed m roots va') :
    pteLookup m' root' va' = if root' = root ∧ pageBits va' = pageBits va then slotAddr slot else pteLookup m root' va' := by
  have high (kernel : KernelVa va') : pageBits va' ≠ pageBits va := by
    unfold KernelVa pml4Index at kernel
    unfold UserVa at user
    simp only [Fin.val_ofNat, Nat.shiftRight_eq_div_pow] at kernel
    unfold pageBits pageSize
    omega
  by_cases kernel : KernelVa va'
  · rw [if_neg fun both => high kernel both.2, pteLookup_eq, pteLookup_eq,
      ((observed kernel).grown grown).2 root' isRoot' va' kernel]
  · obtain ⟨user', same⟩ := findPte_canonical m' root' kernel
    have same' := (findPte_canonical m root' kernel).2
    have bits : va' % 2 ^ 48 / pageSize = va / pageSize ↔ pageBits va' = pageBits va := by
      unfold UserVa at user
      unfold pageBits pageSize
      omega
    rw [pteLookup_eq, pteLookup_eq, ← same, ← same', leaf root' isRoot' _ user']
    simp only [bits]
    split <;> rfl

theorem Observed.grown (observed : Observed m roots va) (grown : Grown m m' roots) : Observed m' roots va :=
  fun kernel => ((observed kernel).grown grown).1

/-- The look-ups after `paging_map_page_in`. -/
theorem Mapped.lookup (mapped : Mapped m m' roots root va (leafEntry phys flags)) (user : UserVa va)
    (noAddr : flags &&& pteAddrMask = 0) (fits : phys < 2 ^ 52) {root' va' : Nat} (isRoot' : root' ∈ roots)
    (observed : Observed m roots va') : pteLookup m' root' va' =
      if root' = root ∧ pageBits va' = pageBits va then pageAlignDown phys else pteLookup m root' va' := by
  have address : slotAddr (some (leafEntry phys flags)) = pageAlignDown phys := by
    have number := entryFrame_leaf noAddr (show phys < 2 ^ 64 by omega)
    have whole := entryAddr_aligned (leafEntry phys flags)
    change entryAddr (leafEntry phys flags) = _
    unfold pageAlignDown
    simp only [pageSize] at number whole ⊢
    omega
  rw [lookup_changed user mapped.grown mapped.leaf isRoot' observed, address]

/-- The look-ups after `paging_unmap_page_in`. -/
theorem LeafSet.lookup (set : LeafSet m m' roots root va none) (user : UserVa va) {root' va' : Nat} (isRoot' : root' ∈ roots)
    (observed : Observed m roots va') : pteLookup m' root' va' =
      if root' = root ∧ pageBits va' = pageBits va then 0 else pteLookup m root' va' :=
  lookup_changed user set.grown set.leaf isRoot' observed

/-- A user address is always observed. -/
theorem UserVa.observed (user : UserVa va) (m : Machine) (roots : Set Nat) : Observed m roots va := by
  intro kernel
  unfold KernelVa pml4Index at kernel
  unfold UserVa at user
  simp only [Fin.val_ofNat, Nat.shiftRight_eq_div_pow] at kernel
  omega

/-- The arguments of a mapping: a user address, a physical address of 52 bits, and flags that are present and hold no
address bit. -/
structure MapArgs (va phys : Nat) (flags : Word) : Prop where
  user : UserVa va
  fits : phys < 2 ^ 52
  present : entryPresent flags = true
  noAddr : flags &&& pteAddrMask = 0

/-- The paths of the three tables above a page. -/
def pagePaths (va : Nat) : Finset (List (Fin 512)) := {[pml4Index va], [pml4Index va, pdpIndex va], tablePath va}

theorem pagePaths_user (user : UserVa va) : ∀ path ∈ pagePaths va, userPaths.holds path := by
  have admitted := tablePath_user user
  have admitted₂ := userPaths.init [pml4Index va, pdpIndex va] _ admitted
  have admitted₁ := userPaths.init [pml4Index va] _ admitted₂
  intro path member
  simp only [pagePaths, Finset.mem_insert, Finset.mem_singleton] at member
  rcases member with rfl | rfl | rfl
  · exact admitted₁
  · exact admitted₂
  · exact admitted

/-- The look-ups of all other pages of all roots are kept. -/
def OthersKept (m m' : Machine) (roots : Set Nat) (root va : Nat) (seen : Nat → Prop) : Prop :=
  ∀ root' ∈ roots, ∀ va', root' ≠ root ∨ pageBits va' ≠ pageBits va → seen va' → pteLookup m' root' va' = pteLookup m root' va'

theorem MapArgs.mapped (args : MapArgs va phys flags) (tables : TableInv m roots) (isRoot : root ∈ roots)
    (returned : pagingMapPageIn m root va phys flags = .ok m') : Mapped m m' roots root va (leafEntry phys flags) :=
  pagingMapPageIn_spec tables isRoot args.user args.present returned

/-- A mapping is seen at its page, and nothing else changes. -/
theorem Mapped.laws (mapped : Mapped m m' roots root va (leafEntry phys flags)) (args : MapArgs va phys flags)
    (isRoot : root ∈ roots) {seen : Nat → Prop} (within : ∀ va', seen va' → Observed m roots va') :
    pteLookup m' root va = pageAlignDown phys ∧ OthersKept m m' roots root va seen := by
  constructor
  · rw [mapped.lookup args.user args.noAddr args.fits isRoot (args.user.observed m roots), if_pos ⟨rfl, rfl⟩]
  · intro root' isRoot' va' different visible
    rw [mapped.lookup args.user args.noAddr args.fits isRoot' (within va' visible), if_neg]
    rintro ⟨sameRoot, samePage⟩
    exact different.elim (fun other => other sameRoot) fun other => other samePage

/-- The laws of map, look-up and unmap: a mapping is seen at its page only, an unmapping removes it and nothing else, the last
of two mappings of a page stays, and mappings of different pages commute. -/
theorem page_table_laws (tables : TableInv m roots) (isRoot : root ∈ roots) (args : MapArgs va phys flags) :
    ((missingPaths m root (pagePaths va)).card ≤ physmemFreeGet m.phys →
      ∃ m₁, pagingMapPageIn m root va phys flags = .ok m₁) ∧
    ∀ m₁, pagingMapPageIn m root va phys flags = .ok m₁ →
      (pteLookup m₁ root va = pageAlignDown phys ∧ OthersKept m m₁ roots root va (Observed m roots)) ∧
      (pteLookup (pagingUnmapPageIn m₁ root va) root va = 0 ∧
        OthersKept m₁ (pagingUnmapPageIn m₁ root va) roots root va (Observed m roots)) ∧
      (∀ phys' flags' m₂, MapArgs va phys' flags' → pagingMapPageIn m₁ root va phys' flags' = .ok m₂ →
        pteLookup m₂ root va = pageAlignDown phys' ∧ OthersKept m₁ m₂ roots root va (Observed m roots)) ∧
      ∀ root' ∈ roots, ∀ va' phys' flags' m₂ m₁₂ m₂₁, MapArgs va' phys' flags' →
        root' ≠ root ∨ pageBits va' ≠ pageBits va →
        pagingMapPageIn m root' va' phys' flags' = .ok m₂ → pagingMapPageIn m₁ root' va' phys' flags' = .ok m₁₂ →
        pagingMapPageIn m₂ root va phys flags = .ok m₂₁ →
        ∀ query ∈ roots, ∀ at', Observed m roots at' → pteLookup m₁₂ query at' = pteLookup m₂₁ query at' := by
  constructor
  · intro enough
    cases returned : pagingMapPageIn m root va phys flags with
    | ok m₁ => exact ⟨m₁, rfl⟩
    | error halt =>
        have short := pagingMapPageIn_error tables isRoot (pagePaths_user args.user) (by simp [pagePaths]) returned
        omega
  · intro m₁ returned
    have mapped := args.mapped tables isRoot returned
    have tables₁ := mapped.grown.inv
    have within : ∀ at', Observed m roots at' → Observed m₁ roots at' := fun _ visible => visible.grown mapped.grown
    refine ⟨mapped.laws args isRoot fun _ visible => visible, ?_, ?_, ?_⟩
    · have set := pagingUnmapPageIn_spec tables₁ isRoot args.user
      constructor
      · rw [set.lookup args.user isRoot (args.user.observed m₁ roots), if_pos ⟨rfl, rfl⟩]
      · intro root' isRoot' va' different visible
        rw [set.lookup args.user isRoot' (within va' visible), if_neg]
        rintro ⟨sameRoot, samePage⟩
        exact different.elim (fun other => other sameRoot) fun other => other samePage
    · intro phys' flags' m₂ args' returned'
      exact (args'.mapped tables₁ isRoot returned').laws args' isRoot within
    · intro root' isRoot' va' phys' flags' m₂ m₁₂ m₂₁ args' different returned₂ returned₁₂ returned₂₁ query isQuery at' visible
      have mapped₂ := args'.mapped tables isRoot' returned₂
      have mapped₁₂ := args'.mapped tables₁ isRoot' returned₁₂
      have mapped₂₁ := args.mapped mapped₂.grown.inv isRoot returned₂₁
      rw [mapped₁₂.lookup args'.user args'.noAddr args'.fits isQuery (within at' visible),
        mapped.lookup args.user args.noAddr args.fits isQuery visible,
        mapped₂₁.lookup args.user args.noAddr args.fits isQuery (visible.grown mapped₂.grown),
        mapped₂.lookup args'.user args'.noAddr args'.fits isQuery visible]
      by_cases first : query = root ∧ pageBits at' = pageBits va
      · rw [if_pos first, if_pos first, if_neg]
        rintro ⟨sameRoot, samePage⟩
        rcases different with other | other
        · exact other (sameRoot.symm.trans first.1)
        · exact other (samePage.symm.trans first.2)
      · rw [if_neg first, if_neg first]

end

/-- A page of the first space of the small machine is mapped. -/
theorem page_table_laws_one : ∃ m₁, pagingMapPageIn smallSpace.2 0x2000 0x400000 0x5123 7 = .ok m₁ ∧
    pteLookup m₁ 0x2000 0x400000 = 0x5000 ∧ pteLookup (pagingUnmapPageIn m₁ 0x2000 0x400000) 0x2000 0x400000 = 0 := by
  have args : MapArgs 0x400000 0x5123 7 := ⟨by decide, by decide, by decide, by decide⟩
  obtain ⟨available, laws⟩ := page_table_laws smallSpace_wellFormed.tables smallSpace_wellFormed.isRoot args
  obtain ⟨m₁, returned⟩ := available (by decide +kernel)
  obtain ⟨⟨seen, _⟩, ⟨gone, _⟩, _⟩ := laws m₁ returned
  exact ⟨m₁, returned, seen, gone⟩

end DoccrOS.Mem
