import DoccrOS.Proof.Mem.SpaceLoops

namespace DoccrOS.Mem
open Lib.Radix Lib

/-- The address lies in a range of pages. -/
def InRange (base count va : Nat) : Prop := base / pageSize ≤ va / pageSize ∧ va / pageSize < base / pageSize + count

instance (base count va : Nat) : Decidable (InRange base count va) := inferInstanceAs (Decidable (_ ∧ _))

/-- The pages of a range got new leaf entries, and every other user page of every root keeps its entry. -/
structure MappedRange (m m' : Machine) (roots : Set Nat) (root base count : Nat) (entry : Nat → Word) : Prop where
  grown : Grown m m' roots
  leaf : ∀ root' ∈ roots, ∀ va, UserVa va → m'.findPte root' va =
    if root' = root ∧ InRange base count va then some (entry (va / pageSize - base / pageSize)) else m.findPte root' va
  occupied : AllOccupied m roots → AllOccupied m' roots

section
variable {m m' next : Machine} {roots : Set Nat} {root base count i : Nat} {entry : Nat → Word}

theorem Mapped.allOccupied {va : Nat} {word : Word} (mapped : Mapped m m' roots root va word)
    (occupied : AllOccupied m roots) : AllOccupied m' roots := by
  intro table owned notRoot
  have old (before : table ∈ Tables m roots) : Occupied m table ∨ table ∈ roots :=
    Or.inl (occupied table before notRoot)
  exact (mapped.occupied table owned old).resolve_right notRoot

theorem MappedRange.refl (inv : TableInv m roots) : MappedRange m m roots root base 0 entry where
  grown := Grown.refl inv
  leaf root' isRoot' va user := by
    rw [if_neg]
    rintro ⟨_, inside⟩
    unfold InRange at inside
    omega
  occupied held := held

/-- A further page extends the range. -/
theorem MappedRange.step (range : UserRange base count) (inside : i < count)
    (mapped : MappedRange m m' roots root base i entry)
    (last : Mapped m' next roots root (base + i * pageSize) (entry i)) :
    MappedRange m next roots root base (i + 1) entry where
  grown := mapped.grown.trans last.grown
  leaf root' isRoot' va user := by
    rw [last.leaf root' isRoot' va user, (range.address inside).2.2, mapped.leaf root' isRoot' va user]
    unfold InRange
    by_cases same : root' = root
    · by_cases here : va / pageSize = base / pageSize + i
      · rw [if_pos ⟨same, here⟩, if_pos ⟨same, by omega⟩, here, Nat.add_sub_cancel_left]
      · rw [if_neg fun both => here both.2]
        have narrow : base / pageSize ≤ va / pageSize ∧ va / pageSize < base / pageSize + (i + 1) ↔
            base / pageSize ≤ va / pageSize ∧ va / pageSize < base / pageSize + i := by omega
        simp only [narrow]
        congr
    · simp only [same, false_and, if_false]
  occupied held := last.allOccupied (mapped.occupied held)

/-- The page loop of `vmm_map_phys` maps the frames in order. -/
theorem vmmMapPhysPages_spec {physAddr : Nat} {flags : Word} (inv : TableInv m roots) (isRoot : root ∈ roots)
    (range : UserRange base count) (page : PageFlags flags)
    (returned : vmmMapPhysPages root base physAddr flags count m = .ok m') :
    MappedRange m m' roots root base count fun i => leafEntry (wrap64 (physAddr + i * pageSize)) flags := by
  let holds (i : Nat) (state : Machine) : Prop := MappedRange m state roots root base i fun i =>
    leafEntry (wrap64 (physAddr + i * pageSize)) flags
  have start : holds 0 m := MappedRange.refl inv
  change holds count m'
  refine foldlM_range start ?_ returned
  intro i state next inside held call
  rw [(range.address inside).1] at call
  have mapped := pagingMapPageIn_spec held.grown.inv isRoot (range.address inside).2.1 page.present call
  exact held.step range inside mapped

/-- What a call of `vmm_map_phys` can do. -/
theorem vmmMapPhys_cases {space space' : Space} {vaddr physAddr value : Nat} {flags : BitVec 32} {nodeOk : Bool}
    (returned : vmmMapPhys m space vaddr physAddr count flags nodeOk = .ok (value, m', space')) :
    (value = 0 ∧ m' = m ∧ space' = space ∧ (count = 0 ∨ nodeOk = false)) ∨
      (count ≠ 0 ∧ nodeOk = true ∧ value = pageAlignDown vaddr ∧
        vmmMapPhysPages space.pml4Phys (pageAlignDown vaddr) (pageAlignDown physAddr) (flagsToPte flags) count m = .ok m' ∧
        space' = space.record ⟨pageAlignDown vaddr, wrap64 (count * pageSize),
          vmmRegionUsed ||| vmmRegionMmio ||| flags⟩) := by
  unfold vmmMapPhys at returned
  split at returned
  · rename_i none
    injection returned with same
    simp only [Prod.mk.injEq] at same
    exact Or.inl ⟨same.1.symm, same.2.1.symm, same.2.2.symm, Or.inl none⟩
  · rename_i several
    cases nodeOk with
    | false =>
        injection returned with same
        simp only [Prod.mk.injEq] at same
        exact Or.inl ⟨same.1.symm, same.2.1.symm, same.2.2.symm, Or.inr rfl⟩
    | true =>
        obtain ⟨last, pages, rest⟩ := Result.bind_ok returned
        injection rest with same
        simp only [Prod.mk.injEq] at same
        obtain ⟨rfl, rfl, rfl⟩ := same
        exact Or.inr ⟨several, rfl, rfl, pages, rfl⟩

end

end DoccrOS.Mem
