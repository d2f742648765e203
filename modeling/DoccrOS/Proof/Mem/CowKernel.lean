import DoccrOS.Construction.Mem.Kernel
import DoccrOS.Proof.Mem.CowFaults

namespace DoccrOS.Mem
open Lib.Radix Lib

/-- The top-level tables of finitely many spaces. -/
def rootsOf {P : Type} [Fintype P] (spaces : P → Option Space) : Finset Nat :=
  Finset.univ.biUnion fun ptr => ((spaces ptr).map (·.pml4Phys)).toFinset

theorem mem_rootsOf {P : Type} [Fintype P] {spaces : P → Option Space} {root : Nat} :
    root ∈ rootsOf spaces ↔ ∃ ptr space, spaces ptr = some space ∧ space.pml4Phys = root := by
  rw [rootsOf, Finset.mem_biUnion]
  constructor
  · rintro ⟨ptr, _, member⟩
    rw [Option.mem_toFinset, Option.mem_def, Option.map_eq_some_iff] at member
    obtain ⟨space, live, same⟩ := member
    exact ⟨ptr, space, live, same⟩
  · rintro ⟨ptr, space, live, same⟩
    refine ⟨ptr, Finset.mem_univ _, ?_⟩
    rw [Option.mem_toFinset, Option.mem_def, live, Option.map_some, same]

/-- The top-level tables of the live spaces. -/
def Kernel.roots (k : Kernel) : Finset Nat := rootsOf k.spaces

theorem Kernel.mem_roots {k : Kernel} {root : Nat} :
    root ∈ k.roots ↔ ∃ ptr space, k.spaces ptr = some space ∧ space.pml4Phys = root :=
  mem_rootsOf

attribute [irreducible] Kernel.roots

/-- The relation of counters and references, and whether references may get lost. -/
structure Policy where
  rel : Nat → Nat → Prop
  lossy : Prop

/-- A lossy policy keeps no frame; a strict one has tight counters. -/
structure Policy.Lawful (policy : Policy) (keep : Set Nat) : Prop where
  discipline : Sharing.Discipline policy.rel
  loses : policy.lossy → keep = ∅ ∧ Leaky policy.rel ∧ policy.rel 0 1
  strict : ¬policy.lossy → ∀ rc refs, policy.rel rc refs → 1 < rc → 1 < refs

theorem Policy.Lawful.tight {policy : Policy} {keep : Set Nat} (lawful : policy.Lawful keep) :
    Tight policy.rel keep := by
  intro nonempty
  by_cases lossy : policy.lossy
  · rw [(lawful.loses lossy).1] at nonempty
    exact absurd nonempty Set.not_nonempty_empty
  · exact lawful.strict lossy

/-- The pages of all live spaces are well formed, and every space has its own top-level table. -/
structure KernelInv (policy : Policy) (keep : Set Nat) (k : Kernel) : Prop where
  pages : PageInv policy.rel keep k.machine k.roots
  spaces : ∀ ptr space, k.spaces ptr = some space → SpaceInv k.machine space
  distinct : ∀ ptr ptr' space space', k.spaces ptr = some space → k.spaces ptr' = some space' →
    space.pml4Phys = space'.pml4Phys → ptr = ptr'
  device : ∀ ptr space, k.spaces ptr = some space → ∀ region ∈ space.regions,
    hasFlag region.flags vmmRegionMmio = true → policy.lossy

section
variable {policy : Policy} {keep more : Set Nat} {k : Kernel} {ptr : HeapPtr} {space space' : Space} {m' : Machine}

theorem KernelInv.mono (inv : KernelInv policy keep k) (subset : more ⊆ keep) : KernelInv policy more k :=
  ⟨inv.pages.mono subset, inv.spaces, inv.distinct, inv.device⟩

theorem Kernel.isRoot (live : k.spaces ptr = some space) : space.pml4Phys ∈ k.roots :=
  Kernel.mem_roots.mpr ⟨ptr, space, live, rfl⟩

@[simp] theorem put_machine (value : Option Space) : (k.put ptr m' value).machine = m' := rfl

theorem put_spaces (value : Option Space) (other : HeapPtr) :
    (k.put ptr m' value).spaces other = if other = ptr then value else k.spaces other := by
  simp [Kernel.put, Function.update_apply]

/-- The roots stay when a space is replaced by one with the same table. -/
theorem put_roots (live : k.spaces ptr = some space) (sameRoot : space'.pml4Phys = space.pml4Phys) :
    (k.put ptr m' (some space')).roots = k.roots := by
  ext root
  rw [Kernel.mem_roots, Kernel.mem_roots]
  constructor
  · rintro ⟨other, value, shown, same⟩
    rw [put_spaces] at shown
    by_cases here : other = ptr
    · rw [if_pos here] at shown
      injection shown with isValue
      exact ⟨ptr, space, live, by rw [← same, ← isValue, sameRoot]⟩
    · rw [if_neg here] at shown
      exact ⟨other, value, shown, same⟩
  · rintro ⟨other, value, shown, same⟩
    by_cases here : other = ptr
    · rw [here, live] at shown
      injection shown with isValue
      exact ⟨ptr, space', by rw [put_spaces, if_pos rfl], by rw [← same, ← isValue, sameRoot]⟩
    · exact ⟨other, value, by rw [put_spaces, if_neg here]; exact shown, same⟩

/-- A new space adds its table to the roots. -/
theorem put_roots_new (dead : k.spaces ptr = none) :
    (k.put ptr m' (some space)).roots = insert space.pml4Phys k.roots := by
  ext root
  rw [Finset.mem_insert, Kernel.mem_roots, Kernel.mem_roots]
  constructor
  · rintro ⟨other, value, shown, same⟩
    rw [put_spaces] at shown
    by_cases here : other = ptr
    · rw [if_pos here] at shown
      injection shown with isValue
      exact Or.inl (by rw [← same, ← isValue])
    · rw [if_neg here] at shown
      exact Or.inr ⟨other, value, shown, same⟩
  · intro member
    rcases member with new | ⟨other, value, shown, same⟩
    · exact ⟨ptr, space, by rw [put_spaces, if_pos rfl], new.symm⟩
    · have different : other ≠ ptr := by
        intro here
        rw [here, dead] at shown
        cases shown
      exact ⟨other, value, by rw [put_spaces, if_neg different]; exact shown, same⟩

/-- A removed space takes its table out of the roots if no other space has it. -/
theorem put_roots_removed (apart : ∀ other value, other ≠ ptr → k.spaces other = some value →
    value.pml4Phys ≠ space.pml4Phys) (live : k.spaces ptr = some space) :
    (k.put ptr m' none).roots = k.roots.erase space.pml4Phys := by
  ext root
  rw [Finset.mem_erase, Kernel.mem_roots, Kernel.mem_roots]
  constructor
  · rintro ⟨other, value, shown, same⟩
    rw [put_spaces] at shown
    by_cases here : other = ptr
    · rw [if_pos here] at shown
      cases shown
    · rw [if_neg here] at shown
      refine ⟨?_, other, value, shown, same⟩
      intro clash
      exact apart other value here shown (same.trans clash)
  · rintro ⟨different, other, value, shown, same⟩
    refine ⟨other, value, ?_, same⟩
    have notHere : other ≠ ptr := by
      intro here
      rw [here, live] at shown
      injection shown with isValue
      exact different (by rw [← same, isValue])
    rw [put_spaces, if_neg notHere]
    exact shown

/-- Another space keeps its invariant when the pages below its table stay. -/
theorem KernelInv.other (inv : KernelInv policy keep k) {other : HeapPtr} {value : Space}
    (shown : k.spaces other = some value)
    (same : ∀ page, page < 2 ^ 35 → look m' (value.pml4Phys, page) = look k.machine (value.pml4Phys, page)) :
    SpaceInv m' value := by
  refine (inv.spaces other value shown).congr ?_
  intro page small seen
  rw [same page small] at seen
  exact seen

/-- The roots of other spaces differ. -/
theorem KernelInv.apart (inv : KernelInv policy keep k) (live : k.spaces ptr = some space) {other : HeapPtr}
    {value : Space} (different : other ≠ ptr) (shown : k.spaces other = some value) :
    value.pml4Phys ≠ space.pml4Phys :=
  fun same => different (inv.distinct other ptr value space shown live same)

theorem put_roots_erase (inv : KernelInv policy keep k) (live : k.spaces ptr = some space) :
    (k.put ptr m' none).roots = k.roots.erase space.pml4Phys :=
  put_roots_removed (fun _ _ different shown => inv.apart live different shown) live

/-- A call on one space keeps the kernel invariant if it keeps the pages of the others. -/
theorem KernelInv.put (inv : KernelInv policy keep k) (live : k.spaces ptr = some space)
    (sameRoot : space'.pml4Phys = space.pml4Phys) (pages : PageInv policy.rel more m' k.roots)
    (spaceInv : SpaceInv m' space')
    (device : ∀ region ∈ space'.regions, hasFlag region.flags vmmRegionMmio = true → policy.lossy)
    (others : ∀ place ∈ userPlaces k.roots, place.1 ≠ space.pml4Phys → look m' place = look k.machine place) :
    KernelInv policy more (k.put ptr m' (some space')) := by
  have cases (other : HeapPtr) (value : Space) (shown : (k.put ptr m' (some space')).spaces other = some value) :
      (other = ptr ∧ value = space') ∨ (other ≠ ptr ∧ k.spaces other = some value) := by
    rw [put_spaces] at shown
    by_cases here : other = ptr
    · rw [if_pos here] at shown
      injection shown with isValue
      exact Or.inl ⟨here, isValue.symm⟩
    · rw [if_neg here] at shown
      exact Or.inr ⟨here, shown⟩
  refine ⟨?_, ?_, ?_, ?_⟩
  · rw [put_roots live sameRoot]
    exact pages
  · intro other value shown
    rcases cases other value shown with ⟨_, isNew⟩ | ⟨different, old⟩
    · rw [isNew]
      exact spaceInv
    · refine inv.other old fun page small => others _ (mem_userPlaces.mpr ⟨Kernel.isRoot old, small⟩) ?_
      exact inv.apart live different old
  · intro first second value value' shown shown' same
    rcases cases first value shown with ⟨here, isNew⟩ | ⟨different, old⟩
    · rcases cases second value' shown' with ⟨here', _⟩ | ⟨_, old'⟩
      · rw [here, here']
      · rw [here]
        refine inv.distinct ptr second space value' live old' ?_
        rw [← same, isNew, sameRoot]
    · rcases cases second value' shown' with ⟨here', isNew'⟩ | ⟨_, old'⟩
      · rw [here']
        refine inv.distinct first ptr value space old live ?_
        rw [same, isNew', sameRoot]
      · exact inv.distinct first second value value' old old' same
  · intro other value shown
    rcases cases other value shown with ⟨_, isNew⟩ | ⟨_, old⟩
    · rw [isNew]
      exact device
    · exact inv.device other value old

/-- A new space with its own table keeps the kernel invariant. -/
theorem KernelInv.add (inv : KernelInv policy keep k) (dead : k.spaces ptr = none)
    (fresh : space.pml4Phys ∉ k.roots) (pages : PageInv policy.rel more m' (insert space.pml4Phys k.roots))
    (spaceInv : SpaceInv m' space)
    (device : ∀ region ∈ space.regions, hasFlag region.flags vmmRegionMmio = true → policy.lossy)
    (others : ∀ place ∈ userPlaces k.roots, look m' place = look k.machine place) :
    KernelInv policy more (k.put ptr m' (some space)) := by
  have cases (other : HeapPtr) (value : Space) (shown : (k.put ptr m' (some space)).spaces other = some value) :
      (other = ptr ∧ value = space) ∨ k.spaces other = some value := by
    rw [put_spaces] at shown
    by_cases here : other = ptr
    · rw [if_pos here] at shown
      injection shown with isValue
      exact Or.inl ⟨here, isValue.symm⟩
    · rw [if_neg here] at shown
      exact Or.inr shown
  refine ⟨?_, ?_, ?_, ?_⟩
  · rw [put_roots_new dead]
    exact pages
  · intro other value shown
    rcases cases other value shown with ⟨_, isNew⟩ | old
    · rw [isNew]
      exact spaceInv
    · exact inv.other old fun page small => others _ (mem_userPlaces.mpr ⟨Kernel.isRoot old, small⟩)
  · intro first second value value' shown shown' same
    rcases cases first value shown with ⟨here, isNew⟩ | old
    · rcases cases second value' shown' with ⟨here', _⟩ | old'
      · rw [here, here']
      · rw [isNew] at same
        exact absurd (same ▸ Kernel.isRoot old') fresh
    · rcases cases second value' shown' with ⟨_, isNew'⟩ | old'
      · rw [isNew'] at same
        exact absurd (same ▸ Kernel.isRoot old) fresh
      · exact inv.distinct first second value value' old old' same
  · intro other value shown
    rcases cases other value shown with ⟨_, isNew⟩ | old
    · rw [isNew]
      exact device
    · exact inv.device other value old

/-- A removed space keeps the kernel invariant. -/
theorem KernelInv.remove (inv : KernelInv policy keep k) (live : k.spaces ptr = some space)
    (pages : PageInv policy.rel more m' (k.roots.erase space.pml4Phys))
    (others : ∀ place ∈ userPlaces k.roots, place.1 ≠ space.pml4Phys → look m' place = look k.machine place) :
    KernelInv policy more (k.put ptr m' none) := by
  have cases (other : HeapPtr) (value : Space) (shown : (k.put ptr m' none).spaces other = some value) :
      other ≠ ptr ∧ k.spaces other = some value := by
    rw [put_spaces] at shown
    by_cases here : other = ptr
    · rw [if_pos here] at shown
      cases shown
    · rw [if_neg here] at shown
      exact ⟨here, shown⟩
  refine ⟨?_, ?_, ?_, ?_⟩
  · rw [put_roots_erase inv live]
    exact pages
  · intro other value shown
    obtain ⟨different, old⟩ := cases other value shown
    refine inv.other old fun page small => others _ (mem_userPlaces.mpr ⟨Kernel.isRoot old, small⟩) ?_
    exact inv.apart live different old
  · intro first second value value' shown shown' same
    exact inv.distinct first second value value' (cases first value shown).2 (cases second value' shown').2 same
  · intro other value shown
    exact inv.device other value (cases other value shown).2

end

end DoccrOS.Mem
