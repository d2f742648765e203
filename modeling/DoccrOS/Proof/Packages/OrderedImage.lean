import DoccrOS.Proof.Packages.ElfImage
import DoccrOS.Proof.User.OrderedSpaces

namespace DoccrOS.Packages
open Lib Mem User

/-- The segments end in the user half, and no page belongs to two of them or to one and the stack. -/
structure SegmentsApart (image : Image) : Prop where
  user : ∀ i, i < image.ePhnum → (image.phdr i).pType = ptLoad → (image.phdr i).InUser
  apart : ∀ i j, i < j → j < image.ePhnum → (image.phdr i).pType = ptLoad → (image.phdr j).pType = ptLoad →
    ∀ va, (image.phdr i).HasPage va → ¬(image.phdr j).HasPage va
  stack : ∀ i, i < image.ePhnum → (image.phdr i).pType = ptLoad → ∀ va, (image.phdr i).HasPage va →
    ¬InRange userStackBase userStackPages va

/-- The space is in order, and its regions are the pages of the segments below the header. -/
structure SegmentsOrdered (image : Image) (i : Nat) (m : Machine) (space : Space) : Prop where
  ordered : OrderedSpace m space
  origin : ∀ region ∈ space.regions, ∃ j, j < i ∧ (image.phdr j).pType = ptLoad ∧ (image.phdr j).InUser ∧
    (image.phdr j).pgCount ≠ 0 ∧ region.base = (image.phdr j).vaBase ∧ region.size = (image.phdr j).pgCount * pageSize

section
variable {roots : Set Nat} {m m' : Machine} {space : Space} {image : Image} {base base' count count' root i : Nat}
  {ph : Phdr}

/-- Two ranges with a page each and none in common lie apart. -/
theorem ranges_apart (aligned : base % pageSize = 0) (aligned' : base' % pageSize = 0) (some : count ≠ 0)
    (some' : count' ≠ 0) (apart : ∀ va, InRange base count va → ¬InRange base' count' va) :
    base' + count' * pageSize ≤ base ∨ base + count * pageSize ≤ base' := by
  by_contra meet
  apply apart (max base base')
  · unfold InRange
    simp only [pageSize] at *
    omega
  · unfold InRange
    simp only [pageSize] at *
    omega

/-- A segment meets no region of the segments below it. -/
theorem SegmentsOrdered.apart (holds : SegmentsOrdered image i m space) (range : UserRange base count) (some : count ≠ 0)
    (apart : ∀ j, j < i → (image.phdr j).pType = ptLoad → ∀ va, (image.phdr j).HasPage va → ¬InRange base count va) :
    ∀ cur ∈ space.regions, meetsRange cur base (count * pageSize) = false := by
  intro cur member
  obtain ⟨j, below, isLoad, inUser, pages, isBase, isSize⟩ := holds.origin cur member
  rw [meetsRange_apart (holds.ordered.inv.regions cur member) range, isBase, isSize]
  exact ranges_apart inUser.range.aligned range.aligned pages some (apart j below isLoad)

/-- Every header that `elf_load` passes keeps the space in order. -/
theorem SegmentsOrdered.kept (apart : SegmentsApart image) (shield roots : Set Nat) :
    KeptByLoads shield roots image (SegmentsOrdered image) := by
  intro i m space places m' space' inside accepted inv holds outcome
  cases outcome with
  | skipped other =>
      refine ⟨holds.ordered, ?_⟩
      intro region member
      obtain ⟨j, below, rest⟩ := holds.origin region member
      exact ⟨j, Nat.lt_succ_of_lt below, rest⟩
  | loaded frames m₁ _ isLoad passes range filled _ stores _ _ =>
      have inUser := (accepted i (Nat.le_refl i) isLoad).2
      obtain ⟨inv₁, _⟩ := inv.alloc range filled
      have meets := holds.apart range passes.pages fun j below isLoad' va => apart.apart j i below inside isLoad' isLoad va
      have notTable : ∀ cell ∈ {cell | ∃ place, (pageView m₁ (places ∪ rangePlaces space.pml4Phys (image.phdr i).vaBase
          (image.phdr i).pgCount)).map place = some cell}, cell ∉ Tables m₁ roots := by
        rintro cell ⟨place, tracked⟩
        exact (inv₁.memory.data.data place cell tracked).2
      obtain ⟨_, _, leaf⟩ := stores.tables inv₁.memory.data.tables notTable
      constructor
      · apply (holds.ordered.recorded range (Nat.pos_of_ne_zero passes.pages) (recorded_used _) meets _).1
        intro va user outside
        rw [leaf _ inv.isRoot va user, filled.leaf _ inv.isRoot va user, if_neg fun both => outside both.2]
      · intro region member
        rcases List.mem_cons.mp ((insertRegion_perm _ _).mem_iff.mp member) with rfl | old
        · exact ⟨i, Nat.lt_succ_self i, isLoad, inUser, passes.pages, rfl, range.bytes⟩
        · obtain ⟨j, below, rest⟩ := holds.origin region old
          exact ⟨j, Nat.lt_succ_of_lt below, rest⟩

/-- A new space is in order. -/
theorem SegmentsOrdered.start (added : RootAdded m m' roots root) : SegmentsOrdered image 0 m' ⟨root, [], 0, 0⟩ := by
  have none {P : Region → Prop} : ∀ region ∈ ([] : List Region), P region := fun _ member =>
    absurd member List.not_mem_nil
  refine ⟨⟨⟨none, List.Pairwise.nil, ?_⟩, List.Pairwise.nil, none⟩, none⟩
  intro page small shown
  have empty := added.empty _ (userVa_page small)
  simp [look, empty] at shown

end

end DoccrOS.Packages
