import DoccrOS.Proof.Mem.ForestCalls
import DoccrOS.Proof.Mem.ListedSpaces
import DoccrOS.Proof.User.FreeVaddr
import DoccrOS.Proof.User.Munmap

namespace DoccrOS.User
open Lib Mem Proc

/-- The regions of a space are disjoint, sorted and not empty, and they hold every mapped page. -/
structure OrderedSpace (m : Machine) (space : Space) : Prop where
  inv : SpaceInv m space
  sorted : space.regions.Pairwise fun first second => first.base ≤ second.base
  sized : ∀ region ∈ space.regions, 0 < region.size

/-- Every mapped page of a root keeps its entry. -/
def PagesStay (m m' : Machine) (root : Nat) : Prop :=
  ∀ va entry, UserVa va → m.findPte root va = some entry → m'.findPte root va = some entry

/-- A mapped page loses its entry only if it lies in the region at the base. -/
def PagesLeave (m m' : Machine) (space : Space) (base : Option Nat) : Prop :=
  ∀ va entry, UserVa va → m.findPte space.pml4Phys va = some entry → m'.findPte space.pml4Phys va = some entry ∨
    ∃ vaddr region, base = some vaddr ∧ space.selected vaddr = some region ∧ region.holds va = true

/-- An allocation that gets a node and a first frame meets no region. -/
def AllocApart (m : Machine) (space : Space) (base count : Nat) (nodeOk : Bool) : Prop :=
  nodeOk = true → (∃ frame, m.phys.Free frame) → ∀ cur ∈ space.regions, meetsRange cur base (count * pageSize) = false

section
variable {m m' m'' : Machine} {space space' : Space} {roots : Set Nat} {base count va value vaddr : Nat} {flags : BitVec 32}
  {nodeOk : Bool} {cur : Region}

theorem PagesStay.refl (m : Machine) (root : Nat) : PagesStay m m root := fun _ _ _ found => found

theorem PagesStay.leave (stay : PagesStay m m' space.pml4Phys) (base : Option Nat) : PagesLeave m m' space base :=
  fun va entry user found => Or.inl (stay va entry user found)

/-- Pages that stay behind a release were not released. -/
theorem PagesLeave.trans {base : Option Nat} (first : PagesLeave m m' space base) (second : PagesStay m' m'' space.pml4Phys) :
    PagesLeave m m'' space base :=
  fun va entry user found => (first va entry user found).imp_left (second va entry user)

/-- A range of the user half meets a region by the comparison of the source just if it lies neither below nor above it. -/
theorem meetsRange_apart (inv : RegionInv cur) (range : UserRange base count) :
    meetsRange cur base (count * pageSize) = false ↔
      base + count * pageSize ≤ cur.base ∨ cur.base + cur.size ≤ base := by
  have fits := range.fits
  have noWrap : wrap64 (base + count * pageSize) = base + count * pageSize := Nat.mod_eq_of_lt (by omega)
  rw [meetsRange, (Region.stop inv.range inv.whole).2, noWrap, Bool.not_eq_false', Bool.or_eq_true, decide_eq_true_eq,
    decide_eq_true_eq]
  exact Or.comm

/-- A range that `is_vaddr_range_free` accepts meets no region. -/
theorem isVaddrRangeFree_apart {size : Nat} (accepted : isVaddrRangeFree space vaddr size = true) :
    ∀ cur ∈ space.regions, meetsRange cur vaddr size = false := by
  intro cur member
  unfold isVaddrRangeFree at accepted
  split at accepted
  · cases accepted
  · have apart := List.all_eq_true.mp accepted cur member
    rwa [Bool.not_eq_true'] at apart

/-- A page of a range that meets no region is not mapped. -/
theorem OrderedSpace.unmapped (ordered : OrderedSpace m space) (range : UserRange base count)
    (apart : ∀ cur ∈ space.regions, meetsRange cur base (count * pageSize) = false) (inside : InRange base count va) :
    m.findPte space.pml4Phys va = none := by
  by_contra mapped
  have user := range.userVa inside
  have shown : look m (space.pml4Phys, va / pageSize) ≠ none := by
    rw [look, Ne, Option.map_eq_none_iff, findPte_align]
    exact mapped
  obtain ⟨region, member, covers⟩ := ordered.inv.covered _ user.small shown
  have inv := ordered.inv.regions region member
  obtain ⟨low, high⟩ := inside
  exact newRange_apart range inv ((meetsRange_apart inv range).mp (apart region member))
    ⟨va / pageSize - base / pageSize, by omega, by omega⟩ covers

/-- A call that maps a new range and records it keeps the space in order. -/
theorem OrderedSpace.recorded (ordered : OrderedSpace m space) (range : UserRange base count) (positive : 0 < count)
    (used : hasFlag flags vmmRegionUsed = true)
    (apart : ∀ cur ∈ space.regions, meetsRange cur base (count * pageSize) = false)
    (outside : ∀ va, UserVa va → ¬InRange base count va → m'.findPte space.pml4Phys va = m.findPte space.pml4Phys va) :
    OrderedSpace m' (space.record ⟨base, wrap64 (count * pageSize), flags⟩) ∧ PagesStay m m' space.pml4Phys := by
  refine ⟨⟨?_, insertRegion_sorted ordered.sorted, ?_⟩, ?_⟩
  · apply ordered.inv.recorded (newRegion_inv range used)
    · apply newRegion_apart ordered.inv range
      intro region member
      exact (meetsRange_apart (ordered.inv.regions region member) range).mp (apart region member)
    · intro page small notHere
      exact outside _ (userVa_page small) (newRegion_outside range notHere)
  · intro region member
    rcases List.mem_cons.mp ((insertRegion_perm _ _).mem_iff.mp member) with rfl | old
    · change 0 < wrap64 (count * pageSize)
      rw [range.bytes]
      exact Nat.mul_pos positive (by decide)
    · exact ordered.sized region old
  · intro va entry user found
    rw [outside va user, found]
    intro inside
    rw [ordered.unmapped range apart inside] at found
    cases found

/-- An allocation that meets no region keeps the space in order and every mapped page. -/
theorem OrderedSpace.alloc (ordered : OrderedSpace m space) (isRoot : space.pml4Phys ∈ roots) (range : UserRange base count)
    (apart : AllocApart m space base count nodeOk)
    (outcome : AllocOutcome m roots space base count flags nodeOk value m' space') :
    OrderedSpace m' space' ∧ PagesStay m m' space.pml4Phys := by
  cases outcome with
  | refused why => exact ⟨ordered, PagesStay.refl m _⟩
  | failed i frames full inside node filled exhausted _ undone =>
      have same (va : Nat) (user : UserVa va) : m'.findPte space.pml4Phys va = m.findPte space.pml4Phys va := by
        rw [undone.leaf _ isRoot va user]
        by_cases here : InRange base i va
        · have low := here.1
          have high := here.2
          have some : 0 < i := by omega
          have meets := apart node ⟨_, (filled.free 0 some).2⟩
          rw [if_pos ⟨rfl, here⟩, ordered.unmapped range meets ⟨low, by omega⟩]
        · rw [if_neg fun both => here both.2, filled.leaf _ isRoot va user, if_neg fun both => here both.2]
      refine ⟨⟨?_, ordered.sorted, ordered.sized⟩, ?_⟩
      · apply ordered.inv.within
        intro va user
        rw [same va user]
        exact id
      · intro va entry user found
        rw [same va user]
        exact found
  | done frames _ positive node filled =>
      apply ordered.recorded range positive (recorded_used flags) (apart node ⟨_, (filled.free 0 positive).2⟩)
      intro va user notHere
      rw [filled.leaf _ isRoot va user, if_neg fun both => notHere both.2]

/-- A release keeps the space in order, and the pages of the other regions stay. -/
theorem OrderedSpace.free (ordered : OrderedSpace m space) (isRoot : space.pml4Phys ∈ roots)
    (outcome : FreeOutcome m roots space vaddr m' space') :
    OrderedSpace m' space' ∧ space'.pml4Phys = space.pml4Phys ∧ PagesLeave m m' space (some vaddr) := by
  cases outcome with
  | missing none => exact ⟨ordered, rfl, (PagesStay.refl m _).leave _⟩
  | freed cur _ found range =>
      obtain ⟨member, _, before, after, split, erased⟩ := selected_facts found
      have sub : (space.regions.eraseP (·.matches vaddr)).Sublist space.regions := List.eraseP_sublist
      refine ⟨⟨?_, ordered.sorted.sublist sub, fun region old => ordered.sized region (sub.subset old)⟩, rfl, ?_⟩
      · exact range.spaceInv ordered.inv isRoot split rfl erased
      · intro va entry user shown
        by_cases here : InRange cur.base (cur.size / pageSize) va
        · exact Or.inr ⟨vaddr, cur, rfl, found, (ordered.inv.regions cur member).holds_iff.mpr here⟩
        · left
          rw [range.leaf _ isRoot va user, if_neg fun both => here both.2]
          exact shown

end

end DoccrOS.User
