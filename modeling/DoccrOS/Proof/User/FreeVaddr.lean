import DoccrOS.Construction.User.SysMem
import DoccrOS.Lib.Gap

namespace DoccrOS.User
open Lib Mem Proc

/-- The addresses of a region. -/
def regionSpan (region : Region) : Span := ⟨region.base, region.size⟩

/-- The spans of the regions of a space. -/
def spansOf (space : Space) : List Span := space.regions.map regionSpan

/-- The least address at which `find_free_vaddr` starts. -/
def searchStart : Nat := 0x50000000

/-- The range from an address is free, starts above the search start and ends in the user half. -/
structure FreeRange (space : Space) (size vaddr : Nat) : Prop where
  above : searchStart ≤ vaddr
  free : ∀ region ∈ space.regions, (regionSpan region).avoids vaddr size
  fits : vaddr + size ≤ userTop

section
variable {space : Space} {size vaddr : Nat}

/-- Below `2 ^ 63` no sum of the search wraps. -/
theorem findFreeLoop_eq {regions : List Region} (start : Nat) (below : ∀ region ∈ regions, region.base + region.size ≤ 2 ^ 63)
    (low : start ≤ 2 ^ 63) (most : size ≤ 2 ^ 47) :
    findFreeLoop size start regions = firstGap size start (regions.map regionSpan) := by
  induction regions generalizing start with
  | nil => rfl
  | cons cur rest ih =>
      obtain ⟨here, belowRest⟩ := List.forall_mem_cons.mp below
      have noWrap : wrap64 (cur.base + cur.size) = cur.base + cur.size := Nat.mod_eq_of_lt (by omega)
      have noWrap' : wrap64 (start + size) = start + size := Nat.mod_eq_of_lt (by omega)
      rw [findFreeLoop, List.map_cons, firstGap, noWrap, noWrap', ih _ belowRest low, ih _ belowRest here]
      rfl

/-- A free range passes the check of `is_vaddr_range_free`. -/
theorem FreeRange.accepted (range : FreeRange space size vaddr) (positive : 0 < size)
    (nonempty : ∀ region ∈ space.regions, 0 < region.size)
    (below : ∀ region ∈ space.regions, region.base + region.size ≤ 2 ^ 63) : isVaddrRangeFree space vaddr size = true := by
  obtain ⟨above, free, fits⟩ := range
  unfold searchStart at above
  unfold userTop at fits
  have noWrap : wrap64 (vaddr + size) = vaddr + size := Nat.mod_eq_of_lt (by omega)
  unfold isVaddrRangeFree
  rw [noWrap, if_neg (by unfold userBottom userTop; omega), List.all_eq_true]
  intro region member
  have low := below region member
  have avoided := (Span.avoids_iff positive (nonempty region member)).mp (free region member)
  have noWrap' : wrap64 (region.base + region.size) = region.base + region.size := Nat.mod_eq_of_lt (by omega)
  simp only [meetsRange, noWrap, noWrap', Bool.not_not, Bool.or_eq_true, decide_eq_true_eq]
  exact avoided.symm

/-- The least gap is a free range when it ends in the user half. -/
theorem FreeRange.ofGap {gap : Nat} (least : LeastGap (spansOf space) searchStart size gap) (fits : gap + size ≤ userTop) :
    FreeRange space size gap := by
  refine ⟨least.above, ?_, fits⟩
  intro region member
  exact least.free _ (List.mem_map_of_mem member)

/-- The search returns the least gap or `0`. -/
theorem findFreeVaddr_gap (sorted : space.regions.Pairwise fun first second => first.base ≤ second.base)
    (nonempty : ∀ region ∈ space.regions, 0 < region.size)
    (below : ∀ region ∈ space.regions, region.base + region.size ≤ 2 ^ 63) (positive : 0 < size) (most : size ≤ 2 ^ 47) :
    ∃ gap, LeastGap (spansOf space) searchStart size gap ∧
      findFreeVaddr space size = if gap + size ≤ userTop then gap else 0 := by
  have least : LeastGap (spansOf space) searchStart size (findFreeLoop size searchStart space.regions) := by
    rw [findFreeLoop_eq searchStart below (by decide) most]
    apply firstGap_least searchStart positive
    · rw [spansOf, List.forall_mem_map]
      exact nonempty
    · rw [spansOf, List.pairwise_map]
      exact sorted
  have low : findFreeLoop size searchStart space.regions ≤ 2 ^ 63 := by
    rcases least.candidate with same | ⟨span, member, same⟩
    · rw [same]
      decide
    · obtain ⟨region, inside, rfl⟩ := List.mem_map.mp member
      rw [same]
      exact below region inside
  have noWrap : wrap64 (findFreeLoop size searchStart space.regions + size) =
      findFreeLoop size searchStart space.regions + size := Nat.mod_eq_of_lt (by omega)
  refine ⟨_, least, ?_⟩
  change (if wrap64 (findFreeLoop size searchStart space.regions + size) > userTop then 0 else
    findFreeLoop size searchStart space.regions) = _
  rw [noWrap]
  split <;> split <;> omega

/-- The check of `is_vaddr_range_free` accepts what the search finds. -/
theorem findFreeVaddr_accepted (sorted : space.regions.Pairwise fun first second => first.base ≤ second.base)
    (nonempty : ∀ region ∈ space.regions, 0 < region.size)
    (below : ∀ region ∈ space.regions, region.base + region.size ≤ 2 ^ 63) (positive : 0 < size) (most : size ≤ 2 ^ 47)
    (found : findFreeVaddr space size ≠ 0) : isVaddrRangeFree space (findFreeVaddr space size) size = true := by
  obtain ⟨gap, least, value⟩ := findFreeVaddr_gap sorted nonempty below positive most
  rw [value] at found ⊢
  by_cases fits : gap + size ≤ userTop
  · rw [if_pos fits]
    exact (FreeRange.ofGap least fits).accepted positive nonempty below
  · rw [if_neg fits] at found
    exact absurd rfl found

end

/-- `find_free_vaddr` is an exact first fit: it returns the least free address if the range there ends in the user half, it
returns `0` exactly when no range is free, and `is_vaddr_range_free` accepts what it returns. -/
theorem find_free_vaddr_first_fit {space : Space} {size : Nat}
    (sorted : space.regions.Pairwise fun first second => first.base ≤ second.base)
    (nonempty : ∀ region ∈ space.regions, 0 < region.size)
    (below : ∀ region ∈ space.regions, region.base + region.size ≤ 2 ^ 63) (positive : 0 < size) (most : size ≤ 2 ^ 47) :
    (∃ gap, LeastGap (spansOf space) searchStart size gap ∧
      findFreeVaddr space size = if gap + size ≤ userTop then gap else 0) ∧
    (findFreeVaddr space size = 0 ↔ ¬∃ vaddr, FreeRange space size vaddr) ∧
    (findFreeVaddr space size ≠ 0 → isVaddrRangeFree space (findFreeVaddr space size) size = true) := by
  obtain ⟨gap, least, value⟩ := findFreeVaddr_gap sorted nonempty below positive most
  have nonzero : gap ≠ 0 := by
    have above := least.above
    unfold searchStart at above
    omega
  refine ⟨⟨gap, least, value⟩, ?_, ?_⟩
  · rw [value]
    constructor
    · rintro zero ⟨vaddr, above, free, fits⟩
      have lower : gap ≤ vaddr := by
        apply least.least vaddr above
        intro span member
        obtain ⟨region, inside, rfl⟩ := List.mem_map.mp member
        exact free region inside
      rw [if_pos (by omega)] at zero
      exact nonzero zero
    · intro none
      rw [if_neg fun fits => none ⟨gap, FreeRange.ofGap least fits⟩]
  · exact findFreeVaddr_accepted sorted nonempty below positive most

/-- Two regions that overlap and a gap behind them. -/
theorem find_free_vaddr_first_fit_two :
    let space : Space := ⟨0x2000, [⟨0x50000000, 0x3000, 5⟩, ⟨0x50001000, 0x1000, 5⟩, ⟨0x50004000, 0x1000, 5⟩], 3, 0x5000⟩
    findFreeVaddr space 0x1000 = 0x50003000 ∧ isVaddrRangeFree space (findFreeVaddr space 0x1000) 0x1000 = true := by
  intro space
  refine ⟨by decide, ?_⟩
  exact (find_free_vaddr_first_fit (by decide) (by decide) (by decide) (by decide) (by decide)).2.2 (by decide)

end DoccrOS.User
