import DoccrOS.Lib.Run
import DoccrOS.Proof.Mem.PageSteps

namespace DoccrOS.Mem
open Lib.Radix Lib

/-- A range of pages lies in the user half. -/
structure UserRange (base count : Nat) : Prop where
  aligned : base % pageSize = 0
  fits : base + count * pageSize ≤ 2 ^ 47

section
variable {m m' : Machine} {roots : Set Nat} {root base count : Nat} {flags : Word}

theorem UserRange.bytes (range : UserRange base count) : wrap64 (count * pageSize) = count * pageSize := by
  have fits := range.fits
  exact Nat.mod_eq_of_lt (by omega)

theorem UserRange.alignDown (range : UserRange base count) : pageAlignDown base = base := by
  rw [pageAlignDown, range.aligned, Nat.sub_zero]

theorem UserRange.address (range : UserRange base count) {i : Nat} (inside : i < count) :
    wrap64 (base + i * pageSize) = base + i * pageSize ∧ UserVa (base + i * pageSize) ∧
      (base + i * pageSize) / pageSize = base / pageSize + i := by
  have fits := range.fits
  have below : base + i * pageSize < 2 ^ 47 := by
    simp only [pageSize] at fits ⊢
    omega
  refine ⟨Nat.mod_eq_of_lt (by omega), below, ?_⟩
  rw [Nat.add_mul_div_right _ _ (by decide)]

/-- The page loop of `vmm_space_alloc` keeps what every fresh page keeps, also up to the page it fails at. -/
theorem vmmSpaceAllocPages_rule (inv : Nat → Machine → Prop) (places : Nat → Finset Place) {failed : Option Nat}
    (range : UserRange base count) (isRoot : root ∈ roots) (page : PageFlags flags)
    (data : ∀ i state, inv i state → DataInv state roots (places i))
    (step : ∀ i state next frame, i < count → inv i state →
      FreshPage state next roots (places i) root (base + i * pageSize) frame flags → inv (i + 1) next)
    (start : inv 0 m) (returned : vmmSpaceAllocPages root base flags count 0 m = .ok (failed, m')) :
    (failed = none ∧ inv count m') ∨ ∃ i, i < count ∧ failed = some i ∧ inv i m' ∧ ∀ frame, ¬m'.phys.Free frame := by
  have general : ∀ left i state, i + left = count → inv i state →
      vmmSpaceAllocPages root base flags left i state = .ok (failed, m') →
      (failed = none ∧ inv count m') ∨ ∃ i, i < count ∧ failed = some i ∧ inv i m' ∧
        ∀ frame, ¬m'.phys.Free frame := by
    intro left
    induction left with
    | zero =>
        intro i state total held call
        injection call with same
        obtain ⟨rfl, rfl⟩ := Prod.mk.inj same
        left
        refine ⟨rfl, ?_⟩
        rw [← total]
        exact held
    | succ left ih =>
        intro i state total held call
        have inside : i < count := by omega
        rw [vmmSpaceAllocPages, (range.address inside).1] at call
        rcases physmemAllocTo_one state.phys (data i state held).tables.zeroUsed with
          ⟨exhausted, none⟩ | ⟨frame, nonzero, free, taken⟩
        · simp only [exhausted, if_true] at call
          injection call with same
          obtain ⟨rfl, rfl⟩ := Prod.mk.inj same
          exact Or.inr ⟨i, inside, rfl, held, none⟩
        · have address : frame * pageSize ≠ 0 := by simp [pageSize, nonzero]
          simp only [taken, address, if_false] at call
          obtain ⟨next, mapped, rest⟩ := Result.bind_ok call
          refine ih (i + 1) next (by omega) (step i state next frame inside held ?_) rest
          exact (data i state held).freshPage isRoot (range.address inside).2.1 page nonzero free mapped
  exact general count 0 m (by omega) start returned

/-- The rollback of `vmm_space_alloc` keeps what every unmapped page keeps. -/
theorem vmmSpaceAllocUndo_rule {inv : Nat → Machine → Prop} (range : UserRange base count) (isRoot : root ∈ roots)
    (tables : ∀ i state, inv i state → TableInv state roots)
    (step : ∀ i state next, i < count → inv i state → LeafSet state next roots root (base + i * pageSize) none →
      inv (i + 1) next)
    (start : inv 0 m) : inv count (vmmSpaceAllocUndo root base count m) := by
  refine foldl_range start ?_
  intro i state inside held
  rw [(range.address inside).1]
  exact step i state _ inside held (pagingUnmapPageIn_spec (tables i state held) isRoot (range.address inside).2.1)

/-- The page loop of `vmm_space_free` over a data region keeps what every skipped and every dropped page keeps. -/
theorem vmmSpaceFreePages_rule {inv : Nat → Machine → Prop} {places : Finset Place} (range : UserRange base count)
    (isRoot : root ∈ roots) (data : ∀ i state, inv i state → DataInv state roots places)
    (tracked : ∀ i, i < count → (root, base / pageSize + i) ∈ places)
    (sole : ∀ i state cell, inv i state → (pageView state places).map (root, base / pageSize + i) = some cell →
      (pageView state places).rc cell ≤ 1 → (pageView state places).count cell ≤ 1)
    (skip : ∀ i state, i < count → inv i state → state.findPte root (base + i * pageSize) = none → inv (i + 1) state)
    (drop : ∀ i state next cell, i < count → inv i state →
      (pageView state places).map (root, base / pageSize + i) = some cell →
      DroppedPage state next roots places root (base + i * pageSize) cell → inv (i + 1) next)
    (start : inv 0 m) : inv count ((List.range count).foldl
      (fun m i => vmmSpaceFreePage m root (wrap64 (base + i * pageSize)) false) m) := by
  refine foldl_range start ?_
  intro i state inside held
  obtain ⟨wrapped, user, number⟩ := range.address inside
  rw [wrapped]
  have inv' := data i state held
  have mapped : ∀ entry, state.findPte root (base + i * pageSize) = some entry →
      (pageView state places).map (root, base / pageSize + i) = some (entryAddr entry) := by
    intro entry found
    refine pageView_map.mpr ⟨tracked i inside, entry, ?_, rfl⟩
    rw [← number, findPte_align]
    exact found
  have owned (entry : Word) (found : state.findPte root (base + i * pageSize) = some entry) :=
    inv'.data _ _ (mapped entry found)
  have tables : ∀ entry, state.findPte root (base + i * pageSize) = some entry →
      TableInv (dropData state false (entryAddr entry)) roots := by
    intro entry found
    exact inv'.dropTables (owned entry found).1 (owned entry found).2
  rcases vmmSpaceFreePage_spec isRoot user tables with ⟨absent, same⟩ | ⟨entry, found, cleared⟩
  · rw [same]
    exact skip i state inside held absent
  · have here := mapped entry found
    refine drop i state _ _ inside held here ?_
    refine inv'.dropPage (owned entry found).1 (owned entry found).2 ?_ (sole i state _ held here) cleared
    rw [number]
    exact here

/-- The page loop of `vmm_space_free` over a device region keeps what every cleared page keeps. -/
theorem vmmSpaceFreeMmio_rule {inv : Nat → Machine → Prop} (range : UserRange base count) (isRoot : root ∈ roots)
    (tables : ∀ i state, inv i state → TableInv state roots)
    (skip : ∀ i state, i < count → inv i state → state.findPte root (base + i * pageSize) = none → inv (i + 1) state)
    (drop : ∀ i state next, i < count → inv i state → Cleared state next roots root (base + i * pageSize) →
      inv (i + 1) next)
    (start : inv 0 m) : inv count ((List.range count).foldl
      (fun m i => vmmSpaceFreePage m root (wrap64 (base + i * pageSize)) true) m) := by
  refine foldl_range start ?_
  intro i state inside held
  obtain ⟨wrapped, user, _⟩ := range.address inside
  rw [wrapped]
  have kept : ∀ entry, state.findPte root (base + i * pageSize) = some entry →
      TableInv (dropData state true (entryAddr entry)) roots := fun _ _ => tables i state held
  rcases vmmSpaceFreePage_spec isRoot user kept with ⟨absent, same⟩ | ⟨entry, _, cleared⟩
  · rw [same]
    exact skip i state inside held absent
  · exact drop i state _ inside held cleared

/-- The page loop of `vmm_clone_space` keeps what every skipped and every shared page keeps. -/
theorem vmmClonePages_rule (inv : Nat → Machine → Prop) {places : Finset Place} {src dst : Nat}
    {srcFlags dstFlags : Word} (range : UserRange base count) (different : src ≠ dst)
    (srcPage : PageFlags srcFlags) (dstPage : PageFlags dstFlags)
    (data : ∀ i state, inv i state → DataInv state roots places)
    (srcTracked : ∀ i, i < count → (src, base / pageSize + i) ∈ places)
    (dstTracked : ∀ i, i < count → (dst, base / pageSize + i) ∈ places)
    (skip : ∀ i state, i < count → inv i state → (pageView state places).map (src, base / pageSize + i) = none →
      inv (i + 1) state)
    (share : ∀ i state next cell, i < count → inv i state →
      (pageView state places).map (src, base / pageSize + i) = some cell →
      SharedPage state next roots places src dst (base + i * pageSize) cell srcFlags dstFlags → inv (i + 1) next)
    (start : inv 0 m) (returned : vmmClonePages src dst base srcFlags dstFlags count m = .ok m') : inv count m' := by
  refine foldlM_range start ?_ returned
  intro i state next inside held call
  obtain ⟨wrapped, user, number⟩ := range.address inside
  rw [wrapped] at call
  have aligned : state.findPte src ((base / pageSize + i) * pageSize) = state.findPte src (base + i * pageSize) := by
    rw [← number, findPte_align]
  unfold vmmClonePage pteLookup at call
  cases found : state.findPte src (base + i * pageSize) with
  | none =>
      simp only [found, if_true] at call
      injection call with same
      rw [← same]
      apply skip i state inside held
      simp [pageView, aligned, found]
  | some entry =>
      have mapped : (pageView state places).map (src, base / pageSize + i) = some (entryAddr entry) :=
        pageView_map.mpr ⟨srcTracked i inside, entry, aligned.trans found, rfl⟩
      have nonzero := ((data i state held).data _ _ mapped).1.nonzero
      simp only [found, nonzero, if_false] at call
      obtain ⟨middle, dstCall, srcCall⟩ := Result.bind_ok call
      refine share i state next _ inside held mapped ?_
      refine (data i state held).sharePage user different ?_ ?_ srcPage dstPage dstCall srcCall
      · rw [number]
        exact mapped
      · rw [number]
        exact dstTracked i inside

end

end DoccrOS.Mem
