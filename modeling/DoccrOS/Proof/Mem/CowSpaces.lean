import DoccrOS.Construction.Mem.Kernel
import DoccrOS.Proof.Mem.CowRanges

namespace DoccrOS.Mem
open Lib.Radix Lib

/-- The region holds the page. -/
def Region.covers (region : Region) (page : Nat) : Prop :=
  region.base / pageSize ≤ page ∧ page < region.base / pageSize + region.size / pageSize

/-- A recorded region is a range of whole user pages. -/
structure RegionInv (region : Region) : Prop where
  range : UserRange region.base (region.size / pageSize)
  whole : region.size % pageSize = 0
  used : hasFlag region.flags vmmRegionUsed = true

def Region.apart (first second : Region) : Prop := ∀ page, first.covers page → ¬second.covers page

/-- The regions of a space do not overlap, and they hold every mapped page. -/
structure SpaceInv (m : Machine) (space : Space) : Prop where
  regions : ∀ region ∈ space.regions, RegionInv region
  disjoint : space.regions.Pairwise Region.apart
  covered : ∀ page, page < 2 ^ 35 → look m (space.pml4Phys, page) ≠ none → ∃ region ∈ space.regions, region.covers page

theorem Region.apart.symm {first second : Region} (apart : first.apart second) : second.apart first :=
  fun page inSecond inFirst => apart page inFirst inSecond

theorem insertRegion_perm (node : Region) (regions : List Region) : (insertRegion node regions).Perm (node :: regions) := by
  induction regions with
  | nil => exact List.Perm.refl _
  | cons cur rest ih =>
      rw [insertRegion]
      split
      · exact (ih.cons cur).trans (List.Perm.swap _ _ _)
      · exact List.Perm.refl _

theorem Region.covers_iff {region : Region} {page : Nat} :
    region.covers page ↔ ∃ i, i < region.size / pageSize ∧ page = region.base / pageSize + i := by
  constructor
  · intro covers
    exact ⟨page - region.base / pageSize, by have := covers.1; have := covers.2; omega, by have := covers.1; omega⟩
  · rintro ⟨i, inside, same⟩
    exact ⟨by omega, by omega⟩

/-- Only one region holds a page. -/
theorem Region.covers_unique {regions : List Region} {first second : Region} {page : Nat}
    (disjoint : regions.Pairwise Region.apart) (isFirst : first ∈ regions) (isSecond : second ∈ regions)
    (covers : first.covers page) (covers' : second.covers page) : first = second := by
  by_contra different
  have symmetric : Std.Symm Region.apart := ⟨fun _ _ => Region.apart.symm⟩
  exact disjoint.forall isFirst isSecond different page covers covers'

section
variable {region : Region} {va : Nat}

/-- The bytes of a range of whole user pages end below the end of the address range. -/
theorem Region.stop (range : UserRange region.base (region.size / pageSize)) (whole : region.size % pageSize = 0) :
    region.size / pageSize * pageSize = region.size ∧ wrap64 (region.base + region.size) = region.base + region.size := by
  have fits := range.fits
  have bytes : region.size / pageSize * pageSize = region.size := Nat.div_mul_cancel (Nat.dvd_of_mod_eq_zero whole)
  exact ⟨bytes, Nat.mod_eq_of_lt (by omega)⟩

/-- The addresses of a range of whole user pages are those of its pages. -/
theorem Region.holds_iff (range : UserRange region.base (region.size / pageSize)) (whole : region.size % pageSize = 0) :
    region.holds va = true ↔ region.covers (va / pageSize) := by
  obtain ⟨bytes, noWrap⟩ := Region.stop range whole
  have aligned := range.aligned
  rw [Region.holds, noWrap, Bool.and_eq_true, decide_eq_true_eq, decide_eq_true_eq]
  unfold Region.covers
  simp only [pageSize] at aligned bytes ⊢
  omega

theorem Region.holds_user (range : UserRange region.base (region.size / pageSize)) (whole : region.size % pageSize = 0)
    (holds : region.holds va = true) : UserVa va := by
  obtain ⟨bytes, noWrap⟩ := Region.stop range whole
  have fits := range.fits
  rw [Region.holds, noWrap, Bool.and_eq_true, decide_eq_true_eq, decide_eq_true_eq] at holds
  unfold UserVa
  omega

/-- A region holds its pages. -/
theorem Region.holds_page (range : UserRange region.base (region.size / pageSize)) (whole : region.size % pageSize = 0)
    {i : Nat} (inside : i < region.size / pageSize) : region.holds (region.base + i * pageSize) = true := by
  rw [Region.holds_iff range whole, (range.address inside).2.2]
  exact Region.covers_iff.mpr ⟨i, inside, rfl⟩

end

section
variable {rel : Nat → Nat → Prop} {keep : Set Nat} {m m' : Machine} {roots : Finset Nat} {space space' : Space}

/-- A space whose mapped pages stay within the old ones keeps its invariant. -/
theorem SpaceInv.congr (inv : SpaceInv m space)
    (same : ∀ page, page < 2 ^ 35 → look m' (space.pml4Phys, page) ≠ none → look m (space.pml4Phys, page) ≠ none) :
    SpaceInv m' space :=
  ⟨inv.regions, inv.disjoint, fun page small shown => inv.covered page small (same page small shown)⟩

/-- Recording a region that overlaps no other keeps the invariant of the space. -/
theorem SpaceInv.record {node : Region} (inv : SpaceInv m space) (region : RegionInv node)
    (apart : ∀ other ∈ space.regions, node.apart other)
    (same : ∀ page, page < 2 ^ 35 → ¬node.covers page → look m' (space.pml4Phys, page) = look m (space.pml4Phys, page)) :
    SpaceInv m' (space.record node) := by
  have perm := insertRegion_perm node space.regions
  refine ⟨?_, ?_, ?_⟩
  · intro other member
    rcases List.mem_cons.mp (perm.mem_iff.mp member) with new | old
    · rw [new]
      exact region
    · exact inv.regions other old
  · refine (perm.pairwise_iff fun apart => Region.apart.symm apart).mpr ?_
    exact List.pairwise_cons.mpr ⟨apart, inv.disjoint⟩
  · intro page small shown
    by_cases here : node.covers page
    · exact ⟨node, perm.mem_iff.mpr List.mem_cons_self, here⟩
    · have shown' : look m' (space.pml4Phys, page) ≠ none := shown
      rw [same page small here] at shown'
      obtain ⟨other, member, covers⟩ := inv.covered page small shown'
      exact ⟨other, perm.mem_iff.mpr (List.mem_cons_of_mem _ member), covers⟩

/-- The region that a call adds covers the pages of its range. -/
theorem newRegion_inv {base count : Nat} {flags : BitVec 32} (range : UserRange base count)
    (used : hasFlag flags vmmRegionUsed = true) : RegionInv ⟨base, wrap64 (count * pageSize), flags⟩ := by
  have fits := range.fits
  have size : wrap64 (count * pageSize) = count * pageSize := Nat.mod_eq_of_lt (by omega)
  refine ⟨?_, ?_, used⟩
  · change UserRange base (wrap64 (count * pageSize) / pageSize)
    rw [size, page_div]
    exact range
  · change wrap64 (count * pageSize) % pageSize = 0
    rw [size, Nat.mul_mod_left]

theorem newRegion_covers {base count : Nat} {flags : BitVec 32} (range : UserRange base count) (page : Nat) :
    Region.covers ⟨base, wrap64 (count * pageSize), flags⟩ page ↔ ∃ i, i < count ∧ page = base / pageSize + i := by
  have fits := range.fits
  have size : wrap64 (count * pageSize) = count * pageSize := Nat.mod_eq_of_lt (by omega)
  rw [Region.covers_iff]
  change (∃ i, i < wrap64 (count * pageSize) / pageSize ∧ page = base / pageSize + i) ↔ _
  rw [size, page_div]

/-- The result of an allocation: nothing happened to any page, or a new region was filled. -/
inductive Allocates (rel : Nat → Nat → Prop) (lossy : Prop) (keep : Set Nat) (m m' : Machine) (roots : Finset Nat)
    (space : Space) (vaddr pageCount : Nat) (flags : BitVec 32) : Space → Prop
  | failed (inv : ∃ more, keep ⊆ more ∧ PageInv rel more m' roots ∧ (lossy ∨ ∀ frame,
        m'.phys.used frame = true → m.phys.used frame = true ∨ TableFrame m' roots frame ∨ frame ∈ more))
      (same : ∀ place ∈ userPlaces roots, look m' place = look m place) (tightened : Tightened m m' roots) :
      Allocates rel lossy keep m m' roots space vaddr pageCount flags space
  | filled (nonempty : pageCount ≠ 0)
      (filled : Filled rel keep m m' roots space.pml4Phys (pageAlignDown vaddr) pageCount (flagsToPte flags) pageCount) :
      Allocates rel lossy keep m m' roots space vaddr pageCount flags
        (space.record ⟨pageAlignDown vaddr, wrap64 (pageCount * pageSize), vmmRegionUsed ||| flags⟩)

theorem PageInv.alloc {vaddr pageCount value : Nat} {flags : BitVec 32} {nodeOk : Bool} {lossy : Prop}
    (inv : PageInv rel keep m roots) (discipline : Sharing.Discipline rel) (isRoot : space.pml4Phys ∈ roots)
    (range : UserRange (pageAlignDown vaddr) pageCount)
    (unmapped : ∀ i, i < pageCount → look m (pageAt space.pml4Phys (pageAlignDown vaddr) i) = none)
    (rollback : (lossy ∧ keep = ∅ ∧ Leaky rel) ∨ ∀ i m'', vmmSpaceAllocPages space.pml4Phys (pageAlignDown vaddr)
      (flagsToPte flags) pageCount 0 m ≠ .ok (some (i + 1), m''))
    (returned : vmmSpaceAlloc m space vaddr pageCount flags nodeOk = .ok (value, m', space')) :
    Allocates rel lossy keep m m' roots space vaddr pageCount flags space' := by
  unfold vmmSpaceAlloc at returned
  by_cases empty : pageCount = 0
  · rw [if_pos empty] at returned
    injection returned with same
    obtain ⟨_, rfl, rfl⟩ := Prod.mk.inj same |>.imp id Prod.mk.inj
    exact .failed ⟨keep, subset_rfl, inv, Or.inr fun _ used => Or.inl used⟩ (fun _ _ => rfl) (Tightened.refl _ _)
  rw [if_neg empty] at returned
  cases nodeOk with
  | false =>
      injection returned with same
      obtain ⟨_, rfl, rfl⟩ := Prod.mk.inj same |>.imp id Prod.mk.inj
      exact .failed ⟨keep, subset_rfl, inv, Or.inr fun _ used => Or.inl used⟩ (fun _ _ => rfl) (Tightened.refl _ _)
  | true =>
      simp only [Bool.not_true, Bool.false_eq_true, if_false] at returned
      obtain ⟨⟨failed, m₁⟩, pages, rest⟩ := Result.bind_ok returned
      rcases inv.allocPages discipline range isRoot (flagsToPte_page flags) unmapped pages with
        ⟨none, filled⟩ | ⟨i, inside, some, filled⟩
      · rw [none] at rest
        injection rest with same
        obtain ⟨_, rfl, rfl⟩ := Prod.mk.inj same |>.imp id Prod.mk.inj
        exact .filled empty filled
      · rw [some] at rest pages
        injection rest with same
        obtain ⟨_, rfl, rfl⟩ := Prod.mk.inj same |>.imp id Prod.mk.inj
        have unmoved : ∀ m₂, (∀ j, j < pageCount → look m₂ (pageAt space.pml4Phys (pageAlignDown vaddr) j) = none) →
            (∀ place ∈ userPlaces roots, Outside space.pml4Phys (pageAlignDown vaddr) pageCount place →
              look m₂ place = look m place) → ∀ place ∈ userPlaces roots, look m₂ place = look m place := by
          intro m₂ gone outside place member
          by_cases apart : Outside space.pml4Phys (pageAlignDown vaddr) pageCount place
          · exact outside place member apart
          · simp only [Outside, not_forall, not_not] at apart
            obtain ⟨j, small, here⟩ := apart
            rw [here, gone j small, unmapped j small]
        have tightened : ∀ m₂, (∀ j, j < pageCount → look m₂ (pageAt space.pml4Phys (pageAlignDown vaddr) j) = none) →
            Tightened m₁ m₂ roots → Tightened m m₂ roots := by
          intro m₂ gone less place member written
          rcases filled.written place member (less place member written) with before | ⟨_, j, small, here⟩
          · exact before
          · rw [here] at written
            exact absurd written (not_writable (gone j small))
        cases i with
        | zero =>
            obtain ⟨more, grown, inv', taken⟩ := filled.inv
            have gone (j : Nat) (small : j < pageCount) := filled.unmapped j small (Nat.zero_le j)
            exact .failed ⟨more, grown, inv', Or.inr taken⟩ (unmoved _ gone filled.outside)
              (tightened _ gone (Tightened.refl _ _))
        | succ i =>
            rcases rollback with ⟨lossy, rfl, leaky⟩ | never
            · obtain ⟨inv', gone, outside, less⟩ := filled.undo leaky range isRoot (by omega)
              exact .failed ⟨∅, subset_rfl, inv', Or.inl lossy⟩ (unmoved _ gone outside) (tightened _ gone less)
            · exact absurd pages (never i m₁)

/-- The first match of a list is what `eraseP` takes out. -/
theorem find?_split {A : Type} {test : A → Bool} {found : A} {list : List A} (first : list.find? test = some found) :
    ∃ before after, list = before ++ found :: after ∧ list.eraseP test = before ++ after := by
  induction list with
  | nil => cases first
  | cons head tail ih =>
      cases here : test head with
      | true =>
          rw [List.find?_cons_of_pos here] at first
          injection first with same
          rw [List.eraseP_cons_of_pos here, same]
          exact ⟨[], tail, rfl, rfl⟩
      | false =>
          have notHere : ¬test head = true := by simp [here]
          rw [List.find?_cons_of_neg notHere] at first
          obtain ⟨before, after, split, erased⟩ := ih first
          rw [List.eraseP_cons_of_neg notHere, erased, split]
          exact ⟨head :: before, after, rfl, rfl⟩

/-- The result of a free: nothing happened, or one region and its pages are gone. -/
inductive Frees (rel : Nat → Nat → Prop) (keep : Set Nat) (m : Machine) (roots : Finset Nat) (space : Space)
    (vaddr : Nat) : Machine → Space → Prop
  | nothing (unselected : space.selected vaddr = none) : Frees rel keep m roots space vaddr m space
  | region {m' : Machine} {cur : Region} {before after : List Region} {count used : Nat}
      (selected : space.selected vaddr = some cur) (split : space.regions = before ++ cur :: after)
      (emptied : Emptied rel keep m m' roots space.pml4Phys cur.base (cur.size / pageSize) (cur.size / pageSize)) :
      Frees rel keep m roots space vaddr m' ⟨space.pml4Phys, before ++ after, count, used⟩

theorem Region.matches_base {region : Region} {vaddr : Nat} (selected : region.matches vaddr = true) :
    region.base = vaddr := by
  unfold Region.matches at selected
  exact beq_iff_eq.mp (Bool.and_eq_true_iff.mp selected).1

theorem PageInv.free (inv : PageInv rel keep m roots) (vaddr : Nat) (discipline : Sharing.Discipline rel)
    (tight : Tight rel keep) (isRoot : space.pml4Phys ∈ roots) (regions : ∀ region ∈ space.regions, RegionInv region)
    (device : ∀ region ∈ space.regions, hasFlag region.flags vmmRegionMmio = true → keep = ∅ ∧ Leaky rel) :
    Frees rel keep m roots space vaddr (vmmSpaceFree m space vaddr).1 (vmmSpaceFree m space vaddr).2 := by
  unfold vmmSpaceFree
  by_cases zero : vaddr = 0
  · rw [if_pos zero]
    exact .nothing (by rw [Space.selected, if_pos zero])
  · rw [if_neg zero]
    cases found : space.regions.find? (·.matches vaddr) with
    | none => exact .nothing (by rw [Space.selected, if_neg zero, found])
    | some cur =>
        obtain ⟨before, after, split, erased⟩ := find?_split found
        have member : cur ∈ space.regions := List.mem_of_find?_eq_some found
        have matched : cur.matches vaddr = true := by simpa using List.find?_some found
        have base : cur.base = vaddr := Region.matches_base matched
        have emptied := inv.freePages discipline tight (regions cur member).range isRoot (device cur member)
        simp only [erased]
        refine .region (by rw [Space.selected, if_neg zero, found]) split ?_
        rw [← base]
        exact emptied

/-- A free keeps the invariant of the space it works on. -/
theorem Frees.spaceInv {vaddr : Nat} (inv : SpaceInv m space) (isRoot : space.pml4Phys ∈ roots)
    (frees : Frees rel keep m roots space vaddr m' space') : SpaceInv m' space' := by
  cases frees with
  | nothing => exact inv
  | region selected split emptied =>
      rename_i cur before after count used
      have sub : (before ++ after).Sublist space.regions := by
        rw [split]
        exact List.Sublist.append_left (List.sublist_cons_self _ _) _
      refine ⟨fun region member => inv.regions region (sub.subset member), inv.disjoint.sublist sub, ?_⟩
      intro page small shown
      have shown' : look m' (space.pml4Phys, page) ≠ none := shown
      have notHere : ¬cur.covers page := by
        intro covers
        obtain ⟨i, inside, same⟩ := Region.covers_iff.mp covers
        exact shown' (same ▸ emptied.gone i inside)
      rw [emptied.outside _ (mem_userPlaces.mpr ⟨isRoot, small⟩) fun j inside same =>
        notHere (Region.covers_iff.mpr ⟨j, inside, congrArg Prod.snd same⟩)] at shown'
      obtain ⟨region, member, covers⟩ := inv.covered page small shown'
      rw [split] at member
      refine ⟨region, ?_, covers⟩
      rcases List.mem_append.mp member with early | late
      · exact List.mem_append_left _ early
      · rcases List.mem_cons.mp late with same | late
        · exact absurd (same ▸ covers) notHere
        · exact List.mem_append_right _ late

/-- What a sequence of frees of one space does: it unmaps pages of that space and takes no frame. -/
structure Shrunk (rel : Nat → Nat → Prop) (keep : Set Nat) (m m' : Machine) (roots : Finset Nat) (root : Nat) : Prop where
  inv : PageInv rel {frame ∈ keep | m'.phys.used frame = true} m' roots
  taken : ∀ frame, m'.phys.used frame = true → m.phys.used frame = true
  others : ∀ place ∈ userPlaces roots, place.1 ≠ root → look m' place = look m place
  tightened : Tightened m m' roots

theorem PageInv.shrunk_refl (inv : PageInv rel keep m roots) (root : Nat) : Shrunk rel keep m m roots root :=
  ⟨inv.mono fun _ member => member.1, fun _ used => used, fun _ _ _ => rfl, Tightened.refl _ _⟩

theorem Frees.shrunk {vaddr : Nat} (inv : PageInv rel keep m roots)
    (frees : Frees rel keep m roots space vaddr m' space') :
    Shrunk rel keep m m' roots space.pml4Phys ∧ space'.pml4Phys = space.pml4Phys ∧ space'.regions ⊆ space.regions := by
  cases frees with
  | nothing => exact ⟨inv.shrunk_refl _, rfl, List.Subset.refl _⟩
  | region selected split emptied =>
      refine ⟨⟨emptied.inv, emptied.taken, ?_, emptied.tightened⟩, rfl, ?_⟩
      · intro place member apart
        exact emptied.outside place member fun j _ same => apart (congrArg Prod.fst same)
      · rw [split]
        exact (List.Sublist.append_left (List.sublist_cons_self _ _) _).subset

theorem Shrunk.trans {m'' : Machine} {root : Nat} (first : Shrunk rel keep m m' roots root)
    (second : Shrunk rel {frame ∈ keep | m'.phys.used frame = true} m' m'' roots root) :
    Shrunk rel keep m m'' roots root := by
  refine ⟨second.inv.mono ?_, fun frame used => first.taken frame (second.taken frame used), ?_,
    first.tightened.trans second.tightened⟩
  · intro frame member
    exact ⟨⟨member.1, second.taken frame member.2⟩, member.2⟩
  · intro place member apart
    rw [second.others place member apart, first.others place member apart]

/-- The loop of `vmm_space_destroy` ends with a space that has no region. -/
theorem PageInv.destroyLoop {fuel : Nat} (inv : PageInv rel keep m roots) (discipline : Sharing.Discipline rel)
    (tight : Tight rel keep) (isRoot : space.pml4Phys ∈ roots) (spaceInv : SpaceInv m space)
    (device : ∀ region ∈ space.regions, hasFlag region.flags vmmRegionMmio = true → keep = ∅ ∧ Leaky rel)
    (returned : vmmSpaceDestroyLoop fuel m space = .ok (m', space')) :
    Shrunk rel keep m m' roots space.pml4Phys ∧ space'.pml4Phys = space.pml4Phys ∧ SpaceInv m' space' ∧
      space'.regions = [] := by
  induction fuel generalizing m space keep with
  | zero => cases returned
  | succ fuel ih =>
      rw [vmmSpaceDestroyLoop] at returned
      cases regions : space.regions with
      | nil =>
          rw [regions] at returned
          injection returned with same
          obtain ⟨rfl, rfl⟩ := Prod.mk.inj same
          exact ⟨inv.shrunk_refl _, rfl, spaceInv, regions⟩
      | cons cur rest =>
          rw [regions] at returned
          have frees := inv.free cur.base discipline tight isRoot spaceInv.regions device
          obtain ⟨shrunk, sameRoot, sub⟩ := frees.shrunk inv
          have tight' : Tight rel {frame ∈ keep | (vmmSpaceFree m space cur.base).1.phys.used frame = true} := by
            intro nonempty
            exact tight (nonempty.mono fun _ member => member.1)
          obtain ⟨shrunk', sameRoot', spaceInv', gone⟩ := ih shrunk.inv tight' (by rw [sameRoot]; exact isRoot)
            (frees.spaceInv spaceInv isRoot) (fun region member mmio => by
              obtain ⟨none, leaky⟩ := device region (sub member) mmio
              refine ⟨?_, leaky⟩
              rw [none]
              simp) returned
          rw [sameRoot] at shrunk' sameRoot'
          exact ⟨shrunk.trans shrunk', sameRoot', spaceInv', gone⟩

/-- A destroyed space leaves the roots, and the pages of the other spaces stay. -/
structure Destroyed (rel : Nat → Nat → Prop) (keep : Set Nat) (m m' : Machine) (roots : Finset Nat) (root : Nat) :
    Prop where
  inv : PageInv rel {frame ∈ keep | m'.phys.used frame = true} m' (roots.erase root)
  taken : ∀ frame, m'.phys.used frame = true → m.phys.used frame = true
  others : ∀ place ∈ userPlaces roots, place.1 ≠ root → look m' place = look m place
  tightened : Tightened m m' roots

theorem PageInv.destroy (inv : PageInv rel keep m roots) (discipline : Sharing.Discipline rel)
    (tight : Tight rel keep) (isRoot : space.pml4Phys ∈ roots) (spaceInv : SpaceInv m space)
    (device : ∀ region ∈ space.regions, hasFlag region.flags vmmRegionMmio = true → keep = ∅ ∧ Leaky rel)
    (returned : vmmSpaceDestroy m space = .ok m') : Destroyed rel keep m m' roots space.pml4Phys := by
  obtain ⟨⟨m₁, space₁⟩, loop, rest⟩ := Result.bind_ok returned
  obtain ⟨shrunk, sameRoot, spaceInv', gone⟩ := inv.destroyLoop discipline tight isRoot spaceInv device loop
  have nonzero : space.pml4Phys ≠ 0 := (inv.data.tables.allocated _ (root_mem_nodes isRoot)).nonzero
  simp only [sameRoot, nonzero, ne_eq, not_false_eq_true, if_true] at rest
  injection rest with same
  have isRoot' : space.pml4Phys ∈ (roots : Set Nat) := isRoot
  have removed := removeRoot_spec shrunk.inv.data.tables isRoot'
  rw [same] at removed
  have empty : ∀ page, page < 2 ^ 35 → look m₁ (space.pml4Phys, page) = none := by
    intro page small
    by_contra shown
    rw [← sameRoot] at shown
    obtain ⟨region, member, _⟩ := spaceInv'.covered page small shown
    rw [gone] at member
    cases member
  obtain ⟨inv', sameLook⟩ := shrunk.inv.removeRoot isRoot empty removed
  have taken : ∀ frame, m'.phys.used frame = true → m₁.phys.used frame = true := by
    intro frame used
    rw [removed.phys, markFree_used] at used
    by_cases here : frame = space.pml4Phys / pageSize
    · rw [if_pos here] at used
      cases used
    · rw [if_neg here] at used
      exact used
  refine ⟨inv'.mono ?_, fun frame used => shrunk.taken frame (taken frame used), ?_, ?_⟩
  · intro frame member
    exact ⟨member.1, taken frame member.2⟩
  · intro place member apart
    rw [sameLook, shrunk.others place member apart]
  · intro place member written
    obtain ⟨entry, found, allowed⟩ := written
    rw [removed.leaf] at found
    exact shrunk.tightened place member ⟨entry, found, allowed⟩

end

end DoccrOS.Mem
