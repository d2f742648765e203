import DoccrOS.Proof.Mem.DestroyEnds
import DoccrOS.Proof.Mem.RoundTrip

namespace DoccrOS.Mem
open Lib

/-- The flags and the size that a recorded region has. -/
def Region.recorded (region : Region) : Prop := hasFlag region.flags vmmRegionUsed = true ∧ region.size < 2 ^ 64

theorem recorded_durable : Durable Region.recorded := by
  refine ⟨fun region recorded => ⟨?_, recorded.2⟩, fun region recorded => ⟨(brokenFlags_bits region.flags).1, recorded.2⟩⟩
  exact (cowFlags_bits region.flags).1.trans recorded.1

/-- The sum of the sizes of some regions. -/
def totalSize (regions : List Region) : Nat := (regions.map Region.size).sum

/-- The regions of a space are sorted by their bases, and its counters are exact. -/
structure Space.Listed (space : Space) : Prop where
  sorted : space.regions.Pairwise fun first second => first.base ≤ second.base
  recorded : space.every Region.recorded
  count : space.regionCount = wrap64 space.regions.length
  total : space.usedVirtual = wrap64 (totalSize space.regions)

section
variable {m m' : Machine} {space space' : Space} {node cur : Region} {left right regions : List Region} {fuel more : Nat}

theorem totalSize_middle : totalSize (left ++ cur :: right) = totalSize (left ++ right) + cur.size := by
  simp only [totalSize, List.map_append, List.map_cons, List.sum_append, List.sum_cons]
  omega

/-- A sorted insert keeps a list sorted. -/
theorem insertRegion_sorted (sorted : regions.Pairwise fun first second => first.base ≤ second.base) :
    (insertRegion node regions).Pairwise fun first second => first.base ≤ second.base := by
  induction regions with
  | nil => exact List.pairwise_singleton _ _
  | cons cur rest inductionHypothesis =>
      obtain ⟨first, restSorted⟩ := List.pairwise_cons.mp sorted
      rw [insertRegion]
      by_cases smaller : cur.base < node.base
      · rw [if_pos smaller]
        refine List.pairwise_cons.mpr ⟨?_, inductionHypothesis restSorted⟩
        intro other member
        rcases List.mem_cons.mp ((insertRegion_perm node rest).mem_iff.mp member) with isNode | inRest
        · rw [isNode]
          exact Nat.le_of_lt smaller
        · exact first other inRest
      · have before : node.base ≤ cur.base := Nat.le_of_not_lt smaller
        rw [if_neg smaller]
        refine List.pairwise_cons.mpr ⟨?_, sorted⟩
        intro other member
        rcases List.mem_cons.mp member with isCur | inRest
        · rw [isCur]
          exact before
        · exact Nat.le_trans before (first other inRest)

/-- A new space is in order. -/
theorem Space.Listed.create {kmallocOk : Bool} (created : vmmSpaceCreate m kmallocOk = (some space, m')) : space.Listed := by
  cases kmallocOk with
  | false => cases created
  | true =>
      simp only [vmmSpaceCreate, Bool.not_true, Bool.false_eq_true, if_false] at created
      by_cases failed : (physmemAllocTo m.phys 1).1 = 0
      · rw [if_pos failed] at created
        cases created
      · rw [if_neg failed] at created
        cases created
        exact ⟨List.Pairwise.nil, (by rintro _ ⟨⟩), rfl, rfl⟩

theorem Space.Listed.record (listed : space.Listed) (new : node.recorded) : (space.record node).Listed := by
  have perm := insertRegion_perm node space.regions
  refine ⟨insertRegion_sorted listed.sorted, listed.recorded.record new, ?_, ?_⟩
  · have length := perm.length_eq
    rw [List.length_cons] at length
    simp only [Space.record, listed.count, length, wrap64]
    omega
  · have total : totalSize (insertRegion node space.regions) = node.size + totalSize space.regions :=
      (perm.map Region.size).sum_eq
    simp only [Space.record, listed.total, total, wrap64]
    omega

/-- The counters after the removal of one region. -/
theorem Space.Listed.erase (listed : space.Listed) (split : space.regions = left ++ cur :: right) :
    Space.Listed { space with
      regions := left ++ right
      regionCount := sub64 space.regionCount 1
      usedVirtual := sub64 space.usedVirtual cur.size } := by
  have sublist : (left ++ right).Sublist space.regions := by
    rw [split]
    exact (List.sublist_cons_self cur right).append_left left
  have small : cur.size < 2 ^ 64 := (listed.recorded cur (by rw [split]; exact List.mem_append_right _ List.mem_cons_self)).2
  refine ⟨listed.sorted.sublist sublist, fun region member => listed.recorded region (sublist.subset member), ?_, ?_⟩
  · have count := listed.count
    rw [split, List.length_append, List.length_cons] at count
    simp only [count, List.length_append, wrap64, sub64]
    omega
  · have total := listed.total
    rw [split, totalSize_middle] at total
    simp only [total, wrap64, sub64]
    omega

theorem Space.Listed.free (listed : space.Listed) (m : Machine) (vaddr : Nat) : (vmmSpaceFree m space vaddr).2.Listed := by
  unfold vmmSpaceFree
  by_cases zero : vaddr = 0
  · rw [if_pos zero]
    exact listed
  · rw [if_neg zero]
    cases found : space.regions.find? fun region => region.matches vaddr with
    | none => exact listed
    | some cur =>
        obtain ⟨left, right, split, erased⟩ := find?_split found
        simp only [erased]
        exact listed.erase split

/-- New flags keep the order, the counters and, if they are used, the regions. -/
theorem Space.Listed.reflag (listed : space.Listed) (spans : regions.map Region.span = space.regions.map Region.span)
    (recorded : ∀ region ∈ regions, region.recorded) : Space.Listed { space with regions := regions } := by
  have length : regions.length = space.regions.length := by
    have same := congrArg List.length spans
    rwa [List.length_map, List.length_map] at same
  have sizes : regions.map Region.size = space.regions.map Region.size := by
    have same := congrArg (List.map Prod.snd) spans
    rwa [List.map_map, List.map_map] at same
  refine ⟨?_, recorded, ?_, ?_⟩
  · let ordered (first second : Nat × Nat) : Prop := first.1 ≤ second.1
    have before : (space.regions.map Region.span).Pairwise ordered := List.pairwise_map.mpr listed.sorted
    rw [← spans] at before
    have after : regions.Pairwise fun first second => ordered first.span second.span := List.pairwise_map.mp before
    exact after
  · exact listed.count.trans (congrArg wrap64 length.symm)
  · rw [totalSize, sizes]
    exact listed.total

theorem Space.Listed.cowBreak {faultAddr : Nat} (listed : space.Listed)
    (returned : vmmCowBreak m space faultAddr = .ok (m', space')) : space'.Listed := by
  have recorded := listed.recorded.cowBreak recorded_durable returned
  rcases vmmCowBreak_outcome returned with same | ⟨region, _, broken⟩
  · rw [same]
    exact listed
  · rw [broken] at recorded ⊢
    exact listed.reflag (setFoundFlags_span ..) recorded

theorem wrap64_lt (n : Nat) : wrap64 n < 2 ^ 64 := Nat.mod_lt _ (by decide)

theorem Space.Listed.alloc {vaddr pageCount value : Nat} {flags : BitVec 32} {nodeOk : Bool} (listed : space.Listed)
    (returned : vmmSpaceAlloc m space vaddr pageCount flags nodeOk = .ok (value, m', space')) : space'.Listed := by
  rcases vmmSpaceAlloc_outcome returned with same | ⟨_, _, recorded⟩
  · rw [same]
    exact listed
  · rw [recorded]
    exact listed.record ⟨recorded_used flags, wrap64_lt _⟩

theorem Space.Listed.mapPhys {vaddr physAddr pageCount value : Nat} {flags : BitVec 32} {nodeOk : Bool}
    (listed : space.Listed) (returned : vmmMapPhys m space vaddr physAddr pageCount flags nodeOk = .ok (value, m', space')) : space'.Listed := by
  rcases vmmMapPhys_outcome returned with same | ⟨_, _, recorded⟩
  · rw [same]
    exact listed
  · rw [recorded]
    refine listed.record ⟨?_, wrap64_lt _⟩
    rw [BitVec.or_assoc]
    exact recorded_used _

/-- The region loop of `vmm_clone_space` keeps both lists in order. -/
theorem Space.Listed.cloneRegions {nodes : Nat → Bool} {done : Bool} {src src' dst dst' : Space}
    {processed todo : List Region} (listed : src.Listed) (listedDst : dst.Listed) (split : src.regions = processed ++ todo)
    (returned : vmmCloneRegions nodes processed.length todo m src dst = .ok (done, m', src', dst')) :
    src'.Listed ∧ dst'.Listed := by
  induction todo generalizing processed m src dst with
  | nil =>
      rw [vmmCloneRegions] at returned
      cases returned
      exact ⟨listed, listedDst⟩
  | cons srcCur todo inductionHypothesis =>
      have member : srcCur ∈ src.regions := by
        rw [split]
        exact List.mem_append_right _ List.mem_cons_self
      have shared := recorded_durable.shared srcCur (listed.recorded srcCur member)
      have replaced : src.regions.set processed.length { srcCur with flags := cowFlags srcCur.flags } =
          (processed ++ [{ srcCur with flags := cowFlags srcCur.flags }]) ++ todo := by
        rw [split]
        simp
      rw [vmmCloneRegions] at returned
      cases node : nodes processed.length with
      | false =>
          simp only [node, Bool.not_false, if_true] at returned
          cases returned
          exact ⟨listed, listedDst⟩
      | true =>
          simp only [node, Bool.not_true, Bool.false_eq_true, if_false] at returned
          obtain ⟨m₁, _, rest⟩ := Result.bind_ok returned
          have count : processed.length + 1 = (processed ++ [{ srcCur with flags := cowFlags srcCur.flags }]).length := by
            rw [List.length_append]
            rfl
          rw [count] at rest
          refine inductionHypothesis (listed.reflag ?_ ?_) (listedDst.record shared) replaced rest
          · rw [replaced, split]
            simp [Region.span]
          · intro region inside
            rcases List.mem_or_eq_of_mem_set inside with old | new
            · exact listed.recorded region old
            · rw [new]
              exact shared

theorem Space.Listed.cloneSpace {kmallocOk : Bool} {nodes : Nat → Bool} {clone : Option Space} (listed : space.Listed)
    (returned : vmmCloneSpace m space kmallocOk nodes = .ok (clone, m', space')) :
    space'.Listed ∧ ∀ dst, clone = some dst → dst.Listed := by
  rcases vmmCloneSpace_loop returned with ⟨none, same⟩ | ⟨dst, m₁, done, m₂, dst', created, loop, isCopy⟩
  · rw [none, same]
    exact ⟨listed, nofun⟩
  · obtain ⟨listedSrc, listedDst⟩ := listed.cloneRegions (Space.Listed.create created) (List.nil_append _).symm loop
    refine ⟨listedSrc, ?_⟩
    intro copy made
    rw [isCopy copy made]
    exact listedDst

/-- The loop of `vmm_space_destroy` gives the same result with every fuel above the number of the regions. -/
theorem Space.Listed.destroyLoop (listed : space.Listed) (enough : space.regions.length < fuel)
    (enough' : space.regions.length < more) : vmmSpaceDestroyLoop fuel m space = vmmSpaceDestroyLoop more m space := by
  have ends (nonzero : ∀ region ∈ space.regions, region.base ≠ 0) :
      vmmSpaceDestroyLoop fuel m space = vmmSpaceDestroyLoop more m space := by
    have all : space.every Region.removable := fun region member => ⟨nonzero region member, (listed.recorded region member).1⟩
    rw [(vmmSpaceDestroyLoop_ends all enough).1, (vmmSpaceDestroyLoop_ends all enough').1]
  cases split : space.regions with
  | nil =>
      refine ends ?_
      rw [split]
      exact nofun
  | cons cur rest =>
      by_cases zero : cur.base = 0
      · rw [vmmSpaceDestroyLoop_hangs split zero, vmmSpaceDestroyLoop_hangs split zero]
      · have sorted := listed.sorted
        rw [split] at sorted
        refine ends ?_
        rw [split, List.forall_mem_cons]
        refine ⟨zero, fun region member isZero => zero ?_⟩
        have above := (List.pairwise_cons.mp sorted).1 region member
        rw [isZero] at above
        exact Nat.le_zero.mp above

/-- The loop of `vmm_space_destroy` returns when no region is left. -/
theorem vmmSpaceDestroyLoop_empty (returned : vmmSpaceDestroyLoop fuel m space = .ok (m', space')) : space'.regions = [] := by
  induction fuel generalizing m space with
  | zero => cases returned
  | succ fuel inductionHypothesis =>
      rw [vmmSpaceDestroyLoop] at returned
      cases split : space.regions with
      | nil =>
          rw [split] at returned
          cases returned
          exact split
      | cons cur rest =>
          rw [split] at returned
          exact inductionHypothesis returned

end

end DoccrOS.Mem
