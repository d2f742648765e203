import DoccrOS.Construction.Mem.VmmRanges
import DoccrOS.Lib.Run
import DoccrOS.Lib.Tiling
import DoccrOS.Proof.Mem.CowCalls
import DoccrOS.Proof.Mem.Kheap

namespace DoccrOS.Mem
open Lib

/-- A region as a piece of the kernel range. -/
def regionPiece (region : HeapPtr × Region) : Piece :=
  ⟨region.2.base, region.2.size, hasFlag region.2.flags vmmRegionUsed⟩

def regionPieces (list : List (HeapPtr × Region)) : List Piece := list.map regionPiece

/-- The statistics of a list of regions. -/
def rangeStats (pieces : List Piece) : VmmStats :=
  ⟨vmmLimit - vmmBase, usedSize pieces, freeSize pieces, pieces.length, usedCount pieces⟩

/-- The nodes from `vmm_head` on are the allocated ones. -/
structure NodeList (v : VmmRanges) (list : List (HeapPtr × Region)) : Prop where
  head : v.head = firstPtr none list
  linked : Linked v.nodes none list none
  nodup : (list.map Prod.fst).Nodup
  owned : ∀ ptr, ptr ∉ list.map Prod.fst → v.nodes ptr = none

/-- The region list tiles the kernel range, and the statistics are exact. -/
structure Ranges (v : VmmRanges) (list : List (HeapPtr × Region)) : Prop where
  nodes : NodeList v list
  tiles : Tiles 0 vmmBase (regionPieces list) vmmLimit
  whole : ∀ region ∈ list, pageSize ∣ region.2.size
  free : ∀ region ∈ list, hasFlag region.2.flags vmmRegionUsed = false → region.2.flags = vmmRegionFree
  stats : vmmGetStats v = rangeStats (regionPieces list)

section
variable {v v' : VmmRanges} {left right list : List (HeapPtr × Region)} {ptr next : HeapPtr} {region nextRegion : Region}
  {size : Nat}

@[simp] theorem regionPieces_append : regionPieces (left ++ right) = regionPieces left ++ regionPieces right := List.map_append

@[simp] theorem regionPieces_cons {pair : HeapPtr × Region} :
    regionPieces (pair :: list) = regionPiece pair :: regionPieces list := rfl

@[simp] theorem regionPieces_length : (regionPieces list).length = list.length := List.length_map _

theorem VmmRanges.set_nodes (v : VmmRanges) (ptr query : HeapPtr) (node : Node HeapPtr Region) :
    (v.set ptr node).nodes query = if query = ptr then some node else v.nodes query := by
  simp only [VmmRanges.set, Function.update_apply]

theorem regionFree_nodes (v : VmmRanges) (ptr query : HeapPtr) :
    (regionFree v ptr).nodes query = if query = ptr then none else v.nodes query := by
  simp only [regionFree, Function.update_apply]

theorem NodeList.length_le (nodes : NodeList v list) : list.length ≤ heapSize := by
  have bound := nodes.nodup.length_le_card
  rw [List.length_map, heapPtr_card] at bound
  exact bound

theorem NodeList.node (nodes : NodeList v (left ++ (ptr, region) :: right)) :
    v.nodes ptr = some ⟨lastPtr none left, firstPtr none right, region⟩ :=
  nodes.linked.node

/-- The sizes add up to the whole range. -/
theorem Ranges.total (ranges : Ranges v list) :
    usedSize (regionPieces list) + freeSize (regionPieces list) = vmmLimit - vmmBase := by
  have last := ranges.tiles.stop_eq
  rw [extent_eq] at last
  omega

theorem Ranges.inside (ranges : Ranges v list) (member : (ptr, region) ∈ list) :
    vmmBase ≤ region.base ∧ region.base + region.size ≤ vmmLimit := by
  obtain ⟨left, right, split⟩ := List.append_of_mem member
  have tiles := ranges.tiles
  rw [split, regionPieces_append, regionPieces_cons] at tiles
  have position := tiles.position_eq
  simp only [regionPiece] at position
  omega

/-- The store to the link of the node behind a list. -/
theorem NodeList.relink (nodes : NodeList v (left ++ right)) {w : VmmRanges} (prev : HeapPtr)
    (same : ∀ query, firstPtr none right = some query → w.nodes query = v.nodes query) :
    ∃ w', w.relink (firstPtr none right) prev = .ok w' ∧
      (∀ query node, firstPtr none right = some query → v.nodes query = some node →
        w'.nodes query = some { node with prev := some prev }) ∧
      (∀ query, firstPtr none right ≠ some query → w'.nodes query = w.nodes query) ∧
      w' = { w with nodes := w'.nodes } := by
  cases first : firstPtr none right with
  | none => exact ⟨w, rfl, nofun, fun _ _ => rfl, rfl⟩
  | some target =>
      obtain ⟨pair, member, isTarget⟩ := List.mem_map.mp (firstPtr_mem first)
      obtain ⟨before, after, split⟩ := List.append_of_mem member
      rw [split, ← List.append_assoc] at nodes
      have here := nodes.node
      rw [isTarget] at here
      have stored : w.relink (some target) prev = .ok (w.set target ⟨some prev, firstPtr none after, pair.2⟩) := by
        rw [VmmRanges.relink, same target first, here]
      refine ⟨_, stored, ?_, ?_, rfl⟩
      · intro query node isQuery atQuery
        injection isQuery with isQuery
        rw [← isQuery, here] at atQuery
        injection atQuery with atQuery
        rw [← isQuery, VmmRanges.set_nodes, if_pos rfl, ← atQuery]
      · intro query different
        rw [VmmRanges.set_nodes, if_neg fun isTarget => different (by rw [isTarget])]

/-- A list depends on the nodes and the head only. -/
theorem NodeList.congr (nodes : NodeList v list) (sameNodes : v'.nodes = v.nodes) (sameHead : v'.head = v.head) :
    NodeList v' list := by
  refine ⟨sameHead.trans nodes.head, ?_, nodes.nodup, ?_⟩
  · rw [sameNodes]
    exact nodes.linked
  · rw [sameNodes]
    exact nodes.owned

/-- The nodes other than two neighbours. -/
theorem NodeList.rest_ne (nodes : NodeList v (left ++ (ptr, region) :: (next, nextRegion) :: right)) :
    next ≠ ptr ∧ ∀ other ∈ (left ++ right).map Prod.fst, other ≠ ptr ∧ other ≠ next := by
  have nodup := nodes.nodup
  have apart := nodup_middle left [(ptr, region), (next, nextRegion)] right (by simpa using nodup)
  refine ⟨?_, ?_⟩
  · intro same
    rw [List.map_append, List.map_cons, List.map_cons] at nodup
    exact (List.nodup_cons.mp (List.nodup_append.mp nodup).2.1).1 (by simp [same])
  · intro other member
    rw [List.map_append, List.mem_append] at member
    have outside : other ∉ [(ptr, region), (next, nextRegion)].map Prod.fst := by
      rcases member with early | late
      · exact (apart.1 other early).1
      · exact apart.2.1 other late
    simpa using outside

/-- A node takes the place of itself and its freed successor. -/
theorem NodeList.merge (region' : Region) (nodes : NodeList v (left ++ (ptr, region) :: (next, nextRegion) :: right)) :
    ∃ w, (v.set ptr ⟨lastPtr none left, firstPtr none right, region'⟩).relink (firstPtr none right) ptr = .ok w ∧
      NodeList (regionFree w next) (left ++ (ptr, region') :: right) ∧
      vmmGetStats w = vmmGetStats v := by
  obtain ⟨differ, rest⟩ := nodes.rest_ne
  have nodes₂ : NodeList v ((left ++ [(ptr, region), (next, nextRegion)]) ++ right) := by simpa using nodes
  have behind : ∀ query, firstPtr none right = some query → query ≠ ptr ∧ query ≠ next := by
    intro query first
    refine rest query ?_
    rw [List.map_append]
    exact List.mem_append_right _ (firstPtr_mem first)
  have same : ∀ query, firstPtr none right = some query →
      (v.set ptr ⟨lastPtr none left, firstPtr none right, region'⟩).nodes query = v.nodes query := by
    intro query first
    rw [VmmRanges.set_nodes, if_neg (behind query first).1]
  obtain ⟨w, relinked, first, others, fields⟩ := nodes₂.relink ptr same
  refine ⟨w, relinked, ⟨?_, ?_, ?_, ?_⟩, by rw [fields]; rfl⟩
  · have sameHead : (regionFree w next).head = v.head := by rw [fields]; rfl
    rw [sameHead, nodes.head]
    exact firstPtr_middle
  · refine nodes.linked.remove nodes.nodup ?_ ?_ ?_
    · rw [regionFree_nodes, if_neg (Ne.symm differ), others ptr fun atFirst => (behind ptr atFirst).1 rfl,
        VmmRanges.set_nodes, if_pos rfl]
    · intro other node atFirst atOther
      rw [regionFree_nodes, if_neg (behind other atFirst).2, first other node atFirst atOther]
    · intro other member notFirst
      rw [regionFree_nodes, if_neg (rest other member).2, others other notFirst, VmmRanges.set_nodes,
        if_neg (rest other member).1]
  · have nodup := nodes.nodup
    rw [List.map_append, List.map_cons, List.map_cons] at nodup
    rw [List.map_append, List.map_cons]
    exact nodup.sublist (List.Sublist.append_left (List.Sublist.cons_cons _ (List.sublist_cons_self _ _)) _)
  · intro query outside
    rw [List.map_append, List.map_cons, List.mem_append, List.mem_cons, not_or, not_or] at outside
    rw [regionFree_nodes]
    by_cases isNext : query = next
    · rw [if_pos isNext]
    · have notFirst : firstPtr none right ≠ some query := fun atFirst => outside.2.2 (firstPtr_mem atFirst)
      rw [if_neg isNext, others query notFirst, VmmRanges.set_nodes, if_neg outside.2.1]
      refine nodes.owned query ?_
      simp only [List.map_append, List.map_cons, List.mem_append, List.mem_cons, not_or]
      exact ⟨outside.1, outside.2.1, isNext, outside.2.2⟩

/-- Two free neighbours become one region. -/
theorem Ranges.merge (ranges : Ranges v (left ++ (ptr, region) :: (next, nextRegion) :: right))
    (free : hasFlag region.flags vmmRegionUsed = false) (nextFree : hasFlag nextRegion.flags vmmRegionUsed = false) :
    ∃ v', mergeWithNext v ptr = .ok v' ∧
      Ranges v' (left ++ (ptr, { region with size := region.size + nextRegion.size }) :: right) := by
  have total := ranges.total
  have tiles := ranges.tiles
  have here := ranges.nodes.node
  have nodes₁ : NodeList v ((left ++ [(ptr, region)]) ++ (next, nextRegion) :: right) := by simpa using ranges.nodes
  have there := nodes₁.node
  have isHere : (ptr, region) ∈ left ++ (ptr, region) :: (next, nextRegion) :: right := by simp
  have isNext : (next, nextRegion) ∈ left ++ (ptr, region) :: (next, nextRegion) :: right := by simp
  have inside := ranges.inside isHere
  have inside' := ranges.inside isNext
  rw [regionPieces_append, regionPieces_cons, regionPieces_cons] at tiles total
  have meets : wrap64 (region.base + region.size) = nextRegion.base := by
    obtain ⟨_, atHere, atNext, _⟩ := tiles_append.mp tiles
    simp only [regionPiece] at atHere atNext
    simp only [vmmLimit] at inside
    rw [wrap64_of_lt (by omega)]
    omega
  have size : wrap64 (region.size + nextRegion.size) = region.size + nextRegion.size := by
    simp only [vmmBase, vmmLimit] at inside inside'
    exact wrap64_of_lt (by omega)
  obtain ⟨w, relinked, nodes', stats⟩ := ranges.nodes.merge { region with size := region.size + nextRegion.size }
  refine ⟨{ regionFree w next with regions := sub64 (regionFree w next).regions 1 }, ?_, nodes'.congr rfl rfl, ?_, ?_, ?_, ?_⟩
  · simp only [mergeWithNext, here, firstPtr_cons, there, mergeNodes, free, nextFree, meets, size, Bool.or_self,
      Bool.false_eq_true, if_false, ne_eq, not_true_eq_false]
    rw [relinked]
    rfl
  · rw [regionPieces_append, regionPieces_cons]
    exact tiles.merge rfl rfl
  · have whole := ranges.whole
    rw [List.forall_mem_append, List.forall_mem_cons, List.forall_mem_cons] at whole
    rw [List.forall_mem_append, List.forall_mem_cons]
    exact ⟨whole.1, Nat.dvd_add whole.2.1 whole.2.2.1, whole.2.2.2⟩
  · have clear := ranges.free
    rw [List.forall_mem_append, List.forall_mem_cons, List.forall_mem_cons] at clear
    rw [List.forall_mem_append, List.forall_mem_cons]
    exact ⟨clear.1, clear.2.1, clear.2.2.2⟩
  · have counters : vmmGetStats { regionFree w next with regions := sub64 (regionFree w next).regions 1 } =
        { vmmGetStats w with regionCount := sub64 (vmmGetStats w).regionCount 1 } := rfl
    rw [counters, stats, ranges.stats]
    have length := ranges.nodes.length_le
    simp [rangeStats, regionPiece, free, nextFree, heapSize] at total length ⊢
    refine ⟨?_, ?_⟩
    · omega
    · rw [sub64_of_le (by omega) (by omega)]
      omega

/-- One node gets new fields. -/
theorem NodeList.setRegion (region' : Region) (nodes : NodeList v (left ++ (ptr, region) :: right)) :
    NodeList (v.set ptr ⟨lastPtr none left, firstPtr none right, region'⟩) (left ++ (ptr, region') :: right) := by
  have apart := nodup_middle left [(ptr, region)] right (by simpa using nodes.nodup)
  refine ⟨?_, nodes.linked.setValue ?_ ?_, ?_, ?_⟩
  · rw [← firstPtr_middle, ← nodes.head]
    rfl
  · rw [VmmRanges.set_nodes, if_pos rfl]
  · intro other member
    rw [List.map_append, List.mem_append] at member
    have outside : other ∉ [(ptr, region)].map Prod.fst := by
      rcases member with early | late
      · exact (apart.1 other early).1
      · exact apart.2.1 other late
    rw [VmmRanges.set_nodes, if_neg (by simpa using outside)]
  · have nodup := nodes.nodup
    rw [List.map_append, List.map_cons] at nodup ⊢
    exact nodup
  · intro query outside
    rw [List.map_append, List.map_cons, List.mem_append, List.mem_cons, not_or, not_or] at outside
    rw [VmmRanges.set_nodes, if_neg outside.2.1]
    refine nodes.owned query ?_
    rw [List.map_append, List.map_cons, List.mem_append, List.mem_cons, not_or, not_or]
    exact outside

/-- A new node is linked in behind a node. -/
theorem NodeList.split (region' newRegion : Region) {new : HeapPtr} (nodes : NodeList v (left ++ (ptr, region) :: right))
    (fresh : v.nodes new = none) :
    ∃ w, (v.set new ⟨some ptr, firstPtr none right, newRegion⟩).relink (firstPtr none right) new = .ok w ∧
      NodeList (w.set ptr ⟨lastPtr none left, some new, region'⟩) (left ++ (ptr, region') :: (new, newRegion) :: right) ∧
      vmmGetStats w = vmmGetStats v := by
  have notIn : new ∉ (left ++ (ptr, region) :: right).map Prod.fst := by
    intro member
    obtain ⟨pair, inside, isNew⟩ := List.mem_map.mp member
    obtain ⟨before, after, split⟩ := List.append_of_mem inside
    rw [split] at nodes
    have here := nodes.node
    rw [isNew, fresh] at here
    cases here
  have notIn' := notIn
  rw [List.map_append, List.map_cons, List.mem_append, List.mem_cons, not_or, not_or] at notIn'
  have apart := nodup_middle left [(ptr, region)] right (by simpa using nodes.nodup)
  have rest : ∀ other ∈ (left ++ right).map Prod.fst, other ≠ ptr ∧ other ≠ new := by
    intro other member
    rw [List.map_append, List.mem_append] at member
    rcases member with early | late
    · exact ⟨fun same => (apart.1 other early).1 (by simp [same]), fun same => notIn'.1 (same ▸ early)⟩
    · exact ⟨fun same => apart.2.1 other late (by simp [same]), fun same => notIn'.2.2 (same ▸ late)⟩
  have behind : ∀ query, firstPtr none right = some query → query ≠ ptr ∧ query ≠ new := by
    intro query first
    refine rest query ?_
    rw [List.map_append]
    exact List.mem_append_right _ (firstPtr_mem first)
  have nodes₁ : NodeList v ((left ++ [(ptr, region)]) ++ right) := by simpa using nodes
  have same : ∀ query, firstPtr none right = some query →
      (v.set new ⟨some ptr, firstPtr none right, newRegion⟩).nodes query = v.nodes query := by
    intro query first
    rw [VmmRanges.set_nodes, if_neg (behind query first).2]
  obtain ⟨w, relinked, first, others, fields⟩ := nodes₁.relink new same
  refine ⟨w, relinked, ⟨?_, ?_, ?_, ?_⟩, by rw [fields]; rfl⟩
  · have sameHead : (w.set ptr ⟨lastPtr none left, some new, region'⟩).head = v.head := by rw [fields]; rfl
    rw [sameHead, nodes.head]
    exact firstPtr_middle
  · refine nodes.linked.insert nodes.nodup ?_ ?_ ?_ ?_
    · rw [VmmRanges.set_nodes, if_pos rfl]
    · rw [VmmRanges.set_nodes, if_neg notIn'.2.1, others new fun atFirst => (behind new atFirst).2 rfl,
        VmmRanges.set_nodes, if_pos rfl]
    · intro other node atFirst atOther
      rw [VmmRanges.set_nodes, if_neg (behind other atFirst).1, first other node atFirst atOther]
    · intro other member notFirst
      rw [VmmRanges.set_nodes, if_neg (rest other member).1, others other notFirst, VmmRanges.set_nodes,
        if_neg (rest other member).2]
  · have nodup := nodes.nodup
    rw [List.map_append, List.map_cons] at nodup
    rw [List.map_append, List.map_cons, List.map_cons]
    have perm : (left.map Prod.fst ++ ptr :: new :: right.map Prod.fst).Perm
        (new :: (left.map Prod.fst ++ ptr :: right.map Prod.fst)) := by
      refine (List.Perm.append_left _ (List.Perm.swap new ptr _)).trans ?_
      exact List.perm_middle
    refine perm.nodup_iff.mpr (List.nodup_cons.mpr ⟨?_, nodup⟩)
    rw [List.map_append, List.map_cons] at notIn
    exact notIn
  · intro query outside
    rw [List.map_append, List.map_cons, List.map_cons, List.mem_append, List.mem_cons, List.mem_cons, not_or, not_or,
      not_or] at outside
    have notFirst : firstPtr none right ≠ some query := fun atFirst => outside.2.2.2 (firstPtr_mem atFirst)
    rw [VmmRanges.set_nodes, if_neg outside.2.1, others query notFirst, VmmRanges.set_nodes, if_neg outside.2.2.1]
    refine nodes.owned query ?_
    rw [List.map_append, List.map_cons, List.mem_append, List.mem_cons, not_or, not_or]
    exact ⟨outside.1, outside.2.1, outside.2.2.2⟩

/-- A free region is marked used. -/
theorem Ranges.use (flags : BitVec 32) (ranges : Ranges v (left ++ (ptr, region) :: right))
    (free : hasFlag region.flags vmmRegionUsed = false) :
    Ranges (vmmAllocUse v ptr ⟨lastPtr none left, firstPtr none right, region⟩ region.size flags)
      (left ++ (ptr, { region with flags := vmmRegionUsed ||| flags }) :: right) := by
  have total := ranges.total
  have tiles := ranges.tiles
  have length := ranges.nodes.length_le
  have count := usedCount_le (regionPieces left)
  have count' := usedCount_le (regionPieces right)
  have whole := ranges.whole
  have clear := ranges.free
  rw [regionPieces_append, regionPieces_cons] at tiles total
  rw [List.forall_mem_append, List.forall_mem_cons] at whole clear
  refine ⟨(ranges.nodes.setRegion { region with flags := vmmRegionUsed ||| flags }).congr rfl rfl, ?_, ?_, ?_, ?_⟩
  · rw [regionPieces_append, regionPieces_cons]
    exact tiles.mark rfl rfl
  · rw [List.forall_mem_append, List.forall_mem_cons]
    exact whole
  · rw [List.forall_mem_append, List.forall_mem_cons]
    refine ⟨clear.1, ?_, clear.2.2⟩
    intro isFree
    rw [recorded_used] at isFree
    cases isFree
  · have counters : vmmGetStats (vmmAllocUse v ptr ⟨lastPtr none left, firstPtr none right, region⟩ region.size flags) =
        { vmmGetStats v with
          usedVirtual := wrap64 ((vmmGetStats v).usedVirtual + region.size)
          freeVirtual := sub64 (vmmGetStats v).freeVirtual region.size
          usedRegionCount := wrap64 ((vmmGetStats v).usedRegionCount + 1) } := rfl
    rw [counters, ranges.stats]
    simp [rangeStats, regionPiece, free, recorded_used, heapSize, vmmLimit, vmmBase] at total length count count' ⊢
    refine ⟨?_, ?_, ?_⟩
    · rw [wrap64_of_lt (by omega)]
      omega
    · rw [sub64_of_le (by omega) (by omega)]
      omega
    · rw [wrap64_of_lt (by omega)]
      omega

/-- A free region is cut into two. -/
theorem Ranges.cut {new : HeapPtr} (ranges : Ranges v (left ++ (ptr, region) :: right))
    (free : hasFlag region.flags vmmRegionUsed = false) (fresh : v.nodes new = none) (aligned : pageSize ∣ size)
    (room : size ≤ region.size) :
    ∃ w, vmmAllocSplit v ptr new ⟨lastPtr none left, firstPtr none right, region⟩ size = .ok w ∧
      Ranges (w.set ptr ⟨lastPtr none left, some new, { region with size := size }⟩)
        (left ++ (ptr, { region with size := size }) ::
          (new, ⟨region.base + size, region.size - size, vmmRegionFree⟩) :: right) := by
  have total := ranges.total
  have tiles := ranges.tiles
  have length := ranges.nodes.length_le
  have inside := ranges.inside (show (ptr, region) ∈ left ++ (ptr, region) :: right by simp)
  have whole := ranges.whole
  have clear := ranges.free
  rw [regionPieces_append, regionPieces_cons] at tiles total
  rw [List.forall_mem_append, List.forall_mem_cons] at whole clear
  have base : wrap64 (region.base + size) = region.base + size := by
    simp only [vmmLimit] at inside
    exact wrap64_of_lt (by omega)
  obtain ⟨w, relinked, nodes', stats⟩ := ranges.nodes.split region
    ⟨region.base + size, region.size - size, vmmRegionFree⟩ fresh
  have nodes'' := nodes'.setRegion { region with size := size }
  refine ⟨{ w.set ptr ⟨lastPtr none left, some new, region⟩ with regions := wrap64 (w.regions + 1) }, ?_, ?_⟩
  · simp only [vmmAllocSplit, base, relinked, Result.ok_bind]
    rfl
  · refine ⟨nodes''.congr rfl rfl, ?_, ?_, ?_, ?_⟩
    · rw [regionPieces_append, regionPieces_cons]
      refine tiles.split rfl rfl ?_
      simp only [regionPiece]
      omega
    · rw [List.forall_mem_append, List.forall_mem_cons, List.forall_mem_cons]
      exact ⟨whole.1, aligned, Nat.dvd_sub whole.2.1 aligned, whole.2.2⟩
    · rw [List.forall_mem_append, List.forall_mem_cons, List.forall_mem_cons]
      exact ⟨clear.1, clear.2.1, fun _ => rfl, clear.2.2⟩
    · have counters : vmmGetStats (({ w.set ptr ⟨lastPtr none left, some new, region⟩ with
          regions := wrap64 (w.regions + 1) } : VmmRanges).set ptr
            ⟨lastPtr none left, some new, { region with size := size }⟩) =
          { vmmGetStats w with regionCount := wrap64 ((vmmGetStats w).regionCount + 1) } := rfl
      have newFree : hasFlag vmmRegionFree vmmRegionUsed = false := by decide
      rw [counters, stats, ranges.stats]
      simp [rangeStats, regionPiece, free, newFree, heapSize] at total length ⊢
      refine ⟨?_, ?_⟩
      · omega
      · rw [wrap64_of_lt (by omega)]
        omega

/-- A used region is marked free. -/
theorem Ranges.release (ranges : Ranges v (left ++ (ptr, region) :: right))
    (used : hasFlag region.flags vmmRegionUsed = true) :
    Ranges (vmmFreeRelease v ptr ⟨lastPtr none left, firstPtr none right, region⟩)
      (left ++ (ptr, { region with flags := vmmRegionFree }) :: right) := by
  have total := ranges.total
  have tiles := ranges.tiles
  have length := ranges.nodes.length_le
  have count := usedCount_le (regionPieces left)
  have count' := usedCount_le (regionPieces right)
  have whole := ranges.whole
  have clear := ranges.free
  rw [regionPieces_append, regionPieces_cons] at tiles total
  rw [List.forall_mem_append, List.forall_mem_cons] at whole clear
  refine ⟨(ranges.nodes.setRegion { region with flags := vmmRegionFree }).congr ?_ ?_, ?_, ?_, ?_, ?_⟩
  · simp only [vmmFreeRelease, VmmRanges.set]
  · simp only [vmmFreeRelease, VmmRanges.set]
  · rw [regionPieces_append, regionPieces_cons]
    exact tiles.mark rfl rfl
  · rw [List.forall_mem_append, List.forall_mem_cons]
    exact whole
  · rw [List.forall_mem_append, List.forall_mem_cons]
    exact ⟨clear.1, fun _ => rfl, clear.2.2⟩
  · have counters : vmmGetStats (vmmFreeRelease v ptr ⟨lastPtr none left, firstPtr none right, region⟩) =
        { vmmGetStats v with
          usedVirtual := sub64 (vmmGetStats v).usedVirtual region.size
          freeVirtual := wrap64 ((vmmGetStats v).freeVirtual + region.size)
          usedRegionCount := sub64 (vmmGetStats v).usedRegionCount 1 } := rfl
    have nowFree : hasFlag vmmRegionFree vmmRegionUsed = false := by decide
    rw [counters, ranges.stats]
    simp [rangeStats, regionPiece, used, nowFree, heapSize, vmmLimit, vmmBase] at total length count count' ⊢
    refine ⟨?_, ?_, ?_⟩
    · rw [sub64_of_le (by omega) (by omega)]
      omega
    · rw [wrap64_of_lt (by omega)]
      omega
    · rw [sub64_of_le (by omega) (by omega)]
      omega

end

end DoccrOS.Mem
