import DoccrOS.Construction.Mem.SpaceRegions
import DoccrOS.Proof.Mem.VmmRanges

namespace DoccrOS.Mem
open Lib

/-- The region nodes of every space stand in memory, and no node belongs to two spaces. -/
structure RegionLists (s : SpaceLists) (lists : SpacePtr → List (HeapPtr × Region)) : Prop where
  first : ∀ space record, s.spaces space = some record → record.regions = firstPtr none (lists space)
  linked : ∀ space, Linked s.nodes none (lists space) none
  nodup : ∀ space, ((lists space).map Prod.fst).Nodup
  apart : ∀ space other, space ≠ other → ∀ ptr ∈ (lists space).map Prod.fst, ptr ∉ (lists other).map Prod.fst
  dead : ∀ space, s.spaces space = none → lists space = []

/-- A space record with its list in the place of the pointer to it. -/
def SpaceRecord.view (record : SpaceRecord) (list : List (HeapPtr × Region)) : Space :=
  ⟨record.pml4Phys, list.map Prod.snd, record.regionCount, record.usedVirtual⟩

/-- A call changed the record and the list of one space, which is `after` now. -/
structure Changed (s s' : SpaceLists) (lists : SpacePtr → List (HeapPtr × Region)) (space : SpacePtr)
    (list' : List (HeapPtr × Region)) (after : Space) : Prop where
  lists : RegionLists s' (Function.update lists space list')
  spaces : ∃ record, s'.spaces = Function.update s.spaces space (some record) ∧ record.view list' = after

section
variable {s s' : SpaceLists} {lists : SpacePtr → List (HeapPtr × Region)} {space : SpacePtr} {record : SpaceRecord}
  {left right list list' : List (HeapPtr × Region)} {ptr node : HeapPtr} {region : Region} {old next prev : Option HeapPtr}

theorem SpaceLists.node_of (here : s.nodes ptr = some entry) : s.node ptr = .ok entry := by
  rw [SpaceLists.node, here]

theorem SpaceLists.space_of (live : s.spaces space = some record) : s.space space = .ok record := by
  rw [SpaceLists.space, live]

theorem SpaceLists.setNode_nodes (s : SpaceLists) (ptr query : HeapPtr) (entry : Option (Node HeapPtr Region)) :
    (s.setNode ptr entry).nodes query = if query = ptr then entry else s.nodes query := by
  simp only [SpaceLists.setNode, Function.update_apply]

theorem SpaceLists.setSpace_at (s : SpaceLists) (space query : SpacePtr) (record : Option SpaceRecord) :
    (s.setSpace space record).spaces query = if query = space then record else s.spaces query := by
  simp only [SpaceLists.setSpace, Function.update_apply]

/-- The last store to a record counts. -/
theorem SpaceLists.setSpace_spaces {other : Option SpaceRecord} (spaces : s'.spaces = Function.update s.spaces space other)
    (last : Option SpaceRecord) : (s'.setSpace space last).spaces = Function.update s.spaces space last := by
  rw [SpaceLists.setSpace, spaces]
  exact Function.update_idem ..

theorem SpaceLists.setSpace_self (live : s.spaces space = some record) : s.setSpace space (some record) = s := by
  rw [SpaceLists.setSpace, ← live, Function.update_eq_self]

/-- A node of a list is in memory. -/
theorem Linked.present {mem : HeapPtr → Option (Node HeapPtr Region)} (linked : Linked mem prev list next)
    (member : ptr ∈ list.map Prod.fst) : ∃ entry, mem ptr = some entry := by
  obtain ⟨pair, inList, isPtr⟩ := List.mem_map.mp member
  obtain ⟨left, right, split⟩ := List.append_of_mem inList
  rw [split] at linked
  rw [← isPtr]
  exact ⟨_, linked.node⟩

theorem RegionLists.length_le (own : RegionLists s lists) (space : SpacePtr) : (lists space).length ≤ heapSize := by
  have bound := (own.nodup space).length_le_card
  rw [List.length_map, heapPtr_card] at bound
  exact bound

/-- Memory that is not in use is in no list. -/
theorem RegionLists.notMem (own : RegionLists s lists) (free : s.nodes node = none) (space : SpacePtr) :
    node ∉ (lists space).map Prod.fst := by
  intro member
  obtain ⟨entry, here⟩ := Linked.present (own.linked space) member
  rw [free] at here
  cases here

/-- One list and its record change. -/
theorem RegionLists.change (own : RegionLists s lists) (spaces : s'.spaces = Function.update s.spaces space (some record))
    (first : record.regions = firstPtr none list') (linked : Linked s'.nodes none list' none)
    (nodup : (list'.map Prod.fst).Nodup)
    (apart : ∀ ptr ∈ list'.map Prod.fst, ∀ other, other ≠ space → ptr ∉ (lists other).map Prod.fst)
    (others : ∀ other, other ≠ space → ∀ ptr ∈ (lists other).map Prod.fst, s'.nodes ptr = s.nodes ptr) :
    RegionLists s' (Function.update lists space list') := by
  constructor
  · intro query other live
    rw [spaces] at live
    by_cases same : query = space
    · rw [same, Function.update_self] at live
      injection live with live
      rw [same, Function.update_self, ← live]
      exact first
    · rw [Function.update_of_ne same] at live ⊢
      exact own.first query other live
  · intro query
    by_cases same : query = space
    · rw [same, Function.update_self]
      exact linked
    · rw [Function.update_of_ne same]
      exact (own.linked query).congr (others query same)
  · intro query
    by_cases same : query = space
    · rw [same, Function.update_self]
      exact nodup
    · rw [Function.update_of_ne same]
      exact own.nodup query
  · intro query other differ ptr member inOther
    by_cases same : query = space
    · rw [same, Function.update_self] at member
      have otherNe : other ≠ space := fun isSpace => differ (same.trans isSpace.symm)
      rw [Function.update_of_ne otherNe] at inOther
      exact apart ptr member other otherNe inOther
    · rw [Function.update_of_ne same] at member
      by_cases isSpace : other = space
      · rw [isSpace, Function.update_self] at inOther
        exact apart ptr inOther query same member
      · rw [Function.update_of_ne isSpace] at inOther
        exact own.apart query other differ ptr member inOther
  · intro query dead
    rw [spaces] at dead
    by_cases same : query = space
    · rw [same, Function.update_self] at dead
      cases dead
    · rw [Function.update_of_ne same] at dead ⊢
      exact own.dead query dead

/-- The lists depend on the nodes and the records only. -/
theorem RegionLists.congr (own : RegionLists s lists) (nodes : s'.nodes = s.nodes) (spaces : s'.spaces = s.spaces) :
    RegionLists s' lists := by
  refine ⟨?_, ?_, own.nodup, own.apart, ?_⟩
  · rw [spaces]
    exact own.first
  · rw [nodes]
    exact own.linked
  · rw [spaces]
    exact own.dead

/-- The walk of a sorted insert ends where `insertRegion` puts the region. -/
theorem insertSeek_spec {mem : HeapPtr → Option (Node HeapPtr Region)} {fuel : Nat} (region : Region)
    (linked : Linked mem prev list none) (enough : list.length ≤ fuel) :
    ∃ left right, list = left ++ right ∧
      insertSeek mem region.base fuel prev (firstPtr none list) = .ok (lastPtr prev left, firstPtr none right) ∧
      insertRegion region (list.map Prod.snd) = left.map Prod.snd ++ region :: right.map Prod.snd := by
  induction list generalizing prev fuel with
  | nil =>
      refine ⟨[], [], rfl, ?_, rfl⟩
      cases fuel <;> rfl
  | cons pair list inductionHypothesis =>
      obtain ⟨ptr, cur⟩ := pair
      cases fuel with
      | zero => exact absurd enough (Nat.not_succ_le_zero _)
      | succ fuel =>
          rw [linked_cons] at linked
          rw [firstPtr_cons, insertSeek, linked.1, List.map_cons, insertRegion]
          by_cases smaller : cur.base < region.base
          · obtain ⟨left, right, split, walked, inserted⟩ := inductionHypothesis linked.2 (Nat.le_of_succ_le_succ enough)
            refine ⟨(ptr, cur) :: left, right, congrArg _ split, ?_, ?_⟩
            · simp only [if_pos smaller]
              exact walked
            · rw [if_pos smaller, inserted]
              rfl
          · refine ⟨[], (ptr, cur) :: list, rfl, ?_, ?_⟩
            · simp only [if_neg smaller]
              rfl
            · rw [if_neg smaller]
              rfl

/-- The store behind a place changes the link of the last node before it, or the record. -/
theorem SpaceLists.linkBehind_spec (next : Option HeapPtr) (live : s.spaces space = some record)
    (first : record.regions = firstPtr old left)
    (present : ∀ ptr, lastPtr none left = some ptr → ∃ entry, s.nodes ptr = some entry) :
    ∃ s', s.linkBehind space (lastPtr none left) next = .ok s' ∧ s'.machine = s.machine ∧
      s'.spaces = Function.update s.spaces space (some { record with regions := firstPtr next left }) ∧
      (∀ ptr entry, lastPtr none left = some ptr → s.nodes ptr = some entry →
        s'.nodes ptr = some { entry with next := next }) ∧
      ∀ ptr, lastPtr none left ≠ some ptr → s'.nodes ptr = s.nodes ptr := by
  cases left using List.reverseRecOn with
  | nil =>
      refine ⟨s.setSpace space (some { record with regions := next }), ?_, rfl, rfl, nofun, fun _ _ => rfl⟩
      rw [lastPtr, SpaceLists.linkBehind, SpaceLists.space_of live]
      rfl
  | append_singleton left pair =>
      have last : lastPtr none (left ++ [pair]) = some pair.1 := lastPtr_append
      obtain ⟨entry, here⟩ := present pair.1 last
      rw [last]
      refine ⟨s.setNode pair.1 (some { entry with next := next }), ?_, rfl, ?_, ?_, ?_⟩
      · rw [SpaceLists.linkBehind, SpaceLists.node_of here]
        rfl
      · have kept : firstPtr next (left ++ [pair]) = record.regions := by
          rw [first, firstPtr_append, firstPtr_append]
          rfl
        rw [kept]
        exact (congrArg SpaceLists.spaces (SpaceLists.setSpace_self live)).symm
      · intro ptr other isLast atPtr
        injection isLast with isLast
        rw [← isLast, here] at atPtr
        injection atPtr with same
        rw [← isLast, SpaceLists.setNode_nodes, if_pos rfl, same]
      · intro ptr notLast
        rw [SpaceLists.setNode_nodes, if_neg fun same => notLast (congrArg some same.symm)]

/-- The store ahead of a place changes the link of the first node after it. -/
theorem SpaceLists.linkAhead_spec (prev : Option HeapPtr)
    (present : ∀ ptr, firstPtr none right = some ptr → ∃ entry, s.nodes ptr = some entry) :
    ∃ s', s.linkAhead (firstPtr none right) prev = .ok s' ∧ s'.machine = s.machine ∧ s'.spaces = s.spaces ∧
      (∀ ptr entry, firstPtr none right = some ptr → s.nodes ptr = some entry →
        s'.nodes ptr = some { entry with prev := prev }) ∧
      ∀ ptr, firstPtr none right ≠ some ptr → s'.nodes ptr = s.nodes ptr := by
  cases right with
  | nil => exact ⟨s, rfl, rfl, rfl, nofun, fun _ _ => rfl⟩
  | cons pair right =>
      obtain ⟨entry, here⟩ := present pair.1 rfl
      rw [firstPtr_cons]
      refine ⟨s.setNode pair.1 (some { entry with prev := prev }), ?_, rfl, rfl, ?_, ?_⟩
      · rw [SpaceLists.linkAhead, SpaceLists.node_of here]
        rfl
      · intro ptr other isFirst atPtr
        injection isFirst with isFirst
        rw [← isFirst, here] at atPtr
        injection atPtr with same
        rw [← isFirst, SpaceLists.setNode_nodes, if_pos rfl, same]
      · intro ptr notFirst
        rw [SpaceLists.setNode_nodes, if_neg fun same => notFirst (congrArg some same.symm)]

/-- Both stores around a place relink its two sides. -/
theorem SpaceLists.linkAround (next prev : Option HeapPtr) (live : s.spaces space = some record)
    (first : record.regions = firstPtr old left) (nodup : ((left ++ right).map Prod.fst).Nodup)
    (present : ∀ ptr ∈ (left ++ right).map Prod.fst, ∃ entry, s.nodes ptr = some entry) :
    ∃ s₁ s₂, s.linkBehind space (lastPtr none left) next = .ok s₁ ∧ s₁.linkAhead (firstPtr none right) prev = .ok s₂ ∧
      s₂.machine = s.machine ∧
      s₂.spaces = Function.update s.spaces space (some { record with regions := firstPtr next left }) ∧
      Relinked s.nodes s₂.nodes left right next prev ∧
      ∀ ptr, ptr ∉ (left ++ right).map Prod.fst → s₂.nodes ptr = s.nodes ptr := by
  rw [List.map_append] at nodup present
  have apart := (List.nodup_append'.mp nodup).2.2
  obtain ⟨s₁, behind, machine₁, spaces₁, last, others₁⟩ := SpaceLists.linkBehind_spec next live first
    fun ptr isLast => present ptr (List.mem_append_left _ (lastPtr_mem isLast))
  have keptFirst : ∀ ptr, firstPtr none right = some ptr → s₁.nodes ptr = s.nodes ptr := by
    intro ptr isFirst
    exact others₁ ptr fun isLast => apart (lastPtr_mem isLast) (firstPtr_mem isFirst)
  have presentFirst : ∀ ptr, firstPtr none right = some ptr → ∃ entry, s₁.nodes ptr = some entry := by
    intro ptr isFirst
    rw [keptFirst ptr isFirst]
    exact present ptr (List.mem_append_right _ (firstPtr_mem isFirst))
  obtain ⟨s₂, ahead, machine₂, spaces₂, atFirst, others₂⟩ := SpaceLists.linkAhead_spec prev presentFirst
  refine ⟨s₁, s₂, behind, ahead, machine₂.trans machine₁, spaces₂.trans spaces₁, ⟨?_, ?_, ?_⟩, ?_⟩
  · intro ptr entry isLast here
    rw [others₂ ptr fun isFirst => apart (lastPtr_mem isLast) (firstPtr_mem isFirst)]
    exact last ptr entry isLast here
  · intro ptr entry isFirst here
    rw [← keptFirst ptr isFirst] at here
    exact atFirst ptr entry isFirst here
  · intro ptr _ notLast notFirst
    rw [others₂ ptr notFirst, others₁ ptr notLast]
  · intro ptr outside
    rw [List.map_append, List.mem_append, not_or] at outside
    rw [others₂ ptr fun isFirst => outside.2 (firstPtr_mem isFirst),
      others₁ ptr fun isLast => outside.1 (lastPtr_mem isLast)]

/-- A sorted insert links a new node into the list of one space. -/
theorem RegionLists.insertNode (own : RegionLists s lists) (live : s.spaces space = some record)
    (new : s.nodes node = none) (region : Region) :
    ∃ s' list', s.insertNode space node region = .ok s' ∧ s'.machine = s.machine ∧
      Changed s s' lists space list' ((record.view (lists space)).record region) ∧
      (∀ ptr, ptr ≠ node → s.nodes ptr = none → s'.nodes ptr = none) ∧
      ∀ other, other ≠ space → ∀ ptr ∈ (lists other).map Prod.fst, s'.nodes ptr = s.nodes ptr := by
  obtain ⟨left, right, split, walked, inserted⟩ := insertSeek_spec region (own.linked space) (own.length_le space)
  have first := own.first space record live
  have linked := own.linked space
  have nodup := own.nodup space
  have notMem := own.notMem new
  have outside := notMem space
  rw [split] at linked nodup outside
  have first' : record.regions = firstPtr (firstPtr none right) left := by rw [first, split, firstPtr_append]
  rw [← first] at walked
  have nodes : ∀ ptr ∈ (left ++ right).map Prod.fst,
      (s.setNode node (some ⟨lastPtr none left, firstPtr none right, region⟩)).nodes ptr = s.nodes ptr := by
    intro ptr member
    rw [SpaceLists.setNode_nodes, if_neg]
    intro same
    rw [same] at member
    exact outside member
  obtain ⟨s₁, s₂, behind, ahead, machine, spaces, relinked, rest⟩ := SpaceLists.linkAround
    (s := s.setNode node (some ⟨lastPtr none left, firstPtr none right, region⟩)) (some node) (some node) live first' nodup
    fun ptr member => by
      rw [nodes ptr member]
      exact Linked.present linked member
  have live₂ : s₂.spaces space = some { record with regions := firstPtr (some node) left } := by
    rw [spaces, Function.update_self]
  have kept : ∀ ptr, ptr ∉ (left ++ right).map Prod.fst → ptr ≠ node → s₂.nodes ptr = s.nodes ptr := by
    intro ptr notIn differ
    rw [rest ptr notIn, SpaceLists.setNode_nodes, if_neg differ]
  have others : ∀ other, other ≠ space → ∀ ptr ∈ (lists other).map Prod.fst, s₂.nodes ptr = s.nodes ptr := by
    intro other differ ptr member
    refine kept ptr ?_ fun same => notMem other (same ▸ member)
    rw [← split]
    exact own.apart other space differ ptr member
  let counted : SpaceRecord := { record with
    regions := firstPtr (some node) left
    regionCount := wrap64 (record.regionCount + 1)
    usedVirtual := wrap64 (record.usedVirtual + region.size) }
  refine ⟨s₂.setSpace space (some counted), left ++ (node, region) :: right, ?_, machine, ⟨?_, ?_⟩, ?_, others⟩
  · simp only [SpaceLists.insertNode, SpaceLists.space_of live, walked, Result.ok_bind, behind, ahead,
      SpaceLists.space_of live₂]
    rfl
  · refine own.change (SpaceLists.setSpace_spaces spaces _) ?_ ?_ ?_ ?_ others
    · rw [firstPtr_append]
      rfl
    · refine (linked.congr nodes).link nodup ?_ relinked
      exact (rest node outside).trans (by rw [SpaceLists.setNode_nodes, if_pos rfl])
    · rw [List.map_append, List.map_cons]
      rw [List.map_append] at nodup outside
      exact (List.nodup_middle.mpr (List.nodup_cons.mpr ⟨outside, nodup⟩))
    · intro ptr member other differ inOther
      rw [List.map_append, List.map_cons, List.mem_append, List.mem_cons, or_left_comm, ← List.mem_append,
        ← List.map_append, ← split] at member
      rcases member with isNode | inList
      · rw [isNode] at inOther
        exact notMem other inOther
      · exact own.apart space other (Ne.symm differ) ptr inList inOther
  · refine ⟨_, SpaceLists.setSpace_spaces spaces _, ?_⟩
    simp only [counted, SpaceRecord.view, Space.record, inserted, List.map_append, List.map_cons]
  · intro ptr differ unused
    have notIn := own.notMem unused space
    rw [split] at notIn
    exact (kept ptr notIn differ).trans unused

/-- A node is taken out of the list of one space. -/
theorem RegionLists.removeNode (own : RegionLists s lists) (live : s.spaces space = some record)
    (split : lists space = left ++ (ptr, region) :: right) :
    ∃ s', s.removeNode space ptr ⟨lastPtr none left, firstPtr none right, region⟩ = .ok s' ∧ s'.machine = s.machine ∧
      Changed s s' lists space (left ++ right) { record.view (left ++ right) with
        regionCount := sub64 record.regionCount 1
        usedVirtual := sub64 record.usedVirtual region.size } := by
  have first := own.first space record live
  have linked := own.linked space
  have nodup := own.nodup space
  rw [split] at linked nodup first
  rw [firstPtr_append] at first
  have parts := nodup
  rw [List.map_append, List.map_cons, List.nodup_middle, ← List.map_append, List.nodup_cons] at parts
  obtain ⟨outside, nodupRest⟩ := parts
  let counted : SpaceRecord := { record with
    usedVirtual := sub64 record.usedVirtual region.size
    regionCount := sub64 record.regionCount 1 }
  have inList : ∀ query ∈ (left ++ right).map Prod.fst, query ∈ (lists space).map Prod.fst := by
    intro query member
    rw [split, List.map_append, List.map_cons, List.mem_append, List.mem_cons, or_left_comm, ← List.mem_append,
      ← List.map_append]
    exact Or.inr member
  have counting : (s.setSpace space (some counted)).spaces space = some counted := Function.update_self ..
  have present : ∀ query ∈ (left ++ right).map Prod.fst,
      ∃ entry, (s.setSpace space (some counted)).nodes query = some entry :=
    fun query member => Linked.present (own.linked space) (inList query member)
  obtain ⟨s₁, s₂, behind, ahead, machine, spaces, relinked, rest⟩ :=
    SpaceLists.linkAround (firstPtr none right) (lastPtr none left) counting first nodupRest present
  have spaces₂ : s₂.spaces =
      Function.update s.spaces space (some { counted with regions := firstPtr (firstPtr none right) left }) := spaces.trans (Function.update_idem ..)
  have kept : ∀ query, query ≠ ptr → (s₂.setNode ptr none).nodes query = s₂.nodes query := by
    intro query differ
    rw [SpaceLists.setNode_nodes, if_neg differ]
  refine ⟨s₂.setNode ptr none, ?_, machine, own.change spaces₂ firstPtr_append.symm ?_ nodupRest ?_ ?_, _, spaces₂, rfl⟩
  · simp only [SpaceLists.removeNode, SpaceLists.space_of live, Result.ok_bind]
    rw [behind, Result.ok_bind, ahead]
    rfl
  · refine (linked.unlink nodupRest relinked).congr ?_
    intro query member
    refine kept query fun same => ?_
    rw [same] at member
    exact outside member
  · intro query member other differ
    exact own.apart space other (Ne.symm differ) query (inList query member)
  · intro other differ query member
    have notIn := own.apart other space differ query member
    have differ' : query ≠ ptr := by
      intro same
      rw [split, List.map_append, List.map_cons, List.mem_append, List.mem_cons, not_or, not_or] at notIn
      exact notIn.2.1 same
    rw [kept query differ']
    exact rest query fun inRest => notIn (inList query inRest)

/-- One region gets new fields. -/
theorem RegionLists.setRegion (own : RegionLists s lists) (live : s.spaces space = some record)
    (split : lists space = left ++ (ptr, region) :: right) (region' : Region) :
    Changed s (s.setNode ptr (some ⟨lastPtr none left, firstPtr none right, region'⟩)) lists space
      (left ++ (ptr, region') :: right) (record.view (left ++ (ptr, region') :: right)) := by
  have first := own.first space record live
  have linked := own.linked space
  have nodup := own.nodup space
  have samePtrs : (left ++ (ptr, region') :: right).map Prod.fst = (lists space).map Prod.fst := by
    rw [split, List.map_append, List.map_append]
    rfl
  have inList : ptr ∈ (lists space).map Prod.fst := by
    rw [split, List.map_append]
    exact List.mem_append_right _ List.mem_cons_self
  have spaces : s.spaces = Function.update s.spaces space (some record) := by rw [← live, Function.update_eq_self]
  rw [split] at linked first
  refine ⟨own.change spaces ?_ ?_ ?_ ?_ ?_, record, spaces, rfl⟩
  · rw [first]
    exact firstPtr_middle
  · refine linked.setValue ?_ ?_
    · rw [SpaceLists.setNode_nodes, if_pos rfl]
    · intro other member
      rw [split, List.map_append, List.map_cons, List.nodup_middle, ← List.map_append, List.nodup_cons] at nodup
      rw [SpaceLists.setNode_nodes, if_neg]
      intro same
      rw [same] at member
      exact nodup.1 member
  · rw [samePtrs]
    exact nodup
  · rw [samePtrs]
    exact fun query member other differ => own.apart space other (Ne.symm differ) query member
  · intro other differ query member
    rw [SpaceLists.setNode_nodes, if_neg]
    intro same
    rw [same] at member
    exact own.apart other space differ ptr member inList

end

end DoccrOS.Mem
