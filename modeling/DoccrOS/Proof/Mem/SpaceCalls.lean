import DoccrOS.Proof.Mem.ListedSpaces
import DoccrOS.Proof.Mem.SpaceRegions

namespace DoccrOS.Mem
open Lib

/-- A call does on the nodes what a call of the list model does on one space. -/
def Follows (s : SpaceLists) (lists : SpacePtr → List (HeapPtr × Region)) (space : SpacePtr) (call : Result SpaceLists)
    (onList : Result (Machine × Space)) : Prop :=
  match onList with
  | .error halt => call = .error halt
  | .ok (m, after) => ∃ s' list', call = .ok s' ∧ s'.machine = m ∧ Changed s s' lists space list' after

section
variable {s s' : SpaceLists} {lists : SpacePtr → List (HeapPtr × Region)} {space : SpacePtr} {record : SpaceRecord}
  {list list' : List (HeapPtr × Region)} {ptr : HeapPtr} {node : Option HeapPtr} {m : Machine} {value after : Space}

/-- A call that touches neither the nodes nor the records. -/
theorem RegionLists.same (own : RegionLists s lists) (live : s.spaces space = some record) (m : Machine) :
    Changed s (s.setMachine m) lists space (lists space) (record.view (lists space)) := by
  constructor
  · rw [Function.update_eq_self]
    exact own.congr rfl rfl
  · refine ⟨record, ?_, rfl⟩
    rw [← live, Function.update_eq_self]
    rfl

theorem Follows.same (own : RegionLists s lists) (live : s.spaces space = some record) (m : Machine) :
    Follows s lists space (.ok (s.setMachine m)) (.ok (m, record.view (lists space))) :=
  ⟨_, _, rfl, rfl, own.same live m⟩

/-- The end of a call that records a region. -/
theorem Follows.insert (own : RegionLists s lists) (live : s.spaces space = some record) (new : s.nodes ptr = none)
    (m : Machine) (region : Region) :
    Follows s lists space ((s.setMachine m).insertNode space ptr region)
      (.ok (m, (record.view (lists space)).record region)) := by
  have own' : RegionLists (s.setMachine m) lists := own.congr rfl rfl
  obtain ⟨s', list', inserted, machine, changed, _⟩ := own'.insertNode live new region
  exact ⟨s', list', inserted, machine, changed.lists, changed.spaces⟩

/-- `vmm_space_alloc` on the nodes follows `vmm_space_alloc` on the list. -/
theorem spaceAllocAt_follows (own : RegionLists s lists) (live : s.spaces space = some record)
    (new : ∀ ptr, node = some ptr → s.nodes ptr = none) (vaddr pageCount : Nat) (flags : BitVec 32) :
    Follows s lists space ((spaceAllocAt s space vaddr pageCount flags node).map Prod.snd)
      ((vmmSpaceAlloc s.machine (record.view (lists space)) vaddr pageCount flags node.isSome).map Prod.snd) := by
  unfold spaceAllocAt vmmSpaceAlloc
  by_cases zero : pageCount = 0
  · rw [if_pos zero, if_pos zero]
    exact Follows.same own live s.machine
  · rw [if_neg zero, if_neg zero]
    cases node with
    | none => exact Follows.same own live s.machine
    | some ptr =>
        simp only [SpaceLists.space_of live, Result.ok_bind, Option.isSome_some, Bool.not_true, Bool.false_eq_true, if_false,
          SpaceRecord.view]
        cases vmmSpaceAllocPages record.pml4Phys (pageAlignDown vaddr) (flagsToPte flags) pageCount 0 s.machine with
        | error halt => rfl
        | ok result =>
            obtain ⟨failed, m⟩ := result
            cases failed with
            | some i => exact Follows.same own live (vmmSpaceAllocUndo record.pml4Phys (pageAlignDown vaddr) i m)
            | none =>
                obtain ⟨s', list', inserted, recorded⟩ := Follows.insert own live (new ptr rfl) m
                  ⟨pageAlignDown vaddr, wrap64 (pageCount * pageSize), vmmRegionUsed ||| flags⟩
                refine ⟨s', list', ?_, recorded⟩
                simp only [Result.ok_bind, inserted]
                rfl

/-- `vmm_map_phys` on the nodes follows `vmm_map_phys` on the list. -/
theorem mapPhysAt_follows (own : RegionLists s lists) (live : s.spaces space = some record)
    (new : ∀ ptr, node = some ptr → s.nodes ptr = none) (vaddr physAddr pageCount : Nat) (flags : BitVec 32) :
    Follows s lists space ((mapPhysAt s space vaddr physAddr pageCount flags node).map Prod.snd)
      ((vmmMapPhys s.machine (record.view (lists space)) vaddr physAddr pageCount flags node.isSome).map Prod.snd) := by
  unfold mapPhysAt vmmMapPhys
  by_cases zero : pageCount = 0
  · rw [if_pos zero, if_pos zero]
    exact Follows.same own live s.machine
  · rw [if_neg zero, if_neg zero]
    cases node with
    | none => exact Follows.same own live s.machine
    | some ptr =>
        simp only [SpaceLists.space_of live, Result.ok_bind, Option.isSome_some, Bool.not_true, Bool.false_eq_true, if_false,
          SpaceRecord.view]
        cases vmmMapPhysPages record.pml4Phys (pageAlignDown vaddr) (pageAlignDown physAddr) (flagsToPte flags) pageCount
          s.machine with
        | error halt => rfl
        | ok m =>
            obtain ⟨s', list', inserted, recorded⟩ := Follows.insert own live (new ptr rfl) m
              ⟨pageAlignDown vaddr, wrap64 (pageCount * pageSize), vmmRegionUsed ||| vmmRegionMmio ||| flags⟩
            refine ⟨s', list', ?_, recorded⟩
            simp only [Result.ok_bind, inserted]
            rfl

/-- The walk from the first node of a space finds the first region that passes the test. -/
theorem RegionLists.find (own : RegionLists s lists) (live : s.spaces space = some record) (test : Region → Bool) :
    s.find test record.regions = .ok (((lists space).find? fun pair => test pair.2).map Prod.fst) := by
  rw [SpaceLists.find, own.first space record live, (own.linked space).seek test (own.length_le space)]

/-- `vmm_space_free` takes the first matching node out of the list. -/
theorem spaceFreeAt_spec (own : RegionLists s lists) (live : s.spaces space = some record) {vaddr : Nat}
    (nonzero : vaddr ≠ 0) :
    ∃ s', spaceFreeAt s space vaddr = .ok s' ∧ s'.machine = (vmmSpaceFree s.machine (record.view (lists space)) vaddr).1 ∧
      Changed s s' lists space ((lists space).eraseP fun pair => pair.2.matches vaddr)
        (vmmSpaceFree s.machine (record.view (lists space)) vaddr).2 := by
  have shown : ((record.view (lists space)).regions.find? fun region => region.matches vaddr) =
      ((lists space).find? fun pair => pair.2.matches vaddr).map Prod.snd := List.find?_map ..
  have erased : ((record.view (lists space)).regions.eraseP fun region => region.matches vaddr) =
      ((lists space).eraseP fun pair => pair.2.matches vaddr).map Prod.snd := List.eraseP_map ..
  unfold spaceFreeAt vmmSpaceFree
  rw [if_neg nonzero, if_neg nonzero, SpaceLists.space_of live, Result.ok_bind, own.find live, Result.ok_bind, shown, erased]
  cases found : (lists space).find? fun pair => pair.2.matches vaddr with
  | none =>
      rw [List.eraseP_of_forall_not (List.find?_eq_none.mp found)]
      exact ⟨s, rfl, rfl, own.same live s.machine⟩
  | some pair =>
      obtain ⟨ptr, region⟩ := pair
      obtain ⟨left, right, split, erased'⟩ := find?_split found
      rw [erased']
      have linked := own.linked space
      rw [split] at linked
      let m := (List.range (region.size / pageSize)).foldl (fun m i => vmmSpaceFreePage m record.pml4Phys
        (wrap64 (vaddr + i * pageSize)) (hasFlag region.flags vmmRegionMmio)) s.machine
      have own' : RegionLists (s.setMachine m) lists := own.congr rfl rfl
      obtain ⟨s', removed, machine, changed⟩ := own'.removeNode live split
      refine ⟨s', ?_, machine, changed.lists, changed.spaces⟩
      simp only [Option.map_some, SpaceLists.node_of linked.node, Result.ok_bind]
      exact removed

/-- `vmm_space_free` on the nodes follows `vmm_space_free` on the list. -/
theorem spaceFreeAt_follows (own : RegionLists s lists) (live : s.spaces space = some record) (vaddr : Nat) :
    Follows s lists space (spaceFreeAt s space vaddr) (.ok (vmmSpaceFree s.machine (record.view (lists space)) vaddr)) := by
  by_cases zero : vaddr = 0
  · rw [spaceFreeAt, vmmSpaceFree, if_pos zero, if_pos zero]
    exact Follows.same own live s.machine
  · obtain ⟨s', freed, machine, changed⟩ := spaceFreeAt_spec own live zero
    exact ⟨s', _, freed, machine, changed⟩

/-- A second call on the same space continues the first one. -/
theorem Follows.trans {middle : SpaceLists} {call : Result SpaceLists} {onList : Result (Machine × Space)}
    (first : Changed s middle lists space list value)
    (second : Follows middle (Function.update lists space list) space call onList) : Follows s lists space call onList := by
  cases onList with
  | error halt => exact second
  | ok result =>
      obtain ⟨s', list', returned, machine, changed⟩ := second
      obtain ⟨record₁, spaces₁, _⟩ := first.spaces
      obtain ⟨record₂, spaces₂, shown⟩ := changed.spaces
      have lists' := changed.lists
      rw [Function.update_idem] at lists'
      refine ⟨s', list', returned, machine, lists', record₂, ?_, shown⟩
      rw [spaces₂, spaces₁, Function.update_idem]

/-- The record of a space after a call. -/
theorem Changed.live (changed : Changed s s' lists space list' after) :
    ∃ record, s'.spaces space = some record ∧ record.view (Function.update lists space list' space) = after := by
  obtain ⟨record, spaces, shown⟩ := changed.spaces
  refine ⟨record, ?_, ?_⟩
  · rw [spaces, Function.update_self]
  · rw [Function.update_self]
    exact shown

/-- The loop of `vmm_space_destroy` on the nodes follows the loop on the list. -/
theorem spaceDestroyLoop_follows (own : RegionLists s lists) (live : s.spaces space = some record) (fuel : Nat) :
    Follows s lists space (spaceDestroyLoop space fuel s)
      (vmmSpaceDestroyLoop fuel s.machine (record.view (lists space))) := by
  induction fuel generalizing s lists record with
  | zero => rfl
  | succ fuel inductionHypothesis =>
      have first := own.first space record live
      have linked := own.linked space
      have freed := spaceFreeAt_follows own live
      rw [spaceDestroyLoop, vmmSpaceDestroyLoop, SpaceLists.space_of live, Result.ok_bind, first]
      cases shape : lists space with
      | nil =>
          rw [← shape]
          have stays := Follows.same own live s.machine
          rw [SpaceRecord.view, shape] at stays ⊢
          exact stays
      | cons pair rest =>
          obtain ⟨ptr, region⟩ := pair
          rw [shape] at linked freed
          obtain ⟨s', list', returned, machine, changed⟩ := freed region.base
          obtain ⟨record', live', shown⟩ := changed.live
          have next := inductionHypothesis changed.lists live'
          rw [machine, shown] at next
          rw [firstPtr_cons]
          simp only [SpaceLists.node_of (linked_cons.mp linked).1, Result.ok_bind, returned]
          exact Follows.trans changed next

/-- The flags of the first region that holds an address change. -/
theorem setFoundFlags_split {left right : List Region} {region : Region} {vaddr : Nat} (flags : BitVec 32)
    (before : ∀ cur ∈ left, cur.holds vaddr = false) (holds : region.holds vaddr = true) :
    setFoundFlags vaddr flags (left ++ region :: right) = left ++ { region with flags := flags } :: right := by
  induction left with
  | nil => exact if_pos holds
  | cons cur left inductionHypothesis =>
      rw [List.forall_mem_cons] at before
      rw [List.cons_append, setFoundFlags, if_neg (by rw [before.1]; exact Bool.false_ne_true), inductionHypothesis before.2]
      rfl

/-- A call that changed one region. -/
theorem Follows.setRegion {left right : List (HeapPtr × Region)} {region : Region} (own : RegionLists s lists)
    (live : s.spaces space = some record) (split : lists space = left ++ (ptr, region) :: right) (region' : Region)
    (m : Machine) :
    Follows s lists space
      (.ok ((s.setNode ptr (some ⟨lastPtr none left, firstPtr none right, region'⟩)).setMachine m))
      (.ok (m, record.view (left ++ (ptr, region') :: right))) := by
  have changed := own.setRegion live split region'
  exact ⟨_, _, rfl, rfl, changed.lists.congr rfl rfl, changed.spaces⟩

/-- The tail of `vmm_cow_break` stores the new flags on every path that returns. -/
theorem cowBreakPageAt_follows (value : Space) {entry : Node HeapPtr Region} {faultAddr : Nat} (oldPhys : Nat)
    (changed : ∀ m, Follows s lists space
      (.ok ((s.setNode ptr (some { entry with
        value := { entry.value with flags := brokenFlags entry.value.flags } })).setMachine m))
      (.ok (m, { value with regions := setFoundFlags faultAddr (brokenFlags entry.value.flags) value.regions }))) :
    Follows s lists space (cowBreakPageAt s value.pml4Phys ptr entry faultAddr oldPhys)
      (vmmCowBreakPage s.machine value entry.value faultAddr oldPhys) := by
  unfold cowBreakPageAt vmmCowBreakPage
  by_cases last : (physmemFrameRcDecAndGet s.machine.phys oldPhys).1 = 0
  · simp only [if_pos last]
    cases pagingMapPageIn _ value.pml4Phys faultAddr oldPhys (flagsToPte (brokenFlags entry.value.flags)) with
    | error halt => rfl
    | ok m => exact changed m
  · simp only [if_neg last]
    by_cases full : (physmemAllocTo (physmemFrameRcDecAndGet s.machine.phys oldPhys).2 1).1 = 0
    · simp only [if_pos full]
      rfl
    · simp only [if_neg full]
      cases pagingMapPageIn _ value.pml4Phys faultAddr _ (flagsToPte (brokenFlags entry.value.flags)) with
      | error halt => rfl
      | ok m => exact changed m

/-- `vmm_cow_break` on the nodes follows `vmm_cow_break` on the list. -/
theorem cowBreakAt_follows (own : RegionLists s lists) (live : s.spaces space = some record) (faultAddr : Nat) :
    Follows s lists space (cowBreakAt s space faultAddr) (vmmCowBreak s.machine (record.view (lists space)) faultAddr) := by
  have shown : vmmSpaceFind (record.view (lists space)) (pageAlignDown faultAddr) =
      ((lists space).find? fun pair => pair.2.holds (pageAlignDown faultAddr)).map Prod.snd := List.find?_map ..
  unfold cowBreakAt vmmCowBreak
  simp only [SpaceLists.space_of live, Result.ok_bind, own.find live, shown]
  cases found : (lists space).find? fun pair => pair.2.holds (pageAlignDown faultAddr) with
  | none => exact Follows.same own live s.machine
  | some pair =>
      obtain ⟨ptr, region⟩ := pair
      obtain ⟨holds, left, right, split, before⟩ := List.find?_eq_some_iff_append.mp found
      have linked := own.linked space
      rw [split] at linked
      have root : (record.view (lists space)).pml4Phys = record.pml4Phys := rfl
      simp only [Option.map_some, SpaceLists.node_of linked.node, Result.ok_bind, root]
      cases shared : hasFlag region.flags vmmRegionCow with
      | false => exact Follows.same own live s.machine
      | true =>
          simp only [Bool.not_true, Bool.false_eq_true, if_false]
          cases s.machine.findPte record.pml4Phys (pageAlignDown faultAddr) with
          | none => exact Follows.same own live s.machine
          | some pte =>
              refine cowBreakPageAt_follows (record.view (lists space)) (entryAddr pte) fun m => ?_
              have changed := Follows.setRegion own live split { region with flags := brokenFlags region.flags } m
              have written : setFoundFlags (pageAlignDown faultAddr) (brokenFlags region.flags)
                  (record.view (lists space)).regions =
                  (left ++ (ptr, { region with flags := brokenFlags region.flags }) :: right).map Prod.snd := by
                rw [SpaceRecord.view, split, List.map_append, List.map_append, List.map_cons, List.map_cons]
                refine setFoundFlags_split _ ?_ holds
                intro cur member
                obtain ⟨pair, inLeft, isCur⟩ := List.mem_map.mp member
                rw [← isCur]
                simpa using before pair inLeft
              rw [written]
              exact changed

/-- `vmm_space_create` adds a space without regions. -/
theorem spaceCreateAt_follows (own : RegionLists s lists)
    (new : ∀ fresh, node = some fresh → s.spaces (.heap fresh) = none) :
    match vmmSpaceCreate s.machine node.isSome with
    | (none, m) => spaceCreateAt s node = (none, s.setMachine m)
    | (some value, m) => ∃ fresh s', node = some fresh ∧ spaceCreateAt s node = (some (.heap fresh), s') ∧ s'.machine = m ∧
        s'.nodes = s.nodes ∧ Changed s s' lists (.heap fresh) [] value := by
  cases created : vmmSpaceCreate s.machine node.isSome with
  | mk made m =>
      cases node with
      | none =>
          rw [Option.isSome_none] at created
          cases created
          rfl
      | some fresh =>
          rw [Option.isSome_some] at created
          cases made with
          | none =>
              simp only [spaceCreateAt, Option.isSome_some, created]
          | some value =>
              have empty := vmmSpaceCreate_regions created
              let record : SpaceRecord := ⟨value.pml4Phys, none, value.regionCount, value.usedVirtual⟩
              refine ⟨fresh, (s.setMachine m).setSpace (.heap fresh) (some record), rfl, ?_, rfl, rfl, ?_, record, rfl, ?_⟩
              · simp only [spaceCreateAt, Option.isSome_some, created]
                rfl
              · refine own.change rfl rfl ?_ List.nodup_nil nofun fun other _ ptr _ => rfl
                exact trivial
              · rw [SpaceRecord.view, List.map_nil, ← empty]

/-- A dead space has no list. -/
theorem RegionLists.forget (own : RegionLists s lists) (empty : lists space = []) :
    RegionLists (s.setSpace space none) lists := by
  refine ⟨?_, own.linked, own.nodup, own.apart, ?_⟩
  · intro query record live
    rw [SpaceLists.setSpace_at] at live
    split at live
    · cases live
    · exact own.first query record live
  · intro query dead
    rw [SpaceLists.setSpace_at] at dead
    split at dead
    · rename_i same
      rw [same]
      exact empty
    · exact own.dead query dead

/-- `vmm_space_destroy` on the nodes follows `vmm_space_destroy` on the list. -/
theorem spaceDestroyAt_follows (own : RegionLists s lists) (live : s.spaces space = some record)
    (listed : (record.view (lists space)).Listed) (onHeap : space ≠ .kernel) :
    match vmmSpaceDestroy s.machine (record.view (lists space)) with
    | .error halt => spaceDestroyAt s space = .error halt
    | .ok m => ∃ s', spaceDestroyAt s space = .ok s' ∧ s'.machine = m ∧ s'.spaces = Function.update s.spaces space none ∧
        RegionLists s' (Function.update lists space []) := by
  have length := own.length_le space
  have sameLoop : vmmSpaceDestroyLoop (heapSize + 1) s.machine (record.view (lists space)) =
      vmmSpaceDestroyLoop ((record.view (lists space)).regions.length + 1) s.machine (record.view (lists space)) := by
    refine listed.destroyLoop ?_ (Nat.lt_succ_self _)
    rw [SpaceRecord.view, List.length_map]
    exact Nat.lt_succ_of_le length
  have follows := spaceDestroyLoop_follows own live (heapSize + 1)
  rw [sameLoop] at follows
  unfold spaceDestroyAt vmmSpaceDestroy
  rw [if_neg onHeap]
  cases returned : vmmSpaceDestroyLoop ((record.view (lists space)).regions.length + 1) s.machine
      (record.view (lists space)) with
  | error halt =>
      rw [returned] at follows
      rw [show spaceDestroyLoop space (heapSize + 1) s = .error halt from follows]
      rfl
  | ok result =>
      obtain ⟨m, after⟩ := result
      rw [returned] at follows
      obtain ⟨s₁, list', looped, machine, changed⟩ := follows
      obtain ⟨record', spaces, shown⟩ := changed.spaces
      have live' : s₁.spaces space = some record' := by rw [spaces, Function.update_self]
      have empty : list' = [] := by
        have none := vmmSpaceDestroyLoop_empty returned
        rw [← shown] at none
        exact List.map_eq_nil_iff.mp none
      have root : after.pml4Phys = record'.pml4Phys := by rw [← shown]; rfl
      have lists' := changed.lists
      rw [empty] at lists'
      have spaces' : Function.update s₁.spaces space none = Function.update s.spaces space none := by
        rw [spaces, Function.update_idem]
      simp only [looped, Result.ok_bind, SpaceLists.space_of live', root, machine]
      by_cases nonzero : record'.pml4Phys ≠ 0
      · simp only [if_pos nonzero]
        exact ⟨_, rfl, rfl, spaces', RegionLists.forget (lists'.congr rfl rfl) (Function.update_self ..)⟩
      · simp only [if_neg nonzero]
        exact ⟨_, rfl, rfl, spaces', RegionLists.forget (lists'.congr rfl rfl) (Function.update_self ..)⟩

end

end DoccrOS.Mem
