import DoccrOS.Proof.Mem.SpaceClones

namespace DoccrOS.Mem
open Lib

/-- The list of a space record is in order: it is sorted, `prev` is the inverse of `next`, all regions are used, and the
counters are exact. -/
structure RegionsInOrder (s : SpaceLists) (record : SpaceRecord) (list : List (HeapPtr × Region)) : Prop where
  sorted : list.Pairwise fun first second => first.2.base ≤ second.2.base
  inverse : ∀ ptr ∈ list.map Prod.fst, ∀ other ∈ list.map Prod.fst,
    ((s.nodes ptr).bind Node.next = some other ↔ (s.nodes other).bind Node.prev = some ptr)
  used : ∀ pair ∈ list, hasFlag pair.2.flags vmmRegionUsed = true
  count : record.regionCount = list.length
  total : record.usedVirtual = (list.map fun pair => pair.2.size).sum % 2 ^ 64

/-- The lists of all live spaces are in order. -/
structure SpacesInv (s : SpaceLists) (lists : SpacePtr → List (HeapPtr × Region)) : Prop where
  own : RegionLists s lists
  listed : ∀ space record, s.spaces space = some record → (record.view (lists space)).Listed

section
variable {s s' : SpaceLists} {lists lists' : SpacePtr → List (HeapPtr × Region)} {space src dst : SpacePtr}
  {record : SpaceRecord} {list' : List (HeapPtr × Region)} {after srcAfter dstAfter : Space} {m : Machine}

theorem SpacesInv.inOrder (inv : SpacesInv s lists) (live : s.spaces space = some record) :
    RegionsInOrder s record (lists space) := by
  have listed := inv.listed space record live
  refine ⟨?_, ?_, ?_, ?_, ?_⟩
  · have sorted : ((lists space).map Prod.snd).Pairwise fun first second => first.base ≤ second.base := listed.sorted
    rw [List.pairwise_map] at sorted
    exact sorted
  · intro ptr member other member'
    exact (inv.own.linked space).inverse member member'
  · intro pair member
    exact (listed.recorded pair.2 (List.mem_map_of_mem member)).1
  · have count := listed.count
    have length := inv.own.length_le space
    simp only [SpaceRecord.view, List.length_map] at count
    rw [count, wrap64_of_lt]
    exact Nat.lt_of_le_of_lt length (by decide)
  · have total := listed.total
    simp only [SpaceRecord.view, totalSize, List.map_map] at total
    exact total

theorem SpacesInv.init (m : Machine) : SpacesInv (spaceListsInit m) fun _ => [] := by
  refine ⟨⟨?_, fun _ => trivial, fun _ => List.nodup_nil, fun _ _ _ _ => nofun, fun _ _ => rfl⟩, ?_⟩
  · intro space record live
    simp only [spaceListsInit] at live
    split at live
    · cases live
      rfl
    · cases live
  · intro space record live
    simp only [spaceListsInit] at live
    split at live
    · cases live
      exact ⟨List.Pairwise.nil, nofun, rfl, rfl⟩
    · cases live

theorem SpacesInv.changed (inv : SpacesInv s lists) (changed : Changed s s' lists space list' after)
    (listed : after.Listed) : SpacesInv s' (Function.update lists space list') := by
  obtain ⟨record, spaces, shown⟩ := changed.spaces
  refine ⟨changed.lists, ?_⟩
  intro other otherRecord live
  rw [spaces] at live
  by_cases same : other = space
  · rw [same, Function.update_self] at live ⊢
    injection live with isRecord
    rw [← isRecord, shown]
    exact listed
  · rw [Function.update_of_ne same] at live ⊢
    exact inv.listed other otherRecord live

theorem SpacesInv.changedPair (inv : SpacesInv s lists) (changed : ChangedPair s s' lists lists' src dst srcAfter dstAfter)
    (listed : srcAfter.Listed) (listedDst : dstAfter.Listed) : SpacesInv s' lists' := by
  obtain ⟨srcRecord, liveSrc, shownSrc⟩ := changed.source
  obtain ⟨dstRecord, liveDst, shownDst⟩ := changed.clone
  refine ⟨changed.own, ?_⟩
  intro other otherRecord live
  by_cases isSrc : other = src
  · rw [isSrc, liveSrc] at live
    injection live with isRecord
    rw [isSrc, ← isRecord, shownSrc]
    exact listed
  · by_cases isDst : other = dst
    · rw [isDst, liveDst] at live
      injection live with isRecord
      rw [isDst, ← isRecord, shownDst]
      exact listedDst
    · obtain ⟨sameSpace, sameList⟩ := changed.others other isSrc isDst
      rw [sameSpace] at live
      rw [sameList]
      exact inv.listed other otherRecord live

/-- A call that follows the list model keeps the lists in order if its list call does. -/
theorem SpacesInv.follows {call : Result SpaceLists} {onList : Result (Machine × Space)} (inv : SpacesInv s lists)
    (follows : Follows s lists space call onList) (returned : call = .ok s')
    (kept : ∀ m after, onList = .ok (m, after) → after.Listed) : ∃ lists', SpacesInv s' lists' := by
  cases onList with
  | error halt =>
      rw [show call = .error halt from follows] at returned
      cases returned
  | ok result =>
      obtain ⟨s₁, list', called, _, changed⟩ := follows
      rw [called] at returned
      injection returned with same
      rw [← same]
      exact ⟨_, inv.changed changed (kept _ _ rfl)⟩

theorem SpacesInv.create {ptr : Option HeapPtr} (inv : SpacesInv s lists)
    (new : ∀ fresh, ptr = some fresh → s.spaces (.heap fresh) = none) :
    ∃ lists', SpacesInv (spaceCreateAt s ptr).2 lists' := by
  have created := spaceCreateAt_follows inv.own new
  cases made : vmmSpaceCreate s.machine ptr.isSome with
  | mk value m =>
      rw [made] at created
      cases value with
      | none =>
          rw [show spaceCreateAt s ptr = (none, s.setMachine m) from created]
          exact ⟨lists, inv.own.congr rfl rfl, inv.listed⟩
      | some value =>
          obtain ⟨fresh, s₁, _, createdAt, _, _, changed⟩ := created
          rw [createdAt]
          exact ⟨_, inv.changed changed (Space.Listed.create made)⟩

theorem SpacesInv.destroy (inv : SpacesInv s lists) (live : s.spaces space = some record)
    (returned : spaceDestroyAt s space = .ok s') : ∃ lists', SpacesInv s' lists' := by
  by_cases isKernel : space = .kernel
  · rw [spaceDestroyAt, if_pos isKernel] at returned
    injection returned with same
    rw [← same]
    exact ⟨lists, inv⟩
  · have follows := spaceDestroyAt_follows inv.own live (inv.listed space record live) isKernel
    cases destroyed : vmmSpaceDestroy s.machine (record.view (lists space)) with
    | error halt =>
        rw [destroyed] at follows
        rw [show spaceDestroyAt s space = .error halt from follows] at returned
        cases returned
    | ok m =>
        rw [destroyed] at follows
        obtain ⟨s₁, destroyedAt, _, spaces, own⟩ := follows
        rw [destroyedAt] at returned
        injection returned with same
        rw [← same]
        refine ⟨_, own, ?_⟩
        intro other otherRecord otherLive
        rw [spaces] at otherLive
        by_cases isSpace : other = space
        · rw [isSpace, Function.update_self] at otherLive
          cases otherLive
        · rw [Function.update_of_ne isSpace] at otherLive ⊢
          exact inv.listed other otherRecord otherLive

theorem SpacesInv.clone {ptr : Option HeapPtr} {nodes : Nat → Option HeapPtr} {result : Option SpacePtr}
    (inv : SpacesInv s lists) (live : s.spaces src = some record)
    (newSpace : ∀ fresh, ptr = some fresh → s.spaces (.heap fresh) = none) (new : NewNodes s nodes 0)
    (returned : cloneSpaceAt s src ptr nodes = .ok (result, s')) : ∃ lists', SpacesInv s' lists' := by
  have listed := inv.listed src record live
  have follows := cloneSpaceAt_follows inv.own live listed newSpace new
  cases cloned : vmmCloneSpace s.machine (record.view (lists src)) ptr.isSome (fun i => (nodes i).isSome) with
  | error halt =>
      rw [cloned] at follows
      rw [show cloneSpaceAt s src ptr nodes = .error halt from follows] at returned
      cases returned
  | ok outcome =>
      obtain ⟨clone, m, srcAfter⟩ := outcome
      obtain ⟨listedSrc, listedClone⟩ := listed.cloneSpace cloned
      rw [cloned] at follows
      cases clone with
      | none =>
          obtain ⟨s₁, list', clonedAt, _, changed⟩ := follows
          rw [clonedAt] at returned
          cases returned
          exact ⟨_, inv.changed changed listedSrc⟩
      | some dstAfter =>
          obtain ⟨fresh, s₁, lists₁, _, clonedAt, _, changed⟩ := follows
          rw [clonedAt] at returned
          cases returned
          exact ⟨_, inv.changedPair changed listedSrc (listedClone dstAfter rfl)⟩

theorem SpaceLists.new_spec {ptr : Option HeapPtr} (fresh : ptr.all s.isNew = true) :
    ∀ new, ptr = some new → s.nodes new = none ∧ s.spaces (.heap new) = none := by
  intro new isNew
  rw [isNew, Option.all_some, SpaceLists.isNew, Bool.and_eq_true, Option.isNone_iff_eq_none,
    Option.isNone_iff_eq_none] at fresh
  exact fresh

theorem SpaceLists.live_spec (live : s.isLive (some space) = true) : ∃ record, s.spaces space = some record :=
  Option.isSome_iff_exists.mp live

/-- The nodes that a clone gets are distinct and not in use. -/
theorem NewNodes.of_list {nodes : List HeapPtr} (fresh : ∀ new ∈ nodes, s.isNew new = true) (nodup : nodes.Nodup) :
    NewNodes s (fun i => nodes[i]?) 0 := by
  intro j new _ isNew
  obtain ⟨inside, atIndex⟩ := List.getElem?_eq_some_iff.mp isNew
  refine ⟨?_, ?_⟩
  · have unused := fresh new (atIndex ▸ List.getElem_mem inside)
    rw [SpaceLists.isNew, Bool.and_eq_true] at unused
    exact Option.isNone_iff_eq_none.mp unused.1
  · intro k again
    exact (List.getElem?_inj inside nodup).mp (isNew.trans again.symm)

/-- A step keeps the lists of all spaces in order. -/
theorem SpacesInv.step {op : SpaceOp} (inv : SpacesInv s lists) (allowed : s.allowed op = true)
    (returned : s.step op = .ok s') : ∃ lists', SpacesInv s' lists' := by
  have stays (same : (.ok s : Result SpaceLists) = .ok s') : ∃ lists', SpacesInv s' lists' := by
    injection same with same
    rw [← same]
    exact ⟨lists, inv⟩
  cases op with
  | create ptr =>
      cases returned
      exact inv.create fun fresh isFresh => (SpaceLists.new_spec allowed fresh isFresh).2
  | alloc space vaddr pageCount flags node =>
      rw [SpaceLists.allowed, Bool.and_eq_true] at allowed
      cases space with
      | none => exact stays returned
      | some space =>
          obtain ⟨record, live⟩ := SpaceLists.live_spec allowed.1
          have new (fresh : HeapPtr) (isFresh : node = some fresh) := (SpaceLists.new_spec allowed.2 fresh isFresh).1
          refine inv.follows (spaceAllocAt_follows inv.own live new vaddr pageCount flags) returned ?_
          intro m after onList
          obtain ⟨⟨value, result⟩, call, isResult⟩ := Result.map_ok onList
          cases isResult
          exact (inv.listed space record live).alloc call
  | mapPhys space vaddr physAddr pageCount flags node =>
      rw [SpaceLists.allowed, Bool.and_eq_true] at allowed
      cases space with
      | none => exact stays returned
      | some space =>
          obtain ⟨record, live⟩ := SpaceLists.live_spec allowed.1
          have new (fresh : HeapPtr) (isFresh : node = some fresh) := (SpaceLists.new_spec allowed.2 fresh isFresh).1
          refine inv.follows (mapPhysAt_follows inv.own live new vaddr physAddr pageCount flags) returned ?_
          intro m after onList
          obtain ⟨⟨value, result⟩, call, isResult⟩ := Result.map_ok onList
          cases isResult
          exact (inv.listed space record live).mapPhys call
  | free space vaddr =>
      cases space with
      | none => exact stays returned
      | some space =>
          obtain ⟨record, live⟩ := SpaceLists.live_spec allowed
          refine inv.follows (spaceFreeAt_follows inv.own live vaddr) returned ?_
          intro m after onList
          have listed := (inv.listed space record live).free s.machine vaddr
          rw [Except.ok.inj onList] at listed
          exact listed
  | clone src ptr nodes =>
      simp only [SpaceLists.allowed, Bool.and_eq_true, List.all_eq_true, decide_eq_true_eq] at allowed
      obtain ⟨⟨⟨isLive, newPtr⟩, newNodes⟩, nodup⟩ := allowed
      cases src with
      | none => exact stays returned
      | some src =>
          obtain ⟨record, live⟩ := SpaceLists.live_spec isLive
          obtain ⟨⟨result, s₁⟩, cloned, same⟩ := Result.map_ok returned
          cases same
          exact inv.clone live (fun fresh isFresh => (SpaceLists.new_spec newPtr fresh isFresh).2)
            (NewNodes.of_list (fun new member => (newNodes new member).1) nodup) cloned
  | destroy space =>
      cases space with
      | none => exact stays returned
      | some space =>
          obtain ⟨record, live⟩ := SpaceLists.live_spec allowed
          exact inv.destroy live returned
  | cowBreak space faultAddr =>
      cases space with
      | none => exact stays returned
      | some space =>
          obtain ⟨record, live⟩ := SpaceLists.live_spec allowed
          refine inv.follows (cowBreakAt_follows inv.own live faultAddr) returned ?_
          intro m after broken
          exact (inv.listed space record live).cowBreak broken

end

end DoccrOS.Mem
