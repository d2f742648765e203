import DoccrOS.Proof.Mem.SpaceCalls

namespace DoccrOS.Mem
open Lib

/-- A call changed two spaces, which are `srcAfter` and `dstAfter` now. -/
structure ChangedPair (s s' : SpaceLists) (lists lists' : SpacePtr → List (HeapPtr × Region)) (src dst : SpacePtr)
    (srcAfter dstAfter : Space) : Prop where
  own : RegionLists s' lists'
  source : ∃ record, s'.spaces src = some record ∧ record.view (lists' src) = srcAfter
  clone : ∃ record, s'.spaces dst = some record ∧ record.view (lists' dst) = dstAfter
  others : ∀ other, other ≠ src → other ≠ dst → s'.spaces other = s.spaces other ∧ lists' other = lists other

/-- A loop does on the nodes what a loop of the list model does on a source and its clone. -/
def FollowsPair (s : SpaceLists) (lists : SpacePtr → List (HeapPtr × Region)) (src dst : SpacePtr)
    (call : Result (Bool × SpaceLists)) (onList : Result (Bool × Machine × Space × Space)) : Prop :=
  match onList with
  | .error halt => call = .error halt
  | .ok (done, m, srcAfter, dstAfter) => ∃ s' lists', call = .ok (done, s') ∧ s'.machine = m ∧
      ChangedPair s s' lists lists' src dst srcAfter dstAfter

/-- The nodes that the calls of `region_alloc` from the `i`-th one on return are distinct and not in use. -/
def NewNodes (s : SpaceLists) (nodes : Nat → Option HeapPtr) (i : Nat) : Prop :=
  ∀ j new, i ≤ j → nodes j = some new → s.nodes new = none ∧ ∀ k, nodes k = some new → j = k

section
variable {s s' middle : SpaceLists} {lists lists' : SpacePtr → List (HeapPtr × Region)} {src dst : SpacePtr}
  {srcRecord dstRecord : SpaceRecord} {processed todo : List (HeapPtr × Region)} {nodes : Nat → Option HeapPtr}
  {fuel i : Nat} {srcAfter dstAfter : Space} {call : Result (Bool × SpaceLists)}
  {onList : Result (Bool × Machine × Space × Space)}

theorem FollowsPair.same (own : RegionLists s lists) (liveSrc : s.spaces src = some srcRecord)
    (liveDst : s.spaces dst = some dstRecord) (done : Bool) :
    FollowsPair s lists src dst (.ok (done, s))
      (.ok (done, s.machine, srcRecord.view (lists src), dstRecord.view (lists dst))) :=
  ⟨s, lists, rfl, rfl, own, ⟨srcRecord, liveSrc, rfl⟩, ⟨dstRecord, liveDst, rfl⟩, fun _ _ _ => ⟨rfl, rfl⟩⟩

/-- A loop continues after the lists of its pair changed. -/
theorem FollowsPair.trans {between : SpacePtr → List (HeapPtr × Region)}
    (first : ∀ other, other ≠ src → other ≠ dst → middle.spaces other = s.spaces other ∧ between other = lists other)
    (second : FollowsPair middle between src dst call onList) : FollowsPair s lists src dst call onList := by
  cases onList with
  | error halt => exact second
  | ok result =>
      obtain ⟨s', lists', returned, machine, changed⟩ := second
      refine ⟨s', lists', returned, machine, changed.own, changed.source, changed.clone, ?_⟩
      intro other notSrc notDst
      obtain ⟨space₁, list₁⟩ := first other notSrc notDst
      obtain ⟨space₂, list₂⟩ := changed.others other notSrc notDst
      exact ⟨space₂.trans space₁, list₂.trans list₁⟩

/-- One iteration marks a region of the source as shared and links a copy of it into the clone. -/
theorem RegionLists.shareRegion {ptr node : HeapPtr} {region : Region} (own : RegionLists s lists) (differ : src ≠ dst)
    (liveSrc : s.spaces src = some srcRecord) (liveDst : s.spaces dst = some dstRecord)
    (split : lists src = processed ++ (ptr, region) :: todo) (new : s.nodes node = none) (region' : Region) :
    ∃ s' lists' record',
      (s.setNode ptr (some ⟨lastPtr none processed, firstPtr none todo, region'⟩)).insertNode dst node region' = .ok s' ∧
      s'.machine = s.machine ∧ RegionLists s' lists' ∧ s'.spaces = Function.update s.spaces dst (some record') ∧
      record'.view (lists' dst) = (dstRecord.view (lists dst)).record region' ∧
      lists' src = processed ++ (ptr, region') :: todo ∧
      s'.nodes ptr = some ⟨lastPtr none processed, firstPtr none todo, region'⟩ ∧
      (∀ other, other ≠ src → other ≠ dst → lists' other = lists other) ∧
      ∀ query, query ≠ node → s.nodes query = none → s'.nodes query = none := by
  have linked := own.linked src
  rw [split] at linked
  have unequal : ∀ query, s.nodes query = none → query ≠ ptr := by
    intro query unused same
    rw [same, linked.node] at unused
    cases unused
  have changed := own.setRegion liveSrc split region'
  have new₁ : (s.setNode ptr (some ⟨lastPtr none processed, firstPtr none todo, region'⟩)).nodes node = none := by
    rw [SpaceLists.setNode_nodes, if_neg (unequal node new)]
    exact new
  obtain ⟨s₂, list₂, inserted, machine, recorded, fresh, kept⟩ := changed.lists.insertNode liveDst new₁ region'
  obtain ⟨record', spaces, shown⟩ := recorded.spaces
  rw [Function.update_of_ne (Ne.symm differ)] at shown
  have atSrc : Function.update (Function.update lists src (processed ++ (ptr, region') :: todo)) dst list₂ src =
      processed ++ (ptr, region') :: todo := by
    rw [Function.update_of_ne differ, Function.update_self]
  refine ⟨s₂, _, record', inserted, machine, recorded.lists, spaces, ?_, atSrc, ?_, ?_, ?_⟩
  · rw [Function.update_self]
    exact shown
  · have member : ptr ∈ (Function.update lists src (processed ++ (ptr, region') :: todo) src).map Prod.fst := by
      rw [Function.update_self, List.map_append]
      exact List.mem_append_right _ List.mem_cons_self
    rw [kept src differ ptr member, SpaceLists.setNode_nodes, if_pos rfl]
  · intro other notSrc notDst
    rw [Function.update_of_ne notDst, Function.update_of_ne notSrc]
  · intro query differ' unused
    refine fresh query differ' ?_
    rw [SpaceLists.setNode_nodes, if_neg (unequal query unused)]
    exact unused

/-- The region loop of `vmm_clone_space` on the nodes follows the loop on the lists. -/
theorem cloneRegionsAt_follows (own : RegionLists s lists) (differ : src ≠ dst) (liveSrc : s.spaces src = some srcRecord)
    (liveDst : s.spaces dst = some dstRecord) (split : lists src = processed ++ todo) (enough : todo.length ≤ fuel)
    (new : NewNodes s nodes processed.length) :
    FollowsPair s lists src dst
      (cloneRegionsAt src dst srcRecord.pml4Phys dstRecord.pml4Phys nodes fuel processed.length (firstPtr none todo) s)
      (vmmCloneRegions (fun j => (nodes j).isSome) processed.length (todo.map Prod.snd) s.machine
        (srcRecord.view (lists src)) (dstRecord.view (lists dst))) := by
  induction todo generalizing s lists dstRecord processed fuel with
  | nil =>
      have stays : cloneRegionsAt src dst srcRecord.pml4Phys dstRecord.pml4Phys nodes fuel processed.length none s =
          .ok (true, s) := by
        cases fuel <;> rfl
      rw [List.map_nil, vmmCloneRegions, firstPtr, stays]
      exact FollowsPair.same own liveSrc liveDst true
  | cons pair todo inductionHypothesis =>
      obtain ⟨ptr, region⟩ := pair
      obtain ⟨fuel, rfl⟩ := Nat.exists_eq_succ_of_ne_zero (Nat.ne_zero_of_lt enough)
      rw [List.map_cons, vmmCloneRegions, firstPtr_cons, cloneRegionsAt]
      cases allocated : nodes processed.length with
      | none => exact FollowsPair.same own liveSrc liveDst false
      | some node =>
          have linked := own.linked src
          rw [split] at linked
          have roots : (srcRecord.view (lists src)).pml4Phys = srcRecord.pml4Phys ∧
            (dstRecord.view (lists dst)).pml4Phys = dstRecord.pml4Phys := ⟨rfl, rfl⟩
          simp only [Option.isSome_some, Bool.not_true, Bool.false_eq_true, if_false, SpaceLists.node_of linked.node,
            Result.ok_bind, roots]
          cases vmmClonePages srcRecord.pml4Phys dstRecord.pml4Phys region.base (flagsToPte region.flags &&& ~~~pteWritable)
            (flagsToPte (cowFlags region.flags) &&& ~~~pteWritable) (region.size / pageSize) s.machine with
          | error halt => rfl
          | ok m =>
              have ownMachine : RegionLists (s.setMachine m) lists := own.congr rfl rfl
              obtain ⟨s₂, lists₂, record₂, inserted, machine, own₂, spaces, shown, atSrc, here, others, fresh⟩ :=
                ownMachine.shareRegion differ liveSrc liveDst split (new _ node le_rfl allocated).1
                  { region with flags := cowFlags region.flags }
              have liveSrc₂ : s₂.spaces src = some srcRecord := by
                rw [spaces, Function.update_of_ne differ]
                exact liveSrc
              have liveDst₂ : s₂.spaces dst = some record₂ := by rw [spaces, Function.update_self]
              have root : record₂.pml4Phys = dstRecord.pml4Phys := congrArg Space.pml4Phys shown
              have split₂ : lists₂ src = (processed ++ [(ptr, { region with flags := cowFlags region.flags })]) ++ todo := by
                rw [atSrc, List.append_assoc]
                rfl
              have count : (processed ++ [(ptr, { region with flags := cowFlags region.flags })]).length =
                  processed.length + 1 := by
                rw [List.length_append]
                rfl
              have new₂ : NewNodes s₂ nodes
                  (processed ++ [(ptr, { region with flags := cowFlags region.flags })]).length := by
                intro j other later isOther
                rw [count] at later
                obtain ⟨unused, once⟩ := new j other (Nat.le_of_succ_le later) isOther
                refine ⟨fresh other ?_ unused, once⟩
                intro same
                rw [← same] at allocated
                exact absurd (once _ allocated) (Nat.ne_of_gt later)
              have next := inductionHypothesis own₂ liveSrc₂ liveDst₂ split₂ (Nat.le_of_succ_le_succ enough) new₂
              have set : { srcRecord.view (lists src) with
                  regions := (srcRecord.view (lists src)).regions.set processed.length
                    { region with flags := cowFlags region.flags } } = srcRecord.view (lists₂ src) := by
                simp [SpaceRecord.view, split, atSrc]
              rw [count, root, machine, shown, ← set] at next
              simp only [inserted, Result.ok_bind, SpaceLists.node_of here]
              refine FollowsPair.trans ?_ next
              intro other notSrc notDst
              refine ⟨?_, others other notSrc notDst⟩
              rw [spaces, Function.update_of_ne notDst]
              rfl

/-- A failed clone leaves a change of the source alone. -/
theorem ChangedPair.destroyed (own : RegionLists s lists) (differ : src ≠ dst) (dead : s.spaces dst = none)
    (changed : ChangedPair s middle lists lists' src dst srcAfter dstAfter)
    (own' : RegionLists s' (Function.update lists' dst [])) (spaces : s'.spaces = Function.update middle.spaces dst none) :
    Changed s s' lists src (lists' src) srcAfter := by
  obtain ⟨record, live, shown⟩ := changed.source
  have sameLists : Function.update lists' dst [] = Function.update lists src (lists' src) := by
    funext other
    by_cases isDst : other = dst
    · rw [isDst, Function.update_self, Function.update_of_ne (Ne.symm differ), own.dead dst dead]
    · by_cases isSrc : other = src
      · rw [isSrc, Function.update_of_ne differ, Function.update_self]
      · rw [Function.update_of_ne isDst, Function.update_of_ne isSrc]
        exact (changed.others other isSrc isDst).2
  rw [sameLists] at own'
  refine ⟨own', record, ?_, shown⟩
  rw [spaces]
  funext other
  by_cases isDst : other = dst
  · rw [isDst, Function.update_self, Function.update_of_ne (Ne.symm differ), dead]
  · by_cases isSrc : other = src
    · rw [isSrc, Function.update_of_ne differ, Function.update_self, live]
    · rw [Function.update_of_ne isDst, Function.update_of_ne isSrc]
      exact (changed.others other isSrc isDst).1

/-- `vmm_clone_space` on the nodes follows `vmm_clone_space` on the lists. -/
theorem cloneSpaceAt_follows {ptr : Option HeapPtr} (own : RegionLists s lists) (live : s.spaces src = some srcRecord)
    (listed : (srcRecord.view (lists src)).Listed) (newSpace : ∀ fresh, ptr = some fresh → s.spaces (.heap fresh) = none)
    (new : NewNodes s nodes 0) :
    match vmmCloneSpace s.machine (srcRecord.view (lists src)) ptr.isSome (fun i => (nodes i).isSome) with
    | .error halt => cloneSpaceAt s src ptr nodes = .error halt
    | .ok (none, m, srcAfter) => ∃ s' list', cloneSpaceAt s src ptr nodes = .ok (none, s') ∧ s'.machine = m ∧
        Changed s s' lists src list' srcAfter
    | .ok (some dstAfter, m, srcAfter) => ∃ fresh s' lists', ptr = some fresh ∧
        cloneSpaceAt s src ptr nodes = .ok (some (.heap fresh), s') ∧ s'.machine = m ∧
        ChangedPair s s' lists lists' src (.heap fresh) srcAfter dstAfter := by
  have created := spaceCreateAt_follows own newSpace
  unfold cloneSpaceAt vmmCloneSpace
  cases made : vmmSpaceCreate s.machine ptr.isSome with
  | mk value m =>
      rw [made] at created
      cases value with
      | none =>
          simp only [show spaceCreateAt s ptr = (none, s.setMachine m) from created]
          exact ⟨_, _, rfl, rfl, own.same live m⟩
      | some value =>
          obtain ⟨fresh, s₁, isFresh, createdAt, machine, sameNodes, changed⟩ := created
          obtain ⟨record, spaces, shown⟩ := changed.spaces
          have dead := newSpace fresh isFresh
          have differ : src ≠ .heap fresh := by
            intro same
            rw [same, dead] at live
            cases live
          have liveSrc : s₁.spaces src = some srcRecord := by
            rw [spaces, Function.update_of_ne differ]
            exact live
          have liveDst : s₁.spaces (.heap fresh) = some record := by rw [spaces, Function.update_self]
          have atSrc : Function.update lists (.heap fresh) [] src = [] ++ lists src := Function.update_of_ne differ ..
          have new₁ : NewNodes s₁ nodes 0 := by
            intro j other later isOther
            rw [sameNodes]
            exact new j other later isOther
          have others : ∀ other, other ≠ src → other ≠ .heap fresh →
              s₁.spaces other = s.spaces other ∧ Function.update lists (.heap fresh) [] other = lists other := by
            intro other _ notDst
            rw [spaces]
            exact ⟨Function.update_of_ne notDst .., Function.update_of_ne notDst ..⟩
          have loop := FollowsPair.trans others
            (cloneRegionsAt_follows changed.lists differ liveSrc liveDst atSrc (own.length_le src) new₁)
          have whole : (srcRecord.view (lists src)).regions = (lists src).map Prod.snd := rfl
          rw [Function.update_self, shown, atSrc, machine, List.nil_append, List.length_nil] at loop
          simp only [createdAt, SpaceLists.space_of liveSrc, SpaceLists.space_of liveDst, Result.ok_bind,
            own.first src srcRecord live, whole]
          cases looped : vmmCloneRegions (fun i => (nodes i).isSome) 0 ((lists src).map Prod.snd) m
            (srcRecord.view (lists src)) value with
          | error halt =>
              rw [looped] at loop
              rw [show cloneRegionsAt _ _ _ _ _ _ _ _ s₁ = .error halt from loop]
              rfl
          | ok result =>
              obtain ⟨done, m₂, srcAfter, dstAfter⟩ := result
              rw [looped] at loop
              obtain ⟨s₂, lists₂, loopedAt, machine₂, pair⟩ := loop
              rw [show cloneRegionsAt _ _ _ _ _ _ _ _ s₁ = .ok (done, s₂) from loopedAt]
              cases done with
              | true => exact ⟨fresh, s₂, lists₂, isFresh, rfl, machine₂, pair⟩
              | false =>
                  have listedDst := (listed.cloneRegions (Space.Listed.create made) (List.nil_append _).symm looped).2
                  obtain ⟨record₂, live₂, shown₂⟩ := pair.clone
                  rw [← shown₂] at listedDst
                  have destroyed := spaceDestroyAt_follows pair.own live₂ listedDst nofun
                  rw [machine₂, shown₂] at destroyed
                  simp only [Result.ok_bind, Bool.false_eq_true, if_false]
                  cases gone : vmmSpaceDestroy m₂ dstAfter with
                  | error halt =>
                      rw [gone] at destroyed
                      rw [show spaceDestroyAt s₂ _ = .error halt from destroyed]
                      rfl
                  | ok m₃ =>
                      rw [gone] at destroyed
                      obtain ⟨s₃, destroyedAt, machine₃, spaces₃, own₃⟩ := destroyed
                      rw [destroyedAt]
                      exact ⟨s₃, _, rfl, machine₃, pair.destroyed own differ dead own₃ spaces₃⟩

end

end DoccrOS.Mem
