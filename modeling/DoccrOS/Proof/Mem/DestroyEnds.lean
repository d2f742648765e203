import DoccrOS.Proof.Mem.Boot

namespace DoccrOS.Mem
open Lib

/-- The region that a call records when it succeeds. -/
def Op.recorded : Op → Option Region
  | .alloc _ vaddr pageCount flags nodeOk =>
    if nodeOk && pageCount != 0 then
      some ⟨pageAlignDown vaddr, wrap64 (pageCount * pageSize), vmmRegionUsed ||| flags⟩
    else none
  | .mapPhys _ vaddr _ pageCount flags nodeOk =>
    if nodeOk && pageCount != 0 then
      some ⟨pageAlignDown vaddr, wrap64 (pageCount * pageSize), vmmRegionUsed ||| vmmRegionMmio ||| flags⟩
    else none
  | _ => none

/-- A property of regions that survives a share and a break. -/
structure Durable (holds : Region → Prop) : Prop where
  shared : ∀ region, holds region → holds { region with flags := cowFlags region.flags }
  broken : ∀ region, holds region → holds { region with flags := brokenFlags region.flags }

/-- All regions of a space have the property. -/
def Space.every (space : Space) (holds : Region → Prop) : Prop := ∀ region ∈ space.regions, holds region

/-- All regions of all live spaces have the property. -/
def Kernel.every (k : Kernel) (holds : Region → Prop) : Prop := ∀ ptr space, k.spaces ptr = some space → space.every holds

section
variable {holds : Region → Prop} {m m' : Machine} {space space' : Space} {k k' : Kernel} {ptr : HeapPtr} {op : Op}
  {vaddr physAddr pageCount value : Nat} {flags : BitVec 32} {nodeOk : Bool}

theorem Space.every.record {node : Region} (all : space.every holds) (new : holds node) : (space.record node).every holds := by
  intro region member
  rcases List.mem_cons.mp ((insertRegion_perm node space.regions).mem_iff.mp member) with same | old
  · rw [same]
    exact new
  · exact all region old

/-- `vmm_space_alloc` records a region or leaves the space as it was. -/
theorem vmmSpaceAlloc_outcome (returned : vmmSpaceAlloc m space vaddr pageCount flags nodeOk = .ok (value, m', space')) :
    space' = space ∨ nodeOk = true ∧ pageCount ≠ 0 ∧
      space' = space.record ⟨pageAlignDown vaddr, wrap64 (pageCount * pageSize), vmmRegionUsed ||| flags⟩ := by
  unfold vmmSpaceAlloc at returned
  by_cases empty : pageCount = 0
  · rw [if_pos empty] at returned
    cases returned
    exact Or.inl rfl
  rw [if_neg empty] at returned
  cases nodeOk with
  | false =>
      cases returned
      exact Or.inl rfl
  | true =>
      simp only [Bool.not_true, Bool.false_eq_true, if_false] at returned
      obtain ⟨⟨failed, m₁⟩, _, rest⟩ := Result.bind_ok returned
      cases failed with
      | some i =>
          cases rest
          exact Or.inl rfl
      | none =>
          cases rest
          exact Or.inr ⟨rfl, empty, rfl⟩

/-- `vmm_map_phys` records a region or leaves the space as it was. -/
theorem vmmMapPhys_outcome (returned : vmmMapPhys m space vaddr physAddr pageCount flags nodeOk = .ok (value, m', space')) :
    space' = space ∨ nodeOk = true ∧ pageCount ≠ 0 ∧
      space' = space.record ⟨pageAlignDown vaddr, wrap64 (pageCount * pageSize), vmmRegionUsed ||| vmmRegionMmio ||| flags⟩ := by
  unfold vmmMapPhys at returned
  by_cases empty : pageCount = 0
  · rw [if_pos empty] at returned
    cases returned
    exact Or.inl rfl
  rw [if_neg empty] at returned
  cases nodeOk with
  | false =>
      cases returned
      exact Or.inl rfl
  | true =>
      simp only [Bool.not_true, Bool.false_eq_true, if_false] at returned
      obtain ⟨m₁, _, rest⟩ := Result.bind_ok returned
      cases rest
      exact Or.inr ⟨rfl, empty, rfl⟩

theorem Space.every.alloc (all : space.every holds)
    (new : ∀ node, (Op.alloc ptr vaddr pageCount flags nodeOk).recorded = some node → holds node)
    (returned : vmmSpaceAlloc m space vaddr pageCount flags nodeOk = .ok (value, m', space')) : space'.every holds := by
  rcases vmmSpaceAlloc_outcome returned with same | ⟨isNode, nonzero, recorded⟩
  · rw [same]
    exact all
  · rw [recorded]
    refine all.record (new _ ?_)
    simp [Op.recorded, isNode, nonzero]

theorem Space.every.mapPhys (all : space.every holds)
    (new : ∀ node, (Op.mapPhys ptr vaddr physAddr pageCount flags nodeOk).recorded = some node → holds node)
    (returned : vmmMapPhys m space vaddr physAddr pageCount flags nodeOk = .ok (value, m', space')) : space'.every holds := by
  rcases vmmMapPhys_outcome returned with same | ⟨isNode, nonzero, recorded⟩
  · rw [same]
    exact all
  · rw [recorded]
    refine all.record (new _ ?_)
    simp [Op.recorded, isNode, nonzero]

/-- A new space has no regions. -/
theorem vmmSpaceCreate_regions {kmallocOk : Bool} (created : vmmSpaceCreate m kmallocOk = (some space, m')) :
    space.regions = [] := by
  cases kmallocOk with
  | false => cases created
  | true =>
      simp only [vmmSpaceCreate, Bool.not_true, Bool.false_eq_true, if_false] at created
      by_cases failed : (physmemAllocTo m.phys 1).1 = 0
      · rw [if_pos failed] at created
        cases created
      · rw [if_neg failed] at created
        cases created
        rfl

/-- A free removes at most one region. -/
theorem vmmSpaceFree_sublist (m : Machine) (space : Space) (vaddr : Nat) :
    (vmmSpaceFree m space vaddr).2.regions.Sublist space.regions := by
  unfold vmmSpaceFree
  split
  · exact List.Sublist.refl _
  · split
    · exact List.Sublist.refl _
    · exact List.eraseP_sublist

theorem Space.every.cloneRegions {nodes : Nat → Bool} {todo : List Region} {i : Nat} {dst dst' : Space} {done : Bool}
    (durable : Durable holds) (all : space.every holds) (allDst : dst.every holds) (allTodo : ∀ region ∈ todo, holds region)
    (returned : vmmCloneRegions nodes i todo m space dst = .ok (done, m', space', dst')) :
    space'.every holds ∧ dst'.every holds := by
  induction todo generalizing i m space dst with
  | nil =>
      rw [vmmCloneRegions] at returned
      cases returned
      exact ⟨all, allDst⟩
  | cons srcCur todo ih =>
      rw [vmmCloneRegions] at returned
      cases node : nodes i with
      | false =>
          simp only [node, Bool.not_false, if_true] at returned
          cases returned
          exact ⟨all, allDst⟩
      | true =>
          simp only [node, Bool.not_true, Bool.false_eq_true, if_false] at returned
          obtain ⟨m₁, _, rest⟩ := Result.bind_ok returned
          have shared := durable.shared srcCur (allTodo srcCur List.mem_cons_self)
          refine ih ?_ (allDst.record shared) (fun region member => allTodo region (List.mem_cons_of_mem _ member)) rest
          intro region member
          rcases List.mem_or_eq_of_mem_set member with old | new
          · exact all region old
          · rw [new]
            exact shared

/-- `vmm_clone_space` leaves the source as it was, or it ran its region loop on an empty clone. -/
theorem vmmCloneSpace_loop {kmallocOk : Bool} {nodes : Nat → Bool} {clone : Option Space}
    (returned : vmmCloneSpace m space kmallocOk nodes = .ok (clone, m', space')) :
    clone = none ∧ space' = space ∨ ∃ dst m₁ done m₂ dst', vmmSpaceCreate m kmallocOk = (some dst, m₁) ∧
      vmmCloneRegions nodes 0 space.regions m₁ space dst = .ok (done, m₂, space', dst') ∧
      ∀ copy, clone = some copy → copy = dst' := by
  unfold vmmCloneSpace at returned
  cases created : vmmSpaceCreate m kmallocOk with
  | mk made m₁ =>
      simp only [created] at returned
      cases made with
      | none =>
          cases returned
          exact Or.inl ⟨rfl, rfl⟩
      | some dst =>
          right
          obtain ⟨⟨done, m₂, src₂, dst₂⟩, loop, rest⟩ := Result.bind_ok returned
          cases done with
          | true =>
              cases rest
              exact ⟨dst, m₁, true, m₂, dst₂, rfl, loop, fun copy isCopy => (Option.some.inj isCopy).symm⟩
          | false =>
              obtain ⟨m₃, _, last⟩ := Result.bind_ok rest
              cases last
              exact ⟨dst, m₁, false, m₂, dst₂, rfl, loop, nofun⟩

theorem Space.every.cloneSpace {kmallocOk : Bool} {nodes : Nat → Bool} {clone : Option Space} (durable : Durable holds)
    (all : space.every holds) (returned : vmmCloneSpace m space kmallocOk nodes = .ok (clone, m', space')) :
    space'.every holds ∧ ∀ dst, clone = some dst → dst.every holds := by
  rcases vmmCloneSpace_loop returned with ⟨none, same⟩ | ⟨dst, m₁, done, m₂, dst', created, loop, isCopy⟩
  · rw [none, same]
    exact ⟨all, nofun⟩
  · have allDst : dst.every holds := by
      intro region member
      rw [vmmSpaceCreate_regions created] at member
      cases member
    obtain ⟨allSrc, allCopy⟩ := all.cloneRegions durable allDst all loop
    refine ⟨allSrc, ?_⟩
    intro copy made
    rw [isCopy copy made]
    exact allCopy

/-- `vmm_cow_break` gives new flags to the region that it finds or leaves the space as it was. -/
theorem vmmCowBreak_outcome {faultAddr : Nat} (returned : vmmCowBreak m space faultAddr = .ok (m', space')) :
    space' = space ∨ ∃ region, vmmSpaceFind space (pageAlignDown faultAddr) = some region ∧
      space' = { space with regions := setFoundFlags (pageAlignDown faultAddr) (brokenFlags region.flags) space.regions } := by
  simp only [vmmCowBreak] at returned
  cases found : vmmSpaceFind space (pageAlignDown faultAddr) with
  | none =>
      rw [found] at returned
      cases returned
      exact Or.inl rfl
  | some region =>
      simp only [found] at returned
      split at returned
      · cases returned
        exact Or.inl rfl
      · cases mapped : m.findPte space.pml4Phys (pageAlignDown faultAddr) with
        | none =>
            rw [mapped] at returned
            cases returned
            exact Or.inl rfl
        | some entry =>
            right
            simp only [mapped, vmmCowBreakPage] at returned
            split at returned
            · obtain ⟨m₁, _, rest⟩ := Result.bind_ok returned
              cases rest
              exact ⟨region, rfl, rfl⟩
            · split at returned
              · cases returned
              · obtain ⟨m₁, _, rest⟩ := Result.bind_ok returned
                cases rest
                exact ⟨region, rfl, rfl⟩

theorem Space.every.cowBreak {faultAddr : Nat} (durable : Durable holds) (all : space.every holds)
    (returned : vmmCowBreak m space faultAddr = .ok (m', space')) : space'.every holds := by
  rcases vmmCowBreak_outcome returned with same | ⟨region, found, broken⟩
  · rw [same]
    exact all
  · intro other member
    rw [broken] at member
    rcases mem_setFoundFlags member with old | ⟨first, isFirst, same⟩
    · exact all other old
    · have sameRegion : first = region := Option.some.inj (isFirst.symm.trans found)
      rw [same, sameRegion]
      exact durable.broken region (all region (List.mem_of_find?_eq_some found))

theorem Space.every.userWrite {va : Nat} {byte : BitVec 8} (durable : Durable holds) (all : space.every holds)
    (returned : userWrite m space va byte = .ok (m', space')) : space'.every holds := by
  unfold Mem.userWrite at returned
  split at returned
  · cases returned
    exact all
  · obtain ⟨⟨m₁, space₁⟩, handled, rest⟩ := Result.bind_ok returned
    have all₁ : space₁.every holds := by
      simp only [cowPageFaultHandler] at handled
      by_cases refused : ((if (m.findPte space.pml4Phys va).isSome then 3 else 2 : Word) &&& 1 != 0 &&
          (if (m.findPte space.pml4Phys va).isSome then 3 else 2 : Word) &&& 2 != 0) = true
      · rw [if_pos refused] at handled
        cases found : vmmSpaceFind space va with
        | none => simp only [found, reduceCtorEq] at handled
        | some region =>
            by_cases cow : hasFlag region.flags vmmRegionCow = true
            · simp only [found, cow, if_true] at handled
              exact all.cowBreak durable handled
            · simp only [found, cow, reduceCtorEq, if_false, Bool.false_eq_true] at handled
      · rw [if_neg refused] at handled
        cases handled
    simp only at rest
    split at rest
    · cases rest
      exact all₁
    · cases rest

theorem Kernel.every.put {value : Option Space} (all : k.every holds) (new : ∀ space, value = some space → space.every holds) :
    (k.put ptr m' value).every holds := by
  intro other space live
  rw [put_spaces] at live
  split at live
  · exact new space live
  · exact all other space live

/-- A step keeps a durable property of the regions if the recorded region has it. -/
theorem Kernel.every.step (durable : Durable holds) (all : k.every holds)
    (new : ∀ node, op.recorded = some node → holds node) (returned : k.step op = .ok k') : k'.every holds := by
  have replaced {value : Space} (valueAll : value.every holds) : ∀ space, some value = some space → space.every holds := by
    intro space same
    rw [← Option.some.inj same]
    exact valueAll
  cases op with
  | create made =>
      simp only [Kernel.step] at returned
      split at returned
      · cases returned
      · split at returned
        · rename_i created
          cases returned
          refine all.put (replaced ?_)
          intro region member
          rw [vmmSpaceCreate_regions created] at member
          cases member
        · cases returned
          exact all
  | alloc ptr vaddr pageCount flags nodeOk =>
      obtain ⟨space, live, call⟩ := onSpace_ok returned
      obtain ⟨⟨value, m₁, space₁⟩, allocated, rest⟩ := Result.bind_ok call
      cases rest
      exact all.put (replaced ((all ptr space live).alloc new allocated))
  | mapPhys ptr vaddr physAddr pageCount flags nodeOk =>
      obtain ⟨space, live, call⟩ := onSpace_ok returned
      obtain ⟨⟨value, m₁, space₁⟩, mapped, rest⟩ := Result.bind_ok call
      cases rest
      exact all.put (replaced ((all ptr space live).mapPhys new mapped))
  | clone src made nodes =>
      simp only [Kernel.step] at returned
      split at returned
      · cases returned
      · obtain ⟨space, live, call⟩ := onSpace_ok returned
        obtain ⟨⟨clone, m₁, space₁⟩, cloned, rest⟩ := Result.bind_ok call
        obtain ⟨allSrc, allClone⟩ := (all src space live).cloneSpace durable cloned
        cases made with
        | none =>
            cases rest
            exact all.put (replaced allSrc)
        | some made =>
            cases clone with
            | none =>
                cases rest
                exact all.put (replaced allSrc)
            | some dst =>
                cases rest
                exact (Kernel.every.put all (replaced allSrc)).put (replaced (allClone dst rfl))
  | free ptr vaddr =>
      obtain ⟨space, live, call⟩ := onSpace_ok returned
      cases call
      refine all.put (replaced ?_)
      intro region member
      exact all ptr space live region ((vmmSpaceFree_sublist _ _ _).subset member)
  | destroy ptr =>
      obtain ⟨space, live, call⟩ := onSpace_ok returned
      obtain ⟨m₁, _, rest⟩ := Result.bind_ok call
      cases rest
      exact all.put nofun
  | cowBreak ptr faultAddr =>
      obtain ⟨space, live, call⟩ := onSpace_ok returned
      obtain ⟨⟨m₁, space₁⟩, broken, rest⟩ := Result.bind_ok call
      cases rest
      exact all.put (replaced ((all ptr space live).cowBreak durable broken))
  | write ptr va byte =>
      obtain ⟨space, live, call⟩ := onSpace_ok returned
      obtain ⟨⟨m₁, space₁⟩, written, rest⟩ := Result.bind_ok call
      cases rest
      exact all.put (replaced ((all ptr space live).userWrite durable written))

end

/-- The test by which `vmm_space_free` finds the region whose base it gets. -/
def Region.removable (region : Region) : Prop := region.base ≠ 0 ∧ hasFlag region.flags vmmRegionUsed = true

/-- One iteration of the loop of `vmm_space_destroy`. -/
def destroyStep (state : Machine × Space) : Machine × Space :=
  match state.2.regions with
  | [] => state
  | cur :: _ => vmmSpaceFree state.1 state.2 cur.base

section
variable {m : Machine} {space : Space} {cur : Region} {rest : List Region} {fuel : Nat}

/-- A free at the base of the first region removes that region. -/
theorem vmmSpaceFree_head (m : Machine) (split : space.regions = cur :: rest) (removable : cur.removable) :
    (vmmSpaceFree m space cur.base).2.regions = rest := by
  have selected : cur.matches cur.base = true := by
    rw [Region.matches, beq_self_eq_true, Bool.true_and]
    exact removable.2
  have found : (cur :: rest).find? (·.matches cur.base) = some cur := List.find?_cons_of_pos selected
  unfold vmmSpaceFree
  rw [if_neg removable.1, split, found]
  show (cur :: rest).eraseP (·.matches cur.base) = rest
  rw [List.eraseP_cons, selected, cond_true]

/-- A loop whose regions can be removed ends with no region after one iteration for each region. -/
theorem vmmSpaceDestroyLoop_ends (all : space.every Region.removable) (enough : space.regions.length < fuel) :
    vmmSpaceDestroyLoop fuel m space = .ok (destroyStep^[space.regions.length] (m, space)) ∧
      ∀ n, (destroyStep^[n] (m, space)).2.regions = space.regions.drop n := by
  generalize isRegions : space.regions = regions at enough
  induction regions generalizing m space fuel with
  | nil =>
      obtain ⟨fuel, rfl⟩ := Nat.exists_eq_succ_of_ne_zero (Nat.ne_zero_of_lt enough)
      refine ⟨by rw [vmmSpaceDestroyLoop, isRegions]; rfl, ?_⟩
      intro n
      induction n with
      | zero => exact isRegions
      | succ n ih =>
          have stays : destroyStep (m, space) = (m, space) := by simp only [destroyStep, isRegions]
          rw [Function.iterate_succ_apply, stays, ih, List.drop_nil, List.drop_nil]
  | cons cur rest ih =>
      obtain ⟨fuel, rfl⟩ := Nat.exists_eq_succ_of_ne_zero (Nat.ne_zero_of_lt enough)
      have removable := all cur (by rw [isRegions]; exact List.mem_cons_self)
      have removed := vmmSpaceFree_head m isRegions removable
      have all' : (vmmSpaceFree m space cur.base).2.every Region.removable := by
        intro region member
        exact all region ((vmmSpaceFree_sublist m space cur.base).subset member)
      have stepped : destroyStep (m, space) = vmmSpaceFree m space cur.base := by simp only [destroyStep, isRegions]
      obtain ⟨returned, dropped⟩ := ih all' removed (Nat.lt_of_succ_lt_succ enough)
      refine ⟨?_, ?_⟩
      · rw [vmmSpaceDestroyLoop, isRegions]
        simp only [List.length_cons, Function.iterate_succ_apply, stepped]
        exact returned
      · intro n
        cases n with
        | zero => exact isRegions
        | succ n =>
            rw [Function.iterate_succ_apply, stepped, dropped, List.drop_succ_cons]

/-- A first region at the address `0` is never removed. -/
theorem vmmSpaceDestroyLoop_hangs (split : space.regions = cur :: rest) (zero : cur.base = 0) :
    vmmSpaceDestroyLoop fuel m space = .error .hang := by
  induction fuel with
  | zero => rfl
  | succ fuel ih =>
      have stays : vmmSpaceFree m space cur.base = (m, space) := if_pos zero
      rw [vmmSpaceDestroyLoop, split]
      simp only [stays]
      exact ih

end

end DoccrOS.Mem
