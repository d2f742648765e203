import DoccrOS.Proof.Mem.CowResolution

namespace DoccrOS.Mem
open Lib.Radix Lib

/-- The page of the address is mapped in a copy-on-write region of the space, so a break makes it writable. -/
def Kernel.breaks (k : Kernel) (ptr : HeapPtr) (va : Nat) : Bool :=
  (k.spaces ptr).any fun space =>
    ((vmmSpaceFind space (pageAlignDown va)).any fun region => hasFlag region.flags vmmRegionCow) &&
    (k.machine.findPte space.pml4Phys (pageAlignDown va)).isSome

/-- The pages that a call may make writable. -/
def Op.opens (k : Kernel) (ptr : HeapPtr) (page : Nat) : Op → Prop
  | .alloc ptr' vaddr pageCount flags _ => ptr' = ptr ∧ hasFlag flags vmmRegionWrite = true ∧
    ∃ i, i < pageCount ∧ page = pageAlignDown vaddr / pageSize + i
  | .cowBreak ptr' va | .write ptr' va _ => ptr' = ptr ∧ k.breaks ptr va = true ∧ page = va / pageSize
  | _ => False

/-- The page of a live space is writable. -/
def Kernel.writablePage (k : Kernel) (ptr : HeapPtr) (page : Nat) : Prop :=
  ∃ space, k.spaces ptr = some space ∧ (userView k.machine k.roots).writable (space.pml4Phys, page)

section
variable {policy : Policy} {keep : Set Nat} {k k' : Kernel} {ptr other : HeapPtr} {space space' : Space} {m' : Machine}
  {page va : Nat} {op : Op}

theorem Kernel.breaks_iff (live : k.spaces ptr = some space) : k.breaks ptr va = true ↔ Breakable k.machine space va := by
  unfold Kernel.breaks Breakable
  rw [live, Option.any_some, Bool.and_eq_true, Option.any_eq_true]
  constructor
  · rintro ⟨⟨region, found, cow⟩, mapped⟩
    exact ⟨region, found, cow, mapped⟩
  · rintro ⟨region, found, cow, mapped⟩
    exact ⟨⟨region, found, cow⟩, mapped⟩

/-- A call on one space makes no other page writable than the ones it opens. -/
theorem KernelInv.writable_put {value : Option Space} (inv : KernelInv policy keep k) (live : k.spaces ptr = some space)
    (sameRoot : ∀ space', value = some space' → space'.pml4Phys = space.pml4Phys)
    (gains : ∀ place ∈ userPlaces k.roots, (userView m' k.roots).writable place →
      (userView k.machine k.roots).writable place ∨ place.1 = space.pml4Phys ∧ op.opens k ptr place.2)
    (small : page < 2 ^ 35) (written : (k.put ptr m' value).writablePage other page) :
    op.opens k other page ∨ k.writablePage other page := by
  obtain ⟨shown, isShown, allowed⟩ := written
  rw [put_spaces] at isShown
  by_cases here : other = ptr
  · rw [if_pos here] at isShown
    rw [sameRoot shown isShown] at allowed
    rw [here]
    rcases gains _ (mem_userPlaces.mpr ⟨Kernel.isRoot live, small⟩) allowed with before | ⟨_, opens⟩
    · exact Or.inr ⟨space, live, before⟩
    · exact Or.inl opens
  · rw [if_neg here] at isShown
    rcases gains _ (mem_userPlaces.mpr ⟨Kernel.isRoot isShown, small⟩) allowed with before | ⟨same, _⟩
    · exact Or.inr ⟨shown, isShown, before⟩
    · exact absurd same (inv.apart live here isShown)

theorem Breaks.data {middle : Machine} {m : Machine} {roots : Finset Nat} (data : DataInv m roots (userPlaces roots))
    (breaks : Breaks m roots space va middle space') : DataInv middle roots (userPlaces roots) := by
  cases breaks with
  | nothing _ => exact data
  | sole found cow mapped few page => exact page.inv
  | copy found cow mapped several page => exact page.inv

/-- A break opens its page. -/
theorem Breaks.gains {middle : Machine} (live : k.spaces ptr = some space)
    (breaks : Breaks k.machine k.roots space va middle space') {place : Place} (member : place ∈ userPlaces k.roots)
    (written : (userView middle k.roots).writable place) : (userView k.machine k.roots).writable place ∨
      place.1 = space.pml4Phys ∧ k.breaks ptr va = true ∧ place.2 = va / pageSize := by
  by_cases here : place = (space.pml4Phys, pageAlignDown va / pageSize)
  · by_cases breakable : Breakable k.machine space va
    · refine Or.inr ⟨congrArg Prod.fst here, (Kernel.breaks_iff live).mpr breakable, ?_⟩
      rw [here, pageAlignDown_div]
    · cases breaks with
      | nothing _ => exact Or.inl written
      | sole found cow mapped few page =>
          obtain ⟨_, entry, present, _⟩ := pageView_map.mp mapped
          rw [findPte_align] at present
          exact absurd ⟨_, found, cow, by rw [present]; rfl⟩ breakable
      | copy found cow mapped several page =>
          obtain ⟨_, entry, present, _⟩ := pageView_map.mp mapped
          rw [findPte_align] at present
          exact absurd ⟨_, found, cow, by rw [present]; rfl⟩ breakable
  · exact Or.inl ((breaks.writable_other member here).mp written)

theorem KernelInv.opens_alloc {vaddr pageCount : Nat} {flags : BitVec 32} {nodeOk : Bool} (inv : KernelInv policy keep k)
    (lawful : policy.Lawful keep) (permitted : policy.permits k (.alloc ptr vaddr pageCount flags nodeOk))
    (returned : k.step (.alloc ptr vaddr pageCount flags nodeOk) = .ok k') (small : page < 2 ^ 35)
    (written : k'.writablePage other page) :
    (Op.alloc ptr vaddr pageCount flags nodeOk).opens k other page ∨ k.writablePage other page := by
  obtain ⟨space, live, call⟩ := onSpace_ok returned
  obtain ⟨⟨value, m, space'⟩, allocated, rest⟩ := Result.bind_ok call
  cases rest
  cases inv.allocates lawful live permitted allocated with
  | failed pages sameLook tightened =>
      refine inv.writable_put live ?_ (fun place member allowed => Or.inl (tightened place member allowed)) small written
      intro space' same
      rw [Option.some.inj same]
  | filled nonempty filled =>
      refine inv.writable_put live ?_ ?_ small written
      · intro space' same
        rw [← Option.some.inj same]
        rfl
      · intro place member allowed
        rcases filled.written place member allowed with before | ⟨isWrite, i, inside, here⟩
        · exact Or.inl before
        · rw [flagsToPte_writable] at isWrite
          exact Or.inr ⟨congrArg Prod.fst here, rfl, isWrite, i, inside, congrArg Prod.snd here⟩

theorem KernelInv.opens_clone {src : HeapPtr} {new : Option HeapPtr} {nodes : Nat → Bool} (inv : KernelInv policy keep k)
    (lawful : policy.Lawful keep) (permitted : policy.permits k (.clone src new nodes))
    (returned : k.step (.clone src new nodes) = .ok k') (small : page < 2 ^ 35) (written : k'.writablePage other page) :
    k.writablePage other page := by
  unfold Kernel.step at returned
  cases isNew : k.isNew new with
  | false => simp [isNew] at returned
  | true =>
      simp only [isNew, Bool.not_true, Bool.false_eq_true, if_false] at returned
      obtain ⟨space, live, call⟩ := onSpace_ok returned
      obtain ⟨⟨clone, m, space'⟩, cloned, rest⟩ := Result.bind_ok call
      obtain ⟨result, sameRoot, _⟩ := inv.pages.clone lawful.discipline lawful.tight (Kernel.isRoot live)
        (inv.spaces src space live) (permitted space live) (inv.lossyRegions lawful live) cloned
      have kept (tightened : Tightened k.machine m k.roots)
          (before : (k.put src m (some space')).writablePage other page) : k.writablePage other page := by
        have closed : (Op.clone src new nodes).opens k other page ∨ k.writablePage other page := by
          refine inv.writable_put live ?_ (fun place member allowed => Or.inl (tightened place member allowed)) small before
          intro shown same
          rw [← Option.some.inj same]
          exact sameRoot
        exact closed.resolve_left id
      cases result with
      | failed pages sameLook tightened =>
          have same : k.put src m (some space') = k' := by
            cases new <;> exact Except.ok.inj rest
          rw [← same] at written
          exact kept tightened written
      | cloned dst fresh pages sameLook copied dstInv dstFlags cow tightened readOnly =>
          cases new with
          | none => simp [vmmCloneSpace, vmmSpaceCreate] at cloned
          | some new =>
              have same : (k.put src m (some space')).put new m (some dst) = k' := Except.ok.inj rest
              rw [← same] at written
              obtain ⟨shown, isShown, allowed⟩ := written
              rw [put_spaces] at isShown
              by_cases here : other = new
              · rw [if_pos here] at isShown
                rw [← Option.some.inj isShown] at allowed
                exact absurd allowed (readOnly page small)
              · rw [if_neg here] at isShown
                exact kept tightened ⟨shown, isShown, allowed⟩

/-- A call makes no other page writable than the ones it opens. -/
theorem KernelInv.opens_step (inv : KernelInv policy keep k) (lawful : policy.Lawful keep) (permitted : policy.permits k op)
    (returned : k.step op = .ok k') (small : page < 2 ^ 35) (written : k'.writablePage other page) :
    op.opens k other page ∨ k.writablePage other page := by
  cases op with
  | create new =>
      unfold Kernel.step at returned
      cases isNew : k.isNew new with
      | false => simp [isNew] at returned
      | true =>
          simp only [isNew, Bool.not_true, Bool.false_eq_true, if_false] at returned
          cases created : vmmSpaceCreate k.machine new.isSome with
          | mk result m =>
              rcases vmmSpaceCreate_spec inv.pages.data.tables created with ⟨rfl, rfl, _⟩ | ⟨root, rfl, added⟩
              · have same : k = k' := by
                  cases new <;> simp only [created] at returned <;> exact Except.ok.inj returned
                rw [same]
                exact Or.inr written
              · cases new with
                | none => simp [vmmSpaceCreate] at created
                | some new =>
                    simp only [created] at returned
                    injection returned with same
                    rw [← same] at written
                    obtain ⟨shown, isShown, entry, found, allowed⟩ := written
                    rw [put_spaces] at isShown
                    by_cases here : other = new
                    · rw [if_pos here] at isShown
                      rw [← Option.some.inj isShown] at found
                      rw [put_machine, added.empty _ (userVa_page small)] at found
                      cases found
                    · rw [if_neg here] at isShown
                      rw [put_machine, added.leaf _ (Kernel.isRoot isShown) _ (userVa_page small)] at found
                      exact Or.inr ⟨shown, isShown, entry, found, allowed⟩
  | alloc ptr vaddr pageCount flags nodeOk => exact inv.opens_alloc lawful permitted returned small written
  | mapPhys ptr vaddr physAddr pageCount flags nodeOk => exact permitted.elim
  | clone src new nodes => exact Or.inr (inv.opens_clone lawful permitted returned small written)
  | free ptr vaddr =>
      obtain ⟨space, live, call⟩ := onSpace_ok returned
      cases call
      have frees := inv.pages.free vaddr lawful.discipline lawful.tight (Kernel.isRoot live)
        (inv.spaces ptr space live).regions (inv.lossyRegions lawful live)
      obtain ⟨shrunk, sameRoot, _⟩ := frees.shrunk inv.pages
      refine inv.writable_put live ?_ (fun place member allowed => Or.inl (shrunk.tightened place member allowed)) small written
      intro shown same
      rw [← Option.some.inj same]
      exact sameRoot
  | destroy ptr =>
      obtain ⟨space, live, call⟩ := onSpace_ok returned
      obtain ⟨m, destroyed, rest⟩ := Result.bind_ok call
      cases rest
      have gone := inv.pages.destroy lawful.discipline lawful.tight (Kernel.isRoot live) (inv.spaces ptr space live)
        (inv.lossyRegions lawful live) destroyed
      have noSpace : ∀ space', (none : Option Space) = some space' → space'.pml4Phys = space.pml4Phys := (by rintro _ ⟨⟩)
      exact inv.writable_put live noSpace (fun place member allowed => Or.inl (gone.tightened place member allowed)) small
        written
  | cowBreak ptr va =>
      obtain ⟨space, live, call⟩ := onSpace_ok returned
      obtain ⟨⟨m, space'⟩, broken, rest⟩ := Result.bind_ok call
      cases rest
      have breaks := vmmCowBreak_spec inv.pages.data (Kernel.isRoot live) (inv.spaces ptr space live).regions broken
      refine inv.writable_put live ?_ ?_ small written
      · intro shown same
        rw [← Option.some.inj same]
        exact (breaks.reflag fun region member => ((inv.spaces ptr space live).regions region member).used).1
      · intro place member allowed
        exact (breaks.gains live member allowed).imp id fun place => ⟨place.1, rfl, place.2⟩
  | write ptr va byte =>
      obtain ⟨space, live, call⟩ := onSpace_ok returned
      obtain ⟨⟨m, space'⟩, wrote, rest⟩ := Result.bind_ok call
      cases rest
      have isRoot := Kernel.isRoot live
      have regions := (inv.spaces ptr space live).regions
      rcases userWrite_cases inv.pages.data isRoot regions wrote with ⟨rfl, stored⟩ | ⟨middle, breaks, stored⟩
      · refine inv.writable_put live ?_ ?_ small written
        · intro shown same
          rw [Option.some.inj same]
        · intro place member allowed
          exact Or.inl ((tryStore_writable inv.pages.data isRoot permitted.1 stored member).mp allowed)
      · have sameRoot := (breaks.reflag fun region member => (regions region member).used).1
        refine inv.writable_put live ?_ ?_ small written
        · intro shown same
          rw [← Option.some.inj same]
          exact sameRoot
        · intro place member allowed
          have isRoot' : space'.pml4Phys ∈ k.roots := sameRoot ▸ isRoot
          have before := (tryStore_writable (breaks.data inv.pages.data) isRoot' permitted.1 stored member).mp allowed
          exact (breaks.gains live member before).imp id fun place => ⟨place.1, rfl, place.2⟩

end

/-- The kernel and the spaces that descend from one space by clones. -/
structure Lineage where
  kernel : Kernel
  family : Finset HeapPtr

def Lineage.step (l : Lineage) (op : Op) : Result Lineage := do
  let k ← l.kernel.step op
  match op with
  | .clone src (some ptr) _ => return ⟨k, if src ∈ l.family ∧ (k.spaces ptr).isSome then insert ptr l.family else l.family⟩
  | .destroy ptr => return ⟨k, l.family.erase ptr⟩
  | _ => return ⟨k, l.family⟩

/-- The calls of a run with copy-on-write, with faults that reach the handler without a store. -/
def faultOp (k : Kernel) (op : Op) : Bool :=
  cowSafe k op && match op with
    | .cowBreak .. => true
    | _ => cowOp k op

/-- The family takes no new allocations, and no fault hits a copy-on-write page of the range in the family. -/
def Lineage.keeps (base count : Nat) (l : Lineage) : Op → Bool
  | .alloc ptr .. => decide (ptr ∉ l.family)
  | .cowBreak ptr va | .write ptr va _ =>
    decide (ptr ∉ l.family) || !l.kernel.breaks ptr va || decide (va / pageSize < base / pageSize) ||
      decide (base / pageSize + count ≤ va / pageSize)
  | _ => true

section
variable {keep : Set Nat} {k k' : Kernel} {l l' : Lineage} {op : Op} {base count : Nat}

theorem faultOp_permits (inv : KernelInv sharedPolicy keep k) (allowed : faultOp k op = true) : sharedPolicy.permits k op := by
  cases op with
  | cowBreak ptr va => exact Or.inl trivial
  | create _ | alloc _ _ _ _ _ | mapPhys _ _ _ _ _ _ | clone _ _ _ | free _ _ | destroy _ | write _ _ _ =>
      have both := Bool.and_eq_true_iff.mp allowed
      exact cowSafe_permits inv both.2 both.1

theorem faultRun_inv {k₀ : Kernel} {ops : List Op} (boot : Boot k₀)
    (run : Run Kernel.step (fun k op => faultOp k op = true) k₀ ops k) : KernelInv sharedPolicy ∅ k := by
  refine run.invariant (KernelInv sharedPolicy ∅) ?_ (boot.kernelInv sharedPolicy)
  intro before op after inv allowed returned
  exact (inv.step sharedPolicy_lawful (faultOp_permits inv allowed) returned).1.mono (Set.empty_subset _)

/-- No page of the range is writable in a space of the family. -/
structure ReadOnlyInv (base count : Nat) (l : Lineage) : Prop where
  kernel : KernelInv sharedPolicy ∅ l.kernel
  small : base / pageSize + count ≤ 2 ^ 35
  readOnly : ∀ ptr ∈ l.family, ∀ i, i < count → ¬l.kernel.writablePage ptr (base / pageSize + i)

/-- A space of the family after a step was in it before, or it is a new clone of one. -/
theorem Lineage.family_step (returned : l.step op = .ok l') : l.kernel.step op = .ok l'.kernel ∧
    ∀ ptr ∈ l'.family, ptr ∈ l.family ∨ ∃ src nodes, op = .clone src (some ptr) nodes := by
  obtain ⟨k, stepped, rest⟩ := Result.bind_ok returned
  cases op with
  | clone src new nodes =>
      cases new with
      | none =>
          cases rest
          exact ⟨stepped, fun ptr member => Or.inl member⟩
      | some new =>
          cases rest
          refine ⟨stepped, ?_⟩
          intro ptr member
          simp only at member
          split at member
          · rcases Finset.mem_insert.mp member with same | old
            · exact Or.inr ⟨src, nodes, by rw [same]⟩
            · exact Or.inl old
          · exact Or.inl member
  | destroy ptr =>
      cases rest
      exact ⟨stepped, fun ptr member => Or.inl (Finset.mem_of_mem_erase member)⟩
  | create _ | alloc _ _ _ _ _ | mapPhys _ _ _ _ _ _ | free _ _ | cowBreak _ _ | write _ _ _ =>
      cases rest
      exact ⟨stepped, fun ptr member => Or.inl member⟩

/-- A new record has no pages. -/
theorem Kernel.clone_new {src ptr : HeapPtr} {nodes : Nat → Bool} (returned : k.step (.clone src (some ptr) nodes) = .ok k')
    (page : Nat) : ¬k.writablePage ptr page := by
  rintro ⟨space, live, _⟩
  have isNew : k.isNew (some ptr) = false := by rw [Kernel.isNew, live, Option.isNone_some]
  simp [Kernel.step, isNew] at returned

/-- A call that the lineage keeps opens no page of the range in the family. -/
theorem Lineage.keeps_closed {ptr : HeapPtr} {i : Nat} (keeps : l.keeps base count op = true) (member : ptr ∈ l.family)
    (inside : i < count) : ¬op.opens l.kernel ptr (base / pageSize + i) := by
  intro opens
  cases op with
  | alloc ptr' vaddr pageCount flags nodeOk =>
      obtain ⟨same, _⟩ := opens
      rw [same] at keeps
      exact of_decide_eq_true keeps member
  | cowBreak ptr' va | write ptr' va _ =>
      obtain ⟨same, breaks, here⟩ := opens
      rw [same] at keeps
      simp only [Lineage.keeps, breaks, member, not_true_eq_false, decide_false, Bool.not_true, Bool.false_or, Bool.or_eq_true,
        decide_eq_true_eq] at keeps
      omega
  | create _ | mapPhys _ _ _ _ _ _ | clone _ _ _ | free _ _ | destroy _ => exact opens

theorem ReadOnlyInv.step (inv : ReadOnlyInv base count l) (allowed : faultOp l.kernel op = true)
    (keeps : l.keeps base count op = true) (returned : l.step op = .ok l') : ReadOnlyInv base count l' := by
  obtain ⟨stepped, family⟩ := Lineage.family_step returned
  have permitted := faultOp_permits inv.kernel allowed
  refine ⟨(inv.kernel.step sharedPolicy_lawful permitted stepped).1.mono (Set.empty_subset _), inv.small, ?_⟩
  intro ptr member i inside written
  have small : base / pageSize + i < 2 ^ 35 := by
    have fits := inv.small
    omega
  have before := inv.kernel.opens_step sharedPolicy_lawful permitted stepped small written
  rcases family ptr member with old | ⟨src, nodes, isClone⟩
  · rcases before with opens | writable
    · exact Lineage.keeps_closed keeps old inside opens
    · exact inv.readOnly ptr old i inside writable
  · rw [isClone] at before stepped
    exact Kernel.clone_new stepped _ (before.resolve_left id)

end

/-- The pages of a region that was allocated without `VMM_REGION_WRITE` stay read-only in its space and in all clones, in
every run in which no fault hits one of them while its region is copy-on-write. -/
theorem read_only_kept {k₀ k k₁ : Kernel} {l : Lineage} {ops ops' : List Op} {ptr : HeapPtr} {vaddr pageCount : Nat}
    {flags : BitVec 32} {nodeOk : Bool} (boot : Boot k₀)
    (before : Run Kernel.step (fun k op => faultOp k op = true) k₀ ops k)
    (allowed : faultOp k (.alloc ptr vaddr pageCount flags nodeOk) = true) (readOnly : hasFlag flags vmmRegionWrite = false)
    (allocated : k.step (.alloc ptr vaddr pageCount flags nodeOk) = .ok k₁)
    (run : Run Lineage.step (fun l op => faultOp l.kernel op = true ∧ l.keeps (pageAlignDown vaddr) pageCount op = true)
      ⟨k₁, {ptr}⟩ ops' l) :
    ∀ ptr' ∈ l.family, ∀ space, l.kernel.spaces ptr' = some space → ∀ i, i < pageCount → ∀ entry,
      l.kernel.machine.findPte space.pml4Phys (pageAlignDown vaddr + i * pageSize) = some entry →
      entryWritable entry = false := by
  have inv := faultRun_inv boot before
  have permitted := faultOp_permits inv allowed
  obtain ⟨space, live, _⟩ := onSpace_ok allocated
  obtain ⟨range, apart⟩ := newRange_spec live permitted.1
  have small : pageAlignDown vaddr / pageSize + pageCount ≤ 2 ^ 35 := by
    have fits := range.fits
    have aligned := range.aligned
    simp only [pageSize] at *
    omega
  have start : ReadOnlyInv (pageAlignDown vaddr) pageCount ⟨k₁, {ptr}⟩ := by
    refine ⟨(inv.step sharedPolicy_lawful permitted allocated).1.mono (Set.empty_subset _), small, ?_⟩
    intro ptr' member i inside written
    rw [Finset.mem_singleton.mp member] at written
    rcases inv.opens_step sharedPolicy_lawful permitted allocated (by omega) written with ⟨_, isWrite, _⟩ | ⟨space', live', entry, found, _⟩
    · rw [readOnly] at isWrite
      cases isWrite
    · rw [live] at live'
      have isRoot := Kernel.isRoot live
      have sameSpace := Option.some.inj live'
      rw [← sameSpace] at found
      have shown : look k.machine (space.pml4Phys, pageAlignDown vaddr / pageSize + i) ≠ none := by
        rw [look, found]
        exact Option.some_ne_none _
      obtain ⟨region, member', covers⟩ := (inv.spaces ptr space live).covered _ (by omega) shown
      exact newRange_apart range ((inv.spaces ptr space live).regions region member') (apart region member')
        ⟨i, inside, rfl⟩ covers
  have final : ReadOnlyInv (pageAlignDown vaddr) pageCount l := by
    refine run.invariant (ReadOnlyInv (pageAlignDown vaddr) pageCount) ?_ start
    intro before op after held both returned
    exact held.step both.1 both.2 returned
  intro ptr' member space' live' i inside entry found
  cases allowed' : entryWritable entry with
  | false => rfl
  | true =>
      refine absurd ⟨space', live', entry, ?_, allowed'⟩ (final.readOnly ptr' member i inside)
      rw [← (range.address inside).2.2, findPte_align]
      exact found

/-- The read-only page stays read-only in the clone. -/
theorem read_only_kept_clone : ∃ k k₁ l,
    Run Kernel.step (fun k op => faultOp k op = true) smallKernel [.create (some (heapPtr 0))] k ∧
      k.step (.alloc (heapPtr 0) 0x400000 1 0x14 true) = .ok k₁ ∧
      Run Lineage.step (fun l op => faultOp l.kernel op = true ∧ l.keeps 0x400000 1 op = true) ⟨k₁, {heapPtr 0}⟩
        [.clone (heapPtr 0) (some (heapPtr 1)) fun _ => true] l ∧
      heapPtr 1 ∈ l.family ∧ ∀ space, l.kernel.spaces (heapPtr 1) = some space → ∀ entry,
        l.kernel.machine.findPte space.pml4Phys 0x400000 = some entry → entryWritable entry = false := by
  have checked : (exec Kernel.step faultOp [.create (some (heapPtr 0))] smallKernel).any (fun k =>
      faultOp k (.alloc (heapPtr 0) 0x400000 1 0x14 true) &&
      checkStep Kernel.step (.alloc (heapPtr 0) 0x400000 1 0x14 true) (fun _ k₁ =>
        (exec Lineage.step (fun l op => faultOp l.kernel op && l.keeps 0x400000 1 op)
          [.clone (heapPtr 0) (some (heapPtr 1)) fun _ => true] ⟨k₁, {heapPtr 0}⟩).any
            fun l => decide (heapPtr 1 ∈ l.family)) k) = true := by decide +kernel
  obtain ⟨k, run, shown⟩ := Run.exists_of_check checked
  obtain ⟨allowed, stepped⟩ := Bool.and_eq_true_iff.mp shown
  obtain ⟨k₁, allocated, cloned⟩ := exists_of_checkStep stepped
  obtain ⟨l, lineage, member⟩ := Run.exists_of_check cloned
  have lineage' : Run Lineage.step (fun l op => faultOp l.kernel op = true ∧ l.keeps 0x400000 1 op = true) ⟨k₁, {heapPtr 0}⟩
      [.clone (heapPtr 0) (some (heapPtr 1)) fun _ => true] l :=
    lineage.mono fun _ _ both => Bool.and_eq_true_iff.mp both
  have kept := read_only_kept smallKernel_boot run allowed rfl allocated lineage'
  refine ⟨k, k₁, l, run, allocated, lineage', of_decide_eq_true member, ?_⟩
  intro space live entry found
  exact kept _ (of_decide_eq_true member) space live 0 (by decide) entry found

/-- A write fault in a space that was cloned makes a page writable that was allocated read-only. -/
theorem read_only_lost : ∃ k k' space entry,
    Run Kernel.step (fun k op => faultOp k op = true) smallKernel
      [.create (some (heapPtr 0)), .alloc (heapPtr 0) 0x400000 1 0x14 true,
        .clone (heapPtr 0) (some (heapPtr 1)) fun _ => true] k ∧
      hasFlag 0x14 vmmRegionWrite = false ∧ k.step (.write (heapPtr 0) 0x400000 7) = .ok k' ∧
      k'.spaces (heapPtr 0) = some space ∧ k'.machine.findPte space.pml4Phys 0x400000 = some entry ∧
      entryWritable entry = true := by
  have checked : (exec Kernel.step faultOp [.create (some (heapPtr 0)), .alloc (heapPtr 0) 0x400000 1 0x14 true,
      .clone (heapPtr 0) (some (heapPtr 1)) fun _ => true] smallKernel).any
      (checkStep Kernel.step (.write (heapPtr 0) 0x400000 7) fun _ k' => (k'.spaces (heapPtr 0)).any fun space =>
        (k'.machine.findPte space.pml4Phys 0x400000).any entryWritable) = true := by decide +kernel
  obtain ⟨k, k', run, returned, shown⟩ := Run.exists_step_of_check checked
  obtain ⟨space, live, mapped⟩ := (Option.any_eq_true ..).mp shown
  obtain ⟨entry, found, written⟩ := (Option.any_eq_true ..).mp mapped
  exact ⟨k, k', space, entry, run, rfl, returned, live, found, written⟩

end DoccrOS.Mem
