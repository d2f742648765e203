import DoccrOS.Proof.Mem.CowIsolation
import DoccrOS.Proof.Mem.FrameBudget

namespace DoccrOS.Mem
open Lib.Radix Lib

/-- The leaf entry of the address allows writes. -/
def Kernel.pageWritable (k : Kernel) (ptr : HeapPtr) (va : Nat) : Bool :=
  (k.spaces ptr).any fun space => (k.machine.findPte space.pml4Phys va).any entryWritable

/-- A write access of the source or the clone to a mapped page of one of its regions. -/
def cloneWrite (src new : HeapPtr) (k : Kernel) : Op → Bool
  | .write ptr va _ => (ptr == src || ptr == new) && (k.spaces ptr).any fun space =>
    (vmmSpaceFind space va).isSome && (k.machine.findPte space.pml4Phys va).isSome
  | _ => false

/-- A frame is free if the frame of the page is shared. -/
def frameReady (k : Kernel) : Op → Bool
  | .write ptr va _ => (k.spaces ptr).all fun space => (k.machine.findPte space.pml4Phys va).all fun entry =>
    decide ((k.machine.phys.pageframes (entryAddr entry / pageSize)).rc ≤ 1) || decide (0 < physmemFreeGet k.machine.phys)
  | _ => true

/-- Each space writes to one chosen page of each of its regions. -/
def onePage (chosen : HeapPtr → Nat → Nat) (k : Kernel) : Op → Bool
  | .write ptr va _ => (k.spaces ptr).all fun space => (vmmSpaceFind space va).all fun region =>
    decide (va / pageSize = chosen ptr region.base)
  | _ => true

section
variable {m m' : Machine} {roots : Finset Nat} {space space' : Space} {va : Nat} {byte : BitVec 8} {region : Region}

/-- A region holds an address exactly if it holds the page of the address. -/
theorem RegionInv.holds_align (inv : RegionInv region) (va : Nat) :
    region.holds (pageAlignDown va) = region.holds va := by
  have fits := inv.range.fits
  have aligned := inv.range.aligned
  have whole := inv.whole
  have wrapped : wrap64 (region.base + region.size) = region.base + region.size := by
    simp only [pageSize] at fits whole
    exact Nat.mod_eq_of_lt (by omega)
  rw [Bool.eq_iff_iff]
  simp only [Region.holds, wrapped, pageAlignDown_eq, Bool.and_eq_true, decide_eq_true_eq]
  simp only [pageSize] at *
  omega

theorem vmmSpaceFind_align (regions : ∀ region ∈ space.regions, RegionInv region) (va : Nat) :
    vmmSpaceFind space (pageAlignDown va) = vmmSpaceFind space va := by
  unfold vmmSpaceFind
  generalize space.regions = list at regions
  induction list with
  | nil => rfl
  | cons cur rest ih =>
      rw [List.find?_cons, List.find?_cons, (regions cur List.mem_cons_self).holds_align va,
        ih fun region member => regions region (List.mem_cons_of_mem _ member)]

/-- The processor stores exactly to writable pages. -/
theorem tryStore_iff (byte : BitVec 8) : (∃ after, tryStore m space va byte = some after) ↔
    (userView m roots).writable (space.pml4Phys, va / pageSize) := by
  change _ ↔ ∃ entry, m.findPte space.pml4Phys (va / pageSize * pageSize) = some entry ∧ entryWritable entry = true
  rw [findPte_align]
  unfold tryStore
  cases entry : m.findPte space.pml4Phys va with
  | none => simp
  | some pte => cases writable : entryWritable pte <;> simp [writable]

/-- A store changes no leaf entry. -/
theorem tryStore_writable (data : DataInv m roots (userPlaces roots)) (isRoot : space.pml4Phys ∈ roots) (user : UserVa va)
    (stored : tryStore m space va byte = some m') {place : Place} (tracked : place ∈ userPlaces roots) :
    (userView m' roots).writable place ↔ (userView m roots).writable place := by
  unfold tryStore at stored
  cases entry : m.findPte space.pml4Phys va with
  | none => simp [entry] at stored
  | some pte =>
      have mapped : (userView m roots).map (space.pml4Phys, va / pageSize) = some (entryAddr pte) := by
        refine pageView_map.mpr ⟨mem_userPlaces.mpr ⟨isRoot, user.small⟩, pte, ?_, rfl⟩
        rw [findPte_align]
        exact entry
      cases allowed : entryWritable pte with
      | false => simp [entry, allowed] at stored
      | true =>
          simp only [entry, allowed, if_true] at stored
          injection stored with same
          obtain ⟨isRoot', small⟩ := mem_userPlaces.mp tracked
          have leaf := (data.setPage (storedPage (m.ram (entryAddr pte)) (va % pageSize) byte)
            (data.data _ _ mapped).2).2.2 place.1 isRoot' _ (userVa_page small)
          rw [← storeByte_eq, same] at leaf
          change (∃ entry, m'.findPte _ _ = some entry ∧ _) ↔ ∃ entry, m.findPte _ _ = some entry ∧ _
          rw [leaf]

/-- A write access leaves its page writable and the flags of all other pages as they were. -/
theorem userWrite_writable (data : DataInv m roots (userPlaces roots)) (isRoot : space.pml4Phys ∈ roots) (user : UserVa va)
    (regions : ∀ region ∈ space.regions, RegionInv region) (breakData : ∀ middle, Breaks m roots space va middle space' →
      DataInv middle roots (userPlaces roots))
    (returned : userWrite m space va byte = .ok (m', space')) :
    (userView m' roots).writable (space.pml4Phys, va / pageSize) ∧ ∀ place ∈ userPlaces roots,
      (userView m roots).writable place → (userView m' roots).writable place := by
  have tracked : (space.pml4Phys, va / pageSize) ∈ userPlaces roots := mem_userPlaces.mpr ⟨isRoot, user.small⟩
  rcases userWrite_cases data isRoot regions returned with ⟨rfl, stored⟩ | ⟨middle, breaks, stored⟩
  · have here : (userView m roots).writable (space'.pml4Phys, va / pageSize) := (tryStore_iff byte).mp ⟨m', stored⟩
    refine ⟨(tryStore_writable data isRoot user stored tracked).mpr here, ?_⟩
    intro place member
    exact (tryStore_writable data isRoot user stored member).mpr
  · have sameRoot := (breaks.reflag fun region member => (regions region member).used).1
    have isRoot' : space'.pml4Phys ∈ roots := sameRoot ▸ isRoot
    have here : (userView middle roots).writable (space.pml4Phys, va / pageSize) := by
      rw [← sameRoot]
      exact (tryStore_iff byte).mp ⟨m', stored⟩
    have after : ∀ place ∈ userPlaces roots, (userView m' roots).writable place ↔ (userView middle roots).writable place :=
      fun place member => tryStore_writable (breakData middle breaks) isRoot' user stored member
    refine ⟨(after _ tracked).mpr here, ?_⟩
    intro place member writable
    refine (after place member).mpr ?_
    by_cases same : place = (space.pml4Phys, va / pageSize)
    · rw [same]
      exact here
    · refine (breaks.writable_other member ?_).mpr writable
      rw [pageAlignDown_div]
      exact same

/-- A write access to a mapped page returns if the page is writable or its region is copy-on-write. -/
theorem userWrite_ok (byte : BitVec 8) {entry : Word} (data : DataInv m roots (userPlaces roots)) (isRoot : space.pml4Phys ∈ roots)
    (regions : ∀ region ∈ space.regions, RegionInv region) (found : vmmSpaceFind space va = some region)
    (mapped : m.findPte space.pml4Phys va = some entry)
    (ready : (userView m roots).writable (space.pml4Phys, va / pageSize) ∨ hasFlag region.flags vmmRegionCow = true)
    (frames : (userView m roots).rc (entryAddr entry) ≤ 1 ∨ ∃ frame, m.phys.Free frame) :
    ∃ m' space', userWrite m space va byte = .ok (m', space') := by
  unfold userWrite
  cases stored : tryStore m space va byte with
  | some after => exact ⟨after, space, rfl⟩
  | none =>
      have readOnly : ¬(userView m roots).writable (space.pml4Phys, va / pageSize) := by
        intro writable
        obtain ⟨after, returned⟩ := (tryStore_iff byte).mpr writable
        rw [stored] at returned
        cases returned
      have cow := ready.resolve_left readOnly
      have user := vmmSpaceFind_user regions found
      have foundPage : vmmSpaceFind space (pageAlignDown va) = some region := (vmmSpaceFind_align regions va).trans found
      have entryPage : m.findPte space.pml4Phys (pageAlignDown va) = some entry := by
        rw [pageAlignDown_eq, findPte_align]
        exact mapped
      obtain ⟨middle, space', broken⟩ : ∃ middle space', vmmCowBreak m space va = .ok (middle, space') := by
        refine vmmCowBreak_ok data isRoot regions ?_
        intro cell atPage
        obtain ⟨_, pte, shown, address⟩ := pageView_map.mp atPage
        rw [findPte_align, entryPage] at shown
        injection shown with same
        rw [← address, ← same]
        exact frames
      have breaks := vmmCowBreak_spec data isRoot regions broken
      have writable := breaks.writable ⟨region, foundPage, cow, by rw [entryPage]; rfl⟩
      rw [pageAlignDown_div, ← (breaks.reflag fun region member => (regions region member).used).1] at writable
      obtain ⟨after, storedAgain⟩ := (tryStore_iff byte).mpr writable
      refine ⟨after, space', ?_⟩
      have handled : cowPageFaultHandler m space va 3 = .ok (middle, space') := by
        simp only [cowPageFaultHandler, found, cow]
        exact broken
      simp only [mapped, Option.isSome_some, if_true, handled, Result.ok_bind, storedAgain]
      rfl

/-- A write access gives new flags to a region that holds its address only. -/
theorem userWrite_regions (data : DataInv m roots (userPlaces roots)) (isRoot : space.pml4Phys ∈ roots)
    (regions : ∀ region ∈ space.regions, RegionInv region) (returned : userWrite m space va byte = .ok (m', space')) :
    space'.pml4Phys = space.pml4Phys ∧ ∀ region ∈ space'.regions, region ∈ space.regions ∨
      ∃ found, vmmSpaceFind space va = some found ∧ region.base = found.base := by
  rcases userWrite_cases data isRoot regions returned with ⟨rfl, _⟩ | ⟨middle, breaks, _⟩
  · exact ⟨rfl, fun region member => Or.inl member⟩
  · refine ⟨(breaks.reflag fun region member => (regions region member).used).1, ?_⟩
    intro region member
    have broken (flags : BitVec 32) (inside : region ∈ setFoundFlags (pageAlignDown va) flags space.regions) :
        region ∈ space.regions ∨ ∃ found, vmmSpaceFind space va = some found ∧ region.base = found.base := by
      rcases mem_setFoundFlags inside with old | ⟨found, first, same⟩
      · exact Or.inl old
      · refine Or.inr ⟨found, ?_, by rw [same]⟩
        rw [← vmmSpaceFind_align regions va]
        exact first
    cases breaks with
    | nothing idle => exact Or.inl member
    | sole found cow mapped few page => exact broken _ member
    | copy found cow mapped several page => exact broken _ member

end

section
variable {chosen : HeapPtr → Nat → Nat} {src new ptr : HeapPtr} {k k' : Kernel} {va : Nat} {byte : BitVec 8}
  {nodes : Nat → Bool}

/-- Every region of the two spaces is still copy-on-write, or its chosen page is writable. -/
structure Resolving (chosen : HeapPtr → Nat → Nat) (src new : HeapPtr) (k : Kernel) : Prop where
  inv : KernelInv sharedPolicy ∅ k
  ready : ∀ ptr, ptr = src ∨ ptr = new → ∀ space, k.spaces ptr = some space → ∀ region ∈ space.regions,
    (chosen ptr region.base < 2 ^ 35 ∧ (userView k.machine k.roots).writable (space.pml4Phys, chosen ptr region.base)) ∨
      hasFlag region.flags vmmRegionCow = true

/-- A clone makes every region of both spaces copy-on-write. -/
theorem Resolving.clone (chosen : HeapPtr → Nat → Nat) (inv : KernelInv sharedPolicy ∅ k)
    (safe : cowSafe k (.clone src (some new) nodes) = true) (returned : k.step (.clone src (some new) nodes) = .ok k')
    (success : (k'.spaces new).isSome = true) : Resolving chosen src new k' := by
  have permitted : sharedPolicy.permits k (.clone src (some new) nodes) := cowSafe_permits inv rfl safe
  refine ⟨(inv.step sharedPolicy_lawful permitted returned).1.mono (Set.empty_subset _), ?_⟩
  unfold Kernel.step at returned
  cases isNew : k.isNew (some new) with
  | false => simp [isNew] at returned
  | true =>
      simp only [isNew, Bool.not_true, Bool.false_eq_true, if_false] at returned
      obtain ⟨space, live, call⟩ := onSpace_ok returned
      obtain ⟨⟨clone, m, space'⟩, cloned, rest⟩ := Result.bind_ok call
      have dead : k.spaces new = none := by simpa [Kernel.isNew] using isNew
      have different : new ≠ src := by
        intro clash
        rw [clash, live] at dead
        cases dead
      have result := (inv.pages.clone sharedPolicy_lawful.discipline sharedPolicy_lawful.tight (Kernel.isRoot live)
        (inv.spaces src space live) (permitted space live) (inv.lossyRegions sharedPolicy_lawful live) cloned).1
      cases result with
      | failed pages sameLook =>
          have same : k.put src m (some space') = k' := Except.ok.inj rest
          rw [← same, put_spaces, if_neg different, dead] at success
          cases success
      | cloned dst fresh pages sameLook copied dstInv dstFlags cow =>
          have same : (k.put src m (some space')).put new m (some dst) = k' := Except.ok.inj rest
          rw [← same]
          intro ptr side value shown region member
          rw [put_spaces, put_spaces] at shown
          rcases side with here | here
          · rw [here, if_neg (Ne.symm different), if_pos rfl] at shown
            injection shown with isValue
            exact Or.inr (cow region (List.mem_append_left _ (isValue ▸ member)))
          · rw [here, if_pos rfl] at shown
            injection shown with isValue
            exact Or.inr (cow region (List.mem_append_right _ (isValue ▸ member)))

/-- What a permitted write access of the source or the clone finds. -/
theorem cloneWrite_spec (allowed : cloneWrite src new k (.write ptr va byte) = true) :
    (ptr = src ∨ ptr = new) ∧ ∃ space region entry, k.spaces ptr = some space ∧ vmmSpaceFind space va = some region ∧
      k.machine.findPte space.pml4Phys va = some entry := by
  simp only [cloneWrite, Bool.and_eq_true, Bool.or_eq_true, beq_iff_eq, Option.any_eq_true, Option.isSome_iff_exists]
    at allowed
  obtain ⟨side, space, live, ⟨region, found⟩, entry, mapped⟩ := allowed
  exact ⟨side, space, region, entry, live, found, mapped⟩

/-- A write access to the chosen page returns. -/
theorem Resolving.write_ok (state : Resolving chosen src new k)
    (allowed : cloneWrite src new k (.write ptr va byte) = true) (single : onePage chosen k (.write ptr va byte) = true)
    (frames : frameReady k (.write ptr va byte) = true) : ∃ k', k.step (.write ptr va byte) = .ok k' := by
  obtain ⟨side, space, region, entry, live, found, mapped⟩ := cloneWrite_spec allowed
  have isRoot : space.pml4Phys ∈ k.roots := Kernel.isRoot live
  have regions := (state.inv.spaces ptr space live).regions
  have here : va / pageSize = chosen ptr region.base := by simpa [onePage, live, found] using single
  have ready := (state.ready ptr side space live region (List.mem_of_find?_eq_some found)).imp_left And.right
  rw [← here] at ready
  have available : (userView k.machine k.roots).rc (entryAddr entry) ≤ 1 ∨ ∃ frame, k.machine.phys.Free frame := by
    simp only [frameReady, live, mapped, Option.all_some, Bool.or_eq_true, decide_eq_true_eq] at frames
    rcases frames with few | positive
    · exact Or.inl few
    · exact Or.inr (physmemFreeGet_pos positive)
  obtain ⟨m', space', written⟩ :=
    userWrite_ok byte state.inv.pages.data isRoot regions found mapped ready available
  refine ⟨k.put ptr m' (some space'), ?_⟩
  simp only [Kernel.step, Kernel.onSpace, live, written]
  rfl

/-- A write access leaves its page writable and keeps the state of the regions. -/
theorem Resolving.write (state : Resolving chosen src new k)
    (allowed : cloneWrite src new k (.write ptr va byte) = true) (single : onePage chosen k (.write ptr va byte) = true)
    (returned : k.step (.write ptr va byte) = .ok k') :
    Resolving chosen src new k' ∧ k'.pageWritable ptr va = true := by
  obtain ⟨side, space, region, entry, live, found, mapped⟩ := cloneWrite_spec allowed
  have isRoot : space.pml4Phys ∈ k.roots := Kernel.isRoot live
  have regions := (state.inv.spaces ptr space live).regions
  have user := vmmSpaceFind_user regions found
  have permitted : sharedPolicy.permits k (.write ptr va byte) := ⟨user, Or.inl trivial⟩
  have inv' := (state.inv.step sharedPolicy_lawful permitted returned).1.mono (Set.empty_subset _)
  obtain ⟨space₀, live₀, call⟩ := onSpace_ok returned
  obtain rfl : space₀ = space := Option.some.inj (live₀.symm.trans live)
  obtain ⟨⟨m', space'⟩, written, rest⟩ := Result.bind_ok call
  injection rest with same
  have breakData : ∀ middle, Breaks k.machine k.roots space₀ va middle space' →
      DataInv middle k.roots (userPlaces k.roots) := by
    intro middle breaks
    obtain ⟨⟨more, _, after, _⟩, _, sameRoot⟩ :=
      state.inv.breakPage sharedPolicy_lawful live permitted.2 breaks
    have pages := after.pages
    rw [put_roots live sameRoot] at pages
    exact pages.data
  obtain ⟨here, kept⟩ := userWrite_writable state.inv.pages.data isRoot user regions breakData written
  obtain ⟨sameRoot, origin⟩ := userWrite_regions state.inv.pages.data isRoot regions written
  have chosenHere : va / pageSize = chosen ptr region.base := by simpa [onePage, live, found] using single
  rw [← same] at inv' ⊢
  refine ⟨⟨inv', ?_⟩, ?_⟩
  · intro other side' value shown cur member
    rw [put_roots live sameRoot, put_machine]
    rw [put_spaces] at shown
    by_cases isPtr : other = ptr
    · rw [if_pos isPtr] at shown
      injection shown with isValue
      rw [← isValue] at member ⊢
      rw [isPtr, sameRoot]
      rcases origin cur member with old | ⟨found', first, sameBase⟩
      · refine (state.ready ptr side space₀ live cur old).imp_left fun writable => ⟨writable.1, ?_⟩
        exact kept _ (mem_userPlaces.mpr ⟨isRoot, writable.1⟩) writable.2
      · rw [sameBase, Option.some.inj (first.symm.trans found), ← chosenHere]
        exact Or.inl ⟨user.small, here⟩
    · rw [if_neg isPtr] at shown
      refine (state.ready other side' value shown cur member).imp_left fun writable => ⟨writable.1, ?_⟩
      exact kept _ (mem_userPlaces.mpr ⟨Kernel.isRoot shown, writable.1⟩) writable.2
  · simp only [Kernel.pageWritable, put_spaces, if_true, put_machine, Option.any_some]
    obtain ⟨pte, shown, allowed'⟩ := here
    rw [findPte_align] at shown
    rw [sameRoot, shown]
    exact allowed'

end

/-- A region in which each space writes to at most one page resolves every fault: after a clone, each write access of
the source or the clone to a mapped page returns and leaves the page writable. -/
theorem cow_fault_resolved {chosen : HeapPtr → Nat → Nat} {k₀ k k₁ k₂ : Kernel} {ops more : List Op}
    {src new ptr : HeapPtr} {nodes : Nat → Bool} {va : Nat} {byte : BitVec 8} (boot : Boot k₀)
    (run : Run Kernel.step (fun k op => cowOp k op = true ∧ cowSafe k op = true) k₀ ops k)
    (safe : cowSafe k (.clone src (some new) nodes) = true) (cloned : k.step (.clone src (some new) nodes) = .ok k₁)
    (success : (k₁.spaces new).isSome = true)
    (writes : Run Kernel.step
      (fun k op => cloneWrite src new k op = true ∧ frameReady k op = true ∧ onePage chosen k op = true) k₁ more k₂)
    (allowed : cloneWrite src new k₂ (.write ptr va byte) = true) (frames : frameReady k₂ (.write ptr va byte) = true)
    (single : onePage chosen k₂ (.write ptr va byte) = true) :
    ∃ k₃, k₂.step (.write ptr va byte) = .ok k₃ ∧ k₃.pageWritable ptr va = true := by
  have start : Resolving chosen src new k₁ := Resolving.clone chosen (cowRun_inv boot run) safe cloned success
  have state : Resolving chosen src new k₂ := by
    refine writes.invariant (Resolving chosen src new) ?_ start
    intro before op after state permitted returned
    cases op with
    | write ptr va byte => exact (state.write permitted.1 permitted.2.2 returned).1
    | _ => cases permitted.1
  obtain ⟨k₃, returned⟩ := state.write_ok allowed single frames
  exact ⟨k₃, returned, (state.write allowed single returned).2⟩

/-- A space with a writable region of two pages. -/
def twoPages : List Op := [.create (some (heapPtr 0)), .alloc (heapPtr 0) 0x400000 2 0x34 true]

def cloneTwoPages : Op := .clone (heapPtr 0) (some (heapPtr 1)) fun _ => true

/-- The source writes to the first page and the clone to the second one. -/
def onePageEach (ptr : HeapPtr) (base : Nat) : Nat := base / pageSize + ptr.offset

/-- Every region of the space allows writes. -/
def Kernel.allWritable (k : Kernel) (ptr : HeapPtr) : Bool :=
  (k.spaces ptr).any fun space => space.regions.all fun region => hasFlag region.flags vmmRegionWrite

/-- The first break makes the whole region writable in the records and one page in the tables, so the write access to
its second page ends in the panic of the handler. -/
theorem cow_fault_panics : ¬∀ (k₀ k k₁ k₂ : Kernel) (ops more : List Op) (src new ptr : HeapPtr) (nodes : Nat → Bool)
    (va : Nat) (byte : BitVec 8), Boot k₀ →
    Run Kernel.step (fun k op => cowOp k op = true ∧ cowSafe k op = true) k₀ ops k → k.allWritable src = true →
    cowSafe k (.clone src (some new) nodes) = true → k.step (.clone src (some new) nodes) = .ok k₁ →
    (k₁.spaces new).isSome = true →
    Run Kernel.step (fun k op => cloneWrite src new k op = true ∧ frameReady k op = true) k₁ more k₂ →
    cloneWrite src new k₂ (.write ptr va byte) = true → frameReady k₂ (.write ptr va byte) = true →
    ∃ k₃, k₂.step (.write ptr va byte) = .ok k₃ ∧ k₃.pageWritable ptr va = true := by
  intro claim
  have checked : (exec Kernel.step (fun k op => cowOp k op && cowSafe k op) twoPages smallKernel).any (fun k =>
      k.allWritable (heapPtr 0) && cowSafe k cloneTwoPages && checkStep Kernel.step cloneTwoPages (fun _ k₁ =>
        (k₁.spaces (heapPtr 1)).isSome && (exec Kernel.step
          (fun k op => cloneWrite (heapPtr 0) (heapPtr 1) k op && frameReady k op) [.write (heapPtr 0) 0x400000 7] k₁).any
            fun k₂ => cloneWrite (heapPtr 0) (heapPtr 1) k₂ (.write (heapPtr 0) 0x401000 8) &&
              frameReady k₂ (.write (heapPtr 0) 0x401000 8) &&
              !checkStep Kernel.step (.write (heapPtr 0) 0x401000 8) (fun _ _ => true) k₂) k) = true := by
    decide +kernel
  obtain ⟨k, run, shown⟩ := Run.exists_of_check checked
  simp only [Bool.and_eq_true] at shown
  obtain ⟨⟨writable, safe⟩, stepped⟩ := shown
  obtain ⟨k₁, cloned, after⟩ := exists_of_checkStep stepped
  obtain ⟨success, written⟩ := Bool.and_eq_true_iff.mp after
  obtain ⟨k₂, writes, last⟩ := Run.exists_of_check written
  simp only [Bool.and_eq_true, Bool.not_eq_true'] at last
  obtain ⟨⟨allowed, frames⟩, fails⟩ := last
  obtain ⟨k₃, returned, _⟩ := claim smallKernel k k₁ k₂ twoPages _ (heapPtr 0) (heapPtr 1) (heapPtr 0) _ 0x401000 8
    smallKernel_boot (run.mono fun _ _ both => Bool.and_eq_true_iff.mp both) writable safe cloned success
    (writes.mono fun _ _ both => Bool.and_eq_true_iff.mp both) allowed frames
  rw [checkStep, returned] at fails
  cases fails

theorem cow_fault_resolved_one_page_each : ∃ k k₁ k₂ k₃ : Kernel,
    Run Kernel.step (fun k op => cowOp k op = true ∧ cowSafe k op = true) smallKernel twoPages k ∧
      k.step cloneTwoPages = .ok k₁ ∧ k₁.step (.write (heapPtr 0) 0x400000 7) = .ok k₂ ∧
      k₂.step (.write (heapPtr 1) 0x401000 8) = .ok k₃ ∧ k₃.pageWritable (heapPtr 1) 0x401000 = true := by
  have checked : (exec Kernel.step (fun k op => cowOp k op && cowSafe k op) twoPages smallKernel).any (fun k =>
      cowSafe k cloneTwoPages && checkStep Kernel.step cloneTwoPages (fun _ k₁ => (k₁.spaces (heapPtr 1)).isSome &&
        cloneWrite (heapPtr 0) (heapPtr 1) k₁ (.write (heapPtr 0) 0x400000 7) &&
        frameReady k₁ (.write (heapPtr 0) 0x400000 7) && onePage onePageEach k₁ (.write (heapPtr 0) 0x400000 7) &&
        checkStep Kernel.step (.write (heapPtr 0) 0x400000 7) (fun _ k₂ =>
          cloneWrite (heapPtr 0) (heapPtr 1) k₂ (.write (heapPtr 1) 0x401000 8) &&
          frameReady k₂ (.write (heapPtr 1) 0x401000 8) && onePage onePageEach k₂ (.write (heapPtr 1) 0x401000 8)) k₁) k) =
        true := by
    decide +kernel
  obtain ⟨k, run, shown⟩ := Run.exists_of_check checked
  obtain ⟨safe, stepped⟩ := Bool.and_eq_true_iff.mp shown
  obtain ⟨k₁, cloned, after⟩ := exists_of_checkStep stepped
  simp only [Bool.and_eq_true] at after
  obtain ⟨⟨⟨⟨success, allowed₁⟩, frames₁⟩, single₁⟩, written⟩ := after
  obtain ⟨k₂, returned₂, last⟩ := exists_of_checkStep written
  simp only [Bool.and_eq_true] at last
  obtain ⟨⟨allowed, frames⟩, single⟩ := last
  have run' : Run Kernel.step (fun k op => cowOp k op = true ∧ cowSafe k op = true) smallKernel twoPages k :=
    run.mono fun _ _ both => Bool.and_eq_true_iff.mp both
  obtain ⟨k₃, returned, writable⟩ := cow_fault_resolved smallKernel_boot run' safe cloned success
    (Run.cons ⟨allowed₁, frames₁, single₁⟩ returned₂ (Run.nil k₂)) allowed frames single
  exact ⟨k, k₁, k₂, k₃, run', cloned, returned₂, returned, writable⟩

end DoccrOS.Mem
