import DoccrOS.Proof.Mem.Boot
import DoccrOS.Proof.Mem.FrameBudget

namespace DoccrOS.Mem
open Lib.Radix Lib

/-- The leaf entries of live spaces that map a frame, by space and page number. -/
def Kernel.mappings (k : Kernel) (frame : Nat) : Set (HeapPtr × Nat) :=
  {pair | ∃ space, k.spaces pair.1 = some space ∧ pair.2 < 2 ^ 35 ∧
    ∃ entry, k.machine.findPte space.pml4Phys (pair.2 * pageSize) = some entry ∧ entryAddr entry = frame * pageSize}

/-- A step of the kernel together with the frames that are handed out as data pages. -/
def countStep (state : Kernel × Set Nat) (op : Op) : Result (Kernel × Set Nat) :=
  (state.1.step op).map fun k => (k, state.1.handed k op state.2)

/-- The calls of the memory manager on new ranges of the user half without device flags. -/
def countOp (k : Kernel) : Op → Bool
  | .alloc ptr vaddr pageCount flags _ => k.newRange ptr vaddr pageCount && !hasFlag flags vmmRegionMmio
  | .mapPhys .. | .write .. => false
  | .create _ | .clone .. | .free .. | .destroy _ | .cowBreak .. => true

/-- The page to break is in a copy-on-write region and its frame is shared, or there is nothing to break. -/
def Kernel.sharedPage (k : Kernel) (ptr : HeapPtr) (va : Nat) : Bool :=
  match k.spaces ptr with
  | none => true
  | some space =>
    match vmmSpaceFind space (pageAlignDown va) with
    | none => true
    | some region => !hasFlag region.flags vmmRegionCow ||
      match k.machine.findPte space.pml4Phys (pageAlignDown va) with
      | none => true
      | some entry => decide (1 < (k.machine.phys.pageframes (entryAddr entry / pageSize)).rc)

/-- No frame is free, or there are free frames for all pages of the range and for the tables they lack. -/
def Kernel.enoughFrames (k : Kernel) (ptr : HeapPtr) (vaddr pageCount : Nat) : Bool :=
  match k.spaces ptr with
  | none => true
  | some space =>
    let free := physmemFreeGet k.machine.phys
    let tables := missingPaths k.machine space.pml4Phys (neededPaths (pageAlignDown vaddr) pageCount)
    decide (free = 0) || decide (pageCount + tables.card ≤ free)

/-- A run counts exactly if it breaks shared pages only and its allocations do not run out of frames halfway. -/
def countSafe (k : Kernel) : Op → Bool
  | .cowBreak ptr va => k.sharedPage ptr va
  | .alloc ptr vaddr pageCount _ _ => k.enoughFrames ptr vaddr pageCount
  | _ => true

def exactPolicy : Policy := ⟨Sharing.Exact, False⟩

theorem exactPolicy_lawful (keep : Set Nat) : exactPolicy.Lawful keep := by
  refine ⟨Sharing.exact_discipline, fun lossy => lossy.elim, ?_⟩
  intro _ rc refs related several
  unfold exactPolicy Sharing.Exact at related
  omega

section
variable {policy : Policy} {keep : Set Nat} {k : Kernel} {ptr : HeapPtr} {space : Space}

/-- The references of a frame are its leaf entries. -/
theorem KernelInv.mappings_ncard (inv : KernelInv policy keep k) (frame : Nat) :
    (k.mappings frame).ncard = (userView k.machine k.roots).count (frame * pageSize) := by
  let place (pair : HeapPtr × Nat) : Place := (((k.spaces pair.1).map (·.pml4Phys)).getD 0, pair.2)
  have injective : Set.InjOn place (k.mappings frame) := by
    intro first atFirst second atSecond same
    obtain ⟨space, live, _⟩ := atFirst
    obtain ⟨space', live', _⟩ := atSecond
    obtain ⟨sameRoot, samePage⟩ := Prod.mk.inj same
    rw [live, live'] at sameRoot
    exact Prod.ext (inv.distinct first.1 second.1 space space' live live' sameRoot) samePage
  have image : Set.image place (k.mappings frame) = (userView k.machine k.roots).refs (frame * pageSize) := by
    ext target
    constructor
    · rintro ⟨pair, ⟨space, live, small, entry, found, address⟩, same⟩
      rw [← same]
      refine pageView_map.mpr ⟨mem_userPlaces.mpr ⟨?_, small⟩, entry, ?_, address⟩
      · simp only [place, live]
        exact Kernel.isRoot live
      · simp only [place, live]
        exact found
    · intro mapped
      obtain ⟨tracked, entry, found, address⟩ := pageView_map.mp mapped
      obtain ⟨isRoot, small⟩ := mem_userPlaces.mp tracked
      obtain ⟨ptr, space, live, same⟩ := Kernel.mem_roots.mp isRoot
      refine ⟨(ptr, target.2), ⟨space, live, small, entry, ?_, address⟩, ?_⟩
      · rw [same]
        exact found
      · simp only [place, live]
        exact Prod.ext same rfl
  rw [Sharing.count, ← image, injective.ncard_image]

theorem rootsOf_card {P : Type} [Fintype P] (spaces : P → Option Space) : (rootsOf spaces).card ≤ Fintype.card P := by
  have small : ∀ ptr ∈ Finset.univ, (((spaces ptr).map (·.pml4Phys)).toFinset).card ≤ 1 := by
    intro ptr _
    cases spaces ptr with
    | none => simp
    | some space => simp
  have bound := Finset.card_biUnion_le_card_mul Finset.univ _ 1 small
  rw [Nat.mul_one, Finset.card_univ] at bound
  exact bound

theorem Kernel.roots_eq (k : Kernel) : k.roots = rootsOf k.spaces := by
  ext root
  rw [Kernel.mem_roots, mem_rootsOf]

/-- A frame has at most one reference for each live space. -/
theorem PageInv.count_le {rel : Nat → Nat → Prop} {m : Machine} {roots : Finset Nat} (inv : PageInv rel keep m roots)
    (cell : Nat) : (userView m roots).count cell ≤ roots.card := by
  have sub : Set.image Prod.fst ((userView m roots).refs cell) ⊆ roots := by
    rintro root ⟨place, mapped, same⟩
    rw [← same]
    exact (mem_userPlaces.mp (pageView_map.mp mapped).1).1
  have injective : Set.InjOn Prod.fst ((userView m roots).refs cell) := by
    intro first atFirst second atSecond same
    exact Prod.ext same (inv.onePage first second cell atFirst atSecond)
  rw [Sharing.count, ← injective.ncard_image, ← Set.ncard_coe_finset]
  exact Set.ncard_le_ncard sub roots.finite_toSet

/-- A safe call of the memory manager is permitted. -/
theorem countSafe_permits {op : Op} (inv : KernelInv exactPolicy keep k) (allowed : countOp k op = true)
    (safe : countSafe k op = true) : exactPolicy.permits k op := by
  cases op with
  | create new => trivial
  | alloc ptr vaddr pageCount flags nodeOk =>
      obtain ⟨range, noMmio⟩ := Bool.and_eq_true_iff.mp allowed
      refine ⟨range, Or.inr ⟨by simpa using noMmio, ?_⟩⟩
      intro space live i m
      have tables := inv.pages.data.tables
      obtain ⟨userRange, _⟩ := newRange_spec live range
      simp only [countSafe, Kernel.enoughFrames, live, Bool.or_eq_true, decide_eq_true_eq] at safe
      rcases safe with none | enough
      · exact vmmSpaceAllocPages_none tables none i
      · have isRoot : space.pml4Phys ∈ (k.roots : Set Nat) := Kernel.isRoot live
        exact vmmSpaceAllocPages_enough tables isRoot userRange (flagsToPte_page flags) enough (i + 1)
  | mapPhys ptr vaddr physAddr pageCount flags nodeOk => cases allowed
  | clone src new nodes =>
      intro space live page cell mapped refs positive related
      have counted := inv.pages.counted cell (Sharing.count_pos mapped)
      have bound := inv.pages.count_le cell
      have spaces := rootsOf_card k.spaces
      rw [← Kernel.roots_eq, heapPtr_card] at spaces
      unfold exactPolicy Sharing.Exact at *
      have fits : (userView k.machine k.roots).rc cell + 1 < 2 ^ 32 := by
        rw [counted]
        have heap : heapSize = 33554432 := rfl
        omega
      rw [wrap32, Nat.mod_eq_of_lt fits, related]
  | free ptr vaddr => trivial
  | destroy ptr => trivial
  | cowBreak ptr va =>
      refine Or.inr ?_
      intro space live region cell found cow mapped
      obtain ⟨_, entry, pte, address⟩ := pageView_map.mp mapped
      rw [findPte_align] at pte
      simp only [countSafe, Kernel.sharedPage, live, found, cow, Bool.not_true, Bool.false_or, pte, address,
        decide_eq_true_eq] at safe
      exact safe
  | write ptr va byte => cases allowed

end

theorem countStep_ok {before after : Kernel × Set Nat} {op : Op} (returned : countStep before op = .ok after) :
    before.1.step op = .ok after.1 ∧ after.2 = before.1.handed after.1 op before.2 := by
  cases stepped : before.1.step op with
  | error halt => simp [countStep, stepped, Except.map] at returned
  | ok k =>
      have same : (k, before.1.handed k op before.2) = after := by
        simpa [countStep, stepped, Except.map] using returned
      rw [← same]
      exact ⟨rfl, rfl⟩

/-- Every state of a safe run has exact counters, and the frames that are handed out as data pages are mapped. -/
theorem countRun_inv {k₀ k : Kernel} {data : Set Nat} {ops : List Op} (boot : Boot k₀)
    (run : Run countStep (fun state op => countOp state.1 op = true ∧ countSafe state.1 op = true) (k₀, ∅) ops
      (k, data)) : KernelInv exactPolicy data k := by
  have general : KernelInv exactPolicy (k, data).2 (k, data).1 := by
    refine run.invariant (fun state => KernelInv exactPolicy state.2 state.1) ?_ (boot.kernelInv exactPolicy)
    intro before op after inv allowed returned
    obtain ⟨stepped, handed⟩ := countStep_ok returned
    have held := inv.step (exactPolicy_lawful _) (countSafe_permits inv allowed.1 allowed.2) stepped
    rw [handed]
    exact held.1.mono fun frame member => ⟨fun lossy => lossy, member⟩
  exact general

/-- In a run that breaks shared pages only and never runs out of frames halfway through an allocation, the counter of
every data frame is the number of leaf entries that map it, and no mapped frame is marked free. -/
theorem cow_counts_exact {k₀ k : Kernel} {data : Set Nat} {ops : List Op} (boot : Boot k₀)
    (run : Run countStep (fun state op => countOp state.1 op = true ∧ countSafe state.1 op = true) (k₀, ∅) ops
      (k, data)) :
    (∀ frame ∈ data, (k.machine.phys.pageframes frame).rc = (k.mappings frame).ncard) ∧
      ∀ frame, k.machine.phys.used frame = false → (k.mappings frame).ncard = 0 := by
  have inv := countRun_inv boot run
  refine ⟨?_, ?_⟩
  · intro frame member
    rw [inv.mappings_ncard]
    obtain ⟨place, mapped⟩ := inv.pages.kept frame member
    have counted : Sharing.Exact _ _ := inv.pages.counted _ (Sharing.count_pos mapped)
    rw [← counted]
    change _ = (k.machine.phys.pageframes (frame * pageSize / pageSize)).rc
    rw [page_div]
  · intro frame free
    rw [inv.mappings_ncard]
    refine Sharing.count_zero_of_unmapped ?_
    intro place mapped
    have used := (inv.pages.data.data place _ mapped).1.used
    rw [page_div, free] at used
    cases used

/-- The call leaves the frame used. -/
def leavesUsed (frame : Nat) (k : Kernel) (op : Op) : Bool :=
  match k.step op with
  | .ok k => k.machine.phys.used frame
  | .error _ => false

/-- A data frame stays one while the calls leave it used. -/
theorem countRun_keeps {frame : Nat} {before after : Kernel × Set Nat} {ops : List Op} (member : frame ∈ before.2)
    (run : Run countStep (fun state op => (countOp state.1 op && leavesUsed frame state.1 op) = true) before ops after) :
    frame ∈ after.2 := by
  refine run.invariant (fun state => frame ∈ state.2) ?_ member
  intro first op second held allowed returned
  obtain ⟨stepped, handed⟩ := countStep_ok returned
  have used := (Bool.and_eq_true_iff.mp allowed).2
  rw [leavesUsed, stepped] at used
  rw [handed]
  exact ⟨used, Or.inl held⟩

/-- The space maps the page of the address to the frame. -/
def Kernel.mapsTo (k : Kernel) (ptr : HeapPtr) (va frame : Nat) : Bool :=
  (k.spaces ptr).any fun space => (k.machine.findPte space.pml4Phys va).any fun entry =>
    decide (entryAddr entry = frame * pageSize)

theorem Kernel.mapsTo_mappings {k : Kernel} {ptr : HeapPtr} {va frame : Nat} (maps : k.mapsTo ptr va frame = true)
    (user : UserVa va) : (ptr, va / pageSize) ∈ k.mappings frame := by
  simp only [Kernel.mapsTo, Option.any_eq_true, decide_eq_true_eq] at maps
  obtain ⟨space, live, entry, found, address⟩ := maps
  refine ⟨space, live, user.small, entry, ?_, address⟩
  rw [findPte_align]
  exact found

theorem Kernel.mappings_finite (k : Kernel) (frame : Nat) : (k.mappings frame).Finite := by
  refine (Set.finite_univ.prod (Set.finite_Iio (2 ^ 35))).subset ?_
  rintro pair ⟨_, _, small, _⟩
  exact ⟨trivial, small⟩

/-- A mapped frame lies in no table. -/
theorem KernelInv.mapped_notTable {policy : Policy} {keep : Set Nat} {k : Kernel} {frame : Nat}
    {pair : HeapPtr × Nat} (inv : KernelInv policy keep k) (mapped : pair ∈ k.mappings frame) :
    ¬TableFrame k.machine k.roots frame := by
  obtain ⟨space, live, small, entry, found, address⟩ := mapped
  have tracked : (space.pml4Phys, pair.2) ∈ userPlaces k.roots := mem_userPlaces.mpr ⟨Kernel.isRoot live, small⟩
  obtain ⟨allocated, notTable⟩ := inv.pages.data.data _ _ (pageView_map.mpr ⟨tracked, entry, found, address⟩)
  rintro ⟨table, owned, number⟩
  have same := frameNumber_inj (inv.pages.data.tables.allocated table owned).aligned allocated.aligned
    (number.trans (page_div frame).symm)
  exact notTable (same ▸ owned)

/-- The pages of one fork are broken in both spaces. -/
def bothBreak : List Op :=
  [.clone (heapPtr 0) (some (heapPtr 1)) fun _ => true, .cowBreak (heapPtr 0) 0x400000, .cowBreak (heapPtr 1) 0x400000]

theorem cow_counts_fail : ¬∀ (k₀ k : Kernel) (data : Set Nat) (ops : List Op), Boot k₀ →
    Run countStep (fun state op => countOp state.1 op = true) (k₀, ∅) ops (k, data) →
    (∀ frame ∈ data, (k.machine.phys.pageframes frame).rc = (k.mappings frame).ncard) ∧
      ∀ frame, k.machine.phys.used frame = false → (k.mappings frame).ncard = 0 := by
  intro claim
  have checked : (exec countStep (fun state op => countOp state.1 op && countSafe state.1 op)
      [.create (some (heapPtr 0))] (smallKernel, ∅)).any (checkStep countStep (.alloc (heapPtr 0) 0x400000 1 0x34 true)
        fun before after => countOp before.1 (.alloc (heapPtr 0) 0x400000 1 0x34 true) &&
          countSafe before.1 (.alloc (heapPtr 0) 0x400000 1 0x34 true) && !before.1.machine.phys.used 3 &&
          after.1.machine.phys.used 3 && after.1.mapsTo (heapPtr 0) 0x400000 3 &&
          (exec countStep (fun state op => countOp state.1 op && leavesUsed 3 state.1 op) bothBreak after).any
            fun final => final.1.mapsTo (heapPtr 1) 0x400000 3 &&
              decide ((final.1.machine.phys.pageframes 3).rc = 0)) = true := by decide +kernel
  obtain ⟨before, after, run₁, returned, shown⟩ := Run.exists_step_of_check checked
  simp only [Bool.and_eq_true, Bool.not_eq_true'] at shown
  obtain ⟨⟨⟨⟨⟨allowed, safe⟩, unused⟩, used⟩, mapped⟩, later⟩ := shown
  obtain ⟨final, run₂, last⟩ := Run.exists_of_check later
  have safeRun : Run countStep (fun state op => countOp state.1 op = true ∧ countSafe state.1 op = true)
      (smallKernel, ∅) ([.create (some (heapPtr 0))] ++ [.alloc (heapPtr 0) 0x400000 1 0x34 true]) after :=
    (run₁.mono fun _ _ both => Bool.and_eq_true_iff.mp both).append
      (Run.cons ⟨allowed, safe⟩ returned (Run.nil after))
  have inv : KernelInv exactPolicy after.2 after.1 := countRun_inv smallKernel_boot safeRun
  have member : 3 ∈ after.2 := by
    rw [(countStep_ok returned).2]
    exact ⟨used, Or.inr ⟨rfl, unused, inv.mapped_notTable (Kernel.mapsTo_mappings mapped (by decide))⟩⟩
  have run : Run countStep (fun state op => countOp state.1 op = true) (smallKernel, ∅)
      ([.create (some (heapPtr 0))] ++ [.alloc (heapPtr 0) 0x400000 1 0x34 true] ++ bothBreak) final :=
    (safeRun.mono fun _ _ both => both.1).append (run₂.mono fun _ _ both => (Bool.and_eq_true_iff.mp both).1)
  have exact_ := (claim smallKernel final.1 final.2 _ smallKernel_boot run).1 3 (countRun_keeps member run₂)
  simp only [Bool.and_eq_true, decide_eq_true_eq] at last
  rw [last.2] at exact_
  have some := Set.ncard_pos (final.1.mappings_finite 3) |>.mpr ⟨_, Kernel.mapsTo_mappings last.1 (by decide)⟩
  omega

/-- A fork whose source breaks its page counts both frames once. -/
theorem cow_counts_exact_fork : ∃ (k : Kernel) (data : Set Nat),
    Run countStep (fun state op => countOp state.1 op = true ∧ countSafe state.1 op = true) (smallKernel, ∅)
      ([.create (some (heapPtr 0)), .alloc (heapPtr 0) 0x400000 1 0x34 true] ++ bothBreak.take 2) (k, data) ∧
    ∀ frame ∈ data, (k.machine.phys.pageframes frame).rc = (k.mappings frame).ncard := by
  have checked : (exec countStep (fun state op => countOp state.1 op && countSafe state.1 op)
      ([.create (some (heapPtr 0)), .alloc (heapPtr 0) 0x400000 1 0x34 true] ++ bothBreak.take 2)
      (smallKernel, ∅)).any (fun _ => true) = true := by decide +kernel
  obtain ⟨final, run, _⟩ := Run.exists_of_check checked
  have safeRun : Run countStep (fun state op => countOp state.1 op = true ∧ countSafe state.1 op = true)
      (smallKernel, ∅) _ (final.1, final.2) := run.mono fun _ _ both => Bool.and_eq_true_iff.mp both
  exact ⟨final.1, final.2, safeRun, (cow_counts_exact smallKernel_boot safeRun).1⟩

end DoccrOS.Mem
