import DoccrOS.Proof.Mem.Boot

namespace DoccrOS.Mem
open Lib.Radix Lib

/-- The calls of a run with copy-on-write: no device mappings, new ranges in the user half, user write accesses. -/
def cowOp (k : Kernel) : Op → Bool
  | .alloc ptr vaddr pageCount _ _ => k.newRange ptr vaddr pageCount
  | .write _ va _ => decide (va < 2 ^ 47)
  | .mapPhys .. | .cowBreak .. => false
  | .create _ | .clone .. | .free .. | .destroy _ => true

/-- Every mapped page of the space has a frame whose counter is not zero and can grow. -/
def Kernel.countedPages (k : Kernel) (src : HeapPtr) : Bool :=
  match k.spaces src with
  | none => true
  | some space => space.regions.all fun region => (List.range (region.size / pageSize)).all fun i =>
    match k.machine.findPte space.pml4Phys (region.base + i * pageSize) with
    | none => true
    | some entry =>
      let rc := (k.machine.phys.pageframes (entryAddr entry / pageSize)).rc
      decide (rc ≠ 0) && decide (rc + 1 < 2 ^ 32)

/-- A run is safe if it clones no space with an uncounted frame. -/
def cowSafe (k : Kernel) : Op → Bool
  | .clone src _ _ => k.countedPages src
  | _ => true

def sharedPolicy : Policy := ⟨Sharing.Sound, True⟩

theorem sharedPolicy_lawful : sharedPolicy.Lawful ∅ := by
  refine ⟨Sharing.sound_discipline, fun _ => ⟨rfl, ?_, Or.inr ⟨rfl, Nat.le_refl 1⟩⟩, fun strict => absurd trivial strict⟩
  intro rc refs related several
  unfold sharedPolicy Sharing.Sound at *
  omega

section
variable {policy : Policy} {keep : Set Nat} {k : Kernel} {ptr : HeapPtr} {space : Space}

/-- The counters that `countedPages` inspects are those of all mapped pages. -/
theorem Kernel.countedPages_spec (inv : KernelInv policy keep k) (counted : k.countedPages ptr = true)
    (live : k.spaces ptr = some space) {page cell : Nat}
    (mapped : (userView k.machine k.roots).map (space.pml4Phys, page) = some cell) :
    (userView k.machine k.roots).rc cell ≠ 0 ∧ (userView k.machine k.roots).rc cell + 1 < 2 ^ 32 := by
  obtain ⟨tracked, entry, found, address⟩ := pageView_map.mp mapped
  have shown : look k.machine (space.pml4Phys, page) ≠ none := by
    rw [look, found]
    exact Option.some_ne_none _
  have spaceInv := inv.spaces ptr space live
  obtain ⟨region, member, covers⟩ := spaceInv.covered page (mem_userPlaces.mp tracked).2 shown
  obtain ⟨i, inside, same⟩ := Region.covers_iff.mp covers
  unfold Kernel.countedPages at counted
  simp only [live, List.all_eq_true, List.mem_range] at counted
  have here := counted region member i inside
  have number := ((spaceInv.regions region member).range.address inside).2.2
  have found' : k.machine.findPte space.pml4Phys (region.base + i * pageSize) = some entry := by
    rw [← findPte_align, number, ← same]
    exact found
  simp only [found', address, Bool.and_eq_true, decide_eq_true_eq] at here
  exact here

/-- A safe call of a run with copy-on-write is permitted. -/
theorem cowSafe_permits {op : Op} (inv : KernelInv sharedPolicy keep k) (allowed : cowOp k op = true)
    (safe : cowSafe k op = true) : sharedPolicy.permits k op := by
  cases op with
  | create new => trivial
  | alloc ptr vaddr pageCount flags nodeOk => exact ⟨allowed, Or.inl trivial⟩
  | mapPhys ptr vaddr physAddr pageCount flags nodeOk => cases allowed
  | clone src new nodes =>
      intro space live page cell mapped refs positive related
      obtain ⟨nonzero, fits⟩ := Kernel.countedPages_spec inv safe live mapped
      have wrapped : wrap32 ((userView k.machine k.roots).rc cell + 1) = (userView k.machine k.roots).rc cell + 1 :=
        Nat.mod_eq_of_lt fits
      rw [wrapped]
      unfold sharedPolicy Sharing.Sound at *
      omega
  | free ptr vaddr => trivial
  | destroy ptr => trivial
  | cowBreak ptr va => cases allowed
  | write ptr va byte => exact ⟨decide_eq_true_eq.mp allowed, Or.inl trivial⟩

end

/-- Every state of a safe run has sound counters and unshared writable pages. -/
theorem cowRun_inv {k₀ k : Kernel} {ops : List Op} (boot : Boot k₀)
    (run : Run Kernel.step (fun k op => cowOp k op = true ∧ cowSafe k op = true) k₀ ops k) :
    KernelInv sharedPolicy ∅ k := by
  refine run.invariant (KernelInv sharedPolicy ∅) ?_ (boot.kernelInv sharedPolicy)
  intro before op after inv allowed returned
  exact (inv.step sharedPolicy_lawful (cowSafe_permits inv allowed.1 allowed.2) returned).1.mono (Set.empty_subset _)

/-- In a run that clones no space with an uncounted frame, every step is a step of the reference model that copies
eagerly. In particular a write through one space changes no byte that another space reads. -/
theorem cow_isolation {k₀ k k' : Kernel} {ops : List Op} {op : Op} (boot : Boot k₀)
    (run : Run Kernel.step (fun k op => cowOp k op = true ∧ cowSafe k op = true) k₀ ops k)
    (allowed : cowOp k op = true) (safe : cowSafe k op = true) (returned : k.step op = .ok k') :
    eagerStep k k.reads k'.reads op ∧
      ∀ ptr va byte, op = .write ptr va byte → ∀ other, other ≠ ptr → k'.reads other = k.reads other := by
  have inv := cowRun_inv boot run
  have step := (inv.step sharedPolicy_lawful (cowSafe_permits inv allowed safe) returned).2
  refine ⟨step, ?_⟩
  intro ptr va byte isWrite other different
  rw [isWrite] at step
  obtain ⟨old, _, _, after⟩ := step
  rw [after, Function.update_of_ne different]

/-- Two generations of clones: the space `B` breaks its page alone, is cloned again, and then writes. -/
def secondFork : List Op :=
  [.create (some (heapPtr 0)), .alloc (heapPtr 0) 0x400000 1 0x34 true,
    .clone (heapPtr 0) (some (heapPtr 1)) fun _ => true, .write (heapPtr 0) 0x400000 7, .write (heapPtr 1) 0x400000 8,
    .clone (heapPtr 1) (some (heapPtr 2)) fun _ => true]

theorem cow_isolation_fails : ¬∀ (k₀ k k' : Kernel) (ops : List Op) (op : Op), Boot k₀ →
    Run Kernel.step (fun k op => cowOp k op = true) k₀ ops k → cowOp k op = true → k.step op = .ok k' →
    eagerStep k k.reads k'.reads op := by
  intro claim
  have checked : (exec Kernel.step cowOp secondFork smallKernel).any
      (checkStep Kernel.step (.write (heapPtr 1) 0x400000 9) fun k k' =>
        (k.reads (heapPtr 2)).any (fun bytes => decide (bytes 0x400000 = some 8)) &&
        (k'.reads (heapPtr 2)).any fun bytes => decide (bytes 0x400000 = some 9)) = true := by decide +kernel
  obtain ⟨k, k', run, returned, shown⟩ := Run.exists_step_of_check checked
  simp only [Bool.and_eq_true, Option.any_eq_true, decide_eq_true_eq] at shown
  obtain ⟨⟨before, reads, byte⟩, after, reads', byte'⟩ := shown
  obtain ⟨old, _, _, same⟩ := claim smallKernel k k' secondFork _ smallKernel_boot run rfl returned
  have different : heapPtr 2 ≠ heapPtr 1 := by decide
  have unchanged : k'.reads (heapPtr 2) = k.reads (heapPtr 2) := by
    rw [same, Function.update_of_ne different]
  rw [reads, reads'] at unchanged
  injection unchanged with sameBytes
  rw [sameBytes, byte] at byte'
  revert byte'
  decide

/-- One generation of clones is safe: the clone still reads its byte after the source wrote. -/
theorem cow_isolation_first_fork : ∃ k k' : Kernel,
    Run Kernel.step (fun k op => cowOp k op = true ∧ cowSafe k op = true) smallKernel (secondFork.take 3) k ∧
      k.step (.write (heapPtr 0) 0x400000 7) = .ok k' ∧ k'.reads (heapPtr 1) = k.reads (heapPtr 1) := by
  have checked : (exec Kernel.step (fun k op => cowOp k op && cowSafe k op) (secondFork.take 3) smallKernel).any
      (checkStep Kernel.step (.write (heapPtr 0) 0x400000 7) fun _ _ => true) = true := by decide +kernel
  obtain ⟨k, k', run, returned, _⟩ := Run.exists_step_of_check checked
  have run' : Run Kernel.step (fun k op => cowOp k op = true ∧ cowSafe k op = true) smallKernel (secondFork.take 3) k :=
    run.mono fun _ _ both => Bool.and_eq_true_iff.mp both
  have isolated := cow_isolation smallKernel_boot run' rfl rfl returned
  exact ⟨k, k', run', returned, isolated.2 _ _ _ rfl (heapPtr 1) (by decide)⟩

end DoccrOS.Mem
