import DoccrOS.Construction.User.SysMem
import DoccrOS.Lib.Run
import DoccrOS.Proof.Mem.CowIsolation
import DoccrOS.Proof.Mem.UserSpaces

namespace DoccrOS.User
open Lib Mem Proc

/-- The memory and the space of the current process are well formed, and its break lies in the user half. -/
structure UserMemInv (shield : Set Nat) (roots : Set Nat) (s : UserMem) (places : Finset Place) : Prop where
  memory : MemInv shield s.machine roots places
  space : ∀ space, s.space = some space → space.pml4Phys ∈ roots ∧ RegionsInv space places
  heap : ∀ p, s.proc = some p → p.heapBreak ≤ userTop

/-- The bytes of the range that a length rounds up to. -/
def mmapSize (length : Word) : Nat := lengthPages length.toNat * pageSize

/-- A fixed range lies in the user half, and no sum of the other range checks wraps. -/
def MemCall.inRange : MemCall → Prop
  | .mmap hint length _ flags _ =>
    flags &&& mmapMapAnon = 0 ∨ length = 0 ∨ mmapSize length = 0 ∨
      if flags &&& mmapMapFixed ≠ 0 ∧ alignedHint hint ≠ 0 then
        userBottom ≤ alignedHint hint ∧ alignedHint hint + mmapSize length ≤ userTop
      else alignedHint hint + mmapSize length < 2 ^ 64 ∧ mmapSize length + 2 ^ 47 < 2 ^ 64
  | .munmap _ | .brk _ _ => True

section
variable {shield : Set Nat} {roots : Set Nat} {places : Finset Place} {s s' : UserMem} {m m' : Machine}
  {space space' : Space} {size : Nat}

theorem lengthPages_bound (length : Nat) : lengthPages length * pageSize < 2 ^ 64 := by
  unfold lengthPages wrap64
  simp only [pageSize]
  omega

theorem alignedHint_facts (hint : Word) : alignedHint hint % pageSize = 0 ∧ alignedHint hint < 2 ^ 64 := by
  have bound := hint.isLt
  unfold alignedHint pageAlignDown
  simp only [pageSize]
  omega

theorem findFreeLoop_spec {regions : List Region} {start : Nat} (ok : ∀ region ∈ regions, RegionInv region)
    (aligned : start % pageSize = 0) (least : 0x50000000 ≤ start) (most : start ≤ 2 ^ 47) :
    findFreeLoop size start regions % pageSize = 0 ∧ 0x50000000 ≤ findFreeLoop size start regions ∧
      findFreeLoop size start regions ≤ 2 ^ 47 := by
  induction regions generalizing start with
  | nil => exact ⟨aligned, least, most⟩
  | cons cur rest ih =>
      have okRest : ∀ region ∈ rest, RegionInv region := fun region member => ok region (List.mem_cons_of_mem _ member)
      obtain ⟨⟨alignedBase, fits⟩, whole, _⟩ := ok cur List.mem_cons_self
      have bytes : cur.size / pageSize * pageSize = cur.size := Nat.div_mul_cancel (Nat.dvd_of_mod_eq_zero whole)
      rw [bytes] at fits
      have noWrap : wrap64 (cur.base + cur.size) = cur.base + cur.size := Nat.mod_eq_of_lt (by omega)
      rw [findFreeLoop, noWrap]
      split
      · exact ih okRest aligned least most
      · split
        · exact ⟨aligned, least, most⟩
        · refine ih okRest ?_ (by omega) fits
          rw [Nat.add_mod, alignedBase, whole]
          rfl

/-- The search returns a gap below the end of the user half if its sums do not wrap. -/
theorem findFreeVaddr_spec (regions : RegionsInv space places) (small : size + 2 ^ 47 < 2 ^ 64)
    (found : findFreeVaddr space size ≠ 0) : findFreeVaddr space size % pageSize = 0 ∧
      userBottom ≤ findFreeVaddr space size ∧ findFreeVaddr space size + size ≤ userTop := by
  have start : (0x50000000 : Nat) % pageSize = 0 ∧ (0x50000000 : Nat) ≤ 2 ^ 47 := by decide
  obtain ⟨aligned, least, most⟩ := @findFreeLoop_spec size _ _ regions.regions start.1 (Nat.le_refl _) start.2
  unfold findFreeVaddr at found ⊢
  generalize findFreeLoop size 0x50000000 space.regions = start at *
  simp only at found ⊢
  split at found
  · exact absurd rfl found
  · rename_i fits
    rw [if_neg fits]
    unfold userTop wrap64 userBottom at *
    omega

/-- What `sys_mmap` does before it allocates: it may free the region at a fixed hint. -/
theorem UserMemInv.mmapTarget {hint flags : Word} {target : Nat} (memory : MemInv shield m roots places)
    (regions : RegionsInv space places) (isRoot : space.pml4Phys ∈ roots)
    (returned : mmapTarget m space hint flags size = (target, m', space')) :
    MemInv shield m' roots places ∧ RegionsInv space' places ∧ space'.pml4Phys = space.pml4Phys ∧
      Spared shield m m' roots ∧ (target = 0 ∨ target = alignedHint hint ∧ (flags &&& mmapMapFixed = 0 →
        isVaddrRangeFree space (alignedHint hint) size = true)) := by
  unfold User.mmapTarget at returned
  split at returned
  · cases returned
    exact ⟨memory, regions, rfl, Spared.refl m, Or.inl rfl⟩
  · split at returned
    · rename_i fixed
      have notPlain : flags &&& mmapMapFixed = 0 → isVaddrRangeFree space (alignedHint hint) size = true := by
        intro zero
        rw [zero] at fixed
        exact absurd fixed (by decide)
      split at returned
      · cases call : vmmSpaceFree m space (alignedHint hint) with
        | mk m₁ space₁ =>
            rw [call] at returned
            cases returned
            obtain ⟨memory', regions', sameRoot, spared⟩ := memory.free regions isRoot call
            exact ⟨memory', regions', sameRoot, spared, Or.inr ⟨rfl, notPlain⟩⟩
      · cases returned
        exact ⟨memory, regions, rfl, Spared.refl m, Or.inr ⟨rfl, notPlain⟩⟩
    · split at returned
      · rename_i free
        cases returned
        exact ⟨memory, regions, rfl, Spared.refl m, Or.inr ⟨rfl, fun _ => free⟩⟩
      · cases returned
        exact ⟨memory, regions, rfl, Spared.refl m, Or.inl rfl⟩

/-- A range that `is_vaddr_range_free` accepts lies in the user half if its end does not wrap. -/
theorem isVaddrRangeFree_fits {vaddr : Nat} (accepted : isVaddrRangeFree space vaddr size = true)
    (small : vaddr + size < 2 ^ 64) : userBottom ≤ vaddr ∧ vaddr + size ≤ userTop := by
  unfold isVaddrRangeFree at accepted
  split at accepted
  · cases accepted
  · rename_i inside
    rw [wrap64, Nat.mod_eq_of_lt small] at inside
    omega

theorem UserMemInv.put (inv : UserMemInv shield roots s places) {places' : Finset Place} (isRoot : space.pml4Phys ∈ roots)
    (memory : MemInv shield m roots places') (regions : RegionsInv space places') :
    UserMemInv shield roots (s.put m space) places' := by
  refine ⟨memory, ?_, ?_⟩
  · intro other live
    cases here : s.proc with
    | none => simp [UserMem.put, UserMem.space, here] at live
    | some p =>
        have same : space = other := by simpa [UserMem.put, UserMem.space, here] using live
        rw [← same]
        exact ⟨isRoot, regions⟩
  · intro p live
    cases here : s.proc with
    | none => simp [UserMem.put, here] at live
    | some old =>
        have same : { old with space := some space } = p := by simpa [UserMem.put, here] using live
        rw [← same]
        exact inv.heap old here

/-- The address that `sys_mmap` chooses lies in the user half with its range if the call is in range. -/
theorem mmapTarget_fits {hint length prot flags : Word} {nodeOk : Bool} {target address : Nat}
    (regions : RegionsInv space places) (inRange : (MemCall.mmap hint length prot flags nodeOk).inRange)
    (anon : flags &&& mmapMapAnon ≠ 0) (several : length ≠ 0) (nonempty : mmapSize length ≠ 0)
    (chosen : target = 0 ∨ target = alignedHint hint ∧ (flags &&& mmapMapFixed = 0 →
      isVaddrRangeFree space' (alignedHint hint) (mmapSize length) = true))
    (searched : address = if target = 0 then findFreeVaddr space (mmapSize length) else target) (found : address ≠ 0) :
    address % pageSize = 0 ∧ userBottom ≤ address ∧ address + mmapSize length ≤ userTop := by
  rw [searched] at found ⊢
  have fits := ((inRange.resolve_left anon).resolve_left several).resolve_left nonempty
  have bound := lengthPages_bound length.toNat
  split at fits
  · rename_i fixed
    rcases chosen with rfl | ⟨rfl, _⟩
    · have small : mmapSize length + 2 ^ 47 < 2 ^ 64 := by
        simp only [userTop] at fits
        omega
      rw [if_pos rfl] at found ⊢
      exact findFreeVaddr_spec regions small found
    · rw [if_neg fixed.2] at found ⊢
      exact ⟨(alignedHint_facts hint).1, fits⟩
  · rename_i plain
    by_cases zero : target = 0
    · rw [if_pos zero] at found ⊢
      exact findFreeVaddr_spec regions fits.2 found
    · obtain ⟨rfl, accepted⟩ := chosen.resolve_left zero
      rw [if_neg zero] at found ⊢
      have notFixed : flags &&& mmapMapFixed = 0 := by
        by_contra fixed
        exact plain ⟨fixed, zero⟩
      exact ⟨(alignedHint_facts hint).1, isVaddrRangeFree_fits (accepted notFixed) fits.1⟩

/-- The pages that `sys_mmap` allocates are a user range if the call is in range. -/
theorem mmapTarget_range {hint length prot flags : Word} {nodeOk : Bool} {target address : Nat}
    (regions : RegionsInv space places) (inRange : (MemCall.mmap hint length prot flags nodeOk).inRange)
    (anon : flags &&& mmapMapAnon ≠ 0) (several : length ≠ 0) (nonempty : mmapSize length ≠ 0)
    (chosen : target = 0 ∨ target = alignedHint hint ∧ (flags &&& mmapMapFixed = 0 →
      isVaddrRangeFree space' (alignedHint hint) (mmapSize length) = true))
    (searched : address = if target = 0 then findFreeVaddr space (mmapSize length) else target) (found : address ≠ 0) :
    UserRange address (lengthPages length.toNat) := by
  obtain ⟨aligned, _, most⟩ := mmapTarget_fits regions inRange anon several nonempty chosen searched found
  refine ⟨aligned, ?_⟩
  unfold mmapSize userTop at most
  omega

/-- How `sys_mmap` ends: it refuses the call, it finds no room, or it allocates a range. -/
inductive MmapOutcome (s : UserMem) (hint length prot flags : Word) (nodeOk : Bool) : Nat → UserMem → Prop where
  | refused : MmapOutcome s hint length prot flags nodeOk minusOne s
  | noRoom (space space₁ : Space) (m₁ : Machine) (target : Nat) (live : s.space = some space)
    (chosen : mmapTarget s.machine space hint flags (mmapSize length) = (target, m₁, space₁)) :
    MmapOutcome s hint length prot flags nodeOk minusOne (s.put m₁ space₁)
  | ran (space space₁ space₂ : Space) (m₁ m₂ : Machine) (target address value : Nat) (anon : flags &&& mmapMapAnon ≠ 0)
    (several : length ≠ 0) (live : s.space = some space)
    (chosen : mmapTarget s.machine space hint flags (mmapSize length) = (target, m₁, space₁))
    (searched : address = if target = 0 then findFreeVaddr space₁ (mmapSize length) else target) (found : address ≠ 0)
    (call : vmmSpaceAlloc m₁ space₁ address (lengthPages length.toNat) (protFlags prot) nodeOk = .ok (value, m₂, space₂)) :
    MmapOutcome s hint length prot flags nodeOk (if value = 0 then minusOne else value) (s.put m₂ space₂)

theorem sysMmap_outcome {hint length prot flags : Word} {nodeOk : Bool} {value : Nat}
    (returned : sysMmap s hint length prot flags nodeOk = .ok (value, s')) :
    MmapOutcome s hint length prot flags nodeOk value s' := by
  unfold sysMmap at returned
  split at returned
  · cases returned
    exact .refused
  rename_i anon
  split at returned
  · cases returned
    exact .refused
  rename_i several
  split at returned
  · cases returned
    exact .refused
  rename_i space live
  simp only at returned
  cases chosen : User.mmapTarget s.machine space hint flags (lengthPages length.toNat * pageSize) with
  | mk target rest =>
      obtain ⟨m₁, space₁⟩ := rest
      rw [chosen] at returned
      simp only at returned
      generalize searched : (if target = 0 then findFreeVaddr space₁ (lengthPages length.toNat * pageSize)
        else target) = address at returned
      by_cases missing : address = 0
      · rw [if_pos missing] at returned
        cases returned
        exact .noRoom space space₁ m₁ target live chosen
      · rw [if_neg missing] at returned
        obtain ⟨⟨vaddr, m₂, space₂⟩, call, rest⟩ := Result.bind_ok returned
        cases rest
        exact .ran space space₁ space₂ m₁ m₂ target address vaddr anon several live chosen searched.symm missing call

/-- A call of `sys_mmap` in range spares the shielded pages and returns a range of the user half. -/
theorem UserMemInv.mmap {hint length prot flags : Word} {nodeOk : Bool} {value : Nat}
    (inv : UserMemInv shield roots s places) (inRange : (MemCall.mmap hint length prot flags nodeOk).inRange)
    (returned : sysMmap s hint length prot flags nodeOk = .ok (value, s')) :
    (∃ places', places ⊆ places' ∧ UserMemInv shield roots s' places') ∧ Spared shield s.machine s'.machine roots ∧
      (value ≠ minusOne → value % pageSize = 0 ∧ userBottom ≤ value ∧ value + mmapSize length ≤ userTop) := by
  cases sysMmap_outcome returned with
  | refused => exact ⟨⟨places, Finset.Subset.refl _, inv⟩, Spared.refl _, fun different => absurd rfl different⟩
  | noRoom space space₁ m₁ target live chosen =>
      obtain ⟨isRoot, regions⟩ := inv.space space live
      obtain ⟨memory₁, regions₁, sameRoot₁, spared₁, _⟩ := UserMemInv.mmapTarget inv.memory regions isRoot chosen
      exact ⟨⟨places, Finset.Subset.refl _, inv.put (sameRoot₁ ▸ isRoot) memory₁ regions₁⟩, spared₁,
        fun different => absurd rfl different⟩
  | ran space space₁ space₂ m₁ m₂ target address vaddr anon several live chosen searched found call =>
      obtain ⟨isRoot, regions⟩ := inv.space space live
      obtain ⟨memory₁, regions₁, sameRoot₁, spared₁, kind⟩ := UserMemInv.mmapTarget inv.memory regions isRoot chosen
      by_cases empty : mmapSize length = 0
      · have none : lengthPages length.toNat = 0 := (Nat.mul_eq_zero.mp empty).resolve_right (by decide)
        rw [none, vmmSpaceAlloc, if_pos rfl] at call
        cases call
        exact ⟨⟨places, Finset.Subset.refl _, inv.put (sameRoot₁ ▸ isRoot) memory₁ regions₁⟩, spared₁,
          fun different => absurd rfl different⟩
      · have range := mmapTarget_range regions₁ inRange anon several empty kind searched found
        have down := range.alignDown
        have outcome := vmmSpaceAlloc_spec memory₁.data.tables (sameRoot₁ ▸ isRoot) (down.symm ▸ range) call
        obtain ⟨places', more, memory₂, regions₂, sameRoot₂, spared₂⟩ :=
          memory₁.alloc regions₁ (sameRoot₁ ▸ isRoot) (down.symm ▸ range) outcome
        refine ⟨⟨places', more, inv.put (sameRoot₂ ▸ sameRoot₁ ▸ isRoot) memory₂ regions₂⟩, spared₁.trans spared₂, ?_⟩
        intro different
        rw [down] at outcome
        cases outcome with
        | refused why => exact absurd rfl different
        | failed i frames full inside node filled exhausted _ undone => exact absurd rfl different
        | done frames _ positive node filled =>
            rw [if_neg found]
            exact mmapTarget_fits regions₁ inRange anon several empty kind searched found

/-- A call of `sys_munmap` frees at most one region. -/
theorem UserMemInv.munmap {addr : Word} (inv : UserMemInv shield roots s places) :
    UserMemInv shield roots (sysMunmap s addr).2 places ∧ Spared shield s.machine (sysMunmap s addr).2.machine roots := by
  unfold sysMunmap
  split
  · exact ⟨inv, Spared.refl _⟩
  · split
    · exact ⟨inv, Spared.refl _⟩
    · rename_i space live
      obtain ⟨isRoot, regions⟩ := inv.space space live
      split
      · exact ⟨inv, Spared.refl _⟩
      · cases call : vmmSpaceFree s.machine space addr.toNat with
        | mk m space' =>
            obtain ⟨memory, regions', sameRoot, spared⟩ := inv.memory.free regions isRoot call
            exact ⟨inv.put (sameRoot ▸ isRoot) memory regions', spared⟩

/-- The pages by which the heap grows lie in the user half. -/
theorem growHeap_range {old new : Nat} (within : new ≤ userTop) (grows : old < new) :
    UserRange (pageAlignDown old) (lengthPages (new - old)) := by
  unfold lengthPages wrap64 pageAlignDown userTop at *
  constructor
  · simp only [pageSize]
    omega
  · simp only [pageSize]
    omega

/-- The new state of a process whose space or break changed. -/
theorem UserMemInv.move {places' : Finset Place} {p : UserProc} (memory : MemInv shield m roots places')
    (space : ∀ space, p.space = some space → space.pml4Phys ∈ roots ∧ RegionsInv space places')
    (heap : p.heapBreak ≤ userTop) : UserMemInv shield roots ⟨m, some p⟩ places' := by
  refine ⟨memory, space, ?_⟩
  intro other live
  rw [← Option.some.inj live]
  exact heap

theorem UserMemInv.growHeap {p : UserProc} {newBreak value : Nat} {nodeOk : Bool}
    (memory : MemInv shield m roots places) (owned : ∀ space, p.space = some space →
      space.pml4Phys ∈ roots ∧ RegionsInv space places)
    (within : newBreak ≤ userTop) (grows : p.heapBreak < newBreak)
    (returned : User.growHeap m p newBreak nodeOk = .ok (value, s')) :
    (∃ places', places ⊆ places' ∧ UserMemInv shield roots s' places') ∧ Spared shield m s'.machine roots := by
  unfold User.growHeap at returned
  split at returned
  · injection returned with same
    obtain ⟨_, rfl⟩ := Prod.mk.inj same
    exact ⟨⟨places, Finset.Subset.refl _, .move memory owned (by omega)⟩, Spared.refl m⟩
  · rename_i space live
    obtain ⟨isRoot, regions⟩ := owned space live
    obtain ⟨⟨mapped, m₁, space₁⟩, call, rest⟩ := Result.bind_ok returned
    have range := growHeap_range within grows
    have outcome := vmmSpaceAlloc_spec memory.data.tables isRoot range call
    obtain ⟨places', more, memory₁, regions₁, sameRoot, spared⟩ := memory.alloc regions isRoot range outcome
    have owned₁ : ∀ other, some space₁ = some other → other.pml4Phys ∈ roots ∧ RegionsInv other places' := by
      intro other same
      rw [← Option.some.inj same]
      exact ⟨sameRoot ▸ isRoot, regions₁⟩
    simp only at rest
    split at rest
    · injection rest with same
      obtain ⟨_, rfl⟩ := Prod.mk.inj same
      exact ⟨⟨places', more, .move memory₁ owned₁ (by simp only; omega)⟩, spared⟩
    · injection rest with same
      obtain ⟨_, rfl⟩ := Prod.mk.inj same
      exact ⟨⟨places', more, .move memory₁ owned₁ within⟩, spared⟩

/-- A call of `sys_brk` with any argument keeps the invariant. -/
theorem UserMemInv.brk {newBreak : Word} {nodeOk : Bool} {value : Nat} (inv : UserMemInv shield roots s places)
    (returned : sysBrk s newBreak nodeOk = .ok (value, s')) :
    (∃ places', places ⊆ places' ∧ UserMemInv shield roots s' places') ∧ Spared shield s.machine s'.machine roots := by
  unfold sysBrk at returned
  split at returned
  · injection returned with same
    obtain ⟨_, rfl⟩ := Prod.mk.inj same
    exact ⟨⟨places, Finset.Subset.refl _, inv⟩, Spared.refl _⟩
  · rename_i p live
    have owned : ∀ space, p.space = some space → space.pml4Phys ∈ roots ∧ RegionsInv space places := by
      intro space here
      exact inv.space space (by rw [UserMem.space, live]; exact here)
    have start : heapStart p.heapBreak ≤ userTop := by
      have old := inv.heap p live
      unfold heapStart
      split
      · decide
      · exact old
    have resets (stop : Nat) (within : stop ≤ userTop) (same : s' = ⟨s.machine, some { p with heapBreak := stop }⟩) :
        (∃ places', places ⊆ places' ∧ UserMemInv shield roots s' places') ∧
          Spared shield s.machine s'.machine roots := by
      rw [same]
      exact ⟨⟨places, Finset.Subset.refl _, .move inv.memory owned within⟩, Spared.refl _⟩
    simp only at returned
    split at returned
    · injection returned with same
      exact resets _ start (Prod.mk.inj same).2.symm
    · split at returned
      · injection returned with same
        exact resets _ start (Prod.mk.inj same).2.symm
      · rename_i within
        split at returned
        · injection returned with same
          exact resets _ (by omega) (Prod.mk.inj same).2.symm
        · rename_i grows
          exact UserMemInv.growHeap (p := ⟨p.space, heapStart p.heapBreak⟩) inv.memory owned (by omega)
            (Nat.lt_of_not_le grows) returned

/-- What a memory call in range does. -/
theorem UserMemInv.call {call : MemCall} {value : Nat} (inv : UserMemInv shield roots s places) (inRange : call.inRange)
    (returned : s.call call = .ok (value, s')) :
    (∃ places', places ⊆ places' ∧ UserMemInv shield roots s' places') ∧ Spared shield s.machine s'.machine roots ∧
      ∀ hint length prot flags nodeOk, call = .mmap hint length prot flags nodeOk → value ≠ minusOne →
        value % pageSize = 0 ∧ userBottom ≤ value ∧ value + mmapSize length ≤ userTop := by
  cases call with
  | mmap hint length prot flags nodeOk =>
      obtain ⟨kept, spared, placed⟩ := inv.mmap inRange returned
      refine ⟨kept, spared, ?_⟩
      intro _ _ _ _ _ same different
      cases same
      exact placed different
  | munmap addr =>
      have freed := @UserMemInv.munmap _ _ _ _ addr inv
      injection returned with same
      rw [same] at freed
      exact ⟨⟨places, Finset.Subset.refl _, freed.1⟩, freed.2, nofun⟩
  | brk newBreak nodeOk =>
      obtain ⟨kept, spared⟩ := inv.brk returned
      exact ⟨kept, spared, nofun⟩

/-- Every state of a run whose calls are in range. -/
theorem memRun_inv {calls : List MemCall} (inv : UserMemInv shield roots s places)
    (run : Run UserMem.step (fun _ call => call.inRange) s calls s') :
    (∃ places', UserMemInv shield roots s' places') ∧ Spared shield s.machine s'.machine roots := by
  let holds (state : UserMem) : Prop :=
    (∃ places', UserMemInv shield roots state places') ∧ Spared shield s.machine state.machine roots
  refine run.invariant holds ?_ ⟨⟨places, inv⟩, Spared.refl _⟩
  intro before call after held inRange stepped
  obtain ⟨⟨places', inv'⟩, spared⟩ := held
  obtain ⟨⟨value, state⟩, returned, same⟩ := Result.map_ok stepped
  obtain ⟨⟨places'', _, inv''⟩, spared', _⟩ := inv'.call inRange returned
  rw [← same]
  exact ⟨⟨places'', inv''⟩, spared.trans spared'⟩

/-- In every run whose `sys_mmap` calls are in range, the kernel half is translated as at the start, and every address that
`sys_mmap` returns is the base of a range of the user half. -/
theorem kernel_half_kept {calls : List MemCall} (start : UserMemInv (kernelPages s.machine roots) roots s places)
    (run : Run UserMem.step (fun _ call => call.inRange) s calls s') :
    (∀ root va, root ∈ roots ∨ root = s.machine.kernelPml4 → KernelVa va →
      s'.machine.findPte root va = s.machine.findPte root va) ∧
    ∀ hint length prot flags nodeOk value after, (MemCall.mmap hint length prot flags nodeOk).inRange →
      s'.call (.mmap hint length prot flags nodeOk) = .ok (value, after) → value ≠ minusOne →
      value % pageSize = 0 ∧ userBottom ≤ value ∧ value + mmapSize length ≤ userTop := by
  obtain ⟨⟨places', inv⟩, spared⟩ := memRun_inv start run
  constructor
  · intro root va isRoot kernel
    exact spared.findPte_kernel isRoot kernel
  · intro hint length prot flags nodeOk value after inRange returned different
    exact (inv.call inRange returned).2.2 _ _ _ _ _ rfl different

end

/-- A new process on the small machine. -/
def smallProcess : UserMem :=
  let created := vmmSpaceCreate smallMachine true
  ⟨created.2, some ⟨created.1, 0⟩⟩

theorem smallMachine_kernelUsed : KernelUsed smallMachine := by
  refine ⟨⟨by decide, fun free => absurd free.2 (by decide)⟩, ?_⟩
  rintro table ⟨index, _, path, _, reached⟩
  have absent : smallMachine.child smallMachine.kernelPml4 index = none :=
    if_neg (show ¬entryPresent 0 = true by decide)
  rw [Radix.walk, List.foldlM_cons, absent] at reached
  cases reached

theorem smallProcess_inv {root : Nat} (isRoot : smallProcess.space = some ⟨root, [], 0, 0⟩) :
    UserMemInv (kernelPages smallProcess.machine {root}) {root} smallProcess ∅ := by
  have created : vmmSpaceCreate smallMachine true = (some ⟨root, [], 0, 0⟩, smallProcess.machine) := Prod.ext isRoot rfl
  rcases vmmSpaceCreate_spec smallKernel_boot.tables created with ⟨none, _⟩ | ⟨root', same, added⟩
  · cases none
  · cases same
    have memory := smallMachine_kernelUsed.memInv smallKernel_boot.tables (tables_empty _)
    obtain ⟨inv, _, pages⟩ := memory.addRoot added
    rw [LawfulSingleton.insert_empty_eq] at inv pages
    rw [← pages] at inv
    refine ⟨inv, ?_, ?_⟩
    · intro space live
      rw [isRoot] at live
      cases live
      exact ⟨rfl, nofun, nofun⟩
    · intro p live
      cases live
      exact Nat.zero_le _

/-- A fixed mapping of one page in the kernel half. -/
def kernelHint : MemCall := .mmap 0xFFFF900000000000 0x1000 3 0x30 true

theorem kernel_half_changed : ¬∀ (s s' : UserMem) (roots : Set Nat) (places : Finset Place) (calls : List MemCall),
    UserMemInv (kernelPages s.machine roots) roots s places → Run UserMem.step (fun _ _ => True) s calls s' →
    ∀ root va, root ∈ roots ∨ root = s.machine.kernelPml4 → KernelVa va →
      s'.machine.findPte root va = s.machine.findPte root va := by
  intro claim
  have checked : (exec UserMem.step (fun _ _ => true) [kernelHint] smallProcess).any (fun s =>
      (s.machine.findPte 0x2000 0xFFFF900000000000).isSome) = true := by decide +kernel
  obtain ⟨s', run, shown⟩ := Run.exists_of_check checked
  have start := smallProcess_inv (show smallProcess.space = some ⟨0x2000, [], 0, 0⟩ by decide +kernel)
  have kernel : KernelVa 0xFFFF900000000000 := by decide
  have same := claim smallProcess s' _ _ _ start (run.mono fun _ _ _ => trivial) 0x2000 _ (Or.inl rfl) kernel
  have absent : smallProcess.machine.findPte 0x2000 0xFFFF900000000000 = none := by decide +kernel
  rw [same, absent] at shown
  cases shown

/-- A fixed mapping of the user half, a growth of the heap and a release. -/
def userCalls : List MemCall :=
  [.mmap 0x1000000 0x2000 3 0x30 true, .brk 0 true, .brk 0x10000800 true, .munmap 0x1000000]

theorem kernel_half_kept_three : ∃ s', Run UserMem.step (fun _ call => call.inRange) smallProcess userCalls s' ∧
    s'.machine.findPte 0x2000 0xFFFF900000000000 = smallProcess.machine.findPte 0x2000 0xFFFF900000000000 := by
  have checked : (exec UserMem.step (fun _ call => userCalls.contains call) userCalls smallProcess).any
      (fun _ => true) = true := by decide +kernel
  obtain ⟨s', run, _⟩ := Run.exists_of_check checked
  have inRange : ∀ call ∈ userCalls, call.inRange := by
    intro call member
    simp only [userCalls, List.mem_cons, List.not_mem_nil, or_false] at member
    rcases member with rfl | rfl | rfl | rfl
    · exact Or.inr (Or.inr (Or.inr (by decide)))
    · trivial
    · trivial
    · trivial
  have run' : Run UserMem.step (fun _ call => call.inRange) smallProcess userCalls s' :=
    run.mono fun _ call permitted => inRange call (List.contains_iff_mem.mp permitted)
  have start := smallProcess_inv (show smallProcess.space = some ⟨0x2000, [], 0, 0⟩ by decide +kernel)
  exact ⟨s', run', (kernel_half_kept start run').1 0x2000 _ (Or.inl rfl) (by decide)⟩

end DoccrOS.User
