import DoccrOS.Proof.User.Munmap

namespace DoccrOS.User
open Lib Mem Proc

/-- The first address of the heap. -/
def heapBase : Nat := 0x10000000

/-- The break of the current process; a process without a break has an empty heap. -/
def UserMem.heapEnd (s : UserMem) : Nat := (s.proc.map fun p => heapStart p.heapBreak).getD heapBase

/-- The leaf entry of an address in the current space. -/
def UserMem.entry (s : UserMem) (va : Nat) : Option Word := s.space.bind fun space => s.machine.findPte space.pml4Phys va

/-- A page of the process that it may write. -/
def userWritable (entry : Word) : Bool := entryWritable entry && entry &&& pteUser != 0

/-- If the growth gets a node and a frame, its pages start behind the first page, reach the new break and are not mapped. -/
def UserMem.growsInto (s : UserMem) (newBreak : Word) (nodeOk : Bool) : Prop :=
  newBreak.toNat ≠ minusOne ∧ ∀ space, s.space = some space → s.heapEnd < newBreak.toNat → newBreak.toNat ≤ userTop →
    nodeOk = true → (∃ frame, s.machine.phys.Free frame) → pageSize ≤ s.heapEnd ∧
      newBreak.toNat ≤ pageAlignDown s.heapEnd + lengthPages (newBreak.toNat - s.heapEnd) * pageSize ∧
      ∀ i, i < lengthPages (newBreak.toNat - s.heapEnd) →
        s.machine.findPte space.pml4Phys (pageAlignDown s.heapEnd + i * pageSize) = none

/-- Every page of the heap is mapped for writing. -/
def HeapMapped (s : UserMem) : Prop :=
  ∀ va, heapBase ≤ va → va < s.heapEnd → ∃ entry, s.entry va = some entry ∧ userWritable entry = true

/-- Every mapped page keeps its frame, and the frames of the data regions keep their bytes. -/
structure PagesKept (s s' : UserMem) : Prop where
  entries : ∀ va entry, UserVa va → s.entry va = some entry → s'.entry va = some entry
  bytes : ∀ space region va entry, s.space = some space → region ∈ space.regions →
    hasFlag region.flags vmmRegionMmio = false → region.holds va = true → s.entry va = some entry →
    s'.machine.ram (entryAddr entry) = s.machine.ram (entryAddr entry)

/-- The break, the regions and all translations are as before. -/
structure Unmoved (roots : Set Nat) (s s' : UserMem) : Prop where
  heapEnd : s'.heapEnd = s.heapEnd
  space : s'.space = s.space
  translation : ∀ root ∈ roots, ∀ va, UserVa va → s'.machine.findPte root va = s.machine.findPte root va

/-- A call that returns the requested break keeps every page and maps the heap, and another one changes nothing. -/
structure BrkResult (roots : Set Nat) (s s' : UserMem) (newBreak : Word) (value : Nat) : Prop where
  served : value = newBreak.toNat → s'.heapEnd = newBreak.toNat ∧ HeapMapped s' ∧ PagesKept s s'
  refused : value ≠ newBreak.toNat → Unmoved roots s s'

/-- `sys_brk` grows the heap without losing it. -/
def BrkTruth (roots : Set Nat) (s : UserMem) (newBreak : Word) (nodeOk : Bool) : Prop :=
  ∀ value s', sysBrk s newBreak nodeOk = .ok (value, s') → BrkResult roots s s' newBreak value

/-- A call of `sys_brk` with the outcome of its `region_alloc`. -/
def brkStep (s : UserMem) (call : Word × Bool) : Result UserMem := (sysBrk s call.1 call.2).map Prod.snd

/-- The memory is well formed, and the heap is mapped up to the break. -/
structure BrkInv (shield roots : Set Nat) (s : UserMem) : Prop where
  memory : ∃ places, UserMemInv shield roots s places
  heap : HeapMapped s

section
variable {shield roots : Set Nat} {places : Finset Place} {s s' : UserMem} {m m' : Machine} {space space' : Space}
  {newBreak : Word} {nodeOk : Bool} {value phys : Nat}

/-- The flags of a leaf entry are set in the entry. -/
theorem leafEntry_flag {flags mask : Word} (isSet : flags &&& mask = mask) (nonzero : mask ≠ 0) :
    (leafEntry phys flags &&& mask != 0) = true := by
  rw [bne_iff_ne]
  intro clear
  apply nonzero
  rw [leafEntry, BitVec.and_or_distrib_right, isSet] at clear
  exact (BitVec.or_eq_zero_iff.mp clear).2

theorem brkFlags_writable : userWritable (leafEntry phys (flagsToPte brkFlags)) = true := by
  rw [userWritable, entryWritable, leafEntry_flag (by decide) (by decide), leafEntry_flag (by decide) (by decide)]
  rfl

theorem heapStart_idem (heapBreak : Nat) : heapStart (heapStart heapBreak) = heapStart heapBreak := by
  unfold heapStart
  split
  · rfl
  · rfl

theorem heapStart_of_pos {heapBreak : Nat} (positive : 0 < heapBreak) : heapStart heapBreak = heapBreak :=
  if_neg (by omega)

theorem Unmoved.refl (s : UserMem) : Unmoved roots s s := ⟨rfl, rfl, fun _ _ _ _ => rfl⟩

theorem PagesKept.refl (s : UserMem) : PagesKept s s := ⟨fun _ _ _ found => found, fun _ _ _ _ _ _ _ _ _ => rfl⟩

/-- The state after the first lines of `sys_brk`, which give the process its first break. -/
def UserMem.started (s : UserMem) : UserMem :=
  ⟨s.machine, s.proc.map fun p => { p with heapBreak := heapStart p.heapBreak }⟩

theorem started_heapEnd (s : UserMem) : s.started.heapEnd = s.heapEnd := by
  unfold UserMem.heapEnd UserMem.started
  rw [Option.map_map]
  congr
  funext p
  exact heapStart_idem p.heapBreak

theorem started_space (s : UserMem) : s.started.space = s.space := by
  unfold UserMem.space UserMem.started
  cases s.proc with
  | none => rfl
  | some p => rfl

theorem started_entry (s : UserMem) (va : Nat) : s.started.entry va = s.entry va := by
  rw [UserMem.entry, UserMem.entry, started_space]
  rfl

theorem growsInto_started {s : UserMem} (fits : s.growsInto newBreak nodeOk) : s.started.growsInto newBreak nodeOk := by
  unfold UserMem.growsInto at *
  rw [started_space, started_heapEnd]
  exact fits

/-- An allocation fails without a trace, or it fills the range, if its pages were not mapped before. -/
theorem AllocOutcome.moved {base count : Nat} {flags : BitVec 32}
    (outcome : AllocOutcome m roots space base count flags nodeOk value m' space')
    (range : UserRange base count) (unmapped : nodeOk = true → (∃ frame, m.phys.Free frame) →
      ∀ i, i < count → m.findPte space.pml4Phys (base + i * pageSize) = none) :
    (value = 0 ∧ space' = space ∧ ∀ root ∈ roots, ∀ va, UserVa va → m'.findPte root va = m.findPte root va) ∨
    ∃ frames, nodeOk = true ∧ (∃ frame, m.phys.Free frame) ∧ value = base ∧
      space' = space.record ⟨base, wrap64 (count * pageSize), vmmRegionUsed ||| flags⟩ ∧
      AllocatedRange m m' roots space.pml4Phys base count (flagsToPte flags) frames := by
  cases outcome with
  | refused why => exact Or.inl ⟨rfl, rfl, fun _ _ _ _ => rfl⟩
  | failed i frames full inside node filled exhausted _ undone =>
      refine Or.inl ⟨rfl, rfl, ?_⟩
      intro root isRoot' va user
      rw [undone.leaf root isRoot' va user, filled.leaf root isRoot' va user]
      split
      · rename_i here
        have number : va / pageSize * pageSize = base + (va / pageSize - base / pageSize) * pageSize := by
          have aligned := range.aligned
          have bounds := here.2
          unfold InRange at bounds
          simp only [pageSize] at *
          omega
        have positive : 0 < i := by
          have bounds := here.2
          unfold InRange at bounds
          omega
        rw [here.1, ← findPte_align, number]
        refine (unmapped node ⟨frames 0, (filled.free 0 positive).2⟩ _ ?_).symm
        have bounds := here.2
        unfold InRange at bounds
        omega
      · rfl
  | done frames _ positive node filled =>
      exact Or.inr ⟨frames, node, ⟨frames 0, (filled.free 0 positive).2⟩, rfl, rfl, filled⟩

/-- The pages by which the heap grows are new, so every mapped page and its bytes stay. -/
theorem grown_pagesKept {p : UserProc} {heapBreak base count : Nat} {flags : Word} {frames : Nat → Nat}
    (live : p.space = some space) (memory : MemInv shield m roots places) (regions : RegionsInv space places)
    (isRoot : space.pml4Phys ∈ roots) (sameRoot : space'.pml4Phys = space.pml4Phys) (range : UserRange base count)
    (unmapped : ∀ i, i < count → m.findPte space.pml4Phys (base + i * pageSize) = none)
    (filled : AllocatedRange m m' roots space.pml4Phys base count flags frames) :
    PagesKept ⟨m, some p⟩ ⟨m', some ⟨some space', heapBreak⟩⟩ := by
  constructor
  · intro va entry user found
    change p.space.bind (fun space => m.findPte space.pml4Phys va) = some entry at found
    rw [live, Option.bind_some] at found
    change m'.findPte space'.pml4Phys va = some entry
    rw [sameRoot, filled.leaf _ isRoot va user, if_neg]
    · exact found
    · rintro ⟨_, least, below⟩
      have aligned := range.aligned
      have number : va / pageSize * pageSize = base + (va / pageSize - base / pageSize) * pageSize := by
        simp only [pageSize] at *
        omega
      have absent := unmapped (va / pageSize - base / pageSize) (by omega)
      rw [← number, findPte_align, found] at absent
      cases absent
  · intro other region va entry same member isData holds found
    change p.space = some other at same
    obtain rfl : space = other := Option.some.inj (live.symm.trans same)
    change p.space.bind (fun space => m.findPte space.pml4Phys va) = some entry at found
    rw [live, Option.bind_some] at found
    obtain ⟨allocated, notTable⟩ := memory.data.data _ _ (regions.tracks member isData holds found)
    exact (filled.cells allocated notTable).2.2.1

/-- The heap is mapped up to the new break, which the new pages reach. -/
theorem grown_heapMapped {p : UserProc} {stop base count : Nat} {frames : Nat → Nat} (positive : 0 < stop)
    (heap : HeapMapped ⟨m, some p⟩) (within : stop ≤ userTop) (range : UserRange base count)
    (kept : PagesKept ⟨m, some p⟩ ⟨m', some ⟨some space', stop⟩⟩) (isRoot : space'.pml4Phys ∈ roots)
    (least : base ≤ heapStart p.heapBreak) (reached : stop ≤ base + count * pageSize)
    (filled : AllocatedRange m m' roots space'.pml4Phys base count (flagsToPte brkFlags) frames) :
    HeapMapped ⟨m', some ⟨some space', stop⟩⟩ := by
  intro va low below
  change va < heapStart stop at below
  rw [heapStart_of_pos positive] at below
  have user : UserVa va := by
    unfold UserVa
    unfold userTop at within
    omega
  by_cases old : va < heapStart p.heapBreak
  · obtain ⟨entry, found, writable⟩ := heap va low old
    exact ⟨entry, kept.entries va entry user found, writable⟩
  · refine ⟨_, (filled.leaf _ isRoot va user).trans (if_pos ⟨rfl, ?_⟩), brkFlags_writable⟩
    have aligned := range.aligned
    unfold InRange
    simp only [pageSize] at *
    omega

theorem growHeap_result {p : UserProc} (memory : MemInv shield m roots places)
    (owned : ∀ space, p.space = some space → space.pml4Phys ∈ roots ∧ RegionsInv space places)
    (normal : heapStart p.heapBreak = p.heapBreak) (within : newBreak.toNat ≤ userTop)
    (grows : p.heapBreak < newBreak.toNat) (heap : HeapMapped ⟨m, some p⟩)
    (fits : UserMem.growsInto ⟨m, some p⟩ newBreak nodeOk)
    (returned : growHeap m p newBreak.toNat nodeOk = .ok (value, s')) :
    BrkResult roots ⟨m, some p⟩ s' newBreak value := by
  unfold growHeap at returned
  split at returned
  · injection returned with same
    obtain ⟨rfl, rfl⟩ := Prod.mk.inj same
    exact ⟨fun equal => absurd equal (by omega), fun _ => Unmoved.refl _⟩
  rename_i space live
  obtain ⟨isRoot, regions⟩ := owned space live
  obtain ⟨⟨mapped, m₁, space₁⟩, call, rest⟩ := Result.bind_ok returned
  have range := growHeap_range within grows
  have fits' := fits.2 space live (normal.trans_lt grows) within
  change nodeOk = true → (∃ frame, m.phys.Free frame) → pageSize ≤ heapStart p.heapBreak ∧
    newBreak.toNat ≤ pageAlignDown (heapStart p.heapBreak) +
      lengthPages (newBreak.toNat - heapStart p.heapBreak) * pageSize ∧
    ∀ i, i < lengthPages (newBreak.toNat - heapStart p.heapBreak) →
      m.findPte space.pml4Phys (pageAlignDown (heapStart p.heapBreak) + i * pageSize) = none at fits'
  rw [normal] at fits'
  have outcome := vmmSpaceAlloc_spec memory.data.tables isRoot range call
  rcases AllocOutcome.moved outcome range (fun node free => (fits' node free).2.2) with
    ⟨rfl, rfl, unmoved⟩ | ⟨frames, node, free, rfl, rfl, filled⟩
  · simp only [if_true] at rest
    injection rest with same
    obtain ⟨rfl, rfl⟩ := Prod.mk.inj same
    refine ⟨fun equal => absurd equal (by omega), fun _ => ⟨rfl, live.symm, unmoved⟩⟩
  · obtain ⟨behind, reached, unmapped⟩ := fits' node free
    have nonzero : pageAlignDown p.heapBreak ≠ 0 := by
      unfold pageAlignDown
      simp only [pageSize] at *
      omega
    simp only [nonzero, if_false] at rest
    injection rest with same
    obtain ⟨rfl, rfl⟩ := Prod.mk.inj same
    let grown := space.record ⟨pageAlignDown p.heapBreak, wrap64 (lengthPages (newBreak.toNat - p.heapBreak) * pageSize),
      vmmRegionUsed ||| brkFlags⟩
    have positive : 0 < newBreak.toNat := by omega
    have kept : PagesKept ⟨m, some p⟩ ⟨m₁, some ⟨some grown, newBreak.toNat⟩⟩ :=
      grown_pagesKept live memory regions isRoot rfl range unmapped filled
    refine ⟨fun _ => ⟨heapStart_of_pos positive, ?_, kept⟩, fun different => absurd rfl different⟩
    refine grown_heapMapped positive heap within range kept isRoot ?_ reached filled
    rw [normal]
    exact Nat.sub_le _ _

theorem started_heapMapped {s : UserMem} (heap : HeapMapped s) : HeapMapped s.started := by
  intro va low below
  rw [started_heapEnd] at below
  rw [started_entry]
  exact heap va low below

/-- The first break changes neither the heap nor the space. -/
theorem BrkResult.of_started (result : BrkResult roots s.started s' newBreak value) : BrkResult roots s s' newBreak value := by
  constructor
  · intro equal
    obtain ⟨heapEnd, mapped, entries, bytes⟩ := result.served equal
    refine ⟨heapEnd, mapped, ?_, ?_⟩
    · intro va entry user found
      exact entries va entry user ((started_entry s va).trans found)
    · intro space region va entry live member isData holds found
      exact bytes space region va entry ((started_space s).trans live) member isData holds ((started_entry s va).trans found)
  · intro different
    obtain ⟨heapEnd, space, translation⟩ := result.refused different
    exact ⟨heapEnd.trans (started_heapEnd s), space.trans (started_space s), translation⟩

/-- A call of `sys_brk` in a well-formed state. -/
theorem sysBrk_result (inv : UserMemInv shield roots s places) (heap : HeapMapped s) (fits : s.growsInto newBreak nodeOk)
    (returned : sysBrk s newBreak nodeOk = .ok (value, s')) : BrkResult roots s s' newBreak value := by
  unfold sysBrk at returned
  split at returned
  · injection returned with same
    obtain ⟨rfl, rfl⟩ := Prod.mk.inj same
    exact ⟨fun equal => absurd equal.symm fits.1, fun _ => Unmoved.refl _⟩
  rename_i p live
  have started : s.started = ⟨s.machine, some ⟨p.space, heapStart p.heapBreak⟩⟩ := by rw [UserMem.started, live]; rfl
  refine BrkResult.of_started ?_
  have heap' := started_heapMapped heap
  have fits' := growsInto_started fits
  have nonzero : heapStart p.heapBreak ≠ 0 := by
    unfold heapStart
    split
    · decide
    · assumption
  rw [started] at heap' fits' ⊢
  simp only at returned
  split at returned
  · rename_i query
    injection returned with result
    obtain ⟨rfl, rfl⟩ := Prod.mk.inj result
    exact ⟨fun equal => absurd (equal.trans query) nonzero, fun _ => Unmoved.refl _⟩
  split at returned
  · injection returned with result
    obtain ⟨rfl, rfl⟩ := Prod.mk.inj result
    exact ⟨fun equal => absurd equal.symm fits.1, fun _ => Unmoved.refl _⟩
  rename_i positive within
  split at returned
  · rename_i shrinks
    injection returned with result
    obtain ⟨rfl, rfl⟩ := Prod.mk.inj result
    have heapEnd : heapStart newBreak.toNat = newBreak.toNat := heapStart_of_pos (Nat.pos_of_ne_zero positive)
    refine ⟨fun _ => ⟨heapEnd, ?_, fun _ _ _ found => found, fun _ _ _ _ _ _ _ _ _ => rfl⟩, fun different => absurd rfl different⟩
    intro va low below
    change va < heapStart newBreak.toNat at below
    refine heap' va low ?_
    change va < heapStart (heapStart p.heapBreak)
    rw [heapStart_idem]
    omega
  · rename_i grows
    have owned : ∀ space, p.space = some space → space.pml4Phys ∈ roots ∧ RegionsInv space places :=
      fun space here => inv.space space (by rw [UserMem.space, live]; exact here)
    exact growHeap_result inv.memory owned (heapStart_idem p.heapBreak) (by omega) (Nat.lt_of_not_le grows) heap' fits'
      returned

/-- The heap stays mapped under a call. -/
theorem BrkResult.heapMapped (result : BrkResult roots s s' newBreak value) (inv : UserMemInv shield roots s places)
    (heap : HeapMapped s) : HeapMapped s' := by
  by_cases served : value = newBreak.toNat
  · exact (result.served served).2.1
  · obtain ⟨heapEnd, space, translation⟩ := result.refused served
    intro va low below
    rw [heapEnd] at below
    obtain ⟨entry, found, writable⟩ := heap va low below
    refine ⟨entry, ?_, writable⟩
    unfold UserMem.entry at *
    rw [space]
    obtain ⟨current, live, found'⟩ := Option.bind_eq_some_iff.mp found
    have user : UserVa va := by
      have bound : s.heapEnd ≤ userTop := by
        unfold UserMem.heapEnd
        cases here : s.proc with
        | none => decide
        | some p =>
            have old := inv.heap p here
            rw [Option.map_some, Option.getD_some, heapStart]
            split
            · decide
            · exact old
      unfold UserVa
      unfold userTop at bound
      omega
    rw [live, Option.bind_some, translation _ (inv.space current live).1 va user]
    exact found'

/-- Every state of a run whose growths fit. -/
theorem brkRun_inv {calls : List (Word × Bool)} (inv : BrkInv shield roots s)
    (run : Run brkStep (fun s call => s.growsInto call.1 call.2) s calls s') : BrkInv shield roots s' := by
  refine run.invariant (BrkInv shield roots) ?_ inv
  intro before call after held fits stepped
  obtain ⟨⟨places, memory⟩, heap⟩ := held
  obtain ⟨⟨value, state⟩, returned, same⟩ := Result.map_ok stepped
  obtain ⟨⟨places', _, memory'⟩, _⟩ := memory.brk returned
  rw [← same]
  exact ⟨⟨places', memory'⟩, (sysBrk_result memory heap fits returned).heapMapped memory heap⟩

/-- A process whose calls fit grows its heap without losing it. -/
theorem brk_keeps_heap {calls : List (Word × Bool)} (start : UserMemInv shield roots s places)
    (fresh : ∀ p, s.proc = some p → p.heapBreak = 0)
    (run : Run brkStep (fun s call => s.growsInto call.1 call.2) s calls s') (newBreak : Word) (nodeOk : Bool)
    (fits : s'.growsInto newBreak nodeOk) : BrkTruth roots s' newBreak nodeOk := by
  have empty : HeapMapped s := by
    intro va low below
    unfold UserMem.heapEnd at below
    cases here : s.proc with
    | none =>
        rw [here, Option.map_none, Option.getD_none] at below
        omega
    | some p =>
        rw [here, Option.map_some, Option.getD_some, fresh p here] at below
        exact absurd below (Nat.not_lt_of_le low)
  obtain ⟨⟨places', memory⟩, heap⟩ := brkRun_inv ⟨⟨places, start⟩, empty⟩ run
  intro value after returned
  exact sysBrk_result memory heap fits returned

end

/-- This checks that a growth fits, whether it gets its node and its frames or not. -/
def UserMem.growthFits (s : UserMem) (newBreak : Word) : Bool :=
  let pages := lengthPages (newBreak.toNat - s.heapEnd)
  decide (newBreak.toNat ≠ minusOne) && s.space.all fun space =>
    decide (pageSize ≤ s.heapEnd) && decide (newBreak.toNat ≤ pageAlignDown s.heapEnd + pages * pageSize) &&
      (List.range pages).all fun i => (s.machine.findPte space.pml4Phys (pageAlignDown s.heapEnd + i * pageSize)).isNone

theorem growsInto_of_fits {s : UserMem} {newBreak : Word} {nodeOk : Bool} (checked : s.growthFits newBreak = true) :
    s.growsInto newBreak nodeOk := by
  unfold UserMem.growthFits at checked
  simp only [Bool.and_eq_true, decide_eq_true_eq] at checked
  refine ⟨checked.1, ?_⟩
  intro space live _ _ _ _
  have fits := checked.2
  rw [live, Option.all_some] at fits
  simp only [Bool.and_eq_true, decide_eq_true_eq, List.all_eq_true, List.mem_range, Option.isNone_iff_eq_none] at fits
  exact ⟨fits.1.1, fits.1.2, fits.2⟩

theorem smallProcess_fresh (p : UserProc) (live : smallProcess.proc = some p) : p.heapBreak = 0 := by
  cases live
  rfl

theorem brk_keeps_heap_two : ∃ s', Run brkStep (fun s call => s.growsInto call.1 call.2) smallProcess
    [(0x10001000, true)] s' ∧ s'.heapEnd = 0x10001000 ∧ BrkTruth {0x2000} s' 0x10003000 true := by
  have checked : (exec brkStep (fun s call => s.growthFits call.1) [(0x10001000, true)] smallProcess).any (fun s =>
      decide (s.heapEnd = 0x10001000) && s.growthFits 0x10003000) = true := by decide +kernel
  obtain ⟨s', run, shown⟩ := Run.exists_of_check checked
  rw [Bool.and_eq_true, decide_eq_true_eq] at shown
  have run' : Run brkStep (fun s call => s.growsInto call.1 call.2) smallProcess [(0x10001000, true)] s' :=
    run.mono fun _ _ fits => growsInto_of_fits fits
  have start := smallProcess_inv (show smallProcess.space = some ⟨0x2000, [], 0, 0⟩ by decide +kernel)
  exact ⟨s', run', shown.1, brk_keeps_heap start smallProcess_fresh run' _ _ (growsInto_of_fits shown.2)⟩

/-- A growth from an unaligned break maps the last page of the heap once more. -/
theorem brk_loses_heap : ¬∀ (shield roots : Set Nat) (places : Finset Place) (s s' : UserMem) (calls : List (Word × Bool)),
    UserMemInv shield roots s places → (∀ p, s.proc = some p → p.heapBreak = 0) →
    Run brkStep (fun _ _ => True) s calls s' → ∀ newBreak nodeOk, BrkTruth roots s' newBreak nodeOk := by
  intro claim
  have checked : (exec brkStep (fun _ _ => true) [(0x10000001, true)] smallProcess).any (fun s =>
      ((sysBrk s 0x10001000 true).toOption.any fun (value, s') => decide (value = 0x10001000) &&
        ((s.entry 0x10000000).isSome && decide (s.entry 0x10000000 ≠ s'.entry 0x10000000)))) = true := by decide +kernel
  obtain ⟨s, run, shown⟩ := Run.exists_of_check checked
  have start := smallProcess_inv (show smallProcess.space = some ⟨0x2000, [], 0, 0⟩ by decide +kernel)
  have truth := claim _ _ _ _ s _ start smallProcess_fresh (run.mono fun _ _ _ => trivial) 0x10001000 true
  obtain ⟨⟨value, s'⟩, returned, same⟩ := Option.any_eq_true _ _ |>.mp shown
  simp only [Bool.and_eq_true, decide_eq_true_eq] at same
  obtain ⟨entry, found⟩ := Option.isSome_iff_exists.mp same.2.1
  have result := truth value s' (by
    cases call : sysBrk s 0x10001000 true with
    | error halt => rw [call] at returned; cases returned
    | ok result => rw [call] at returned; rw [Option.some.inj returned])
  have kept := (result.served same.1).2.2.entries 0x10000000 entry (by decide) found
  exact same.2.2 (found.trans kept.symm)

end DoccrOS.User
