import DoccrOS.Proof.Mem.FrameOrder
import DoccrOS.Proof.Packages.ElfTwins
import DoccrOS.Proof.User.FreshPages

namespace DoccrOS.User
open Lib Mem Packages Proc

/-- A fixed mapping takes only frames that it released itself. Page `i` gets the free frame that has `i` pages and the tables
missing for them below it. -/
def MmapRecycles (s : UserMem) (hint length flags : Word) : Prop :=
  ∀ space target m released i frame, s.space = some space →
    mmapTarget s.machine space hint flags (mmapSize length) = (target, m, released) → i < lengthPages length.toNat →
    m.phys.Free frame → m.phys.freeBelow frame =
      i + (missingPaths m space.pml4Phys (neededPaths (mmapAddress target released length) i)).card →
    ¬s.machine.phys.Free frame

section
variable {shield roots : Set Nat} {s s' : UserMem} {value base count : Nat} {places : Finset Place} {m : Machine}
  {space space' : Space} {frames : Nat → Nat} {pteFlags : Word}

/-- The pages of a filled range of the process reuse frames just if none of its frames was free. -/
theorem reusesFrames_iff (filled : AllocatedRange m s'.machine roots space'.pml4Phys base count pteFlags frames)
    (page : PageFlags pteFlags) (isRoot : space'.pml4Phys ∈ roots) (range : UserRange base count)
    (live : s'.space = some space') :
    ReusesFrames s s' (InRange base count) ↔ ∀ i, i < count → ¬s.machine.phys.Free (frames i) := by
  rw [← filled.avoids_iff page isRoot range]
  constructor
  · intro reuses va entry inside found
    exact reuses va space' entry inside live found
  · intro avoids va other entry inside live' found
    rw [live] at live'
    cases live'
    exact avoids va entry inside found

/-- A successful call of `sys_mmap` reuses frames just if it recycles what it released. -/
theorem mmap_reuses {hint length prot flags : Word} {nodeOk : Bool} (inv : UserMemInv shield roots s places)
    (inRange : (MemCall.mmap hint length prot flags nodeOk).inRange)
    (returned : sysMmap s hint length prot flags nodeOk = .ok (value, s')) (success : value ≠ minusOne) :
    ReusesFrames s s' (InRange value (lengthPages length.toNat)) ↔ MmapRecycles s hint length flags := by
  obtain ⟨target, space, space₁, space₂, m₁, m₂, mapped⟩ := sysMmap_mapped inv inRange returned success
  have isRoot₁ : space₁.pml4Phys ∈ roots := mapped.sameRoot ▸ mapped.isRoot
  obtain ⟨_, sameRoot₂, _, frames, ranked⟩ := vmmSpaceAlloc_ranked mapped.memory.data.tables isRoot₁
    (mapped.range.alignDown.symm ▸ mapped.range) mapped.call mapped.nonzero
  rw [mapped.range.alignDown] at ranked
  have live' : s'.space = some space₂ := by
    rw [mapped.after]
    exact put_space mapped.live
  have filled : AllocatedRange m₁ s'.machine roots space₂.pml4Phys value (lengthPages length.toNat)
      (flagsToPte (protFlags prot)) frames := by
    rw [mapped.after, sameRoot₂]
    exact ranked.filled
  rw [reusesFrames_iff filled (flagsToPte_page _) (sameRoot₂ ▸ isRoot₁) mapped.range live']
  constructor
  · intro avoids other target' m' released i frame live chosen inside free rank
    rw [mapped.live] at live
    cases live
    rw [mapped.chosen] at chosen
    cases chosen
    rw [← mapped.address, ← mapped.sameRoot, ← ranked.ranks i inside] at rank
    rw [PhysMem.freeBelow_inj free (ranked.filled.free i inside).2 rank]
    exact avoids i inside
  · intro recycles i inside
    apply recycles space target m₁ space₁ i (frames i) mapped.live mapped.chosen inside (ranked.filled.free i inside).2
    rw [← mapped.address, ← mapped.sameRoot]
    exact ranked.ranks i inside

/-- A growth of the heap never reuses frames. -/
theorem brk_takes_free {p : UserProc} {newBreak : Word} {nodeOk : Bool} (inv : UserMemInv shield roots s places)
    (isProc : s.proc = some p) (grows : heapStart p.heapBreak < newBreak.toNat) (within : newBreak.toNat ≤ userTop)
    (returned : sysBrk s newBreak nodeOk = .ok (newBreak.toNat, s')) : ¬ReusesFrames s s' (brkPages p newBreak) := by
  obtain ⟨space, mapped, m₁, space₁, _, isSpace, success, call, rfl⟩ := sysBrk_grew isProc grows within returned
  obtain ⟨isRoot, _⟩ := inv.space space isSpace
  have range := growHeap_range within grows
  obtain ⟨_, sameRoot, several, frames, ranked⟩ := vmmSpaceAlloc_ranked inv.memory.data.tables isRoot range call success
  intro reuses
  unfold brkPages at reuses
  rw [reusesFrames_iff (sameRoot ▸ ranked.filled) (flagsToPte_page _) (sameRoot ▸ isRoot) range rfl] at reuses
  exact reuses 0 several (ranked.filled.free 0 several).2

/-- Every load of the image from a machine that differs in the free frames reads the same bytes at every user page. -/
def FreshLoad (image : Image) (outcomes : LoadOutcomes) (m : Machine) (space : Space) (m' : Machine) : Prop :=
  ∀ n space' n', DataStores m n (unusedPages m) → elfLoad image n outcomes = .ok (some space', n') → ∀ va, UserVa va →
    m'.findPte space.pml4Phys va ≠ none → userRead n' space' va = userRead m' space va

/-- A load that succeeds shows the old bytes of a free frame on its stack. -/
theorem elfLoad_stale {image : Image} {outcomes : LoadOutcomes} {m' : Machine} (user : UserSegments image)
    (memory : MemInv (kernelPages m roots) m roots places) (returned : elfLoad image m outcomes = .ok (some space, m')) :
    ¬FreshLoad image outcomes m space m' := by
  intro fresh
  obtain ⟨n', returned', cells⟩ := elfLoad_twin user memory (flipFree_stores m) returned
  have inside : InRange userStackBase userStackPages userStackBase := by decide
  obtain ⟨frame, free, read, read'⟩ := cells userStackBase inside
  have mapped : m'.findPte space.pml4Phys userStackBase ≠ none := by
    intro absent
    rw [userRead, absent] at read
    cases read
  have same := fresh _ space n' (flipFree_stores m) returned' userStackBase (stackRange.userVa inside) mapped
  rw [read, read'] at same
  exact flipFree_byte free _ (Option.some.inj same)

/-- A mapping of `sys_mmap` is fresh just if it recycles what it released; a growth of the heap and a load never are. -/
theorem fresh_memory_exact (inv : UserMemInv (kernelPages s.machine roots) roots s places) :
    (∀ hint length prot flags nodeOk value s', (MemCall.mmap hint length prot flags nodeOk).inRange →
      sysMmap s hint length prot flags nodeOk = .ok (value, s') → value ≠ minusOne →
      (FreshReads (fun t => sysMmap t hint length prot flags nodeOk) s s' (InRange value (lengthPages length.toNat)) ↔
        MmapRecycles s hint length flags)) ∧
    (∀ p newBreak nodeOk s', s.proc = some p → heapStart p.heapBreak < newBreak.toNat → newBreak.toNat ≤ userTop →
      sysBrk s newBreak nodeOk = .ok (newBreak.toNat, s') →
      ¬FreshReads (fun t => sysBrk t newBreak nodeOk) s s' (brkPages p newBreak)) ∧
    ∀ image outcomes space m', UserSegments image → elfLoad image s.machine outcomes = .ok (some space, m') →
      ¬FreshLoad image outcomes s.machine space m' := by
  refine ⟨?_, ?_, ?_⟩
  · intro hint length prot flags nodeOk value s' inRange returned success
    exact (mmap_twins inv inRange returned success).fresh_iff.trans (mmap_reuses inv inRange returned success)
  · intro p newBreak nodeOk s' isProc grows within returned
    rw [(brk_twins inv isProc grows within returned).fresh_iff]
    exact brk_takes_free inv isProc grows within returned
  · intro image outcomes space m' user returned
    exact elfLoad_stale user inv.memory returned

end

/-- A fixed mapping of one page. -/
def onePage : MemCall := .mmap 0x1000000 0x1000 3 0x30 true

theorem onePage_inRange : onePage.inRange := Or.inr (Or.inr (Or.inr (by decide)))

/-- The space of the small process after the mapping. -/
def onePageSpace : Space := ⟨0x2000, [⟨0x1000000, 0x1000, 0x35⟩], 1, 0x1000⟩

/-- A small process with a mapped page keeps the invariant. -/
theorem onePage_inv (check : UserMem → Bool)
    (checked : (exec UserMem.step (fun _ call => decide (call = onePage)) [onePage] smallProcess).any check = true) :
    ∃ s places, Run UserMem.step (fun _ call => call = onePage) smallProcess [onePage] s ∧ check s = true ∧
      UserMemInv (kernelPages s.machine {0x2000}) {0x2000} s places := by
  obtain ⟨s, run, shown⟩ := Run.exists_of_check checked
  have run' : Run UserMem.step (fun _ call => call = onePage) smallProcess [onePage] s :=
    run.mono fun _ _ permitted => of_decide_eq_true permitted
  have start := smallProcess_inv (show smallProcess.space = some ⟨0x2000, [], 0, 0⟩ by decide +kernel)
  obtain ⟨⟨places, inv⟩, spared⟩ := memRun_inv start (run'.mono fun _ _ same => same.symm ▸ onePage_inRange)
  rw [← spared.kernelPages_eq] at inv
  exact ⟨s, places, run', shown, inv⟩

/-- The mapping of a page over itself takes the frame that it released. -/
theorem fresh_memory_remapped : ∃ s s', Run UserMem.step (fun _ call => call = onePage) smallProcess [onePage] s ∧
    sysMmap s 0x1000000 0x1000 3 0x30 true = .ok (0x1000000, s') ∧
    FreshReads (fun t => sysMmap t 0x1000000 0x1000 3 0x30 true) s s' (InRange 0x1000000 1) := by
  obtain ⟨s, places, run, shown, inv⟩ := onePage_inv (fun s =>
    let released := (mmapTarget s.machine onePageSpace 0x1000000 0x30 0x1000).2.1.phys
    decide (s.space = some onePageSpace) && s.machine.phys.used 3 && decide (3 < released.total ∧ released.used 3 = false) &&
      decide (released.freeBelow 3 = 0) &&
      decide (((sysMmap s 0x1000000 0x1000 3 0x30 true).map Prod.fst).toOption = some 0x1000000)) (by decide +kernel)
  simp only [Bool.and_eq_true, decide_eq_true_eq] at shown
  obtain ⟨⟨⟨⟨live, used⟩, free⟩, lowest⟩, mapped⟩ := shown
  obtain ⟨⟨value, s'⟩, returned, same⟩ := exists_of_toOption mapped
  obtain rfl : value = 0x1000000 := same
  refine ⟨s, s', run, returned, ((fresh_memory_exact inv).1 _ _ _ _ _ _ _ onePage_inRange returned (by decide)).mpr ?_⟩
  intro space target m released i frame isSpace chosen inside free' rank
  rw [live] at isSpace
  cases isSpace
  obtain rfl : i = 0 := Nat.lt_one_iff.mp inside
  change mmapTarget s.machine onePageSpace 0x1000000 0x30 0x1000 = _ at chosen
  rw [chosen] at free lowest
  have first : frame = 3 := PhysMem.freeBelow_inj free' free (rank.trans lowest.symm)
  rw [first]
  intro unused
  rw [unused.2] at used
  cases used

/-- A new page shows the bytes of a free frame: the first byte is 0 in one state and 255 in the other. -/
theorem fresh_memory_leaks : ¬∀ (s t s' t' : UserMem) (roots : Set Nat) (places : Finset Place)
    (hint length prot flags : Word) (nodeOk : Bool) (value : Nat), UserMemInv (kernelPages s.machine roots) roots s places →
    SameButFree s t → sysMmap s hint length prot flags nodeOk = .ok (value, s') →
    sysMmap t hint length prot flags nodeOk = .ok (value, t') → value ≠ minusOne →
    ∀ va, InRange value (lengthPages length.toNat) va → t'.read va = s'.read va := by
  intro claim
  have start := smallProcess_inv (show smallProcess.space = some ⟨0x2000, [], 0, 0⟩ by decide +kernel)
  have ran : ((sysMmap smallProcess 0x1000000 0x1000 3 0x30 true).map fun result =>
      (result.1, result.2.read 0x1000000)).toOption = some (0x1000000, some 0) := by decide +kernel
  have ran' : ((sysMmap ⟨flipFree smallProcess.machine, smallProcess.proc⟩ 0x1000000 0x1000 3 0x30 true).map fun result =>
      (result.1, result.2.read 0x1000000)).toOption = some (0x1000000, some 255) := by decide +kernel
  obtain ⟨⟨value, s'⟩, returned, given⟩ := exists_of_toOption ran
  obtain ⟨⟨value', t'⟩, returned', given'⟩ := exists_of_toOption ran'
  obtain ⟨rfl, read⟩ := Prod.mk.inj given
  obtain ⟨rfl, read'⟩ := Prod.mk.inj given'
  have agrees : SameButFree smallProcess ⟨flipFree smallProcess.machine, smallProcess.proc⟩ := ⟨rfl, flipFree_stores _⟩
  have inside : InRange 0x1000000 (lengthPages (0x1000 : Word).toNat) 0x1000000 := by decide +kernel
  have same := claim _ _ _ _ _ _ _ _ _ _ _ _ start agrees returned returned' (by decide) 0x1000000 inside
  rw [read, read'] at same
  exact absurd same (by decide)

end DoccrOS.User
