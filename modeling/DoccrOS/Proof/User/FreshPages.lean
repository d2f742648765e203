import DoccrOS.Proof.Mem.Twins
import DoccrOS.Proof.User.Munmap

namespace DoccrOS.User
open Lib Mem Proc

/-- Two states that agree on everything but the bytes of the free frames. -/
structure SameButFree (s t : UserMem) : Prop where
  proc : t.proc = s.proc
  stores : DataStores s.machine t.machine (unusedPages s.machine)

/-- The byte that the process reads at an address. -/
def UserMem.read (s : UserMem) (va : Nat) : Option (BitVec 8) := s.space.bind fun space => userRead s.machine space va

/-- Every run from a state that differs in the free frames reads the same bytes at the new addresses. -/
def FreshReads (run : UserMem → Result (Nat × UserMem)) (s s' : UserMem) (new : Nat → Prop) : Prop :=
  ∀ t value t', SameButFree s t → run t = .ok (value, t') → ∀ va, new va → t'.read va = s'.read va

/-- No new page has a frame that was free before. -/
def ReusesFrames (s s' : UserMem) (new : Nat → Prop) : Prop :=
  ∀ va space entry, new va → s'.space = some space → s'.machine.findPte space.pml4Phys va = some entry →
    ¬s.machine.phys.Free (entryAddr entry / pageSize)

/-- The address at which `sys_mmap` maps its pages once it chose a target. -/
def mmapAddress (target : Nat) (space : Space) (length : Word) : Nat :=
  if target = 0 then findFreeVaddr space (mmapSize length) else target

/-- The call runs in the same way from every state that differs in the free frames, and its new pages are fresh cells. -/
def TwinRuns (run : UserMem → Result (Nat × UserMem)) (s s' : UserMem) (value : Nat) (new : Nat → Prop) : Prop :=
  ∀ t, SameButFree s t → ∃ t' space, run t = .ok (value, t') ∧ s'.space = some space ∧ t'.space = some space ∧
    ∀ va, new va → ∃ frame, FreshCell (unusedPages s.machine) s.machine t.machine s'.machine t'.machine space va frame

section
variable {run : UserMem → Result (Nat × UserMem)} {shield roots : Set Nat} {s s' t : UserMem} {value : Nat} {new : Nat → Prop}
  {places : Finset Place} {space : Space}

theorem SameButFree.sameSpace (same : SameButFree s t) : t.space = s.space := by
  unfold UserMem.space
  rw [same.proc]

/-- The new pages read the same bytes in all runs just if none of them has a frame that was free. -/
theorem TwinRuns.fresh_iff (twins : TwinRuns run s s' value new) : FreshReads run s s' new ↔ ReusesFrames s s' new := by
  constructor
  · intro fresh va space entry inside live found free
    have agrees : SameButFree s ⟨flipFree s.machine, s.proc⟩ := ⟨rfl, flipFree_stores s.machine⟩
    obtain ⟨t', other, returned, live', live'', cells⟩ := twins _ agrees
    obtain rfl := Option.some.inj (live.symm.trans live')
    obtain ⟨frame, cell⟩ := cells va inside
    obtain ⟨entry', found', address⟩ := cell.found
    rw [found] at found'
    rw [Option.some.inj found', address, page_div] at free
    have same := fresh _ value t' agrees returned va inside
    unfold UserMem.read at same
    rw [live, live'', Option.bind_some, Option.bind_some, cell.read, cell.read', loadByte_eq, loadByte_eq, (cell.stale free).1,
      (cell.stale free).2] at same
    exact flipFree_byte free (va % pageSize) (Option.some.inj same)
  · intro reuses t value' t' agrees returned va inside
    obtain ⟨t'', space, returned', live, live', cells⟩ := twins t agrees
    rw [returned] at returned'
    cases returned'
    obtain ⟨frame, cell⟩ := cells va inside
    obtain ⟨entry, found, address⟩ := cell.found
    have used := reuses va space entry inside live found
    rw [address] at used
    unfold UserMem.read
    rw [live, live', Option.bind_some, Option.bind_some, cell.read, cell.read', loadByte_eq, loadByte_eq, cell.own used]

/-- The part of `sys_mmap` before the search takes the same steps in both machines. -/
theorem mmapTarget_twin {hint flags : Word} {size target : Nat} {space₁ : Space} {m m₁ n : Machine}
    (memory : MemInv shield m roots places) (stores : DataStores m n (unusedPages m)) (regions : RegionsInv space places)
    (isRoot : space.pml4Phys ∈ roots) (chosen : mmapTarget m space hint flags size = (target, m₁, space₁)) :
    ∃ n₁, mmapTarget n space hint flags size = (target, n₁, space₁) ∧ Twins (unusedPages m) roots m₁ n₁ ∧
      ∀ frame, m.phys.Free frame → m₁.ram (frame * pageSize) = m.ram (frame * pageSize) ∧
        n₁.ram (frame * pageSize) = n.ram (frame * pageSize) := by
  obtain ⟨memory', twins⟩ := memory.twin stores
  unfold mmapTarget at chosen ⊢
  split at chosen
  · rename_i noHint
    cases chosen
    exact ⟨n, if_pos noHint, twins, fun frame _ => ⟨rfl, rfl⟩⟩
  rename_i hasHint
  rw [if_neg hasHint]
  split at chosen
  · rename_i fixed
    rw [if_pos fixed]
    split at chosen
    · rename_i taken
      rw [if_pos taken]
      cases call : vmmSpaceFree m space (alignedHint hint) with
      | mk m₂ space₂ =>
          rw [call] at chosen
          cases chosen
          obtain ⟨n₁, call', twins₁⟩ := twins.free memory regions isRoot call
          rw [call']
          refine ⟨n₁, rfl, twins₁, fun frame free => ⟨memory.free_stale regions isRoot call free, ?_⟩⟩
          exact memory'.free_stale regions isRoot call' (stores.phys ▸ free)
    · rename_i untaken
      cases chosen
      exact ⟨n, if_neg untaken, twins, fun frame _ => ⟨rfl, rfl⟩⟩
  · rename_i plain
    rw [if_neg plain]
    split at chosen
    · rename_i free
      cases chosen
      exact ⟨n, if_pos free, twins, fun frame _ => ⟨rfl, rfl⟩⟩
    · rename_i taken
      cases chosen
      exact ⟨n, if_neg taken, twins, fun frame _ => ⟨rfl, rfl⟩⟩

/-- A call of `sys_mmap` whose search finds an address allocates there. -/
theorem sysMmap_ran {hint length prot flags : Word} {nodeOk : Bool} {space₁ space₂ : Space} {m₁ m₂ : Machine}
    {target address : Nat} (anon : flags &&& mmapMapAnon ≠ 0) (several : length ≠ 0) (live : s.space = some space)
    (chosen : mmapTarget s.machine space hint flags (mmapSize length) = (target, m₁, space₁))
    (searched : address = if target = 0 then findFreeVaddr space₁ (mmapSize length) else target) (found : address ≠ 0)
    (call : vmmSpaceAlloc m₁ space₁ address (lengthPages length.toNat) (protFlags prot) nodeOk = .ok (value, m₂, space₂)) :
    sysMmap s hint length prot flags nodeOk = .ok (if value = 0 then minusOne else value, s.put m₂ space₂) := by
  change mmapTarget s.machine space hint flags (lengthPages length.toNat * pageSize) = _ at chosen
  change address = if target = 0 then findFreeVaddr space₁ (lengthPages length.toNat * pageSize) else target at searched
  unfold sysMmap
  simp only [anon, several, live, chosen, if_false]
  rw [← searched, if_neg found, call]
  rfl

/-- A call of `sys_mmap` chose a target and mapped its pages there. -/
structure MmapMapped (shield roots : Set Nat) (places : Finset Place) (s s' : UserMem) (hint length prot flags : Word)
    (nodeOk : Bool) (value target : Nat) (space space₁ space₂ : Space) (m₁ m₂ : Machine) : Prop where
  anon : flags &&& mmapMapAnon ≠ 0
  several : length ≠ 0
  live : s.space = some space
  isRoot : space.pml4Phys ∈ roots
  regions : RegionsInv space places
  chosen : mmapTarget s.machine space hint flags (mmapSize length) = (target, m₁, space₁)
  memory : MemInv shield m₁ roots places
  sameRoot : space₁.pml4Phys = space.pml4Phys
  address : value = mmapAddress target space₁ length
  nonzero : value ≠ 0
  range : UserRange value (lengthPages length.toNat)
  call : vmmSpaceAlloc m₁ space₁ value (lengthPages length.toNat) (protFlags prot) nodeOk = .ok (value, m₂, space₂)
  after : s' = s.put m₂ space₂

/-- A call of `sys_mmap` that succeeds mapped its pages. -/
theorem sysMmap_mapped {hint length prot flags : Word} {nodeOk : Bool} (inv : UserMemInv shield roots s places)
    (inRange : (MemCall.mmap hint length prot flags nodeOk).inRange)
    (returned : sysMmap s hint length prot flags nodeOk = .ok (value, s')) (success : value ≠ minusOne) :
    ∃ target space space₁ space₂ m₁ m₂,
      MmapMapped shield roots places s s' hint length prot flags nodeOk value target space space₁ space₂ m₁ m₂ := by
  cases sysMmap_outcome returned with
  | refused => exact absurd rfl success
  | noRoom space space₁ m₁ target live chosen => exact absurd rfl success
  | ran space space₁ space₂ m₁ m₂ target address vaddr anon several live chosen searched found call =>
      obtain ⟨isRoot, regions⟩ := inv.space space live
      obtain ⟨memory₁, regions₁, sameRoot₁, _, kind⟩ := UserMemInv.mmapTarget inv.memory regions isRoot chosen
      have mapped : vaddr ≠ 0 := by
        rintro rfl
        exact success rfl
      have nonempty : mmapSize length ≠ 0 := by
        intro empty
        have none : lengthPages length.toNat = 0 := (Nat.mul_eq_zero.mp empty).resolve_right (by decide)
        rw [none, vmmSpaceAlloc, if_pos rfl] at call
        cases call
        exact mapped rfl
      have range := mmapTarget_range regions₁ inRange anon several nonempty kind searched found
      have isBase : vaddr = address := by
        have outcome := vmmSpaceAlloc_spec memory₁.data.tables (sameRoot₁ ▸ isRoot) (range.alignDown.symm ▸ range) call
        rw [range.alignDown] at outcome
        cases outcome with
        | refused why => exact absurd rfl mapped
        | failed i frames full inside node filled exhausted _ undone => exact absurd rfl mapped
        | done frames _ positive node filled => rfl
      rw [isBase] at call
      rw [if_neg mapped, isBase]
      exact ⟨target, space, space₁, space₂, m₁, m₂, anon, several, live, isRoot, regions, chosen, memory₁, sameRoot₁, searched,
        found, range, call, rfl⟩

theorem mmap_twins {hint length prot flags : Word} {nodeOk : Bool} (inv : UserMemInv shield roots s places)
    (inRange : (MemCall.mmap hint length prot flags nodeOk).inRange)
    (returned : sysMmap s hint length prot flags nodeOk = .ok (value, s')) (success : value ≠ minusOne) :
    TwinRuns (fun t => sysMmap t hint length prot flags nodeOk) s s' value
      (InRange value (lengthPages length.toNat)) := by
  intro t agrees
  obtain ⟨target, space, space₁, space₂, m₁, m₂, mapped⟩ := sysMmap_mapped inv inRange returned success
  obtain ⟨n₁, chosen', twins₁, stale⟩ := mmapTarget_twin inv.memory agrees.stores mapped.regions mapped.isRoot mapped.chosen
  obtain ⟨_, n₂, call', cells⟩ := twins₁.allocFresh mapped.memory.data.tables (fun frame _ free => (stale frame free).1)
    (fun frame _ free => (stale frame free).2) (mapped.sameRoot ▸ mapped.isRoot) (mapped.range.alignDown.symm ▸ mapped.range)
    mapped.call mapped.nonzero
  rw [mapped.range.alignDown] at cells
  have ran := sysMmap_ran mapped.anon mapped.several (agrees.sameSpace.trans mapped.live) chosen' mapped.address mapped.nonzero
    call'
  rw [if_neg mapped.nonzero] at ran
  refine ⟨t.put n₂ space₂, space₂, ran, ?_, put_space (agrees.sameSpace.trans mapped.live), ?_⟩
  · rw [mapped.after]
    exact put_space mapped.live
  · intro va inside
    rw [mapped.after]
    exact (cells va inside).imp fun _ both => both.2

/-- The pages that `sys_brk` maps to grow the heap up to an address. -/
def brkPages (p : UserProc) (newBreak : Word) : Nat → Prop :=
  InRange (pageAlignDown (heapStart p.heapBreak)) (lengthPages (newBreak.toNat - heapStart p.heapBreak))

/-- A call of `sys_brk` that grows the heap is an allocation. -/
theorem sysBrk_grows {p : UserProc} {newBreak : Word} {nodeOk : Bool} (isProc : s.proc = some p)
    (live : p.space = some space) (grows : heapStart p.heapBreak < newBreak.toNat) (within : newBreak.toNat ≤ userTop) :
    sysBrk s newBreak nodeOk =
      (vmmSpaceAlloc s.machine space (heapStart p.heapBreak) (lengthPages (newBreak.toNat - heapStart p.heapBreak)) brkFlags
        nodeOk).map fun result => if result.1 = 0 then
          (heapStart p.heapBreak, ⟨result.2.1, some ⟨some result.2.2, heapStart p.heapBreak⟩⟩)
          else (newBreak.toNat, ⟨result.2.1, some ⟨some result.2.2, newBreak.toNat⟩⟩) := by
  unfold sysBrk growHeap
  rw [isProc]
  simp only [live]
  rw [if_neg (by omega), if_neg (by omega), if_neg (by omega)]
  cases vmmSpaceAlloc s.machine space (heapStart p.heapBreak) (lengthPages (newBreak.toNat - heapStart p.heapBreak)) brkFlags
    nodeOk with
  | error halt => rfl
  | ok result =>
      obtain ⟨mapped, m, space'⟩ := result
      by_cases failed : mapped = 0
      · simp only [Result.ok_bind, Except.map, failed, if_true]
        rfl
      · simp only [Result.ok_bind, Except.map, failed, if_false]
        rfl

/-- A growth of the heap that succeeds is an allocation that succeeds. -/
theorem sysBrk_grew {p : UserProc} {newBreak : Word} {nodeOk : Bool} (isProc : s.proc = some p)
    (grows : heapStart p.heapBreak < newBreak.toNat) (within : newBreak.toNat ≤ userTop)
    (returned : sysBrk s newBreak nodeOk = .ok (newBreak.toNat, s')) :
    ∃ space mapped m₁ space₁, p.space = some space ∧ s.space = some space ∧ mapped ≠ 0 ∧
      vmmSpaceAlloc s.machine space (heapStart p.heapBreak) (lengthPages (newBreak.toNat - heapStart p.heapBreak)) brkFlags
        nodeOk = .ok (mapped, m₁, space₁) ∧ s' = ⟨m₁, some ⟨some space₁, newBreak.toNat⟩⟩ := by
  cases live : p.space with
  | none =>
      exfalso
      unfold sysBrk growHeap at returned
      rw [isProc] at returned
      simp only [live] at returned
      rw [if_neg (by omega), if_neg (by omega), if_neg (by omega)] at returned
      injection returned with same
      exact absurd (Prod.mk.inj same).1 grows.ne
  | some space =>
      have isSpace : s.space = some space := by rw [UserMem.space, isProc]; exact live
      rw [sysBrk_grows isProc live grows within] at returned
      obtain ⟨⟨mapped, m₁, space₁⟩, call, same⟩ := Result.map_ok returned
      by_cases failed : mapped = 0
      · rw [if_pos failed] at same
        exact absurd (Prod.mk.inj same).1 grows.ne
      · rw [if_neg failed] at same
        exact ⟨space, mapped, m₁, space₁, rfl, isSpace, failed, call, (Prod.mk.inj same).2.symm⟩

theorem brk_twins {p : UserProc} {newBreak : Word} {nodeOk : Bool} (inv : UserMemInv shield roots s places)
    (isProc : s.proc = some p) (grows : heapStart p.heapBreak < newBreak.toNat) (within : newBreak.toNat ≤ userTop)
    (returned : sysBrk s newBreak nodeOk = .ok (newBreak.toNat, s')) :
    TwinRuns (fun t => sysBrk t newBreak nodeOk) s s' newBreak.toNat (brkPages p newBreak) := by
  intro t agrees
  obtain ⟨space, mapped, m₁, space₁, live, isSpace, success, call, rfl⟩ := sysBrk_grew isProc grows within returned
  obtain ⟨isRoot, _⟩ := inv.space space isSpace
  obtain ⟨_, twins⟩ := inv.memory.twin agrees.stores
  obtain ⟨_, n₁, call', cells⟩ := twins.allocFresh inv.memory.data.tables (fun _ _ _ => rfl) (fun _ _ _ => rfl) isRoot
    (growHeap_range within grows) call success
  refine ⟨⟨n₁, some ⟨some space₁, newBreak.toNat⟩⟩, space₁, ?_, rfl, rfl, ?_⟩
  · change sysBrk t newBreak nodeOk = _
    rw [sysBrk_grows (agrees.proc.trans isProc) live grows within, call']
    exact congrArg Except.ok (if_neg success)
  · intro va inside
    exact (cells va inside).imp fun _ both => both.2

end

end DoccrOS.User
