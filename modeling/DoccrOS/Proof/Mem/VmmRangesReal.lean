import DoccrOS.Proof.Mem.VmmRangesRuns

namespace DoccrOS.Mem
open Lib

/-- The range allocator and the bases that `vmm_alloc` returned and that were not freed since, with the requested sizes. -/
structure RangeCalls where
  ranges : VmmRanges
  live : List (Nat × Nat)

def RangeCalls.step (calls : RangeCalls) : RangeOp → Result RangeCalls
  | .init node => (vmmInit calls.ranges node).map fun v => ⟨v, []⟩
  | .alloc size flags split =>
    (vmmAlloc calls.ranges size flags split).map fun answer =>
      ⟨answer.2, if answer.1 = 0 then calls.live else (answer.1, size) :: calls.live⟩
  | .free base => (vmmFree calls.ranges base).map fun v => ⟨v, calls.live.filter fun entry => entry.1 ≠ base⟩

/-- No region is free. -/
def VmmRanges.full (v : VmmRanges) : Bool :=
  seek v.nodes (fun region => !hasFlag region.flags vmmRegionUsed) heapSize v.head == some none

/-- The requested size can be rounded up to pages, or `vmm_alloc` fails before it uses the rounded size. -/
def VmmRanges.rounds (v : VmmRanges) : RangeOp → Bool
  | .alloc size _ split => decide (size ≤ 2 ^ 64 - pageSize) || split.isNone && decide (size < 2 ^ 64) || v.full
  | _ => true

/-- A used region starts at a returned base and has at least the requested size. -/
structure VmmRanges.Backs (v : VmmRanges) (region : Region) (entry : Nat × Nat) : Prop where
  node : ∃ ptr node, v.nodes ptr = some node ∧ node.value = region
  used : hasFlag region.flags vmmRegionUsed = true
  base : region.base = entry.1
  size : entry.2 ≤ region.size

/-- A new range is apart from the ranges that are allocated already. -/
structure RealRange (calls : RangeCalls) (v : VmmRanges) (base size : Nat) : Prop where
  aligned : pageSize ∣ base
  inside : vmmBase ≤ base ∧ base < vmmLimit
  backed : ∃ region, v.Backs region (base, size) ∧ ∀ entry ∈ calls.live, entry.1 ≠ base ∧
    ∃ other, v.Backs other entry ∧
      (region.base + region.size ≤ other.base ∨ other.base + other.size ≤ region.base)

/-- `vmm_alloc` fails without an effect or returns a new range. -/
def RealAlloc (calls : RangeCalls) (size : Nat) (flags : BitVec 32) (split : Option HeapPtr) : Prop :=
  ∃ base v, vmmAlloc calls.ranges size flags split = .ok (base, v) ∧
    (base = 0 ∧ v = calls.ranges ∨ RealRange calls v base size)

/-- `vmm_free` keeps the ranges that start at other bases. -/
def FreesOnly (calls : RangeCalls) (base : Nat) : Prop :=
  ∃ v, vmmFree calls.ranges base = .ok v ∧ ∀ entry ∈ calls.live, entry.1 ≠ base →
    ∃ region, calls.ranges.Backs region entry ∧ v.Backs region entry

/-- The regions have bytes, and every returned base has a used region of its own. -/
structure RealRanges (calls : RangeCalls) (list : List (HeapPtr × Region)) : Prop where
  ranges : Ranges calls.ranges list
  coalesced : Coalesced (regionPieces list)
  sized : ∀ pair ∈ list, 0 < pair.2.size
  backed : ∀ entry ∈ calls.live, ∃ pair ∈ list, hasFlag pair.2.flags vmmRegionUsed = true ∧ pair.2.base = entry.1 ∧
    entry.2 ≤ pair.2.size

section
variable {calls calls' : RangeCalls} {v : VmmRanges} {list list' : List (HeapPtr × Region)} {ptr : HeapPtr}
  {old region : Region} {size base : Nat} {split : Option HeapPtr} {entry : Nat × Nat}

/-- A size below the last page is not lost when it is rounded up. -/
theorem le_pageAlignUp (rounds : size ≤ 2 ^ 64 - pageSize) : size ≤ pageAlignUp size := by
  simp only [pageAlignUp, pageAlignDown, wrap64, pageSize] at rounds ⊢
  omega

/-- A size in the last page is rounded up to zero. -/
theorem pageAlignUp_last (large : 2 ^ 64 - pageSize < size) (word : size < 2 ^ 64) : pageAlignUp size = 0 := by
  simp only [pageAlignUp, pageAlignDown, wrap64, pageSize] at large ⊢
  omega

theorem NodeList.mem_of_nodes {node : Node HeapPtr Region} (nodes : NodeList v list) (stored : v.nodes ptr = some node) :
    (ptr, node.value) ∈ list := by
  by_cases inside : ptr ∈ list.map Prod.fst
  · obtain ⟨pair, member, isPtr⟩ := List.mem_map.mp inside
    obtain ⟨left, right, split⟩ := List.append_of_mem member
    rw [split] at nodes
    have here := nodes.node
    rw [isPtr, stored] at here
    injection here with same
    rw [same, ← isPtr]
    exact member
  · rw [nodes.owned ptr inside] at stored
    cases stored

theorem NodeList.nodes_of_mem (nodes : NodeList v list) (member : (ptr, region) ∈ list) :
    ∃ node, v.nodes ptr = some node ∧ node.value = region := by
  obtain ⟨left, right, split⟩ := List.append_of_mem member
  rw [split] at nodes
  exact ⟨_, nodes.node, rfl⟩

theorem NodeList.backs (nodes : NodeList v list) (member : (ptr, region) ∈ list)
    (used : hasFlag region.flags vmmRegionUsed = true) (base : region.base = entry.1) (size : entry.2 ≤ region.size) :
    v.Backs region entry := by
  obtain ⟨node, stored, isRegion⟩ := nodes.nodes_of_mem member
  exact ⟨⟨ptr, node, stored, isRegion⟩, used, base, size⟩

/-- The bases of the regions are page-aligned. -/
theorem Ranges.aligned (ranges : Ranges v list) (member : (ptr, region) ∈ list) : pageSize ∣ region.base := by
  obtain ⟨left, right, split⟩ := List.append_of_mem member
  have tiles := ranges.tiles
  rw [split, regionPieces_append, regionPieces_cons] at tiles
  have position := tiles.position_eq.1
  simp only [regionPiece] at position
  rw [position]
  apply Nat.dvd_add
  · exact ⟨0xFFFF900000000, by decide⟩
  · apply List.dvd_sum
    intro length inside
    obtain ⟨piece, isPiece, isLength⟩ := List.mem_map.mp inside
    obtain ⟨pair, isPair, same⟩ := List.mem_map.mp isPiece
    rw [← isLength, ← same, Nat.zero_add]
    refine ranges.whole pair ?_
    rw [split]
    exact List.mem_append_left _ isPair

/-- Regions with bytes start at different bases. -/
theorem Ranges.base_inj {first second : HeapPtr × Region} (ranges : Ranges v list)
    (sized : ∀ pair ∈ list, 0 < pair.2.size) (inside : first ∈ list) (inside' : second ∈ list)
    (same : first.2.base = second.2.base) : first = second := by
  have nodup : (list.map fun pair => pair.2.base).Nodup := by
    have apart := ranges.tiles.apart
    rw [regionPieces, List.pairwise_map] at apart
    refine List.pairwise_map.mpr (apart.imp_of_mem ?_)
    intro pair other member _ behind
    have positive := sized pair member
    simp only [regionPiece] at behind
    omega
  exact List.inj_on_of_nodup_map nodup inside inside' same

/-- Two regions with bytes lie apart. -/
theorem Ranges.apart {first second : HeapPtr × Region} (ranges : Ranges v list)
    (sized : ∀ pair ∈ list, 0 < pair.2.size) (inside : first ∈ list) (inside' : second ∈ list)
    (different : first ≠ second) : first.2.base + first.2.size ≤ second.2.base ∨
      second.2.base + second.2.size ≤ first.2.base := by
  have differ : regionPiece first ≠ regionPiece second := fun same =>
    different (ranges.base_inj sized inside inside' (congrArg Piece.position same))
  exact ranges.tiles.apart_of_mem (List.mem_map_of_mem inside) (List.mem_map_of_mem inside') differ

theorem RealRanges.full_iff (real : RealRanges calls list) :
    calls.ranges.full = true ↔ ∀ pair ∈ list, hasFlag pair.2.flags vmmRegionUsed = true := by
  have searched := real.ranges.nodes.linked.seek (fun region => !hasFlag region.flags vmmRegionUsed)
    real.ranges.nodes.length_le
  rw [← real.ranges.nodes.head] at searched
  rw [VmmRanges.full, searched]
  simp

/-- The carved region has the requested size. -/
theorem RealRanges.fits {flags : BitVec 32} (real : RealRanges calls list)
    (carved : Carved (pageAlignUp size) split list list' ptr old region)
    (rounds : calls.ranges.rounds (.alloc size flags split) = true) : size ≤ region.size := by
  rw [carved.size]
  simp only [VmmRanges.rounds, Bool.or_eq_true, Bool.and_eq_true, decide_eq_true_eq] at rounds
  rcases rounds with (small | ⟨none, word⟩) | full
  · exact le_pageAlignUp small
  · rcases Nat.lt_or_ge (2 ^ 64 - pageSize) size with large | small
    · have positive := real.sized _ carved.taken
      rw [carved.whole (Option.isNone_iff_eq_none.mp none), pageAlignUp_last large word] at positive
      cases positive
    · exact le_pageAlignUp small
  · have used := real.full_iff.mp full _ carved.taken
    rw [carved.free] at used
    cases used

/-- No returned base is the base of a free region. -/
theorem RealRanges.base_ne (real : RealRanges calls list) (taken : (ptr, old) ∈ list)
    (free : hasFlag old.flags vmmRegionUsed = false) {pair : HeapPtr × Region} (member : pair ∈ list)
    (used : hasFlag pair.2.flags vmmRegionUsed = true) : pair.2.base ≠ old.base := by
  intro same
  rw [real.ranges.base_inj real.sized member taken same, free] at used
  cases used

/-- A carved region is a new range. -/
theorem RealRanges.realRange (real : RealRanges calls list) (positive : 0 < size) (ranges' : Ranges v list')
    (sized' : ∀ pair ∈ list', 0 < pair.2.size) (carved : Carved (pageAlignUp size) split list list' ptr old region)
    (fits : size ≤ region.size) : RealRange calls v region.base size := by
  have inside := ranges'.inside carved.stands
  refine ⟨ranges'.aligned carved.stands, ⟨inside.1, by omega⟩, region,
    ranges'.nodes.backs carved.stands carved.used rfl fits, ?_⟩
  intro entry live
  obtain ⟨pair, member, used, base, enough⟩ := real.backed entry live
  have different : pair.2.base ≠ region.base := by
    rw [carved.base]
    exact real.base_ne carved.taken carved.free member used
  have kept := carved.kept pair member used
  refine ⟨base ▸ different, pair.2, ranges'.nodes.backs kept used base enough, ?_⟩
  apply ranges'.apart sized' carved.stands kept
  intro same
  rw [← same] at different
  exact different rfl

theorem Carved.sized {request : Nat} (carved : Carved request split list list' ptr old region)
    (sized : ∀ pair ∈ list, 0 < pair.2.size) (positive : 0 < region.size) : ∀ pair ∈ list', 0 < pair.2.size := by
  intro pair member
  rcases carved.others pair member with here | old | new
  · rw [here]
    exact positive
  · exact sized pair old
  · exact new

/-- An allocation whose size can be rounded up keeps the invariant. -/
theorem RealRanges.alloc {flags : BitVec 32} (real : RealRanges calls list)
    (fresh : ∀ new ∈ split, calls.ranges.nodes new = none)
    (rounds : calls.ranges.rounds (.alloc size flags split) = true) :
    ∃ base v list', vmmAlloc calls.ranges size flags split = .ok (base, v) ∧
      RealRanges ⟨v, if base = 0 then calls.live else (base, size) :: calls.live⟩ list' ∧
      (base = 0 ∧ v = calls.ranges ∨ RealRange calls v base size) := by
  obtain ⟨base, v, list', called, ranges', coalesced', _, outcome⟩ := real.ranges.vmmAlloc real.coalesced size flags fresh
  refine ⟨base, v, list', called, ?_⟩
  rcases outcome with ⟨failed, unchanged, same, _⟩ | ⟨ptr, old, region, carved, isBase⟩
  · rw [if_pos failed, unchanged, same]
    exact ⟨real, Or.inl ⟨failed, rfl⟩⟩
  · have fits := real.fits carved rounds
    have inside := ranges'.inside carved.stands
    have nonzero : base ≠ 0 := by
      simp only [vmmBase] at inside
      omega
    have requested : 0 < size := by
      refine Nat.pos_of_ne_zero fun zero => nonzero ?_
      rw [zero, vmmAlloc, if_pos rfl] at called
      exact (Prod.mk.inj (Except.ok.inj called)).1.symm
    have sized' := carved.sized real.sized (Nat.lt_of_lt_of_le requested fits)
    have new := real.realRange requested ranges' sized' carved fits
    rw [← isBase] at new
    rw [if_neg nonzero]
    refine ⟨⟨ranges', coalesced', sized', ?_⟩, Or.inr new⟩
    rw [List.forall_mem_cons]
    refine ⟨⟨_, carved.stands, carved.used, isBase.symm, fits⟩, ?_⟩
    intro entry live
    obtain ⟨pair, member, used, base, enough⟩ := real.backed entry live
    exact ⟨pair, carved.kept pair member used, used, base, enough⟩

/-- A release keeps the invariant and the other ranges. -/
theorem RealRanges.free (real : RealRanges calls list) (base : Nat) :
    ∃ v list', vmmFree calls.ranges base = .ok v ∧
      RealRanges ⟨v, calls.live.filter fun entry => entry.1 ≠ base⟩ list' ∧ FreesOnly calls base := by
  obtain ⟨v, list', called, ranges', coalesced', _, released⟩ := real.ranges.vmmFree real.coalesced base
  refine ⟨v, list', called, ⟨ranges', coalesced', released.sized real.sized, ?_⟩, v, called, ?_⟩
  · intro entry live
    have both := List.mem_filter.mp live
    obtain ⟨pair, member, used, isBase, enough⟩ := real.backed entry both.1
    have other : entry.1 ≠ base := by simpa using both.2
    exact ⟨pair, released.used pair member used (isBase ▸ other), used, isBase, enough⟩
  · intro entry live other
    obtain ⟨pair, member, used, isBase, enough⟩ := real.backed entry live
    have kept := released.used pair member used (isBase ▸ other)
    exact ⟨pair.2, real.ranges.nodes.backs member used isBase enough, ranges'.nodes.backs kept used isBase enough⟩

theorem RealRanges.step {op : RangeOp} (real : RealRanges calls list) (allowed : calls.ranges.allocates op = true)
    (rounds : calls.ranges.rounds op = true) (returned : calls.step op = .ok calls') :
    ∃ list', RealRanges calls' list' := by
  cases op with
  | init node => cases allowed
  | alloc size flags split =>
      have fresh : ∀ new ∈ split, calls.ranges.nodes new = none := by
        simpa [VmmRanges.allocates, VmmRanges.allowed, Option.all_eq_true] using allowed
      obtain ⟨base, v, list', called, real', _⟩ := real.alloc fresh rounds
      rw [RangeCalls.step, called] at returned
      rw [← Except.ok.inj returned]
      exact ⟨list', real'⟩
  | free base =>
      obtain ⟨v, list', called, real', _⟩ := real.free base
      rw [RangeCalls.step, called] at returned
      rw [← Except.ok.inj returned]
      exact ⟨list', real'⟩

theorem vmmFirst_real (ptr : HeapPtr) : RealRanges ⟨vmmFirst ptr, []⟩ [(ptr, firstRegion)] := by
  refine ⟨vmmFirst_ranges ptr, by simp [regionPieces, Coalesced], ?_, nofun⟩
  rw [List.forall_mem_singleton]
  show 0 < vmmLimit - vmmBase
  decide

/-- A size that cannot be rounded up yields a region without bytes. -/
theorem RealRanges.too_large {flags : BitVec 32} (real : RealRanges calls list) (positive : 0 < size)
    (word : size < 2 ^ 64) (fresh : ∀ new ∈ split, calls.ranges.nodes new = none)
    (wraps : calls.ranges.rounds (.alloc size flags split) = false) : ¬ RealAlloc calls size flags split := by
  rintro ⟨base, v, called, outcome⟩
  simp only [VmmRanges.rounds, Bool.or_eq_false_iff, Bool.and_eq_false_iff, decide_eq_false_iff_not, not_le] at wraps
  obtain ⟨⟨large, some⟩, notFull⟩ := wraps
  have zero := pageAlignUp_last large word
  obtain ⟨base', v', list', called', ranges', _, _, result⟩ :=
    real.ranges.vmmAlloc real.coalesced size flags fresh
  rw [called] at called'
  have sameState := (Prod.mk.inj (Except.ok.inj called')).2
  rw [(Prod.mk.inj (Except.ok.inj called')).1] at outcome
  rcases result with ⟨_, _, _, refused⟩ | ⟨ptr, old, region, carved, isBase⟩
  · rcases refused with isZero | none | misfit
    · omega
    · simp only [none, Option.isNone_none, Bool.true_eq_false, false_or] at some
      omega
    · have isFull : calls.ranges.full = true := by
        rw [real.full_iff]
        intro pair member
        simpa [vmmAllocFits, zero] using misfit pair member
      rw [isFull] at notFull
      cases notFull
  · have inside := ranges'.inside carved.stands
    rcases outcome with ⟨failed, _⟩ | new
    · simp only [vmmBase] at inside
      omega
    · obtain ⟨other, backs, _⟩ := new.backed
      obtain ⟨ptr', node, stored, isOther⟩ := backs.node
      rw [sameState] at stored
      have bounds := ranges'.inside (ranges'.nodes.mem_of_nodes stored)
      have enough := backs.size
      rw [isOther] at bounds
      simp only [vmmLimit, pageSize] at bounds large enough
      omega

end

/-- As long as every requested size can be rounded up to pages or fails before, an allocation returns a range of its own
exactly when its size is such a size, and a release keeps all other ranges. -/
theorem vmm_alloc_real {earlier ops : List RangeOp} {v v₀ : VmmRanges} {node : Option HeapPtr} {calls : RangeCalls}
    (before : Run VmmRanges.step (fun v op => v.allowed op = true) vmmBoot earlier v) (started : vmmInit v node = .ok v₀)
    (run : Run RangeCalls.step (fun calls op => calls.ranges.allocates op = true ∧ calls.ranges.rounds op = true)
      ⟨v₀, []⟩ ops calls) :
    (∀ size flags split, 0 < size → size < 2 ^ 64 → calls.ranges.allocates (.alloc size flags split) = true →
      (RealAlloc calls size flags split ↔ calls.ranges.rounds (.alloc size flags split) = true)) ∧
    ∀ base, FreesOnly calls base := by
  have reached : Reached v := before.invariant Reached (fun _ _ _ => Reached.step) (Or.inl rfl)
  obtain ⟨ptr, isFirst⟩ := reached.init started
  have real : ∃ list, RealRanges calls list := by
    refine run.invariant (fun calls => ∃ list, RealRanges calls list) ?_ ?_
    · intro before op after real allowed returned
      obtain ⟨list, real⟩ := real
      exact real.step allowed.1 allowed.2 returned
    · rw [isFirst]
      exact ⟨_, vmmFirst_real ptr⟩
  obtain ⟨list, real⟩ := real
  constructor
  · intro size flags split positive word allowed
    have fresh : ∀ new ∈ split, calls.ranges.nodes new = none := by
      simpa [VmmRanges.allocates, VmmRanges.allowed, Option.all_eq_true] using allowed
    constructor
    · intro sound
      cases rounds : calls.ranges.rounds (.alloc size flags split) with
      | true => rfl
      | false => exact absurd sound (real.too_large positive word fresh rounds)
    · intro rounds
      obtain ⟨base, v', _, called, _, outcome⟩ := real.alloc fresh rounds
      exact ⟨base, v', called, outcome⟩
  · intro base
    obtain ⟨_, _, _, _, frees⟩ := real.free base
    exact frees

/-- Two ranges are allocated, the first one is freed and the sizes at the two ends of the domain are requested. -/
theorem vmm_alloc_real_two_ranges : ∃ v₀ calls, vmmInit vmmBoot (some ⟨0, by decide⟩) = .ok v₀ ∧
    Run RangeCalls.step (fun calls op => calls.ranges.allocates op = true ∧ calls.ranges.rounds op = true) ⟨v₀, []⟩
      [.alloc 5000 0 (some ⟨64, by decide⟩), .alloc (2 ^ 64 - 4096) 0 (some ⟨128, by decide⟩),
        .alloc 100 2 (some ⟨128, by decide⟩), .free vmmBase] calls ∧ calls.live = [(vmmBase + 8192, 100)] ∧
    RealAlloc calls 1 0 (some ⟨192, by decide⟩) ∧ FreesOnly calls vmmBase := by
  have nodes : NodeList vmmBoot [] := ⟨rfl, trivial, List.nodup_nil, fun _ _ => rfl⟩
  have started := nodes.vmmInit ⟨0, by decide⟩
  have checked : (exec RangeCalls.step (fun calls op => calls.ranges.allocates op && calls.ranges.rounds op)
      [.alloc 5000 0 (some ⟨64, by decide⟩), .alloc (2 ^ 64 - 4096) 0 (some ⟨128, by decide⟩),
        .alloc 100 2 (some ⟨128, by decide⟩), .free vmmBase] ⟨vmmFirst ⟨0, by decide⟩, []⟩).any (fun calls =>
          decide (calls.live = [(vmmBase + 8192, 100)]) &&
            calls.ranges.allocates (.alloc 1 0 (some ⟨192, by decide⟩))) = true := by decide +kernel
  obtain ⟨calls, run, shown⟩ := Run.exists_of_check checked
  simp only [Bool.and_eq_true, decide_eq_true_eq] at shown
  have permitted := run.mono fun calls op => (Bool.and_eq_true _ _).mp
  have real := vmm_alloc_real (Run.nil vmmBoot) started permitted
  refine ⟨_, calls, started, permitted, shown.1, ?_, real.2 vmmBase⟩
  refine (real.1 1 0 (some ⟨192, by decide⟩) (by decide) (by decide) shown.2).mpr ?_
  simp [VmmRanges.rounds, pageSize]

/-- The largest size is rounded up to zero, and the next allocation returns the same base again. -/
theorem vmm_alloc_same_base : ∃ v₀ calls, vmmInit vmmBoot (some ⟨0, by decide⟩) = .ok v₀ ∧
    Run RangeCalls.step (fun calls op => calls.ranges.allocates op = true) ⟨v₀, []⟩
      [.alloc (2 ^ 64 - 1) 0 (some ⟨64, by decide⟩)] calls ∧
    calls.live = [(vmmBase, 2 ^ 64 - 1)] ∧ calls.ranges.allocates (.alloc 4096 0 (some ⟨128, by decide⟩)) = true ∧
    (∃ v, vmmAlloc calls.ranges 4096 0 (some ⟨128, by decide⟩) = .ok (vmmBase, v)) ∧
    ¬ RealAlloc calls 4096 0 (some ⟨128, by decide⟩) := by
  have nodes : NodeList vmmBoot [] := ⟨rfl, trivial, List.nodup_nil, fun _ _ => rfl⟩
  have started := nodes.vmmInit ⟨0, by decide⟩
  have checked : (exec RangeCalls.step (fun calls op => calls.ranges.allocates op)
      [.alloc (2 ^ 64 - 1) 0 (some ⟨64, by decide⟩)] ⟨vmmFirst ⟨0, by decide⟩, []⟩).any (fun calls =>
        decide (calls.live = [(vmmBase, 2 ^ 64 - 1)]) &&
          (calls.ranges.allocates (.alloc 4096 0 (some ⟨128, by decide⟩)) &&
            decide (((vmmAlloc calls.ranges 4096 0 (some ⟨128, by decide⟩)).map Prod.fst).toOption = some vmmBase))) =
      true := by decide +kernel
  obtain ⟨calls, run, shown⟩ := Run.exists_of_check checked
  simp only [Bool.and_eq_true, decide_eq_true_eq] at shown
  obtain ⟨live, allowed, again⟩ := shown
  obtain ⟨⟨base, v⟩, called, isBase⟩ := exists_of_toOption again
  simp only at isBase
  rw [isBase] at called
  refine ⟨_, calls, started, run, live, allowed, ⟨v, called⟩, ?_⟩
  rintro ⟨base, v', called', outcome⟩
  rw [called] at called'
  rw [← (Prod.mk.inj (Except.ok.inj called')).1] at outcome
  rcases outcome with ⟨failed, _⟩ | new
  · cases failed
  · obtain ⟨region, _, apart⟩ := new.backed
    refine (apart (vmmBase, 2 ^ 64 - 1) ?_).1 rfl
    rw [live]
    exact List.mem_singleton_self _

end DoccrOS.Mem
