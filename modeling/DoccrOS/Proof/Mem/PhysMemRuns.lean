import DoccrOS.Lib.Run
import DoccrOS.Proof.Mem.FrameBudget

namespace DoccrOS.Mem
open Lib

/-- All frames of a run are free. -/
def PhysMem.FreeRun (p : PhysMem) (start count : Nat) : Prop := ∀ frame, start ≤ frame → frame < start + count → p.Free frame

/-- The scan is at a frame: the last frames before it are free, and every earlier run meets a used frame. -/
structure ScanInv (p : PhysMem) (count frame consecutive startFrame : Nat) : Prop where
  short : consecutive < count
  start : 0 < consecutive → startFrame + consecutive = frame
  before : consecutive ≤ frame
  free : ∀ query, frame - consecutive ≤ query → query < frame → p.used query = false
  blocked : ∀ other, other < frame - consecutive → ∃ query, other ≤ query ∧ query < other + count ∧ query < frame ∧
    p.used query = true

section
variable {p : PhysMem} {count frame consecutive startFrame : Nat}

/-- A used frame starts the count again. -/
theorem ScanInv.skip (inv : ScanInv p count frame consecutive startFrame) (taken : p.used frame = true) :
    ScanInv p count (frame + 1) 0 startFrame := by
  have short := inv.short
  refine ⟨by omega, by omega, Nat.zero_le _, fun query above below => by omega, ?_⟩
  intro other earlier
  by_cases inside : other < frame - consecutive
  · obtain ⟨query, above, below, seen, isUsed⟩ := inv.blocked other inside
    exact ⟨query, above, below, by omega, isUsed⟩
  · exact ⟨frame, by omega, by omega, by omega, taken⟩

/-- A free frame makes the run longer. -/
theorem ScanInv.extend (inv : ScanInv p count frame consecutive startFrame) (free : p.used frame = false)
    (more : consecutive + 1 < count) :
    ScanInv p count (frame + 1) (consecutive + 1) (if consecutive = 0 then frame else startFrame) := by
  have before := inv.before
  have start := inv.start
  refine ⟨more, ?_, by omega, ?_, ?_⟩
  · intro _
    split <;> omega
  · intro query above below
    by_cases here : query = frame
    · rw [here]
      exact free
    · exact inv.free query (by omega) (by omega)
  · intro other earlier
    obtain ⟨query, above, below, seen, isUsed⟩ := inv.blocked other (by omega)
    exact ⟨query, above, below, by omega, isUsed⟩

/-- The scan finds the first run of free frames. -/
theorem physmemScan_spec (left : Nat) (inv : ScanInv p count frame consecutive startFrame) :
    match physmemScan p count left frame consecutive startFrame with
    | some start => start + count ≤ frame + left ∧ (∀ query, start ≤ query → query < start + count → p.used query = false) ∧
        ∀ other, other < start → ∃ query, other ≤ query ∧ query < other + count ∧ query < frame + left ∧ p.used query = true
    | none => ∀ other, other + count ≤ frame + left →
        ∃ query, other ≤ query ∧ query < other + count ∧ p.used query = true := by
  induction left generalizing frame consecutive startFrame with
  | zero =>
      intro other inside
      have short := inv.short
      obtain ⟨query, above, below, _, isUsed⟩ := inv.blocked other (by omega)
      exact ⟨query, above, below, isUsed⟩
  | succ left ih =>
      rw [physmemScan]
      have next : frame + (left + 1) = frame + 1 + left := by omega
      rw [next]
      cases taken : bitmapTest p.bitmap frame with
      | true => exact ih (inv.skip taken)
      | false =>
          simp only [Bool.not_false, if_true]
          by_cases enough : consecutive + 1 ≥ count
          · rw [if_pos enough]
            have short := inv.short
            have before := inv.before
            have start := inv.start
            have isStart : (if consecutive = 0 then frame else startFrame) = frame - consecutive := by split <;> omega
            simp only [isStart]
            refine ⟨by omega, ?_, ?_⟩
            · intro query above below
              by_cases here : query = frame
              · rw [here]
                exact taken
              · exact inv.free query (by omega) (by omega)
            · intro other earlier
              obtain ⟨query, above, below, seen, isUsed⟩ := inv.blocked other earlier
              exact ⟨query, above, below, by omega, isUsed⟩
          · rw [if_neg enough]
            exact ih (inv.extend taken (by omega))

theorem foldl_markUsed (list : List Nat) :
    (list.foldl PhysMem.markUsed p).total = p.total ∧
      (∀ query, (list.foldl PhysMem.markUsed p).used query = (decide (query ∈ list) || p.used query)) ∧
      ∀ query, (list.foldl PhysMem.markUsed p).pageframes query =
        if query ∈ list then ⟨1, frameUsed⟩ else p.pageframes query := by
  induction list generalizing p with
  | nil => simp
  | cons frame list ih =>
      obtain ⟨total, used, frames⟩ := @ih (p.markUsed frame)
      refine ⟨total, ?_, ?_⟩
      · intro query
        rw [List.foldl_cons, used, markUsed_used]
        by_cases here : query = frame <;> simp [here]
      · intro query
        rw [List.foldl_cons, frames, markUsed_pageframes]
        by_cases here : query = frame <;> simp [here]

theorem foldl_markFree (list : List Nat) :
    (list.foldl PhysMem.markFree p).total = p.total ∧
      (∀ query, (list.foldl PhysMem.markFree p).used query = (decide (query ∉ list) && p.used query)) ∧
      ∀ query, (list.foldl PhysMem.markFree p).pageframes query =
        if query ∈ list then ⟨0, frameFree⟩ else p.pageframes query := by
  induction list generalizing p with
  | nil => simp
  | cons frame list ih =>
      obtain ⟨total, used, frames⟩ := @ih (p.markFree frame)
      refine ⟨total, ?_, ?_⟩
      · intro query
        rw [List.foldl_cons, used, markFree_used]
        by_cases here : query = frame <;> simp [here]
      · intro query
        rw [List.foldl_cons, frames, markFree_pageframes]
        by_cases here : query = frame <;> simp [here]

/-- The frames of a range that the tables cover. -/
theorem mem_range (p : PhysMem) {physmemAddr : Nat} (inside : physmemAddr / pageSize + count ≤ p.total) (query : Nat) :
    query ∈ p.range physmemAddr count ↔
      physmemAddr / pageSize ≤ query ∧ query < physmemAddr / pageSize + count := by
  have fits := p.totalFits
  have wrapped : wrap64 (physmemAddr / pageSize + count) = physmemAddr / pageSize + count := Nat.mod_eq_of_lt (by omega)
  simp only [PhysMem.range, wrapped]
  rw [if_neg (by omega), List.mem_range'_1]
  omega

/-- The frames of a run get one state, and nothing else changes. -/
structure MarkedRun (p p' : PhysMem) (start count : Nat) (used : Bool) (value : Pageframe) : Prop where
  total : p'.total = p.total
  used : ∀ query, p'.used query = if start ≤ query ∧ query < start + count then used else p.used query
  frames : ∀ query, p'.pageframes query = if start ≤ query ∧ query < start + count then value else p.pageframes query

theorem physmemAddrMarkUsed_run {physmemAddr : Nat} (inside : physmemAddr / pageSize + count ≤ p.total) :
    MarkedRun p (physmemAddrMarkUsed p physmemAddr count) (physmemAddr / pageSize) count true ⟨1, frameUsed⟩ := by
  obtain ⟨total, used, frames⟩ := @foldl_markUsed p (p.range physmemAddr count)
  refine ⟨total, ?_, ?_⟩
  · intro query
    rw [physmemAddrMarkUsed, used]
    simp only [mem_range p inside]
    split <;> simp_all
  · intro query
    rw [physmemAddrMarkUsed, frames]
    simp only [mem_range p inside]

theorem physmemAddrMarkFree_run {physmemAddr : Nat} (inside : physmemAddr / pageSize + count ≤ p.total) :
    MarkedRun p (physmemAddrMarkFree p physmemAddr count) (physmemAddr / pageSize) count false ⟨0, frameFree⟩ := by
  obtain ⟨total, used, frames⟩ := @foldl_markFree p (p.range physmemAddr count)
  refine ⟨total, ?_, ?_⟩
  · intro query
    rw [physmemAddrMarkFree, used]
    simp only [mem_range p inside]
    split <;> simp_all
  · intro query
    rw [physmemAddrMarkFree, frames]
    simp only [mem_range p inside]

/-- A multi-frame allocation marks the lowest run of free frames or fails because there is none. -/
theorem physmemAllocTo_spec (p : PhysMem) (positive : 0 < count) :
    (∃ start, p.FreeRun start count ∧ (∀ other, other < start → ¬p.FreeRun other count) ∧
        (physmemAllocTo p count).1 = start * pageSize ∧
        MarkedRun p (physmemAllocTo p count).2 start count true ⟨1, frameUsed⟩) ∨
      (∀ start, ¬p.FreeRun start count) ∧ physmemAllocTo p count = (0, p) := by
  have begin : ScanInv p count 0 0 0 :=
    ⟨positive, by omega, Nat.le_refl _, fun query above below => by omega, fun other earlier => by omega⟩
  have scanned := physmemScan_spec p.total begin
  have notZero : ¬count = 0 := by omega
  cases found : physmemScan p count p.total 0 0 0 with
  | none =>
      rw [found] at scanned
      right
      refine ⟨?_, by simp only [physmemAllocTo, if_neg notZero, found]⟩
      intro start free
      have last := (free (start + count - 1) (by omega) (by omega)).1
      obtain ⟨query, above, below, isUsed⟩ := scanned start (by omega)
      rw [(free query above below).2] at isUsed
      cases isUsed
  | some start =>
      rw [found] at scanned
      obtain ⟨inside, free, lowest⟩ := scanned
      rw [Nat.zero_add] at inside
      have number : start * pageSize / pageSize = start := Nat.mul_div_cancel start (by decide)
      left
      refine ⟨start, fun query above below => ⟨by omega, free query above below⟩, ?_, ?_, ?_⟩
      · intro other earlier isFree
        obtain ⟨query, above, below, _, isUsed⟩ := lowest other earlier
        rw [(isFree query above below).2] at isUsed
        cases isUsed
      · simp only [physmemAllocTo, if_neg notZero, found]
      · simp only [physmemAllocTo, if_neg notZero, found]
        have marked : MarkedRun p (physmemAddrMarkUsed p (start * pageSize) count) (start * pageSize / pageSize) count true
            ⟨1, frameUsed⟩ := physmemAddrMarkUsed_run (by rw [number]; exact inside)
        rw [number] at marked
        exact marked

/-- Two bitmaps with the same tests are equal. -/
theorem bitmap_ext {bitmap bitmap' : Nat → BitVec 8} (same : ∀ idx, bitmapTest bitmap idx = bitmapTest bitmap' idx) :
    bitmap = bitmap' := by
  funext byte
  apply BitVec.eq_of_getLsbD_eq
  intro bit inByte
  have position := same (byte * 8 + bit)
  have isByte : (byte * 8 + bit) >>> 3 = byte := by
    rw [Nat.shiftRight_eq_div_pow]
    omega
  have isBit : (byte * 8 + bit) % 8 = bit := by omega
  rw [bitmapTest_eq, bitmapTest_eq, isByte, isBit] at position
  exact position

theorem PhysMem.ext_of_tests {p p' : PhysMem} (total : p'.total = p.total) (used : ∀ query, p'.used query = p.used query)
    (frames : ∀ query, p'.pageframes query = p.pageframes query) : p' = p := by
  obtain ⟨pageframes, total', bitmap, fits⟩ := p
  obtain ⟨pageframes', total'', bitmap', fits'⟩ := p'
  simp only at total
  subst total
  have sameFrames : pageframes' = pageframes := funext frames
  have sameBitmap : bitmap' = bitmap := bitmap_ext used
  rw [PhysMem.mk.injEq]
  exact ⟨sameFrames, rfl, sameBitmap⟩

end

/-- A call of the frame allocator. -/
inductive PhysOp where
  | alloc (count : Nat)
  | free (physmemAddr count : Nat)

/-- The frames of a run. -/
def runFrames (start count : Nat) : Finset Nat := Finset.Ico start (start + count)

/-- The call with the frames that have been handed out and not yet freed. -/
def physStep (state : PhysMem × Finset Nat) : PhysOp → Result (PhysMem × Finset Nat)
  | .alloc count =>
    let result := physmemAllocTo state.1 count
    .ok (result.2, if result.1 = 0 then state.2 else state.2 ∪ runFrames (result.1 / pageSize) count)
  | .free physmemAddr count =>
    .ok (physmemFreeTo state.1 physmemAddr count, state.2 \ runFrames (physmemAddr / pageSize) count)

/-- Only frames that are handed out are freed. -/
def handedOut (state : PhysMem × Finset Nat) : PhysOp → Bool
  | .alloc _ => true
  | .free physmemAddr count => decide (runFrames (physmemAddr / pageSize) count ⊆ state.2)

/-- The entry of each free frame is reset. -/
def PhysMem.Resets (p : PhysMem) : Prop := ∀ frame, p.Free frame → p.pageframes frame = ⟨0, frameFree⟩

section
variable {p p₀ : PhysMem} {frame : Nat}

theorem PhysMem.Resets.markUsed (resets : p.Resets) (frame : Nat) : (p.markUsed frame).Resets := by
  rintro query ⟨inside, free⟩
  rw [markUsed_used] at free
  rw [markUsed_pageframes]
  split at free
  · cases free
  · rename_i different
    rw [if_neg different]
    exact resets query ⟨inside, free⟩

theorem PhysMem.Resets.markFree (resets : p.Resets) (frame : Nat) : (p.markFree frame).Resets := by
  rintro query ⟨inside, free⟩
  rw [markFree_used] at free
  rw [markFree_pageframes]
  split at free
  · rw [if_pos ‹_›]
  · rename_i different
    rw [if_neg different]
    exact resets query ⟨inside, free⟩

theorem PhysMem.Resets.markKernel (resets : p.Resets) (frame : Nat) : (p.markKernel frame).Resets := by
  rintro query ⟨inside, free⟩
  have used : (p.markKernel frame).used query = if query = frame then true else p.used query :=
    bitmapTest_set p.bitmap frame query
  rw [used] at free
  split at free
  · cases free
  · rename_i different
    simp only [PhysMem.markKernel, setFrame_pageframes, if_neg different]
    exact resets query ⟨inside, free⟩

theorem PhysMem.Resets.foldl {A : Type} {step : PhysMem → A → PhysMem} (kept : ∀ p entry, p.Resets → (step p entry).Resets)
    (resets : p.Resets) (list : List A) : (list.foldl step p).Resets := by
  induction list generalizing p with
  | nil => exact resets
  | cons entry list ih => exact ih (kept p entry resets)

theorem PhysMem.Resets.markEntry (resets : p.Resets) (entry : MemmapEntry) : (p.markEntry entry).Resets := by
  unfold PhysMem.markEntry
  split
  · exact resets.foldl (fun _ _ kept => kept.markFree _) _
  · exact resets.foldl (fun _ _ kept => kept.markKernel _) _

theorem physmemAddrMarkUsed_resets (resets : p.Resets) (physmemAddr count : Nat) :
    (physmemAddrMarkUsed p physmemAddr count).Resets := resets.foldl (fun _ _ kept => kept.markUsed _) _

theorem physmemAddrMarkUsed_zero (p : PhysMem) : ¬(physmemAddrMarkUsed p 0 256).Free 0 := by
  obtain ⟨total, used, _⟩ := @foldl_markUsed p (p.range 0 256)
  rintro ⟨inside, free⟩
  rw [physmemAddrMarkUsed, total] at inside
  have wrapped : wrap64 (0 + 256) = 256 := rfl
  have member : 0 ∈ p.range 0 256 := by
    simp only [PhysMem.range, Nat.zero_div, wrapped, List.mem_range'_1]
    split <;> omega
  rw [physmemAddrMarkUsed, used, decide_eq_true member] at free
  cases free

/-- After the initialisation each free frame is reset and frame `0` is not free. -/
theorem physmemInit_ok {entries : List MemmapEntry} {stale : Nat → Pageframe} (returned : physmemInit entries stale = .ok p₀) :
    p₀.Resets ∧ ¬p₀.Free 0 := by
  simp only [physmemInit] at returned
  split at returned
  · cases returned
  · cases returned
  · rw [← Except.ok.inj returned]
    refine ⟨physmemAddrMarkUsed_resets (physmemAddrMarkUsed_resets ?_ _ _) _ _, physmemAddrMarkUsed_zero _⟩
    refine PhysMem.Resets.foldl (fun _ _ kept => kept.markEntry _) ?_ entries
    rintro query ⟨_, free⟩
    have set : bitmapTest (fun _ => 0xFF#8) query = true := by
      rw [bitmapTest_eq]
      have inByte : query % 8 < 8 := Nat.mod_lt _ (by decide)
      interval_cases query % 8 <;> rfl
    have clear : bitmapTest (fun _ => 0xFF#8) query = false := free
    rw [set] at clear
    cases clear

end

/-- The free frames of a state are those of the start that are not handed out, and their entries are reset. -/
structure FramesInv (p₀ : PhysMem) (state : PhysMem × Finset Nat) : Prop where
  total : state.1.total = p₀.total
  free : ∀ frame, state.1.Free frame ↔ p₀.Free frame ∧ frame ∉ state.2
  live : ∀ frame ∈ state.2, p₀.Free frame
  resets : state.1.Resets

section
variable {p₀ p : PhysMem} {live : Finset Nat} {count : Nat}

theorem mem_runFrames {start count frame : Nat} : frame ∈ runFrames start count ↔ start ≤ frame ∧ frame < start + count :=
  Finset.mem_Ico

theorem MarkedRun.free_used {p p' : PhysMem} {start : Nat} {value : Pageframe} (marked : MarkedRun p p' start count true value)
    (frame : Nat) : p'.Free frame ↔ p.Free frame ∧ frame ∉ runFrames start count := by
  rw [PhysMem.Free, PhysMem.Free, marked.total, marked.used, mem_runFrames]
  split <;> simp_all

theorem MarkedRun.free_free {p p' : PhysMem} {start : Nat} {value : Pageframe} (marked : MarkedRun p p' start count false value)
    (inside : start + count ≤ p.total) (frame : Nat) : p'.Free frame ↔ p.Free frame ∨ frame ∈ runFrames start count := by
  rw [PhysMem.Free, PhysMem.Free, marked.total, marked.used, mem_runFrames]
  split
  · rename_i here
    simp only [here, and_self, or_true, and_true, iff_true]
    omega
  · rename_i outside
    simp [outside]

/-- An allocation hands out frames that are free and not frame `0`. -/
theorem FramesInv.alloc (inv : FramesInv p₀ (p, live)) (zero : ¬p₀.Free 0) (positive : 0 < count) :
    (∃ start, start ≠ 0 ∧ p.FreeRun start count ∧ (∀ other, other < start → ¬p.FreeRun other count) ∧
        Disjoint live (runFrames start count) ∧ (physmemAllocTo p count).1 = start * pageSize ∧
        MarkedRun p (physmemAllocTo p count).2 start count true ⟨1, frameUsed⟩ ∧
        FramesInv p₀ ((physmemAllocTo p count).2, live ∪ runFrames start count)) ∨
      (∀ start, ¬p.FreeRun start count) ∧ physmemAllocTo p count = (0, p) := by
  rcases physmemAllocTo_spec p positive with ⟨start, free, lowest, isStart, marked⟩ | failed
  · left
    have isFree (frame : Nat) (member : frame ∈ runFrames start count) : p.Free frame :=
      free frame (mem_runFrames.mp member).1 (mem_runFrames.mp member).2
    refine ⟨start, ?_, free, lowest, ?_, isStart, marked, ?_⟩
    · intro isZero
      have first := free start (Nat.le_refl _) (by omega)
      rw [isZero] at first
      exact zero ((inv.free 0).mp first).1
    · rw [Finset.disjoint_right]
      intro frame member
      exact ((inv.free frame).mp (isFree frame member)).2
    · refine ⟨marked.total.trans inv.total, ?_, ?_, ?_⟩
      · intro frame
        rw [marked.free_used, inv.free]
        simp only [Finset.mem_union, not_or]
        tauto
      · intro frame member
        rcases Finset.mem_union.mp member with old | new
        · exact inv.live frame old
        · exact ((inv.free frame).mp (isFree frame new)).1
      · intro frame isFree'
        obtain ⟨old, outside⟩ := (marked.free_used frame).mp isFree'
        rw [mem_runFrames] at outside
        rw [marked.frames, if_neg outside]
        exact inv.resets frame old
  · exact Or.inr failed

/-- A release of frames that are handed out frees exactly these. -/
theorem FramesInv.release (inv : FramesInv p₀ (p, live)) {physmemAddr : Nat} (positive : 0 < count)
    (owned : runFrames (physmemAddr / pageSize) count ⊆ live) :
    MarkedRun p (physmemFreeTo p physmemAddr count) (physmemAddr / pageSize) count false ⟨0, frameFree⟩ ∧
      FramesInv p₀ (physmemFreeTo p physmemAddr count, live \ runFrames (physmemAddr / pageSize) count) := by
  have inside : physmemAddr / pageSize + count ≤ p.total := by
    have natural := Nat.zero_le (physmemAddr / pageSize)
    have last : physmemAddr / pageSize + count - 1 ∈ live := owned (mem_runFrames.mpr ⟨by omega, by omega⟩)
    have below : physmemAddr / pageSize + count - 1 < p₀.total := (inv.live _ last).1
    have total : p.total = p₀.total := inv.total
    omega
  have marked : MarkedRun p (physmemFreeTo p physmemAddr count) (physmemAddr / pageSize) count false ⟨0, frameFree⟩ := by
    rw [physmemFreeTo, if_neg (by omega)]
    exact physmemAddrMarkFree_run inside
  refine ⟨marked, marked.total.trans inv.total, ?_, ?_, ?_⟩
  · intro frame
    have old : p.Free frame ↔ p₀.Free frame ∧ frame ∉ live := inv.free frame
    rw [marked.free_free inside, old, Finset.mem_sdiff]
    constructor
    · rintro (⟨free, outside⟩ | member)
      · exact ⟨free, fun both => outside both.1⟩
      · exact ⟨inv.live frame (owned member), fun both => both.2 member⟩
    · rintro ⟨free, outside⟩
      by_cases member : frame ∈ runFrames (physmemAddr / pageSize) count
      · exact Or.inr member
      · exact Or.inl ⟨free, fun isLive => outside ⟨isLive, member⟩⟩
  · intro frame member
    exact inv.live frame (Finset.mem_sdiff.mp member).1
  · intro frame free
    rw [marked.frames]
    split
    · rfl
    · rename_i outside
      refine inv.resets frame ?_
      exact ((marked.free_free inside frame).mp free).resolve_right fun member => outside (mem_runFrames.mp member)

theorem FramesInv.step {state state' : PhysMem × Finset Nat} {op : PhysOp} (inv : FramesInv p₀ state) (zero : ¬p₀.Free 0)
    (permitted : handedOut state op = true) (returned : physStep state op = .ok state') : FramesInv p₀ state' := by
  obtain ⟨p, live⟩ := state
  cases op with
  | alloc count =>
      have isState : state' = ((physmemAllocTo p count).2, if (physmemAllocTo p count).1 = 0 then live
          else live ∪ runFrames ((physmemAllocTo p count).1 / pageSize) count) := (Except.ok.inj returned).symm
      rw [isState]
      rcases Nat.eq_zero_or_pos count with isZero | positive
      · have nothing : physmemAllocTo p count = (0, p) := if_pos isZero
        simp only [nothing, if_true]
        exact inv
      · rcases inv.alloc zero positive with ⟨start, notZero, _, _, _, isStart, _, inv'⟩ | ⟨_, failed⟩
        · have nonzero : ¬start * pageSize = 0 := by
            simp only [pageSize]
            omega
          simp only [isStart, if_neg nonzero, Nat.mul_div_cancel start (by decide : 0 < pageSize)]
          exact inv'
        · simp only [failed, if_true]
          exact inv
  | free physmemAddr count =>
      rw [← Except.ok.inj returned]
      rcases Nat.eq_zero_or_pos count with isZero | positive
      · have empty : runFrames (physmemAddr / pageSize) count = ∅ := by
          rw [isZero]
          exact Finset.Ico_self _
        simp only [physmemFreeTo, if_pos isZero, empty, Finset.sdiff_empty]
        exact inv
      · exact (inv.release positive (of_decide_eq_true permitted)).2

/-- The number of free frames and of frames that are handed out is constant. -/
theorem FramesInv.balance (inv : FramesInv p₀ (p, live)) : physmemFreeGet p + live.card = physmemFreeGet p₀ := by
  have total : p.total = p₀.total := inv.total
  rw [physmemFreeGet_eq, physmemFreeGet_eq]
  have apart : Disjoint ((Finset.range p.total).filter fun frame => p.used frame = false) live := by
    rw [Finset.disjoint_left]
    intro frame member
    obtain ⟨inside, free⟩ := Finset.mem_filter.mp member
    exact ((inv.free frame).mp ⟨Finset.mem_range.mp inside, free⟩).2
  rw [← Finset.card_union_of_disjoint apart]
  congr 1
  ext frame
  have here : p.Free frame ↔ p₀.Free frame ∧ frame ∉ live := inv.free frame
  have isLive := inv.live frame
  simp only [Finset.mem_union, Finset.mem_filter, Finset.mem_range]
  change p.Free frame ∨ frame ∈ live ↔ p₀.Free frame
  tauto

/-- The release of a fresh allocation restores the whole state. -/
theorem FramesInv.restore (inv : FramesInv p₀ (p, live)) (zero : ¬p₀.Free 0)
    (granted : (physmemAllocTo p count).1 ≠ 0 ∨ count = 0) :
    physmemFreeTo (physmemAllocTo p count).2 (physmemAllocTo p count).1 count = p := by
  rcases Nat.eq_zero_or_pos count with isZero | positive
  · simp only [physmemFreeTo, physmemAllocTo, if_pos isZero]
  · rcases inv.alloc zero positive with ⟨start, _, free, _, _, isStart, marked, inv'⟩ | ⟨_, failed⟩
    · have number : start * pageSize / pageSize = start := Nat.mul_div_cancel start (by decide)
      have owned : runFrames (start * pageSize / pageSize) count ⊆ live ∪ runFrames start count := by
        rw [number]
        exact Finset.subset_union_right
      have released := (inv'.release positive owned).1
      rw [isStart]
      rw [number] at released
      refine PhysMem.ext_of_tests (released.total.trans marked.total) ?_ ?_
      · intro query
        rw [released.used]
        split
        · rename_i here
          exact (free query here.1 here.2).2.symm
        · rename_i outside
          rw [marked.used, if_neg outside]
      · intro query
        rw [released.frames]
        split
        · rename_i here
          exact (inv.resets query (free query here.1 here.2)).symm
        · rename_i outside
          rw [marked.frames, if_neg outside]
    · rw [failed] at granted
      exact absurd (granted.resolve_left (fun nonzero => nonzero rfl)) (by omega)

end

/-- What the allocator guarantees in a state with the frames that are handed out. -/
structure AllocatorOk (p₀ p : PhysMem) (live : Finset Nat) : Prop where
  resets : ∀ frame, p.Free frame → (p.pageframes frame).rc = 0 ∧ (p.pageframes frame).flags = frameFree
  zero : ¬p.Free 0
  lowest : ∀ count start, 0 < count → p.FreeRun start count → (∀ other, other < start → ¬p.FreeRun other count) →
    start ≠ 0 ∧ Disjoint live (runFrames start count) ∧ (physmemAllocTo p count).1 = start * pageSize ∧
      MarkedRun p (physmemAllocTo p count).2 start count true ⟨1, frameUsed⟩
  none : ∀ count, 0 < count → ((physmemAllocTo p count).1 = 0 ↔ ∀ start, ¬p.FreeRun start count)
  unchanged : ∀ count, (physmemAllocTo p count).1 = 0 → (physmemAllocTo p count).2 = p
  taken : ∀ frame ∈ live, frame ≠ 0 ∧ ¬p.Free frame
  balance : physmemFreeGet p + live.card = physmemFreeGet p₀
  restore : ∀ count, (physmemAllocTo p count).1 ≠ 0 ∨ count = 0 →
    physmemFreeTo (physmemAllocTo p count).2 (physmemAllocTo p count).1 count = p

/-- In every state after the initialisation the allocator hands out the lowest run of free frames and keeps its books. -/
theorem physmem_first_fit {entries : List MemmapEntry} {stale : Nat → Pageframe} {p₀ p : PhysMem} {live : Finset Nat}
    {ops : List PhysOp} (initialised : physmemInit entries stale = .ok p₀)
    (run : Run physStep (fun state op => handedOut state op = true) (p₀, ∅) ops (p, live)) : AllocatorOk p₀ p live := by
  obtain ⟨resets, zero⟩ := physmemInit_ok initialised
  have begin : FramesInv p₀ (p₀, ∅) := ⟨rfl, by simp, by simp, resets⟩
  have inv : FramesInv p₀ (p, live) :=
    run.invariant (FramesInv p₀) (fun _ _ _ inv permitted returned => inv.step zero permitted returned) begin
  refine ⟨?_, ?_, ?_, ?_, ?_, ?_, inv.balance, fun count => inv.restore zero⟩
  · intro frame free
    rw [inv.resets frame free]
    exact ⟨rfl, rfl⟩
  · intro free
    exact zero ((inv.free 0).mp free).1
  · intro count start positive free lowest
    rcases inv.alloc zero positive with ⟨first, notZero, isFree, isLowest, apart, isFirst, marked, _⟩ | ⟨none, _⟩
    · have same : first = start := by
        rcases Nat.lt_trichotomy first start with earlier | same | later
        · exact absurd isFree (lowest first earlier)
        · exact same
        · exact absurd free (isLowest start later)
      subst same
      exact ⟨notZero, apart, isFirst, marked⟩
    · exact absurd free (none start)
  · intro count positive
    rcases inv.alloc zero positive with ⟨start, notZero, free, _, _, isStart, _⟩ | ⟨none, failed⟩
    · rw [isStart]
      constructor
      · intro isZero
        simp only [pageSize] at isZero
        omega
      · intro none
        exact absurd free (none start)
    · rw [failed]
      exact ⟨fun _ => none, fun _ => rfl⟩
  · intro count isZero
    rcases Nat.eq_zero_or_pos count with empty | positive
    · simp only [physmemAllocTo, if_pos empty]
    · rcases inv.alloc zero positive with ⟨start, notZero, _, _, _, isStart, _⟩ | ⟨_, failed⟩
      · rw [isStart] at isZero
        simp only [pageSize] at isZero
        omega
      · rw [failed]
  · intro frame member
    refine ⟨?_, fun free => ((inv.free frame).mp free).2 member⟩
    intro isZero
    rw [isZero] at member
    exact zero (inv.live 0 member)

/-- A memory map with 64 KiB of RAM above the first megabyte. -/
def smallMap : List MemmapEntry := [⟨0x100000, 0x10000, .usable, by decide⟩]

/-- Two allocations and the release of the first one. -/
def allocAndFree : List PhysOp := [.alloc 2, .alloc 3, .free 0x101000 2]

theorem physmem_first_fit_small : ∃ p₀ p live, physmemInit smallMap (fun _ => ⟨7, 0⟩) = .ok p₀ ∧
    Run physStep (fun state op => handedOut state op = true) (p₀, ∅) allocAndFree (p, live) ∧
    live = {259, 260, 261} ∧ AllocatorOk p₀ p live := by
  have checked : (match physmemInit smallMap (fun _ => ⟨7, 0⟩) with
      | .ok p₀ => (exec physStep handedOut allocAndFree (p₀, ∅)).any fun state => decide (state.2 = {259, 260, 261})
      | .error _ => false) = true := by decide +kernel
  split at checked
  · rename_i p₀ initialised
    obtain ⟨⟨p, live⟩, run, isLive⟩ := Run.exists_of_check checked
    exact ⟨p₀, p, live, initialised, run, of_decide_eq_true isLive, physmem_first_fit initialised run⟩
  · cases checked

end DoccrOS.Mem
