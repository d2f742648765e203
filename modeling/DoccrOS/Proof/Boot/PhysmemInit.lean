import DoccrOS.Construction.Boot.PhysmemInit
import DoccrOS.Lib.Painting
import DoccrOS.Proof.Mem.PhysMem

namespace DoccrOS.Boot

open Lib Mem

/-- The ranges of RAM decide `physmem_total`. -/
def MemmapRange.IsRam (entry : MemmapRange) : Prop := entry.type = .usable ∨ entry.type = .bootloaderReclaimable

def MemmapRange.Contains (entry : MemmapRange) (physAddr : Nat) : Prop :=
  entry.base ≤ physAddr ∧ physAddr < entry.base + entry.length

/-- The whole frame lies in the entry. -/
def MemmapRange.Covers (entry : MemmapRange) (frame : Nat) : Prop :=
  entry.base ≤ frame * pageSize ∧ frame * pageSize + pageSize ≤ entry.base + entry.length

/-- Two entries share no address when one of them is RAM. -/
def MemmapRange.Apart (entry other : MemmapRange) : Prop :=
  entry.IsRam ∨ other.IsRam → ∀ physAddr, ¬(entry.Contains physAddr ∧ other.Contains physAddr)

instance : Std.Symm MemmapRange.Apart := ⟨fun _ _ apart ram physAddr both => apart ram.symm physAddr both.symm⟩

/-- The boot loader aligns the ranges of RAM and keeps them apart from every other range. -/
structure LimineMemmap (mpr : List MemmapRange) : Prop where
  aligned : ∀ entry ∈ mpr, entry.IsRam → pageSize ∣ entry.base ∧ pageSize ∣ entry.length
  apart : mpr.Pairwise MemmapRange.Apart

/-- The bytes of the array `physmem_pageframes` and of the bitmap. -/
def TrackingTables.size (t : TrackingTables) : Nat := t.total * pageframeSize + t.bitmapSize

/-- The frame holds a byte of the tracking tables. -/
def TrackingTables.Holds (t : TrackingTables) (frame : Nat) : Prop :=
  ∃ byte < t.size, (t.addr + byte) / pageSize = frame

def TrackingTables.used (t : TrackingTables) (frame : Nat) : Bool := bitmapTest t.bitmap frame

/-- The marks change none of these fields. -/
def TrackingTables.layout (t : TrackingTables) : Nat × Nat × Nat × Nat := (t.total, t.bitmapSize, t.addr, t.offset)

theorem size_of_layout {t t' : TrackingTables} (same : t'.layout = t.layout) : t'.size = t.size := by
  have totals : t'.total = t.total := congrArg Prod.fst same
  have bits : t'.bitmapSize = t.bitmapSize := congrArg (·.2.1) same
  rw [TrackingTables.size, TrackingTables.size, totals, bits]

section
variable (layout : Nat × Nat × Nat × Nat)

theorem markFree_painting : Painting (fun t => t.layout = layout) TrackingTables.used TrackingTables.markFree Eq
    fun _ => false where
  keeps same := same
  painted := by
    rintro t frame query _ rfl
    exact (bitmapTest_clear t.bitmap frame frame).trans (if_pos rfl)
  left := by
    intro t frame query _ different
    exact (bitmapTest_clear t.bitmap frame query).trans (if_neg fun same => different same.symm)

theorem markKernel_painting : Painting (fun t => t.layout = layout) TrackingTables.used TrackingTables.markKernel Eq
    fun _ => true where
  keeps same := same
  painted := by
    rintro t frame query _ rfl
    exact (bitmapTest_set t.bitmap frame frame).trans (if_pos rfl)
  left := by
    intro t frame query _ different
    exact (bitmapTest_set t.bitmap frame query).trans (if_neg fun same => different same.symm)

theorem markUsed_painting : Painting (fun t => t.layout = layout) TrackingTables.used TrackingTables.markUsed Eq
    fun _ => true where
  keeps same := same
  painted := (markKernel_painting layout).painted
  left := (markKernel_painting layout).left

/-- An entry paints its frames free or used after its type. -/
theorem markEntry_painting : Painting (fun t => t.layout = layout) TrackingTables.used TrackingTables.markEntry
    (fun entry frame => frame ∈ entry.frames layout.1) fun entry => decide (entry.type ≠ .usable) where
  keeps := by
    intro t entry same
    rw [TrackingTables.markEntry]
    split
    · exact (markFree_painting layout).run_keeps same
    · exact (markKernel_painting layout).run_keeps same
  painted := by
    rintro t entry frame rfl touched
    rw [TrackingTables.markEntry]
    split
    next usable => simp [(markFree_painting _).foldl_eq rfl, usable, show frame ∈ entry.frames t.total from touched]
    next other => simp [(markKernel_painting _).foldl_eq rfl, other, show frame ∈ entry.frames t.total from touched]
  left := by
    rintro t entry frame rfl apart
    have apart : frame ∉ entry.frames t.total := apart
    rw [TrackingTables.markEntry]
    split
    · rw [(markFree_painting _).foldl_eq rfl, if_neg apart]
    · rw [(markKernel_painting _).foldl_eq rfl, if_neg apart]

end

/-- The end of an entry does not wrap. -/
theorem MemmapRange.end_whole (entry : MemmapRange) : wrap64 (entry.base + entry.length) = entry.base + entry.length :=
  Nat.mod_eq_of_lt entry.fits

/-- The loop of `physmem_addr_mark` visits the frames between the two truncated ends. -/
theorem mem_frames (entry : MemmapRange) (total frame : Nat) : frame ∈ entry.frames total ↔
    frame < total ∧ entry.base / pageSize ≤ frame ∧ frame < (entry.base + entry.length) / pageSize := by
  simp only [MemmapRange.frames, entry.end_whole]
  split
  · simp only [List.not_mem_nil, false_iff]
    omega
  · rw [List.mem_range'_1]
    split <;> omega

/-- An aligned entry visits the frames that it covers. -/
theorem mem_frames_covers {entry : MemmapRange} (base : pageSize ∣ entry.base) (length : pageSize ∣ entry.length)
    (total frame : Nat) : frame ∈ entry.frames total ↔ frame < total ∧ entry.Covers frame := by
  obtain ⟨first, start⟩ := base
  obtain ⟨count, size⟩ := length
  rw [mem_frames, MemmapRange.Covers, start, size]
  simp only [pageSize]
  omega

/-- An entry contains the last byte of every frame that it visits. -/
theorem frames_contains {entry : MemmapRange} {total frame : Nat} (visited : frame ∈ entry.frames total) :
    entry.Contains (frame * pageSize + (pageSize - 1)) := by
  obtain ⟨_, above, below⟩ := (mem_frames entry total frame).mp visited
  simp only [MemmapRange.Contains, pageSize] at *
  omega

/-- A usable entry covers no frame that an entry of another type visits. -/
theorem LimineMemmap.visited {mpr : List MemmapRange} (promised : LimineMemmap mpr) {entry other : MemmapRange}
    {total frame : Nat} (member : entry ∈ mpr) (usable : entry.type = .usable) (covers : entry.Covers frame)
    (otherMember : other ∈ mpr) (visited : frame ∈ other.frames total) : other.type = .usable := by
  by_contra different
  have distinct : entry ≠ other := fun same => different (same ▸ usable)
  have apart := promised.apart.forall member otherMember distinct
  have inside : entry.Contains (frame * pageSize + (pageSize - 1)) := by
    obtain ⟨above, below⟩ := covers
    simp only [MemmapRange.Contains, pageSize] at *
    omega
  exact apart (Or.inl (Or.inl usable)) (frame * pageSize + (pageSize - 1)) ⟨inside, frames_contains visited⟩

/-- After the marking pass the free frames are those that a usable entry covers. -/
theorem markEntries_used {mpr : List MemmapRange} (promised : LimineMemmap mpr) {t : TrackingTables} {frame : Nat}
    (inside : frame < t.total) (default : t.used frame = true) :
    (mpr.foldl TrackingTables.markEntry t).used frame = false ↔
      ∃ entry ∈ mpr, entry.type = .usable ∧ entry.Covers frame := by
  have painting := markEntry_painting t.layout
  constructor
  · intro free
    by_contra none
    push Not at none
    have taken : ∀ entry ∈ mpr, frame ∈ entry.frames t.total → decide (entry.type ≠ .usable) = true := by
      intro entry member visited
      apply decide_eq_true
      intro usable
      obtain ⟨base, length⟩ := promised.aligned entry member (Or.inl usable)
      exact none entry member usable ((mem_frames_covers base length _ _).mp visited).2
    have stays : (mpr.foldl TrackingTables.markEntry t).used frame = true := by
      by_cases touched : ∃ entry ∈ mpr, frame ∈ entry.frames t.total
      · exact painting.agreed rfl touched taken
      · push Not at touched
        rw [painting.untouched rfl touched, default]
    rw [free] at stays
    cases stays
  · rintro ⟨entry, member, usable, covers⟩
    obtain ⟨base, length⟩ := promised.aligned entry member (Or.inl usable)
    apply painting.agreed rfl ⟨entry, member, (mem_frames_covers base length _ _).mpr ⟨inside, covers⟩⟩
    intro other otherMember visited
    exact decide_eq_false (not_not_intro (promised.visited member usable covers otherMember visited))

/-- The end of the highest range of RAM is a 64-bit address. -/
theorem physmemAddrHighest_lt (mpr : List MemmapRange) : physmemAddrHighest mpr < 2 ^ 64 := by
  rw [physmemAddrHighest]
  have bound (highest : Nat) (small : highest < 2 ^ 64) : mpr.foldl (fun highest entry =>
      if entry.type = .usable ∨ entry.type = .bootloaderReclaimable then
        let endAddr := wrap64 (entry.base + entry.length)
        if endAddr > highest then endAddr else highest
      else highest) highest < 2 ^ 64 := by
    induction mpr generalizing highest with
    | nil => exact small
    | cons entry mpr inductionHypothesis =>
        rw [List.foldl_cons]
        apply inductionHypothesis
        dsimp only
        split
        · split
          · exact Nat.mod_lt _ (by decide)
          · exact small
        · exact small
  exact bound 0 (by decide)

/-- A scan returns a usable entry of the size. -/
theorem firstUsable_sound {mpr : List MemmapRange} {size least : Nat} {entry : MemmapRange}
    (found : firstUsable mpr size least = some entry) : entry ∈ mpr ∧ entry.type = .usable ∧ size ≤ entry.length := by
  have checked := List.find?_some found
  simp only [Bool.and_eq_true, beq_iff_eq, decide_eq_true_eq, ge_iff_le] at checked
  exact ⟨List.mem_of_find?_eq_some found, checked.1.1, checked.1.2⟩

/-- The tables start where a usable entry of their size starts. -/
theorem physmemAddrGetTracking_sound {mpr : List MemmapRange} {size : Nat}
    (found : physmemAddrGetTracking mpr size ≠ 0) :
    ∃ entry ∈ mpr, entry.type = .usable ∧ entry.base = physmemAddrGetTracking mpr size ∧ size ≤ entry.length := by
  rw [physmemAddrGetTracking] at *
  split at found
  next entry chosen =>
      have sound : entry ∈ mpr ∧ entry.type = .usable ∧ size ≤ entry.length := by
        rcases Option.or_eq_some_iff.mp chosen with first | ⟨_, later⟩
        · exact firstUsable_sound first
        · rcases Option.or_eq_some_iff.mp later with second | ⟨_, third⟩
          · exact firstUsable_sound second
          · exact firstUsable_sound third
      exact ⟨entry, sound.1, sound.2.1, rfl, sound.2.2⟩
  next => exact absurd rfl found

theorem physmemAddrMark_ok {mpr : List MemmapRange} {t t' : TrackingTables} (returned : physmemAddrMark t mpr = .ok t') :
    t' = mpr.foldl TrackingTables.markEntry t := by
  rw [physmemAddrMark] at returned
  split at returned
  · cases returned
  · exact (Except.ok.inj returned).symm

theorem physmemAddrMark_layout {mpr : List MemmapRange} {t t' : TrackingTables}
    (returned : physmemAddrMark t mpr = .ok t') : t'.layout = t.layout := by
  rw [physmemAddrMark_ok returned]
  exact (markEntry_painting t.layout).run_keeps rfl

section
variable {t t' : TrackingTables} {physmemAddr count : Nat} (returned : physmemAddrMarkUsed t physmemAddr count = .ok t')
include returned

theorem physmemAddrMarkUsed_ok : t' = (t.range physmemAddr count).foldl TrackingTables.markUsed t := by
  rw [physmemAddrMarkUsed] at returned
  split at returned
  · cases returned
  · exact (Except.ok.inj returned).symm

theorem physmemAddrMarkUsed_layout : t'.layout = t.layout := by
  rw [physmemAddrMarkUsed_ok returned]
  exact (markUsed_painting t.layout).run_keeps rfl

/-- The call marks the covered frames of the range and no other frame. -/
theorem physmemAddrMarkUsed_used (fits : physmemAddr / pageSize + count < 2 ^ 64) {frame : Nat}
    (inside : frame < t.total) : t'.used frame = false ↔
      t.used frame = false ∧ ¬(physmemAddr / pageSize ≤ frame ∧ frame < physmemAddr / pageSize + count) := by
  have visited : frame ∈ t.range physmemAddr count ↔
      physmemAddr / pageSize ≤ frame ∧ frame < physmemAddr / pageSize + count := by
    have whole : wrap64 (physmemAddr / pageSize + count) = physmemAddr / pageSize + count := Nat.mod_eq_of_lt fits
    simp only [TrackingTables.range, whole, List.mem_range'_1]
    split <;> omega
  rw [physmemAddrMarkUsed_ok returned, (markUsed_painting t.layout).foldl_eq rfl, ← visited]
  split
  next member => simp [member]
  next apart => simp [apart]

end

/-- The bitmap starts with every bit set. -/
theorem cleared_used (stale : Nat → BitVec 8) {total frame : Nat} (inside : frame < total) :
    bitmapTest (fun byte => if byte < (total + 7) / 8 then 0xFF#8 else stale byte) frame = true := by
  have small : frame >>> 3 < (total + 7) / 8 := by
    rw [Nat.shiftRight_eq_div_pow]
    omega
  rw [bitmapTest_eq, if_pos small, show (0xFF#8) = BitVec.allOnes 8 from rfl, BitVec.getLsbD_allOnes]
  exact decide_eq_true (Nat.mod_lt _ (by decide))

/-- The frames that `physmem_init` marks for its tables are those that hold a byte of them. -/
theorem holds_iff {t : TrackingTables} (aligned : pageSize ∣ t.addr) (frame : Nat) : t.Holds frame ↔
    t.addr / pageSize ≤ frame ∧ frame < t.addr / pageSize + (t.size + pageSize - 1) / pageSize := by
  obtain ⟨first, start⟩ := aligned
  rw [TrackingTables.Holds, start]
  simp only [pageSize]
  constructor
  · rintro ⟨byte, inside, rfl⟩
    omega
  · intro between
    refine ⟨(frame - first) * 4096, ?_, ?_⟩ <;> omega

/-- The tables before the first marking pass. -/
def startTables (mpr : List MemmapRange) (hhdmOffset : Nat) (staleFrames : Nat → Pageframe)
    (staleBytes : Nat → BitVec 8) : TrackingTables :=
  let total := physmemAddrHighest mpr / pageSize
  let bitmapSize := (total + 7) / 8
  { pageframes := staleFrames
    total := total
    bitmap := fun byte => if byte < bitmapSize then 0xFF#8 else staleBytes byte
    bitmapSize := bitmapSize
    addr := physmemAddrGetTracking mpr (total * pageframeSize + bitmapSize)
    offset := hhdmOffset }

section
variable (mpr : List MemmapRange) (hhdmOffset : Nat) (staleFrames : Nat → Pageframe) (staleBytes : Nat → BitVec 8)

theorem startTables_small : (startTables mpr hhdmOffset staleFrames staleBytes).total < 2 ^ 52 ∧
    (startTables mpr hhdmOffset staleFrames staleBytes).size < 2 ^ 56 := by
  have highest := physmemAddrHighest_lt mpr
  simp only [startTables, TrackingTables.size, pageSize, pageframeSize]
  omega

/-- The tables lie inside one usable entry. -/
theorem startTables_home (found : (startTables mpr hhdmOffset staleFrames staleBytes).addr ≠ 0) :
    ∃ entry ∈ mpr, entry.type = .usable ∧ entry.base = (startTables mpr hhdmOffset staleFrames staleBytes).addr ∧
      (startTables mpr hhdmOffset staleFrames staleBytes).size ≤ entry.length :=
  physmemAddrGetTracking_sound found

/-- No size computation of `physmem_init` wraps. -/
theorem physmemInit_eq : physmemInit mpr hhdmOffset staleFrames staleBytes =
    (let start := startTables mpr hhdmOffset staleFrames staleBytes
    if start.addr = 0 then .error (.panic "No usable memory found for physmem_pageframes")
    else do
      let marked ← physmemAddrMark start mpr
      let reserved ← physmemAddrMarkUsed marked start.addr (usedBytesToFrameCount start.size)
      physmemAddrMarkUsed reserved 0 256) := by
  have highest := physmemAddrHighest_lt mpr
  have total : physmemAddrHighest mpr / pageSize < 2 ^ 52 := by
    rw [pageSize]
    omega
  have frames : wrap64 (physmemAddrHighest mpr / pageSize * pageframeSize) =
      physmemAddrHighest mpr / pageSize * pageframeSize := Nat.mod_eq_of_lt (by rw [pageframeSize]; omega)
  have bits : wrap64 (physmemAddrHighest mpr / pageSize + 7) = physmemAddrHighest mpr / pageSize + 7 :=
    Nat.mod_eq_of_lt (by omega)
  have both : wrap64 (physmemAddrHighest mpr / pageSize * pageframeSize + (physmemAddrHighest mpr / pageSize + 7) / 8) =
      physmemAddrHighest mpr / pageSize * pageframeSize + (physmemAddrHighest mpr / pageSize + 7) / 8 :=
    Nat.mod_eq_of_lt (by rw [pageframeSize]; omega)
  simp only [physmemInit]
  rw [frames, bits, both]
  rfl

end

/-- After `physmem_init` the free frames are the covered frames above 1 MiB that hold no table. -/
theorem physmemInit_frees {mpr : List MemmapRange} {hhdmOffset : Nat} {staleFrames : Nat → Pageframe}
    {staleBytes : Nat → BitVec 8} {t : TrackingTables} (promised : LimineMemmap mpr)
    (initialised : physmemInit mpr hhdmOffset staleFrames staleBytes = .ok t) :
    (∀ frame < t.total, bitmapTest t.bitmap frame = false ↔
      (∃ entry ∈ mpr, entry.type = .usable ∧ entry.Covers frame) ∧ 0x100000 ≤ frame * pageSize ∧ ¬t.Holds frame) ∧
    ∃ entry ∈ mpr, entry.type = .usable ∧ entry.base ≤ t.addr ∧ t.addr + t.size ≤ entry.base + entry.length := by
  have default (frame : Nat) (inside : frame < (startTables mpr hhdmOffset staleFrames staleBytes).total) :
      (startTables mpr hhdmOffset staleFrames staleBytes).used frame = true := cleared_used staleBytes inside
  have sound := startTables_home mpr hhdmOffset staleFrames staleBytes
  have small := startTables_small mpr hhdmOffset staleFrames staleBytes
  rw [physmemInit_eq] at initialised
  generalize startTables mpr hhdmOffset staleFrames staleBytes = start at *
  dsimp only at initialised
  split at initialised
  · cases initialised
  next found =>
      obtain ⟨home, member, usable, base, length⟩ := sound found
      obtain ⟨marked, first, initialised⟩ := Result.bind_ok initialised
      obtain ⟨reserved, second, third⟩ := Result.bind_ok initialised
      have aligned : pageSize ∣ start.addr := base ▸ (promised.aligned home member (Or.inl usable)).1
      have count : usedBytesToFrameCount start.size = (start.size + pageSize - 1) / pageSize := by
        have whole : wrap64 (start.size + 4096 - 1) = start.size + 4096 - 1 := Nat.mod_eq_of_lt (by omega)
        rw [usedBytesToFrameCount, pageSize, whole]
      have fits : start.addr / pageSize + usedBytesToFrameCount start.size < 2 ^ 64 := by
        have room := home.fits
        rw [count, pageSize]
        omega
      have markedLayout := physmemAddrMark_layout first
      have reservedLayout := (physmemAddrMarkUsed_layout second).trans markedLayout
      have layout := (physmemAddrMarkUsed_layout third).trans reservedLayout
      have sizes := size_of_layout layout
      have addrs : t.addr = start.addr := congrArg (·.2.2.1) layout
      constructor
      · intro frame inside
        have inStart : frame < start.total := by
          rw [← show t.total = start.total from congrArg Prod.fst layout]
          exact inside
        have inMarked : frame < marked.total := by
          rw [show marked.total = start.total from congrArg Prod.fst markedLayout]
          exact inStart
        have inReserved : frame < reserved.total := by
          rw [show reserved.total = start.total from congrArg Prod.fst reservedLayout]
          exact inStart
        have holds : t.Holds frame ↔ start.Holds frame := by
          rw [TrackingTables.Holds, TrackingTables.Holds, sizes, addrs]
        have low : (0 / pageSize ≤ frame ∧ frame < 0 / pageSize + 256) ↔ frame * pageSize < 0x100000 := by
          rw [pageSize]
          omega
        calc t.used frame = false
          _ ↔ reserved.used frame = false ∧ ¬(0 / pageSize ≤ frame ∧ frame < 0 / pageSize + 256) :=
            physmemAddrMarkUsed_used third (by decide) inReserved
          _ ↔ (marked.used frame = false ∧ ¬start.Holds frame) ∧ ¬frame * pageSize < 0x100000 := by
            rw [low, physmemAddrMarkUsed_used second fits inMarked, count, ← holds_iff aligned]
          _ ↔ (∃ entry ∈ mpr, entry.type = .usable ∧ entry.Covers frame) ∧ 0x100000 ≤ frame * pageSize ∧
              ¬t.Holds frame := by
            rw [physmemAddrMark_ok first, markEntries_used promised inStart (default frame inStart), holds, not_lt]
            exact and_assoc.trans (and_congr_right' and_comm)
      · refine ⟨home, member, usable, ?_, ?_⟩
        · rw [base, addrs]
        · rw [addrs, sizes, base]
          exact Nat.add_le_add_left length _

/-- The general state of the allocator, seen as tracking tables. -/
def ofPhysMem (bitmapSize addr offset : Nat) (p : PhysMem) : TrackingTables :=
  ⟨p.pageframes, p.total, p.bitmap, bitmapSize, addr, offset⟩

/-- An entry below the physical address limit, seen as a 64-bit range. -/
def ofEntry (entry : MemmapEntry) : MemmapRange := ⟨entry.base, entry.length, entry.type, by have := entry.fits; omega⟩

section
variable (bitmapSize addr offset : Nat) (p : PhysMem)

theorem ofPhysMem_markEntry (entry : MemmapEntry) : (ofPhysMem bitmapSize addr offset p).markEntry (ofEntry entry) =
    ofPhysMem bitmapSize addr offset (p.markEntry entry) := by
  have frames : (ofEntry entry).frames p.total = entry.frames p.total := by
    simp only [MemmapRange.frames, MemmapEntry.frames, (ofEntry entry).end_whole]
    rfl
  simp only [TrackingTables.markEntry, PhysMem.markEntry]
  split
  next usable =>
      rw [if_pos (show entry.type = .usable from usable)]
      rw [show (ofPhysMem bitmapSize addr offset p).total = p.total from rfl, frames]
      exact List.foldl_hom _ fun _ _ => rfl
  next other =>
      rw [if_neg (show ¬entry.type = .usable from other)]
      rw [show (ofPhysMem bitmapSize addr offset p).total = p.total from rfl, frames]
      exact List.foldl_hom _ fun _ _ => rfl

theorem ofPhysMem_mark (entries : List MemmapEntry)
    (mapped : (ofPhysMem bitmapSize addr offset p).physmemPageframes ≠ 0) :
    physmemAddrMark (ofPhysMem bitmapSize addr offset p) (entries.map ofEntry) =
      .ok (ofPhysMem bitmapSize addr offset (Mem.physmemAddrMark p entries)) := by
  rw [physmemAddrMark, if_neg mapped, List.foldl_map]
  exact congrArg Except.ok (List.foldl_hom _ fun marked entry => ofPhysMem_markEntry bitmapSize addr offset marked entry)

theorem ofPhysMem_markUsed (physmemAddr count : Nat)
    (mapped : (ofPhysMem bitmapSize addr offset p).physmemPageframes ≠ 0) :
    physmemAddrMarkUsed (ofPhysMem bitmapSize addr offset p) physmemAddr count =
      .ok (ofPhysMem bitmapSize addr offset (Mem.physmemAddrMarkUsed p physmemAddr count)) := by
  rw [physmemAddrMarkUsed, if_neg mapped]
  exact congrArg Except.ok (List.foldl_hom (ofPhysMem bitmapSize addr offset) fun _ _ => rfl)

end

section
variable (entries : List MemmapEntry)

theorem ofEntry_highest : physmemAddrHighest (entries.map ofEntry) = Mem.physmemAddrHighest entries := by
  rw [physmemAddrHighest, Mem.physmemAddrHighest, List.foldl_map]
  congr 1
  funext highest entry
  have whole : wrap64 (entry.base + entry.length) = entry.base + entry.length := (ofEntry entry).end_whole
  simp only [ofEntry, whole]
  split
  · rw [Nat.max_def]
    split <;> split <;> omega
  · rfl

theorem ofEntry_firstUsable (size least : Nat) :
    (firstUsable (entries.map ofEntry) size least).map MemmapRange.base = Mem.firstUsable entries size least := by
  rw [firstUsable, List.find?_map, Option.map_map]
  rfl

theorem ofEntry_tracking (size : Nat) :
    physmemAddrGetTracking (entries.map ofEntry) size = (Mem.physmemAddrGetTracking entries size).getD 0 := by
  rw [physmemAddrGetTracking, Mem.physmemAddrGetTracking, ← ofEntry_firstUsable, ← ofEntry_firstUsable,
    ← ofEntry_firstUsable, ← Option.map_or, ← Option.map_or]
  split
  next chosen => rw [chosen]; rfl
  next chosen => rw [chosen]; rfl

/-- The allocator of the smaller memory maps starts in the state that `physmem_init` leaves. -/
theorem physmemInit_ofPhysMem {hhdmOffset : Nat} {stale : Nat → Pageframe} {p : PhysMem}
    (direct : hhdmOffset + 2 ^ 52 < 2 ^ 64) (initialised : Mem.physmemInit entries stale = .ok p) :
    ∃ bitmapSize addr, physmemInit (entries.map ofEntry) hhdmOffset stale (fun _ => 0xFF#8) =
      .ok (ofPhysMem bitmapSize addr hhdmOffset p) := by
  have home := startTables_home (entries.map ofEntry) hhdmOffset stale fun _ => 0xFF#8
  rw [physmemInit_eq]
  simp only [startTables, ofEntry_highest, ofEntry_tracking, ite_self, TrackingTables.size] at home ⊢
  simp only [Mem.physmemInit] at initialised
  split at initialised
  · cases initialised
  · cases initialised
  next addr nonzero found =>
      rw [found, Option.getD_some] at home ⊢
      obtain ⟨entry, member, _, base, _⟩ := home nonzero
      obtain ⟨source, _, rfl⟩ := List.mem_map.mp member
      have small : addr ≤ 2 ^ 52 := by
        have fits := source.fits
        rw [← base, show (ofEntry source).base = source.base from rfl]
        omega
      have mapped (marked : PhysMem) :
          (ofPhysMem ((Mem.physmemAddrHighest entries / pageSize + 7) / 8) addr hhdmOffset marked).physmemPageframes ≠ 0 := by
        have whole : wrap64 (addr + hhdmOffset) = addr + hhdmOffset := Nat.mod_eq_of_lt (by omega)
        simp only [TrackingTables.physmemPageframes, ofPhysMem, whole]
        exact fun zero => nonzero (Nat.eq_zero_of_add_eq_zero zero).1
      refine ⟨(Mem.physmemAddrHighest entries / pageSize + 7) / 8, addr, ?_⟩
      rw [← Except.ok.inj initialised, if_neg nonzero]
      have totalFits : Mem.physmemAddrHighest entries / pageSize ≤ 2 ^ 40 := by
        have bound := Mem.physmemAddrHighest_le entries
        rw [pageSize]
        omega
      have marked := ofPhysMem_mark ((Mem.physmemAddrHighest entries / pageSize + 7) / 8) addr hhdmOffset
        ⟨stale, Mem.physmemAddrHighest entries / pageSize, fun _ => 0xFF#8, totalFits⟩ entries (mapped _)
      rw [ofPhysMem] at marked
      rw [marked]
      simp only [Result.ok_bind, ofPhysMem_markUsed _ _ _ _ _ _ (mapped _)]

end

/-- Sixty-four KiB of RAM behind an unaligned range that overlaps a ROM. -/
def mixedMap : List MemmapRange :=
  [⟨0x9FC00, 0x400, .reserved, by decide⟩, ⟨0x100000, 0x10000, .usable, by decide⟩, ⟨0x9F000, 0x61000, .badMemory, by decide⟩]

theorem mixedMap_promised : LimineMemmap mixedMap where
  aligned := by
    intro entry member ram
    fin_cases member
    · rcases ram with wrong | wrong <;> cases wrong
    · exact ⟨⟨256, rfl⟩, ⟨16, rfl⟩⟩
    · rcases ram with wrong | wrong <;> cases wrong
  apart := by
    simp only [mixedMap, List.pairwise_cons, List.mem_cons, List.not_mem_nil, or_false, forall_eq_or_imp, forall_eq,
      MemmapRange.Apart, MemmapRange.IsRam, MemmapRange.Contains]
    refine ⟨⟨fun _ physAddr both => ?_, fun ram => ?_⟩, fun _ physAddr both => ?_, nofun, List.Pairwise.nil⟩
    · omega
    · simp at ram
    · omega

theorem physmemInit_frees_mixed : ∃ t, physmemInit mixedMap 0xFFFF800000000000 (fun _ => ⟨7, 0⟩) (fun _ => 0) = .ok t ∧
    (∀ frame < t.total, bitmapTest t.bitmap frame = false ↔ (∃ entry ∈ mixedMap, entry.type = .usable ∧
      entry.Covers frame) ∧ 0x100000 ≤ frame * pageSize ∧ ¬t.Holds frame) ∧
    ∃ entry ∈ mixedMap, entry.type = .usable ∧ entry.base ≤ t.addr ∧ t.addr + t.size ≤ entry.base + entry.length := by
  have returns : (match physmemInit mixedMap 0xFFFF800000000000 (fun _ => ⟨7, 0⟩) (fun _ => 0) with
      | .ok _ => true
      | .error _ => false) = true := by decide +kernel
  split at returns
  next t initialised => exact ⟨t, initialised, physmemInit_frees mixedMap_promised initialised⟩
  next => cases returns

end DoccrOS.Boot
