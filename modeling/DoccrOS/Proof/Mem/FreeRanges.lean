import DoccrOS.Construction.Mem.Kernel
import DoccrOS.Proof.Mem.MapRanges

namespace DoccrOS.Mem
open Lib.Radix Lib

/-- The page `i` of the range maps the frame, and a release of the page drops it. -/
def dropsFrame (m : Machine) (root base : Nat) (isMmio : Bool) (frame i : Nat) : Bool :=
  !isMmio && (m.findPte root (base + i * pageSize)).any fun entry => entryAddr entry / pageSize == frame

/-- How often a release of the range drops a frame. -/
def dropCount (m : Machine) (root base : Nat) (isMmio : Bool) (frame count : Nat) : Nat :=
  (List.range count).countP (dropsFrame m root base isMmio frame)

/-- The tracking tables after a frame was dropped `n` times. -/
def Dropped (p p' : PhysMem) (n frame : Nat) : Prop :=
  if n = 0 then p'.used frame = p.used frame ∧ p'.pageframes frame = p.pageframes frame
  else if n < (p.pageframes frame).rc then
    p'.used frame = p.used frame ∧ p'.pageframes frame = ⟨(p.pageframes frame).rc - n, (p.pageframes frame).flags⟩
  else p'.used frame = false ∧ p'.pageframes frame = ⟨0, frameFree⟩

section
variable {p p' : PhysMem} {phys n frame : Nat}

theorem Dropped.hit (dropped : Dropped p p' n (phys / pageSize)) (aligned : phys % pageSize = 0)
    (inside : phys / pageSize < p'.total) : Dropped p (dropFrame p' phys) (n + 1) (phys / pageSize) := by
  have last (few : (p'.pageframes (phys / pageSize)).rc ≤ 1) := dropFrame_last aligned inside few (phys / pageSize)
  have more (several : 1 < (p'.pageframes (phys / pageSize)).rc) := dropFrame_more inside several
  generalize phys / pageSize = query at *
  unfold Dropped at dropped ⊢
  rw [if_neg (Nat.succ_ne_zero n)]
  by_cases few : (p'.pageframes query).rc ≤ 1
  · obtain ⟨_, used, pageframe⟩ := last few
    rw [if_pos rfl] at used pageframe
    have low : ¬n + 1 < (p.pageframes query).rc := by
      split at dropped
      · rw [dropped.2] at few
        omega
      · split at dropped
        · rw [dropped.2] at few
          simp only at few
          omega
        · omega
    rw [if_neg low]
    exact ⟨used, pageframe⟩
  · have rest := more (by omega)
    split at dropped
    · rename_i none
      rw [dropped.2] at few rest
      rw [if_pos (by omega), rest, setFrame_used, setFrame_pageframes, if_pos rfl, none]
      exact ⟨dropped.1, rfl⟩
    · split at dropped
      · rw [dropped.2] at few rest
        simp only at few rest
        rw [if_pos (by omega), rest, setFrame_used, setFrame_pageframes, if_pos rfl, Nat.sub_sub]
        exact ⟨dropped.1, rfl⟩
      · rw [dropped.2] at few
        exact absurd (Nat.zero_le 1) few

theorem Dropped.miss (dropped : Dropped p p' n frame) (aligned : phys % pageSize = 0)
    (inside : phys / pageSize < p'.total) (different : frame ≠ phys / pageSize) :
    Dropped p (dropFrame p' phys) n frame := by
  obtain ⟨used, pageframe⟩ := (dropFrame_other aligned inside frame).2 different
  unfold Dropped at dropped ⊢
  rw [used, pageframe]
  exact dropped

theorem Dropped.congr {p'' : PhysMem} (dropped : Dropped p p' n frame) (used : p''.used frame = p'.used frame)
    (pageframe : p''.pageframes frame = p'.pageframes frame) : Dropped p p'' n frame := by
  unfold Dropped at dropped ⊢
  rw [used, pageframe]
  exact dropped

end

/-- The entries of a range are cleared, their frames are dropped, empty tables are released, and nothing else changes. -/
structure FreedRange (m m' : Machine) (roots : Set Nat) (root base count : Nat) (isMmio : Bool) : Prop where
  inv : TableInv m' roots
  walks : ∀ root' ∈ roots, ∀ path table, userPaths.holds path → walk m'.child root' path = some table →
    walk m.child root' path = some table
  leaf : ∀ root' ∈ roots, ∀ va, UserVa va → m'.findPte root' va =
    if root' = root ∧ InRange base count va then none else m.findPte root' va
  gone : ∀ table ∈ Tables m roots, table ∉ Tables m' roots → m'.phys.used (table / pageSize) = false ∧
    m'.phys.pageframes (table / pageSize) = ⟨0, frameFree⟩
  frames : ∀ frame, (∀ table ∈ Tables m roots, table ∉ Tables m' roots → table / pageSize ≠ frame) →
    Dropped m.phys m'.phys (dropCount m root base isMmio frame count) frame
  ram : ∀ page, page ∉ Tables m roots → m'.ram page = m.ram page
  kernelHalf : ∀ root' ∈ roots, ∀ index : Fin 512, 256 ≤ index.val → m'.ram root' index = m.ram root' index
  occupied : AllOccupied m roots → AllOccupied m' roots
  total : m'.phys.total = m.phys.total
  kernelPml4 : m'.kernelPml4 = m.kernelPml4

section
variable {m m' next : Machine} {roots : Set Nat} {root base count i : Nat} {isMmio : Bool} {entry : Word}

theorem FreedRange.tables (freed : FreedRange m m' roots root base count isMmio) : Tables m' roots ⊆ Tables m roots := by
  intro table owned
  obtain ⟨root', isRoot', path, admitted, reached⟩ := owned
  exact mem_nodes isRoot' admitted (freed.walks root' isRoot' path table admitted reached)

theorem FreedRange.refl (inv : TableInv m roots) : FreedRange m m roots root base 0 isMmio where
  inv := inv
  walks _ _ _ _ _ reached := reached
  leaf root' isRoot' va user := by
    rw [if_neg]
    rintro ⟨_, inside⟩
    unfold InRange at inside
    omega
  gone table owned notOwned := absurd owned notOwned
  frames _ _ := ⟨rfl, rfl⟩
  ram _ _ := rfl
  kernelHalf _ _ _ _ := rfl
  occupied held := held
  total := rfl
  kernelPml4 := rfl

/-- A page that is not mapped is skipped. -/
theorem FreedRange.skip (range : UserRange base count) (isRoot : root ∈ roots) (inside : i < count)
    (before : FreedRange m m' roots root base i isMmio) (absent : m'.findPte root (base + i * pageSize) = none) :
    FreedRange m m' roots root base (i + 1) isMmio := by
  obtain ⟨_, user, number⟩ := range.address inside
  have absent' : m.findPte root (base + i * pageSize) = none := by
    rw [before.leaf root isRoot _ user, if_neg] at absent
    · exact absent
    · unfold InRange
      omega
  refine ⟨before.inv, before.walks, ?_, before.gone, ?_, before.ram, before.kernelHalf, before.occupied, before.total,
    before.kernelPml4⟩
  · intro root' isRoot' va user'
    by_cases here : root' = root ∧ va / pageSize = base / pageSize + i
    · have same : m'.findPte root' va = none := by
        rw [here.1, ← findPte_align, here.2, ← number, findPte_align]
        exact absent
      rw [same, if_pos]
      unfold InRange
      exact ⟨here.1, by omega⟩
    · rw [before.leaf root' isRoot' va user']
      have narrow : (root' = root ∧ InRange base (i + 1) va) ↔ (root' = root ∧ InRange base i va) := by
        unfold InRange
        constructor
        · intro both
          have different : va / pageSize ≠ base / pageSize + i := fun same => here ⟨both.1, same⟩
          exact ⟨both.1, by omega⟩
        · intro both
          exact ⟨both.1, by omega⟩
      simp only [narrow]
  · intro frame apart
    have none : dropsFrame m root base isMmio frame i = false := by simp [dropsFrame, absent']
    rw [dropCount, List.range_succ, List.countP_append, List.countP_singleton, none]
    exact before.frames frame apart

/-- A mapped page is cleared after its frame was dropped. -/
theorem FreedRange.clear (range : UserRange base count) (isRoot : root ∈ roots) (inside : i < count)
    (tables : TableInv m roots) (before : FreedRange m m' roots root base i isMmio) (found : m'.findPte root (base + i * pageSize) = some entry)
    (tracked : isMmio = false → entryAddr entry / pageSize < m.phys.total ∧ entryAddr entry ∉ Tables m roots)
    (first : ClearedFirst (dropData m' isMmio (entryAddr entry)) next roots root (base + i * pageSize)) :
    FreedRange m next roots root base (i + 1) isMmio := by
  have cleared := first.cleared
  obtain ⟨_, user, number⟩ := range.address inside
  have found' : m.findPte root (base + i * pageSize) = some entry := by
    rw [before.leaf root isRoot _ user, if_neg] at found
    · exact found
    · unfold InRange
      omega
  have sameRam : (dropData m' isMmio (entryAddr entry)).ram = m'.ram := by
    unfold dropData
    split <;> rfl
  have sameTables : Tables (dropData m' isMmio (entryAddr entry)) roots = Tables m' roots := by
    unfold dropData
    split <;> rfl
  have sameTotal : (dropData m' isMmio (entryAddr entry)).phys.total = m'.phys.total := by
    cases isMmio with
    | true => rfl
    | false =>
        have bound := (tracked rfl).1
        rw [← before.total] at bound
        exact (dropFrame_other (entryAddr_aligned entry) bound 0).1
  have sameLeaf (root' va : Nat) : (dropData m' isMmio (entryAddr entry)).findPte root' va = m'.findPte root' va := by
    unfold dropData
    split <;> rfl
  -- The drop touches no table frame, so a table keeps its record until it is released.
  have spared (table : Nat) (owned : table ∈ Tables m roots) :
      (dropData m' isMmio (entryAddr entry)).phys.used (table / pageSize) = m'.phys.used (table / pageSize) ∧
        (dropData m' isMmio (entryAddr entry)).phys.pageframes (table / pageSize) =
          m'.phys.pageframes (table / pageSize) := by
    cases isMmio with
    | true => exact ⟨rfl, rfl⟩
    | false =>
        obtain ⟨bound, notTable⟩ := tracked rfl
        rw [← before.total] at bound
        refine (dropFrame_other (entryAddr_aligned entry) bound _).2 ?_
        intro same
        have sameFrame := frameNumber_inj (tables.allocated table owned).aligned (entryAddr_aligned entry) same
        exact notTable (sameFrame ▸ owned)
  have fewer : Tables next roots ⊆ Tables m' roots := sameTables ▸ cleared.tables
  refine ⟨cleared.inv, ?_, ?_, ?_, ?_, ?_, ?_, ?_, cleared.total.trans (sameTotal.trans before.total), ?_⟩
  · intro root' isRoot' path table admitted reached
    refine before.walks root' isRoot' path table admitted ?_
    have middle := first.walks isRoot' admitted reached
    unfold dropData at middle
    split at middle <;> exact middle
  · intro root' isRoot' va user'
    rw [cleared.leaf root' isRoot' va user', sameLeaf, number, before.leaf root' isRoot' va user']
    unfold InRange
    by_cases same : root' = root
    · by_cases here : va / pageSize = base / pageSize + i
      · rw [if_pos ⟨same, here⟩, if_pos ⟨same, by omega⟩]
      · rw [if_neg fun both => here both.2]
        by_cases earlier : base / pageSize ≤ va / pageSize ∧ va / pageSize < base / pageSize + i
        · rw [if_pos ⟨same, earlier⟩, if_pos ⟨same, by omega⟩]
        · rw [if_neg fun both => earlier both.2, if_neg fun both => earlier (by omega)]
    · simp only [same, false_and, if_false]
  · intro table owned lost
    by_cases middle : table ∈ Tables m' roots
    · exact cleared.gone table (sameTables.symm ▸ middle) lost
    · obtain ⟨used, pageframe⟩ := before.gone table owned middle
      have apart : ∀ other ∈ Tables (dropData m' isMmio (entryAddr entry)) roots, other ∉ Tables next roots →
          other / pageSize ≠ table / pageSize := by
        intro other owned' _ same
        rw [sameTables] at owned'
        have sameFrame := frameNumber_inj (tables.allocated other (before.tables owned')).aligned
          (tables.allocated table owned).aligned same
        exact middle (sameFrame ▸ owned')
      obtain ⟨sameUsed, sameRecord⟩ := cleared.kept _ apart
      exact ⟨sameUsed.trans ((spared table owned).1.trans used), sameRecord.trans ((spared table owned).2.trans pageframe)⟩
  · intro frame apart
    have dropped := before.frames frame fun table owned lost => apart table owned fun kept => lost (fewer kept)
    obtain ⟨sameUsed, sameRecord⟩ := cleared.kept frame fun table owned lost =>
      apart table (before.tables (sameTables ▸ owned)) lost
    refine Dropped.congr ?_ sameUsed sameRecord
    rw [dropCount, List.range_succ, List.countP_append, List.countP_singleton]
    cases isMmio with
    | true => exact dropped
    | false =>
        have bound := (tracked rfl).1
        rw [← before.total] at bound
        by_cases here : frame = entryAddr entry / pageSize
        · have hits : dropsFrame m root base false frame i = true := by simp [dropsFrame, found', here]
          rw [hits, if_pos rfl]
          rw [here] at dropped ⊢
          exact dropped.hit (entryAddr_aligned entry) bound
        · have misses : dropsFrame m root base false frame i = false := by
            simpa [dropsFrame, found'] using Ne.symm here
          rw [misses]
          exact dropped.miss (entryAddr_aligned entry) bound here
  · intro page notOwned
    have notMiddle : page ∉ Tables (dropData m' isMmio (entryAddr entry)) roots := by
      rw [sameTables]
      exact fun owned => notOwned (before.tables owned)
    rw [cleared.ram page notMiddle, sameRam, before.ram page notOwned]
  · intro root' isRoot' index high
    rw [cleared.kernelHalf root' isRoot' index high, sameRam, before.kernelHalf root' isRoot' index high]
  · intro held
    apply cleared.occupied
    have middle := before.occupied held
    unfold dropData
    split <;> exact middle
  · rw [cleared.kernelPml4, ← before.kernelPml4]
    unfold dropData
    split <;> rfl

/-- The frames that a release of the range drops are data frames. -/
def DropsData (m : Machine) (roots : Set Nat) (root base count : Nat) (isMmio : Bool) : Prop :=
  ∀ i entry, i < count → isMmio = false → m.findPte root (base + i * pageSize) = some entry →
    Allocated m (entryAddr entry) ∧ entryAddr entry ∉ Tables m roots

/-- The frames that a release of the range drops are tracked and no tables; they may be free. -/
def DropsTracked (m : Machine) (roots : Set Nat) (root base count : Nat) (isMmio : Bool) : Prop :=
  ∀ i entry, i < count → isMmio = false → m.findPte root (base + i * pageSize) = some entry →
    entryAddr entry ≠ 0 ∧ entryAddr entry / pageSize < m.phys.total ∧ entryAddr entry ∉ Tables m roots

theorem DropsData.tracked (data : DropsData m roots root base count isMmio) : DropsTracked m roots root base count isMmio := by
  intro i entry inside isData found
  obtain ⟨allocated, notTable⟩ := data i entry inside isData found
  exact ⟨allocated.nonzero, allocated.inside, notTable⟩

/-- The page loop of `vmm_space_free` frees the range. -/
theorem vmmSpaceFreePages_spec (tables : TableInv m roots) (isRoot : root ∈ roots) (range : UserRange base count)
    (data : DropsTracked m roots root base count isMmio) :
    FreedRange m ((List.range count).foldl
      (fun m i => vmmSpaceFreePage m root (wrap64 (base + i * pageSize)) isMmio) m) roots root base count isMmio := by
  let holds (i : Nat) (state : Machine) : Prop := FreedRange m state roots root base i isMmio
  have start : holds 0 m := FreedRange.refl tables
  change holds count _
  refine foldl_range start ?_
  intro i state inside held
  obtain ⟨wrapped, user, number⟩ := range.address inside
  rw [wrapped]
  have sameEntry : state.findPte root (base + i * pageSize) = m.findPte root (base + i * pageSize) := by
    rw [held.leaf root isRoot _ user, if_neg]
    unfold InRange
    omega
  have tracked (entry : Word) (found : state.findPte root (base + i * pageSize) = some entry) (isData : isMmio = false) :
      entryAddr entry ≠ 0 ∧ entryAddr entry / pageSize < m.phys.total ∧ entryAddr entry ∉ Tables m roots :=
    data i entry inside isData (sameEntry ▸ found)
  have dropped (entry : Word) (found : state.findPte root (base + i * pageSize) = some entry) :
      TableInv (dropData state isMmio (entryAddr entry)) roots := by
    cases isMmio with
    | true => exact held.inv
    | false =>
        obtain ⟨nonzero, bound, notTable⟩ := tracked entry found rfl
        have aligned := entryAddr_aligned entry
        rw [← held.total] at bound
        have other (query : Nat) := dropFrame_other aligned bound query
        refine held.inv.withPhys (other 0).1 ?_ ?_
        · rw [((other 0).2 ?_).1]
          · exact held.inv.zeroUsed
          · intro zero
            simp only [pageSize] at aligned zero
            omega
        · intro table owned
          refine ((other _).2 ?_).1
          intro same
          have sameFrame := frameNumber_inj (held.inv.allocated table owned).aligned aligned same
          exact notTable (sameFrame ▸ held.tables owned)
  rcases vmmSpaceFreePage_first isRoot user dropped with ⟨absent, same⟩ | ⟨entry, found, first⟩
  · rw [same]
    exact held.skip range isRoot inside absent
  · refine FreedRange.clear range isRoot inside tables held found ?_ first
    intro isData
    exact (tracked entry found isData).2

/-- What a call of `vmm_space_free` can do. -/
inductive FreeOutcome (m : Machine) (roots : Set Nat) (space : Space) (vaddr : Nat) : Machine → Space → Prop where
  | missing (none : space.selected vaddr = none) : FreeOutcome m roots space vaddr m space
  | freed (cur : Region) (m' : Machine) (found : space.selected vaddr = some cur)
      (range : FreedRange m m' roots space.pml4Phys cur.base (cur.size / pageSize) (hasFlag cur.flags vmmRegionMmio)) :
      FreeOutcome m roots space vaddr m' { space with
        regions := space.regions.eraseP (·.matches vaddr)
        regionCount := sub64 space.regionCount 1
        usedVirtual := sub64 space.usedVirtual cur.size }

theorem vmmSpaceFree_spec {space space' : Space} {vaddr : Nat} (tables : TableInv m roots)
    (isRoot : space.pml4Phys ∈ roots)
    (sound : ∀ cur, space.selected vaddr = some cur → UserRange cur.base (cur.size / pageSize) ∧
      DropsData m roots space.pml4Phys cur.base (cur.size / pageSize) (hasFlag cur.flags vmmRegionMmio))
    (returned : vmmSpaceFree m space vaddr = (m', space')) : FreeOutcome m roots space vaddr m' space' := by
  unfold vmmSpaceFree at returned
  unfold Space.selected at sound
  split at returned
  · rename_i zero
    obtain ⟨rfl, rfl⟩ := Prod.mk.inj returned
    exact .missing (if_pos zero)
  · rename_i nonzero
    rw [if_neg nonzero] at sound
    cases found : space.regions.find? (·.matches vaddr) with
    | none =>
        rw [found] at returned
        obtain ⟨rfl, rfl⟩ := Prod.mk.inj returned
        exact .missing ((if_neg nonzero).trans found)
    | some cur =>
        rw [found] at returned
        obtain ⟨same, rfl⟩ := Prod.mk.inj returned
        obtain ⟨range, data⟩ := sound cur found
        have base : cur.base = vaddr := by
          have selected := List.find?_some found
          simp only [Region.matches, Bool.and_eq_true, beq_iff_eq] at selected
          exact selected.1
        refine .freed cur m' ((if_neg nonzero).trans found) ?_
        rw [← same, ← base]
        exact vmmSpaceFreePages_spec tables isRoot range data.tracked

end

end DoccrOS.Mem
