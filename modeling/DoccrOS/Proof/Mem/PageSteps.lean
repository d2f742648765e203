import DoccrOS.Proof.Mem.PageView

namespace DoccrOS.Mem
open Lib.Radix Lib

theorem entryWritable_eq (entry : Word) : entryWritable entry = entry.getLsbD 1 := by
  have mask : pteWritable = BitVec.twoPow 64 1 := by decide
  rw [entryWritable, mask, BitVec.and_twoPow]
  cases entry.getLsbD 1 <;> decide

theorem entryWritable_leaf (phys : Nat) (flags : Word) :
    entryWritable (leafEntry phys flags) = entryWritable flags := by
  have mask : pteAddrMask.getLsbD 1 = false := by decide
  rw [entryWritable_eq, entryWritable_eq, leafEntry, BitVec.getLsbD_or, BitVec.getLsbD_and, mask, Bool.and_false,
    Bool.false_or]

/-- Page flags are present and use no address bit. -/
structure PageFlags (flags : Word) : Prop where
  present : entryPresent flags = true
  noAddr : flags &&& pteAddrMask = 0

theorem flagsToPte_page (flags : BitVec 32) : PageFlags (flagsToPte flags) := by
  unfold flagsToPte
  cases hasFlag flags vmmRegionWrite <;> cases hasFlag flags vmmRegionUser <;>
    cases hasFlag flags vmmRegionExec <;> exact ⟨by decide, by decide⟩

theorem flagsToPte_writable (flags : BitVec 32) : entryWritable (flagsToPte flags) = hasFlag flags vmmRegionWrite := by
  unfold flagsToPte
  cases hasFlag flags vmmRegionWrite <;> cases hasFlag flags vmmRegionUser <;>
    cases hasFlag flags vmmRegionExec <;> decide

theorem readOnly_page (flags : BitVec 32) : PageFlags (flagsToPte flags &&& ~~~pteWritable) := by
  unfold flagsToPte
  cases hasFlag flags vmmRegionWrite <;> cases hasFlag flags vmmRegionUser <;>
    cases hasFlag flags vmmRegionExec <;> exact ⟨by decide, by decide⟩

theorem readOnly_writable (flags : BitVec 32) : entryWritable (flagsToPte flags &&& ~~~pteWritable) = false := by
  unfold flagsToPte
  cases hasFlag flags vmmRegionWrite <;> cases hasFlag flags vmmRegionUser <;>
    cases hasFlag flags vmmRegionExec <;> decide

/-- A table lies in the frame. -/
def TableFrame (m : Machine) (roots : Set Nat) (frame : Nat) : Prop :=
  ∃ table ∈ Tables m roots, table / pageSize = frame

section
variable {m m' : Machine} {roots : Set Nat} {places : Finset Place}

theorem Allocated.fits {cell : Nat} (allocated : Allocated m cell) : cell < 2 ^ 52 := by
  have inside := allocated.inside
  have aligned := allocated.aligned
  have fits := m.phys.totalFits
  simp only [pageSize] at inside aligned
  omega

theorem Allocated.entryAddr_leaf {cell : Nat} (allocated : Allocated m cell) {flags : Word} (page : PageFlags flags) :
    entryAddr (leafEntry cell flags) = cell :=
  Mem.entryAddr_leaf page.noAddr allocated.aligned allocated.fits

/-- A tracked place is mapped to an allocated frame with page flags. -/
theorem DataInv.map_cell {root va cell : Nat} {flags : Word} (inv : DataInv m roots places) (isRoot : root ∈ roots)
    (user : UserVa va) (page : PageFlags flags) (allocated : Allocated m cell) (notTable : cell ∉ Tables m roots)
    (returned : pagingMapPageIn m root va cell flags = .ok m') :
    Mapped m m' roots root va (leafEntry cell flags) ∧
      Redirected m m' roots places (insert (root, va / pageSize) places) (root, va / pageSize) (some cell) ∧
      ((pageView m' (insert (root, va / pageSize) places)).writable (root, va / pageSize) ↔
        entryWritable flags = true) := by
  have map := pagingMapPageIn_spec inv.tables isRoot user page.present returned
  have address := allocated.entryAddr_leaf page
  have step := inv.mapped isRoot user map (by rw [address]; exact allocated) (by rw [address]; exact notTable)
  rw [address, entryWritable_leaf] at step
  exact ⟨map, step⟩

/-- A frame that was free is marked used. -/
theorem DataInv.markUsed (inv : DataInv m roots places) {frame : Nat} (nonzero : frame ≠ 0)
    (free : m.phys.Free frame) :
    DataInv { m with phys := m.phys.markUsed frame } roots places ∧
      Allocated { m with phys := m.phys.markUsed frame } (frame * pageSize) := by
  constructor
  · refine inv.withPhys (markUsed_total _ _) ?_
    intro query used _
    rw [markUsed_used, used]
    simp
  · refine ⟨by simp [pageSize], by simp [pageSize, nonzero], ?_, ?_⟩
    · rw [page_div]
      exact free.1
    · rw [page_div, markUsed_used, if_pos rfl]

/-- A place gets a frame that was free before. -/
structure FreshPage (m m' : Machine) (roots : Set Nat) (places : Finset Place) (root va frame : Nat) (flags : Word) :
    Prop where
  nonzero : frame ≠ 0
  free : m.phys.Free frame
  mapped : Mapped { m with phys := m.phys.markUsed frame } m' roots root va (leafEntry (frame * pageSize) flags)
  step : Redirected m m' roots places (insert (root, va / pageSize) places) (root, va / pageSize)
    (some (frame * pageSize))
  writable : (pageView m' (insert (root, va / pageSize) places)).writable (root, va / pageSize) ↔
    entryWritable flags = true
  pageframe : m'.phys.pageframes frame = ⟨1, frameUsed⟩
  contents : m'.ram (frame * pageSize) = m.ram (frame * pageSize)

/-- A frame that a growth took is the frame of a table. -/
theorem Grown.taken (grown : Grown m m' roots) {frame : Nat} (used : m'.phys.used frame = true) :
    m.phys.used frame = true ∨ TableFrame m' roots frame := by
  by_cases table : TableFrame m' roots frame
  · exact Or.inr table
  · left
    rw [← (grown.kept frame fun owner owned _ same => table ⟨owner, owned, same⟩).1]
    exact used

theorem DataInv.freshPage {root va frame : Nat} {flags : Word} (inv : DataInv m roots places) (isRoot : root ∈ roots)
    (user : UserVa va) (page : PageFlags flags) (nonzero : frame ≠ 0) (free : m.phys.Free frame)
    (returned : pagingMapPageIn { m with phys := m.phys.markUsed frame } root va (frame * pageSize) flags = .ok m') :
    FreshPage m m' roots places root va frame flags := by
  obtain ⟨inv', allocated⟩ := inv.markUsed nonzero free
  have notTable : frame * pageSize ∉ Tables m roots := inv.free_notTable free
  obtain ⟨map, step, writable⟩ := inv'.map_cell isRoot user page allocated notTable returned
  obtain ⟨_, _, contents, frames⟩ := step.cells _ allocated notTable
  refine ⟨nonzero, free, map, ⟨step.inv, ⟨step.redirects.1, step.redirects.2⟩, ?_, step.writable⟩, writable, ?_,
    contents⟩
  · intro cell allocated' notTable'
    have apart : cell / pageSize ≠ frame := by
      intro same
      have used := allocated'.used
      rw [same, free.2] at used
      exact Bool.false_ne_true used
    have marked : Allocated { m with phys := m.phys.markUsed frame } cell := by
      refine ⟨allocated'.aligned, allocated'.nonzero, allocated'.inside, ?_⟩
      rw [markUsed_used, if_neg apart]
      exact allocated'.used
    obtain ⟨kept, outside, ram, pageframe⟩ := step.cells cell marked notTable'
    refine ⟨kept, outside, ram, pageframe.trans ?_⟩
    rw [markUsed_pageframes, if_neg apart]
  · rw [page_div] at frames
    rw [frames, markUsed_pageframes, if_pos rfl]

/-- A place loses its frame. The frame is counted down, and it is released with its last reference. -/
structure DroppedPage (m m' : Machine) (roots : Set Nat) (places : Finset Place) (root va cell : Nat) : Prop where
  cleared : Cleared { m with phys := dropFrame m.phys cell } m' roots root va
  inv : DataInv m' roots places
  redirects : (pageView m places).Redirects (pageView m' places) (root, va / pageSize) none
  cells : ∀ other, other ≠ cell → Allocated m other → other ∉ Tables m roots → Allocated m' other ∧
    other ∉ Tables m' roots ∧ m'.ram other = m.ram other ∧
    m'.phys.pageframes (other / pageSize) = m.phys.pageframes (other / pageSize)
  writable : ∀ other ∈ places, other ≠ (root, va / pageSize) →
    ((pageView m' places).writable other ↔ (pageView m places).writable other)
  contents : m'.ram cell = m.ram cell
  counted : 1 < (pageView m places).rc cell → Allocated m' cell ∧
    (pageView m' places).rc cell = (pageView m places).rc cell - 1
  released : (pageView m places).rc cell ≤ 1 → m'.phys.used (cell / pageSize) = false ∧
    m'.phys.pageframes (cell / pageSize) = ⟨0, frameFree⟩
  taken : ∀ frame, m'.phys.used frame = true → m.phys.used frame = true

/-- A release of tables takes no frame. -/
theorem Cleared.taken {root va : Nat} (cleared : Cleared m m' roots root va) {frame : Nat}
    (used : m'.phys.used frame = true) : m.phys.used frame = true := by
  by_cases gone : ∃ table ∈ Tables m roots, table ∉ Tables m' roots ∧ table / pageSize = frame
  · obtain ⟨table, owned, lost, same⟩ := gone
    have released := (cleared.gone table owned lost).1
    rw [same, used] at released
    exact absurd released.symm Bool.false_ne_true
  · push Not at gone
    rw [← (cleared.kept frame gone).1]
    exact used

/-- Dropping a data frame keeps the table invariant. -/
theorem DataInv.dropTables (inv : DataInv m roots places) {cell : Nat} (allocated : Allocated m cell)
    (notTable : cell ∉ Tables m roots) : TableInv { m with phys := dropFrame m.phys cell } roots := by
  refine inv.tables.withPhys (dropFrame_other allocated.aligned allocated.inside 0).1 ?_ ?_
  · have notZero : 0 ≠ cell / pageSize := by
      intro zero
      have aligned := allocated.aligned
      have nonzero := allocated.nonzero
      simp only [pageSize] at aligned zero
      omega
    rw [((dropFrame_other allocated.aligned allocated.inside 0).2 notZero).1]
    exact inv.tables.zeroUsed
  · intro table owned
    have apart : table / pageSize ≠ cell / pageSize := by
      intro same
      have sameFrame := frameNumber_inj (inv.tables.allocated table owned).aligned allocated.aligned same
      exact notTable (sameFrame ▸ owned)
    exact ((dropFrame_other allocated.aligned allocated.inside _).2 apart).1

theorem DataInv.dropPage {root va cell : Nat} (inv : DataInv m roots places) (allocated : Allocated m cell)
    (notTable : cell ∉ Tables m roots) (tracked : (pageView m places).map (root, va / pageSize) = some cell)
    (sole : (pageView m places).rc cell ≤ 1 → (pageView m places).count cell ≤ 1)
    (cleared : Cleared { m with phys := dropFrame m.phys cell } m' roots root va) :
    DroppedPage m m' roots places root va cell := by
  have invTables := inv.dropTables allocated notTable
  have other (query : Nat) := dropFrame_other allocated.aligned allocated.inside query
  have keep : ∀ page, page ≠ cell → Allocated m page → Allocated { m with phys := dropFrame m.phys cell } page := by
    intro page different allocated'
    have apart : page / pageSize ≠ cell / pageSize := fun same =>
      different (frameNumber_inj allocated'.aligned allocated.aligned same)
    refine ⟨allocated'.aligned, allocated'.nonzero, ?_, ?_⟩
    · rw [(other 0).1]
      exact allocated'.inside
    · rw [((other _).2 apart).1]
      exact allocated'.used
  have counted : 1 < (pageView m places).rc cell → Allocated { m with phys := dropFrame m.phys cell } cell := by
    intro several
    refine ⟨allocated.aligned, allocated.nonzero, ?_, ?_⟩
    · rw [(other 0).1]
      exact allocated.inside
    · rw [dropFrame_more allocated.inside several, setFrame_used]
      exact allocated.used
  have leafInv : DataInv { m with phys := dropFrame m.phys cell } roots (places.erase (root, va / pageSize)) := by
    refine ⟨invTables, fun place member => inv.within place (Finset.mem_of_mem_erase member), ?_⟩
    intro place page mapped
    obtain ⟨member, entry⟩ := pageView_map.mp mapped
    have mapped' : (pageView m places).map place = some page :=
      pageView_map.mpr ⟨Finset.mem_of_mem_erase member, entry⟩
    obtain ⟨allocated', notTable'⟩ := inv.data place page mapped'
    refine ⟨?_, notTable'⟩
    by_cases same : page = cell
    · rw [same]
      rw [same] at mapped'
      apply counted
      by_contra few
      have single := sole (by omega)
      exact Finset.ne_of_mem_erase member (Sharing.eq_of_count_le_one single mapped' tracked)
    · exact keep page same allocated'
  have step := leafInv.unmapped cleared.inv cleared.leaf fun page allocated' notTable' =>
    cleared.cells invTables allocated' notTable'
  have erased : ∀ place, place ≠ (root, va / pageSize) →
      (pageView m' places).map place = (pageView m places).map place := by
    intro place different
    have same := step.redirects.2 place different
    by_cases member : place ∈ places
    · simpa [pageView, member, different] using same
    · simp [pageView, member]
  have gone : (pageView m' places).map (root, va / pageSize) = none := by
    obtain ⟨member, _⟩ := pageView_map.mp tracked
    obtain ⟨isRoot, small⟩ := inv.within _ member
    have absent : m'.findPte root (va / pageSize * pageSize) = none := by
      rw [cleared.leaf root isRoot _ (userVa_page small), if_pos ⟨rfl, page_div _⟩]
    simp [pageView, absent]
  refine ⟨cleared, ⟨cleared.inv, inv.within, ?_⟩, ⟨gone, erased⟩, ?_, ?_, ?_, ?_, ?_, ?_⟩
  · intro place page mapped
    by_cases same : place = (root, va / pageSize)
    · rw [same, gone] at mapped
      cases mapped
    · apply step.inv.data place page
      obtain ⟨member, entry⟩ := pageView_map.mp mapped
      exact pageView_map.mpr ⟨Finset.mem_erase.mpr ⟨same, member⟩, entry⟩
  · intro page different allocated' notTable'
    have apart : page / pageSize ≠ cell / pageSize := fun same =>
      different (frameNumber_inj allocated'.aligned allocated.aligned same)
    obtain ⟨kept, outside, ram, frame⟩ := cleared.cells invTables (keep page different allocated') notTable'
    exact ⟨kept, outside, ram, frame.trans ((other _).2 apart).2⟩
  · intro place member different
    have shown := step.writable place (Finset.mem_erase.mpr ⟨different, member⟩) different
    exact shown
  · exact cleared.ram cell notTable
  · intro several
    obtain ⟨kept, _, _, frame⟩ := cleared.cells invTables (counted several) notTable
    refine ⟨kept, ?_⟩
    change (m'.phys.pageframes (cell / pageSize)).rc = _
    rw [frame]
    change ((dropFrame m.phys cell).pageframes (cell / pageSize)).rc = _
    rw [dropFrame_more allocated.inside several, setFrame_pageframes, if_pos rfl]
    rfl
  · intro few
    obtain ⟨_, used, frame⟩ := dropFrame_last allocated.aligned allocated.inside few (cell / pageSize)
    rw [if_pos rfl] at used frame
    have apart : ∀ table ∈ Tables { m with phys := dropFrame m.phys cell } roots, table ∉ Tables m' roots →
        table / pageSize ≠ cell / pageSize := by
      intro table owned _ same
      have sameFrame := frameNumber_inj (invTables.allocated table owned).aligned allocated.aligned same
      exact notTable (sameFrame ▸ owned)
    obtain ⟨sameUsed, sameFrame⟩ := cleared.kept _ apart
    exact ⟨sameUsed.trans used, sameFrame.trans frame⟩
  · intro frame used
    have before : (dropFrame m.phys cell).used frame = true := cleared.taken used
    by_cases here : frame = cell / pageSize
    · rw [here]
      exact allocated.used
    · rw [← ((other frame).2 here).1]
      exact before

/-- The tracking tables after a frame was shared: one more reference and two more flags. -/
theorem share_phys {cell : Nat} (allocated : Allocated m cell) (query : Nat) :
    let p := physmemFrameRcInc m.phys cell
    let p := physmemFrameFlagsSet p cell (physmemFrameFlagsGet p cell ||| frameCow ||| frameShared)
    p.total = m.phys.total ∧ p.used query = m.phys.used query ∧
      (query ≠ cell / pageSize → p.pageframes query = m.phys.pageframes query) ∧
      (p.pageframes (cell / pageSize)).rc = wrap32 ((m.phys.pageframes (cell / pageSize)).rc + 1) := by
  have notBeyond : ¬cell / pageSize ≥ m.phys.total := by
    have inside := allocated.inside
    omega
  have increment : physmemFrameRcInc m.phys cell = m.phys.setFrame (cell / pageSize)
      { m.phys.pageframes (cell / pageSize) with
        rc := wrap32 ((m.phys.pageframes (cell / pageSize)).rc + 1) } := by
    simp [physmemFrameRcInc, notBeyond]
  simp only [increment, physmemFrameFlagsSet, physmemFrameFlagsGet, setFrame_total, notBeyond, if_false, setFrame_used,
    setFrame_pageframes, if_true, true_and, and_true]
  intro different
  simp [different]

/-- A second place refers to the frame of the first one, and both are mapped with their own flags. -/
structure SharedPage (m m' : Machine) (roots : Set Nat) (places : Finset Place) (src dst va cell : Nat)
    (srcFlags dstFlags : Word) : Prop where
  inv : DataInv m' roots places
  redirects : (pageView m places).Redirects (pageView m' places) (dst, va / pageSize) (some cell)
  cells : ∀ other, Allocated m other → other ∉ Tables m roots → Allocated m' other ∧ other ∉ Tables m' roots ∧
    m'.ram other = m.ram other ∧ (other ≠ cell →
      m'.phys.pageframes (other / pageSize) = m.phys.pageframes (other / pageSize))
  rc : (pageView m' places).rc cell = wrap32 ((pageView m places).rc cell + 1)
  writable : ∀ other ∈ places, other ≠ (src, va / pageSize) → other ≠ (dst, va / pageSize) →
    ((pageView m' places).writable other ↔ (pageView m places).writable other)
  srcWritable : (pageView m' places).writable (src, va / pageSize) ↔ entryWritable srcFlags = true
  dstWritable : (pageView m' places).writable (dst, va / pageSize) ↔ entryWritable dstFlags = true
  taken : ∀ frame, m'.phys.used frame = true → m.phys.used frame = true ∨ TableFrame m' roots frame

theorem DataInv.sharePage {src dst va cell : Nat} {srcFlags dstFlags : Word} {m₁ : Machine}
    (inv : DataInv m roots places) (user : UserVa va) (different : src ≠ dst)
    (mapped : (pageView m places).map (src, va / pageSize) = some cell) (dstTracked : (dst, va / pageSize) ∈ places)
    (srcPage : PageFlags srcFlags) (dstPage : PageFlags dstFlags)
    (dstMap : (let p := physmemFrameRcInc m.phys cell
      let p := physmemFrameFlagsSet p cell (physmemFrameFlagsGet p cell ||| frameCow ||| frameShared)
      pagingMapPageIn { m with phys := p } dst va cell dstFlags) = .ok m₁)
    (srcMap : pagingMapPageIn m₁ src va cell srcFlags = .ok m') :
    SharedPage m m' roots places src dst va cell srcFlags dstFlags := by
  obtain ⟨allocated, notTable⟩ := inv.data _ _ mapped
  have shared (query : Nat) := share_phys allocated query
  simp only at shared dstMap
  generalize physmemFrameFlagsSet (physmemFrameRcInc m.phys cell) cell (physmemFrameFlagsGet
    (physmemFrameRcInc m.phys cell) cell ||| frameCow ||| frameShared) = p at shared dstMap
  have srcTracked := (pageView_map.mp mapped).1
  have inv₀ : DataInv { m with phys := p } roots places := by
    refine inv.withPhys (shared 0).1 ?_
    intro frame used _
    rw [(shared frame).2.1, used]
  have keep₀ : ∀ other, Allocated m other → Allocated { m with phys := p } other := by
    intro other held
    refine ⟨held.aligned, held.nonzero, ?_, ?_⟩
    · rw [(shared 0).1]
      exact held.inside
    · rw [(shared _).2.1]
      exact held.used
  obtain ⟨map₁, step₁, dstWritable⟩ := inv₀.map_cell (inv.within _ dstTracked).1 user dstPage (keep₀ cell allocated)
    notTable dstMap
  rw [Finset.insert_eq_self.mpr dstTracked] at step₁ dstWritable
  obtain ⟨allocated₁, notTable₁, _, _⟩ := step₁.cells cell (keep₀ cell allocated) notTable
  obtain ⟨map₂, step₂, srcWritable⟩ := step₁.inv.map_cell (inv.within _ srcTracked).1 user srcPage allocated₁ notTable₁
    srcMap
  rw [Finset.insert_eq_self.mpr srcTracked] at step₂ srcWritable
  have apart : (dst, va / pageSize) ≠ (src, va / pageSize) := fun same => different (Prod.mk.inj same).1.symm
  have view₁ : (pageView m₁ places).map (src, va / pageSize) = some cell :=
    (step₁.redirects.2 _ (Ne.symm apart)).trans mapped
  have cells : ∀ other, Allocated m other → other ∉ Tables m roots → Allocated m' other ∧ other ∉ Tables m' roots ∧
      m'.ram other = m.ram other ∧ m'.phys.pageframes (other / pageSize) = p.pageframes (other / pageSize) := by
    intro other held outside
    obtain ⟨held₁, outside₁, ram₁, frame₁⟩ := step₁.cells other (keep₀ other held) outside
    obtain ⟨held₂, outside₂, ram₂, frame₂⟩ := step₂.cells other held₁ outside₁
    exact ⟨held₂, outside₂, ram₂.trans ram₁, frame₂.trans frame₁⟩
  refine ⟨step₂.inv, ⟨?_, ?_⟩, ?_, ?_, ?_, srcWritable, ?_, ?_⟩
  · rw [step₂.redirects.2 _ apart]
    exact step₁.redirects.1
  · intro other notDst
    by_cases isSrc : other = (src, va / pageSize)
    · rw [isSrc, step₂.redirects.1, mapped]
    · rw [step₂.redirects.2 other isSrc, step₁.redirects.2 other notDst]
      rfl
  · intro other held outside
    obtain ⟨held', outside', ram, frame⟩ := cells other held outside
    refine ⟨held', outside', ram, fun notCell => ?_⟩
    have apart' : other / pageSize ≠ cell / pageSize := fun same =>
      notCell (frameNumber_inj held.aligned allocated.aligned same)
    rw [frame, (shared _).2.2.1 apart']
  · obtain ⟨_, _, _, frame⟩ := cells cell allocated notTable
    change (m'.phys.pageframes (cell / pageSize)).rc = _
    rw [frame]
    exact (shared 0).2.2.2
  · intro other tracked notSrc notDst
    rw [step₂.writable other tracked notSrc, step₁.writable other tracked notDst]
    rfl
  · rw [step₂.writable _ dstTracked apart]
    exact dstWritable
  · intro frame used
    rw [← (shared frame).2.1]
    exact (map₁.grown.trans map₂.grown).taken used

/-- The tracking tables after a break that found no other reference. -/
theorem breakSole_phys {cell : Nat} (inside : cell / pageSize < m.phys.total)
    (few : (m.phys.pageframes (cell / pageSize)).rc ≤ 1) (query : Nat) :
    (physmemFrameRcDecAndGet m.phys cell).1 = 0 ∧
      let p := physmemFrameFlagsSet (physmemFrameRcDecAndGet m.phys cell).2 cell frameUsed
      p.total = m.phys.total ∧ p.used query = m.phys.used query ∧
        (query ≠ cell / pageSize → p.pageframes query = m.phys.pageframes query) ∧
        (p.pageframes (cell / pageSize)).rc = 0 := by
  have notBeyond : ¬cell / pageSize ≥ m.phys.total := Nat.not_le_of_lt inside
  rcases Nat.eq_zero_or_pos (m.phys.pageframes (cell / pageSize)).rc with zero | held
  · have unchanged : physmemFrameRcDecAndGet m.phys cell = (0, m.phys) := by
      simp [physmemFrameRcDecAndGet, notBeyond, zero]
    simp only [unchanged, physmemFrameFlagsSet, notBeyond, if_false, setFrame_total, setFrame_used,
      setFrame_pageframes, if_true, zero, true_and, and_true]
    intro different
    simp [different]
  · have one : (m.phys.pageframes (cell / pageSize)).rc - 1 = 0 := by omega
    simp only [physmemFrameRcDecAndGet, notBeyond, if_false, gt_iff_lt, held, if_true, one, physmemFrameFlagsSet,
      setFrame_total, setFrame_used, setFrame_pageframes, true_and, and_true]
    intro different
    simp [different]

/-- A place keeps its frame and gets new flags; the frame is left without a counted reference. -/
structure BrokenSole (m m' : Machine) (roots : Set Nat) (places : Finset Place) (root va cell : Nat) (flags : Word) :
    Prop where
  inv : DataInv m' roots places
  redirects : (pageView m places).Redirects (pageView m' places) (root, va / pageSize) (some cell)
  cells : ∀ other, Allocated m other → other ∉ Tables m roots → Allocated m' other ∧ other ∉ Tables m' roots ∧
    m'.ram other = m.ram other ∧ (other ≠ cell →
      m'.phys.pageframes (other / pageSize) = m.phys.pageframes (other / pageSize))
  rc : (pageView m' places).rc cell = 0
  writable : ∀ other ∈ places, other ≠ (root, va / pageSize) →
    ((pageView m' places).writable other ↔ (pageView m places).writable other)
  hereWritable : (pageView m' places).writable (root, va / pageSize) ↔ entryWritable flags = true
  taken : ∀ frame, m'.phys.used frame = true → m.phys.used frame = true ∨ TableFrame m' roots frame

theorem DataInv.breakSole {root va cell : Nat} {flags : Word} (inv : DataInv m roots places) (user : UserVa va)
    (mapped : (pageView m places).map (root, va / pageSize) = some cell) (page : PageFlags flags)
    (few : (pageView m places).rc cell ≤ 1)
    (returned : pagingMapPageIn
      { m with phys := (physmemFrameFlagsSet (physmemFrameRcDecAndGet m.phys cell).2 cell frameUsed) }
      root va cell flags = .ok m') :
    BrokenSole m m' roots places root va cell flags := by
  obtain ⟨allocated, notTable⟩ := inv.data _ _ mapped
  have changed (query : Nat) := (breakSole_phys allocated.inside few query).2
  simp only at changed
  generalize physmemFrameFlagsSet (physmemFrameRcDecAndGet m.phys cell).2 cell frameUsed = p at changed returned
  have tracked := (pageView_map.mp mapped).1
  have inv₀ : DataInv { m with phys := p } roots places := by
    refine inv.withPhys (changed 0).1 ?_
    intro frame used _
    rw [(changed frame).2.1, used]
  have keep₀ : ∀ other, Allocated m other → Allocated { m with phys := p } other := by
    intro other held
    refine ⟨held.aligned, held.nonzero, ?_, ?_⟩
    · rw [(changed 0).1]
      exact held.inside
    · rw [(changed _).2.1]
      exact held.used
  obtain ⟨map, step, writable⟩ := inv₀.map_cell (inv.within _ tracked).1 user page (keep₀ cell allocated) notTable
    returned
  rw [Finset.insert_eq_self.mpr tracked] at step writable
  refine ⟨step.inv, ⟨step.redirects.1, step.redirects.2⟩, ?_, ?_, step.writable, writable, ?_⟩
  · intro other held outside
    obtain ⟨held', outside', ram, frame⟩ := step.cells other (keep₀ other held) outside
    refine ⟨held', outside', ram, fun notCell => frame.trans ?_⟩
    exact (changed _).2.2.1 fun same => notCell (frameNumber_inj held.aligned allocated.aligned same)
  · obtain ⟨_, _, _, frame⟩ := step.cells cell (keep₀ cell allocated) notTable
    change (m'.phys.pageframes (cell / pageSize)).rc = _
    rw [frame]
    exact (changed 0).2.2.2
  · intro frame used
    rw [← (changed frame).2.1]
    exact map.grown.taken used

/-- A place moves to a fresh copy of its frame, and the old frame loses one reference. -/
structure BrokenCopy (m m' : Machine) (roots : Set Nat) (places : Finset Place) (root va cell frame : Nat)
    (flags : Word) : Prop where
  inv : DataInv m' roots places
  free : m.phys.Free frame
  redirects : (pageView m places).Redirects (pageView m' places) (root, va / pageSize) (some (frame * pageSize))
  cells : ∀ other, Allocated m other → other ∉ Tables m roots → Allocated m' other ∧ other ∉ Tables m' roots ∧
    m'.ram other = m.ram other ∧ (other ≠ cell →
      m'.phys.pageframes (other / pageSize) = m.phys.pageframes (other / pageSize))
  oldRc : (pageView m' places).rc cell = (pageView m places).rc cell - 1
  newRc : (pageView m' places).rc (frame * pageSize) = 1
  contents : m'.ram (frame * pageSize) = m.ram cell
  writable : ∀ other ∈ places, other ≠ (root, va / pageSize) →
    ((pageView m' places).writable other ↔ (pageView m places).writable other)
  hereWritable : (pageView m' places).writable (root, va / pageSize) ↔ entryWritable flags = true
  taken : ∀ query, m'.phys.used query = true → m.phys.used query = true ∨ query = frame ∨ TableFrame m' roots query

/-- The machine with new contents in one page. -/
def Machine.setPage (m : Machine) (page : Nat) (contents : Fin 512 → Word) : Machine :=
  { m with ram := Function.update m.ram page contents }

/-- A store into a page that is no table moves no walk, no leaf entry and no data. -/
theorem DataInv.setPage (inv : DataInv m roots places) (contents : Fin 512 → Word) {target : Nat}
    (notTable : target ∉ Tables m roots) :
    DataInv (m.setPage target contents) roots places ∧ Tables (m.setPage target contents) roots = Tables m roots ∧
      ∀ root ∈ roots, ∀ va, UserVa va → (m.setPage target contents).findPte root va = m.findPte root va := by
  have ram : ∀ page, page ≠ target → (m.setPage target contents).ram page = m.ram page := by
    intro page different
    simp [Machine.setPage, different]
  obtain ⟨walks, tables⟩ : (∀ root ∈ roots, ∀ path, userPaths.holds path →
      walk (m.setPage target contents).child root path = walk m.child root path) ∧
        Tables (m.setPage target contents) roots = Tables m roots := by
    apply tables_congr
    intro table owned path index _ _
    simp only [Machine.child, ram table fun same => notTable (same ▸ owned)]
  have leaf : ∀ root ∈ roots, ∀ va, UserVa va → (m.setPage target contents).findPte root va = m.findPte root va := by
    intro root isRoot va user
    rw [findPte_eq, findPte_eq, walks root isRoot _ (tablePath_user user)]
    cases reached : walk m.child root (tablePath va) with
    | none => rfl
    | some pt =>
        have owned : pt ∈ Tables m roots := mem_nodes isRoot (tablePath_user user) reached
        simp only [Option.bind_some, ram pt fun same => notTable (same ▸ owned)]
  refine ⟨⟨⟨inv.tables.forest.congr walks, ?_, inv.tables.zeroUsed⟩, inv.within, ?_⟩, tables, leaf⟩
  · intro table owned
    rw [tables] at owned
    obtain ⟨aligned, nonzero, inside, used⟩ := inv.tables.allocated table owned
    exact ⟨aligned, nonzero, inside, used⟩
  · intro place cell mapped
    obtain ⟨tracked, entry, found, address⟩ := pageView_map.mp mapped
    obtain ⟨isRoot, small⟩ := inv.within place tracked
    rw [leaf place.1 isRoot _ (userVa_page small)] at found
    obtain ⟨⟨aligned, nonzero, inside, used⟩, outside⟩ :=
      inv.data place cell (pageView_map.mpr ⟨tracked, entry, found, address⟩)
    exact ⟨⟨aligned, nonzero, inside, used⟩, by rw [tables]; exact outside⟩

/-- The tracking tables after a break that took the free frame `frame`. -/
theorem breakCopy_phys {cell frame : Nat} (inside : cell / pageSize < m.phys.total)
    (taken : m.phys.used (cell / pageSize) = true) (free : m.phys.Free frame)
    (several : 1 < (m.phys.pageframes (cell / pageSize)).rc) (query : Nat) :
    (physmemFrameRcDecAndGet m.phys cell).1 = (m.phys.pageframes (cell / pageSize)).rc - 1 ∧
      let p := physmemFrameFlagsSet ((physmemFrameRcDecAndGet m.phys cell).2.markUsed frame) (frame * pageSize) frameUsed
      p.total = m.phys.total ∧ p.used query = (if query = frame then true else m.phys.used query) ∧
        (query ≠ cell / pageSize → query ≠ frame → p.pageframes query = m.phys.pageframes query) ∧
        (p.pageframes (cell / pageSize)).rc = (m.phys.pageframes (cell / pageSize)).rc - 1 ∧
        p.pageframes frame = ⟨1, frameUsed⟩ := by
  have notBeyond : ¬cell / pageSize ≥ m.phys.total := Nat.not_le_of_lt inside
  have notBeyond' : ¬frame ≥ m.phys.total := by
    have inside := free.1
    omega
  have held : (m.phys.pageframes (cell / pageSize)).rc > 0 := by omega
  have apart : cell / pageSize ≠ frame := by
    intro same
    rw [same, free.2] at taken
    exact Bool.false_ne_true taken
  simp only [physmemFrameRcDecAndGet, notBeyond, notBeyond', if_false, held, if_true, physmemFrameFlagsSet,
    setFrame_total, setFrame_used, setFrame_pageframes, markUsed_total, markUsed_used, markUsed_pageframes, page_div,
    apart, true_and, and_true]
  intro notCell notFrame
  simp [notCell, notFrame]

theorem DataInv.breakCopy {root va cell frame : Nat} {flags : Word} (inv : DataInv m roots places) (user : UserVa va)
    (mapped : (pageView m places).map (root, va / pageSize) = some cell) (page : PageFlags flags)
    (several : 1 < (pageView m places).rc cell) (nonzero : frame ≠ 0) (free : m.phys.Free frame)
    (returned : (let p := (physmemFrameRcDecAndGet m.phys cell).2.markUsed frame
      let m₁ := ({ m with phys := p } : Machine).copyPage (frame * pageSize) cell
      pagingMapPageIn { m₁ with phys := physmemFrameFlagsSet m₁.phys (frame * pageSize) frameUsed } root va
        (frame * pageSize) flags) = .ok m') :
    BrokenCopy m m' roots places root va cell frame flags := by
  obtain ⟨allocated, notTable⟩ := inv.data _ _ mapped
  have changed (query : Nat) := (breakCopy_phys allocated.inside allocated.used free several query).2
  simp only [Machine.copyPage] at changed returned
  generalize physmemFrameFlagsSet ((physmemFrameRcDecAndGet m.phys cell).2.markUsed frame) (frame * pageSize)
    frameUsed = p at changed returned
  have fresh : frame * pageSize ∉ Tables m roots := inv.free_notTable free
  obtain ⟨inv₀, tables₀, leaf₀⟩ := inv.setPage (m.ram cell) fresh
  have tracked := (pageView_map.mp mapped).1
  have inv₁ : DataInv { m.setPage (frame * pageSize) (m.ram cell) with phys := p } roots places := by
    refine inv₀.withPhys (changed 0).1 ?_
    intro query used _
    rw [(changed query).2.1]
    have used' : m.phys.used query = true := used
    rw [used']
    simp
  have keep : ∀ other, Allocated m other →
      Allocated { m.setPage (frame * pageSize) (m.ram cell) with phys := p } other := by
    intro other held
    refine ⟨held.aligned, held.nonzero, ?_, ?_⟩
    · rw [(changed 0).1]
      exact held.inside
    · rw [(changed _).2.1, held.used]
      simp
  have new : Allocated { m.setPage (frame * pageSize) (m.ram cell) with phys := p } (frame * pageSize) := by
    refine ⟨by simp [pageSize], by simp [pageSize, nonzero], ?_, ?_⟩
    · rw [page_div, (changed 0).1]
      exact free.1
    · rw [page_div, (changed _).2.1, if_pos rfl]
  have newNotTable : frame * pageSize ∉ Tables { m.setPage (frame * pageSize) (m.ram cell) with phys := p } roots := by
    have same : Tables { m.setPage (frame * pageSize) (m.ram cell) with phys := p } roots = Tables m roots := tables₀
    rw [same]
    exact fresh
  obtain ⟨map, step, writable⟩ := inv₁.map_cell (inv.within _ tracked).1 user page new newNotTable returned
  rw [Finset.insert_eq_self.mpr tracked] at step writable
  have apart : ∀ other, Allocated m other → other / pageSize ≠ frame ∧ other ≠ frame * pageSize := by
    intro other held
    have different : other / pageSize ≠ frame := by
      intro same
      have used := held.used
      rw [same, free.2] at used
      exact Bool.false_ne_true used
    exact ⟨different, fun same => different (by rw [same, page_div])⟩
  have cells : ∀ other, Allocated m other → other ∉ Tables m roots → Allocated m' other ∧ other ∉ Tables m' roots ∧
      m'.ram other = m.ram other ∧ m'.phys.pageframes (other / pageSize) = p.pageframes (other / pageSize) := by
    intro other held outside
    have outside' : other ∉ Tables { m.setPage (frame * pageSize) (m.ram cell) with phys := p } roots := by
      have same : Tables { m.setPage (frame * pageSize) (m.ram cell) with phys := p } roots = Tables m roots := tables₀
      rw [same]
      exact outside
    obtain ⟨held', outside'', ram, frames⟩ := step.cells other (keep other held) outside'
    refine ⟨held', outside'', ram.trans ?_, frames⟩
    simp [Machine.setPage, (apart other held).2]
  obtain ⟨_, _, newRam, newFrame⟩ := step.cells _ new newNotTable
  refine ⟨step.inv, free, ⟨step.redirects.1, ?_⟩, ?_, ?_, ?_, ?_, ?_, writable, ?_⟩
  · intro other different
    rw [step.redirects.2 other different]
    by_cases member : other ∈ places
    · obtain ⟨isRoot, small⟩ := inv.within other member
      simp [pageView, member, leaf₀ other.1 isRoot _ (userVa_page small)]
    · simp [pageView, member]
  · intro other held outside
    obtain ⟨held', outside', ram, frames⟩ := cells other held outside
    refine ⟨held', outside', ram, fun notCell => frames.trans ?_⟩
    exact (changed _).2.2.1 (fun same => notCell (frameNumber_inj held.aligned allocated.aligned same))
      (apart other held).1
  · obtain ⟨_, _, _, frames⟩ := cells cell allocated notTable
    change (m'.phys.pageframes (cell / pageSize)).rc = _
    rw [frames]
    exact (changed 0).2.2.2.1
  · change (m'.phys.pageframes (frame * pageSize / pageSize)).rc = 1
    rw [newFrame, page_div, (changed 0).2.2.2.2]
  · rw [newRam]
    simp [Machine.setPage]
  · intro other member different
    rw [step.writable other member different]
    obtain ⟨isRoot, small⟩ := inv.within other member
    simp [pageView, leaf₀ other.1 isRoot _ (userVa_page small)]
  · intro query used
    rcases map.grown.taken used with old | table
    · rw [(changed query).2.1] at old
      by_cases same : query = frame
      · exact Or.inr (Or.inl same)
      · rw [if_neg same] at old
        exact Or.inl old
    · exact Or.inr (Or.inr table)

end

end DoccrOS.Mem
