import DoccrOS.Proof.Mem.Boot
import DoccrOS.Proof.Mem.CowCalls
import DoccrOS.Proof.Mem.CowFaults
import DoccrOS.Proof.Mem.KernelHalf
import DoccrOS.Proof.Mem.OccupiedTables
import DoccrOS.Proof.Mem.PhysMemRuns
import DoccrOS.Proof.Mem.UserMemory

namespace DoccrOS.Mem
open Lib.Radix Lib

/-- The page tables are a tree of used frames without empty tables, the tables of the kernel half are used frames of their
own, and the records of the free frames are reset. -/
structure WellFormed (m : Machine) (roots : Set Nat) : Prop where
  tables : TableInv m roots
  occupied : AllOccupied m roots
  kernel : KernelApart m roots
  resets : m.phys.Resets

/-- The regions of a well-formed space hold whole pages, and its counters are 64-bit values. -/
structure WellFormedSpace (m : Machine) (roots : Set Nat) (space : Space) : Prop extends WellFormed m roots where
  isRoot : space.pml4Phys ∈ roots
  paged : ∀ region ∈ space.regions, region.base % pageSize = 0 ∧ pageSize ≤ region.size
  counts : space.regionCount < 2 ^ 64 ∧ space.usedVirtual < 2 ^ 64

/-- Every frame record and every translation of every root is that of the earlier machine. -/
structure Restored (m m' : Machine) (roots : Set Nat) : Prop where
  frames : ∀ frame, m'.phys.used frame = m.phys.used frame ∧ m'.phys.pageframes frame = m.phys.pageframes frame
  translation : ∀ root ∈ roots, ∀ va, m'.findPte root va = m.findPte root va

/-- New tables and the frames of `data` were free, and everything else is kept. -/
structure Extended (m m' : Machine) (roots data : Set Nat) : Prop where
  walks : ∀ root ∈ roots, ∀ path table, userPaths.holds path → walk m.child root path = some table →
    walk m'.child root path = some table
  fresh : ∀ table ∈ Tables m' roots, table ∉ Tables m roots → m.phys.Free (table / pageSize)
  taken : ∀ frame ∈ data, m.phys.Free frame
  kept : ∀ frame ∉ data, (∀ table ∈ Tables m' roots, table ∉ Tables m roots → table / pageSize ≠ frame) →
    m'.phys.used frame = m.phys.used frame ∧ m'.phys.pageframes frame = m.phys.pageframes frame
  ram : ∀ page, page ∉ Tables m' roots → m'.ram page = m.ram page
  kernelHalf : ∀ root ∈ roots, ∀ index : Fin 512, 256 ≤ index.val → m'.ram root index = m.ram root index
  occupied : AllOccupied m roots → AllOccupied m' roots

/-- Tables that are gone and the frames of `data` are released, and everything else is kept. -/
structure Withdrawn (m m' : Machine) (roots data : Set Nat) : Prop where
  inv : TableInv m' roots
  walks : ∀ root ∈ roots, ∀ path table, userPaths.holds path → walk m'.child root path = some table →
    walk m.child root path = some table
  gone : ∀ table ∈ Tables m roots, table ∉ Tables m' roots → m'.phys.used (table / pageSize) = false ∧
    m'.phys.pageframes (table / pageSize) = ⟨0, frameFree⟩
  dropped : ∀ frame ∈ data, m'.phys.used frame = false ∧ m'.phys.pageframes frame = ⟨0, frameFree⟩
  kept : ∀ frame ∉ data, (∀ table ∈ Tables m roots, table ∉ Tables m' roots → table / pageSize ≠ frame) →
    m'.phys.used frame = m.phys.used frame ∧ m'.phys.pageframes frame = m.phys.pageframes frame
  ram : ∀ page, page ∉ Tables m roots → m'.ram page = m.ram page
  kernelHalf : ∀ root ∈ roots, ∀ index : Fin 512, 256 ≤ index.val → m'.ram root index = m.ram root index
  occupied : AllOccupied m roots → AllOccupied m' roots

section
variable {m middle m' : Machine} {roots data : Set Nat} {root base count : Nat} {flags : Word} {frames : Nat → Nat}

/-- What was added and then withdrawn leaves no trace: without empty tables the added tables are the withdrawn ones. -/
theorem Extended.restored (extended : Extended m middle roots data) (withdrawn : Withdrawn middle m' roots data)
    (well : WellFormed m roots) (leaf : ∀ root ∈ roots, ∀ va, UserVa va → m'.findPte root va = m.findPte root va) :
    Restored m m' roots := by
  have walks := walks_restored well.tables withdrawn.inv well.occupied (withdrawn.occupied (extended.occupied well.occupied))
    extended.walks withdrawn.walks leaf
  have sameTables : Tables m' roots = Tables m roots := nodes_congr walks
  have released (frame : Nat) (free : m.phys.Free frame)
      (reset : m'.phys.used frame = false ∧ m'.phys.pageframes frame = ⟨0, frameFree⟩) :
      m'.phys.used frame = m.phys.used frame ∧ m'.phys.pageframes frame = m.phys.pageframes frame := by
    rw [reset.1, reset.2, free.2, well.resets frame free]
    exact ⟨rfl, rfl⟩
  constructor
  · intro frame
    by_cases isData : frame ∈ data
    · exact released frame (extended.taken frame isData) (withdrawn.dropped frame isData)
    by_cases new : ∃ table ∈ Tables middle roots, table ∉ Tables m roots ∧ table / pageSize = frame
    · obtain ⟨table, owned, notOld, rfl⟩ := new
      exact released _ (extended.fresh table owned notOld) (withdrawn.gone table owned (sameTables ▸ notOld))
    · have apart : ∀ table ∈ Tables middle roots, table ∉ Tables m roots → table / pageSize ≠ frame :=
        fun table owned notOld same => new ⟨table, owned, notOld, same⟩
      obtain ⟨used, record⟩ := extended.kept frame isData apart
      obtain ⟨used', record'⟩ := withdrawn.kept frame isData (sameTables ▸ apart)
      exact ⟨used'.trans used, record'.trans record⟩
  · intro root isRoot va
    by_cases high : KernelVa va
    · apply well.kernel.findPte isRoot high
      · intro index upper
        exact (withdrawn.kernelHalf root isRoot index upper).trans (extended.kernelHalf root isRoot index upper)
      · intro page notOld notFree
        have notNew : page ∉ Tables middle roots := fun owned => notFree (extended.fresh page owned notOld)
        exact (withdrawn.ram page notNew).trans (extended.ram page notNew)
    · obtain ⟨user, same⟩ := findPte_canonical m root high
      rw [← same, ← leaf root isRoot _ user]
      exact (findPte_canonical m' root high).2.symm

/-- A range that maps nothing before and nothing after keeps its translations. -/
theorem leaf_restored (user : UserRange base count)
    (absent : ∀ i, i < count → m.findPte root (base + i * pageSize) = none)
    (filled : ∀ root' ∈ roots, ∀ va, UserVa va → ¬(root' = root ∧ InRange base count va) →
      middle.findPte root' va = m.findPte root' va)
    (cleared : ∀ root' ∈ roots, ∀ va, UserVa va → m'.findPte root' va =
      if root' = root ∧ InRange base count va then none else middle.findPte root' va) :
    ∀ root' ∈ roots, ∀ va, UserVa va → m'.findPte root' va = m.findPte root' va := by
  intro root' isRoot va userVa
  rw [cleared root' isRoot va userVa]
  by_cases here : root' = root ∧ InRange base count va
  · obtain ⟨rfl, least, below⟩ := here
    have none := absent (va / pageSize - base / pageSize) (by omega)
    have number : base + (va / pageSize - base / pageSize) * pageSize = va / pageSize * pageSize := by
      have aligned := user.aligned
      simp only [pageSize] at aligned least ⊢
      omega
    rw [number, findPte_align] at none
    rw [if_pos ⟨rfl, least, below⟩, none]
  · rw [if_neg here]
    exact filled root' isRoot va userVa here

/-- A fresh frame of the range is dropped exactly at its own page. -/
theorem AllocatedRange.dropsFrame (range : AllocatedRange m middle roots root base count flags frames)
    (page : PageFlags flags) (isRoot : root ∈ roots) (user : UserRange base count) (frame : Nat) {i : Nat} (inside : i < count) :
    dropsFrame middle root base false frame i = decide (frames i = frame) := by
  rw [Mem.dropsFrame, range.mapped isRoot user inside, Option.any_some, (range.frame page inside).2, page_div]
  rfl

theorem AllocatedRange.dropCount (range : AllocatedRange m middle roots root base count flags frames)
    (page : PageFlags flags) (isRoot : root ∈ roots) (user : UserRange base count) (frame : Nat) :
    dropCount middle root base false frame count = ((Finset.range count).filter fun i => frames i = frame).card := by
  rw [dropCount_eq]
  congr 1
  apply Finset.filter_congr
  intro i member
  rw [range.dropsFrame page isRoot user frame (Finset.mem_range.mp member), decide_eq_true_iff]

/-- The frames that an allocation took for the pages of its range. -/
def dataFrames (count : Nat) (frames : Nat → Nat) : Set Nat := {frame | ∃ i, i < count ∧ frames i = frame}

theorem AllocatedRange.extended (range : AllocatedRange m middle roots root base count flags frames) :
    Extended m middle roots (dataFrames count frames) where
  walks := range.walks
  fresh table owned notOld := (range.fresh table owned notOld).1
  taken frame isData := by
    obtain ⟨i, inside, rfl⟩ := isData
    exact (range.free i inside).2
  kept frame notData apart := range.kept frame apart fun i inside same => notData ⟨i, inside, same⟩
  ram := range.ram
  kernelHalf := range.kernelHalf
  occupied := range.occupied

/-- The release of an allocated range drops every fresh frame once. -/
theorem AllocatedRange.withdrawn (range : AllocatedRange m middle roots root base count flags frames)
    (page : PageFlags flags) (isRoot : root ∈ roots) (user : UserRange base count)
    (freed : FreedRange middle m' roots root base count false) : Withdrawn middle m' roots (dataFrames count frames) where
  inv := freed.inv
  walks := freed.walks
  gone := freed.gone
  dropped frame isData := by
    obtain ⟨i, inside, rfl⟩ := isData
    have notTable (table : Nat) (owned : table ∈ Tables middle roots) : table / pageSize ≠ frames i := by
      intro same
      have aligned := (range.tables.allocated table owned).aligned
      have address := frameNumber_inj aligned (show frames i * pageSize % pageSize = 0 by simp [pageSize])
        (same.trans (page_div _).symm)
      exact (range.taken i inside).2.2 (address ▸ owned)
    have drops := freed.frames (frames i) fun table owned _ => notTable table owned
    have one : ((Finset.range count).filter fun j => frames j = frames i) = {i} := by
      ext j
      rw [Finset.mem_filter, Finset.mem_range, Finset.mem_singleton]
      constructor
      · rintro ⟨bound, same⟩
        exact range.distinct j i bound inside same
      · rintro rfl
        exact ⟨inside, rfl⟩
    rw [range.dropCount page isRoot user (frames i), one, Finset.card_singleton, Dropped, if_neg one_ne_zero,
      (range.taken i inside).2.1, if_neg (lt_irrefl 1)] at drops
    exact drops
  kept frame notData apart := by
    have drops := freed.frames frame apart
    have none : ((Finset.range count).filter fun i => frames i = frame).card = 0 := by
      rw [Finset.card_eq_zero, Finset.filter_eq_empty_iff]
      exact fun i member same => notData ⟨i, Finset.mem_range.mp member, same⟩
    rw [range.dropCount page isRoot user frame, none] at drops
    exact drops
  ram := freed.ram
  kernelHalf := freed.kernelHalf
  occupied := freed.occupied

theorem MappedRange.extended {entry : Nat → Word} (range : MappedRange m middle roots root base count entry) :
    Extended m middle roots ∅ where
  walks := range.grown.walks
  fresh table owned notOld := (range.grown.fresh table owned notOld).1
  taken _ isData := isData.elim
  kept frame _ apart := range.grown.kept frame apart
  ram := range.grown.ram
  kernelHalf := range.grown.kernelHalf
  occupied := range.occupied

/-- The release of a device range drops no frame. -/
theorem FreedRange.withdrawn (freed : FreedRange middle m' roots root base count true) : Withdrawn middle m' roots ∅ where
  inv := freed.inv
  walks := freed.walks
  gone := freed.gone
  dropped _ isData := isData.elim
  kept frame _ apart := by
    have drops := freed.frames frame apart
    have none : Mem.dropCount middle root base true frame count = 0 := by simp [Mem.dropCount, Mem.dropsFrame]
    rw [none] at drops
    exact drops
  ram := freed.ram
  kernelHalf := freed.kernelHalf
  occupied := freed.occupied

end

section
variable {m middle m' : Machine} {roots : Set Nat} {space : Space} {node : Region} {base count : Nat}

/-- A recorded region with a base of its own is found, and its removal gives the old list. -/
theorem insertRegion_erase {regions : List Region} (own : ∀ region ∈ regions, region.base ≠ node.base)
    (used : hasFlag node.flags vmmRegionUsed = true) :
    (insertRegion node regions).find? (·.matches node.base) = some node ∧
      (insertRegion node regions).eraseP (·.matches node.base) = regions := by
  have here : node.matches node.base = true := by simp [Region.matches, used]
  induction regions with
  | nil => simp [insertRegion, here]
  | cons cur rest ih =>
      have different : cur.matches node.base = false := by
        simp [Region.matches, own cur (List.mem_cons_self ..)]
      obtain ⟨found, erased⟩ := ih fun region member => own region (List.mem_cons_of_mem _ member)
      rw [insertRegion]
      split
      · rw [List.find?_cons_of_neg (by simp [different]), List.eraseP_cons_of_neg (by simp [different]), erased]
        exact ⟨found, rfl⟩
      · simp [here]

theorem sub64_wrap64 {total added : Nat} (fits : total < 2 ^ 64) (fits' : added < 2 ^ 64) :
    sub64 (wrap64 (total + added)) added = total := by
  unfold sub64 wrap64
  omega

/-- The release of a region that was just recorded frees its range and gives the old space. -/
theorem vmmSpaceFree_recorded (node : Region) (tables : TableInv middle roots) (isRoot : space.pml4Phys ∈ roots)
    (user : UserRange node.base (node.size / pageSize)) (nonzero : node.base ≠ 0)
    (own : ∀ region ∈ space.regions, region.base ≠ node.base) (used : hasFlag node.flags vmmRegionUsed = true)
    (counts : space.regionCount < 2 ^ 64 ∧ space.usedVirtual < 2 ^ 64) (size : node.size < 2 ^ 64)
    (data : DropsData middle roots space.pml4Phys node.base (node.size / pageSize) (hasFlag node.flags vmmRegionMmio)) :
    (vmmSpaceFree middle (space.record node) node.base).2 = space ∧
      FreedRange middle (vmmSpaceFree middle (space.record node) node.base).1 roots space.pml4Phys node.base
        (node.size / pageSize) (hasFlag node.flags vmmRegionMmio) := by
  obtain ⟨found, erased⟩ := insertRegion_erase own used
  have selected : (space.record node).selected node.base = some node := (if_neg nonzero).trans found
  have sound : ∀ cur, (space.record node).selected node.base = some cur → UserRange cur.base (cur.size / pageSize) ∧
      DropsData middle roots space.pml4Phys cur.base (cur.size / pageSize) (hasFlag cur.flags vmmRegionMmio) := by
    intro cur same
    rw [selected] at same
    rw [← Option.some.inj same]
    exact ⟨user, data⟩
  rcases returned : vmmSpaceFree middle (space.record node) node.base with ⟨after, space'⟩
  have recorded : (space.record node).pml4Phys ∈ roots := isRoot
  have outcome := vmmSpaceFree_spec tables recorded sound returned
  cases outcome with
  | missing none =>
      rw [selected] at none
      cases none
  | freed cur _ found' range =>
      rw [selected] at found'
      cases found'
      refine ⟨?_, range⟩
      have regionCount : sub64 (wrap64 (space.regionCount + 1)) 1 = space.regionCount := sub64_wrap64 counts.1 (by decide)
      have usedVirtual : sub64 (wrap64 (space.usedVirtual + node.size)) node.size = space.usedVirtual :=
        sub64_wrap64 counts.2 size
      simp only [Space.record, erased, regionCount, usedVirtual]

/-- A range that meets no region has a base of its own. -/
theorem base_own (well : WellFormedSpace m roots space) (positive : 0 < count)
    (apart : ∀ region ∈ space.regions, ∀ i, i < count → ¬region.covers (base / pageSize + i)) :
    ∀ region ∈ space.regions, region.base ≠ base := by
  intro region member same
  obtain ⟨_, large⟩ := well.paged region member
  have pages : 0 < region.size / pageSize := Nat.div_pos large (by decide)
  refine apart region member 0 positive ⟨?_, ?_⟩
  · rw [same]
    exact Nat.le_add_right _ _
  · rw [same]
    omega

/-- Allocating and freeing a range are inverse, and so are mapping physical frames and unmapping them. -/
theorem alloc_free_inverse (well : WellFormedSpace m roots space) (range : UserRange base count) (nonzero : base ≠ 0)
    (apart : ∀ region ∈ space.regions, ∀ i, i < count → ¬region.covers (base / pageSize + i))
    (absent : ∀ i, i < count → m.findPte space.pml4Phys (base + i * pageSize) = none) :
    (∀ flags nodeOk value middle taken, hasFlag flags vmmRegionMmio = false →
      vmmSpaceAlloc m space base count flags nodeOk = .ok (value, middle, taken) → value ≠ 0 →
      (vmmSpaceFree middle taken base).2 = space ∧ Restored m (vmmSpaceFree middle taken base).1 roots) ∧
    ∀ physAddr flags nodeOk value middle taken,
      (∀ i, i < count → m.phys.used (pageAlignDown physAddr / pageSize + i) = true) →
      vmmMapPhys m space base physAddr count flags nodeOk = .ok (value, middle, taken) → value ≠ 0 →
      ((vmmUnmapPhys middle taken base).2 = space ∧ Restored m (vmmUnmapPhys middle taken base).1 roots) ∧
        ∀ i, i < count → let frame := pageAlignDown physAddr / pageSize + i
          middle.phys.used frame = m.phys.used frame ∧ middle.phys.pageframes frame = m.phys.pageframes frame := by
  have base' := range.alignDown
  have bytes := range.bytes
  have pages : count * pageSize / pageSize = count := Nat.mul_div_cancel _ (by decide)
  have size : count * pageSize < 2 ^ 64 := by
    have fits := range.fits
    omega
  have page (flags : BitVec 32) := flagsToPte_page flags
  constructor
  · intro flags nodeOk value middle taken notMmio returned success
    have outcome := vmmSpaceAlloc_spec well.tables well.isRoot (base'.symm ▸ range) returned
    rw [base'] at outcome
    cases outcome with
    | refused why => exact absurd rfl success
    | failed i frames full inside node filled exhausted _ undone => exact absurd rfl success
    | done frames _ positive node filled =>
        have plain : hasFlag (vmmRegionUsed ||| flags) vmmRegionMmio = false := by
          rw [hasFlag_mmio] at notMmio ⊢
          rw [BitVec.getLsbD_or, notMmio]
          rfl
        have data : DropsData middle roots space.pml4Phys base count false := by
          intro i entry inside _ found
          have shown := filled.mapped well.isRoot range inside
          rw [found] at shown
          obtain ⟨allocated, same⟩ := filled.frame (page flags) inside
          rw [Option.some.inj shown, same]
          exact ⟨allocated, (filled.taken i inside).2.2⟩
        rw [bytes]
        obtain ⟨same, freed⟩ := vmmSpaceFree_recorded ⟨base, count * pageSize, vmmRegionUsed ||| flags⟩
          filled.tables well.isRoot (by rwa [pages]) nonzero (base_own well positive apart) (recorded_used flags) well.counts
          size (by rwa [pages, plain])
        rw [pages, plain] at freed
        refine ⟨same, ?_⟩
        apply filled.extended.restored (filled.withdrawn (page flags) well.isRoot range freed) well.toWellFormed
        apply leaf_restored range absent ?_ freed.leaf
        intro root' isRoot' va user outside
        rw [filled.leaf root' isRoot' va user, if_neg outside]
  · intro physAddr flags nodeOk value middle taken used returned success
    rcases vmmMapPhys_cases returned with ⟨zero, _⟩ | ⟨several, _, _, mapped, rfl⟩
    · exact absurd zero success
    · rw [base'] at mapped ⊢
      have filled := vmmMapPhysPages_spec well.tables well.isRoot range (page flags) mapped
      have device : hasFlag (vmmRegionUsed ||| vmmRegionMmio ||| flags) vmmRegionMmio = true := by
        rw [hasFlag_mmio, BitVec.getLsbD_or, BitVec.getLsbD_or]
        rfl
      have isUsed : hasFlag (vmmRegionUsed ||| vmmRegionMmio ||| flags) vmmRegionUsed = true := by
        rw [hasFlag_used, BitVec.getLsbD_or, BitVec.getLsbD_or]
        rfl
      rw [bytes]
      obtain ⟨same, freed⟩ := vmmSpaceFree_recorded
        ⟨base, count * pageSize, vmmRegionUsed ||| vmmRegionMmio ||| flags⟩ filled.grown.inv well.isRoot
        (by rwa [pages]) nonzero (base_own well (Nat.pos_of_ne_zero several) apart) isUsed well.counts size
        (by rw [device]; exact fun i entry _ isData => absurd isData (by decide))
      rw [pages, device] at freed
      refine ⟨⟨same, ?_⟩, ?_⟩
      · apply filled.extended.restored freed.withdrawn well.toWellFormed
        apply leaf_restored range absent ?_ freed.leaf
        intro root' isRoot' va user outside
        rw [filled.leaf root' isRoot' va user, if_neg outside]
      · intro i inside
        refine filled.grown.kept _ ?_
        intro table owned notOld sameFrame
        have free := (filled.grown.fresh table owned notOld).1.2
        rw [sameFrame, used i inside] at free
        cases free

end

/-- The first space of a machine whose kernel table is empty is well-formed. -/
theorem created_wellFormed {m m' : Machine} {root : Nat} (tables : TableInv m ∅) (resets : m.phys.Resets)
    (created : vmmSpaceCreate m true = (some ⟨root, [], 0, 0⟩, m')) (empty : ∀ index, m'.child root index = none) :
    WellFormedSpace m' {root} ⟨root, [], 0, 0⟩ := by
  rcases vmmSpaceCreate_spec tables created with ⟨none, _⟩ | ⟨root', same, added⟩
  · cases none
  · cases same
    have onlyRoot : insert root (∅ : Set Nat) = {root} := LawfulSingleton.insert_empty_eq _
    have inv := added.inv
    have owned := added.tables
    rw [onlyRoot] at inv owned
    rw [tables_empty, onlyRoot] at owned
    refine ⟨⟨inv, ?_, ?_, ?_⟩, rfl, nofun, ⟨Nat.two_pow_pos 64, Nat.two_pow_pos 64⟩⟩
    · intro table member notRoot
      rw [owned] at member
      exact absurd member notRoot
    · intro root' isRoot table below
      rw [Set.mem_singleton_iff] at isRoot
      obtain ⟨index, _, path, _, reached⟩ := below
      rw [isRoot, walk, List.foldlM_cons, empty] at reached
      cases reached
    · rw [added.phys]
      exact resets.markUsed _

theorem smallMachine_resets : smallMachine.phys.Resets := by
  intro frame free
  have high : ¬frame < 2 := by
    intro low
    have used : smallMachine.phys.used frame = false := free.2
    interval_cases frame <;> exact absurd used (by decide)
  exact if_neg high

/-- The small machine with one empty space. -/
def smallSpace : Option Space × Machine := vmmSpaceCreate smallMachine true

theorem smallSpace_wellFormed : WellFormedSpace smallSpace.2 {0x2000} ⟨0x2000, [], 0, 0⟩ :=
  created_wellFormed smallKernel_boot.tables smallMachine_resets (Prod.ext (by decide +kernel) rfl) (by decide +kernel)

theorem alloc_free_inverse_two : ∃ middle taken,
    vmmSpaceAlloc smallSpace.2 ⟨0x2000, [], 0, 0⟩ 0x400000 2 0x34 true = .ok (0x400000, middle, taken) ∧
      (vmmSpaceFree middle taken 0x400000).2 = ⟨0x2000, [], 0, 0⟩ ∧
      Restored smallSpace.2 (vmmSpaceFree middle taken 0x400000).1 {0x2000} := by
  have absent : ∀ i, i < 2 → smallSpace.2.findPte 0x2000 (0x400000 + i * pageSize) = none := by decide +kernel
  have range : UserRange 0x400000 2 := ⟨by decide, by decide⟩
  have inverse := alloc_free_inverse smallSpace_wellFormed range (by decide) nofun absent
  have succeeds : ((vmmSpaceAlloc smallSpace.2 ⟨0x2000, [], 0, 0⟩ 0x400000 2 0x34 true).toOption.map fun result =>
      result.1) = some 0x400000 := by decide +kernel
  cases returned : vmmSpaceAlloc smallSpace.2 ⟨0x2000, [], 0, 0⟩ 0x400000 2 0x34 true with
  | error halt =>
      rw [returned] at succeeds
      cases succeeds
  | ok result =>
      obtain ⟨value, middle, taken⟩ := result
      rw [returned] at succeeds
      obtain rfl : value = 0x400000 := Option.some.inj succeeds
      exact ⟨middle, taken, rfl, inverse.1 _ _ _ _ _ (by decide) returned (by decide)⟩

end DoccrOS.Mem
