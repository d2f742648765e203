import DoccrOS.Proof.Mem.CloneShares
import DoccrOS.Proof.Mem.DestroyedSpace

namespace DoccrOS.Mem
open Lib.Radix Lib

/-- The record of a frame after it was dropped `n` times. -/
def droppedRecord (old : Pageframe) (n : Nat) : Pageframe :=
  if n = 0 then old else if n < old.rc then ⟨old.rc - n, old.flags⟩ else ⟨0, frameFree⟩

/-- The regions of a source are used, its tracked frames are not free, and its data frames are tracked and counted. -/
structure CountedSource (m : Machine) (roots : Set Nat) (src : Space) : Prop extends CloneSource m roots src where
  used : ∀ region ∈ src.regions, hasFlag region.flags vmmRegionUsed = true
  taken : ∀ region ∈ src.regions, ∀ va entry, region.holds va = true → m.findPte src.pml4Phys va = some entry →
    entryAddr entry / pageSize < m.phys.total → m.phys.used (entryAddr entry / pageSize) = true
  data : ∀ region ∈ src.regions, hasFlag region.flags vmmRegionMmio = false → ∀ va entry, region.holds va = true →
    m.findPte src.pml4Phys va = some entry →
      entryAddr entry / pageSize < m.phys.total ∧ 0 < (m.phys.pageframes (entryAddr entry / pageSize)).rc
  resets : m.phys.Resets

/-- The clone of the regions `cloned` was destroyed; what it did to the source is left. -/
structure UndoneClone (m m' : Machine) (src src' : Space) (cloned rest : List Region) : Prop where
  split : src.regions = cloned ++ rest
  source : src' = { src with regions := cloned.map Region.shared ++ rest }
  leaf : ∀ va, UserVa va → m'.findPte src.pml4Phys va = (m.findPte src.pml4Phys va).map fun entry =>
    ((pageFlags cloned (va / pageSize)).map fun flags => clonedEntry true flags entry).getD entry
  frames : ∀ frame, frame < m.phys.total → m'.phys.pageframes frame = droppedRecord
    (sharedRecord (m.phys.pageframes frame) (mapCount m src.pml4Phys frame cloned)) (spaceDrops m src.pml4Phys frame cloned)
  total : m'.phys.total = m.phys.total

/-- The regions that `vmm_clone_space` clones before a `region_alloc` fails. -/
def grantedRegions (nodes : Nat → Bool) : Nat → List Region → List Region
  | _, [] => []
  | i, region :: rest => if nodes i then region :: grantedRegions nodes (i + 1) rest else []

/-- How `vmm_clone_space` returns; a clone that is destroyed later is undone like one that failed. -/
inductive CloneOutcome (m : Machine) (src : Space) (kmallocOk : Bool) (nodes : Nat → Bool) :
    Option Space → Machine → Space → Prop where
  | refused (why : kmallocOk = false ∨ ∀ frame, ¬m.phys.Free frame) : CloneOutcome m src kmallocOk nodes none m src
  | failed (m' : Machine) (src' : Space) (rest : List Region) (allowed : kmallocOk = true) (room : ∃ frame, m.phys.Free frame)
    (undone : UndoneClone m m' src src' (grantedRegions nodes 0 src.regions) rest) :
    CloneOutcome m src kmallocOk nodes none m' src'
  | done (dst : Space) (m' : Machine) (src' : Space) (allowed : kmallocOk = true) (room : ∃ frame, m.phys.Free frame)
    (undone : ∀ last, vmmSpaceDestroy m' dst = .ok last →
      UndoneClone m last src src' (grantedRegions nodes 0 src.regions) []) :
    CloneOutcome m src kmallocOk nodes (some dst) m' src'

/-- The regions were shared before: a further clone of them and its destruction leave the flags, the pages and the counters
as they are. -/
structure AlreadyShared (m : Machine) (src : Space) (cloned : List Region) : Prop where
  regions : ∀ region ∈ cloned, cowFlags region.flags = region.flags
  pages : ∀ region ∈ cloned, ∀ va entry, region.holds va = true → m.findPte src.pml4Phys va = some entry →
    clonedEntry true region.flags entry = entry
  frames : ∀ frame, frame < m.phys.total → mapCount m src.pml4Phys frame cloned ≠ 0 →
    (m.phys.pageframes frame).flags ||| frameCow ||| frameShared = (m.phys.pageframes frame).flags ∧
    wrap32 ((m.phys.pageframes frame).rc + mapCount m src.pml4Phys frame cloned) =
      (m.phys.pageframes frame).rc + spaceDrops m src.pml4Phys frame cloned

/-- A space has the region flags and the pages that it had, and every frame has its record. -/
structure SpaceUntouched (m m' : Machine) (src src' : Space) : Prop where
  space : src' = src
  pages : ∀ va, UserVa va → m'.findPte src.pml4Phys va = m.findPte src.pml4Phys va
  frames : ∀ frame, frame < m.phys.total → m'.phys.pageframes frame = m.phys.pageframes frame

section
variable {m m' m₁ m₂ : Machine} {roots : Set Nat} {root frame n : Nat} {src src' dst : Space} {cloned rest : List Region}
  {p p' : PhysMem}

theorem Dropped.record (dropped : Dropped p p' n frame) : p'.pageframes frame = droppedRecord (p.pageframes frame) n := by
  unfold Dropped at dropped
  unfold droppedRecord
  split
  · rw [if_pos ‹_›] at dropped
    exact dropped.2
  · rw [if_neg ‹_›] at dropped
    split
    · rw [if_pos ‹_›] at dropped
      exact dropped.2
    · rw [if_neg ‹_›] at dropped
      exact dropped.2

/-- A walk reads only tables. -/
theorem findPte_congr (same : ∀ table ∈ Tables m {root}, m'.ram table = m.ram table) {va : Nat} (user : UserVa va) :
    m'.findPte root va = m.findPte root va := by
  have walks : walk m'.child root (tablePath va) = walk m.child root (tablePath va) := by
    refine walk_congr ?_ (Set.mem_singleton root) _ (tablePath_user user)
    intro first isFirst before index node admitted reached
    unfold Machine.child
    rw [same node (mem_nodes isFirst (userPaths.init before index admitted) reached)]
  rw [findPte_eq, findPte_eq, walks]
  cases reached : walk m.child root (tablePath va) with
  | none => rfl
  | some pt =>
      simp only [Option.bind_some, same pt (mem_nodes rfl (tablePath_user user) reached)]

/-- A frame that no page of the regions maps is not counted. -/
theorem mapCount_eq_zero : mapCount m root frame cloned = 0 ↔ ∀ region ∈ cloned, ∀ i, i < region.size / pageSize →
    mapsFrame m root frame (region.base + i * pageSize) = false := by
  unfold mapCount
  rw [List.sum_eq_zero_iff]
  simp only [List.forall_mem_map, rangeCount, List.countP_eq_zero, List.mem_range, Bool.not_eq_true]

theorem spaceDrops_eq_zero (none : mapCount m root frame cloned = 0) : spaceDrops m root frame cloned = 0 := by
  rw [mapCount_eq_zero] at none
  unfold spaceDrops
  rw [List.sum_eq_zero_iff]
  simp only [List.forall_mem_map, regionDrops, dropCount, List.countP_eq_zero, List.mem_range, dropsFrame]
  intro region member i inside
  have unmapped := none region member i inside
  unfold mapsFrame at unmapped
  rw [unmapped, Bool.and_false]
  exact Bool.false_ne_true

/-- A free frame is not mapped. -/
theorem CountedSource.mapCount_free (source : CountedSource m roots src) (sub : cloned ⊆ src.regions)
    (inside : frame < m.phys.total) (free : m.phys.used frame = false) : mapCount m src.pml4Phys frame cloned = 0 := by
  rw [mapCount_eq_zero]
  intro region member i bound
  obtain ⟨range, whole⟩ := source.ranges region (sub member)
  by_contra maps
  rw [Bool.not_eq_false, mapsFrame, Option.any_eq_true] at maps
  obtain ⟨entry, found, number⟩ := maps
  have isFrame : entryAddr entry / pageSize = frame := eq_of_beq number
  have used := source.taken region (sub member) _ entry (Region.holds_page range whole bound) found (isFrame ▸ inside)
  rw [isFrame, free] at used
  cases used

theorem pageFlags_mem {page : Nat} {flags : BitVec 32} (shown : pageFlags cloned page = some flags) :
    ∃ region ∈ cloned, region.covers page ∧ region.flags = flags := by
  obtain ⟨region, found, same⟩ := Option.map_eq_some_iff.mp shown
  exact ⟨region, List.mem_of_find?_eq_some found, by simpa using List.find?_some found, same⟩

/-- The pages of a region of the clone map the frames of the source. -/
theorem CloneLoop.page (source : CountedSource m roots src) (added : RootAdded m m₁ roots root)
    (loop : CloneLoop m₁ m₂ (insert root roots) src src' dst cloned rest) {region : Region} (member : region ∈ cloned) {i : Nat}
    (inside : i < region.size / pageSize) : ∃ flags, m₂.findPte dst.pml4Phys (region.base + i * pageSize) =
      (m.findPte src.pml4Phys (region.base + i * pageSize)).map (clonedEntry false flags) := by
  have isRegion : region ∈ src.regions := by
    rw [loop.split]
    exact List.mem_append_left _ member
  obtain ⟨_, user, number⟩ := (source.ranges region isRegion).1.address inside
  have covers : region.covers ((region.base + i * pageSize) / pageSize) := by
    rw [number]
    exact Region.covers_iff.mpr ⟨i, inside, rfl⟩
  obtain ⟨flags, shown⟩ := pageFlags_some member covers
  refine ⟨flags, ?_⟩
  rw [loop.shape.dstLeaf _ user, shown, Option.bind_some, added.leaf _ source.isRoot _ user]

/-- A release of the clone drops each frame as often as a release of the cloned regions. -/
theorem CloneLoop.drops (source : CountedSource m roots src) (added : RootAdded m m₁ roots root)
    (loop : CloneLoop m₁ m₂ (insert root roots) src src' dst cloned rest) (frame : Nat) :
    spaceDrops m₂ dst.pml4Phys frame dst.regions = spaceDrops m src.pml4Phys frame cloned := by
  rw [loop.regions, spaceDrops, spaceDrops, List.map_map]
  congr 1
  apply List.map_congr_left
  intro region member
  change regionDrops m₂ dst.pml4Phys frame region.shared = _
  rw [regionDrops, regionDrops, dropCount, dropCount]
  apply List.countP_congr
  intro i inside
  obtain ⟨flags, page⟩ := loop.page source added member (List.mem_range.mp inside)
  have mmio : hasFlag region.shared.flags vmmRegionMmio = hasFlag region.flags vmmRegionMmio := (cowFlags_bits region.flags).2.2
  rw [dropsFrame, dropsFrame, mmio]
  change ((!_ && (m₂.findPte dst.pml4Phys (region.base + i * pageSize)).any _) = true ↔ _)
  rw [page, Option.any_map]
  simp only [entryAddr_cloned]

/-- A partial clone can be destroyed. -/
theorem CloneLoop.destroyable (source : CountedSource m roots src) (added : RootAdded m m₁ roots root)
    (sameRoot : dst.pml4Phys = root) (loop : CloneLoop m₁ m₂ (insert root roots) src src' dst cloned rest) :
    Destroyable m₂ dst := by
  have isDst : dst.pml4Phys ∈ insert root roots := sameRoot ▸ Set.mem_insert _ _
  have sub : cloned ⊆ src.regions := by
    rw [loop.split]
    exact List.subset_append_left _ _
  have total : m₂.phys.total = m.phys.total := by rw [loop.shape.total, added.phys, markUsed_total]
  have taken := loop.taken source.toCloneSource added sameRoot
  have shared {region : Region} (member : region ∈ dst.regions) : ∃ old ∈ cloned, old.shared = region := by
    rw [loop.regions] at member
    exact List.mem_map.mp member
  refine ⟨loop.shape.tables.single isDst, ?_, ?_, ?_, ?_, ?_⟩
  · apply loop.shape.occupied
    intro table owned below
    rw [sameRoot] at owned below
    rw [added.tables_new source.tables] at owned
    exact absurd owned below
  · intro region member
    obtain ⟨old, early, rfl⟩ := shared member
    exact ⟨(source.ranges old (sub early)).1, (cowFlags_bits old.flags).1.trans (source.used old (sub early))⟩
  · rw [loop.regions, List.pairwise_map]
    have pairs := source.disjoint
    rw [loop.split] at pairs
    exact (List.pairwise_append.mp pairs).1
  · intro region member i entry inside isData found
    obtain ⟨old, early, rfl⟩ := shared member
    obtain ⟨flags, page⟩ := loop.page source added early inside
    have isData' : hasFlag old.flags vmmRegionMmio = false := (cowFlags_bits old.flags).2.2.symm.trans isData
    change m₂.findPte dst.pml4Phys (old.base + i * pageSize) = some entry at found
    rw [page] at found
    obtain ⟨mapped, found', rfl⟩ := Option.map_eq_some_iff.mp found
    obtain ⟨range, whole⟩ := source.ranges old (sub early)
    have holds := Region.holds_page range whole inside
    have tracked := (source.data old (sub early) isData' _ mapped holds found').1
    have used := source.taken old (sub early) _ mapped holds found' tracked
    rw [entryAddr_cloned]
    refine ⟨source.frames old (sub early) _ mapped holds found', total ▸ tracked, ?_⟩
    intro owned
    have free := ((taken _).mpr ⟨_, owned, rfl⟩).1
    exact absurd (free.2.symm.trans used) Bool.false_ne_true
  · intro va user mapped
    rw [loop.shape.dstLeaf va user] at mapped
    cases shown : pageFlags cloned (va / pageSize) with
    | none => exact absurd (by rw [shown]; rfl) mapped
    | some flags =>
        obtain ⟨region, early, covers, _⟩ := pageFlags_mem shown
        refine ⟨region.shared, ?_, covers⟩
        rw [loop.regions]
        exact List.mem_map_of_mem early

/-- A clone that was destroyed leaves what it did to its source. -/
theorem CloneLoop.undone (source : CountedSource m roots src) (added : RootAdded m m₁ roots root)
    (sameRoot : dst.pml4Phys = root) (loop : CloneLoop m₁ m₂ (insert root roots) src src' dst cloned rest)
    (returned : vmmSpaceDestroy m₂ dst = .ok m') : UndoneClone m m' src src' cloned rest := by
  have released := vmmSpaceDestroy_spec (loop.destroyable source added sameRoot) returned
  have isDst : dst.pml4Phys ∈ insert root roots := sameRoot ▸ Set.mem_insert _ _
  have isSrc : src.pml4Phys ∈ insert root roots := Set.mem_insert_of_mem _ source.isRoot
  have different : src.pml4Phys ≠ dst.pml4Phys := by
    rw [sameRoot]
    intro same
    exact added.notTable source.tables (same ▸ root_mem_nodes source.isRoot)
  have sub : cloned ⊆ src.regions := by
    rw [loop.split]
    exact List.subset_append_left _ _
  have total : m₂.phys.total = m.phys.total := by rw [loop.shape.total, added.phys, markUsed_total]
  have taken := loop.taken source.toCloneSource added sameRoot
  refine ⟨loop.split, loop.source, ?_, ?_, released.total.trans total⟩
  · intro va user
    have kept : m'.findPte src.pml4Phys va = m₂.findPte src.pml4Phys va := by
      refine findPte_congr ?_ user
      intro table owned
      exact released.ram table (loop.shape.tables.apart isSrc isDst different owned)
    rw [kept, loop.shape.srcLeaf va user, added.leaf _ source.isRoot va user]
  · intro frame inside
    by_cases isTable : ∃ table ∈ Tables m₂ {dst.pml4Phys}, table / pageSize = frame
    · have free := ((taken frame).mpr isTable).1
      obtain ⟨table, owned, rfl⟩ := isTable
      have none := source.mapCount_free sub inside free.2
      rw [(released.tables table owned).2, none, spaceDrops_eq_zero none, source.resets _ free]
      rfl
    · have outside : ∀ table ∈ Tables m₂ {dst.pml4Phys}, table / pageSize ≠ frame := fun table owned same =>
        isTable ⟨table, owned, same⟩
      have notRoot : frame ≠ root / pageSize := by
        intro same
        exact outside root (sameRoot ▸ root_mem_nodes rfl) same.symm
      have inside₁ : frame < m₁.phys.total := by rwa [added.phys, markUsed_total]
      have record := (loop.shape.record frame fun table owned _ => outside table owned).2 inside₁
      rw [(released.frames frame outside).record, loop.drops source added, record, source.mapCount added sub, added.phys,
        markUsed_pageframes, if_neg notRoot]

/-- The record of a frame survives the sharing and the release if and only if it was shared and its counter comes back. -/
theorem droppedRecord_shared {old : Pageframe} {maps drops : Nat} (some : maps ≠ 0) (counted : drops ≠ 0 → 0 < old.rc) :
    droppedRecord (sharedRecord old maps) drops = old ↔
      old.flags ||| frameCow ||| frameShared = old.flags ∧ wrap32 (old.rc + maps) = old.rc + drops := by
  obtain ⟨rc, flags⟩ := old
  rw [sharedRecord, if_neg some, droppedRecord]
  simp only at counted ⊢
  generalize wrap32 (rc + maps) = sum
  by_cases none : drops = 0
  · rw [if_pos none, none, Nat.add_zero, Pageframe.mk.injEq]
    exact and_comm
  · rw [if_neg none]
    have positive := counted none
    by_cases more : drops < sum
    · rw [if_pos more, Pageframe.mk.injEq]
      constructor
      · rintro ⟨same, kept⟩
        exact ⟨kept, by omega⟩
      · rintro ⟨kept, same⟩
        exact ⟨by omega, kept⟩
    · rw [if_neg more, Pageframe.mk.injEq]
      constructor
      · rintro ⟨same, _⟩
        omega
      · rintro ⟨_, same⟩
        omega

/-- A frame that a release drops is counted. -/
theorem CountedSource.counted (source : CountedSource m roots src) (sub : cloned ⊆ src.regions)
    (drops : spaceDrops m src.pml4Phys frame cloned ≠ 0) : 0 < (m.phys.pageframes frame).rc := by
  by_contra none
  apply drops
  unfold spaceDrops
  rw [List.sum_eq_zero_iff]
  simp only [List.forall_mem_map, regionDrops, dropCount, List.countP_eq_zero, List.mem_range]
  intro region member i inside maps
  simp only [dropsFrame, Bool.and_eq_true, Bool.not_eq_true', Option.any_eq_true, beq_iff_eq] at maps
  obtain ⟨isData, entry, found, rfl⟩ := maps
  obtain ⟨range, whole⟩ := source.ranges region (sub member)
  exact none (source.data region (sub member) isData _ entry (Region.holds_page range whole inside) found).2

/-- The pages of a cloned region have its flags. -/
theorem UndoneClone.flags {region : Region} {page : Nat} (source : CountedSource m roots src)
    (undone : UndoneClone m m' src src' cloned rest) (member : region ∈ cloned) (covers : region.covers page) :
    pageFlags cloned page = some region.flags := by
  have pairs := source.disjoint
  rw [undone.split] at pairs
  obtain ⟨flags, shown⟩ := pageFlags_some member covers
  obtain ⟨other, member', covers', rfl⟩ := pageFlags_mem shown
  rw [shown, Region.covers_unique (List.pairwise_append.mp pairs).1 member member' covers covers']

/-- An undone clone leaves its source untouched if and only if the cloned regions were shared before. -/
theorem UndoneClone.untouched_iff (source : CountedSource m roots src) (undone : UndoneClone m m' src src' cloned rest) :
    SpaceUntouched m m' src src' ↔ AlreadyShared m src cloned := by
  have sub : cloned ⊆ src.regions := by
    rw [undone.split]
    exact List.subset_append_left _ _
  have sameSpace : src' = src ↔ ∀ region ∈ cloned, cowFlags region.flags = region.flags := by
    constructor
    · intro same region member
      have lists : cloned.map Region.shared ++ rest = cloned ++ rest := by
        rw [← undone.split, ← same, undone.source]
      have heads := List.append_cancel_right lists
      have fixed : region.shared = region := List.map_inj_left.mp (heads.trans (List.map_id cloned).symm) region member
      exact congrArg Region.flags fixed
    · intro same
      have fixed : cloned.map Region.shared = cloned := by
        refine (List.map_congr_left ?_).trans (List.map_id cloned)
        intro region member
        rw [Region.shared, same region member]
        rfl
      rw [undone.source, fixed, ← undone.split]
  have sameFrame (frame : Nat) (inside : frame < m.phys.total) :
      m'.phys.pageframes frame = m.phys.pageframes frame ↔ (mapCount m src.pml4Phys frame cloned ≠ 0 →
        (m.phys.pageframes frame).flags ||| frameCow ||| frameShared = (m.phys.pageframes frame).flags ∧
        wrap32 ((m.phys.pageframes frame).rc + mapCount m src.pml4Phys frame cloned) =
          (m.phys.pageframes frame).rc + spaceDrops m src.pml4Phys frame cloned) := by
    rw [undone.frames frame inside]
    by_cases none : mapCount m src.pml4Phys frame cloned = 0
    · rw [none, spaceDrops_eq_zero none]
      exact ⟨fun _ some => absurd rfl some, fun _ => rfl⟩
    · rw [droppedRecord_shared none (source.counted sub)]
      exact ⟨fun both _ => both, fun both => both none⟩
  constructor
  · intro untouched
    refine ⟨sameSpace.mp untouched.space, ?_, ?_⟩
    · intro region member va entry holds found
      obtain ⟨range, whole⟩ := source.ranges region (sub member)
      obtain ⟨user, covers⟩ := holds_covers range whole holds
      have same := (undone.leaf va user).symm.trans (untouched.pages va user)
      rw [found, undone.flags source member covers] at same
      exact Option.some.inj same
    · intro frame inside
      exact (sameFrame frame inside).mp (untouched.frames frame inside)
  · intro shared
    refine ⟨sameSpace.mpr shared.regions, ?_, ?_⟩
    · intro va user
      rw [undone.leaf va user]
      cases found : m.findPte src.pml4Phys va with
      | none => rfl
      | some entry =>
          cases shown : pageFlags cloned (va / pageSize) with
          | none => rfl
          | some flags =>
              obtain ⟨region, member, covers, rfl⟩ := pageFlags_mem shown
              change some (clonedEntry true region.flags entry) = some entry
              obtain ⟨range, whole⟩ := source.ranges region (sub member)
              rw [shared.pages region member va entry ((Region.holds_iff range whole).mpr covers) found]
    · intro frame inside
      exact (sameFrame frame inside).mpr (shared.frames frame inside)

theorem grantedRegions_append {nodes : Nat → Bool} {i : Nat} (granted : ∀ j, j < cloned.length → nodes (i + j) = true)
    (stop : rest = [] ∨ nodes (i + cloned.length) = false) : grantedRegions nodes i (cloned ++ rest) = cloned := by
  induction cloned generalizing i with
  | nil =>
      rcases stop with rfl | failed
      · rfl
      · cases rest with
        | nil => rfl
        | cons region rest => simp [grantedRegions, show nodes i = false from failed]
  | cons region cloned ih =>
      have first : nodes i = true := granted 0 (Nat.zero_lt_succ _)
      rw [List.cons_append, grantedRegions, if_pos first, ih]
      · intro j inside
        have next := granted (j + 1) (Nat.succ_lt_succ inside)
        rwa [Nat.add_right_comm, Nat.add_assoc]
      · rw [Nat.add_right_comm, Nat.add_assoc]
        exact stop

/-- The loop stops where the first allocation fails. -/
theorem CloneStop.granted {nodes : Nat → Bool} {done : Bool} (stop : CloneStop nodes done cloned rest)
    (split : src.regions = cloned ++ rest) : grantedRegions nodes 0 src.regions = cloned := by
  rw [split]
  apply grantedRegions_append
  · intro j inside
    rw [Nat.zero_add]
    exact stop.1 j inside
  · rw [Nat.zero_add]
    have last := stop.2
    cases done with
    | true => exact Or.inl last
    | false => exact Or.inr last.2

theorem vmmCloneSpace_outcome {kmallocOk : Bool} {nodes : Nat → Bool} {result : Option Space}
    (source : CountedSource m roots src) (returned : vmmCloneSpace m src kmallocOk nodes = .ok (result, m', src')) :
    CloneOutcome m src kmallocOk nodes result m' src' := by
  unfold vmmCloneSpace at returned
  cases created : vmmSpaceCreate m kmallocOk with
  | mk new m₁ =>
      rcases vmmSpaceCreate_spec source.tables created with ⟨rfl, rfl, why⟩ | ⟨root, rfl, added⟩
      · simp only [created] at returned
        injection returned with same
        simp only [Prod.mk.injEq] at same
        obtain ⟨rfl, rfl, rfl⟩ := same
        exact .refused why
      · have allowed : kmallocOk = true := by
          cases kmallocOk with
          | true => rfl
          | false => cases created
        simp only [created] at returned
        obtain ⟨⟨done, m₂, src₂, dst₂⟩, regions, rest⟩ := Result.bind_ok returned
        have srcNew : src.pml4Phys ≠ root := by
          rintro rfl
          exact added.notTable source.tables (root_mem_nodes source.isRoot)
        have isDst : (⟨root, [], 0, 0⟩ : Space).pml4Phys ∈ insert root roots := Set.mem_insert _ _
        obtain ⟨sameRoot, cloned, todo, loop, stop⟩ := (added.start src).run (source.created added) isDst srcNew
          (fun i small => absurd small (Nat.not_lt_zero i)) regions
        have which := CloneStop.granted stop loop.split
        cases done with
        | false =>
            obtain ⟨m₃, destroyed, last⟩ := Result.bind_ok rest
            injection last with same
            simp only [Prod.mk.injEq] at same
            obtain ⟨rfl, rfl, rfl⟩ := same
            have undone := loop.undone source added sameRoot destroyed
            rw [← which] at undone
            exact .failed _ _ _ allowed ⟨_, added.free⟩ undone
        | true =>
            injection rest with same
            simp only [Prod.mk.injEq] at same
            obtain ⟨rfl, rfl, rfl⟩ := same
            obtain rfl : todo = [] := stop.2
            refine .done _ _ _ allowed ⟨_, added.free⟩ ?_
            intro last destroyed
            have undone := loop.undone source added sameRoot destroyed
            rw [← which] at undone
            exact undone

end

/-- An allocated range is a counted source. -/
theorem AllocatedRange.counted {m m' : Machine} {roots : Set Nat} {root base count : Nat} {flags stored : BitVec 32}
    {frames : Nat → Nat} (filled : AllocatedRange m m' roots root base count (flagsToPte flags) frames)
    (isRoot : root ∈ roots) (range : UserRange base count) (used : hasFlag stored vmmRegionUsed = true)
    (resets : m.phys.Resets) : CountedSource m' roots ⟨root, [⟨base, count * pageSize, stored⟩], 1, count * pageSize⟩ := by
  have source := filled.source isRoot range stored
  have pages : count * pageSize / pageSize = count := Nat.mul_div_cancel _ (by decide)
  have frame : ∀ region ∈ [(⟨base, count * pageSize, stored⟩ : Region)], ∀ va entry, region.holds va = true →
      m'.findPte root va = some entry → entryAddr entry / pageSize < m'.phys.total ∧
        m'.phys.used (entryAddr entry / pageSize) = true ∧ 0 < (m'.phys.pageframes (entryAddr entry / pageSize)).rc := by
    intro region member va entry holds found
    obtain ⟨whole, multiple⟩ := source.ranges region member
    obtain ⟨user, least, below⟩ := holds_covers whole multiple holds
    rw [List.mem_singleton.mp member] at least below
    simp only [pages] at least below
    rw [filled.leaf root isRoot va user, if_pos ⟨rfl, least, below⟩] at found
    have inside : va / pageSize - base / pageSize < count := by omega
    obtain ⟨allocated, same⟩ := filled.frame (flagsToPte_page flags) inside
    rw [← Option.some.inj found, same]
    refine ⟨allocated.inside, allocated.used, ?_⟩
    rw [page_div, (filled.taken _ inside).2.1]
    decide
  refine ⟨source, ?_, ?_, ?_, ?_⟩
  · intro region member
    rw [List.mem_singleton.mp member]
    exact used
  · intro region member va entry holds found _
    exact (frame region member va entry holds found).2.1
  · intro region member _ va entry holds found
    obtain ⟨inside, _, counted⟩ := frame region member va entry holds found
    exact ⟨inside, counted⟩
  · intro query free
    obtain ⟨unused, same⟩ := filled.kept query
      (by
        rintro table owned _ rfl
        exact absurd (free.2.symm.trans (filled.tables.allocated table owned).used) Bool.false_ne_true)
      (by
        rintro i inside rfl
        exact absurd (free.2.symm.trans (filled.taken i inside).1) Bool.false_ne_true)
    rw [same]
    exact resets query ⟨filled.total ▸ free.1, unused ▸ free.2⟩

end DoccrOS.Mem
