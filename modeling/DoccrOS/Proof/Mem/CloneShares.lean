import DoccrOS.Proof.Mem.CloneLoops
import DoccrOS.Proof.Mem.RoundTrip
import Mathlib.Order.CompletePartialOrder

namespace DoccrOS.Mem
open Lib.Radix Lib

/-- The counters of a space agree with its region list. -/
structure SpaceCounts (space : Space) : Prop where
  regionCount : space.regionCount = wrap64 space.regions.length
  usedVirtual : space.usedVirtual = wrap64 (space.regions.map Region.size).sum

/-- The clone `dst` shares every page of its source, and nothing was copied. -/
structure SharedClone (m m' : Machine) (roots : Set Nat) (src src' dst : Space) : Prop where
  regions : dst.regions = src.regions.map Region.shared
  source : src' = { src with regions := dst.regions }
  counts : dst.regionCount = src'.regionCount ∧ dst.usedVirtual = src'.usedVirtual
  translation : ∀ region ∈ src.regions, ∀ va, region.holds va = true →
    (m'.findPte dst.pml4Phys va).map entryAddr = (m.findPte src.pml4Phys va).map entryAddr ∧
    (m'.findPte src.pml4Phys va).map entryAddr = (m.findPte src.pml4Phys va).map entryAddr
  readOnly : ∀ region ∈ src.regions, ∀ va entry, region.holds va = true →
    (m'.findPte dst.pml4Phys va = some entry ∨ m'.findPte src.pml4Phys va = some entry) → entryWritable entry = false
  counted : ∀ frame, frame < m.phys.total → m.phys.used frame = true → m'.phys.used frame = true ∧
    m'.phys.pageframes frame = sharedRecord (m.phys.pageframes frame) (mapCount m src.pml4Phys frame src.regions)
  apart : Disjoint (Tables m' {dst.pml4Phys}) (Tables m' {src.pml4Phys})
  taken : ∀ frame, (m.phys.Free frame ∧ ¬m'.phys.Free frame) ↔ ∃ table ∈ Tables m' {dst.pml4Phys}, table / pageSize = frame
  others : ∀ root ∈ roots, root ≠ src.pml4Phys → ∀ va, UserVa va → m'.findPte root va = m.findPte root va
  contents : ∀ page, m.phys.used (page / pageSize) = true → page ∉ Tables m {src.pml4Phys} → m'.ram page = m.ram page

section
variable {m m' m₁ : Machine} {roots : Set Nat} {root root' : Nat} {src src' dst : Space}

/-- A new root leaves the walks of the old ones alone. -/
theorem RootAdded.walks (added : RootAdded m m₁ roots root) (inv : TableInv m roots) (isRoot : root' ∈ roots)
    {path : List (Fin 512)} (admitted : userPaths.holds path) : walk m₁.child root' path = walk m.child root' path := by
  refine walk_congr ?_ isRoot path admitted
  intro first isFirst before index node admitted' reached
  unfold Machine.child
  rw [added.ram node]
  rintro rfl
  exact added.notTable inv (mem_nodes isFirst (userPaths.init before index admitted') reached)

theorem RootAdded.tables_old (added : RootAdded m m₁ roots root) (inv : TableInv m roots) (isRoot : root' ∈ roots) :
    Tables m₁ {root'} = Tables m {root'} := by
  refine nodes_congr ?_
  rintro first rfl path admitted
  exact added.walks inv isRoot admitted

/-- A new root has no tables below it. -/
theorem RootAdded.tables_new (added : RootAdded m m₁ roots root) (inv : TableInv m roots) : Tables m₁ {root} = {root} := by
  ext table
  constructor
  · intro owned
    have either : table ∈ insert root (Tables m roots) := by
      rw [← added.tables]
      exact tables_subset (Set.mem_insert _ _) owned
    rcases either with same | old
    · exact same
    · exfalso
      obtain ⟨root', isRoot, path, admitted, reached⟩ := old
      have owned' : table ∈ Tables m₁ {root'} := mem_nodes rfl admitted ((added.walks inv isRoot admitted).trans reached)
      refine added.inv.apart (Set.mem_insert _ _) (Set.mem_insert_of_mem _ isRoot) ?_ owned owned'
      rintro rfl
      exact added.notTable inv (root_mem_nodes isRoot)
  · rintro rfl
    exact root_mem_nodes rfl

theorem RootAdded.used (added : RootAdded m m₁ roots root) {frame : Nat} :
    m₁.phys.used frame = true ↔ m.phys.used frame = true ∨ frame = root / pageSize := by
  rw [added.phys, markUsed_used]
  by_cases here : frame = root / pageSize
  · simp [here]
  · simp [here]

/-- The addresses of a range of whole pages are those of its pages. -/
theorem holds_covers {region : Region} {va : Nat} (range : UserRange region.base (region.size / pageSize))
    (whole : region.size % pageSize = 0) (holds : region.holds va = true) : UserVa va ∧ region.covers (va / pageSize) :=
  ⟨Region.holds_user range whole holds, (Region.holds_iff range whole).mp holds⟩

/-- The source of a clone is well formed behind the creation of the new root. -/
theorem CloneSource.created (source : CloneSource m roots src) (added : RootAdded m m₁ roots root) :
    CloneSource m₁ (insert root roots) src := by
  refine ⟨added.inv, Set.mem_insert_of_mem _ source.isRoot, source.ranges, source.sorted, source.disjoint, ?_⟩
  intro region member va entry holds found
  obtain ⟨range, whole⟩ := source.ranges region member
  rw [added.leaf _ source.isRoot va (holds_covers range whole holds).1] at found
  exact source.frames region member va entry holds found

/-- The region loop starts with an empty clone. -/
theorem RootAdded.start (added : RootAdded m m₁ roots root) (src : Space) :
    CloneLoop m₁ m₁ (insert root roots) src src ⟨root, [], 0, 0⟩ [] src.regions := by
  refine ⟨⟨added.inv, ?_, ?_, fun _ _ _ _ _ _ => rfl, rfl, fun _ owned => owned, fun _ owned new => absurd owned new,
    fun _ _ => ⟨rfl, fun _ => rfl⟩, fun held => held, fun _ _ _ => rfl, fun _ _ _ _ => rfl, rfl, rfl⟩, rfl, rfl, rfl,
    rfl, rfl⟩
  · intro va _
    change _ = (m₁.findPte src.pml4Phys va).map fun entry => entry
    rw [Option.map_id']
  · intro va user
    exact added.empty va user

/-- The clone maps each frame as often as the source did when the root was new. -/
theorem CloneSource.mapCount {cloned : List Region} (source : CloneSource m roots src) (added : RootAdded m m₁ roots root)
    (sub : cloned ⊆ src.regions) (frame : Nat) :
    Mem.mapCount m₁ src.pml4Phys frame cloned = Mem.mapCount m src.pml4Phys frame cloned := by
  unfold Mem.mapCount
  congr 1
  apply List.map_congr_left
  intro region member
  refine List.countP_congr ?_
  intro i inside
  have user := ((source.ranges region (sub member)).1.address (List.mem_range.mp inside)).2.1
  rw [mapsFrame, mapsFrame, added.leaf _ source.isRoot _ user]

/-- A cloned page keeps its frame. -/
theorem entryAddr_cloned (isSrc : Bool) (flags : BitVec 32) (entry : Word) :
    entryAddr (clonedEntry isSrc flags entry) = entryAddr entry := by
  have page : PageFlags (clonePte isSrc flags) := by
    cases isSrc with
    | true => exact readOnly_page _
    | false => exact readOnly_page _
  exact entryAddr_leaf page.noAddr (entryAddr_aligned entry) (entryAddr_fits entry)

theorem clonedEntry_readOnly (isSrc : Bool) (flags : BitVec 32) (entry : Word) :
    entryWritable (clonedEntry isSrc flags entry) = false := by
  rw [clonedEntry, entryWritable_leaf]
  cases isSrc with
  | true => exact readOnly_writable _
  | false => exact readOnly_writable _

/-- A page of a region has the flags of a region. -/
theorem pageFlags_some {regions : List Region} {region : Region} {page : Nat} (member : region ∈ regions)
    (covers : region.covers page) : ∃ flags, pageFlags regions page = some flags := by
  have found : (regions.find? fun region => decide (region.covers page)).isSome = true :=
    List.find?_isSome.mpr ⟨region, member, by simpa using covers⟩
  obtain ⟨first, same⟩ := Option.isSome_iff_exists.mp found
  exact ⟨first.flags, by rw [pageFlags, same]; rfl⟩

/-- What the two spaces translate after the clone. -/
theorem CloneLoop.leaves (source : CloneSource m roots src) (added : RootAdded m m₁ roots root)
    (loop : CloneLoop m₁ m' (insert root roots) src src' dst src.regions []) {region : Region} {va : Nat}
    (member : region ∈ src.regions) (holds : region.holds va = true) :
    ∃ flags, m'.findPte dst.pml4Phys va = (m.findPte src.pml4Phys va).map (clonedEntry false flags) ∧
      m'.findPte src.pml4Phys va = (m.findPte src.pml4Phys va).map (clonedEntry true flags) := by
  obtain ⟨range, whole⟩ := source.ranges region member
  obtain ⟨user, covers⟩ := holds_covers range whole holds
  obtain ⟨flags, shown⟩ := pageFlags_some member covers
  refine ⟨flags, ?_, ?_⟩
  · rw [loop.shape.dstLeaf va user, shown, Option.bind_some, added.leaf _ source.isRoot va user]
  · rw [loop.shape.srcLeaf va user, shown, added.leaf _ source.isRoot va user]
    rfl

/-- A frame that becomes used is a table of the clone, and all tables of the clone were free. -/
theorem CloneLoop.taken (source : CloneSource m roots src) (added : RootAdded m m₁ roots root) {before todo : List Region}
    (sameRoot : dst.pml4Phys = root) (loop : CloneLoop m₁ m' (insert root roots) src src' dst before todo) (frame : Nat) :
    (m.phys.Free frame ∧ ¬m'.phys.Free frame) ↔ ∃ table ∈ Tables m' {dst.pml4Phys}, table / pageSize = frame := by
  have total : m'.phys.total = m.phys.total := by rw [loop.shape.total, added.phys, markUsed_total]
  constructor
  · rintro ⟨free, taken⟩
    have used : m'.phys.used frame = true := by
      by_contra unused
      exact taken ⟨total ▸ free.1, by simpa using unused⟩
    rcases loop.shape.taken used with old | new
    · rcases added.used.mp old with before | here
      · rw [free.2] at before
        cases before
      · exact ⟨_, root_mem_nodes rfl, by rw [sameRoot, here]⟩
    · exact new
  · rintro ⟨table, owned, number⟩
    have isRoot : dst.pml4Phys ∈ insert root roots := sameRoot ▸ Set.mem_insert _ _
    have allocated := loop.shape.tables.allocated table (tables_subset isRoot owned)
    rw [← number]
    refine ⟨?_, fun free => absurd (free.2.symm.trans allocated.used) Bool.false_ne_true⟩
    by_cases old : table ∈ Tables m₁ {dst.pml4Phys}
    · rw [sameRoot, added.tables_new source.tables] at old
      rw [show table = root from old]
      exact added.free
    · have free := loop.shape.fresh table owned old
      refine ⟨?_, ?_⟩
      · rw [← markUsed_total m.phys (root / pageSize), ← added.phys]
        exact free.1
      · rw [← Bool.not_eq_true]
        intro used
        have unused := free.2
        rw [added.used.mpr (Or.inl used)] at unused
        cases unused

/-- A complete clone shares everything. -/
theorem CloneLoop.shared (source : CloneSource m roots src) (counts : SpaceCounts src) (added : RootAdded m m₁ roots root)
    (sameRoot : dst.pml4Phys = root) (loop : CloneLoop m₁ m' (insert root roots) src src' dst src.regions []) :
    SharedClone m m' roots src src' dst := by
  have srcNew : src.pml4Phys ≠ root := by
    rintro rfl
    exact added.notTable source.tables (root_mem_nodes source.isRoot)
  have isDst : dst.pml4Phys ∈ insert root roots := sameRoot ▸ Set.mem_insert _ _
  have isSrc : src.pml4Phys ∈ insert root roots := Set.mem_insert_of_mem _ source.isRoot
  have taken := loop.taken source added sameRoot
  refine ⟨loop.regions, ?_, ?_, ?_, ?_, ?_, ?_, taken, ?_, ?_⟩
  · rw [loop.source, loop.regions, List.append_nil]
  · rw [loop.counted, loop.virtual, loop.source]
    exact ⟨counts.regionCount.symm, counts.usedVirtual.symm⟩
  · intro region member va holds
    obtain ⟨flags, dstLeaf, srcLeaf⟩ := loop.leaves source added member holds
    rw [dstLeaf, srcLeaf]
    cases found : m.findPte src.pml4Phys va with
    | none => exact ⟨rfl, rfl⟩
    | some entry =>
        simp only [Option.map_some, entryAddr_cloned, and_self]
  · intro region member va entry holds found
    obtain ⟨flags, dstLeaf, srcLeaf⟩ := loop.leaves source added member holds
    rw [dstLeaf, srcLeaf] at found
    rcases found with found | found
    · obtain ⟨old, _, rfl⟩ := Option.map_eq_some_iff.mp found
      exact clonedEntry_readOnly false flags old
    · obtain ⟨old, _, rfl⟩ := Option.map_eq_some_iff.mp found
      exact clonedEntry_readOnly true flags old
  · intro frame inside used
    have used₁ := added.used.mpr (Or.inl used)
    obtain ⟨_, record⟩ := loop.shape.record frame (by
      rintro table owned new rfl
      exact absurd ((loop.shape.fresh table owned new).2.symm.trans used₁) Bool.false_ne_true)
    refine ⟨loop.shape.used used₁, ?_⟩
    have notRoot : frame ≠ root / pageSize := by
      rintro rfl
      exact absurd (added.free.2.symm.trans used) Bool.false_ne_true
    have inside₁ : frame < m₁.phys.total := by rwa [added.phys, markUsed_total]
    rw [record inside₁, source.mapCount added (List.Subset.refl _), added.phys, markUsed_pageframes, if_neg notRoot]
  · rw [Set.disjoint_left]
    intro table owned
    exact loop.shape.tables.apart isDst isSrc (sameRoot.trans_ne srcNew.symm) owned
  · intro other isOther notSrc va user
    have notDst : other ≠ dst.pml4Phys := by
      rw [sameRoot]
      rintro rfl
      exact added.notTable source.tables (root_mem_nodes isOther)
    rw [loop.shape.otherLeaf other (Set.mem_insert_of_mem _ isOther) notSrc notDst va user, added.leaf other isOther va user]
  · intro page used notSrc
    have notDst : page ∉ Tables m' {dst.pml4Phys} := by
      intro owned
      have free := ((taken (page / pageSize)).mpr ⟨page, owned, rfl⟩).1
      exact absurd (free.2.symm.trans used) Bool.false_ne_true
    have notSrc₁ : page ∉ Tables m₁ {src.pml4Phys} := by rwa [added.tables_old source.tables source.isRoot]
    rw [loop.shape.ram page notDst notSrc₁]
    refine added.ram page ?_
    rintro rfl
    exact absurd (added.free.2.symm.trans used) Bool.false_ne_true

/-- A clone shares every page of its source and copies nothing. -/
theorem clone_shares {kmallocOk : Bool} {nodes : Nat → Bool} (source : CloneSource m roots src) (counts : SpaceCounts src)
    (returned : vmmCloneSpace m src kmallocOk nodes = .ok (some dst, m', src')) : SharedClone m m' roots src src' dst := by
  unfold vmmCloneSpace at returned
  cases created : vmmSpaceCreate m kmallocOk with
  | mk result m₁ =>
      rcases vmmSpaceCreate_spec source.tables created with ⟨rfl, _, _⟩ | ⟨root, rfl, added⟩
      · simp only [created] at returned
        injection returned with same
        cases (Prod.mk.inj same).1
      · simp only [created] at returned
        obtain ⟨⟨done, m₂, src₂, dst₂⟩, regions, rest⟩ := Result.bind_ok returned
        have srcNew : src.pml4Phys ≠ root := by
          rintro rfl
          exact added.notTable source.tables (root_mem_nodes source.isRoot)
        have isDst : (⟨root, [], 0, 0⟩ : Space).pml4Phys ∈ insert root roots := Set.mem_insert _ _
        obtain ⟨sameRoot, cloned, todo, loop, stop⟩ := (added.start src).run (source.created added) isDst srcNew
          (fun i small => absurd small (Nat.not_lt_zero i)) regions
        cases done with
        | false =>
            obtain ⟨m₃, _, last⟩ := Result.bind_ok rest
            injection last with same
            cases (Prod.mk.inj same).1
        | true =>
            injection rest with same
            simp only [Prod.mk.injEq, Option.some.injEq] at same
            obtain ⟨rfl, rfl, rfl⟩ := same
            obtain rfl : todo = [] := stop.2
            have all : src.regions = cloned := loop.split.trans (List.append_nil _)
            rw [← all] at loop
            exact loop.shared source counts added sameRoot

end

theorem AllocOutcome.filled {m m' : Machine} {roots : Set Nat} {space space' : Space} {base count value : Nat}
    {flags : BitVec 32} {nodeOk : Bool}
    (outcome : AllocOutcome m roots space base count flags nodeOk value m' space') (success : value ≠ 0) :
    space' = space.record ⟨base, wrap64 (count * pageSize), vmmRegionUsed ||| flags⟩ ∧
      ∃ frames, AllocatedRange m m' roots space.pml4Phys base count (flagsToPte flags) frames := by
  cases outcome with
  | refused why => exact absurd rfl success
  | failed i frames full inside node filled exhausted _ undone => exact absurd rfl success
  | done frames _ positive node filled => exact ⟨rfl, frames, filled⟩

/-- An allocated range is a source for a clone. -/
theorem AllocatedRange.source {m m' : Machine} {roots : Set Nat} {root base count : Nat} {flags : BitVec 32}
    {frames : Nat → Nat} (filled : AllocatedRange m m' roots root base count (flagsToPte flags) frames)
    (isRoot : root ∈ roots) (range : UserRange base count) (stored : BitVec 32) :
    CloneSource m' roots ⟨root, [⟨base, count * pageSize, stored⟩], 1, count * pageSize⟩ := by
  have pages : count * pageSize / pageSize = count := Nat.mul_div_cancel _ (by decide)
  have whole : UserRange base (count * pageSize / pageSize) := by rwa [pages]
  refine ⟨filled.tables, isRoot, ?_, List.pairwise_singleton _ _, List.pairwise_singleton _ _, ?_⟩
  · intro region member
    rw [List.mem_singleton.mp member]
    exact ⟨whole, Nat.mul_mod_left _ _⟩
  · intro region member va entry holds found
    rw [List.mem_singleton.mp member] at holds
    obtain ⟨user, least, below⟩ := holds_covers whole (Nat.mul_mod_left _ _) holds
    simp only [pages] at least below
    rw [filled.leaf root isRoot va user, if_pos ⟨rfl, least, below⟩] at found
    obtain ⟨allocated, same⟩ := filled.frame (flagsToPte_page flags) (i := va / pageSize - base / pageSize) (by omega)
    rw [← Option.some.inj found, same]
    exact allocated.nonzero

theorem clone_shares_two : ∃ middle taken m' src' dst,
    vmmSpaceAlloc smallSpace.2 ⟨0x2000, [], 0, 0⟩ 0x400000 2 0x34 true = .ok (0x400000, middle, taken) ∧
      vmmCloneSpace middle taken true (fun _ => true) = .ok (some dst, m', src') ∧
      SharedClone middle m' {0x2000} taken src' dst := by
  have checked : (((vmmSpaceAlloc smallSpace.2 ⟨0x2000, [], 0, 0⟩ 0x400000 2 0x34 true).bind fun taken =>
      (vmmCloneSpace taken.2.1 taken.2.2 true fun _ => true).map fun cloned =>
        decide (taken.1 = 0x400000) && cloned.1.isSome).toOption) = some true := by decide +kernel
  have succeeds : ((vmmSpaceAlloc smallSpace.2 ⟨0x2000, [], 0, 0⟩ 0x400000 2 0x34 true).map Prod.fst).toOption =
      some 0x400000 := by decide +kernel
  obtain ⟨⟨value, middle, taken⟩, allocated, rfl⟩ := exists_of_toOption succeeds
  rw [allocated] at checked
  obtain ⟨⟨result, m', src'⟩, cloned, both⟩ := exists_of_toOption checked
  obtain ⟨_, isSome⟩ := Bool.and_eq_true_iff.mp both
  obtain ⟨dst, rfl⟩ := Option.isSome_iff_exists.mp isSome
  have range : UserRange (pageAlignDown 0x400000) 2 := ⟨by decide, by decide⟩
  obtain ⟨rfl, frames, filled⟩ :=
    (vmmSpaceAlloc_spec smallSpace_wellFormed.tables (Set.mem_singleton 0x2000) range allocated).filled (by decide)
  refine ⟨middle, _, m', src', dst, allocated, cloned, ?_⟩
  exact clone_shares (filled.source rfl range _) ⟨rfl, rfl⟩ cloned

end DoccrOS.Mem
