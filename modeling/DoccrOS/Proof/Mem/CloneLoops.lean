import DoccrOS.Proof.Mem.CowBreak
import DoccrOS.Proof.Mem.UserMemory

namespace DoccrOS.Mem
open Lib.Radix Lib

/-- The record of a frame after it was shared `n` times. -/
def sharedRecord (old : Pageframe) (n : Nat) : Pageframe :=
  if n = 0 then old else ⟨wrap32 (old.rc + n), old.flags ||| frameCow ||| frameShared⟩

/-- The page of an address maps the frame. -/
def mapsFrame (m : Machine) (root frame va : Nat) : Bool :=
  (m.findPte root va).any fun entry => entryAddr entry / pageSize == frame

/-- The number of pages of a range that map a frame. -/
def rangeCount (m : Machine) (root frame base count : Nat) : Nat :=
  (List.range count).countP fun i => mapsFrame m root frame (base + i * pageSize)

/-- The number of pages of the regions that map a frame. -/
def mapCount (m : Machine) (root frame : Nat) (regions : List Region) : Nat :=
  (regions.map fun region => rangeCount m root frame region.base (region.size / pageSize)).sum

/-- The flags that `vmm_clone_space` gives to the pages of the source and of the clone. -/
def clonePte (isSrc : Bool) (flags : BitVec 32) : Word :=
  (if isSrc then flagsToPte flags else flagsToPte (cowFlags flags)) &&& ~~~pteWritable

/-- The entry of a page after its region was cloned. -/
def clonedEntry (isSrc : Bool) (flags : BitVec 32) (entry : Word) : Word :=
  leafEntry (entryAddr entry) (clonePte isSrc flags)

/-- The machine after some pages were cloned: `flags` tells the flags of their regions, and `count` counts them by frame. -/
structure CloneShape (m m' : Machine) (roots : Set Nat) (src dst : Nat) (flags : Nat → Option (BitVec 32))
    (count : Nat → Nat) : Prop where
  tables : TableInv m' roots
  srcLeaf : ∀ va, UserVa va → m'.findPte src va = (m.findPte src va).map fun entry =>
    ((flags (va / pageSize)).map fun flags => clonedEntry true flags entry).getD entry
  dstLeaf : ∀ va, UserVa va → m'.findPte dst va =
    (flags (va / pageSize)).bind fun flags => (m.findPte src va).map (clonedEntry false flags)
  otherLeaf : ∀ root ∈ roots, root ≠ src → root ≠ dst → ∀ va, UserVa va → m'.findPte root va = m.findPte root va
  srcTables : Tables m' {src} = Tables m {src}
  dstTables : Tables m {dst} ⊆ Tables m' {dst}
  fresh : ∀ table ∈ Tables m' {dst}, table ∉ Tables m {dst} → m.phys.Free (table / pageSize)
  record : ∀ frame, (∀ table ∈ Tables m' {dst}, table ∉ Tables m {dst} → table / pageSize ≠ frame) →
    m'.phys.used frame = m.phys.used frame ∧ (frame < m.phys.total →
      m'.phys.pageframes frame = sharedRecord (m.phys.pageframes frame) (count frame))
  occupied : AllOccupied m {dst} → AllOccupied m' {dst}
  ram : ∀ page, page ∉ Tables m' {dst} → page ∉ Tables m {src} → m'.ram page = m.ram page
  kernelHalf : ∀ root ∈ roots, ∀ index : Fin 512, 256 ≤ index.val → m'.ram root index = m.ram root index
  total : m'.phys.total = m.phys.total
  kernelPml4 : m'.kernelPml4 = m.kernelPml4

instance (region : Region) (page : Nat) : Decidable (region.covers page) := inferInstanceAs (Decidable (_ ∧ _))

/-- The flags of the region that holds a page. -/
def pageFlags (regions : List Region) (page : Nat) : Option (BitVec 32) :=
  (regions.find? fun region => decide (region.covers page)).map Region.flags

/-- The flags of the pages after a range got the flags of its region. -/
def withRange (flags : Nat → Option (BitVec 32)) (base count : Nat) (region : BitVec 32) (page : Nat) : Option (BitVec 32) :=
  if base / pageSize ≤ page ∧ page < base / pageSize + count then some region else flags page

/-- The region after it was shared. -/
def Region.shared (region : Region) : Region := { region with flags := cowFlags region.flags }

/-- The regions of a source are sorted disjoint ranges of whole user pages, and none of its pages maps frame `0`. -/
structure CloneSource (m : Machine) (roots : Set Nat) (src : Space) : Prop where
  tables : TableInv m roots
  isRoot : src.pml4Phys ∈ roots
  ranges : ∀ region ∈ src.regions, UserRange region.base (region.size / pageSize) ∧ region.size % pageSize = 0
  sorted : src.regions.Pairwise fun first second => first.base < second.base
  disjoint : src.regions.Pairwise Region.apart
  frames : ∀ region ∈ src.regions, ∀ va entry, region.holds va = true → m.findPte src.pml4Phys va = some entry →
    entryAddr entry ≠ 0

/-- The region loop after it cloned the regions `before`. -/
structure CloneLoop (m m' : Machine) (roots : Set Nat) (src src' dst : Space) (before todo : List Region) : Prop where
  shape : CloneShape m m' roots src.pml4Phys dst.pml4Phys (pageFlags before)
    fun frame => mapCount m src.pml4Phys frame before
  split : src.regions = before ++ todo
  source : src' = { src with regions := before.map Region.shared ++ todo }
  regions : dst.regions = before.map Region.shared
  counted : dst.regionCount = wrap64 before.length
  virtual : dst.usedVirtual = wrap64 (before.map Region.size).sum

section
variable {m m' next : Machine} {roots : Set Nat} {src dst va cell root : Nat} {flags : Nat → Option (BitVec 32)}
  {count : Nat → Nat} {region : BitVec 32} {entry : Word}

theorem sharedRecord_succ (old : Pageframe) (n : Nat) : sharedRecord (sharedRecord old n) 1 = sharedRecord old (n + 1) := by
  unfold sharedRecord
  by_cases none : n = 0
  · simp [none]
  · have merged : old.flags ||| frameCow ||| frameShared ||| frameCow ||| frameShared =
        old.flags ||| frameCow ||| frameShared := by
      ext i inside
      simp only [BitVec.getElem_or]
      cases old.flags[i] <;> cases frameCow[i] <;> cases frameShared[i] <;> rfl
    simp only [none, if_false, Nat.add_eq_zero_iff, one_ne_zero, and_false, merged]
    congr 1
    unfold wrap32
    omega

/-- The tables below two roots of a forest are different. -/
theorem TableInv.apart (inv : TableInv m roots) {root root' : Nat} (isRoot : root ∈ roots) (isRoot' : root' ∈ roots)
    (different : root ≠ root') {table : Nat} (owned : table ∈ Tables m {root}) : table ∉ Tables m {root'} := by
  intro owned'
  obtain ⟨first, rfl, path, admitted, reached⟩ := owned
  obtain ⟨second, rfl, path', admitted', reached'⟩ := owned'
  exact different (inv.forest isRoot isRoot' admitted admitted' reached reached').1

theorem tables_subset (isRoot : root ∈ roots) : Tables m {root} ⊆ Tables m roots := by
  intro table owned
  obtain ⟨first, rfl, path, admitted, reached⟩ := owned
  exact mem_nodes isRoot admitted reached

theorem TableInv.single (inv : TableInv m roots) (isRoot : root ∈ roots) : TableInv m {root} :=
  ⟨inv.forest.mono (Set.singleton_subset_iff.mpr isRoot), fun table owned => inv.allocated table (tables_subset isRoot owned),
    inv.zeroUsed⟩

/-- The tracking tables after a frame was shared; a frame behind the last one is not tracked. -/
theorem shared_phys (m : Machine) (cell query : Nat) :
    let p := physmemFrameRcInc m.phys cell
    let p := physmemFrameFlagsSet p cell (physmemFrameFlagsGet p cell ||| frameCow ||| frameShared)
    p.total = m.phys.total ∧ p.used query = m.phys.used query ∧ (query < m.phys.total →
      p.pageframes query = sharedRecord (m.phys.pageframes query) (if cell / pageSize = query then 1 else 0)) := by
  by_cases beyond : cell / pageSize ≥ m.phys.total
  · have untracked : physmemFrameRcInc m.phys cell = m.phys := if_pos beyond
    simp only [untracked, physmemFrameFlagsSet, beyond, if_true, true_and]
    intro inside
    rw [if_neg (by omega)]
    rfl
  · have increment : physmemFrameRcInc m.phys cell = m.phys.setFrame (cell / pageSize)
        { m.phys.pageframes (cell / pageSize) with
          rc := wrap32 ((m.phys.pageframes (cell / pageSize)).rc + 1) } := by
      simp [physmemFrameRcInc, beyond]
    simp only [increment, physmemFrameFlagsSet, physmemFrameFlagsGet, setFrame_total, beyond, if_false, setFrame_used,
      setFrame_pageframes, if_true, true_and]
    intro _
    by_cases same : query = cell / pageSize
    · simp [same, sharedRecord]
    · simp [same, Ne.symm same, sharedRecord]

/-- A page of the clone is mapped. -/
structure ClonePageMapped (m m' : Machine) (roots : Set Nat) (dst va : Nat) (leaf : Word) : Prop where
  mapped : Mapped m m' roots dst va leaf
  single : Grown m m' {dst}
  occupied : AllOccupied m {dst} → AllOccupied m' {dst}
  srcTables : ∀ root ∈ roots, root ≠ dst → Tables m' {root} = Tables m {root}

/-- A new page of one root changes the tables of that root only. -/
theorem pagingMapPageIn_single {phys : Nat} {pteFlags : Word} (inv : TableInv m roots) (isRoot : root ∈ roots)
    (user : UserVa va) (present : entryPresent pteFlags = true)
    (returned : pagingMapPageIn m root va phys pteFlags = .ok m') :
    ClonePageMapped m m' roots root va (leafEntry phys pteFlags) := by
  have mapped := pagingMapPageIn_spec inv isRoot user present returned
  have alone := pagingMapPageIn_spec (inv.single isRoot) rfl user present returned
  have single := alone.grown
  refine ⟨mapped, single, alone.allOccupied, ?_⟩
  intro other isOther different
  refine (tables_congr ?_).2
  intro table owned _ index _ _
  have owned' : table ∈ Tables m' {other} := by
    obtain ⟨first, rfl, path, admitted, reached⟩ := owned
    exact mem_nodes rfl admitted (mapped.grown.walks first isOther path table admitted reached)
  unfold Machine.child
  rw [single.ram table (mapped.grown.inv.apart isOther isRoot different owned')]

theorem findPte_page {va' : Nat} (same : va' / pageSize = va / pageSize) : m.findPte root va' = m.findPte root va := by
  rw [← findPte_align m root va', same, findPte_align]

/-- A page that is not mapped stays out of the clone. -/
theorem CloneShape.skip (shape : CloneShape m m' roots src dst flags count) (fresh : flags (va / pageSize) = none)
    (absent : m.findPte src va = none) :
    CloneShape m m' roots src dst (Function.update flags (va / pageSize) (some region)) count := by
  refine { shape with srcLeaf := ?_, dstLeaf := ?_ }
  · intro va' user
    rw [shape.srcLeaf va' user]
    by_cases here : va' / pageSize = va / pageSize
    · rw [findPte_page here, absent]
      rfl
    · rw [Function.update_of_ne here]
  · intro va' user
    rw [shape.dstLeaf va' user]
    by_cases here : va' / pageSize = va / pageSize
    · rw [here, Function.update_self, fresh, findPte_page here, absent]
      rfl
    · rw [Function.update_of_ne here]

/-- The used frames stay used. -/
theorem CloneShape.used (shape : CloneShape m m' roots src dst flags count) {frame : Nat}
    (used : m.phys.used frame = true) : m'.phys.used frame = true := by
  rw [(shape.record frame ?_).1]
  · exact used
  · rintro table owned new rfl
    exact absurd ((shape.fresh table owned new).2.symm.trans used) Bool.false_ne_true

/-- A frame that becomes used is a table of the clone. -/
theorem CloneShape.taken (shape : CloneShape m m' roots src dst flags count) {frame : Nat}
    (used : m'.phys.used frame = true) :
    m.phys.used frame = true ∨ ∃ table ∈ Tables m' {dst}, table / pageSize = frame := by
  by_cases new : ∃ table ∈ Tables m' {dst}, table / pageSize = frame
  · exact Or.inr new
  · rw [(shape.record frame fun table owned _ same => new ⟨table, owned, same⟩).1] at used
    exact Or.inl used

/-- A mapped page is shared: its frame is counted, the clone maps it, and the source maps it for reading. -/
theorem CloneShape.share {m₁ : Machine} (shape : CloneShape m m' roots src dst flags count) (isSrc : src ∈ roots)
    (isDst : dst ∈ roots) (different : src ≠ dst) (user : UserVa va) (fresh : flags (va / pageSize) = none)
    (mapped : m.findPte src va = some entry)
    (dstMap : (let p := physmemFrameRcInc m'.phys (entryAddr entry)
      let p := physmemFrameFlagsSet p (entryAddr entry)
        (physmemFrameFlagsGet p (entryAddr entry) ||| frameCow ||| frameShared)
      pagingMapPageIn { m' with phys := p } dst va (entryAddr entry) (clonePte false region)) = .ok m₁)
    (srcMap : pagingMapPageIn m₁ src va (entryAddr entry) (clonePte true region) = .ok next) :
    CloneShape m next roots src dst (Function.update flags (va / pageSize) (some region))
      (fun frame => count frame + if mapsFrame m src frame va then 1 else 0) := by
  have shared (query : Nat) := shared_phys m' (entryAddr entry) query
  simp only at shared dstMap
  generalize physmemFrameFlagsSet (physmemFrameRcInc m'.phys (entryAddr entry)) (entryAddr entry) (physmemFrameFlagsGet
    (physmemFrameRcInc m'.phys (entryAddr entry)) (entryAddr entry) ||| frameCow ||| frameShared) = p at shared dstMap
  have tables₀ : TableInv { m' with phys := p } roots := by
    refine shape.tables.withPhys (shared 0).1 ?_ ?_
    · rw [(shared 0).2.1]
      exact shape.tables.zeroUsed
    · intro table _
      rw [(shared _).2.1]
  have toDst := pagingMapPageIn_single tables₀ isDst user (readOnly_page _).present dstMap
  have found₁ : m₁.findPte src va = some entry := by
    rw [toDst.mapped.leaf src isSrc va user, if_neg fun both => different both.1, findPte_withPhys, shape.srcLeaf va user,
      fresh, mapped]
    rfl
  obtain ⟨next', map, set⟩ := pagingMapPageIn_present (entryAddr entry) toDst.mapped.grown.inv isSrc user found₁
    (readOnly_page region).present
  obtain rfl : next' = next := Except.ok.inj (map.symm.trans srcMap)
  obtain ⟨next'', map', setSrc⟩ := pagingMapPageIn_present (entryAddr entry) (toDst.mapped.grown.inv.single isSrc) rfl user
    found₁ (readOnly_page region).present
  obtain rfl : next'' = next' := Except.ok.inj (map'.symm.trans srcMap)
  have srcSame : Tables m₁ {src} = Tables m {src} := (toDst.srcTables src isSrc different).trans shape.srcTables
  have dstSame : Tables next'' {dst} = Tables m₁ {dst} := by
    refine nodes_congr ?_
    rintro other rfl path admitted
    exact set.walks other isDst path admitted
  refine ⟨set.inv, ?_, ?_, ?_, ?_, ?_, ?_, ?_, ?_, ?_, ?_, ?_, ?_⟩
  · intro va' user'
    rw [set.leaf src isSrc va' user']
    by_cases here : va' / pageSize = va / pageSize
    · rw [if_pos ⟨rfl, here⟩, here, Function.update_self, findPte_page here, mapped]
      rfl
    · rw [if_neg fun both => here both.2, toDst.mapped.leaf src isSrc va' user', if_neg fun both => different both.1,
        findPte_withPhys, shape.srcLeaf va' user', Function.update_of_ne here]
  · intro va' user'
    rw [set.leaf dst isDst va' user', if_neg fun both => different both.1.symm, toDst.mapped.leaf dst isDst va' user']
    by_cases here : va' / pageSize = va / pageSize
    · rw [if_pos ⟨rfl, here⟩, here, Function.update_self, findPte_page here, mapped]
      rfl
    · rw [if_neg fun both => here both.2, findPte_withPhys, shape.dstLeaf va' user', Function.update_of_ne here]
  · intro root isRoot notSrc notDst va' user'
    rw [set.leaf root isRoot va' user', if_neg fun both => notSrc both.1, toDst.mapped.leaf root isRoot va' user',
      if_neg fun both => notDst both.1, findPte_withPhys]
    exact shape.otherLeaf root isRoot notSrc notDst va' user'
  · exact setSrc.tables.trans srcSame
  · rw [dstSame]
    exact shape.dstTables.trans toDst.single.tables
  · intro table owned new
    rw [dstSame] at owned
    by_cases old : table ∈ Tables m' {dst}
    · exact shape.fresh table old new
    · have free := (toDst.single.fresh table owned old).1
      refine ⟨?_, ?_⟩
      · rw [← shape.total, ← (shared 0).1]
        exact free.1
      · rw [← Bool.not_eq_true]
        intro used
        have unused : p.used (table / pageSize) = false := free.2
        rw [(shared _).2.1, shape.used used] at unused
        cases unused
  · intro frame apart
    rw [dstSame] at apart
    obtain ⟨sameUsed, record⟩ := shape.record frame fun table owned new => apart table (toDst.single.tables owned) new
    obtain ⟨sameUsed₁, same⟩ := toDst.single.kept frame fun table owned new =>
      apart table owned fun old => new (shape.dstTables old)
    rw [set.phys]
    refine ⟨sameUsed₁.trans ((shared frame).2.1.trans sameUsed), ?_⟩
    intro inside
    rw [same, (shared frame).2.2 (shape.total ▸ inside), record inside]
    unfold mapsFrame
    rw [mapped, Option.any_some]
    by_cases here : entryAddr entry / pageSize = frame
    · simp only [here, if_true, beq_self_eq_true]
      exact sharedRecord_succ _ _
    · simp only [here, if_false, beq_iff_eq]
      rfl
  · intro held table owned notRoot
    rw [dstSame] at owned
    have notSrc : table ∉ Tables m₁ {src} := toDst.mapped.grown.inv.apart isDst isSrc different.symm owned
    obtain ⟨index, present⟩ := toDst.occupied (shape.occupied held) table owned notRoot
    exact ⟨index, by rwa [setSrc.ram table notSrc]⟩
  · intro page notDst notSrc
    rw [dstSame] at notDst
    have notSrc₁ : page ∉ Tables m₁ {src} := by rwa [srcSame]
    rw [setSrc.ram page notSrc₁, toDst.single.ram page notDst]
    exact shape.ram page (fun owned => notDst (toDst.single.tables owned)) notSrc
  · intro root isRoot index high
    exact (set.kernelHalf root isRoot index high).trans
      ((toDst.mapped.grown.kernelHalf root isRoot index high).trans (shape.kernelHalf root isRoot index high))
  · rw [set.phys, toDst.mapped.grown.total, ← shape.total]
    exact (shared 0).1
  · exact set.kernelPml4.trans (toDst.mapped.grown.kernelPml4.trans shape.kernelPml4)

theorem withRange_zero (flags : Nat → Option (BitVec 32)) (base : Nat) : withRange flags base 0 region = flags := by
  funext page
  exact if_neg (by omega)

theorem withRange_succ (flags : Nat → Option (BitVec 32)) (base i : Nat) : withRange flags base (i + 1) region =
    Function.update (withRange flags base i region) (base / pageSize + i) (some region) := by
  funext page
  by_cases here : page = base / pageSize + i
  · rw [here, Function.update_self]
    exact if_pos (by omega)
  · rw [Function.update_of_ne here]
    have same : (base / pageSize ≤ page ∧ page < base / pageSize + (i + 1)) ↔
        (base / pageSize ≤ page ∧ page < base / pageSize + i) := by omega
    simp only [withRange, same]

theorem rangeCount_succ (m : Machine) (root frame base i : Nat) : rangeCount m root frame base (i + 1) =
    rangeCount m root frame base i + if mapsFrame m root frame (base + i * pageSize) then 1 else 0 := by
  rw [rangeCount, List.range_succ, List.countP_append, List.countP_singleton]
  rfl

/-- The page loop of `vmm_clone_space` shares the mapped pages of its region. -/
theorem CloneShape.pages {base pages : Nat} (shape : CloneShape m m' roots src dst flags count) (isSrc : src ∈ roots)
    (isDst : dst ∈ roots) (different : src ≠ dst) (range : UserRange base pages)
    (fresh : ∀ i, i < pages → flags (base / pageSize + i) = none)
    (frames : ∀ i entry, i < pages → m.findPte src (base + i * pageSize) = some entry → entryAddr entry ≠ 0)
    (returned : vmmClonePages src dst base (clonePte true region) (clonePte false region) pages m' = .ok next) :
    CloneShape m next roots src dst (withRange flags base pages region)
      (fun frame => count frame + rangeCount m src frame base pages) := by
  let holds (i : Nat) (state : Machine) : Prop := CloneShape m state roots src dst (withRange flags base i region)
    (fun frame => count frame + rangeCount m src frame base i)
  have start : holds 0 m' := by
    change CloneShape m m' roots src dst _ _
    rw [withRange_zero]
    exact shape
  change holds pages next
  refine foldlM_range start ?_ returned
  intro i state next inside held call
  obtain ⟨wrapped, user, number⟩ := range.address inside
  rw [wrapped] at call
  have new : withRange flags base i region ((base + i * pageSize) / pageSize) = none := by
    rw [number]
    exact (if_neg (by omega)).trans (fresh i inside)
  change CloneShape m next roots src dst _ _
  rw [withRange_succ, ← number]
  unfold vmmClonePage pteLookup at call
  have found := held.srcLeaf _ user
  rw [new] at found
  cases mapped : m.findPte src (base + i * pageSize) with
  | none =>
      rw [mapped] at found
      simp only [found, Option.map_none, if_true] at call
      injection call with same
      rw [← same]
      have unmoved : (fun frame => count frame + rangeCount m src frame base (i + 1)) =
          fun frame => count frame + rangeCount m src frame base i := by
        funext frame
        rw [rangeCount_succ, mapsFrame, mapped]
        rfl
      rw [unmoved]
      exact held.skip new mapped
  | some entry =>
      rw [mapped] at found
      have nonzero := frames i entry inside mapped
      simp only [found, Option.map_some, Option.map_none, Option.getD_none, nonzero, if_false] at call
      obtain ⟨middle, dstCall, srcCall⟩ := Result.bind_ok call
      have counts : (fun frame => count frame + rangeCount m src frame base (i + 1)) =
          fun frame => (count frame + rangeCount m src frame base i) +
            if mapsFrame m src frame (base + i * pageSize) then 1 else 0 := by
        funext frame
        rw [rangeCount_succ, Nat.add_assoc]
      rw [counts]
      exact held.share isSrc isDst different user new mapped dstCall srcCall

theorem insertRegion_last {node : Region} {regions : List Region} (last : ∀ region ∈ regions, region.base < node.base) :
    insertRegion node regions = regions ++ [node] := by
  induction regions with
  | nil => rfl
  | cons cur rest ih =>
      rw [insertRegion, if_pos (last cur List.mem_cons_self), ih fun region member => last region (List.mem_cons_of_mem _ member)]
      rfl

theorem pageFlags_append {before : List Region} {cur : Region} (apart : ∀ other ∈ before, other.apart cur) :
    pageFlags (before ++ [cur]) = withRange (pageFlags before) cur.base (cur.size / pageSize) cur.flags := by
  funext page
  rw [pageFlags, List.find?_append]
  by_cases here : cur.covers page
  · have early : before.find? (fun region => decide (region.covers page)) = none := by
      rw [List.find?_eq_none]
      intro other member covers
      exact apart other member page (of_decide_eq_true covers) here
    rw [early, List.find?_cons_of_pos (by simpa using here)]
    exact (if_pos here).symm
  · rw [List.find?_cons_of_neg (by simpa using here), List.find?_nil, Option.or_none]
    exact (if_neg here).symm

theorem mapCount_append (m : Machine) (root frame : Nat) (before : List Region) (cur : Region) :
    mapCount m root frame (before ++ [cur]) =
      mapCount m root frame before + rangeCount m root frame cur.base (cur.size / pageSize) := by
  rw [mapCount, List.map_append, List.sum_append, List.map_singleton, List.sum_singleton]
  rfl

/-- Where the region loop stops: behind the last region, or at a region that gets no node. -/
def CloneStop (nodes : Nat → Bool) (done : Bool) (cloned rest : List Region) : Prop :=
  (∀ i, i < cloned.length → nodes i = true) ∧
    if done then rest = [] else rest ≠ [] ∧ nodes cloned.length = false

/-- A further region is cloned. -/
theorem CloneLoop.step {src src' dst : Space} {before todo : List Region} {cur : Region} (source : CloneSource m roots src)
    (isDst : dst.pml4Phys ∈ roots) (different : src.pml4Phys ≠ dst.pml4Phys)
    (loop : CloneLoop m m' roots src src' dst before (cur :: todo))
    (returned : vmmClonePages src.pml4Phys dst.pml4Phys cur.base (clonePte true cur.flags) (clonePte false cur.flags)
      (cur.size / pageSize) m' = .ok next) :
    CloneLoop m next roots src { src' with regions := src'.regions.set before.length cur.shared } (dst.record cur.shared)
      (before ++ [cur]) todo := by
  have member : cur ∈ src.regions := by
    rw [loop.split]
    exact List.mem_append_right _ List.mem_cons_self
  obtain ⟨range, whole⟩ := source.ranges cur member
  have pairs := source.disjoint
  have order := source.sorted
  rw [loop.split] at pairs order
  have apart : ∀ other ∈ before, other.apart cur := fun other early =>
    (List.pairwise_append.mp pairs).2.2 other early cur List.mem_cons_self
  have last : ∀ region ∈ dst.regions, region.base < cur.shared.base := by
    rw [loop.regions]
    intro region isShared
    obtain ⟨other, early, rfl⟩ := List.mem_map.mp isShared
    exact (List.pairwise_append.mp order).2.2 other early cur List.mem_cons_self
  have fresh : ∀ i, i < cur.size / pageSize → pageFlags before (cur.base / pageSize + i) = none := by
    intro i inside
    rw [pageFlags, Option.map_eq_none_iff, List.find?_eq_none]
    intro other early covers
    exact apart other early _ (of_decide_eq_true covers) (Region.covers_iff.mpr ⟨i, inside, rfl⟩)
  have frames : ∀ i entry, i < cur.size / pageSize →
      m.findPte src.pml4Phys (cur.base + i * pageSize) = some entry → entryAddr entry ≠ 0 := by
    intro i entry inside found
    exact source.frames cur member _ entry (Region.holds_page range whole inside) found
  have shape := loop.shape.pages source.isRoot isDst different range fresh frames returned
  refine ⟨?_, ?_, ?_, ?_, ?_, ?_⟩
  · rw [pageFlags_append apart]
    have counts : (fun frame => mapCount m src.pml4Phys frame (before ++ [cur])) = fun frame =>
        mapCount m src.pml4Phys frame before + rangeCount m src.pml4Phys frame cur.base (cur.size / pageSize) := by
      funext frame
      exact mapCount_append m src.pml4Phys frame before cur
    rw [counts]
    exact shape
  · rw [loop.split, List.append_assoc]
    rfl
  · rw [loop.source]
    have length : before.length = (before.map Region.shared).length := (List.length_map _).symm
    simp only [Space.mk.injEq, true_and, and_true]
    rw [length, List.set_append_right _ _ (Nat.le_refl _), Nat.sub_self, List.map_append, List.append_assoc]
    rfl
  · change insertRegion cur.shared dst.regions = _
    rw [insertRegion_last last, loop.regions, List.map_append]
    rfl
  · change wrap64 (dst.regionCount + 1) = _
    rw [loop.counted, List.length_append, wrap64, wrap64, Nat.mod_add_mod]
    rfl
  · change wrap64 (dst.usedVirtual + cur.size) = _
    rw [loop.virtual, List.map_append, List.sum_append, wrap64, wrap64, Nat.mod_add_mod, List.map_singleton,
      List.sum_singleton]
    rfl

/-- The region loop of `vmm_clone_space` clones the regions in order up to a failed allocation. -/
theorem CloneLoop.run {nodes : Nat → Bool} {src src' dst srcEnd dstEnd : Space} {before todo : List Region} {done : Bool}
    {last : Machine} (source : CloneSource m roots src) (isDst : dst.pml4Phys ∈ roots)
    (different : src.pml4Phys ≠ dst.pml4Phys) (loop : CloneLoop m m' roots src src' dst before todo)
    (granted : ∀ i, i < before.length → nodes i = true)
    (returned : vmmCloneRegions nodes before.length todo m' src' dst = .ok (done, last, srcEnd, dstEnd)) :
    dstEnd.pml4Phys = dst.pml4Phys ∧ ∃ cloned rest, CloneLoop m last roots src srcEnd dstEnd cloned rest ∧
      CloneStop nodes done cloned rest := by
  induction todo generalizing m' src' dst before with
  | nil =>
      injection returned with same
      simp only [Prod.mk.injEq] at same
      obtain ⟨rfl, rfl, rfl, rfl⟩ := same
      exact ⟨rfl, before, [], loop, granted, rfl⟩
  | cons cur todo ih =>
      rw [vmmCloneRegions] at returned
      cases node : nodes before.length with
      | false =>
          simp only [node, Bool.not_false, if_true] at returned
          injection returned with same
          simp only [Prod.mk.injEq] at same
          obtain ⟨rfl, rfl, rfl, rfl⟩ := same
          exact ⟨rfl, before, cur :: todo, loop, granted, List.cons_ne_nil _ _, node⟩
      | true =>
          simp only [node, Bool.not_true, Bool.false_eq_true, if_false] at returned
          obtain ⟨m₁, pages, rest⟩ := Result.bind_ok returned
          have sameRoot : src'.pml4Phys = src.pml4Phys := by rw [loop.source]
          rw [sameRoot] at pages
          have next := loop.step source isDst different pages
          have length : (before ++ [cur]).length = before.length + 1 := by simp
          rw [← length] at rest
          refine @ih m₁ _ (dst.record cur.shared) (before ++ [cur]) isDst different next ?_ rest
          intro i small
          rw [length] at small
          rcases Nat.lt_succ_iff_lt_or_eq.mp small with early | rfl
          · exact granted i early
          · exact node

end

end DoccrOS.Mem
