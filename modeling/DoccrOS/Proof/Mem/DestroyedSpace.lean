import DoccrOS.Proof.Mem.CloneLoops
import DoccrOS.Proof.Mem.DestroyEnds
import DoccrOS.Proof.Mem.OccupiedTables

namespace DoccrOS.Mem
open Lib.Radix Lib

/-- How often a release of the region drops a frame. -/
def regionDrops (m : Machine) (root frame : Nat) (region : Region) : Nat :=
  dropCount m root region.base (hasFlag region.flags vmmRegionMmio) frame (region.size / pageSize)

/-- How often a release of all regions drops a frame. -/
def spaceDrops (m : Machine) (root frame : Nat) (regions : List Region) : Nat := (regions.map (regionDrops m root frame)).sum

/-- The regions of a space hold all its pages, they do not overlap, and their data frames are tracked and no tables. -/
structure Destroyable (m : Machine) (space : Space) : Prop where
  tables : TableInv m {space.pml4Phys}
  occupied : AllOccupied m {space.pml4Phys}
  ranges : ∀ region ∈ space.regions, UserRange region.base (region.size / pageSize) ∧ hasFlag region.flags vmmRegionUsed = true
  apart : space.regions.Pairwise Region.apart
  tracked : ∀ region ∈ space.regions, DropsTracked m {space.pml4Phys} space.pml4Phys region.base (region.size / pageSize)
    (hasFlag region.flags vmmRegionMmio)
  covered : ∀ va, UserVa va → m.findPte space.pml4Phys va ≠ none → ∃ region ∈ space.regions, region.covers (va / pageSize)

/-- The machine after the regions `before` of a root were freed. -/
structure FreedRegions (m m' : Machine) (root : Nat) (before : List Region) : Prop where
  inv : TableInv m' {root}
  tables : Tables m' {root} ⊆ Tables m {root}
  cleared : ∀ region ∈ before, ∀ va, UserVa va → region.covers (va / pageSize) → m'.findPte root va = none
  rest : ∀ va, UserVa va → (∀ region ∈ before, ¬region.covers (va / pageSize)) → m'.findPte root va = m.findPte root va
  gone : ∀ table ∈ Tables m {root}, table ∉ Tables m' {root} → m'.phys.used (table / pageSize) = false ∧
    m'.phys.pageframes (table / pageSize) = ⟨0, frameFree⟩
  frames : ∀ frame, (∀ table ∈ Tables m {root}, table / pageSize ≠ frame) →
    Dropped m.phys m'.phys (spaceDrops m root frame before) frame
  ram : ∀ page, page ∉ Tables m {root} → m'.ram page = m.ram page
  occupied : AllOccupied m {root} → AllOccupied m' {root}
  total : m'.phys.total = m.phys.total
  kernelPml4 : m'.kernelPml4 = m.kernelPml4

/-- The tables of a destroyed space are free again, every data frame was dropped, and nothing else changed. -/
structure ReleasedSpace (m m' : Machine) (space : Space) : Prop where
  tables : ∀ table ∈ Tables m {space.pml4Phys}, m'.phys.used (table / pageSize) = false ∧
    m'.phys.pageframes (table / pageSize) = ⟨0, frameFree⟩
  frames : ∀ frame, (∀ table ∈ Tables m {space.pml4Phys}, table / pageSize ≠ frame) →
    Dropped m.phys m'.phys (spaceDrops m space.pml4Phys frame space.regions) frame
  ram : ∀ page, page ∉ Tables m {space.pml4Phys} → m'.ram page = m.ram page
  total : m'.phys.total = m.phys.total
  kernelPml4 : m'.kernelPml4 = m.kernelPml4

section
variable {m m' next : Machine} {root n k frame : Nat} {before rest : List Region} {cur : Region} {space : Space}
  {p p' p'' : PhysMem}

/-- Drops of a frame add up. -/
theorem Dropped.trans (first : Dropped p p' n frame) (second : Dropped p' p'' k frame) : Dropped p p'' (n + k) frame := by
  unfold Dropped at *
  by_cases none : n = 0
  · rw [if_pos none] at first
    rw [none, Nat.zero_add]
    rw [first.1, first.2] at second
    exact second
  · rw [if_neg none] at first
    rw [if_neg (by omega)]
    by_cases some : n < (p.pageframes frame).rc
    · rw [if_pos some] at first
      rw [first.1, first.2] at second
      simp only at second
      split at second
      · rename_i zero
        rw [zero, Nat.add_zero, if_pos some]
        exact second
      · split at second
        · rw [if_pos (by omega), ← Nat.sub_sub]
          exact second
        · rw [if_neg (by omega)]
          exact second
    · rw [if_neg some] at first
      rw [if_neg (by omega)]
      rw [first.1, first.2] at second
      simp only [Nat.not_lt_zero, if_false] at second
      split at second
      · exact second
      · exact second

/-- The pages of a later region still map what they mapped. -/
theorem FreedRegions.regionDrops (freed : FreedRegions m m' root before)
    (range : UserRange cur.base (cur.size / pageSize)) (apart : ∀ region ∈ before, region.apart cur) (frame : Nat) :
    Mem.regionDrops m' root frame cur = Mem.regionDrops m root frame cur := by
  unfold Mem.regionDrops dropCount
  refine List.countP_congr ?_
  intro i member
  have inside := List.mem_range.mp member
  obtain ⟨_, user, number⟩ := range.address inside
  rw [dropsFrame, dropsFrame, freed.rest _ user]
  intro region early covers
  refine apart region early _ covers ?_
  rw [number]
  exact Region.covers_iff.mpr ⟨i, inside, rfl⟩

theorem FreedRegions.refl (inv : TableInv m {root}) : FreedRegions m m root [] :=
  ⟨inv, fun _ owned => owned, nofun, fun _ _ _ => rfl, fun _ owned new => absurd owned new, fun _ _ => ⟨rfl, rfl⟩,
    fun _ _ => rfl, fun held => held, rfl, rfl⟩

/-- A further region is freed. -/
theorem FreedRegions.step (tables : TableInv m {root}) (freed : FreedRegions m m' root before)
    (range : UserRange cur.base (cur.size / pageSize))
    (apart : ∀ region ∈ before, region.apart cur)
    (tracked : DropsTracked m {root} root cur.base (cur.size / pageSize) (hasFlag cur.flags vmmRegionMmio))
    (last : FreedRange m' next {root} root cur.base (cur.size / pageSize) (hasFlag cur.flags vmmRegionMmio)) :
    FreedRegions m next root (before ++ [cur]) := by
  have drops (frame : Nat) : spaceDrops m root frame (before ++ [cur]) =
      spaceDrops m root frame before + Mem.regionDrops m root frame cur := by
    rw [spaceDrops, List.map_append, List.sum_append, List.map_singleton, List.sum_singleton]
    rfl
  have same (frame : Nat) := freed.regionDrops range apart frame
  have noTable (table : Nat) (owned : table ∈ Tables m {root}) (aligned : table % pageSize = 0) :
      Mem.regionDrops m root (table / pageSize) cur = 0 := by
    rw [Mem.regionDrops, dropCount, List.countP_eq_zero]
    intro i member maps
    simp only [dropsFrame, Bool.and_eq_true, Bool.not_eq_true', Option.any_eq_true, beq_iff_eq] at maps
    obtain ⟨isData, entry, found, number⟩ := maps
    have notTable := (tracked i entry (List.mem_range.mp member) isData found).2.2
    exact notTable (frameNumber_inj (entryAddr_aligned entry) aligned number ▸ owned)
  refine ⟨last.inv, last.tables.trans freed.tables, ?_, ?_, ?_, ?_, ?_, fun held => last.occupied (freed.occupied held),
    last.total.trans freed.total, last.kernelPml4.trans freed.kernelPml4⟩
  · intro region member va user covers
    rw [last.leaf root rfl va user]
    by_cases here : InRange cur.base (cur.size / pageSize) va
    · rw [if_pos ⟨rfl, here⟩]
    · rw [if_neg fun both => here both.2]
      rcases List.mem_append.mp member with early | isLast
      · exact freed.cleared region early va user covers
      · rw [List.mem_singleton.mp isLast] at covers
        exact absurd covers here
  · intro va user outside
    have notHere : ¬InRange cur.base (cur.size / pageSize) va :=
      outside cur (List.mem_append_right _ (List.mem_singleton.mpr rfl))
    rw [last.leaf root rfl va user, if_neg fun both => notHere both.2]
    exact freed.rest va user fun region early => outside region (List.mem_append_left _ early)
  · intro table owned absent
    by_cases middle : table ∈ Tables m' {root}
    · exact last.gone table middle absent
    · obtain ⟨unused, reset⟩ := freed.gone table owned middle
      have dropped := last.frames (table / pageSize) (by
        intro other isTable _ number
        have used := (freed.inv.allocated other isTable).used
        rw [number, unused] at used
        cases used)
      have none : dropCount m' root cur.base (hasFlag cur.flags vmmRegionMmio) (table / pageSize) (cur.size / pageSize) = 0 :=
        (same _).trans (noTable table owned (tables.allocated table owned).aligned)
      rw [none] at dropped
      exact ⟨dropped.1.trans unused, dropped.2.trans reset⟩
  · intro frame outside
    have dropped := last.frames frame fun table owned _ => outside table (freed.tables owned)
    rw [drops, ← same frame]
    exact (freed.frames frame outside).trans dropped
  · intro page notOwned
    exact (last.ram page fun owned => notOwned (freed.tables owned)).trans (freed.ram page notOwned)

/-- A free at the base of the first region frees its pages. -/
theorem vmmSpaceFree_first (split : space.regions = cur :: rest) (removable : cur.removable) :
    vmmSpaceFree m space cur.base = ((List.range (cur.size / pageSize)).foldl (fun m i =>
      vmmSpaceFreePage m space.pml4Phys (wrap64 (cur.base + i * pageSize)) (hasFlag cur.flags vmmRegionMmio)) m,
      { space with
        regions := rest
        regionCount := sub64 space.regionCount 1
        usedVirtual := sub64 space.usedVirtual cur.size }) := by
  have selected : cur.matches cur.base = true := by
    rw [Region.matches, beq_self_eq_true, Bool.true_and]
    exact removable.2
  have found : space.regions.find? (·.matches cur.base) = some cur := by
    rw [split]
    exact List.find?_cons_of_pos selected
  have removed : space.regions.eraseP (·.matches cur.base) = rest := by rw [split, List.eraseP_cons, selected, cond_true]
  unfold vmmSpaceFree
  rw [if_neg removable.1, found, removed]

/-- The data frames of a later region are still tracked. -/
theorem FreedRegions.tracked (freed : FreedRegions m m' root before) (range : UserRange cur.base (cur.size / pageSize))
    (apart : ∀ region ∈ before, region.apart cur)
    (tracked : DropsTracked m {root} root cur.base (cur.size / pageSize) (hasFlag cur.flags vmmRegionMmio)) :
    DropsTracked m' {root} root cur.base (cur.size / pageSize) (hasFlag cur.flags vmmRegionMmio) := by
  intro i entry inside isData found
  obtain ⟨_, user, number⟩ := range.address inside
  have same : m'.findPte root (cur.base + i * pageSize) = m.findPte root (cur.base + i * pageSize) := by
    refine freed.rest _ user ?_
    intro region early covers
    refine apart region early _ covers ?_
    rw [number]
    exact Region.covers_iff.mpr ⟨i, inside, rfl⟩
  rw [same] at found
  obtain ⟨nonzero, tracks, notTable⟩ := tracked i entry inside isData found
  exact ⟨nonzero, freed.total ▸ tracks, fun owned => notTable (freed.tables owned)⟩

/-- The loop of `vmm_space_destroy` frees all regions when it returns. -/
theorem FreedRegions.run {fuel : Nat} {middle last : Space} (whole : Destroyable m space)
    (split : space.regions = before ++ rest) (sameRoot : middle.pml4Phys = space.pml4Phys) (isRest : middle.regions = rest)
    (freed : FreedRegions m m' space.pml4Phys before)
    (returned : vmmSpaceDestroyLoop fuel m' middle = .ok (next, last)) :
    FreedRegions m next space.pml4Phys space.regions ∧ last.pml4Phys = space.pml4Phys := by
  induction rest generalizing fuel m' middle before with
  | nil =>
      cases fuel with
      | zero => cases returned
      | succ fuel =>
          rw [vmmSpaceDestroyLoop, isRest] at returned
          injection returned with same
          obtain ⟨rfl, rfl⟩ := Prod.mk.inj same
          rw [split, List.append_nil]
          exact ⟨freed, sameRoot⟩
  | cons cur rest ih =>
      by_cases zero : cur.base = 0
      · rw [vmmSpaceDestroyLoop_hangs isRest zero] at returned
        cases returned
      · cases fuel with
        | zero => cases returned
        | succ fuel =>
            have member : cur ∈ space.regions := by
              rw [split]
              exact List.mem_append_right _ List.mem_cons_self
            obtain ⟨range, used⟩ := whole.ranges cur member
            have pairs := whole.apart
            rw [split] at pairs
            have apart : ∀ region ∈ before, region.apart cur := fun region early =>
              (List.pairwise_append.mp pairs).2.2 region early cur List.mem_cons_self
            have tracked := whole.tracked cur member
            have emptied := vmmSpaceFreePages_spec freed.inv (Set.mem_singleton _) range (freed.tracked range apart tracked)
            rw [vmmSpaceDestroyLoop, isRest] at returned
            simp only [vmmSpaceFree_first isRest ⟨zero, used⟩, sameRoot] at returned
            have longer : space.regions = (before ++ [cur]) ++ rest := by
              rw [split, List.append_assoc, List.singleton_append]
            exact ih longer (by exact rfl) (by exact rfl) (freed.step whole.tables range apart tracked emptied) returned

/-- When the destruction of a space returns, the space is released. -/
theorem vmmSpaceDestroy_spec (whole : Destroyable m space) (returned : vmmSpaceDestroy m space = .ok m') :
    ReleasedSpace m m' space := by
  obtain ⟨⟨m₁, last⟩, loop, rest⟩ := Result.bind_ok returned
  obtain ⟨freed, sameRoot⟩ := (FreedRegions.refl whole.tables).run whole rfl rfl rfl loop
  have rootTable : space.pml4Phys ∈ Tables m {space.pml4Phys} := root_mem_nodes rfl
  have nonzero := (whole.tables.allocated _ rootTable).nonzero
  simp only [sameRoot, ne_eq, nonzero, not_false_eq_true, if_true] at rest
  injection rest with same
  have removed := removeRoot_spec freed.inv (Set.mem_singleton _)
  rw [same] at removed
  have only : Tables m₁ {space.pml4Phys} ⊆ {space.pml4Phys} := by
    rintro table ⟨root, rfl, path, admitted, reached⟩
    cases path with
    | nil => exact (Option.some.inj reached).symm
    | cons index path =>
        exfalso
        have occupied : AllOccupied m₁ {space.pml4Phys} := freed.occupied whole.occupied
        obtain ⟨va, user, _, mapped⟩ := AllOccupied.mapped occupied freed.inv (Set.mem_singleton _) (List.cons_ne_nil _ _)
          admitted reached
        by_cases covered : ∃ region ∈ space.regions, region.covers (va / pageSize)
        · obtain ⟨region, member, covers⟩ := covered
          exact mapped (freed.cleared region member va user covers)
        · have outside : ∀ region ∈ space.regions, ¬region.covers (va / pageSize) := fun region member covers =>
            covered ⟨region, member, covers⟩
          rw [freed.rest va user outside] at mapped
          exact covered (whole.covered va user mapped)
  refine ⟨?_, ?_, ?_, ?_, removed.kernelPml4.trans freed.kernelPml4⟩
  · intro table owned
    rw [removed.phys, markFree_used, markFree_pageframes]
    by_cases here : table / pageSize = space.pml4Phys / pageSize
    · rw [if_pos here, if_pos here]
      exact ⟨rfl, rfl⟩
    · rw [if_neg here, if_neg here]
      refine freed.gone table owned fun still => here ?_
      rw [only still]
  · intro frame outside
    refine (freed.frames frame outside).congr ?_ ?_
    · rw [removed.phys, markFree_used, if_neg fun same => outside _ rootTable same.symm]
    · rw [removed.phys, markFree_pageframes, if_neg fun same => outside _ rootTable same.symm]
  · intro page notOwned
    rw [removed.ram]
    exact freed.ram page notOwned
  · rw [removed.phys, markFree_total]
    exact freed.total

end

end DoccrOS.Mem
