import DoccrOS.Proof.Mem.CowSpaces

namespace DoccrOS.Mem
open Lib.Radix Lib

/-- A flag of one bit is tested by its bit. -/
theorem hasFlag_bit (flags : BitVec 32) (bit : Nat) (inside : bit < 32) :
    hasFlag flags (BitVec.twoPow 32 bit) = flags.getLsbD bit := by
  rw [hasFlag, BitVec.and_twoPow]
  cases flags.getLsbD bit with
  | false => simp
  | true =>
      have nonzero : BitVec.twoPow 32 bit ≠ 0#32 := by
        intro zero
        have shown := congrArg (fun word => BitVec.getLsbD word bit) zero
        simp [inside] at shown
      simpa using nonzero

theorem hasFlag_used (flags : BitVec 32) : hasFlag flags vmmRegionUsed = flags.getLsbD 0 :=
  hasFlag_bit flags 0 (by decide)

theorem hasFlag_write (flags : BitVec 32) : hasFlag flags vmmRegionWrite = flags.getLsbD 5 :=
  hasFlag_bit flags 5 (by decide)

theorem hasFlag_cow (flags : BitVec 32) : hasFlag flags vmmRegionCow = flags.getLsbD 8 :=
  hasFlag_bit flags 8 (by decide)

theorem hasFlag_mmio (flags : BitVec 32) : hasFlag flags vmmRegionMmio = flags.getLsbD 9 :=
  hasFlag_bit flags 9 (by decide)

theorem recorded_used (flags : BitVec 32) : hasFlag (vmmRegionUsed ||| flags) vmmRegionUsed = true := by
  rw [hasFlag_used, BitVec.getLsbD_or]
  rfl

theorem recorded_mmio (flags : BitVec 32) :
    hasFlag (vmmRegionUsed ||| flags) vmmRegionMmio = hasFlag flags vmmRegionMmio := by
  rw [hasFlag_mmio, hasFlag_mmio, BitVec.getLsbD_or]
  rfl

/-- A shared region stays used, turns copy-on-write and keeps its device flag. -/
theorem cowFlags_bits (flags : BitVec 32) :
    hasFlag (cowFlags flags) vmmRegionUsed = hasFlag flags vmmRegionUsed ∧
      hasFlag (cowFlags flags) vmmRegionCow = true ∧
      hasFlag (cowFlags flags) vmmRegionMmio = hasFlag flags vmmRegionMmio := by
  simp only [hasFlag_used, hasFlag_cow, hasFlag_mmio, cowFlags, BitVec.getLsbD_and, BitVec.getLsbD_or,
    BitVec.getLsbD_not, show vmmRegionCow.getLsbD 0 = false by decide, show vmmRegionCow.getLsbD 8 = true by decide,
    show vmmRegionCow.getLsbD 9 = false by decide, show vmmRegionWrite.getLsbD 0 = false by decide,
    show vmmRegionWrite.getLsbD 8 = false by decide, show vmmRegionWrite.getLsbD 9 = false by decide]
  simp

/-- A broken region is used and writable, is not copy-on-write and keeps its device flag. -/
theorem brokenFlags_bits (flags : BitVec 32) :
    hasFlag (brokenFlags flags) vmmRegionUsed = true ∧ hasFlag (brokenFlags flags) vmmRegionWrite = true ∧
      hasFlag (brokenFlags flags) vmmRegionCow = false ∧
      hasFlag (brokenFlags flags) vmmRegionMmio = hasFlag flags vmmRegionMmio := by
  simp only [hasFlag_used, hasFlag_cow, hasFlag_mmio, hasFlag_write, brokenFlags, BitVec.getLsbD_and, BitVec.getLsbD_or,
    BitVec.getLsbD_not, show vmmRegionUsed.getLsbD 0 = true by decide, show vmmRegionUsed.getLsbD 5 = false by decide,
    show vmmRegionUsed.getLsbD 8 = false by decide, show vmmRegionUsed.getLsbD 9 = false by decide,
    show vmmRegionCow.getLsbD 8 = true by decide, show vmmRegionCow.getLsbD 9 = false by decide,
    show vmmRegionWrite.getLsbD 5 = true by decide, show vmmRegionWrite.getLsbD 8 = false by decide,
    show vmmRegionWrite.getLsbD 9 = false by decide]
  simp

/-- The range of a region without its flags. -/
def Region.span (region : Region) : Nat × Nat := (region.base, region.size)

theorem Region.covers_span {first second : Region} (same : first.span = second.span) (page : Nat) :
    first.covers page ↔ second.covers page := by
  obtain ⟨base, size⟩ := Prod.mk.inj same
  rw [Region.covers, Region.covers, base, size]

section
variable {rel : Nat → Nat → Prop} {keep : Set Nat} {m m' : Machine} {roots : Finset Nat} {space space' : Space}

/-- New flags that keep the regions used keep the invariant of the space. -/
theorem SpaceInv.reflag (inv : SpaceInv m space) (root : space'.pml4Phys = space.pml4Phys)
    (spans : space'.regions.map Region.span = space.regions.map Region.span)
    (used : ∀ region ∈ space'.regions, hasFlag region.flags vmmRegionUsed = true) : SpaceInv m space' := by
  have old : ∀ region ∈ space'.regions, ∃ other ∈ space.regions, other.span = region.span := by
    intro region member
    have mapped : region.span ∈ space.regions.map Region.span := spans ▸ List.mem_map_of_mem member
    exact List.mem_map.mp mapped
  refine ⟨?_, ?_, ?_⟩
  · intro region member
    obtain ⟨other, member', same⟩ := old region member
    obtain ⟨base, size⟩ := Prod.mk.inj same
    obtain ⟨range, whole, _⟩ := inv.regions other member'
    rw [base, size] at range
    rw [size] at whole
    exact ⟨range, whole, used region member⟩
  · let apart (first second : Nat × Nat) : Prop := ∀ page,
      Region.covers ⟨first.1, first.2, 0⟩ page → ¬Region.covers ⟨second.1, second.2, 0⟩ page
    have before : (space.regions.map Region.span).Pairwise apart := List.pairwise_map.mpr inv.disjoint
    rw [← spans] at before
    have after : space'.regions.Pairwise fun first second => apart first.span second.span :=
      List.pairwise_map.mp before
    exact after
  · intro page small shown
    rw [root] at shown
    obtain ⟨other, member, covers⟩ := inv.covered page small shown
    have mapped : other.span ∈ space'.regions.map Region.span := spans ▸ List.mem_map_of_mem member
    obtain ⟨region, member', same⟩ := List.mem_map.mp mapped
    exact ⟨region, member', (Region.covers_span same page).mpr covers⟩

/-- The pages of the regions. -/
def pagesOf (regions : List Region) : Set Nat := {page | ∃ region ∈ regions, region.covers page}

/-- The state of the region loop of `vmm_clone_space` after it processed some regions of the source. -/
structure CloneState (rel : Nat → Nat → Prop) (keep : Set Nat) (m m' : Machine) (roots : Finset Nat)
    (src src' dst : Space) (processed todo : List Region) : Prop where
  cloning : Cloning rel keep m m' roots src.pml4Phys dst.pml4Phys (pagesOf processed)
  srcRoot : src'.pml4Phys = src.pml4Phys
  split : src'.regions = processed ++ todo
  spans : src'.regions.map Region.span = src.regions.map Region.span
  flags : ∀ region ∈ processed, hasFlag region.flags vmmRegionUsed = true ∧
    hasFlag region.flags vmmRegionCow = true ∧ ∃ other ∈ src.regions,
      hasFlag region.flags vmmRegionMmio = hasFlag other.flags vmmRegionMmio
  rest : todo ⊆ src.regions
  dstRegions : dst.regions.Perm processed

/-- The region loop of `vmm_clone_space` shares the regions up to the end or up to a failed allocation. -/
theorem CloneState.regions {nodes : Nat → Bool} {src src' dst srcEnd dstEnd : Space} {processed todo : List Region}
    {done : Bool} {last : Machine} (different : src.pml4Phys ≠ dst.pml4Phys) (isSrc : src.pml4Phys ∈ roots)
    (isDst : dst.pml4Phys ∈ roots) (spaceInv : SpaceInv m src)
    (shareable : ∀ page cell, (userView m roots).map (src.pml4Phys, page) = some cell →
      Shareable rel ((userView m roots).rc cell))
    (state : CloneState rel keep m m' roots src src' dst processed todo)
    (returned : vmmCloneRegions nodes processed.length todo m' src' dst = .ok (done, last, srcEnd, dstEnd)) :
    dstEnd.pml4Phys = dst.pml4Phys ∧ ∃ processed' todo', (done = true → todo' = []) ∧
      CloneState rel keep m last roots src srcEnd dstEnd processed' todo' := by
  induction todo generalizing m' src' dst processed with
  | nil =>
      rw [vmmCloneRegions] at returned
      injection returned with same
      obtain ⟨rfl, returnedState⟩ := Prod.mk.inj same
      obtain ⟨rfl, returnedSpaces⟩ := Prod.mk.inj returnedState
      obtain ⟨rfl, rfl⟩ := Prod.mk.inj returnedSpaces
      exact ⟨rfl, processed, [], fun _ => rfl, state⟩
  | cons srcCur todo ih =>
      rw [vmmCloneRegions] at returned
      cases node : nodes processed.length with
      | false =>
          simp only [node, Bool.not_false, if_true] at returned
          injection returned with same
          obtain ⟨rfl, returnedState⟩ := Prod.mk.inj same
          obtain ⟨rfl, returnedSpaces⟩ := Prod.mk.inj returnedState
          obtain ⟨rfl, rfl⟩ := Prod.mk.inj returnedSpaces
          refine ⟨rfl, processed, srcCur :: todo, ?_, state⟩
          intro success
          cases success
      | true =>
          simp only [node, Bool.not_true, Bool.false_eq_true, if_false] at returned
          obtain ⟨m₁, pages, rest⟩ := Result.bind_ok returned
          have member : srcCur ∈ src.regions := state.rest List.mem_cons_self
          have region := spaceInv.regions srcCur member
          have order : (src'.regions.map Region.span).Pairwise fun first second => ∀ page,
              Region.covers ⟨first.1, first.2, 0⟩ page → ¬Region.covers ⟨second.1, second.2, 0⟩ page := by
            rw [state.spans]
            exact List.pairwise_map.mpr spaceInv.disjoint
          have new : ∀ i, i < srcCur.size / pageSize → srcCur.base / pageSize + i ∉ pagesOf processed := by
            intro i inside before
            obtain ⟨other, early, covers⟩ := before
            have pairs := List.pairwise_map.mp order
            rw [state.split] at pairs
            exact (List.pairwise_append.mp pairs).2.2 other early srcCur List.mem_cons_self _ covers
              (Region.covers_iff.mpr ⟨i, inside, rfl⟩)
          rw [state.srcRoot] at pages
          have cloning := state.cloning.pages different isSrc isDst region.range (readOnly_page _) (readOnly_page _)
            (readOnly_writable _) (readOnly_writable _) shareable new pages
          have grown : pagesOf (processed ++ [{ srcCur with flags := cowFlags srcCur.flags }]) = pagesOf processed ∪
              {page | ∃ i, i < srcCur.size / pageSize ∧ page = srcCur.base / pageSize + i} := by
            ext page
            constructor
            · intro covered
              obtain ⟨other, inside, covers⟩ := covered
              rcases List.mem_append.mp inside with early | last
              · exact Or.inl ⟨other, early, covers⟩
              · rw [List.mem_singleton.mp last] at covers
                exact Or.inr (Region.covers_iff.mp covers)
            · intro covered
              rcases covered with ⟨other, early, covers⟩ | here
              · exact ⟨other, List.mem_append_left _ early, covers⟩
              · exact ⟨_, List.mem_append_right _ (List.mem_singleton.mpr rfl), Region.covers_iff.mpr here⟩
          have set : src'.regions.set processed.length { srcCur with flags := cowFlags srcCur.flags } =
              processed ++ [{ srcCur with flags := cowFlags srcCur.flags }] ++ todo := by
            rw [state.split, List.set_append_right _ _ (Nat.le_refl _), Nat.sub_self]
            simp
          have next : CloneState rel keep m m₁ roots src
              { src' with
                regions := src'.regions.set processed.length { srcCur with flags := cowFlags srcCur.flags } }
              (dst.record ⟨srcCur.base, srcCur.size, cowFlags srcCur.flags⟩)
              (processed ++ [{ srcCur with flags := cowFlags srcCur.flags }]) todo := by
            refine ⟨?_, state.srcRoot, set, ?_, ?_, ?_, ?_⟩
            · rw [grown]
              exact cloning
            · rw [← state.spans, state.split]
              change (List.set _ _ _).map Region.span = _
              rw [← state.split, set, state.split]
              simp [Region.span]
            · intro other inside
              rcases List.mem_append.mp inside with early | last
              · exact state.flags other early
              · rw [List.mem_singleton.mp last]
                obtain ⟨used, cow, mmio⟩ := cowFlags_bits srcCur.flags
                exact ⟨used.trans region.used, cow, srcCur, member, mmio⟩
            · exact fun other inside => state.rest (List.mem_cons_of_mem _ inside)
            · refine (insertRegion_perm _ _).trans ?_
              exact (state.dstRegions.cons _).trans (List.perm_append_singleton _ _).symm
          have length : (processed ++ [{ srcCur with flags := cowFlags srcCur.flags }]).length =
              processed.length + 1 := by simp
          rw [← length] at rest
          have different' : src.pml4Phys ≠ (dst.record ⟨srcCur.base, srcCur.size, cowFlags srcCur.flags⟩).pml4Phys :=
            different
          have isDst' : (dst.record ⟨srcCur.base, srcCur.size, cowFlags srcCur.flags⟩).pml4Phys ∈ roots := isDst
          have final := ih different' isDst' next rest
          exact final

/-- The result of a clone: no space, or a space that shows what the source shows. -/
inductive Clones (rel : Nat → Nat → Prop) (keep : Set Nat) (m m' : Machine) (roots : Finset Nat) (src src' : Space) :
    Option Space → Prop
  | failed (inv : PageInv rel {frame ∈ keep | m'.phys.used frame = true} m' roots)
      (same : ∀ place ∈ userPlaces roots, look m' place = look m place) (tightened : Tightened m m' roots) :
      Clones rel keep m m' roots src src' none
  | cloned (dst : Space) (fresh : dst.pml4Phys ∉ roots) (inv : PageInv rel keep m' (insert dst.pml4Phys roots))
      (same : ∀ place ∈ userPlaces roots, look m' place = look m place)
      (copied : ∀ page, page < 2 ^ 35 → look m' (dst.pml4Phys, page) = look m (src.pml4Phys, page))
      (dstInv : SpaceInv m' dst) (spans : ∀ region ∈ dst.regions, ∃ other ∈ src.regions,
        hasFlag region.flags vmmRegionMmio = hasFlag other.flags vmmRegionMmio)
      (cow : ∀ region ∈ src'.regions ++ dst.regions, hasFlag region.flags vmmRegionCow = true)
      (tightened : Tightened m m' roots)
      (readOnly : ∀ page, page < 2 ^ 35 → ¬(userView m' (insert dst.pml4Phys roots)).writable (dst.pml4Phys, page)) :
      Clones rel keep m m' roots src src' (some dst)

/-- The destination of a partial clone is a well-formed space. -/
theorem CloneState.dstInv {src src' dst : Space} {processed todo : List Region} (spaceInv : SpaceInv m src)
    (state : CloneState rel keep m m' roots src src' dst processed todo) : SpaceInv m' dst := by
  have order : (src'.regions.map Region.span).Pairwise fun first second => ∀ page,
      Region.covers ⟨first.1, first.2, 0⟩ page → ¬Region.covers ⟨second.1, second.2, 0⟩ page := by
    rw [state.spans]
    exact List.pairwise_map.mpr spaceInv.disjoint
  have pairs : src'.regions.Pairwise Region.apart := by
    have after := List.pairwise_map.mp order
    exact after
  rw [state.split] at pairs
  refine ⟨?_, ?_, ?_⟩
  · intro region member
    have early := state.dstRegions.mem_iff.mp member
    have inside : region.span ∈ src.regions.map Region.span := by
      rw [← state.spans, state.split]
      exact List.mem_map_of_mem (List.mem_append_left _ early)
    obtain ⟨other, member', same⟩ := List.mem_map.mp inside
    obtain ⟨base, size⟩ := Prod.mk.inj same
    obtain ⟨range, whole, _⟩ := spaceInv.regions other member'
    rw [base, size] at range
    rw [size] at whole
    exact ⟨range, whole, (state.flags region early).1⟩
  · exact (state.dstRegions.pairwise_iff fun apart => Region.apart.symm apart).mpr
      (List.pairwise_append.mp pairs).1
  · intro page small shown
    by_contra uncovered
    apply shown
    refine state.cloning.rest page small fun covered => uncovered ?_
    obtain ⟨region, early, covers⟩ := covered
    exact ⟨region, state.dstRegions.mem_iff.mpr early, covers⟩

/-- A clone shares every page of its source or leaves no trace of itself in the pages. -/
theorem PageInv.clone {src src' : Space} {kmallocOk : Bool} {nodes : Nat → Bool} {result : Option Space}
    (inv : PageInv rel keep m roots) (discipline : Sharing.Discipline rel) (tight : Tight rel keep)
    (isSrc : src.pml4Phys ∈ roots) (spaceInv : SpaceInv m src)
    (shareable : ∀ page cell, (userView m roots).map (src.pml4Phys, page) = some cell →
      Shareable rel ((userView m roots).rc cell))
    (device : ∀ region ∈ src.regions, hasFlag region.flags vmmRegionMmio = true → keep = ∅ ∧ Leaky rel)
    (returned : vmmCloneSpace m src kmallocOk nodes = .ok (result, m', src')) :
    Clones rel keep m m' roots src src' result ∧ src'.pml4Phys = src.pml4Phys ∧
      src'.regions.map Region.span = src.regions.map Region.span ∧ SpaceInv m' src' ∧
      ∀ region ∈ src'.regions, ∃ other ∈ src.regions,
        hasFlag region.flags vmmRegionMmio = hasFlag other.flags vmmRegionMmio := by
  unfold vmmCloneSpace at returned
  cases created : vmmSpaceCreate m kmallocOk with
  | mk created₁ m₁ =>
      rcases vmmSpaceCreate_spec inv.data.tables created with ⟨rfl, rfl, _⟩ | ⟨root, rfl, added⟩
      · simp only [created] at returned
        injection returned with same
        obtain ⟨rfl, returnedState⟩ := Prod.mk.inj same
        obtain ⟨rfl, rfl⟩ := Prod.mk.inj returnedState
        refine ⟨.failed (inv.mono fun _ member => member.1) (fun _ _ => rfl) (Tightened.refl _ _), rfl, rfl, spaceInv, ?_⟩
        intro region member
        exact ⟨region, member, rfl⟩
      · simp only [created] at returned
        obtain ⟨⟨done, m₂, src₂, dst⟩, loop, rest⟩ := Result.bind_ok returned
        obtain ⟨inv₁, empty, same₁⟩ := inv.addRoot added
        have fresh : root ∉ roots := fun isRoot => added.notTable inv.data.tables (root_mem_nodes isRoot)
        have different : src.pml4Phys ≠ root := fun same => fresh (same ▸ isSrc)
        have isSrc₁ : src.pml4Phys ∈ insert root roots := Finset.mem_insert_of_mem isSrc
        have isDst₁ : root ∈ insert root roots := Finset.mem_insert_self _ _
        have old : ∀ place ∈ userPlaces roots, place ∈ userPlaces (insert root roots) ∧ place.1 ≠ root := by
          intro place member
          obtain ⟨isRoot, small⟩ := mem_userPlaces.mp member
          exact ⟨mem_userPlaces.mpr ⟨Finset.mem_insert_of_mem isRoot, small⟩, fun same => fresh (same ▸ isRoot)⟩
        have spaceInv₁ : SpaceInv m₁ src := by
          refine spaceInv.congr ?_
          intro page small shown
          rw [same₁ _ (mem_userPlaces.mpr ⟨isSrc, small⟩)] at shown
          exact shown
        have start : CloneState rel keep m₁ m₁ (insert root roots) src src ⟨root, [], 0, 0⟩ [] src.regions := by
          have none : pagesOf [] = ∅ := by
            ext page
            simp [pagesOf]
          refine ⟨⟨inv₁, fun _ _ => rfl, fun _ _ _ _ => rfl, ?_, fun page small _ => empty page small,
            fun _ _ _ => rfl, Tightened.refl _ _⟩, rfl, rfl, rfl, ?_, fun _ member => member, List.Perm.refl _⟩
          · intro page _ member
            rw [none] at member
            exact member.elim
          · intro region member
            cases member
        have shareable₁ : ∀ page cell, (userView m₁ (insert root roots)).map (src.pml4Phys, page) = some cell →
            Shareable rel ((userView m₁ (insert root roots)).rc cell) := by
          intro page cell mapped
          obtain ⟨member, entry, found, address⟩ := pageView_map.mp mapped
          have small := (mem_userPlaces.mp member).2
          rw [added.leaf src.pml4Phys isSrc _ (userVa_page small)] at found
          have mapped₀ : (userView m roots).map (src.pml4Phys, page) = some cell :=
            pageView_map.mpr ⟨mem_userPlaces.mpr ⟨isSrc, small⟩, entry, found, address⟩
          have rc : (userView m₁ (insert root roots)).rc cell = (userView m roots).rc cell := by
            change (m₁.phys.pageframes (cell / pageSize)).rc = (m.phys.pageframes (cell / pageSize)).rc
            have apart : cell / pageSize ≠ root / pageSize := by
              intro same
              have used := (inv.data.data _ _ mapped₀).1.used
              rw [same, added.free.2] at used
              exact Bool.false_ne_true used
            rw [added.phys, markUsed_pageframes, if_neg apart]
          rw [rc]
          exact shareable page cell mapped₀
        obtain ⟨sameDst, processed, todo, finished, state⟩ :=
          start.regions different isSrc₁ isDst₁ spaceInv₁ shareable₁ loop
        have sameDst' : dst.pml4Phys = root := sameDst
        have look₂ : ∀ place ∈ userPlaces roots, look m₂ place = look m place := by
          intro place member
          obtain ⟨member₁, apart⟩ := old place member
          rw [state.cloning.outside place member₁ (by rw [sameDst']; exact apart), same₁ place member]
        have flags : ∀ region ∈ src₂.regions, hasFlag region.flags vmmRegionUsed = true ∧ ∃ other ∈ src.regions,
            hasFlag region.flags vmmRegionMmio = hasFlag other.flags vmmRegionMmio := by
          intro region member
          rw [state.split] at member
          rcases List.mem_append.mp member with early | late
          · obtain ⟨used, _, mmio⟩ := state.flags region early
            exact ⟨used, mmio⟩
          · have original := state.rest late
            exact ⟨(spaceInv.regions region original).used, region, original, rfl⟩
        have srcInv₂ : SpaceInv m₂ src₂ := by
          refine (spaceInv.congr ?_).reflag state.srcRoot state.spans fun region member => (flags region member).1
          intro page small shown
          rw [look₂ _ (mem_userPlaces.mpr ⟨isSrc, small⟩)] at shown
          exact shown
        have dstInv₂ := state.dstInv spaceInv₁
        have dstFlags : ∀ region ∈ dst.regions, ∃ other ∈ src.regions,
            hasFlag region.flags vmmRegionMmio = hasFlag other.flags vmmRegionMmio := fun region member =>
          (state.flags region (state.dstRegions.mem_iff.mp member)).2.2
        have tightened₂ : Tightened m m₂ roots := by
          intro place member written
          obtain ⟨member₁, _⟩ := old place member
          obtain ⟨isRoot, small⟩ := mem_userPlaces.mp member
          obtain ⟨entry, found, allowed⟩ := state.cloning.tightened place member₁ written
          rw [added.leaf place.1 isRoot _ (userVa_page small)] at found
          exact ⟨entry, found, allowed⟩
        cases done with
        | true =>
            simp only [if_true] at rest
            injection rest with same
            obtain ⟨rfl, returnedState⟩ := Prod.mk.inj same
            obtain ⟨rfl, rfl⟩ := Prod.mk.inj returnedState
            refine ⟨.cloned dst ?_ ?_ look₂ ?_ dstInv₂ dstFlags ?_ tightened₂ ?_, state.srcRoot, state.spans, srcInv₂,
              fun region member => (flags region member).2⟩
            · rw [sameDst']
              exact fresh
            · rw [sameDst']
              exact state.cloning.inv
            · intro page small
              have isTodo := finished rfl
              have tracked : (src.pml4Phys, page) ∈ userPlaces roots := mem_userPlaces.mpr ⟨isSrc, small⟩
              by_cases covered : page ∈ pagesOf processed
              · rw [state.cloning.cloned page small covered, same₁ _ tracked]
              · rw [state.cloning.rest page small covered]
                by_contra shown
                obtain ⟨region, member, covers⟩ := srcInv₂.covered page small (by
                  rw [state.srcRoot, look₂ _ tracked]
                  exact Ne.symm shown)
                rw [state.split, isTodo, List.append_nil] at member
                exact covered ⟨region, member, covers⟩
            · intro region member
              rw [state.split, finished rfl, List.append_nil] at member
              rcases List.mem_append.mp member with source | clone
              · exact (state.flags region source).2.1
              · exact (state.flags region (state.dstRegions.mem_iff.mp clone)).2.1
            · intro page small written
              rw [sameDst'] at written
              have tracked : (root, page) ∈ userPlaces (insert root roots) := mem_userPlaces.mpr ⟨isDst₁, small⟩
              exact not_writable (empty page small) (state.cloning.tightened (root, page) tracked written)
        | false =>
            simp only [Bool.false_eq_true, if_false] at rest
            obtain ⟨m₃, destroyed, rest⟩ := Result.bind_ok rest
            injection rest with same
            obtain ⟨rfl, returnedState⟩ := Prod.mk.inj same
            obtain ⟨rfl, rfl⟩ := Prod.mk.inj returnedState
            have isDst₂ : dst.pml4Phys ∈ insert root roots := by
              rw [sameDst']
              exact isDst₁
            have gone := state.cloning.inv.destroy discipline tight isDst₂ dstInv₂ (fun region member mmio => by
              obtain ⟨other, member', sameFlag⟩ := dstFlags region member
              exact device other member' (sameFlag ▸ mmio)) destroyed
            have back : (insert root roots).erase dst.pml4Phys = roots := by
              rw [sameDst', Finset.erase_insert fresh]
            have look₃ : ∀ place ∈ userPlaces roots, look m₃ place = look m place := by
              intro place member
              obtain ⟨member₁, apart⟩ := old place member
              rw [gone.others place member₁ (by rw [sameDst']; exact apart), look₂ place member]
            have inv₃ := gone.inv
            rw [back] at inv₃
            have tightened₃ : Tightened m m₃ roots := by
              intro place member written
              obtain ⟨member₁, _⟩ := old place member
              exact tightened₂ place member (gone.tightened place member₁ written)
            refine ⟨.failed inv₃ look₃ tightened₃, state.srcRoot, state.spans, ?_,
              fun region member => (flags region member).2⟩
            refine srcInv₂.congr ?_
            intro page small shown
            rw [state.srcRoot] at shown ⊢
            have tracked : (src.pml4Phys, page) ∈ userPlaces roots := mem_userPlaces.mpr ⟨isSrc, small⟩
            rw [look₃ _ tracked] at shown
            rw [look₂ _ tracked]
            exact shown

end

end DoccrOS.Mem
