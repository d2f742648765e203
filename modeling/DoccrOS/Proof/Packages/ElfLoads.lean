import DoccrOS.Proof.Mem.Twins
import DoccrOS.Proof.Packages.ElfSegments

namespace DoccrOS.Packages
open Lib Mem

/-- The memory and a space whose mapped pages are tracked data in different frames. -/
structure LoadInv (shield roots : Set Nat) (m : Machine) (space : Space) (places : Finset Place) : Prop where
  memory : MemInv shield m roots places
  isRoot : space.pml4Phys ∈ roots
  regions : RegionsInv space places
  single : ∀ page page' cell, (pageView m places).map (space.pml4Phys, page) = some cell →
    (pageView m places).map (space.pml4Phys, page') = some cell → page = page'
  covered : ∀ va, UserVa va → m.findPte space.pml4Phys va ≠ none → (space.pml4Phys, va / pageSize) ∈ places

/-- The header passes the checks of `elf_load` and has a page. -/
structure Phdr.Accepted (image : Image) (ph : Phdr) : Prop where
  bounds : wrap64 (ph.pOffset + ph.pFilesz) ≤ image.size
  sizes : ph.pFilesz ≤ ph.pMemsz
  pages : ph.pgCount ≠ 0

/-- The segment ends in the user half. -/
def Phdr.InUser (ph : Phdr) : Prop := ph.pVaddr + ph.pMemsz ≤ 2 ^ 47

/-- What is left of the invariant when a call fails, and what a failed call spares. -/
structure Kept (shield roots : Set Nat) (m m' : Machine) (root : Nat) (space' : Space) : Prop where
  memory : ∃ places, MemInv shield m' roots places ∧ RegionsInv space' places
  sameRoot : space'.pml4Phys = root
  spared : Spared shield m m' roots

/-- How `elf_load` ends with a header: it skips it, it gives up, or it maps and stores the segment. -/
inductive SegmentOutcome (shield roots : Set Nat) (image : Image) (m : Machine) (space : Space) (places : Finset Place)
    (ph : Phdr) : Bool → Machine → Space → Prop where
  | skipped (other : ph.pType ≠ ptLoad) : SegmentOutcome shield roots image m space places ph true m space
  | refused (m' : Machine) (space' : Space) (kept : Kept shield roots m m' space.pml4Phys space') :
    SegmentOutcome shield roots image m space places ph false m' space'
  | loaded (frames : Nat → Nat) (m₁ m' : Machine) (isLoad : ph.pType = ptLoad) (accepted : ph.Accepted image)
    (range : UserRange ph.vaBase ph.pgCount)
    (filled : AllocatedRange m m₁ roots space.pml4Phys ph.vaBase ph.pgCount (flagsToPte ph.vmmFlags) frames)
    (inv : LoadInv shield roots m' (space.record ⟨ph.vaBase, wrap64 (ph.pgCount * pageSize), vmmRegionUsed ||| ph.vmmFlags⟩)
      (places ∪ rangePlaces space.pml4Phys ph.vaBase ph.pgCount))
    (stores : DataStores m₁ m' {cell | ∃ place,
      (pageView m₁ (places ∪ rangePlaces space.pml4Phys ph.vaBase ph.pgCount)).map place = some cell})
    (reads : ∀ va, UserVa va → userRead m' space va = if ph.pVaddr ≤ va ∧ va < ph.pVaddr + ph.pMemsz then
      some (fileByte image ph.pOffset ph.pFilesz (va - ph.pVaddr)) else userRead m₁ space va)
    (spared : Spared shield m m' roots) :
    SegmentOutcome shield roots image m space places ph true m'
      (space.record ⟨ph.vaBase, wrap64 (ph.pgCount * pageSize), vmmRegionUsed ||| ph.vmmFlags⟩)

section
variable {shield roots : Set Nat} {m m' m'' : Machine} {space space' : Space} {places : Finset Place} {base count root : Nat}
  {flags : BitVec 32} {frames : Nat → Nat} {image : Image} {ph : Phdr} {nodeOk : Bool}

theorem LoadInv.map (inv : LoadInv shield roots m space places) {va : Nat} {entry : Word} (user : UserVa va)
    (found : m.findPte space.pml4Phys va = some entry) :
    (pageView m places).map (space.pml4Phys, va / pageSize) = some (entryAddr entry) := by
  refine pageView_map.mpr ⟨inv.covered va user (by rw [found]; exact Option.some_ne_none entry), entry, ?_, rfl⟩
  exact (findPte_align m space.pml4Phys va).trans found

/-- An allocation of a user range, which may lie over mapped pages. -/
theorem LoadInv.alloc (inv : LoadInv shield roots m space places) (range : UserRange base count)
    (filled : AllocatedRange m m' roots space.pml4Phys base count (flagsToPte flags) frames) :
    LoadInv shield roots m' (space.record ⟨base, wrap64 (count * pageSize), vmmRegionUsed ||| flags⟩)
      (places ∪ rangePlaces space.pml4Phys base count) ∧ Spared shield m m' roots := by
  have page := flagsToPte_page flags
  obtain ⟨memory, spared⟩ := inv.memory.allocated filled page inv.isRoot range
  refine ⟨⟨memory, inv.isRoot, inv.regions.allocated range flags, ?_, ?_⟩, spared⟩
  · intro first second cell mapped mapped'
    rcases filled.map page inv.memory.data inv.isRoot range mapped with ⟨i, inside, shape, rfl⟩ | before
    · rcases filled.map page inv.memory.data inv.isRoot range mapped' with ⟨j, inside', shape', same⟩ | before'
      · have sameIndex := filled.distinct i j inside inside' (Nat.eq_of_mul_eq_mul_right (by decide) same)
        rw [← sameIndex] at shape'
        exact congrArg Prod.snd (shape.trans shape'.symm)
      · obtain ⟨allocated, notTable⟩ := inv.memory.data.data _ _ before'
        exact absurd (page_div (frames i)).symm ((filled.cells allocated notTable).2.2.2.2 i inside)
    · rcases filled.map page inv.memory.data inv.isRoot range mapped' with ⟨j, inside', _, rfl⟩ | before'
      · obtain ⟨allocated, notTable⟩ := inv.memory.data.data _ _ before
        exact absurd (page_div (frames j)).symm ((filled.cells allocated notTable).2.2.2.2 j inside')
      · exact inv.single first second cell before before'
  · intro va user mapped
    rw [Finset.mem_union]
    by_cases here : InRange base count va
    · right
      refine mem_rangePlaces.mpr ⟨rfl, ?_⟩
      unfold InRange at *
      rw [page_div]
      exact here
    · left
      change m'.findPte space.pml4Phys va ≠ none at mapped
      rw [filled.leaf _ inv.isRoot va user, if_neg fun both => here both.2] at mapped
      exact inv.covered va user mapped

/-- Stores into tracked data. -/
theorem LoadInv.stored (inv : LoadInv shield roots m space places)
    (stores : DataStores m m' {cell | ∃ place, (pageView m places).map place = some cell}) :
    LoadInv shield roots m' space places ∧ Spared shield m m' roots := by
  obtain ⟨memory, spared, maps, leaf⟩ := inv.memory.stored stores fun cell written => written
  refine ⟨⟨memory, inv.isRoot, inv.regions, ?_, ?_⟩, spared⟩
  · intro first second cell mapped mapped'
    rw [maps] at mapped mapped'
    exact inv.single first second cell mapped mapped'
  · intro va user mapped
    rw [leaf _ inv.isRoot va user] at mapped
    exact inv.covered va user mapped

/-- The pages of a segment that ends in the user half. -/
theorem Phdr.InUser.pages (user : ph.InUser) : ph.vaBase % pageSize = 0 ∧ ph.vaBase ≤ ph.pVaddr ∧
    ph.vaBase / pageSize = ph.pVaddr / pageSize ∧ ph.pVaddr + ph.pMemsz ≤ ph.vaBase + ph.pgCount * pageSize ∧
    ph.vaBase + ph.pgCount * pageSize < ph.pVaddr + ph.pMemsz + pageSize ∧
    ph.vaBase + ph.pgCount * pageSize ≤ 2 ^ 47 := by
  unfold Phdr.InUser at user
  unfold Phdr.pgCount Phdr.vaEnd Phdr.vaBase pageAlignUp pageAlignDown wrap64 sub64
  simp only [pageSize]
  omega

theorem Phdr.InUser.range (user : ph.InUser) : UserRange ph.vaBase ph.pgCount :=
  ⟨user.pages.1, user.pages.2.2.2.2.2⟩

theorem LoadInv.kept (inv : LoadInv shield roots m space places) : Kept shield roots m m space.pml4Phys space :=
  ⟨⟨places, inv.memory, inv.regions⟩, rfl, Spared.refl m⟩

/-- The loop of `elf_load` stores a segment whose pages were just allocated, also in a machine that differs only in pages that
are no tables. -/
theorem LoadInv.fillTwin {places' : Finset Place} {node : Region} {n : Machine}
    (inv : LoadInv shield roots m' (space.record node) places') (twins : Twins Set.univ roots m' n)
    (user : ph.InUser) (filled : AllocatedRange m m' roots space.pml4Phys ph.vaBase ph.pgCount (flagsToPte ph.vmmFlags) frames)
    (image : Image) (sizes : ph.pFilesz ≤ ph.pMemsz) :
    ∃ n', fillSegment image (space.record node) ph.pMemsz n ph.pOffset ph.pFilesz ph.pVaddr ph.pMemsz = .ok (true, n') ∧
      DataStores n n' {cell | ∃ place, (pageView m' places').map place = some cell} ∧
      ∀ va, UserVa va → userRead n' space va = if ph.pVaddr ≤ va ∧ va < ph.pVaddr + ph.pMemsz then
        some (fileByte image ph.pOffset ph.pFilesz (va - ph.pVaddr)) else userRead n space va := by
  obtain ⟨_, least, _, most, _, below⟩ := user.pages
  obtain ⟨tables, sameTables, sameLeaf⟩ := twins.tables inv.memory.data.tables
  have isUser {va : Nat} (inside : va < ph.pVaddr + ph.pMemsz) : UserVa va := by
    unfold UserVa
    omega
  have leaf {va : Nat} (user : UserVa va) : n.findPte space.pml4Phys va = m'.findPte space.pml4Phys va :=
    sameLeaf _ inv.isRoot va user
  have mapped {va : Nat} (first : ph.pVaddr ≤ va) (last : va < ph.pVaddr + ph.pMemsz) :
      ∃ entry, m'.findPte space.pml4Phys va = some entry := by
    refine ⟨_, (filled.leaf _ inv.isRoot va (isUser last)).trans (if_pos ⟨rfl, ?_⟩)⟩
    unfold InRange
    simp only [pageSize] at *
    omega
  refine fillSegment_spec tables inv.isRoot ?_ user (Nat.le_refl _) sizes ?_ ?_
  · rintro cell ⟨place, tracked⟩
    rw [sameTables]
    exact (inv.memory.data.data place cell tracked).2
  · intro va first last
    obtain ⟨entry, found⟩ := mapped first last
    have tracked := inv.map (isUser last) found
    exact ⟨entry, (leaf (isUser last)).trans found, (inv.memory.data.data _ _ tracked).1.nonzero, _, tracked⟩
  · intro va va' entry entry' _ last user' found found' same
    have tracked := inv.map (isUser last) ((leaf (isUser last)).symm.trans found)
    have tracked' := inv.map user' ((leaf user').symm.trans found')
    rw [same] at tracked
    exact inv.single _ _ _ tracked tracked'

theorem LoadInv.segment {loaded : Bool} (inv : LoadInv shield roots m space places)
    (user : ph.pType = ptLoad → ph.Accepted image → ph.InUser)
    (returned : loadSegment image m space ph nodeOk = .ok (loaded, m', space')) :
    SegmentOutcome shield roots image m space places ph loaded m' space' := by
  unfold loadSegment at returned
  by_cases isLoad : ph.pType = ptLoad
  · rw [if_neg (not_not.mpr isLoad)] at returned
    split at returned
    · cases returned
      exact .refused _ _ inv.kept
    rename_i bounds
    split at returned
    · cases returned
      exact .refused _ _ inv.kept
    rename_i sizes
    by_cases none : ph.pgCount = 0
    · simp only [vmmSpaceAlloc, none, if_true] at returned
      cases returned
      exact .refused _ _ inv.kept
    · have accepted : ph.Accepted image := ⟨Nat.le_of_not_lt bounds, Nat.le_of_not_lt sizes, none⟩
      have inUser := user isLoad accepted
      obtain ⟨_, least, _, most, _, _⟩ := inUser.pages
      obtain ⟨⟨mapped, m₁, space₁⟩, allocated, rest⟩ := Result.bind_ok returned
      have down : pageAlignDown ph.vaBase = ph.vaBase := inUser.range.alignDown
      have outcome := vmmSpaceAlloc_spec inv.memory.data.tables inv.isRoot (down.symm ▸ inUser.range) allocated
      rw [down] at outcome
      by_cases failed : mapped = 0
      · simp only [failed, if_true] at rest
        cases rest
        obtain ⟨places', _, memory, regions, sameRoot, spared⟩ :=
          inv.memory.alloc inv.regions inv.isRoot inUser.range outcome
        exact .refused _ _ ⟨⟨places', memory, regions⟩, sameRoot, spared⟩
      · obtain ⟨rfl, frames, filled⟩ := outcome.filled failed
        obtain ⟨inv₁, spared₁⟩ := inv.alloc inUser.range filled
        obtain ⟨m₂, fills, stores, reads⟩ := inv₁.fillTwin (DataStores.refl m₁ _) inUser filled image accepted.sizes
        simp only [failed, if_false] at rest
        rw [fills] at rest
        cases rest
        obtain ⟨inv₂, spared₂⟩ := inv₁.stored stores
        exact .loaded frames m₁ _ isLoad accepted inUser.range filled inv₂ stores reads (spared₁.trans spared₂)
  · rw [if_pos isLoad] at returned
    cases returned
    exact .skipped isLoad

/-- Every segment that `elf_load` reaches and accepts ends in the user half. -/
def UserSegments (image : Image) : Prop :=
  ∀ i, i < image.ePhnum → (∀ j, j < i → (image.phdr j).pType = ptLoad → (image.phdr j).Accepted image) →
    (image.phdr i).pType = ptLoad → (image.phdr i).Accepted image → (image.phdr i).InUser

/-- What a property of the loads needs to hold behind all headers: every loaded header keeps it. -/
def KeptByLoads (shield roots : Set Nat) (image : Image) (P : Nat → Machine → Space → Prop) : Prop :=
  ∀ i m space places m' space', i < image.ePhnum → (∀ j, j ≤ i → (image.phdr j).pType = ptLoad →
      (image.phdr j).Accepted image ∧ (image.phdr j).InUser) → LoadInv shield roots m space places → P i m space →
    SegmentOutcome shield roots image m space places (image.phdr i) true m' space' → P (i + 1) m' space'

/-- The header loop of `elf_load` gives up, or it loads all headers. -/
theorem loadSegments_spec {P : Nat → Machine → Space → Prop} {nodes : Nat → Bool} {left i : Nat} {loaded : Bool}
    (user : UserSegments image) (keeps : KeptByLoads shield roots image P) (all : i + left = image.ePhnum)
    (accepted : ∀ j, j < i → (image.phdr j).pType = ptLoad → (image.phdr j).Accepted image ∧ (image.phdr j).InUser)
    (inv : LoadInv shield roots m space places) (holds : P i m space)
    (returned : loadSegments image nodes left i m space = .ok (loaded, m', space')) :
    (loaded = false ∧ Kept shield roots m m' space.pml4Phys space') ∨
      loaded = true ∧ (∃ places', LoadInv shield roots m' space' places') ∧ P image.ePhnum m' space' ∧
        space'.pml4Phys = space.pml4Phys ∧ Spared shield m m' roots := by
  induction left generalizing i m space places with
  | zero =>
      rw [loadSegments] at returned
      cases returned
      refine Or.inr ⟨rfl, ⟨places, inv⟩, ?_, rfl, Spared.refl _⟩
      rw [← all]
      exact holds
  | succ left ih =>
      rw [loadSegments] at returned
      obtain ⟨⟨first, m₁, space₁⟩, segment, rest⟩ := Result.bind_ok returned
      have userHere := user i (by omega) fun j early isLoad => (accepted j early isLoad).1
      have outcome := inv.segment userHere segment
      cases first with
      | false =>
          cases rest
          cases outcome with
          | refused _ _ kept => exact Or.inl ⟨rfl, kept⟩
      | true =>
          have accepted' : ∀ j, j < i + 1 → (image.phdr j).pType = ptLoad →
              (image.phdr j).Accepted image ∧ (image.phdr j).InUser := by
            intro j early isLoad
            by_cases here : j = i
            · subst here
              cases outcome with
              | skipped other => exact absurd isLoad other
              | loaded frames m₂ _ _ passes => exact ⟨passes, userHere isLoad passes⟩
            · exact accepted j (by omega) isLoad
          have holds' := keeps i m space places m₁ space₁ (by omega) (fun j early => accepted' j (Nat.lt_succ_of_le early)) inv holds
            outcome
          have next : (∃ places', LoadInv shield roots m₁ space₁ places') ∧ space₁.pml4Phys = space.pml4Phys ∧
              Spared shield m m₁ roots := by
            cases outcome with
            | skipped _ => exact ⟨⟨places, inv⟩, rfl, Spared.refl m⟩
            | loaded frames m₂ _ _ _ _ _ inv' _ _ spared => exact ⟨⟨_, inv'⟩, rfl, spared⟩
          obtain ⟨⟨places₁, inv₁⟩, sameRoot, spared⟩ := next
          rcases ih (by omega) accepted' inv₁ holds' rest with ⟨failed, kept⟩ | ⟨done, inv', holds', sameRoot', spared'⟩
          · exact Or.inl ⟨failed, kept.memory, kept.sameRoot.trans sameRoot, spared.trans kept.spared⟩
          · exact Or.inr ⟨done, inv', holds', sameRoot'.trans sameRoot, spared.trans spared'⟩

/-- A new space has no pages. -/
theorem LoadInv.created (inv : MemInv (kernelPages m roots) m roots places) (added : RootAdded m m' roots root) :
    LoadInv (kernelPages m roots) (insert root roots) m' ⟨root, [], 0, 0⟩ places := by
  have notRoot : root ∉ roots := fun isRoot => added.notTable inv.data.tables (Radix.root_mem_nodes isRoot)
  refine ⟨(inv.addRoot added).1, Set.mem_insert _ _, ⟨nofun, nofun⟩, ?_, ?_⟩
  · intro page _ cell mapped
    exact absurd (inv.data.within _ (pageView_map.mp mapped).1).1 notRoot
  · intro va user mapped
    exact absurd (added.empty va user) mapped

/-- The destruction of a partly loaded space spares the shielded pages. -/
theorem Kept.destroy {last : Machine} (kept : Kept shield roots m m' root space') (isRoot : root ∈ roots)
    (returned : vmmSpaceDestroy m' space' = .ok last) : Spared shield m last roots := by
  obtain ⟨places', memory, regions⟩ := kept.memory
  exact kept.spared.trans (memory.destroy regions (kept.sameRoot ▸ isRoot) returned)

theorem stackRange : UserRange userStackBase userStackPages := ⟨by decide, by decide⟩

/-- How `elf_load` ends: it gives nothing and spares the kernel pages, or it gives a space with all headers and the stack. -/
inductive ElfOutcome (m : Machine) (roots : Set Nat) (image : Image) (P : Nat → Machine → Space → Prop) :
    Option Space → Machine → Prop where
  | failed (m' : Machine) (spared : Spared (kernelPages m roots) m m' roots) : ElfOutcome m roots image P none m'
  | loaded (root : Nat) (m₁ m₂ m' : Machine) (space : Space) (places : Finset Place) (frames : Nat → Nat)
    (added : RootAdded m m₁ roots root)
    (sameRoot : space.pml4Phys = root)
    (inv : LoadInv (kernelPages m roots) (insert root roots) m₂ space places)
    (holds : P image.ePhnum m₂ space)
    (filled : AllocatedRange m₂ m' (insert root roots) root userStackBase userStackPages (flagsToPte stackFlags) frames)
    (spared : Spared (kernelPages m roots) m₁ m' (insert root roots)) :
    ElfOutcome m roots image P
      (some (space.record ⟨userStackBase, wrap64 (userStackPages * pageSize), vmmRegionUsed ||| stackFlags⟩)) m'

theorem elfLoad_spec {P : Nat → Machine → Space → Prop} {outcomes : LoadOutcomes} {result : Option Space}
    (user : UserSegments image) (memory : MemInv (kernelPages m roots) m roots places)
    (keeps : ∀ root, KeptByLoads (kernelPages m roots) (insert root roots) image P)
    (start : ∀ root m₁, RootAdded m m₁ roots root → P 0 m₁ ⟨root, [], 0, 0⟩)
    (returned : elfLoad image m outcomes = .ok (result, m')) : ElfOutcome m roots image P result m' := by
  unfold elfLoad at returned
  split at returned
  · cases returned
    exact .failed _ (Spared.refl _)
  split at returned
  · cases returned
    exact .failed _ (Spared.refl _)
  split at returned
  · cases returned
    exact .failed _ (Spared.refl _)
  cases created : vmmSpaceCreate m outcomes.space with
  | mk new m₁ =>
      rcases vmmSpaceCreate_spec memory.data.tables created with ⟨rfl, rfl, _⟩ | ⟨root, rfl, added⟩
      · simp only [created] at returned
        cases returned
        exact .failed _ (Spared.refl _)
      · simp only [created] at returned
        obtain ⟨memory₁, spared₁, _⟩ := memory.addRoot added
        have inv₁ : LoadInv (kernelPages m roots) (insert root roots) m₁ ⟨root, [], 0, 0⟩ places :=
          .created memory added
        obtain ⟨⟨loaded, m₂, space₂⟩, loads, rest⟩ := Result.bind_ok returned
        have narrow {m₃ : Machine} (spared : Spared (kernelPages m roots) m₁ m₃ (insert root roots)) :
            Spared (kernelPages m roots) m m₃ roots := by
          refine spared₁.trans ⟨spared.ram, ?_, spared.kernelPml4⟩
          intro other isRoot
          exact spared.kernelHalf other (Set.mem_insert_of_mem _ isRoot)
        rcases loadSegments_spec user (keeps root) (Nat.zero_add _) (fun j early => absurd early (Nat.not_lt_zero j)) inv₁
          (start root m₁ added) loads with ⟨rfl, kept⟩ | ⟨rfl, ⟨places₂, inv₂⟩, holds, sameRoot, spared₂⟩
        · obtain ⟨m₃, destroyed, last⟩ := Result.bind_ok rest
          cases last
          exact .failed _ (narrow (kept.destroy (Set.mem_insert _ _) destroyed))
        · obtain ⟨⟨stack, m₃, space₃⟩, allocated, rest⟩ := Result.bind_ok rest
          have isRoot : space₂.pml4Phys ∈ insert root roots := sameRoot ▸ Set.mem_insert _ _
          have down : pageAlignDown userStackBase = userStackBase := stackRange.alignDown
          have outcome := vmmSpaceAlloc_spec inv₂.memory.data.tables isRoot (down.symm ▸ stackRange) allocated
          rw [down] at outcome
          obtain ⟨places₃, _, memory₃, regions₃, sameRoot₃, spared₃⟩ :=
            inv₂.memory.alloc inv₂.regions isRoot stackRange outcome
          have spared' := spared₂.trans spared₃
          simp only at rest
          split at rest
          · obtain ⟨m₄, destroyed, last⟩ := Result.bind_ok rest
            cases last
            have destroyed' := memory₃.destroy regions₃ (sameRoot₃ ▸ isRoot) destroyed
            exact .failed _ (narrow (spared'.trans destroyed'))
          · rename_i works
            cases rest
            have success : stack ≠ 0 := by
              rintro rfl
              exact works (by simp)
            obtain ⟨rfl, frames, filled⟩ := outcome.filled success
            rw [sameRoot] at filled
            exact .loaded root m₁ m₂ _ space₂ places₂ frames added sameRoot inv₂ holds filled spared'

end

end DoccrOS.Packages
