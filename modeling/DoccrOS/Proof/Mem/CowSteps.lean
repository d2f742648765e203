import DoccrOS.Proof.Mem.CowKernel

namespace DoccrOS.Mem
open Lib.Radix Lib

/-- The byte of a page at an offset. -/
def byteAt (contents : Fin 512 → Word) (offset : Nat) : BitVec 8 :=
  byteOf (contents (Fin.ofNat 512 (offset / 8))) (offset % 8)

theorem byteOf_bit (word : Word) (i bit : Nat) (inside : bit < 8) :
    (byteOf word i).getLsbD bit = word.getLsbD (8 * i + bit) := by
  rw [byteOf, BitVec.getLsbD_setWidth, BitVec.getLsbD_ushiftRight]
  simp [inside]

/-- A stored byte is read back, and the other bytes of the word stay. -/
theorem byteOf_setByte (word : Word) (byte : BitVec 8) {i j : Nat} (inside : j < 8) :
    byteOf (setByte word i byte) j = if j = i then byte else byteOf word j := by
  apply BitVec.eq_of_getLsbD_eq
  intro bit small
  have mask (query : Nat) : (0xFF#64).getLsbD query = decide (query < 8) := by
    rw [show (0xFF#64) = BitVec.setWidth 64 (BitVec.allOnes 8) by decide, BitVec.getLsbD_setWidth,
      BitVec.getLsbD_allOnes]
    simp only [Bool.and_eq_right_iff_imp, decide_eq_true_eq]
    omega
  rw [byteOf_bit _ _ _ small, setByte, BitVec.getLsbD_or, BitVec.getLsbD_and, BitVec.getLsbD_not,
    BitVec.getLsbD_shiftLeft, BitVec.getLsbD_shiftLeft, BitVec.getLsbD_setWidth, mask]
  have inWord : 8 * j + bit < 64 := by omega
  by_cases same : j = i
  · simp [same, small, show 8 * i + bit < 64 by omega, show bit < 64 by omega]
  · rw [if_neg same, byteOf_bit _ _ _ small]
    by_cases below : 8 * j + bit < 8 * i
    · simp [below, inWord]
    · have far : ¬8 * j + bit - 8 * i < 8 := by omega
      have beyond : byte.getLsbD (8 * j + bit - 8 * i) = false := BitVec.getLsbD_of_ge _ _ (by omega)
      simp [below, inWord, far, beyond]

theorem byteAt_stored (contents : Fin 512 → Word) (byte : BitVec 8) {offset query : Nat} (inside : offset < pageSize)
    (inside' : query < pageSize) :
    byteAt (storedPage contents offset byte) query = if query = offset then byte else byteAt contents query := by
  have slots : (Fin.ofNat 512 (query / 8) = Fin.ofNat 512 (offset / 8)) ↔ query / 8 = offset / 8 := by
    simp only [Fin.ext_iff, Fin.val_ofNat, pageSize] at *
    omega
  by_cases slot : query / 8 = offset / 8
  · rw [byteAt, storedPage, slots.mpr slot, Function.update_self,
      byteOf_setByte _ _ (Nat.mod_lt _ (by decide))]
    by_cases same : query = offset
    · rw [if_pos same, if_pos (by rw [same])]
    · rw [if_neg same, if_neg (by omega), byteAt, slot]
  · rw [byteAt, storedPage, Function.update_of_ne (fun same => slot (slots.mp same)),
      if_neg (fun same => slot (by rw [same]))]
    rfl

/-- A space reads the bytes of the pages it maps. -/
def pageBytes (m : Machine) (root va : Nat) : Option (BitVec 8) :=
  if va < 2 ^ 47 then (look m (root, va / pageSize)).map (byteAt · (va % pageSize)) else none

section
variable {policy : Policy} {keep : Set Nat} {k k' : Kernel} {ptr : HeapPtr} {space : Space}

theorem reads_eq (k : Kernel) (ptr : HeapPtr) :
    k.reads ptr = (k.spaces ptr).map fun space => pageBytes k.machine space.pml4Phys := by
  unfold Kernel.reads
  congr 1
  funext space va
  unfold pageBytes
  split
  · rw [look, findPte_align, userRead, Option.map_map]
    rfl
  · rfl

theorem reads_live (live : k.spaces ptr = some space) : k.reads ptr = some (pageBytes k.machine space.pml4Phys) := by
  rw [reads_eq, live]
  rfl

/-- The bytes below a table depend on its pages only. -/
theorem pageBytes_congr {m m' : Machine} {root : Nat}
    (same : ∀ page, page < 2 ^ 35 → look m' (root, page) = look m (root, page)) :
    pageBytes m' root = pageBytes m root := by
  funext va
  unfold pageBytes
  split
  · rename_i user
    rw [same (va / pageSize) (UserVa.small user)]
  · rfl

/-- A call that keeps the pages of all other spaces changes what one space reads. -/
theorem reads_put {m' : Machine} {value : Option Space}
    (others : ∀ other space, other ≠ ptr → k.spaces other = some space → ∀ page, page < 2 ^ 35 →
      look m' (space.pml4Phys, page) = look k.machine (space.pml4Phys, page)) :
    (k.put ptr m' value).reads =
      Function.update k.reads ptr (value.map fun space => pageBytes m' space.pml4Phys) := by
  funext other
  rw [reads_eq, put_spaces, put_machine]
  by_cases here : other = ptr
  · rw [here, if_pos rfl, Function.update_self]
  · rw [if_neg here, Function.update_of_ne here, reads_eq]
    cases shown : k.spaces other with
    | none => rfl
    | some space =>
        rw [Option.map_some, Option.map_some, pageBytes_congr (others other space here shown)]

/-- A call that keeps all pages changes no contents. -/
theorem reads_same {m' : Machine} {space' : Space} (live : k.spaces ptr = some space)
    (sameRoot : space'.pml4Phys = space.pml4Phys)
    (same : ∀ place ∈ userPlaces k.roots, look m' place = look k.machine place) :
    (k.put ptr m' (some space')).reads = k.reads := by
  have kept : ∀ other value, k.spaces other = some value → ∀ page, page < 2 ^ 35 →
      look m' (value.pml4Phys, page) = look k.machine (value.pml4Phys, page) := fun other value shown page small =>
    same _ (mem_userPlaces.mpr ⟨Kernel.isRoot shown, small⟩)
  rw [reads_put fun other value _ shown => kept other value shown, Option.map_some, sameRoot,
    pageBytes_congr (kept ptr space live), ← reads_live live, Function.update_eq_self]

/-- The calls that hand out data pages. -/
def Op.hands : Op → Bool
  | .alloc .. | .cowBreak .. | .write .. => true
  | _ => false

/-- The data frames after a step: the old ones that are still used, and the frames that the call took for data. -/
def Kernel.handed (k k' : Kernel) (op : Op) (keep : Set Nat) : Set Nat :=
  {frame | k'.machine.phys.used frame = true ∧ (frame ∈ keep ∨
    (op.hands = true ∧ k.machine.phys.used frame = false ∧ ¬TableFrame k'.machine k'.roots frame))}

/-- A strict policy breaks pages only while their frames are shared. -/
def Policy.breakable (policy : Policy) (k : Kernel) (ptr : HeapPtr) (va : Nat) : Prop :=
  policy.lossy ∨ ∀ space, k.spaces ptr = some space → ∀ region cell,
    vmmSpaceFind space (pageAlignDown va) = some region → hasFlag region.flags vmmRegionCow = true →
    (userView k.machine k.roots).map (space.pml4Phys, pageAlignDown va / pageSize) = some cell →
    1 < (userView k.machine k.roots).rc cell

/-- What the callers of the memory manager respect, and what a policy needs beyond that. -/
def Policy.permits (policy : Policy) (k : Kernel) : Op → Prop
  | .create _ | .free _ _ | .destroy _ => True
  | .alloc ptr vaddr pageCount flags _ => k.newRange ptr vaddr pageCount = true ∧
    (policy.lossy ∨ (hasFlag flags vmmRegionMmio = false ∧ ∀ space, k.spaces ptr = some space → ∀ i m,
      vmmSpaceAllocPages space.pml4Phys (pageAlignDown vaddr) (flagsToPte flags) pageCount 0 k.machine ≠
        .ok (some (i + 1), m)))
  | .mapPhys .. => False
  | .clone src _ _ => ∀ space, k.spaces src = some space → ∀ page cell,
    (userView k.machine k.roots).map (space.pml4Phys, page) = some cell →
    Shareable policy.rel ((userView k.machine k.roots).rc cell)
  | .cowBreak ptr va => policy.breakable k ptr va
  | .write ptr va _ => va < 2 ^ 47 ∧ policy.breakable k ptr va

/-- A step keeps the kernel invariant, and the contents take the same step in the reference model. -/
def StepHolds (policy : Policy) (keep : Set Nat) (k : Kernel) (op : Op) (k' : Kernel) : Prop :=
  KernelInv policy {frame | ¬policy.lossy ∧ frame ∈ k.handed k' op keep} k' ∧ eagerStep k k.reads k'.reads op

theorem onSpace_ok {call : Space → Result Kernel} (returned : k.onSpace ptr call = .ok k') :
    ∃ space, k.spaces ptr = some space ∧ call space = .ok k' := by
  unfold Kernel.onSpace at returned
  cases live : k.spaces ptr with
  | none => simp [live] at returned
  | some space =>
      rw [live] at returned
      exact ⟨space, rfl, returned⟩

/-- A call that takes data frames hands out no frame beyond the ones it mapped. -/
theorem Kernel.handed_subset {op : Op} {more : Set Nat} (grown : keep ⊆ more)
    (taken : ¬policy.lossy → ∀ frame, k'.machine.phys.used frame = true → k.machine.phys.used frame = true ∨
      TableFrame k'.machine k'.roots frame ∨ frame ∈ more) :
    {frame | ¬policy.lossy ∧ frame ∈ k.handed k' op keep} ⊆ more := by
  rintro frame ⟨strict, used, reason⟩
  rcases reason with old | ⟨_, unused, notTable⟩
  · exact grown old
  · rcases taken strict frame used with before | table | member
    · rw [before] at unused
      cases unused
    · exact absurd table notTable
    · exact member

/-- A call that hands out no data keeps the used ones among the old data frames. -/
theorem Kernel.handed_kept {op : Op} (none : op.hands = false) :
    {frame | ¬policy.lossy ∧ frame ∈ k.handed k' op keep} ⊆ {frame ∈ keep | k'.machine.phys.used frame = true} := by
  rintro frame ⟨_, used, reason⟩
  rcases reason with old | ⟨hands, _⟩
  · exact ⟨old, used⟩
  · rw [none] at hands
    cases hands

theorem KernelInv.step_create {new : Option HeapPtr} (inv : KernelInv policy keep k)
    (returned : k.step (.create new) = .ok k') : StepHolds policy keep k (.create new) k' := by
  unfold Kernel.step at returned
  cases isNew : k.isNew new with
  | false => simp [isNew] at returned
  | true =>
      simp only [isNew, Bool.not_true, Bool.false_eq_true, if_false] at returned
      cases created : vmmSpaceCreate k.machine new.isSome with
      | mk result m =>
          rcases vmmSpaceCreate_spec inv.pages.data.tables created with ⟨rfl, rfl, _⟩ | ⟨root, rfl, added⟩
          · have same : k = k' := by
              cases new <;> simp only [created] at returned <;> exact Except.ok.inj returned
            rw [← same]
            exact ⟨inv.mono (fun frame member => (Kernel.handed_kept rfl member).1), Or.inl rfl⟩
          · cases new with
            | none => simp [vmmSpaceCreate] at created
            | some new =>
                simp only [created] at returned
                injection returned with same
                rw [← same]
                have dead : k.spaces new = none := by simpa [Kernel.isNew] using isNew
                obtain ⟨pages, empty, others⟩ := inv.pages.addRoot added
                have fresh : root ∉ k.roots := fun isRoot =>
                  added.notTable inv.pages.data.tables (root_mem_nodes isRoot)
                have spaceInv : SpaceInv m ⟨root, [], 0, 0⟩ := by
                  refine ⟨fun region member => absurd member List.not_mem_nil, List.Pairwise.nil, ?_⟩
                  intro page small shown
                  exact absurd (empty page small) shown
                have added' := inv.add dead fresh pages spaceInv
                  (fun region member => absurd member List.not_mem_nil) others
                refine ⟨added'.mono (fun frame member => (Kernel.handed_kept rfl member).1), Or.inr ⟨new, rfl, ?_, ?_⟩⟩
                · rw [reads_eq, dead]
                  rfl
                · have kept : ∀ other space, other ≠ new → k.spaces other = some space → ∀ page, page < 2 ^ 35 →
                      look m (space.pml4Phys, page) = look k.machine (space.pml4Phys, page) :=
                    fun other space _ shown page small =>
                      others _ (mem_userPlaces.mpr ⟨Kernel.isRoot shown, small⟩)
                  have bytes : pageBytes m root = fun _ => none := by
                    funext va
                    unfold pageBytes
                    split
                    · rename_i user
                      rw [empty _ (UserVa.small user)]
                      rfl
                    · rfl
                  rw [reads_put kept, Option.map_some, bytes]

theorem newRange_spec {vaddr pageCount : Nat} (live : k.spaces ptr = some space)
    (range : k.newRange ptr vaddr pageCount = true) :
    UserRange (pageAlignDown vaddr) pageCount ∧ ∀ region ∈ space.regions,
      pageAlignDown vaddr + pageCount * pageSize ≤ region.base ∨ region.base + region.size ≤ pageAlignDown vaddr := by
  unfold Kernel.newRange at range
  simp only [live, Bool.and_eq_true, decide_eq_true_eq, List.all_eq_true, Bool.or_eq_true] at range
  obtain ⟨⟨_, fits⟩, apart⟩ := range
  refine ⟨⟨?_, fits⟩, apart⟩
  rw [pageAlignDown_eq, Nat.mul_mod_left]

/-- A new range shares no page with a region it does not overlap. -/
theorem newRange_apart {base count page : Nat} {region : Region} (range : UserRange base count)
    (inv : RegionInv region) (apart : base + count * pageSize ≤ region.base ∨ region.base + region.size ≤ base)
    (inside : ∃ i, i < count ∧ page = base / pageSize + i) : ¬region.covers page := by
  intro covers
  obtain ⟨i, small, same⟩ := inside
  have aligned := range.aligned
  have aligned' := inv.range.aligned
  have whole := inv.whole
  obtain ⟨low, high⟩ := covers
  simp only [pageSize] at *
  omega

/-- A permitted allocation finds its pages unmapped. -/
theorem KernelInv.allocates {vaddr pageCount value : Nat} {flags : BitVec 32} {nodeOk : Bool} {m : Machine} {space' : Space}
    (inv : KernelInv policy keep k) (lawful : policy.Lawful keep) (live : k.spaces ptr = some space)
    (permitted : policy.permits k (.alloc ptr vaddr pageCount flags nodeOk))
    (allocated : vmmSpaceAlloc k.machine space vaddr pageCount flags nodeOk = .ok (value, m, space')) :
    Allocates policy.rel policy.lossy keep k.machine m k.roots space vaddr pageCount flags space' := by
  obtain ⟨newRange, lossless⟩ := permitted
  obtain ⟨range, apart⟩ := newRange_spec live newRange
  have spaceInv := inv.spaces ptr space live
  have isRoot : space.pml4Phys ∈ k.roots := Kernel.isRoot live
  have unmapped : ∀ i, i < pageCount → look k.machine (pageAt space.pml4Phys (pageAlignDown vaddr) i) = none := by
    intro i inside
    by_contra shown
    obtain ⟨region, member, covers⟩ :=
      spaceInv.covered _ (mem_userPlaces.mp (range.tracked isRoot inside)).2 shown
    exact newRange_apart range (spaceInv.regions region member) (apart region member) ⟨i, inside, rfl⟩ covers
  have rollback : (policy.lossy ∧ keep = ∅ ∧ Leaky policy.rel) ∨ ∀ i m'', vmmSpaceAllocPages space.pml4Phys (pageAlignDown vaddr)
      (flagsToPte flags) pageCount 0 k.machine ≠ .ok (some (i + 1), m'') := by
    rcases lossless with lossy | ⟨_, never⟩
    · exact Or.inl ⟨lossy, (lawful.loses lossy).1, (lawful.loses lossy).2.1⟩
    · exact Or.inr (never space live)
  exact inv.pages.alloc lawful.discipline isRoot range unmapped rollback allocated

theorem KernelInv.step_alloc {vaddr pageCount : Nat} {flags : BitVec 32} {nodeOk : Bool}
    (inv : KernelInv policy keep k) (lawful : policy.Lawful keep)
    (permitted : policy.permits k (.alloc ptr vaddr pageCount flags nodeOk))
    (returned : k.step (.alloc ptr vaddr pageCount flags nodeOk) = .ok k') :
    StepHolds policy keep k (.alloc ptr vaddr pageCount flags nodeOk) k' := by
  obtain ⟨space, live, call⟩ := onSpace_ok returned
  obtain ⟨⟨value, m, space'⟩, allocated, rest⟩ := Result.bind_ok call
  injection rest with same
  rw [← same]
  have result := inv.allocates lawful live permitted allocated
  obtain ⟨newRange, lossless⟩ := permitted
  obtain ⟨range, apart⟩ := newRange_spec live newRange
  have spaceInv := inv.spaces ptr space live
  have isRoot : space.pml4Phys ∈ k.roots := Kernel.isRoot live
  cases result with
  | failed pages sameLook =>
      obtain ⟨more, grown, pages, taken⟩ := pages
      have after := inv.put live rfl pages ((spaceInv.congr fun page small shown => by
        rw [sameLook _ (mem_userPlaces.mpr ⟨isRoot, small⟩)] at shown
        exact shown)) (inv.device ptr space live) fun place member _ => sameLook place member
      refine ⟨after.mono (Kernel.handed_subset grown ?_), Or.inl (reads_same live rfl sameLook)⟩
      intro strict
      rw [put_roots live rfl]
      exact taken.resolve_left strict
  | filled nonempty filled =>
      obtain ⟨more, grown, pages, taken⟩ := filled.inv
      have region : RegionInv ⟨pageAlignDown vaddr, wrap64 (pageCount * pageSize), vmmRegionUsed ||| flags⟩ :=
        newRegion_inv range (recorded_used flags)
      have covers (page : Nat) : Region.covers
          ⟨pageAlignDown vaddr, wrap64 (pageCount * pageSize), vmmRegionUsed ||| flags⟩ page ↔ _ :=
        newRegion_covers range page
      have outside : ∀ page, page < 2 ^ 35 → (¬∃ i, i < pageCount ∧ page = pageAlignDown vaddr / pageSize + i) →
          look m (space.pml4Phys, page) = look k.machine (space.pml4Phys, page) := by
        intro page small notHere
        refine filled.outside _ (mem_userPlaces.mpr ⟨isRoot, small⟩) ?_
        intro i inside clash
        exact notHere ⟨i, inside, congrArg Prod.snd clash⟩
      have others : ∀ place ∈ userPlaces k.roots, place.1 ≠ space.pml4Phys → look m place = look k.machine place := by
        intro place member different
        exact filled.outside place member fun i _ clash => different (congrArg Prod.fst clash)
      have recorded : SpaceInv m (space.record
          ⟨pageAlignDown vaddr, wrap64 (pageCount * pageSize), vmmRegionUsed ||| flags⟩) := by
        refine spaceInv.record region ?_ fun page small notHere => outside page small fun here =>
          notHere ((covers page).mpr here)
        intro other member page here
        exact newRange_apart range (spaceInv.regions other member) (apart other member) ((covers page).mp here)
      have device : ∀ region ∈ (space.record
          ⟨pageAlignDown vaddr, wrap64 (pageCount * pageSize), vmmRegionUsed ||| flags⟩).regions,
          hasFlag region.flags vmmRegionMmio = true → policy.lossy := by
        intro other member mmio
        rcases List.mem_cons.mp ((insertRegion_perm _ _).mem_iff.mp member) with new | old
        · rw [new, recorded_mmio] at mmio
          rcases lossless with lossy | ⟨noMmio, _⟩
          · exact lossy
          · rw [noMmio] at mmio
            cases mmio
        · exact inv.device ptr space live other old mmio
      have sameRoot : (space.record
          ⟨pageAlignDown vaddr, wrap64 (pageCount * pageSize), vmmRegionUsed ||| flags⟩).pml4Phys = space.pml4Phys := rfl
      have after := inv.put live sameRoot pages recorded device others
      refine ⟨after.mono (Kernel.handed_subset grown ?_), Or.inr ?_⟩
      · intro _
        rw [put_roots live sameRoot]
        exact taken
      · refine ⟨_, _, reads_live live, reads_put ?_, ?_⟩
        · intro other value different shown page small
          exact others _ (mem_userPlaces.mpr ⟨Kernel.isRoot shown, small⟩) (inv.apart live different shown)
        · intro va
          have aligned := range.aligned
          have fits := range.fits
          have inRange : (pageAlignDown vaddr ≤ va ∧ va < pageAlignDown vaddr + pageCount * pageSize) ↔
              ∃ i, i < pageCount ∧ va / pageSize = pageAlignDown vaddr / pageSize + i := by
            constructor
            · rintro ⟨low, high⟩
              refine ⟨va / pageSize - pageAlignDown vaddr / pageSize, ?_, ?_⟩
              · simp only [pageSize] at *
                omega
              · simp only [pageSize] at *
                omega
            · rintro ⟨i, small, same⟩
              simp only [pageSize] at *
              omega
          split
          · rename_i inside
            obtain ⟨i, small, here⟩ := inRange.mp inside
            have user : va < 2 ^ 47 := by omega
            change pageBytes m space.pml4Phys va ≠ none
            rw [pageBytes, if_pos user, here]
            intro absent
            exact filled.mapped i small (Option.map_eq_none_iff.mp absent)
          · rename_i notInside
            change pageBytes m space.pml4Phys va = pageBytes k.machine space.pml4Phys va
            unfold pageBytes
            split
            · rename_i user
              rw [outside _ (UserVa.small user) fun here => notInside (inRange.mpr here)]
            · rfl

/-- The frees of a kernel hold the device condition of the page layer. -/
theorem KernelInv.lossyRegions (inv : KernelInv policy keep k) (lawful : policy.Lawful keep)
    (live : k.spaces ptr = some space) : ∀ region ∈ space.regions, hasFlag region.flags vmmRegionMmio = true →
      keep = ∅ ∧ Leaky policy.rel := by
  intro region member mmio
  obtain ⟨none, leaky, _⟩ := lawful.loses (inv.device ptr space live region member mmio)
  exact ⟨none, leaky⟩

theorem KernelInv.step_free {vaddr : Nat} (inv : KernelInv policy keep k) (lawful : policy.Lawful keep)
    (returned : k.step (.free ptr vaddr) = .ok k') : StepHolds policy keep k (.free ptr vaddr) k' := by
  obtain ⟨space, live, call⟩ := onSpace_ok returned
  have same : k.put ptr (vmmSpaceFree k.machine space vaddr).1 (some (vmmSpaceFree k.machine space vaddr).2) = k' :=
    Except.ok.inj call
  rw [← same]
  have isRoot : space.pml4Phys ∈ k.roots := Kernel.isRoot live
  have spaceInv := inv.spaces ptr space live
  have frees := inv.pages.free vaddr lawful.discipline lawful.tight isRoot spaceInv.regions
    (inv.lossyRegions lawful live)
  have spaceInv' := frees.spaceInv spaceInv isRoot
  obtain ⟨shrunk, sameRoot, sub⟩ := frees.shrunk inv.pages
  have device : ∀ region ∈ (vmmSpaceFree k.machine space vaddr).2.regions,
      hasFlag region.flags vmmRegionMmio = true → policy.lossy := fun region member =>
    inv.device ptr space live region (sub member)
  have after := inv.put live sameRoot shrunk.inv spaceInv' device shrunk.others
  refine ⟨after.mono (Kernel.handed_kept rfl), _, reads_live live, ?_⟩
  have others : ∀ other value, other ≠ ptr → k.spaces other = some value → ∀ page, page < 2 ^ 35 →
      look (vmmSpaceFree k.machine space vaddr).1 (value.pml4Phys, page) = look k.machine (value.pml4Phys, page) := by
    intro other value different shown page small
    exact shrunk.others _ (mem_userPlaces.mpr ⟨Kernel.isRoot shown, small⟩) (inv.apart live different shown)
  rw [reads_put others, Option.map_some, sameRoot]
  congr 2
  funext va
  have selection : k.frees ptr vaddr va = (space.selected vaddr).elim false fun region =>
      decide (region.base ≤ va) && decide (va < region.base + region.size) := by
    rw [Kernel.frees, live, Option.bind_some]
    cases space.selected vaddr <;> rfl
  rw [selection]
  generalize (vmmSpaceFree k.machine space vaddr).1 = m at frees
  generalize (vmmSpaceFree k.machine space vaddr).2 = space' at frees
  cases frees with
  | nothing unselected => simp [unselected]
  | region selected split emptied =>
      rename_i cur before after count used
      have member : cur ∈ space.regions := by
        rw [split]
        exact List.mem_append_right _ List.mem_cons_self
      have region := spaceInv.regions cur member
      have aligned := region.range.aligned
      have fits := region.range.fits
      have whole := region.whole
      have inRegion : (cur.base ≤ va ∧ va < cur.base + cur.size) ↔
          ∃ i, i < cur.size / pageSize ∧ va / pageSize = cur.base / pageSize + i := by
        constructor
        · rintro ⟨low, high⟩
          refine ⟨va / pageSize - cur.base / pageSize, ?_, ?_⟩
          · simp only [pageSize] at *
            omega
          · simp only [pageSize] at *
            omega
        · rintro ⟨i, small, same⟩
          simp only [pageSize] at *
          omega
      simp only [selected, Option.elim_some, Bool.and_eq_true, decide_eq_true_eq]
      unfold pageBytes
      by_cases user : va < 2 ^ 47
      · rw [if_pos user, if_pos user]
        by_cases inside : cur.base ≤ va ∧ va < cur.base + cur.size
        · obtain ⟨i, small, here⟩ := inRegion.mp inside
          rw [if_pos inside, here]
          have gone := emptied.gone i small
          rw [pageAt] at gone
          rw [gone]
          rfl
        · rw [if_neg inside, emptied.outside _ (mem_userPlaces.mpr ⟨isRoot, UserVa.small user⟩) fun i small clash =>
            inside (inRegion.mpr ⟨i, small, congrArg Prod.snd clash⟩)]
      · rw [if_neg user, if_neg user]
        split <;> rfl

theorem KernelInv.step_destroy (inv : KernelInv policy keep k) (lawful : policy.Lawful keep)
    (returned : k.step (.destroy ptr) = .ok k') : StepHolds policy keep k (.destroy ptr) k' := by
  obtain ⟨space, live, call⟩ := onSpace_ok returned
  obtain ⟨m, destroyed, rest⟩ := Result.bind_ok call
  injection rest with same
  rw [← same]
  have gone := inv.pages.destroy lawful.discipline lawful.tight (Kernel.isRoot live) (inv.spaces ptr space live)
    (inv.lossyRegions lawful live) destroyed
  have after := inv.remove live gone.inv gone.others
  refine ⟨after.mono (Kernel.handed_kept rfl), ?_⟩
  have others : ∀ other value, other ≠ ptr → k.spaces other = some value → ∀ page, page < 2 ^ 35 →
      look m (value.pml4Phys, page) = look k.machine (value.pml4Phys, page) := by
    intro other value different shown page small
    exact gone.others _ (mem_userPlaces.mpr ⟨Kernel.isRoot shown, small⟩) (inv.apart live different shown)
  exact reads_put others

theorem KernelInv.step_clone {src : HeapPtr} {new : Option HeapPtr} {nodes : Nat → Bool}
    (inv : KernelInv policy keep k) (lawful : policy.Lawful keep) (permitted : policy.permits k (.clone src new nodes))
    (returned : k.step (.clone src new nodes) = .ok k') : StepHolds policy keep k (.clone src new nodes) k' := by
  unfold Kernel.step at returned
  cases isNew : k.isNew new with
  | false => simp [isNew] at returned
  | true =>
      simp only [isNew, Bool.not_true, Bool.false_eq_true, if_false] at returned
      obtain ⟨space, live, call⟩ := onSpace_ok returned
      obtain ⟨⟨clone, m, space'⟩, cloned, rest⟩ := Result.bind_ok call
      have isRoot : space.pml4Phys ∈ k.roots := Kernel.isRoot live
      obtain ⟨result, sameRoot, spans, spaceInv', flags⟩ := inv.pages.clone lawful.discipline lawful.tight isRoot
        (inv.spaces src space live) (permitted space live) (inv.lossyRegions lawful live) cloned
      have device : ∀ regions : List Region, (∀ region ∈ regions, ∃ other ∈ space.regions,
          hasFlag region.flags vmmRegionMmio = hasFlag other.flags vmmRegionMmio) →
          ∀ region ∈ regions, hasFlag region.flags vmmRegionMmio = true → policy.lossy := by
        intro regions origin region member mmio
        obtain ⟨other, member', sameFlag⟩ := origin region member
        exact inv.device src space live other member' (sameFlag ▸ mmio)
      cases result with
      | failed pages sameLook =>
          have same : k.put src m (some space') = k' := by
            cases new <;> exact Except.ok.inj rest
          rw [← same]
          have after := inv.put live sameRoot pages spaceInv' (device _ flags) fun place member _ =>
            sameLook place member
          exact ⟨after.mono (Kernel.handed_kept rfl), Or.inl (reads_same live sameRoot sameLook)⟩
      | cloned dst fresh pages sameLook copied dstInv dstFlags _ =>
          cases new with
          | none => simp [vmmCloneSpace, vmmSpaceCreate] at cloned
          | some new =>
              have same : (k.put src m (some space')).put new m (some dst) = k' := Except.ok.inj rest
              rw [← same]
              have dead : k.spaces new = none := by simpa [Kernel.isNew] using isNew
              have different : new ≠ src := by
                intro clash
                rw [clash, live] at dead
                cases dead
              have swapped : (k.put src m (some space')).put new m (some dst) =
                  (k.put new m (some dst)).put src m (some space') := by
                unfold Kernel.put
                rw [Function.update_comm different]
              have added := inv.add dead fresh pages dstInv (device _ dstFlags) sameLook
              have live' : (k.put new m (some dst)).spaces src = some space := by
                rw [put_spaces, if_neg (Ne.symm different)]
                exact live
              have pages' := added.pages
              have after := added.put live' sameRoot pages' spaceInv' (device _ flags) fun _ _ _ => rfl
              rw [swapped]
              refine ⟨after.mono ?_, Or.inr ⟨new, _, rfl, ?_, reads_live live, ?_⟩⟩
              · intro frame member
                exact (Kernel.handed_kept rfl member).1
              · rw [reads_eq, dead]
                rfl
              · have others : ∀ other value, other ≠ new → k.spaces other = some value → ∀ page, page < 2 ^ 35 →
                    look m (value.pml4Phys, page) = look k.machine (value.pml4Phys, page) := by
                  intro other value _ shown page small
                  exact sameLook _ (mem_userPlaces.mpr ⟨Kernel.isRoot shown, small⟩)
                have sameBytes : pageBytes m dst.pml4Phys = pageBytes k.machine space.pml4Phys := by
                  funext va
                  unfold pageBytes
                  split
                  · rename_i user
                    rw [copied _ (UserVa.small user)]
                  · rfl
                have reflagged : ((k.put new m (some dst)).put src m (some space')).reads = (k.put new m (some dst)).reads :=
                  reads_same live' sameRoot fun _ _ => rfl
                rw [reflagged, reads_put others, Option.map_some, sameBytes]

theorem KernelInv.breakPage {va : Nat} {m : Machine} {space' : Space} (inv : KernelInv policy keep k)
    (lawful : policy.Lawful keep) (live : k.spaces ptr = some space)
    (shared : policy.breakable k ptr va) (breaks : Breaks k.machine k.roots space va m space') :
    (∃ more, keep ⊆ more ∧ KernelInv policy more (k.put ptr m (some space')) ∧ ∀ frame, m.phys.used frame = true →
        k.machine.phys.used frame = true ∨ TableFrame m k.roots frame ∨ frame ∈ more) ∧
      (∀ place ∈ userPlaces k.roots, look m place = look k.machine place) ∧ space'.pml4Phys = space.pml4Phys := by
  have spaceInv := inv.spaces ptr space live
  have sole : policy.rel 0 1 ∨ ∀ region cell, vmmSpaceFind space (pageAlignDown va) = some region →
      hasFlag region.flags vmmRegionCow = true →
      (userView k.machine k.roots).map (space.pml4Phys, pageAlignDown va / pageSize) = some cell →
      1 < (userView k.machine k.roots).rc cell := by
    rcases shared with lossy | shared
    · exact Or.inl (lawful.loses lossy).2.2
    · exact Or.inr (shared space live)
  obtain ⟨⟨more, grown, pages, taken⟩, sameLook⟩ := inv.pages.break lawful.discipline lawful.tight sole breaks
  obtain ⟨sameRoot, spans, used, flags⟩ := breaks.reflag fun region member => (spaceInv.regions region member).used
  have device : ∀ region ∈ space'.regions, hasFlag region.flags vmmRegionMmio = true → policy.lossy := by
    intro region member mmio
    obtain ⟨other, member', sameFlag⟩ := flags region member
    exact inv.device ptr space live other member' (sameFlag ▸ mmio)
  have spaceInv' : SpaceInv m space' := by
    refine (spaceInv.congr ?_).reflag sameRoot spans used
    intro page small shown
    rw [sameLook _ (mem_userPlaces.mpr ⟨Kernel.isRoot live, small⟩)] at shown
    exact shown
  exact ⟨⟨more, grown, inv.put live sameRoot pages spaceInv' device fun place member _ => sameLook place member, taken⟩,
    sameLook, sameRoot⟩

theorem KernelInv.step_cowBreak {va : Nat} (inv : KernelInv policy keep k) (lawful : policy.Lawful keep)
    (permitted : policy.permits k (.cowBreak ptr va)) (returned : k.step (.cowBreak ptr va) = .ok k') :
    StepHolds policy keep k (.cowBreak ptr va) k' := by
  obtain ⟨space, live, call⟩ := onSpace_ok returned
  obtain ⟨⟨m, space'⟩, broken, rest⟩ := Result.bind_ok call
  injection rest with same
  rw [← same]
  have breaks := vmmCowBreak_spec inv.pages.data (Kernel.isRoot live) (inv.spaces ptr space live).regions broken
  obtain ⟨⟨more, grown, after, taken⟩, sameLook, sameRoot⟩ := inv.breakPage lawful live permitted breaks
  refine ⟨after.mono (Kernel.handed_subset grown ?_), reads_same live sameRoot sameLook⟩
  intro _
  rw [put_roots live sameRoot]
  exact taken

theorem KernelInv.step_write {va : Nat} {byte : BitVec 8} (inv : KernelInv policy keep k)
    (lawful : policy.Lawful keep) (permitted : policy.permits k (.write ptr va byte))
    (returned : k.step (.write ptr va byte) = .ok k') : StepHolds policy keep k (.write ptr va byte) k' := by
  obtain ⟨space, live, call⟩ := onSpace_ok returned
  obtain ⟨⟨m, space'⟩, written, rest⟩ := Result.bind_ok call
  injection rest with same
  rw [← same]
  obtain ⟨user, shared⟩ := permitted
  obtain ⟨middle, ⟨⟨more, grown, after, taken⟩, sameLook, sameRoot⟩, stored⟩ : ∃ middle,
      ((∃ more, keep ⊆ more ∧ KernelInv policy more (k.put ptr middle (some space')) ∧ ∀ frame,
          middle.phys.used frame = true → k.machine.phys.used frame = true ∨ TableFrame middle k.roots frame ∨
            frame ∈ more) ∧
        (∀ place ∈ userPlaces k.roots, look middle place = look k.machine place) ∧
        space'.pml4Phys = space.pml4Phys) ∧ tryStore middle space' va byte = some m := by
    rcases userWrite_cases inv.pages.data (Kernel.isRoot live) (inv.spaces ptr space live).regions written with
      ⟨rfl, stored⟩ | ⟨middle, breaks, stored⟩
    · have same := inv.put live rfl inv.pages (inv.spaces ptr space' live) (inv.device ptr space' live) fun _ _ _ => rfl
      exact ⟨k.machine, ⟨⟨keep, subset_rfl, same, fun _ used => Or.inl used⟩, fun _ _ => rfl, rfl⟩, stored⟩
    · exact ⟨middle, inv.breakPage lawful live shared breaks, stored⟩
  have pages := after.pages
  rw [put_roots live sameRoot, put_machine] at pages
  have isRoot' : space'.pml4Phys ∈ k.roots := by
    rw [sameRoot]
    exact Kernel.isRoot live
  obtain ⟨pages', ⟨contents, before, shown⟩, others, samePhys, sameTables⟩ := pages.tryStore isRoot' user stored
  rw [sameRoot] at before shown others
  have tracked : (space.pml4Phys, va / pageSize) ∈ userPlaces k.roots :=
    mem_userPlaces.mpr ⟨Kernel.isRoot live, UserVa.small user⟩
  have old : look k.machine (space.pml4Phys, va / pageSize) = some contents := (sameLook _ tracked).symm.trans before
  have others' : ∀ place ∈ userPlaces k.roots, place ≠ (space.pml4Phys, va / pageSize) →
      look m place = look k.machine place := by
    intro place member different
    rw [others place member different, sameLook place member]
  have live' : (k.put ptr middle (some space')).spaces ptr = some space' := by
    rw [put_spaces, if_pos rfl]
  have spaceInv' : SpaceInv m space' := by
    refine (after.spaces ptr space' live').congr ?_
    intro page small seen
    rw [put_machine]
    rw [sameRoot] at seen ⊢
    by_cases here : (space.pml4Phys, page) = (space.pml4Phys, va / pageSize)
    · rw [here, before]
      exact Option.some_ne_none _
    · rw [others _ (mem_userPlaces.mpr ⟨Kernel.isRoot live, small⟩) here] at seen
      exact seen
  have final := inv.put live sameRoot pages' spaceInv' (after.device ptr space' live') fun place member different =>
    others' place member fun clash => different (congrArg Prod.fst clash)
  refine ⟨final.mono (Kernel.handed_subset grown ?_), _, reads_live live, ?_, ?_⟩
  · intro _ frame used
    rw [put_roots live sameRoot, put_machine]
    rw [put_machine, samePhys] at used
    have tables : TableFrame m k.roots frame ↔ TableFrame middle k.roots frame := by
      rw [TableFrame, TableFrame, sameTables]
    rw [tables]
    exact taken frame used
  · rw [pageBytes, if_pos user, old]
    exact Option.some_ne_none _
  · have kept : ∀ other value, other ≠ ptr → k.spaces other = some value → ∀ page, page < 2 ^ 35 →
        look m (value.pml4Phys, page) = look k.machine (value.pml4Phys, page) := by
      intro other value different seen page small
      refine others' _ (mem_userPlaces.mpr ⟨Kernel.isRoot seen, small⟩) fun clash => ?_
      exact inv.apart live different seen (congrArg Prod.fst clash)
    rw [reads_put kept, Option.map_some, sameRoot]
    congr 2
    funext query
    have inPage : va % pageSize < pageSize := Nat.mod_lt _ (by decide)
    have inPage' : query % pageSize < pageSize := Nat.mod_lt _ (by decide)
    by_cases here : query = va
    · rw [here, Function.update_self, pageBytes, if_pos user, shown, Option.map_some,
        byteAt_stored contents byte inPage inPage, if_pos rfl]
    · rw [Function.update_of_ne here]
      unfold pageBytes
      split
      · rename_i user'
        by_cases samePage : query / pageSize = va / pageSize
        · have offset : query % pageSize ≠ va % pageSize := by
            simp only [pageSize] at *
            omega
          rw [samePage, shown, old, Option.map_some, Option.map_some, byteAt_stored contents byte inPage inPage',
            if_neg offset]
        · rw [others' _ (mem_userPlaces.mpr ⟨Kernel.isRoot live, UserVa.small user'⟩) fun clash =>
            samePage (congrArg Prod.snd clash)]
      · rfl

/-- Every permitted step keeps the kernel invariant and refines the reference model. -/
theorem KernelInv.step {op : Op} (inv : KernelInv policy keep k) (lawful : policy.Lawful keep)
    (permitted : policy.permits k op) (returned : k.step op = .ok k') : StepHolds policy keep k op k' := by
  cases op with
  | create new => exact inv.step_create returned
  | alloc ptr vaddr pageCount flags nodeOk => exact inv.step_alloc lawful permitted returned
  | mapPhys ptr vaddr physAddr pageCount flags nodeOk => exact permitted.elim
  | clone src new nodes => exact inv.step_clone lawful permitted returned
  | free ptr vaddr => exact inv.step_free lawful returned
  | destroy ptr => exact inv.step_destroy lawful returned
  | cowBreak ptr va => exact inv.step_cowBreak lawful permitted returned
  | write ptr va byte => exact inv.step_write lawful permitted returned

end

end DoccrOS.Mem
