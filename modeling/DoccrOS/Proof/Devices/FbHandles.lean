import DoccrOS.Construction.Devices.FbHandles
import DoccrOS.Proof.Devices.Fb0
import DoccrOS.Proof.User.Munmap

namespace DoccrOS.Devices
open Lib Mem Screen User

/-- The region that `FB_IOCTL_MAP` records. -/
def fbRegion (g : Graphics) : Region :=
  ⟨fbMapVaddr, wrap64 (fbMapPages g * pageSize), vmmRegionUsed ||| vmmRegionMmio ||| fbMapFlags⟩

/-- The region shares a page with the range at `FB_MAP_VADDR`. -/
def meetsFb (g : Graphics) (region : Region) : Bool :=
  decide (max (region.base / pageSize) (fbMapVaddr / pageSize) <
    min (region.base / pageSize + region.size / pageSize) (fbMapVaddr / pageSize + fbMapPages g))

/-- The number of mapped handles. -/
def FbProcess.mappedCount (s : FbProcess) : Nat := s.handles.countP FbHandle.mapped

/-- A release through a mapped handle finds no other region in the range of the mapping, a mapping fits the backbuffer, and
`sys_munmap` releases no region in that range while a handle is mapped. -/
def FbProcess.permits (g : Graphics) (s : FbProcess) : FbCall → Bool
  | .openDevice _ _ => true
  | .close i | .unmap i => s.handles[i]?.all fun handle =>
    !handle.mapped || s.mem.space.all fun space => decide (space.regions.countP (meetsFb g) ≤ 1)
  | .map _ _ _ => decide (MapFits g)
  | .munmap addr => s.mem.space.all fun space => (space.selected addr.toNat).all fun region =>
    !meetsFb g region || s.mappedCount == 0

/-- Every mapped handle has its range translated to the frames of the backbuffer, in order. -/
def FbProcess.Coherent (g : Graphics) (bs : Screens) (frames : Set Nat) (s : FbProcess) : Prop :=
  ∀ handle ∈ s.handles, handle.mapped = true → ∃ space, s.mem.space = some space ∧ ∀ i < fbMapPages g, ∃ entry,
    s.mem.machine.findPte space.pml4Phys (handle.vaddr + i * pageSize) = some entry ∧
      entryAddr entry / pageSize = (bs .bs3).pixelsPhys / pageSize + i ∧ entryAddr entry / pageSize ∈ frames

/-- A call through a handle removes the region of its own mapping, with its pages, or nothing. -/
def RemovesOwn (g : Graphics) (roots : Set Nat) (s s' : FbProcess) (i : Nat) : Prop :=
  s'.mem = s.mem ∨ ∃ handle space space' before after, s.handles[i]? = some handle ∧ handle.mapped = true ∧
    handle.vaddr = (fbRegion g).base ∧ s.mem.space = some space ∧ s'.mem.space = some space' ∧
    space.regions = before ++ fbRegion g :: after ∧ space'.regions = before ++ after ∧
    (∀ root ∈ roots, ∀ va, UserVa va → ¬(root = space.pml4Phys ∧ (fbRegion g).holds va = true) →
      s'.mem.machine.findPte root va = s.mem.machine.findPte root va) ∧
    ∀ region ∈ space'.regions, ∀ va, region.holds va = true →
      s'.mem.machine.findPte space.pml4Phys va = s.mem.machine.findPte space.pml4Phys va

/-- The pages that the device maps show the pixels in order. -/
def ShowsPixels (g : Graphics) (bs : Screens) (m : Machine) (root : Nat) : Prop :=
  ∀ i < fbMapPages g, m.findPte root (fbMapVaddr + i * pageSize) =
    some (leafEntry (wrap64 (pageAlignDown (bs .bs3).pixelsPhys + i * pageSize)) (flagsToPte fbMapFlags))

/-- The data regions are tracked unless a mapping covers some of their pages, and every mapped handle has a record. -/
structure FbSpace (roots : Set Nat) (g : Graphics) (places : Finset Place) (count : Nat) (space : Space) : Prop where
  isRoot : space.pml4Phys ∈ roots
  regions : ∀ region ∈ space.regions, RegionInv region ∧ 0 < region.size
  tracked : ∀ region ∈ space.regions, hasFlag region.flags vmmRegionMmio = false →
    (meetsFb g region = true → count = 0) → rangePlaces space.pml4Phys region.base (region.size / pageSize) ⊆ places
  records : count ≤ space.regions.count (fbRegion g)

/-- What every permitted call keeps. -/
structure FbInv (shield roots : Set Nat) (g : Graphics) (bs : Screens) (places : Finset Place) (s : FbProcess) : Prop where
  memory : MemInv shield s.mem.machine roots places
  space : ∀ space, s.mem.space = some space → FbSpace roots g places s.mappedCount space
  ready : 0 < s.mappedCount → fbMapPages g ≠ 0 ∧ MapFits g ∧ (bs .bs3).pixelsPhys ≠ 0
  shown : ∀ handle ∈ s.handles, handle.mapped = true → handle.vaddr = fbMapVaddr ∧
    ∃ space, s.mem.space = some space ∧ ShowsPixels g bs s.mem.machine space.pml4Phys

section
variable {shield roots : Set Nat} {g : Graphics} {bs : Screens} {places : Finset Place} {m m' : Machine}
  {space space' : Space} {region cur : Region} {s s' : FbProcess} {vaddr i : Nat}

theorem meetsFb_iff : meetsFb g region = true ↔
    max (region.base / pageSize) (fbMapVaddr / pageSize) <
      min (region.base / pageSize + region.size / pageSize) (fbMapVaddr / pageSize + fbMapPages g) := by
  rw [meetsFb, decide_eq_true_eq]

theorem permits_release {handle : FbHandle} (permitted : s.permits g (.close i) = true)
    (isOpen : s.handles[i]? = some handle) (mapped : handle.mapped = true) (live : s.mem.space = some space) :
    space.regions.countP (meetsFb g) ≤ 1 := by
  simp only [FbProcess.permits, isOpen, Option.all_some, mapped, Bool.not_true, Bool.false_or, live] at permitted
  exact of_decide_eq_true permitted

theorem permits_munmap {addr : Word} (permitted : s.permits g (.munmap addr) = true) (live : s.mem.space = some space)
    (region : Region) (selected : space.selected addr.toNat = some region) (meets : meetsFb g region = true) :
    s.mappedCount = 0 := by
  simpa only [FbProcess.permits, live, Option.all_some, selected, meets, Bool.not_true, Bool.false_or, beq_iff_eq]
    using permitted

/-- A region without a page in the range holds none of its addresses. -/
theorem meetsFb_apart (apart : meetsFb g region = false) {va : Nat} (inside : InRange fbMapVaddr (fbMapPages g) va) :
    ¬InRange region.base (region.size / pageSize) va := by
  intro here
  have meets : meetsFb g region = true := meetsFb_iff.mpr (by
    unfold InRange at inside here
    omega)
  rw [apart] at meets
  cases meets

theorem fbRegion_size (g : Graphics) : (fbRegion g).size / pageSize = fbMapPages g := by
  have fits := (fbMap_range g).fits
  have whole : wrap64 (fbMapPages g * pageSize) = fbMapPages g * pageSize := Nat.mod_eq_of_lt (by omega)
  rw [fbRegion, whole]
  exact page_div _

theorem fbRegion_inv (g : Graphics) : RegionInv (fbRegion g) := newRegion_inv (fbMap_range g) (by decide)

theorem fbRegion_mmio (g : Graphics) : hasFlag (fbRegion g).flags vmmRegionMmio = true := by
  change hasFlag (vmmRegionUsed ||| vmmRegionMmio ||| fbMapFlags) vmmRegionMmio = true
  decide

theorem fbRegion_holds {va : Nat} : (fbRegion g).holds va = true ↔ InRange fbMapVaddr (fbMapPages g) va := by
  rw [(fbRegion_inv g).holds_iff, fbRegion_size]
  rfl

/-- The address of a mapped page lies in the range. -/
theorem fbPage_inside {j : Nat} (below : j < fbMapPages g) :
    InRange fbMapVaddr (fbMapPages g) (fbMapVaddr + j * pageSize) := by
  obtain ⟨_, _, number⟩ := (fbMap_range g).address below
  unfold InRange
  omega

/-- A region with bytes at `FB_MAP_VADDR` meets the range. -/
theorem meetsFb_base (several : fbMapPages g ≠ 0) (inv : RegionInv region) (sized : 0 < region.size)
    (base : region.base = fbMapVaddr) : meetsFb g region = true := by
  have pages : 0 < region.size / pageSize :=
    Nat.div_pos (Nat.le_of_dvd sized (Nat.dvd_of_mod_eq_zero inv.whole)) (by decide)
  rw [meetsFb_iff, base]
  omega

/-- A release of a region whose data pages are tracked keeps the invariant of the memory. -/
theorem vmmSpaceFree_keeps (memory : MemInv shield m roots places) (isRoot : space.pml4Phys ∈ roots)
    (sound : ∀ cur, space.selected vaddr = some cur → RegionInv cur ∧ (hasFlag cur.flags vmmRegionMmio = false →
      rangePlaces space.pml4Phys cur.base (cur.size / pageSize) ⊆ places)) :
    MemInv shield (vmmSpaceFree m space vaddr).1 roots places ∧
      FreeOutcome m roots space vaddr (vmmSpaceFree m space vaddr).1 (vmmSpaceFree m space vaddr).2 := by
  have outcome : FreeOutcome m roots space vaddr (vmmSpaceFree m space vaddr).1 (vmmSpaceFree m space vaddr).2 := by
    apply vmmSpaceFree_spec memory.data.tables isRoot ?_ rfl
    intro cur selected
    obtain ⟨inv, tracked⟩ := sound cur selected
    let single : Space := { space with regions := [cur] }
    have alone : RegionsInv single places := by
      constructor
      · intro region member
        rw [List.mem_singleton.mp member]
        exact inv
      · intro region member isData
        rw [List.mem_singleton.mp member] at isData ⊢
        exact tracked isData
    have drops := memory.dropsData alone (show cur ∈ single.regions from List.mem_singleton_self cur)
    exact ⟨inv.range, drops⟩
  refine ⟨?_, outcome⟩
  generalize (vmmSpaceFree m space vaddr).1 = m' at outcome ⊢
  generalize (vmmSpaceFree m space vaddr).2 = space' at outcome
  cases outcome with
  | missing none => exact memory
  | freed cur _ selected range =>
      obtain ⟨inv, tracked⟩ := sound cur selected
      exact (memory.freed range inv.range tracked).1

/-- What the case `FB_IOCTL_MAP` can do to the state. -/
theorem fb0IoctlMap_cases {state after : FbState} {reply : FbReply} {arg : Nat} {nodeOk : Bool}
    (returned : fb0IoctlMap g bs state arg nodeOk = .ok (reply, after)) : after = state ∨
      ∃ space m', state.space = some space ∧ state.handle.mapped = false ∧ fbMapPages g ≠ 0 ∧ (bs .bs3).pixelsPhys ≠ 0 ∧
        vmmMapPhysPages space.pml4Phys fbMapVaddr (pageAlignDown (bs .bs3).pixelsPhys) (flagsToPte fbMapFlags)
          (fbMapPages g) state.machine = .ok m' ∧
        after = ⟨m', ⟨true, fbMapVaddr⟩, some (space.record (fbRegion g))⟩ := by
  unfold fb0IoctlMap at returned
  split at returned
  · cases returned
    exact Or.inl rfl
  · split at returned
    · cases returned
      exact Or.inl rfl
    next space live =>
        split at returned
        · cases returned
          exact Or.inl rfl
        next unmapped =>
            dsimp only at returned
            split at returned
            · cases returned
              exact Or.inl rfl
            next ready =>
              obtain ⟨⟨vaddr, m', space'⟩, call, rest⟩ := Result.bind_ok returned
              have address : pageAlignDown fbMapVaddr = fbMapVaddr := by decide
              rcases vmmMapPhys_cases call with ⟨rfl, rfl, rfl, _⟩ | ⟨several, _, rfl, pages, rfl⟩
              · cases rest
                left
                rw [← live]
              · rw [address] at pages
                simp only [address, show fbMapVaddr ≠ 0 by decide, if_false] at rest
                cases rest
                exact Or.inr ⟨space, m', live, by simpa using unmapped, several, ready, pages, rfl⟩

/-- A call that changes nothing leaves the memory alone. -/
theorem memory_same (handle : FbHandle) : s.memory (s.view handle) = s.mem := by
  obtain ⟨⟨m, proc⟩, handles⟩ := s
  cases proc with
  | none => rfl
  | some p =>
      obtain ⟨space, heapBreak⟩ := p
      cases space <;> rfl

theorem memory_space {handle : FbHandle} (live : s.mem.space = some space) :
    (s.memory ⟨m', handle, some space'⟩).space = some space' ∧ (s.memory ⟨m', handle, some space'⟩).machine = m' :=
  ⟨put_space live, rfl⟩

theorem handles_same {handle : FbHandle} (isOpen : s.handles[i]? = some handle) : s.handles.set i handle = s.handles := by
  obtain ⟨inside, rfl⟩ := List.getElem?_eq_some_iff.mp isOpen
  exact List.set_getElem_self inside

/-- A mapping adds the record of its region and shows the pixels through every mapped handle. -/
theorem FbInv.mapped {handle : FbHandle} (inv : FbInv shield roots g bs places s) (fits : MapFits g)
    (isOpen : s.handles[i]? = some handle) (unmapped : handle.mapped = false) (live : s.mem.space = some space)
    (several : fbMapPages g ≠ 0) (ready : (bs .bs3).pixelsPhys ≠ 0)
    (pages : vmmMapPhysPages space.pml4Phys fbMapVaddr (pageAlignDown (bs .bs3).pixelsPhys) (flagsToPte fbMapFlags)
      (fbMapPages g) s.mem.machine = .ok m') : ∃ places', FbInv shield roots g bs places'
        ⟨s.memory ⟨m', ⟨true, fbMapVaddr⟩, some (space.record (fbRegion g))⟩, s.handles.set i ⟨true, fbMapVaddr⟩⟩ := by
  obtain ⟨isRoot, regions, tracked, records⟩ := inv.space space live
  obtain ⟨inside, rfl⟩ := List.getElem?_eq_some_iff.mp isOpen
  have range := vmmMapPhysPages_spec inv.memory.data.tables isRoot (fbMap_range g) (flagsToPte_page _) pages
  obtain ⟨memory, _⟩ := inv.memory.mapped range
  obtain ⟨live', machine⟩ := @memory_space m' space (space.record (fbRegion g)) s ⟨true, fbMapVaddr⟩ live
  have count : (s.handles.set i ⟨true, fbMapVaddr⟩).countP FbHandle.mapped = s.mappedCount + 1 := by
    rw [List.countP_set inside, unmapped]
    rfl
  have members (region : Region) (member : region ∈ (space.record (fbRegion g)).regions) :
      region = fbRegion g ∨ region ∈ space.regions :=
    List.mem_cons.mp ((insertRegion_perm (fbRegion g) space.regions).mem_iff.mp member)
  have shows : ShowsPixels g bs m' space.pml4Phys := by
    intro j below
    obtain ⟨_, user, number⟩ := (fbMap_range g).address below
    rw [range.leaf _ isRoot _ user, if_pos ⟨rfl, fbPage_inside below⟩, number, Nat.add_sub_cancel_left]
  refine ⟨places \ rangePlaces space.pml4Phys fbMapVaddr (fbMapPages g), ?_, ?_,
    fun _ => ⟨several, fits, ready⟩, ?_⟩
  · rw [machine]
    exact memory
  · intro other live''
    rw [live'] at live''
    cases live''
    refine ⟨isRoot, ?_, ?_, ?_⟩
    · intro region member
      rcases members region member with rfl | old
      · have whole := fbRegion_size g
        refine ⟨fbRegion_inv g, Nat.pos_of_ne_zero ?_⟩
        intro zero
        rw [zero, Nat.zero_div] at whole
        exact several whole.symm
      · exact regions region old
    · intro region member isData apart
      have old : region ∈ space.regions := by
        rcases members region member with rfl | old
        · rw [fbRegion_mmio] at isData
          cases isData
        · exact old
      have outside : meetsFb g region = false := by
        rw [← Bool.not_eq_true]
        intro meets
        have none := apart meets
        rw [FbProcess.mappedCount, count] at none
        exact Nat.succ_ne_zero _ none
      intro place member'
      refine Finset.mem_sdiff.mpr ⟨tracked region old isData (fun meets => ?_) member', ?_⟩
      · rw [outside] at meets
        cases meets
      · intro covered
        exact meetsFb_apart outside (mem_rangePlaces.mp covered).2 (mem_rangePlaces.mp member').2
    · rw [FbProcess.mappedCount, count]
      have added := (insertRegion_perm (fbRegion g) space.regions).count_eq (fbRegion g)
      rw [List.count_cons_self] at added
      rw [show (space.record (fbRegion g)).regions = insertRegion (fbRegion g) space.regions from rfl, added]
      exact Nat.succ_le_succ records
  · intro other member isMapped
    refine ⟨?_, _, live', ?_⟩
    · rcases List.mem_or_eq_of_mem_set member with old | rfl
      · exact (inv.shown other old isMapped).1
      · rfl
    · rw [machine]
      exact shows

/-- Two members that pass a test are the same if at most one member passes it. -/
theorem eq_of_countP_le_one {A : Type} {list : List A} {test : A → Bool} {first second : A} (few : list.countP test ≤ 1)
    (member : first ∈ list) (passes : test first = true) (member' : second ∈ list) (passes' : test second = true) :
    first = second := by
  rw [List.countP_eq_length_filter] at few
  have inside : first ∈ list.filter test := List.mem_filter.mpr ⟨member, passes⟩
  have inside' : second ∈ list.filter test := List.mem_filter.mpr ⟨member', passes'⟩
  generalize list.filter test = passing at *
  match passing with
  | [] => cases inside
  | [single] => rw [List.mem_singleton.mp inside, List.mem_singleton.mp inside']

/-- The region that `vmm_unmap_phys` selects for a mapped handle is the only one that meets the range. -/
theorem FbSpace.selected {count : Nat} (sound : FbSpace roots g places count space) (several : fbMapPages g ≠ 0)
    (mapped : 0 < count) (few : space.regions.countP (meetsFb g) ≤ 1) :
    space.selected fbMapVaddr = some (fbRegion g) := by
  have member : fbRegion g ∈ space.regions := List.count_pos_iff.mp (Nat.lt_of_lt_of_le mapped sound.records)
  have meets : meetsFb g (fbRegion g) = true :=
    meetsFb_base several (fbRegion_inv g) (sound.regions _ member).2 rfl
  have matched : (fbRegion g).matches fbMapVaddr = true := by
    rw [Region.matches, (fbRegion_inv g).used, Bool.and_true]
    exact beq_self_eq_true _
  rw [Space.selected, if_neg (by decide)]
  cases found : space.regions.find? (·.matches fbMapVaddr) with
  | none => exact absurd matched (List.find?_eq_none.mp found _ member)
  | some cur =>
      have member' := List.mem_of_find?_eq_some found
      obtain ⟨inv, sized⟩ := sound.regions cur member'
      have base : cur.base = fbMapVaddr := Region.matches_base (by simpa using List.find?_some found)
      rw [eq_of_countP_le_one few member' (meetsFb_base several inv sized base) member meets]

/-- What the release of the only mapping leaves. -/
structure Released (roots : Set Nat) (g : Graphics) (m m' : Machine) (space space' : Space) : Prop where
  sameRoot : space'.pml4Phys = space.pml4Phys
  split : ∃ before after, space.regions = before ++ fbRegion g :: after ∧ space'.regions = before ++ after
  apart : ∀ region ∈ space'.regions, meetsFb g region = false
  leaf : ∀ root ∈ roots, ∀ va, UserVa va → ¬(root = space.pml4Phys ∧ (fbRegion g).holds va = true) →
    m'.findPte root va = m.findPte root va

/-- The release adds no region. -/
theorem Released.old (released : Released roots g m m' space space') (stays : region ∈ space'.regions) :
    region ∈ space.regions := by
  obtain ⟨before, after, split, erased⟩ := released.split
  rw [erased] at stays
  rw [split]
  exact List.mem_append.mpr ((List.mem_append.mp stays).imp_right (List.mem_cons_of_mem _))

theorem FbSpace.released {count : Nat} (sound : FbSpace roots g places count space) (several : fbMapPages g ≠ 0)
    (few : space.regions.countP (meetsFb g) ≤ 1) (selected : space.selected fbMapVaddr = some (fbRegion g))
    (outcome : FreeOutcome m roots space fbMapVaddr m' space') : Released roots g m m' space space' := by
  obtain ⟨member, _, before, after, split, erased⟩ := selected_facts selected
  have meets : meetsFb g (fbRegion g) = true :=
    meetsFb_base several (fbRegion_inv g) (sound.regions _ member).2 rfl
  cases outcome with
  | missing none =>
      rw [none] at selected
      cases selected
  | freed cur _ found range =>
      obtain rfl : cur = fbRegion g := Option.some.inj (found.symm.trans selected)
      refine ⟨rfl, ⟨before, after, split, erased⟩, ?_, ?_⟩
      · intro region stays
        rw [erased] at stays
        rw [split, List.countP_append, List.countP_cons_of_pos meets] at few
        have none : (before ++ after).countP (meetsFb g) = 0 := by
          rw [List.countP_append]
          omega
        simpa using List.countP_eq_zero.mp none region stays
      · intro root isRoot va user outside
        rw [range.leaf root isRoot va user, if_neg]
        rw [fbRegion_size]
        exact fun both => outside ⟨both.1, fbRegion_holds.mpr both.2⟩

/-- A release through the only mapped handle keeps the invariant and removes the mapping of the handle. -/
theorem FbInv.released {handle left : FbHandle} {handles : List FbHandle} (inv : FbInv shield roots g bs places s)
    (isOpen : s.handles[i]? = some handle) (mapped : handle.mapped = true) (live : s.mem.space = some space)
    (few : space.regions.countP (meetsFb g) ≤ 1) (fewer : handles.countP FbHandle.mapped + 1 = s.mappedCount)
    (freed : vmmSpaceFree s.mem.machine space handle.vaddr = (m', space')) :
    FbInv shield roots g bs places ⟨s.memory ⟨m', left, some space'⟩, handles⟩ ∧
      Released roots g s.mem.machine m' space space' := by
  have sound := inv.space space live
  have base := (inv.shown handle (List.mem_of_getElem? isOpen) mapped).1
  have several := (inv.ready (by omega)).1
  have selected := sound.selected several (by omega) few
  rw [base] at freed
  have keeps := vmmSpaceFree_keeps inv.memory sound.isRoot (by
    intro cur isCur
    obtain rfl : fbRegion g = cur := Option.some.inj (selected.symm.trans isCur)
    refine ⟨fbRegion_inv g, ?_⟩
    intro isData
    rw [fbRegion_mmio] at isData
    cases isData)
  rw [freed] at keeps
  have released := sound.released several few selected keeps.2
  obtain ⟨live', machine⟩ := @memory_space m' space space' s left live
  obtain ⟨before, after, split, erased⟩ := released.split
  have none : handles.countP FbHandle.mapped = 0 := by
    have meets : meetsFb g (fbRegion g) = true :=
      meetsFb_base several (fbRegion_inv g) (sound.regions _ (selected_facts selected).1).2 rfl
    have records := sound.records
    have one : space.regions.count (fbRegion g) ≤ space.regions.countP (meetsFb g) := by
      rw [List.count]
      apply List.countP_mono_left
      intro region _ same
      rw [beq_iff_eq.mp same]
      exact meets
    omega
  refine ⟨⟨machine ▸ keeps.1, ?_, ?_, ?_⟩, released⟩
  · intro other live''
    rw [live'] at live''
    cases live''
    refine ⟨released.sameRoot ▸ sound.isRoot, fun region stays => sound.regions region (released.old stays), ?_, ?_⟩
    · intro region stays isData _
      rw [released.sameRoot]
      apply sound.tracked region (released.old stays) isData
      intro meets
      rw [released.apart region stays] at meets
      cases meets
    · exact (Nat.le_of_eq none).trans (Nat.zero_le _)
  · intro some
    exact absurd none (Nat.ne_of_gt some)
  · intro other member isMapped
    exact absurd isMapped (List.countP_eq_zero.mp none other member)

/-- A release of a region that shares no page with a mapped handle keeps the invariant. -/
theorem FbInv.freed (inv : FbInv shield roots g bs places s) (live : s.mem.space = some space)
    (spared : ∀ region, space.selected vaddr = some region → meetsFb g region = true → s.mappedCount = 0)
    (freed : vmmSpaceFree s.mem.machine space vaddr = (m', space')) :
    FbInv shield roots g bs places { s with mem := s.mem.put m' space' } := by
  have sound := inv.space space live
  have keeps := vmmSpaceFree_keeps inv.memory sound.isRoot (by
    intro cur selected
    have member := (selected_facts selected).1
    exact ⟨(sound.regions cur member).1, fun isData => sound.tracked cur member isData (spared cur selected)⟩)
  rw [freed] at keeps
  obtain ⟨memory, outcome⟩ := keeps
  have live' : (s.mem.put m' space').space = some space' := put_space live
  cases outcome with
  | missing none =>
      refine ⟨memory, ?_, inv.ready, ?_⟩
      · intro other same
        cases live'.symm.trans same
        exact sound
      · intro handle member isMapped
        obtain ⟨base, other, same, shows⟩ := inv.shown handle member isMapped
        exact ⟨base, other, live'.trans (live.symm.trans same), shows⟩
  | freed cur _ selected range =>
      obtain ⟨member, _, before, after, split, erased⟩ := selected_facts selected
      have old (region : Region) (stays : region ∈ space.regions.eraseP (·.matches vaddr)) : region ∈ space.regions :=
        List.eraseP_subset stays
      refine ⟨memory, ?_, inv.ready, ?_⟩
      · intro other same
        cases live'.symm.trans same
        refine ⟨sound.isRoot, fun region stays => sound.regions region (old region stays), ?_, ?_⟩
        · intro region stays
          exact sound.tracked region (old region stays)
        · change s.mappedCount ≤ (space.regions.eraseP (·.matches vaddr)).count (fbRegion g)
          have records := sound.records
          rw [split, List.count_append, List.count_cons] at records
          rw [erased, List.count_append]
          by_cases own : (cur == fbRegion g) = true
          · rcases Nat.eq_zero_or_pos s.mappedCount with none | some
            · omega
            · have meets : meetsFb g cur = true := by
                rw [beq_iff_eq.mp own]
                exact meetsFb_base (inv.ready some).1 (fbRegion_inv g)
                  (beq_iff_eq.mp own ▸ (sound.regions cur member).2) rfl
              have none := spared cur selected meets
              omega
          · rw [if_neg own] at records
            omega
      · intro handle isHandle isMapped
        obtain ⟨base, other, same, shows⟩ := inv.shown handle isHandle isMapped
        obtain rfl : space = other := Option.some.inj (live.symm.trans same)
        refine ⟨base, _, live', ?_⟩
        have outside : meetsFb g cur = false := by
          rw [← Bool.not_eq_true]
          intro meets
          exact List.countP_eq_zero.mp (spared cur selected meets) handle isHandle isMapped
        intro j below
        obtain ⟨_, user, number⟩ := (fbMap_range g).address below
        refine Eq.trans ?_ (shows j below)
        exact (range.leaf _ sound.isRoot _ user).trans (if_neg fun both => meetsFb_apart outside (fbPage_inside below) both.2)

/-- `sys_munmap` keeps the invariant if it releases no page of a mapped handle. -/
theorem FbInv.munmapped {addr : Word} (inv : FbInv shield roots g bs places s)
    (permitted : s.permits g (.munmap addr) = true) :
    FbInv shield roots g bs places { s with mem := (sysMunmap s.mem addr).2 } := by
  rw [sysMunmap]
  split
  · exact inv
  · split
    · exact inv
    next space live =>
        split
        · exact inv
        · exact inv.freed live (permits_munmap permitted live) rfl

/-- The open handles may change as long as the mapped ones stay. -/
theorem FbInv.handles {handles : List FbHandle} (inv : FbInv shield roots g bs places s)
    (count : handles.countP FbHandle.mapped = s.mappedCount)
    (kept : ∀ handle ∈ handles, handle.mapped = true → handle ∈ s.handles) :
    FbInv shield roots g bs places ⟨s.mem, handles⟩ := by
  refine ⟨inv.memory, ?_, fun some => inv.ready (Nat.lt_of_lt_of_eq some count),
    fun handle member isMapped => inv.shown handle (kept handle member isMapped) isMapped⟩
  intro space live
  rw [FbProcess.mappedCount, count]
  exact inv.space space live

theorem countP_eraseIdx {handle : FbHandle} (isOpen : s.handles[i]? = some handle) :
    (s.handles.eraseIdx i).countP FbHandle.mapped + (if handle.mapped then 1 else 0) = s.mappedCount := by
  obtain ⟨inside, rfl⟩ := List.getElem?_eq_some_iff.mp isOpen
  have perm := (List.getElem_cons_eraseIdx_perm inside).countP_eq FbHandle.mapped
  rw [List.countP_cons] at perm
  exact perm

theorem countP_unmapped {handle : FbHandle} (isOpen : s.handles[i]? = some handle) (mapped : handle.mapped = true) :
    (s.handles.set i ⟨false, 0⟩).countP FbHandle.mapped + 1 = s.mappedCount := by
  obtain ⟨inside, rfl⟩ := List.getElem?_eq_some_iff.mp isOpen
  have positive : 0 < s.handles.countP FbHandle.mapped := List.countP_pos_iff.mpr ⟨_, List.getElem_mem inside, mapped⟩
  rw [List.countP_set inside, mapped, FbProcess.mappedCount]
  simp only [if_true, Bool.false_eq_true, if_false]
  omega

/-- A released mapping is the own one of its handle. -/
theorem Released.removesOwn {handle left : FbHandle} {handles : List FbHandle} (inv : FbInv shield roots g bs places s)
    (isOpen : s.handles[i]? = some handle) (mapped : handle.mapped = true) (live : s.mem.space = some space)
    (released : Released roots g s.mem.machine m' space space') :
    RemovesOwn g roots s ⟨s.memory ⟨m', left, some space'⟩, handles⟩ i := by
  obtain ⟨before, after, split, erased⟩ := released.split
  have sound := inv.space space live
  have base := (inv.shown handle (List.mem_of_getElem? isOpen) mapped).1
  refine Or.inr ⟨handle, space, space', before, after, isOpen, mapped, base, live, put_space live, split, erased,
    released.leaf, ?_⟩
  intro region stays va holds
  have regionInv := (sound.regions region (released.old stays)).1
  apply released.leaf _ sound.isRoot va (regionInv.holds_user holds)
  intro both
  exact meetsFb_apart (released.apart region stays) (fbRegion_holds.mp both.2) (regionInv.holds_iff.mp holds)

theorem fb0Close_idle {state : FbState} (unmapped : state.handle.mapped = false) : fb0Close state = state := by
  rw [fb0Close, unmapped]
  rfl

theorem fb0Close_mapped {state : FbState} (mapped : state.handle.mapped = true) (live : state.space = some space) :
    fb0Close state = ⟨(vmmSpaceFree state.machine space state.handle.vaddr).1, state.handle,
      some (vmmSpaceFree state.machine space state.handle.vaddr).2⟩ := by
  rw [fb0Close, mapped, live]
  rfl

theorem fb0IoctlUnmap_idle {state : FbState} (unmapped : state.handle.mapped = false) :
    (fb0IoctlUnmap state).2 = state := by
  rw [fb0IoctlUnmap, unmapped]
  rfl

theorem fb0IoctlUnmap_mapped {state : FbState} (mapped : state.handle.mapped = true) (live : state.space = some space) :
    (fb0IoctlUnmap state).2 = ⟨(vmmSpaceFree state.machine space state.handle.vaddr).1, ⟨false, 0⟩,
      some (vmmSpaceFree state.machine space state.handle.vaddr).2⟩ := by
  rw [fb0IoctlUnmap, mapped, live]
  rfl

/-- Closing a handle keeps the invariant and removes no mapping but its own. -/
theorem FbInv.closed (inv : FbInv shield roots g bs places s) (permitted : s.permits g (.close i) = true)
    (returned : s.step g bs (.close i) = .ok s') : FbInv shield roots g bs places s' ∧ RemovesOwn g roots s s' i := by
  rw [FbProcess.step] at returned
  split at returned
  next handle isOpen =>
      cases returned
      have count := countP_eraseIdx isOpen
      cases mapped : handle.mapped with
      | false =>
          rw [mapped] at count
          rw [fb0Close_idle mapped, memory_same]
          exact ⟨inv.handles count fun other member _ => List.mem_of_mem_eraseIdx member, Or.inl rfl⟩
      | true =>
          rw [mapped] at count
          obtain ⟨_, space, live, _⟩ := inv.shown handle (List.mem_of_getElem? isOpen) mapped
          rw [fb0Close_mapped mapped live]
          obtain ⟨inv', released⟩ := inv.released isOpen mapped live (permits_release permitted isOpen mapped live) count rfl
          exact ⟨inv', released.removesOwn inv isOpen mapped live⟩
  next =>
      cases returned
      exact ⟨inv, Or.inl rfl⟩

/-- `FB_IOCTL_UNMAP` keeps the invariant and removes no mapping but that of its handle. -/
theorem FbInv.unmapped (inv : FbInv shield roots g bs places s) (permitted : s.permits g (.unmap i) = true)
    (returned : s.step g bs (.unmap i) = .ok s') : FbInv shield roots g bs places s' ∧ RemovesOwn g roots s s' i := by
  rw [FbProcess.step] at returned
  split at returned
  next handle isOpen =>
      cases returned
      cases mapped : handle.mapped with
      | false =>
          rw [fb0IoctlUnmap_idle mapped, memory_same, show (s.view handle).handle = handle from rfl, handles_same isOpen]
          exact ⟨inv, Or.inl rfl⟩
      | true =>
          obtain ⟨_, space, live, _⟩ := inv.shown handle (List.mem_of_getElem? isOpen) mapped
          rw [fb0IoctlUnmap_mapped mapped live]
          obtain ⟨inv', released⟩ := inv.released isOpen mapped live (permits_release permitted isOpen mapped live)
            (countP_unmapped isOpen mapped) rfl
          exact ⟨inv', released.removesOwn inv isOpen mapped live⟩
  next =>
      cases returned
      exact ⟨inv, Or.inl rfl⟩

/-- `FB_IOCTL_MAP` keeps the invariant. -/
theorem FbInv.mapCall {arg : Nat} {nodeOk : Bool} (inv : FbInv shield roots g bs places s)
    (permitted : s.permits g (.map i arg nodeOk) = true) (returned : s.step g bs (.map i arg nodeOk) = .ok s') :
    ∃ places', FbInv shield roots g bs places' s' := by
  rw [FbProcess.step] at returned
  split at returned
  next handle isOpen =>
      obtain ⟨⟨reply, after⟩, call, rest⟩ := Result.bind_ok returned
      cases rest
      rcases fb0IoctlMap_cases call with rfl | ⟨space, m', live, unmapped, several, ready, pages, rfl⟩
      · refine ⟨places, ?_⟩
        rw [memory_same, show (s.view handle).handle = handle from rfl, handles_same isOpen]
        exact inv
      · exact inv.mapped (of_decide_eq_true permitted) isOpen unmapped live several ready pages
  next =>
      cases returned
      exact ⟨places, inv⟩

theorem FbInv.opened {capable kmallocOk : Bool} (inv : FbInv shield roots g bs places s)
    (returned : s.step g bs (.openDevice capable kmallocOk) = .ok s') : FbInv shield roots g bs places s' := by
  rw [FbProcess.step] at returned
  split at returned
  next handle opened =>
      cases returned
      have fresh : handle = ⟨false, 0⟩ := by
        unfold fb0Open at opened
        split at opened
        · cases opened
        · split at opened
          · cases opened
          · split at opened
            · cases opened
            · exact (Option.some.inj opened).symm
      apply inv.handles
      · rw [fresh, List.countP_append]
        rfl
      · intro other member isMapped
        rcases List.mem_append.mp member with old | new
        · exact old
        · rw [List.mem_singleton.mp new, fresh] at isMapped
          cases isMapped
  next =>
      cases returned
      exact inv

/-- Every permitted call keeps the invariant. -/
theorem FbInv.step {call : FbCall} (inv : FbInv shield roots g bs places s) (permitted : s.permits g call = true)
    (returned : s.step g bs call = .ok s') : ∃ places', FbInv shield roots g bs places' s' := by
  cases call with
  | openDevice capable kmallocOk => exact ⟨places, inv.opened returned⟩
  | close i => exact ⟨places, (inv.closed permitted returned).1⟩
  | map i arg nodeOk => exact inv.mapCall permitted returned
  | unmap i => exact ⟨places, (inv.unmapped permitted returned).1⟩
  | munmap addr =>
      cases returned
      exact ⟨places, inv.munmapped permitted⟩

/-- A process without open handles has the invariant. -/
theorem FbInv.start (memory : UserMemInv shield roots s.mem places)
    (sized : ∀ space, s.mem.space = some space → ∀ region ∈ space.regions, 0 < region.size) (closed : s.handles = []) :
    FbInv shield roots g bs places s := by
  have none : s.mappedCount = 0 := by
    rw [FbProcess.mappedCount, closed]
    rfl
  refine ⟨memory.memory, ?_, ?_, ?_⟩
  · intro space live
    obtain ⟨isRoot, regions⟩ := memory.space space live
    refine ⟨isRoot, fun region member => ⟨regions.regions region member, sized space live region member⟩, ?_, ?_⟩
    · exact fun region member isData _ => regions.tracked region member isData
    · exact (Nat.le_of_eq none).trans (Nat.zero_le _)
  · intro some
    exact absurd none (Nat.ne_of_gt some)
  · intro handle member
    rw [closed] at member
    cases member

/-- The leaf entries of the mapping name the frames of the backbuffer. -/
theorem FbInv.coherent {fb : LimineFramebuffer} {bs₀ : Screens} {m₀ m₁ : Machine}
    (setup : bootscreenBs3InitBackbuffer (bootscreenLayoutInit (graphicsInit fb) bs₀) m₀ = (bs, m₁))
    (inv : FbInv shield roots (graphicsInit fb) bs places s) :
    s.Coherent (graphicsInit fb) bs (takenFrames m₀.phys m₁.phys) := by
  intro handle member isMapped
  obtain ⟨_, fits, ready⟩ := inv.ready (List.countP_pos_iff.mpr ⟨handle, member, isMapped⟩)
  obtain ⟨base, space, live, shows⟩ := inv.shown handle member isMapped
  obtain ⟨start, backbuffer⟩ := bootscreenBs3InitBackbuffer_spec (bootscreenLayoutInit_bs3 _ _).2.2 setup ready
  have few := (mapFits_iff fb bs₀).mp fits
  have inside := backbuffer.inside
  refine ⟨space, live, ?_⟩
  intro j below
  have aligned : pageAlignDown (start * pageSize) = start * pageSize := by simp [pageAlignDown]
  have small : (start + j) * pageSize < 2 ^ 64 := by
    simp only [pageSize]
    omega
  have frame : entryAddr (leafEntry (wrap64 (start * pageSize + j * pageSize)) (flagsToPte fbMapFlags)) / pageSize =
      start + j := by
    rw [← Nat.add_mul, wrap64, Nat.mod_eq_of_lt small, entryFrame_leaf (flagsToPte_page _).noAddr small, page_div,
      Nat.mod_eq_of_lt (by omega)]
  rw [base, shows j below, backbuffer.phys, aligned]
  refine ⟨_, rfl, ?_, ?_⟩
  · rw [frame, page_div]
  · rw [frame, backbuffer.taken]
    omega

/-- In every run of permitted calls, each mapped handle shows the backbuffer, and a release through a handle removes no
mapping but its own. -/
theorem fb_handles_coherent {fb : LimineFramebuffer} {bs₀ : Screens} {m₀ m₁ : Machine} {calls : List FbCall}
    (setup : bootscreenBs3InitBackbuffer (bootscreenLayoutInit (graphicsInit fb) bs₀) m₀ = (bs, m₁))
    (memory : UserMemInv shield roots s.mem places)
    (sized : ∀ space, s.mem.space = some space → ∀ region ∈ space.regions, 0 < region.size) (closed : s.handles = [])
    (run : Run (FbProcess.step (graphicsInit fb) bs) (fun before call => before.permits (graphicsInit fb) call = true)
      s calls s') :
    s'.Coherent (graphicsInit fb) bs (takenFrames m₀.phys m₁.phys) ∧
      ∀ i call after, call = .close i ∨ call = .unmap i → s'.permits (graphicsInit fb) call = true →
        s'.step (graphicsInit fb) bs call = .ok after → RemovesOwn (graphicsInit fb) roots s' after i := by
  let holds (state : FbProcess) : Prop := ∃ places, FbInv shield roots (graphicsInit fb) bs places state
  have kept : holds s' := by
    refine run.invariant holds ?_ ⟨places, FbInv.start memory sized closed⟩
    rintro before call after ⟨_, inv⟩ permitted returned
    exact inv.step permitted returned
  obtain ⟨places', inv⟩ := kept
  refine ⟨inv.coherent setup, ?_⟩
  rintro i call after (rfl | rfl) permitted returned
  · exact (inv.closed permitted returned).2
  · exact (inv.unmapped permitted returned).2

end

/-- The process of the small machine before it opens the device. -/
def fbUser : FbProcess := ⟨⟨(smallUser plainRows).machine, some ⟨(smallUser plainRows).space, 0⟩⟩, []⟩

theorem smallBackbuffer_kernelUsed : KernelUsed (smallBackbuffer plainRows).2 := by
  have empty : ∀ index, entryPresent ((smallBackbuffer plainRows).2.ram (smallBackbuffer plainRows).2.kernelPml4 index) =
      false := by decide +kernel
  have taken : (smallBackbuffer plainRows).2.phys.used ((smallBackbuffer plainRows).2.kernelPml4 / pageSize) = true := by
    decide +kernel
  refine ⟨⟨by decide +kernel, ?_⟩, ?_⟩
  · intro free
    rw [free.2] at taken
    cases taken
  · rintro table ⟨index, _, path, _, reached⟩
    have absent : (smallBackbuffer plainRows).2.child (smallBackbuffer plainRows).2.kernelPml4 index = none := by
      rw [Machine.child, empty]
      rfl
    rw [Radix.walk, List.foldlM_cons, absent] at reached
    cases reached

theorem smallUser_created (fb : LimineFramebuffer) :
    vmmSpaceCreate (smallBackbuffer fb).2 true = ((smallUser fb).space, (smallUser fb).machine) := rfl

theorem fbUser_inv : ∃ root, UserMemInv (kernelPages fbUser.mem.machine {root}) {root} fbUser.mem ∅ ∧
    fbUser.mem.space = some ⟨root, [], 0, 0⟩ := by
  have boot : Boot ⟨(smallBackbuffer plainRows).2, fun _ => none⟩ := ⟨fun _ => rfl, by decide +kernel⟩
  have created := smallUser_created plainRows
  have lives : (smallUser plainRows).space.isSome = true := by decide +kernel
  rcases vmmSpaceCreate_spec boot.tables created with ⟨none, _⟩ | ⟨root, same, added⟩
  · rw [none] at lives
    cases lives
  · have memory := smallBackbuffer_kernelUsed.memInv boot.tables (tables_empty _)
    obtain ⟨inv, _, pages⟩ := memory.addRoot added
    rw [LawfulSingleton.insert_empty_eq] at inv pages
    rw [← pages] at inv
    refine ⟨root, ⟨inv, ?_, ?_⟩, same⟩
    · intro space live
      obtain rfl : ⟨root, [], 0, 0⟩ = space := Option.some.inj (same.symm.trans live)
      exact ⟨rfl, nofun, nofun⟩
    · intro p live
      cases live
      exact Nat.zero_le _

/-- The second handle maps the device after the first one gave its mapping back. -/
def inTurn : List FbCall :=
  [.openDevice true true, .openDevice true true, .map 0 8 true, .unmap 0, .map 1 8 true]

theorem fb_handles_in_turn : ∃ s', Run (FbProcess.step (graphicsInit plainRows) (smallBackbuffer plainRows).1)
    (fun before call => before.permits (graphicsInit plainRows) call = true) fbUser inTurn s' ∧ s'.mappedCount = 1 ∧
    s'.Coherent (graphicsInit plainRows) (smallBackbuffer plainRows).1
      (takenFrames smallMachine.phys (smallBackbuffer plainRows).2.phys) := by
  have checked : (exec (FbProcess.step (graphicsInit plainRows) (smallBackbuffer plainRows).1)
      (fun before call => before.permits (graphicsInit plainRows) call) inTurn fbUser).any
      (fun s => s.mappedCount == 1) = true := by decide +kernel
  obtain ⟨s', run, one⟩ := Run.exists_of_check checked
  obtain ⟨root, memory, live⟩ := fbUser_inv
  refine ⟨s', run, beq_iff_eq.mp one, (fb_handles_coherent (smallBackbuffer_eq _) memory ?_ rfl run).1⟩
  intro space same region member
  obtain rfl : ⟨root, [], 0, 0⟩ = space := Option.some.inj (live.symm.trans same)
  cases member

/-- Two handles are mapped at once, and the first one unmaps. -/
def atOnce : List FbCall :=
  [.openDevice true true, .openDevice true true, .map 0 8 true, .map 1 8 true, .unmap 0]

/-- The second handle stays mapped while its pages are gone. -/
theorem fb_handles_torn : ¬∀ (fb : LimineFramebuffer) (bs₀ bs : Screens) (m₀ m₁ : Machine) (shield roots : Set Nat)
    (places : Finset Place) (s s' : FbProcess) (calls : List FbCall), MapFits (graphicsInit fb) →
    bootscreenBs3InitBackbuffer (bootscreenLayoutInit (graphicsInit fb) bs₀) m₀ = (bs, m₁) →
    UserMemInv shield roots s.mem places →
    (∀ space, s.mem.space = some space → ∀ region ∈ space.regions, 0 < region.size) → s.handles = [] →
    Run (FbProcess.step (graphicsInit fb) bs) (fun _ _ => True) s calls s' →
    s'.Coherent (graphicsInit fb) bs (takenFrames m₀.phys m₁.phys) := by
  intro claim
  have checked : (exec (FbProcess.step (graphicsInit plainRows) (smallBackbuffer plainRows).1) (fun _ _ => true) atOnce
      fbUser).any (fun s => s.handles[1]? == some ⟨true, fbMapVaddr⟩ && s.mem.space.all fun space =>
        (s.mem.machine.findPte space.pml4Phys fbMapVaddr).isNone) = true := by decide +kernel
  obtain ⟨s', run, torn⟩ := Run.exists_of_check checked
  simp only [Bool.and_eq_true, beq_iff_eq] at torn
  obtain ⟨root, memory, live⟩ := fbUser_inv
  have coherent := claim plainRows blankScreens _ smallMachine _ _ _ _ fbUser s' atOnce (by decide +kernel)
    (smallBackbuffer_eq _) memory (by
      intro space same region member
      obtain rfl : ⟨root, [], 0, 0⟩ = space := Option.some.inj (live.symm.trans same)
      cases member) rfl (run.mono fun _ _ _ => trivial)
  obtain ⟨space, live', shown⟩ := coherent _ (List.mem_of_getElem? torn.1) rfl
  obtain ⟨entry, found, _⟩ := shown 0 (by decide +kernel)
  have gone := torn.2
  rw [live', Option.all_some, Option.isNone_iff_eq_none] at gone
  rw [show fbMapVaddr + 0 * pageSize = fbMapVaddr by decide] at found
  rw [gone] at found
  cases found

end DoccrOS.Devices
