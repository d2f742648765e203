import DoccrOS.Proof.User.MemCalls

namespace DoccrOS.User
open Lib Mem Proc

/-- The current space has disjoint regions of whole user pages, and the frames of its data regions are allocated. -/
structure DisjointSpace (roots : Set Nat) (m : Machine) (space : Space) : Prop where
  tables : TableInv m roots
  isRoot : space.pml4Phys ∈ roots
  regions : ∀ region ∈ space.regions, RegionInv region ∧ 0 < region.size ∧
    DropsData m roots space.pml4Phys region.base (region.size / pageSize) (hasFlag region.flags vmmRegionMmio)
  disjoint : space.regions.Pairwise Region.apart

/-- The address is gone from the space, and the regions without it keep their place and their translations. -/
structure Unmapped (m m' : Machine) (space space' : Space) (addr : Nat) : Prop where
  sameRoot : space'.pml4Phys = space.pml4Phys
  untranslated : m'.findPte space.pml4Phys addr = none
  absent : ∀ region ∈ space'.regions, region.holds addr = false
  kept : ∀ region ∈ space.regions, region.holds addr = false →
    region ∈ space'.regions ∧ ∀ va, region.holds va = true → m'.findPte space.pml4Phys va = m.findPte space.pml4Phys va

/-- The address is refused or lies in no region, or it is the base of its region. -/
def MunmapBase (s : UserMem) (addr : Word) : Prop :=
  ∀ space region, s.space = some space → addr.toNat ≠ 0 → addr.toNat ≤ userTop →
    vmmSpaceFind space addr.toNat = some region → region.base = addr.toNat

/-- The value that `sys_munmap` returns tells what it did. -/
def MunmapTruth (s : UserMem) (addr : Word) : Prop :=
  ((sysMunmap s addr).1 = 0 → ∃ space space', s.space = some space ∧ (sysMunmap s addr).2.space = some space' ∧
    Unmapped s.machine (sysMunmap s addr).2.machine space space' addr.toNat) ∧
  ((sysMunmap s addr).1 = minusOne → (sysMunmap s addr).2 = s)

section
variable {roots : Set Nat} {m m' : Machine} {space space' : Space} {region cur : Region} {addr : Nat} {s : UserMem}

theorem DisjointSpace.nodup (sound : DisjointSpace roots m space) : space.regions.Nodup := by
  refine sound.disjoint.imp_of_mem ?_
  intro first second member _ apart same
  obtain ⟨inv, positive, _⟩ := sound.regions first member
  have pages : 0 < first.size / pageSize :=
    Nat.div_pos (Nat.le_of_dvd positive (Nat.dvd_of_mod_eq_zero inv.whole)) (by decide)
  have covers : first.covers (first.base / pageSize) := Region.covers_iff.mpr ⟨0, pages, rfl⟩
  exact apart _ covers (same ▸ covers)

/-- Only one region holds an address. -/
theorem DisjointSpace.unique (sound : DisjointSpace roots m space) (member : region ∈ space.regions)
    (member' : cur ∈ space.regions) (holds : region.holds addr = true) (holds' : cur.holds addr = true) : region = cur :=
  Region.covers_unique sound.disjoint member member' ((sound.regions region member).1.holds_iff.mp holds)
    ((sound.regions cur member').1.holds_iff.mp holds')

theorem selected_facts (selected : space.selected addr = some cur) : cur ∈ space.regions ∧ cur.base = addr ∧
    ∃ before after, space.regions = before ++ cur :: after ∧ space.regions.eraseP (·.matches addr) = before ++ after := by
  unfold Space.selected at selected
  split at selected
  · cases selected
  · have passes : cur.matches addr = true := by simpa using List.find?_some selected
    exact ⟨List.mem_of_find?_eq_some selected, Region.matches_base passes, find?_split selected⟩

/-- The release of a whole region removes its pages and nothing else. -/
theorem DisjointSpace.unmapped (sound : DisjointSpace roots m space) (selected : space.selected addr = some cur)
    (outcome : FreeOutcome m roots space addr m' space') : Unmapped m m' space space' addr := by
  obtain ⟨member, base, before, after, split, erased⟩ := selected_facts selected
  cases outcome with
  | missing none =>
      rw [none] at selected
      cases selected
  | freed cur' _ found range =>
      obtain rfl : cur' = cur := Option.some.inj (found.symm.trans selected)
      obtain ⟨inv, positive, _⟩ := sound.regions cur' member
      have holds : cur'.holds addr = true := base ▸ inv.holds_base positive
      refine ⟨rfl, ?_, ?_, ?_⟩
      · rw [range.leaf _ sound.isRoot _ (inv.holds_user holds), if_pos ⟨rfl, inv.holds_iff.mp holds⟩]
      · intro region stays
        rw [erased] at stays
        have old : region ∈ space.regions := by
          rw [split]
          rcases List.mem_append.mp stays with early | late
          · exact List.mem_append_left _ early
          · exact List.mem_append_right _ (List.mem_cons_of_mem _ late)
        rw [← Bool.not_eq_true]
        intro here
        have nodup := sound.nodup
        rw [split] at nodup
        rw [sound.unique old member here holds] at stays
        exact (List.nodup_middle.mp nodup).notMem stays
      · intro region old without
        have different : region ≠ cur' := by
          intro same
          rw [same, holds] at without
          cases without
        refine ⟨?_, ?_⟩
        · rw [erased]
          rw [split] at old
          simpa [different] using old
        · intro va here
          rw [range.leaf _ sound.isRoot _ ((sound.regions region old).1.holds_user here), if_neg]
          rintro ⟨_, inside⟩
          exact different (sound.unique old member here (inv.holds_iff.mpr inside))

/-- `vmm_space_free` on the space of the current process. -/
theorem DisjointSpace.outcome (sound : DisjointSpace roots m space) (addr : Nat) :
    FreeOutcome m roots space addr (vmmSpaceFree m space addr).1 (vmmSpaceFree m space addr).2 := by
  refine vmmSpaceFree_spec sound.tables sound.isRoot ?_ rfl
  intro cur selected
  obtain ⟨inv, _, data⟩ := sound.regions cur (selected_facts selected).1
  exact ⟨inv.range, data⟩

theorem vmmSpaceFind_facts (found : vmmSpaceFind space addr = some region) :
    region ∈ space.regions ∧ region.holds addr = true := by
  unfold vmmSpaceFind at found
  exact ⟨List.mem_of_find?_eq_some found, by simpa using List.find?_some found⟩

/-- The region of an address is selected by its base. -/
theorem DisjointSpace.selected (sound : DisjointSpace roots m space) (found : vmmSpaceFind space addr = some region)
    (base : region.base = addr) (nonzero : addr ≠ 0) : space.selected addr = some region := by
  obtain ⟨member, holds⟩ := vmmSpaceFind_facts found
  have matched : region.matches addr = true := by
    rw [Region.matches, base, beq_self_eq_true, (sound.regions region member).1.used]
    rfl
  cases selected : space.selected addr with
  | none =>
      rw [Space.selected, if_neg nonzero, List.find?_eq_none] at selected
      exact absurd matched (selected region member)
  | some cur =>
      obtain ⟨member', base', _⟩ := selected_facts selected
      obtain ⟨inv, positive, _⟩ := sound.regions cur member'
      rw [sound.unique member member' holds (base' ▸ inv.holds_base positive)]

/-- An address inside a region that is not its base selects no region. -/
theorem DisjointSpace.unselected (sound : DisjointSpace roots m space) (found : vmmSpaceFind space addr = some region)
    (inner : region.base ≠ addr) : space.selected addr = none := by
  cases selected : space.selected addr with
  | none => rfl
  | some cur =>
      obtain ⟨member, holds⟩ := vmmSpaceFind_facts found
      obtain ⟨member', base', _⟩ := selected_facts selected
      obtain ⟨inv, positive, _⟩ := sound.regions cur member'
      rw [← sound.unique member' member (base' ▸ inv.holds_base positive) holds] at inner
      exact absurd base' inner

theorem vmmSpaceFree_unselected (unselected : space.selected addr = none) : vmmSpaceFree m space addr = (m, space) := by
  unfold Space.selected at unselected
  unfold vmmSpaceFree
  split
  · rfl
  · rename_i nonzero
    rw [if_neg nonzero] at unselected
    rw [unselected]

/-- The two ways through `sys_munmap`. -/
theorem sysMunmap_cases (s : UserMem) (addr : Word) :
    (sysMunmap s addr = (minusOne, s) ∧ ∀ space region, s.space = some space → addr.toNat ≠ 0 → addr.toNat ≤ userTop →
      vmmSpaceFind space addr.toNat ≠ some region) ∨
    ∃ space region, s.space = some space ∧ addr.toNat ≠ 0 ∧ addr.toNat ≤ userTop ∧
      vmmSpaceFind space addr.toNat = some region ∧ sysMunmap s addr =
        (0, s.put (vmmSpaceFree s.machine space addr.toNat).1 (vmmSpaceFree s.machine space addr.toNat).2) := by
  unfold sysMunmap
  split
  · rename_i refused
    refine Or.inl ⟨rfl, ?_⟩
    intro space region _ nonzero below
    omega
  · rename_i accepted
    rw [not_or, not_lt] at accepted
    cases live : s.space with
    | none => exact Or.inl ⟨rfl, nofun⟩
    | some space =>
        cases found : vmmSpaceFind space addr.toNat with
        | none =>
            refine Or.inl ⟨by simp only [found], ?_⟩
            intro other region same _ _ found'
            rw [← Option.some.inj same, found] at found'
            cases found'
        | some region => exact Or.inr ⟨space, region, rfl, accepted.1, accepted.2, found, by simp only [found]⟩

theorem put_space {other : Space} (live : s.space = some space) : (s.put m other).space = some other := by
  obtain ⟨p, isProc, _⟩ := Option.bind_eq_some_iff.mp live
  simp [UserMem.put, UserMem.space, isProc]

end

/-- `sys_munmap` tells the truth exactly for the addresses that are refused, that lie in no region or that are the base of
their region. -/
theorem munmap_truth {roots : Set Nat} {s : UserMem} {addr : Word}
    (sound : ∀ space, s.space = some space → DisjointSpace roots s.machine space) :
    MunmapTruth s addr ↔ MunmapBase s addr := by
  rcases sysMunmap_cases s addr with ⟨refused, none⟩ | ⟨space, region, live, nonzero, below, found, called⟩
  · constructor
    · intro _ space region live nonzero below found
      exact absurd found (none space region live nonzero below)
    · intro _
      rw [MunmapTruth, refused]
      exact ⟨nofun, fun _ => rfl⟩
  · have disjoint := sound space live
    have outcome := disjoint.outcome addr.toNat
    have value : ((0 : Nat) = minusOne) = False := by simp [minusOne]
    rw [MunmapTruth, called]
    simp only [forall_const, value, false_implies, and_true]
    constructor
    · rintro ⟨space₁, space₂, live₁, live₂, gone⟩ space₃ region₃ live₃ _ _ found₃
      rw [live] at live₁ live₃
      rw [put_space live] at live₂
      obtain rfl := Option.some.inj live₁
      obtain rfl := Option.some.inj live₃
      obtain rfl := Option.some.inj live₂
      by_contra inner
      rw [found] at found₃
      obtain rfl := Option.some.inj found₃
      have unselected := disjoint.unselected found inner
      obtain ⟨member, holds⟩ := vmmSpaceFind_facts found
      rw [vmmSpaceFree_unselected unselected] at gone
      have without := gone.absent region member
      rw [holds] at without
      cases without
    · intro based
      have base := based space region live nonzero below found
      exact ⟨space, _, live, put_space live, disjoint.unmapped (disjoint.selected found base nonzero) outcome⟩

/-- A space of well-formed memory. -/
theorem UserMemInv.disjointSpace {shield roots : Set Nat} {s : UserMem} {places : Finset Place} {space : Space}
    (inv : UserMemInv shield roots s places) (live : s.space = some space) (positive : ∀ region ∈ space.regions, 0 < region.size)
    (disjoint : space.regions.Pairwise Region.apart) : DisjointSpace roots s.machine space := by
  obtain ⟨isRoot, regions⟩ := inv.space space live
  refine ⟨inv.memory.data.tables, isRoot, ?_, disjoint⟩
  intro region member
  exact ⟨regions.regions region member, positive region member, inv.memory.dropsData regions member⟩

/-- An anonymous mapping of two pages. -/
def twoPages : MemCall := .mmap 0x1000000 0x2000 3 0x30 true

/-- The space of the small process after the mapping. -/
def twoPageSpace : Space := ⟨0x2000, [⟨0x1000000, 0x2000, 0x35⟩], 1, 0x2000⟩

/-- The small process with two mapped pages has a disjoint space. -/
theorem twoPages_sound (check : UserMem → Bool)
    (checked : (exec UserMem.step (fun _ call => decide (call = twoPages)) [twoPages] smallProcess).any (fun s =>
      decide (s.space = some twoPageSpace) && check s) = true) :
    ∃ s, s.space = some twoPageSpace ∧ DisjointSpace {0x2000} s.machine twoPageSpace ∧ check s = true := by
  obtain ⟨s, run, shown⟩ := Run.exists_of_check checked
  simp only [Bool.and_eq_true, decide_eq_true_eq] at shown
  have inRange : twoPages.inRange := Or.inr (Or.inr (Or.inr (by decide)))
  have permitted := run.mono fun _ call permitted => (of_decide_eq_true permitted).symm ▸ inRange
  have start := smallProcess_inv (show smallProcess.space = some ⟨0x2000, [], 0, 0⟩ by decide +kernel)
  obtain ⟨⟨places, inv⟩, _⟩ := memRun_inv start permitted
  refine ⟨s, shown.1, inv.disjointSpace shown.1 ?_ (List.pairwise_singleton _ _), shown.2⟩
  intro region member
  rw [List.mem_singleton.mp member]
  decide

theorem munmap_truth_base : ∃ s, s.space = some twoPageSpace ∧ MunmapTruth s 0x1000000 := by
  obtain ⟨s, live, sound, _⟩ := twoPages_sound (fun _ => true) (by decide +kernel)
  have sound' : ∀ space, s.space = some space → DisjointSpace {0x2000} s.machine space := by
    intro space same
    rw [live] at same
    rw [← Option.some.inj same]
    exact sound
  refine ⟨s, live, (munmap_truth sound').mpr ?_⟩
  intro space region same _ _ found
  rw [live] at same
  rw [← Option.some.inj same] at found
  rw [← Option.some.inj ((by decide +kernel : vmmSpaceFind twoPageSpace (0x1000000 : Word).toNat =
    some ⟨0x1000000, 0x2000, 0x35⟩).symm.trans found)]
  rfl

/-- The second page of the mapping stays after `sys_munmap` returned 0 for it. -/
theorem munmap_false : ∃ s, s.space = some twoPageSpace ∧ DisjointSpace {0x2000} s.machine twoPageSpace ∧
    (sysMunmap s 0x1001000).1 = 0 ∧ (sysMunmap s 0x1001000).2.space = some twoPageSpace ∧
    ((sysMunmap s 0x1001000).2.machine.findPte 0x2000 0x1001000).isSome = true ∧ ¬ MunmapTruth s 0x1001000 := by
  obtain ⟨s, live, sound, shown⟩ := twoPages_sound (fun s => decide ((sysMunmap s 0x1001000).1 = 0) &&
    (decide ((sysMunmap s 0x1001000).2.space = some twoPageSpace) &&
      ((sysMunmap s 0x1001000).2.machine.findPte 0x2000 0x1001000).isSome)) (by decide +kernel)
  simp only [Bool.and_eq_true, decide_eq_true_eq] at shown
  refine ⟨s, live, sound, shown.1, shown.2.1, shown.2.2, ?_⟩
  intro truth
  obtain ⟨space, space', same, same', gone⟩ := truth.1 shown.1
  rw [live] at same
  have untranslated := gone.untranslated
  rw [← Option.some.inj same] at untranslated
  have mapped := shown.2.2
  rw [show twoPageSpace.pml4Phys = 0x2000 from rfl, show (0x1001000 : Word).toNat = 0x1001000 from rfl] at untranslated
  rw [untranslated] at mapped
  cases mapped

end DoccrOS.User
