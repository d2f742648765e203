import DoccrOS.Proof.Devices.FbHandles
import DoccrOS.Proof.Packages.OrderedImage
import DoccrOS.Proof.User.Brk
import DoccrOS.Proof.User.FreshPages
import DoccrOS.Proof.User.OrderedSpaces

namespace DoccrOS.User
open Lib Mem Proc

/-- The base at which a memory call releases a region. -/
def UserMem.releases (s : UserMem) : MemCall → Option Nat
  | .mmap hint length _ flags _ => s.space.bind fun space =>
    if flags &&& mmapMapAnon ≠ 0 ∧ length ≠ 0 ∧ hint ≠ 0 ∧ flags &&& mmapMapFixed ≠ 0 ∧
        isVaddrRangeFree space (alignedHint hint) (mmapSize length) = false then some (alignedHint hint)
    else none
  | .munmap addr =>
    if addr.toNat = 0 ∨ addr.toNat > userTop then none
    else s.space.bind fun space => (vmmSpaceFind space addr.toNat).map fun _ => addr.toNat
  | .brk _ _ => none

/-- A fixed mapping meets no region but the one that it releases, and a growth of the heap meets none. -/
def UserMem.keepsApart (s : UserMem) : MemCall → Prop
  | .mmap hint length prot flags nodeOk => (MemCall.mmap hint length prot flags nodeOk).inRange ∧
    ∀ space m released, s.space = some space → alignedHint hint ≠ 0 →
      s.releases (.mmap hint length prot flags nodeOk) = some (alignedHint hint) →
      vmmSpaceFree s.machine space (alignedHint hint) = (m, released) →
      AllocApart m released (alignedHint hint) (lengthPages length.toNat) nodeOk
  | .munmap _ => True
  | .brk newBreak nodeOk => ∀ space, s.space = some space → s.heapEnd < newBreak.toNat → newBreak.toNat ≤ userTop →
    AllocApart s.machine space (pageAlignDown s.heapEnd) (lengthPages (newBreak.toNat - s.heapEnd)) nodeOk

/-- A call leaves the space in order, and a mapped page loses its entry only with the region that the call releases. -/
structure Served (m m' : Machine) (old new : Option Space) (base : Option Nat) : Prop where
  ordered : ∀ space, new = some space → OrderedSpace m' space
  pages : ∀ space, old = some space →
    PagesLeave m m' space base ∧ ∃ space', new = some space' ∧ space'.pml4Phys = space.pml4Phys

/-- How `sys_mmap` chooses its target: it leaves the choice to the search, it takes a free range, or it releases a region. -/
inductive TargetOutcome (m : Machine) (space : Space) (hint flags : Word) (size : Nat) : Nat → Machine → Space → Prop where
  | search : TargetOutcome m space hint flags size 0 m space
  | accepted (free : isVaddrRangeFree space (alignedHint hint) size = true) :
    TargetOutcome m space hint flags size (alignedHint hint) m space
  | fixed (m' : Machine) (space' : Space) (given : hint ≠ 0) (isFixed : flags &&& mmapMapFixed ≠ 0)
    (taken : isVaddrRangeFree space (alignedHint hint) size = false)
    (call : vmmSpaceFree m space (alignedHint hint) = (m', space')) :
    TargetOutcome m space hint flags size (alignedHint hint) m' space'

section
variable {shield roots : Set Nat} {places : Finset Place} {s s' : UserMem} {m m' : Machine} {space space' : Space}
  {value target size : Nat} {base : Option Nat}

theorem Served.refl {old : Option Space} (ordered : ∀ space, old = some space → OrderedSpace m space) :
    Served m m old old base :=
  ⟨ordered, fun space live => ⟨(PagesStay.refl m _).leave base, space, live, rfl⟩⟩

/-- A call on a space that is in order behind it. -/
theorem Served.of_space (ordered : OrderedSpace m' space') (sameRoot : space'.pml4Phys = space.pml4Phys)
    (pages : PagesLeave m m' space base) : Served m m' (some space) (some space') base := by
  constructor
  · intro other same
    rw [← Option.some.inj same]
    exact ordered
  · intro other same
    rw [← Option.some.inj same]
    exact ⟨pages, space', rfl, sameRoot⟩

theorem mmapTarget_outcome {hint flags : Word} (chosen : mmapTarget m space hint flags size = (target, m', space')) :
    TargetOutcome m space hint flags size target m' space' := by
  unfold mmapTarget at chosen
  split at chosen
  · cases chosen
    exact .search
  rename_i given
  split at chosen
  · rename_i isFixed
    split at chosen
    · rename_i taken
      cases call : vmmSpaceFree m space (alignedHint hint) with
      | mk m₁ space₁ =>
          rw [call] at chosen
          cases chosen
          exact .fixed _ _ given (bne_iff_ne.mp isFixed) (by simpa using taken) call
    · rename_i free
      cases chosen
      exact .accepted (by simpa using free)
  · split at chosen
    · rename_i free
      cases chosen
      exact .accepted free
    · cases chosen
      exact .search

/-- The address that the search of `sys_mmap` finds is free. -/
theorem findFreeVaddr_apart {length : Word} (ordered : OrderedSpace m space) (nonempty : mmapSize length ≠ 0)
    (range : UserRange (findFreeVaddr space (mmapSize length)) (lengthPages length.toNat))
    (found : findFreeVaddr space (mmapSize length) ≠ 0) :
    ∀ cur ∈ space.regions, meetsRange cur (findFreeVaddr space (mmapSize length)) (mmapSize length) = false := by
  apply isVaddrRangeFree_apart
  have fits := range.fits
  refine findFreeVaddr_accepted ordered.sorted ordered.sized ?_ (Nat.pos_of_ne_zero nonempty) ?_ found
  · intro region member
    have inv := ordered.inv.regions region member
    have bytes := (Region.stop inv.range inv.whole).1
    have below := inv.range.fits
    omega
  · unfold mmapSize
    omega

/-- A release in well-formed memory. -/
theorem freeOutcome {vaddr : Nat} (memory : MemInv shield m roots places) (regions : RegionsInv space places)
    (isRoot : space.pml4Phys ∈ roots) (call : vmmSpaceFree m space vaddr = (m', space')) :
    FreeOutcome m roots space vaddr m' space' := by
  apply vmmSpaceFree_spec memory.data.tables isRoot _ call
  intro cur selected
  have member := (selected_facts selected).1
  exact ⟨(regions.regions cur member).range, memory.dropsData regions member⟩

/-- The choice of a target keeps the space in order. -/
theorem TargetOutcome.served {hint length prot flags : Word} {nodeOk : Bool} (memory : MemInv shield s.machine roots places)
    (regions : RegionsInv space places) (isRoot : space.pml4Phys ∈ roots) (ordered : OrderedSpace s.machine space)
    (live : s.space = some space) (anon : flags &&& mmapMapAnon ≠ 0) (several : length ≠ 0)
    (outcome : TargetOutcome s.machine space hint flags (mmapSize length) target m' space') :
    OrderedSpace m' space' ∧ space'.pml4Phys = space.pml4Phys ∧
      PagesLeave s.machine m' space (s.releases (.mmap hint length prot flags nodeOk)) := by
  cases outcome with
  | search => exact ⟨ordered, rfl, (PagesStay.refl _ _).leave _⟩
  | accepted free => exact ⟨ordered, rfl, (PagesStay.refl _ _).leave _⟩
  | fixed _ _ given isFixed taken call =>
      have released : s.releases (.mmap hint length prot flags nodeOk) = some (alignedHint hint) := by
        rw [UserMem.releases, live, Option.bind_some, if_pos ⟨anon, several, given, isFixed, taken⟩]
      rw [released]
      exact ordered.free isRoot (freeOutcome memory regions isRoot call)

/-- The range that `sys_mmap` allocates meets no region of the space behind the choice of the target. -/
theorem TargetOutcome.apart {hint length prot flags : Word} {nodeOk : Bool} {address : Nat} (live : s.space = some space)
    (fits : s.keepsApart (.mmap hint length prot flags nodeOk)) (anon : flags &&& mmapMapAnon ≠ 0) (several : length ≠ 0)
    (nonempty : mmapSize length ≠ 0) (ordered : OrderedSpace m' space')
    (outcome : TargetOutcome s.machine space hint flags (mmapSize length) target m' space')
    (searched : address = if target = 0 then findFreeVaddr space' (mmapSize length) else target) (found : address ≠ 0)
    (range : UserRange address (lengthPages length.toNat)) :
    AllocApart m' space' address (lengthPages length.toNat) nodeOk := by
  by_cases search : target = 0
  · rw [if_pos search] at searched
    rw [searched] at range found ⊢
    exact fun _ _ => findFreeVaddr_apart ordered nonempty range found
  · rw [if_neg search] at searched
    rw [searched]
    cases outcome with
    | search => exact absurd rfl search
    | accepted free => exact fun _ _ => isVaddrRangeFree_apart free
    | fixed _ _ given isFixed taken call =>
        apply fits.2 space m' space' live search _ call
        rw [UserMem.releases, live, Option.bind_some, if_pos ⟨anon, several, given, isFixed, taken⟩]

/-- A call of `sys_mmap` in a space that is in order. -/
theorem mmap_served {hint length prot flags : Word} {nodeOk : Bool} (inv : UserMemInv shield roots s places)
    (ordered : ∀ space, s.space = some space → OrderedSpace s.machine space)
    (fits : s.keepsApart (.mmap hint length prot flags nodeOk))
    (returned : sysMmap s hint length prot flags nodeOk = .ok (value, s')) :
    Served s.machine s'.machine s.space s'.space (s.releases (.mmap hint length prot flags nodeOk)) := by
  by_cases anon : flags &&& mmapMapAnon = 0
  · rw [sysMmap, if_pos anon] at returned
    cases returned
    exact Served.refl ordered
  by_cases several : length = 0
  · rw [sysMmap, if_neg anon, if_pos several] at returned
    cases returned
    exact Served.refl ordered
  cases sysMmap_outcome returned with
  | refused => exact Served.refl ordered
  | noRoom space space₁ m₁ target live chosen =>
      obtain ⟨isRoot, regions⟩ := inv.space space live
      obtain ⟨ordered₁, sameRoot, pages⟩ :=
        (mmapTarget_outcome chosen).served inv.memory regions isRoot (ordered space live) live anon several
      rw [put_space live, live]
      exact Served.of_space ordered₁ sameRoot pages
  | ran space space₁ space₂ m₁ m₂ target address vaddr _ _ live chosen searched found call =>
      obtain ⟨isRoot, regions⟩ := inv.space space live
      obtain ⟨memory₁, regions₁, _, _, kind⟩ := UserMemInv.mmapTarget inv.memory regions isRoot chosen
      obtain ⟨ordered₁, sameRoot, pages⟩ :=
        (mmapTarget_outcome chosen).served inv.memory regions isRoot (ordered space live) live anon several
      rw [put_space live, live]
      by_cases empty : mmapSize length = 0
      · have none : lengthPages length.toNat = 0 := (Nat.mul_eq_zero.mp empty).resolve_right (by decide)
        rw [none, vmmSpaceAlloc, if_pos rfl] at call
        cases call
        exact Served.of_space ordered₁ sameRoot pages
      · have range := mmapTarget_range regions₁ fits.1 anon several empty kind searched found
        have isRoot₁ : space₁.pml4Phys ∈ roots := sameRoot ▸ isRoot
        have outcome := vmmSpaceAlloc_spec memory₁.data.tables isRoot₁ (range.alignDown.symm ▸ range) call
        rw [range.alignDown] at outcome
        have apart := (mmapTarget_outcome chosen).apart live fits anon several empty ordered₁ searched found range
        obtain ⟨ordered₂, stay⟩ := ordered₁.alloc isRoot₁ range apart outcome
        obtain ⟨_, _, _, _, sameRoot₂, _⟩ := memory₁.alloc regions₁ isRoot₁ range outcome
        rw [sameRoot] at stay
        exact Served.of_space ordered₂ (sameRoot₂.trans sameRoot) (pages.trans stay)

/-- A call of `sys_munmap` in a space that is in order. -/
theorem munmap_served {addr : Word} (inv : UserMemInv shield roots s places)
    (ordered : ∀ space, s.space = some space → OrderedSpace s.machine space) :
    Served s.machine (sysMunmap s addr).2.machine s.space (sysMunmap s addr).2.space (s.releases (.munmap addr)) := by
  rw [sysMunmap, UserMem.releases]
  by_cases refused : addr.toNat = 0 ∨ addr.toNat > userTop
  · rw [if_pos refused]
    exact Served.refl ordered
  rw [if_neg refused, if_neg refused]
  cases live : s.space with
  | none =>
      change Served s.machine s.machine none s.space _
      rw [live]
      apply Served.refl
      intro space same
      cases same
  | some space =>
      obtain ⟨isRoot, regions⟩ := inv.space space live
      cases found : vmmSpaceFind space addr.toNat with
      | none =>
          simp only [found]
          rw [live]
          exact Served.refl fun other same => ordered other (live.trans same)
      | some region =>
          simp only [found, Option.bind_some, Option.map_some]
          cases call : vmmSpaceFree s.machine space addr.toNat with
          | mk m space' =>
              obtain ⟨ordered', sameRoot, pages⟩ :=
                (ordered space live).free isRoot (freeOutcome inv.memory regions isRoot call)
              simp only
              rw [put_space live]
              exact Served.of_space ordered' sameRoot pages

/-- A call of `sys_brk` in a space that is in order. -/
theorem brk_served {newBreak : Word} {nodeOk : Bool} (inv : UserMemInv shield roots s places)
    (ordered : ∀ space, s.space = some space → OrderedSpace s.machine space) (fits : s.keepsApart (.brk newBreak nodeOk))
    (returned : sysBrk s newBreak nodeOk = .ok (value, s')) :
    Served s.machine s'.machine s.space s'.space (s.releases (.brk newBreak nodeOk)) := by
  cases isProc : s.proc with
  | none =>
      rw [sysBrk, isProc] at returned
      cases returned
      exact Served.refl ordered
  | some p =>
      have isSpace : s.space = p.space := by rw [UserMem.space, isProc]; rfl
      have heapEnd : s.heapEnd = heapStart p.heapBreak := by rw [UserMem.heapEnd, isProc]; rfl
      have same (heapBreak : Nat) (here : s' = ⟨s.machine, some { p with heapBreak := heapBreak }⟩) :
          Served s.machine s'.machine s.space s'.space (s.releases (.brk newBreak nodeOk)) := by
        rw [here]
        change Served s.machine s.machine s.space p.space _
        rw [isSpace]
        exact Served.refl fun space live => ordered space (isSpace.trans live)
      by_cases grows : heapStart p.heapBreak < newBreak.toNat ∧ newBreak.toNat ≤ userTop
      · cases live : p.space with
        | none =>
            unfold sysBrk growHeap at returned
            rw [isProc] at returned
            simp only [live] at returned
            rw [if_neg (by omega), if_neg (by omega), if_neg (by omega)] at returned
            cases returned
            apply same (heapStart p.heapBreak)
            rw [← live]
        | some space =>
            have isLive : s.space = some space := isSpace.trans live
            obtain ⟨isRoot, regions⟩ := inv.space space isLive
            rw [sysBrk_grows isProc live grows.1 grows.2] at returned
            obtain ⟨⟨mapped, m₁, space₁⟩, call, result⟩ := Result.map_ok returned
            have range := growHeap_range grows.2 grows.1
            have outcome := vmmSpaceAlloc_spec inv.memory.data.tables isRoot range call
            have apart := fits space isLive (heapEnd ▸ grows.1) grows.2
            rw [heapEnd] at apart
            obtain ⟨ordered₁, stay⟩ := (ordered space isLive).alloc isRoot range apart outcome
            obtain ⟨_, _, _, _, sameRoot, _⟩ := inv.memory.alloc regions isRoot range outcome
            have served : Served s.machine m₁ (some space) (some space₁) (s.releases (.brk newBreak nodeOk)) :=
              Served.of_space ordered₁ sameRoot (stay.leave _)
            rw [isLive]
            by_cases failed : mapped = 0
            · rw [if_pos failed] at result
              cases result
              exact served
            · rw [if_neg failed] at result
              cases result
              exact served
      · unfold sysBrk at returned
        rw [isProc] at returned
        simp only at returned
        split at returned
        · cases returned
          exact same _ rfl
        · split at returned
          · cases returned
            exact same _ rfl
          · split at returned
            · cases returned
              exact same _ rfl
            · exact absurd ⟨by omega, by omega⟩ grows

/-- A memory call in a space that is in order. -/
theorem call_served {call : MemCall} (inv : UserMemInv shield roots s places)
    (ordered : ∀ space, s.space = some space → OrderedSpace s.machine space) (fits : s.keepsApart call)
    (returned : s.call call = .ok (value, s')) : Served s.machine s'.machine s.space s'.space (s.releases call) := by
  cases call with
  | mmap hint length prot flags nodeOk => exact mmap_served inv ordered fits returned
  | munmap addr =>
      injection returned with same
      have called : (sysMunmap s addr).2 = s' := congrArg Prod.snd same
      rw [← called]
      exact munmap_served inv ordered
  | brk newBreak nodeOk => exact brk_served inv ordered fits returned

theorem UserMem.keepsApart_inRange {call : MemCall} (fits : s.keepsApart call) : call.inRange := by
  cases call with
  | mmap hint length prot flags nodeOk => exact fits.1
  | munmap addr => trivial
  | brk newBreak nodeOk => trivial

end

end DoccrOS.User

namespace DoccrOS.Devices
open Lib Mem Packages Proc Screen User

/-- The base at which a call releases a region. -/
def FbProcess.releases (s : FbProcess) : SpaceCall → Option Nat
  | .mem call => s.mem.releases call
  | .fb (.munmap addr) => s.mem.releases (.munmap addr)
  | .fb (.close i) | .fb (.unmap i) => s.handles[i]?.bind fun handle => if handle.mapped then some handle.vaddr else none
  | .fb (.openDevice _ _) | .fb (.map _ _ _) => none

/-- A memory call stays apart from the regions, and the device is mapped only where no region is. -/
def FbProcess.keepsApart (g : Graphics) (bs : Screens) (s : FbProcess) : SpaceCall → Prop
  | .mem call => s.mem.keepsApart call
  | .fb (.map i _ _) => ∀ handle space, s.handles[i]? = some handle → handle.mapped = false → s.mem.space = some space →
    (bs .bs3).pixelsPhys ≠ 0 → fbMapPages g ≠ 0 →
    ∀ cur ∈ space.regions, meetsRange cur fbMapVaddr (fbMapPages g * pageSize) = false
  | .fb _ => True

section
variable {shield roots : Set Nat} {places : Finset Place} {s s' : FbProcess} {m' : Machine} {space space' : Space}
  {vaddr : Nat} {g : Graphics} {bs : Screens}

/-- A release of a region of the process. -/
theorem release_served (inv : UserMemInv shield roots s.mem places)
    (ordered : ∀ space, s.mem.space = some space → OrderedSpace s.mem.machine space) (live : s.mem.space = some space)
    (call : vmmSpaceFree s.mem.machine space vaddr = (m', space')) :
    Served s.mem.machine m' s.mem.space (some space') (some vaddr) ∧
      UserMemInv shield roots (s.mem.put m' space') places := by
  obtain ⟨isRoot, regions⟩ := inv.space space live
  obtain ⟨ordered', sameRoot, pages⟩ := (ordered space live).free isRoot (freeOutcome inv.memory regions isRoot call)
  obtain ⟨memory', regions', _, _⟩ := inv.memory.free regions isRoot call
  rw [live]
  exact ⟨Served.of_space ordered' sameRoot pages, inv.put (sameRoot ▸ isRoot) memory' regions'⟩

/-- A mapping of the device where no region is. -/
theorem map_served (inv : UserMemInv shield roots s.mem places)
    (ordered : ∀ space, s.mem.space = some space → OrderedSpace s.mem.machine space) (live : s.mem.space = some space)
    (several : fbMapPages g ≠ 0)
    (apart : ∀ cur ∈ space.regions, meetsRange cur fbMapVaddr (fbMapPages g * pageSize) = false)
    (pages : vmmMapPhysPages space.pml4Phys fbMapVaddr (pageAlignDown (bs .bs3).pixelsPhys) (flagsToPte fbMapFlags)
      (fbMapPages g) s.mem.machine = .ok m') :
    Served s.mem.machine m' s.mem.space (some (space.record (fbRegion g))) none ∧
      ∃ places', UserMemInv shield roots (s.mem.put m' (space.record (fbRegion g))) places' := by
  obtain ⟨isRoot, regions⟩ := inv.space space live
  have user := fbMap_range g
  have range := vmmMapPhysPages_spec inv.memory.data.tables isRoot user (flagsToPte_page _) pages
  obtain ⟨memory', _⟩ := inv.memory.mapped range
  obtain ⟨ordered', stay⟩ := (ordered space live).recorded user (Nat.pos_of_ne_zero several) (fbRegion_inv g).used apart
    (fun va isUser notHere => (range.leaf _ isRoot va isUser).trans (if_neg fun both => notHere both.2))
  rw [live]
  refine ⟨Served.of_space ordered' rfl (stay.leave _), places \ rangePlaces space.pml4Phys fbMapVaddr (fbMapPages g), ?_⟩
  have recordedRoot : (space.record (fbRegion g)).pml4Phys ∈ roots := isRoot
  apply inv.put recordedRoot memory'
  refine ⟨ordered'.inv.regions, ?_⟩
  intro region member isData place tracked
  have old : region ∈ space.regions := by
    rcases List.mem_cons.mp ((insertRegion_perm (fbRegion g) space.regions).mem_iff.mp member) with rfl | old
    · rw [fbRegion_mmio] at isData
      cases isData
    · exact old
  refine Finset.mem_sdiff.mpr ⟨regions.tracked region old isData tracked, ?_⟩
  intro covered
  obtain ⟨low, high⟩ := (mem_rangePlaces.mp covered).2
  have regionInv := regions.regions region old
  rw [page_div] at low high
  have inside : ∃ i, i < fbMapPages g ∧ place.2 = fbMapVaddr / pageSize + i :=
    ⟨place.2 - fbMapVaddr / pageSize, by omega, by omega⟩
  apply newRange_apart user regionInv ((meetsRange_apart regionInv user).mp (apart region old)) inside
  obtain ⟨low', high'⟩ := (mem_rangePlaces.mp tracked).2
  rw [page_div] at low' high'
  exact ⟨low', high'⟩

/-- A call through a handle leaves the memory alone, or it releases the region at the address of its mapping. -/
def ReleasesMapping (s : FbProcess) (handle : FbHandle) (after : FbState) : Prop :=
  s.memory after = s.mem ∨ handle.mapped = true ∧ ∃ space left, s.mem.space = some space ∧
    after = ⟨(vmmSpaceFree s.mem.machine space handle.vaddr).1, left, some (vmmSpaceFree s.mem.machine space handle.vaddr).2⟩

theorem fb0Close_releases (s : FbProcess) (handle : FbHandle) : ReleasesMapping s handle (fb0Close (s.view handle)) := by
  cases mapped : handle.mapped with
  | false =>
      left
      rw [fb0Close_idle mapped, memory_same]
  | true =>
      cases live : (s.view handle).space with
      | none =>
          left
          rw [fb0Close, show (s.view handle).handle.mapped = true from mapped, live]
          exact memory_same handle
      | some space => exact Or.inr ⟨mapped, space, _, live, fb0Close_mapped mapped live⟩

theorem fb0IoctlUnmap_releases (s : FbProcess) (handle : FbHandle) :
    ReleasesMapping s handle (fb0IoctlUnmap (s.view handle)).2 := by
  cases mapped : handle.mapped with
  | false =>
      left
      rw [fb0IoctlUnmap_idle mapped, memory_same]
  | true =>
      cases live : (s.view handle).space with
      | none =>
          left
          rw [fb0IoctlUnmap, show (s.view handle).handle.mapped = true from mapped, live]
          exact memory_same handle
      | some space => exact Or.inr ⟨mapped, space, _, live, fb0IoctlUnmap_mapped mapped live⟩

/-- A call that releases the mapping of a handle keeps the space in order. -/
theorem ReleasesMapping.served {handle : FbHandle} {after : FbState} (ends : ReleasesMapping s handle after)
    (inv : UserMemInv shield roots s.mem places)
    (ordered : ∀ space, s.mem.space = some space → OrderedSpace s.mem.machine space) :
    Served s.mem.machine (s.memory after).machine s.mem.space (s.memory after).space
      (if handle.mapped then some handle.vaddr else none) ∧ UserMemInv shield roots (s.memory after) places := by
  rcases ends with same | ⟨mapped, space, left, live, rfl⟩
  · rw [same]
    exact ⟨Served.refl ordered, inv⟩
  · obtain ⟨served, inv'⟩ := release_served inv ordered live rfl
    rw [if_pos mapped, (memory_space live).1]
    exact ⟨served, inv'⟩

/-- A call of the process in a space that is in order. -/
theorem serve_served {call : SpaceCall} (inv : UserMemInv shield roots s.mem places)
    (ordered : ∀ space, s.mem.space = some space → OrderedSpace s.mem.machine space) (fits : s.keepsApart g bs call)
    (returned : s.serve g bs call = .ok s') :
    Served s.mem.machine s'.mem.machine s.mem.space s'.mem.space (s.releases call) ∧
      ∃ places', UserMemInv shield roots s'.mem places' := by
  have idle (same : s'.mem = s.mem) : Served s.mem.machine s'.mem.machine s.mem.space s'.mem.space (s.releases call) ∧
      ∃ places', UserMemInv shield roots s'.mem places' := by
    rw [same]
    exact ⟨Served.refl ordered, places, inv⟩
  cases call with
  | mem call =>
      obtain ⟨mem, stepped, rfl⟩ := Result.map_ok returned
      obtain ⟨⟨value, mem'⟩, called, rfl⟩ := Result.map_ok stepped
      obtain ⟨⟨places', _, inv'⟩, _⟩ := inv.call (UserMem.keepsApart_inRange fits) called
      exact ⟨call_served inv ordered fits called, places', inv'⟩
  | fb call =>
      change s.step g bs call = .ok s' at returned
      cases call with
      | openDevice capable kmallocOk =>
          rw [FbProcess.step] at returned
          split at returned
          · cases returned
            exact idle rfl
          · cases returned
            exact idle rfl
      | close i =>
          rw [FbProcess.step] at returned
          split at returned
          · rename_i handle isOpen
            cases returned
            obtain ⟨served, inv'⟩ := (fb0Close_releases s handle).served inv ordered
            rw [FbProcess.releases, isOpen]
            exact ⟨served, places, inv'⟩
          · cases returned
            exact idle rfl
      | map i arg nodeOk =>
          rw [FbProcess.step] at returned
          split at returned
          · rename_i handle isOpen
            obtain ⟨⟨reply, after⟩, called, rest⟩ := Result.bind_ok returned
            cases rest
            rcases fb0IoctlMap_cases called with rfl | ⟨space, m', live, unmapped, several, ready, pages, rfl⟩
            · exact idle (memory_same handle)
            · have apart := fits handle space isOpen unmapped live ready several
              obtain ⟨served, places', inv'⟩ := map_served inv ordered live several apart pages
              refine ⟨?_, places', inv'⟩
              change Served _ _ _ (s.memory _).space _
              rw [(memory_space live).1]
              exact served
          · cases returned
            exact idle rfl
      | unmap i =>
          rw [FbProcess.step] at returned
          split at returned
          · rename_i handle isOpen
            cases returned
            obtain ⟨served, inv'⟩ := (fb0IoctlUnmap_releases s handle).served inv ordered
            rw [FbProcess.releases, isOpen]
            exact ⟨served, places, inv'⟩
          · cases returned
            exact idle rfl
      | munmap addr =>
          cases returned
          exact ⟨munmap_served inv ordered, places, inv.munmap.1⟩

/-- What every state of a run of calls keeps. -/
def FbProcess.InOrder (shield roots : Set Nat) (s : FbProcess) : Prop :=
  (∃ places, UserMemInv shield roots s.mem places) ∧
    ∀ space, s.mem.space = some space → OrderedSpace s.mem.machine space

theorem FbProcess.InOrder.run {calls : List SpaceCall} (start : s.InOrder shield roots)
    (run : Run (FbProcess.serve g bs) (fun s call => s.keepsApart g bs call) s calls s') : s'.InOrder shield roots := by
  apply run.invariant (FbProcess.InOrder shield roots) _ start
  intro before call after inOrder fits returned
  obtain ⟨⟨places, inv⟩, ordered⟩ := inOrder
  obtain ⟨served, inv'⟩ := serve_served inv ordered fits returned
  exact ⟨inv', served.ordered⟩

end

section
variable {roots : Set Nat} {places : Finset Place} {m m' : Machine} {image : Image} {outcomes : LoadOutcomes} {space : Space}
  {g : Graphics} {bs : Screens} {calls : List SpaceCall} {s : FbProcess}

end

end DoccrOS.Devices
