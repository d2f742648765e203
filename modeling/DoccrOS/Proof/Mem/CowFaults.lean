import DoccrOS.Proof.Mem.CowCalls

namespace DoccrOS.Mem
open Lib.Radix Lib

theorem pageAlignDown_eq (address : Nat) : pageAlignDown address = address / pageSize * pageSize := by
  simp only [pageAlignDown, pageSize]
  omega

theorem pageAlignDown_div (address : Nat) : pageAlignDown address / pageSize = address / pageSize := by
  rw [pageAlignDown_eq, page_div]

theorem setFoundFlags_span (vaddr : Nat) (flags : BitVec 32) (regions : List Region) :
    (setFoundFlags vaddr flags regions).map Region.span = regions.map Region.span := by
  induction regions with
  | nil => rfl
  | cons cur rest ih =>
      rw [setFoundFlags]
      split
      · rfl
      · rw [List.map_cons, List.map_cons, ih]

/-- Every region keeps its flags or is the first one that holds the address. -/
theorem mem_setFoundFlags {vaddr : Nat} {flags : BitVec 32} {regions : List Region} {region : Region}
    (member : region ∈ setFoundFlags vaddr flags regions) :
    region ∈ regions ∨ ∃ found, regions.find? (·.holds vaddr) = some found ∧ region = { found with flags := flags } := by
  induction regions with
  | nil => cases member
  | cons cur rest ih =>
      rw [setFoundFlags] at member
      cases here : cur.holds vaddr with
      | true =>
          rw [here, if_pos rfl] at member
          rcases List.mem_cons.mp member with new | old
          · exact Or.inr ⟨cur, by simp [here], new⟩
          · exact Or.inl (List.mem_cons_of_mem _ old)
      | false =>
          simp only [here, Bool.false_eq_true, if_false] at member
          rcases List.mem_cons.mp member with same | late
          · rw [same]
            exact Or.inl List.mem_cons_self
          · rcases ih late with old | ⟨found, first, same⟩
            · exact Or.inl (List.mem_cons_of_mem _ old)
            · exact Or.inr ⟨found, by simp [here, first], same⟩

/-- The mapped page of the address lies in a copy-on-write region. -/
def Breakable (m : Machine) (space : Space) (faultAddr : Nat) : Prop :=
  ∃ region, vmmSpaceFind space (pageAlignDown faultAddr) = some region ∧ hasFlag region.flags vmmRegionCow = true ∧
    (m.findPte space.pml4Phys (pageAlignDown faultAddr)).isSome = true

/-- The result of `vmm_cow_break`: nothing, a page made writable in place, or a page moved to a copy. -/
inductive Breaks (m : Machine) (roots : Finset Nat) (space : Space) (faultAddr : Nat) : Machine → Space → Prop
  | nothing (idle : ¬Breakable m space faultAddr) : Breaks m roots space faultAddr m space
  | sole {m' : Machine} {region : Region} {cell : Nat}
      (found : vmmSpaceFind space (pageAlignDown faultAddr) = some region)
      (cow : hasFlag region.flags vmmRegionCow = true)
      (mapped : (userView m roots).map (space.pml4Phys, pageAlignDown faultAddr / pageSize) = some cell)
      (few : (userView m roots).rc cell ≤ 1)
      (page : BrokenSole m m' roots (userPlaces roots) space.pml4Phys (pageAlignDown faultAddr) cell
        (flagsToPte (brokenFlags region.flags))) :
      Breaks m roots space faultAddr m'
        { space with regions := setFoundFlags (pageAlignDown faultAddr) (brokenFlags region.flags) space.regions }
  | copy {m' : Machine} {region : Region} {cell frame : Nat}
      (found : vmmSpaceFind space (pageAlignDown faultAddr) = some region)
      (cow : hasFlag region.flags vmmRegionCow = true)
      (mapped : (userView m roots).map (space.pml4Phys, pageAlignDown faultAddr / pageSize) = some cell)
      (several : 1 < (userView m roots).rc cell)
      (page : BrokenCopy m m' roots (userPlaces roots) space.pml4Phys (pageAlignDown faultAddr) cell frame
        (flagsToPte (brokenFlags region.flags))) :
      Breaks m roots space faultAddr m'
        { space with regions := setFoundFlags (pageAlignDown faultAddr) (brokenFlags region.flags) space.regions }

section
variable {rel : Nat → Nat → Prop} {keep : Set Nat} {m m' : Machine} {roots : Finset Nat} {space space' : Space}
  {faultAddr : Nat}

/-- A region holds addresses of the user half only. -/
theorem vmmSpaceFind_user {va : Nat} {region : Region} (regions : ∀ region ∈ space.regions, RegionInv region)
    (found : vmmSpaceFind space va = some region) : UserVa va := by
  have holds : region.holds va = true := by simpa using List.find?_some found
  have inv := regions region (List.mem_of_find?_eq_some found)
  have fits := inv.range.fits
  have whole := inv.whole
  simp only [Region.holds, Bool.and_eq_true, decide_eq_true_eq] at holds
  simp only [pageSize] at fits whole
  have wrapped : wrap64 (region.base + region.size) = region.base + region.size := Nat.mod_eq_of_lt (by omega)
  rw [wrapped] at holds
  unfold UserVa
  omega

/-- The counter that a break of a shared page reads, and the frames it leaves to the allocator. -/
theorem physmemFrameRcDecAndGet_several {cell : Nat} (within : cell / pageSize < m.phys.total)
    (several : 1 < (m.phys.pageframes (cell / pageSize)).rc) :
    (physmemFrameRcDecAndGet m.phys cell).1 ≠ 0 ∧
      (∀ query, (physmemFrameRcDecAndGet m.phys cell).2.used query = m.phys.used query) ∧
      ∀ query, (physmemFrameRcDecAndGet m.phys cell).2.Free query ↔ m.phys.Free query := by
  have inside : ¬cell / pageSize ≥ m.phys.total := Nat.not_le_of_lt within
  have held : (m.phys.pageframes (cell / pageSize)).rc > 0 := by omega
  have rest : (m.phys.pageframes (cell / pageSize)).rc - 1 ≠ 0 := by omega
  simp only [physmemFrameRcDecAndGet, inside, if_false, held, if_true, PhysMem.Free, setFrame_used, setFrame_total]
  exact ⟨rest, fun _ => trivial, fun _ => trivial⟩

/-- The tail of `vmm_cow_break` keeps the frame of an unshared page and copies the frame of a shared one. -/
theorem vmmCowBreakPage_spec {region : Region} {cell : Nat} (data : DataInv m roots (userPlaces roots))
    (user : UserVa (pageAlignDown faultAddr)) (found : vmmSpaceFind space (pageAlignDown faultAddr) = some region)
    (cow : hasFlag region.flags vmmRegionCow = true)
    (mapped : (userView m roots).map (space.pml4Phys, pageAlignDown faultAddr / pageSize) = some cell)
    (returned : vmmCowBreakPage m space region (pageAlignDown faultAddr) cell = .ok (m', space')) :
    Breaks m roots space faultAddr m' space' := by
  obtain ⟨allocated, notTable⟩ := data.data _ _ mapped
  unfold vmmCowBreakPage at returned
  by_cases few : (userView m roots).rc cell ≤ 1
  · simp only [(breakSole_phys allocated.inside few 0).1, if_true] at returned
    obtain ⟨m₁, map, rest⟩ := Result.bind_ok returned
    injection rest with same
    obtain ⟨rfl, rfl⟩ := Prod.mk.inj same
    exact .sole found cow mapped few (data.breakSole user mapped (flagsToPte_page _) few map)
  · have several : 1 < (userView m roots).rc cell := by omega
    obtain ⟨down, sameUsed, sameFree⟩ := physmemFrameRcDecAndGet_several allocated.inside several
    simp only [down, if_false] at returned
    rcases physmemAllocTo_one (physmemFrameRcDecAndGet m.phys cell).2
        ((sameUsed 0).trans data.tables.zeroUsed) with ⟨failed, _⟩ | ⟨frame, nonzero, free, taken⟩
    · simp [failed] at returned
    · have address : frame * pageSize ≠ 0 := by simp [pageSize, nonzero]
      simp only [taken, address, if_false] at returned
      obtain ⟨m₁, map, rest⟩ := Result.bind_ok returned
      injection rest with same
      obtain ⟨rfl, rfl⟩ := Prod.mk.inj same
      exact .copy found cow mapped several
        (data.breakCopy user mapped (flagsToPte_page _) several nonzero ((sameFree frame).mp free) map)

/-- The tail of `vmm_cow_break` returns if the frame is not shared or another frame is free. -/
theorem vmmCowBreakPage_ok (region : Region) {pte : Word} (data : DataInv m roots (userPlaces roots))
    (isRoot : space.pml4Phys ∈ roots) (user : UserVa (pageAlignDown faultAddr))
    (entry : m.findPte space.pml4Phys (pageAlignDown faultAddr) = some pte)
    (mapped : (userView m roots).map (space.pml4Phys, pageAlignDown faultAddr / pageSize) = some (entryAddr pte))
    (frames : (userView m roots).rc (entryAddr pte) ≤ 1 ∨ ∃ frame, m.phys.Free frame) :
    ∃ m' space', vmmCowBreakPage m space region (pageAlignDown faultAddr) (entryAddr pte) = .ok (m', space') := by
  obtain ⟨allocated, notTable⟩ := data.data _ _ mapped
  unfold vmmCowBreakPage
  by_cases few : (userView m roots).rc (entryAddr pte) ≤ 1
  · simp only [(breakSole_phys allocated.inside few 0).1, if_true]
    have entry' (p : PhysMem) : ({ m with phys := p } : Machine).findPte space.pml4Phys (pageAlignDown faultAddr) =
        some pte := entry
    obtain ⟨m', map⟩ := pagingMapPageIn_ok (entry' _)
    exact ⟨m', _, by rw [map]; rfl⟩
  · obtain ⟨available, unused⟩ := frames.resolve_left few
    obtain ⟨down, sameUsed, sameFree⟩ := physmemFrameRcDecAndGet_several allocated.inside (by
      change 1 < (userView m roots).rc (entryAddr pte)
      omega)
    simp only [down, if_false]
    rcases physmemAllocTo_one (physmemFrameRcDecAndGet m.phys (entryAddr pte)).2
        ((sameUsed 0).trans data.tables.zeroUsed) with ⟨_, none⟩ | ⟨frame, nonzero, free, taken⟩
    · exact absurd ((sameFree available).mpr unused) (none available)
    · have address : frame * pageSize ≠ 0 := by simp [pageSize, nonzero]
      simp only [taken, address, if_false]
      have fresh : frame * pageSize ∉ Tables m roots := data.free_notTable ((sameFree frame).mp free)
      obtain ⟨_, _, leaf⟩ := data.setPage (m.ram (entryAddr pte)) fresh
      have entry' (p : PhysMem) : ({ m.setPage (frame * pageSize) (m.ram (entryAddr pte)) with phys := p } :
          Machine).findPte space.pml4Phys (pageAlignDown faultAddr) = some pte :=
        (leaf space.pml4Phys isRoot _ user).trans entry
      obtain ⟨m', map⟩ := pagingMapPageIn_ok (entry' _)
      exact ⟨m', _, by
        change (pagingMapPageIn { m.setPage (frame * pageSize) (m.ram (entryAddr pte)) with phys := _ } _ _ _ _ >>= _) = _
        rw [map]
        rfl⟩

theorem vmmCowBreak_spec (data : DataInv m roots (userPlaces roots)) (isRoot : space.pml4Phys ∈ roots)
    (regions : ∀ region ∈ space.regions, RegionInv region)
    (returned : vmmCowBreak m space faultAddr = .ok (m', space')) :
    Breaks m roots space faultAddr m' space' := by
  have unchanged (idle : ¬Breakable m space faultAddr) (same : Except.ok (m, space) = (.ok (m', space') : Result _)) :
      Breaks m roots space faultAddr m' space' := by
    injection same with same
    obtain ⟨rfl, rfl⟩ := Prod.mk.inj same
    exact .nothing idle
  cases found : vmmSpaceFind space (pageAlignDown faultAddr) with
  | none =>
      simp only [vmmCowBreak, found] at returned
      refine unchanged ?_ returned
      rintro ⟨region, found', _⟩
      rw [found] at found'
      cases found'
  | some region =>
      have user := vmmSpaceFind_user regions found
      cases cow : hasFlag region.flags vmmRegionCow with
      | false =>
          simp only [vmmCowBreak, found, cow, Bool.not_false, if_true] at returned
          refine unchanged ?_ returned
          rintro ⟨region', found', cow', _⟩
          rw [Option.some.inj (found.symm.trans found'), cow'] at cow
          cases cow
      | true =>
          cases entry : m.findPte space.pml4Phys (pageAlignDown faultAddr) with
          | none =>
              simp only [vmmCowBreak, found, cow, entry, Bool.not_true, Bool.false_eq_true, if_false] at returned
              refine unchanged ?_ returned
              rintro ⟨_, _, _, present⟩
              rw [entry] at present
              cases present
          | some pte =>
              simp only [vmmCowBreak, found, cow, entry, Bool.not_true, Bool.false_eq_true, if_false] at returned
              refine vmmCowBreakPage_spec data user found cow ?_ returned
              refine pageView_map.mpr ⟨mem_userPlaces.mpr ⟨isRoot, user.small⟩, pte, ?_, rfl⟩
              rw [findPte_align]
              exact entry

/-- A break keeps the page invariant, and every page shows what it showed. -/
theorem PageInv.break (inv : PageInv rel keep m roots) (discipline : Sharing.Discipline rel) (tight : Tight rel keep)
    (sole : rel 0 1 ∨ ∀ region cell, vmmSpaceFind space (pageAlignDown faultAddr) = some region →
      hasFlag region.flags vmmRegionCow = true →
      (userView m roots).map (space.pml4Phys, pageAlignDown faultAddr / pageSize) = some cell →
      1 < (userView m roots).rc cell)
    (breaks : Breaks m roots space faultAddr m' space') :
    (∃ more, keep ⊆ more ∧ PageInv rel more m' roots ∧ ∀ frame, m'.phys.used frame = true →
        m.phys.used frame = true ∨ TableFrame m' roots frame ∨ frame ∈ more) ∧
      ∀ place ∈ userPlaces roots, look m' place = look m place := by
  cases breaks with
  | nothing idle => exact ⟨⟨keep, subset_rfl, inv, fun _ used => Or.inl used⟩, fun _ _ => rfl⟩
  | sole found cow mapped few page =>
      rcases sole with uncount | shared
      · have positive := Sharing.count_pos mapped
        have single := discipline.sole _ _ (inv.counted _ positive) few
        obtain ⟨inv', same⟩ := inv.breakSole uncount mapped (by omega) page
        refine ⟨⟨keep, subset_rfl, inv', ?_⟩, same⟩
        intro frame used
        rcases page.taken frame used with old | table
        · exact Or.inl old
        · exact Or.inr (Or.inl table)
      · have several := shared _ _ found cow mapped
        omega
  | copy found cow mapped several page =>
      rename_i region cell frame
      obtain ⟨inv', same⟩ := inv.breakCopy discipline tight several mapped page
      refine ⟨⟨insert frame keep, Set.subset_insert _ _, inv', ?_⟩, same⟩
      intro query used
      rcases page.taken query used with old | new | table
      · exact Or.inl old
      · exact Or.inr (Or.inr (Or.inl new))
      · exact Or.inr (Or.inl table)

/-- A break changes the flags of one region at most, and they stay used. -/
theorem Breaks.reflag (breaks : Breaks m roots space faultAddr m' space')
    (regions : ∀ region ∈ space.regions, hasFlag region.flags vmmRegionUsed = true) :
    space'.pml4Phys = space.pml4Phys ∧ space'.regions.map Region.span = space.regions.map Region.span ∧
      (∀ region ∈ space'.regions, hasFlag region.flags vmmRegionUsed = true) ∧
      ∀ region ∈ space'.regions, ∃ other ∈ space.regions,
        hasFlag region.flags vmmRegionMmio = hasFlag other.flags vmmRegionMmio := by
  have broken : ∀ region, vmmSpaceFind space (pageAlignDown faultAddr) = some region →
      (setFoundFlags (pageAlignDown faultAddr) (brokenFlags region.flags) space.regions).map Region.span =
        space.regions.map Region.span ∧
      (∀ other ∈ setFoundFlags (pageAlignDown faultAddr) (brokenFlags region.flags) space.regions,
        hasFlag other.flags vmmRegionUsed = true ∧ ∃ old ∈ space.regions,
          hasFlag other.flags vmmRegionMmio = hasFlag old.flags vmmRegionMmio) := by
    intro region found
    refine ⟨setFoundFlags_span _ _ _, ?_⟩
    intro other member
    rcases mem_setFoundFlags member with old | ⟨region', found', same⟩
    · exact ⟨regions other old, other, old, rfl⟩
    · have sameRegion : region = region' := Option.some.inj (found.symm.trans found')
      obtain ⟨used, _, _, mmio⟩ := brokenFlags_bits region.flags
      rw [same, ← sameRegion]
      exact ⟨used, region, List.mem_of_find?_eq_some found, mmio⟩
  cases breaks with
  | nothing idle => exact ⟨rfl, rfl, regions, fun region member => ⟨region, member, rfl⟩⟩
  | sole found =>
      obtain ⟨spans, flags⟩ := broken _ found
      exact ⟨rfl, spans, fun region member => (flags region member).1, fun region member => (flags region member).2⟩
  | copy found =>
      obtain ⟨spans, flags⟩ := broken _ found
      exact ⟨rfl, spans, fun region member => (flags region member).1, fun region member => (flags region member).2⟩

/-- The contents of a page after a byte store. -/
def storedPage (contents : Fin 512 → Word) (offset : Nat) (byte : BitVec 8) : Fin 512 → Word :=
  Function.update contents (Fin.ofNat 512 (offset / 8))
    (setByte (contents (Fin.ofNat 512 (offset / 8))) (offset % 8) byte)

theorem storeByte_eq (m : Machine) (page offset : Nat) (byte : BitVec 8) :
    m.storeByte page offset byte = m.setPage page (storedPage (m.ram page) offset byte) := rfl

/-- A store that the processor performs goes to the page of its address only. -/
theorem PageInv.tryStore {va : Nat} {byte : BitVec 8} (inv : PageInv rel keep m roots)
    (isRoot : space.pml4Phys ∈ roots) (user : UserVa va) (stored : tryStore m space va byte = some m') :
    PageInv rel keep m' roots ∧ (∃ contents, look m (space.pml4Phys, va / pageSize) = some contents ∧
        look m' (space.pml4Phys, va / pageSize) = some (storedPage contents (va % pageSize) byte)) ∧
      (∀ place ∈ userPlaces roots, place ≠ (space.pml4Phys, va / pageSize) → look m' place = look m place) ∧
      m'.phys = m.phys ∧ Tables m' roots = Tables m roots := by
  unfold Mem.tryStore at stored
  cases entry : m.findPte space.pml4Phys va with
  | none => simp [entry] at stored
  | some pte =>
      simp only [entry] at stored
      cases allowed : entryWritable pte with
      | false => simp [allowed] at stored
      | true =>
          simp only [allowed, if_true] at stored
          injection stored with same
          have found : m.findPte space.pml4Phys (va / pageSize * pageSize) = some pte := by
            rw [findPte_align]
            exact entry
          have mapped : (userView m roots).map (space.pml4Phys, va / pageSize) = some (entryAddr pte) :=
            pageView_map.mpr ⟨mem_userPlaces.mpr ⟨isRoot, user.small⟩, pte, found, rfl⟩
          have written : (userView m roots).writable (space.pml4Phys, va / pageSize) := ⟨pte, found, allowed⟩
          rw [storeByte_eq] at same
          obtain ⟨inv', shown, others⟩ :=
            inv.store (storedPage (m.ram (entryAddr pte)) (va % pageSize) byte) mapped written
          obtain ⟨_, tables, _⟩ := inv.data.setPage (storedPage (m.ram (entryAddr pte)) (va % pageSize) byte)
            (inv.data.data _ _ mapped).2
          rw [same] at inv' shown others tables
          refine ⟨inv', ⟨m.ram (entryAddr pte), look_some mapped, shown⟩, others, ?_, tables⟩
          rw [← same]
          rfl

/-- A page in a copy-on-write region is writable after the break. -/
theorem Breaks.writable (breaks : Breaks m roots space faultAddr m' space') (breakable : Breakable m space faultAddr) :
    (userView m' roots).writable (space.pml4Phys, pageAlignDown faultAddr / pageSize) := by
  cases breaks with
  | nothing idle => exact absurd breakable idle
  | sole found cow mapped few page =>
      rw [page.hereWritable, flagsToPte_writable]
      exact (brokenFlags_bits _).2.1
  | copy found cow mapped several page =>
      rw [page.hereWritable, flagsToPte_writable]
      exact (brokenFlags_bits _).2.1

/-- A break changes the flags of no other page. -/
theorem Breaks.writable_other (breaks : Breaks m roots space faultAddr m' space') {place : Place}
    (tracked : place ∈ userPlaces roots) (different : place ≠ (space.pml4Phys, pageAlignDown faultAddr / pageSize)) :
    (userView m' roots).writable place ↔ (userView m roots).writable place := by
  cases breaks with
  | nothing idle => exact Iff.rfl
  | sole found cow mapped few page => exact page.writable place tracked different
  | copy found cow mapped several page => exact page.writable place tracked different

/-- A break returns if the frame of the page is not shared or a frame is free. -/
theorem vmmCowBreak_ok (data : DataInv m roots (userPlaces roots)) (isRoot : space.pml4Phys ∈ roots)
    (regions : ∀ region ∈ space.regions, RegionInv region)
    (frames : ∀ cell, (userView m roots).map (space.pml4Phys, pageAlignDown faultAddr / pageSize) = some cell →
      (userView m roots).rc cell ≤ 1 ∨ ∃ frame, m.phys.Free frame) :
    ∃ m' space', vmmCowBreak m space faultAddr = .ok (m', space') := by
  cases found : vmmSpaceFind space (pageAlignDown faultAddr) with
  | none => exact ⟨m, space, by simp only [vmmCowBreak, found]⟩
  | some region =>
      have user := vmmSpaceFind_user regions found
      cases cow : hasFlag region.flags vmmRegionCow with
      | false => exact ⟨m, space, by simp only [vmmCowBreak, found, cow, Bool.not_false, if_true]⟩
      | true =>
          cases entry : m.findPte space.pml4Phys (pageAlignDown faultAddr) with
          | none =>
              exact ⟨m, space, by
                simp only [vmmCowBreak, found, cow, entry, Bool.not_true, Bool.false_eq_true, if_false]⟩
          | some pte =>
              have mapped : (userView m roots).map (space.pml4Phys, pageAlignDown faultAddr / pageSize) =
                  some (entryAddr pte) := by
                refine pageView_map.mpr ⟨mem_userPlaces.mpr ⟨isRoot, user.small⟩, pte, ?_, rfl⟩
                rw [findPte_align]
                exact entry
              obtain ⟨m', space', returned⟩ :=
                vmmCowBreakPage_ok region data isRoot user entry mapped (frames _ mapped)
              refine ⟨m', space', ?_⟩
              simp only [vmmCowBreak, found, cow, entry, Bool.not_true, Bool.false_eq_true, if_false]
              exact returned

/-- A write access stores at once, or it breaks its page first. -/
theorem userWrite_cases {va : Nat} {byte : BitVec 8} (data : DataInv m roots (userPlaces roots))
    (isRoot : space.pml4Phys ∈ roots) (regions : ∀ region ∈ space.regions, RegionInv region)
    (returned : userWrite m space va byte = .ok (m', space')) :
    (space' = space ∧ tryStore m space va byte = some m') ∨
      ∃ middle, Breaks m roots space va middle space' ∧ tryStore middle space' va byte = some m' := by
  unfold userWrite at returned
  cases first : tryStore m space va byte with
  | some m₁ =>
      simp only [first] at returned
      injection returned with same
      obtain ⟨rfl, rfl⟩ := Prod.mk.inj same
      exact Or.inl ⟨rfl, rfl⟩
  | none =>
      simp only [first] at returned
      obtain ⟨⟨m₁, space₁⟩, handled, rest⟩ := Result.bind_ok returned
      have broke : vmmCowBreak m space va = .ok (m₁, space₁) := by
        unfold cowPageFaultHandler at handled
        cases found : vmmSpaceFind space va with
        | none => simp [found] at handled
        | some region =>
            by_cases present : (m.findPte space.pml4Phys va).isSome = true
            · cases cow : hasFlag region.flags vmmRegionCow with
              | false => simp [present, found, cow] at handled
              | true => simpa [present, found, cow] using handled
            · simp [present] at handled
      cases second : tryStore m₁ space₁ va byte with
      | none => simp [second] at rest
      | some m₂ =>
          simp only [second] at rest
          injection rest with same
          obtain ⟨rfl, rfl⟩ := Prod.mk.inj same
          exact Or.inr ⟨m₁, vmmCowBreak_spec data isRoot regions broke, second⟩

end

end DoccrOS.Mem
