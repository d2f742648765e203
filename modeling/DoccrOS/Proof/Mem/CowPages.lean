import DoccrOS.Proof.Mem.SpaceLoops

namespace DoccrOS.Mem
open Lib.Radix Lib

/-- All user pages below the roots. -/
@[irreducible] def userPlaces (roots : Finset Nat) : Finset Place := roots ×ˢ Finset.range (2 ^ 35)

theorem mem_userPlaces {roots : Finset Nat} {place : Place} :
    place ∈ userPlaces roots ↔ place.1 ∈ roots ∧ place.2 < 2 ^ 35 := by
  rw [userPlaces, Finset.mem_product, Finset.mem_range]

/-- The sharing of all user pages below the roots. -/
noncomputable abbrev userView (m : Machine) (roots : Finset Nat) : Sharing Place Nat (Fin 512 → Word) :=
  pageView m (userPlaces roots)

/-- The contents of a page, if it is mapped. -/
def look (m : Machine) (place : Place) : Option (Fin 512 → Word) :=
  (m.findPte place.1 (place.2 * pageSize)).map fun entry => m.ram (entryAddr entry)

/-- The frames of all user pages are counted, writable pages are not shared, a shared frame has one page number,
and the frames `keep` are mapped. -/
structure PageInv (rel : Nat → Nat → Prop) (keep : Set Nat) (m : Machine) (roots : Finset Nat) : Prop where
  data : DataInv m roots (userPlaces roots)
  counted : (userView m roots).Counted rel
  exclusive : (userView m roots).Exclusive
  onePage : ∀ first second cell, (userView m roots).map first = some cell → (userView m roots).map second = some cell →
    first.2 = second.2
  kept : ∀ frame ∈ keep, ∃ place, (userView m roots).map place = some (frame * pageSize)

/-- No page below the roots becomes writable. -/
def Tightened (m m' : Machine) (roots : Finset Nat) : Prop :=
  ∀ place ∈ userPlaces roots, (userView m' roots).writable place → (userView m roots).writable place

theorem Tightened.refl (m : Machine) (roots : Finset Nat) : Tightened m m roots := fun _ _ written => written

theorem Tightened.trans {m m' m'' : Machine} {roots : Finset Nat} (first : Tightened m m' roots)
    (second : Tightened m' m'' roots) : Tightened m m'' roots :=
  fun place member written => first place member (second place member written)

/-- The counters of a relation for which a kept frame with several counted references has several references. -/
def Tight (rel : Nat → Nat → Prop) (keep : Set Nat) : Prop :=
  keep.Nonempty → ∀ rc refs, rel rc refs → 1 < rc → 1 < refs

section
variable {rel : Nat → Nat → Prop} {keep : Set Nat} {m m' : Machine} {roots : Finset Nat} {place : Place} {cell : Nat}

theorem look_eq_view (tracked : place ∈ userPlaces roots) : look m place = (userView m roots).view place := by
  simp [look, Sharing.view, pageView, tracked, Function.comp_def]

theorem look_none (tracked : place ∈ userPlaces roots) :
    look m place = none ↔ (userView m roots).map place = none := by
  rw [look_eq_view tracked, Sharing.view, Option.map_eq_none_iff]

theorem look_some (mapped : (userView m roots).map place = some cell) : look m place = some (m.ram cell) := by
  rw [look_eq_view (pageView_map.mp mapped).1, Sharing.view, mapped]
  rfl

/-- A page that is not mapped is not writable. -/
theorem not_writable (gone : look m place = none) : ¬(userView m roots).writable place := by
  rintro ⟨entry, found, _⟩
  rw [look, found] at gone
  cases gone

/-- Places that keep their frames keep their contents if the frames do. -/
theorem look_congr {other : Place} (tracked : other ∈ userPlaces roots)
    (kept : (userView m' roots).map other = (userView m roots).map other)
    (contents : ∀ cell, (userView m roots).map other = some cell → m'.ram cell = m.ram cell) :
    look m' other = look m other := by
  rw [look_eq_view tracked, look_eq_view tracked, Sharing.view, Sharing.view, kept]
  cases mapped : (userView m roots).map other with
  | none => rfl
  | some cell =>
      change some (m'.ram cell) = some (m.ram cell)
      rw [contents cell mapped]

theorem UserVa.small {va : Nat} (user : UserVa va) : va / pageSize < 2 ^ 35 := by
  simp only [UserVa, pageSize] at user ⊢
  omega

/-- A redirect to an unmapped frame or to the old frame keeps one page number for each frame. -/
theorem PageInv.onePage_redirect {target : Option Nat} (inv : PageInv rel keep m roots)
    (redirects : (userView m roots).Redirects (userView m' roots) place target)
    (same : ∀ other cell, target = some cell → (userView m roots).map other = some cell → other.2 = place.2) :
    ∀ first second cell, (userView m' roots).map first = some cell → (userView m' roots).map second = some cell →
      first.2 = second.2 := by
  intro first second cell atFirst atSecond
  by_cases isFirst : first = place
  · by_cases isSecond : second = place
    · rw [isFirst, isSecond]
    · rw [isFirst, redirects.1] at atFirst
      rw [redirects.2 second isSecond] at atSecond
      rw [isFirst, same second cell atFirst atSecond]
  · rw [redirects.2 first isFirst] at atFirst
    by_cases isSecond : second = place
    · rw [isSecond, redirects.1] at atSecond
      rw [isSecond, same first cell atSecond atFirst]
    · rw [redirects.2 second isSecond] at atSecond
      exact inv.onePage first second cell atFirst atSecond

theorem PageInv.mono (inv : PageInv rel keep m roots) {fewer : Set Nat} (subset : fewer ⊆ keep) :
    PageInv rel fewer m roots :=
  ⟨inv.data, inv.counted, inv.exclusive, inv.onePage, fun frame member => inv.kept frame (subset member)⟩

/-- A redirect of an unmapped page loses no frame. -/
theorem PageInv.kept_unmapped {target : Option Nat} (inv : PageInv rel keep m roots)
    (redirects : (userView m roots).Redirects (userView m' roots) place target)
    (unmapped : (userView m roots).map place = none) :
    ∀ frame ∈ keep, ∃ place, (userView m' roots).map place = some (frame * pageSize) := by
  intro frame member
  obtain ⟨other, mapped⟩ := inv.kept frame member
  have different : other ≠ place := by
    intro same
    rw [same, unmapped] at mapped
    cases mapped
  exact ⟨other, (redirects.2 other different).trans mapped⟩

/-- A redirect away from a frame loses it only with its last reference. -/
theorem PageInv.kept_moved {target : Option Nat} (inv : PageInv rel keep m roots)
    (redirects : (userView m roots).Redirects (userView m' roots) place target)
    (mapped : (userView m roots).map place = some cell) {frame : Nat} (member : frame ∈ keep)
    (several : frame * pageSize = cell → 1 < (userView m roots).count cell) :
    ∃ place, (userView m' roots).map place = some (frame * pageSize) := by
  obtain ⟨other, mapped'⟩ := inv.kept frame member
  by_cases here : other = place
  · rw [here, mapped] at mapped'
    injection mapped' with same
    obtain ⟨second, mapped₂, different⟩ := Sharing.exists_other (several same.symm) place
    exact ⟨second, by rw [redirects.2 second different, mapped₂, same]⟩
  · exact ⟨other, (redirects.2 other here).trans mapped'⟩

/-- A fresh frame in an unmapped page is counted, and every other page shows what it showed. -/
theorem PageInv.fresh (inv : PageInv rel keep m roots) (discipline : Sharing.Discipline rel) {root va frame : Nat}
    {flags : Word} (user : UserVa va) (isRoot : root ∈ roots) (unmapped : look m (root, va / pageSize) = none)
    (page : FreshPage m m' roots (userPlaces roots) root va frame flags) :
    PageInv rel (insert frame keep) m' roots ∧ look m' (root, va / pageSize) = some (m.ram (frame * pageSize)) ∧
      ∀ other ∈ userPlaces roots, other ≠ (root, va / pageSize) → look m' other = look m other := by
  have tracked : (root, va / pageSize) ∈ userPlaces roots := mem_userPlaces.mpr ⟨isRoot, user.small⟩
  have step := page.step
  have writable := page.writable
  rw [Finset.insert_eq_self.mpr tracked] at step writable
  have redirects := step.redirects
  have absent := (look_none tracked).mp unmapped
  have unused : ∀ other, (userView m roots).map other ≠ some (frame * pageSize) := inv.data.free_unmapped page.free
  have count := Sharing.count_zero_of_unmapped unused
  have rc : (userView m' roots).rc (frame * pageSize) = 1 := by
    change (m'.phys.pageframes (frame * pageSize / pageSize)).rc = 1
    rw [page_div, page.pageframe]
  refine ⟨⟨step.inv, ?_, ?_, ?_, ?_⟩, ?_, ?_⟩
  · refine inv.counted.redirect redirects ?_ ?_ ?_ ?_
    · intro cell target _
      injection target with same
      rw [← same, count, rc]
      exact discipline.fresh
    · intro cell _ before
      rw [absent] at before
      cases before
    · intro cell before
      rw [absent] at before
      cases before
    · intro cell referenced _ _
      obtain ⟨other, mapped⟩ := Sharing.exists_of_count_pos referenced
      obtain ⟨allocated, notTable⟩ := inv.data.data other cell mapped
      change (m'.phys.pageframes (cell / pageSize)).rc = (m.phys.pageframes (cell / pageSize)).rc
      rw [(step.cells cell allocated notTable).2.2.2]
  · refine inv.exclusive.redirect redirects ?_ ?_ ?_
    · intro cell target _
      injection target with same
      rw [← same]
      exact (redirects.count_new count).le
    · intro other cell _ target _ mapped
      injection target with same
      rw [← same] at mapped
      exact absurd mapped (unused other)
    · intro other different written mapped
      have member := pageView_mem mapped
      exact (step.writable other member different).mp written
  · refine inv.onePage_redirect redirects ?_
    intro other cell target mapped
    injection target with same
    rw [← same] at mapped
    exact absurd mapped (unused other)
  · intro query member
    rcases member with same | old
    · rw [same]
      exact ⟨_, redirects.1⟩
    · exact inv.kept_unmapped redirects absent query old
  · rw [look_some redirects.1, page.contents]
  · intro other member different
    refine look_congr member (redirects.2 other different) ?_
    intro cell mapped
    obtain ⟨allocated, notTable⟩ := inv.data.data other cell mapped
    exact (step.cells cell allocated notTable).2.2.1

/-- A page whose entry goes is unmapped even if its frame keeps its counter, and every other page stays. -/
theorem PageInv.lose (inv : PageInv rel ∅ m roots) (leak : ∀ rc refs, rel rc refs → 1 < refs → rel rc (refs - 1))
    (tracked : place ∈ userPlaces roots)
    (step : Redirected m m' roots (userPlaces roots) (userPlaces roots) place none) :
    PageInv rel ∅ m' roots ∧ look m' place = none ∧
      ∀ other ∈ userPlaces roots, other ≠ place → look m' other = look m other := by
  have redirects := step.redirects
  have rc : ∀ cell, 0 < (userView m roots).count cell → (userView m' roots).rc cell = (userView m roots).rc cell := by
    intro cell referenced
    obtain ⟨other, mapped⟩ := Sharing.exists_of_count_pos referenced
    obtain ⟨allocated, notTable⟩ := inv.data.data other cell mapped
    change (m'.phys.pageframes (cell / pageSize)).rc = (m.phys.pageframes (cell / pageSize)).rc
    rw [(step.cells cell allocated notTable).2.2.2]
  refine ⟨⟨step.inv, ?_, ?_, ?_, fun _ member => member.elim⟩, ?_, ?_⟩
  · refine inv.counted.redirect redirects ?_ ?_ ?_ ?_
    · intro cell target
      cases target
    · intro cell target
      cases target
    · intro cell _ _ several
      rw [rc cell (by omega)]
      exact leak _ _ (inv.counted cell (by omega)) several
    · intro cell referenced _ _
      exact rc cell referenced
  · refine inv.exclusive.redirect redirects ?_ ?_ ?_
    · intro cell target
      cases target
    · intro other cell _ target
      cases target
    · intro other different written mapped
      exact (step.writable other (pageView_mem mapped) different).mp written
  · refine inv.onePage_redirect redirects ?_
    intro other cell target
    cases target
  · exact (look_none tracked).mpr redirects.1
  · intro other member different
    refine look_congr member (redirects.2 other different) ?_
    intro cell mapped
    obtain ⟨allocated, notTable⟩ := inv.data.data other cell mapped
    exact (step.cells cell allocated notTable).2.2.1

/-- A dropped page is unmapped, its frame is counted down, and every other page shows what it showed. -/
theorem PageInv.drop (inv : PageInv rel keep m roots) (discipline : Sharing.Discipline rel) (tight : Tight rel keep) {root va : Nat}
    (mapped : (userView m roots).map (root, va / pageSize) = some cell)
    (page : DroppedPage m m' roots (userPlaces roots) root va cell) :
    PageInv rel {frame ∈ keep | m'.phys.used frame = true} m' roots ∧ look m' (root, va / pageSize) = none ∧
      ∀ other ∈ userPlaces roots, other ≠ (root, va / pageSize) → look m' other = look m other := by
  have redirects := page.redirects
  refine ⟨⟨page.inv, ?_, ?_, ?_, ?_⟩, ?_, ?_⟩
  · refine inv.counted.redirect redirects ?_ ?_ ?_ ?_
    · intro cell' target
      cases target
    · intro cell' target
      cases target
    · intro cell' before _ several
      rw [mapped] at before
      injection before with same
      rw [← same] at several ⊢
      have related := inv.counted cell (by omega)
      have high : 1 < (userView m roots).rc cell := by
        by_contra low
        have single := discipline.sole _ _ related (by omega)
        omega
      rw [(page.counted high).2]
      exact discipline.drop _ _ related several
    · intro cell' referenced _ before
      obtain ⟨other, mapped'⟩ := Sharing.exists_of_count_pos referenced
      obtain ⟨allocated, notTable⟩ := inv.data.data other cell' mapped'
      have different : cell' ≠ cell := fun same => before (same ▸ mapped)
      change (m'.phys.pageframes (cell' / pageSize)).rc = (m.phys.pageframes (cell' / pageSize)).rc
      rw [(page.cells cell' different allocated notTable).2.2.2]
  · refine inv.exclusive.redirect redirects ?_ ?_ ?_
    · intro cell' target
      cases target
    · intro other cell' _ target
      cases target
    · intro other different written mapped'
      exact (page.writable other (pageView_mem mapped') different).mp written
  · refine inv.onePage_redirect redirects ?_
    intro other cell' target
    cases target
  · intro frame member
    refine inv.kept_moved redirects mapped member.1 ?_
    intro same
    have high : 1 < (userView m roots).rc cell := by
      by_contra low
      have freed := (page.released (Nat.le_of_not_lt low)).1
      rw [← same, page_div, member.2] at freed
      exact Bool.false_ne_true freed.symm
    exact tight ⟨frame, member.1⟩ _ _ (inv.counted cell (Sharing.count_pos mapped)) high
  · exact (look_none (pageView_map.mp mapped).1).mpr redirects.1
  · intro other member different
    refine look_congr member (redirects.2 other different) ?_
    intro cell' mapped'
    by_cases same : cell' = cell
    · rw [same]
      exact page.contents
    · obtain ⟨allocated, notTable⟩ := inv.data.data other cell' mapped'
      exact (page.cells cell' same allocated notTable).2.2.1

/-- A shared page shows the same contents in both spaces. -/
theorem PageInv.share (inv : PageInv rel keep m roots) {src dst va : Nat} {srcFlags dstFlags : Word}
    (mapped : (userView m roots).map (src, va / pageSize) = some cell) (different : src ≠ dst)
    (unmapped : (userView m roots).map (dst, va / pageSize) = none)
    (grow : rel (wrap32 ((userView m roots).rc cell + 1)) ((userView m roots).count cell + 1))
    (srcReadOnly : entryWritable srcFlags = false) (dstReadOnly : entryWritable dstFlags = false)
    (page : SharedPage m m' roots (userPlaces roots) src dst va cell srcFlags dstFlags) :
    PageInv rel keep m' roots ∧ look m' (dst, va / pageSize) = look m (src, va / pageSize) ∧
      ∀ other ∈ userPlaces roots, other ≠ (dst, va / pageSize) → look m' other = look m other := by
  have redirects := page.redirects
  obtain ⟨allocated, notTable⟩ := inv.data.data _ _ mapped
  have apart : (src, va / pageSize) ≠ (dst, va / pageSize) := fun same => different (Prod.mk.inj same).1
  have srcLocked : ¬(userView m' roots).writable (src, va / pageSize) := by
    rw [page.srcWritable, srcReadOnly]
    exact Bool.false_ne_true
  have dstLocked : ¬(userView m' roots).writable (dst, va / pageSize) := by
    rw [page.dstWritable, dstReadOnly]
    exact Bool.false_ne_true
  have kept : ∀ other, (userView m' roots).writable other → (userView m roots).map other ≠ none →
      other ≠ (src, va / pageSize) ∧ ((userView m roots).writable other ∨ other = (dst, va / pageSize)) := by
    intro other written mapped'
    have notSrc : other ≠ (src, va / pageSize) := fun same => srcLocked (same ▸ written)
    by_cases isDst : other = (dst, va / pageSize)
    · exact ⟨notSrc, Or.inr isDst⟩
    · exact ⟨notSrc, Or.inl ((page.writable other (pageView_mem mapped') notSrc isDst).mp written)⟩
  refine ⟨⟨page.inv, ?_, ?_, ?_, inv.kept_unmapped redirects unmapped⟩, ?_, ?_⟩
  · refine inv.counted.redirect redirects ?_ ?_ ?_ ?_
    · intro cell' target _
      injection target with same
      rw [← same, page.rc]
      exact grow
    · intro cell' _ before
      rw [unmapped] at before
      cases before
    · intro cell' before
      rw [unmapped] at before
      cases before
    · intro cell' referenced target _
      obtain ⟨other, mapped'⟩ := Sharing.exists_of_count_pos referenced
      obtain ⟨allocated', notTable'⟩ := inv.data.data other cell' mapped'
      have notCell : cell' ≠ cell := fun same => target (same ▸ rfl)
      change (m'.phys.pageframes (cell' / pageSize)).rc = (m.phys.pageframes (cell' / pageSize)).rc
      rw [(page.cells cell' allocated' notTable').2.2.2 notCell]
  · refine inv.exclusive.redirect redirects ?_ ?_ ?_
    · intro cell' _ written
      exact absurd written dstLocked
    · intro other cell' notDst target _ mapped' written
      injection target with same
      rw [← same] at mapped'
      obtain ⟨notSrc, before | isDst⟩ := kept other written (by rw [mapped']; exact Option.some_ne_none _)
      · have single := inv.exclusive other cell before mapped'
        exact notSrc (Sharing.eq_of_count_le_one single mapped' mapped)
      · exact notDst isDst
    · intro other notDst written mapped'
      exact (kept other written mapped').2.resolve_right notDst
  · refine inv.onePage_redirect redirects ?_
    intro other cell' target mapped'
    injection target with same
    rw [← same] at mapped'
    exact inv.onePage other (src, va / pageSize) cell mapped' mapped
  · rw [look_some redirects.1, look_some mapped, (page.cells cell allocated notTable).2.2.1]
  · intro other member notDst
    refine look_congr member (redirects.2 other notDst) ?_
    intro cell' mapped'
    obtain ⟨allocated', notTable'⟩ := inv.data.data other cell' mapped'
    exact (page.cells cell' allocated' notTable').2.2.1

/-- A break of an unshared page keeps its frame uncounted, and no page shows anything else. -/
theorem PageInv.breakSole (inv : PageInv rel keep m roots) (uncount : rel 0 1) {root va : Nat} {flags : Word}
    (mapped : (userView m roots).map (root, va / pageSize) = some cell) (single : (userView m roots).count cell = 1)
    (page : BrokenSole m m' roots (userPlaces roots) root va cell flags) :
    PageInv rel keep m' roots ∧ ∀ other ∈ userPlaces roots, look m' other = look m other := by
  have redirects := page.redirects
  refine ⟨⟨page.inv, ?_, ?_, ?_, ?_⟩, ?_⟩
  · refine inv.counted.redirect redirects ?_ ?_ ?_ ?_
    · intro cell' target before
      exact absurd (mapped.trans target) before
    · intro cell' target _
      injection target with same
      rw [← same, page.rc, single]
      exact uncount
    · intro cell' before target
      exact absurd (mapped.symm.trans before) target
    · intro cell' referenced target _
      obtain ⟨other, mapped'⟩ := Sharing.exists_of_count_pos referenced
      obtain ⟨allocated', notTable'⟩ := inv.data.data other cell' mapped'
      have notCell : cell' ≠ cell := fun same => target (same ▸ rfl)
      change (m'.phys.pageframes (cell' / pageSize)).rc = (m.phys.pageframes (cell' / pageSize)).rc
      rw [(page.cells cell' allocated' notTable').2.2.2 notCell]
  · refine inv.exclusive.redirect redirects ?_ ?_ ?_
    · intro cell' target _
      injection target with same
      rw [← same]
      have moved := redirects.count cell
      rw [if_pos mapped, if_pos rfl] at moved
      exact (Nat.add_right_cancel moved).trans_le single.le
    · intro other cell' _ target before
      exact absurd (mapped.trans target) before
    · intro other notHere written mapped'
      exact (page.writable other (pageView_mem mapped') notHere).mp written
  · refine inv.onePage_redirect redirects ?_
    intro other cell' target mapped'
    injection target with same
    rw [← same] at mapped'
    exact inv.onePage other _ cell mapped' mapped
  · intro frame member
    obtain ⟨other, mapped'⟩ := inv.kept frame member
    refine ⟨other, Eq.trans ?_ mapped'⟩
    by_cases here : other = (root, va / pageSize)
    · rw [here, redirects.1, mapped]
    · exact redirects.2 other here
  · intro other member
    refine look_congr member ?_ ?_
    · by_cases here : other = (root, va / pageSize)
      · rw [here, redirects.1, mapped]
      · exact redirects.2 other here
    · intro cell' mapped'
      obtain ⟨allocated', notTable'⟩ := inv.data.data other cell' mapped'
      exact (page.cells cell' allocated' notTable').2.2.1

/-- A break of a shared page moves it to a copy, and no page shows anything else. -/
theorem PageInv.breakCopy (inv : PageInv rel keep m roots) (discipline : Sharing.Discipline rel) (tight : Tight rel keep)
    {root va frame : Nat} {flags : Word} (several : 1 < (userView m roots).rc cell)
    (mapped : (userView m roots).map (root, va / pageSize) = some cell)
    (page : BrokenCopy m m' roots (userPlaces roots) root va cell frame flags) :
    PageInv rel (insert frame keep) m' roots ∧ ∀ other ∈ userPlaces roots, look m' other = look m other := by
  have redirects := page.redirects
  have unused : ∀ other, (userView m roots).map other ≠ some (frame * pageSize) := inv.data.free_unmapped page.free
  have count := Sharing.count_zero_of_unmapped unused
  refine ⟨⟨page.inv, ?_, ?_, ?_, ?_⟩, ?_⟩
  · refine inv.counted.redirect redirects ?_ ?_ ?_ ?_
    · intro cell' target _
      injection target with same
      rw [← same, page.newRc, count]
      exact discipline.fresh
    · intro cell' target before
      exact absurd (before.trans target.symm) (unused _)
    · intro cell' before _ shared
      rw [mapped] at before
      injection before with same
      rw [← same] at shared ⊢
      rw [page.oldRc]
      exact discipline.drop _ _ (inv.counted cell (by omega)) shared
    · intro cell' referenced _ before
      obtain ⟨other, mapped'⟩ := Sharing.exists_of_count_pos referenced
      obtain ⟨allocated', notTable'⟩ := inv.data.data other cell' mapped'
      have notCell : cell' ≠ cell := fun same => before (same ▸ mapped)
      change (m'.phys.pageframes (cell' / pageSize)).rc = (m.phys.pageframes (cell' / pageSize)).rc
      rw [(page.cells cell' allocated' notTable').2.2.2 notCell]
  · refine inv.exclusive.redirect redirects ?_ ?_ ?_
    · intro cell' target _
      injection target with same
      rw [← same]
      exact (redirects.count_new count).le
    · intro other cell' _ target _ mapped'
      injection target with same
      rw [← same] at mapped'
      exact absurd mapped' (unused other)
    · intro other notHere written mapped'
      exact (page.writable other (pageView_mem mapped') notHere).mp written
  · refine inv.onePage_redirect redirects ?_
    intro other cell' target mapped'
    injection target with same
    rw [← same] at mapped'
    exact absurd mapped' (unused other)
  · intro query member
    rcases member with same | old
    · rw [same]
      exact ⟨_, redirects.1⟩
    · refine inv.kept_moved redirects mapped old fun _ => ?_
      exact tight ⟨query, old⟩ _ _ (inv.counted cell (Sharing.count_pos mapped)) several
  · intro other member
    by_cases here : other = (root, va / pageSize)
    · rw [here, look_some redirects.1, look_some mapped, page.contents]
    · refine look_congr member (redirects.2 other here) ?_
      intro cell' mapped'
      obtain ⟨allocated', notTable'⟩ := inv.data.data other cell' mapped'
      exact (page.cells cell' allocated' notTable').2.2.1

/-- The page invariant depends on the frames of the pages, their counters and their writable entries only. -/
theorem PageInv.congr {roots' : Finset Nat} (inv : PageInv rel keep m roots) (data : DataInv m' roots' (userPlaces roots'))
    (map : ∀ place, (userView m' roots').map place = (userView m roots).map place)
    (rc : ∀ place cell, (userView m roots).map place = some cell →
      (userView m' roots').rc cell = (userView m roots).rc cell)
    (writable : ∀ place, (userView m roots).map place ≠ none → (userView m' roots').writable place →
      (userView m roots).writable place) : PageInv rel keep m' roots' := by
  have count : ∀ cell, (userView m' roots').count cell = (userView m roots).count cell := by
    intro cell
    simp only [Sharing.count, Sharing.refs, map]
  refine ⟨data, ?_, ?_, ?_, ?_⟩
  · intro cell referenced
    rw [count] at referenced ⊢
    obtain ⟨place, mapped⟩ := Sharing.exists_of_count_pos referenced
    rw [rc place cell mapped]
    exact inv.counted cell referenced
  · intro place cell written mapped
    rw [map] at mapped
    rw [count]
    exact inv.exclusive place cell (writable place (by rw [mapped]; exact Option.some_ne_none _) written) mapped
  · intro first second cell atFirst atSecond
    rw [map] at atFirst atSecond
    exact inv.onePage first second cell atFirst atSecond
  · intro frame member
    obtain ⟨place, mapped⟩ := inv.kept frame member
    exact ⟨place, (map place).trans mapped⟩

/-- A store through a writable page changes what that page shows and nothing else. -/
theorem PageInv.store (inv : PageInv rel keep m roots) (contents : Fin 512 → Word)
    (mapped : (userView m roots).map place = some cell) (written : (userView m roots).writable place) :
    PageInv rel keep (m.setPage cell contents) roots ∧ look (m.setPage cell contents) place = some contents ∧
      ∀ other ∈ userPlaces roots, other ≠ place → look (m.setPage cell contents) other = look m other := by
  obtain ⟨_, notTable⟩ := inv.data.data _ _ mapped
  obtain ⟨data, _, leaf⟩ := inv.data.setPage contents notTable
  have same : ∀ other, (userView (m.setPage cell contents) roots).map other = (userView m roots).map other := by
    intro other
    by_cases member : other ∈ userPlaces roots
    · obtain ⟨isRoot, small⟩ := inv.data.within other member
      simp [pageView, leaf other.1 isRoot _ (userVa_page small)]
    · simp [pageView, member]
  refine ⟨inv.congr data same (fun _ _ _ => rfl) ?_, ?_, ?_⟩
  · intro other mapped' written'
    obtain ⟨isRoot, small⟩ := inv.data.within other (pageView_mem mapped')
    obtain ⟨entry, found, allowed⟩ := written'
    rw [leaf other.1 isRoot _ (userVa_page small)] at found
    exact ⟨entry, found, allowed⟩
  · have here : (userView (m.setPage cell contents) roots).map place = some cell := (same place).trans mapped
    rw [look_some here]
    simp [Machine.setPage]
  · intro other member different
    refine look_congr member (same other) ?_
    intro cell' mapped'
    have notCell : cell' ≠ cell := by
      intro isCell
      rw [isCell] at mapped'
      exact different (Sharing.eq_of_count_le_one (inv.exclusive place cell written mapped) mapped' mapped)
    simp [Machine.setPage, notCell]

end

end DoccrOS.Mem
