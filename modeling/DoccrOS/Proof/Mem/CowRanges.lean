import DoccrOS.Proof.Mem.Roots

namespace DoccrOS.Mem
open Lib.Radix Lib

/-- The page `i` of a range. -/
def pageAt (root base i : Nat) : Place := (root, base / pageSize + i)

/-- A place that is no page of the range. -/
def Outside (root base count : Nat) (place : Place) : Prop := ∀ i, i < count → place ≠ pageAt root base i

/-- A relation of counters and references that survives a lost reference. -/
def Leaky (rel : Nat → Nat → Prop) : Prop := ∀ rc refs, rel rc refs → 1 < refs → rel rc (refs - 1)

section
variable {rel : Nat → Nat → Prop} {keep : Set Nat} {m m' : Machine} {roots : Finset Nat} {root base count : Nat}
  {flags : Word}

theorem pageAt_inj {i j : Nat} : pageAt root base i = pageAt root base j ↔ i = j := by
  simp [pageAt]

theorem UserRange.pageAt (range : UserRange base count) {i : Nat} (inside : i < count) :
    (root, (base + i * pageSize) / pageSize) = pageAt root base i := by
  rw [(range.address inside).2.2, Mem.pageAt]

theorem UserRange.tracked (range : UserRange base count) (isRoot : root ∈ roots) {i : Nat} (inside : i < count) :
    Mem.pageAt root base i ∈ userPlaces roots := by
  rw [← range.pageAt inside]
  exact mem_userPlaces.mpr ⟨isRoot, (range.address inside).2.1.small⟩

/-- The pages below `i` of a range are mapped to fresh frames with the given flags, and no other page changes. -/
structure Filled (rel : Nat → Nat → Prop) (keep : Set Nat) (m m' : Machine) (roots : Finset Nat)
    (root base count : Nat) (flags : Word) (i : Nat) : Prop where
  inv : ∃ more, keep ⊆ more ∧ PageInv rel more m' roots ∧ ∀ frame, m'.phys.used frame = true →
    m.phys.used frame = true ∨ TableFrame m' roots frame ∨ frame ∈ more
  mapped : ∀ j, j < i → look m' (pageAt root base j) ≠ none
  unmapped : ∀ j, j < count → i ≤ j → look m' (pageAt root base j) = none
  outside : ∀ place ∈ userPlaces roots, Outside root base count place → look m' place = look m place
  written : ∀ place ∈ userPlaces roots, (userView m' roots).writable place →
    (userView m roots).writable place ∨ entryWritable flags = true ∧ ∃ j, j < count ∧ place = pageAt root base j

/-- A fresh page fills the next page of the range. -/
theorem Filled.step (discipline : Sharing.Discipline rel) (range : UserRange base count) (isRoot : root ∈ roots)
    {i frame : Nat} {next : Machine} (inside : i < count) (filled : Filled rel keep m m' roots root base count flags i)
    (page : FreshPage m' next roots (userPlaces roots) root (base + i * pageSize) frame flags) :
    Filled rel keep m next roots root base count flags (i + 1) := by
  obtain ⟨more, grown, inv, taken⟩ := filled.inv
  have here : (root, (base + i * pageSize) / pageSize) = pageAt root base i := range.pageAt inside
  have empty := filled.unmapped i inside (Nat.le_refl i)
  rw [← here] at empty
  obtain ⟨inv', shown, others⟩ := inv.fresh discipline (range.address inside).2.1 isRoot empty page
  rw [here] at shown others
  have grownTables : Tables m' roots ⊆ Tables next roots := page.mapped.grown.tables
  have other : ∀ j, j < count → j ≠ i → look next (pageAt root base j) = look m' (pageAt root base j) := by
    intro j small different
    exact others _ (range.tracked isRoot small) fun same => different (pageAt_inj.mp same)
  refine ⟨⟨insert frame more, grown.trans (Set.subset_insert _ _), inv', ?_⟩, ?_, ?_, ?_, ?_⟩
  · intro query used
    rcases page.mapped.grown.taken used with old | table
    · by_cases same : query = frame
      · exact Or.inr (Or.inr (Or.inl same))
      · have old' : (m'.phys.markUsed frame).used query = true := old
        rw [markUsed_used, if_neg same] at old'
        rcases taken query old' with before | ⟨table, owned, number⟩ | member
        · exact Or.inl before
        · exact Or.inr (Or.inl ⟨table, grownTables owned, number⟩)
        · exact Or.inr (Or.inr (Or.inr member))
    · exact Or.inr (Or.inl table)
  · intro j small
    by_cases same : j = i
    · rw [same, shown]
      exact Option.some_ne_none _
    · rw [other j (by omega) same]
      exact filled.mapped j (by omega)
  · intro j small above
    rw [other j small (by omega)]
    exact filled.unmapped j small (by omega)
  · intro place member outside
    rw [others place member (outside i inside)]
    exact filled.outside place member outside
  · intro place member written
    by_cases isHere : place = pageAt root base i
    · have allowed := page.writable.mp (by rw [here, ← isHere]; exact written)
      exact Or.inr ⟨allowed, i, inside, isHere⟩
    · exact filled.written place member ((page.step.writable place member (by rw [here]; exact isHere)).mp written)

/-- The page loop of `vmm_space_alloc` fills the range up to its end or up to a page without a free frame. -/
theorem PageInv.allocPages (inv : PageInv rel keep m roots) (discipline : Sharing.Discipline rel)
    (range : UserRange base count) (isRoot : root ∈ roots) (page : PageFlags flags) {failed : Option Nat}
    (unmapped : ∀ i, i < count → look m (pageAt root base i) = none)
    (returned : vmmSpaceAllocPages root base flags count 0 m = .ok (failed, m')) :
    (failed = none ∧ Filled rel keep m m' roots root base count flags count) ∨
      ∃ i, i < count ∧ failed = some i ∧ Filled rel keep m m' roots root base count flags i := by
  have start : Filled rel keep m m roots root base count flags 0 := by
    refine ⟨⟨keep, subset_rfl, inv, fun _ used => Or.inl used⟩, ?_, fun j small _ => unmapped j small,
      fun _ _ _ => rfl, fun _ _ written => Or.inl written⟩
    intro j small
    omega
  rcases vmmSpaceAllocPages_rule (fun i state => Filled rel keep m state roots root base count flags i)
    (fun _ => userPlaces roots) range isRoot page (fun i state held => held.inv.elim fun _ held => held.2.1.data)
    (fun i state next frame inside held fresh => held.step discipline range isRoot inside fresh) start returned with
    ⟨success, held⟩ | ⟨i, inside, failure, held, _⟩
  · exact Or.inl ⟨success, held⟩
  · exact Or.inr ⟨i, inside, failure, held⟩

/-- The rollback of `vmm_space_alloc` empties the filled pages again. -/
theorem Filled.undo (leaky : Leaky rel) (range : UserRange base count) (isRoot : root ∈ roots) {i : Nat}
    (inside : i ≤ count) (filled : Filled rel ∅ m m' roots root base count flags i) :
    PageInv rel ∅ (vmmSpaceAllocUndo root base i m') roots ∧
      (∀ j, j < count → look (vmmSpaceAllocUndo root base i m') (pageAt root base j) = none) ∧
      (∀ place ∈ userPlaces roots, Outside root base count place →
        look (vmmSpaceAllocUndo root base i m') place = look m place) ∧
      Tightened m' (vmmSpaceAllocUndo root base i m') roots := by
  have range' : UserRange base i := by
    refine ⟨range.aligned, Nat.le_trans ?_ range.fits⟩
    exact Nat.add_le_add_left (Nat.mul_le_mul_right _ inside) _
  let held (j : Nat) (state : Machine) : Prop := PageInv rel ∅ state roots ∧
    (∀ k, k < count → k < j ∨ i ≤ k → look state (pageAt root base k) = none) ∧
    (∀ place ∈ userPlaces roots, Outside root base count place → look state place = look m place) ∧
    Tightened m' state roots
  have start : held 0 m' := by
    obtain ⟨more, _, inv, _⟩ := filled.inv
    refine ⟨inv.mono (Set.empty_subset _), ?_, filled.outside, Tightened.refl _ _⟩
    intro k small side
    exact filled.unmapped k small (by omega)
  have final : held i (vmmSpaceAllocUndo root base i m') := by
    refine vmmSpaceAllocUndo_rule range' isRoot (fun _ _ kept => kept.1.data.tables) ?_ start
    intro j state next small kept set
    obtain ⟨inv, empty, outside, tightened⟩ := kept
    have inRange : j < count := by omega
    have step := inv.data.unmapped set.inv set.leaf fun cell allocated notTable => set.grown.cells allocated notTable
    rw [range.pageAt inRange] at step
    obtain ⟨inv', gone, others⟩ := inv.lose leaky (range.tracked isRoot inRange) step
    refine ⟨inv', ?_, ?_, ?_⟩
    · intro k small' side
      by_cases same : k = j
      · rw [same]
        exact gone
      · rw [others _ (range.tracked isRoot small') fun clash => same (pageAt_inj.mp clash)]
        exact empty k small' (by omega)
    · intro place member apart
      rw [others place member (apart j inRange)]
      exact outside place member apart
    · intro place member written
      by_cases isHere : place = pageAt root base j
      · rw [isHere] at written
        exact absurd written (not_writable gone)
      · exact tightened place member ((step.writable place member isHere).mp written)
  exact ⟨final.1, fun j small => final.2.1 j small (by omega), final.2.2⟩

/-- The pages of a range are unmapped, frames are released but not taken, and no other page changes. -/
structure Emptied (rel : Nat → Nat → Prop) (keep : Set Nat) (m m' : Machine) (roots : Finset Nat)
    (root base count i : Nat) : Prop where
  inv : PageInv rel {frame ∈ keep | m'.phys.used frame = true} m' roots
  taken : ∀ frame, m'.phys.used frame = true → m.phys.used frame = true
  gone : ∀ j, j < i → look m' (pageAt root base j) = none
  outside : ∀ place ∈ userPlaces roots, (∀ j, j < i → place ≠ pageAt root base j) → look m' place = look m place
  tightened : Tightened m m' roots

theorem PageInv.emptied_start (inv : PageInv rel keep m roots) : Emptied rel keep m m roots root base count 0 := by
  refine ⟨inv.mono fun _ member => member.1, fun _ used => used, ?_, fun _ _ _ => rfl, Tightened.refl _ _⟩
  intro j small
  omega

/-- One more page of the range was unmapped. -/
theorem Emptied.step (range : UserRange base count) (isRoot : root ∈ roots) {i : Nat} {next : Machine}
    (inside : i < count) (emptied : Emptied rel keep m m' roots root base count i)
    (inv : PageInv rel {frame ∈ keep | next.phys.used frame = true} next roots)
    (taken : ∀ frame, next.phys.used frame = true → m'.phys.used frame = true)
    (gone : look next (pageAt root base i) = none)
    (others : ∀ other ∈ userPlaces roots, other ≠ pageAt root base i → look next other = look m' other)
    (written : ∀ other ∈ userPlaces roots, other ≠ pageAt root base i → (userView next roots).writable other →
      (userView m' roots).writable other) :
    Emptied rel keep m next roots root base count (i + 1) := by
  refine ⟨inv, fun frame used => emptied.taken frame (taken frame used), ?_, ?_, ?_⟩
  · intro j small
    by_cases same : j = i
    · rw [same]
      exact gone
    · rw [others _ (range.tracked isRoot (by omega)) fun clash => same (pageAt_inj.mp clash)]
      exact emptied.gone j (by omega)
  · intro place member outside
    rw [others place member (outside i (by omega))]
    exact emptied.outside place member fun j small => outside j (by omega)
  · intro place member allowed
    by_cases isHere : place = pageAt root base i
    · rw [isHere] at allowed
      exact absurd allowed (not_writable gone)
    · exact emptied.tightened place member (written place member isHere allowed)

/-- The page loop of `vmm_space_free` empties its range. -/
theorem PageInv.freePages (inv : PageInv rel keep m roots) (discipline : Sharing.Discipline rel)
    (tight : Tight rel keep) (range : UserRange base count) (isRoot : root ∈ roots) {isMmio : Bool}
    (device : isMmio = true → keep = ∅ ∧ Leaky rel) :
    Emptied rel keep m ((List.range count).foldl
      (fun m i => vmmSpaceFreePage m root (wrap64 (base + i * pageSize)) isMmio) m) roots root base count count := by
  have skipped : ∀ i state, i < count → Emptied rel keep m state roots root base count i →
      state.findPte root (base + i * pageSize) = none → Emptied rel keep m state roots root base count (i + 1) := by
    intro i state inside held absent
    refine held.step range isRoot inside held.inv (fun _ used => used) ?_ (fun _ _ _ => rfl) fun _ _ _ allowed => allowed
    rw [← range.pageAt inside, look, findPte_align, absent]
    rfl
  cases isMmio with
  | false =>
      refine vmmSpaceFreePages_rule range isRoot (fun _ _ held => held.inv.data)
        (fun i inside => range.tracked isRoot inside) ?_ skipped ?_ inv.emptied_start
      · intro i state cell held mapped low
        exact discipline.sole _ _ (held.inv.counted cell (Sharing.count_pos mapped)) low
      · intro i state next cell inside held mapped page
        have tight' : Tight rel {frame ∈ keep | state.phys.used frame = true} := by
          intro nonempty
          exact tight (nonempty.mono fun _ member => member.1)
        have here : (root, (base + i * pageSize) / pageSize) = pageAt root base i := range.pageAt inside
        have mapped' : (userView state roots).map (root, (base + i * pageSize) / pageSize) = some cell := by
          rw [here]
          exact mapped
        obtain ⟨inv', gone, others⟩ := held.inv.drop discipline tight' mapped' page
        rw [here] at gone others
        refine held.step range isRoot inside (inv'.mono ?_) page.taken gone others ?_
        · intro frame member
          exact ⟨⟨member.1, page.taken frame member.2⟩, member.2⟩
        · intro other member different allowed
          exact (page.writable other member (by rw [here]; exact different)).mp allowed
  | true =>
      obtain ⟨none, leaky⟩ := device rfl
      refine vmmSpaceFreeMmio_rule range isRoot (fun _ _ held => held.inv.data.tables) skipped ?_ inv.emptied_start
      intro i state next inside held cleared
      have step := held.inv.data.unmapped cleared.inv cleared.leaf fun cell allocated notTable =>
        cleared.cells held.inv.data.tables allocated notTable
      rw [range.pageAt inside] at step
      obtain ⟨inv', gone, others⟩ := (held.inv.mono (Set.empty_subset _)).lose leaky (range.tracked isRoot inside) step
      refine held.step range isRoot inside (inv'.mono ?_) (fun _ used => cleared.taken used) gone others ?_
      · intro frame member
        rw [none] at member
        exact member.1
      · intro other member different allowed
        exact (step.writable other member different).mp allowed

/-- The pages `done` of the source are shared with the destination, and the counters of the others are untouched. -/
structure Cloning (rel : Nat → Nat → Prop) (keep : Set Nat) (m m' : Machine) (roots : Finset Nat) (src dst : Nat)
    (done : Set Nat) : Prop where
  inv : PageInv rel keep m' roots
  map : ∀ place, place.1 ≠ dst → (userView m' roots).map place = (userView m roots).map place
  rc : ∀ page cell, page ∉ done → (userView m roots).map (src, page) = some cell →
    (userView m' roots).rc cell = (userView m roots).rc cell
  cloned : ∀ page, page < 2 ^ 35 → page ∈ done → look m' (dst, page) = look m (src, page)
  rest : ∀ page, page < 2 ^ 35 → page ∉ done → look m' (dst, page) = none
  outside : ∀ place ∈ userPlaces roots, place.1 ≠ dst → look m' place = look m place
  tightened : Tightened m m' roots

/-- A counter that can take one more reference. -/
def Shareable (rel : Nat → Nat → Prop) (rc : Nat) : Prop :=
  ∀ refs, 0 < refs → rel rc refs → rel (wrap32 (rc + 1)) (refs + 1)

/-- The page loop of `vmm_clone_space` shares its range. -/
theorem Cloning.pages {src dst : Nat} {done : Set Nat} {srcFlags dstFlags : Word} {last : Machine}
    (different : src ≠ dst) (isSrc : src ∈ roots) (isDst : dst ∈ roots) (range : UserRange base count)
    (srcPage : PageFlags srcFlags) (dstPage : PageFlags dstFlags)
    (srcReadOnly : entryWritable srcFlags = false) (dstReadOnly : entryWritable dstFlags = false)
    (shareable : ∀ page cell, (userView m roots).map (src, page) = some cell →
      Shareable rel ((userView m roots).rc cell))
    (new : ∀ i, i < count → base / pageSize + i ∉ done) (cloning : Cloning rel keep m m' roots src dst done)
    (returned : vmmClonePages src dst base srcFlags dstFlags count m' = .ok last) :
    Cloning rel keep m last roots src dst (done ∪ {page | ∃ i, i < count ∧ page = base / pageSize + i}) := by
  let held (i : Nat) (state : Machine) : Prop :=
    Cloning rel keep m state roots src dst (done ∪ {page | ∃ j, j < i ∧ page = base / pageSize + j})
  have start : held 0 m' := by
    have same : done ∪ {page | ∃ j, j < 0 ∧ page = base / pageSize + j} = done := by
      ext page
      simp
    change Cloning rel keep m m' roots src dst _
    rw [same]
    exact cloning
  have more : ∀ i page, page ∈ done ∪ {page | ∃ j, j < i + 1 ∧ page = base / pageSize + j} ↔
      page ∈ done ∪ {page | ∃ j, j < i ∧ page = base / pageSize + j} ∨ page = base / pageSize + i := by
    intro i page
    constructor
    · intro member
      rcases member with old | ⟨j, small, same⟩
      · exact Or.inl (Or.inl old)
      · rcases Nat.lt_succ_iff_lt_or_eq.mp small with below | last
        · exact Or.inl (Or.inr ⟨j, below, same⟩)
        · exact Or.inr (last ▸ same)
    · intro member
      rcases member with (old | ⟨j, small, same⟩) | same
      · exact Or.inl old
      · exact Or.inr ⟨j, by omega, same⟩
      · exact Or.inr ⟨i, by omega, same⟩
  have fresh : ∀ i, i < count → base / pageSize + i ∉ done ∪ {page | ∃ j, j < i ∧ page = base / pageSize + j} := by
    intro i inside member
    rcases member with old | ⟨j, small, same⟩
    · exact new i inside old
    · omega
  have small : ∀ i, i < count → base / pageSize + i < 2 ^ 35 := fun i inside =>
    (mem_userPlaces.mp (range.tracked isSrc inside)).2
  refine vmmClonePages_rule held range different srcPage dstPage (fun _ _ kept => kept.inv.data)
    (fun i inside => range.tracked isSrc inside) (fun i inside => range.tracked isDst inside) ?_ ?_ start returned
  · intro i state inside kept absent
    have srcEmpty : look m (src, base / pageSize + i) = none := by
      rw [← kept.outside (src, base / pageSize + i) (range.tracked isSrc inside) different]
      exact (look_none (range.tracked isSrc inside)).mpr absent
    refine ⟨kept.inv, kept.map, ?_, ?_, ?_, kept.outside, kept.tightened⟩
    · intro page cell undone mapped
      exact kept.rc page cell (fun member => undone ((more i page).mpr (Or.inl member))) mapped
    · intro page inPage member
      rcases (more i page).mp member with old | here
      · exact kept.cloned page inPage old
      · rw [here, srcEmpty]
        exact kept.rest _ (small i inside) (fresh i inside)
    · intro page inPage undone
      exact kept.rest page inPage fun member => undone ((more i page).mpr (Or.inl member))
  · intro i state next cell inside kept mapped page
    have here : ∀ root, (root, (base + i * pageSize) / pageSize) = pageAt root base i := fun root => range.pageAt inside
    have mapped₀ : (userView m roots).map (src, base / pageSize + i) = some cell := by
      rw [← kept.map _ different]
      exact mapped
    have rc := kept.rc _ cell (fresh i inside) mapped₀
    have grow : rel (wrap32 ((userView state roots).rc cell + 1)) ((userView state roots).count cell + 1) := by
      have referenced := Sharing.count_pos mapped
      have related := kept.inv.counted cell referenced
      rw [rc] at related ⊢
      exact shareable _ cell mapped₀ _ referenced related
    have unmapped : (userView state roots).map (dst, (base + i * pageSize) / pageSize) = none := by
      rw [here dst]
      exact (look_none (range.tracked isDst inside)).mp (kept.rest _ (small i inside) (fresh i inside))
    have mapped' : (userView state roots).map (src, (base + i * pageSize) / pageSize) = some cell := by
      rw [here src]
      exact mapped
    obtain ⟨inv', shared, others⟩ := kept.inv.share mapped' different unmapped grow srcReadOnly dstReadOnly page
    have redirects := page.redirects
    rw [here dst] at others shared redirects
    rw [here src] at shared
    have notSrc : ∀ place : Place, place.1 ≠ dst → place ≠ pageAt dst base i := by
      intro place apart same
      exact apart (congrArg Prod.fst same)
    refine ⟨inv', ?_, ?_, ?_, ?_, ?_, ?_⟩
    · intro place apart
      rw [redirects.2 place (notSrc place apart)]
      exact kept.map place apart
    · intro page' cell' undone mappedHere
      have old : page' ∉ done ∪ {page | ∃ j, j < i ∧ page = base / pageSize + j} := fun member =>
        undone ((more i page').mpr (Or.inl member))
      rw [← kept.rc page' cell' old mappedHere]
      have inState : (userView state roots).map (src, page') = some cell' := by
        rw [kept.map _ different]
        exact mappedHere
      obtain ⟨allocated, notTable⟩ := kept.inv.data.data _ _ inState
      have notCell : cell' ≠ cell := by
        intro same
        rw [same] at inState
        have samePage := kept.inv.onePage _ _ cell inState mapped
        exact undone ((more i page').mpr (Or.inr samePage))
      change (next.phys.pageframes (cell' / pageSize)).rc = (state.phys.pageframes (cell' / pageSize)).rc
      rw [(page.cells cell' allocated notTable).2.2.2 notCell]
    · intro page' inPage member
      by_cases isHere : page' = base / pageSize + i
      · rw [isHere]
        exact shared.trans (kept.outside _ (range.tracked isSrc inside) different)
      · rw [others (dst, page') (mem_userPlaces.mpr ⟨isDst, inPage⟩) fun same => isHere (congrArg Prod.snd same)]
        exact kept.cloned page' inPage (((more i page').mp member).resolve_right isHere)
    · intro page' inPage undone
      have notHere : page' ≠ base / pageSize + i := fun same => undone ((more i page').mpr (Or.inr same))
      rw [others (dst, page') (mem_userPlaces.mpr ⟨isDst, inPage⟩) fun same => notHere (congrArg Prod.snd same)]
      exact kept.rest page' inPage fun member => undone ((more i page').mpr (Or.inl member))
    · intro place member apart
      rw [others place member (notSrc place apart)]
      exact kept.outside place member apart
    · intro place member written
      by_cases isSrcPage : place = (src, (base + i * pageSize) / pageSize)
      · rw [isSrcPage] at written
        rw [page.srcWritable.mp written] at srcReadOnly
        cases srcReadOnly
      · by_cases isDstPage : place = (dst, (base + i * pageSize) / pageSize)
        · rw [isDstPage] at written
          rw [page.dstWritable.mp written] at dstReadOnly
          cases dstReadOnly
        · exact kept.tightened place member ((page.writable place member isSrcPage isDstPage).mp written)

end

end DoccrOS.Mem
