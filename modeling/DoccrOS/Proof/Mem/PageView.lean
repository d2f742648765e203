import DoccrOS.Lib.Sharing
import DoccrOS.Proof.Mem.Prune

namespace DoccrOS.Mem
open Lib.Radix Lib

/-- A page of a space: the root of its tables and its page number. -/
abbrev Place := Nat × Nat

theorem findPte_align (m : Machine) (root va : Nat) : m.findPte root (va / pageSize * pageSize) = m.findPte root va := by
  have same (shift : Nat) (high : 12 ≤ shift) : (va / pageSize * pageSize) >>> shift = va >>> shift := by
    obtain ⟨rest, rfl⟩ := Nat.exists_eq_add_of_le high
    have cancel : va / 2 ^ 12 * 2 ^ 12 / 2 ^ 12 = va / 2 ^ 12 := Nat.mul_div_cancel _ (by decide)
    simp only [Nat.shiftRight_eq_div_pow, Nat.pow_add, ← Nat.div_div_eq_div_mul, show pageSize = 2 ^ 12 from rfl,
      cancel]
  simp only [Machine.findPte, Machine.findPt, pml4Index, pdpIndex, pdIndex, ptIndex, same 39 (by decide),
    same 30 (by decide), same 21 (by decide), same 12 (by decide)]
  rfl

/-- The leaf entries do not depend on the tracking tables. -/
@[simp] theorem findPte_withPhys (m : Machine) (p : PhysMem) (root va : Nat) :
    (Machine.mk p m.ram m.kernelPml4).findPte root va = m.findPte root va := rfl

/-- The tracked places refer to the frames of their leaf entries. -/
noncomputable def pageView (m : Machine) (places : Finset Place) : Sharing Place Nat (Fin 512 → Word) where
  map place := if place ∈ places then (m.findPte place.1 (place.2 * pageSize)).map entryAddr else none
  writable place := ∃ entry, m.findPte place.1 (place.2 * pageSize) = some entry ∧ entryWritable entry = true
  rc cell := (m.phys.pageframes (cell / pageSize)).rc
  data cell := m.ram cell
  finite := by
    apply places.finite_toSet.subset
    intro place mapped
    by_contra outside
    have outside' : place ∉ places := outside
    simp [outside'] at mapped

theorem pageView_map {m : Machine} {places : Finset Place} {place : Place} {cell : Nat} :
    (pageView m places).map place = some cell ↔
      place ∈ places ∧ ∃ entry, m.findPte place.1 (place.2 * pageSize) = some entry ∧ entryAddr entry = cell := by
  by_cases tracked : place ∈ places
  · simp [pageView, tracked]
  · simp [pageView, tracked]

theorem pageView_mem {m : Machine} {places : Finset Place} {place : Place} (mapped : (pageView m places).map place ≠ none) :
    place ∈ places := by
  by_contra outside
  simp [pageView, outside] at mapped

/-- The tracked places map allocated frames that are no tables. -/
structure DataInv (m : Machine) (roots : Set Nat) (places : Finset Place) : Prop where
  tables : TableInv m roots
  within : ∀ place ∈ places, place.1 ∈ roots ∧ place.2 < 2 ^ 35
  data : ∀ place cell, (pageView m places).map place = some cell → Allocated m cell ∧ cell ∉ Tables m roots

/-- One place is redirected; the frames of all other allocated data survive with contents and counters. -/
structure Redirected (m m' : Machine) (roots : Set Nat) (places places' : Finset Place) (place : Place)
    (target : Option Nat) : Prop where
  inv : DataInv m' roots places'
  redirects : (pageView m places).Redirects (pageView m' places') place target
  cells : ∀ cell, Allocated m cell → cell ∉ Tables m roots → Allocated m' cell ∧ cell ∉ Tables m' roots ∧
    m'.ram cell = m.ram cell ∧ m'.phys.pageframes (cell / pageSize) = m.phys.pageframes (cell / pageSize)
  writable : ∀ other ∈ places, other ≠ place → ((pageView m' places').writable other ↔ (pageView m places).writable other)

section
variable {m m' : Machine} {roots : Set Nat} {places : Finset Place}

theorem userVa_page {page : Nat} (small : page < 2 ^ 35) : UserVa (page * pageSize) := by
  simp only [UserVa, pageSize]
  omega

theorem page_div (page : Nat) : page * pageSize / pageSize = page := Nat.mul_div_cancel page (by decide)

/-- A free frame is the frame of no table and of no tracked place. -/
theorem DataInv.free_unmapped (inv : DataInv m roots places) {frame : Nat} (free : m.phys.Free frame) (place : Place) :
    (pageView m places).map place ≠ some (frame * pageSize) := by
  intro mapped
  have used := (inv.data place _ mapped).1.used
  rw [page_div, free.2] at used
  exact Bool.false_ne_true used

theorem DataInv.free_notTable (inv : DataInv m roots places) {frame : Nat} (free : m.phys.Free frame) :
    frame * pageSize ∉ Tables m roots := by
  intro owned
  have used := (inv.tables.allocated _ owned).used
  rw [page_div, free.2] at used
  exact Bool.false_ne_true used

/-- The tracked places may shrink. -/
theorem DataInv.mono (inv : DataInv m roots places) {fewer : Finset Place} (subset : fewer ⊆ places) :
    DataInv m roots fewer := by
  refine ⟨inv.tables, fun place tracked => inv.within place (subset tracked), ?_⟩
  intro place cell mapped
  obtain ⟨tracked, entry⟩ := pageView_map.mp mapped
  exact inv.data place cell (pageView_map.mpr ⟨subset tracked, entry⟩)

/-- A growth of the tables spares every allocated data frame. -/
theorem Grown.cells (grown : Grown m m' roots) {cell : Nat} (allocated : Allocated m cell)
    (notTable : cell ∉ Tables m roots) : Allocated m' cell ∧ cell ∉ Tables m' roots ∧ m'.ram cell = m.ram cell ∧
      m'.phys.pageframes (cell / pageSize) = m.phys.pageframes (cell / pageSize) := by
  have apart : ∀ table ∈ Tables m' roots, table ∉ Tables m roots → table / pageSize ≠ cell / pageSize := by
    intro table owned new same
    have free := (grown.fresh table owned new).1
    rw [same] at free
    have used := allocated.used
    rw [free.2] at used
    exact Bool.false_ne_true used
  have outside : cell ∉ Tables m' roots := by
    intro owned
    exact apart cell owned notTable rfl
  obtain ⟨used, frame⟩ := grown.kept _ apart
  refine ⟨⟨allocated.aligned, allocated.nonzero, ?_, ?_⟩, outside, grown.ram cell outside, frame⟩
  · rw [grown.total]
    exact allocated.inside
  · rw [used]
    exact allocated.used

/-- A mapped place refers to the frame of its new entry. -/
theorem DataInv.mapped {root va : Nat} {entry : Word} (inv : DataInv m roots places) (isRoot : root ∈ roots)
    (user : UserVa va) (map : Mapped m m' roots root va entry) (allocated : Allocated m (entryAddr entry))
    (notTable : entryAddr entry ∉ Tables m roots) :
    Redirected m m' roots places (insert (root, va / pageSize) places) (root, va / pageSize) (some (entryAddr entry)) ∧
      ((pageView m' (insert (root, va / pageSize) places)).writable (root, va / pageSize) ↔
        entryWritable entry = true) := by
  have small : va / pageSize < 2 ^ 35 := by
    simp only [UserVa] at user
    simp only [pageSize]
    omega
  have within : ∀ place ∈ insert (root, va / pageSize) places, place.1 ∈ roots ∧ place.2 < 2 ^ 35 := by
    intro place tracked
    rcases Finset.mem_insert.mp tracked with same | old
    · rw [same]
      exact ⟨isRoot, small⟩
    · exact inv.within place old
  have here : m'.findPte root (va / pageSize * pageSize) = some entry := by
    rw [map.leaf root isRoot _ (userVa_page small), if_pos ⟨rfl, page_div _⟩]
  have other : ∀ place ∈ places, place ≠ (root, va / pageSize) →
      m'.findPte place.1 (place.2 * pageSize) = m.findPte place.1 (place.2 * pageSize) := by
    intro place tracked different
    obtain ⟨isRoot', small'⟩ := inv.within place tracked
    rw [map.leaf place.1 isRoot' _ (userVa_page small'), page_div]
    exact if_neg fun same => different (Prod.ext same.1 same.2)
  have redirects : (pageView m places).Redirects (pageView m' (insert (root, va / pageSize) places))
      (root, va / pageSize) (some (entryAddr entry)) := by
    refine ⟨pageView_map.mpr ⟨Finset.mem_insert_self _ _, entry, here, rfl⟩, ?_⟩
    intro place different
    by_cases tracked : place ∈ places
    · simp [pageView, tracked, other place tracked different]
    · simp [pageView, tracked, different]
  refine ⟨⟨⟨map.grown.inv, within, ?_⟩, redirects, fun cell => map.grown.cells, ?_⟩, ?_⟩
  · intro place cell mapped
    by_cases same : place = (root, va / pageSize)
    · rw [same, redirects.1] at mapped
      injection mapped with sameCell
      rw [← sameCell]
      have kept := map.grown.cells allocated notTable
      exact ⟨kept.1, kept.2.1⟩
    · rw [redirects.2 place same] at mapped
      obtain ⟨allocated', notTable'⟩ := inv.data place cell mapped
      have kept := map.grown.cells allocated' notTable'
      exact ⟨kept.1, kept.2.1⟩
  · intro place tracked different
    simp only [pageView, other place tracked different]
  · simp [pageView, here]

/-- The release of tables spares every allocated data frame. -/
theorem Cleared.cells {root va : Nat} (cleared : Cleared m m' roots root va) (tables : TableInv m roots) {cell : Nat}
    (allocated : Allocated m cell) (notTable : cell ∉ Tables m roots) :
    Allocated m' cell ∧ cell ∉ Tables m' roots ∧ m'.ram cell = m.ram cell ∧
      m'.phys.pageframes (cell / pageSize) = m.phys.pageframes (cell / pageSize) := by
  have apart : ∀ table ∈ Tables m roots, table ∉ Tables m' roots → table / pageSize ≠ cell / pageSize := by
    intro table owned _ same
    have sameFrame := frameNumber_inj (tables.allocated table owned).aligned allocated.aligned same
    exact notTable (sameFrame ▸ owned)
  obtain ⟨used, frame⟩ := cleared.kept _ apart
  refine ⟨⟨allocated.aligned, allocated.nonzero, ?_, ?_⟩, fun owned => notTable (cleared.tables owned),
    cleared.ram cell notTable, frame⟩
  · rw [cleared.total]
    exact allocated.inside
  · rw [used]
    exact allocated.used

/-- A place whose leaf entry goes refers to nothing. -/
theorem DataInv.unmapped {root va : Nat} (inv : DataInv m roots places) (tables : TableInv m' roots)
    (leaf : ∀ root' ∈ roots, ∀ va', UserVa va' → m'.findPte root' va' =
      if root' = root ∧ va' / pageSize = va / pageSize then none else m.findPte root' va')
    (cells : ∀ cell, Allocated m cell → cell ∉ Tables m roots → Allocated m' cell ∧ cell ∉ Tables m' roots ∧
      m'.ram cell = m.ram cell ∧ m'.phys.pageframes (cell / pageSize) = m.phys.pageframes (cell / pageSize)) :
    Redirected m m' roots places places (root, va / pageSize) none := by
  have other : ∀ place ∈ places, place ≠ (root, va / pageSize) →
      m'.findPte place.1 (place.2 * pageSize) = m.findPte place.1 (place.2 * pageSize) := by
    intro place tracked different
    obtain ⟨isRoot', small'⟩ := inv.within place tracked
    rw [leaf place.1 isRoot' _ (userVa_page small'), page_div]
    exact if_neg fun same => different (Prod.ext same.1 same.2)
  have redirects : (pageView m places).Redirects (pageView m' places) (root, va / pageSize) none := by
    constructor
    · by_cases tracked : (root, va / pageSize) ∈ places
      · obtain ⟨isRoot', small'⟩ := inv.within _ tracked
        have gone : m'.findPte root (va / pageSize * pageSize) = none := by
          rw [leaf root isRoot' _ (userVa_page small'), if_pos ⟨rfl, page_div _⟩]
        simp [pageView, gone]
      · simp [pageView, tracked]
    · intro place different
      by_cases tracked : place ∈ places
      · simp [pageView, tracked, other place tracked different]
      · simp [pageView, tracked]
  refine ⟨⟨tables, inv.within, ?_⟩, redirects, cells, ?_⟩
  · intro place cell mapped
    by_cases same : place = (root, va / pageSize)
    · rw [same, redirects.1] at mapped
      cases mapped
    · rw [redirects.2 place same] at mapped
      obtain ⟨allocated, notTable⟩ := inv.data place cell mapped
      have kept := cells cell allocated notTable
      exact ⟨kept.1, kept.2.1⟩
  · intro place tracked different
    simp only [pageView, other place tracked different]

/-- A change of the tracking tables keeps the invariant if every table and every tracked frame stays used. -/
theorem DataInv.withPhys (inv : DataInv m roots places) {p : PhysMem} (total : p.total = m.phys.total)
    (kept : ∀ frame, m.phys.used frame = true → (frame = 0 ∨ (∃ table ∈ Tables m roots, table / pageSize = frame) ∨
      ∃ place, (pageView m places).map place = some (frame * pageSize)) → p.used frame = true) :
    DataInv { m with phys := p } roots places := by
  refine ⟨?_, inv.within, ?_⟩
  · refine inv.tables.withPhys total (kept 0 inv.tables.zeroUsed (Or.inl rfl)) ?_
    intro table owned
    have used := (inv.tables.allocated table owned).used
    rw [kept _ used (Or.inr (Or.inl ⟨table, owned, rfl⟩)), used]
  · intro place cell mapped
    obtain ⟨⟨aligned, nonzero, inside, used⟩, notTable⟩ := inv.data place cell mapped
    refine ⟨⟨aligned, nonzero, by rw [total]; exact inside, ?_⟩, notTable⟩
    apply kept _ used
    refine Or.inr (Or.inr ⟨place, ?_⟩)
    rw [Nat.div_mul_cancel (Nat.dvd_of_mod_eq_zero aligned)]
    exact mapped

end

end DoccrOS.Mem
