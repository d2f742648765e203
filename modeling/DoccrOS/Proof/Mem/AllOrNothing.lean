import DoccrOS.Proof.Mem.FrameBudget
import DoccrOS.Proof.Mem.RoundTrip

namespace DoccrOS.Mem
open Lib.Radix Lib

/-- The call returns, and it either maps every page to a fresh frame of its own and records the region, or it returns `0`
and leaves the regions, all translations and the free frames as they were. -/
def AllOrNothing (m : Machine) (space : Space) (base count : Nat) (flags : BitVec 32) (nodeOk : Bool) : Prop :=
  ∃ value m' space', vmmSpaceAlloc m space base count flags nodeOk = .ok (value, m', space') ∧
    ((value = base ∧ space' = space.record ⟨base, count * pageSize, vmmRegionUsed ||| flags⟩ ∧
      ∃ frames : Nat → Nat, (∀ i j, i < count → j < count → frames i = frames j → i = j) ∧
        ∀ i, i < count → m.phys.Free (frames i) ∧ ¬m'.phys.Free (frames i) ∧
          vmmSpaceGetPhys m' space' (base + i * pageSize) = frames i * pageSize) ∨
    (value = 0 ∧ space' = space ∧ (∀ root va, m'.findPte root va = m.findPte root va) ∧
      ∀ frame, m'.phys.Free frame ↔ m.phys.Free frame))

/-- The frames suffice for the pages and for the tables that are missing above them, or there is nothing to undo. -/
def AllocFits (m : Machine) (space : Space) (base count : Nat) (nodeOk : Bool) : Prop :=
  count = 0 ∨ nodeOk = false ∨ physmemFreeGet m.phys = 0 ∨
    count + (missingPaths m space.pml4Phys (neededPaths base count)).card ≤ physmemFreeGet m.phys

section
variable {m m' : Machine} {roots : Set Nat} {space : Space} {root base count : Nat} {flags : BitVec 32} {nodeOk : Bool}

/-- The tables of a filled range are all there. -/
theorem missingPaths_filled (mapped : ∀ i, i < count → m.findPte root (base + i * pageSize) ≠ none) :
    missingPaths m root (neededPaths base count) = ∅ := by
  apply Finset.filter_eq_empty_iff.mpr
  intro path member
  obtain ⟨i, inside, one⟩ := Finset.mem_biUnion.mp member
  have shorter : path <+: tablePath (base + i * pageSize) := by
    simp only [Finset.mem_insert, Finset.mem_singleton] at one
    rcases one with rfl | rfl | rfl
    · exact ⟨[_, _], rfl⟩
    · exact ⟨[_], rfl⟩
    · exact List.prefix_refl _
  obtain ⟨table, reached⟩ := walk_mapped (mapped i (Finset.mem_range.mp inside)) shorter
  rw [reached]
  exact Option.some_ne_none _

/-- A filled range maps fresh frames and records its region. -/
theorem AllocatedRange.all {frames : Nat → Nat} (isRoot : space.pml4Phys ∈ roots) (range : UserRange base count)
    (filled : AllocatedRange m m' roots space.pml4Phys base count (flagsToPte flags) frames) :
    ∀ i, i < count → m.phys.Free (frames i) ∧ ¬m'.phys.Free (frames i) ∧
      vmmSpaceGetPhys m' (space.record ⟨base, count * pageSize, vmmRegionUsed ||| flags⟩) (base + i * pageSize) =
        frames i * pageSize := by
  intro i inside
  refine ⟨(filled.free i inside).2, ?_, ?_⟩
  · intro free
    have used := (filled.taken i inside).1
    rw [free.2] at used
    exact Bool.false_ne_true used
  · have aligned : pageAlignDown (base + i * pageSize) = base + i * pageSize := by
      rw [pageAlignDown_eq, (range.address inside).2.2, Nat.add_mul,
        Nat.div_mul_cancel (Nat.dvd_of_mod_eq_zero range.aligned)]
    rw [vmmSpaceGetPhys, aligned]
    change pteLookup m' space.pml4Phys (base + i * pageSize) = _
    rw [pteLookup, filled.mapped isRoot range inside]
    exact (filled.frame (flagsToPte_page flags) inside).2

theorem physmemFreeGet_zero {p : PhysMem} (none : ∀ frame, ¬p.Free frame) : physmemFreeGet p = 0 := by
  apply Nat.eq_zero_of_not_pos
  intro positive
  obtain ⟨frame, free⟩ := physmemFreeGet_pos positive
  exact none frame free

/-- An allocation on a user range is all-or-nothing exactly when its frames suffice or no frame is free at all. -/
theorem alloc_all_or_nothing (tables : TableInv m roots) (isRoot : space.pml4Phys ∈ roots) (range : UserRange base count)
    (nonzero : base ≠ 0) : AllOrNothing m space base count flags nodeOk ↔ AllocFits m space base count nodeOk := by
  by_cases nothing : count = 0 ∨ nodeOk = false
  · have returned : vmmSpaceAlloc m space base count flags nodeOk = .ok (0, m, space) := by
      unfold vmmSpaceAlloc
      rcases nothing with none | refused
      · rw [if_pos none]
      · rw [refused]
        exact ite_self _
    constructor
    · intro _
      exact nothing.elim Or.inl fun refused => Or.inr (Or.inl refused)
    · intro _
      exact ⟨0, m, space, returned, Or.inr ⟨rfl, rfl, fun _ _ => rfl, fun _ => Iff.rfl⟩⟩
  · obtain ⟨several, node⟩ := not_or.mp nothing
    rw [Bool.not_eq_false] at node
    have page := flagsToPte_page flags
    have shape : vmmSpaceAlloc m space base count flags nodeOk =
        (vmmSpaceAllocPages space.pml4Phys base (flagsToPte flags) count 0 m >>= fun result =>
          result.1.elim (.ok (base, result.2, space.record ⟨base, count * pageSize, vmmRegionUsed ||| flags⟩)) fun i =>
            .ok (0, vmmSpaceAllocUndo space.pml4Phys base i result.2, space)) := by
      rw [vmmSpaceAlloc, if_neg several, node, range.alignDown, range.bytes]
      apply congrArg (vmmSpaceAllocPages space.pml4Phys base (flagsToPte flags) count 0 m >>= ·)
      funext result
      obtain ⟨failed, full⟩ := result
      cases failed <;> rfl
    constructor
    · rintro ⟨value, m', space', returned, outcome⟩
      rw [shape] at returned
      obtain ⟨⟨failed, full⟩, pages, rest⟩ := Result.bind_ok returned
      obtain ⟨frames, ⟨rfl, filled⟩ | ⟨i, inside, rfl, filled, exhausted⟩⟩ :=
        vmmSpaceAllocPages_spec tables isRoot range page pages
      · have complete : missingPaths full space.pml4Phys (neededPaths base count) = ∅ := by
          apply missingPaths_filled
          intro i inside
          rw [filled.mapped isRoot range inside]
          exact Option.some_ne_none _
        have balance := vmmSpaceAllocPages_balanced tables isRoot range page pages
        rw [complete, Finset.card_empty] at balance
        exact Or.inr (Or.inr (Or.inr (by omega)))
      · cases rest
        rcases outcome with ⟨zero, _⟩ | ⟨_, _, _, sameFree⟩
        · exact absurd zero.symm nonzero
        · have undone := vmmSpaceAllocUndo_spec filled.tables isRoot (range.shorter inside.le)
          refine Or.inr (Or.inr (Or.inl (physmemFreeGet_zero ?_)))
          intro frame free
          have free' := (sameFree frame).mpr free
          rw [undone.phys] at free'
          exact exhausted frame free'
    · intro fits
      rcases fits with none | refused | exhausted | enough
      · exact absurd none several
      · exact absurd (node.symm.trans refused) (by decide)
      · have stuck : vmmSpaceAllocPages space.pml4Phys base (flagsToPte flags) count 0 m = .ok (some 0, m) := by
          obtain ⟨left, rfl⟩ := Nat.exists_eq_succ_of_ne_zero several
          rcases physmemAllocTo_one m.phys tables.zeroUsed with ⟨none, _⟩ | ⟨frame, _, free, _⟩
          · rw [Nat.succ_eq_add_one, vmmSpaceAllocPages, none]
            rfl
          · have down := physmemFreeGet_markUsed free
            omega
        refine ⟨0, m, space, ?_, Or.inr ⟨rfl, rfl, fun _ _ => rfl, fun _ => Iff.rfl⟩⟩
        rw [shape, stuck]
        rfl
      · obtain ⟨m', pages⟩ := vmmSpaceAllocPages_ok tables isRoot range page enough
        obtain ⟨frames, ⟨_, filled⟩ | ⟨i, _, failed, _⟩⟩ := vmmSpaceAllocPages_spec tables isRoot range page pages
        · refine ⟨base, m', _, ?_, Or.inl ⟨rfl, rfl, frames, filled.distinct, filled.all isRoot range⟩⟩
          rw [shape, pages]
          rfl
        · cases failed

end

/-- A machine with 8 frames, of which the first two are used, and an empty kernel table in the second. -/
def tightMachine : Machine where
  phys := ⟨fun frame => if frame < 2 then ⟨1, frameUsed⟩ else ⟨0, frameFree⟩, 8,
    fun byte => if byte = 0 then 3#8 else 0#8, by decide⟩
  ram _ _ := 0
  kernelPml4 := pageSize

/-- The tight machine with one empty space and five free frames. -/
def tightSpace : Option Space × Machine := vmmSpaceCreate tightMachine true

theorem tightSpace_wellFormed : WellFormedSpace tightSpace.2 {0x2000} ⟨0x2000, [], 0, 0⟩ := by
  have boot : Boot ⟨tightMachine, fun _ => none⟩ := ⟨fun _ => rfl, by decide⟩
  refine created_wellFormed boot.tables ?_ (Prod.ext (by decide +kernel) rfl) (by decide +kernel)
  intro frame free
  have high : ¬frame < 2 := by
    intro low
    have used : tightMachine.phys.used frame = false := free.2
    interval_cases frame <;> exact absurd used (by decide)
  exact if_neg high

/-- The third page of the allocation finds no frame, and the five frames of the first two pages are lost. -/
theorem alloc_leaks : ¬∀ (m : Machine) (roots : Set Nat) (space : Space) (base count : Nat) (flags : BitVec 32) (nodeOk : Bool),
    WellFormedSpace m roots space → UserRange base count → base ≠ 0 →
    (∀ region ∈ space.regions, ∀ i, i < count → ¬region.covers (base / pageSize + i)) →
    AllOrNothing m space base count flags nodeOk := by
  intro claim
  obtain ⟨value, m', space', returned, outcome⟩ :=
    claim _ _ _ 0x400000 3 0x34 true tightSpace_wellFormed ⟨by decide, by decide⟩ (by decide) nofun
  have shown : ((vmmSpaceAlloc tightSpace.2 ⟨0x2000, [], 0, 0⟩ 0x400000 3 0x34 true).toOption.map fun result =>
      (result.1, result.2.1.phys.used 3)) = some (0, true) := by decide +kernel
  rw [returned] at shown
  obtain ⟨zero, used⟩ := Prod.mk.inj (Option.some.inj shown)
  rcases outcome with ⟨same, _⟩ | ⟨_, _, _, sameFree⟩
  · exact absurd (same.symm.trans zero) (by decide)
  · have free := (sameFree 3).mpr ⟨by decide +kernel, by decide +kernel⟩
    rw [free.2] at used
    cases used

theorem alloc_all_or_nothing_two : AllOrNothing tightSpace.2 ⟨0x2000, [], 0, 0⟩ 0x400000 2 0x34 true := by
  have range : UserRange 0x400000 2 := ⟨by decide, by decide⟩
  exact (alloc_all_or_nothing tightSpace_wellFormed.tables tightSpace_wellFormed.isRoot range (by decide)).mpr
    (Or.inr (Or.inr (Or.inr (by decide +kernel))))

end DoccrOS.Mem
