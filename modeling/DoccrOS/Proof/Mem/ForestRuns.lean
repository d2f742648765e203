import DoccrOS.Proof.Mem.ForestCalls
import DoccrOS.Proof.Mem.ListedSpaces

namespace DoccrOS.Mem
open Lib.Radix Lib

/-- The space that a call works on. -/
def Op.owner : Op → Option HeapPtr
  | .create ptr => ptr
  | .alloc ptr .. | .mapPhys ptr .. | .free ptr _ | .destroy ptr | .cowBreak ptr _ | .write ptr .. | .clone ptr .. => some ptr

/-- No page of the allocation lacks a frame. -/
def Kernel.fills (k : Kernel) (ptr : HeapPtr) (vaddr pageCount : Nat) (flags : BitVec 32) : Bool :=
  match k.spaces ptr with
  | none => true
  | some space =>
    match vmmSpaceAllocPages space.pml4Phys (pageAlignDown vaddr) (flagsToPte flags) pageCount 0 k.machine with
    | .ok (some _, _) => false
    | _ => true

/-- The calls of a run without clones: new ranges in the user half, data without the device flag, and no failed allocation. -/
def forestOp (k : Kernel) : Op → Bool
  | .alloc ptr vaddr pageCount flags _ =>
    k.newRange ptr vaddr pageCount && !hasFlag flags vmmRegionMmio && k.fills ptr vaddr pageCount flags
  | .mapPhys ptr vaddr _ pageCount _ _ => k.newRange ptr vaddr pageCount
  | .create _ | .free .. | .destroy _ => true
  | .clone .. | .cowBreak .. | .write .. => false

/-- The entry of a user-half table that links a table. -/
def Kernel.ParentEntry (k : Kernel) (table : Nat) (entry : Nat × Fin 512) : Prop :=
  (∃ root ∈ k.roots, ∃ path, userPaths.holds (path ++ [entry.2]) ∧ walk k.machine.child root path = some entry.1) ∧
    k.machine.child entry.1 entry.2 = some table

/-- Every user-half table has one space and one place in it, a table below a root has one parent entry and is not empty,
and all tables are marked used and hold no data. -/
structure Kernel.SoundTables (k : Kernel) : Prop where
  place : ∀ ptr ptr' space space' path path' table, k.spaces ptr = some space → k.spaces ptr' = some space' →
    userPaths.holds path → userPaths.holds path' → walk k.machine.child space.pml4Phys path = some table →
    walk k.machine.child space'.pml4Phys path' = some table → ptr = ptr' ∧ path = path'
  parent : ∀ table ∈ Tables k.machine k.roots, table ∉ k.roots → ∃! entry, k.ParentEntry table entry
  filled : ∀ table ∈ Tables k.machine k.roots, table ∉ k.roots → k.machine.tableEmpty table = false
  used : ∀ table ∈ Tables k.machine k.roots, k.machine.phys.used (table / pageSize) = true
  data : ∀ ptr page frame, k.DataAt ptr page frame → frame * pageSize ∉ Tables k.machine k.roots

section
variable {start m m' : Machine} {k k' : Kernel} {ptr : HeapPtr} {space space' : Space} {vaddr physAddr pageCount : Nat}
  {flags : BitVec 32} {nodeOk : Bool}

/-- A step keeps the forest and the other spaces. -/
def Kernel.Keeps (start : Machine) (k k' : Kernel) (ptr : HeapPtr) : Prop := ForestInv start k' ∧ SpacesKept ptr k k'

theorem ForestStep.keeps (inv : ForestInv start k) (step : ForestStep ptr k k') : Kernel.Keeps start k k' ptr :=
  ⟨inv.step step, step.others⟩

/-- A call that changes nothing. -/
theorem ForestInv.unchanged (inv : ForestInv start k) (live : k.spaces ptr = some space) :
    Kernel.Keeps start k (k.put ptr k.machine (some space)) ptr := by
  have same : k.put ptr k.machine (some space) = k := by
    rw [Kernel.put, ← live, Function.update_eq_self]
  rw [same]
  exact ⟨inv, SpacesKept.refl⟩

theorem Kernel.fills_spec (fills : k.fills ptr vaddr pageCount flags = true) (live : k.spaces ptr = some space) (i : Nat)
    (returned : vmmSpaceAllocPages space.pml4Phys (pageAlignDown vaddr) (flagsToPte flags) pageCount 0 k.machine =
      .ok (some i, m)) : False := by
  rw [Kernel.fills, live] at fills
  simp only [returned, Bool.false_eq_true] at fills

theorem ForestInv.alloc (inv : ForestInv start k) (newRange : k.newRange ptr vaddr pageCount = true)
    (noMmio : hasFlag flags vmmRegionMmio = false) (fills : k.fills ptr vaddr pageCount flags = true)
    (returned : k.step (.alloc ptr vaddr pageCount flags nodeOk) = .ok k') : Kernel.Keeps start k k' ptr := by
  obtain ⟨space, live, call⟩ := onSpace_ok returned
  obtain ⟨⟨value, m, space'⟩, allocated, rest⟩ := Result.bind_ok call
  injection rest with same
  rw [← same]
  obtain ⟨range, apart⟩ := newRange_spec live newRange
  unfold vmmSpaceAlloc at allocated
  by_cases empty : pageCount = 0
  · rw [if_pos empty] at allocated
    cases allocated
    exact inv.unchanged live
  rw [if_neg empty] at allocated
  cases nodeOk with
  | false =>
      cases allocated
      exact inv.unchanged live
  | true =>
      simp only [Bool.not_true, Bool.false_eq_true, if_false] at allocated
      obtain ⟨⟨failed, filled⟩, pages, rest⟩ := Result.bind_ok allocated
      have isRoot : space.pml4Phys ∈ k.roots := Kernel.isRoot live
      obtain ⟨frames, ⟨none, result⟩ | ⟨i, _, some, _⟩⟩ :=
        vmmSpaceAllocPages_spec inv.tables isRoot range (flagsToPte_page flags) pages
      · rw [none] at rest
        cases rest
        apply ForestStep.keeps inv
        apply SpaceStep.forestStep inv live
        exact result.spaceStep (inv.spaces ptr space live) inv.occupied
          (fun page frame data => inv.data_used ((Kernel.dataAt_live live).mpr data)) isRoot range apart noMmio
      · rw [some] at pages
        exact (Kernel.fills_spec fills live i pages).elim

theorem ForestInv.mapPhys (inv : ForestInv start k) (newRange : k.newRange ptr vaddr pageCount = true)
    (returned : k.step (.mapPhys ptr vaddr physAddr pageCount flags nodeOk) = .ok k') : Kernel.Keeps start k k' ptr := by
  obtain ⟨space, live, call⟩ := onSpace_ok returned
  obtain ⟨⟨value, m, space'⟩, mapped, rest⟩ := Result.bind_ok call
  injection rest with same
  rw [← same]
  obtain ⟨range, apart⟩ := newRange_spec live newRange
  have isRoot : space.pml4Phys ∈ k.roots := Kernel.isRoot live
  rcases vmmMapPhys_cases mapped with ⟨_, rfl, rfl, _⟩ | ⟨_, _, _, pages, rfl⟩
  · exact inv.unchanged live
  · have used : hasFlag (vmmRegionUsed ||| vmmRegionMmio ||| flags) vmmRegionUsed = true := by
      rw [BitVec.or_assoc]
      exact recorded_used _
    have mmio : hasFlag (vmmRegionUsed ||| vmmRegionMmio ||| flags) vmmRegionMmio = true := by
      rw [BitVec.or_assoc, recorded_mmio, hasFlag_mmio, BitVec.getLsbD_or]
      rfl
    apply ForestStep.keeps inv
    apply SpaceStep.forestStep inv live
    exact (vmmMapPhysPages_spec inv.tables isRoot range (flagsToPte_page flags) pages).spaceStep
      (inv.spaces ptr space live) inv.occupied isRoot range apart used mmio

theorem Space.selected_found {cur : Region} (selected : space.selected vaddr = some cur) :
    space.regions.find? (·.matches vaddr) = some cur := by
  rw [Space.selected] at selected
  by_cases zero : vaddr = 0
  · rw [if_pos zero] at selected
    cases selected
  · rw [if_neg zero] at selected
    exact selected

/-- A free of any address keeps the forest, and its space keeps its root. -/
theorem ForestInv.freed (inv : ForestInv start k) (live : k.spaces ptr = some space)
    (returned : vmmSpaceFree k.machine space vaddr = (m', space')) :
    Kernel.Keeps start k (k.put ptr m' (some space')) ptr ∧ space'.pml4Phys = space.pml4Phys := by
  have spaceInv := inv.spaces ptr space live
  have isRoot : space.pml4Phys ∈ k.roots := Kernel.isRoot live
  have data (page frame : Nat) (shown : space.DataAt k.machine page frame) :=
    inv.data ptr page frame ((Kernel.dataAt_live live).mpr shown)
  have outcome : FreeOutcome k.machine k.roots space vaddr m' space' := by
    apply vmmSpaceFree_spec inv.tables isRoot _ returned
    intro cur selected
    have member := List.mem_of_find?_eq_some (Space.selected_found selected)
    have range := (spaceInv.regions cur member).range
    refine ⟨range, ?_⟩
    intro i entry inside isData found
    have covers : cur.covers (cur.base / pageSize + i) := Region.covers_iff.mpr ⟨i, inside, rfl⟩
    have whole : entryAddr entry / pageSize * pageSize = entryAddr entry :=
      Nat.div_mul_cancel (Nat.dvd_of_mod_eq_zero (entryAddr_aligned entry))
    rw [← range.page_address] at found
    obtain ⟨allocated, notTable, _⟩ := data _ _ ⟨⟨cur, member, isData, covers⟩, entry, found, whole.symm⟩
    rw [whole] at allocated notTable
    exact ⟨allocated, notTable⟩
  cases outcome with
  | missing none => exact ⟨inv.unchanged live, rfl⟩
  | freed cur m' selected range =>
      obtain ⟨before, after, split, erased⟩ := find?_split (Space.selected_found selected)
      refine ⟨?_, rfl⟩
      apply ForestStep.keeps inv
      apply SpaceStep.forestStep inv live
      exact range.spaceStep spaceInv inv.occupied (fun page frame shown => (data page frame shown).2) inv.tables isRoot
        split rfl erased

theorem ForestInv.free (inv : ForestInv start k) (returned : k.step (.free ptr vaddr) = .ok k') :
    Kernel.Keeps start k k' ptr := by
  obtain ⟨space, live, call⟩ := onSpace_ok returned
  rw [← Except.ok.inj call]
  exact (inv.freed live rfl).1

/-- A new space adds an empty table. -/
theorem RootAdded.forestStep {root : Nat} (inv : ForestInv start k) (dead : k.spaces ptr = none)
    (added : RootAdded k.machine m' k.roots root) : ForestStep ptr k (k.put ptr m' (some ⟨root, [], 0, 0⟩)) := by
  have roots : ((k.put ptr m' (some ⟨root, [], 0, 0⟩)).roots : Set Nat) = insert root (k.roots : Set Nat) := by
    rw [put_roots_new dead, Finset.coe_insert]
  have noData (page frame : Nat) : ¬(k.put ptr m' (some ⟨root, [], 0, 0⟩)).DataAt ptr page frame := by
    rw [Kernel.dataAt_put]
    rintro ⟨⟨region, member, _⟩, _⟩
    cases member
  have noOld (page frame : Nat) : ¬k.DataAt ptr page frame := by
    rintro ⟨space, live, _⟩
    rw [dead] at live
    cases live
  constructor
  · apply SpacesKept.put
    exact fun owner space _ live va user => added.leaf _ (Kernel.isRoot live) va user
  · rw [roots]
    exact added.inv
  · rw [roots]
    intro table owned notRoot
    change table ∈ Tables m' (insert root k.roots) at owned
    rw [added.tables] at owned
    have old : table ∈ Tables k.machine k.roots := by
      apply owned.resolve_left
      rintro rfl
      exact notRoot (Set.mem_insert _ _)
    obtain ⟨index, present⟩ := inv.occupied table old fun isRoot => notRoot (Set.mem_insert_of_mem _ isRoot)
    refine ⟨index, ?_⟩
    change entryPresent (m'.ram table index) = true
    rw [added.ram table]
    · exact present
    · rintro rfl
      exact notRoot (Set.mem_insert _ _)
  · intro owner space value _ isNew live same
    rw [put_spaces, if_pos rfl] at isNew
    rw [← Option.some.inj isNew] at same
    apply added.notTable inv.tables
    change value.pml4Phys = root at same
    rw [← same]
    exact root_mem_nodes (Kernel.isRoot live)
  · intro space isNew
    rw [put_spaces, if_pos rfl] at isNew
    rw [← Option.some.inj isNew]
    refine ⟨fun region member => absurd member List.not_mem_nil, List.Pairwise.nil, ?_⟩
    intro page small shown
    apply absurd _ shown
    change (m'.findPte root (page * pageSize)).map _ = none
    rw [added.empty _ (userVa_page small)]
    rfl
  · rw [roots]
    intro table owned new
    change table ∈ Tables m' (insert root k.roots) at owned
    rw [added.tables] at owned
    rw [owned.resolve_right new]
    exact added.free.2
  · rw [roots]
    intro table owned gone
    apply absurd _ gone
    change table ∈ Tables m' (insert root k.roots)
    rw [added.tables]
    exact Set.mem_insert_of_mem _ owned
  · exact fun page frame data => absurd data (noData page frame)
  · exact fun page frame data => absurd data (noOld page frame)
  · rw [roots]
    intro frame new _ _
    have different : frame ≠ root / pageSize := by
      intro same
      apply new root _ (added.notTable inv.tables) same.symm
      change root ∈ Tables m' (insert root k.roots)
      rw [added.tables]
      exact Set.mem_insert _ _
    change m'.phys.used frame = _ ∧ m'.phys.pageframes frame = _
    rw [added.phys, markUsed_used, markUsed_pageframes, if_neg different, if_neg different]
    exact ⟨rfl, rfl⟩
  · change m'.phys.total = _
    rw [added.phys, markUsed_total]

theorem ForestInv.create {new : Option HeapPtr} (inv : ForestInv start k) (returned : k.step (.create new) = .ok k') :
    ForestInv start k' ∧ ∀ owner, new ≠ some owner → k'.spaces owner = k.spaces owner ∧
      ∀ space, k.spaces owner = some space → ∀ va, UserVa va →
        k'.machine.findPte space.pml4Phys va = k.machine.findPte space.pml4Phys va := by
  unfold Kernel.step at returned
  cases isNew : k.isNew new with
  | false => simp [isNew] at returned
  | true =>
      simp only [isNew, Bool.not_true, Bool.false_eq_true, if_false] at returned
      cases created : vmmSpaceCreate k.machine new.isSome with
      | mk result m =>
          rcases vmmSpaceCreate_spec inv.tables created with ⟨rfl, rfl, _⟩ | ⟨root, rfl, added⟩
          · have same : k = k' := by
              cases new <;> simp only [created] at returned <;> exact Except.ok.inj returned
            rw [← same]
            exact ⟨inv, fun _ _ => ⟨rfl, fun _ _ _ _ => rfl⟩⟩
          · cases new with
            | none => simp [vmmSpaceCreate] at created
            | some new =>
                simp only [created] at returned
                rw [← Except.ok.inj returned]
                have dead : k.spaces new = none := by simpa [Kernel.isNew] using isNew
                have step := added.forestStep inv dead
                refine ⟨inv.step step, ?_⟩
                exact fun owner different => step.others owner fun same => different (congrArg some same.symm)

theorem put_put {first second : Option Space} : (k.put ptr m first).put ptr m' second = k.put ptr m' second := by
  simp only [Kernel.put, Function.update_idem]

/-- The loop of `vmm_space_destroy` keeps the forest. The induction is on the fuel. -/
theorem ForestInv.destroyLoop {fuel : Nat} (inv : ForestInv start k) (live : k.spaces ptr = some space)
    (returned : vmmSpaceDestroyLoop fuel k.machine space = .ok (m', space')) :
    Kernel.Keeps start k (k.put ptr m' (some space')) ptr ∧ space'.pml4Phys = space.pml4Phys := by
  induction fuel generalizing k space with
  | zero => cases returned
  | succ fuel inductionHypothesis =>
      rw [vmmSpaceDestroyLoop] at returned
      cases regions : space.regions with
      | nil =>
          simp only [regions] at returned
          cases returned
          exact ⟨inv.unchanged live, rfl⟩
      | cons cur rest =>
          simp only [regions] at returned
          cases freed : vmmSpaceFree k.machine space cur.base with
          | mk m₁ space₁ =>
          rw [freed] at returned
          obtain ⟨⟨first, kept⟩, sameRoot⟩ := inv.freed live freed
          have live' : (k.put ptr m₁ (some space₁)).spaces ptr = some space₁ := by
            rw [put_spaces, if_pos rfl]
          obtain ⟨⟨second, kept'⟩, sameRoot'⟩ := inductionHypothesis first live' returned
          rw [put_put] at second kept'
          exact ⟨⟨second, kept.trans kept'⟩, sameRoot'.trans sameRoot⟩

/-- A space without regions has its root as its only table. -/
theorem ForestInv.only_root (inv : ForestInv start k) (live : k.spaces ptr = some space) (empty : space.regions = [])
    {path : List (Fin 512)} {table : Nat} (admitted : userPaths.holds path)
    (reached : walk k.machine.child space.pml4Phys path = some table) : table = space.pml4Phys := by
  have isRoot : space.pml4Phys ∈ k.roots := Kernel.isRoot live
  by_cases nonempty : path = []
  · rw [nonempty] at reached
    exact (Option.some.inj reached).symm
  · obtain ⟨va, user, _, mapped⟩ := inv.occupied.mapped inv.tables isRoot nonempty admitted reached
    have shown : look k.machine (space.pml4Phys, va / pageSize) ≠ none := by
      rw [look, Ne, Option.map_eq_none_iff, findPte_align]
      exact mapped
    obtain ⟨region, member, _⟩ := (inv.spaces ptr space live).covered _ user.small shown
    rw [empty] at member
    cases member

/-- The last table of a space without regions is released. -/
theorem RootRemoved.forestStep (inv : ForestInv start k) (live : k.spaces ptr = some space) (empty : space.regions = [])
    (removed : RootRemoved k.machine m' k.roots space.pml4Phys) : ForestStep ptr k (k.put ptr m' none) := by
  have roots : ((k.put ptr m' none).roots : Set Nat) = (k.roots : Set Nat) \ {space.pml4Phys} := by
    rw [put_roots_removed (fun _ _ different shown => inv.apart live different shown) live, Finset.coe_erase]
  have isRoot : space.pml4Phys ∈ k.roots := Kernel.isRoot live
  have noData (page frame : Nat) : ¬k.DataAt ptr page frame := by
    rw [Kernel.dataAt_live live]
    rintro ⟨⟨region, member, _⟩, _⟩
    rw [empty] at member
    cases member
  have noNew (page frame : Nat) : ¬(k.put ptr m' none).DataAt ptr page frame := by
    rintro ⟨value, shown, _⟩
    rw [put_spaces, if_pos rfl] at shown
    cases shown
  have child : m'.child = k.machine.child := by
    funext table index
    rw [Machine.child, Machine.child, removed.ram]
  have lost (table : Nat) (owned : table ∈ Tables k.machine k.roots)
      (gone : table ∉ Tables m' ((k.roots : Set Nat) \ {space.pml4Phys})) : table = space.pml4Phys := by
    obtain ⟨root, isRoot', path, admitted, reached⟩ := owned
    by_cases here : root = space.pml4Phys
    · rw [here] at reached
      exact inv.only_root live empty admitted reached
    · apply absurd _ gone
      have remains : root ∈ (k.roots : Set Nat) \ {space.pml4Phys} := ⟨isRoot', here⟩
      apply mem_nodes remains admitted
      rw [child]
      exact reached
  constructor
  · apply SpacesKept.put
    exact fun _ _ _ _ va _ => removed.leaf _ va
  · rw [roots]
    exact removed.inv
  · rw [roots]
    intro table owned notRoot
    obtain ⟨old, different⟩ := removed.tables owned
    obtain ⟨index, present⟩ := inv.occupied table old fun isRoot' => notRoot ⟨isRoot', different⟩
    refine ⟨index, ?_⟩
    change entryPresent (m'.ram table index) = true
    rw [removed.ram]
    exact present
  · intro owner value other _ shown
    rw [put_spaces, if_pos rfl] at shown
    cases shown
  · intro value shown
    rw [put_spaces, if_pos rfl] at shown
    cases shown
  · rw [roots]
    exact fun table owned new => absurd (removed.tables owned).1 new
  · rw [roots]
    intro table owned gone
    rw [lost table owned gone]
    change m'.phys.used _ = false
    rw [removed.phys, markFree_used, if_pos rfl]
  · exact fun page frame data => absurd data (noNew page frame)
  · exact fun page frame data => absurd data (noData page frame)
  · rw [roots]
    intro frame _ apart _
    have different : frame ≠ space.pml4Phys / pageSize := by
      intro same
      exact apart _ (root_mem_nodes isRoot) (fun owned => (removed.tables owned).2 rfl) same.symm
    change m'.phys.used frame = _ ∧ m'.phys.pageframes frame = _
    rw [removed.phys, markFree_used, markFree_pageframes, if_neg different, if_neg different]
    exact ⟨rfl, rfl⟩
  · change m'.phys.total = _
    rw [removed.phys, markFree_total]

theorem ForestInv.destroy (inv : ForestInv start k) (returned : k.step (.destroy ptr) = .ok k') :
    Kernel.Keeps start k k' ptr := by
  obtain ⟨space, live, call⟩ := onSpace_ok returned
  obtain ⟨m₂, destroyed, rest⟩ := Result.bind_ok call
  injection rest with same
  rw [← same]
  unfold vmmSpaceDestroy at destroyed
  obtain ⟨⟨m₁, last⟩, loop, tail⟩ := Result.bind_ok destroyed
  obtain ⟨⟨inv₁, kept₁⟩, sameRoot⟩ := inv.destroyLoop live loop
  have live₁ : (k.put ptr m₁ (some last)).spaces ptr = some last := by
    rw [put_spaces, if_pos rfl]
  have isRoot : last.pml4Phys ∈ (k.put ptr m₁ (some last)).roots := Kernel.isRoot live₁
  have nonzero : last.pml4Phys ≠ 0 := (inv₁.tables.allocated _ (root_mem_nodes isRoot)).nonzero
  simp only [ne_eq, nonzero, not_false_eq_true, if_true] at tail
  rw [← Except.ok.inj tail]
  have step := (removeRoot_spec inv₁.tables isRoot).forestStep inv₁ live₁ (vmmSpaceDestroyLoop_empty loop)
  rw [put_machine, put_put] at step
  exact ⟨inv₁.step step, kept₁.trans step.others⟩

/-- Every call of a run keeps the forest, and all spaces but its own keep their user halves. -/
theorem ForestInv.op {op : Op} (inv : ForestInv start k) (allowed : forestOp k op = true) (returned : k.step op = .ok k') :
    ForestInv start k' ∧ ∀ owner, op.owner ≠ some owner → k'.spaces owner = k.spaces owner ∧
      ∀ space, k.spaces owner = some space → ∀ va, UserVa va →
        k'.machine.findPte space.pml4Phys va = k.machine.findPte space.pml4Phys va := by
  have others {ptr : HeapPtr} (kept : Kernel.Keeps start k k' ptr) : ForestInv start k' ∧
      ∀ owner, some ptr ≠ some owner → k'.spaces owner = k.spaces owner ∧
        ∀ space, k.spaces owner = some space → ∀ va, UserVa va →
          k'.machine.findPte space.pml4Phys va = k.machine.findPte space.pml4Phys va :=
    ⟨kept.1, fun owner different => kept.2 owner fun same => different (congrArg some same.symm)⟩
  cases op with
  | create new => exact inv.create returned
  | alloc ptr vaddr pageCount flags nodeOk =>
      simp only [forestOp, Bool.and_eq_true, Bool.not_eq_true'] at allowed
      exact others (inv.alloc allowed.1.1 allowed.1.2 allowed.2 returned)
  | mapPhys ptr vaddr physAddr pageCount flags nodeOk => exact others (inv.mapPhys allowed returned)
  | free ptr vaddr => exact others (inv.free returned)
  | destroy ptr => exact others (inv.destroy returned)
  | clone _ _ _ | cowBreak _ _ | write _ _ _ => cases allowed

/-- A table below a root has one parent entry. -/
theorem ForestInv.parent (inv : ForestInv start k) {table : Nat} (owned : table ∈ Tables k.machine k.roots)
    (below : table ∉ k.roots) : ∃! entry, k.ParentEntry table entry := by
  obtain ⟨root, isRoot, path, admitted, reached⟩ := owned
  induction path using List.reverseRecOn with
  | nil =>
      rw [walk_nil] at reached
      rw [← Option.some.inj reached] at below
      exact absurd isRoot below
  | append_singleton path index _ =>
      have linked := reached
      rw [walk_snoc] at linked
      obtain ⟨parent, atParent, child⟩ := Option.bind_eq_some_iff.mp linked
      refine ⟨(parent, index), ⟨⟨root, isRoot, path, admitted, atParent⟩, child⟩, ?_⟩
      rintro entry ⟨⟨root', isRoot', path', admitted', atParent'⟩, child'⟩
      have reached' : walk k.machine.child root' (path' ++ [entry.2]) = some table := by
        rw [walk_snoc, atParent']
        exact child'
      obtain ⟨rfl, same⟩ := inv.tables.forest isRoot' isRoot admitted' admitted reached' reached
      obtain ⟨rfl, last⟩ := List.append_inj' same rfl
      rw [atParent] at atParent'
      exact Prod.ext (Option.some.inj atParent').symm (List.cons.inj last).1

theorem ForestInv.soundTables (inv : ForestInv start k) : k.SoundTables where
  place := by
    intro ptr ptr' space space' path path' table live live' admitted admitted' reached reached'
    obtain ⟨sameRoot, samePath⟩ :=
      inv.tables.forest (Kernel.isRoot live) (Kernel.isRoot live') admitted admitted' reached reached'
    exact ⟨inv.distinct ptr ptr' space space' live live' sameRoot, samePath⟩
  parent _ owned below := inv.parent owned below
  filled := by
    intro table owned below
    obtain ⟨index, present⟩ := inv.occupied table owned below
    apply decide_eq_false
    intro empty
    rw [empty index] at present
    cases present
  used _ owned := inv.table_used owned
  data ptr page frame data := (inv.data ptr page frame data).2.1

/-- Without spaces the free frames are those of the start. -/
theorem ForestInv.free_restored (inv : ForestInv start k) (dead : ∀ ptr, k.spaces ptr = none) (frame : Nat) :
    k.machine.phys.Free frame ↔ start.phys.Free frame := by
  have nobody : ¬k.takes frame := by
    rintro (⟨table, ⟨root, isRoot, _⟩, _⟩ | ⟨ptr, page, space, live, _⟩)
    · obtain ⟨ptr, space, live, _⟩ := Kernel.mem_roots.mp isRoot
      rw [dead ptr] at live
      cases live
    · rw [dead ptr] at live
      cases live
  have same := inv.used frame
  rw [or_iff_left nobody] at same
  rw [PhysMem.Free, PhysMem.Free, inv.total, ← Bool.not_eq_true, ← Bool.not_eq_true, same]

/-- In every run without clones and failed allocations the page tables of the user halves are a forest of their own frames,
a call leaves the user halves of the other spaces as they were, and without spaces all frames are free again. -/
theorem page_tables_forest {k₀ : Kernel} {ops : List Op} (boot : Boot k₀)
    (run : Run Kernel.step (fun k op => forestOp k op = true) k₀ ops k) :
    k.SoundTables ∧
      (∀ op k', forestOp k op = true → k.step op = .ok k' → ∀ owner, op.owner ≠ some owner →
        k'.spaces owner = k.spaces owner ∧ ∀ space, k.spaces owner = some space → ∀ va, UserVa va →
          k'.machine.findPte space.pml4Phys va = k.machine.findPte space.pml4Phys va) ∧
      ((∀ ptr, k.spaces ptr = none) → ∀ frame, k.machine.phys.Free frame ↔ k₀.machine.phys.Free frame) := by
  have inv : ForestInv k₀.machine k := by
    apply run.invariant
    · intro before op after held permitted returned
      exact (held.op permitted returned).1
    · exact boot.forestInv
  exact ⟨inv.soundTables, fun op k' allowed returned => (inv.op allowed returned).2, inv.free_restored⟩

end

/-- Two spaces with a data range each, of which the first one is freed. -/
def twoTrees : List Op :=
  [.create (some (heapPtr 0)), .create (some (heapPtr 1)), .alloc (heapPtr 0) 0x400000 2 0x34 true,
    .mapPhys (heapPtr 1) 0x400000 0x1000 1 0x34 true, .alloc (heapPtr 1) 0x600000 1 0x34 true, .free (heapPtr 0) 0x400000]

/-- The calls on the first two spaces. -/
def firstTwo (k : Kernel) (op : Op) : Bool :=
  forestOp k op && (op.owner == some (heapPtr 0) || op.owner == some (heapPtr 1))

/-- A run on the first two spaces leaves no space when these are gone. -/
theorem firstTwo_dead {start : Machine} {k₀ k : Kernel} {ops : List Op} (inv : ForestInv start k₀)
    (empty : ∀ ptr, k₀.spaces ptr = none) (run : Run Kernel.step (fun k op => firstTwo k op = true) k₀ ops k)
    (dead : k.spaces (heapPtr 0) = none ∧ k.spaces (heapPtr 1) = none) (ptr : HeapPtr) : k.spaces ptr = none := by
  have kept : ForestInv start k ∧ ∀ ptr, ptr ≠ heapPtr 0 → ptr ≠ heapPtr 1 → k.spaces ptr = none := by
    apply run.invariant fun k => ForestInv start k ∧ ∀ ptr, ptr ≠ heapPtr 0 → ptr ≠ heapPtr 1 → k.spaces ptr = none
    · rintro before op after ⟨held, others⟩ permitted returned
      simp only [firstTwo, Bool.and_eq_true, Bool.or_eq_true, beq_iff_eq] at permitted
      obtain ⟨inv', same⟩ := held.op permitted.1 returned
      refine ⟨inv', ?_⟩
      intro ptr notFirst notSecond
      rw [(same ptr _).1]
      · exact others ptr notFirst notSecond
      · rcases permitted.2 with first | second
        · rw [first]
          exact fun clash => notFirst (Option.some.inj clash).symm
        · rw [second]
          exact fun clash => notSecond (Option.some.inj clash).symm
    · exact ⟨inv, fun ptr _ _ => empty ptr⟩
  by_cases first : ptr = heapPtr 0
  · rw [first]
    exact dead.1
  · by_cases second : ptr = heapPtr 1
    · rw [second]
      exact dead.2
    · exact kept.2 ptr first second

theorem page_tables_forest_two : (∃ k, Run Kernel.step (fun k op => forestOp k op = true) smallKernel twoTrees k ∧
      k.SoundTables) ∧
    ∃ k, Run Kernel.step (fun k op => forestOp k op = true) smallKernel
        (twoTrees ++ [.destroy (heapPtr 1), .destroy (heapPtr 0)]) k ∧
      ∀ frame, k.machine.phys.Free frame ↔ smallKernel.machine.phys.Free frame := by
  have checked : (exec Kernel.step firstTwo twoTrees smallKernel).any (fun k =>
      (exec Kernel.step firstTwo [.destroy (heapPtr 1), .destroy (heapPtr 0)] k).any fun k =>
        (k.spaces (heapPtr 0)).isNone && (k.spaces (heapPtr 1)).isNone) = true := by decide +kernel
  obtain ⟨k, run, later⟩ := Run.exists_of_check checked
  obtain ⟨k', rest, gone⟩ := Run.exists_of_check later
  simp only [Bool.and_eq_true, Option.isNone_iff_eq_none] at gone
  have dead := firstTwo_dead smallKernel_boot.forestInv smallKernel_boot.noSpaces (run.append rest) gone
  have allowed (k : Kernel) (op : Op) (both : firstTwo k op = true) : forestOp k op = true :=
    (Bool.and_eq_true_iff.mp both).1
  have run₁ := run.mono allowed
  have run₂ := (run.append rest).mono allowed
  exact ⟨⟨k, run₁, (page_tables_forest smallKernel_boot run₁).1⟩, k', run₂,
    (page_tables_forest smallKernel_boot run₂).2.2 dead⟩

end DoccrOS.Mem
