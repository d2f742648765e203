import DoccrOS.Proof.Packages.ElfImage

namespace DoccrOS.Packages
open Lib Lib.Radix Mem

/-- The free frames were free before, and nobody wrote to them. -/
def Untouched (before m : Machine) : Prop :=
  ∀ frame, m.phys.Free frame → before.phys.Free frame ∧ m.ram (frame * pageSize) = before.ram (frame * pageSize)

section
variable {shield roots : Set Nat} {m m' m₁ n : Machine} {space space' : Space} {places : Finset Place} {root : Nat}
  {image : Image} {ph : Phdr} {nodeOk : Bool} {outcomes : LoadOutcomes}

theorem Untouched.refl (m : Machine) : Untouched m m := fun _ free => ⟨free, rfl⟩

theorem Untouched.trans {m'' : Machine} (first : Untouched m m') (second : Untouched m' m'') : Untouched m m'' := by
  intro frame free
  obtain ⟨free', same⟩ := second frame free
  obtain ⟨free'', same'⟩ := first frame free'
  exact ⟨free'', same.trans same'⟩

/-- A segment that is loaded is loaded in the same way by a machine that differs only in pages that are no tables. -/
theorem loadSegment_twin (twins : Twins Set.univ roots m n) (inv : LoadInv shield roots m space places)
    (user : ph.pType = ptLoad → ph.Accepted image → ph.InUser)
    (returned : loadSegment image m space ph nodeOk = .ok (true, m', space')) :
    ∃ n', loadSegment image n space ph nodeOk = .ok (true, n', space') ∧ Twins Set.univ roots m' n' ∧ Untouched n n' := by
  unfold Packages.loadSegment at returned ⊢
  by_cases isLoad : ph.pType = ptLoad
  · rw [if_neg (not_not.mpr isLoad)] at returned ⊢
    split at returned
    · cases returned
    rename_i bounds
    split at returned
    · cases returned
    rename_i sizes
    rw [if_neg bounds, if_neg sizes]
    by_cases none : ph.pgCount = 0
    · simp only [vmmSpaceAlloc, none, if_true] at returned
      cases returned
    · have accepted : ph.Accepted image := ⟨Nat.le_of_not_lt bounds, Nat.le_of_not_lt sizes, none⟩
      have inUser := user isLoad accepted
      obtain ⟨⟨mapped, m₁, space₁⟩, allocated, rest⟩ := Result.bind_ok returned
      have down : pageAlignDown ph.vaBase = ph.vaBase := inUser.range.alignDown
      by_cases failed : mapped = 0
      · simp only [failed, if_true] at rest
        cases rest
      · have outcome := vmmSpaceAlloc_spec inv.memory.data.tables inv.isRoot (down.symm ▸ inUser.range) allocated
        rw [down] at outcome
        obtain ⟨rfl, frames, filled⟩ := outcome.filled failed
        obtain ⟨inv₁, _⟩ := inv.alloc inUser.range filled
        obtain ⟨m₂, fills, stores, _⟩ := inv₁.fillTwin (DataStores.refl m₁ _) inUser filled image accepted.sizes
        obtain ⟨n₁, allocated', twins₁⟩ := twins.alloc inv.memory.data.tables inv.isRoot (down.symm ▸ inUser.range) allocated
          failed
        obtain ⟨tables', _, _⟩ := twins.tables inv.memory.data.tables
        have outcome' := vmmSpaceAlloc_spec tables' inv.isRoot (down.symm ▸ inUser.range) allocated'
        rw [down] at outcome'
        obtain ⟨_, frames', filled'⟩ := outcome'.filled failed
        obtain ⟨n₂, fills', stores', _⟩ := inv₁.fillTwin twins₁ inUser filled image accepted.sizes
        simp only [failed, if_false] at rest
        rw [fills] at rest
        cases rest
        refine ⟨n₂, ?_, ?_, ?_⟩
        · simp only [allocated', Result.ok_bind, failed, if_false, fills']
          rfl
        · have apart : ∀ cell ∈ {cell | ∃ place, (pageView m₁ (places ∪ rangePlaces space.pml4Phys ph.vaBase ph.pgCount)).map
              place = some cell}, cell ∉ Tables m₁ roots := by
            rintro cell ⟨place, tracked⟩
            exact (inv₁.memory.data.data place cell tracked).2
          have tables := (stores.tables inv₁.memory.data.tables apart).2.1
          refine ⟨?_, ?_, ?_⟩
          · intro page outside
            have owned : page ∈ Tables m₁ roots := by
              by_contra notOwned
              rw [← tables] at notOwned
              exact outside ⟨Set.mem_univ _, notOwned⟩
            have notCell := fun tracked => apart page tracked owned
            rw [stores'.ram page notCell, stores.ram page notCell, twins₁.ram_table owned]
          · rw [stores'.phys, stores.phys, DataStores.phys twins₁]
          · rw [stores'.kernelPml4, stores.kernelPml4, DataStores.kernelPml4 twins₁]
        · intro frame free
          rw [stores'.phys] at free
          obtain ⟨free', same⟩ := allocated_unused filled' free
          refine ⟨free', (stores'.ram _ ?_).trans same⟩
          rintro ⟨place, tracked⟩
          rw [DataStores.phys twins₁] at free
          exact inv₁.memory.data.free_unmapped free place tracked
  · rw [if_pos isLoad] at returned ⊢
    cases returned
    exact ⟨n, rfl, twins, Untouched.refl n⟩

/-- The invariant behind a header that was loaded. -/
theorem LoadInv.next (inv : LoadInv shield roots m space places)
    (outcome : SegmentOutcome shield roots image m space places ph true m' space') :
    ∃ places', LoadInv shield roots m' space' places' := by
  cases outcome with
  | skipped _ => exact ⟨places, inv⟩
  | loaded _ _ _ _ _ _ _ inv' _ _ _ => exact ⟨_, inv'⟩

/-- The header loop loads the same headers in both machines. The induction is on the headers that are left. -/
theorem loadSegments_twin {nodes : Nat → Bool} {left i : Nat} (user : UserSegments image) (all : i + left = image.ePhnum)
    (accepted : ∀ j, j < i → (image.phdr j).pType = ptLoad → (image.phdr j).Accepted image)
    (twins : Twins Set.univ roots m n) (inv : LoadInv shield roots m space places)
    (returned : loadSegments image nodes left i m space = .ok (true, m', space')) :
    ∃ n', loadSegments image nodes left i n space = .ok (true, n', space') ∧ Twins Set.univ roots m' n' ∧ Untouched n n' := by
  induction left generalizing i m n space places with
  | zero =>
      rw [Packages.loadSegments] at returned ⊢
      cases returned
      exact ⟨n, rfl, twins, Untouched.refl n⟩
  | succ left inductionHypothesis =>
      rw [Packages.loadSegments] at returned ⊢
      obtain ⟨⟨first, m₁, space₁⟩, segment, rest⟩ := Result.bind_ok returned
      have userHere := user i (by omega) accepted
      cases first with
      | false => cases rest
      | true =>
          have outcome := inv.segment userHere segment
          obtain ⟨places₁, inv₁⟩ := inv.next outcome
          obtain ⟨n₁, segment', twins₁, untouched₁⟩ := loadSegment_twin twins inv userHere segment
          have accepted' : ∀ j, j < i + 1 → (image.phdr j).pType = ptLoad → (image.phdr j).Accepted image := by
            intro j early isLoad
            by_cases here : j = i
            · rw [here] at isLoad ⊢
              cases outcome with
              | skipped other => exact absurd isLoad other
              | loaded _ _ _ _ passes => exact passes
            · exact accepted j (by omega) isLoad
          obtain ⟨n', rest', twins', untouched⟩ := inductionHypothesis (by omega) accepted' twins₁ inv₁ rest
          refine ⟨n', ?_, twins', untouched₁.trans untouched⟩
          rw [segment']
          exact rest'

/-- A new space gets the same root in both machines. -/
theorem vmmSpaceCreate_twin {granted : Bool} (memory : MemInv (kernelPages m roots) m roots places)
    (stores : DataStores m n (unusedPages m)) (created : vmmSpaceCreate m granted = (some space, m₁)) :
    ∃ n₁, vmmSpaceCreate n granted = (some space, n₁) ∧ Twins Set.univ (insert space.pml4Phys roots) m₁ n₁ ∧
      Untouched n n₁ := by
  obtain ⟨_, twins⟩ := memory.twin stores
  obtain ⟨tables', _, _⟩ := twins.tables memory.data.tables
  rcases vmmSpaceCreate_spec memory.data.tables created with ⟨none, _⟩ | ⟨root, isRoot, added⟩
  · cases none
  cases isRoot
  have kernelTable : n.ram m.kernelPml4 = m.ram m.kernelPml4 :=
    stores.ram _ fun free => (memory.shielded m.kernelPml4 (Or.inl rfl)).2.1 free
  cases created' : vmmSpaceCreate n granted with
  | mk result n₁ =>
      have sameResult : result = some ⟨root, [], 0, 0⟩ ∧ n₁.ram root = m₁.ram root := by
        unfold vmmSpaceCreate at created created'
        cases granted with
        | false => cases created
        | true =>
            rw [stores.phys] at created'
            cases taken : physmemAllocTo m.phys 1 with
            | mk phys p =>
                simp only [taken, Bool.not_true, Bool.false_eq_true, if_false] at created created'
                split at created
                · cases created
                · rename_i nonzero
                  rw [if_neg nonzero] at created'
                  cases created
                  cases created'
                  refine ⟨rfl, ?_⟩
                  funext index
                  simp only [copyKernelHalf, Machine.zeroPage, Function.update_self, stores.kernelPml4]
                  by_cases here : m.kernelPml4 = root
                  · rw [here, Function.update_self, Function.update_self]
                  · rw [Function.update_of_ne here, Function.update_of_ne here, kernelTable]
      obtain ⟨rfl, sameRoot⟩ := sameResult
      rcases vmmSpaceCreate_spec tables' created' with ⟨none, _⟩ | ⟨root', isRoot', added'⟩
      · cases none
      cases isRoot'
      refine ⟨n₁, rfl, ⟨?_, ?_, ?_⟩, ?_⟩
      · intro page outside
        have owned : page ∈ Tables m₁ (insert root roots) := by
          by_contra notOwned
          exact outside ⟨Set.mem_univ _, notOwned⟩
        by_cases here : page = root
        · rw [here]
          exact sameRoot
        · rw [added.tables] at owned
          rw [added'.ram page here, added.ram page here, twins.ram_table (owned.resolve_left here)]
      · rw [added'.phys, added.phys, stores.phys]
      · rw [added'.kernelPml4, added.kernelPml4, stores.kernelPml4]
      · intro frame free
        rw [added'.phys] at free
        have different : frame ≠ root / pageSize := by
          rintro rfl
          have used := free.2
          rw [markUsed_used, if_pos rfl] at used
          cases used
        have free' : n.phys.Free frame := by
          refine ⟨free.1, ?_⟩
          have unused := free.2
          rw [markUsed_used, if_neg different] at unused
          exact unused
        refine ⟨free', added'.ram _ ?_⟩
        intro same
        apply different
        rw [← same, page_div]

/-- A load that succeeds takes the same steps in a machine that differs only in its free frames, and its stack reads what they
held. -/
theorem elfLoad_twin (user : UserSegments image) (memory : MemInv (kernelPages m roots) m roots places)
    (stores : DataStores m n (unusedPages m)) (returned : elfLoad image m outcomes = .ok (some space, m')) :
    ∃ n', elfLoad image n outcomes = .ok (some space, n') ∧ ∀ va, InRange userStackBase userStackPages va →
      ∃ frame, m.phys.Free frame ∧ userRead m' space va = some (m.loadByte (frame * pageSize) (va % pageSize)) ∧
        userRead n' space va = some (n.loadByte (frame * pageSize) (va % pageSize)) := by
  unfold elfLoad at returned ⊢
  split at returned
  · cases returned
  rename_i filled
  split at returned
  · cases returned
  rename_i checked
  split at returned
  · cases returned
  rename_i granted
  rw [if_neg filled, if_neg checked, if_neg granted]
  cases created : vmmSpaceCreate m outcomes.space with
  | mk new m₁ =>
  cases new with
  | none =>
      simp only [created] at returned
      cases returned
  | some space₁ =>
      simp only [created] at returned
      obtain ⟨n₁, created', twins₁, untouched'⟩ := vmmSpaceCreate_twin memory stores created
      obtain ⟨_, same, _, untouched⟩ := vmmSpaceCreate_twin memory (DataStores.refl m _) created
      rw [created] at same
      cases same
      rcases vmmSpaceCreate_spec memory.data.tables created with ⟨none, _⟩ | ⟨root, isRoot, added⟩
      · cases none
      cases isRoot
      have inv₁ : LoadInv (kernelPages m roots) (insert root roots) m₁ ⟨root, [], 0, 0⟩ places :=
        .created memory added
      obtain ⟨⟨loaded, m₂, space₂⟩, loads, rest⟩ := Result.bind_ok returned
      cases loaded with
      | false =>
          obtain ⟨m₃, _, last⟩ := Result.bind_ok rest
          cases last
      | true =>
          have none : ∀ j, j < 0 → (image.phdr j).pType = ptLoad → (image.phdr j).Accepted image :=
            fun j early => absurd early (Nat.not_lt_zero j)
          obtain ⟨n₂, loads', twins₂, untouched₂'⟩ := loadSegments_twin user (Nat.zero_add _) none twins₁ inv₁ loads
          obtain ⟨_, same, _, untouched₂⟩ :=
            loadSegments_twin user (Nat.zero_add _) none (DataStores.refl m₁ _) inv₁ loads
          rw [loads] at same
          cases same
          have inv₂ : ∃ places₂, LoadInv (kernelPages m roots) (insert root roots) m₂ space₂ places₂ := by
            rcases loadSegments_spec user (P := fun _ _ _ => True) (fun _ _ _ _ _ _ _ _ _ _ _ => trivial) (Nat.zero_add _)
              (fun j early => absurd early (Nat.not_lt_zero j)) inv₁ trivial loads with ⟨failed, _⟩ | ⟨_, inv₂, _⟩
            · cases failed
            · exact inv₂
          obtain ⟨places₂, inv₂⟩ := inv₂
          obtain ⟨⟨stack, m₃, space₃⟩, allocated, rest⟩ := Result.bind_ok rest
          have down : pageAlignDown userStackBase = userStackBase := stackRange.alignDown
          simp only at rest
          split at rest
          · obtain ⟨m₄, _, last⟩ := Result.bind_ok rest
            cases last
          · rename_i works
            cases rest
            have success : stack ≠ 0 := by
              rintro rfl
              exact works (by simp)
            obtain ⟨_, n₃, allocated', cells⟩ := twins₂.allocFresh inv₂.memory.data.tables
              (fun frame free _ => ((untouched.trans untouched₂) frame free).2)
              (fun frame free _ => ((untouched'.trans untouched₂') frame (DataStores.phys twins₂ ▸ free)).2)
              inv₂.isRoot (down.symm ▸ stackRange) allocated success
            refine ⟨n₃, ?_, ?_⟩
            · rw [created']
              simp only [loads', Result.ok_bind, allocated', Bool.not_true, Bool.false_eq_true, if_false]
              rw [if_neg works]
              rfl
            · intro va inside
              rw [down] at cells
              obtain ⟨frame, free, cell⟩ := cells va inside
              have wasFree := ((untouched.trans untouched₂) frame free).1
              obtain ⟨stale, stale'⟩ := cell.stale wasFree
              refine ⟨frame, wasFree, ?_, ?_⟩
              · rw [cell.read, loadByte_eq, loadByte_eq, stale]
              · rw [cell.read', loadByte_eq, loadByte_eq, stale']

end

end DoccrOS.Packages
