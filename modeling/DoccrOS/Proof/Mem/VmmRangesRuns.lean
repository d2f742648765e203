import DoccrOS.Proof.Mem.VmmRanges

namespace DoccrOS.Mem
open Lib

section
variable {v v' : VmmRanges} {left right list : List (HeapPtr × Region)} {ptr : HeapPtr} {region : Region}
  {size base : Nat}

/-- A used region is not merged. -/
theorem NodeList.mergeWithNext_used (nodes : NodeList v (left ++ (ptr, region) :: right))
    (used : hasFlag region.flags vmmRegionUsed = true) : mergeWithNext v ptr = .ok v := by
  have here := nodes.node
  cases right with
  | nil => simp only [mergeWithNext, here, firstPtr]
  | cons pair right =>
      obtain ⟨next, nextRegion⟩ := pair
      have nodes' : NodeList v ((left ++ [(ptr, region)]) ++ (next, nextRegion) :: right) := by simpa using nodes
      simp only [mergeWithNext, here, firstPtr_cons, nodes'.node, mergeNodes, used, Bool.true_or, if_true]

/-- A free region is merged with the free region behind it. -/
theorem Ranges.mergeWithNext (ranges : Ranges v (left ++ (ptr, region) :: right))
    (free : hasFlag region.flags vmmRegionUsed = false) (behind : Coalesced (regionPieces right)) :
    ∃ v' size right', mergeWithNext v ptr = .ok v' ∧ Ranges v' (left ++ (ptr, { region with size := size }) :: right') ∧
      Coalesced (regionPieces right') ∧ (∀ piece ∈ (regionPieces right').head?, piece.used = true) ∧ region.size ≤ size ∧
      right'.Sublist right ∧ ∀ pair ∈ right, hasFlag pair.2.flags vmmRegionUsed = true → pair ∈ right' := by
  have here := ranges.nodes.node
  cases right with
  | nil =>
      refine ⟨v, region.size, [], ?_, ranges, behind, by simp [regionPieces], le_rfl, List.Sublist.refl _, fun _ member _ => member⟩
      simp only [Mem.mergeWithNext, here, firstPtr]
  | cons pair right =>
      obtain ⟨next, nextRegion⟩ := pair
      have nodes' : NodeList v ((left ++ [(ptr, region)]) ++ (next, nextRegion) :: right) := by simpa using ranges.nodes
      cases nextUsed : hasFlag nextRegion.flags vmmRegionUsed with
      | true =>
          refine ⟨v, region.size, (next, nextRegion) :: right, ?_, ranges, behind, by simp [regionPiece, nextUsed], le_rfl,
            List.Sublist.refl _, fun _ member _ => member⟩
          simp only [Mem.mergeWithNext, here, firstPtr_cons, nodes'.node, mergeNodes, nextUsed, Bool.or_true, if_true]
      | false =>
          obtain ⟨v', merged, ranges'⟩ := ranges.merge free nextUsed
          rw [regionPieces_cons] at behind
          obtain ⟨_, alone, _, apart⟩ := coalesced_middle.mp (by simpa using behind : Coalesced ([] ++ _ :: _))
          refine ⟨v', _, right, merged, ranges', alone, ?_, Nat.le_add_right _ _, List.sublist_cons_self _ _, ?_⟩
          · intro piece first
            simpa [regionPiece, nextUsed] using apart piece first
          · intro pair member used
            rcases List.mem_cons.mp member with isNext | late
            · rw [isNext, nextUsed] at used
              cases used
            · exact late

/-- The used regions other than the ones at `base` stay as they are. -/
structure Released (base : Nat) (list list' : List (HeapPtr × Region)) : Prop where
  used : ∀ pair ∈ list, hasFlag pair.2.flags vmmRegionUsed = true → pair.2.base ≠ base → pair ∈ list'
  sized : (∀ pair ∈ list, 0 < pair.2.size) → ∀ pair ∈ list', 0 < pair.2.size

theorem Released.refl : Released base list list := ⟨fun _ member _ _ => member, id⟩

/-- A free region takes the place of a region at `base` and of regions that were free. -/
theorem Released.replace (before middle : List (HeapPtr × Region)) {right right' : List (HeapPtr × Region)} {region' : Region}
    (freed : ∀ pair ∈ middle, hasFlag pair.2.flags vmmRegionUsed = true → pair.2.base = base)
    (size : (∀ pair ∈ middle, 0 < pair.2.size) → 0 < region'.size) (sublist : right'.Sublist right)
    (kept : ∀ pair ∈ right, hasFlag pair.2.flags vmmRegionUsed = true → pair ∈ right') :
    Released base (before ++ (middle ++ right)) (before ++ (ptr, region') :: right') := by
  constructor
  · intro pair member used other
    rw [List.mem_append, List.mem_append] at member
    rw [List.mem_append, List.mem_cons]
    rcases member with early | here | late
    · exact Or.inl early
    · exact absurd (freed pair here used) other
    · exact Or.inr (Or.inr (kept pair late used))
  · intro positive pair member
    rw [List.forall_mem_append, List.forall_mem_append] at positive
    rw [List.mem_append, List.mem_cons] at member
    rcases member with early | here | late
    · exact positive.1 pair early
    · rw [here]
      exact size positive.2.1
    · exact positive.2.2 pair (sublist.subset late)

/-- `vmm_free` marks a region free and merges it with its free neighbours. -/
theorem Ranges.vmmFree (ranges : Ranges v list) (coalesced : Coalesced (regionPieces list)) (base : Nat) :
    ∃ v' list', vmmFree v base = .ok v' ∧ Ranges v' list' ∧ Coalesced (regionPieces list') ∧
      firstPtr none list' = firstPtr none list ∧ Released base list list' := by
  by_cases zero : base = 0
  · exact ⟨v, list, by rw [Mem.vmmFree, if_pos zero], ranges, coalesced, rfl, Released.refl⟩
  · have searched := ranges.nodes.linked.seek (fun region => region.base == base && hasFlag region.flags vmmRegionUsed)
      ranges.nodes.length_le
    rw [← ranges.nodes.head] at searched
    rw [Mem.vmmFree, if_neg zero, searched]
    cases found : list.find? fun pair => pair.2.base == base && hasFlag pair.2.flags vmmRegionUsed with
    | none => exact ⟨v, list, rfl, ranges, coalesced, rfl, Released.refl⟩
    | some pair =>
        obtain ⟨ptr, region⟩ := pair
        have passes := List.find?_some found
        simp only [Bool.and_eq_true, beq_iff_eq] at passes
        obtain ⟨left, right, split⟩ := List.append_of_mem (List.mem_of_find?_eq_some found)
        subst split
        have released := ranges.release passes.2
        rw [regionPieces_append, regionPieces_cons, coalesced_middle] at coalesced
        have nowFree : hasFlag vmmRegionFree vmmRegionUsed = false := by decide
        obtain ⟨w, size, right', merged, ranges', behind, first, grown, sublist, kept⟩ :=
          released.mergeWithNext nowFree coalesced.2.1
        have freed : ∀ pair ∈ [(ptr, region)], hasFlag pair.2.flags vmmRegionUsed = true → pair.2.base = base := by
          intro pair member _
          rw [List.mem_singleton.mp member]
          exact passes.1
        have positive (sized : ∀ pair ∈ [(ptr, region)], 0 < pair.2.size) : 0 < size :=
          Nat.lt_of_lt_of_le (sized _ (List.mem_singleton_self _)) grown
        simp only [Option.map_some, ranges.nodes.node, merged, Result.ok_bind, ranges'.nodes.node, Option.bind_some]
        cases reversed : left using List.reverseRecOn with
        | nil =>
            subst reversed
            refine ⟨w, _, rfl, ranges', ?_, rfl, Released.replace [] [(ptr, region)] freed positive sublist kept⟩
            rw [regionPieces_append, regionPieces_cons, coalesced_middle]
            exact ⟨List.IsChain.nil, behind, nofun, fun piece member => Or.inr (first piece member)⟩
        | append_singleton before last =>
            obtain ⟨prev, prevRegion⟩ := last
            subst reversed
            rw [lastPtr_append]
            have ahead := coalesced.1
            rw [regionPieces_append, regionPieces_cons, coalesced_middle] at ahead
            cases prevUsed : hasFlag prevRegion.flags vmmRegionUsed with
            | true =>
                have ranges₁ := ranges'
                rw [List.append_assoc] at ranges₁
                refine ⟨w, _, ranges₁.nodes.mergeWithNext_used prevUsed, ranges', ?_, firstPtr_middle,
                  Released.replace (before ++ [(prev, prevRegion)]) [(ptr, region)] freed positive sublist kept⟩
                rw [regionPieces_append, regionPieces_cons, coalesced_middle]
                refine ⟨coalesced.1, behind, ?_, fun piece member => Or.inr (first piece member)⟩
                intro piece member
                left
                rw [regionPieces_append, List.getLast?_append] at member
                simp [regionPieces, regionPiece] at member
                rw [← member]
                exact prevUsed
            | false =>
                rw [List.append_assoc] at ranges'
                obtain ⟨w', merged', ranges''⟩ := ranges'.merge prevUsed nowFree
                refine ⟨w', _, merged', ranges'', ?_, ?_, ?_⟩
                · rw [regionPieces_append, regionPieces_cons, coalesced_middle]
                  refine ⟨ahead.1, behind, ?_, fun piece member => Or.inr (first piece member)⟩
                  intro piece member
                  exact ahead.2.2.1 piece member
                · rw [List.append_assoc]
                  exact firstPtr_middle
                · have both : Released base (before ++ ([(prev, prevRegion), (ptr, region)] ++ right))
                      (before ++ (prev, { prevRegion with size := prevRegion.size + size }) :: right') := by
                    apply Released.replace before _ _ _ sublist kept
                    · intro pair member used
                      rcases List.mem_cons.mp member with isPrev | here
                      · rw [isPrev, prevUsed] at used
                        cases used
                      · exact freed pair here used
                    · intro sized
                      exact Nat.lt_of_lt_of_le (sized (prev, prevRegion) List.mem_cons_self) (Nat.le_add_right _ _)
                  simpa using both

theorem pageAlignUp_dvd (size : Nat) : pageSize ∣ pageAlignUp size := Nat.dvd_sub_mod _

/-- The store that marks a region used overwrites an earlier store to its node. -/
theorem vmmAllocUse_set (v : VmmRanges) (node : Node HeapPtr Region) (flags : BitVec 32) :
    vmmAllocUse (v.set ptr { node with value := { node.value with size := size } }) ptr
      { node with value := { node.value with size := size } } size flags = vmmAllocUse v ptr node size flags := by
  simp only [vmmAllocUse, VmmRanges.set, Function.update_idem]

/-- A free region of a list gives its first `request` bytes to a used one. -/
structure Carved (request : Nat) (split : Option HeapPtr) (list list' : List (HeapPtr × Region)) (ptr : HeapPtr)
    (old region : Region) : Prop where
  taken : (ptr, old) ∈ list
  free : hasFlag old.flags vmmRegionUsed = false
  used : hasFlag region.flags vmmRegionUsed = true
  base : region.base = old.base
  size : region.size = request
  stands : (ptr, region) ∈ list'
  whole : split = none → old.size = request
  kept : ∀ pair ∈ list, hasFlag pair.2.flags vmmRegionUsed = true → pair ∈ list'
  others : ∀ pair ∈ list', pair = (ptr, region) ∨ pair ∈ list ∨ 0 < pair.2.size

/-- Nothing is allocated for want of a region or of a node. -/
def Refused (size : Nat) (split : Option HeapPtr) (list : List (HeapPtr × Region)) : Prop :=
  size = 0 ∨ split = none ∨ ∀ pair ∈ list, vmmAllocFits (pageAlignUp size) pair.2 = false

/-- The used regions stay when a free one is replaced. -/
theorem kept_middle {right' : List (HeapPtr × Region)} {other : HeapPtr × Region}
    (free : hasFlag region.flags vmmRegionUsed = false) (kept : ∀ pair ∈ right, pair ∈ right') :
    ∀ pair ∈ left ++ (ptr, region) :: right, hasFlag pair.2.flags vmmRegionUsed = true → pair ∈ left ++ other :: right' := by
  intro pair member used
  rw [List.mem_append, List.mem_cons] at member ⊢
  rcases member with early | here | late
  · exact Or.inl early
  · rw [here, free] at used
    cases used
  · exact Or.inr (Or.inr (kept pair late))

/-- `vmm_alloc` takes the first free region that is large enough, in whole or in part. -/
theorem Ranges.vmmAlloc (ranges : Ranges v list) (coalesced : Coalesced (regionPieces list)) (size : Nat) (flags : BitVec 32)
    {split : Option HeapPtr} (fresh : ∀ new ∈ split, v.nodes new = none) :
    ∃ base v' list', vmmAlloc v size flags split = .ok (base, v') ∧ Ranges v' list' ∧ Coalesced (regionPieces list') ∧
      firstPtr none list' = firstPtr none list ∧
      ((base = 0 ∧ v' = v ∧ list' = list ∧ Refused size split list) ∨
        ∃ ptr old region, Carved (pageAlignUp size) split list list' ptr old region ∧ base = region.base) := by
  by_cases zero : size = 0
  · exact ⟨0, v, list, by rw [Mem.vmmAlloc, if_pos zero], ranges, coalesced, rfl, Or.inl ⟨rfl, rfl, rfl, Or.inl zero⟩⟩
  · rw [Mem.vmmAlloc, if_neg zero, Refused]
    have aligned := pageAlignUp_dvd size
    generalize pageAlignUp size = request at aligned
    have searched := ranges.nodes.linked.seek (vmmAllocFits request) ranges.nodes.length_le
    rw [← ranges.nodes.head] at searched
    cases found : list.find? fun pair => vmmAllocFits request pair.2 with
    | none =>
        rw [found] at searched
        refine ⟨0, v, list, by simp only [searched, Option.map_none], ranges, coalesced, rfl, Or.inl ⟨rfl, rfl, rfl, ?_⟩⟩
        right
        right
        simpa using found
    | some pair =>
        obtain ⟨ptr, region⟩ := pair
        rw [found] at searched
        have passes : vmmAllocFits request region = true := by simpa using List.find?_some found
        have member := List.mem_of_find?_eq_some found
        have whole := ranges.whole _ member
        obtain ⟨left, right, isSplit⟩ := List.append_of_mem member
        subst isSplit
        simp only [vmmAllocFits, Bool.and_eq_true, Bool.not_eq_true', decide_eq_true_eq] at passes
        simp only [searched, Option.map_some, ranges.nodes.node]
        rw [regionPieces_append, regionPieces_cons] at coalesced
        by_cases large : region.size - request ≥ 0x1000
        · rw [if_pos large]
          cases split with
          | none =>
              refine ⟨0, v, _, rfl, ranges, ?_, rfl, Or.inl ⟨rfl, rfl, rfl, Or.inr (Or.inl rfl)⟩⟩
              rw [regionPieces_append]
              exact coalesced
          | some new =>
              have isFresh := fresh new rfl
              obtain ⟨w, divided, cut⟩ := ranges.cut passes.1 isFresh aligned passes.2
              have used := cut.use flags passes.1
              refine ⟨region.base, _, _, ?_, used, ?_, firstPtr_middle, Or.inr ⟨ptr, region,
                ⟨region.base, request, vmmRegionUsed ||| flags⟩, ?_, rfl⟩⟩
              · simp only [isFresh, Option.isSome_none, Bool.false_eq_true, if_false, divided, Result.ok_bind, pure,
                  Except.pure, firstPtr_cons]
                rw [← vmmAllocUse_set w ⟨lastPtr none left, some new, region⟩]
              · rw [regionPieces_append, regionPieces_cons]
                exact coalesced.cut passes.1 (recorded_used flags)
              · refine ⟨member, passes.1, recorded_used flags, rfl, rfl, by simp, nofun, ?_, ?_⟩
                · exact kept_middle passes.1 fun pair late => List.mem_cons_of_mem _ late
                · intro pair inside
                  rw [List.mem_append, List.mem_cons, List.mem_cons] at inside
                  rcases inside with early | here | isNew | late
                  · exact Or.inr (Or.inl (List.mem_append_left _ early))
                  · exact Or.inl here
                  · right
                    right
                    rw [isNew]
                    exact Nat.lt_of_lt_of_le (by decide) large
                  · exact Or.inr (Or.inl (List.mem_append_right _ (List.mem_cons_of_mem _ late)))
        · rw [if_neg large]
          have exact : request = region.size := by
            obtain ⟨pages, isWhole⟩ := whole
            obtain ⟨pages', isAligned⟩ := aligned
            simp only [pageSize] at isWhole isAligned
            omega
          subst exact
          refine ⟨region.base, _, _, rfl, ranges.use flags passes.1, ?_, firstPtr_middle, Or.inr ⟨ptr, region,
            { region with flags := vmmRegionUsed ||| flags }, ?_, rfl⟩⟩
          · rw [regionPieces_append, regionPieces_cons]
            exact coalesced.use (recorded_used flags)
          · refine ⟨member, passes.1, recorded_used flags, rfl, rfl, by simp, fun _ => rfl, ?_, ?_⟩
            · exact kept_middle passes.1 fun pair late => late
            · intro pair inside
              rw [List.mem_append, List.mem_cons] at inside
              rcases inside with early | here | late
              · exact Or.inr (Or.inl (List.mem_append_left _ early))
              · exact Or.inl here
              · exact Or.inr (Or.inl (List.mem_append_right _ (List.mem_cons_of_mem _ late)))

/-- The loop at the start of `vmm_init` frees the nodes of the list. -/
theorem vmmInitFree_linked {fuel : Nat} {before : Option HeapPtr} (linked : Linked v.nodes before list none)
    (nodup : (list.map Prod.fst).Nodup) (owned : ∀ ptr, ptr ∉ list.map Prod.fst → v.nodes ptr = none)
    (enough : list.length ≤ fuel) :
    vmmInitFree fuel v (firstPtr none list) = .ok { v with nodes := fun _ => none } := by
  induction list generalizing v before fuel with
  | nil =>
      have empty : v.nodes = fun _ => none := funext fun ptr => owned ptr (by simp)
      rw [← empty]
      cases fuel <;> rfl
  | cons pair list ih =>
      obtain ⟨ptr, region⟩ := pair
      cases fuel with
      | zero => exact absurd enough (Nat.not_succ_le_zero _)
      | succ fuel =>
          rw [linked_cons] at linked
          rw [List.map_cons, List.nodup_cons] at nodup
          simp only [firstPtr, vmmInitFree, linked.1]
          apply ih
          · refine linked.2.congr ?_
            intro other member
            rw [regionFree_nodes, if_neg]
            intro same
            rw [same] at member
            exact nodup.1 member
          · exact nodup.2
          · intro other outside
            rw [regionFree_nodes]
            by_cases same : other = ptr
            · rw [if_pos same]
            · rw [if_neg same]
              exact owned other (by simp [same] at outside ⊢; exact outside)
          · exact Nat.le_of_succ_le_succ enough

/-- The state after `vmm_init` has one region. -/
def vmmFirst (ptr : HeapPtr) : VmmRanges :=
  ⟨Function.update (fun _ => none) ptr (some ⟨none, none, ⟨vmmBase, vmmLimit - vmmBase, vmmRegionFree⟩⟩), some ptr,
    vmmLimit - vmmBase, 0, vmmLimit - vmmBase, 1, 0⟩

theorem NodeList.vmmInit (nodes : NodeList v list) (ptr : HeapPtr) : vmmInit v (some ptr) = .ok (vmmFirst ptr) := by
  have freed := vmmInitFree_linked nodes.linked nodes.nodup nodes.owned nodes.length_le
  rw [← nodes.head] at freed
  rw [Mem.vmmInit, freed, Result.ok_bind]
  rfl

/-- The only region after `vmm_init`. -/
def firstRegion : Region := ⟨vmmBase, vmmLimit - vmmBase, vmmRegionFree⟩

theorem vmmFirst_ranges (ptr : HeapPtr) : Ranges (vmmFirst ptr) [(ptr, firstRegion)] := by
  have free : hasFlag vmmRegionFree vmmRegionUsed = false := by decide
  refine ⟨⟨rfl, ⟨?_, trivial⟩, List.nodup_singleton _, ?_⟩, ⟨rfl, ?_⟩, ?_, ?_, ?_⟩
  · simp only [vmmFirst, Function.update_self, firstPtr, firstRegion]
  · intro other outside
    have different : other ≠ ptr := by simpa using outside
    simp only [vmmFirst, Function.update_of_ne different]
  · simp only [regionPiece, firstRegion, List.map_nil, Tiles, vmmBase, vmmLimit]
  · rw [List.forall_mem_singleton]
    exact ⟨0x600000000, by simp only [firstRegion, vmmLimit, vmmBase, pageSize]⟩
  · rw [List.forall_mem_singleton]
    exact fun _ => rfl
  · simp [vmmGetStats, vmmFirst, rangeStats, regionPieces, regionPiece, free, usedSize, freeSize, usedCount, firstRegion]

/-- The region list is a coalesced tiling whose first node is fixed. -/
def Tiled (v : VmmRanges) (ptr : HeapPtr) : Prop :=
  v.head = some ptr ∧ ∃ list, Ranges v list ∧ Coalesced (regionPieces list)

theorem vmmFirst_tiled (ptr : HeapPtr) : Tiled (vmmFirst ptr) ptr := by
  exact ⟨rfl, _, vmmFirst_ranges ptr, List.isChain_singleton _⟩

/-- Each call of `vmm_alloc` and `vmm_free` returns and keeps the tiling. -/
theorem Tiled.step {op : RangeOp} (tiled : Tiled v ptr) (allowed : v.allocates op = true) :
    ∃ v', v.step op = .ok v' ∧ Tiled v' ptr := by
  obtain ⟨head, list, ranges, coalesced⟩ := tiled
  cases op with
  | init node => cases allowed
  | alloc size flags split =>
      have fresh : ∀ new ∈ split, v.nodes new = none := by
        simpa [VmmRanges.allocates, VmmRanges.allowed, Option.all_eq_true] using allowed
      obtain ⟨base, v', list', called, ranges', coalesced', first, _⟩ := ranges.vmmAlloc coalesced size flags fresh
      refine ⟨v', by rw [VmmRanges.step, called]; rfl, ?_, list', ranges', coalesced'⟩
      rw [ranges'.nodes.head, first, ← ranges.nodes.head, head]
  | free base =>
      obtain ⟨v', list', called, ranges', coalesced', first, _⟩ := ranges.vmmFree coalesced base
      refine ⟨v', called, ?_, list', ranges', coalesced'⟩
      rw [ranges'.nodes.head, first, ← ranges.nodes.head, head]

/-- Before `vmm_init` there are no regions. -/
theorem vmmBoot_step {op : RangeOp} (allowed : vmmBoot.allocates op = true) : vmmBoot.step op = .ok vmmBoot := by
  cases op with
  | init node => cases allowed
  | alloc size flags split =>
      by_cases zero : size = 0
      · simp only [VmmRanges.step, vmmAlloc, if_pos zero]
        rfl
      · simp only [VmmRanges.step, vmmAlloc, if_neg zero]
        rfl
  | free base =>
      by_cases zero : base = 0
      · simp only [VmmRanges.step, vmmFree, if_pos zero]
      · simp only [VmmRanges.step, vmmFree, if_neg zero]
        rfl

/-- The states that the range allocator reaches. -/
def Reached (v : VmmRanges) : Prop := v = vmmBoot ∨ ∃ ptr, Tiled v ptr

theorem Reached.nodes (reached : Reached v) : ∃ list, NodeList v list := by
  rcases reached with isBoot | ⟨ptr, _, list, ranges, _⟩
  · refine ⟨[], ?_⟩
    rw [isBoot]
    exact ⟨rfl, trivial, List.nodup_nil, fun _ _ => rfl⟩
  · exact ⟨list, ranges.nodes⟩

theorem Reached.init {node : Option HeapPtr} (reached : Reached v) (returned : vmmInit v node = .ok v') :
    ∃ ptr, v' = vmmFirst ptr := by
  obtain ⟨list, nodes⟩ := reached.nodes
  cases node with
  | none =>
      obtain ⟨w, _, failed⟩ := Result.bind_ok returned
      cases failed
  | some ptr =>
      rw [nodes.vmmInit ptr] at returned
      exact ⟨ptr, (Except.ok.inj returned).symm⟩

theorem Reached.step {op : RangeOp} (reached : Reached v) (allowed : v.allowed op = true) (returned : v.step op = .ok v') :
    Reached v' := by
  have calls (allocates : v.allocates op = true) : Reached v' := by
    rcases reached with isBoot | ⟨ptr, tiled⟩
    · rw [isBoot] at allocates returned
      rw [vmmBoot_step allocates] at returned
      exact Or.inl (Except.ok.inj returned).symm
    · obtain ⟨v'', returned', tiled'⟩ := tiled.step allocates
      rw [returned'] at returned
      rw [← Except.ok.inj returned]
      exact Or.inr ⟨ptr, tiled'⟩
  cases op with
  | init node =>
      obtain ⟨ptr, isFirst⟩ := reached.init returned
      rw [isFirst]
      exact Or.inr ⟨ptr, vmmFirst_tiled ptr⟩
  | alloc size flags split => exact calls allowed
  | free base => exact calls allowed

/-- A tiling without used regions is the state after `vmm_init`. -/
theorem Ranges.first (ranges : Ranges v list) (coalesced : Coalesced (regionPieces list)) (head : v.head = some ptr)
    (unused : ∀ region ∈ list, hasFlag region.2.flags vmmRegionUsed = false) : v = vmmFirst ptr := by
  have isFirst := ranges.nodes.head
  rw [head] at isFirst
  cases list with
  | nil => cases isFirst
  | cons pair list =>
      have alone : regionPieces list = [] := by
        refine coalesced.single ?_
        intro piece member
        obtain ⟨region, inside, isPiece⟩ := List.mem_map.mp (show piece ∈ (pair :: list).map regionPiece from member)
        rw [← isPiece]
        exact unused region inside
      rw [List.map_eq_nil_iff.mp alone] at ranges
      obtain ⟨other, region⟩ := pair
      have same : ptr = other := Option.some.inj isFirst
      subst same
      have isRegion : region = firstRegion := by
        have flags := ranges.free _ (List.mem_singleton_self _) (unused _ List.mem_cons_self)
        obtain ⟨base, size⟩ := ranges.tiles
        simp only [regionPiece, List.map_nil, Tiles] at base size
        have isSize : region.size = vmmLimit - vmmBase := by omega
        exact Region.mk.injEq .. ▸ ⟨base, isSize, flags⟩
      have others := ranges.nodes.owned
      have here := ranges.nodes.linked.1
      have sameNodes : v.nodes = (vmmFirst ptr).nodes := by
        funext query
        by_cases isHere : query = ptr
        · rw [isHere, here, isRegion]
          simp only [vmmFirst, Function.update_self, firstPtr, firstRegion]
        · rw [others query (by simpa using isHere)]
          simp only [vmmFirst, Function.update_of_ne isHere]
      have stats := ranges.stats
      rw [isRegion, ← (vmmFirst_ranges ptr).stats] at stats
      simp only [vmmGetStats, VmmStats.mk.injEq] at stats
      cases v
      simp only at head sameNodes stats
      simp only [vmmFirst, VmmRanges.mk.injEq]
      exact ⟨sameNodes, head, stats⟩

end

/-- After `vmm_init` the region list tiles the kernel range without free neighbours, the statistics are exact, every call
returns, and once no region is used the state is the one that `vmm_init` left. -/
theorem vmm_ranges_tiled {earlier ops : List RangeOp} {v v₀ v₁ : VmmRanges} {node : Option HeapPtr}
    (before : Run VmmRanges.step (fun v op => v.allowed op = true) vmmBoot earlier v) (started : vmmInit v node = .ok v₀)
    (run : Run VmmRanges.step (fun v op => v.allocates op = true) v₀ ops v₁) :
    (∃ list, Ranges v₁ list ∧ Coalesced (regionPieces list) ∧
      (vmmGetStats v₁).usedVirtual + (vmmGetStats v₁).freeVirtual = (vmmGetStats v₁).totalVirtual ∧
      ((∀ region ∈ list, hasFlag region.2.flags vmmRegionUsed = false) → v₁ = v₀)) ∧
    ∀ op, v₁.allocates op = true → ∃ v₂, v₁.step op = .ok v₂ := by
  have reached : Reached v := before.invariant Reached (fun _ _ _ => Reached.step) (Or.inl rfl)
  obtain ⟨ptr, isFirst⟩ := reached.init started
  have tiled : Tiled v₁ ptr := by
    refine run.invariant (Tiled · ptr) ?_ ?_
    · intro before op after tiled allowed returned
      obtain ⟨after', returned', tiled'⟩ := tiled.step allowed
      rw [returned'] at returned
      rw [← Except.ok.inj returned]
      exact tiled'
    · rw [isFirst]
      exact vmmFirst_tiled ptr
  refine ⟨?_, ?_⟩
  · obtain ⟨head, list, ranges, coalesced⟩ := tiled
    refine ⟨list, ranges, coalesced, ?_, ?_⟩
    · rw [ranges.stats]
      exact ranges.total
    · intro unused
      rw [isFirst]
      exact ranges.first coalesced head unused
  · intro op allowed
    obtain ⟨v₂, returned, _⟩ := tiled.step allowed
    exact ⟨v₂, returned⟩

/-- Two allocations and a failed one are freed again. -/
theorem vmm_ranges_tiled_two_regions : ∃ v₀ v₁, vmmInit vmmBoot (some ⟨0, by decide⟩) = .ok v₀ ∧
    Run VmmRanges.step (fun v op => v.allocates op = true) v₀
      [.alloc 5000 0 (some ⟨64, by decide⟩), .alloc 100 2 (some ⟨128, by decide⟩), .alloc 100 2 none,
        .free vmmBase, .free (vmmBase + 1), .free (vmmBase + 8192)] v₁ ∧
    (vmmGetStats v₁).usedVirtual + (vmmGetStats v₁).freeVirtual = (vmmGetStats v₁).totalVirtual := by
  have nodes : NodeList vmmBoot [] := ⟨rfl, trivial, List.nodup_nil, fun _ _ => rfl⟩
  have started := nodes.vmmInit ⟨0, by decide⟩
  have checked : (exec VmmRanges.step VmmRanges.allocates
      [.alloc 5000 0 (some ⟨64, by decide⟩), .alloc 100 2 (some ⟨128, by decide⟩), .alloc 100 2 none,
        .free vmmBase, .free (vmmBase + 1), .free (vmmBase + 8192)]
      (vmmFirst ⟨0, by decide⟩)).any (fun _ => true) = true := by decide +kernel
  obtain ⟨v₁, run, _⟩ := Run.exists_of_check checked
  obtain ⟨⟨list, _, _, sum, _⟩, _⟩ := vmm_ranges_tiled (Run.nil vmmBoot) started run
  exact ⟨_, v₁, started, run, sum⟩

end DoccrOS.Mem
