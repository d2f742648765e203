import DoccrOS.Proof.Mem.Kheap

namespace DoccrOS.Mem
open Lib

/-- The bytes of the payload of a block are the same. -/
def PayloadSame (mem mem' : Bytes) (block : Nat × BlockInfo) : Prop :=
  ∀ i, i < block.2.size → mem' (block.1 + blockHeader + i) = mem (block.1 + blockHeader + i)

/-- The block is one of the used blocks of a list. -/
def UsedIn (list : List (Nat × BlockInfo)) (block : Nat × BlockInfo) : Prop := block ∈ list ∧ block.2.used = true

section
variable {h h' : Kheap} {left right list : List (Nat × BlockInfo)} {addr size fuel : Nat} {info : BlockInfo}
  {block : Nat × BlockInfo}

theorem PayloadSame.trans {mem mem' mem'' : Bytes} (first : PayloadSame mem mem' block)
    (second : PayloadSame mem' mem'' block) : PayloadSame mem mem'' block :=
  fun i inside => (second i inside).trans (first i inside)

/-- A payload lies apart from all headers. -/
theorem payload_apart {start stop : Nat} (tiles : Tiles blockHeader start (blockPieces list) stop) (member : block ∈ list)
    {record : Nat} (isRecord : record ∈ list.map Prod.fst) :
    block.1 + blockHeader + block.2.size ≤ record ∨ record + blockHeader ≤ block.1 + blockHeader := by
  by_cases same : record = block.1
  · right
    omega
  · obtain ⟨other, member', isOther⟩ := List.mem_map.mp isRecord
    rw [← isOther] at same ⊢
    have apart := tiles_apart tiles member member' (Ne.symm same)
    omega

/-- Stores to headers keep the payloads. -/
theorem Blocks.payload (blocks : Blocks h' list) {mem : Bytes} (same : SameApart blockHeader mem h'.mem (list.map Prod.fst))
    (member : block ∈ list) : PayloadSame mem h'.mem block := by
  intro i inside
  apply same
  intro record isRecord
  have apart := payload_apart blocks.tiles member isRecord
  omega

/-- The forward loop ends before a used block. -/
theorem Blocks.mergeForward (blocks : Blocks h (left ++ (addr, info) :: right)) (free : info.used = false)
    (enough : right.length < fuel) :
    ∃ h' info' right', kheapMergeForward fuel h addr = .ok h' ∧ Blocks h' (left ++ (addr, info') :: right') ∧
      info'.used = false ∧ right' <:+ right ∧ (∀ block ∈ right'.head?, block.2.used = true) ∧
      (∀ block, UsedIn right block → UsedIn right' block) ∧
      ∀ block, UsedIn (left ++ right) block → PayloadSame h.mem h'.mem block := by
  induction right generalizing h info fuel with
  | nil =>
      obtain ⟨fuel, rfl⟩ := Nat.exists_eq_succ_of_ne_zero (Nat.ne_zero_of_lt enough)
      refine ⟨h, info, [], ?_, blocks, free, List.suffix_rfl, (by rintro _ ⟨⟩), fun _ used => used, fun _ _ _ _ => rfl⟩
      rw [kheapMergeForward, blocks.node]
      rfl
  | cons second right ih =>
      obtain ⟨next, nextInfo⟩ := second
      obtain ⟨fuel, rfl⟩ := Nat.exists_eq_succ_of_ne_zero (Nat.ne_zero_of_lt enough)
      have blocks₁ : Blocks h ((left ++ [(addr, info)]) ++ (next, nextInfo) :: right) := by simpa using blocks
      have nextUsed : (blockAt h.mem next).value.used = nextInfo.used := by rw [blocks₁.node]
      rw [kheapMergeForward, blocks.node]
      simp only [firstPtr, nextUsed]
      cases stops : nextInfo.used with
      | true =>
          refine ⟨h, info, (next, nextInfo) :: right, rfl, blocks, free, List.suffix_rfl, ?_, fun _ used => used,
            fun _ _ _ _ => rfl⟩
          intro block isHead
          injection isHead with isHead
          rw [← isHead]
          exact stops
      | false =>
          obtain ⟨absorbed, same⟩ := blocks.absorb free stops
          obtain ⟨h', info', right', returned, blocks', free', suffix, boundary, used, payload⟩ :=
            ih absorbed free (Nat.lt_of_succ_lt_succ enough)
          refine ⟨h', info', right', returned, blocks', free', suffix.trans (List.suffix_cons _ _), boundary, ?_, ?_⟩
          · rintro block ⟨member, isUsed⟩
            refine used block ⟨?_, isUsed⟩
            rcases List.mem_cons.mp member with isNext | later
            · rw [isNext, stops] at isUsed
              cases isUsed
            · exact later
          · rintro block ⟨member, isUsed⟩
            have kept : block ∈ left ++ right := by
              rcases List.mem_append.mp member with early | late
              · exact List.mem_append_left _ early
              · rcases List.mem_cons.mp late with isNext | later
                · rw [isNext, stops] at isUsed
                  cases isUsed
                · exact List.mem_append_right _ later
            have inAbsorbed : block ∈ left ++ (addr, { info with size := info.size + blockHeader + nextInfo.size }) :: right := by
              rcases List.mem_append.mp kept with early | late
              · exact List.mem_append_left _ early
              · exact List.mem_append_right _ (List.mem_cons_of_mem _ late)
            exact (absorbed.payload same inAbsorbed).trans (payload block ⟨kept, isUsed⟩)

/-- The backward loop ends behind a used block. -/
theorem Blocks.mergeBackward (blocks : Blocks h (left ++ (addr, info) :: right)) (free : info.used = false)
    (enough : left.length < fuel) :
    ∃ h' addr' info' left', kheapMergeBackward fuel h addr = .ok h' ∧ Blocks h' (left' ++ (addr', info') :: right) ∧
      info'.used = false ∧ left' <+: left ∧ (∀ block ∈ left'.getLast?, block.2.used = true) ∧
      (∀ block, UsedIn left block → UsedIn left' block) ∧
      ∀ block, UsedIn (left ++ right) block → PayloadSame h.mem h'.mem block := by
  induction left using List.reverseRecOn generalizing h addr info fuel with
  | nil =>
      obtain ⟨fuel, rfl⟩ := Nat.exists_eq_succ_of_ne_zero (Nat.ne_zero_of_lt enough)
      refine ⟨h, addr, info, [], ?_, blocks, free, List.prefix_rfl, nofun, fun _ used => used, fun _ _ _ _ => rfl⟩
      rw [kheapMergeBackward, blocks.node]
      rfl
  | append_singleton left first ih =>
      obtain ⟨prev, prevInfo⟩ := first
      obtain ⟨fuel, rfl⟩ := Nat.exists_eq_succ_of_ne_zero (Nat.ne_zero_of_lt enough)
      have blocks₁ : Blocks h (left ++ (prev, prevInfo) :: (addr, info) :: right) := by simpa using blocks
      have prevUsed : (blockAt h.mem prev).value.used = prevInfo.used := by rw [blocks₁.node]
      have last : lastPtr none (left ++ [(prev, prevInfo)]) = some prev := lastPtr_append
      rw [kheapMergeBackward, blocks.node]
      simp only [last, prevUsed]
      cases stops : prevInfo.used with
      | true =>
          refine ⟨h, addr, info, left ++ [(prev, prevInfo)], rfl, blocks, free, List.prefix_rfl, ?_, fun _ used => used,
            fun _ _ _ _ => rfl⟩
          intro block isLast
          rw [List.getLast?_concat] at isLast
          injection isLast with isLast
          rw [← isLast]
          exact stops
      | false =>
          obtain ⟨absorbed, same⟩ := blocks₁.absorb stops free
          have shorter : left.length < fuel := by
            rw [List.length_append, List.length_singleton] at enough
            omega
          obtain ⟨h', addr', info', left', returned, blocks', free', isPrefix, boundary, used, payload⟩ :=
            ih absorbed stops shorter
          refine ⟨h', addr', info', left', returned, blocks', free', isPrefix.trans (List.prefix_append _ _), boundary,
            ?_, ?_⟩
          · rintro block ⟨member, isUsed⟩
            refine used block ⟨?_, isUsed⟩
            rcases List.mem_append.mp member with early | isPrev
            · exact early
            · rw [List.mem_singleton.mp isPrev, stops] at isUsed
              cases isUsed
          · rintro block ⟨member, isUsed⟩
            have kept : block ∈ left ++ right := by
              rw [List.append_assoc] at member
              rcases List.mem_append.mp member with early | late
              · exact List.mem_append_left _ early
              · rcases List.mem_cons.mp late with isPrev | later
                · rw [isPrev, stops] at isUsed
                  cases isUsed
                · exact List.mem_append_right _ later
            have inAbsorbed : block ∈ left ++ (prev, { prevInfo with size := prevInfo.size + blockHeader + info.size }) :: right := by
              rcases List.mem_append.mp kept with early | late
              · exact List.mem_append_left _ early
              · exact List.mem_append_right _ (List.mem_cons_of_mem _ late)
            exact (absorbed.payload same inAbsorbed).trans (payload block ⟨kept, isUsed⟩)

/-- The neighbours of a free block between used ones and the rest of a coalesced list. -/
theorem coalesced_blocks {left' right' : List (Nat × BlockInfo)} {info' : BlockInfo} {addr' : Nat}
    (coalescedLeft : Coalesced (blockPieces left)) (coalescedRight : Coalesced (blockPieces right))
    (isPrefix : left' <+: left) (suffix : right' <:+ right) (before : ∀ block ∈ left'.getLast?, block.2.used = true)
    (behind : ∀ block ∈ right'.head?, block.2.used = true) :
    Coalesced (blockPieces (left' ++ (addr', info') :: right')) := by
  rw [blockPieces_append, blockPieces_cons, coalesced_middle]
  refine ⟨ List.IsChain.prefix coalescedLeft (isPrefix.map blockPiece), List.IsChain.suffix coalescedRight
    (suffix.map blockPiece), ?_, ?_⟩
  · intro piece isLast
    rw [blockPieces, List.getLast?_map, Option.mem_def, Option.map_eq_some_iff] at isLast
    obtain ⟨block, isLast, same⟩ := isLast
    rw [← same]
    exact Or.inl (before block isLast)
  · intro piece isHead
    rw [blockPieces, List.head?_map, Option.mem_def, Option.map_eq_some_iff] at isHead
    obtain ⟨block, isHead, same⟩ := isHead
    rw [← same]
    exact Or.inr (behind block isHead)

/-- The two loops leave no free neighbours, and they keep the used blocks. -/
theorem Blocks.mergeFreeBlocks (blocks : Blocks h (left ++ (addr, info) :: right)) (free : info.used = false)
    (coalescedLeft : Coalesced (blockPieces left)) (coalescedRight : Coalesced (blockPieces right)) :
    ∃ h' list', kheapMergeFreeBlocks h addr = .ok h' ∧ Blocks h' list' ∧ Coalesced (blockPieces list') ∧
      (∀ block, UsedIn list' block ↔ UsedIn (left ++ right) block) ∧
      ∀ block, UsedIn (left ++ right) block → PayloadSame h.mem h'.mem block := by
  have length := blocks.length_le
  rw [List.length_append, List.length_cons] at length
  obtain ⟨h₁, info₁, right', forward, blocks₁, free₁, suffix, behind, usedRight, payload₁⟩ :=
    blocks.mergeForward free (show right.length < heapSize by omega)
  obtain ⟨h₂, addr', info', left', backward, blocks₂, free₂, isPrefix, before, usedLeft, payload₂⟩ :=
    blocks₁.mergeBackward free₁ (show left.length < heapSize by omega)
  refine ⟨h₂, left' ++ (addr', info') :: right', ?_, blocks₂,
    coalesced_blocks coalescedLeft coalescedRight isPrefix suffix before behind, ?_, ?_⟩
  · rw [kheapMergeFreeBlocks, forward, Result.ok_bind, backward]
  · intro block
    constructor
    · rintro ⟨member, isUsed⟩
      refine ⟨?_, isUsed⟩
      rcases List.mem_append.mp member with early | late
      · exact List.mem_append_left _ (isPrefix.subset early)
      · rcases List.mem_cons.mp late with isHere | later
        · rw [isHere, free₂] at isUsed
          cases isUsed
        · exact List.mem_append_right _ (suffix.subset later)
    · rintro ⟨member, isUsed⟩
      refine ⟨?_, isUsed⟩
      rcases List.mem_append.mp member with early | late
      · exact List.mem_append_left _ (usedLeft block ⟨early, isUsed⟩).1
      · exact List.mem_append_right _ (List.mem_cons_of_mem _ (usedRight block ⟨late, isUsed⟩).1)
  · rintro block ⟨member, isUsed⟩
    refine (payload₁ block ⟨member, isUsed⟩).trans (payload₂ block ⟨?_, isUsed⟩)
    rcases List.mem_append.mp member with early | late
    · exact List.mem_append_left _ early
    · exact List.mem_append_right _ (usedRight block ⟨late, isUsed⟩).1

/-- A block of the list in front of its rest. -/
theorem Blocks.split_at (blocks : Blocks h list) (member : (addr, info) ∈ list) :
    ∃ left right, list = left ++ (addr, info) :: right ∧ ∀ block, UsedIn (left ++ right) block ↔
      UsedIn list block ∧ block.1 ≠ addr := by
  obtain ⟨left, right, split⟩ := List.append_of_mem member
  have nodup := blocks.nodup
  rw [split] at nodup
  have apart := nodup_middle left [(addr, info)] right (by simpa using nodup)
  refine ⟨left, right, split, ?_⟩
  intro block
  rw [split]
  constructor
  · rintro ⟨inside, isUsed⟩
    rcases List.mem_append.mp inside with early | late
    · exact ⟨⟨by simp [early], isUsed⟩, fun same =>
        (apart.1 _ (List.mem_map_of_mem early)).1 (by simp [same])⟩
    · exact ⟨⟨by simp [late], isUsed⟩, fun same => apart.2.1 _ (List.mem_map_of_mem late) (by simp [same])⟩
  · rintro ⟨⟨inside, isUsed⟩, different⟩
    refine ⟨?_, isUsed⟩
    rcases List.mem_append.mp inside with early | late
    · exact List.mem_append_left _ early
    · rcases List.mem_cons.mp late with isHere | later
      · exact absurd (congrArg Prod.fst isHere) different
      · exact List.mem_append_right _ later

/-- `kfree` of a used block removes it from the used blocks and keeps the other payloads. -/
theorem Blocks.kfree (blocks : Blocks h list) (coalesced : Coalesced (blockPieces list))
    (used : UsedIn list (addr, info)) :
    ∃ h' list', kfree h (some (addr + blockHeader)) = .ok h' ∧ Blocks h' list' ∧ Coalesced (blockPieces list') ∧
      (∀ block, UsedIn list' block ↔ UsedIn list block ∧ block.1 ≠ addr) ∧
      ∀ block, UsedIn list block → block.1 ≠ addr → PayloadSame h.mem h'.mem block := by
  obtain ⟨left, right, split, others⟩ := blocks.split_at used.1
  have inside := blocks.inside used.1
  have hereInfo := blocks.info _ used.1
  rw [split] at blocks coalesced
  obtain ⟨released, same⟩ := blocks.release used.2
  rw [blockPieces_append, blockPieces_cons, coalesced_middle] at coalesced
  obtain ⟨h', list', merged, blocks', coalesced', used', payload⟩ :=
    released.mergeFreeBlocks rfl coalesced.1 coalesced.2.1
  refine ⟨h', list', ?_, blocks', coalesced', fun block => (used' block).trans (others block), ?_⟩
  · have blk : sub64 (addr + blockHeader) blockHeader = addr := by
      simp only [heapStart, heapSize] at inside
      rw [sub64_of_le (Nat.le_add_left _ _) (by omega), Nat.add_sub_cancel]
    have magic : (blockAt h.mem addr).value.magic = blockMagic := by
      rw [blocks.node]
      exact hereInfo.1
    have isUsed : (blockAt h.mem addr).value.used = true := by
      rw [blocks.node]
      exact used.2
    rw [Mem.kfree]
    simp only [blk, magic, isUsed, ne_eq, not_true_eq_false, if_false, Bool.not_true, Bool.false_eq_true]
    rw [merged]
  · intro block isUsed different
    have kept := (others block).mpr ⟨isUsed, different⟩
    refine (released.payload same ?_).trans (payload block kept)
    rcases List.mem_append.mp kept.1 with early | late
    · exact List.mem_append_left _ early
    · exact List.mem_append_right _ (List.mem_cons_of_mem _ late)

/-- The result of a successful `kmalloc`: one block more is used, and the payloads of the others stay. -/
structure Grants (h h' : Kheap) (list list' : List (Nat × BlockInfo)) (size addr : Nat) (info : BlockInfo) : Prop where
  blocks : Blocks h' list'
  coalesced : Coalesced (blockPieces list')
  fits : size ≤ info.size
  fresh : ∀ other, ¬UsedIn list (addr, other)
  used : ∀ block, UsedIn list' block ↔ UsedIn list block ∨ block = (addr, info)
  payload : ∀ block, UsedIn list block → PayloadSame h.mem h'.mem block

theorem coalesced_use (coalesced : Coalesced (blockPieces (left ++ (addr, info) :: right))) {info' : BlockInfo}
    (used : info'.used = true) : Coalesced (blockPieces (left ++ (addr, info') :: right)) := by
  rw [blockPieces_append, blockPieces_cons] at coalesced ⊢
  exact coalesced.use used

theorem coalesced_cut (coalesced : Coalesced (blockPieces (left ++ (addr, info) :: right))) (free : info.used = false)
    {info' rest : BlockInfo} {new : Nat} (used : info'.used = true) :
    Coalesced (blockPieces (left ++ (addr, info') :: (new, rest) :: right)) := by
  rw [blockPieces_append, blockPieces_cons] at coalesced ⊢
  exact coalesced.cut free used

/-- The used blocks when a free block of the list gets used. -/
theorem usedIn_replace (left right more : List (Nat × BlockInfo)) (block : Nat × BlockInfo) {info' : BlockInfo}
    (free : info.used = false) (used : info'.used = true) (unused : ∀ block ∈ more, block.2.used = false) :
    UsedIn (left ++ (addr, info') :: (more ++ right)) block ↔
      UsedIn (left ++ (addr, info) :: right) block ∨ block = (addr, info') := by
  constructor
  · rintro ⟨member, isUsed⟩
    rcases List.mem_append.mp member with early | late
    · exact Or.inl ⟨List.mem_append_left _ early, isUsed⟩
    · rcases List.mem_cons.mp late with isHere | late
      · exact Or.inr isHere
      · rcases List.mem_append.mp late with isNew | behind
        · rw [unused block isNew] at isUsed
          cases isUsed
        · exact Or.inl ⟨List.mem_append_right _ (List.mem_cons_of_mem _ behind), isUsed⟩
  · intro either
    rcases either with ⟨member, isUsed⟩ | isHere
    · refine ⟨?_, isUsed⟩
      rcases List.mem_append.mp member with early | late
      · exact List.mem_append_left _ early
      · rcases List.mem_cons.mp late with isHere | behind
        · rw [isHere, free] at isUsed
          cases isUsed
        · exact List.mem_append_right _ (List.mem_cons_of_mem _ (List.mem_append_right _ behind))
    · rw [isHere]
      exact ⟨List.mem_append_right _ List.mem_cons_self, used⟩

/-- A block with one address is used or free. -/
theorem Blocks.free_unused (blocks : Blocks h (left ++ (addr, info) :: right)) (free : info.used = false)
    (other : BlockInfo) : ¬UsedIn (left ++ (addr, info) :: right) (addr, other) := by
  rintro ⟨member, isUsed⟩
  have apart := nodup_middle left [(addr, info)] right (by simpa using blocks.nodup)
  rcases List.mem_append.mp member with early | late
  · exact (apart.1 _ (List.mem_map_of_mem early)).1 (by simp)
  · rcases List.mem_cons.mp late with isHere | behind
    · rw [(Prod.mk.inj isHere).2, free] at isUsed
      cases isUsed
    · exact apart.2.1 _ (List.mem_map_of_mem behind) (by simp)

/-- The two ways in which `kmalloc` uses the block that it found. -/
theorem Blocks.grant (blocks : Blocks h (left ++ (addr, info) :: right))
    (coalesced : Coalesced (blockPieces (left ++ (addr, info) :: right))) (free : info.used = false) (whole : 8 ∣ size)
    (fits : size ≤ info.size) (cuts : Bool) (room : cuts = true → size + blockHeader ≤ info.size) :
    ∃ list' info', Grants h (kmallocUse (if cuts then kmallocSplit h addr size else h) addr)
      (left ++ (addr, info) :: right) list' size addr info' := by
  cases cuts with
  | false =>
      obtain ⟨used, same⟩ := blocks.use free
      refine ⟨_, { info with used := true }, used, coalesced_use coalesced rfl, fits, blocks.free_unused free, ?_, ?_⟩
      · exact fun block => usedIn_replace left right [] block free rfl (by simp)
      · intro block isUsed
        exact used.payload same ((usedIn_replace left right [] block free rfl (by simp)).mpr (Or.inl isUsed)).1
  | true =>
      obtain ⟨cut, same⟩ := blocks.split free whole (room rfl)
      obtain ⟨used, same'⟩ := cut.use free
      have replaced (block : Nat × BlockInfo) : UsedIn (left ++ (addr, { info with size := size, used := true }) ::
          (addr + blockHeader + size, ⟨blockMagic, info.size - size - blockHeader, false⟩) :: right) block ↔
          UsedIn (left ++ (addr, info) :: right) block ∨ block = (addr, { info with size := size, used := true }) :=
        usedIn_replace left right [_] block free rfl (by simp)
      refine ⟨_, { info with size := size, used := true }, used, ?_, Nat.le_refl _, blocks.free_unused free, replaced, ?_⟩
      · exact coalesced_cut coalesced free rfl
      · intro block isUsed
        have member := ((replaced block).mpr (Or.inl isUsed)).1
        refine PayloadSame.trans (cut.payload same ?_) (used.payload same' member)
        rcases List.mem_append.mp member with early | late
        · exact List.mem_append_left _ early
        · rcases List.mem_cons.mp late with isHere | behind
          · exact absurd ⟨isUsed.1, isUsed.2⟩ (isHere ▸ blocks.free_unused free _)
          · exact List.mem_append_right _ (List.mem_cons_of_mem _ behind)

/-- The rounding of a request to eight bytes. -/
def kheapRound (size : Nat) : Nat := wrap64 (size + 7) - wrap64 (size + 7) % 8

/-- No free block has at least `size` bytes. -/
def Kheap.lacks (h : Kheap) (size : Nat) : Bool :=
  seek (fun addr => some (blockAt h.mem addr)) (kmallocFits size) heapSize h.start == some none

theorem Blocks.lacks_iff (blocks : Blocks h list) :
    h.lacks size = true ↔ ∀ block ∈ list, kmallocFits size block.2 = false := by
  have searched := blocks.linked.seek (kmallocFits size) blocks.length_le
  rw [blocks.first, ← blocks.start] at searched
  rw [Kheap.lacks, searched]
  simp

/-- `kmalloc` returns no block and changes nothing, or it grants one. -/
theorem Blocks.kmalloc (blocks : Blocks h list) (coalesced : Coalesced (blockPieces list)) (size : Nat) :
    kmalloc h size = .ok (none, h) ∧ (size = 0 ∨ h.lacks (kheapRound size) = true) ∨
      h.lacks (kheapRound size) = false ∧ ∃ h' list' addr info, kmalloc h size = .ok (some (addr + blockHeader), h') ∧
        Grants h h' list list' (kheapRound size) addr info := by
  by_cases zero : size = 0
  · left
    exact ⟨by rw [Mem.kmalloc, if_pos zero], Or.inl zero⟩
  · rw [Mem.kmalloc, if_neg zero, kheapRound]
    generalize rounded : wrap64 (size + 7) - wrap64 (size + 7) % 8 = request
    have whole : 8 ∣ request := by
      rw [← rounded]
      exact Nat.dvd_sub_mod _
    have searched := blocks.linked.seek (kmallocFits request) blocks.length_le
    rw [blocks.first, ← blocks.start] at searched
    cases found : list.find? fun block => kmallocFits request block.2 with
    | none =>
        left
        rw [found] at searched
        refine ⟨by simp only [searched, Option.map_none], Or.inr ?_⟩
        rw [blocks.lacks_iff]
        simpa using found
    | some block =>
        right
        obtain ⟨addr, info⟩ := block
        rw [found] at searched
        have passes : kmallocFits request info = true := by simpa using List.find?_some found
        have member := List.mem_of_find?_eq_some found
        have inside := blocks.inside member
        have found' : h.lacks request = false := by
          rw [← Bool.not_eq_true, blocks.lacks_iff]
          intro none
          rw [none _ member] at passes
          cases passes
        obtain ⟨left, right, split⟩ := List.append_of_mem member
        simp only [kmallocFits, Bool.and_eq_true, Bool.not_eq_true', decide_eq_true_eq] at passes
        rw [split] at blocks coalesced
        have cuts : decide (info.size ≥ wrap64 (request + blockHeader + 16)) = true →
            request + blockHeader ≤ info.size := by
          intro room
          simp only [heapStart, heapSize, blockHeader] at inside
          rw [decide_eq_true_eq, wrap64_of_lt (by simp only [blockHeader]; omega)] at room
          omega
        obtain ⟨list', info', grants⟩ := blocks.grant coalesced passes.1 whole passes.2 _ cuts
        have wrapped : wrap64 (addr + blockHeader) = addr + blockHeader := by
          simp only [heapStart, heapSize] at inside
          exact wrap64_of_lt (by omega)
        refine ⟨found', _, list', addr, info', ?_, by rw [split]; exact grants⟩
        simp only [searched, Option.map_some, wrapped, blocks.node]

/-- The list stays when all headers stay. -/
theorem Blocks.congr (blocks : Blocks h list) {mem : Bytes}
    (same : ∀ record ∈ list.map Prod.fst, ∀ i, i < blockHeader → mem (record + i) = h.mem (record + i)) :
    Blocks { h with mem := mem } list := by
  refine ⟨blocks.start, blocks.first, blocks.linked.congr ?_, blocks.tiles, blocks.info, blocks.stats⟩
  intro record member
  have field (offset : Nat) {width : Nat} (inside : offset + width ≤ blockHeader) :
      load mem width (record + offset) = load h.mem width (record + offset) := by
    apply load_congr
    intro i small
    rw [Nat.add_assoc]
    exact same record member _ (by omega)
  change some (blockAt mem record) = some (blockAt h.mem record)
  unfold blockAt
  rw [field 24 (by decide), field 16 (by decide), field 0 (by decide), field 8 (by decide), field 32 (by decide)]

/-- Stores inside the payload of a block keep the list and all other payloads. -/
theorem Blocks.fill (blocks : Blocks h list) {mem : Bytes} {count offset : Nat} (member : (addr, info) ∈ list)
    (room : offset + count ≤ info.size)
    (same : SameOutside h.mem mem (addr + blockHeader + offset) count) :
    Blocks { h with mem := mem } list ∧ ∀ block ∈ list, block.1 ≠ addr → PayloadSame h.mem mem block := by
  refine ⟨blocks.congr ?_, ?_⟩
  · intro record isRecord i small
    have apart := payload_apart blocks.tiles member isRecord
    simp only at apart
    exact same _ (by omega)
  · intro block member' different i small
    have apart := tiles_apart blocks.tiles member' member different
    simp only at apart
    exact same _ (by omega)

end

end DoccrOS.Mem
