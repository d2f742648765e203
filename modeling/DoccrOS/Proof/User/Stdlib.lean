import DoccrOS.Construction.User.Stdlib
import DoccrOS.Proof.Mem.Kheap

namespace DoccrOS.User
open Lib
open Mem (toPtr ofPtr wrap64_of_lt sub64_of_le toPtr_ofPtr)

section
variable {mem mem' : Bytes} {addr query value : Nat} {ptr : Option Nat} {records : List Nat}

theorem blockAt_setSize (mem : Bytes) (fits : value < 2 ^ 64) :
    blockAt (setSize mem addr value) addr = { blockAt mem addr with size := value } := by
  have small : value < 256 ^ 8 := fits
  simp (disch := omega) only [blockAt, setSize, load_store_apart, load_store mem small]

theorem blockAt_setNext (mem : Bytes) (valid : ptr ≠ some 0) (fits : ofPtr ptr < 2 ^ 64) :
    blockAt (setNext mem addr ptr) addr = { blockAt mem addr with next := ptr } := by
  have small : ofPtr ptr < 256 ^ 8 := fits
  simp (disch := omega) only [blockAt, setNext, load_store_apart, load_store mem small, toPtr_ofPtr valid]

theorem blockAt_setFree (mem : Bytes) (free : Bool) :
    blockAt (setFree mem addr free) addr = { blockAt mem addr with free := free } := by
  have small : free.toNat < 256 ^ 4 := by cases free <;> decide
  simp (disch := omega) only [blockAt, setFree, load_store_apart, load_store mem small]
  cases free <;> rfl

/-- A header depends on its own bytes only. -/
theorem blockAt_apart (same : SameApart sizeofBlock mem mem' records)
    (apart : ∀ record ∈ records, query + sizeofBlock ≤ record ∨ record + sizeofBlock ≤ query) :
    blockAt mem' query = blockAt mem query := by
  have field (offset : Nat) {width : Nat} (inside : offset + width ≤ sizeofBlock) :
      load mem' width (query + offset) = load mem width (query + offset) := by
    apply load_congr
    intro i small
    apply same
    intro record member
    have away := apart record member
    omega
  unfold blockAt
  rw [field 0 (by decide), field 8 (by decide), field 16 (by decide)]

theorem setSize_same (mem : Bytes) (addr value : Nat) : SameApart sizeofBlock mem (setSize mem addr value) [addr] :=
  store_field mem (by decide)

theorem setNext_same (mem : Bytes) (addr : Nat) (ptr : Option Nat) : SameApart sizeofBlock mem (setNext mem addr ptr) [addr] :=
  store_field mem (by decide)

theorem setFree_same (mem : Bytes) (addr : Nat) (free : Bool) : SameApart sizeofBlock mem (setFree mem addr free) [addr] :=
  store_field mem (by decide)

end

/-- The address of the next block. -/
def nextOf (right : List Piece) : Option Nat := right.head?.map Piece.position

/-- The header of a block in front of others. -/
def headerOf (piece : Piece) (right : List Piece) : Block := ⟨piece.size, nextOf right, !piece.used⟩

/-- The headers of the blocks stand in the memory. -/
def Chained (mem : Bytes) : List Piece → Prop
  | [] => True
  | piece :: right => blockAt mem piece.position = headerOf piece right ∧ Chained mem right

/-- The block list from `blocks` tiles the arena. -/
structure Arena (h : Heap) (arena : Nat) (list : List Piece) : Prop where
  blocks : h.blocks = some arena
  chained : Chained h.mem list
  tiles : Tiles sizeofBlock arena list (arena + arenaSize)

/-- The arena lies in the user half and not at address `0`. -/
def ArenaFits (arena : Nat) : Prop := 0 < arena ∧ arena + arenaSize ≤ 2 ^ 47

section
variable {h h' : Heap} {mem mem' : Bytes} {arena size fuel : Nat} {left right list : List Piece}
  {piece second first other : Piece}

theorem Chained.tail (chained : Chained mem (left ++ right)) : Chained mem right := by
  induction left with
  | nil => exact chained
  | cons first left ih => exact ih chained.2

/-- The headers of the blocks depend on their own bytes only. -/
theorem Chained.congr (chained : Chained mem list)
    (same : ∀ other ∈ list, blockAt mem' other.position = blockAt mem other.position) : Chained mem' list := by
  induction list with
  | nil => trivial
  | cons first list ih =>
      refine ⟨?_, ih chained.2 fun other member => same other (List.mem_cons_of_mem _ member)⟩
      rw [same first List.mem_cons_self]
      exact chained.1

/-- The blocks before a place stay linked when the block at the place keeps its address. -/
theorem Chained.replace {right' : List Piece} (chained : Chained mem (left ++ piece :: right))
    (position : first.position = piece.position)
    (same : ∀ other ∈ left, blockAt mem' other.position = blockAt mem other.position)
    (behind : Chained mem' (first :: right')) : Chained mem' (left ++ first :: right') := by
  induction left with
  | nil => exact behind
  | cons other left ih =>
      refine ⟨?_, ih chained.2 fun later member => same later (List.mem_cons_of_mem _ member)⟩
      have next : nextOf (left ++ first :: right') = nextOf (left ++ piece :: right) := by
        cases left with
        | nil => exact congrArg some position
        | cons later left => rfl
      show blockAt mem' other.position = headerOf other (left ++ first :: right')
      rw [same other List.mem_cons_self, headerOf, next]
      exact chained.1

theorem Arena.node (valid : Arena h arena (left ++ piece :: right)) : blockAt h.mem piece.position = headerOf piece right :=
  valid.chained.tail.1

/-- The bytes of a block lie in the arena. -/
theorem Arena.inside (valid : Arena h arena list) (member : piece ∈ list) :
    arena ≤ piece.position ∧ piece.position + sizeofBlock + piece.size ≤ arena + arenaSize := by
  obtain ⟨left, right, split⟩ := List.append_of_mem member
  have tiles := valid.tiles
  rw [split] at tiles
  have position := tiles.position_eq
  omega

theorem Arena.length_lt (valid : Arena h arena list) : list.length < arenaSize := by
  have last := valid.tiles.stop_eq
  rw [extent_eq] at last
  simp only [sizeofBlock, arenaSize] at last ⊢
  omega

/-- Pointers to blocks are valid. -/
theorem Arena.ptr (valid : Arena h arena list) (fits : ArenaFits arena) (member : piece ∈ list) :
    some piece.position ≠ some 0 ∧ piece.position < 2 ^ 64 := by
  have inside := valid.inside member
  obtain ⟨positive, small⟩ := fits
  refine ⟨?_, by omega⟩
  intro zero
  have isZero := Option.some.inj zero
  omega

theorem Arena.next_ptr (valid : Arena h arena (left ++ right)) (fits : ArenaFits arena) :
    nextOf right ≠ some 0 ∧ ofPtr (nextOf right) < 2 ^ 64 := by
  cases right with
  | nil => exact ⟨nofun, by decide⟩
  | cons piece right => exact valid.ptr fits (List.mem_append_right left List.mem_cons_self)

/-- The other blocks around one block have other headers. -/
theorem tiles_others {start stop : Nat} (tiles : Tiles sizeofBlock start (left ++ piece :: right) stop)
    (member : other ∈ left ++ right) :
    other.position + sizeofBlock ≤ piece.position ∨ piece.position + sizeofBlock ≤ other.position := by
  have apart := tiles.apart
  rw [List.pairwise_append, List.pairwise_cons] at apart
  obtain ⟨_, ⟨behind, _⟩, before⟩ := apart
  rcases List.mem_append.mp member with early | late
  · have ahead := before other early piece List.mem_cons_self
    omega
  · have later := behind other late
    omega

/-- A changed header leaves the other headers alone. -/
theorem header_kept {start stop : Nat} (tiles : Tiles sizeofBlock start (left ++ piece :: right) stop)
    (same : SameApart sizeofBlock mem mem' [piece.position]) (member : other ∈ left ++ right) :
    blockAt mem' other.position = blockAt mem other.position := by
  refine blockAt_apart same ?_
  intro record isRecord
  rw [List.mem_singleton.mp isRecord]
  exact tiles_others tiles member

/-- The bytes of the payload of a block are the same. -/
def PayloadSame (mem mem' : Bytes) (piece : Piece) : Prop :=
  ∀ i, i < piece.size → mem' (piece.position + sizeofBlock + i) = mem (piece.position + sizeofBlock + i)

theorem PayloadSame.trans {mem'' : Bytes} (early : PayloadSame mem mem' piece) (late : PayloadSame mem' mem'' piece) :
    PayloadSame mem mem'' piece := fun i inside => (late i inside).trans (early i inside)

/-- Stores to headers keep the payloads. -/
theorem payload_kept {start stop : Nat} {records : List Nat} (tiles : Tiles sizeofBlock start list stop)
    (same : SameApart sizeofBlock mem mem' records) (headers : ∀ record ∈ records, ∃ other ∈ list, other.position = record)
    (member : piece ∈ list) : PayloadSame mem mem' piece := by
  intro i inside
  apply same
  intro record isRecord
  obtain ⟨other, member', isOther⟩ := headers record isRecord
  have apart := tiles.payload_apart member member'
  omega

/-- The block is one of the used blocks of a list. -/
def UsedIn (list : List Piece) (piece : Piece) : Prop := piece ∈ list ∧ piece.used = true

/-- One block gets a new flag. -/
theorem Arena.setFree (valid : Arena h arena (left ++ piece :: right)) (used : Bool) :
    Arena { h with mem := setFree h.mem piece.position !used } arena (left ++ { piece with used := used } :: right) := by
  have same := setFree_same h.mem piece.position !used
  refine ⟨valid.blocks, ?_, valid.tiles.mark rfl rfl⟩
  refine valid.chained.replace rfl (fun other member => header_kept valid.tiles same (List.mem_append_left _ member)) ⟨?_, ?_⟩
  · rw [blockAt_setFree, valid.node]
    rfl
  · refine (valid.chained.tail.2).congr ?_
    intro other member
    exact header_kept valid.tiles same (List.mem_append_right _ member)

/-- The block with its successor. -/
def merged (piece second : Piece) : Piece := { piece with size := piece.size + sizeofBlock + second.size }

/-- A block takes in its successor. -/
theorem Arena.absorb (valid : Arena h arena (left ++ piece :: second :: right)) (fits : ArenaFits arena) :
    Arena { h with mem := absorb h.mem piece.position second.position } arena (left ++ merged piece second :: right) ∧
      SameApart sizeofBlock h.mem (absorb h.mem piece.position second.position) [piece.position] := by
  have valid₁ : Arena h arena ((left ++ [piece]) ++ second :: right) := by simpa using valid
  have valid₂ : Arena h arena ((left ++ [piece, second]) ++ right) := by simpa using valid
  have inside := valid.inside (List.mem_append_right left (List.mem_cons_of_mem piece List.mem_cons_self))
  have inside' := valid.inside (List.mem_append_right left List.mem_cons_self)
  obtain ⟨positive, small⟩ := fits
  have sizeFits : piece.size + (sizeofBlock + second.size) < 2 ^ 64 := by
    simp only [sizeofBlock, arenaSize] at inside inside' small ⊢
    omega
  have size : wrap64 ((blockAt h.mem piece.position).size + (sizeofBlock + (blockAt h.mem second.position).size)) =
      piece.size + (sizeofBlock + second.size) := by
    rw [valid.node, valid₁.node]
    exact wrap64_of_lt sizeFits
  have firstStore := setSize_same h.mem piece.position (piece.size + (sizeofBlock + second.size))
  have nextKept : (blockAt (setSize h.mem piece.position (piece.size + (sizeofBlock + second.size))) second.position).next =
      nextOf right := by
    rw [header_kept valid.tiles firstStore (List.mem_append_right _ List.mem_cons_self), valid₁.node]
    rfl
  have stored : User.absorb h.mem piece.position second.position =
      setNext (setSize h.mem piece.position (piece.size + (sizeofBlock + second.size))) piece.position (nextOf right) := by
    simp only [User.absorb, size, nextKept]
  obtain ⟨validPtr, smallPtr⟩ := valid₂.next_ptr ⟨positive, small⟩
  have same : SameApart sizeofBlock h.mem (User.absorb h.mem piece.position second.position) [piece.position] := by
    rw [stored]
    exact firstStore.trans (setNext_same _ _ _)
  have kept (other : Piece) (member : other ∈ left ++ right) :
      blockAt (User.absorb h.mem piece.position second.position) other.position = blockAt h.mem other.position := by
    refine header_kept valid.tiles same ?_
    rcases List.mem_append.mp member with early | late
    · exact List.mem_append_left _ early
    · exact List.mem_append_right _ (List.mem_cons_of_mem _ late)
  refine ⟨⟨valid.blocks, ?_, valid.tiles.merge rfl rfl⟩, same⟩
  refine valid.chained.replace rfl (fun other member => kept other (List.mem_append_left _ member)) ⟨?_, ?_⟩
  · simp only [merged]
    rw [stored, blockAt_setNext _ validPtr smallPtr, blockAt_setSize _ sizeFits, valid.node, headerOf, headerOf, Nat.add_assoc]
  · refine (valid₂.chained.tail).congr ?_
    intro other member
    exact kept other (List.mem_append_right _ member)

/-- The pass of `free` leaves no free neighbours, and it keeps the used blocks. The part up to the current block is done. -/
theorem Arena.coalesce (valid : Arena h arena (left ++ piece :: right)) (fits : ArenaFits arena)
    (done : Coalesced (left ++ [piece])) (enough : right.length < fuel) :
    ∃ mem' list', coalesce fuel h.mem (some piece.position) = .ok mem' ∧ Arena { h with mem := mem' } arena list' ∧
      Coalesced list' ∧ (∀ other, UsedIn list' other ↔ UsedIn (left ++ piece :: right) other) ∧
      ∀ other, UsedIn (left ++ piece :: right) other → PayloadSame h.mem mem' other := by
  induction right generalizing h left piece fuel with
  | nil =>
      obtain ⟨fuel, rfl⟩ := Nat.exists_eq_succ_of_ne_zero (Nat.ne_zero_of_lt enough)
      refine ⟨h.mem, left ++ [piece], ?_, valid, done, fun _ => Iff.rfl, fun _ _ _ _ => rfl⟩
      rw [User.coalesce, valid.node]
      rfl
  | cons second right ih =>
      obtain ⟨fuel, rfl⟩ := Nat.exists_eq_succ_of_ne_zero (Nat.ne_zero_of_lt enough)
      have shorter : right.length < fuel := Nat.lt_of_succ_lt_succ enough
      have valid₁ : Arena h arena ((left ++ [piece]) ++ second :: right) := by simpa using valid
      have pieceFree : (blockAt h.mem piece.position).free = !piece.used := by
        rw [valid.node]
        rfl
      have secondFree : (blockAt h.mem second.position).free = !second.used := by
        rw [valid₁.node]
        rfl
      have next : (blockAt h.mem piece.position).next = some second.position := by
        rw [valid.node]
        rfl
      rw [User.coalesce]
      simp only [next, pieceFree, secondFree]
      by_cases both : (!piece.used && !second.used) = true
      · rw [if_pos both]
        rw [Bool.and_eq_true, Bool.not_eq_true', Bool.not_eq_true'] at both
        obtain ⟨absorbed, same⟩ := valid.absorb fits
        have done' : Coalesced (left ++ [merged piece second]) := by
          rw [coalesced_middle] at done ⊢
          exact done
        obtain ⟨mem', list', returned, valid', coalesced', used, payload⟩ := ih absorbed done' shorter
        have sameUsed (other : Piece) :
            UsedIn (left ++ merged piece second :: right) other ↔ UsedIn (left ++ piece :: second :: right) other := by
          simp only [UsedIn, List.mem_append, List.mem_cons]
          constructor
          · rintro ⟨early | isMerged | late, isUsed⟩
            · exact ⟨Or.inl early, isUsed⟩
            · rw [isMerged] at isUsed
              exact absurd isUsed (by simp [merged, both.1])
            · exact ⟨Or.inr (Or.inr (Or.inr late)), isUsed⟩
          · rintro ⟨early | isPiece | isSecond | late, isUsed⟩
            · exact ⟨Or.inl early, isUsed⟩
            · rw [isPiece, both.1] at isUsed
              cases isUsed
            · rw [isSecond, both.2] at isUsed
              cases isUsed
            · exact ⟨Or.inr (Or.inr late), isUsed⟩
        refine ⟨mem', list', returned, valid', coalesced', fun other => (used other).trans (sameUsed other), ?_⟩
        intro other isUsed
        refine PayloadSame.trans ?_ (payload other ((sameUsed other).mpr isUsed))
        refine payload_kept valid.tiles same ?_ isUsed.1
        intro record isRecord
        exact ⟨piece, by simp, (List.mem_singleton.mp isRecord).symm⟩
      · rw [if_neg both]
        have done' : Coalesced ((left ++ [piece]) ++ [second]) := by
          have either : piece.used = true ∨ second.used = true := by
            cases used : piece.used with
            | true => exact Or.inl rfl
            | false => exact Or.inr (by simpa [used] using both)
          rw [coalesced_middle]
          refine ⟨done, List.IsChain.nil, ?_, nofun⟩
          intro first isLast
          rw [List.getLast?_concat] at isLast
          rw [← Option.some.inj isLast]
          exact either
        obtain ⟨mem', list', returned, valid', coalesced', used, payload⟩ := ih valid₁ done' shorter
        have sameList : (left ++ [piece]) ++ second :: right = left ++ piece :: second :: right := by simp
        rw [sameList] at used payload
        exact ⟨mem', list', returned, valid', coalesced', used, payload⟩

/-- The blocks before and behind a block of the list. -/
theorem Arena.split_at (valid : Arena h arena list) (member : piece ∈ list) :
    ∃ left right, list = left ++ piece :: right ∧
      ∀ other, other ∈ left ++ right ↔ other ∈ list ∧ other.position ≠ piece.position := by
  obtain ⟨left, right, split⟩ := List.append_of_mem member
  have tiles := valid.tiles
  rw [split] at tiles
  refine ⟨left, right, split, ?_⟩
  intro other
  rw [split]
  constructor
  · intro inside
    have apart := tiles_others tiles inside
    simp only [sizeofBlock] at apart
    refine ⟨?_, by omega⟩
    rcases List.mem_append.mp inside with early | late
    · exact List.mem_append_left _ early
    · exact List.mem_append_right _ (List.mem_cons_of_mem _ late)
  · rintro ⟨inside, different⟩
    rcases List.mem_append.mp inside with early | late
    · exact List.mem_append_left _ early
    · rcases List.mem_cons.mp late with same | later
      · exact absurd (congrArg Piece.position same) different
      · exact List.mem_append_right _ later

/-- The first block stands at the start of the arena. -/
theorem Arena.head (valid : Arena h arena list) : ∃ first rest, list = first :: rest ∧ first.position = arena := by
  have tiles := valid.tiles
  cases list with
  | nil =>
      have same : arena = arena + arenaSize := tiles
      simp only [arenaSize] at same
      omega
  | cons first rest => exact ⟨first, rest, rfl, tiles.1⟩

/-- `free` of a used block removes it from the used blocks and keeps the other payloads. -/
theorem Arena.free (valid : Arena h arena list) (fits : ArenaFits arena) (used : UsedIn list piece) :
    ∃ h' list', free h (some (piece.position + sizeofBlock)) = .ok h' ∧ Arena h' arena list' ∧ Coalesced list' ∧
      (∀ other, UsedIn list' other ↔ UsedIn list other ∧ other.position ≠ piece.position) ∧
      ∀ other, UsedIn list other → other.position ≠ piece.position → PayloadSame h.mem h'.mem other := by
  obtain ⟨left, right, split, others⟩ := valid.split_at used.1
  have inside := valid.inside used.1
  have block : sub64 (piece.position + sizeofBlock) sizeofBlock = piece.position := by
    obtain ⟨_, small⟩ := fits
    rw [sub64_of_le (Nat.le_add_left _ _) (by omega), Nat.add_sub_cancel]
  subst split
  have released := valid.setFree false
  have same := setFree_same h.mem piece.position true
  obtain ⟨first, rest, isFirst, atStart⟩ := released.head
  rw [isFirst] at released
  have whole : Arena { h with mem := User.setFree h.mem piece.position !false } arena ([] ++ first :: rest) := released
  have enough : rest.length < arenaSize := by
    have bound := released.length_lt
    rw [List.length_cons] at bound
    omega
  obtain ⟨mem', list', returned, valid', coalesced', used', payload⟩ :=
    whole.coalesce fits (List.isChain_singleton _) enough
  simp only [List.nil_append, ← isFirst] at used' payload
  have sameUsed (other : Piece) : UsedIn (left ++ { piece with used := false } :: right) other ↔
      UsedIn (left ++ piece :: right) other ∧ other.position ≠ piece.position := by
    have around := others other
    rw [List.mem_append] at around
    simp only [UsedIn, List.mem_append, List.mem_cons] at around ⊢
    constructor
    · rintro ⟨early | isHere | late, isUsed⟩
      · have away := around.mp (Or.inl early)
        exact ⟨⟨away.1, isUsed⟩, away.2⟩
      · rw [isHere] at isUsed
        cases isUsed
      · have away := around.mp (Or.inr late)
        exact ⟨⟨away.1, isUsed⟩, away.2⟩
    · rintro ⟨⟨member, isUsed⟩, different⟩
      refine ⟨?_, isUsed⟩
      rcases around.mpr ⟨member, different⟩ with early | late
      · exact Or.inl early
      · exact Or.inr (Or.inr late)
  refine ⟨{ h with mem := mem' }, list', ?_, valid', coalesced', fun other => (used' other).trans (sameUsed other), ?_⟩
  · have passed : User.coalesce arenaSize (User.setFree h.mem piece.position true) (some first.position) = .ok mem' := returned
    simp only [User.free, block, valid.blocks]
    rw [← atStart, passed]
    rfl
  · intro other isUsed different
    have kept := (sameUsed other).mpr ⟨isUsed, different⟩
    refine PayloadSame.trans ?_ (payload other kept)
    refine payload_kept valid.tiles same ?_ isUsed.1
    intro record isRecord
    exact ⟨piece, by simp, (List.mem_singleton.mp isRecord).symm⟩

/-- The rest of a block behind the part that is used. -/
def restOf (piece : Piece) (size : Nat) : Piece :=
  ⟨piece.position + sizeofBlock + size, piece.size - size - sizeofBlock, false⟩

/-- A block is cut into two. -/
theorem Arena.split (valid : Arena h arena (left ++ piece :: right)) (fits : ArenaFits arena)
    (room : size + sizeofBlock ≤ piece.size) :
    Arena { h with mem := splitBlock h.mem piece.position size } arena
        (left ++ { piece with size := size } :: restOf piece size :: right) ∧
      SameApart sizeofBlock h.mem (splitBlock h.mem piece.position size)
        [piece.position, (restOf piece size).position] := by
  have inside := valid.inside (List.mem_append_right left List.mem_cons_self)
  have valid₁ : Arena h arena ((left ++ [piece]) ++ right) := by simpa using valid
  obtain ⟨positive, small⟩ := fits
  have tiles : Tiles sizeofBlock arena (left ++ { piece with size := size } :: restOf piece size :: right)
      (arena + arenaSize) := by
    refine valid.tiles.split rfl rfl ?_
    simp only [restOf]
    omega
  have wrapped : wrap64 (piece.position + sizeofBlock + size) = (restOf piece size).position := wrap64_of_lt (by omega)
  have restSize : sub64 (sub64 piece.size size) sizeofBlock = (restOf piece size).size := by
    have inner : sub64 piece.size size = piece.size - size := sub64_of_le (by omega) (by omega)
    rw [inner, sub64_of_le (by omega) (by omega)]
    rfl
  have restFits : (restOf piece size).size < 2 ^ 64 := by
    simp only [restOf]
    omega
  have validRest : some (restOf piece size).position ≠ some 0 ∧ (restOf piece size).position < 2 ^ 64 := by
    simp only [restOf]
    refine ⟨?_, by omega⟩
    intro zero
    have isZero := Option.some.inj zero
    omega
  obtain ⟨validPtr, smallPtr⟩ := valid₁.next_ptr ⟨positive, small⟩
  generalize isRest : (restOf piece size).position = rest at wrapped validRest
  have away : piece.position + sizeofBlock ≤ rest ∨ rest + sizeofBlock ≤ piece.position := by
    rw [← isRest]
    exact Or.inl (Nat.le_add_right _ _)
  have apart (query record : Nat) (far : query + sizeofBlock ≤ record ∨ record + sizeofBlock ≤ query) :
      ∀ other ∈ [record], query + sizeofBlock ≤ other ∨ other + sizeofBlock ≤ query := by
    intro other isRecord
    rw [List.mem_singleton.mp isRecord]
    exact far
  -- the header of the rest is written first, then the header of the block
  generalize set₁ : setSize h.mem rest (restOf piece size).size = mem₁
  have same₁ : SameApart sizeofBlock h.mem mem₁ [rest] := by
    rw [← set₁]
    exact setSize_same _ _ _
  have here₁ : blockAt mem₁ piece.position = headerOf piece right := by
    rw [blockAt_apart same₁ (apart _ _ away), valid.node]
  generalize set₃ : User.setFree (setNext mem₁ rest (nextOf right)) rest true = mem₃
  have same₃ : SameApart sizeofBlock mem₁ mem₃ [rest] := by
    rw [← set₃]
    exact (setNext_same _ _ _).trans (setFree_same _ _ _)
  have rest₃ : blockAt mem₃ rest = headerOf (restOf piece size) right := by
    rw [← set₃, blockAt_setFree, blockAt_setNext _ validPtr smallPtr, ← set₁, blockAt_setSize _ restFits]
    rfl
  have here₃ : blockAt mem₃ piece.position = headerOf piece right := by
    rw [blockAt_apart same₃ (apart _ _ away), here₁]
  have stored : splitBlock h.mem piece.position size =
      setSize (setNext mem₃ piece.position (some rest)) piece.position size := by
    have next₁ : (blockAt mem₁ piece.position).next = nextOf right := by
      rw [here₁]
      rfl
    have size₁ : (blockAt h.mem piece.position).size = piece.size := by
      rw [valid.node]
      rfl
    simp only [splitBlock, wrapped, size₁, restSize, set₁, next₁, set₃]
  have same₅ : SameApart sizeofBlock mem₃ (splitBlock h.mem piece.position size) [piece.position] := by
    rw [stored]
    exact (setNext_same _ _ _).trans (setSize_same _ _ _)
  have same : SameApart sizeofBlock h.mem (splitBlock h.mem piece.position size) [piece.position, rest] := by
    have early := (same₁.trans same₃).mono (List.subset_cons_self piece.position [rest])
    refine early.trans (same₅.mono ?_)
    intro record isRecord
    rw [List.mem_singleton.mp isRecord]
    exact List.mem_cons_self
  have kept (other : Piece) (member : other ∈ left ++ right) :
      blockAt (splitBlock h.mem piece.position size) other.position = blockAt h.mem other.position := by
    refine blockAt_apart same ?_
    intro record isRecord
    rcases List.mem_cons.mp isRecord with isHere | isLast
    · rw [isHere]
      exact tiles_others valid.tiles member
    · rw [List.mem_singleton.mp isLast, ← isRest]
      have tiles' : Tiles sizeofBlock arena ((left ++ [{ piece with size := size }]) ++ restOf piece size :: right)
          (arena + arenaSize) := by simpa using tiles
      refine tiles_others tiles' ?_
      rcases List.mem_append.mp member with early | late
      · exact List.mem_append_left _ (List.mem_append_left _ early)
      · exact List.mem_append_right _ late
  refine ⟨⟨valid.blocks, ?_, tiles⟩, same⟩
  refine valid.chained.replace rfl (fun other member => kept other (List.mem_append_left _ member)) ⟨?_, ?_, ?_⟩
  · show blockAt (splitBlock h.mem piece.position size) piece.position = _
    rw [stored, blockAt_setSize _ (by omega), blockAt_setNext _ validRest.1 validRest.2, here₃, ← isRest]
    rfl
  · rw [isRest, blockAt_apart same₅ (apart _ _ away.symm), rest₃]
  · refine (valid₁.chained.tail).congr ?_
    intro other member
    exact kept other (List.mem_append_right _ member)

/-- The search finds a free block that is large enough, or there is none. -/
theorem Arena.search (valid : Arena h arena (left ++ right)) (enough : right.length < fuel) :
    mallocSearch h.mem size fuel (nextOf right) = some none ∧ (∀ piece ∈ right, piece.used = false → piece.size < size) ∨
      ∃ before piece after, right = before ++ piece :: after ∧ piece.used = false ∧ size ≤ piece.size ∧
        mallocSearch h.mem size fuel (nextOf right) = some (some piece.position) := by
  induction right generalizing left fuel with
  | nil =>
      left
      refine ⟨?_, nofun⟩
      cases fuel <;> rfl
  | cons piece right ih =>
      obtain ⟨fuel, rfl⟩ := Nat.exists_eq_succ_of_ne_zero (Nat.ne_zero_of_lt enough)
      have valid₁ : Arena h arena ((left ++ [piece]) ++ right) := by simpa using valid
      have first : nextOf (piece :: right) = some piece.position := rfl
      have step : mallocSearch h.mem size (fuel + 1) (some piece.position) =
          if (piece.used || decide (piece.size < size)) = true then mallocSearch h.mem size fuel (nextOf right)
          else some (some piece.position) := by
        have header := valid.node
        have isFree : (blockAt h.mem piece.position).free = !piece.used := by rw [header]; rfl
        have isSize : (blockAt h.mem piece.position).size = piece.size := by rw [header]; rfl
        have isNext : (blockAt h.mem piece.position).next = nextOf right := by rw [header]; rfl
        rw [mallocSearch]
        simp only [isFree, isSize, isNext, Bool.not_not]
      rw [first, step]
      by_cases skips : (piece.used || decide (piece.size < size)) = true
      · rw [if_pos skips]
        rcases ih valid₁ (Nat.lt_of_succ_lt_succ enough) with ⟨none, short⟩ | ⟨before, found, after, split, rest⟩
        · refine Or.inl ⟨none, List.forall_mem_cons.mpr ⟨?_, short⟩⟩
          intro unused
          rw [unused, Bool.false_or, decide_eq_true_eq] at skips
          exact skips
        · exact Or.inr ⟨piece :: before, found, after, by rw [split, List.cons_append], rest⟩
      · rw [if_neg skips]
        rw [Bool.or_eq_true, decide_eq_true_eq, not_or, Bool.not_eq_true, Nat.not_lt] at skips
        exact Or.inr ⟨[], piece, right, rfl, skips.1, skips.2, rfl⟩

/-- The result of a successful `malloc`: one block more is used, and the payloads of the others stay. -/
structure Grants (h h' : Heap) (arena : Nat) (list list' : List Piece) (size : Nat) (new : Piece) : Prop where
  valid : Arena h' arena list'
  coalesced : Coalesced list'
  fits : alignSize size ≤ new.size
  fresh : ∀ other, UsedIn list other → other.position ≠ new.position
  used : ∀ other, UsedIn list' other ↔ UsedIn list other ∨ other = new
  payload : ∀ other, UsedIn list other → PayloadSame h.mem h'.mem other

/-- The used blocks of a list in which a free block is replaced. -/
theorem usedIn_replace {middle : List Piece} (unused : piece.used = false) (used : first.used = true)
    (free : ∀ other ∈ middle, other.used = false) (other : Piece) :
    UsedIn (left ++ first :: (middle ++ right)) other ↔ UsedIn (left ++ piece :: right) other ∨ other = first := by
  simp only [UsedIn, List.mem_append, List.mem_cons]
  constructor
  · rintro ⟨early | isFirst | inMiddle | late, isUsed⟩
    · exact Or.inl ⟨Or.inl early, isUsed⟩
    · exact Or.inr isFirst
    · rw [free other inMiddle] at isUsed
      cases isUsed
    · exact Or.inl ⟨Or.inr (Or.inr late), isUsed⟩
  · rintro (⟨early | isPiece | late, isUsed⟩ | isFirst)
    · exact ⟨Or.inl early, isUsed⟩
    · rw [isPiece, unused] at isUsed
      cases isUsed
    · exact ⟨Or.inr (Or.inr (Or.inr late)), isUsed⟩
    · rw [isFirst]
      exact ⟨Or.inr (Or.inl rfl), used⟩

theorem heapInit_done (valid : Arena h arena list) (mmap : Option Nat) : heapInit h mmap = (true, h) := by
  unfold heapInit
  rw [valid.blocks]

/-- A free block is used, whole or in part. -/
theorem Arena.grant {mem' : Bytes} (valid : Arena h arena (left ++ piece :: right)) (fits : ArenaFits arena)
    (coalesced : Coalesced (left ++ piece :: right)) (unused : piece.used = false) (large : alignSize size ≤ piece.size)
    (stored : mem' = if decide (piece.size ≥ wrap64 (alignSize size + sizeofBlock + mallocAlignment)) = true then
      splitBlock h.mem piece.position (alignSize size) else h.mem) :
    ∃ list' new, new.position = piece.position ∧
      Grants h { h with mem := User.setFree mem' piece.position false } arena (left ++ piece :: right) list' size new := by
  have fresh (other : Piece) (isUsed : UsedIn (left ++ piece :: right) other) : other.position ≠ piece.position := by
    intro same
    have member : other ∈ left ++ right := by
      rcases List.mem_append.mp isUsed.1 with early | late
      · exact List.mem_append_left _ early
      · rcases List.mem_cons.mp late with isPiece | later
        · have used := isUsed.2
          rw [isPiece, unused] at used
          cases used
        · exact List.mem_append_right _ later
    have apart := tiles_others valid.tiles member
    simp only [sizeofBlock] at apart
    omega
  by_cases splits : piece.size ≥ wrap64 (alignSize size + sizeofBlock + mallocAlignment)
  · rw [if_pos (decide_eq_true splits)] at stored
    have inside := valid.inside (List.mem_append_right left List.mem_cons_self)
    have room : alignSize size + sizeofBlock ≤ piece.size := by
      obtain ⟨_, small⟩ := fits
      rw [wrap64_of_lt (by simp only [sizeofBlock, mallocAlignment] at *; omega)] at splits
      omega
    obtain ⟨cut, same⟩ := valid.split fits room
    have marked := cut.setFree true
    rw [← stored] at marked same
    have setting := setFree_same mem' piece.position false
    have isUsed (other : Piece) :
        UsedIn (left ++ { piece with size := alignSize size, used := true } :: restOf piece (alignSize size) :: right) other ↔
          UsedIn (left ++ piece :: right) other ∨ other = { piece with size := alignSize size, used := true } := by
      refine @usedIn_replace left right piece _ [restOf piece (alignSize size)] unused rfl ?_ other
      intro rest isRest
      rw [List.mem_singleton.mp isRest]
      rfl
    refine ⟨_, { piece with size := alignSize size, used := true }, rfl, marked, coalesced.cut unused rfl, Nat.le_refl _, fresh,
      isUsed, ?_⟩
    intro other isOther
    have member : other ∈ left ++ { piece with size := alignSize size, used := true } :: restOf piece (alignSize size) :: right :=
      ((isUsed other).mpr (Or.inl isOther)).1
    have tiles := marked.tiles
    refine PayloadSame.trans (payload_kept tiles same ?_ member) (payload_kept tiles setting ?_ member)
    · intro record isRecord
      rcases List.mem_cons.mp isRecord with isHere | isRest
      · exact ⟨_, List.mem_append_right _ List.mem_cons_self, isHere.symm⟩
      · exact ⟨_, List.mem_append_right _ (List.mem_cons_of_mem _ List.mem_cons_self), (List.mem_singleton.mp isRest).symm⟩
    · intro record isRecord
      exact ⟨_, List.mem_append_right _ List.mem_cons_self, (List.mem_singleton.mp isRecord).symm⟩
  · rw [if_neg (by simpa using splits)] at stored
    have marked := valid.setFree true
    rw [← stored] at marked
    have setting := setFree_same mem' piece.position false
    have isUsed (other : Piece) : UsedIn (left ++ { piece with used := true } :: right) other ↔
        UsedIn (left ++ piece :: right) other ∨ other = { piece with used := true } :=
      @usedIn_replace left right piece _ [] unused rfl nofun other
    refine ⟨_, { piece with used := true }, rfl, marked, coalesced.use rfl, large, fresh, isUsed, ?_⟩
    intro other isOther
    rw [← stored]
    refine payload_kept marked.tiles setting ?_ ((isUsed other).mpr (Or.inl isOther)).1
    intro record isRecord
    exact ⟨_, List.mem_append_right _ List.mem_cons_self, (List.mem_singleton.mp isRecord).symm⟩

/-- There is no arena, or it has no free block that is large enough. -/
def Heap.lacks (h : Heap) (size : Nat) (mmap : Option Nat) : Bool :=
  match heapInit h mmap with
  | (false, _) => true
  | (true, h) => mallocSearch h.mem (alignSize size) arenaSize h.blocks == some none

/-- The list starts at the static variable. -/
theorem Arena.start (valid : Arena h arena list) : h.blocks = nextOf list := by
  obtain ⟨first, rest, isList, atStart⟩ := valid.head
  rw [valid.blocks, isList, ← atStart]
  rfl

theorem Arena.lacks_iff (valid : Arena h arena list) (mmap : Option Nat) :
    h.lacks size mmap = true ↔ ∀ piece ∈ list, piece.used = false → piece.size < alignSize size := by
  have whole : Arena h arena ([] ++ list) := valid
  simp only [Heap.lacks, heapInit_done valid, valid.start]
  rcases whole.search valid.length_lt with ⟨none, short⟩ | ⟨left, piece, right, split, unused, large, found⟩
  · rw [none]
    exact ⟨fun _ => short, fun _ => rfl⟩
  · rw [found]
    constructor
    · intro absent
      cases absent
    · intro short
      have few := short piece (by rw [split]; exact List.mem_append_right _ List.mem_cons_self) unused
      omega

/-- `malloc` finds no block and changes nothing, or it grants one. -/
theorem Arena.malloc (valid : Arena h arena list) (fits : ArenaFits arena) (coalesced : Coalesced list) (size : Nat)
    (mmap : Option Nat) :
    malloc h size mmap = .ok (none, h) ∧ (size = 0 ∨ h.lacks size mmap = true) ∨
      h.lacks size mmap = false ∧ ∃ h' list' new,
        malloc h size mmap = .ok (some (new.position + sizeofBlock), h') ∧ Grants h h' arena list list' size new ∧
          ∃ piece ∈ list, piece.used = false ∧ new.position = piece.position := by
  by_cases zero : size = 0
  · exact Or.inl ⟨if_pos zero, Or.inl zero⟩
  have start := valid.start
  have whole : Arena h arena ([] ++ list) := valid
  have searched : mallocSearch h.mem (alignSize size) arenaSize (nextOf list) = some none ∧ _ ∨
      ∃ before piece after, list = before ++ piece :: after ∧ piece.used = false ∧ alignSize size ≤ piece.size ∧
        mallocSearch h.mem (alignSize size) arenaSize (nextOf list) = some (some piece.position) :=
    whole.search valid.length_lt
  rcases searched with ⟨none, _⟩ | ⟨left, piece, right, split, unused, large, found⟩
  · left
    refine ⟨by simp only [User.malloc, if_neg zero, heapInit_done valid, start, none], Or.inr ?_⟩
    simp only [Heap.lacks, heapInit_done valid, start, none, beq_self_eq_true]
  · right
    have member : piece ∈ list := by
      rw [split]
      exact List.mem_append_right _ List.mem_cons_self
    have inside := valid.inside member
    have valid' := valid
    rw [split] at valid' coalesced
    obtain ⟨list', new, isNew, grants⟩ := valid'.grant fits coalesced unused large rfl
    have pointer : wrap64 (piece.position + sizeofBlock) = new.position + sizeofBlock := by
      obtain ⟨_, small⟩ := fits
      rw [isNew]
      exact wrap64_of_lt (by omega)
    have isSize : (blockAt h.mem piece.position).size = piece.size := by
      rw [valid'.node]
      rfl
    rw [← split] at grants
    refine ⟨?_, _, list', new, ?_, grants, piece, member, unused, isNew⟩
    · simp [Heap.lacks, heapInit_done valid, start, found]
    · simp only [User.malloc, if_neg zero, heapInit_done valid, start, found, pointer, isSize]

end

end DoccrOS.User
