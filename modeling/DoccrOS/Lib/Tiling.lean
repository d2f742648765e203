import Mathlib.Tactic

namespace DoccrOS.Lib

/-- A piece of an address range. -/
structure Piece where
  position : Nat
  size : Nat
  used : Bool

section
variable {overhead unit start stop : Nat} {left right pieces : List Piece} {piece first second : Piece}

/-- The pieces follow each other without gaps from `start` to `stop`. Each one has a header of `overhead` bytes. -/
def Tiles (overhead : Nat) : (start : Nat) → List Piece → (stop : Nat) → Prop
  | start, [], stop => start = stop
  | start, piece :: rest, stop => piece.position = start ∧ Tiles overhead (start + overhead + piece.size) rest stop

/-- No two neighbours are free. -/
def Coalesced (pieces : List Piece) : Prop := pieces.IsChain fun first second => first.used = true ∨ second.used = true

def usedSize (pieces : List Piece) : Nat := ((pieces.filter fun piece => piece.used).map Piece.size).sum

def freeSize (pieces : List Piece) : Nat := ((pieces.filter fun piece => !piece.used).map Piece.size).sum

def usedCount (pieces : List Piece) : Nat := pieces.countP fun piece => piece.used

@[simp] theorem usedSize_cons : usedSize (piece :: pieces) = (if piece.used then piece.size else 0) + usedSize pieces := by
  cases used : piece.used <;> simp [usedSize, used]

@[simp] theorem usedSize_append : usedSize (left ++ right) = usedSize left + usedSize right := by
  simp [usedSize]

@[simp] theorem freeSize_cons : freeSize (piece :: pieces) = (if piece.used then 0 else piece.size) + freeSize pieces := by
  cases used : piece.used <;> simp [freeSize, used]

@[simp] theorem freeSize_append : freeSize (left ++ right) = freeSize left + freeSize right := by
  simp [freeSize]

@[simp] theorem usedCount_cons : usedCount (piece :: pieces) = (if piece.used then 1 else 0) + usedCount pieces := by
  cases used : piece.used <;> simp [usedCount, used, Nat.add_comm]

@[simp] theorem usedCount_append : usedCount (left ++ right) = usedCount left + usedCount right := by
  simp [usedCount]

theorem usedCount_le (pieces : List Piece) : usedCount pieces ≤ pieces.length := List.countP_le_length

/-- The bytes of a list of pieces with their headers. -/
def extent (overhead : Nat) (pieces : List Piece) : Nat := (pieces.map fun piece => overhead + piece.size).sum

@[simp] theorem extent_cons : extent overhead (piece :: pieces) = overhead + piece.size + extent overhead pieces := by
  simp [extent]

theorem tiles_append : Tiles overhead start (left ++ right) stop ↔
    Tiles overhead start left (start + extent overhead left) ∧ Tiles overhead (start + extent overhead left) right stop := by
  induction left generalizing start with
  | nil => simp [Tiles, extent]
  | cons piece left ih =>
      have sum : start + extent overhead (piece :: left) = start + overhead + piece.size + extent overhead left := by
        rw [extent_cons]
        omega
      rw [List.cons_append, Tiles, Tiles, ih, sum, and_assoc]

theorem Tiles.stop_eq (tiles : Tiles overhead start pieces stop) : stop = start + extent overhead pieces := by
  have both : Tiles overhead start (pieces ++ []) stop := by
    rw [List.append_nil]
    exact tiles
  exact (tiles_append.mp both).2.symm

/-- The sizes and the headers add up to the whole range. -/
theorem extent_eq : extent overhead pieces = usedSize pieces + freeSize pieces + overhead * pieces.length := by
  induction pieces with
  | nil => simp [extent, usedSize, freeSize]
  | cons piece pieces ih =>
      rw [extent_cons, ih, usedSize_cons, freeSize_cons, List.length_cons, Nat.mul_succ]
      cases piece.used <;> simp <;> omega

/-- A piece may be replaced by pieces that cover the same bytes. -/
theorem Tiles.replace (left middle middle' right : List Piece) (tiles : Tiles overhead start (left ++ middle ++ right) stop)
    (covered : ∀ start stop, Tiles overhead start middle stop → Tiles overhead start middle' stop) :
    Tiles overhead start (left ++ middle' ++ right) stop := by
  rw [List.append_assoc, tiles_append] at tiles ⊢
  refine ⟨tiles.1, ?_⟩
  obtain ⟨tilesMiddle, tilesRight⟩ := tiles_append.mp tiles.2
  have tilesMiddle' := covered _ _ tilesMiddle
  rw [tiles_append, ← tilesMiddle'.stop_eq]
  exact ⟨tilesMiddle', tilesRight⟩

/-- A use or a release of a piece keeps the tiling. -/
theorem Tiles.mark (tiles : Tiles overhead start (left ++ first :: right) stop) (position : second.position = first.position)
    (size : second.size = first.size) : Tiles overhead start (left ++ second :: right) stop := by
  have replaced := Tiles.replace left [first] [second] right
    (by simpa using tiles) (by
      intro start stop one
      rw [Tiles, position, size]
      exact one)
  simpa using replaced

/-- A split of a piece keeps the tiling. -/
theorem Tiles.split (tiles : Tiles overhead start (left ++ piece :: right) stop) (position : first.position = piece.position)
    (next : second.position = piece.position + overhead + first.size)
    (sizes : first.size + overhead + second.size = piece.size) :
    Tiles overhead start (left ++ first :: second :: right) stop := by
  have replaced := Tiles.replace left [piece] [first, second] right
    (by simpa using tiles) (by
      intro start stop one
      simp only [Tiles] at one ⊢
      omega)
  simpa using replaced

/-- A merge of two neighbours keeps the tiling. -/
theorem Tiles.merge (tiles : Tiles overhead start (left ++ first :: second :: right) stop)
    (position : piece.position = first.position) (sizes : piece.size = first.size + overhead + second.size) :
    Tiles overhead start (left ++ piece :: right) stop := by
  have replaced := Tiles.replace left [first, second] [piece] right
    (by simpa using tiles) (by
      intro start stop two
      simp only [Tiles] at two ⊢
      omega)
  simpa using replaced

/-- The position of a piece lies behind the pieces before it. -/
theorem Tiles.position_eq (tiles : Tiles overhead start (left ++ piece :: right) stop) :
    piece.position = start + extent overhead left ∧ piece.position + overhead + piece.size ≤ stop := by
  obtain ⟨_, here, tilesRight⟩ := tiles_append.mp tiles
  have last := tilesRight.stop_eq
  omega

/-- Two pieces of a tiling lie behind each other. -/
theorem Tiles.apart (tiles : Tiles overhead start pieces stop) :
    pieces.Pairwise fun first second => first.position + overhead + first.size ≤ second.position := by
  induction pieces generalizing start with
  | nil => exact List.Pairwise.nil
  | cons piece pieces ih =>
      refine List.Pairwise.cons ?_ (ih tiles.2)
      intro second member
      obtain ⟨left, right, split⟩ := List.append_of_mem member
      have rest := tiles.2
      rw [split] at rest
      have behind := rest.position_eq.1
      have here := tiles.1
      omega

theorem Tiles.apart_of_mem (tiles : Tiles overhead start pieces stop) (inside : first ∈ pieces) (inside' : second ∈ pieces)
    (different : first ≠ second) : first.position + overhead + first.size ≤ second.position ∨
      second.position + overhead + second.size ≤ first.position := by
  let behind (first second : Piece) : Prop := first.position + overhead + first.size ≤ second.position
  have symmetric : Std.Symm fun first second => behind first second ∨ behind second first := ⟨fun _ _ => Or.symm⟩
  have either : pieces.Pairwise fun first second => behind first second ∨ behind second first := tiles.apart.imp Or.inl
  exact either.forall inside inside' different

/-- The bytes of a piece behind its header lie apart from all headers. -/
theorem Tiles.payload_apart (tiles : Tiles overhead start pieces stop) (inside : first ∈ pieces) (inside' : second ∈ pieces) :
    first.position + overhead + first.size ≤ second.position ∨ second.position ≤ first.position := by
  by_cases same : first = second
  · exact Or.inr (by rw [same])
  · have apart := tiles.apart_of_mem inside inside' same
    omega

/-- Pieces with headers have different positions. -/
theorem Tiles.nodup (tiles : Tiles overhead start pieces stop) (positive : 0 < overhead) :
    (pieces.map Piece.position).Nodup := by
  refine List.pairwise_map.mpr (tiles.apart.imp ?_)
  intro first second behind
  omega

/-- The free piece in the middle of a list without free neighbours stands between used ones. -/
theorem coalesced_middle : Coalesced (left ++ piece :: right) ↔ Coalesced left ∧ Coalesced right ∧
    (∀ first ∈ left.getLast?, first.used = true ∨ piece.used = true) ∧
      ∀ second ∈ right.head?, piece.used = true ∨ second.used = true := by
  unfold Coalesced
  rw [List.isChain_append, List.isChain_cons]
  constructor
  · rintro ⟨chainLeft, ⟨chainRight, behind⟩, ahead⟩
    exact ⟨chainLeft, behind, fun first member => ahead first member piece rfl, chainRight⟩
  · rintro ⟨chainLeft, behind, ahead, chainRight⟩
    refine ⟨chainLeft, ⟨chainRight, behind⟩, ?_⟩
    intro first member other same
    injection same with same
    rw [← same]
    exact ahead first member

/-- A piece of a coalesced list may be marked used. -/
theorem Coalesced.use (coalesced : Coalesced (left ++ piece :: right)) (used : first.used = true) :
    Coalesced (left ++ first :: right) := by
  rw [coalesced_middle] at coalesced ⊢
  exact ⟨coalesced.1, coalesced.2.1, fun _ _ => Or.inr used, fun _ _ => Or.inl used⟩

/-- A free piece of a coalesced list may be used in part. -/
theorem Coalesced.cut (coalesced : Coalesced (left ++ piece :: right)) (free : piece.used = false)
    (used : first.used = true) : Coalesced (left ++ first :: second :: right) := by
  rw [coalesced_middle] at coalesced ⊢
  obtain ⟨coalescedLeft, coalescedRight, _, behind⟩ := coalesced
  refine ⟨coalescedLeft, List.isChain_cons.mpr ⟨?_, coalescedRight⟩, fun _ _ => Or.inr used, fun _ _ => Or.inl used⟩
  intro piece isHead
  rcases behind piece isHead with isUsed | nextUsed
  · rw [free] at isUsed
    cases isUsed
  · exact Or.inr nextUsed

/-- A coalesced tiling without used pieces is one free piece. -/
theorem Coalesced.single (coalesced : Coalesced (piece :: pieces)) (unused : ∀ other ∈ piece :: pieces, other.used = false) :
    pieces = [] := by
  cases pieces with
  | nil => rfl
  | cons second pieces =>
      have firstFree := unused piece (by simp)
      have secondFree := unused second (by simp)
      rcases (List.isChain_cons_cons.mp coalesced).1 with isUsed | isUsed
      · rw [firstFree] at isUsed
        cases isUsed
      · rw [secondFree] at isUsed
        cases isUsed

end

end DoccrOS.Lib
