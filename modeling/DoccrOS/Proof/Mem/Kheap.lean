import DoccrOS.Construction.Mem.Kheap
import DoccrOS.Lib.Run
import DoccrOS.Lib.Tiling

namespace DoccrOS.Mem
open Lib

theorem wrap64_of_lt {n : Nat} (small : n < 2 ^ 64) : wrap64 n = n := Nat.mod_eq_of_lt small

theorem sub64_of_le {a b : Nat} (less : b ≤ a) (small : a < 2 ^ 64) : sub64 a b = a - b := by
  unfold sub64
  omega

theorem toPtr_ofPtr {ptr : Option Nat} (valid : ptr ≠ some 0) : toPtr (ofPtr ptr) = ptr := by
  cases ptr with
  | none => rfl
  | some addr =>
      have nonzero : addr ≠ 0 := fun zero => valid (by rw [zero])
      rw [ofPtr, toPtr, if_neg nonzero]

section
variable {mem mem' : Bytes} {addr query value : Nat} {ptr : Option Nat} {records : List Nat}

theorem blockAt_setMagic (mem : Bytes) (fits : value < 2 ^ 32) : blockAt (setMagic mem addr value) addr =
    { blockAt mem addr with value := { (blockAt mem addr).value with magic := value } } := by
  have small : value < 256 ^ 4 := fits
  simp (disch := omega) only [blockAt, setMagic, load_store_apart, load_store mem small]

theorem blockAt_setSize (mem : Bytes) (fits : value < 2 ^ 64) : blockAt (setSize mem addr value) addr =
    { blockAt mem addr with value := { (blockAt mem addr).value with size := value } } := by
  have small : value < 256 ^ 8 := fits
  simp (disch := omega) only [blockAt, setSize, load_store_apart, load_store mem small]

theorem blockAt_setNext (mem : Bytes) (valid : ptr ≠ some 0) (fits : ofPtr ptr < 2 ^ 64) :
    blockAt (setNext mem addr ptr) addr = { blockAt mem addr with next := ptr } := by
  have small : ofPtr ptr < 256 ^ 8 := fits
  simp (disch := omega) only [blockAt, setNext, load_store_apart, load_store mem small, toPtr_ofPtr valid]

theorem blockAt_setPrev (mem : Bytes) (valid : ptr ≠ some 0) (fits : ofPtr ptr < 2 ^ 64) :
    blockAt (setPrev mem addr ptr) addr = { blockAt mem addr with prev := ptr } := by
  have small : ofPtr ptr < 256 ^ 8 := fits
  simp (disch := omega) only [blockAt, setPrev, load_store_apart, load_store mem small, toPtr_ofPtr valid]

theorem blockAt_setUsed (mem : Bytes) (used : Bool) : blockAt (setUsed mem addr used) addr =
    { blockAt mem addr with value := { (blockAt mem addr).value with used := used } } := by
  have small : used.toNat < 256 ^ 1 := by cases used <;> decide
  simp (disch := omega) only [blockAt, setUsed, load_store_apart, load_store mem small]
  cases used <;> rfl

/-- A header depends on its own bytes only. -/
theorem blockAt_apart (same : SameApart blockHeader mem mem' records)
    (apart : ∀ record ∈ records, query + blockHeader ≤ record ∨ record + blockHeader ≤ query) :
    blockAt mem' query = blockAt mem query := by
  have field (offset : Nat) {width : Nat} (inside : offset + width ≤ blockHeader) :
      load mem' width (query + offset) = load mem width (query + offset) := by
    apply load_congr
    intro i small
    apply same
    intro record member
    have away := apart record member
    omega
  unfold blockAt
  rw [field 24 (by decide), field 16 (by decide), field 0 (by decide), field 8 (by decide), field 32 (by decide)]

theorem setMagic_same (mem : Bytes) (addr value : Nat) : SameApart blockHeader mem (setMagic mem addr value) [addr] :=
  store_field mem (by decide)

theorem setSize_same (mem : Bytes) (addr value : Nat) : SameApart blockHeader mem (setSize mem addr value) [addr] :=
  store_field mem (by decide)

theorem setNext_same (mem : Bytes) (addr : Nat) (ptr : Option Nat) :
    SameApart blockHeader mem (setNext mem addr ptr) [addr] :=
  store_field mem (by decide)

theorem setPrev_same (mem : Bytes) (addr : Nat) (ptr : Option Nat) :
    SameApart blockHeader mem (setPrev mem addr ptr) [addr] :=
  store_field mem (by decide)

theorem setUsed_same (mem : Bytes) (addr : Nat) (used : Bool) :
    SameApart blockHeader mem (setUsed mem addr used) [addr] :=
  store_field mem (by decide)

theorem relink_same (mem : Bytes) (ptr : Option Nat) (prev : Nat) :
    SameApart blockHeader mem (relink mem ptr prev) ptr.toList := by
  cases ptr with
  | none => exact SameApart.refl _ _ _
  | some addr => exact setPrev_same mem addr (some prev)

end

/-- A block as a piece of the heap. -/
def blockPiece (block : Nat × BlockInfo) : Piece := ⟨block.1, block.2.size, block.2.used⟩

def blockPieces (list : List (Nat × BlockInfo)) : List Piece := list.map blockPiece

/-- The statistics of a list of blocks. -/
def statsOf (pieces : List Piece) : KheapStats :=
  ⟨heapSize, usedSize pieces, freeSize pieces, pieces.length, usedCount pieces⟩

/-- The block list from `kheap_start` tiles the heap, and the counters are exact. -/
structure Blocks (h : Kheap) (list : List (Nat × BlockInfo)) : Prop where
  start : h.start = some heapStart
  first : firstPtr none list = some heapStart
  linked : Linked (fun addr => some (blockAt h.mem addr)) none list none
  tiles : Tiles blockHeader heapStart (blockPieces list) (heapStart + heapSize)
  info : ∀ block ∈ list, block.2.magic = blockMagic ∧ 8 ∣ block.2.size
  stats : h.stats = statsOf (blockPieces list)

section
variable {h h' : Kheap} {left right list : List (Nat × BlockInfo)} {addr next size : Nat} {info nextInfo : BlockInfo}

@[simp] theorem blockPieces_append : blockPieces (left ++ right) = blockPieces left ++ blockPieces right := List.map_append

@[simp] theorem blockPieces_cons {block : Nat × BlockInfo} :
    blockPieces (block :: list) = blockPiece block :: blockPieces list := rfl

@[simp] theorem blockPieces_length : (blockPieces list).length = list.length := List.length_map _

/-- The blocks have different addresses. -/
theorem Blocks.nodup (blocks : Blocks h list) : (list.map Prod.fst).Nodup := by
  have positions := blocks.tiles.nodup (by decide)
  rw [blockPieces, List.map_map] at positions
  exact positions

/-- The bytes of two blocks lie apart. -/
theorem tiles_apart {start stop : Nat} (tiles : Tiles blockHeader start (blockPieces list) stop)
    {first second : Nat × BlockInfo} (inside : first ∈ list) (inside' : second ∈ list) (different : first.1 ≠ second.1) :
    first.1 + blockHeader + first.2.size ≤ second.1 ∨ second.1 + blockHeader + second.2.size ≤ first.1 := by
  have different' : blockPiece first ≠ blockPiece second := fun same => different (congrArg Piece.position same)
  exact tiles.apart_of_mem (List.mem_map_of_mem inside) (List.mem_map_of_mem inside') different'

/-- The headers of two blocks lie apart. -/
theorem tiles_header_apart {start stop first second : Nat} (tiles : Tiles blockHeader start (blockPieces list) stop)
    (inside : first ∈ list.map Prod.fst) (inside' : second ∈ list.map Prod.fst) (different : first ≠ second) :
    first + blockHeader ≤ second ∨ second + blockHeader ≤ first := by
  obtain ⟨block, member, same⟩ := List.mem_map.mp inside
  obtain ⟨block', member', same'⟩ := List.mem_map.mp inside'
  rw [← same, ← same'] at different ⊢
  have apart := tiles_apart tiles member member' different
  omega

/-- The sizes and the headers of all blocks add up to the heap. -/
theorem Blocks.total (blocks : Blocks h list) :
    usedSize (blockPieces list) + freeSize (blockPieces list) + blockHeader * list.length = heapSize := by
  have last := blocks.tiles.stop_eq
  rw [extent_eq, blockPieces_length] at last
  omega

theorem Blocks.length_le (blocks : Blocks h list) : list.length ≤ heapSize := by
  have total := blocks.total
  simp only [blockHeader] at total
  omega

/-- The bytes of one block lie in the heap. -/
theorem Blocks.inside (blocks : Blocks h list) {block : Nat × BlockInfo} (member : block ∈ list) :
    heapStart ≤ block.1 ∧ block.1 + blockHeader + block.2.size ≤ heapStart + heapSize := by
  obtain ⟨left, right, split⟩ := List.append_of_mem member
  have tiles := blocks.tiles
  rw [split, blockPieces_append, blockPieces_cons] at tiles
  have position := tiles.position_eq
  simp only [blockPiece] at position
  omega

theorem Blocks.node (blocks : Blocks h (left ++ (addr, info) :: right)) :
    blockAt h.mem addr = ⟨lastPtr none left, firstPtr none right, info⟩ :=
  Option.some.inj blocks.linked.node

/-- The block behind a list is one of its blocks. -/
theorem firstPtr_block (first : firstPtr none list = some addr) : ∃ info, (addr, info) ∈ list := by
  obtain ⟨block, member, same⟩ := List.mem_map.mp (firstPtr_mem first)
  exact ⟨block.2, by rw [← same]; exact member⟩

/-- Pointers to blocks are valid. -/
theorem Blocks.ptr (blocks : Blocks h list) (member : (addr, info) ∈ list) : some addr ≠ some 0 ∧ addr < 2 ^ 64 := by
  have inside := blocks.inside member
  simp only [heapStart, heapSize, blockHeader] at inside
  refine ⟨?_, by omega⟩
  intro zero
  injection zero with zero
  omega

theorem Blocks.tail_ptr (blocks : Blocks h (left ++ right)) :
    firstPtr none right ≠ some 0 ∧ ofPtr (firstPtr none right) < 2 ^ 64 := by
  cases first : firstPtr none right with
  | none => exact ⟨nofun, by decide⟩
  | some next =>
      obtain ⟨info, member⟩ := firstPtr_block first
      exact blocks.ptr (List.mem_append_right _ member)

/-- The fields of the blocks of a changed list. -/
theorem Blocks.info_replace {info' : BlockInfo} (blocks : Blocks h (left ++ (addr, info) :: list))
    (here : info'.magic = blockMagic ∧ 8 ∣ info'.size) (tail : ∀ block ∈ right, block ∈ list) :
    ∀ block ∈ left ++ (addr, info') :: right, block.2.magic = blockMagic ∧ 8 ∣ block.2.size := by
  intro block member
  rcases List.mem_append.mp member with early | late
  · exact blocks.info block (List.mem_append_left _ early)
  · rcases List.mem_cons.mp late with isHere | behind
    · rw [isHere]
      exact here
    · exact blocks.info block (List.mem_append_right _ (List.mem_cons_of_mem _ (tail block behind)))

/-- The blocks before and behind two neighbours are other blocks. -/
theorem Blocks.rest_ne (blocks : Blocks h (left ++ (addr, info) :: (next, nextInfo) :: right)) :
    ∀ other ∈ (left ++ right).map Prod.fst,
      other ∈ (left ++ (addr, info) :: (next, nextInfo) :: right).map Prod.fst ∧ other ≠ addr := by
  intro other member
  have apart := nodup_middle left [(addr, info), (next, nextInfo)] right (by simpa using blocks.nodup)
  rw [List.map_append, List.mem_append] at member
  rcases member with early | late
  · exact ⟨by simp [early], fun same => (apart.1 other early).1 (by simp [same])⟩
  · exact ⟨by simp [late], fun same => apart.2.1 other late (by simp [same])⟩

/-- The headers after a block took in its successor. -/
theorem Blocks.absorb_mem {mem : Bytes} (blocks : Blocks h (left ++ (addr, info) :: (next, nextInfo) :: right))
    (fits : size < 2 ^ 64) (stored : mem = relink (setNext (setSize h.mem addr size) addr (firstPtr none right))
      (firstPtr none right) addr) :
    Linked (fun query => some (blockAt mem query)) none (left ++ (addr, { info with size := size }) :: right) none ∧
      SameApart blockHeader h.mem mem ((left ++ (addr, { info with size := size }) :: right).map Prod.fst) := by
  have here := blocks.node
  have blocks₂ : Blocks h ((left ++ [(addr, info), (next, nextInfo)]) ++ right) := by simpa using blocks
  obtain ⟨validPtr, smallPtr⟩ := blocks₂.tail_ptr
  have memHere : addr ∈ (left ++ (addr, info) :: (next, nextInfo) :: right).map Prod.fst := by simp
  obtain ⟨validAddr, smallAddr⟩ := blocks.ptr (List.mem_append_right left List.mem_cons_self)
  have behind : ∀ other, firstPtr none right = some other → other ∈ (left ++ right).map Prod.fst := by
    intro other first
    rw [List.map_append]
    exact List.mem_append_right _ (firstPtr_mem first)
  generalize set₂ : setNext (setSize h.mem addr size) addr (firstPtr none right) = mem₂ at stored
  have here₂ : blockAt mem₂ addr = ⟨lastPtr none left, firstPtr none right, { info with size := size }⟩ := by
    rw [← set₂, blockAt_setNext _ validPtr smallPtr, blockAt_setSize _ fits, here]
  have same₂ : SameApart blockHeader h.mem mem₂ [addr] := by
    rw [← set₂]
    exact (setSize_same _ _ _).trans (setNext_same _ _ _)
  have same₃ := relink_same mem₂ (firstPtr none right) addr
  have others₂ : ∀ other ∈ (left ++ right).map Prod.fst, blockAt mem₂ other = blockAt h.mem other := by
    intro other member
    refine blockAt_apart same₂ ?_
    intro record isRecord
    rw [List.mem_singleton.mp isRecord]
    exact tiles_header_apart blocks.tiles (blocks.rest_ne other member).1 memHere (blocks.rest_ne other member).2
  have others₃ : ∀ other ∈ (left ++ (addr, info) :: (next, nextInfo) :: right).map Prod.fst,
      firstPtr none right ≠ some other →
      blockAt (relink mem₂ (firstPtr none right) addr) other = blockAt mem₂ other := by
    intro other member notFirst
    refine blockAt_apart same₃ ?_
    intro record isRecord
    rw [Option.mem_toList] at isRecord
    have isOther := (blocks.rest_ne record (behind record isRecord)).1
    exact tiles_header_apart blocks.tiles member isOther fun same => notFirst (same ▸ isRecord)
  rw [stored]
  refine ⟨blocks.linked.remove blocks.nodup ?_ ?_ ?_, (same₂.mono ?_).trans (same₃.mono ?_)⟩
  · rw [others₃ addr memHere fun first => (blocks.rest_ne addr (behind addr first)).2 rfl, here₂]
  · intro other node first atOther
    injection atOther with atOther
    rw [first, relink, blockAt_setPrev _ validAddr smallAddr, others₂ other (behind other first), atOther]
  · intro other member notFirst
    rw [others₃ other (blocks.rest_ne other member).1 notFirst, others₂ other member]
  · intro record isRecord
    simp [List.mem_singleton.mp isRecord]
  · intro record isRecord
    have member := behind record (Option.mem_toList.mp isRecord)
    rw [List.map_append, List.mem_append] at member
    rw [List.map_append, List.map_cons, List.mem_append, List.mem_cons]
    exact member.imp_right Or.inr

theorem kheapAbsorb_start (h : Kheap) (current next : Nat) : (kheapAbsorb h current next).start = h.start := by
  simp only [kheapAbsorb]

theorem kheapAbsorb_stats (h : Kheap) (current next : Nat) : (kheapAbsorb h current next).stats = { h.stats with
    totalBlocks := sub64 h.stats.totalBlocks 1
    freeSize := wrap64 (h.stats.freeSize + blockHeader) } := by
  simp only [kheapAbsorb]

/-- A free block takes in its free successor. -/
theorem Blocks.absorb (blocks : Blocks h (left ++ (addr, info) :: (next, nextInfo) :: right)) (free : info.used = false)
    (nextFree : nextInfo.used = false) :
    Blocks (kheapAbsorb h addr next)
        (left ++ (addr, { info with size := info.size + blockHeader + nextInfo.size }) :: right) ∧
      SameApart blockHeader h.mem (kheapAbsorb h addr next).mem
        ((left ++ (addr, { info with size := info.size + blockHeader + nextInfo.size }) :: right).map Prod.fst) := by
  have total := blocks.total
  have tiles := blocks.tiles
  have blocks₁ : Blocks h ((left ++ [(addr, info)]) ++ (next, nextInfo) :: right) := by simpa using blocks
  have isHere : (addr, info) ∈ left ++ (addr, info) :: (next, nextInfo) :: right := by simp
  have isNext : (next, nextInfo) ∈ left ++ (addr, info) :: (next, nextInfo) :: right := by simp
  have sizeFits : info.size + blockHeader + nextInfo.size < 2 ^ 64 := by
    have inside := blocks.inside isHere
    have inside' := blocks.inside isNext
    simp only [blockHeader, heapStart, heapSize] at inside inside' ⊢
    omega
  have mem : (kheapAbsorb h addr next).mem = relink (setNext (setSize h.mem addr
      (info.size + blockHeader + nextInfo.size)) addr (firstPtr none right)) (firstPtr none right) addr := by
    unfold kheapAbsorb
    rw [blocks.node, blocks₁.node]
    dsimp only
    rw [← Nat.add_assoc, wrap64_of_lt sizeFits]
  obtain ⟨linked, same⟩ := blocks.absorb_mem sizeFits mem
  rw [blockPieces_append, blockPieces_cons, blockPieces_cons] at tiles total
  refine ⟨⟨?_, ?_, linked, ?_, ?_, ?_⟩, same⟩
  · rw [kheapAbsorb_start]
    exact blocks.start
  · rw [← blocks.first]
    exact firstPtr_middle
  · rw [blockPieces_append, blockPieces_cons]
    exact tiles.merge rfl rfl
  · have hereInfo := blocks.info _ isHere
    have nextInfo := blocks.info _ isNext
    exact blocks.info_replace ⟨hereInfo.1, Nat.dvd_add (Nat.dvd_add hereInfo.2 (by decide)) nextInfo.2⟩
      fun block => List.mem_cons_of_mem _
  · rw [kheapAbsorb_stats, blocks.stats]
    simp [statsOf, blockPiece, free, nextFree, blockHeader, heapSize] at total ⊢
    refine ⟨?_, ?_⟩
    · rw [wrap64_of_lt (by omega)]
      omega
    · rw [sub64_of_le (by omega) (by omega)]
      omega

/-- One block gets a new usage flag. -/
theorem Blocks.setUsed {used : Bool} (blocks : Blocks h (left ++ (addr, info) :: right)) (start : h'.start = h.start)
    (mem : h'.mem = setUsed h.mem addr used)
    (stats : h'.stats = statsOf (blockPieces (left ++ (addr, { info with used := used }) :: right))) :
    Blocks h' (left ++ (addr, { info with used := used }) :: right) ∧
      SameApart blockHeader h.mem h'.mem ((left ++ (addr, { info with used := used }) :: right).map Prod.fst) := by
  have tiles := blocks.tiles
  have same := setUsed_same h.mem addr used
  have apart := nodup_middle left [(addr, info)] right (by simpa using blocks.nodup)
  rw [blockPieces_append, blockPieces_cons] at tiles
  refine ⟨⟨start.trans blocks.start, ?_, ?_, ?_, ?_, stats⟩, ?_⟩
  · rw [← blocks.first]
    exact firstPtr_middle
  · rw [mem]
    refine blocks.linked.setValue ?_ ?_
    · rw [blockAt_setUsed, blocks.node]
    · intro other member
      rw [List.map_append, List.mem_append] at member
      rw [blockAt_apart same]
      intro record isRecord
      rw [List.mem_singleton.mp isRecord]
      rcases member with early | late
      · exact tiles_header_apart blocks.tiles (by simp [early]) (by simp) fun clash => (apart.1 other early).1 (by simp [clash])
      · exact tiles_header_apart blocks.tiles (by simp [late]) (by simp) fun clash => apart.2.1 other late (by simp [clash])
  · rw [blockPieces_append, blockPieces_cons]
    exact tiles.mark rfl rfl
  · exact blocks.info_replace (blocks.info (addr, info) (by simp)) fun _ member => member
  · rw [mem]
    refine same.mono ?_
    intro record isRecord
    simp [List.mem_singleton.mp isRecord]

/-- A free block is marked used. -/
theorem Blocks.use (blocks : Blocks h (left ++ (addr, info) :: right)) (free : info.used = false) :
    Blocks (kmallocUse h addr) (left ++ (addr, { info with used := true }) :: right) ∧
      SameApart blockHeader h.mem (kmallocUse h addr).mem
        ((left ++ (addr, { info with used := true }) :: right).map Prod.fst) := by
  have total := blocks.total
  have count := usedCount_le (blockPieces left)
  have count' := usedCount_le (blockPieces right)
  refine blocks.setUsed (by simp only [kmallocUse]) (by simp only [kmallocUse]) ?_
  simp only [kmallocUse, blockAt_setUsed, blocks.node, blocks.stats]
  simp [statsOf, blockPiece, free, blockHeader, heapSize] at total count count' ⊢
  refine ⟨?_, ?_, ?_⟩
  · rw [wrap64_of_lt (by omega)]
    omega
  · rw [sub64_of_le (by omega) (by omega)]
    omega
  · rw [wrap64_of_lt (by omega)]
    omega

/-- A used block is marked free. -/
theorem Blocks.release (blocks : Blocks h (left ++ (addr, info) :: right)) (used : info.used = true) :
    Blocks (kfreeRelease h addr) (left ++ (addr, { info with used := false }) :: right) ∧
      SameApart blockHeader h.mem (kfreeRelease h addr).mem
        ((left ++ (addr, { info with used := false }) :: right).map Prod.fst) := by
  have total := blocks.total
  have count := usedCount_le (blockPieces left)
  have count' := usedCount_le (blockPieces right)
  refine blocks.setUsed (by simp only [kfreeRelease]) (by simp only [kfreeRelease]) ?_
  simp only [kfreeRelease, blockAt_setUsed, blocks.node, blocks.stats]
  simp [statsOf, blockPiece, used, blockHeader, heapSize] at total count count' ⊢
  refine ⟨?_, ?_, ?_⟩
  · rw [sub64_of_le (by omega) (by omega)]
    omega
  · rw [wrap64_of_lt (by omega)]
    omega
  · rw [sub64_of_le (by omega) (by omega)]
    omega

/-- The header that `kmalloc` writes into the rest of a block. -/
theorem blockAt_newBlock (mem : Bytes) (new : Nat) {prev : Nat} {after : Option Nat} (fits : size < 2 ^ 64)
    (validPrev : some prev ≠ some 0 ∧ prev < 2 ^ 64) (validPtr : after ≠ some 0 ∧ ofPtr after < 2 ^ 64) :
    blockAt (Mem.setPrev (setNext (Mem.setUsed (setSize (setMagic mem new blockMagic) new size) new false) new after) new
      (some prev)) new = ⟨some prev, after, ⟨blockMagic, size, false⟩⟩ := by
  rw [blockAt_setPrev _ validPrev.1 validPrev.2, blockAt_setNext _ validPtr.1 validPtr.2, blockAt_setUsed,
    blockAt_setSize _ fits, blockAt_setMagic _ (by decide)]

/-- The headers after the rest of a block was cut off. -/
theorem Blocks.split_mem {mem mem₅ : Bytes} {new : Nat} {newInfo : BlockInfo}
    (blocks : Blocks h (left ++ (addr, info) :: right)) (fits : size < 2 ^ 64)
    (tiles : Tiles blockHeader heapStart (blockPieces (left ++ (addr, { info with size := size }) :: (new, newInfo) :: right))
      (heapStart + heapSize))
    (written : SameApart blockHeader h.mem mem₅ [new])
    (added : blockAt mem₅ new = ⟨some addr, firstPtr none right, newInfo⟩) (validNew : some new ≠ some 0 ∧ new < 2 ^ 64)
    (stored : mem = setNext (setSize (relink mem₅ (firstPtr none right) new) addr size) addr (some new)) :
    Linked (fun query => some (blockAt mem query)) none
        (left ++ (addr, { info with size := size }) :: (new, newInfo) :: right) none ∧
      SameApart blockHeader h.mem mem
        ((left ++ (addr, { info with size := size }) :: (new, newInfo) :: right).map Prod.fst) := by
  have nodup : ((left ++ (addr, { info with size := size }) :: (new, newInfo) :: right).map Prod.fst).Nodup := by
    have positions := tiles.nodup (by decide)
    rw [blockPieces, List.map_map] at positions
    exact positions
  have apart := nodup_middle left [(addr, { info with size := size }), (new, newInfo)] right (by simpa using nodup)
  generalize whole : left ++ (addr, { info with size := size }) :: (new, newInfo) :: right = list' at tiles nodup
  have memHere : addr ∈ list'.map Prod.fst := by simp [← whole]
  have memNew : new ∈ list'.map Prod.fst := by simp [← whole]
  have differ : addr ≠ new := by
    intro same
    rw [← whole, List.map_append, List.map_cons, List.map_cons, same] at nodup
    exact (List.nodup_cons.mp (List.nodup_append.mp nodup).2.1).1 List.mem_cons_self
  have rest : ∀ other ∈ (left ++ right).map Prod.fst, other ∈ list'.map Prod.fst ∧ other ≠ addr ∧ other ≠ new := by
    intro other member
    rw [List.map_append, List.mem_append] at member
    rcases member with early | late
    · have away := (apart.1 other early).1
      simp only [List.map_cons, List.map_nil, List.mem_cons, List.not_mem_nil, or_false, not_or] at away
      exact ⟨by simp [← whole, early], away⟩
    · have away := apart.2.1 other late
      simp only [List.map_cons, List.map_nil, List.mem_cons, List.not_mem_nil, or_false, not_or] at away
      exact ⟨by simp [← whole, late], away⟩
  have behind : ∀ other, firstPtr none right = some other → other ∈ (left ++ right).map Prod.fst := by
    intro other first
    rw [List.map_append]
    exact List.mem_append_right _ (firstPtr_mem first)
  have same₆ := relink_same mem₅ (firstPtr none right) new
  have same₇ : SameApart blockHeader (relink mem₅ (firstPtr none right) new) mem [addr] := by
    rw [stored]
    exact (setSize_same _ _ _).trans (setNext_same _ _ _)
  have step₅ : ∀ other ∈ list'.map Prod.fst, other ≠ new → blockAt mem₅ other = blockAt h.mem other := by
    intro other member different
    refine blockAt_apart written ?_
    intro record isRecord
    rw [List.mem_singleton.mp isRecord]
    exact tiles_header_apart tiles member memNew different
  have step₆ : ∀ other ∈ list'.map Prod.fst, firstPtr none right ≠ some other →
      blockAt (relink mem₅ (firstPtr none right) new) other = blockAt mem₅ other := by
    intro other member notFirst
    refine blockAt_apart same₆ ?_
    intro record isRecord
    rw [Option.mem_toList] at isRecord
    exact tiles_header_apart tiles member (rest record (behind record isRecord)).1 fun same => notFirst (same ▸ isRecord)
  have step₇ : ∀ other ∈ list'.map Prod.fst, other ≠ addr →
      blockAt mem other = blockAt (relink mem₅ (firstPtr none right) new) other := by
    intro other member different
    refine blockAt_apart same₇ ?_
    intro record isRecord
    rw [List.mem_singleton.mp isRecord]
    exact tiles_header_apart tiles member memHere different
  have notFirst (query : Nat) (outside : query = addr ∨ query = new) : firstPtr none right ≠ some query := by
    intro first
    have away := rest query (behind query first)
    rcases outside with same | same
    · exact away.2.1 same
    · exact away.2.2 same
  rw [← whole]
  refine ⟨blocks.linked.insert blocks.nodup ?_ ?_ ?_ ?_, ((written.mono ?_).trans (same₆.mono ?_)).trans (same₇.mono ?_)⟩
  · rw [stored, blockAt_setNext _ validNew.1 validNew.2, blockAt_setSize _ fits,
      step₆ addr memHere (notFirst addr (Or.inl rfl)), step₅ addr memHere differ, blocks.node]
  · rw [step₇ new memNew (Ne.symm differ), step₆ new memNew (notFirst new (Or.inr rfl)), added]
  · intro other node first atOther
    injection atOther with atOther
    obtain ⟨member, notHere, notNew⟩ := rest other (behind other first)
    rw [step₇ other member notHere, first, relink, blockAt_setPrev _ validNew.1 validNew.2, step₅ other member notNew,
      atOther]
  · intro other member notAfter
    obtain ⟨member', notHere, notNew⟩ := rest other member
    rw [step₇ other member' notHere, step₆ other member' notAfter, step₅ other member' notNew]
  · intro record isRecord
    rw [List.mem_singleton.mp isRecord, whole]
    exact memNew
  · intro record isRecord
    rw [whole]
    exact (rest record (behind record (Option.mem_toList.mp isRecord))).1
  · intro record isRecord
    rw [List.mem_singleton.mp isRecord, whole]
    exact memHere

/-- A free block is cut into two. -/
theorem Blocks.split (blocks : Blocks h (left ++ (addr, info) :: right)) (free : info.used = false)
    (whole : 8 ∣ size) (room : size + blockHeader ≤ info.size) :
    let rest : BlockInfo := ⟨blockMagic, info.size - size - blockHeader, false⟩
    Blocks (kmallocSplit h addr size)
        (left ++ (addr, { info with size := size }) :: (addr + blockHeader + size, rest) :: right) ∧
      SameApart blockHeader h.mem (kmallocSplit h addr size).mem
        ((left ++ (addr, { info with size := size }) :: (addr + blockHeader + size, rest) :: right).map Prod.fst) := by
  intro rest
  have total := blocks.total
  have isHere : (addr, info) ∈ left ++ (addr, info) :: right := by simp
  have inside := blocks.inside isHere
  have hereInfo := blocks.info _ isHere
  have blocks₁ : Blocks h ((left ++ [(addr, info)]) ++ right) := by simpa using blocks
  simp only [heapStart, heapSize] at inside
  have tiles : Tiles blockHeader heapStart
      (blockPieces (left ++ (addr, { info with size := size }) :: (addr + blockHeader + size, rest) :: right))
      (heapStart + heapSize) := by
    have old := blocks.tiles
    rw [blockPieces_append, blockPieces_cons] at old ⊢
    refine old.split rfl rfl ?_
    simp only [blockPiece, rest]
    omega
  have wrapped : wrap64 (addr + blockHeader + size) = addr + blockHeader + size := wrap64_of_lt (by omega)
  have restSize : sub64 (sub64 info.size size) blockHeader = info.size - size - blockHeader := by
    have inner : sub64 info.size size = info.size - size := sub64_of_le (by omega) (by omega)
    rw [inner, sub64_of_le (by omega) (by omega)]
  have restFits : info.size - size - blockHeader < 2 ^ 64 := by omega
  have added := blockAt_newBlock h.mem (addr + blockHeader + size) restFits (blocks.ptr isHere) blocks₁.tail_ptr
  have mem : (kmallocSplit h addr size).mem = setNext (setSize (relink (Mem.setPrev (setNext (Mem.setUsed (setSize
      (setMagic h.mem (addr + blockHeader + size) blockMagic) (addr + blockHeader + size)
      (info.size - size - blockHeader)) (addr + blockHeader + size) false) (addr + blockHeader + size)
      (firstPtr none right)) (addr + blockHeader + size) (some addr)) (firstPtr none right) (addr + blockHeader + size))
      addr size) addr (some (addr + blockHeader + size)) := by
    simp only [kmallocSplit, blocks.node, wrapped, restSize]
  have written : SameApart blockHeader h.mem (Mem.setPrev (setNext (Mem.setUsed (setSize
      (setMagic h.mem (addr + blockHeader + size) blockMagic) (addr + blockHeader + size)
      (info.size - size - blockHeader)) (addr + blockHeader + size) false) (addr + blockHeader + size)
      (firstPtr none right)) (addr + blockHeader + size) (some addr)) [addr + blockHeader + size] :=
    ((((setMagic_same _ _ _).trans (setSize_same _ _ _)).trans (setUsed_same _ _ _)).trans (setNext_same _ _ _)).trans
      (setPrev_same _ _ _)
  have validNew : some (addr + blockHeader + size) ≠ some 0 ∧ addr + blockHeader + size < 2 ^ 64 := by
    refine ⟨?_, by omega⟩
    intro zero
    injection zero with zero
    omega
  obtain ⟨linked, same⟩ := blocks.split_mem (by omega) tiles written added validNew mem
  refine ⟨⟨?_, ?_, linked, tiles, ?_, ?_⟩, same⟩
  · simp only [kmallocSplit]
    exact blocks.start
  · rw [← blocks.first]
    exact firstPtr_middle
  · intro block member
    rcases List.mem_append.mp member with early | late
    · exact blocks.info block (List.mem_append_left _ early)
    · rcases List.mem_cons.mp late with atHere | late
      · rw [atHere]
        exact ⟨hereInfo.1, whole⟩
      · rcases List.mem_cons.mp late with atNew | behind
        · rw [atNew]
          refine ⟨rfl, Nat.dvd_sub (Nat.dvd_sub hereInfo.2 whole) (by decide)⟩
        · exact blocks.info block (by simp [behind])
  · simp only [kmallocSplit, blocks.stats]
    simp [statsOf, blockPiece, free, blockHeader, heapSize, rest] at total room ⊢
    refine ⟨?_, ?_⟩
    · rw [sub64_of_le (by omega) (by omega)]
      omega
    · rw [wrap64_of_lt (by omega)]
      omega

end

end DoccrOS.Mem
