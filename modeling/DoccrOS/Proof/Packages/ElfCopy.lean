import DoccrOS.Construction.Packages.ElfReads
import DoccrOS.Proof.Packages.ElfSegments

namespace DoccrOS.Packages
open Lib Mem

/-- The frame and the offset of a byte of the segment. -/
def bytePlace (getPhys : Nat → Nat) (va : Nat) : Nat × Nat := (getPhys (pageAlignDown va), va % pageSize)

/-- The stored bytes of a list of accesses, in their order. -/
def storedPlaces (log : List CopyAccess) : List (Nat × Nat) :=
  log.filterMap fun
    | .store frame offset => some (frame, offset)
    | .read _ => none

/-- The read bytes of a list of accesses, in their order. -/
def readIndices (log : List CopyAccess) : List Nat :=
  log.filterMap fun
    | .store _ _ => none
    | .read index => some index

/-- The pages of a range are mapped to different frames. -/
structure PagesMapped (getPhys : Nat → Nat) (start count : Nat) : Prop where
  mapped : ∀ va, start ≤ va → va < start + count → getPhys (pageAlignDown va) ≠ 0
  injective : ∀ va va', start ≤ va → va < start + count → start ≤ va' → va' < start + count →
    getPhys (pageAlignDown va) = getPhys (pageAlignDown va') → pageAlignDown va = pageAlignDown va'

/-- The accesses and the bytes of a segment that was filled. Every byte is stored once, and no other byte is stored. -/
structure SegmentCopied (image : Image) (getPhys : Nat → Nat) (m m' : Machine) (src rem cursor left : Nat)
    (log : List CopyAccess) : Prop where
  stores : storedPlaces log = (List.range left).map fun k => bytePlace getPhys (cursor + k)
  once : (storedPlaces log).Nodup
  reads : readIndices log = (List.range rem).map fun k => wrap64 (src + k)
  bytes : ∀ k < left, m'.loadByte (bytePlace getPhys (cursor + k)).1 (bytePlace getPhys (cursor + k)).2 = fileByte image src rem k
  kept : ∀ frame offset, offset < pageSize → (frame, offset) ∉ storedPlaces log → m'.loadByte frame offset = m.loadByte frame offset

section
variable {image : Image} {getPhys : Nat → Nat} {m m' : Machine} {src rem cursor left fuel chunk : Nat}
  {before after : List CopyAccess}

theorem storedPlaces_append : storedPlaces (before ++ after) = storedPlaces before ++ storedPlaces after :=
  List.filterMap_append

theorem readIndices_append : readIndices (before ++ after) = readIndices before ++ readIndices after := List.filterMap_append

theorem PagesMapped.rest (mapped : PagesMapped getPhys cursor left) (some : chunk ≤ left) :
    PagesMapped getPhys (cursor + chunk) (left - chunk) where
  mapped va least most := mapped.mapped va (by omega) (by omega)
  injective va va' least most least' most' := mapped.injective va va' (by omega) (by omega) (by omega) (by omega)

/-- Two bytes of a mapped range have different places. -/
theorem PagesMapped.place_inj (mapped : PagesMapped getPhys cursor left) {j k : Nat} (inside : j < left) (inside' : k < left)
    (same : bytePlace getPhys (cursor + j) = bytePlace getPhys (cursor + k)) : j = k := by
  have page := mapped.injective _ _ (by omega) (by omega) (by omega) (by omega) (congrArg Prod.fst same)
  have offset : (cursor + j) % pageSize = (cursor + k) % pageSize := congrArg Prod.snd same
  rw [pageAlignDown, pageAlignDown] at page
  have small := Nat.mod_le (cursor + j) pageSize
  have small' := Nat.mod_le (cursor + k) pageSize
  omega

theorem PagesMapped.places_nodup (mapped : PagesMapped getPhys cursor left) :
    ((List.range left).map fun k => bytePlace getPhys (cursor + k)).Nodup := by
  apply List.Nodup.map_on _ List.nodup_range
  intro j inside k inside' same
  exact mapped.place_inj (List.mem_range.mp inside) (List.mem_range.mp inside') same

/-- The bytes of a chunk stand next to each other in the frame of its page. -/
theorem bytePlace_chunk {k : Nat} (inside : cursor % pageSize + k < pageSize) :
    bytePlace getPhys (cursor + k) = (getPhys (pageAlignDown cursor), cursor % pageSize + k) := by
  have remainder : (cursor + k) % pageSize = cursor % pageSize + k := by
    rw [pageSize] at inside ⊢
    omega
  have page : pageAlignDown (cursor + k) = pageAlignDown cursor := by
    rw [pageAlignDown, pageAlignDown, remainder]
    have small := Nat.mod_le cursor pageSize
    omega
  rw [bytePlace, page, remainder]

/-- The accesses of one round of the loop. -/
def roundAccesses (frame offset src copy chunk : Nat) : List CopyAccess :=
  ((indices src copy).map .read ++ (List.range copy).map fun k => .store frame (offset + k)) ++
    (List.range (chunk - copy)).map fun k => .store frame (offset + copy + k)

/-- A round stores the bytes of its chunk and reads the bytes that it copies. -/
theorem roundAccesses_split (frame offset src : Nat) {copy chunk : Nat} (some : copy ≤ chunk) :
    storedPlaces (roundAccesses frame offset src copy chunk) = ((List.range chunk).map fun k => (frame, offset + k)) ∧
      readIndices (roundAccesses frame offset src copy chunk) = (List.range copy).map fun k => wrap64 (src + k) := by
  have split : List.range chunk = List.range copy ++ (List.range (chunk - copy)).map (copy + ·) := by
    rw [← List.range_add, Nat.add_sub_cancel' some]
  have noStores (list : List Nat) : storedPlaces (list.map .read) = [] := by
    rw [storedPlaces, List.filterMap_map]
    exact List.filterMap_none _
  have noReads (list : List Nat) (base : Nat) : readIndices (list.map fun k => .store frame (base + k)) = [] := by
    rw [readIndices, List.filterMap_map]
    exact List.filterMap_none _
  have stored (list : List Nat) (base : Nat) :
      storedPlaces (list.map fun k => .store frame (base + k)) = list.map fun k => (frame, base + k) := by
    rw [storedPlaces, List.filterMap_map]
    exact congrFun List.filterMap_eq_map list
  have read (list : List Nat) : readIndices (list.map .read) = list := by
    rw [readIndices, List.filterMap_map]
    exact List.filterMap_some
  constructor
  · rw [roundAccesses, storedPlaces_append, storedPlaces_append, noStores, stored, stored, split, List.map_append,
      List.map_map, List.nil_append]
    simp only [Function.comp_def, Nat.add_assoc]
  · rw [roundAccesses, readIndices_append, readIndices_append, noReads, noReads, read, List.append_nil, List.append_nil]
    rfl

/-- The machine after one round of the loop. -/
def roundStores (image : Image) (m : Machine) (frame offset src copy chunk : Nat) : Machine :=
  writeBytes (writeBytes m frame offset copy fun k => image.data (wrap64 (src + k))) frame (offset + copy) (chunk - copy) fun _ => 0

/-- One round of the loop on a mapped page. -/
theorem copySegment_round (m : Machine) (src rem fuel : Nat) (positive : 0 < left) (nonzero : getPhys (pageAlignDown cursor) ≠ 0) :
    let chunk := min (pageSize - cursor % pageSize) left
    let copy := min chunk rem
    let frame := getPhys (pageAlignDown cursor)
    let rest := copySegment image getPhys fuel (roundStores image m frame (cursor % pageSize) src copy chunk)
      (wrap64 (src + copy)) (rem - copy) (wrap64 (cursor + chunk)) (left - chunk)
    copySegment image getPhys (fuel + 1) m src rem cursor left =
      ⟨roundAccesses frame (cursor % pageSize) src copy chunk ++ rest.log, rest.result⟩ := by
  have offset : cursor - pageAlignDown cursor = cursor % pageSize := by
    rw [pageAlignDown]
    have small := Nat.mod_le cursor pageSize
    omega
  intro chunk copy frame rest
  rw [copySegment, if_pos positive]
  simp only [offset, if_neg nonzero]
  rw [roundAccesses, List.append_assoc]
  rfl

/-- The first bytes of a range are those of its chunk, and the others those of the rest. -/
theorem range_places (fits : cursor % pageSize + chunk ≤ pageSize) (some : chunk ≤ left) :
    ((List.range left).map fun k => bytePlace getPhys (cursor + k)) =
      ((List.range chunk).map fun k => (getPhys (pageAlignDown cursor), cursor % pageSize + k)) ++
        (List.range (left - chunk)).map fun k => bytePlace getPhys (cursor + chunk + k) := by
  have split : List.range left = List.range chunk ++ (List.range (left - chunk)).map (chunk + ·) := by
    rw [← List.range_add, Nat.add_sub_cancel' some]
  rw [split, List.map_append, List.map_map]
  congr 1
  · apply List.map_congr_left
    intro k inside
    have small := List.mem_range.mp inside
    exact bytePlace_chunk (by omega)
  · simp only [Function.comp_def, Nat.add_assoc]

/-- What a round and the rest of the loop do together. -/
theorem SegmentCopied.round {log : List CopyAccess} (mapped : PagesMapped getPhys cursor left)
    (fits : cursor % pageSize + chunk ≤ pageSize) (some : chunk ≤ left)
    (rest : SegmentCopied image getPhys
      (roundStores image m (getPhys (pageAlignDown cursor)) (cursor % pageSize) src (min chunk rem) chunk) m'
      (wrap64 (src + min chunk rem)) (rem - min chunk rem) (cursor + chunk) (left - chunk) log) :
    SegmentCopied image getPhys m m' src rem cursor left
      (roundAccesses (getPhys (pageAlignDown cursor)) (cursor % pageSize) src (min chunk rem) chunk ++ log) := by
  obtain ⟨roundPlaces, roundReads⟩ := roundAccesses_split (getPhys (pageAlignDown cursor)) (cursor % pageSize) src
    (Nat.min_le_left chunk rem)
  have places := @range_places getPhys cursor left chunk fits some
  have stores : storedPlaces (roundAccesses (getPhys (pageAlignDown cursor)) (cursor % pageSize) src (min chunk rem) chunk ++ log) =
      (List.range left).map fun k => bytePlace getPhys (cursor + k) := by
    rw [storedPlaces_append, roundPlaces, rest.stores, places]
  have once := mapped.places_nodup
  obtain ⟨_, bytes⟩ := @fillChunk_spec m {getPhys (pageAlignDown cursor)} _ _ image src rem chunk fits rfl
  refine ⟨stores, stores ▸ once, ?_, ?_, ?_⟩
  · have split : List.range rem = List.range (min chunk rem) ++ (List.range (rem - min chunk rem)).map (min chunk rem + ·) := by
      rw [← List.range_add, Nat.add_sub_cancel' (Nat.min_le_right chunk rem)]
    rw [readIndices_append, roundReads, rest.reads, split, List.map_append, List.map_map]
    congr 1
    apply List.map_congr_left
    intro k _
    rw [Function.comp_apply, wrap64, wrap64, wrap64, Nat.mod_add_mod, Nat.add_assoc]
  · intro k inside
    rcases Nat.lt_or_ge k chunk with early | late
    · have place : bytePlace getPhys (cursor + k) = _ := bytePlace_chunk (by omega)
      have apart : (getPhys (pageAlignDown cursor), cursor % pageSize + k) ∉ storedPlaces log := by
        rw [places, List.nodup_append'] at once
        rw [rest.stores]
        exact once.2.2 (List.mem_map_of_mem (f := fun k => (getPhys (pageAlignDown cursor), cursor % pageSize + k)) (List.mem_range.mpr early))
      have stored := bytes (getPhys (pageAlignDown cursor)) (cursor % pageSize + k) (by omega)
      rw [if_pos ⟨rfl, by omega, by omega⟩, Nat.add_sub_cancel_left] at stored
      rw [place, rest.kept _ _ (by omega) apart]
      exact stored
    · have later := rest.bytes (k - chunk) (by omega)
      rw [Nat.add_assoc, Nat.add_sub_cancel' late, fileByte_skip late] at later
      exact later
  · intro frame offset below outside
    rw [storedPlaces_append, List.mem_append, not_or, roundPlaces] at outside
    rw [rest.kept frame offset below outside.2]
    have same := bytes frame offset below
    rw [if_neg] at same
    · exact same
    · rintro ⟨rfl, least, most⟩
      apply outside.1
      refine List.mem_map.mpr ⟨offset - cursor % pageSize, List.mem_range.mpr (by omega), ?_⟩
      rw [Nat.add_sub_cancel' least]

/-- The loop fills the segment. The induction is on the fuel: a round stores what is left of the page at the cursor. -/
theorem copySegment_copied (enough : left ≤ fuel) (few : rem ≤ left) (whole : cursor + left < 2 ^ 64)
    (mapped : PagesMapped getPhys cursor left) (m : Machine) :
    ∃ m', (copySegment image getPhys fuel m src rem cursor left).result = .ok (true, m') ∧
      SegmentCopied image getPhys m m' src rem cursor left (copySegment image getPhys fuel m src rem cursor left).log := by
  induction fuel generalizing m src rem cursor left with
  | zero =>
      obtain rfl := Nat.le_zero.mp enough
      obtain rfl := Nat.le_zero.mp few
      exact ⟨m, rfl, rfl, List.nodup_nil, rfl, nofun, fun _ _ _ _ => rfl⟩
  | succ fuel inductionHypothesis =>
      rcases Nat.eq_zero_or_pos left with rfl | positive
      · obtain rfl := Nat.le_zero.mp few
        exact ⟨m, rfl, rfl, List.nodup_nil, rfl, nofun, fun _ _ _ _ => rfl⟩
      · have nonzero := mapped.mapped cursor (Nat.le_refl _) (by omega)
        have round := @copySegment_round image getPhys cursor left m src rem fuel positive nonzero
        have below : cursor % pageSize < pageSize := Nat.mod_lt _ (by decide)
        dsimp only at round
        generalize isChunk : min (pageSize - cursor % pageSize) left = chunk at round
        have noWrap : wrap64 (cursor + chunk) = cursor + chunk := Nat.mod_eq_of_lt (by omega)
        rw [noWrap] at round
        have fewer : rem - min chunk rem ≤ left - chunk := by omega
        have remains : left - chunk ≤ fuel := by omega
        obtain ⟨m', returned, rest⟩ := inductionHypothesis remains fewer (by omega) (mapped.rest (by omega))
          (roundStores image m (getPhys (pageAlignDown cursor)) (cursor % pageSize) src (min chunk rem) chunk)
        rw [round]
        exact ⟨m', returned, rest.round mapped (by omega) (by omega)⟩

/-- The loop of `elf_load` is this loop as long as its stores leave the mapping of its pages alone. -/
theorem fillSegment_copies {space : Space} {cells : Set Nat} (whole : cursor + left < 2 ^ 64)
    (frames : ∀ va, cursor ≤ va → va < cursor + left → getPhys (pageAlignDown va) ∈ cells)
    (lookups : ∀ m', DataStores m m' cells → ∀ va, cursor ≤ va → va < cursor + left →
      vmmSpaceGetPhys m' space (pageAlignDown va) = getPhys (pageAlignDown va)) :
    fillSegment image space fuel m src rem cursor left = (copySegment image getPhys fuel m src rem cursor left).result := by
  induction fuel generalizing m src rem cursor left with
  | zero =>
      rw [fillSegment, copySegment, Logged.result_ite]
      rfl
  | succ fuel inductionHypothesis =>
      rcases Nat.eq_zero_or_pos left with rfl | positive
      · rfl
      · have phys := lookups m (DataStores.refl m cells) cursor (Nat.le_refl _) (by omega)
        rw [fillSegment, if_pos positive]
        dsimp only
        rw [phys]
        by_cases unmapped : getPhys (pageAlignDown cursor) = 0
        · rw [if_pos unmapped, copySegment, if_pos positive]
          dsimp only
          rw [if_pos unmapped]
          rfl
        · have offset : cursor - pageAlignDown cursor = cursor % pageSize := by
            rw [pageAlignDown]
            have small := Nat.mod_le cursor pageSize
            omega
          have below : cursor % pageSize < pageSize := Nat.mod_lt _ (by decide)
          have round := @copySegment_round image getPhys cursor left m src rem fuel positive unmapped
          dsimp only at round
          rw [round, if_neg unmapped, offset]
          generalize isChunk : min (pageSize - cursor % pageSize) left = chunk
          have noWrap : wrap64 (cursor + chunk) = cursor + chunk := Nat.mod_eq_of_lt (by omega)
          obtain ⟨stores, _⟩ := @fillChunk_spec m cells (getPhys (pageAlignDown cursor)) (cursor % pageSize) image src rem chunk
            (by omega) (frames cursor (Nat.le_refl _) (by omega))
          rw [noWrap]
          apply inductionHypothesis (by omega)
          · exact fun va least most => frames va (by omega) (by omega)
          · exact fun m' later va least most => lookups m' (stores.trans later) va (by omega) (by omega)

end

/-- The loop of `elf_load` stores every byte of a mapped segment once: first those of the file, then zeroes. -/
theorem elf_segment_copied (image : Image) (getPhys : Nat → Nat) (m : Machine) (ph : Phdr)
    (whole : ph.pVaddr + ph.pMemsz < 2 ^ 64) (sizes : ph.pFilesz ≤ ph.pMemsz)
    (mapped : PagesMapped getPhys ph.pVaddr ph.pMemsz) :
    ∃ m', (copySegment image getPhys ph.pMemsz m ph.pOffset ph.pFilesz ph.pVaddr ph.pMemsz).result = .ok (true, m') ∧
      SegmentCopied image getPhys m m' ph.pOffset ph.pFilesz ph.pVaddr ph.pMemsz
        (copySegment image getPhys ph.pMemsz m ph.pOffset ph.pFilesz ph.pVaddr ph.pMemsz).log :=
  copySegment_copied (Nat.le_refl _) sizes whole mapped m

/-- A segment whose file part ends behind the first page. -/
def twoPages : Phdr := ⟨ptLoad, 5, 120, 0x400FFE, 3, 5⟩

theorem elf_segment_copied_two_pages :
    ∃ m', (copySegment ⟨123, fun _ => 7⟩ (· + pageSize) twoPages.pMemsz smallMachine twoPages.pOffset twoPages.pFilesz
        twoPages.pVaddr twoPages.pMemsz).result = .ok (true, m') ∧
      SegmentCopied ⟨123, fun _ => 7⟩ (· + pageSize) smallMachine m' twoPages.pOffset twoPages.pFilesz twoPages.pVaddr
        twoPages.pMemsz (copySegment ⟨123, fun _ => 7⟩ (· + pageSize) twoPages.pMemsz smallMachine twoPages.pOffset
          twoPages.pFilesz twoPages.pVaddr twoPages.pMemsz).log :=
  elf_segment_copied _ _ _ twoPages (by decide) (by decide)
    ⟨fun _ _ _ => Nat.succ_ne_zero _, fun _ _ _ _ _ _ same => Nat.add_right_cancel same⟩

end DoccrOS.Packages
