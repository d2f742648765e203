import DoccrOS.Construction.Packages.Elf
import DoccrOS.Lib.Run
import DoccrOS.Proof.Mem.DataStores
import DoccrOS.Proof.Mem.PageLaws
import DoccrOS.Proof.Mem.UserSpaces

namespace DoccrOS.Packages
open Lib Mem

/-- The byte at an offset of a segment: a byte of the file, or zero behind them. -/
def fileByte (image : Image) (src count k : Nat) : BitVec 8 := if k < count then image.data (wrap64 (src + k)) else 0

section
variable {m m' : Machine} {cells : Set Nat} {roots : Set Nat} {page offset count : Nat} {bytes : Nat → BitVec 8}
  {image : Image} {space : Space}

theorem writeBytes_spec (fits : offset + count ≤ pageSize) (inside : page ∈ cells) :
    DataStores m (writeBytes m page offset count bytes) cells ∧ ∀ other query, query < pageSize →
      (writeBytes m page offset count bytes).loadByte other query =
        if other = page ∧ offset ≤ query ∧ query < offset + count then bytes (query - offset)
        else m.loadByte other query := by
  let holds (i : Nat) (state : Machine) : Prop := DataStores m state cells ∧ ∀ other query, query < pageSize →
    state.loadByte other query =
      if other = page ∧ offset ≤ query ∧ query < offset + i then bytes (query - offset) else m.loadByte other query
  have start : holds 0 m := by
    refine ⟨DataStores.refl m cells, ?_⟩
    intro other query _
    rw [if_neg (by omega)]
  change holds count _
  refine foldl_range start ?_
  intro i state small held
  refine ⟨held.1.trans (storeByte_stores inside), ?_⟩
  intro other query below
  rw [loadByte_storeByte (by omega) below, held.2 other query below]
  by_cases last : other = page ∧ query = offset + i
  · rw [if_pos last, if_pos (by omega), last.2, Nat.add_sub_cancel_left]
  · rw [if_neg last]
    by_cases early : other = page ∧ offset ≤ query ∧ query < offset + i
    · rw [if_pos early, if_pos (by omega)]
    · rw [if_neg early, if_neg (by omega)]

/-- The bytes behind a chunk are those of the rest of the file. -/
theorem fileByte_skip {src rem chunk k : Nat} (skipped : chunk ≤ k) :
    fileByte image (wrap64 (src + min chunk rem)) (rem - min chunk rem) (k - chunk) = fileByte image src rem k := by
  unfold fileByte
  by_cases few : rem ≤ chunk
  · rw [Nat.min_eq_right few, Nat.sub_self, if_neg (Nat.not_lt_zero _), if_neg (by omega)]
  · rw [Nat.min_eq_left (by omega)]
    by_cases inside : k < rem
    · have same : wrap64 (wrap64 (src + chunk) + (k - chunk)) = wrap64 (src + k) := by
        unfold wrap64
        rw [Nat.mod_add_mod]
        congr 1
        omega
      rw [if_pos inside, if_pos (by omega), same]
    · rw [if_neg inside, if_neg (by omega)]

/-- One round of the loop of `elf_load` stores a chunk of a page. -/
theorem fillChunk_spec {src rem chunk : Nat} (fits : offset + chunk ≤ pageSize) (inside : page ∈ cells) :
    let m₁ := writeBytes m page offset (min chunk rem) fun k => image.data (wrap64 (src + k))
    let m₂ := writeBytes m₁ page (offset + min chunk rem) (chunk - min chunk rem) fun _ => 0
    DataStores m m₂ cells ∧ ∀ other query, query < pageSize → m₂.loadByte other query =
      if other = page ∧ offset ≤ query ∧ query < offset + chunk then fileByte image src rem (query - offset)
      else m.loadByte other query := by
  intro m₁ m₂
  have copied : offset + min chunk rem ≤ pageSize := by omega
  have cleared : offset + min chunk rem + (chunk - min chunk rem) ≤ pageSize := by omega
  obtain ⟨stores, bytes⟩ := @writeBytes_spec m cells page offset _ (fun k => image.data (wrap64 (src + k))) copied inside
  obtain ⟨stores', bytes'⟩ := @writeBytes_spec m₁ cells page _ _ (fun _ => 0) cleared inside
  refine ⟨stores.trans stores', ?_⟩
  intro other query below
  rw [bytes' other query below, bytes other query below]
  unfold fileByte
  by_cases here : other = page
  · simp only [here, true_and]
    by_cases copies : offset ≤ query ∧ query < offset + min chunk rem
    · rw [if_neg (by omega), if_pos copies, if_pos (by omega), if_pos (by omega)]
    · rw [if_neg copies]
      by_cases clears : offset + min chunk rem ≤ query ∧ query < offset + chunk
      · rw [if_pos (by omega), if_pos (by omega), if_neg (by omega)]
      · rw [if_neg (by omega), if_neg (by omega)]
  · simp only [here, false_and, if_false]

/-- What a space reads after a chunk was stored to one of its pages. -/
theorem userRead_chunk {src rem chunk cursor va : Nat} {entry : Word}
    (leaf : ∀ va, UserVa va → m'.findPte space.pml4Phys va = m.findPte space.pml4Phys va)
    (found : m.findPte space.pml4Phys cursor = some entry)
    (bytes : ∀ other query, query < pageSize → m'.loadByte other query =
      if other = entryAddr entry ∧ cursor % pageSize ≤ query ∧ query < cursor % pageSize + chunk then
        fileByte image src rem (query - cursor % pageSize)
      else m.loadByte other query)
    (fits : cursor % pageSize + chunk ≤ pageSize)
    (single : ∀ va' entry', UserVa va' → m.findPte space.pml4Phys va' = some entry' →
      entryAddr entry = entryAddr entry' → cursor / pageSize = va' / pageSize) (user : UserVa va) :
    userRead m' space va =
      if cursor ≤ va ∧ va < cursor + chunk then some (fileByte image src rem (va - cursor)) else userRead m space va := by
  have split (address : Nat) : address = address / pageSize * pageSize + address % pageSize := (Nat.div_add_mod' _ _).symm
  have below : va % pageSize < pageSize := Nat.mod_lt _ (by decide)
  unfold userRead
  rw [leaf va user]
  by_cases page : va / pageSize = cursor / pageSize
  · have found' : m.findPte space.pml4Phys va = some entry := by
      rw [← findPte_align, page, findPte_align]
      exact found
    have first := split va
    have second := split cursor
    rw [page] at first
    rw [found', Option.map_some, Option.map_some, bytes _ _ below]
    simp only [true_and]
    by_cases here : cursor ≤ va ∧ va < cursor + chunk
    · have same : va % pageSize - cursor % pageSize = va - cursor := by omega
      rw [if_pos (by omega), if_pos here, same]
    · rw [if_neg (by omega), if_neg here]
  · have outside : ¬(cursor ≤ va ∧ va < cursor + chunk) := by
      rintro ⟨least, most⟩
      apply page
      simp only [pageSize] at *
      omega
    rw [if_neg outside]
    cases found' : m.findPte space.pml4Phys va with
    | none => rfl
    | some other =>
        have different : entryAddr other ≠ entryAddr entry := fun same => page (single va other user found' same.symm).symm
        rw [Option.map_some, Option.map_some, bytes _ _ below, if_neg fun both => different both.1]

/-- The loop of `elf_load` stores the segment when its pages are mapped to different frames, and it stores nothing else. The
induction is on the fuel: a round stores what is left of the page at the cursor. -/
theorem fillSegment_spec {fuel src rem cursor left : Nat} (tables : TableInv m roots) (isRoot : space.pml4Phys ∈ roots)
    (apart : ∀ cell ∈ cells, cell ∉ Tables m roots) (fits : cursor + left ≤ 2 ^ 47) (enough : left ≤ fuel)
    (few : rem ≤ left)
    (pages : ∀ va, cursor ≤ va → va < cursor + left → ∃ entry, m.findPte space.pml4Phys va = some entry ∧
      entryAddr entry ≠ 0 ∧ entryAddr entry ∈ cells)
    (single : ∀ va va' entry entry', cursor ≤ va → va < cursor + left → UserVa va' →
      m.findPte space.pml4Phys va = some entry → m.findPte space.pml4Phys va' = some entry' →
      entryAddr entry = entryAddr entry' → va / pageSize = va' / pageSize) :
    ∃ m', fillSegment image space fuel m src rem cursor left = .ok (true, m') ∧ DataStores m m' cells ∧
      ∀ va, UserVa va → userRead m' space va =
        if cursor ≤ va ∧ va < cursor + left then some (fileByte image src rem (va - cursor)) else userRead m space va := by
  induction fuel generalizing m src rem cursor left with
  | zero =>
      obtain rfl : left = 0 := Nat.le_zero.mp enough
      refine ⟨m, rfl, DataStores.refl m cells, ?_⟩
      intro va _
      rw [if_neg (by omega)]
  | succ fuel ih =>
      by_cases none : left = 0
      · refine ⟨m, by rw [fillSegment, if_neg (by omega)], DataStores.refl m cells, ?_⟩
        intro va _
        rw [if_neg (by omega)]
      · obtain ⟨entry, found, nonzero, inside⟩ := pages cursor (Nat.le_refl _) (by omega)
        have offset : cursor - pageAlignDown cursor = cursor % pageSize := by
          rw [pageAlignDown]
          have small := Nat.mod_le cursor pageSize
          omega
        have phys : vmmSpaceGetPhys m space (pageAlignDown cursor) = entryAddr entry := by
          have aligned : pageAlignDown (pageAlignDown cursor) = cursor / pageSize * pageSize := by
            rw [pageAlignDown_eq, pageAlignDown_div]
          rw [vmmSpaceGetPhys, aligned, pteLookup_eq, findPte_align, found]
          rfl
        have below : cursor % pageSize < pageSize := Nat.mod_lt _ (by decide)
        generalize isChunk : min (pageSize - cursor % pageSize) left = chunk
        have chunkFits : cursor % pageSize + chunk ≤ pageSize := by omega
        have positive : 0 < chunk := by omega
        have most : chunk ≤ left := by omega
        obtain ⟨stores, bytes⟩ := @fillChunk_spec m cells (entryAddr entry) _ image src rem chunk chunkFits inside
        generalize stored : writeBytes (writeBytes m (entryAddr entry) (cursor % pageSize) (min chunk rem)
          fun k => image.data (wrap64 (src + k))) (entryAddr entry) (cursor % pageSize + min chunk rem)
          (chunk - min chunk rem) (fun _ => 0) = m₁ at stores bytes
        obtain ⟨tables₁, same, leaf⟩ := stores.tables tables apart
        have noWrap : wrap64 (cursor + chunk) = cursor + chunk := Nat.mod_eq_of_lt (by omega)
        have pages₁ : ∀ va, cursor + chunk ≤ va → va < cursor + chunk + (left - chunk) →
            ∃ entry, m₁.findPte space.pml4Phys va = some entry ∧ entryAddr entry ≠ 0 ∧ entryAddr entry ∈ cells := by
          intro va least most
          have user : UserVa va := by
            unfold UserVa
            omega
          rw [leaf _ isRoot va user]
          exact pages va (by omega) (by omega)
        have single₁ : ∀ va va' entry entry', cursor + chunk ≤ va → va < cursor + chunk + (left - chunk) → UserVa va' →
            m₁.findPte space.pml4Phys va = some entry → m₁.findPte space.pml4Phys va' = some entry' →
            entryAddr entry = entryAddr entry' → va / pageSize = va' / pageSize := by
          intro va va' first second least most user' found found'
          have user : UserVa va := by
            unfold UserVa
            omega
          rw [leaf _ isRoot va user] at found
          rw [leaf _ isRoot va' user'] at found'
          exact single va va' first second (by omega) (by omega) user' found found'
        obtain ⟨m', filled, stores', reads⟩ := @ih m₁ (wrap64 (src + min chunk rem)) (rem - min chunk rem) (cursor + chunk)
          (left - chunk) tables₁ (same ▸ apart) (by omega) (by omega) (by omega) pages₁ single₁
        refine ⟨m', ?_, stores.trans stores', ?_⟩
        · rw [fillSegment, if_pos (by omega)]
          simp only [phys, nonzero, if_false, offset, isChunk, stored, noWrap]
          exact filled
        · intro va user
          rw [reads va user]
          by_cases later : cursor + chunk ≤ va ∧ va < cursor + chunk + (left - chunk)
          · rw [if_pos later, if_pos (by omega), Nat.sub_add_eq, fileByte_skip (by omega)]
          · have only : ∀ va' entry', UserVa va' → m.findPte space.pml4Phys va' = some entry' →
                entryAddr entry = entryAddr entry' → cursor / pageSize = va' / pageSize := fun va' entry' user' =>
              single cursor va' entry entry' (Nat.le_refl _) (by omega) user' found
            rw [if_neg later, userRead_chunk (leaf _ isRoot) found bytes chunkFits only user]
            by_cases here : cursor ≤ va ∧ va < cursor + chunk
            · rw [if_pos here, if_pos (by omega)]
            · rw [if_neg here, if_neg (by omega)]

end

end DoccrOS.Packages
