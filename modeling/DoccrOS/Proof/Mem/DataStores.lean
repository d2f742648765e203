import DoccrOS.Proof.Mem.CowSteps
import DoccrOS.Proof.Mem.UserMemory

namespace DoccrOS.Mem
open Lib.Radix Lib

/-- Only pages of a set were written. -/
structure DataStores (m m' : Machine) (cells : Set Nat) : Prop where
  ram : ∀ page, page ∉ cells → m'.ram page = m.ram page
  phys : m'.phys = m.phys
  kernelPml4 : m'.kernelPml4 = m.kernelPml4

section
variable {m m' m'' : Machine} {cells : Set Nat} {roots shield : Set Nat} {places : Finset Place} {page offset count : Nat}
  {byte : BitVec 8} {bytes : Nat → BitVec 8}

theorem DataStores.refl (m : Machine) (cells : Set Nat) : DataStores m m cells := ⟨fun _ _ => rfl, rfl, rfl⟩

theorem DataStores.trans (first : DataStores m m' cells) (second : DataStores m' m'' cells) : DataStores m m'' cells where
  ram page outside := (second.ram page outside).trans (first.ram page outside)
  phys := second.phys.trans first.phys
  kernelPml4 := second.kernelPml4.trans first.kernelPml4

theorem storeByte_stores (inside : page ∈ cells) : DataStores m (m.storeByte page offset byte) cells := by
  refine ⟨?_, rfl, rfl⟩
  intro other outside
  have different : other ≠ page := by
    rintro rfl
    exact outside inside
  rw [storeByte_eq]
  exact Function.update_of_ne different _ _

theorem loadByte_eq (m : Machine) (page offset : Nat) : m.loadByte page offset = byteAt (m.ram page) offset := rfl

/-- A stored byte is loaded again, and the other bytes of all pages stay. -/
theorem loadByte_storeByte {other query : Nat} (inside : offset < pageSize) (inside' : query < pageSize) :
    (m.storeByte page offset byte).loadByte other query =
      if other = page ∧ query = offset then byte else m.loadByte other query := by
  rw [storeByte_eq, loadByte_eq, loadByte_eq]
  by_cases here : other = page
  · have stored : (m.setPage page (storedPage (m.ram page) offset byte)).ram page = storedPage (m.ram page) offset byte :=
      Function.update_self ..
    rw [here, stored, byteAt_stored _ _ inside inside']
    simp only [true_and]
  · have kept : (m.setPage page (storedPage (m.ram page) offset byte)).ram other = m.ram other :=
      Function.update_of_ne here _ _
    rw [kept, if_neg fun both => here both.1]

/-- Stores into pages that are no tables move no walk and no leaf entry. -/
theorem DataStores.tables (stores : DataStores m m' cells) (inv : TableInv m roots)
    (apart : ∀ cell ∈ cells, cell ∉ Tables m roots) : TableInv m' roots ∧ Tables m' roots = Tables m roots ∧
      ∀ root ∈ roots, ∀ va, UserVa va → m'.findPte root va = m.findPte root va := by
  have ram : ∀ table ∈ Tables m roots, m'.ram table = m.ram table := fun table owned =>
    stores.ram table fun written => apart table written owned
  obtain ⟨walks, tables⟩ := @tables_congr m m' roots (by
    intro table owned path index _ _
    simp only [Machine.child, ram table owned])
  refine ⟨⟨inv.forest.congr walks, ?_, stores.phys ▸ inv.zeroUsed⟩, tables, ?_⟩
  · intro table owned
    rw [tables] at owned
    obtain ⟨aligned, nonzero, inside, used⟩ := inv.allocated table owned
    exact ⟨aligned, nonzero, stores.phys ▸ inside, stores.phys ▸ used⟩
  · intro root isRoot va user
    rw [findPte_eq, findPte_eq, walks root isRoot _ (tablePath_user user)]
    cases reached : walk m.child root (tablePath va) with
    | none => rfl
    | some pt => simp only [Option.bind_some, ram pt (mem_nodes isRoot (tablePath_user user) reached)]

/-- Stores into pages that are no tables and that are not shielded keep the invariant of the memory. -/
theorem MemInv.overwritten (inv : MemInv shield m roots places) (stores : DataStores m m' cells)
    (apart : ∀ cell ∈ cells, cell ∉ Tables m roots) (hidden : ∀ page ∈ shield, page ∉ cells) :
    MemInv shield m' roots places ∧ Spared shield m m' roots ∧
      (∀ place, (pageView m' places).map place = (pageView m places).map place) ∧
      ∀ root ∈ roots, ∀ va, UserVa va → m'.findPte root va = m.findPte root va := by
  obtain ⟨tables, same, leaf⟩ := stores.tables inv.data.tables apart
  have maps : ∀ place, (pageView m' places).map place = (pageView m places).map place := by
    intro place
    by_cases member : place ∈ places
    · obtain ⟨isRoot, small⟩ := inv.data.within place member
      simp only [pageView, member, if_true, leaf place.1 isRoot _ (userVa_page small)]
    · simp only [pageView, member, if_false]
  have view : ∀ cell, (pageView m' places).count cell = (pageView m places).count cell ∧
      (pageView m' places).rc cell = (pageView m places).rc cell := by
    intro cell
    refine ⟨by simp only [Sharing.count, Sharing.refs, maps], ?_⟩
    change (m'.phys.pageframes _).rc = (m.phys.pageframes _).rc
    rw [stores.phys]
  refine ⟨⟨⟨tables, inv.data.within, ?_⟩, ?_, ?_⟩, ⟨?_, ?_, stores.kernelPml4⟩, maps, leaf⟩
  · intro place cell mapped
    rw [maps] at mapped
    obtain ⟨⟨aligned, nonzero, inside, used⟩, notTable⟩ := inv.data.data place cell mapped
    exact ⟨⟨aligned, nonzero, stores.phys ▸ inside, stores.phys ▸ used⟩, same ▸ notTable⟩
  · intro cell referenced
    rw [(view cell).1] at referenced ⊢
    rw [(view cell).2]
    exact inv.counted cell referenced
  · intro page member
    obtain ⟨aligned, notFree, notTable, notData⟩ := inv.shielded page member
    refine ⟨aligned, stores.phys ▸ notFree, same ▸ notTable, ?_⟩
    intro place
    rw [maps]
    exact notData place
  · intro page member
    exact stores.ram page (hidden page member)
  · intro root isRoot index _
    rw [stores.ram root fun written => apart root written (root_mem_nodes isRoot)]

/-- Stores into tracked data keep the invariant of the memory. -/
theorem MemInv.stored (inv : MemInv shield m roots places) (stores : DataStores m m' cells)
    (tracked : ∀ cell ∈ cells, ∃ place, (pageView m places).map place = some cell) :
    MemInv shield m' roots places ∧ Spared shield m m' roots ∧
      (∀ place, (pageView m' places).map place = (pageView m places).map place) ∧
      ∀ root ∈ roots, ∀ va, UserVa va → m'.findPte root va = m.findPte root va := by
  refine inv.overwritten stores ?_ ?_
  · intro cell written
    obtain ⟨place, mapped⟩ := tracked cell written
    exact (inv.data.data place cell mapped).2
  · intro page member written
    obtain ⟨place, mapped⟩ := tracked page written
    exact (inv.shielded page member).2.2.2 place mapped

end

end DoccrOS.Mem
