import DoccrOS.Construction.Mem.Memmove

namespace DoccrOS
open Lib

section
variable {p dst src n : Word} {i j count : Nat}

theorem byteAddress_toNat (inside : i < count) (whole : p.toNat + count ≤ 2 ^ 64) :
    (byteAddress p i).toNat = p.toNat + i := by
  rw [byteAddress, BitVec.toNat_add, BitVec.toNat_ofNat, Nat.add_mod_mod]
  exact Nat.mod_eq_of_lt (by omega)

theorem byteAddress_distinct (whole : p.toNat + count ≤ 2 ^ 64) : Distinct (byteAddress p) count := by
  intro i inside j inside' same
  have numbers := congrArg BitVec.toNat same
  rw [byteAddress_toNat inside whole, byteAddress_toNat inside' whole] at numbers
  exact Nat.add_left_cancel numbers

/-- An ascending copy to a lower address overwrites no byte that it still reads. -/
theorem copyUp_lower (mem : Memory) (below : dst < src) (wholeSrc : src.toNat + count ≤ 2 ^ 64)
    (wholeDst : dst.toNat + count ≤ 2 ^ 64) :
    Moved mem (copyUp mem (byteAddress dst) (byteAddress src) count) (byteAddress dst) (byteAddress src) count := by
  apply copyUp_moved mem (byteAddress_distinct wholeDst)
  intro i inside j early same
  have numbers := congrArg BitVec.toNat same
  rw [byteAddress_toNat inside wholeSrc, byteAddress_toNat (early.trans inside) wholeDst] at numbers
  have less := BitVec.lt_def.mp below
  omega

/-- A descending copy to a higher address overwrites no byte that it still reads. -/
theorem copyDown_higher (mem : Memory) (above : ¬dst < src) (wholeSrc : src.toNat + count ≤ 2 ^ 64)
    (wholeDst : dst.toNat + count ≤ 2 ^ 64) :
    Moved mem (copyDown mem (byteAddress dst) (byteAddress src) count) (byteAddress dst) (byteAddress src) count := by
  apply copyDown_moved mem (byteAddress_distinct wholeDst)
  intro i inside j early same
  have numbers := congrArg BitVec.toNat same
  rw [byteAddress_toNat (early.trans inside) wholeSrc, byteAddress_toNat inside wholeDst] at numbers
  have least := mt BitVec.lt_def.mpr above
  omega

/-- Both functions copy the source as it was before the call, and they change nothing else. -/
theorem memmove_moves (mem : Memory) (dst src n : Word) (wholeSrc : src.toNat + n.toNat ≤ 2 ^ 64)
    (wholeDst : dst.toNat + n.toNat ≤ 2 ^ 64) :
    Moved mem (Mem.memmove mem dst src n) (byteAddress dst) (byteAddress src) n.toNat ∧
      Moved mem (User.memmove mem dst src n).2 (byteAddress dst) (byteAddress src) n.toNat ∧
      (User.memmove mem dst src n).1 = dst := by
  rw [Mem.memmove, User.memmove]
  rcases Nat.lt_trichotomy dst.toNat src.toNat with below | same | above
  · rw [if_pos (BitVec.lt_def.mpr below), if_pos (BitVec.lt_def.mpr below)]
    have moved := copyUp_lower mem (BitVec.lt_def.mpr below) wholeSrc wholeDst
    exact ⟨moved, moved, rfl⟩
  · obtain rfl := BitVec.eq_of_toNat_eq same
    rw [if_neg (BitVec.lt_irrefl dst), if_neg (BitVec.lt_irrefl dst), if_neg (BitVec.lt_irrefl dst)]
    exact ⟨copyDown_higher mem (BitVec.lt_irrefl dst) wholeSrc wholeDst, ⟨fun _ _ => rfl, fun _ _ => rfl⟩, rfl⟩
  · have notBelow : ¬dst < src := fun below => (BitVec.lt_def.mp below).not_gt above
    rw [if_neg notBelow, if_neg notBelow, if_pos (BitVec.lt_def.mpr above)]
    have moved := copyDown_higher mem notBelow wholeSrc wholeDst
    exact ⟨moved, moved, rfl⟩

/-- Two overlapping ranges at the end of the address space. -/
theorem memmove_moves_overlap :
    Moved (fun address => address.setWidth 8) (Mem.memmove (fun address => address.setWidth 8) (-8#64) (-9#64) 8#64)
        (byteAddress (-8#64)) (byteAddress (-9#64)) (8#64).toNat ∧
      Moved (fun address => address.setWidth 8) (User.memmove (fun address => address.setWidth 8) (-8#64) (-9#64) 8#64).2
        (byteAddress (-8#64)) (byteAddress (-9#64)) (8#64).toNat ∧
      (User.memmove (fun address => address.setWidth 8) (-8#64) (-9#64) 8#64).1 = -8#64 :=
  memmove_moves _ _ _ _ (by decide) (by decide)

end

end DoccrOS
