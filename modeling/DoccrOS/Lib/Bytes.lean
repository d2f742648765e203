import Mathlib.Tactic

namespace DoccrOS.Lib

/-- A memory of bytes. -/
abbrev Bytes := Nat → BitVec 8

/-- The little-endian value of the bytes from an address on. -/
def load (mem : Bytes) : (width address : Nat) → Nat
  | 0, _ => 0
  | width + 1, address => (mem address).toNat + 256 * load mem width (address + 1)

/-- A store of the low bytes of a value in little-endian order. -/
def store (mem : Bytes) : (width address value : Nat) → Bytes
  | 0, _, _ => mem
  | width + 1, address, value => store (Function.update mem address (BitVec.ofNat 8 value)) width (address + 1) (value / 256)

/-- A copy of bytes in ascending order. -/
def copyBytes (mem : Bytes) (dst src : Nat) : (count : Nat) → Bytes
  | 0 => mem
  | count + 1 =>
    let mem := copyBytes mem dst src count
    Function.update mem (dst + count) (mem (src + count))

/-- A fill of bytes in ascending order. -/
def fillBytes (mem : Bytes) (dst : Nat) (byte : BitVec 8) : (count : Nat) → Bytes
  | 0 => mem
  | count + 1 => Function.update (fillBytes mem dst byte count) (dst + count) byte

/-- The two memories differ at most in the bytes of a range. -/
def SameOutside (mem mem' : Bytes) (address width : Nat) : Prop :=
  ∀ query, query < address ∨ address + width ≤ query → mem' query = mem query

section
variable {mem mem' mem'' : Bytes} {width address value other count : Nat}

/-- A load depends on its own bytes only. -/
theorem load_congr (same : ∀ i, i < width → mem' (address + i) = mem (address + i)) :
    load mem' width address = load mem width address := by
  induction width generalizing address with
  | zero => rfl
  | succ width ih =>
      rw [load, load]
      have here := same 0 (Nat.succ_pos width)
      rw [Nat.add_zero] at here
      rw [here, ih]
      intro i inside
      have later := same (i + 1) (Nat.succ_lt_succ inside)
      rw [show address + 1 + i = address + (i + 1) by omega]
      exact later

/-- A store changes no byte outside its range. -/
theorem store_outside (mem : Bytes) (width address value : Nat) :
    SameOutside mem (store mem width address value) address width := by
  induction width generalizing mem address value with
  | zero => exact fun _ _ => rfl
  | succ width ih =>
      intro query outside
      rw [store, ih _ _ _ query (by omega), Function.update_of_ne (by omega)]

/-- A load reads back what was stored at its address. -/
theorem load_store (mem : Bytes) (fits : value < 256 ^ width) : load (store mem width address value) width address = value := by
  induction width generalizing mem address value with
  | zero =>
      rw [Nat.pow_zero] at fits
      rw [load]
      omega
  | succ width ih =>
      rw [load, store, store_outside _ _ _ _ _ (Or.inl (Nat.lt_succ_self address)), Function.update_self,
        ih _ (Nat.div_lt_of_lt_mul (by rw [Nat.mul_comm, ← Nat.pow_succ]; exact fits)), BitVec.toNat_ofNat]
      omega

/-- A load keeps its value when the changed range lies apart from it. -/
theorem load_outside (same : SameOutside mem mem' address count) (apart : other + width ≤ address ∨ address + count ≤ other) :
    load mem' width other = load mem width other := by
  apply load_congr
  intro i inside
  exact same _ (by omega)

theorem load_store_apart (mem : Bytes) (apart : other + width ≤ address ∨ address + count ≤ other) :
    load (store mem count address value) width other = load mem width other :=
  load_outside (store_outside mem count address value) apart

theorem load_lt (mem : Bytes) (width address : Nat) : load mem width address < 256 ^ width := by
  induction width generalizing address with
  | zero => exact Nat.one_pos
  | succ width ih =>
      have rest := ih (address + 1)
      have byte := (mem address).isLt
      rw [load, Nat.pow_succ]
      omega

/-- A copy changes no byte outside its destination. -/
theorem copyBytes_outside (mem : Bytes) (dst src count : Nat) :
    SameOutside mem (copyBytes mem dst src count) dst count := by
  induction count with
  | zero => exact fun _ _ => rfl
  | succ count ih =>
      intro query outside
      rw [copyBytes, Function.update_of_ne (by omega), ih query (by omega)]

/-- A copy to a range apart from its source shows the source. -/
theorem copyBytes_inside (mem : Bytes) {dst src count : Nat} (apart : src + count ≤ dst ∨ dst + count ≤ src) {i : Nat}
    (inside : i < count) : copyBytes mem dst src count (dst + i) = mem (src + i) := by
  induction count with
  | zero => exact absurd inside (Nat.not_lt_zero i)
  | succ count ih =>
      rw [copyBytes]
      by_cases last : i = count
      · rw [last, Function.update_self, copyBytes_outside mem dst src count _ (by omega)]
      · rw [Function.update_of_ne (by omega), ih (by omega) (by omega)]

/-- A fill changes no byte outside its range. -/
theorem fillBytes_outside (mem : Bytes) (dst : Nat) (byte : BitVec 8) (count : Nat) :
    SameOutside mem (fillBytes mem dst byte count) dst count := by
  induction count with
  | zero => exact fun _ _ => rfl
  | succ count ih =>
      intro query outside
      rw [fillBytes, Function.update_of_ne (by omega), ih query (by omega)]

theorem fillBytes_inside (mem : Bytes) (dst : Nat) (byte : BitVec 8) {i : Nat} (inside : i < count) :
    fillBytes mem dst byte count (dst + i) = byte := by
  induction count with
  | zero => exact absurd inside (Nat.not_lt_zero i)
  | succ count ih =>
      rw [fillBytes]
      by_cases last : i = count
      · rw [last, Function.update_self]
      · rw [Function.update_of_ne (by omega), ih (by omega)]

/-- The two memories agree apart from records of one width at some addresses. -/
def SameApart (width : Nat) (mem mem' : Bytes) (records : List Nat) : Prop :=
  ∀ query, (∀ record ∈ records, query < record ∨ record + width ≤ query) → mem' query = mem query

theorem SameApart.refl (width : Nat) (mem : Bytes) (records : List Nat) : SameApart width mem mem records :=
  fun _ _ => rfl

theorem SameApart.trans {records : List Nat} (first : SameApart width mem mem' records)
    (second : SameApart width mem' mem'' records) : SameApart width mem mem'' records :=
  fun query apart => (second query apart).trans (first query apart)

theorem SameApart.mono {records more : List Nat} (same : SameApart width mem mem' records) (subset : records ⊆ more) :
    SameApart width mem mem' more :=
  fun query apart => same query fun record member => apart record (subset member)

/-- A store to a field changes its record only. -/
theorem store_field (mem : Bytes) {offset : Nat} (fits : offset + count ≤ width) :
    SameApart width mem (store mem count (address + offset) value) [address] := by
  intro query apart
  have outside := apart address List.mem_cons_self
  exact store_outside mem count (address + offset) value query (by omega)

end

end DoccrOS.Lib
