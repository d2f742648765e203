import DoccrOS.Proof.Mem.Prune

namespace DoccrOS.Mem
open Lib.Radix

/-- The user address of a slot of the page table at three indices. -/
def slotAddress (first second third slot : Fin 512) : Nat :=
  (((first.val * 512 + second.val) * 512 + third.val) * 512 + slot.val) * pageSize

theorem slotAddress_path (first second third slot : Fin 512) :
    tablePath (slotAddress first second third slot) = [first, second, third] ∧
      ptIndex (slotAddress first second third slot) = slot := by
  have bounds := And.intro (And.intro first.isLt second.isLt) (And.intro third.isLt slot.isLt)
  simp only [tablePath, slotAddress, pml4Index, pdpIndex, pdIndex, ptIndex, pageSize, Nat.shiftRight_eq_div_pow,
    List.cons.injEq, Fin.ext_iff, Fin.val_ofNat, and_true]
  omega

theorem slotAddress_user {first : Fin 512} (low : first.val < 256) (second third slot : Fin 512) :
    UserVa (slotAddress first second third slot) := by
  have bounds := And.intro second.isLt (And.intro third.isLt slot.isLt)
  unfold UserVa slotAddress pageSize
  omega

section
variable {m m' middle : Machine} {roots : Set Nat} {root table : Nat} {path : List (Fin 512)}

/-- A table below a root is not a root. -/
theorem TableInv.below_root (tables : TableInv m roots) (isRoot : root ∈ roots) (nonempty : path ≠ [])
    (admitted : userPaths.holds path) (reached : walk m.child root path = some table) : table ∉ roots := by
  intro isRoot'
  exact nonempty (tables.forest isRoot isRoot' admitted userPaths.nil reached (walk_nil _ _)).2

/-- Below every table but a root there is a mapped page. The induction is on the levels below the table. -/
theorem AllOccupied.mapped (occupied : AllOccupied m roots) (tables : TableInv m roots) (isRoot : root ∈ roots)
    (nonempty : path ≠ []) (admitted : userPaths.holds path) (reached : walk m.child root path = some table) :
    ∃ va, UserVa va ∧ path <+: tablePath va ∧ m.findPte root va ≠ none := by
  have general : ∀ left path table, path.length + left = 3 → path ≠ [] → userPaths.holds path →
      walk m.child root path = some table → ∃ va, UserVa va ∧ path <+: tablePath va ∧ m.findPte root va ≠ none := by
    intro left
    induction left with
    | zero =>
        intro path table deep nonempty admitted reached
        obtain ⟨index, present⟩ := occupied table (mem_nodes isRoot admitted reached)
          (tables.below_root isRoot nonempty admitted reached)
        obtain ⟨first, second, third, rfl⟩ := List.length_eq_three.mp deep
        obtain ⟨samePath, sameSlot⟩ := slotAddress_path first second third index
        refine ⟨slotAddress first second third index, ?_, ?_, ?_⟩
        · exact slotAddress_user (admitted.2 first rfl) second third index
        · rw [samePath]
        · rw [findPte_eq, samePath, reached, Option.bind_some, sameSlot, if_pos present]
          exact Option.some_ne_none _
    | succ left ih =>
        intro path table shallow nonempty admitted reached
        obtain ⟨index, present⟩ := occupied table (mem_nodes isRoot admitted reached)
          (tables.below_root isRoot nonempty admitted reached)
        have below : m.child table index = some (entryAddr (m.ram table index)) := if_pos present
        have longer : userPaths.holds (path ++ [index]) := by
          refine ⟨by rw [List.length_append, List.length_singleton]; omega, ?_⟩
          intro first atHead
          apply admitted.2
          cases path with
          | nil => exact absurd rfl nonempty
          | cons head tail => exact atHead
        have next : walk m.child root (path ++ [index]) = some (entryAddr (m.ram table index)) := by
          rw [walk_snoc, reached]
          exact below
        have deeper : (path ++ [index]).length + left = 3 := by
          rw [List.length_append, List.length_singleton]
          omega
        obtain ⟨va, user, inside, found⟩ := ih (path ++ [index]) _ deeper (by simp) longer next
        exact ⟨va, user, (List.prefix_append path [index]).trans inside, found⟩
  refine general (3 - path.length) path table ?_ nonempty admitted reached
  have short := admitted.1
  omega

/-- A mapped page has a table at every prefix of its path. -/
theorem walk_mapped {va : Nat} (found : m.findPte root va ≠ none) (inside : path <+: tablePath va) :
    ∃ table, walk m.child root path = some table := by
  rw [findPte_eq] at found
  cases reached : walk m.child root (tablePath va) with
  | none => simp [reached] at found
  | some pt => exact walk_prefix inside reached

/-- Without empty tables the mapped pages determine which tables exist. -/
theorem AllOccupied.walk_some (occupied : AllOccupied m roots) (tables : TableInv m roots) (isRoot : root ∈ roots)
    (leaf : ∀ va, UserVa va → m.findPte root va ≠ none → m'.findPte root va ≠ none) (admitted : userPaths.holds path)
    (reached : walk m.child root path = some table) : ∃ table', walk m'.child root path = some table' := by
  by_cases nonempty : path = []
  · rw [nonempty]
    exact ⟨root, rfl⟩
  · obtain ⟨va, user, inside, found⟩ := occupied.mapped tables isRoot nonempty admitted reached
    exact walk_mapped (leaf va user found) inside

/-- Two machines without empty tables that map the same pages and share their tables with a third have the same tables. -/
theorem walks_restored (tables : TableInv m roots) (tables' : TableInv m' roots) (occupied : AllOccupied m roots)
    (occupied' : AllOccupied m' roots)
    (grown : ∀ root ∈ roots, ∀ path table, userPaths.holds path → walk m.child root path = some table →
      walk middle.child root path = some table)
    (pruned : ∀ root ∈ roots, ∀ path table, userPaths.holds path → walk m'.child root path = some table →
      walk middle.child root path = some table)
    (leaf : ∀ root ∈ roots, ∀ va, UserVa va → m'.findPte root va = m.findPte root va) :
    ∀ root ∈ roots, ∀ path, userPaths.holds path → walk m'.child root path = walk m.child root path := by
  intro root isRoot path admitted
  have same (first second : Nat) (reached : walk m.child root path = some first)
      (reached' : walk m'.child root path = some second) : first = second := by
    apply Option.some.inj
    rw [← grown root isRoot path first admitted reached, ← pruned root isRoot path second admitted reached']
  cases reached : walk m.child root path with
  | some table =>
      have kept : ∀ va, UserVa va → m.findPte root va ≠ none → m'.findPte root va ≠ none := by
        intro va user
        rw [leaf root isRoot va user]
        exact id
      obtain ⟨table', reached'⟩ := occupied.walk_some tables isRoot kept admitted reached
      rw [reached', same table table' reached reached']
  | none =>
      cases reached' : walk m'.child root path with
      | none => rfl
      | some table' =>
          have kept : ∀ va, UserVa va → m'.findPte root va ≠ none → m.findPte root va ≠ none := by
            intro va user
            rw [leaf root isRoot va user]
            exact id
          obtain ⟨table, before⟩ := occupied'.walk_some tables' isRoot kept admitted reached'
          rw [before] at reached
          cases reached

end

end DoccrOS.Mem
