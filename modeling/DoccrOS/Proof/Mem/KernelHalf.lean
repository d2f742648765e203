import DoccrOS.Proof.Mem.Paging

namespace DoccrOS.Mem
open Lib.Radix

/-- The addresses of the kernel half use the entries 256 to 511 of a root table. -/
def KernelVa (va : Nat) : Prop := 256 ≤ (pml4Index va).val

instance (va : Nat) : Decidable (KernelVa va) := inferInstanceAs (Decidable (256 ≤ (pml4Index va).val))

/-- A table below the kernel half of a root. -/
def KernelTable (m : Machine) (root table : Nat) : Prop :=
  ∃ index : Fin 512, 256 ≤ index.val ∧ ∃ path, path.length ≤ 2 ∧ walk m.child root (index :: path) = some table

/-- The tables below the kernel half of every root are used frames and belong to no user half. -/
def KernelApart (m : Machine) (roots : Set Nat) : Prop :=
  ∀ root ∈ roots, ∀ table, KernelTable m root table → table ∉ Tables m roots ∧ ¬m.phys.Free (table / pageSize)

section
variable {m m' : Machine} {root va : Nat}

/-- The tables below a kernel half depend on the upper entries of the root and on themselves. -/
theorem walk_kernel {root' : Nat} (entries : ∀ index : Fin 512, 256 ≤ index.val → m'.ram root' index = m.ram root index)
    (tables : ∀ table, KernelTable m root table → m'.ram table = m.ram table) {index : Fin 512} (high : 256 ≤ index.val)
    (path : List (Fin 512)) (short : path.length ≤ 2) :
    walk m'.child root' (index :: path) = walk m.child root (index :: path) := by
  induction path using List.reverseRecOn with
  | nil => simp [walk, Machine.child, entries index high]
  | append_singleton path i ih =>
      rw [List.length_append, List.length_singleton] at short
      rw [← List.cons_append, walk_snoc, walk_snoc, ih (by omega)]
      cases reached : walk m.child root (index :: path) with
      | none => rfl
      | some table =>
          have owned : KernelTable m root table := ⟨index, high, path, by omega, reached⟩
          simp only [Option.bind_some, Machine.child, tables table owned]

/-- The descent of a kernel address reads the upper entries of its root and the tables below them. -/
theorem findPte_kernel {root' : Nat} (kernel : KernelVa va)
    (entries : ∀ index : Fin 512, 256 ≤ index.val → m'.ram root' index = m.ram root index)
    (tables : ∀ table, KernelTable m root table → m'.ram table = m.ram table) :
    m'.findPte root' va = m.findPte root va := by
  have walks := walk_kernel entries tables kernel [pdpIndex va, pdIndex va] (Nat.le_refl 2)
  rw [findPte_eq, findPte_eq, tablePath, walks]
  cases reached : walk m.child root (pml4Index va :: [pdpIndex va, pdIndex va]) with
  | none => rfl
  | some table =>
      have owned : KernelTable m root table := ⟨_, kernel, [pdpIndex va, pdIndex va], Nat.le_refl 2, reached⟩
      simp only [Option.bind_some, tables table owned]

theorem kernelTable_congr {root' table : Nat}
    (entries : ∀ index : Fin 512, 256 ≤ index.val → m'.ram root' index = m.ram root index)
    (tables : ∀ table, KernelTable m root table → m'.ram table = m.ram table) :
    KernelTable m' root' table ↔ KernelTable m root table := by
  constructor
  · rintro ⟨index, high, path, short, reached⟩
    exact ⟨index, high, path, short, (walk_kernel entries tables high path short).symm.trans reached⟩
  · rintro ⟨index, high, path, short, reached⟩
    exact ⟨index, high, path, short, (walk_kernel entries tables high path short).trans reached⟩

end

section
variable {m m' : Machine} {roots : Set Nat} {root : Nat}

/-- An address below the kernel entries is translated like its canonical part. -/
theorem findPte_canonical (m : Machine) (root : Nat) {va : Nat} (low : ¬KernelVa va) :
    UserVa (va % 2 ^ 48) ∧ m.findPte root (va % 2 ^ 48) = m.findPte root va := by
  have path : tablePath (va % 2 ^ 48) = tablePath va ∧ ptIndex (va % 2 ^ 48) = ptIndex va := by
    simp only [tablePath, pml4Index, pdpIndex, pdIndex, ptIndex, Nat.shiftRight_eq_div_pow, List.cons.injEq, Fin.ext_iff,
      Fin.val_ofNat, and_true]
    omega
  constructor
  · unfold KernelVa at low
    unfold UserVa
    simp only [pml4Index, Nat.shiftRight_eq_div_pow, Fin.val_ofNat] at low
    omega
  · rw [findPte_eq, findPte_eq, path.1, path.2]

/-- The kernel half keeps its translation if the used pages outside the user tables keep their contents. -/
theorem KernelApart.findPte {va : Nat} (apart : KernelApart m roots) (isRoot : root ∈ roots) (kernel : KernelVa va)
    (entries : ∀ index : Fin 512, 256 ≤ index.val → m'.ram root index = m.ram root index)
    (ram : ∀ page, page ∉ Tables m roots → ¬m.phys.Free (page / pageSize) → m'.ram page = m.ram page) :
    m'.findPte root va = m.findPte root va := by
  apply findPte_kernel kernel entries
  intro table owned
  obtain ⟨notTable, notFree⟩ := apart root isRoot table owned
  exact ram table notTable notFree

/-- A growth spares the pages that are neither free nor user tables. -/
theorem Grown.spares (grown : Grown m m' roots) {page : Nat} (notTable : page ∉ Tables m roots)
    (notFree : ¬m.phys.Free (page / pageSize)) : page ∉ Tables m' roots ∧ m'.ram page = m.ram page := by
  have notNew : page ∉ Tables m' roots := fun owned => notFree (grown.fresh page owned notTable).1
  exact ⟨notNew, grown.ram page notNew⟩

/-- A growth keeps the kernel half of every root. -/
theorem KernelApart.grown (apart : KernelApart m roots) (grown : Grown m m' roots) :
    KernelApart m' roots ∧ ∀ root ∈ roots, ∀ va, KernelVa va → m'.findPte root va = m.findPte root va := by
  constructor
  · intro root isRoot table owned
    have ram : ∀ table, KernelTable m root table → m'.ram table = m.ram table := by
      intro table owned
      obtain ⟨notTable, notFree⟩ := apart root isRoot table owned
      exact (grown.spares notTable notFree).2
    obtain ⟨notTable, notFree⟩ := apart root isRoot table ((kernelTable_congr (grown.kernelHalf root isRoot) ram).mp owned)
    exact ⟨(grown.spares notTable notFree).1, fun free => notFree (grown.free free)⟩
  · intro root isRoot va kernel
    apply apart.findPte isRoot kernel (grown.kernelHalf root isRoot)
    intro page notTable notFree
    exact (grown.spares notTable notFree).2

end

end DoccrOS.Mem
