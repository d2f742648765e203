import DoccrOS.Proof.Fs.CleanCreations
import DoccrOS.Proof.Packages.CpioRoundTrip

namespace DoccrOS.Fs
open Lib

/-- The names lead where they led, to a node with the same type and contents. -/
def KeepsFile (v v' : Vfs) (names : List (List Char)) : Prop :=
  ∀ n node, v.lookup names = some n → v.nodes n = some node → v'.lookup names = some n ∧
    ∃ node', v'.nodes n = some node' ∧ node'.type = node.type ∧ node'.data = node.data ∧ node'.size = node.size

/-- The path leads to a file with the contents at an address. -/
def FileAt (v : Vfs) (path : List Char) (data size : Nat) : Prop :=
  ∃ n node, v.lookup (tokens path) = some n ∧ v.nodes n = some node ∧ node.type = .file ∧ node.data = some data ∧ node.size = size

section
variable {v v' : Vfs} {path : List Char} {kmallocs : List (Option NodePtr)} {kmalloc result : Option NodePtr} {n : NodePtr}
  {type : VfsType} {names : List (List Char)} {data size : Nat}

theorem KeepsFile.refl (v : Vfs) (names : List (List Char)) : KeepsFile v v names :=
  fun _ node reached live => ⟨reached, node, live, rfl, rfl, rfl⟩

theorem KeepsFile.trans {v'' : Vfs} (first : KeepsFile v v' names) (second : KeepsFile v' v'' names) : KeepsFile v v'' names := by
  intro n node reached live
  obtain ⟨reached', node', live', sameType, sameData, sameSize⟩ := first n node reached live
  obtain ⟨reached'', node'', live'', sameType', sameData', sameSize'⟩ := second n node' reached' live'
  exact ⟨reached'', node'', live'', sameType'.trans sameType, sameData'.trans sameData, sameSize'.trans sameSize⟩

theorem FileAt.kept (file : FileAt v path data size) (keeps : KeepsFile v v' (tokens path)) : FileAt v' path data size := by
  obtain ⟨n, node, reached, live, isFile, isData, isSize⟩ := file
  obtain ⟨reached', node', live', sameType, sameData, sameSize⟩ := keeps n node reached live
  exact ⟨n, node', reached', live', sameType.trans isFile, sameData.trans isData, sameSize.trans isSize⟩

/-- A change of one file keeps the edges. -/
theorem Touches.lookup {node node' : VfsNode} (touches : Touches v v' n node node') (names : List (List Char)) :
    v'.lookup names = v.lookup names := by
  have same : v'.child = v.child := by
    apply child_congr
    intro query
    by_cases here : query = n
    · obtain ⟨_, _, _, _, _, shape⟩ := touches.shape
      rw [here, touches.here, touches.live, shape]
      rfl
    · rw [touches.other query here]
  rw [Vfs.lookup, Vfs.lookup, touches.root, same]

/-- What is read from a file is what stands at its address. -/
theorem FileAt.read (file : FileAt v path data size) (inv : VfsInv v) : ∃ n, vfsFind v path = .ok (some n) ∧
    ∀ count, vfsRead v (some n) count = .ok (castInt (min count size), copyOut v.bytes data (min count size)) := by
  obtain ⟨n, node, reached, live, isFile, isData, isSize⟩ := file
  refine ⟨n, (inv.find path).trans (congrArg Except.ok reached), ?_⟩
  intro count
  have least : (if count < size then count else size) = min count size := by
    by_cases short : count < size
    · rw [if_pos short, Nat.min_eq_left (Nat.le_of_lt short)]
    · rw [if_neg short, Nat.min_eq_right (Nat.le_of_not_lt short)]
  simp only [vfsRead, node_some.mpr live, Result.ok_bind, isFile, ne_eq, not_true_eq_false, if_false, isSize, isData, least]
  by_cases some : min count size > 0
  · rw [if_pos some]
    rfl
  · have zero : min count size = 0 := by omega
    rw [if_neg some, zero]
    rfl

/-- After `vfs_init` the archive is as it was. -/
theorem ArchiveKept.boot {bytes : Bytes} {archive : Block} (booted : vfsInit (Vfs.boot bytes archive) kmalloc = .ok v) :
    ArchiveKept bytes archive v := by
  obtain ⟨inv, grows⟩ := vfsInit_inv booted
  have owns : v.owned = fun _ => none := by
    funext ptr
    cases live : v.nodes ptr with
    | none =>
        rw [Vfs.owned, live]
        rfl
    | some node => rw [owned_some live, buffer_none (Or.inl (grows.fresh ptr node rfl live).1)]
  refine ⟨⟨inv, ?_, ?_, ?_, ?_⟩, grows.archive, ?_⟩
  · rw [owns, grows.buffers]
    exact Owning.empty
  · rw [grows.buffers]
    exact List.pairwise_singleton _ _
  · rw [grows.buffers]
    intro block member
    cases member
  · intro ptr node live
    obtain ⟨noData, _, _, owns⟩ := grows.fresh ptr node rfl live
    constructor
    · intro isData
      exact absurd noData isData
    · intro borrowed
      rw [owns] at borrowed
      cases borrowed
  · intro i _
    rw [grows.bytes]
    rfl

end

end DoccrOS.Fs

namespace DoccrOS.Packages
open Lib Fs

section
variable {a : Archive} {v v' : Vfs} {item : CpioItem} {off : Nat} {outcome : CpioOutcome} {bytes : Bytes}

/-- The contents of an entry at an offset. -/
def CpioItem.address (item : CpioItem) (a : Archive) (off : Nat) : Nat := a.base + (off + (padded item.front).length)

/-- The path of a regular file is not cut off. -/
def CpioItem.Direct (item : CpioItem) : Prop := item.mode &&& cpioTypeMask = cpioTypeReg → Fs.Direct item.path

/-- A part of an archive stands behind the parts before it. -/
theorem Archive.Begins.after {items more : List CpioItem} (begins : a.Begins off (items ++ more)) :
    a.Begins (off + (items.flatMap CpioItem.bytes).length) more := by
  unfold Archive.Begins at begins
  rw [List.flatMap_append] at begins
  intro i byte atIndex
  change a.data (off + (items.flatMap CpioItem.bytes).length + i) = byte
  rw [Nat.add_assoc]
  exact begins.behind i byte atIndex

end

end DoccrOS.Packages
