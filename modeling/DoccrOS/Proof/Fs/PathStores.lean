import DoccrOS.Construction.Fs.PathStores
import DoccrOS.Proof.Fs.FileRuns

namespace DoccrOS.Fs
open Lib

section
variable {v : Vfs} {path p name : List Char} {i left : Nat} {dest : PathBuffer} {kmallocs : List (Option NodePtr)}
  {kmalloc : Option NodePtr}

/-- An unbounded copy stays inside the array exactly when the string and its final zero fit. -/
theorem strCopy_only : (strCopy dest i name).Only PathStore.Inside ↔ i + name.length < dest.size := by
  induction name generalizing i with
  | nil =>
      rw [strCopy, Logged.only_access, List.forall_mem_singleton]
      rfl
  | cons c name ih =>
      have step : (strCopy dest i (c :: name)).Only PathStore.Inside ↔
          i < dest.size ∧ (strCopy dest (i + 1) name).Only PathStore.Inside := by
        rw [strCopy, Logged.only_bind, Logged.only_access, List.forall_mem_singleton]
        exact and_congr_right' ⟨fun rest => rest () rfl, fun rest _ _ => rest⟩
      rw [step, ih, List.length_cons]
      omega

theorem strCopy_value (dest : PathBuffer) (i : Nat) (name : List Char) : (strCopy dest i name).result = .ok () := by
  induction name generalizing i with
  | nil => rfl
  | cons c name ih => rw [strCopy, Logged.result_bind, Logged.result_access, Result.ok_bind, ih]

theorem takeTokenStores_value (room i : Nat) (p : List Char) : (takeTokenStores room i p).result = .ok (takeToken room p) := by
  induction room generalizing i p with
  | zero => rfl
  | succ room ih =>
      cases p with
      | nil => rfl
      | cons c p =>
          rw [takeTokenStores, takeToken, Logged.result_ite]
          by_cases slash : c = '/'
          · rw [if_pos slash, if_pos slash]
            rfl
          · rw [if_neg slash, if_neg slash, Logged.result_bind, Logged.result_access, Result.ok_bind, Logged.result_bind, ih]
            rfl

/-- A store is inside the array when more places fit. -/
theorem store_only {A : Type} {value : A} (fits : i + left < dest.size) :
    (Logged.access [⟨dest, i⟩] value : Stores A).Only PathStore.Inside := by
  rw [Logged.only_access, List.forall_mem_singleton]
  exact Nat.lt_of_le_of_lt (Nat.le_add_right _ _) fits

/-- The copy of a token needs one more place than it may take characters. -/
theorem takeTokenStores_only (fits : i + left < vfsNameMax) : (takeTokenStores left i p).Only PathStore.Inside := by
  induction left generalizing i p with
  | zero => exact store_only fits
  | succ left ih =>
      cases p with
      | nil => exact store_only fits
      | cons c p =>
          rw [takeTokenStores, Logged.only_ite]
          refine ⟨fun _ => store_only fits, fun _ => (store_only fits).bind fun _ => ?_⟩
          apply (ih _).bind fun _ => Logged.only_pure
          omega

/-- A node is created as without the stores, and its name fits if it is a short one. -/
theorem vfsCreateNodeStores_value (v : Vfs) (parent : Option NodePtr) (name : Option (List Char)) (type : VfsType)
    (kmalloc : Option NodePtr) :
    (vfsCreateNodeStores v parent name type kmalloc).result = vfsCreateNode v parent name type kmalloc := by
  unfold vfsCreateNodeStores vfsCreateNode
  rw [Logged.result_bind, Logged.result_lift]
  congr 1
  funext existing
  rw [Logged.result_bind, Logged.result_lift]
  congr 1
  funext pair
  obtain ⟨n, v⟩ := pair
  cases parent with
  | none => rfl
  | some parent =>
      cases name with
      | none => rfl
      | some name =>
          simp only [Logged.result_ite, Logged.result_bind, Logged.result_lift, Logged.result_pure]
          cases existing <;> cases n <;>
            simp only [Logged.result_ite, Logged.result_bind, Logged.result_lift, Logged.result_pure, strCopy_value] <;> rfl

/-- The copy of a short name into a node stays inside the array. -/
theorem vfsCreateNodeStores_only {parent : Option NodePtr} {type : VfsType} (short : name.length < vfsNameMax) :
    (vfsCreateNodeStores v parent (some name) type kmalloc).Only PathStore.Inside := by
  unfold vfsCreateNodeStores
  refine Logged.only_lift.bind fun existing => Logged.only_lift.bind fun (n, v) => ?_
  cases parent with
  | none => exact Logged.only_pure
  | some parent =>
      refine Logged.only_ite.mpr ⟨fun _ => Logged.only_pure, fun _ => Logged.Only.guard Logged.only_lift fun dir => ?_⟩
      cases existing with
      | some existing => exact Logged.only_pure
      | none =>
          refine Logged.only_ite.mpr ⟨fun _ => Logged.only_pure, fun _ => ?_⟩
          cases n with
          | none => exact Logged.only_pure
          | some n =>
              refine Logged.only_lift.bind fun node => (strCopy_only.mpr ?_).bind fun _ => Logged.only_pure
              rw [Nat.zero_add]
              exact short

theorem vfsFindFromStores_value (v : Vfs) (fuel cur : Nat) (p : List Char) :
    (vfsFindFromStores v fuel cur p).result = vfsFindFrom v fuel cur p := by
  induction fuel generalizing cur p with
  | zero => rfl
  | succ fuel ih =>
      rw [vfsFindFromStores, vfsFindFrom]
      simp only [Logged.result_ite, Logged.result_bind, takeTokenStores_value, Result.ok_bind, Logged.result_lift]
      congr 3
      funext next
      cases next with
      | none => rfl
      | some next => exact ih next _

/-- The function `vfs_find` stores only inside `token`. -/
theorem vfsFindFromStores_only (fuel cur : Nat) : (vfsFindFromStores v fuel cur p).Only PathStore.Inside := by
  induction fuel generalizing cur p with
  | zero => exact Logged.only_lift
  | succ fuel ih =>
      rw [vfsFindFromStores, Logged.only_ite]
      refine ⟨fun _ => Logged.only_pure, fun _ => Logged.Only.guard (takeTokenStores_only (by decide)) fun (token, rest) => ?_⟩
      refine Logged.only_lift.bind fun next => ?_
      cases next with
      | none => exact Logged.only_pure
      | some next => exact ih next

theorem vfsFindStores_value (v : Vfs) (path : List Char) : (vfsFindStores v path).result = vfsFind v path := by
  unfold vfsFindStores vfsFind
  cases v.root with
  | none => rfl
  | some root => rw [Logged.result_ite, vfsFindFromStores_value, Logged.result_pure]

theorem vfsFindStores_only (v : Vfs) (path : List Char) : (vfsFindStores v path).Only PathStore.Inside := by
  unfold vfsFindStores
  cases v.root with
  | none => exact Logged.only_pure
  | some root => exact Logged.only_ite.mpr ⟨fun _ => Logged.only_pure, fun _ => vfsFindFromStores_only _ _⟩

theorem vfsMkdirFromStores_value (fuel : Nat) (v : Vfs) (cur : NodePtr) (p : List Char) (kmallocs : List (Option NodePtr)) :
    (vfsMkdirFromStores fuel v cur p kmallocs).result = vfsMkdirFrom fuel v cur p kmallocs := by
  induction fuel generalizing v cur p kmallocs with
  | zero => rfl
  | succ fuel ih =>
      rw [vfsMkdirFromStores, vfsMkdirFrom]
      simp only [Logged.result_ite, Logged.result_bind, takeTokenStores_value, Result.ok_bind, Logged.result_lift]
      congr 3
      funext next
      cases next with
      | none =>
          simp only [Logged.result_bind, vfsCreateNodeStores_value]
          congr 1
          funext pair
          obtain ⟨next, v⟩ := pair
          cases next with
          | none => rfl
          | some next => exact ih v next _ _
      | some next =>
          simp only [Logged.result_ite, Logged.result_bind, Logged.result_lift, ih]
          rfl

/-- The function `vfs_mkdir` stores only inside `token` and the names of the nodes. -/
theorem vfsMkdirFromStores_only (fuel : Nat) (v : Vfs) (cur : NodePtr) (p : List Char) (kmallocs : List (Option NodePtr)) :
    (vfsMkdirFromStores fuel v cur p kmallocs).Only PathStore.Inside := by
  induction fuel generalizing v cur p kmallocs with
  | zero => exact Logged.only_lift
  | succ fuel ih =>
      rw [vfsMkdirFromStores, Logged.only_ite]
      refine ⟨fun _ => Logged.only_pure, fun _ => ?_⟩
      refine (takeTokenStores_only (by decide)).bind_value (takeTokenStores_value _ _ _) ?_
      refine Logged.only_ite.mpr ⟨fun _ => Logged.only_pure, fun _ => Logged.only_lift.bind fun next => ?_⟩
      cases next with
      | none =>
          refine (vfsCreateNodeStores_only ?_).bind fun (next, v) => ?_
          · exact Nat.lt_of_le_of_lt (takeToken_short _ _) (by decide)
          · cases next with
            | none => exact Logged.only_pure
            | some next => exact ih v next _ _
      | some next => exact Logged.Only.guard Logged.only_lift fun node => ih v next _ _

theorem vfsMkdirStores_value (v : Vfs) (path : List Char) (kmallocs : List (Option NodePtr)) :
    (vfsMkdirStores v path kmallocs).result = vfsMkdir v path kmallocs := by
  unfold vfsMkdirStores vfsMkdir
  cases v.root with
  | none => rfl
  | some root => rw [Logged.result_ite, vfsMkdirFromStores_value, Logged.result_pure]

theorem vfsMkdirStores_only (v : Vfs) (path : List Char) (kmallocs : List (Option NodePtr)) :
    (vfsMkdirStores v path kmallocs).Only PathStore.Inside := by
  unfold vfsMkdirStores
  cases v.root with
  | none => exact Logged.only_pure
  | some root => exact Logged.only_ite.mpr ⟨fun _ => Logged.only_pure, fun _ => vfsMkdirFromStores_only _ _ _ _ _⟩

theorem copyDirpath_value (left i : Nat) (path : List Char) : (copyDirpath left i path).result = .ok (path.take left) := by
  induction left generalizing i path with
  | zero => rfl
  | succ left ih =>
      cases path with
      | nil => rfl
      | cons c path =>
          rw [copyDirpath, Logged.result_bind, Logged.result_access, Result.ok_bind, Logged.result_bind, ih]
          rfl

/-- The copy of the directory part needs one more place than it may take characters. -/
theorem copyDirpath_only (fits : i + left < vfsMaxPath) : (copyDirpath left i path).Only PathStore.Inside := by
  induction left generalizing i path with
  | zero => exact store_only fits
  | succ left ih =>
      cases path with
      | nil => exact store_only fits
      | cons c path =>
          apply (store_only fits).bind fun _ => (ih _).bind fun _ => Logged.only_pure
          omega

theorem copyNameStores_value (name : List Char) : (copyNameStores name).result = copyName name := by
  rw [copyNameStores, Logged.result_bind, strCopy_value, Result.ok_bind, Logged.result_lift]

theorem copyNameStores_only : (copyNameStores name).Only PathStore.Inside ↔ name.length < vfsNameMax := by
  rw [copyNameStores, Logged.only_bind, strCopy_only, Nat.zero_add]
  exact and_iff_left fun _ _ => Logged.only_lift

/-- The part of a path behind its last slash. -/
def lastComponent (path : List Char) : List Char :=
  match lastSlash 0 none path with
  | none => path
  | some last => path.drop (last + 1)

theorem vfsSplitPathStores_value (path : List Char) : (vfsSplitPathStores path).result = vfsSplitPath path := by
  unfold vfsSplitPathStores vfsSplitPath
  cases lastSlash 0 none path with
  | none =>
      simp only [Logged.result_bind, strCopy_value, copyNameStores_value, Result.ok_bind]
      rfl
  | some last =>
      cases last <;>
        simp only [Logged.result_bind, strCopy_value, copyDirpath_value, copyNameStores_value, Result.ok_bind] <;> rfl

/-- Behind a part that stays inside its array the copy of the name decides. -/
theorem copyBehind_only {A B : Type} {first : Stores A} {value : A} (inside : first.Only PathStore.Inside)
    (returned : first.result = .ok value) (rest : A → List Char → B) :
    (first >>= fun value => copyNameStores name >>= fun fname => pure (rest value fname)).Only PathStore.Inside ↔
      name.length < vfsNameMax := by
  rw [← copyNameStores_only]
  constructor
  · intro only
    exact (Logged.only_bind.mp ((Logged.only_bind.mp only).2 value returned)).1
  · exact fun fits => inside.bind fun _ => fits.bind fun _ => Logged.only_pure

/-- The function `vfs_split_path` stores inside its arrays exactly when the last component fits into `fname`. -/
theorem vfsSplitPathStores_only :
    (vfsSplitPathStores path).Only PathStore.Inside ↔ (lastComponent path).length < vfsNameMax := by
  have slash : (strCopy .dirpath 0 ['/']).Only PathStore.Inside := strCopy_only.mpr (by decide)
  unfold vfsSplitPathStores lastComponent
  cases lastSlash 0 none path with
  | none => exact copyBehind_only slash (strCopy_value _ _ _) fun _ fname => (['/'], fname)
  | some last =>
      cases last with
      | zero => exact copyBehind_only slash (strCopy_value _ _ _) fun _ fname => (['/'], fname)
      | succ last =>
          have inside : (copyDirpath (min (last + 1) (vfsMaxPath - 1)) 0 path).Only PathStore.Inside := by
            apply copyDirpath_only
            unfold vfsMaxPath
            omega
          exact copyBehind_only inside (copyDirpath_value _ _ _) fun dirpath fname => (dirpath, fname)

theorem vfsCreateAtStores_value (v : Vfs) (path : List Char) (type : VfsType) (kmallocs : List (Option NodePtr))
    (kmalloc : Option NodePtr) :
    (vfsCreateAtStores v path type kmallocs kmalloc).result = vfsCreateAt v path type kmallocs kmalloc := by
  unfold vfsCreateAtStores vfsCreateAt
  cases v.root with
  | none => rfl
  | some root =>
      simp only [Logged.result_bind, vfsSplitPathStores_value]
      congr 1
      funext pair
      obtain ⟨dirpath, fname⟩ := pair
      simp only [Logged.result_ite, Logged.result_bind, vfsFindStores_value]
      congr 2
      funext found
      cases found with
      | some dir => exact vfsCreateNodeStores_value _ _ _ _ _
      | none =>
          rw [Logged.result_bind, vfsMkdirStores_value]
          congr 1
          funext made
          obtain ⟨dir, v⟩ := made
          cases dir with
          | none => rfl
          | some dir => exact vfsCreateNodeStores_value _ _ _ _ _

/-- The creation of a node stores inside the arrays exactly when there is no root or the last component fits into `fname`. -/
theorem vfsCreateAtStores_only (v : Vfs) (path : List Char) (type : VfsType) (kmallocs : List (Option NodePtr))
    (kmalloc : Option NodePtr) : (vfsCreateAtStores v path type kmallocs kmalloc).Only PathStore.Inside ↔
      v.root = none ∨ (lastComponent path).length < vfsNameMax := by
  unfold vfsCreateAtStores
  cases isRoot : v.root with
  | none => exact iff_of_true Logged.only_pure (Or.inl rfl)
  | some root =>
      rw [or_iff_right (Option.some_ne_none root), ← vfsSplitPathStores_only]
      constructor
      · exact fun only => (Logged.only_bind.mp only).1
      · intro inside
        refine Logged.only_bind.mpr ⟨inside, ?_⟩
        rintro ⟨dirpath, fname⟩ split
        rw [vfsSplitPathStores_value] at split
        have short := (vfsSplitPath_name split).2
        refine Logged.only_ite.mpr ⟨fun _ => Logged.only_pure, fun _ => (vfsFindStores_only _ _).bind fun found => ?_⟩
        cases found with
        | some dir => exact vfsCreateNodeStores_only short
        | none =>
            refine (vfsMkdirStores_only _ _ _).bind ?_
            rintro ⟨dir, v⟩
            cases dir with
            | none => exact Logged.only_pure
            | some dir => exact vfsCreateNodeStores_only short

theorem vfsCreateDeviceStores_value (v : Vfs) (path : List Char) (device : Option Nat) (kmallocs : List (Option NodePtr))
    (kmalloc : Option NodePtr) :
    (vfsCreateDeviceStores v path device kmallocs kmalloc).result = vfsCreateDevice v path device kmallocs kmalloc := by
  cases device with
  | none => rfl
  | some device =>
      simp only [vfsCreateDeviceStores, vfsCreateDevice, Logged.result_bind, vfsCreateAtStores_value]
      congr 1
      funext pair
      obtain ⟨node, v⟩ := pair
      cases node with
      | none => rfl
      | some ptr =>
          simp only [Logged.result_bind, Logged.result_lift]
          rfl

/-- Without a device nothing is stored. -/
theorem vfsCreateDeviceStores_only (v : Vfs) (path : List Char) (device : Option Nat) (kmallocs : List (Option NodePtr))
    (kmalloc : Option NodePtr) : (vfsCreateDeviceStores v path device kmallocs kmalloc).Only PathStore.Inside ↔
      device = none ∨ v.root = none ∨ (lastComponent path).length < vfsNameMax := by
  cases device with
  | none => exact iff_of_true Logged.only_pure (Or.inl rfl)
  | some device =>
      rw [or_iff_right (Option.some_ne_none device), ← vfsCreateAtStores_only v path .device kmallocs kmalloc]
      constructor
      · exact fun only => (Logged.only_bind.mp only).1
      · refine fun inside => inside.bind fun (node, v) => ?_
        cases node with
        | none => exact Logged.only_pure
        | some ptr => exact Logged.only_lift.bind fun node => Logged.only_pure

/-- The path routines with their stores are the routines. Lookups and `vfs_mkdir` store inside their arrays, and creations do
exactly when the last component of the path fits into `fname`. -/
theorem path_buffers_fit (v : Vfs) (path : List Char) (device : Option Nat) (kmallocs : List (Option NodePtr))
    (kmalloc : Option NodePtr) :
    ((vfsFindStores v path).result = vfsFind v path ∧ (vfsFindStores v path).Only PathStore.Inside) ∧
    ((vfsMkdirStores v path kmallocs).result = vfsMkdir v path kmallocs ∧
      (vfsMkdirStores v path kmallocs).Only PathStore.Inside) ∧
    ((vfsCreateFileStores v path kmallocs kmalloc).result = vfsCreateFile v path kmallocs kmalloc ∧
      ((vfsCreateFileStores v path kmallocs kmalloc).Only PathStore.Inside ↔
        v.root = none ∨ (lastComponent path).length < vfsNameMax)) ∧
    (vfsCreateDeviceStores v path device kmallocs kmalloc).result = vfsCreateDevice v path device kmallocs kmalloc ∧
      ((vfsCreateDeviceStores v path device kmallocs kmalloc).Only PathStore.Inside ↔
        device = none ∨ v.root = none ∨ (lastComponent path).length < vfsNameMax) := by
  refine ⟨⟨?_, ?_⟩, ⟨?_, ?_⟩, ⟨?_, ?_⟩, ?_, ?_⟩
  · exact vfsFindStores_value v path
  · exact vfsFindStores_only v path
  · exact vfsMkdirStores_value v path kmallocs
  · exact vfsMkdirStores_only v path kmallocs
  · exact vfsCreateAtStores_value v path .file kmallocs kmalloc
  · exact vfsCreateAtStores_only v path .file kmallocs kmalloc
  · exact vfsCreateDeviceStores_value v path device kmallocs kmalloc
  · exact vfsCreateDeviceStores_only v path device kmallocs kmalloc

end

/-- A name of 64 characters overflows `fname` by its final zero. -/
theorem path_buffers_overflow : ¬∀ (start v : Vfs) (path : List Char) (kmallocs : List (Option NodePtr)) (kmalloc : Option NodePtr),
    vfsInit start kmalloc = .ok v → (vfsCreateFileStores v path kmallocs kmalloc).Only PathStore.Inside := by
  intro claim
  cases booted : vfsInit (Vfs.boot (fun _ => 0) ⟨0x1000, 16⟩) (some 1) with
  | error halt => cases booted
  | ok v =>
      have only := claim _ v (List.replicate 64 'a') [] _ booted ⟨.fname, 64⟩
      cases booted
      have overflows : 64 < PathBuffer.size .fname := only (by decide +kernel)
      exact absurd overflows (by decide)

end DoccrOS.Fs
