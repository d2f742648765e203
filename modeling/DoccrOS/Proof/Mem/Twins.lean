import DoccrOS.Proof.Mem.CloneShares
import DoccrOS.Proof.Mem.DataStores
import DoccrOS.Proof.Mem.UserSpaces

namespace DoccrOS.Mem
open Lib.Radix Lib

/-- Two machines that differ only in hidden pages that hold no table. -/
def Twins (hidden roots : Set Nat) (m n : Machine) : Prop := DataStores m n {page | page ∈ hidden ∧ page ∉ Tables m roots}

/-- The pages of the free frames. -/
def unusedPages (m : Machine) : Set Nat := {page | m.phys.Free (page / pageSize)}

section
variable {m m' n n' : Machine} {cells hidden roots : Set Nat} {root base count : Nat} {flags : Word} {frames : Nat → Nat}

theorem DataStores.mono {cells' : Set Nat} (stores : DataStores m n cells) (more : cells ⊆ cells') : DataStores m n cells' :=
  ⟨fun page outside => stores.ram page fun inside => outside (more inside), stores.phys, stores.kernelPml4⟩

/-- The same store into both machines. -/
theorem DataStores.setEntry (stores : DataStores m n cells) (table : Nat) (index : Fin 512) (entry : Word) :
    DataStores (m.setEntry table index entry) (n.setEntry table index entry) cells := by
  refine ⟨?_, stores.phys, stores.kernelPml4⟩
  intro page outside
  funext slot
  rw [setEntry_ram, setEntry_ram, stores.ram page outside]

/-- A page that both machines clear differs no more. -/
theorem DataStores.zeroPage (stores : DataStores m n cells) (cleared : Nat) :
    DataStores (m.zeroPage cleared) (n.zeroPage cleared) (cells \ {cleared}) := by
  refine ⟨?_, stores.phys, stores.kernelPml4⟩
  intro page outside
  by_cases here : page = cleared
  · funext slot
    rw [here, zeroPage_ram, zeroPage_ram]
  · rw [zeroPage_ram_ne _ _ _ here, zeroPage_ram_ne _ _ _ here]
    exact stores.ram page fun inside => outside ⟨inside, here⟩

theorem DataStores.withPhys (stores : DataStores m n cells) (p : PhysMem) :
    DataStores { m with phys := p } { n with phys := p } cells :=
  ⟨stores.ram, rfl, stores.kernelPml4⟩

theorem DataStores.child (stores : DataStores m n cells) {table : Nat} (outside : table ∉ cells) (index : Fin 512) :
    n.child table index = m.child table index := by
  unfold Machine.child
  rw [stores.ram table outside]

theorem Twins.ram_table (twins : Twins hidden roots m n) {table : Nat} (owned : table ∈ Tables m roots) :
    n.ram table = m.ram table :=
  DataStores.ram twins table fun inside => inside.2 owned

theorem Twins.tables (twins : Twins hidden roots m n) (inv : TableInv m roots) : TableInv n roots ∧
    Tables n roots = Tables m roots ∧ ∀ root ∈ roots, ∀ va, UserVa va → n.findPte root va = m.findPte root va :=
  DataStores.tables twins inv fun _ inside => inside.2

/-- A level of the descent takes the same step in both machines. -/
theorem Twins.getOrCreate {message : String} {table below : Nat} {path : List (Fin 512)} {index : Fin 512}
    (twins : Twins hidden roots m n) (inv : TableInv m roots) (isRoot : root ∈ roots)
    (reached : walk m.child root path = some table) (admitted : userPaths.holds (path ++ [index]))
    (returned : getOrCreate message m table index = .ok (below, m')) :
    ∃ n', getOrCreate message n table index = .ok (below, n') ∧ Twins hidden roots m' n' := by
  have owned : table ∈ Tables m roots := mem_nodes isRoot (userPaths.init path index admitted) reached
  have descended := getOrCreate_spec inv isRoot reached admitted returned
  have link := mem_nodes isRoot admitted descended.reached
  unfold Mem.getOrCreate at returned ⊢
  have same : n.child table index = m.child table index :=
    DataStores.child twins (fun inside => inside.2 owned) index
  rw [same]
  cases present : m.child table index with
  | some child =>
      rw [present] at returned
      cases returned
      exact ⟨n, rfl, twins⟩
  | none =>
      rw [present] at returned
      rw [DataStores.phys twins]
      cases allocated : physmemAllocTo m.phys 1 with
      | mk phys p =>
          simp only [allocated] at returned ⊢
          split at returned
          · cases returned
          · rename_i nonzero
            cases returned
            refine ⟨_, if_neg nonzero, ?_⟩
            have stores := ((DataStores.withPhys twins p).setEntry table index (tableEntry below)).zeroPage below
            refine stores.mono ?_
            rintro page ⟨⟨isHidden, notTable⟩, different⟩
            refine ⟨isHidden, fun owned' => ?_⟩
            exact different (descended.only page owned' notTable)

theorem Twins.pagingMapPageIn {va phys : Nat} (twins : Twins hidden roots m n) (inv : TableInv m roots)
    (isRoot : root ∈ roots) (user : UserVa va) (returned : pagingMapPageIn m root va phys flags = .ok m') :
    ∃ n', pagingMapPageIn n root va phys flags = .ok n' ∧ Twins hidden roots m' n' := by
  have admitted := tablePath_user user
  have admitted₂ : userPaths.holds [pml4Index va, pdpIndex va] := userPaths.init _ (pdIndex va) admitted
  have admitted₁ : userPaths.holds [pml4Index va] := userPaths.init _ (pdpIndex va) admitted₂
  unfold Mem.pagingMapPageIn at returned ⊢
  obtain ⟨⟨pdpt, m₁⟩, call₁, returned⟩ := Result.bind_ok returned
  obtain ⟨⟨pd, m₂⟩, call₂, returned⟩ := Result.bind_ok returned
  obtain ⟨⟨pt, m₃⟩, call₃, returned⟩ := Result.bind_ok returned
  have step₁ := getOrCreate_spec inv isRoot (walk_nil _ _) admitted₁ call₁
  have step₂ := getOrCreate_spec step₁.grown.inv isRoot step₁.reached admitted₂ call₂
  have step₃ := getOrCreate_spec step₂.grown.inv isRoot step₂.reached admitted call₃
  obtain ⟨n₁, same₁, twins₁⟩ := twins.getOrCreate inv isRoot (walk_nil _ _) admitted₁ call₁
  obtain ⟨n₂, same₂, twins₂⟩ := twins₁.getOrCreate step₁.grown.inv isRoot step₁.reached admitted₂ call₂
  obtain ⟨n₃, same₃, twins₃⟩ := twins₂.getOrCreate step₂.grown.inv isRoot step₂.reached admitted call₃
  have set := setLeaf_spec step₃.grown.inv isRoot user step₃.reached (leafEntry phys flags)
  cases returned
  refine ⟨n₃.setEntry pt (ptIndex va) (leafEntry phys flags), ?_, ?_⟩
  · simp only [same₁, same₂, same₃, Result.ok_bind]
    rfl
  · unfold Twins
    rw [set.tables]
    exact DataStores.setEntry twins₃ pt (ptIndex va) (leafEntry phys flags)

/-- An allocation of pages that succeeds hands out the same frames in both machines. -/
theorem Twins.allocPages (twins : Twins hidden roots m n) (inv : TableInv m roots) (isRoot : root ∈ roots)
    (range : UserRange base count) (page : PageFlags flags)
    (returned : vmmSpaceAllocPages root base flags count 0 m = .ok (none, m')) :
    ∃ n', vmmSpaceAllocPages root base flags count 0 n = .ok (none, n') ∧ Twins hidden roots m' n' := by
  have general : ∀ left i m n, i + left = count → TableInv m roots → Twins hidden roots m n →
      vmmSpaceAllocPages root base flags left i m = .ok (none, m') →
      ∃ n', vmmSpaceAllocPages root base flags left i n = .ok (none, n') ∧ Twins hidden roots m' n' := by
    intro left
    induction left with
    | zero =>
        intro i m n _ _ twins call
        cases call
        exact ⟨n, rfl, twins⟩
    | succ left ih =>
        intro i m n total inv twins call
        have inside : i < count := by omega
        obtain ⟨wrapped, user, _⟩ := range.address inside
        rw [vmmSpaceAllocPages, wrapped] at call
        rcases physmemAllocTo_one m.phys inv.zeroUsed with ⟨exhausted, none⟩ | ⟨frame, nonzero, free, taken⟩
        · simp only [exhausted, if_true] at call
          cases call
        · have address : frame * pageSize ≠ 0 := by simp [pageSize, nonzero]
          simp only [taken, address, if_false] at call
          obtain ⟨next, mapped, rest⟩ := Result.bind_ok call
          have inv' := inv.takeFrame frame
          have twins' : Twins hidden roots { m with phys := m.phys.markUsed frame } { n with phys := m.phys.markUsed frame } :=
            DataStores.withPhys twins _
          obtain ⟨next', mapped', twins''⟩ := twins'.pagingMapPageIn inv' isRoot user mapped
          have grown := (pagingMapPageIn_spec inv' isRoot user page.present mapped).grown
          obtain ⟨n', filled, last⟩ := ih (i + 1) next next' (by omega) grown.inv twins'' rest
          refine ⟨n', ?_, last⟩
          rw [vmmSpaceAllocPages, wrapped, DataStores.phys twins, taken]
          simp only [address, if_false, mapped', Result.ok_bind]
          exact filled
  exact general count 0 m n (by omega) inv twins returned

theorem Twins.alloc {space space' : Space} {value vaddr : Nat} {flags : BitVec 32} {nodeOk : Bool}
    (twins : Twins hidden roots m n) (inv : TableInv m roots) (isRoot : space.pml4Phys ∈ roots)
    (range : UserRange (pageAlignDown vaddr) count)
    (returned : vmmSpaceAlloc m space vaddr count flags nodeOk = .ok (value, m', space')) (success : value ≠ 0) :
    ∃ n', vmmSpaceAlloc n space vaddr count flags nodeOk = .ok (value, n', space') ∧ Twins hidden roots m' n' := by
  unfold vmmSpaceAlloc at returned ⊢
  split at returned
  · cases returned
    exact absurd rfl success
  · rename_i several
    cases nodeOk with
    | false =>
        cases returned
        exact absurd rfl success
    | true =>
        obtain ⟨⟨failed, full⟩, pages, rest⟩ := Result.bind_ok returned
        cases failed with
        | some i =>
            cases rest
            exact absurd rfl success
        | none =>
            cases rest
            obtain ⟨n', same, twins'⟩ := twins.allocPages inv isRoot range (flagsToPte_page flags) pages
            refine ⟨n', ?_, twins'⟩
            rw [if_neg several]
            simp only [Bool.not_true, Bool.false_eq_true, if_false, same, Result.ok_bind]
            rfl

theorem DataStores.releaseTable (stores : DataStores m n cells) {parent : Nat} (outside : parent ∉ cells)
    (index : Fin 512) : DataStores (releaseTable m parent index) (releaseTable n parent index) cells := by
  unfold Mem.releaseTable
  rw [stores.ram parent outside, stores.phys]
  exact (stores.setEntry parent index 0).withPhys _

theorem DataStores.tableEmpty (stores : DataStores m n cells) {table : Nat} (outside : table ∉ cells) :
    n.tableEmpty table = m.tableEmpty table := by
  unfold Machine.tableEmpty
  rw [stores.ram table outside]

/-- The tail of the loop body of `vmm_space_free` takes the same steps in both machines. -/
theorem DataStores.clearAndPrune (stores : DataStores m n cells) {pml4 pdpt pd pt : Nat} (va : Nat) (out₀ : pml4 ∉ cells)
    (out₁ : pdpt ∉ cells) (out₂ : pd ∉ cells) (out₃ : pt ∉ cells) :
    DataStores (clearAndPrune m pml4 pdpt pd pt va) (clearAndPrune n pml4 pdpt pd pt va) cells := by
  have first := stores.setEntry pt (ptIndex va) 0
  have second := first.releaseTable out₂ (pdIndex va)
  have third := second.releaseTable out₁ (pdpIndex va)
  have fourth := third.releaseTable out₀ (pml4Index va)
  unfold Mem.clearAndPrune
  simp only [first.tableEmpty out₃, second.tableEmpty out₂, third.tableEmpty out₁]
  split
  · exact first
  split
  · exact second
  split
  · exact third
  · exact fourth

theorem DataStores.freePage (stores : DataStores m n cells) (apart : ∀ table ∈ Tables m roots, table ∉ cells)
    (isRoot : root ∈ roots) {va : Nat} (user : UserVa va) (isMmio : Bool) :
    DataStores (vmmSpaceFreePage m root va isMmio) (vmmSpaceFreePage n root va isMmio) cells := by
  have admitted := tablePath_user user
  have admitted₂ : userPaths.holds [pml4Index va, pdpIndex va] := userPaths.init _ (pdIndex va) admitted
  have admitted₁ : userPaths.holds [pml4Index va] := userPaths.init _ (pdpIndex va) admitted₂
  have out₀ := apart root (root_mem_nodes isRoot)
  unfold vmmSpaceFreePage
  rw [stores.child out₀]
  cases at₁ : m.child root (pml4Index va) with
  | none => exact stores
  | some pdpt =>
      have walk₁ : walk m.child root ([] ++ [pml4Index va]) = some pdpt := by
        rw [walk_snoc, walk_nil]
        exact at₁
      have out₁ := apart pdpt (mem_nodes isRoot admitted₁ walk₁)
      simp only [stores.child out₁]
      cases at₂ : m.child pdpt (pdpIndex va) with
      | none => exact stores
      | some pd =>
          have walk₂ : walk m.child root ([] ++ [pml4Index va] ++ [pdpIndex va]) = some pd := by
            rw [walk_snoc, walk₁]
            exact at₂
          have out₂ := apart pd (mem_nodes isRoot admitted₂ walk₂)
          simp only [stores.child out₂]
          cases at₃ : m.child pd (pdIndex va) with
          | none => exact stores
          | some pt =>
              have walk₃ : walk m.child root ([] ++ [pml4Index va] ++ [pdpIndex va] ++ [pdIndex va]) = some pt := by
                rw [walk_snoc, walk₂]
                exact at₃
              have out₃ := apart pt (mem_nodes isRoot admitted walk₃)
              simp only [stores.ram pt out₃, stores.phys]
              split
              · exact stores
              · cases isMmio with
                | true => exact stores.clearAndPrune va out₀ out₁ out₂ out₃
                | false => exact (stores.withPhys _).clearAndPrune va out₀ out₁ out₂ out₃

/-- The page loop of `vmm_space_free` takes the same steps in both machines. -/
theorem Twins.freePages {isMmio : Bool} (twins : Twins hidden roots m n) (inv : TableInv m roots) (isRoot : root ∈ roots)
    (range : UserRange base count) (data : DropsTracked m roots root base count isMmio) :
    Twins hidden roots
      ((List.range count).foldl (fun m i => vmmSpaceFreePage m root (wrap64 (base + i * pageSize)) isMmio) m)
      ((List.range count).foldl (fun m i => vmmSpaceFreePage m root (wrap64 (base + i * pageSize)) isMmio) n) := by
  have freed (i : Nat) (inside : i ≤ count) := vmmSpaceFreePages_spec inv isRoot (range.shorter inside)
    fun j entry early => data j entry (Nat.lt_of_lt_of_le early inside)
  have steps : ∀ i, i ≤ count → DataStores
      ((List.range i).foldl (fun m i => vmmSpaceFreePage m root (wrap64 (base + i * pageSize)) isMmio) m)
      ((List.range i).foldl (fun m i => vmmSpaceFreePage m root (wrap64 (base + i * pageSize)) isMmio) n)
      {page | page ∈ hidden ∧ page ∉ Tables m roots} := by
    intro i inside
    induction i with
    | zero => exact twins
    | succ i ih =>
        rw [List.range_succ, List.foldl_append, List.foldl_append]
        obtain ⟨wrapped, user, _⟩ := range.address inside
        simp only [List.foldl_cons, List.foldl_nil, wrapped]
        refine (ih (Nat.le_of_succ_le inside)).freePage ?_ isRoot user isMmio
        intro table owned both
        exact both.2 ((freed i (Nat.le_of_succ_le inside)).tables owned)
  refine (steps count (Nat.le_refl _)).mono ?_
  rintro page ⟨isHidden, notTable⟩
  exact ⟨isHidden, fun owned => notTable ((freed count (Nat.le_refl _)).tables owned)⟩

theorem Twins.free {space space' : Space} {vaddr : Nat} {places : Finset Place} {shield : Set Nat}
    (twins : Twins hidden roots m n) (inv : MemInv shield m roots places) (regions : RegionsInv space places)
    (isRoot : space.pml4Phys ∈ roots) (returned : vmmSpaceFree m space vaddr = (m', space')) :
    ∃ n', vmmSpaceFree n space vaddr = (n', space') ∧ Twins hidden roots m' n' := by
  unfold vmmSpaceFree at returned ⊢
  by_cases zero : vaddr = 0
  · rw [if_pos zero] at returned ⊢
    cases returned
    exact ⟨n, rfl, twins⟩
  · rw [if_neg zero] at returned ⊢
    cases found : space.regions.find? (·.matches vaddr) with
    | none =>
        rw [found] at returned
        cases returned
        exact ⟨n, rfl, twins⟩
    | some cur =>
        rw [found] at returned
        cases returned
        have member := List.mem_of_find?_eq_some found
        have selected := List.find?_some found
        have base : cur.base = vaddr := Region.matches_base selected
        refine ⟨_, rfl, ?_⟩
        rw [← base]
        exact twins.freePages inv.data.tables isRoot (regions.regions cur member).range
          (inv.dropsData regions member).tracked

/-- A machine that differs in free frames has the invariant of the memory as well. -/
theorem MemInv.twin {shield : Set Nat} {places : Finset Place} (inv : MemInv shield m roots places)
    (stores : DataStores m n (unusedPages m)) : MemInv shield n roots places ∧ Twins (unusedPages m) roots m n := by
  have apart : ∀ cell ∈ unusedPages m, cell ∉ Tables m roots := by
    intro cell free owned
    have used := (inv.data.tables.allocated cell owned).used
    rw [free.2] at used
    exact Bool.false_ne_true used
  refine ⟨(inv.overwritten stores apart ?_).1, stores.mono fun page free => ⟨free, apart page free⟩⟩
  intro page member free
  exact (inv.shielded page member).2.1 free

/-- A release does not write to a free frame. -/
theorem MemInv.free_stale {space space' : Space} {vaddr frame : Nat} {places : Finset Place} {shield : Set Nat}
    (inv : MemInv shield m roots places) (regions : RegionsInv space places) (isRoot : space.pml4Phys ∈ roots)
    (returned : vmmSpaceFree m space vaddr = (m', space')) (free : m.phys.Free frame) :
    m'.ram (frame * pageSize) = m.ram (frame * pageSize) := by
  have outcome := vmmSpaceFree_spec inv.data.tables isRoot (fun cur found =>
    ⟨(regions.regions cur (selected_mem found)).range, inv.dropsData regions (selected_mem found)⟩) returned
  cases outcome with
  | missing _ => rfl
  | freed cur _ found range => exact range.ram _ (inv.data.free_notTable free)

/-- A fresh page in two runs: both read the same frame, and only a hidden frame may differ. -/
structure FreshCell (hidden : Set Nat) (m n m' n' : Machine) (space : Space) (va frame : Nat) : Prop where
  found : ∃ entry, m'.findPte space.pml4Phys va = some entry ∧ entryAddr entry = frame * pageSize
  read : userRead m' space va = some (m'.loadByte (frame * pageSize) (va % pageSize))
  read' : userRead n' space va = some (n'.loadByte (frame * pageSize) (va % pageSize))
  stale : m.phys.Free frame → m'.ram (frame * pageSize) = m.ram (frame * pageSize) ∧
    n'.ram (frame * pageSize) = n.ram (frame * pageSize)
  own : frame * pageSize ∉ hidden → n'.ram (frame * pageSize) = m'.ram (frame * pageSize)

/-- The pages that an allocation maps are fresh cells of the two runs. -/
theorem Twins.freshCell {m₁ n₁ : Machine} {space : Space} {va : Nat} {flags : BitVec 32} {frames' : Nat → Nat}
    (twins : Twins hidden roots m' n')
    (filled : AllocatedRange m₁ m' roots space.pml4Phys base count (flagsToPte flags) frames)
    (filled' : AllocatedRange n₁ n' roots space.pml4Phys base count (flagsToPte flags) frames')
    (same : ∀ frame, m₁.phys.Free frame → m.phys.Free frame → m₁.ram (frame * pageSize) = m.ram (frame * pageSize))
    (same' : ∀ frame, m₁.phys.Free frame → m.phys.Free frame → n₁.ram (frame * pageSize) = n.ram (frame * pageSize))
    (isRoot : space.pml4Phys ∈ roots) (user : UserVa va) (inside : InRange base count va) :
    FreshCell hidden m n m' n' space va (frames (va / pageSize - base / pageSize)) := by
  have index : va / pageSize - base / pageSize < count := by
    unfold InRange at inside
    omega
  have page := flagsToPte_page flags
  have leaf := (filled.leaf _ isRoot va user).trans (if_pos ⟨rfl, inside⟩)
  have leaf' := (twins.tables filled.tables).2.2 _ isRoot va user
  obtain ⟨_, address⟩ := filled.frame page index
  have notTable := (filled.taken _ index).2.2
  have wasFree := (filled.free _ index).2
  generalize frames (va / pageSize - base / pageSize) = frame at *
  refine ⟨⟨_, leaf, address⟩, ?_, ?_, ?_, ?_⟩
  · rw [userRead, leaf, Option.map_some, address]
  · rw [userRead, leaf', leaf, Option.map_some, address]
  · intro free
    have tables := (twins.tables filled.tables).2.1
    exact ⟨(filled.ram _ notTable).trans (same frame wasFree free),
      (filled'.ram _ (tables ▸ notTable)).trans (same' frame wasFree free)⟩
  · exact fun shown => DataStores.ram twins _ fun inside => shown inside.1

/-- An allocation that succeeds maps fresh cells of the two runs. -/
theorem Twins.allocFresh {m₁ n₁ : Machine} {space space' : Space} {value vaddr : Nat} {flags : BitVec 32} {nodeOk : Bool}
    (twins : Twins hidden roots m₁ n₁) (inv : TableInv m₁ roots)
    (same : ∀ frame, m₁.phys.Free frame → m.phys.Free frame → m₁.ram (frame * pageSize) = m.ram (frame * pageSize))
    (same' : ∀ frame, m₁.phys.Free frame → m.phys.Free frame → n₁.ram (frame * pageSize) = n.ram (frame * pageSize))
    (isRoot : space.pml4Phys ∈ roots) (range : UserRange (pageAlignDown vaddr) count)
    (returned : vmmSpaceAlloc m₁ space vaddr count flags nodeOk = .ok (value, m', space')) (success : value ≠ 0) :
    value = pageAlignDown vaddr ∧ ∃ n', vmmSpaceAlloc n₁ space vaddr count flags nodeOk = .ok (value, n', space') ∧
      ∀ va, InRange (pageAlignDown vaddr) count va → ∃ frame, m₁.phys.Free frame ∧ FreshCell hidden m n m' n' space' va frame := by
  obtain ⟨n', returned', twins'⟩ := twins.alloc inv isRoot range returned success
  have outcome := vmmSpaceAlloc_spec inv isRoot range returned
  have outcome' := vmmSpaceAlloc_spec (twins.tables inv).1 isRoot range returned'
  obtain ⟨isRecord, frames, filled⟩ := outcome.filled success
  obtain ⟨_, frames', filled'⟩ := outcome'.filled success
  refine ⟨?_, n', returned', ?_⟩
  · cases outcome with
    | refused why => exact absurd rfl success
    | failed i frames full inside node filled exhausted _ undone => exact absurd rfl success
    | done frames _ positive node filled => rfl
  · intro va inside
    have index : va / pageSize - pageAlignDown vaddr / pageSize < count := by
      unfold InRange at inside
      omega
    rw [isRecord]
    exact ⟨_, (filled.free _ index).2, twins'.freshCell filled filled' same same' isRoot (range.userVa inside) inside⟩

/-- The machine with all bits of its free frames flipped. -/
def flipFree (m : Machine) : Machine :=
  { m with ram := fun page index => if page / pageSize < m.phys.total ∧ m.phys.used (page / pageSize) = false then
      ~~~m.ram page index else m.ram page index }

theorem flipFree_stores (m : Machine) : DataStores m (flipFree m) (unusedPages m) := by
  refine ⟨?_, rfl, rfl⟩
  intro page used
  funext index
  exact if_neg used

/-- A flipped byte differs. -/
theorem flipFree_byte {frame : Nat} (free : m.phys.Free frame) (offset : Nat) :
    (flipFree m).loadByte (frame * pageSize) offset ≠ m.loadByte (frame * pageSize) offset := by
  have flipped : (flipFree m).ram (frame * pageSize) (Fin.ofNat 512 (offset / 8)) =
      ~~~m.ram (frame * pageSize) (Fin.ofNat 512 (offset / 8)) := by
    refine if_pos ?_
    rw [page_div]
    exact free
  unfold Machine.loadByte
  rw [flipped]
  intro same
  have bit := congrArg (fun byte : BitVec 8 => byte.getLsbD 0) same
  have small : 8 * (offset % 8) < 64 := by omega
  simp [byteOf, small] at bit

end

end DoccrOS.Mem
