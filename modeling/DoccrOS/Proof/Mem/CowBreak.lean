import DoccrOS.Proof.Mem.CowCounts
import DoccrOS.Proof.Mem.CowResolution
import DoccrOS.Proof.Mem.KernelHalf

namespace DoccrOS.Mem
open Lib.Radix Lib

/-- The region that holds an address is a device range. -/
def Space.isMmio (space : Space) (va : Nat) : Bool :=
  (vmmSpaceFind space va).any fun region => hasFlag region.flags vmmRegionMmio

/-- The tables of the user halves form a forest, no mapped frame is free or a table, and the counter of every frame that a
page outside the device ranges maps is the number of its mappings. -/
structure Kernel.Counted (k : Kernel) : Prop where
  distinct : ∀ ptr ptr' space space', k.spaces ptr = some space → k.spaces ptr' = some space' →
    space.pml4Phys = space'.pml4Phys → ptr = ptr'
  regions : ∀ ptr space, k.spaces ptr = some space → ∀ region ∈ space.regions, RegionInv region
  tables : TableInv k.machine k.roots
  mapped : ∀ frame, (k.mappings frame).Nonempty → ¬k.machine.phys.Free frame ∧ frame * pageSize ∉ Tables k.machine k.roots
  counted : ∀ ptr space va entry, k.spaces ptr = some space → UserVa va →
    k.machine.findPte space.pml4Phys va = some entry → space.isMmio va = false →
      entryAddr entry / pageSize < k.machine.phys.total ∧
        (k.machine.phys.pageframes (entryAddr entry / pageSize)).rc = (k.mappings (entryAddr entry / pageSize)).ncard

/-- The leaf entry of an address in a space. -/
def Kernel.pte (k : Kernel) (ptr : HeapPtr) (va : Nat) : Option Word :=
  (k.spaces ptr).bind fun space => k.machine.findPte space.pml4Phys va

/-- The byte that a process reads at an address of its space. -/
def Kernel.readAt (k : Kernel) (ptr : HeapPtr) (va : Nat) : Option (BitVec 8) :=
  (k.spaces ptr).bind fun space => userRead k.machine space va

/-- One page is writable and keeps its bytes, every other page keeps its entry and its bytes, and a page that shared its
frame has a frame of its own. -/
structure Kernel.Broken (k k' : Kernel) (ptr : HeapPtr) (faultAddr frame : Nat) : Prop where
  writable : (k'.pte ptr faultAddr).any entryWritable = true
  bytes : ∀ va, va / pageSize = faultAddr / pageSize → k'.readAt ptr va = k.readAt ptr va
  others : ∀ other va, UserVa va → (other, va / pageSize) ≠ (ptr, faultAddr / pageSize) →
    k'.pte other va = k.pte other va ∧ k'.readAt other va = k.readAt other va
  kernelHalf : KernelApart k.machine k.roots → ∀ other va, KernelVa va → k'.pte other va = k.pte other va
  alone : (∃ pair ∈ k.mappings frame, pair ≠ (ptr, faultAddr / pageSize)) → ∃ entry, k'.pte ptr faultAddr = some entry ∧
    k'.mappings (entryAddr entry / pageSize) = {(ptr, faultAddr / pageSize)}

section
variable {m m' : Machine} {roots : Set Nat} {root va : Nat} {flags entry : Word} {space : Space} {faultAddr : Nat}

/-- A page that is mapped is mapped again by a store of its leaf entry. -/
theorem pagingMapPageIn_present (phys : Nat) (tables : TableInv m roots) (isRoot : root ∈ roots) (user : UserVa va)
    (found : m.findPte root va = some entry) (present : entryPresent flags = true) :
    ∃ m', pagingMapPageIn m root va phys flags = .ok m' ∧ LeafSet m m' roots root va (some (leafEntry phys flags)) := by
  obtain ⟨pt, reached, _⟩ := findPte_some found
  have set := setLeaf_spec tables isRoot user reached (leafEntry phys flags)
  rw [entryPresent_leaf present, if_pos rfl] at set
  refine ⟨_, ?_, set⟩
  rw [← findPt_eq] at reached
  unfold Machine.findPt at reached
  obtain ⟨pdpt, at₁, reached⟩ := Option.bind_eq_some_iff.mp reached
  obtain ⟨pd, at₂, at₃⟩ := Option.bind_eq_some_iff.mp reached
  simp only [pagingMapPageIn, getOrCreate, at₁, at₂, at₃, Result.ok_bind]
  rfl

/-- What a break does to the machine: the page has a new writable entry with the old contents, and all other pages keep
their entries. -/
structure PageBroken (m m' : Machine) (roots : Set Nat) (root va : Nat) (entry entry' : Word) : Prop where
  writable : entryWritable entry' = true
  leaf : ∀ root' ∈ roots, ∀ va', UserVa va' → m'.findPte root' va' =
    if root' = root ∧ va' / pageSize = va / pageSize then some entry' else m.findPte root' va'
  ram : ∀ page, page ∉ Tables m roots → ¬m.phys.Free (page / pageSize) → m'.ram page = m.ram page
  kernelHalf : ∀ root' ∈ roots, ∀ index : Fin 512, 256 ≤ index.val → m'.ram root' index = m.ram root' index
  contents : m'.ram (entryAddr entry') = m.ram (entryAddr entry)
  frame : ((m.phys.pageframes (entryAddr entry / pageSize)).rc ≤ 1 ∧ entryAddr entry' = entryAddr entry) ∨
    ∃ frame, m.phys.Free frame ∧ entryAddr entry' = frame * pageSize

theorem entryAddr_fits (entry : Word) : entryAddr entry < 2 ^ 52 := by
  rw [entryAddr_eq]
  omega

end

section
variable {k : Kernel} {ptr : HeapPtr} {space : Space} {faultAddr va : Nat} {entry entry' : Word} {m' : Machine}
  {regions : List Region} {region : Region}

/-- A state with exact counters that a run of the memory manager reaches. -/
theorem KernelInv.counted {data : Set Nat} (inv : KernelInv exactPolicy data k) : k.Counted := by
  have allocated (pair : HeapPtr × Nat) (space : Space) (entry : Word) (live : k.spaces pair.1 = some space)
      (small : pair.2 < 2 ^ 35) (found : k.machine.findPte space.pml4Phys (pair.2 * pageSize) = some entry) :
      (userView k.machine k.roots).map (space.pml4Phys, pair.2) = some (entryAddr entry) :=
    pageView_map.mpr ⟨mem_userPlaces.mpr ⟨Kernel.isRoot live, small⟩, entry, found, rfl⟩
  refine ⟨inv.distinct, fun ptr space live => (inv.spaces ptr space live).regions, inv.pages.data.tables, ?_, ?_⟩
  · rintro frame ⟨pair, space, live, small, entry, found, address⟩
    obtain ⟨held, notTable⟩ := inv.pages.data.data _ _ (allocated pair space entry live small found)
    rw [address] at held notTable
    refine ⟨?_, notTable⟩
    intro free
    have used := held.used
    rw [page_div, free.2] at used
    exact Bool.false_ne_true used
  · intro ptr space va entry live user found _
    rw [← findPte_align] at found
    have mapped := allocated (ptr, va / pageSize) space entry live user.small found
    obtain ⟨held, _⟩ := inv.pages.data.data _ _ mapped
    refine ⟨held.inside, ?_⟩
    rw [inv.mappings_ncard, Nat.div_mul_cancel (Nat.dvd_of_mod_eq_zero held.aligned)]
    exact inv.pages.counted _ (Sharing.count_pos mapped)

theorem Kernel.mem_mappings (live : k.spaces ptr = some space) (user : UserVa va)
    (found : k.machine.findPte space.pml4Phys va = some entry) :
    (ptr, va / pageSize) ∈ k.mappings (entryAddr entry / pageSize) := by
  refine ⟨space, live, user.small, entry, ?_, ?_⟩
  · rw [findPte_align]
    exact found
  · rw [Nat.div_mul_cancel (Nat.dvd_of_mod_eq_zero (entryAddr_aligned entry))]

/-- The frame of a mapped page is neither free nor a table. -/
theorem Kernel.Counted.held (counted : k.Counted) (live : k.spaces ptr = some space) (user : UserVa va)
    (found : k.machine.findPte space.pml4Phys va = some entry) :
    ¬k.machine.phys.Free (entryAddr entry / pageSize) ∧ entryAddr entry ∉ Tables k.machine k.roots := by
  have held := counted.mapped _ ⟨_, Kernel.mem_mappings live user found⟩
  rw [Nat.div_mul_cancel (Nat.dvd_of_mod_eq_zero (entryAddr_aligned entry))] at held
  exact held

/-- A break of one page of the tables is a break of one page of the space. -/
theorem Kernel.Counted.broken (counted : k.Counted) (live : k.spaces ptr = some space) (user : UserVa faultAddr)
    (found : k.machine.findPte space.pml4Phys faultAddr = some entry)
    (exact_ : (k.machine.phys.pageframes (entryAddr entry / pageSize)).rc =
      (k.mappings (entryAddr entry / pageSize)).ncard)
    (broken : PageBroken k.machine m' k.roots space.pml4Phys faultAddr entry entry') :
    k.Broken (k.put ptr m' (some { space with regions := regions })) ptr faultAddr (entryAddr entry / pageSize) := by
  have isRoot : space.pml4Phys ∈ k.roots := Kernel.isRoot live
  have here (va : Nat) (user : UserVa va) (same : va / pageSize = faultAddr / pageSize) :
      m'.findPte space.pml4Phys va = some entry' := by
    rw [broken.leaf _ isRoot va user, if_pos ⟨rfl, same⟩]
  have there (other : HeapPtr) (space' : Space) (live' : k.spaces other = some space') (va : Nat) (user : UserVa va)
      (different : (other, va / pageSize) ≠ (ptr, faultAddr / pageSize)) :
      m'.findPte space'.pml4Phys va = k.machine.findPte space'.pml4Phys va := by
    rw [broken.leaf _ (Kernel.isRoot live') va user]
    apply if_neg
    rintro ⟨sameRoot, samePage⟩
    exact different (Prod.ext (counted.distinct other ptr space' space live' live sameRoot) samePage)
  have pte (other : HeapPtr) (va : Nat) :
      (k.put ptr m' (some { space with regions := regions })).pte other va =
        (k.spaces other).bind fun space' => m'.findPte space'.pml4Phys va := by
    by_cases same : other = ptr
    · simp [Kernel.pte, put_spaces, same, live]
    · simp [Kernel.pte, put_spaces, same]
  have readAt (other : HeapPtr) (va : Nat) :
      (k.put ptr m' (some { space with regions := regions })).readAt other va =
        (k.spaces other).bind fun space' => userRead m' space' va := by
    by_cases same : other = ptr
    · simp [Kernel.readAt, put_spaces, same, live, userRead]
    · simp [Kernel.readAt, put_spaces, same]
  refine ⟨?_, ?_, ?_, ?_, ?_⟩
  · simp [pte, live, here faultAddr user rfl, broken.writable]
  · intro va same
    have user' : UserVa va := by
      simp only [UserVa, pageSize] at *
      omega
    have found' : k.machine.findPte space.pml4Phys va = some entry := by
      rw [← findPte_align, same, findPte_align]
      exact found
    rw [readAt, Kernel.readAt, live]
    simp only [Option.bind_some, userRead, here va user' same, found', Option.map_some, Machine.loadByte, broken.contents]
  · intro other va user' different
    rw [pte, readAt]
    cases live' : k.spaces other with
    | none => simp [Kernel.pte, Kernel.readAt, live']
    | some space' =>
        have same := there other space' live' va user' different
        simp only [Kernel.pte, Kernel.readAt, live', Option.bind_some, userRead, same, true_and]
        cases found' : k.machine.findPte space'.pml4Phys va with
        | none => rfl
        | some entry₂ =>
            obtain ⟨notFree, notTable⟩ := counted.held live' user' found'
            simp only [Option.map_some, Machine.loadByte, broken.ram _ notTable notFree]
  · intro apart other va kernel
    rw [pte]
    cases live' : k.spaces other with
    | none => simp [Kernel.pte, live']
    | some space' =>
        have isRoot' : space'.pml4Phys ∈ (k.roots : Set Nat) := Kernel.isRoot live'
        simp only [Kernel.pte, live', Option.bind_some]
        refine findPte_kernel kernel (broken.kernelHalf _ isRoot') fun table owned => ?_
        obtain ⟨notTable, notFree⟩ := apart _ isRoot' table owned
        exact broken.ram table notTable notFree
  · rintro ⟨pair, mapped, different⟩
    have several : 1 < (k.mappings (entryAddr entry / pageSize)).ncard :=
      (Set.one_lt_ncard (k.mappings_finite _)).mpr ⟨pair, mapped, _, Kernel.mem_mappings live user found, different⟩
    obtain ⟨copy, free, address⟩ : ∃ frame, k.machine.phys.Free frame ∧ entryAddr entry' = frame * pageSize := by
      rcases broken.frame with ⟨few, _⟩ | copied
      · omega
      · exact copied
    refine ⟨entry', by simp [pte, live, here faultAddr user rfl], ?_⟩
    rw [address, page_div]
    ext other
    rw [Set.mem_singleton_iff]
    constructor
    · rintro ⟨space', live', small, entry₂, found', address'⟩
      by_contra notHere
      rw [put_machine] at found'
      have old : ∃ space₂, k.spaces other.1 = some space₂ ∧ space₂.pml4Phys = space'.pml4Phys := by
        rw [put_spaces] at live'
        by_cases same : other.1 = ptr
        · rw [if_pos same] at live'
          rw [same]
          obtain rfl := Option.some.inj live'
          exact ⟨space, live, rfl⟩
        · rw [if_neg same] at live'
          exact ⟨space', live', rfl⟩
      obtain ⟨space₂, live₂, sameRoot⟩ := old
      have apart : (other.1, other.2 * pageSize / pageSize) ≠ (ptr, faultAddr / pageSize) := by
        rw [page_div]
        exact notHere
      rw [← sameRoot, there other.1 space₂ live₂ _ (userVa_page small) apart] at found'
      exact (counted.mapped copy ⟨other, space₂, live₂, small, entry₂, found', address'⟩).1 free
    · intro same
      rw [same]
      refine ⟨{ space with regions := regions }, by rw [put_spaces, if_pos rfl], user.small, entry', ?_, address⟩
      rw [put_machine, findPte_align]
      exact here faultAddr user rfl

end

end DoccrOS.Mem
