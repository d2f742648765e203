import DoccrOS.Proof.Packages.ElfUser

namespace DoccrOS.Packages
open Lib Mem

/-- The address is a byte of the segment. -/
def Phdr.HasByte (ph : Phdr) (va : Nat) : Prop := ph.pVaddr ≤ va ∧ va < ph.pVaddr + ph.pMemsz

/-- The address lies in a page of the segment. -/
def Phdr.HasPage (ph : Phdr) (va : Nat) : Prop := InRange ph.vaBase ph.pgCount va

instance (ph : Phdr) (va : Nat) : Decidable (ph.HasByte va) := inferInstanceAs (Decidable (_ ∧ _))
instance (ph : Phdr) (va : Nat) : Decidable (ph.HasPage va) := inferInstanceAs (Decidable (InRange _ _ _))

/-- The byte that the segment has at an address. -/
def Phdr.byteAt (image : Image) (ph : Phdr) (va : Nat) : BitVec 8 := fileByte image ph.pOffset ph.pFilesz (va - ph.pVaddr)

/-- The header `j` is the last one below `i` with the page of the address. -/
structure LastCover (image : Image) (i j va : Nat) : Prop where
  below : j < i
  isLoad : (image.phdr j).pType = ptLoad
  page : (image.phdr j).HasPage va
  last : ∀ k, j < k → k < i → (image.phdr k).pType = ptLoad → ¬(image.phdr k).HasPage va

/-- The address reads what a free frame of an earlier machine holds. -/
def Stale (before m : Machine) (space : Space) (va : Nat) : Prop :=
  ∃ frame, before.phys.Free frame ∧ userRead m space va = some (before.loadByte (frame * pageSize) (va % pageSize))

/-- The last segment with the page of an address decides its contents: a byte of the segment, or an old byte of the frame. -/
structure ImageInv (image : Image) (before : Machine) (i : Nat) (m : Machine) (space : Space) : Prop where
  unused : ∀ frame, m.phys.Free frame →
    before.phys.Free frame ∧ m.ram (frame * pageSize) = before.ram (frame * pageSize)
  bytes : ∀ va j, UserVa va → LastCover image i j va → (image.phdr j).HasByte va →
    userRead m space va = some ((image.phdr j).byteAt image va)
  stale : ∀ va j, UserVa va → LastCover image i j va → ¬(image.phdr j).HasByte va → Stale before m space va

section
variable {shield roots : Set Nat} {before m m' : Machine} {space : Space} {places : Finset Place} {base count root i j va : Nat}
  {flags : BitVec 32} {frames : Nat → Nat} {image : Image} {ph : Phdr}

/-- The bytes of a segment lie in its pages. -/
theorem Phdr.HasByte.page (inside : ph.HasByte va) (user : ph.InUser) : ph.HasPage va := by
  obtain ⟨aligned, _, same, most, _, _⟩ := user.pages
  unfold Phdr.HasByte at inside
  unfold Phdr.HasPage InRange
  simp only [pageSize] at *
  omega

/-- An address outside an allocated range reads as before. -/
theorem LoadInv.alloc_reads (inv : LoadInv shield roots m space places)
    (filled : AllocatedRange m m' roots space.pml4Phys base count (flagsToPte flags) frames) (user : UserVa va)
    (outside : ¬InRange base count va) : userRead m' space va = userRead m space va := by
  unfold userRead
  rw [filled.leaf _ inv.isRoot va user, if_neg fun both => outside both.2]
  cases found : m.findPte space.pml4Phys va with
  | none => rfl
  | some entry =>
      obtain ⟨allocated, notTable⟩ := inv.memory.data.data _ _ (inv.map user found)
      have ram := (filled.cells allocated notTable).2.2.1
      simp only [Option.map_some, loadByte_eq, ram]

/-- A new page reads what its frame held before. -/
theorem LoadInv.alloc_stale (inv : LoadInv shield roots m space places)
    (filled : AllocatedRange m m' roots space.pml4Phys base count (flagsToPte flags) frames) (user : UserVa va)
    (inside : InRange base count va) : ∃ frame, m.phys.Free frame ∧
      userRead m' space va = some (m.loadByte (frame * pageSize) (va % pageSize)) := by
  have index : va / pageSize - base / pageSize < count := by
    unfold InRange at inside
    omega
  refine ⟨_, (filled.free _ index).2, ?_⟩
  unfold userRead
  rw [filled.leaf _ inv.isRoot va user, if_pos ⟨rfl, inside⟩, Option.map_some,
    (filled.frame (flagsToPte_page flags) index).2, loadByte_eq, loadByte_eq, filled.ram _ (filled.taken _ index).2.2]

/-- The frames that are free behind an allocation were free before, and nobody wrote to them. -/
theorem allocated_unused {pteFlags : Word} (filled : AllocatedRange m m' roots root base count pteFlags frames)
    {frame : Nat} (free : m'.phys.Free frame) : m.phys.Free frame ∧ m'.ram (frame * pageSize) = m.ram (frame * pageSize) := by
  refine ⟨(filled.stillFree free).1, filled.ram _ ?_⟩
  intro owned
  have used := (filled.tables.allocated _ owned).used
  rw [page_div, free.2] at used
  exact Bool.false_ne_true used

/-- A header that is passed over changes no last cover. -/
theorem LastCover.earlier (cover : LastCover image (i + 1) j va) (different : j ≠ i) : LastCover image i j va where
  below := by
    have below := cover.below
    omega
  isLoad := cover.isLoad
  page := cover.page
  last k later early := cover.last k later (Nat.lt_succ_of_lt early)

/-- Every header that `elf_load` passes keeps the description of the contents. -/
theorem ImageInv.kept (before : Machine) (shield roots : Set Nat) :
    KeptByLoads shield roots image (ImageInv image before) := by
  intro i m space places m' space' _ accepted inv holds outcome
  cases outcome with
  | skipped other =>
      have earlier {va j : Nat} (cover : LastCover image (i + 1) j va) : LastCover image i j va := by
        refine cover.earlier ?_
        rintro rfl
        exact other cover.isLoad
      refine ⟨holds.unused, ?_, ?_⟩
      · intro va j user cover inside
        exact holds.bytes va j user (earlier cover) inside
      · intro va j user cover outside
        exact holds.stale va j user (earlier cover) outside
  | loaded frames m₁ _ isLoad _ range filled _ stores reads _ =>
      have inUser := (accepted i (Nat.le_refl i) isLoad).2
      obtain ⟨inv₁, _⟩ := inv.alloc range filled
      have apart {va : Nat} (user : UserVa va) (outside : ¬(image.phdr i).HasPage va) :
          userRead m' space va = userRead m space va := by
        have notByte : ¬(image.phdr i).HasByte va := fun inside => outside (inside.page inUser)
        exact (reads va user).trans ((if_neg notByte).trans (inv.alloc_reads filled user outside))
      refine ⟨?_, ?_, ?_⟩
      · intro frame free
        rw [stores.phys] at free
        obtain ⟨free', same⟩ := allocated_unused filled free
        obtain ⟨free₀, same₀⟩ := holds.unused frame free'
        refine ⟨free₀, (stores.ram _ ?_).trans (same.trans same₀)⟩
        rintro ⟨place, tracked⟩
        have used := (inv₁.memory.data.data place _ tracked).1.used
        rw [page_div, free.2] at used
        exact Bool.false_ne_true used
      · intro va j user cover inside
        by_cases here : j = i
        · subst here
          exact (reads va user).trans (if_pos inside)
        · have later := cover.last i (by have := cover.below; omega) (Nat.lt_succ_self i) isLoad
          change userRead m' space va = _
          rw [apart user later]
          exact holds.bytes va j user (cover.earlier here) inside
      · intro va j user cover outside
        by_cases here : j = i
        · subst here
          obtain ⟨frame, free, read⟩ := inv.alloc_stale filled user cover.page
          obtain ⟨free₀, same⟩ := holds.unused frame free
          refine ⟨frame, free₀, (reads va user).trans ((if_neg outside).trans ?_)⟩
          rw [read, loadByte_eq, loadByte_eq, same]
        · have later := cover.last i (by have := cover.below; omega) (Nat.lt_succ_self i) isLoad
          obtain ⟨frame, free, read⟩ := holds.stale va j user (cover.earlier here) outside
          exact ⟨frame, free, (apart user later).trans read⟩

/-- The description holds of a new space. -/
theorem ImageInv.start (added : RootAdded m m' roots root) : ImageInv image m 0 m' ⟨root, [], 0, 0⟩ := by
  refine ⟨?_, ?_, ?_⟩
  · intro frame free
    have different : frame ≠ root / pageSize := by
      rintro rfl
      have used : m'.phys.used (root / pageSize) = true := by
        rw [added.phys, markUsed_used]
        simp
      rw [free.2] at used
      exact Bool.false_ne_true used
    refine ⟨?_, added.ram _ ?_⟩
    · rw [added.phys] at free
      refine ⟨free.1, ?_⟩
      have unused := free.2
      rw [markUsed_used, if_neg different] at unused
      exact unused
    · rintro rfl
      exact different (page_div frame).symm
  · intro va j _ cover
    exact absurd cover.below (Nat.not_lt_zero j)
  · intro va j _ cover
    exact absurd cover.below (Nat.not_lt_zero j)

/-- The segments end in the user half, and no two of them share a byte with each other or with the stack. -/
structure BytesApart (image : Image) : Prop where
  user : ∀ i, i < image.ePhnum → (image.phdr i).pType = ptLoad → (image.phdr i).InUser
  apart : ∀ i j, i < image.ePhnum → j < image.ePhnum → i ≠ j → (image.phdr i).pType = ptLoad →
    (image.phdr j).pType = ptLoad → ∀ va, (image.phdr i).HasByte va → ¬(image.phdr j).HasByte va
  stack : ∀ i, i < image.ePhnum → (image.phdr i).pType = ptLoad → ∀ va, (image.phdr i).HasByte va →
    ¬(userStackBase ≤ va ∧ va < userStackTop)

/-- No page of a later segment has a byte of an earlier one. -/
def PagesApart (image : Image) : Prop :=
  ∀ i j, i < j → j < image.ePhnum → (image.phdr i).pType = ptLoad → (image.phdr j).pType = ptLoad →
    ∀ va, (image.phdr i).HasByte va → ¬(image.phdr j).HasPage va

/-- The memory of the space equals the segments of the file. -/
def ImageLoaded (image : Image) (m : Machine) (space : Space) : Prop :=
  ∀ i, i < image.ePhnum → (image.phdr i).pType = ptLoad → ∀ k, k < (image.phdr i).pMemsz →
    userRead m space ((image.phdr i).pVaddr + k) =
      some (if k < (image.phdr i).pFilesz then image.data (wrap64 ((image.phdr i).pOffset + k)) else 0)

/-- The free frames hold at the offset of no byte of a segment this byte. -/
def StaleDiffers (image : Image) (m : Machine) : Prop :=
  ∀ i, i < image.ePhnum → (image.phdr i).pType = ptLoad → ∀ va, (image.phdr i).HasByte va → ∀ frame, m.phys.Free frame →
    m.loadByte (frame * pageSize) (va % pageSize) ≠ (image.phdr i).byteAt image va

theorem imageLoaded_iff : ImageLoaded image m space ↔ ∀ i, i < image.ePhnum → (image.phdr i).pType = ptLoad →
    ∀ va, (image.phdr i).HasByte va → userRead m space va = some ((image.phdr i).byteAt image va) := by
  constructor
  · rintro loaded i inside isLoad va ⟨least, most⟩
    have here := loaded i inside isLoad (va - (image.phdr i).pVaddr) (by omega)
    rw [Nat.add_sub_cancel' least] at here
    exact here
  · intro loaded i inside isLoad k small
    have here := loaded i inside isLoad ((image.phdr i).pVaddr + k) ⟨Nat.le_add_right _ _, by omega⟩
    rw [Phdr.byteAt, Nat.add_sub_cancel_left] at here
    exact here

/-- A header with the page of an address has a last one at or above it. -/
theorem lastCover_exists {i n : Nat} (below : i < n) (isLoad : (image.phdr i).pType = ptLoad)
    (page : (image.phdr i).HasPage va) : ∃ j, i ≤ j ∧ LastCover image n j va := by
  induction n with
  | zero => exact absurd below (Nat.not_lt_zero i)
  | succ n ih =>
      by_cases here : (image.phdr n).pType = ptLoad ∧ (image.phdr n).HasPage va
      · exact ⟨n, Nat.le_of_lt_succ below, Nat.lt_succ_self n, here.1, here.2, fun k later early => by omega⟩
      · have different : i ≠ n := by
          rintro rfl
          exact here ⟨isLoad, page⟩
        obtain ⟨j, least, cover⟩ := ih (by omega)
        refine ⟨j, least, Nat.lt_succ_of_lt cover.below, cover.isLoad, cover.page, ?_⟩
        intro k later early isLoad' page'
        by_cases last : k = n
        · exact here ⟨last ▸ isLoad', last ▸ page'⟩
        · exact cover.last k later (by omega) isLoad' page'

/-- The headers and the stack of a loaded space: the last segment with its page decides every byte. -/
theorem elfLoad_contents {outcomes : LoadOutcomes} (memory : MemInv (kernelPages m roots) m roots places)
    (apart : BytesApart image) (returned : elfLoad image m outcomes = .ok (some space, m')) {i : Nat}
    (inside : i < image.ePhnum) (isLoad : (image.phdr i).pType = ptLoad) (byte : (image.phdr i).HasByte va)
    (cover : LastCover image image.ePhnum j va) :
    (j = i → userRead m' space va = some ((image.phdr i).byteAt image va)) ∧ (j ≠ i → Stale m m' space va) := by
  have users : UserSegments image := fun i inside _ isLoad _ => apart.user i inside isLoad
  have user : UserVa va := by
    have ends := apart.user i inside isLoad
    have below := byte.2
    unfold Phdr.InUser at ends
    unfold UserVa
    omega
  have notStack : ¬InRange userStackBase userStackPages va := by
    intro covered
    refine apart.stack i inside isLoad va byte ?_
    unfold InRange userStackBase userStackTop userStackPages at *
    simp only [pageSize] at covered
    omega
  have outcome := elfLoad_spec users memory (fun root => ImageInv.kept m _ (insert root roots))
    (fun root m₁ added => ImageInv.start added) returned
  cases outcome with
  | loaded root m₁ m₂ _ space₂ places₂ frames added sameRoot inv holds filled _ =>
      subst sameRoot
      have reads := inv.alloc_reads filled user notStack
      constructor
      · rintro rfl
        exact reads.trans (holds.bytes va j user cover byte)
      · intro different
        have notByte := apart.apart i j inside cover.below (Ne.symm different) isLoad cover.isLoad va byte
        obtain ⟨frame, free, read⟩ := holds.stale va j user cover notByte
        exact ⟨frame, free, reads.trans read⟩

/-- The loaded memory equals the file if no page of a later segment has a byte of an earlier one. Where such a page exists, it
has old bytes of a free frame, so the memory equals the file only if they happen to be those of the file. -/
theorem elf_image_loaded {outcomes : LoadOutcomes} (memory : MemInv (kernelPages m roots) m roots places)
    (apart : BytesApart image) (returned : elfLoad image m outcomes = .ok (some space, m')) :
    (PagesApart image → ImageLoaded image m' space) ∧
      (StaleDiffers image m → ImageLoaded image m' space → PagesApart image) := by
  constructor
  · intro pages
    refine imageLoaded_iff.mpr ?_
    intro i inside isLoad va byte
    have cover : LastCover image image.ePhnum i va :=
      ⟨inside, isLoad, byte.page (apart.user i inside isLoad), fun k later early isLoad' =>
        pages i k later early isLoad isLoad' va byte⟩
    exact (elfLoad_contents memory apart returned inside isLoad byte cover).1 rfl
  · intro differs loaded i j before inside isLoad isLoad' va byte page
    have inside' : i < image.ePhnum := Nat.lt_trans before inside
    obtain ⟨last, least, cover⟩ := lastCover_exists inside isLoad' page
    obtain ⟨frame, free, read⟩ := (elfLoad_contents memory apart returned inside' isLoad byte cover).2 (by omega)
    have here := imageLoaded_iff.mp loaded i inside' isLoad va byte
    rw [read] at here
    exact differs i inside' isLoad va byte frame free (Option.some.inj here)

end

/-- Two segments of one page. -/
def sharedPage : Image := executable [⟨ptLoad, 5, 176, 0x400000, 3, 3⟩, ⟨ptLoad, 6, 0, 0x400800, 0, 1⟩] [1, 2, 3]

theorem sharedPage_headers : sharedPage.ePhnum = 2 ∧ sharedPage.phdr 0 = ⟨ptLoad, 5, 176, 0x400000, 3, 3⟩ ∧
    sharedPage.phdr 1 = ⟨ptLoad, 6, 0, 0x400800, 0, 1⟩ := by
  refine ⟨?_, ?_, ?_⟩ <;> decide +kernel

theorem sharedPage_apart : BytesApart sharedPage := by
  obtain ⟨count, first, second⟩ := sharedPage_headers
  have cases {i : Nat} (inside : i < sharedPage.ePhnum) : sharedPage.phdr i = ⟨ptLoad, 5, 176, 0x400000, 3, 3⟩ ∧ i = 0 ∨
      sharedPage.phdr i = ⟨ptLoad, 6, 0, 0x400800, 0, 1⟩ ∧ i = 1 := by
    have range : i = 0 ∨ i = 1 := by omega
    rcases range with rfl | rfl
    · exact Or.inl ⟨first, rfl⟩
    · exact Or.inr ⟨second, rfl⟩
  refine ⟨?_, ?_, ?_⟩
  · intro i inside _
    unfold Phdr.InUser
    rcases cases inside with ⟨header, _⟩ | ⟨header, _⟩ <;> simp [header]
  · intro i j inside inside' different _ _ va
    unfold Phdr.HasByte
    rcases cases inside with ⟨header, here⟩ | ⟨header, here⟩ <;>
      rcases cases inside' with ⟨header', here'⟩ | ⟨header', here'⟩ <;> simp only [header, header'] <;> omega
  · intro i inside _ va
    unfold Phdr.HasByte userStackBase userStackTop userStackPages
    rcases cases inside with ⟨header, _⟩ | ⟨header, _⟩ <;> simp only [header] <;> omega

/-- The second segment of a page takes the bytes of the first one away. -/
theorem elf_image_differs : ¬∀ (roots : Set Nat) (m m' : Machine) (places : Finset Place) (image : Image)
    (outcomes : LoadOutcomes) (space : Space), MemInv (kernelPages m roots) m roots places → BytesApart image →
    elfLoad image m outcomes = .ok (some space, m') → ImageLoaded image m' space := by
  intro claim
  have run : ((elfLoad sharedPage smallMachine allGranted).map fun result =>
      result.1.bind fun space => userRead result.2 space 0x400000).toOption = some (some 0) := by
    decide +kernel
  obtain ⟨⟨result, m'⟩, loaded, given⟩ := exists_of_toOption run
  obtain ⟨space, rfl, read⟩ := Option.bind_eq_some_iff.mp given
  obtain ⟨count, first, _⟩ := sharedPage_headers
  have here := claim ∅ smallMachine m' ∅ sharedPage allGranted space smallMachine_memInv sharedPage_apart loaded 0
    (by rw [count]; exact Nat.two_pos) (by rw [first]) 0 (by rw [first]; exact Nat.succ_pos 2)
  rw [first] at here
  change userRead m' space 0x400000 = some (sharedPage.data 176) at here
  have byte : sharedPage.data 176 = 1 := by decide +kernel
  rw [byte, read] at here
  exact absurd here (by decide)

theorem userSegment_apart : BytesApart userSegment := by
  obtain ⟨count, header⟩ := userSegment_headers
  have only {i : Nat} (inside : i < userSegment.ePhnum) : i = 0 := by omega
  refine ⟨?_, ?_, ?_⟩
  · intro i inside _
    rw [only inside, header]
    simp [Phdr.InUser]
  · intro i j inside inside' different
    exact absurd ((only inside).trans (only inside').symm) different
  · intro i inside _ va byte
    rw [only inside, header] at byte
    unfold Phdr.HasByte at byte
    unfold userStackBase userStackTop userStackPages
    simp only at byte
    omega

theorem elf_image_loaded_first : ∃ space m', elfLoad userSegment smallMachine allGranted = .ok (some space, m') ∧
    ImageLoaded userSegment m' space := by
  have run : ((elfLoad userSegment smallMachine allGranted).map fun result => result.1.isSome).toOption = some true := by
    decide +kernel
  obtain ⟨⟨result, m'⟩, loaded, given⟩ := exists_of_toOption run
  obtain ⟨space, rfl⟩ := Option.isSome_iff_exists.mp given
  refine ⟨space, m', loaded, (elf_image_loaded smallMachine_memInv userSegment_apart loaded).1 ?_⟩
  intro i j before inside
  have count := userSegment_headers.1
  omega

end DoccrOS.Packages
