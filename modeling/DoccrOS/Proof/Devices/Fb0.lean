import DoccrOS.Construction.Devices.Fb0
import DoccrOS.Proof.Mem.Boot
import DoccrOS.Proof.Mem.MapRanges
import DoccrOS.Proof.Mem.PhysMemRuns
import DoccrOS.Proof.Screen.Accesses

namespace DoccrOS.Devices
open Lib Mem Screen

/-- The frames that a call took from the allocator. -/
def takenFrames (before after : PhysMem) : Set Nat := {frame | before.Free frame ∧ after.used frame = true}

section
variable {m m' : Machine} {bs bs' : Screens} {roots : Set Nat} {g : Graphics}

/-- The backbuffer is a run of frames below the end of memory. -/
structure Backbuffer (m m' : Machine) (scr : BsScreen) (count start : Nat) : Prop where
  phys : scr.pixelsPhys = start * pageSize
  positive : 0 < count
  nonzero : start ≠ 0
  inside : start + count ≤ 2 ^ 40
  taken : ∀ frame, frame ∈ takenFrames m.phys m'.phys ↔ start ≤ frame ∧ frame < start + count

theorem zeroPages_phys (phys pageCount : Nat) : (zeroPages m phys pageCount).phys = m.phys := by
  let holds (_ : Nat) (state : Machine) : Prop := state.phys = m.phys
  have start : holds 0 m := rfl
  refine foldl_range start ?_
  intro i state _ held
  exact held

theorem bootscreenBs3InitBackbuffer_spec (bare : (bs .bs3).pixelsPhys = 0)
    (setup : bootscreenBs3InitBackbuffer bs m = (bs', m')) (ready : (bs' .bs3).pixelsPhys ≠ 0) :
    ∃ start, Backbuffer m m' (bs' .bs3) (backbufferPages (bs .bs3)) start := by
  unfold bootscreenBs3InitBackbuffer at setup
  by_cases positive : 0 < backbufferPages (bs .bs3)
  · rcases physmemAllocTo_spec m.phys positive with ⟨start, free, _, address, marked⟩ | ⟨_, failed⟩
    · by_cases zero : start * pageSize = 0
      · simp only [address, zero, if_true, Prod.mk.injEq] at setup
        rw [← setup.1] at ready
        exact absurd bare ready
      · simp only [address, zero, if_false, Prod.mk.injEq] at setup
        obtain ⟨rfl, rfl⟩ := setup
        have last := (free (start + backbufferPages (bs .bs3) - 1) (by omega) (by omega)).1
        have fits := m.phys.totalFits
        refine ⟨start, by simp, positive, fun same => zero (by simp [same]), by omega, ?_⟩
        intro frame
        simp only [takenFrames, Set.mem_ofPred_eq, zeroPages_phys, marked.used]
        constructor
        · rintro ⟨wasFree, isUsed⟩
          by_contra outside
          rw [if_neg outside, wasFree.2] at isUsed
          cases isUsed
        · intro inside
          exact ⟨free frame inside.1 inside.2, if_pos inside⟩
    · simp only [failed, if_true, Prod.mk.injEq] at setup
      rw [← setup.1] at ready
      exact absurd bare ready
  · have none : backbufferPages (bs .bs3) = 0 := by omega
    simp only [none, physmemAllocTo, if_true, Prod.mk.injEq] at setup
    rw [← setup.1] at ready
    exact absurd bare ready

/-- A size in bytes, rounded up to pages. -/
def ceilPages (size : Nat) : Nat := (size + 4095) / 4096

/-- In whole pages, the 32-bit product of pitch and height is at most the size of the screen that `bs_size_clamp` leaves. -/
def MapFits (g : Graphics) : Prop :=
  ceilPages (g.fbPitch * g.fbHeight % 2 ^ 32) ≤ ceilPages (4 * g.fbWidth * (bsSizeClamp g.fbWidth g.fbHeight).2)

instance (g : Graphics) : Decidable (MapFits g) := inferInstanceAs (Decidable (_ ≤ _))

theorem pagesOfSize_eq {size : Nat} (small : size < 2 ^ 63) : pagesOfSize size = ceilPages size := by
  unfold pagesOfSize ceilPages wrap64
  simp only [pageSize]
  rw [Nat.mod_eq_of_lt (by omega)]
  rfl

/-- The two page counts of the condition are those that the code computes. -/
theorem mapFits_iff (fb : LimineFramebuffer) (bs : Screens) :
    MapFits (graphicsInit fb) ↔
      fbMapPages (graphicsInit fb) ≤ backbufferPages (bootscreenLayoutInit (graphicsInit fb) bs .bs3) := by
  have small := graphicsInit_small fb
  generalize graphicsInit fb = g at small
  obtain ⟨width, height, _⟩ := bootscreenLayoutInit_bs3 g bs
  have clamped := bsSizeClamp_le small.1 small.2
  have area : wrap64 (wrap64 (g.fbWidth * (bsSizeClamp g.fbWidth g.fbHeight).2) * 4) =
      4 * g.fbWidth * (bsSizeClamp g.fbWidth g.fbHeight).2 := by
    simp only [bsMaxPixels] at clamped
    unfold wrap64
    rw [Nat.mod_eq_of_lt (by omega), Nat.mod_eq_of_lt (by omega), Nat.mul_comm, Nat.mul_assoc]
  have product : wrap32 (g.fbPitch * g.fbHeight) < 2 ^ 32 := Nat.mod_lt _ (by decide)
  unfold MapFits fbMapPages backbufferPages
  rw [width, height, area, pagesOfSize_eq (by omega), pagesOfSize_eq]
  · rfl
  · rw [Nat.mul_assoc]
    simp only [bsMaxPixels] at clamped
    omega

theorem fbMap_range (g : Graphics) : UserRange fbMapVaddr (fbMapPages g) := by
  have product : wrap32 (g.fbPitch * g.fbHeight) < 2 ^ 32 := Nat.mod_lt _ (by decide)
  refine ⟨by decide, ?_⟩
  rw [fbMapPages, pagesOfSize_eq (by omega)]
  simp only [ceilPages, fbMapVaddr, pageSize]
  omega

/-- What the case `FB_IOCTL_MAP` does when it maps. -/
theorem fb0IoctlMap_mapped {s s' : FbState} {space : Space} {arg : Nat} {nodeOk : Bool} {stored : Option Nat}
    (live : s.space = some space) (unmapped : s.handle.mapped = false)
    (returned : fb0IoctlMap g bs s arg nodeOk = .ok (⟨0, stored⟩, s')) :
    vmmMapPhysPages space.pml4Phys fbMapVaddr (pageAlignDown (bs .bs3).pixelsPhys) (flagsToPte fbMapFlags)
      (fbMapPages g) s.machine = .ok s'.machine := by
  have failed : (⟨-1, none⟩ : FbReply) ≠ ⟨0, stored⟩ := by simp
  unfold fb0IoctlMap at returned
  rw [live] at returned
  simp only [unmapped, Bool.false_eq_true, if_false] at returned
  split at returned
  · injection returned with same
    exact absurd (Prod.mk.inj same).1 failed
  · split at returned
    · injection returned with same
      exact absurd (Prod.mk.inj same).1 failed
    · obtain ⟨⟨vaddr, m, space'⟩, call, rest⟩ := Result.bind_ok returned
      rcases vmmMapPhys_cases call with ⟨rfl, _⟩ | ⟨_, _, rfl, pages, _⟩
      · injection rest with same
        exact absurd (Prod.mk.inj same).1 failed
      · have address : pageAlignDown fbMapVaddr = fbMapVaddr := by decide
        rw [address] at pages
        simp only [address, show fbMapVaddr ≠ 0 by decide, if_false] at rest
        injection rest with same
        rw [← (Prod.mk.inj same).2]
        exact pages

/-- The frames that a process reaches through the mapping are frames that the backbuffer took. -/
def MapsInside (m : Machine) (space : Space) (g : Graphics) (frames : Set Nat) : Prop :=
  ∀ va entry, InRange fbMapVaddr (fbMapPages g) va → m.findPte space.pml4Phys va = some entry →
    entryAddr entry / pageSize ∈ frames

/-- The mapping stays inside the backbuffer exactly when its 32-bit size needs no more pages than the clamped screen. -/
theorem fb_map_inside {fb : LimineFramebuffer} {bs₀ : Screens} {m₀ m₁ : Machine} {s s' : FbState} {space : Space}
    {arg : Nat} {nodeOk : Bool} {stored : Option Nat}
    (setup : bootscreenBs3InitBackbuffer (bootscreenLayoutInit (graphicsInit fb) bs₀) m₀ = (bs, m₁))
    (ready : (bs .bs3).pixelsPhys ≠ 0) (tables : TableInv s.machine roots) (live : s.space = some space)
    (isRoot : space.pml4Phys ∈ roots) (unmapped : s.handle.mapped = false)
    (returned : fb0IoctlMap (graphicsInit fb) bs s arg nodeOk = .ok (⟨0, stored⟩, s')) :
    MapsInside s'.machine space (graphicsInit fb) (takenFrames m₀.phys m₁.phys) ↔ MapFits (graphicsInit fb) := by
  obtain ⟨start, backbuffer⟩ := bootscreenBs3InitBackbuffer_spec (bootscreenLayoutInit_bs3 _ _).2.2 setup ready
  have pages := fb0IoctlMap_mapped live unmapped returned
  have range := fbMap_range (graphicsInit fb)
  have mapped := vmmMapPhysPages_spec tables isRoot range (flagsToPte_page _) pages
  have aligned : pageAlignDown (start * pageSize) = start * pageSize := by simp [pageAlignDown]
  rw [backbuffer.phys, aligned] at mapped
  rw [mapFits_iff fb bs₀]
  generalize graphicsInit fb = g at *
  generalize backbufferPages (bootscreenLayoutInit g bs₀ .bs3) = count at *
  have fits := range.fits
  have inside := backbuffer.inside
  simp only [pageSize, fbMapVaddr] at fits
  have reach (va : Nat) (here : InRange fbMapVaddr (fbMapPages g) va) :
      ∃ entry, s'.machine.findPte space.pml4Phys va = some entry ∧
        entryAddr entry / pageSize = (start + (va / pageSize - fbMapVaddr / pageSize)) % 2 ^ 40 := by
    have place := here
    simp only [InRange, pageSize, fbMapVaddr] at place
    have user : UserVa va := by
      unfold UserVa
      omega
    refine ⟨_, (mapped.leaf _ isRoot va user).trans (if_pos ⟨rfl, here⟩), ?_⟩
    have small : (start + (va / pageSize - fbMapVaddr / pageSize)) * pageSize < 2 ^ 64 := by
      simp only [pageSize, fbMapVaddr]
      omega
    rw [← Nat.add_mul, wrap64, Nat.mod_eq_of_lt small, entryFrame_leaf (flagsToPte_page _).noAddr small,
      Nat.mul_div_cancel _ (by decide)]
  constructor
  · intro holds
    by_contra more
    have number : (fbMapVaddr + count * pageSize) / pageSize = fbMapVaddr / pageSize + count :=
      Nat.add_mul_div_right _ _ (by decide)
    have first : InRange fbMapVaddr (fbMapPages g) (fbMapVaddr + count * pageSize) := by
      unfold InRange
      omega
    obtain ⟨entry, found, frame⟩ := reach _ first
    have outside := (backbuffer.taken _).mp (holds _ entry first found)
    have nonzero := backbuffer.nonzero
    rw [frame, number, Nat.add_sub_cancel_left] at outside
    omega
  · intro few va entry here found
    obtain ⟨entry', found', frame⟩ := reach va here
    rw [found] at found'
    rw [Option.some.inj found', frame, backbuffer.taken]
    unfold InRange at here
    omega

end

def blankScreens : Screens := fun _ => ⟨0, 0, 0, 0, 0, 0, .null, 0, 0⟩

/-- The backbuffer of a geometry on the small machine. -/
def smallBackbuffer (fb : LimineFramebuffer) : Screens × Machine :=
  bootscreenBs3InitBackbuffer (bootscreenLayoutInit (graphicsInit fb) blankScreens) smallMachine

/-- A process with an empty space and a new handle of the device. -/
def smallUser (fb : LimineFramebuffer) : FbState :=
  let created := vmmSpaceCreate (smallBackbuffer fb).2 true
  ⟨created.2, ⟨false, 0⟩, created.1⟩

theorem smallUser_mapped (fb : LimineFramebuffer) : (smallUser fb).handle.mapped = false := rfl

theorem smallBackbuffer_eq (fb : LimineFramebuffer) :
    bootscreenBs3InitBackbuffer (bootscreenLayoutInit (graphicsInit fb) blankScreens) smallMachine =
      ((smallBackbuffer fb).1, (smallBackbuffer fb).2) := rfl

/-- A computed check of the state after the process mapped the framebuffer. -/
def checkMap (fb : LimineFramebuffer) (check : Machine → Space → Bool) : Bool :=
  (smallUser fb).space.any fun space =>
    match fb0IoctlMap (graphicsInit fb) (smallBackbuffer fb).1 (smallUser fb) 8 true with
    | .ok (reply, s) => reply.value == 0 && check s.machine space
    | .error _ => false

theorem checkMap_spec {fb : LimineFramebuffer} {check : Machine → Space → Bool} (checked : checkMap fb check = true)
    (zeroUsed : (smallBackbuffer fb).2.phys.used 0 = true) : ∃ space stored s, (smallUser fb).space = some space ∧
      TableInv (smallUser fb).machine {space.pml4Phys} ∧ check s.machine space = true ∧
      fb0IoctlMap (graphicsInit fb) (smallBackbuffer fb).1 (smallUser fb) 8 true = .ok (⟨0, stored⟩, s) := by
  simp only [checkMap, Option.any_eq_true] at checked
  obtain ⟨space, live, shown⟩ := checked
  have boot : Boot ⟨(smallBackbuffer fb).2, fun _ => none⟩ := ⟨fun _ => rfl, zeroUsed⟩
  have created : vmmSpaceCreate (smallBackbuffer fb).2 true = (some space, (smallUser fb).machine) :=
    Prod.ext live rfl
  have tables : TableInv (smallUser fb).machine {space.pml4Phys} := by
    rcases vmmSpaceCreate_spec boot.tables created with ⟨none, _⟩ | ⟨root, isNew, added⟩
    · cases none
    · rw [Option.some.inj isNew, ← LawfulSingleton.insert_empty_eq root]
      exact added.inv
  cases returned : fb0IoctlMap (graphicsInit fb) (smallBackbuffer fb).1 (smallUser fb) 8 true with
  | error halt => simp [returned] at shown
  | ok result =>
      obtain ⟨⟨value, stored⟩, s⟩ := result
      simp only [returned, Bool.and_eq_true, beq_iff_eq] at shown
      obtain ⟨rfl, holds⟩ := shown
      exact ⟨space, stored, s, live, tables, holds, rfl⟩

/-- A screen of one page whose rows are padded to twice their size. -/
def paddedRows : LimineFramebuffer := ⟨16, 64, 128, 32⟩

/-- The second page of the mapping is the top-level table of the process. -/
theorem fb_map_inside_fails : ¬∀ (fb : LimineFramebuffer) (bs₀ bs : Screens) (m₀ m₁ : Machine) (s s' : FbState)
    (space : Space) (roots : Set Nat) (arg : Nat) (nodeOk : Bool) (stored : Option Nat),
    4 * fb.width.toNat ≤ fb.pitch.toNat →
    bootscreenBs3InitBackbuffer (bootscreenLayoutInit (graphicsInit fb) bs₀) m₀ = (bs, m₁) →
    (bs .bs3).pixelsPhys ≠ 0 → TableInv s.machine roots → s.space = some space → space.pml4Phys ∈ roots →
    s.handle.mapped = false → fb0IoctlMap (graphicsInit fb) bs s arg nodeOk = .ok (⟨0, stored⟩, s') →
    MapsInside s'.machine space (graphicsInit fb) (takenFrames m₀.phys m₁.phys) := by
  intro claim
  have checked : checkMap paddedRows (fun m space =>
      (m.findPte space.pml4Phys (fbMapVaddr + pageSize)).any fun entry => entryAddr entry / pageSize == 3) = true := by
    decide +kernel
  obtain ⟨space, stored, s, live, tables, shown, returned⟩ := checkMap_spec checked (by decide +kernel)
  simp only [Option.any_eq_true] at shown
  obtain ⟨entry, found, frame⟩ := shown
  have wide : 4 * paddedRows.width.toNat ≤ paddedRows.pitch.toNat := by decide
  have ready : ((smallBackbuffer paddedRows).1 .bs3).pixelsPhys ≠ 0 := by decide +kernel
  have second : InRange fbMapVaddr (fbMapPages (graphicsInit paddedRows)) (fbMapVaddr + pageSize) := by decide +kernel
  have inside := claim paddedRows _ _ smallMachine _ _ s space _ 8 true stored wide (smallBackbuffer_eq _) ready tables live
    rfl (smallUser_mapped _) returned _ entry second found
  rw [beq_iff_eq.mp frame] at inside
  have unused : (smallBackbuffer paddedRows).2.phys.used 3 = false := by decide +kernel
  exact absurd inside.2 (by rw [unused]; decide)

/-- A screen of one page whose rows are not padded. -/
def plainRows : LimineFramebuffer := ⟨16, 64, 64, 32⟩

theorem fb_map_inside_plain : ∃ (s : FbState) (space : Space), (smallUser plainRows).space = some space ∧
    MapsInside s.machine space (graphicsInit plainRows)
      (takenFrames smallMachine.phys (smallBackbuffer plainRows).2.phys) := by
  have checked : checkMap plainRows (fun _ _ => true) = true := by decide +kernel
  obtain ⟨space, stored, s, live, tables, _, returned⟩ := checkMap_spec checked (by decide +kernel)
  have ready : ((smallBackbuffer plainRows).1 .bs3).pixelsPhys ≠ 0 := by decide +kernel
  have fits : MapFits (graphicsInit plainRows) := by decide +kernel
  exact ⟨s, space, live, (fb_map_inside (smallBackbuffer_eq _) ready tables live rfl (smallUser_mapped _) returned).mpr fits⟩

end DoccrOS.Devices
