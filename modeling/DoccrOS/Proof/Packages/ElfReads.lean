import DoccrOS.Construction.Packages.ElfReads
import DoccrOS.Proof.Packages.ElfUser

namespace DoccrOS.Packages
open Lib Mem

section
variable {image : Image} {m m' : Machine} {space space' : Space} {ph : Phdr} {outcomes : LoadOutcomes} {nodes : Nat → Bool}
  {offset count : Nat}

@[simp] theorem readByte_value (image : Image) (offset : Nat) : (image.readByte offset).result = .ok (image.data offset) := rfl

@[simp] theorem readField_value (image : Image) (offset count : Nat) :
    (image.readField offset count).result = .ok (image.load offset count) := (rfl)

theorem readEntry_value (image : Image) : (image.readField 24 8).result = .ok image.eEntry := (rfl)

@[simp] theorem readBytes_value (image : Image) (offset count : Nat) :
    (image.readBytes offset count).result = .ok fun k => image.data (wrap64 (offset + k)) := (rfl)
theorem fillSegmentReads_value (fuel : Nat) (m : Machine) (fileSrc fileRem vaCursor memRem : Nat) :
    (fillSegmentReads image space fuel m fileSrc fileRem vaCursor memRem).result =
      fillSegment image space fuel m fileSrc fileRem vaCursor memRem := by
  induction fuel generalizing m fileSrc fileRem vaCursor memRem with
  | zero =>
      rw [fillSegmentReads, fillSegment]
      split <;> rfl
  | succ fuel ih =>
      rw [fillSegmentReads, fillSegment]
      simp only [Logged.result_ite, Logged.result_bind, Logged.result_pure, readBytes_value, Result.ok_bind, ih]

/-- The check with its reads gives the result of the check. -/
theorem elfCheckReads_value (image : Image) : (elfCheckReads image).result = .ok (elfCheck image) := by
  unfold elfCheckReads elfCheck
  simp -implicitDefEqProofs only [Logged.result_ite, Logged.result_bind, Logged.result_pure, readByte_value,
    readField_value, Result.ok_bind, Bool.or_eq_true, decide_eq_true_eq, ite_or, apply_ite Except.ok]
  rfl

/-- The part behind the header has the result of a header for a loaded segment. -/
theorem mapSegmentReads_value (ph : Phdr) (load : ph.pType = ptLoad) (nodeOk : Bool) :
    (mapSegmentReads image m space ph nodeOk).result = loadSegment image m space ph nodeOk := by
  unfold mapSegmentReads loadSegment
  rw [if_neg (not_not.mpr load)]
  simp only [Logged.result_ite, Logged.result_bind, Logged.result_pure, Logged.result_lift, fillSegmentReads_value]
  rfl

/-- The fields of a program header as they are read. -/
theorem phdr_fields (i : Nat) {ph : Nat} (header : wrap64 (image.ePhoff + i * image.ePhentsize) = ph) :
    image.phdr i = ⟨image.load ph 4, BitVec.ofNat 32 (image.load (wrap64 (ph + 4)) 4), image.load (wrap64 (ph + 8)) 8,
      image.load (wrap64 (ph + 16)) 8, image.load (wrap64 (ph + 32)) 8, image.load (wrap64 (ph + 40)) 8⟩ := by
  subst header
  rfl

/-- A header is skipped, or its segment is mapped. -/
theorem loadSegmentReads_shape (i : Nat) (nodeOk : Bool) : (loadSegmentReads image m space i nodeOk).result =
    if (image.phdr i).pType ≠ ptLoad then .ok (true, m, space)
    else (mapSegmentReads image m space (image.phdr i) nodeOk).result := by
  unfold loadSegmentReads
  simp -implicitDefEqProofs only [Logged.result_ite, Logged.result_bind, Logged.result_pure, readField_value, Result.ok_bind]
  rw [← Image.ePhoff, ← Image.ePhentsize, phdr_fields i rfl]

theorem loadSegmentReads_value (i : Nat) (nodeOk : Bool) :
    (loadSegmentReads image m space i nodeOk).result = loadSegment image m space (image.phdr i) nodeOk := by
  rw [loadSegmentReads_shape]
  generalize image.phdr i = ph
  by_cases load : ph.pType = ptLoad
  · rw [if_neg (not_not.mpr load)]
    exact mapSegmentReads_value ph load nodeOk
  · rw [if_pos load, loadSegment, if_pos load]

theorem segmentLoop_value {nodes : Nat → Bool} {body : Nat → Machine → Space → Reads (Bool × Machine × Space)}
    (bodies : ∀ i m space, (body i m space).result = loadSegment image m space (image.phdr i) (nodes i)) (left i : Nat)
    (m : Machine) (space : Space) :
    (segmentLoop image body left i m space).result = loadSegments image nodes left i m space := by
  induction left generalizing i m space with
  | zero => rfl
  | succ left ih =>
      rw [segmentLoop, loadSegments]
      simp -implicitDefEqProofs only [Logged.result_ite, Logged.result_bind, readField_value, Result.ok_bind, bodies, ih, pure,
        Except.pure]

theorem loadSegmentsReads_value (nodes : Nat → Bool) (left i : Nat) (m : Machine) (space : Space) :
    (loadSegmentsReads image nodes left i m space).result = loadSegments image nodes left i m space :=
  segmentLoop_value (fun i _ _ => loadSegmentReads_value i (nodes i)) left i m space

/-- The load with its reads gives the result of the load. -/
theorem elfLoadReads_value (image : Image) (m : Machine) (outcomes : LoadOutcomes) :
    (elfLoadReads image m outcomes).result = elfLoad image m outcomes := by
  unfold elfLoadReads elfLoad
  simp -implicitDefEqProofs only [Logged.result_ite, Logged.result_bind, Logged.result_pure, readField_value, Result.ok_bind,
    elfCheckReads_value]
  rw [← Image.ePhnum]
  refine ite_congr rfl (fun _ => rfl) fun _ => ite_congr rfl (fun _ => rfl) fun _ => ite_congr rfl (fun _ => rfl) fun _ => ?_
  rcases vmmSpaceCreate m outcomes.space with ⟨_ | space, created⟩
  · rfl
  · simp -implicitDefEqProofs only [Logged.result_ite, Logged.result_bind, Logged.result_lift, Result.ok_bind,
      loadSegmentsReads_value, readEntry_value, ite_or, Bool.or_eq_true, decide_eq_true_eq, pure, Except.pure]
/-- Every read of the computation is inside the image. -/
def Inside {A : Type} (image : Image) (computation : Reads A) : Prop := computation.Only (· < image.size)

/-- Bytes that end inside the image. -/
def Image.Has (image : Image) (offset count : Nat) : Prop := offset + count ≤ image.size ∧ offset + count < 2 ^ 64

theorem indices_inside (has : image.Has offset count) : ∀ index ∈ indices offset count, index < image.size := by
  unfold Image.Has at has
  intro index listed
  obtain ⟨k, inside, rfl⟩ := List.mem_map.mp listed
  have below := List.mem_range.mp inside
  unfold wrap64
  omega

theorem readField_inside (has : image.Has offset count) : Inside image (image.readField offset count) := indices_inside has

/-- The fields of the file header are inside an image that is not too short. -/
theorem header_inside (long : sizeofEhdr ≤ image.size) (field : offset + count ≤ sizeofEhdr) :
    Inside image (image.readField offset count) := by
  refine readField_inside ⟨by omega, ?_⟩
  unfold sizeofEhdr at field
  omega

/-- `elf_check` reads only the file header. -/
theorem elfCheckReads_inside (image : Image) : Inside image (elfCheckReads image) := by
  unfold Inside elfCheckReads
  rw [Logged.only_ite]
  refine ⟨fun _ => Logged.only_pure, fun short => ?_⟩
  have long : sizeofEhdr ≤ image.size := Nat.le_of_not_lt short
  have byte (offset : Nat) (small : offset < sizeofEhdr) : (image.readByte offset).Only (· < image.size) :=
    fun index read => List.mem_singleton.mp read ▸ Nat.lt_of_lt_of_le small long
  have field (offset count : Nat) (small : offset + count ≤ sizeofEhdr) :
      (image.readField offset count).Only (· < image.size) := header_inside long small
  refine (byte 0 (by decide)).guard fun _ => (byte 1 (by decide)).guard fun _ => (byte 2 (by decide)).guard fun _ => ?_
  refine (byte 3 (by decide)).guard fun _ => (byte 4 (by decide)).guard fun _ => (byte 5 (by decide)).guard fun _ => ?_
  refine (field 16 2 (by decide)).guard fun _ => (field 18 2 (by decide)).guard fun _ => ?_
  refine (field 54 2 (by decide)).guard fun _ => (field 32 8 (by decide)).bind fun _ => ?_
  exact (field 56 2 (by decide)).bind fun _ => (field 54 2 (by decide)).bind fun _ => Logged.only_pure

/-- The bytes of the file that fill a segment are read where they lie. -/
theorem fillSegmentReads_inside {fuel src rem cursor left : Nat} (has : image.Has src rem) :
    Inside image (fillSegmentReads image space fuel m src rem cursor left) := by
  unfold Inside
  induction fuel generalizing m src rem cursor left with
  | zero =>
      rw [fillSegmentReads]
      split
      · exact Logged.only_lift
      · exact Logged.only_pure
  | succ fuel ih =>
      rw [fillSegmentReads, Logged.only_ite]
      refine ⟨fun _ => ?_, fun _ => Logged.only_pure⟩
      rw [Logged.only_ite]
      refine ⟨fun _ => Logged.only_pure, fun _ => ?_⟩
      rw [Logged.only_bind]
      unfold Image.Has at has
      refine ⟨indices_inside ?_, fun bytes _ => ih ?_⟩
      · unfold Image.Has
        omega
      · unfold Image.Has wrap64
        omega

/-- The file bytes of every header that `elf_load` accepts end below `2 ^ 64`, and so does the table of the headers. -/
structure NoWrap (image : Image) : Prop where
  headers : image.ePhoff + image.ePhnum * image.ePhentsize < 2 ^ 64
  segments : ∀ i, i < image.ePhnum → (∀ j, j < i → (image.phdr j).pType = ptLoad → (image.phdr j).Accepted image) →
    (image.phdr i).pType = ptLoad → (image.phdr i).Accepted image →
    (image.phdr i).pOffset + (image.phdr i).pFilesz < 2 ^ 64

theorem mapSegmentReads_inside {nodeOk : Bool} (whole : ph.Accepted image → ph.pOffset + ph.pFilesz < 2 ^ 64) :
    Inside image (mapSegmentReads image m space ph nodeOk) := by
  unfold Inside mapSegmentReads
  rw [Logged.only_ite]
  refine ⟨fun _ => Logged.only_pure, fun bounds => ?_⟩
  rw [Logged.only_ite]
  refine ⟨fun _ => Logged.only_pure, fun sizes => ?_⟩
  rw [Logged.only_bind]
  refine ⟨Logged.only_lift, fun ⟨mapped, m₁, space₁⟩ allocated => ?_⟩
  rw [Logged.only_ite]
  refine ⟨fun _ => Logged.only_pure, fun success => ?_⟩
  rw [Logged.only_bind]
  refine ⟨fillSegmentReads_inside ?_, fun _ _ => Logged.only_pure⟩
  have accepted : ph.Accepted image :=
    ⟨Nat.le_of_not_lt bounds, Nat.le_of_not_lt sizes, (vmmSpaceAlloc_records allocated success).1⟩
  have below := whole accepted
  have bound := accepted.bounds
  rw [wrap64, Nat.mod_eq_of_lt below] at bound
  exact ⟨bound, below⟩

/-- An image that passes the check has its file header, and its program headers when their end does not wrap. -/
theorem elfCheck_table (checked : elfCheck image = true) : sizeofEhdr ≤ image.size ∧ sizeofPhdr ≤ image.ePhentsize ∧
    wrap64 (image.ePhoff + image.ePhnum * image.ePhentsize) ≤ image.size := by
  unfold elfCheck at checked
  simp only [Bool.if_false_left, Bool.and_eq_true, Bool.not_eq_true', decide_eq_false_iff_not, not_lt] at checked
  exact ⟨checked.1, checked.2.2.2.2.2.2.1, checked.2.2.2.2.2.2.2⟩

/-- A field of a program header is inside the image when the table of the headers does not wrap. -/
theorem phdr_inside {i at_ : Nat} (checked : elfCheck image = true)
    (whole : image.ePhoff + image.ePhnum * image.ePhentsize < 2 ^ 64) (below : i < image.ePhnum)
    (field : at_ + count ≤ sizeofPhdr) :
    Inside image (image.readField (wrap64 (wrap64 (image.ePhoff + i * image.ePhentsize) + at_)) count) := by
  obtain ⟨_, wide, ends⟩ := elfCheck_table checked
  have next : (i + 1) * image.ePhentsize ≤ image.ePhnum * image.ePhentsize := Nat.mul_le_mul_right _ below
  rw [Nat.add_mul, Nat.one_mul] at next
  rw [wrap64, Nat.mod_eq_of_lt whole] at ends
  refine readField_inside ?_
  unfold Image.Has wrap64
  omega

theorem loadSegmentReads_inside {i : Nat} {nodeOk : Bool} (checked : elfCheck image = true)
    (whole : image.ePhoff + image.ePhnum * image.ePhentsize < 2 ^ 64) (below : i < image.ePhnum)
    (segment : (image.phdr i).pType = ptLoad → (image.phdr i).Accepted image →
      (image.phdr i).pOffset + (image.phdr i).pFilesz < 2 ^ 64) :
    Inside image (loadSegmentReads image m space i nodeOk) := by
  have long := (elfCheck_table checked).1
  have field {at_ count : Nat} (small : at_ + count ≤ sizeofPhdr) := phdr_inside checked whole below small
  have first : Inside image (image.readField (wrap64 (image.ePhoff + i * image.ePhentsize)) 4) := by
    have start : Inside image (image.readField (wrap64 (wrap64 (image.ePhoff + i * image.ePhentsize) + 0)) 4) :=
      field (by decide)
    rwa [Nat.add_zero, show ∀ n, wrap64 (wrap64 n) = wrap64 n from fun n => Nat.mod_mod n _] at start
  refine Logged.Only.bind_value (header_inside long (by decide)) (readField_value ..) ?_
  refine Logged.Only.bind_value (header_inside long (by decide)) (readField_value ..) ?_
  rw [← Image.ePhoff, ← Image.ePhentsize]
  refine Logged.Only.bind_value first (readField_value ..) ?_
  generalize header : wrap64 (image.ePhoff + i * image.ePhentsize) = ph at field
  rw [phdr_fields i header] at segment
  rw [Logged.only_ite]
  refine ⟨fun _ => Logged.only_pure, fun isLoad => ?_⟩
  refine Logged.Only.bind_value (field (by decide)) (readField_value ..) ?_
  refine Logged.Only.bind_value (field (by decide)) (readField_value ..) ?_
  refine Logged.Only.bind_value (field (by decide)) (readField_value ..) ?_
  refine Logged.Only.bind_value (field (by decide)) (readField_value ..) ?_
  refine Logged.Only.bind_value (field (by decide)) (readField_value ..) ?_
  exact mapSegmentReads_inside fun accepted => segment (not_not.mp isLoad) accepted

/-- The header loop reads only the image when each of its bodies does. -/
theorem segmentLoop_inside {body : Nat → Machine → Space → Reads (Bool × Machine × Space)} {left i : Nat}
    (long : sizeofEhdr ≤ image.size) (accepts : ∀ i m space m' space', (body i m space).result = .ok (true, m', space') →
      (image.phdr i).pType = ptLoad → (image.phdr i).Accepted image)
    (bodies : ∀ i m space, i < image.ePhnum → (∀ j, j < i → (image.phdr j).pType = ptLoad → (image.phdr j).Accepted image) →
      Inside image (body i m space))
    (all : i + left = image.ePhnum) (accepted : ∀ j, j < i → (image.phdr j).pType = ptLoad → (image.phdr j).Accepted image) :
    Inside image (segmentLoop image body left i m space) := by
  induction left generalizing i m space with
  | zero => exact (header_inside long (by decide)).bind fun _ => Logged.only_pure
  | succ left ih =>
      rw [segmentLoop]
      refine (header_inside long (by decide)).bind fun _ => Logged.only_bind.mpr ⟨bodies i m space (by omega) accepted, ?_⟩
      rintro ⟨loaded, m₁, space₁⟩ returned
      rw [Logged.only_ite]
      refine ⟨fun loads => ih (by omega) ?_, fun _ => Logged.only_pure⟩
      intro j early isLoad
      rcases Nat.lt_succ_iff_lt_or_eq.mp early with earlier | rfl
      · exact accepted j earlier isLoad
      · exact accepts j m space m₁ space₁ (loads ▸ returned) isLoad

theorem loadSegmentsReads_inside (checked : elfCheck image = true) (whole : NoWrap image) :
    Inside image (loadSegmentsReads image nodes image.ePhnum 0 m space) := by
  refine segmentLoop_inside (elfCheck_table checked).1 ?_ ?_ (Nat.zero_add _) (fun j early => absurd early (Nat.not_lt_zero j))
  · intro i m space m' space' returned isLoad
    rw [loadSegmentReads_value] at returned
    exact ((loadSegment_records returned).2 isLoad).1
  · intro i m space below accepted
    exact loadSegmentReads_inside checked whole.headers below (whole.segments i below accepted)

/-- `elf_load` reads only the image when no end of a range in it wraps. -/
theorem elfLoadReads_inside (whole : elfCheck image = true → NoWrap image) : Inside image (elfLoadReads image m outcomes) := by
  unfold Inside elfLoadReads
  rw [Logged.only_ite]
  refine ⟨fun _ => Logged.only_pure, fun _ => ?_⟩
  refine Logged.Only.bind_value (elfCheckReads_inside image) (elfCheckReads_value image) ?_
  rw [Logged.only_ite]
  refine ⟨fun _ => Logged.only_pure, fun passed => ?_⟩
  have checked : elfCheck image = true := by simpa using passed
  have long := (elfCheck_table checked).1
  refine (header_inside long (by decide)).bind fun _ => (header_inside long (by decide)).bind fun _ => ?_
  refine (header_inside long (by decide)).bind fun _ => ?_
  refine Logged.Only.bind_value (header_inside long (by decide)) (readField_value ..) ?_
  rw [← Image.ePhnum, Logged.only_ite]
  refine ⟨fun _ => Logged.only_pure, fun _ => ?_⟩
  rcases vmmSpaceCreate m outcomes.space with ⟨_ | space, created⟩
  · exact Logged.only_pure
  refine (loadSegmentsReads_inside checked (whole checked)).bind fun ⟨loaded, m₁, space₁⟩ => ?_
  rw [Logged.only_ite]
  refine ⟨fun _ => Logged.only_lift.bind fun _ => Logged.only_pure, fun _ => ?_⟩
  refine Logged.only_lift.bind fun ⟨stack, m₂, space₂⟩ => Logged.only_ite.mpr ⟨fun _ => ?_, fun _ => ?_⟩
  · exact Logged.only_lift.bind fun _ => Logged.only_pure
  refine (header_inside long (by decide)).bind fun _ => Logged.only_ite.mpr ⟨fun _ => ?_, fun _ => Logged.only_pure⟩
  exact Logged.only_lift.bind fun _ => Logged.only_pure

/-- A loop that fills its segment has read all bytes of the file. -/
theorem fillSegmentReads_all {fuel src rem cursor left : Nat} (sizes : rem ≤ left)
    (inside : Inside image (fillSegmentReads image space fuel m src rem cursor left))
    (returned : (fillSegmentReads image space fuel m src rem cursor left).result = .ok (true, m')) {k : Nat} (byte : k < rem) :
    wrap64 (src + k) < image.size := by
  induction fuel generalizing m src rem cursor left k with
  | zero =>
      rw [fillSegmentReads, if_pos (by omega)] at returned
      cases returned
  | succ fuel ih =>
      rw [fillSegmentReads, if_pos (by omega)] at inside returned
      by_cases unmapped : vmmSpaceGetPhys m space (pageAlignDown cursor) = 0
      · rw [if_pos unmapped] at returned
        cases returned
      rw [if_neg unmapped] at inside returned
      obtain ⟨first, rest⟩ := Logged.only_bind.mp inside
      rw [Logged.result_bind, readBytes_value] at returned
      by_cases early : k < min (min (pageSize - (cursor - pageAlignDown cursor)) left) rem
      · exact first _ (List.mem_map.mpr ⟨k, List.mem_range.mpr early, rfl⟩)
      · have later := ih (by omega) (rest _ (readBytes_value ..)) returned
          (show k - min (min (pageSize - (cursor - pageAlignDown cursor)) left) rem < _ by omega)
        unfold wrap64 at later ⊢
        rw [Nat.mod_add_mod] at later
        rwa [show src + min (min (pageSize - (cursor - pageAlignDown cursor)) left) rem +
          (k - min (min (pageSize - (cursor - pageAlignDown cursor)) left) rem) = src + k by omega] at later

theorem mapSegmentReads_all {nodeOk : Bool} (inside : Inside image (mapSegmentReads image m space ph nodeOk))
    (returned : (mapSegmentReads image m space ph nodeOk).result = .ok (true, m', space')) {k : Nat} (byte : k < ph.pFilesz) :
    wrap64 (ph.pOffset + k) < image.size := by
  unfold mapSegmentReads at inside returned
  split at returned
  · cases returned
  rename_i bounds
  rw [if_neg bounds] at inside
  split at returned
  · cases returned
  rename_i sizes
  rw [if_neg sizes] at inside
  rw [Logged.result_bind] at returned
  obtain ⟨⟨mapped, m₁, space₁⟩, allocated, rest⟩ := Result.bind_ok returned
  replace inside := (Logged.only_bind.mp inside).2 _ allocated
  by_cases failed : mapped = 0
  · simp only [failed, if_true] at rest
    cases rest
  · simp only [failed, if_false, Logged.result_bind] at rest inside
    obtain ⟨⟨filled, m₂⟩, fills, last⟩ := Result.bind_ok rest
    cases last
    exact fillSegmentReads_all (Nat.le_of_not_lt sizes) (Logged.only_bind.mp inside).1 fills byte

/-- A loaded header has been read, and so have the file bytes of its segment. -/
theorem loadSegmentReads_all {i : Nat} {nodeOk : Bool} (inside : Inside image (loadSegmentReads image m space i nodeOk))
    (returned : (loadSegmentReads image m space i nodeOk).result = .ok (true, m', space')) :
    wrap64 (image.ePhoff + i * image.ePhentsize) < image.size ∧ ((image.phdr i).pType = ptLoad →
      ∀ k, k < (image.phdr i).pFilesz → wrap64 ((image.phdr i).pOffset + k) < image.size) := by
  have next {B : Type} {offset count : Nat} {rest : Nat → Reads B}
      (inside : Inside image (image.readField offset count >>= rest)) : Inside image (rest (image.load offset count)) :=
    (Logged.only_bind.mp inside).2 _ (readField_value ..)
  rw [loadSegmentReads_shape] at returned
  unfold loadSegmentReads at inside
  replace inside := next (next inside)
  rw [← Image.ePhoff, ← Image.ePhentsize] at inside
  constructor
  · have first := (Logged.only_bind.mp inside).1 _ (List.mem_map.mpr ⟨0, List.mem_range.mpr (by decide), rfl⟩)
    rwa [Nat.add_zero, wrap64, wrap64, Nat.mod_mod] at first
  · intro isLoad k byte
    rw [if_neg (not_not.mpr isLoad)] at returned
    replace inside := next inside
    generalize header : wrap64 (image.ePhoff + i * image.ePhentsize) = ph at inside
    rw [phdr_fields i header] at isLoad returned byte ⊢
    rw [if_neg (not_not.mpr isLoad)] at inside
    exact mapSegmentReads_all (next (next (next (next (next inside))))) returned byte

theorem segmentLoop_all {body : Nat → Machine → Space → Reads (Bool × Machine × Space)} {left i : Nat}
    (inside : Inside image (segmentLoop image body left i m space))
    (returned : (segmentLoop image body left i m space).result = .ok (true, m', space')) {j : Nat} (least : i ≤ j)
    (most : j < i + left) :
    ∃ m₁ space₁ m₂ space₂, Inside image (body j m₁ space₁) ∧ (body j m₁ space₁).result = .ok (true, m₂, space₂) := by
  induction left generalizing i m space with
  | zero => omega
  | succ left ih =>
      rw [segmentLoop] at inside returned
      rw [Logged.result_bind, readField_value, Result.ok_bind, Logged.result_bind] at returned
      obtain ⟨⟨loaded, m₁, space₁⟩, segment, rest⟩ := Result.bind_ok returned
      obtain ⟨here, later⟩ := Logged.only_bind.mp ((Logged.only_bind.mp inside).2 _ (readField_value ..))
      cases loaded with
      | false => cases rest
      | true =>
          rcases Nat.lt_or_eq_of_le least with after | rfl
          · exact ih (later _ segment) rest after (by omega)
          · exact ⟨m, space, m₁, space₁, here, segment⟩

/-- A load that succeeds has run the header loop to its end. -/
theorem elfLoadReads_loop (inside : Inside image (elfLoadReads image m outcomes))
    (returned : elfLoad image m outcomes = .ok (some space, m')) :
    elfCheck image = true ∧ ∃ m₁ space₁ m₂ space₂,
      Inside image (loadSegmentsReads image outcomes.nodes image.ePhnum 0 m₁ space₁) ∧
      (loadSegmentsReads image outcomes.nodes image.ePhnum 0 m₁ space₁).result = .ok (true, m₂, space₂) := by
  have next {B : Type} {offset count : Nat} {rest : Nat → Reads B}
      (inside : Inside image (image.readField offset count >>= rest)) : Inside image (rest (image.load offset count)) :=
    (Logged.only_bind.mp inside).2 _ (readField_value ..)
  unfold elfLoad at returned
  unfold elfLoadReads at inside
  split at returned
  · cases returned
  rename_i several
  rw [if_neg several] at inside
  replace inside := (Logged.only_bind.mp inside).2 _ (elfCheckReads_value image)
  split at returned
  · cases returned
  rename_i passed
  rw [if_neg passed] at inside
  replace inside := next (next (next (next inside)))
  rw [← Image.ePhnum] at inside
  split at returned
  · cases returned
  rename_i granted
  rw [if_neg granted] at inside
  rcases created : vmmSpaceCreate m outcomes.space with ⟨_ | space₁, m₁⟩
  · simp only [created] at returned
    cases returned
  · simp only [created] at returned inside
    obtain ⟨⟨loaded, m₂, space₂⟩, loads, rest⟩ := Result.bind_ok returned
    cases loaded with
    | false =>
        obtain ⟨m₃, _, last⟩ := Result.bind_ok rest
        cases last
    | true =>
        refine ⟨by simpa using passed, m₁, space₁, m₂, space₂, (Logged.only_bind.mp inside).1, ?_⟩
        rw [loadSegmentsReads_value]
        exact loads

/-- A number of `count` bytes is below `256 ^ count`. -/
theorem load_lt (image : Image) (offset count : Nat) : image.load offset count < 256 ^ count := by
  have sum (start : Nat) : (List.range count).foldr
      (fun i rest => (image.data (wrap64 (offset + i))).toNat * 256 ^ i + rest) start < 256 ^ count + start := by
    induction count generalizing start with
    | zero => simp
    | succ count ih =>
        rw [List.range_succ, List.foldr_append]
        have byte : (image.data (wrap64 (offset + count))).toNat * 256 ^ count ≤ 255 * 256 ^ count :=
          Nat.mul_le_mul_right _ (Nat.le_of_lt_succ (image.data _).isLt)
        refine Nat.lt_of_lt_of_le (ih _) ?_
        simp only [List.foldr_cons, List.foldr_nil]
        omega
  exact sum 0

/-- A load that reads only the image and succeeds has read a table and segments that do not wrap. -/
theorem elfLoadReads_whole (real : image.size ≤ 2 ^ 63) (inside : Inside image (elfLoadReads image m outcomes))
    (returned : elfLoad image m outcomes = .ok (some space, m')) : NoWrap image := by
  obtain ⟨checked, m₁, space₁, m₂, space₂, reads, loads⟩ := elfLoadReads_loop inside returned
  have loaded (i : Nat) (below : i < image.ePhnum) : wrap64 (image.ePhoff + i * image.ePhentsize) < image.size ∧
      ((image.phdr i).pType = ptLoad →
        ∀ k, k < (image.phdr i).pFilesz → wrap64 ((image.phdr i).pOffset + k) < image.size) := by
    obtain ⟨m₃, space₃, m₄, space₄, here, segment⟩ := segmentLoop_all reads loads (Nat.zero_le i) (by omega)
    exact loadSegmentReads_all here segment
  constructor
  · by_contra wraps
    have start : image.ePhoff < 2 ^ 64 := load_lt image 32 8
    have number : image.ePhnum < 2 ^ 16 := load_lt image 56 2
    have entry : image.ePhentsize < 2 ^ 16 := load_lt image 54 2
    have table : image.ePhnum * image.ePhentsize ≤ 2 ^ 16 * 2 ^ 16 := Nat.mul_le_mul number.le entry.le
    have several : image.ePhnum ≠ 0 := by
      intro none
      rw [none] at wraps
      omega
    have first := (loaded 0 (Nat.pos_of_ne_zero several)).1
    unfold wrap64 at first
    omega
  · intro i below _ isLoad _
    by_contra wraps
    have offset : (image.phdr i).pOffset < 2 ^ 64 := load_lt image _ 8
    have last := (loaded i below).2 isLoad (2 ^ 64 - 1 - (image.phdr i).pOffset) (by omega)
    unfold wrap64 at last
    omega

/-- `elf_load` reads only the image if no end of a range in the image wraps. A load that succeeds reads only the image exactly
when none does. -/
theorem elf_reads_image (image : Image) :
    ((elfCheck image = true → NoWrap image) → ∀ m outcomes, Inside image (elfLoadReads image m outcomes)) ∧
      (image.size ≤ 2 ^ 63 → ∀ m outcomes space m', elfLoad image m outcomes = .ok (some space, m') →
        (Inside image (elfLoadReads image m outcomes) ↔ NoWrap image)) :=
  ⟨fun whole _ _ => elfLoadReads_inside whole, fun real _ _ _ _ returned =>
    ⟨fun inside => elfLoadReads_whole real inside returned, fun whole => elfLoadReads_inside fun _ => whole⟩⟩

end

/-- The byte of the segment lies one byte before the image. -/
def wrappedSegment : Image := executable [⟨ptLoad, 5, 2 ^ 64 - 1, 0x400000, 1, 1⟩] []

/-- The load of a segment whose end wraps succeeds and reads a byte outside the image. -/
theorem elf_reads_outside : ¬∀ (image : Image) (m : Machine) (outcomes : LoadOutcomes),
    Inside image (elfLoadReads image m outcomes) := by
  intro claim
  have read : 2 ^ 64 - 1 ∈ (elfLoadReads wrappedSegment smallMachine allGranted).log := by decide +kernel
  have below := claim wrappedSegment smallMachine allGranted _ read
  have size : wrappedSegment.size = 120 := by decide +kernel
  rw [size] at below
  exact absurd below (by decide)

theorem userSegment_noWrap : NoWrap userSegment := by
  obtain ⟨count, header⟩ := userSegment_headers
  constructor
  · decide +kernel
  · intro i below _ _ _
    have first : i = 0 := by omega
    rw [first, header]
    decide

theorem elf_reads_image_first : ∃ space m', elfLoad userSegment smallMachine allGranted = .ok (some space, m') ∧
    Inside userSegment (elfLoadReads userSegment smallMachine allGranted) := by
  have run : ((elfLoad userSegment smallMachine allGranted).map fun result => result.1.isSome).toOption = some true := by
    decide +kernel
  obtain ⟨⟨result, m'⟩, loaded, given⟩ := exists_of_toOption run
  obtain ⟨space, rfl⟩ := Option.isSome_iff_exists.mp given
  have size : userSegment.size ≤ 2 ^ 63 := by decide +kernel
  exact ⟨space, m', loaded, ((elf_reads_image userSegment).2 size _ _ space m' loaded).mpr userSegment_noWrap⟩

end DoccrOS.Packages
