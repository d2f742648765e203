import Mathlib.Tactic

namespace DoccrOS.Lib

section
variable {O R : Type} {owns : O → Option R} {live : List R} {owner other : O} {resource : R}

/-- Every live resource has exactly one owner, and owners hold live resources only. -/
structure Owning (owns : O → Option R) (live : List R) : Prop where
  held : ∀ {owner resource}, owns owner = some resource → resource ∈ live
  single : ∀ {owner other resource}, owns owner = some resource → owns other = some resource → owner = other
  covered : ∀ {resource}, resource ∈ live → ∃ owner, owns owner = some resource
  nodup : live.Nodup

theorem Owning.empty : Owning (fun _ : O => (none : Option R)) [] := ⟨nofun, nofun, nofun, List.nodup_nil⟩

variable [DecidableEq O]

/-- An owner gives its resource back. -/
theorem Owning.release [DecidableEq R] (owning : Owning owns live) (holds : owns owner = some resource) :
    Owning (Function.update owns owner none) (live.erase resource) := by
  have kept {other : O} {another : R} (after : Function.update owns owner none other = some another) :
      other ≠ owner ∧ owns other = some another := by
    by_cases same : other = owner
    · rw [same, Function.update_self] at after
      cases after
    · rw [Function.update_of_ne same] at after
      exact ⟨same, after⟩
  refine ⟨?_, ?_, ?_, owning.nodup.erase resource⟩
  · intro other another after
    obtain ⟨different, before⟩ := kept after
    refine (List.mem_erase_of_ne ?_).mpr (owning.held before)
    intro same
    rw [same] at before
    exact different (owning.single before holds)
  · intro other other' another after after'
    exact owning.single (kept after).2 (kept after').2
  · intro another member
    have different : another ≠ resource := fun same => owning.nodup.not_mem_erase (same ▸ member)
    obtain ⟨other, before⟩ := owning.covered (List.mem_of_mem_erase member)
    refine ⟨other, ?_⟩
    rw [Function.update_of_ne]
    · exact before
    · intro same
      rw [same, holds] at before
      exact different (Option.some.inj before).symm

/-- An owner without a resource takes a new one. -/
theorem Owning.take (owning : Owning owns live) (idle : owns owner = none) (fresh : resource ∉ live) :
    Owning (Function.update owns owner (some resource)) (resource :: live) := by
  have cases_after {other : O} {another : R} (after : Function.update owns owner (some resource) other = some another) :
      (other = owner ∧ another = resource) ∨ (other ≠ owner ∧ owns other = some another) := by
    by_cases same : other = owner
    · rw [same, Function.update_self] at after
      exact Or.inl ⟨same, (Option.some.inj after).symm⟩
    · rw [Function.update_of_ne same] at after
      exact Or.inr ⟨same, after⟩
  refine ⟨?_, ?_, ?_, List.nodup_cons.mpr ⟨fresh, owning.nodup⟩⟩
  · intro other another after
    rcases cases_after after with ⟨_, rfl⟩ | ⟨_, before⟩
    · exact List.mem_cons_self
    · exact List.mem_cons_of_mem _ (owning.held before)
  · intro other other' another after after'
    rcases cases_after after with ⟨rfl, rfl⟩ | ⟨_, before⟩
    · rcases cases_after after' with ⟨rfl, _⟩ | ⟨_, before'⟩
      · rfl
      · exact absurd (owning.held before') fresh
    · rcases cases_after after' with ⟨_, rfl⟩ | ⟨_, before'⟩
      · exact absurd (owning.held before) fresh
      · exact owning.single before before'
  · intro another member
    rcases List.mem_cons.mp member with rfl | old
    · exact ⟨owner, Function.update_self _ _ _⟩
    · obtain ⟨other, before⟩ := owning.covered old
      refine ⟨other, ?_⟩
      rw [Function.update_of_ne]
      · exact before
      · intro same
        rw [same, idle] at before
        cases before

end

end DoccrOS.Lib
