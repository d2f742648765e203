import Mathlib.Tactic

namespace DoccrOS.Lib

/-- A span of addresses. -/
structure Span where
  base : Nat
  size : Nat

/-- No address of the range from `start` lies in the span. -/
def Span.avoids (span : Span) (start size : Nat) : Prop :=
  ∀ address, start ≤ address → address < start + size → ¬(span.base ≤ address ∧ address < span.base + span.size)

/-- A range avoids a span exactly when it lies below or above it, if both hold an address. -/
theorem Span.avoids_iff {span : Span} {start size : Nat} (positive : 0 < size) (nonempty : 0 < span.size) :
    span.avoids start size ↔ start + size ≤ span.base ∨ span.base + span.size ≤ start := by
  constructor
  · intro avoided
    by_contra meets
    exact avoided (max start span.base) (by omega) (by omega) (by omega)
  · intro apart address above below
    omega

/-- A single pass over the spans that keeps one candidate: a span that ends below the candidate is skipped, a span behind the
range stops the pass, and any other span moves the candidate to its end. -/
def firstGap (size : Nat) : (start : Nat) → List Span → Nat
  | start, [] => start
  | start, span :: rest =>
    if span.base + span.size ≤ start then firstGap size start rest
    else if span.base ≥ start + size then start
    else firstGap size (span.base + span.size) rest

/-- The least address from `start` on at which a range of the size avoids all spans. It is `start` or the end of a span. -/
structure LeastGap (spans : List Span) (start size gap : Nat) : Prop where
  above : start ≤ gap
  candidate : gap = start ∨ ∃ span ∈ spans, gap = span.base + span.size
  free : ∀ span ∈ spans, span.avoids gap size
  least : ∀ other, start ≤ other → (∀ span ∈ spans, span.avoids other size) → gap ≤ other

/-- On spans that are sorted by their bases the pass finds the least gap. The induction is on the spans, and the candidate
stays below every free address. -/
theorem firstGap_least {spans : List Span} {size : Nat} (start : Nat) (positive : 0 < size)
    (nonempty : ∀ span ∈ spans, 0 < span.size) (sorted : spans.Pairwise fun first second => first.base ≤ second.base) :
    LeastGap spans start size (firstGap size start spans) := by
  induction spans generalizing start with
  | nil => exact ⟨Nat.le_refl _, Or.inl rfl, nofun, fun other above _ => above⟩
  | cons span rest ih =>
      obtain ⟨here, nonemptyRest⟩ := List.forall_mem_cons.mp nonempty
      obtain ⟨lowest, sortedRest⟩ := List.pairwise_cons.mp sorted
      have avoids (other : Nat) : span.avoids other size ↔ other + size ≤ span.base ∨ span.base + span.size ≤ other :=
        Span.avoids_iff positive here
      rw [firstGap]
      split
      · rename_i before
        obtain ⟨above, candidate, free, least⟩ := ih start nonemptyRest sortedRest
        refine ⟨above, ?_, ?_, ?_⟩
        · rcases candidate with same | ⟨other, member, same⟩
          · exact Or.inl same
          · exact Or.inr ⟨other, List.mem_cons_of_mem _ member, same⟩
        · rw [List.forall_mem_cons]
          exact ⟨(avoids _).mpr (Or.inr (before.trans above)), free⟩
        · intro other isAbove avoided
          exact least other isAbove fun span member => avoided span (List.mem_cons_of_mem _ member)
      · split
        · rename_i behind
          refine ⟨Nat.le_refl _, Or.inl rfl, ?_, fun other isAbove _ => isAbove⟩
          rw [List.forall_mem_cons]
          refine ⟨(avoids _).mpr (Or.inl behind), ?_⟩
          intro other member
          exact (Span.avoids_iff positive (nonemptyRest other member)).mpr (Or.inl (Nat.le_trans behind (lowest other member)))
        · rename_i after near
          obtain ⟨above, candidate, free, least⟩ := ih (span.base + span.size) nonemptyRest sortedRest
          refine ⟨by omega, ?_, ?_, ?_⟩
          · rcases candidate with same | ⟨other, member, same⟩
            · exact Or.inr ⟨span, List.mem_cons_self, same⟩
            · exact Or.inr ⟨other, List.mem_cons_of_mem _ member, same⟩
          · rw [List.forall_mem_cons]
            exact ⟨(avoids _).mpr (Or.inr above), free⟩
          · intro other isAbove avoided
            have apart := (avoids other).mp (avoided span List.mem_cons_self)
            exact least other (by omega) fun span member => avoided span (List.mem_cons_of_mem _ member)

end DoccrOS.Lib
