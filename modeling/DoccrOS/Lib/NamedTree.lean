import Mathlib.Tactic

namespace DoccrOS.Lib

section
variable {N T : Type} {child child' : N → T → Option N} {root node dir new : N} {names other : List T} {name : T}

/-- The node at the end of a list of names. -/
def resolve (child : N → T → Option N) (root : N) (names : List T) : Option N := names.foldlM child root

/-- Every node but the root has one place below one node. -/
structure NamedTree (child : N → T → Option N) (root : N) : Prop where
  place : ∀ {dir dir' : N} {name name' : T} {node : N}, child dir name = some node → child dir' name' = some node →
    dir = dir' ∧ name = name'
  top : ∀ dir name, child dir name ≠ some root

@[simp] theorem resolve_nil (child : N → T → Option N) (root : N) : resolve child root [] = some root := rfl

theorem resolve_append (child : N → T → Option N) (root : N) (names other : List T) :
    resolve child root (names ++ other) = (resolve child root names).bind fun node => resolve child node other :=
  List.foldlM_append

theorem resolve_snoc (child : N → T → Option N) (root : N) (names : List T) (name : T) :
    resolve child root (names ++ [name]) = (resolve child root names).bind fun node => child node name := by
  rw [resolve_append]
  congr 1
  funext node
  cases found : child node name <;> simp [resolve, found]

theorem resolve_snoc_some (reached : resolve child root (names ++ [name]) = some node) :
    ∃ dir, resolve child root names = some dir ∧ child dir name = some node := by
  rw [resolve_snoc] at reached
  exact Option.bind_eq_some_iff.mp reached

/-- The lists that lead to a node are closed under prefixes. -/
theorem resolve_prefix (reached : resolve child root (names ++ other) ≠ none) : resolve child root names ≠ none := by
  intro missing
  rw [resolve_append, missing] at reached
  exact reached rfl

/-- In a tree only one list of names leads to a node. -/
theorem NamedTree.resolve_inj (tree : NamedTree child root) (reached : resolve child root names = some node)
    (reached' : resolve child root other = some node) : names = other := by
  induction names using List.reverseRecOn generalizing node other with
  | nil =>
      injection reached with isRoot
      induction other using List.reverseRecOn with
      | nil => rfl
      | append_singleton other name _ =>
          obtain ⟨dir, _, below⟩ := resolve_snoc_some reached'
          rw [← isRoot] at below
          exact absurd below (tree.top dir name)
  | append_singleton names name ih =>
      obtain ⟨dir, above, below⟩ := resolve_snoc_some reached
      induction other using List.reverseRecOn with
      | nil =>
          injection reached' with isRoot
          rw [← isRoot] at below
          exact absurd below (tree.top dir name)
      | append_singleton other name' _ =>
          obtain ⟨dir', above', below'⟩ := resolve_snoc_some reached'
          obtain ⟨sameDir, sameName⟩ := tree.place below below'
          rw [← sameDir] at above'
          rw [ih above above', sameName]

/-- One name below one node gets a new node that has no children, and every other name keeps its node. -/
structure AddsChild (child child' : N → T → Option N) (dir : N) (name : T) (new : N) : Prop where
  here : child' dir name = some new
  absent : child dir name = none
  empty : ∀ name', child' new name' = none
  other : ∀ dir' name', dir' ≠ new → (dir' ≠ dir ∨ name' ≠ name) → child' dir' name' = child dir' name'

/-- A new child is found below its directory, and every other list leads where it led. -/
theorem AddsChild.resolve (adds : AddsChild child child' dir name new) (tree : NamedTree child root) (notRoot : root ≠ new)
    (fresh : ∀ dir' name', child dir' name' ≠ some new) (reached : Lib.resolve child root names = some dir) :
    Lib.resolve child' root (names ++ [name]) = some new ∧
      ∀ other, other ≠ names ++ [name] → Lib.resolve child' root other = Lib.resolve child root other := by
  classical
  have missing : Lib.resolve child root (names ++ [name]) = none := by
    rw [resolve_snoc, reached, Option.bind_some, adds.absent]
  have notNew : ∀ other, Lib.resolve child root other ≠ some new := by
    intro other leads
    induction other using List.reverseRecOn with
    | nil => exact notRoot (Option.some.inj leads)
    | append_singleton other name' _ =>
        obtain ⟨dir', _, below⟩ := resolve_snoc_some leads
        exact fresh dir' name' below
  have all : ∀ other, Lib.resolve child' root other =
      if other = names ++ [name] then some new else Lib.resolve child root other := by
    intro other
    induction other using List.reverseRecOn with
    | nil =>
        rw [if_neg (by simp)]
        rfl
    | append_singleton other name' ih =>
        rw [resolve_snoc, ih]
        by_cases isNew : other = names ++ [name]
        · have longer : other ++ [name'] ≠ names ++ [name] := by
            rw [isNew]
            simp
          rw [if_pos isNew, if_neg longer, Option.bind_some, adds.empty, resolve_snoc, isNew, missing, Option.bind_none]
        · rw [if_neg isNew]
          cases leads : Lib.resolve child root other with
          | none =>
              have notHere : other ++ [name'] ≠ names ++ [name] := by
                intro same
                rw [(List.append_inj' same rfl).1, reached] at leads
                cases leads
              rw [if_neg notHere, resolve_snoc, leads]
              rfl
          | some dir' =>
              rw [Option.bind_some]
              have old : dir' ≠ new := by
                intro same
                exact notNew other (same ▸ leads)
              by_cases here : dir' = dir ∧ name' = name
              · obtain ⟨rfl, rfl⟩ := here
                rw [tree.resolve_inj leads reached, if_pos rfl]
                exact adds.here
              · have notHere : other ++ [name'] ≠ names ++ [name] := by
                  intro same
                  obtain ⟨sameList, sameName⟩ := List.append_inj' same rfl
                  rw [sameList, reached] at leads
                  exact here ⟨(Option.some.inj leads).symm, List.singleton_inj.mp sameName⟩
                rw [if_neg notHere, resolve_snoc, leads, Option.bind_some]
                exact adds.other dir' name' old (not_and_or.mp here)
  exact ⟨by rw [all, if_pos rfl], fun other different => by rw [all, if_neg different]⟩

/-- One name below one node loses its node, which has no children, and every other name keeps its node. -/
structure DropsChild (child child' : N → T → Option N) (dir : N) (name : T) (node : N) : Prop where
  before : child dir name = some node
  gone : child' dir name = none
  empty : ∀ name', child node name' = none
  other : ∀ dir' name', dir' ≠ node → (dir' ≠ dir ∨ name' ≠ name) → child' dir' name' = child dir' name'

/-- A dropped child is not found any more, and every other list leads where it led. -/
theorem DropsChild.resolve (drops : DropsChild child child' dir name node) (tree : NamedTree child root)
    (reached : Lib.resolve child root names = some dir) :
    Lib.resolve child' root (names ++ [name]) = none ∧
      ∀ other, other ≠ names ++ [name] → Lib.resolve child' root other = Lib.resolve child root other := by
  classical
  have present : Lib.resolve child root (names ++ [name]) = some node := by
    rw [resolve_snoc, reached, Option.bind_some, drops.before]
  have all : ∀ other, Lib.resolve child' root other =
      if other = names ++ [name] then none else Lib.resolve child root other := by
    intro other
    induction other using List.reverseRecOn with
    | nil =>
        rw [if_neg (by simp)]
        rfl
    | append_singleton other name' ih =>
        rw [resolve_snoc, ih]
        by_cases isNode : other = names ++ [name]
        · have longer : other ++ [name'] ≠ names ++ [name] := by
            rw [isNode]
            simp
          rw [if_pos isNode, if_neg longer, Option.bind_none, resolve_snoc, isNode, present, Option.bind_some, drops.empty]
        · rw [if_neg isNode]
          cases leads : Lib.resolve child root other with
          | none =>
              rw [Option.bind_none, resolve_snoc, leads, Option.bind_none]
              split <;> rfl
          | some dir' =>
              rw [Option.bind_some]
              have notNode : dir' ≠ node := by
                intro same
                exact isNode (tree.resolve_inj leads (same ▸ present))
              by_cases here : dir' = dir ∧ name' = name
              · obtain ⟨rfl, rfl⟩ := here
                rw [tree.resolve_inj leads reached, if_pos rfl]
                exact drops.gone
              · have notHere : other ++ [name'] ≠ names ++ [name] := by
                  intro same
                  obtain ⟨sameList, sameName⟩ := List.append_inj' same rfl
                  rw [sameList, reached] at leads
                  exact here ⟨(Option.some.inj leads).symm, List.singleton_inj.mp sameName⟩
                rw [if_neg notHere, resolve_snoc, leads, Option.bind_some]
                exact drops.other dir' name' notNode (not_and_or.mp here)
  exact ⟨by rw [all, if_pos rfl], fun other different => by rw [all, if_neg different]⟩

/-- The node at the end of the longest part of a list of names that leads to a node. -/
def deepest (child : N → T → Option N) : N → List T → N
  | node, [] => node
  | node, name :: names =>
    match child node name with
    | some next => deepest child next names
    | none => node

/-- The number of names at the end of a list that lead to no node. -/
def missing (child : N → T → Option N) : N → List T → Nat
  | _, [] => 0
  | node, name :: names =>
    match child node name with
    | some next => missing child next names
    | none => names.length + 1

theorem resolve_cons (child : N → T → Option N) (root : N) (name : T) (names : List T) :
    resolve child root (name :: names) = (child root name).bind fun next => resolve child next names := List.foldlM_cons

/-- A list that leads to a node has no missing names. -/
theorem missing_eq_zero (reached : resolve child root names = some node) : missing child root names = 0 := by
  induction names generalizing root with
  | nil => rfl
  | cons name names ih =>
      rw [resolve_cons] at reached
      obtain ⟨next, found, rest⟩ := Option.bind_eq_some_iff.mp reached
      rw [missing, found]
      exact ih rest

/-- A list that leads to no node has missing names. -/
theorem missing_pos (lost : resolve child root names = none) : 0 < missing child root names := by
  induction names generalizing root with
  | nil => cases lost
  | cons name names ih =>
      rw [resolve_cons] at lost
      rw [missing]
      cases found : child root name with
      | none => exact Nat.succ_pos _
      | some next =>
          rw [found] at lost
          exact ih lost

/-- The longest part is looked for behind a list that leads to a node. -/
theorem deepest_append (reached : resolve child root names = some node) :
    deepest child root (names ++ other) = deepest child node other := by
  induction names generalizing root with
  | nil =>
      cases reached
      rfl
  | cons name names ih =>
      rw [resolve_cons] at reached
      obtain ⟨next, found, rest⟩ := Option.bind_eq_some_iff.mp reached
      rw [List.cons_append, deepest, found]
      exact ih rest

/-- More names do not lead further than a list that leads to no node. -/
theorem deepest_of_none (lost : resolve child root names = none) :
    deepest child root (names ++ other) = deepest child root names := by
  induction names generalizing root with
  | nil => cases lost
  | cons name names ih =>
      rw [resolve_cons] at lost
      rw [List.cons_append, deepest, deepest]
      cases found : child root name with
      | none => rfl
      | some next =>
          rw [found] at lost
          exact ih lost

end

end DoccrOS.Lib
