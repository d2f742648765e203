import Mathlib.Data.Set.Basic
import Mathlib.Tactic

namespace DoccrOS.Lib.Radix

variable {F I : Type}

/-- A walk follows one child link for each index of its path. -/
def walk (next : F → I → Option F) (root : F) (path : List I) : Option F :=
  path.foldlM next root

@[simp] theorem walk_nil (next : F → I → Option F) (root : F) : walk next root [] = some root := rfl

theorem walk_snoc (next : F → I → Option F) (root : F) (path : List I) (i : I) :
    walk next root (path ++ [i]) = (walk next root path).bind fun node => next node i := by
  simp [walk, List.foldlM_append]

/-- A walk reaches a node at every prefix of its path. -/
theorem walk_prefix {next : F → I → Option F} {root node : F} {path longer : List I} (shorter : path <+: longer)
    (reached : walk next root longer = some node) : ∃ before, walk next root path = some before := by
  obtain ⟨rest, rfl⟩ := shorter
  rw [walk, List.foldlM_append] at reached
  obtain ⟨before, reached', _⟩ := Option.bind_eq_some_iff.mp reached
  exact ⟨before, reached'⟩

/-- A prefix-closed set of paths bounds the nodes that a forest owns. -/
structure Admissible (I : Type) where
  holds : List I → Prop
  nil : holds []
  init : ∀ path i, holds (path ++ [i]) → holds path

/-- The owned nodes are the ends of admissible walks from the roots. -/
def Nodes (next : F → I → Option F) (roots : Set F) (adm : Admissible I) : Set F :=
  {node | ∃ root ∈ roots, ∃ path, adm.holds path ∧ walk next root path = some node}

/-- In a forest every owned node has one root and one path. -/
def Forest (next : F → I → Option F) (roots : Set F) (adm : Admissible I) : Prop :=
  ∀ ⦃root root' path path' node⦄, root ∈ roots → root' ∈ roots → adm.holds path → adm.holds path' →
    walk next root path = some node → walk next root' path' = some node → root = root' ∧ path = path'

section
variable {next next' : F → I → Option F} {roots : Set F} {adm : Admissible I}

theorem mem_nodes {root node : F} {path : List I} (isRoot : root ∈ roots) (admitted : adm.holds path)
    (reached : walk next root path = some node) : node ∈ Nodes next roots adm :=
  ⟨root, isRoot, path, admitted, reached⟩

theorem root_mem_nodes {root : F} (isRoot : root ∈ roots) : root ∈ Nodes next roots adm :=
  mem_nodes isRoot adm.nil (walk_nil next root)

/-- Links outside the admissible positions do not move any admissible walk. -/
theorem walk_congr
    (same : ∀ root ∈ roots, ∀ path i node, adm.holds (path ++ [i]) → walk next root path = some node →
      next' node i = next node i)
    {root : F} (isRoot : root ∈ roots) (path : List I) (admitted : adm.holds path) :
    walk next' root path = walk next root path := by
  induction path using List.reverseRecOn with
  | nil => rfl
  | append_singleton path i ih =>
      have before := ih (adm.init path i admitted)
      rw [walk_snoc, walk_snoc, before]
      cases reached : walk next root path with
      | none => rfl
      | some node => exact same root isRoot path i node admitted reached

theorem nodes_congr
    (same : ∀ root ∈ roots, ∀ path, adm.holds path → walk next' root path = walk next root path) :
    Nodes next' roots adm = Nodes next roots adm := by
  ext node
  constructor
  · rintro ⟨root, isRoot, path, admitted, reached⟩
    exact mem_nodes isRoot admitted ((same root isRoot path admitted).symm.trans reached)
  · rintro ⟨root, isRoot, path, admitted, reached⟩
    exact mem_nodes isRoot admitted ((same root isRoot path admitted).trans reached)

theorem Forest.congr (forest : Forest next roots adm)
    (same : ∀ root ∈ roots, ∀ path, adm.holds path → walk next' root path = walk next root path) :
    Forest next' roots adm := by
  intro root root' path path' node isRoot isRoot' admitted admitted' reached reached'
  rw [same root isRoot path admitted] at reached
  rw [same root' isRoot' path' admitted'] at reached'
  exact forest isRoot isRoot' admitted admitted' reached reached'

theorem Forest.mono (forest : Forest next roots adm) {fewer : Set F} (subset : fewer ⊆ roots) :
    Forest next fewer adm := by
  intro root root' path path' node isRoot isRoot'
  exact forest (subset isRoot) (subset isRoot')

end

/-- A link adds one fresh childless node below a node that lacked the child. -/
structure Link (next next' : F → I → Option F) (roots : Set F) (adm : Admissible I)
    (root : F) (path : List I) (i : I) (parent child : F) : Prop where
  isRoot : root ∈ roots
  admitted : adm.holds (path ++ [i])
  reached : walk next root path = some parent
  absent : next parent i = none
  fresh : child ∉ Nodes next roots adm
  linked : next' parent i = some child
  childless : ∀ j, next' child j = none
  other : ∀ node j, node ≠ child → ¬(node = parent ∧ j = i) → next' node j = next node j

/-- An unlink removes one childless node from its parent. -/
structure Unlink (next next' : F → I → Option F) (roots : Set F) (adm : Admissible I)
    (root : F) (path : List I) (i : I) (parent child : F) : Prop where
  isRoot : root ∈ roots
  admitted : adm.holds (path ++ [i])
  reached : walk next root path = some parent
  present : next parent i = some child
  childless : ∀ j, next child j = none
  cleared : next' parent i = none
  other : ∀ node j, ¬(node = parent ∧ j = i) → next' node j = next node j

section
variable {next next' : F → I → Option F} {roots : Set F} {adm : Admissible I}
  {root parent child : F} {path : List I} {i : I}

theorem Link.parent_mem (link : Link next next' roots adm root path i parent child) :
    parent ∈ Nodes next roots adm :=
  mem_nodes link.isRoot (adm.init path i link.admitted) link.reached

theorem Link.walk_new (forest : Forest next roots adm)
    (link : Link next next' roots adm root path i parent child) :
    ∀ root' ∈ roots, ∀ path', adm.holds path' →
      (root' = root ∧ path' = path ++ [i] → walk next' root' path' = some child) ∧
      (¬(root' = root ∧ path' = path ++ [i]) → walk next' root' path' = walk next root' path') := by
  intro root' isRoot' path'
  induction path' using List.reverseRecOn with
  | nil => exact fun _ => ⟨fun same => by simp at same, fun _ => rfl⟩
  | append_singleton path' j ih =>
      intro admitted
      obtain ⟨atNew, elsewhere⟩ := ih (adm.init path' j admitted)
      constructor
      · rintro ⟨rfl, samePath⟩
        obtain ⟨rfl, sameLast⟩ := List.append_inj' samePath rfl
        obtain rfl : j = i := by simpa using sameLast
        rw [walk_snoc, elsewhere (by simp), link.reached]
        exact link.linked
      · intro different
        rw [walk_snoc, walk_snoc]
        by_cases atChild : root' = root ∧ path' = path ++ [i]
        · rw [atNew atChild, atChild.1, atChild.2, walk_snoc, link.reached]
          simp [link.childless, link.absent]
        · rw [elsewhere atChild]
          cases reached : walk next root' path' with
          | none => rfl
          | some node =>
              have owned : node ∈ Nodes next roots adm := mem_nodes isRoot' (adm.init path' j admitted) reached
              apply link.other node j
              · rintro rfl
                exact link.fresh owned
              · rintro ⟨rfl, rfl⟩
                obtain ⟨rfl, rfl⟩ := forest isRoot' link.isRoot (adm.init path' j admitted)
                  (adm.init path j link.admitted) reached link.reached
                exact different ⟨rfl, rfl⟩

theorem Link.forest (link : Link next next' roots adm root path i parent child)
    (forest : Forest next roots adm) : Forest next' roots adm := by
  intro first second path₁ path₂ node isFirst isSecond admitted₁ admitted₂ reached₁ reached₂
  obtain ⟨new₁, old₁⟩ := link.walk_new forest first isFirst path₁ admitted₁
  obtain ⟨new₂, old₂⟩ := link.walk_new forest second isSecond path₂ admitted₂
  by_cases at₁ : first = root ∧ path₁ = path ++ [i] <;> by_cases at₂ : second = root ∧ path₂ = path ++ [i]
  · exact ⟨at₁.1.trans at₂.1.symm, at₁.2.trans at₂.2.symm⟩
  · rw [new₁ at₁, Option.some.injEq] at reached₁
    rw [old₂ at₂, ← reached₁] at reached₂
    exact absurd (mem_nodes isSecond admitted₂ reached₂) link.fresh
  · rw [new₂ at₂, Option.some.injEq] at reached₂
    rw [old₁ at₁, ← reached₂] at reached₁
    exact absurd (mem_nodes isFirst admitted₁ reached₁) link.fresh
  · rw [old₁ at₁] at reached₁
    rw [old₂ at₂] at reached₂
    exact forest isFirst isSecond admitted₁ admitted₂ reached₁ reached₂

theorem Link.nodes (link : Link next next' roots adm root path i parent child)
    (forest : Forest next roots adm) : Nodes next' roots adm = insert child (Nodes next roots adm) := by
  ext node
  constructor
  · rintro ⟨root', isRoot', path', admitted, reached⟩
    obtain ⟨new, old⟩ := link.walk_new forest root' isRoot' path' admitted
    by_cases atNew : root' = root ∧ path' = path ++ [i]
    · rw [new atNew, Option.some.injEq] at reached
      exact Or.inl reached.symm
    · rw [old atNew] at reached
      exact Or.inr (mem_nodes isRoot' admitted reached)
  · rintro (rfl | ⟨root', isRoot', path', admitted, reached⟩)
    · exact mem_nodes link.isRoot link.admitted ((link.walk_new forest root link.isRoot _ link.admitted).1 ⟨rfl, rfl⟩)
    · have different : ¬(root' = root ∧ path' = path ++ [i]) := by
        rintro ⟨rfl, rfl⟩
        rw [walk_snoc, link.reached] at reached
        simp [link.absent] at reached
      exact mem_nodes isRoot' admitted (((link.walk_new forest root' isRoot' path' admitted).2 different).trans reached)

theorem Unlink.walk_new (forest : Forest next roots adm)
    (unlink : Unlink next next' roots adm root path i parent child) :
    ∀ root' ∈ roots, ∀ path', adm.holds path' →
      (root' = root ∧ path' = path ++ [i] → walk next' root' path' = none) ∧
      (¬(root' = root ∧ path' = path ++ [i]) → walk next' root' path' = walk next root' path') := by
  intro root' isRoot' path'
  induction path' using List.reverseRecOn with
  | nil => exact fun _ => ⟨fun same => by simp at same, fun _ => rfl⟩
  | append_singleton path' j ih =>
      intro admitted
      obtain ⟨atOld, elsewhere⟩ := ih (adm.init path' j admitted)
      constructor
      · rintro ⟨rfl, samePath⟩
        obtain ⟨rfl, sameLast⟩ := List.append_inj' samePath rfl
        obtain rfl : j = i := by simpa using sameLast
        rw [walk_snoc, elsewhere (by simp), unlink.reached]
        exact unlink.cleared
      · intro different
        rw [walk_snoc, walk_snoc]
        by_cases atChild : root' = root ∧ path' = path ++ [i]
        · rw [atOld atChild, atChild.1, atChild.2, walk_snoc, unlink.reached]
          simp [unlink.present, unlink.childless]
        · rw [elsewhere atChild]
          cases reached : walk next root' path' with
          | none => rfl
          | some node =>
              apply unlink.other node j
              rintro ⟨rfl, rfl⟩
              obtain ⟨rfl, rfl⟩ := forest isRoot' unlink.isRoot (adm.init path' j admitted)
                (adm.init path j unlink.admitted) reached unlink.reached
              exact different ⟨rfl, rfl⟩

theorem Unlink.walk_mono (unlink : Unlink next next' roots adm root path i parent child)
    (forest : Forest next roots adm) {root' node : F} {path' : List I} (isRoot' : root' ∈ roots)
    (admitted : adm.holds path') (reached : walk next' root' path' = some node) :
    walk next root' path' = some node := by
  obtain ⟨gone, old⟩ := unlink.walk_new forest root' isRoot' path' admitted
  by_cases atOld : root' = root ∧ path' = path ++ [i]
  · simp [gone atOld] at reached
  · exact (old atOld).symm.trans reached

theorem Unlink.forest (unlink : Unlink next next' roots adm root path i parent child)
    (forest : Forest next roots adm) : Forest next' roots adm := by
  intro first second path₁ path₂ node isFirst isSecond admitted₁ admitted₂ reached₁ reached₂
  exact forest isFirst isSecond admitted₁ admitted₂ (unlink.walk_mono forest isFirst admitted₁ reached₁)
    (unlink.walk_mono forest isSecond admitted₂ reached₂)

theorem Unlink.nodes (unlink : Unlink next next' roots adm root path i parent child)
    (forest : Forest next roots adm) : Nodes next' roots adm = Nodes next roots adm \ {child} := by
  have childAt : walk next root (path ++ [i]) = some child := by
    rw [walk_snoc, unlink.reached]
    exact unlink.present
  ext node
  constructor
  · rintro ⟨root', isRoot', path', admitted, reached⟩
    have before := unlink.walk_mono forest isRoot' admitted reached
    refine ⟨mem_nodes isRoot' admitted before, ?_⟩
    rintro rfl
    have same := forest isRoot' unlink.isRoot admitted unlink.admitted before childAt
    simp [(unlink.walk_new forest root' isRoot' path' admitted).1 same] at reached
  · rintro ⟨⟨root', isRoot', path', admitted, reached⟩, different⟩
    have elsewhere : ¬(root' = root ∧ path' = path ++ [i]) := by
      rintro ⟨rfl, rfl⟩
      rw [childAt, Option.some.injEq] at reached
      exact different reached.symm
    exact mem_nodes isRoot' admitted (((unlink.walk_new forest root' isRoot' path' admitted).2 elsewhere).trans reached)

end

/-- A new root starts as a node without admissible children. -/
structure AddRoot (next next' : F → I → Option F) (roots : Set F) (adm : Admissible I) (root : F) : Prop where
  fresh : root ∉ Nodes next roots adm
  childless : ∀ i, adm.holds [i] → next' root i = none
  other : ∀ node i, node ≠ root → next' node i = next node i

section
variable {next next' : F → I → Option F} {roots : Set F} {adm : Admissible I} {root : F}

theorem AddRoot.walk_old (add : AddRoot next next' roots adm root) {root' : F} (isRoot : root' ∈ roots)
    (path : List I) (admitted : adm.holds path) : walk next' root' path = walk next root' path := by
  refine walk_congr (fun first isFirst path' i node admitted' reached => ?_) isRoot path admitted
  apply add.other
  rintro rfl
  exact add.fresh (mem_nodes isFirst (adm.init path' i admitted') reached)

theorem AddRoot.walk_root (add : AddRoot next next' roots adm root) (path : List I) (admitted : adm.holds path)
    (nonempty : path ≠ []) : walk next' root path = none := by
  induction path using List.reverseRecOn with
  | nil => exact absurd rfl nonempty
  | append_singleton path i ih =>
      rw [walk_snoc]
      by_cases start : path = []
      · subst start
        simpa using add.childless i admitted
      · rw [ih (adm.init path i admitted) start]
        rfl

theorem AddRoot.forest (add : AddRoot next next' roots adm root) (forest : Forest next roots adm) :
    Forest next' (insert root roots) adm := by
  have atRoot : ∀ path node, adm.holds path → walk next' root path = some node → path = [] ∧ node = root := by
    intro path node admitted reached
    by_cases start : path = []
    · subst start
      exact ⟨rfl, by simpa using reached.symm⟩
    · simp [add.walk_root path admitted start] at reached
  have old : ∀ root' ∈ roots, ∀ path, adm.holds path → walk next' root' path ≠ some root := by
    intro root' isRoot path admitted reached
    rw [add.walk_old isRoot path admitted] at reached
    exact add.fresh (mem_nodes isRoot admitted reached)
  rintro first second path₁ path₂ node (rfl | isFirst) (rfl | isSecond) admitted₁ admitted₂ reached₁ reached₂
  · exact ⟨rfl, (atRoot _ _ admitted₁ reached₁).1.trans (atRoot _ _ admitted₂ reached₂).1.symm⟩
  · rw [(atRoot _ _ admitted₁ reached₁).2] at reached₂
    exact absurd reached₂ (old _ isSecond _ admitted₂)
  · rw [(atRoot _ _ admitted₂ reached₂).2] at reached₁
    exact absurd reached₁ (old _ isFirst _ admitted₁)
  · rw [add.walk_old isFirst _ admitted₁] at reached₁
    rw [add.walk_old isSecond _ admitted₂] at reached₂
    exact forest isFirst isSecond admitted₁ admitted₂ reached₁ reached₂

theorem AddRoot.nodes (add : AddRoot next next' roots adm root) :
    Nodes next' (insert root roots) adm = insert root (Nodes next roots adm) := by
  ext node
  constructor
  · rintro ⟨root', rfl | isRoot, path, admitted, reached⟩
    · by_cases start : path = []
      · subst start
        exact Or.inl (by simpa using reached.symm)
      · simp [add.walk_root path admitted start] at reached
    · rw [add.walk_old isRoot path admitted] at reached
      exact Or.inr (mem_nodes isRoot admitted reached)
  · rintro (rfl | ⟨root', isRoot, path, admitted, reached⟩)
    · exact root_mem_nodes (Set.mem_insert _ _)
    · exact mem_nodes (Set.mem_insert_of_mem _ isRoot) admitted ((add.walk_old isRoot path admitted).trans reached)

end

end DoccrOS.Lib.Radix
