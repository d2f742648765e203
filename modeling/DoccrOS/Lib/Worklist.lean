import Mathlib.Tactic

namespace DoccrOS.Lib

/-- A table of bounded size that is filled from nodes: every node has its items, and an item may link to one more node. -/
structure Worklist (N I K : Type) where
  root : N
  items : N → List I
  link : I → Option N
  capacity : Nat
  key : I → K
  owner : K → N
  owned : ∀ node, ∀ item ∈ items node, owner (key item) = node
  distinct : ∀ node, ((items node).map key).Nodup

namespace Worklist
variable {N I K : Type}

/-- The table takes the items of a node as far as they fit. -/
def fill (w : Worklist N I K) (table : List I) (node : N) : List I := (table ++ w.items node).take w.capacity

/-- The loop over a table that grows while the loop runs, with no result when the fuel runs out. -/
def expand (w : Worklist N I K) : (fuel i : Nat) → (table : List I) → Option (List I)
  | 0, _, _ => none
  | fuel + 1, i, table =>
    match table[i]? with
    | none => some table
    | some item => w.expand fuel (i + 1) (((w.link item).map (w.fill table)).getD table)

/-- The nodes in the order in which the links of the items name them, from the root on. -/
inductive Visits (w : Worklist N I K) : List N → Prop
  | root : Visits w [w.root]
  | next {nodes : List N} {node : N} (visits : Visits w nodes)
      (named : (w.root :: (nodes.flatMap w.items).filterMap w.link)[nodes.length]? = some node) : Visits w (nodes ++ [node])

/-- A node with items is named a second time only after the table is full. -/
def Fresh (w : Worklist N I K) : Prop :=
  ∀ nodes node, w.Visits (nodes ++ [node]) → node ∈ nodes → w.items node = [] ∨ w.capacity ≤ (nodes.flatMap w.items).length

variable {w : Worklist N I K} {nodes more : List N} {node : N} {table final : List I} {item : I} {fuel i : Nat}

theorem Visits.inversion (visits : w.Visits (nodes ++ [node])) : nodes = [] ∧ node = w.root ∨
    w.Visits nodes ∧ (w.root :: (nodes.flatMap w.items).filterMap w.link)[nodes.length]? = some node := by
  generalize whole : nodes ++ [node] = list at visits
  cases visits with
  | root =>
      obtain ⟨empty, last⟩ : nodes = [] ∧ [node] = [w.root] := List.append_inj' whole rfl
      exact Or.inl ⟨empty, List.singleton_inj.mp last⟩
  | next visits named =>
      obtain ⟨rfl, last⟩ := List.append_inj' whole rfl
      cases last
      exact Or.inr ⟨visits, named⟩

theorem Visits.length_pos (visits : w.Visits nodes) : 0 < nodes.length := by
  cases visits with
  | root => exact Nat.one_pos
  | next visits named =>
      rw [List.length_append]
      exact Nat.succ_pos _

/-- Visits begin with visits. -/
theorem Visits.of_prefix (visits : w.Visits more) (part : nodes <+: more) (pos : 0 < nodes.length) : w.Visits nodes := by
  induction visits with
  | root =>
      have whole := part.eq_of_length_le pos
      rw [whole]
      exact Visits.root
  | next visits named inductionHypothesis =>
      rcases List.prefix_concat_iff.mp part with whole | shorter
      · rw [whole]
        exact visits.next named
      · exact inductionHypothesis shorter

/-- The order of the nodes is determined: of two visits the longer one begins with the shorter one. -/
theorem Visits.prefix_of_le (short : w.Visits nodes) (long : w.Visits more) (le : nodes.length ≤ more.length) :
    nodes <+: more := by
  induction long generalizing nodes with
  | root =>
      cases short with
      | root => exact List.prefix_refl _
      | next visits named =>
          have pos := visits.length_pos
          rw [List.length_append] at le
          simp only [List.length_singleton] at le
          omega
  | @next before last visits named inductionHypothesis =>
      rcases Nat.lt_or_ge before.length nodes.length with longer | shorter
      · cases short with
        | root =>
            have pos := visits.length_pos
            simp only [List.length_singleton] at longer
            omega
        | @next before' last' visits' named' =>
            simp only [List.length_append, List.length_singleton] at le longer
            have same : before' = before := (inductionHypothesis visits' (by omega)).eq_of_length (by omega)
            rw [same, named] at named'
            rw [same, Option.some.inj named']
      · exact (inductionHypothesis short shorter).trans (List.prefix_append _ _)

/-- The nodes whose items are in the table when the loop comes to an index. -/
def namedBefore (w : Worklist N I K) (i : Nat) (table : List I) : List N := w.root :: (table.take i).filterMap w.link

/-- The invariant of the loop: the links before the index name nodes in the order of the visits, and the table has the items
of these nodes. -/
structure Expanded (w : Worklist N I K) (i : Nat) (table : List I) : Prop where
  visits : w.Visits (w.namedBefore i table)
  filled : table = ((w.namedBefore i table).flatMap w.items).take w.capacity

theorem take_append_take {list rest : List I} {count : Nat} : (list.take count ++ rest).take count = (list ++ rest).take count := by
  rw [List.take_append, List.take_append, List.take_take, Nat.min_self, List.length_take]
  congr 2
  omega

theorem Expanded.start : w.Expanded 0 (w.fill [] w.root) where
  visits := Visits.root
  filled := by
    rw [namedBefore, List.take_zero, List.filterMap_nil, List.flatMap_singleton, fill, List.nil_append]

theorem Expanded.length_le (expanded : w.Expanded i table) : table.length ≤ w.capacity := by
  rw [expanded.filled]
  exact List.length_take_le _ _

theorem namedBefore_succ (found : table[i]? = some item) : w.namedBefore (i + 1) table = w.namedBefore i table ++ (w.link item).toList := by
  rw [namedBefore, List.take_add_one, found, List.filterMap_append]
  cases linked : w.link item <;> simp [namedBefore, linked]

/-- The table grows behind the index only. -/
theorem namedBefore_fill (fits : table.length ≤ w.capacity) (found : i ≤ table.length) :
    w.namedBefore i (w.fill table node) = w.namedBefore i table := by
  rw [namedBefore, fill, List.take_take, Nat.min_eq_left (found.trans fits), List.take_append_of_le_length found, namedBefore]

/-- The item at the index names the next node. -/
theorem Expanded.next_named (expanded : w.Expanded i table) (found : table[i]? = some item) (linked : w.link item = some node) :
    (w.root :: ((w.namedBefore i table).flatMap w.items).filterMap w.link)[(w.namedBefore i table).length]? = some node := by
  obtain ⟨rest, whole⟩ := List.take_prefix w.capacity ((w.namedBefore i table).flatMap w.items)
  rw [← expanded.filled] at whole
  have split : table = table.take i ++ item :: table.drop (i + 1) := by
    obtain ⟨small, value⟩ := List.getElem?_eq_some_iff.mp found
    rw [← value, List.getElem_cons_drop, List.take_append_drop]
  have list : w.root :: ((w.namedBefore i table).flatMap w.items).filterMap w.link =
      w.namedBefore i table ++ node :: (table.drop (i + 1) ++ rest).filterMap w.link := by
    rw [← whole]
    nth_rewrite 1 [split]
    rw [List.append_assoc, List.filterMap_append, List.cons_append, List.filterMap_cons_some linked]
    rfl
  rw [list, List.getElem?_append_right (Nat.le_refl _), Nat.sub_self]
  rfl

/-- One pass of the loop keeps the invariant. -/
theorem Expanded.step (expanded : w.Expanded i table) (found : table[i]? = some item) :
    w.Expanded (i + 1) (((w.link item).map (w.fill table)).getD table) := by
  have small : i + 1 ≤ table.length := (List.getElem?_eq_some_iff.mp found).1
  have nodes : w.namedBefore (i + 1) table = _ := namedBefore_succ found
  cases linked : w.link item with
  | none =>
      rw [linked, Option.toList_none, List.append_nil] at nodes
      constructor
      · rw [Option.map_none, Option.getD_none, nodes]
        exact expanded.visits
      · rw [Option.map_none, Option.getD_none, nodes]
        exact expanded.filled
  | some node =>
      rw [linked, Option.toList_some] at nodes
      rw [Option.map_some, Option.getD_some]
      have grown : w.namedBefore (i + 1) (w.fill table node) = w.namedBefore i table ++ [node] := by
        rw [namedBefore_fill expanded.length_le small, nodes]
      constructor
      · rw [grown]
        exact expanded.visits.next (expanded.next_named found linked)
      · rw [grown, List.flatMap_append, List.flatMap_singleton, ← take_append_take, ← expanded.filled]
        rfl

/-- The loop that returns has the items of all the nodes that its items name. -/
theorem Expanded.result (expanded : w.Expanded i table) (returned : w.expand fuel i table = some final) :
    w.Visits (w.root :: final.filterMap w.link) ∧
      final = ((w.root :: final.filterMap w.link).flatMap w.items).take w.capacity := by
  induction fuel generalizing i table with
  | zero => cases returned
  | succ fuel inductionHypothesis =>
      rw [expand] at returned
      cases found : table[i]? with
      | none =>
          rw [found] at returned
          cases returned
          have all : w.namedBefore i final = w.root :: final.filterMap w.link := by
            rw [namedBefore, List.take_of_length_le (List.getElem?_eq_none_iff.mp found)]
          rw [← all]
          exact ⟨expanded.visits, expanded.filled⟩
      | some item =>
          rw [found] at returned
          exact inductionHypothesis (expanded.step found) returned

/-- The loop returns: it makes at most one pass for each place of the table. -/
theorem Expanded.returns (expanded : w.Expanded i table) (enough : w.capacity - i < fuel) :
    ∃ final, w.expand fuel i table = some final := by
  induction fuel generalizing i table with
  | zero => exact absurd enough (Nat.not_lt_zero _)
  | succ fuel inductionHypothesis =>
      rw [expand]
      cases found : table[i]? with
      | none => exact ⟨table, rfl⟩
      | some item =>
          have small : i < table.length := (List.getElem?_eq_some_iff.mp found).1
          have fits := expanded.length_le
          exact inductionHypothesis (expanded.step found) (by omega)

/-- Items of different nodes have different keys. -/
theorem nodup_append_items (nodup : ((nodes.flatMap w.items).map w.key).Nodup) (fresh : node ∉ nodes) :
    ((nodes.flatMap w.items ++ w.items node).map w.key).Nodup := by
  rw [List.map_append, List.nodup_append]
  refine ⟨nodup, w.distinct node, ?_⟩
  rintro key before key' new rfl
  obtain ⟨item, member, rfl⟩ := List.mem_map.mp before
  obtain ⟨item', member', same⟩ := List.mem_map.mp new
  obtain ⟨other, among, member⟩ := List.mem_flatMap.mp member
  have owner := w.owned other item member
  rw [← same, w.owned node item' member'] at owner
  rw [owner] at fresh
  exact fresh among

theorem Fresh.nodup (fresh : w.Fresh) (visits : w.Visits nodes) : (((nodes.flatMap w.items).take w.capacity).map w.key).Nodup := by
  induction visits with
  | root =>
      rw [List.flatMap_singleton]
      exact ((List.take_sublist _ _).map _).nodup (w.distinct w.root)
  | @next nodes node visits named inductionHypothesis =>
      rw [List.flatMap_append, List.flatMap_singleton]
      rcases Nat.lt_or_ge (nodes.flatMap w.items).length w.capacity with room | full
      · rw [List.take_of_length_le room.le] at inductionHypothesis
        apply ((List.take_sublist _ _).map _).nodup
        by_cases again : node ∈ nodes
        · rcases fresh nodes node (visits.next named) again with empty | full
          · rw [empty, List.append_nil]
            exact inductionHypothesis
          · omega
        · exact nodup_append_items inductionHypothesis again
      · rw [List.take_append_of_le_length full]
        exact inductionHypothesis

/-- A node that is named again while there is room puts one of its items in the table for a second time. -/
theorem not_nodup_of_again {rest : List N} (again : node ∈ nodes) (present : w.items node ≠ [])
    (room : (nodes.flatMap w.items).length < w.capacity) :
    ¬ ((((nodes ++ node :: rest).flatMap w.items).take w.capacity).map w.key).Nodup := by
  obtain ⟨first, others, items⟩ := List.exists_cons_of_ne_nil present
  intro nodup
  rw [List.flatMap_append, List.flatMap_cons, items, List.take_append, List.take_of_length_le room.le, List.cons_append,
    List.take_cons (by omega), List.map_append, List.map_cons, List.nodup_append] at nodup
  have before : first ∈ nodes.flatMap w.items := List.mem_flatMap.mpr ⟨node, again, by rw [items]; exact List.mem_cons_self⟩
  exact nodup.2.2 _ (List.mem_map_of_mem before) _ List.mem_cons_self rfl

/-- When there is room for the items of all the named nodes, no further node is named. -/
theorem not_visits_more (filled : final = ((w.root :: final.filterMap w.link).flatMap w.items).take w.capacity)
    (room : ((w.root :: final.filterMap w.link).flatMap w.items).length ≤ w.capacity) :
    ¬ w.Visits ((w.root :: final.filterMap w.link) ++ [node]) := by
  intro visits
  rw [List.take_of_length_le room] at filled
  rcases visits.inversion with ⟨empty, _⟩ | ⟨_, named⟩
  · cases empty
  · rw [← filled, List.getElem?_eq_none (Nat.le_refl _)] at named
    cases named

/-- The table has no key twice exactly when nodes are fresh. -/
theorem nodup_iff_fresh (returned : w.expand fuel 0 (w.fill [] w.root) = some final) : (final.map w.key).Nodup ↔ w.Fresh := by
  obtain ⟨visits, filled⟩ := Expanded.start.result returned
  constructor
  · intro nodup nodes node visited again
    by_contra broken
    obtain ⟨present, room⟩ := not_or.mp broken
    rw [Nat.not_le] at room
    rcases Nat.lt_or_ge (w.root :: final.filterMap w.link).length (nodes ++ [node]).length with longer | shorter
    · have part := visits.prefix_of_le visited longer.le
      have before : w.root :: final.filterMap w.link <+: nodes :=
        (List.prefix_concat_iff.mp part).resolve_left fun whole => by
          rw [whole] at longer
          exact lt_irrefl _ longer
      have fewer := (before.flatMap w.items).length_le
      obtain ⟨rest, whole⟩ := part
      cases rest with
      | nil =>
          rw [← whole, List.append_nil] at longer
          exact lt_irrefl _ longer
      | cons last rest =>
          have further : w.Visits ((w.root :: final.filterMap w.link) ++ [last]) := by
            refine visited.of_prefix ?_ (Nat.succ_pos _)
            rw [← whole]
            exact ⟨rest, List.append_assoc _ [last] rest⟩
          exact not_visits_more filled (by omega) further
    · obtain ⟨rest, whole⟩ := visited.prefix_of_le visits shorter
      rw [filled, ← whole, List.append_assoc] at nodup
      exact not_nodup_of_again again present room nodup
  · intro fresh
    rw [filled]
    exact fresh.nodup visits

end Worklist

end DoccrOS.Lib
