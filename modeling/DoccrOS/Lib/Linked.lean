import Mathlib.Tactic

namespace DoccrOS.Lib

/-- A node of a doubly linked list; `none` is the null pointer. -/
structure Node (A V : Type) where
  prev : Option A
  next : Option A
  value : V

section
variable {A V : Type}

/-- The pointer to the first element, or to what follows an empty list. -/
def firstPtr (after : Option A) : List (A × V) → Option A
  | [] => after
  | (ptr, _) :: _ => some ptr

/-- The pointer to the last element, or to what precedes an empty list. -/
def lastPtr (before : Option A) : List (A × V) → Option A
  | [] => before
  | (ptr, _) :: rest => lastPtr (some ptr) rest

/-- The nodes of a list stand in memory with correct links, between the nodes `before` and `after`. -/
def Linked (mem : A → Option (Node A V)) (before : Option A) (list : List (A × V)) (after : Option A) : Prop :=
  match list with
  | [] => True
  | (ptr, value) :: rest =>
    mem ptr = some ⟨before, firstPtr after rest, value⟩ ∧ Linked mem (some ptr) rest after

/-- A walk along the links up to the first value that passes the test. It has no result if it uses a pointer that is not
valid or if the fuel runs out. -/
def seek (mem : A → Option (Node A V)) (test : V → Bool) : (fuel : Nat) → Option A → Option (Option A)
  | _, none => some none
  | 0, some _ => none
  | fuel + 1, some ptr =>
    match mem ptr with
    | none => none
    | some node => if test node.value then some (some ptr) else seek mem test fuel node.next

variable {mem mem' : A → Option (Node A V)} {before after : Option A} {left right list : List (A × V)} {ptr other : A}
  {value value' : V}

theorem linked_cons : Linked mem before ((ptr, value) :: list) after ↔
    mem ptr = some ⟨before, firstPtr after list, value⟩ ∧ Linked mem (some ptr) list after :=
  Iff.rfl

theorem firstPtr_cons : firstPtr after ((ptr, value) :: list) = some ptr := rfl

theorem firstPtr_append : firstPtr after (left ++ right) = firstPtr (firstPtr after right) left := by
  cases left with
  | nil => rfl
  | cons pair left => rfl

/-- The first node stays the first one when a node and the nodes behind it change. -/
theorem firstPtr_middle {right' : List (A × V)} :
    firstPtr none (left ++ (ptr, value) :: right) = firstPtr none (left ++ (ptr, value') :: right') := by
  rw [firstPtr_append, firstPtr_append]
  rfl

theorem lastPtr_append : lastPtr before (left ++ right) = lastPtr (lastPtr before left) right := by
  induction left generalizing before with
  | nil => rfl
  | cons pair left ih => exact ih

theorem firstPtr_mem (first : firstPtr none list = some ptr) : ptr ∈ list.map Prod.fst := by
  cases list with
  | nil => cases first
  | cons pair list =>
      injection first with same
      rw [← same]
      exact List.mem_cons_self

/-- Two segments stand next to each other. -/
theorem linked_append : Linked mem before (left ++ right) after ↔
    Linked mem before left (firstPtr after right) ∧ Linked mem (lastPtr before left) right after := by
  induction left generalizing before with
  | nil => exact ⟨fun linked => ⟨trivial, linked⟩, fun both => both.2⟩
  | cons pair left ih =>
      obtain ⟨ptr, value⟩ := pair
      rw [List.cons_append, linked_cons, linked_cons, ih, firstPtr_append, and_assoc]
      rfl

/-- A segment depends on its own nodes only. -/
theorem Linked.congr (linked : Linked mem before list after) (same : ∀ ptr ∈ list.map Prod.fst, mem' ptr = mem ptr) :
    Linked mem' before list after := by
  induction list generalizing before with
  | nil => trivial
  | cons pair list ih =>
      obtain ⟨ptr, value⟩ := pair
      rw [linked_cons] at linked ⊢
      refine ⟨?_, ih linked.2 fun other member => same other (List.mem_cons_of_mem _ member)⟩
      rw [same ptr List.mem_cons_self]
      exact linked.1

/-- The node of an element. -/
theorem Linked.node (linked : Linked mem before (left ++ (ptr, value) :: right) after) :
    mem ptr = some ⟨lastPtr before left, firstPtr after right, value⟩ :=
  (linked_append.mp linked).2.1

/-- The first node of a segment gets a new predecessor. -/
theorem Linked.setPrev {before' : Option A} (linked : Linked mem before list none) (nodup : (list.map Prod.fst).Nodup)
    (first : ∀ ptr node, firstPtr none list = some ptr → mem ptr = some node → mem' ptr = some { node with prev := before' })
    (others : ∀ ptr ∈ list.map Prod.fst, firstPtr none list ≠ some ptr → mem' ptr = mem ptr) :
    Linked mem' before' list none := by
  cases list with
  | nil => trivial
  | cons pair list =>
      obtain ⟨ptr, value⟩ := pair
      rw [linked_cons] at linked ⊢
      refine ⟨first ptr _ rfl linked.1, linked.2.congr ?_⟩
      intro other member
      refine others other (List.mem_cons_of_mem _ member) ?_
      intro same
      injection same with same
      rw [← same] at member
      exact (List.nodup_cons.mp nodup).1 member

theorem lastPtr_mem (last : lastPtr none list = some ptr) : ptr ∈ list.map Prod.fst := by
  cases list using List.reverseRecOn with
  | nil => cases last
  | append_singleton list pair =>
      rw [lastPtr_append] at last
      injection last with same
      rw [List.map_append, ← same]
      exact List.mem_append_right _ List.mem_cons_self

/-- The last node of a segment gets a new successor. -/
theorem Linked.setNext {after' : Option A} (linked : Linked mem none list after) (nodup : (list.map Prod.fst).Nodup)
    (last : ∀ ptr node, lastPtr none list = some ptr → mem ptr = some node → mem' ptr = some { node with next := after' })
    (others : ∀ ptr ∈ list.map Prod.fst, lastPtr none list ≠ some ptr → mem' ptr = mem ptr) :
    Linked mem' none list after' := by
  cases list using List.reverseRecOn with
  | nil => trivial
  | append_singleton list pair =>
      obtain ⟨ptr, value⟩ := pair
      have isLast : lastPtr none (list ++ [(ptr, value)]) = some ptr := lastPtr_append
      obtain ⟨linkedList, here, -⟩ := linked_append.mp linked
      refine linked_append.mpr ⟨linkedList.congr ?_, last ptr _ isLast here, trivial⟩
      intro other member
      refine others other ?_ ?_
      · rw [List.map_append]
        exact List.mem_append_left _ member
      · intro same
        rw [isLast] at same
        injection same with same
        rw [List.map_append] at nodup
        exact (List.nodup_append'.mp nodup).2.2 (same ▸ member) List.mem_cons_self

/-- The nodes outside a middle part keep their places. -/
theorem nodup_middle (left middle right : List (A × V)) (nodup : ((left ++ middle ++ right).map Prod.fst).Nodup) :
    (∀ ptr ∈ left.map Prod.fst, ptr ∉ middle.map Prod.fst ∧ ptr ∉ right.map Prod.fst) ∧
      (∀ ptr ∈ right.map Prod.fst, ptr ∉ middle.map Prod.fst) ∧ (right.map Prod.fst).Nodup := by
  rw [List.map_append, List.map_append, List.nodup_append', List.nodup_append'] at nodup
  obtain ⟨⟨_, _, apart⟩, nodupRight, apart'⟩ := nodup
  refine ⟨?_, ?_, nodupRight⟩
  · intro ptr member
    exact ⟨fun inMiddle => apart member inMiddle, fun inRight => apart' (List.mem_append_left _ member) inRight⟩
  · intro ptr member inMiddle
    exact apart' (List.mem_append_right _ inMiddle) member

/-- The value of one node changes. -/
theorem Linked.setValue (linked : Linked mem none (left ++ (ptr, value) :: right) none)
    (here : mem' ptr = some ⟨lastPtr none left, firstPtr none right, value'⟩)
    (others : ∀ other ∈ (left ++ right).map Prod.fst, mem' other = mem other) :
    Linked mem' none (left ++ (ptr, value') :: right) none := by
  rw [List.map_append] at others
  obtain ⟨linkedLeft, _, linkedRight⟩ := linked_append.mp linked
  exact linked_append.mpr ⟨linkedLeft.congr fun other member => others other (List.mem_append_left _ member), here,
    linkedRight.congr fun other member => others other (List.mem_append_right _ member)⟩

/-- A new node is linked in behind a node. -/
theorem Linked.insert {new : A} {newValue : V} (linked : Linked mem none (left ++ (ptr, value) :: right) none)
    (nodup : ((left ++ (ptr, value) :: right).map Prod.fst).Nodup)
    (here : mem' ptr = some ⟨lastPtr none left, some new, value'⟩)
    (added : mem' new = some ⟨some ptr, firstPtr none right, newValue⟩)
    (first : ∀ other node, firstPtr none right = some other → mem other = some node →
      mem' other = some { node with prev := some new })
    (others : ∀ other ∈ (left ++ right).map Prod.fst, firstPtr none right ≠ some other → mem' other = mem other) :
    Linked mem' none (left ++ (ptr, value') :: (new, newValue) :: right) none := by
  have apart := nodup_middle left [(ptr, value)] right (by simpa using nodup)
  rw [List.map_append] at others
  obtain ⟨linkedLeft, _, linkedRight⟩ := linked_append.mp linked
  refine linked_append.mpr ⟨linkedLeft.congr ?_, here, added, linkedRight.setPrev apart.2.2 first ?_⟩
  · intro other member
    refine others other (List.mem_append_left _ member) ?_
    intro atFirst
    exact (apart.1 other member).2 (firstPtr_mem atFirst)
  · intro other member notFirst
    exact others other (List.mem_append_right _ member) notFirst

/-- The node behind a node is taken out. -/
theorem Linked.remove {next : A} {nextValue : V}
    (linked : Linked mem none (left ++ (ptr, value) :: (next, nextValue) :: right) none)
    (nodup : ((left ++ (ptr, value) :: (next, nextValue) :: right).map Prod.fst).Nodup)
    (here : mem' ptr = some ⟨lastPtr none left, firstPtr none right, value'⟩)
    (first : ∀ other node, firstPtr none right = some other → mem other = some node →
      mem' other = some { node with prev := some ptr })
    (others : ∀ other ∈ (left ++ right).map Prod.fst, firstPtr none right ≠ some other → mem' other = mem other) :
    Linked mem' none (left ++ (ptr, value') :: right) none := by
  have apart := nodup_middle left [(ptr, value), (next, nextValue)] right (by simpa using nodup)
  rw [List.map_append] at others
  obtain ⟨linkedLeft, _, _, linkedRight⟩ := linked_append.mp linked
  refine linked_append.mpr ⟨linkedLeft.congr ?_, here, linkedRight.setPrev apart.2.2 first ?_⟩
  · intro other member
    refine others other (List.mem_append_left _ member) ?_
    intro atFirst
    exact (apart.1 other member).2 (firstPtr_mem atFirst)
  · intro other member notFirst
    exact others other (List.mem_append_right _ member) notFirst

/-- The stores that make the neighbours of a place point to `next` and to `prev`. -/
structure Relinked (mem mem' : A → Option (Node A V)) (left right : List (A × V)) (next prev : Option A) : Prop where
  last : ∀ other node, lastPtr none left = some other → mem other = some node → mem' other = some { node with next := next }
  first : ∀ other node, firstPtr none right = some other → mem other = some node → mem' other = some { node with prev := prev }
  others : ∀ other ∈ (left ++ right).map Prod.fst, lastPtr none left ≠ some other → firstPtr none right ≠ some other →
    mem' other = mem other

/-- Both sides of a place stay linked when their ends are relinked. -/
theorem Relinked.sides {next prev : Option A} (relinked : Relinked mem mem' left right next prev)
    (linkedLeft : Linked mem none left before) (linkedRight : Linked mem after right none)
    (nodup : ((left ++ right).map Prod.fst).Nodup) : Linked mem' none left next ∧ Linked mem' prev right none := by
  rw [List.map_append] at nodup
  obtain ⟨nodupLeft, nodupRight, apart⟩ := List.nodup_append'.mp nodup
  have others := relinked.others
  rw [List.map_append] at others
  constructor
  · refine linkedLeft.setNext nodupLeft relinked.last fun other member notLast => ?_
    exact others other (List.mem_append_left _ member) notLast fun first => apart member (firstPtr_mem first)
  · refine linkedRight.setPrev nodupRight relinked.first fun other member notFirst => ?_
    exact others other (List.mem_append_right _ member) (fun last => apart (lastPtr_mem last) member) notFirst

/-- A new node is linked in between two segments. -/
theorem Linked.link {new : A} (linked : Linked mem none (left ++ right) none) (nodup : ((left ++ right).map Prod.fst).Nodup)
    (added : mem' new = some ⟨lastPtr none left, firstPtr none right, value⟩)
    (relinked : Relinked mem mem' left right (some new) (some new)) :
    Linked mem' none (left ++ (new, value) :: right) none := by
  obtain ⟨linkedLeft, linkedRight⟩ := linked_append.mp linked
  obtain ⟨atLeft, atRight⟩ := relinked.sides linkedLeft linkedRight nodup
  exact linked_append.mpr ⟨atLeft, added, atRight⟩

/-- A node is taken out between two segments. -/
theorem Linked.unlink (linked : Linked mem none (left ++ (ptr, value) :: right) none)
    (nodup : ((left ++ right).map Prod.fst).Nodup)
    (relinked : Relinked mem mem' left right (firstPtr none right) (lastPtr none left)) :
    Linked mem' none (left ++ right) none := by
  obtain ⟨linkedLeft, -, linkedRight⟩ := linked_append.mp linked
  exact linked_append.mpr (relinked.sides linkedLeft linkedRight nodup)

/-- In a list, `prev` is the inverse of `next`. -/
theorem Linked.inverse (linked : Linked mem none list none) (member : ptr ∈ list.map Prod.fst)
    (member' : other ∈ list.map Prod.fst) :
    (mem ptr).bind Node.next = some other ↔ (mem other).bind Node.prev = some ptr := by
  obtain ⟨⟨ptr, value⟩, inList, rfl⟩ := List.mem_map.mp member
  obtain ⟨⟨other, value'⟩, inList', rfl⟩ := List.mem_map.mp member'
  constructor
  · intro follows
    obtain ⟨left, right, split⟩ := List.append_of_mem inList
    subst split
    rw [linked.node, Option.bind_some] at follows
    cases right with
    | nil => cases follows
    | cons pair right =>
        obtain ⟨next, nextValue⟩ := pair
        have linked' : Linked mem none ((left ++ [(ptr, value)]) ++ (next, nextValue) :: right) none := by simpa using linked
        injection follows with same
        have here := linked'.node
        rw [lastPtr_append, same] at here
        rw [here]
        rfl
  · intro precedes
    obtain ⟨left, right, split⟩ := List.append_of_mem inList'
    subst split
    rw [linked.node, Option.bind_some] at precedes
    cases left using List.reverseRecOn with
    | nil => cases precedes
    | append_singleton left pair =>
        obtain ⟨prev, prevValue⟩ := pair
        have linked' : Linked mem none (left ++ (prev, prevValue) :: (other, value') :: right) none := by simpa using linked
        rw [lastPtr_append] at precedes
        injection precedes with same
        have here := linked'.node
        rw [same] at here
        rw [here]
        rfl

/-- A walk with enough fuel finds the first element that passes the test. -/
theorem Linked.seek (test : V → Bool) {fuel : Nat} (linked : Linked mem before list none) (enough : list.length ≤ fuel) :
    seek mem test fuel (firstPtr none list) = some ((list.find? fun pair => test pair.2).map Prod.fst) := by
  induction list generalizing before fuel with
  | nil => cases fuel <;> rfl
  | cons pair list ih =>
      obtain ⟨ptr, value⟩ := pair
      cases fuel with
      | zero => exact absurd enough (Nat.not_succ_le_zero _)
      | succ fuel =>
          rw [linked_cons] at linked
          rw [firstPtr, Lib.seek, linked.1]
          cases passes : test value with
          | true => simp [passes]
          | false =>
              simp only [passes, Bool.false_eq_true, if_false]
              rw [ih linked.2 (Nat.le_of_succ_le_succ enough), List.find?_cons_of_neg (by simp [passes])]

end

end DoccrOS.Lib
