import Mathlib.Data.List.Sort

/-!
# Binary search trees driven by a direction function

The caller descends from the root, deciding at every node to go left, to go right
or to stop, and links a new node at the empty position it reaches. Balancing
only rotates, so it keeps the in-order sequence.
-/

namespace Xvisor.Lib

open List Option

universe u

inductive SearchTree (α : Type u) where
  | leaf
  | node (left : SearchTree α) (value : α) (right : SearchTree α)

namespace SearchTree

variable {α : Type u}

def toList : SearchTree α → List α
  | leaf => []
  | node left value right => left.toList ++ value :: right.toList

/-- Descend from the root: `.lt` goes left, `.gt` goes right, `.eq` stops at the node. -/
def search (direction : α → Ordering) : SearchTree α → Option α
  | leaf => none
  | node left value right =>
    match direction value with
    | .lt => left.search direction
    | .gt => right.search direction
    | .eq => some value

/-- Link a new node at the empty position the descent reaches. The result is
`none` when some node on the way stops the descent. -/
def link (direction : α → Ordering) (new : α) : SearchTree α → Option (SearchTree α)
  | leaf => some (node leaf new leaf)
  | node left value right =>
    match direction value with
    | .lt => (left.link direction new).map fun left' => node left' value right
    | .gt => (right.link direction new).map fun right' => node left value right'
    | .eq => none

def leftmost : SearchTree α → Option α
  | leaf => none
  | node leaf value _ => some value
  | node left _ _ => left.leftmost

@[simp] theorem toList_leaf : (leaf : SearchTree α).toList = [] := rfl

@[simp] theorem toList_node (left right : SearchTree α) (value : α) :
    (node left value right).toList = left.toList ++ value :: right.toList := rfl

theorem leftmost_eq_head? (tree : SearchTree α) : tree.leftmost = tree.toList.head? := by
  induction tree with
  | leaf => rfl
  | node left value right leftHypothesis _ =>
    cases left with
    | leaf => rfl
    | node left' value' right' =>
      rw [leftmost, leftHypothesis, toList_node, List.head?_append, toList_node]
      · simp
      · exact nofun

def map (f : α → α) : SearchTree α → SearchTree α
  | leaf => leaf
  | node left value right => node (left.map f) (f value) (right.map f)

@[simp] theorem toList_map (f : α → α) (tree : SearchTree α) :
    (tree.map f).toList = tree.toList.map f := by
  induction tree with
  | leaf => rfl
  | node left value right leftHypothesis rightHypothesis =>
    simp [map, leftHypothesis, rightHypothesis]

/-- The direction agrees with the in-order sequence: whatever stands after a node
that sends the descent left also sends it left, and symmetrically. -/
def Directed (direction : α → Ordering) (values : List α) : Prop :=
  values.Pairwise fun a b =>
    (direction a = .lt → direction b = .lt) ∧ (direction b = .gt → direction a = .gt)

variable {direction : α → Ordering}

variable {tree tree' : SearchTree α}

theorem search_some {value : α} (found : tree.search direction = some value) :
    value ∈ tree.toList ∧ direction value = .eq := by
  induction tree with
  | leaf => simp [search] at found
  | node left root right leftHypothesis rightHypothesis =>
    simp only [search] at found
    split at found
    · have := leftHypothesis found
      simp [this]
    · have := rightHypothesis found
      simp [this]
    · simp only [some.injEq] at found
      subst found
      simp [*]

theorem search_none (directed : Directed direction tree.toList)
    (missed : tree.search direction = none) : ∀ value ∈ tree.toList, direction value ≠ .eq := by
  induction tree with
  | leaf => simp
  | node left root right leftHypothesis rightHypothesis =>
    simp only [toList_node, Directed, pairwise_append, pairwise_cons, mem_cons] at directed
    obtain ⟨leftDirected, ⟨afterRoot, rightDirected⟩, across⟩ := directed
    intro value mem stops
    simp only [toList_node, mem_append, mem_cons] at mem
    cases turned : direction root with
    | eq => simp [search, turned] at missed
    | lt =>
      simp only [search, turned] at missed
      rcases mem with inLeft | rfl | inRight
      · exact leftHypothesis leftDirected missed value inLeft stops
      · simp [turned] at stops
      · simp [(afterRoot value inRight).1 turned] at stops
    | gt =>
      simp only [search, turned] at missed
      rcases mem with inLeft | rfl | inRight
      · simp [(across value inLeft root (Or.inl rfl)).2 turned] at stops
      · simp [turned] at stops
      · exact rightHypothesis rightDirected missed value inRight stops

/-- The new node is inserted between the nodes that sent the descent right and
those that sent it left. -/
theorem link_some {new : α} (linked : tree.link direction new = some tree') :
    ∃ before after, tree.toList = before ++ after ∧ tree'.toList = before ++ new :: after ∧
      (Directed direction tree.toList →
        (∀ value ∈ before, direction value = .gt) ∧ ∀ value ∈ after, direction value = .lt) := by
  induction tree generalizing tree' with
  | leaf =>
    simp only [link, some.injEq] at linked
    subst linked
    exact ⟨[], [], by simp⟩
  | node left root right leftHypothesis rightHypothesis =>
    simp only [toList_node, Directed, pairwise_append, pairwise_cons, mem_cons]
    simp only [link] at linked
    split at linked
    · rename_i turned
      obtain ⟨left', linkedLeft, rfl⟩ := map_eq_some_iff.mp linked
      obtain ⟨before, after, same, grown, turns⟩ := leftHypothesis linkedLeft
      refine ⟨before, after ++ root :: right.toList, by simp [same], by simp [grown], ?_⟩
      rintro ⟨leftDirected, ⟨afterRoot, -⟩, -⟩
      refine ⟨(turns leftDirected).1, fun value mem => ?_⟩
      simp only [mem_append, mem_cons] at mem
      rcases mem with inAfter | rfl | inRight
      · exact (turns leftDirected).2 value inAfter
      · exact turned
      · exact (afterRoot value inRight).1 turned
    · rename_i turned
      obtain ⟨right', linkedRight, rfl⟩ := map_eq_some_iff.mp linked
      obtain ⟨before, after, same, grown, turns⟩ := rightHypothesis linkedRight
      refine ⟨left.toList ++ root :: before, after, by simp [same], by simp [grown], ?_⟩
      rintro ⟨-, ⟨-, rightDirected⟩, across⟩
      refine ⟨fun value mem => ?_, (turns rightDirected).2⟩
      simp only [mem_append, mem_cons] at mem
      rcases mem with inLeft | rfl | inBefore
      · exact (across value inLeft root (Or.inl rfl)).2 turned
      · exact turned
      · exact (turns rightDirected).1 value inBefore
    · cases linked

theorem link_perm {new : α}
    (linked : tree.link direction new = some tree') : tree'.toList.Perm (new :: tree.toList) := by
  obtain ⟨before, after, same, grown, -⟩ := link_some linked
  rw [same, grown]
  exact perm_middle

theorem search_eq_none (passes : ∀ value ∈ tree.toList, direction value ≠ .eq) :
    tree.search direction = none := by
  cases found : tree.search direction with
  | none => rfl
  | some value =>
    obtain ⟨mem, stops⟩ := search_some found
    exact absurd stops (passes value mem)

theorem search_eq_none_iff (directed : Directed direction tree.toList) :
    tree.search direction = none ↔ ∀ value ∈ tree.toList, direction value ≠ .eq :=
  ⟨search_none directed, search_eq_none⟩

theorem link_isSome_iff (tree : SearchTree α) (new : α) :
    (tree.link direction new).isSome ↔ tree.search direction = none := by
  induction tree with
  | leaf => simp [link, search]
  | node left root right leftHypothesis rightHypothesis =>
    cases turned : direction root with
    | eq => simp [link, search, turned]
    | lt => simp [link, search, turned, ← leftHypothesis]
    | gt => simp [link, search, turned, ← rightHypothesis]

theorem link_isSome (new : α) (passes : ∀ value ∈ tree.toList, direction value ≠ .eq) :
    ∃ tree', tree.link direction new = some tree' := by
  rw [← isSome_iff_exists, link_isSome_iff]
  exact search_eq_none passes

end SearchTree

/-- The balancing half of a red-black tree: recolouring after an insertion and
removal of a node. Both are rotations as far as the in-order sequence goes. -/
structure Rebalance (α : Type u) [DecidableEq α] where
  insertColor : SearchTree α → SearchTree α
  erase : SearchTree α → α → SearchTree α
  toList_insertColor : ∀ tree, (insertColor tree).toList = tree.toList
  toList_erase : ∀ tree value, (erase tree value).toList = tree.toList.erase value

attribute [simp] Rebalance.toList_insertColor Rebalance.toList_erase

namespace SearchTree

variable {α : Type u}

def ofList : List α → SearchTree α
  | [] => leaf
  | value :: rest => node leaf value (ofList rest)

@[simp] theorem toList_ofList (values : List α) : (ofList values).toList = values := by
  induction values with
  | nil => rfl
  | cons value rest ih => simp [ofList, ih]

end SearchTree

def Rebalance.plain (α : Type u) [DecidableEq α] : Rebalance α where
  insertColor := id
  erase tree value := .ofList (tree.toList.erase value)
  toList_insertColor _ := rfl
  toList_erase _ _ := SearchTree.toList_ofList _

end Xvisor.Lib
