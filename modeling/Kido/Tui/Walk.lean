import Kido.Layout.Shares
import Kido.Tui.Geometry

set_option autoImplicit false

namespace Kido.Tui

open Kido.Tiling

-- A cell by its coordinates on both axes.
abbrev Place := Axis → Nat

namespace Rect

def start (rect : Rect) (axis : Axis) : Nat := pick axis rect.x rect.y

def len (rect : Rect) (axis : Axis) : Nat := pick axis rect.cols rect.rows

def Holds (rect : Rect) (place : Place) : Prop := ∀ axis, rect.start axis ≤ place axis ∧ place axis < rect.start axis + rect.len axis

theorem holds_iff {rect : Rect} {place : Place} : rect.Holds place ↔ rect.contains (place .horizontal) (place .vertical) = true := by
  rw [contains, decide_eq_true_eq]
  constructor
  · intro holds
    have across := holds .horizontal
    have along := holds .vertical
    simp only [start, len, pick] at across along
    omega
  · rintro inside (_ | _)
    · simp only [start, len, pick]
      omega
    · simp only [start, len, pick]
      omega

instance (rect : Rect) (place : Place) : Decidable (rect.Holds place) := decidable_of_iff _ holds_iff.symm

end Rect

-- The tree fills the same cells with all its parts, on both axes.
def Tiled (tree : Node Leaf) : Prop := ∀ axis, Spans axis tree (tiledSize axis tree)

theorem Tiled.of_spans {tree : Node Leaf} {size : Axis → Nat} (spans : ∀ axis, Spans axis tree (size axis)) :
    Tiled tree ∧ ∀ axis, tiledSize axis tree = size axis :=
  ⟨fun axis => (spans axis).tiled.symm ▸ spans axis, fun axis => (spans axis).tiled⟩

section Children

variable {split : Axis} {children : List (Node Leaf)} (tiled : Tiled (.split split children))

include tiled

theorem Tiled.several : 2 ≤ children.length := (Spans.along_iff.mp (tiled split)).1

theorem Tiled.child {child : Node Leaf} (inside : child ∈ children) : Tiled child := by
  intro axis
  by_cases same : split = axis
  · subst same
    exact (Spans.along_iff.mp (tiled split)).2.1 child inside
  · have spans := ((Spans.across_iff same).mp (tiled axis)).2 child inside
    exact spans.tiled.symm ▸ spans

theorem Tiled.total : tiledSize split (.split split children) = (children.map (tiledSize split)).sum + (children.length - 1) :=
  (Spans.along_iff.mp (tiled split)).2.2.symm

theorem Tiled.same {axis : Axis} (other : axis ≠ split) {child : Node Leaf} (inside : child ∈ children) :
    tiledSize axis child = tiledSize axis (.split split children) :=
  (((Spans.across_iff (Ne.symm other)).mp (tiled axis)).2 child inside).tiled

end Children

theorem Tiled.positive {tree : Node Leaf} (tiled : Tiled tree) (axis : Axis) : 1 ≤ tiledSize axis tree := (tiled axis).positive

theorem pick_shift (axis split : Axis) (x y offset : Nat) :
    pick axis (x + pick split offset 0) (y + pick split 0 offset) = pick axis x y + if axis = split then offset else 0 := by
  cases axis <;> cases split <;> rfl

-- The walk over a tree behind an offset on an axis.
def walkAt (split : Axis) (x y offset : Nat) (tree : Node Leaf) : Walked :=
  walk tree (x + pick split offset 0) (y + pick split 0 offset)

-- The line behind a child.
def lineRect (split : Axis) (x y : Nat) (tree : Node Leaf) (offset : Nat) : Rect :=
  ⟨x + pick split offset 0, y + pick split 0 offset, pick split 1 (tiledSize .horizontal tree), pick split (tiledSize .vertical tree) 1⟩

-- The first pane of a tree.
def firstPane (tree : Node Leaf) : PaneId := tree.panes.head?.getD ⟨0⟩

-- The children behind an offset, and the line that is pending.
def strip (split : Axis) (x y : Nat) (tree : Node Leaf) : Nat → Option Pending → List (Node Leaf) → Walked
  | _, _, [] => ⟨[], []⟩
  | offset, previous, child :: rest =>
    ((walkAt split x y offset child).append ⟨[], (previous.map (lineOf split (firstPane child))).toList⟩).append
      (strip split x y tree (offset + tiledSize split child + 1)
        (some ⟨firstPane child, pick split x y + offset, lineRect split x y tree (offset + tiledSize split child)⟩) rest)

@[simp]
theorem walk_leaf (leaf : Leaf) (x y : Nat) : walk (.leaf leaf) x y = ⟨[⟨leaf.pane, ⟨x, y, leaf.cols.get, leaf.rows.get⟩, none⟩], []⟩ := by
  simp [walk]

theorem walk_split (split : Axis) (children : List (Node Leaf)) (x y : Nat) :
    walk (.split split children) x y =
      walkChildren split (((Node.split split children).known .horizontal).getD 0) (((Node.split split children).known .vertical).getD 0) x y
        (children.map fun child => (child, walk child)) 0 none := by
  rw [walk, Node.para_split]
  simp only [List.map_map, Function.comp_def, List.map_id']

theorem Tiled.panes_ne {tree : Node Leaf} (tiled : Tiled tree) : tree.panes ≠ [] := by
  obtain ⟨leaf, found⟩ := (tiled .horizontal).firstLeaf_some
  have member := firstLeaf_mem tree leaf found
  exact List.ne_nil_of_mem (List.mem_map_of_mem member)

theorem firstPane_mem {tree : Node Leaf} (tiled : Tiled tree) : firstPane tree ∈ tree.panes := by
  obtain ⟨first, rest, is⟩ := List.exists_cons_of_ne_nil tiled.panes_ne
  rw [firstPane, is]
  exact List.mem_cons_self

section Split

variable {split : Axis} {children : List (Node Leaf)} (tiled : Tiled (.split split children)) (x y : Nat)

-- The first pane that the walk over a child pushes.
theorem head_walk {child : Node Leaf} (own : Tiled child) (panes : ∀ x y, (walk child x y).panes.map Pane.pane = child.panes) (x y : Nat) :
    ∃ pane, (walk child x y).panes.head? = some pane ∧ pane.pane = firstPane child := by
  have heads := congrArg List.head? (panes x y)
  rw [List.head?_map] at heads
  obtain ⟨first, rest, is⟩ := List.exists_cons_of_ne_nil own.panes_ne
  rw [is, List.head?_cons, Option.map_eq_some_iff] at heads
  obtain ⟨pane, head, same⟩ := heads
  exact ⟨pane, head, by rw [same, firstPane, is]; rfl⟩

theorem walkChildren_strip (tree : Node Leaf) (own : ∀ child ∈ children, Tiled child)
    (panes : ∀ child ∈ children, ∀ x y, (walk child x y).panes.map Pane.pane = child.panes) (offset : Nat) (previous : Option Pending) :
    walkChildren split (tiledSize .horizontal tree) (tiledSize .vertical tree) x y (children.map fun child => (child, walk child)) offset previous =
      strip split x y tree offset previous children := by
  induction children generalizing offset previous with
  | nil => rfl
  | cons child rest ih =>
    obtain ⟨pane, head, same⟩ := head_walk (own child List.mem_cons_self) (panes child List.mem_cons_self)
      (x + pick split offset 0) (y + pick split 0 offset)
    have known := (own child List.mem_cons_self split).known
    rw [List.map_cons, walkChildren, strip, walkAt]
    simp only [head, known, Option.getD_some, same]
    by_cases last : rest = []
    · subst last
      simp [strip, Walked.append]
    · have more : rest.map (fun child => (child, walk child)) ≠ [] := by simpa using last
      rw [if_neg more, ih (fun child inside => own child (List.mem_cons_of_mem _ inside))
        (fun child inside => panes child (List.mem_cons_of_mem _ inside))]
      rfl

end Split

theorem strip_panes (split : Axis) (x y : Nat) (tree : Node Leaf) (offset : Nat) (previous : Option Pending) (children : List (Node Leaf))
    (panes : ∀ child ∈ children, ∀ x y, (walk child x y).panes.map Pane.pane = child.panes) :
    (strip split x y tree offset previous children).panes.map Pane.pane = children.flatMap Node.panes := by
  induction children generalizing offset previous with
  | nil => rfl
  | cons child rest ih =>
    have own := panes child List.mem_cons_self
    simp only [strip, Walked.append, List.append_nil, List.map_append, List.flatMap_cons, walkAt, own]
    rw [ih _ _ fun child inside => panes child (List.mem_cons_of_mem _ inside)]

-- A walk pushes the panes of the tree in their order.
theorem walk_panes {tree : Node Leaf} (tiled : Tiled tree) (x y : Nat) : (walk tree x y).panes.map Pane.pane = tree.panes := by
  induction tree generalizing x y with
  | leaf leaf => simp
  | split split children ih =>
    have known (axis : Axis) := (tiled axis).known
    have panes : ∀ child ∈ children, ∀ x y, (walk child x y).panes.map Pane.pane = child.panes :=
      fun child inside x y => ih child inside (tiled.child inside) x y
    rw [walk_split, known, known, Option.getD_some, Option.getD_some,
      walkChildren_strip x y (.split split children) (fun child inside => tiled.child inside) panes, strip_panes _ _ _ _ _ _ _ panes,
      Node.panes_split]

theorem walk_strip {split : Axis} {children : List (Node Leaf)} (tiled : Tiled (.split split children)) (x y : Nat) :
    walk (.split split children) x y = strip split x y (.split split children) 0 none children := by
  have known (axis : Axis) := (tiled axis).known
  rw [walk_split, known, known, Option.getD_some, Option.getD_some]
  exact walkChildren_strip x y _ (fun child inside => tiled.child inside)
    (fun child inside x y => walk_panes (tiled.child inside) x y) 0 none

-- How far behind the start of a split a child is.
def offsetOf (split : Axis) (front : List (Node Leaf)) : Nat := (front.map fun child => tiledSize split child + 1).sum

-- The line between two children.
def between (split : Axis) (x y : Nat) (tree : Node Leaf) (offset : Nat) (first second : Node Leaf) : Grip × Rect :=
  (⟨firstPane first, firstPane second, split, pick split x y + offset⟩, lineRect split x y tree (offset + tiledSize split first))

section Members

variable {split : Axis} {x y : Nat} {tree : Node Leaf}

theorem strip_pane {offset : Nat} {previous : Option Pending} {children : List (Node Leaf)} {pane : Pane} :
    pane ∈ (strip split x y tree offset previous children).panes ↔
      ∃ front child back, children = front ++ child :: back ∧ pane ∈ (walkAt split x y (offset + offsetOf split front) child).panes := by
  induction children generalizing offset previous with
  | nil => simp [strip]
  | cons child rest ih =>
    simp only [strip, Walked.append, List.append_nil, List.mem_append, ih]
    constructor
    · rintro (here | ⟨front, other, back, rfl, there⟩)
      · exact ⟨[], child, rest, rfl, by simpa [offsetOf] using here⟩
      · refine ⟨child :: front, other, back, rfl, ?_⟩
        simpa [offsetOf, Nat.add_assoc, Nat.add_comm, Nat.add_left_comm] using there
    · rintro ⟨front, other, back, is, there⟩
      cases front with
      | nil =>
        obtain ⟨rfl, rfl⟩ := List.cons.inj is
        exact Or.inl (by simpa [offsetOf] using there)
      | cons first front =>
        obtain ⟨rfl, rfl⟩ := List.cons.inj is
        refine Or.inr ⟨front, other, back, rfl, ?_⟩
        simpa [offsetOf, Nat.add_assoc, Nat.add_comm, Nat.add_left_comm] using there

theorem strip_line {offset : Nat} {previous : Option Pending} {children : List (Node Leaf)} {line : Grip × Rect} :
    line ∈ (strip split x y tree offset previous children).lines ↔
      (∃ front child back, children = front ++ child :: back ∧ line ∈ (walkAt split x y (offset + offsetOf split front) child).lines) ∨
        (∃ pending child rest, previous = some pending ∧ children = child :: rest ∧ line = lineOf split (firstPane child) pending) ∨
        ∃ front first second back, children = front ++ first :: second :: back ∧
          line = between split x y tree (offset + offsetOf split front) first second := by
  induction children generalizing offset previous with
  | nil => simp [strip]
  | cons child rest ih =>
    simp only [strip, Walked.append, List.mem_append, ih]
    constructor
    · rintro ((here | pending) | ⟨front, other, back, rfl, there⟩ | ⟨pending, other, later, is, rfl, rfl⟩ | ⟨front, first, second, back, rfl, rfl⟩)
      · exact Or.inl ⟨[], child, rest, rfl, by simpa [offsetOf] using here⟩
      · rw [Option.mem_toList, Option.map_eq_some_iff] at pending
        obtain ⟨pending, rfl, rfl⟩ := pending
        exact Or.inr (Or.inl ⟨pending, child, rest, rfl, rfl, rfl⟩)
      · refine Or.inl ⟨child :: front, other, back, rfl, ?_⟩
        simpa [offsetOf, Nat.add_assoc, Nat.add_comm, Nat.add_left_comm] using there
      · obtain rfl := Option.some.inj is
        exact Or.inr (Or.inr ⟨[], child, other, later, rfl, by simp [offsetOf, between, lineOf]⟩)
      · refine Or.inr (Or.inr ⟨child :: front, first, second, back, rfl, ?_⟩)
        simp [offsetOf, Nat.add_assoc, Nat.add_comm, Nat.add_left_comm]
    · rintro (⟨front, other, back, is, there⟩ | ⟨pending, other, later, rfl, is, rfl⟩ | ⟨front, first, second, back, is, rfl⟩)
      · cases front with
        | nil =>
          obtain ⟨rfl, rfl⟩ := List.cons.inj is
          exact Or.inl (Or.inl (by simpa [offsetOf] using there))
        | cons first front =>
          obtain ⟨rfl, rfl⟩ := List.cons.inj is
          refine Or.inr (Or.inl ⟨front, other, back, rfl, ?_⟩)
          simpa [offsetOf, Nat.add_assoc, Nat.add_comm, Nat.add_left_comm] using there
      · obtain ⟨rfl, rfl⟩ := List.cons.inj is
        exact Or.inl (Or.inr (by simp))
      · cases front with
        | nil =>
          obtain ⟨rfl, rfl⟩ := List.cons.inj is
          exact Or.inr (Or.inr (Or.inl ⟨_, second, back, rfl, rfl, by simp [offsetOf, between, lineOf]⟩))
        | cons head front =>
          obtain ⟨rfl, rfl⟩ := List.cons.inj is
          refine Or.inr (Or.inr (Or.inr ⟨front, first, second, back, rfl, ?_⟩))
          simp [offsetOf, Nat.add_assoc, Nat.add_comm, Nat.add_left_comm]

variable {children : List (Node Leaf)} (tiled : Tiled (.split split children))

include tiled

theorem walk_pane {pane : Pane} : pane ∈ (walk (.split split children) x y).panes ↔
    ∃ front child back, children = front ++ child :: back ∧ pane ∈ (walkAt split x y (offsetOf split front) child).panes := by
  rw [walk_strip tiled, strip_pane]
  simp only [Nat.zero_add]

theorem walk_line {line : Grip × Rect} : line ∈ (walk (.split split children) x y).lines ↔
    (∃ front child back, children = front ++ child :: back ∧ line ∈ (walkAt split x y (offsetOf split front) child).lines) ∨
      ∃ front first second back, children = front ++ first :: second :: back ∧
        line = between split x y (.split split children) (offsetOf split front) first second := by
  rw [walk_strip tiled, strip_line]
  simp

end Members

section Cover

-- The place is among the cells that the tree fills.
def In (tree : Node Leaf) (x y : Nat) (place : Place) : Prop :=
  ∀ axis, pick axis x y ≤ place axis ∧ place axis < pick axis x y + tiledSize axis tree

instance (tree : Node Leaf) (x y : Nat) (place : Place) : Decidable (In tree x y place) :=
  decidable_of_iff ((pick .horizontal x y ≤ place .horizontal ∧ place .horizontal < pick .horizontal x y + tiledSize .horizontal tree) ∧
    pick .vertical x y ≤ place .vertical ∧ place .vertical < pick .vertical x y + tiledSize .vertical tree)
    ⟨fun inside axis => by cases axis; exacts [inside.1, inside.2], fun inside => ⟨inside .horizontal, inside .vertical⟩⟩

-- How often a place is covered.
def covered (walked : Walked) (place : Place) : Nat :=
  walked.panes.countP (fun pane => decide (pane.rect.Holds place)) + walked.lines.countP fun line => decide (line.2.Holds place)

theorem covered_append (first second : Walked) (place : Place) :
    covered (first.append second) place = covered first place + covered second place := by
  simp only [covered, Walked.append, List.countP_append]
  omega

-- The place is within the other axis of a split.
def Beside_ (split : Axis) (tree : Node Leaf) (x y : Nat) (place : Place) : Prop :=
  ∀ axis, axis ≠ split → pick axis x y ≤ place axis ∧ place axis < pick axis x y + tiledSize axis tree

instance (split : Axis) (tree : Node Leaf) (x y : Nat) (place : Place) : Decidable (Beside_ split tree x y place) :=
  decidable_of_iff ((.horizontal ≠ split → pick .horizontal x y ≤ place .horizontal ∧
      place .horizontal < pick .horizontal x y + tiledSize .horizontal tree) ∧
    (.vertical ≠ split → pick .vertical x y ≤ place .vertical ∧ place .vertical < pick .vertical x y + tiledSize .vertical tree))
    ⟨fun inside axis => by cases axis; exacts [inside.1, inside.2], fun inside => ⟨inside .horizontal, inside .vertical⟩⟩

theorem holds_line {split : Axis} {x y : Nat} {tree : Node Leaf} {offset : Nat} {place : Place} :
    (lineRect split x y tree offset).Holds place ↔ Beside_ split tree x y place ∧ place split = pick split x y + offset := by
  cases split with
  | horizontal =>
    constructor
    · intro holds
      have along := holds .horizontal
      have across := holds .vertical
      simp only [lineRect, Rect.start, Rect.len, pick] at along across ⊢
      refine ⟨?_, by omega⟩
      rintro (_ | _) other
      · exact absurd rfl other
      · exact across
    · rintro ⟨beside, at_⟩ (_ | _)
      · simp only [lineRect, Rect.start, Rect.len, pick] at at_ ⊢
        omega
      · exact beside .vertical (by decide)
  | vertical =>
    constructor
    · intro holds
      have along := holds .vertical
      have across := holds .horizontal
      simp only [lineRect, Rect.start, Rect.len, pick] at along across ⊢
      refine ⟨?_, by omega⟩
      rintro (_ | _) other
      · exact across
      · exact absurd rfl other
    · rintro ⟨beside, at_⟩ (_ | _)
      · exact beside .horizontal (by decide)
      · simp only [lineRect, Rect.start, Rect.len, pick] at at_ ⊢
        omega

theorem in_child {split : Axis} {x y : Nat} {tree child : Node Leaf} (same : ∀ axis, axis ≠ split → tiledSize axis child = tiledSize axis tree)
    {offset : Nat} {place : Place} :
    In child (x + pick split offset 0) (y + pick split 0 offset) place ↔
      Beside_ split tree x y place ∧ pick split x y + offset ≤ place split ∧
        place split < pick split x y + offset + tiledSize split child := by
  simp only [In, pick_shift]
  constructor
  · intro inside
    refine ⟨fun axis other => ?_, ?_⟩
    · have here := inside axis
      rwa [if_neg other, Nat.add_zero, same axis other] at here
    · have here := inside split
      rwa [if_pos rfl] at here
  · rintro ⟨beside, along⟩ axis
    by_cases is : axis = split
    · subst is
      rwa [if_pos rfl]
    · rw [if_neg is, Nat.add_zero, same axis is]
      exact beside axis is

-- Each place behind an offset is covered once, by a child or by a line.
theorem strip_covers {split : Axis} {x y : Nat} {tree : Node Leaf} {place : Place} (offset : Nat) (previous : Option Pending)
    (children : List (Node Leaf)) (nonempty : children ≠ [])
    (same : ∀ child ∈ children, ∀ axis, axis ≠ split → tiledSize axis child = tiledSize axis tree)
    (covers : ∀ child ∈ children, ∀ x y, covered (walk child x y) place = if In child x y place then 1 else 0) :
    covered (strip split x y tree offset previous children) place =
      (if (pick split x y + offset ≤ place split ∧
          place split < pick split x y + offset + ((children.map (tiledSize split)).sum + (children.length - 1))) ∧
        Beside_ split tree x y place then 1 else 0) +
      (previous.map Pending.rect).toList.countP fun rect => decide (rect.Holds place) := by
  induction children generalizing offset previous with
  | nil => exact absurd rfl nonempty
  | cons child rest ih =>
    have own := covers child List.mem_cons_self (x + pick split offset 0) (y + pick split 0 offset)
    simp only [in_child (same child List.mem_cons_self)] at own
    have pending : covered ⟨[], (previous.map (lineOf split (firstPane child))).toList⟩ place =
        (previous.map Pending.rect).toList.countP fun rect => decide (rect.Holds place) := by
      cases previous <;> simp [covered, lineOf, List.countP_cons]
    rw [strip, covered_append, covered_append, pending, walkAt, own]
    by_cases last : rest = []
    · subst last
      simp only [strip, covered, List.countP_nil, List.map_cons, List.map_nil, List.sum_cons, List.sum_nil, List.length_cons, List.length_nil]
      by_cases beside : Beside_ split tree x y place
      · simp only [beside, true_and, and_true]
        split_ifs <;> omega
      · simp only [beside, false_and, and_false, if_false]
        omega
    · rw [ih _ _ last (fun child inside => same child (List.mem_cons_of_mem _ inside))
        (fun child inside => covers child (List.mem_cons_of_mem _ inside))]
      have more := List.length_pos_iff.mpr last
      simp only [Option.map_some, Option.toList_some, List.countP_singleton, holds_line, decide_eq_true_eq, List.map_cons, List.sum_cons,
        List.length_cons]
      by_cases beside : Beside_ split tree x y place
      · simp only [beside, true_and, and_true]
        split_ifs <;> omega
      · simp only [beside, false_and, and_false, if_false]
        omega

-- Each cell of a tree is covered once, by a pane or by a line, and no other cell is.
theorem walk_covers {tree : Node Leaf} (tiled : Tiled tree) (x y : Nat) (place : Place) :
    covered (walk tree x y) place = if In tree x y place then 1 else 0 := by
  induction tree generalizing x y with
  | leaf leaf =>
    have same : (⟨x, y, leaf.cols.get, leaf.rows.get⟩ : Rect).Holds place ↔ In (.leaf leaf) x y place := by
      refine forall_congr' fun axis => ?_
      cases axis <;> simp [Rect.start, Rect.len, pick, Leaf.extent]
    simp only [walk_leaf, covered, List.countP_singleton, List.countP_nil, same, decide_eq_true_eq]
    rfl
  | split split children ih =>
    have several := tiled.several
    have total := tiled.total
    rw [walk_strip tiled, strip_covers 0 none children (by rintro rfl; simp at several) (fun child inside axis other => tiled.same other inside)
      (fun child inside x y => ih child inside (tiled.child inside) x y), ← total]
    have same : (pick split x y + 0 ≤ place split ∧ place split < pick split x y + 0 + tiledSize split (.split split children)) ∧
        Beside_ split (.split split children) x y place ↔ In (.split split children) x y place := by
      constructor
      · rintro ⟨along, beside⟩ axis
        by_cases is : axis = split
        · subst is
          exact along
        · exact beside axis is
      · exact fun inside => ⟨inside split, fun axis _ => inside axis⟩
    simp only [same]
    rfl

end Cover

end Kido.Tui
