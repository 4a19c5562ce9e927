import Kido.Layout.Ids
import Mathlib.Algebra.BigOperators.Group.List.Basic
import Mathlib.Algebra.Order.BigOperators.Group.List
import Mathlib.Algebra.Order.Ring.Nat

set_option autoImplicit false

namespace Kido.Tiling

inductive Axis where
  | horizontal
  | vertical
deriving DecidableEq, Repr

def pick {α : Type} : Axis → α → α → α
  | .horizontal, cols, _ => cols
  | .vertical, _, rows => rows

def maxDimension : Nat := 4096

def u16Max : Nat := 65535

-- A count of cells on one axis, with the bounds of `Dim`.
structure Cells where
  get : Nat
  positive : 1 ≤ get
  bound : get ≤ maxDimension
deriving DecidableEq

namespace Cells

def new (count : Nat) : Option Cells :=
  if valid : 1 ≤ count ∧ count ≤ maxDimension then some ⟨count, valid.1, valid.2⟩ else none

def clamped (count : Nat) : Cells :=
  let count := min count u16Max
  (new count).getD (if count = 0 then ⟨1, by decide, by decide⟩ else ⟨maxDimension, by decide, by decide⟩)

@[ext]
theorem ext {left right : Cells} (same : left.get = right.get) : left = right := by
  cases left
  cases right
  simpa using same

theorem clamped_get (count : Nat) (positive : 1 ≤ count) (bound : count ≤ maxDimension) :
    (clamped count).get = count := by
  have small : min count u16Max = count := by
    simp only [u16Max, maxDimension] at bound ⊢
    omega
  simp [clamped, small, new, positive, bound]

@[simp]
theorem clamped_self (cells : Cells) : clamped cells.get = cells :=
  Cells.ext (clamped_get cells.get cells.positive cells.bound)

end Cells

inductive Node (L : Type) where
  | leaf (leaf : L)
  | split (split : Axis) (children : List (Node L))

namespace Node

variable {L M R : Type}

@[elab_as_elim, induction_eliminator]
theorem induct {motive : Node L → Prop} (leaf : ∀ leaf, motive (.leaf leaf))
    (split : ∀ split children, (∀ child ∈ children, motive child) → motive (.split split children))
    (node : Node L) : motive node :=
  @Node.rec L motive (fun children => ∀ child ∈ children, motive child)
    leaf split (by simp) (fun _ _ head tail => by simpa using ⟨head, tail⟩) node

section Equality

variable [DecidableEq L]

mutual

def decEq : (left right : Node L) → Decidable (left = right)
  | .leaf left, .leaf right =>
    if same : left = right then isTrue (by rw [same]) else isFalse (by simpa using same)
  | .leaf _, .split _ _ => isFalse (by simp)
  | .split _ _, .leaf _ => isFalse (by simp)
  | .split first left, .split second right =>
    match decEqAll left right with
    | isTrue children =>
      if same : first = second then isTrue (by rw [same, children]) else isFalse (by simp [same])
    | isFalse children => isFalse (by simp [children])

def decEqAll : (left right : List (Node L)) → Decidable (left = right)
  | [], [] => isTrue rfl
  | [], _ :: _ => isFalse (by simp)
  | _ :: _, [] => isFalse (by simp)
  | left :: lefts, right :: rights =>
    match decEq left right with
    | isTrue head =>
      match decEqAll lefts rights with
      | isTrue tail => isTrue (by rw [head, tail])
      | isFalse tail => isFalse (by simp [tail])
    | isFalse head => isFalse (by simp [head])

end

instance : DecidableEq (Node L) := decEq

end Equality

section Recursion

variable (leaf : L → R) (split : Axis → List (Node L × R) → R)

mutual

-- Recursion over a tree that sees each child beside the child's own result.
def para : Node L → R
  | .leaf tile => leaf tile
  | .split axis children => split axis (paraAll children)

def paraAll : List (Node L) → List (Node L × R)
  | [] => []
  | child :: rest => (child, para child) :: paraAll rest

end

theorem paraAll_eq (children : List (Node L)) :
    paraAll leaf split children = children.map fun child => (child, para leaf split child) := by
  induction children with
  | nil => rfl
  | cons child rest ih => simp [paraAll, ih]

@[simp]
theorem para_leaf (tile : L) : para leaf split (.leaf tile) = leaf tile := by
  simp [para]

@[simp]
theorem para_split (axis : Axis) (children : List (Node L)) :
    para leaf split (.split axis children) =
      split axis (children.map fun child => (child, para leaf split child)) := by
  simp [para, paraAll_eq]

end Recursion

-- Recursion over a tree that sees the results of the children only.
def fold (leaf : L → R) (split : Axis → List R → R) : Node L → R :=
  para leaf fun axis children => split axis (children.map Prod.snd)

@[simp]
theorem fold_leaf (leaf : L → R) (split : Axis → List R → R) (tile : L) :
    fold leaf split (.leaf tile) = leaf tile := by
  simp [fold]

@[simp]
theorem fold_split (leaf : L → R) (split : Axis → List R → R) (axis : Axis) (children : List (Node L)) :
    fold leaf split (.split axis children) = split axis (children.map (fold leaf split)) := by
  simp [fold, Function.comp_def]

def map (f : L → M) : Node L → Node M := fold (fun tile => .leaf (f tile)) .split

@[simp]
theorem map_leaf (f : L → M) (tile : L) : map f (.leaf tile) = .leaf (f tile) := by
  simp [map]

@[simp]
theorem map_split (f : L → M) (axis : Axis) (children : List (Node L)) :
    map f (.split axis children) = .split axis (children.map (map f)) := by
  simp [map]

def leaves : Node L → List L := fold (fun tile => [tile]) fun _ => List.flatten

@[simp]
theorem leaves_leaf (tile : L) : leaves (.leaf tile) = [tile] := by
  simp [leaves]

@[simp]
theorem leaves_split (axis : Axis) (children : List (Node L)) :
    leaves (.split axis children) = children.flatMap leaves := by
  simp [leaves, List.flatMap]

theorem leaves_map (f : L → M) (node : Node L) : (map f node).leaves = node.leaves.map f := by
  induction node with
  | leaf tile => simp
  | split axis children ih =>
    simp only [map_split, leaves_split, List.flatMap_map, List.map_flatMap]
    exact List.flatMap_congr ih

-- The fewest cells that the node needs on the axis: one for each leaf and each divider.
def minimum (axis : Axis) : Node L → Nat :=
  fold (fun _ => 1) fun split mins =>
    if split = axis then mins.sum + (mins.length - 1) else mins.max?.getD 1

@[simp]
theorem minimum_leaf (axis : Axis) (tile : L) : minimum axis (.leaf tile) = 1 := by
  simp [minimum]

theorem minimum_split (axis split : Axis) (children : List (Node L)) :
    minimum axis (.split split children) =
      if split = axis then (children.map (minimum axis)).sum + (children.length - 1)
      else (children.map (minimum axis)).max?.getD 1 := by
  simp [minimum]

theorem minimum_map (axis : Axis) (f : L → M) (node : Node L) :
    minimum axis (map f node) = minimum axis node := by
  induction node with
  | leaf tile => simp
  | split split children ih =>
    have same : children.map (fun child => minimum axis (map f child)) = children.map (minimum axis) :=
      List.map_congr_left ih
    simp [minimum_split, Function.comp_def, same]

def height : Node L → Nat :=
  fold (fun _ => 1) fun _ heights => (heights.max?.getD 0) + 1

@[simp]
theorem height_leaf (tile : L) : height (.leaf tile) = 1 := by
  simp [height]

theorem height_split (axis : Axis) (children : List (Node L)) :
    height (.split axis children) = ((children.map height).max?.getD 0) + 1 := by
  simp [height]

theorem height_child (axis : Axis) (children : List (Node L)) (child : Node L)
    (member : child ∈ children) : child.height < height (.split axis children) := by
  have present : child.height ∈ children.map height := List.mem_map_of_mem member
  have bound := List.le_max?_getD_of_mem (k := 0) present
  rw [height_split]
  omega

theorem height_map (f : L → M) (node : Node L) : height (map f node) = height node := by
  induction node with
  | leaf tile => simp
  | split split children ih =>
    have same : children.map (fun child => height (map f child)) = children.map height :=
      List.map_congr_left ih
    simp [height_split, Function.comp_def, same]

end Node

-- A leaf of a layout tree: its pane once it has one, and its size on an axis once known.
class Tile (L : Type) where
  paneId : L → Option PaneId
  extent : L → Axis → Option Nat

namespace Node

variable {L : Type} [Tile L]

def contains (pane : PaneId) : Node L → Bool :=
  fold (fun tile => decide (Tile.paneId tile = some pane)) fun _ found => found.any id

@[simp]
theorem contains_leaf (pane : PaneId) (tile : L) :
    contains pane (.leaf tile) = decide (Tile.paneId tile = some pane) := by
  simp [contains]

@[simp]
theorem contains_split (pane : PaneId) (axis : Axis) (children : List (Node L)) :
    contains pane (.split axis children) = children.any (contains pane) := by
  simp [contains]

theorem contains_iff (pane : PaneId) (node : Node L) :
    contains pane node = true ↔ ∃ tile ∈ node.leaves, Tile.paneId tile = some pane := by
  induction node with
  | leaf tile => simp
  | split axis children ih =>
    simp only [contains_split, List.any_eq_true, leaves_split, List.mem_flatMap]
    constructor
    · rintro ⟨child, member, found⟩
      obtain ⟨tile, inside, same⟩ := (ih child member).mp found
      exact ⟨tile, ⟨child, member, inside⟩, same⟩
    · rintro ⟨tile, ⟨child, member, inside⟩, same⟩
      exact ⟨child, member, (ih child member).mpr ⟨tile, inside, same⟩⟩

-- The node's size on the axis from the sizes of the leaves that have one.
def known (axis : Axis) : Node L → Option Nat :=
  fold (fun tile => Tile.extent tile axis) fun split found =>
    let sizes := found.filterMap id
    if split = axis then (if sizes.isEmpty then none else some (sizes.sum + sizes.length - 1))
    else sizes.max?

@[simp]
theorem known_leaf (axis : Axis) (tile : L) : known axis (.leaf tile) = Tile.extent tile axis := by
  simp [known]

theorem known_split (axis split : Axis) (children : List (Node L)) :
    known axis (.split split children) =
      let sizes := children.filterMap (known axis)
      if split = axis then (if sizes.isEmpty then none else some (sizes.sum + sizes.length - 1))
      else sizes.max? := by
  simp [known]

end Node

structure Leaf where
  pane : PaneId
  cols : Cells
  rows : Cells
deriving DecidableEq

namespace Leaf

def extent (leaf : Leaf) (axis : Axis) : Nat := (pick axis leaf.cols leaf.rows).get

instance : Tile Leaf where
  paneId leaf := some leaf.pane
  extent leaf axis := some (leaf.extent axis)

theorem extent_positive (leaf : Leaf) (axis : Axis) : 1 ≤ leaf.extent axis := Cells.positive _

theorem extent_bound (leaf : Leaf) (axis : Axis) : leaf.extent axis ≤ maxDimension := Cells.bound _

end Leaf

-- A leaf of a draft whose pane has its id and whose size may still be open.
structure Raw where
  pane : PaneId
  cols : Option Nat
  rows : Option Nat
deriving DecidableEq

instance : Tile Raw where
  paneId raw := some raw.pane
  extent raw axis := pick axis raw.cols raw.rows

namespace Node

def panes (node : Node Leaf) : List PaneId := node.leaves.map Leaf.pane

@[simp]
theorem panes_leaf (leaf : Leaf) : panes (.leaf leaf) = [leaf.pane] := by
  simp [panes]

theorem panes_split (axis : Axis) (children : List (Node Leaf)) :
    panes (.split axis children) = children.flatMap panes := by
  simp only [panes, leaves_split, List.map_flatMap]
  rfl

theorem contains_iff_mem_panes (pane : PaneId) (node : Node Leaf) :
    contains pane node = true ↔ pane ∈ node.panes := by
  rw [contains_iff]
  simp [panes, Tile.paneId]

end Node

def firstLeaf {L : Type} : Node L → Option L := Node.fold some fun _ found => found.findSome? id

@[simp]
theorem firstLeaf_leaf {L : Type} (tile : L) : firstLeaf (.leaf tile) = some tile := by
  simp [firstLeaf]

@[simp]
theorem firstLeaf_split {L : Type} (axis : Axis) (children : List (Node L)) :
    firstLeaf (.split axis children) = children.findSome? firstLeaf := by
  simp only [firstLeaf, Node.fold_split, List.findSome?_map]
  rfl

theorem firstLeaf_mem {L : Type} (node : Node L) (tile : L) (found : firstLeaf node = some tile) :
    tile ∈ node.leaves := by
  induction node with
  | leaf other =>
    have same : other = tile := by simpa using found
    simp [same]
  | split axis children ih =>
    obtain ⟨child, member, inside⟩ := List.exists_of_findSome?_eq_some (firstLeaf_split axis children ▸ found)
    simpa using ⟨child, member, ih child member inside⟩

end Kido.Tiling

namespace Kido.Tiling

open Node

def tiledSize (axis : Axis) : Node Leaf → Nat :=
  Node.fold (fun leaf => leaf.extent axis) fun split sizes =>
    if split = axis then sizes.sum + (sizes.length - 1) else sizes.foldl max 1

@[simp]
theorem tiledSize_leaf (axis : Axis) (leaf : Leaf) : tiledSize axis (.leaf leaf) = leaf.extent axis := by
  simp [tiledSize]

theorem tiledSize_split (axis split : Axis) (children : List (Node Leaf)) :
    tiledSize axis (.split split children) =
      if split = axis then (children.map (tiledSize axis)).sum + (children.length - 1)
      else (children.map (tiledSize axis)).foldl max 1 := by
  simp [tiledSize]

-- The tree fills exactly `n` cells on the axis, every split of it has two children or more.
inductive Spans (axis : Axis) : Node Leaf → Nat → Prop where
  | leaf (leaf : Leaf) : Spans axis (.leaf leaf) (leaf.extent axis)
  | along (children : List (Node Leaf)) (extent : Node Leaf → Nat) (several : 2 ≤ children.length)
      (each : ∀ child ∈ children, Spans axis child (extent child)) :
      Spans axis (.split axis children) ((children.map extent).sum + (children.length - 1))
  | across (split : Axis) (children : List (Node Leaf)) (n : Nat) (other : split ≠ axis)
      (several : 2 ≤ children.length) (each : ∀ child ∈ children, Spans axis child n) :
      Spans axis (.split split children) n

theorem foldl_max_same (sizes : List Nat) (start n : Nat) (nonempty : sizes ≠ []) (bound : start ≤ n)
    (same : ∀ size ∈ sizes, size = n) : sizes.foldl max start = n := by
  induction sizes generalizing start with
  | nil => exact absurd rfl nonempty
  | cons size rest ih =>
    have head : size = n := same size (by simp)
    subst size
    by_cases last : rest = []
    · simp [last, bound]
    · exact ih (max start n) last (by simp [bound]) fun size member => same size (by simp [member])

namespace Spans

theorem positive {axis : Axis} {node : Node Leaf} {n : Nat} (spans : Spans axis node n) : 1 ≤ n := by
  induction spans with
  | leaf leaf => exact leaf.extent_positive axis
  | along children extent several each ih => omega
  | across split children n other several each ih =>
    match children, several with
    | child :: _, _ => exact ih child (by simp)

theorem tiled {axis : Axis} {node : Node Leaf} {n : Nat} (spans : Spans axis node n) :
    tiledSize axis node = n := by
  induction spans with
  | leaf leaf => simp
  | along children extent several each ih =>
    rw [tiledSize_split, if_pos rfl, List.map_congr_left ih]
  | across split children n other several each ih =>
    rw [tiledSize_split, if_neg other]
    refine foldl_max_same _ 1 n ?_ ?_ ?_
    · rw [ne_eq, List.map_eq_nil_iff]
      rintro rfl
      simp at several
    · match children, several with
      | child :: _, _ => exact (each child (by simp)).positive
    · intro size member
      obtain ⟨child, inside, rfl⟩ := List.mem_map.mp member
      exact ih child inside

theorem leaf_iff {axis : Axis} {leaf : Leaf} {n : Nat} :
    Spans axis (.leaf leaf) n ↔ leaf.extent axis = n := by
  constructor
  · intro spans
    simpa using spans.tiled
  · rintro rfl
    exact .leaf leaf

theorem along_iff {axis : Axis} {children : List (Node Leaf)} {n : Nat} :
    Spans axis (.split axis children) n ↔
      2 ≤ children.length ∧ (∀ child ∈ children, Spans axis child (tiledSize axis child)) ∧
        (children.map (tiledSize axis)).sum + (children.length - 1) = n := by
  constructor
  · intro spans
    cases spans with
    | along _ extent several each =>
      have same : children.map extent = children.map (tiledSize axis) :=
        List.map_congr_left fun child member => ((each child member).tiled).symm
      exact ⟨several, fun child member => (each child member).tiled.symm ▸ each child member, by rw [same]⟩
    | across _ _ _ other => exact absurd rfl other
  · rintro ⟨several, each, rfl⟩
    exact .along children (tiledSize axis) several each

theorem across_iff {axis split : Axis} (other : split ≠ axis) {children : List (Node Leaf)} {n : Nat} :
    Spans axis (.split split children) n ↔
      2 ≤ children.length ∧ ∀ child ∈ children, Spans axis child n := by
  constructor
  · intro spans
    cases spans with
    | along => exact absurd rfl other
    | across _ _ _ _ several each => exact ⟨several, each⟩
  · rintro ⟨several, each⟩
    exact .across split children n other several each

theorem minimum_le {axis : Axis} {node : Node Leaf} {n : Nat} (spans : Spans axis node n) :
    node.minimum axis ≤ n := by
  induction spans with
  | leaf leaf => simpa using leaf.extent_positive axis
  | along children extent several each ih =>
    rw [minimum_split, if_pos rfl]
    exact Nat.add_le_add_right (List.sum_le_sum ih) _
  | across split children n other several each ih =>
    rw [minimum_split, if_neg other]
    rcases found : (children.map (Node.minimum axis)).max? with _ | most
    · match children, several with
      | child :: _, _ => exact (each child (by simp)).positive
    · have member := List.max?_mem found
      obtain ⟨child, inside, same⟩ := List.mem_map.mp member
      simpa [← same] using ih child inside

theorem known {axis : Axis} {node : Node Leaf} {n : Nat} (spans : Spans axis node n) :
    node.known axis = some n := by
  induction spans with
  | leaf leaf => simp [Tile.extent]
  | along children extent several each ih =>
    have sizes : children.filterMap (Node.known axis) = children.map extent := by
      rw [← List.filterMap_eq_map]
      exact List.filterMap_congr ih
    have nonempty : children ≠ [] := by
      rintro rfl
      simp at several
    simp only [known_split, if_pos, sizes, List.isEmpty_iff, List.map_eq_nil_iff, nonempty, if_false,
      List.length_map]
    congr 1
    omega
  | across split children n other several each ih =>
    have sizes : children.filterMap (Node.known axis) = List.replicate children.length n := by
      rw [List.filterMap_congr ih, List.filterMap_eq_map', List.map_const']
    match children, several with
    | first :: rest, _ =>
      simp [known_split, other, sizes]

theorem firstLeaf_some {axis : Axis} {node : Node Leaf} {n : Nat} (spans : Spans axis node n) :
    ∃ leaf, firstLeaf node = some leaf := by
  have found (children : List (Node Leaf)) (several : 2 ≤ children.length)
      (ih : ∀ child ∈ children, ∃ leaf, firstLeaf child = some leaf) :
      ∃ leaf, children.findSome? firstLeaf = some leaf := by
    match children, several with
    | child :: _, _ =>
      obtain ⟨leaf, same⟩ := ih child (by simp)
      exact ⟨leaf, by simp [same]⟩
  induction spans with
  | leaf leaf => exact ⟨leaf, by simp⟩
  | along children extent several each ih => simpa using found children several ih
  | across split children n other several each ih => simpa using found children several ih

end Spans

theorem minimum_positive {L : Type} (axis : Axis) (node : Node L) (nonempty : node.leaves ≠ []) :
    1 ≤ node.minimum axis := by
  induction node with
  | leaf tile => simp
  | split split children ih =>
    obtain ⟨child, member, inside⟩ : ∃ child ∈ children, child.leaves ≠ [] := by
      simpa [List.flatMap_eq_nil_iff] using nonempty
    have one := ih child member inside
    have present : child.minimum axis ∈ children.map (Node.minimum axis) := List.mem_map_of_mem member
    rw [minimum_split]
    by_cases same : split = axis
    · rw [if_pos same]
      have total := List.single_le_sum (fun size _ => Nat.zero_le size) _ present
      omega
    · rw [if_neg same]
      exact one.trans (List.le_max?_getD_of_mem present)

theorem minimum_le_tiledSize (axis : Axis) (node : Node Leaf) :
    node.minimum axis ≤ tiledSize axis node := by
  induction node with
  | leaf leaf => simpa using leaf.extent_positive axis
  | split split children ih =>
    rw [minimum_split, tiledSize_split]
    by_cases same : split = axis
    · rw [if_pos same, if_pos same]
      exact Nat.add_le_add_right (List.sum_le_sum ih) _
    · rw [if_neg same, if_neg same]
      have grows (sizes : List Nat) (start : Nat) : start ≤ sizes.foldl max start := by
        induction sizes generalizing start with
        | nil => simp
        | cons size rest ihSizes => exact (le_max_left start size).trans (ihSizes _)
      have reaches (sizes : List Nat) (start size : Nat) (member : size ∈ sizes) :
          size ≤ sizes.foldl max start := by
        induction sizes generalizing start with
        | nil => simp at member
        | cons first rest ihSizes =>
          rcases List.mem_cons.mp member with head | tail
          · rw [head]
            exact (le_max_right start first).trans (grows rest _)
          · exact ihSizes _ tail
      rcases found : (children.map (Node.minimum axis)).max? with _ | most
      · exact grows _ 1
      · obtain ⟨child, inside, equal⟩ := List.mem_map.mp (List.max?_mem found)
        have bound := ih child inside
        rw [equal] at bound
        exact bound.trans (reaches _ 1 _ (List.mem_map_of_mem inside))

end Kido.Tiling
