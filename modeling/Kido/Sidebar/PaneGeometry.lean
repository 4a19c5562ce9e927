import Kido.Tui.Grips

set_option autoImplicit false

namespace Kido.PaneGeometry

open Kido.Tiling (Axis Leaf Window PaneId Cells tiledSize pick Op World)
open Kido.Tui (Grip Rect Tiled strip lineRect lineOf firstPane walkAt)

structure Geometry where
  x : Int
  y : Int
  width : Int
  height : Int
deriving DecidableEq

inductive Direction where
  | leftRight
  | topBottom
deriving DecidableEq

inductive Layer where
  | tiled
  | floating (z : Nat)
deriving DecidableEq

structure Pane where
  id : PaneId
  index : Nat
  geometry : Geometry
  active : Bool
  layer : Layer
deriving DecidableEq

inductive Node where
  | pane (pane : Pane)
  | split (direction : Direction) (geometry : Geometry) (children : List Node)

structure Divider where
  geometry : Geometry
  direction : Direction
  start : Int
  first : PaneId
  second : PaneId
deriving DecidableEq

structure ResizePair where
  first : PaneId
  firstSize : Int
  second : PaneId
deriving DecidableEq

def Divider.resize (divider : Divider) (position : Int) : Option ResizePair :=
  if divider.start < position then some ⟨divider.first, position - divider.start, divider.second⟩ else none

namespace Node

def geometry : Node → Geometry
  | .pane leaf => leaf.geometry
  | .split _ geometry _ => geometry

def isFloating : Node → Bool
  | .pane leaf => decide (leaf.layer ≠ .tiled)
  | .split .. => false

mutual

def panes : Node → List Pane
  | .pane leaf => [leaf]
  | .split _ _ children => panesOf children
termination_by structural node => node

def panesOf : List Node → List Pane
  | [] => []
  | node :: rest => panes node ++ panesOf rest
termination_by structural nodes => nodes

end

-- The divider between two children that stand side by side.
def divide (direction : Direction) (whole : Geometry) (a b : Node) : Option Divider :=
  match a.panes.head?, b.panes.head? with
  | some first, some second =>
    match direction with
    | .leftRight => some ⟨⟨a.geometry.x + a.geometry.width, whole.y, 1, whole.height⟩, direction, a.geometry.x, first.id, second.id⟩
    | .topBottom => some ⟨⟨whole.x, a.geometry.y + a.geometry.height, whole.width, 1⟩, direction, a.geometry.y, first.id, second.id⟩
  | _, _ => none

def between (direction : Direction) (whole : Geometry) (children : List Node) : List Divider :=
  let tiled := children.filter fun child => !child.isFloating
  (tiled.zip tiled.tail).filterMap fun (a, b) => divide direction whole a b

mutual

def dividers : Node → List Divider
  | .pane _ => []
  | .split direction geometry children => between direction geometry children ++ dividersOf children
termination_by structural node => node

def dividersOf : List Node → List Divider
  | [] => []
  | node :: rest => dividers node ++ dividersOf rest
termination_by structural nodes => nodes

end

end Node

def directionOf : Axis → Direction
  | .horizontal => .leftRight
  | .vertical => .topBottom

section Walk

variable (active : PaneId)

mutual

-- A tree from its corner, and the index of the next pane.
def walk (x y : Int) (index : Nat) : Tiling.Node Leaf → Node × Nat
  | .leaf leaf => (.pane ⟨leaf.pane, index, ⟨x, y, leaf.cols.get, leaf.rows.get⟩, decide (leaf.pane = active), .tiled⟩, index + 1)
  | .split split children =>
    let (nodes, offset, index) := walkOf split x y 0 index children
    let sizes := nodes.map Node.geometry
    let geometry : Geometry :=
      match directionOf split with
      | .leftRight => ⟨x, y, offset - 1, (sizes.map Geometry.height).max?.getD 0⟩
      | .topBottom => ⟨x, y, (sizes.map Geometry.width).max?.getD 0, offset - 1⟩
    (.split (directionOf split) geometry nodes, index)
termination_by structural tree => tree

def walkOf (split : Axis) (x y offset : Int) (index : Nat) : List (Tiling.Node Leaf) → List Node × Int × Nat
  | [] => ([], offset, index)
  | child :: rest =>
    let (node, index) :=
      match directionOf split with
      | .leftRight => walk (x + offset) y index child
      | .topBottom => walk x (y + offset) index child
    let size :=
      match directionOf split with
      | .leftRight => node.geometry.width
      | .topBottom => node.geometry.height
    let (nodes, offset, index) := walkOf split x y (offset + size + 1) index rest
    (node :: nodes, offset, index)
termination_by structural children => children

end

-- The floats from the lowest, with their indices.
def floating (index : Nat) : List Tiling.Float → List Node
  | [] => []
  | float :: rest =>
    .pane ⟨float.pane, index, ⟨float.x, float.y, float.cols.get, float.rows.get⟩, decide (float.pane = active), .floating float.z⟩ ::
      floating (index + 1) rest

end Walk

structure Layout where
  root : Node

def Layout.new (window : Window) (visible : Bool) (active : Option PaneId) : Layout :=
  let zoom := if visible then window.zoom else none
  let active := (zoom.or active).getD window.focus
  let whole : Geometry := ⟨0, 0, window.cols.get, window.rows.get⟩
  match zoom with
  | some pane => ⟨.pane ⟨pane, 0, whole, decide (pane = active), .tiled⟩⟩
  | none =>
    let (tiled, index) := walk active 0 0 0 window.tree
    let floats := floating active index (window.floats.mergeSort fun one other => decide (one.z ≤ other.z))
    match tiled with
    | .split direction geometry children => ⟨.split direction geometry (children ++ floats)⟩
    | .pane pane => if floats = [] then ⟨.pane pane⟩ else ⟨.split .leftRight whole (.pane pane :: floats)⟩

-- A rectangle of the other client, and the divider that a line of its walk is.
def geometryOf (rect : Rect) : Geometry := ⟨rect.x, rect.y, rect.cols, rect.rows⟩

def placeOf (pane : Tui.Pane) : PaneId × Geometry := (pane.pane, geometryOf pane.rect)

def dividerOf (line : Grip × Rect) : Divider :=
  ⟨geometryOf line.2, directionOf line.1.axis, line.1.start, line.1.first, line.1.second⟩

-- A node has the places and the dividers that a walk over the tree finds.
structure Stands (node : Node) (tree : Tiling.Node Leaf) (x y : Nat) : Prop where
  tiled : node.isFloating = false
  whole : node.geometry = ⟨x, y, tiledSize .horizontal tree, tiledSize .vertical tree⟩
  panes : node.panes.map (fun pane => (pane.id, pane.geometry)) = (Tui.walk tree x y).panes.map placeOf
  dividers : ∀ divider, divider ∈ node.dividers ↔ ∃ line ∈ (Tui.walk tree x y).lines, divider = dividerOf line

section Nodes

variable {nodes more : List Node} {direction : Direction} {whole : Geometry}

theorem panesOf_append : Node.panesOf (nodes ++ more) = Node.panesOf nodes ++ Node.panesOf more := by
  induction nodes with
  | nil => rfl
  | cons node rest ih => rw [List.cons_append, Node.panesOf, Node.panesOf, ih, List.append_assoc]

theorem dividersOf_append : Node.dividersOf (nodes ++ more) = Node.dividersOf nodes ++ Node.dividersOf more := by
  induction nodes with
  | nil => rfl
  | cons node rest ih => rw [List.cons_append, Node.dividersOf, Node.dividersOf, ih, List.append_assoc]

theorem between_cons {first second : Node} {rest : List Node} (one : first.isFloating = false) (other : second.isFloating = false) :
    Node.between direction whole (first :: second :: rest) =
      (Node.divide direction whole first second).toList ++ Node.between direction whole (second :: rest) := by
  simp only [Node.between, List.filter_cons, one, other, Bool.not_false, if_true, List.tail_cons, List.zip_cons_cons, List.filterMap_cons]
  cases Node.divide direction whole first second <;> rfl

end Nodes

section Stand

variable {node : Node} {tree : Tiling.Node Leaf} {x y : Nat}

theorem Stands.head (stands : Stands node tree x y) (tiled : Tiled tree) : ∃ pane, node.panes.head? = some pane ∧ pane.id = firstPane tree := by
  obtain ⟨found, head, same⟩ := Tui.head_walk tiled (fun x y => Tui.walk_panes tiled x y) x y
  have heads := congrArg List.head? stands.panes
  rw [List.head?_map, List.head?_map, head, Option.map_some, Option.map_eq_some_iff] at heads
  obtain ⟨pane, first, is⟩ := heads
  exact ⟨pane, first, (Prod.mk.inj is).1.trans same⟩

-- The divider between two children is the line behind the first.
theorem divide_line {split : Axis} {first second : Tiling.Node Leaf} {one other : Node} {offset next : Nat}
    (stands : Stands one first (x + pick split offset 0) (y + pick split 0 offset))
    (follows : Stands other second (x + pick split next 0) (y + pick split 0 next)) (tiled : Tiled first) (tiled' : Tiled second) :
    Node.divide (directionOf split) ⟨x, y, tiledSize .horizontal tree, tiledSize .vertical tree⟩ one other =
      some (dividerOf (lineOf split (firstPane second)
        ⟨firstPane first, pick split x y + offset, lineRect split x y tree (offset + tiledSize split first)⟩)) := by
  obtain ⟨pane, head, same⟩ := stands.head tiled
  obtain ⟨pane', head', same'⟩ := follows.head tiled'
  rw [Node.divide, head, head']
  cases split with
  | horizontal =>
    simp only [directionOf, stands.whole, same, same', dividerOf, lineOf, geometryOf, lineRect, pick, Option.some.injEq, Divider.mk.injEq,
      Geometry.mk.injEq, and_true]
    push_cast
    refine ⟨by omega, by omega, ?_⟩
    trivial
  | vertical =>
    simp only [directionOf, stands.whole, same, same', dividerOf, lineOf, geometryOf, lineRect, pick, Option.some.injEq, Divider.mk.injEq,
      Geometry.mk.injEq, and_true]
    push_cast
    refine ⟨by omega, by omega, ?_⟩
    trivial

end Stand

section Children

variable {active : PaneId} {split : Axis} {x y : Nat} {tree : Tiling.Node Leaf}

-- The walk over a child that is behind an offset.
def childAt (active : PaneId) (split : Axis) (x y offset index : Nat) (child : Tiling.Node Leaf) : Node × Nat :=
  walk active (x + pick split offset 0 : Nat) (y + pick split 0 offset : Nat) index child

theorem walkOf_cons {offset index : Nat} {child : Tiling.Node Leaf} {rest : List (Tiling.Node Leaf)}
    (stands : Stands (childAt active split x y offset index child).1 child (x + pick split offset 0) (y + pick split 0 offset)) :
    walkOf active split x y offset index (child :: rest) =
      let after := walkOf active split x y (offset + tiledSize split child + 1 : Nat) (childAt active split x y offset index child).2 rest
      ((childAt active split x y offset index child).1 :: after.1, after.2) := by
  have whole := stands.whole
  rw [walkOf]
  cases split with
  | horizontal =>
    simp only [childAt, pick, Nat.add_zero, Nat.cast_add] at whole
    simp only [childAt, directionOf, pick, Nat.add_zero, Nat.cast_add, whole, Nat.cast_one]
  | vertical =>
    simp only [childAt, pick, Nat.add_zero, Nat.cast_add] at whole
    simp only [childAt, directionOf, pick, Nat.add_zero, Nat.cast_add, whole, Nat.cast_one]

theorem strip_after {offset : Nat} {pending : Tui.Pending} {rest : List (Tiling.Node Leaf)} {line : Grip × Rect} :
    line ∈ (strip split x y tree offset (some pending) rest).lines ↔
      (∃ next later, rest = next :: later ∧ line = lineOf split (firstPane next) pending) ∨ line ∈ (strip split x y tree offset none rest).lines := by
  cases rest with
  | nil => simp [strip]
  | cons next later =>
    simp only [strip, Tui.Walked.append, Option.map_some, Option.map_none, Option.toList_some, Option.toList_none, List.append_nil, List.mem_append,
      List.mem_singleton, List.cons.injEq]
    constructor
    · rintro ((own | is) | further)
      · exact .inr (.inl own)
      · exact .inl ⟨next, later, ⟨rfl, rfl⟩, is⟩
      · exact .inr (.inr further)
    · rintro (⟨_, _, ⟨rfl, rfl⟩, is⟩ | own | further)
      · exact .inl (.inr is)
      · exact .inl (.inl own)
      · exact .inr further

theorem between_next {offset index : Nat} {child : Tiling.Node Leaf} {rest : List (Tiling.Node Leaf)} {node : Node}
    (own : Stands node child (x + pick split offset 0) (y + pick split 0 offset))
    (stands : ∀ child ∈ rest, ∀ x y index : Nat, Stands (walk active x y index child).1 child x y) (tiled : ∀ next ∈ child :: rest, Tiled next)
    {divider : Divider} :
    divider ∈ Node.between (directionOf split) ⟨x, y, tiledSize .horizontal tree, tiledSize .vertical tree⟩
        (node :: (walkOf active split x y (offset + tiledSize split child + 1 : Nat) index rest).1) ↔
      (∃ next later, rest = next :: later ∧ divider = dividerOf (lineOf split (firstPane next)
          ⟨firstPane child, pick split x y + offset, lineRect split x y tree (offset + tiledSize split child)⟩)) ∨
        divider ∈ Node.between (directionOf split) ⟨x, y, tiledSize .horizontal tree, tiledSize .vertical tree⟩
          (walkOf active split x y (offset + tiledSize split child + 1 : Nat) index rest).1 := by
  cases rest with
  | nil =>
    rw [walkOf]
    refine iff_of_false (fun inside => ?_) ?_
    · rw [Node.between, List.filter_cons, own.tiled] at inside
      cases inside
    · rintro (⟨_, _, is, _⟩ | inside)
      · cases is
      · cases inside
  | cons next later =>
    have follows : Stands (childAt active split x y (offset + tiledSize split child + 1) index next).1 next
        (x + pick split (offset + tiledSize split child + 1) 0) (y + pick split 0 (offset + tiledSize split child + 1)) :=
      stands next List.mem_cons_self _ _ index
    rw [walkOf_cons follows, between_cons own.tiled follows.tiled,
      divide_line own follows (tiled child List.mem_cons_self) (tiled next (List.mem_cons_of_mem _ List.mem_cons_self)), List.mem_append,
      Option.toList_some, List.mem_singleton]
    refine or_congr_left ⟨fun is => ⟨next, later, rfl, is⟩, ?_⟩
    rintro ⟨_, _, same, is⟩
    cases same
    exact is

-- What the walk over the children finds is what the strip of them has.
structure Lays (nodes : List Node) (stop : Int) (split : Axis) (x y offset : Nat) (tree : Tiling.Node Leaf)
    (children : List (Tiling.Node Leaf)) : Prop where
  count : nodes.length = children.length
  stop : stop = offset + Tui.offsetOf split children
  tiled : ∀ node ∈ nodes, node.isFloating = false
  whole : ∀ node ∈ nodes, ∃ child ∈ children, node.geometry.width = tiledSize .horizontal child ∧ node.geometry.height = tiledSize .vertical child
  panes : ∀ previous, (Node.panesOf nodes).map (fun pane => (pane.id, pane.geometry)) = (strip split x y tree offset previous children).panes.map placeOf
  dividers : ∀ divider, divider ∈ Node.between (directionOf split) ⟨x, y, tiledSize .horizontal tree, tiledSize .vertical tree⟩ nodes ∨
    divider ∈ Node.dividersOf nodes ↔ ∃ line ∈ (strip split x y tree offset none children).lines, divider = dividerOf line

theorem walkOf_lays (offset index : Nat) (children : List (Tiling.Node Leaf)) (tiled : ∀ child ∈ children, Tiled child)
    (stands : ∀ child ∈ children, ∀ x y index : Nat, Stands (walk active x y index child).1 child x y) :
    Lays (walkOf active split x y offset index children).1 (walkOf active split x y offset index children).2.1 split x y offset tree children := by
  induction children generalizing offset index with
  | nil =>
    refine ⟨rfl, by simp [walkOf, Tui.offsetOf], nofun, nofun, fun _ => rfl, fun divider => ?_⟩
    refine iff_of_false (fun either => ?_) ?_
    · rcases either with inside | inside <;> cases inside
    · rintro ⟨line, inside, -⟩
      cases inside
  | cons child rest ih =>
    have own : Stands (childAt active split x y offset index child).1 child (x + pick split offset 0) (y + pick split 0 offset) :=
      stands child List.mem_cons_self _ _ index
    have after := ih (offset + tiledSize split child + 1) (childAt active split x y offset index child).2
      (fun child inside => tiled child (List.mem_cons_of_mem _ inside)) fun child inside => stands child (List.mem_cons_of_mem _ inside)
    rw [walkOf_cons own]
    refine ⟨?_, ?_, ?_, ?_, fun previous => ?_, fun divider => ?_⟩
    · exact congrArg Nat.succ after.count
    · refine after.stop.trans ?_
      simp only [Tui.offsetOf, List.map_cons, List.sum_cons]
      push_cast
      ring
    · intro node inside
      rcases List.mem_cons.1 inside with rfl | later
      · exact own.tiled
      · exact after.tiled node later
    · intro node inside
      rcases List.mem_cons.1 inside with rfl | later
      · exact ⟨child, List.mem_cons_self, by rw [own.whole], by rw [own.whole]⟩
      · obtain ⟨other, there, sizes⟩ := after.whole node later
        exact ⟨other, List.mem_cons_of_mem _ there, sizes⟩
    · simp only [Node.panesOf, List.map_append, own.panes, strip, Tui.Walked.append, List.append_nil, walkAt]
      exact congrArg _ (after.panes _)
    · rw [between_next own (fun next inside => stands next (List.mem_cons_of_mem _ inside)) tiled, Node.dividersOf, List.mem_append, own.dividers]
      simp only [strip, Tui.Walked.append, Option.map_none, Option.toList_none, List.append_nil, List.mem_append, strip_after]
      have rest_ := after.dividers divider
      constructor
      · rintro ((⟨next, later, is, rfl⟩ | there) | ⟨line, inside, rfl⟩ | there)
        · exact ⟨_, .inr (.inl ⟨next, later, is, rfl⟩), rfl⟩
        · obtain ⟨line, inside, same⟩ := rest_.1 (.inl there)
          exact ⟨line, .inr (.inr inside), same⟩
        · exact ⟨line, .inl inside, rfl⟩
        · obtain ⟨line, inside, same⟩ := rest_.1 (.inr there)
          exact ⟨line, .inr (.inr inside), same⟩
      · rintro ⟨line, inside | ⟨next, later, is, rfl⟩ | inside, same⟩
        · exact .inr (.inl ⟨line, inside, same⟩)
        · exact .inl (.inl ⟨next, later, is, same⟩)
        · exact (rest_.2 ⟨line, inside, same⟩).elim (fun there => .inl (.inr there)) fun there => .inr (.inr there)

end Children

theorem max_same {sizes : List Int} {size : Int} (some_ : sizes ≠ []) (same : ∀ other ∈ sizes, other = size) : sizes.max?.getD 0 = size := by
  obtain ⟨first, rest, rfl⟩ := List.exists_cons_of_ne_nil some_
  have is : (first :: rest).max? = some size := by
    rw [List.max?_eq_some_iff]
    exact ⟨same first List.mem_cons_self ▸ List.mem_cons_self, fun other inside => (same other inside).le⟩
  rw [is]
  rfl

-- The app's walk finds what the terminal client's finds.
theorem walk_stands (active : PaneId) {tree : Tiling.Node Leaf} (tiled : Tiled tree) (x y index : Nat) :
    Stands (walk active x y index tree).1 tree x y := by
  induction tree generalizing x y index with
  | leaf leaf =>
    refine ⟨rfl, rfl, ?_, fun divider => ?_⟩
    · rw [Tui.walk_leaf]
      rfl
    · rw [Tui.walk_leaf]
      exact iff_of_false nofun nofun
  | split split children ih =>
    have own : ∀ child ∈ children, ∀ x y index : Nat, Stands (walk active x y index child).1 child x y :=
      fun child inside x y index => ih child inside (tiled.child inside) x y index
    have lays := @walkOf_lays active split x y (.split split children) 0 index children (fun child inside => tiled.child inside) own
    have several := tiled.several
    have some_ : (walkOf active split x y (0 : Nat) index children).1 ≠ [] := by
      rw [← List.length_pos_iff, lays.count]
      omega
    have along : (walkOf active split x y (0 : Nat) index children).2.1 - 1 = tiledSize split (.split split children) := by
      have total := tiled.total
      have sum : Tui.offsetOf split children = (children.map (tiledSize split)).sum + children.length := by
        simp [Tui.offsetOf, List.sum_map_add]
      have stop := lays.stop
      omega
    have geometry : (walk active x y index (.split split children)).1.geometry =
        ⟨x, y, tiledSize .horizontal (.split split children), tiledSize .vertical (.split split children)⟩ := by
      rw [walk]
      cases split with
      | horizontal =>
        have across := @max_same (((walkOf active .horizontal x y (0 : Nat) index children).1.map Node.geometry).map Geometry.height)
          (tiledSize .vertical (.split .horizontal children)) (by simpa using some_) (fun size inside => by
            rw [List.map_map] at inside
            obtain ⟨node, there, rfl⟩ := List.mem_map.1 inside
            obtain ⟨child, among, _, high⟩ := lays.whole node there
            rw [Function.comp_apply, high, tiled.same (by decide) among])
        simp only [Nat.cast_zero] at across along
        simp only [directionOf, Node.geometry, along, across]
      | vertical =>
        have across := @max_same (((walkOf active .vertical x y (0 : Nat) index children).1.map Node.geometry).map Geometry.width)
          (tiledSize .horizontal (.split .vertical children)) (by simpa using some_) (fun size inside => by
            rw [List.map_map] at inside
            obtain ⟨node, there, rfl⟩ := List.mem_map.1 inside
            obtain ⟨child, among, wide, _⟩ := lays.whole node there
            rw [Function.comp_apply, wide, tiled.same (by decide) among])
        simp only [Nat.cast_zero] at across along
        simp only [directionOf, Node.geometry, along, across]
    have is : (walk active x y index (.split split children)).1 =
        .split (directionOf split) ⟨x, y, tiledSize .horizontal (.split split children), tiledSize .vertical (.split split children)⟩
          (walkOf active split x y (0 : Nat) index children).1 := by
      rw [← geometry, walk]
      rfl
    refine ⟨?_, geometry, ?_, fun divider => ?_⟩
    · rw [is]
      rfl
    · rw [is, Node.panes, lays.panes none, Tui.walk_strip tiled]
    · rw [is, Node.dividers, List.mem_append, lays.dividers, Tui.walk_strip tiled]

section Window

variable {window : Window} {active : Option PaneId}

theorem floating_panes (chosen : PaneId) (index : Nat) (floats : List Tiling.Float) :
    (Node.panesOf (floating chosen index floats)).map (fun pane => (pane.id, pane.geometry)) = (floats.map Tui.floatPane).map placeOf := by
  induction floats generalizing index with
  | nil => rfl
  | cons float rest ih => exact congrArg (_ :: ·) (ih (index + 1))

theorem floating_dividers (chosen : PaneId) (index : Nat) (floats : List Tiling.Float) : Node.dividersOf (floating chosen index floats) = [] := by
  induction floats generalizing index with
  | nil => rfl
  | cons float rest ih => exact ih (index + 1)

theorem floating_untiled (chosen : PaneId) (index : Nat) (floats : List Tiling.Float) :
    (floating chosen index floats).filter (fun node => !node.isFloating) = [] := by
  induction floats generalizing index with
  | nil => rfl
  | cons float rest ih => exact ih (index + 1)

-- The floats are behind the tiled panes, and add no divider.
theorem new_unzoomed (unzoomed : window.zoom = none) :
    ∃ chosen index, (Layout.new window true active).root.panes =
        (walk chosen 0 0 0 window.tree).1.panes ++
          Node.panesOf (floating chosen index (window.floats.mergeSort fun one other => decide (one.z ≤ other.z))) ∧
      (Layout.new window true active).root.dividers = (walk chosen 0 0 0 window.tree).1.dividers := by
  refine ⟨active.getD window.focus, (walk (active.getD window.focus) 0 0 0 window.tree).2, ?_⟩
  rw [Layout.new, unzoomed]
  simp only [↓reduceIte, Option.none_or]
  generalize active.getD window.focus = chosen
  obtain ⟨node, index⟩ := walk chosen 0 0 0 window.tree
  generalize window.floats.mergeSort _ = floats
  dsimp only
  cases node with
  | split direction geometry children =>
    refine ⟨by rw [Node.panes, Node.panes, panesOf_append], ?_⟩
    rw [Node.dividers, Node.dividers, dividersOf_append, floating_dividers, List.append_nil, Node.between, Node.between, List.filter_append,
      floating_untiled, List.append_nil]
  | pane pane =>
    split_ifs with none_
    · rw [none_]
      exact ⟨(List.append_nil _).symm, rfl⟩
    · refine ⟨rfl, ?_⟩
      have none_ := floating_dividers chosen index floats
      simp only [Node.dividers, Node.dividersOf, none_, List.append_nil, Node.between, List.filter_cons, floating_untiled]
      cases (Node.pane pane).isFloating <;> rfl

def Geometry.Has (geometry : Geometry) (col row : Int) : Prop :=
  (geometry.x ≤ col ∧ col < geometry.x + geometry.width) ∧ geometry.y ≤ row ∧ row < geometry.y + geometry.height

theorem has_iff {rect : Rect} {col row : Int} :
    (geometryOf rect).Has col row ↔ ∃ place : Tui.Place, col = place .horizontal ∧ row = place .vertical ∧ rect.Holds place := by
  simp only [Geometry.Has, geometryOf, Tui.holds_cases]
  constructor
  · intro has
    refine ⟨fun axis => pick axis col.toNat row.toNat, ?_⟩
    simp only [pick]
    omega
  · rintro ⟨place, rfl, rfl, holds⟩
    omega

-- Where the pointer is for the divider.
def Divider.position (divider : Divider) (col row : Nat) : Int :=
  match divider.direction with
  | .leftRight => col
  | .topBottom => row

-- The two clients lay out a window alike.
structure Alike (window : Window) (active : Option PaneId) : Prop where
  panes : (Layout.new window true active).root.panes.map (fun pane => (pane.id, pane.geometry)) = (Tui.windowGeometry window).panes.map placeOf
  cells : ∀ col row, (∃ divider ∈ (Layout.new window true active).root.dividers, divider.geometry.Has col row) ↔
    ∃ line ∈ (Tui.windowGeometry window).dividers, (geometryOf line.rect).Has col row
  gripped : ∀ divider ∈ (Layout.new window true active).root.dividers, ∃ line ∈ (Tui.windowGeometry window).dividers, ∃ col row,
    divider.geometry.Has col row ∧ (geometryOf line.rect).Has col row
  same : ∀ divider ∈ (Layout.new window true active).root.dividers, ∀ line ∈ (Tui.windowGeometry window).dividers, ∀ col row,
    divider.geometry.Has col row → (geometryOf line.rect).Has col row →
      divider.first = line.grip.first ∧ divider.second = line.grip.second ∧
        ∀ x y, x < window.cols.get → y < window.rows.get →
          divider.resize (divider.position x y) =
            (line.grip.firstSize x y).map fun size => ⟨line.grip.first, size.get, line.grip.second⟩

theorem resize_line {line : Grip × Rect} {x y : Nat} (small : pick line.1.axis x y ≤ Tiling.maxDimension) :
    (dividerOf line).resize ((dividerOf line).position x y) =
      (line.1.firstSize x y).map fun size => ⟨line.1.first, size.get, line.1.second⟩ := by
  obtain ⟨⟨first, second, axis, start⟩, rect⟩ := line
  have at_ : (dividerOf (⟨first, second, axis, start⟩, rect)).position x y = (pick axis x y : Nat) := by cases axis <;> rfl
  have resized (position : Int) : (dividerOf (⟨first, second, axis, start⟩, rect)).resize position =
      if (start : Int) < position then some ⟨first, position - start, second⟩ else none := rfl
  rw [at_, resized, Grip.firstSize]
  dsimp only
  generalize pick axis x y = position at small
  by_cases before : position < start
  · have off : ¬(start : Int) < position := by omega
    rw [if_pos before, if_neg off]
    rfl
  · have whole : min (position - start) Tiling.u16Max = position - start := by
      simp only [Tiling.maxDimension, Tiling.u16Max] at small ⊢
      omega
    rw [if_neg before, whole, Cells.new]
    by_cases after : start < position
    · have on_ : (start : Int) < position := by omega
      have size : (position : Int) - start = (position - start : Nat) := by omega
      rw [if_pos on_, dif_pos ⟨by omega, by omega⟩, size]
      rfl
    · have off : ¬(start : Int) < position := by omega
      rw [if_neg off, dif_neg (by omega)]
      rfl

-- The layouts of a window of a document are alike.
theorem layouts_alike (ops : List Op) {window : Window} (reached : window ∈ (World.run ops).document.layout.windowList)
    (active : Option PaneId) : Alike window active := by
  have wellFormed := (Tiling.run_wellFormed ops).1
  have tiles := (wellFormed.windows window reached).tiles
  cases zoom : window.zoom with
  | some pane =>
    have mac : (Layout.new window true active).root.panes.map (fun pane => (pane.id, pane.geometry)) =
        [(pane, ⟨0, 0, window.cols.get, window.rows.get⟩)] ∧ (Layout.new window true active).root.dividers = [] := by
      rw [Layout.new, zoom]
      exact ⟨rfl, rfl⟩
    have tui : Tui.windowGeometry window = ⟨[⟨pane, ⟨0, 0, window.cols.get, window.rows.get⟩, none⟩], []⟩ := by
      rw [Tui.windowGeometry, zoom]
    refine ⟨?_, fun col row => ?_, fun divider inside => ?_, fun divider inside => ?_⟩
    · rw [mac.1, tui]
      rfl
    · rw [mac.2, tui]
      simp
    · rw [mac.2] at inside
      cases inside
    · rw [mac.2] at inside
      cases inside
  | none =>
    obtain ⟨chosen, index, panes, dividers⟩ := @new_unzoomed window active zoom
    have same : Tui.unzoomed window = window := by
      rw [Tui.unzoomed, ← zoom]
    have tiled := Tui.sound_tiled tiles
    have stands := walk_stands chosen tiled 0 0 0
    have lined : ∀ divider, divider ∈ (Layout.new window true active).root.dividers ↔
        ∃ line ∈ (Tui.walk window.tree 0 0).lines, divider = dividerOf line := by
      rw [dividers]
      exact stands.dividers
    refine ⟨?_, fun col row => ?_, fun divider inside => ?_, fun divider inside segment own col row has holds => ?_⟩
    · rw [panes, List.map_append, floating_panes, Tui.windowGeometry, zoom, List.map_append]
      exact congrArg (· ++ _) stands.panes
    · constructor
      · rintro ⟨divider, inside, has⟩
        obtain ⟨line, own, rfl⟩ := (lined divider).1 inside
        obtain ⟨place, rfl, rfl, holds⟩ := has_iff.1 has
        obtain ⟨segment, there, _, within⟩ := Tui.line_divider tiled own holds
        rw [same] at there
        exact ⟨segment, there, has_iff.2 ⟨place, rfl, rfl, within⟩⟩
      · rintro ⟨segment, own, has⟩
        obtain ⟨line, inside, _, within⟩ := Tui.divider_line tiles zoom own
        obtain ⟨place, rfl, rfl, holds⟩ := has_iff.1 has
        exact ⟨dividerOf line, (lined _).2 ⟨line, inside, rfl⟩, has_iff.2 ⟨place, rfl, rfl, within place holds⟩⟩
    · obtain ⟨line, own, rfl⟩ := (lined divider).1 inside
      have holds : line.2.Holds line.2.start := fun axis => ⟨le_rfl, Nat.lt_add_of_pos_right ((Tui.walk_thin tiled own).long axis)⟩
      obtain ⟨segment, there, _, within⟩ := Tui.line_divider tiled own holds
      rw [same] at there
      exact ⟨segment, there, _, _, has_iff.2 ⟨_, rfl, rfl, holds⟩, has_iff.2 ⟨_, rfl, rfl, within⟩⟩
    · obtain ⟨line, there, rfl⟩ := (lined divider).1 inside
      obtain ⟨line', there', grip, within⟩ := Tui.divider_line tiles zoom own
      obtain ⟨place, rfl, rfl, here⟩ := has_iff.1 has
      obtain ⟨place', cols, rows, here'⟩ := has_iff.1 holds
      have one : place = place' := by
        funext axis
        cases axis
        · exact_mod_cast cols
        · exact_mod_cast rows
      have is : line = line' := Tui.unique_line tiled there there' here (one ▸ within place' here')
      rw [grip, ← is]
      refine ⟨rfl, rfl, fun x y left top => resize_line ?_⟩
      have wide := window.cols.bound
      have high := window.rows.bound
      cases line.1.axis
      · exact left.le.trans wide
      · exact top.le.trans high

theorem layouts_alike_staggered : Alike Tui.staggered none := by
  have reached : Tui.staggered ∈ (World.run [Tui.staggeredPut]).document.layout.windowList := by
    rw [Tui.staggeredPut_windows]
    exact List.mem_cons_self
  exact layouts_alike [Tui.staggeredPut] reached none

end Window

end Kido.PaneGeometry
