import Mathlib.Data.List.Sort
import Kido.Client.Apply

set_option autoImplicit false

namespace Kido.Tui

open Kido.Tiling
open Kido.Tiling.Sizing (Edge)

structure Rect where
  x : Nat
  y : Nat
  cols : Nat
  rows : Nat
deriving DecidableEq

namespace Rect

def contains (rect : Rect) (x y : Nat) : Bool :=
  decide (rect.x ≤ x ∧ rect.y ≤ y ∧ x - rect.x < rect.cols ∧ y - rect.y < rect.rows)

def grown (rect : Rect) (amount : Nat) : Rect :=
  ⟨rect.x - amount, rect.y - amount, rect.cols + amount + min rect.x amount, rect.rows + amount + min rect.y amount⟩

end Rect

structure Pane where
  pane : PaneId
  rect : Rect
  border : Option String
deriving DecidableEq

def Pane.outer (pane : Pane) : Rect := pane.rect.grown (if pane.border.isSome then 1 else 0)

def Pane.covers (pane : Pane) (x y : Nat) : Bool := pane.outer.contains x y

-- The sides on which a cell of a divider goes on: up, right, down, left.
structure Connections where
  bits : UInt8
deriving DecidableEq

namespace Connections

def UP : Connections := ⟨1⟩

def RIGHT : Connections := ⟨2⟩

def DOWN : Connections := ⟨4⟩

def LEFT : Connections := ⟨8⟩

def VERTICAL : Connections := ⟨UP.bits ||| DOWN.bits⟩

def HORIZONTAL : Connections := ⟨LEFT.bits ||| RIGHT.bits⟩

def with_ (one other : Connections) : Connections := ⟨one.bits ||| other.bits⟩

end Connections

structure Grip where
  first : PaneId
  second : PaneId
  axis : Axis
  start : Nat
deriving DecidableEq

-- The size that a pointer asks for the part before the divider; none where it is no size of a pane.
def Grip.firstSize (grip : Grip) (x y : Nat) : Option Cells :=
  if pick grip.axis x y < grip.start then none else Cells.new (min (pick grip.axis x y - grip.start) u16Max)

structure Divider where
  rect : Rect
  connections : List Connections
  panes : List PaneId
  grip : Grip
deriving DecidableEq

structure Geometry where
  panes : List Pane
  dividers : List Divider
deriving DecidableEq

namespace Geometry

def top (geometry : Geometry) (x y : Nat) : Option Pane := geometry.panes.reverse.find? fun pane => pane.covers x y

def divider (geometry : Geometry) (x y : Nat) : Option Grip :=
  if (geometry.top x y).isSome then none else (geometry.dividers.find? fun line => line.rect.contains x y).map Divider.grip

end Geometry

-- The panes that a walk over a tree pushes, and the lines between them.
structure Walked where
  panes : List Pane
  lines : List (Grip × Rect)

def Walked.append (first second : Walked) : Walked := ⟨first.panes ++ second.panes, first.lines ++ second.lines⟩

-- The line behind the children so far, which is pushed with the next pane.
structure Pending where
  first : PaneId
  start : Nat
  rect : Rect

section Walk

variable (split : Axis) (cols rows : Nat) (x y : Nat)

def lineOf (second : PaneId) (pending : Pending) : Grip × Rect := (⟨pending.first, second, split, pending.start⟩, pending.rect)

-- Over the children that are left, from the offset that they start at.
def walkChildren : List (Node Leaf × (Nat → Nat → Walked)) → Nat → Option Pending → Walked
  | [], _, _ => ⟨[], []⟩
  | (child, walk) :: rest, offset, previous =>
    let start := pick split x y + offset
    let walked := walk (x + pick split offset 0) (y + pick split 0 offset)
    match walked.panes.head? with
    | none => walked.append (walkChildren rest offset previous)
    | some pane =>
      let line : Walked := ⟨[], (previous.map (lineOf split pane.pane)).toList⟩
      let offset := offset + (child.known split).getD 0
      if rest = [] then walked.append line
      else
        let rect : Rect := ⟨x + pick split offset 0, y + pick split 0 offset, pick split 1 cols, pick split rows 1⟩
        (walked.append line).append (walkChildren rest (offset + 1) (some ⟨pane.pane, start, rect⟩))

end Walk

def walk : Node Leaf → Nat → Nat → Walked :=
  Node.para (fun leaf x y => ⟨[⟨leaf.pane, ⟨x, y, leaf.cols.get, leaf.rows.get⟩, none⟩], []⟩) fun split children x y =>
    let node := Node.split split (children.map Prod.fst)
    walkChildren split ((node.known .horizontal).getD 0) ((node.known .vertical).getD 0) x y children 0 none

def edgeAxis : Edge → Axis
  | .left => .horizontal
  | .right => .horizontal
  | .top => .vertical
  | .bottom => .vertical

-- The other rectangle is right across a divider on the edge.
def across (edge : Edge) (rect other : Rect) : Bool :=
  match edge with
  | .left => decide (other.x + other.cols + 1 = rect.x)
  | .right => decide (rect.x + rect.cols + 1 = other.x)
  | .top => decide (other.y + other.rows + 1 = rect.y)
  | .bottom => decide (rect.y + rect.rows + 1 = other.y)

def rankLe (first second : Bool × Nat) : Bool :=
  match first.1, second.1 with
  | false, true => true
  | true, false => false
  | _, _ => decide (first.2 ≤ second.2)

-- The last of the greatest, as `max_by_key` takes it.
def lastMax : List (PaneId × (Bool × Nat)) → Option (PaneId × (Bool × Nat))
  | [] => none
  | first :: rest =>
    match lastMax rest with
    | none => some first
    | some best => if rankLe first.2 best.2 then some best else some first

def neighbour (window : Window) (active : PaneId) (edge : Edge) (cursor : Nat × Nat) : Option PaneId :=
  let panes := (walk window.tree 0 0).panes
  match panes.find? fun pane => decide (pane.pane = active) with
  | none => none
  | some found =>
    let rect := found.rect
    let axis := edgeAxis edge
    let start := pick axis rect.y rect.x
    let len := pick axis rect.rows rect.cols
    let position := start + min (pick axis cursor.2 cursor.1) (len - 1)
    let candidates := panes.filterMap fun pane =>
      let other := pane.rect
      let otherStart := pick axis other.y other.x
      let otherLen := pick axis other.rows other.cols
      let overlap := min (start + len) (otherStart + otherLen) - max start otherStart
      if across edge rect other = true ∧ 0 < overlap then
        some (pane.pane, (other.contains (pick axis other.x position) (pick axis position other.y), overlap))
      else none
    (lastMax candidates).map Prod.fst

-- A set of numbers in ascending order.
def ascending (numbers : List Nat) : List Nat := numbers.dedup.insertionSort (· ≤ ·)

-- Where a line is cut: at its ends, and beside the edges of panes.
def cutsOf (panes : List Pane) (axis : Axis) (start stop : Nat) : List Nat :=
  let edges := panes.flatMap fun pane =>
    let grown := pane.rect.grown 1
    [pick axis grown.y grown.x, pick axis (grown.y + grown.rows) (grown.x + grown.cols)]
  ascending (start :: stop :: edges.filter fun edge => decide (start < edge ∧ edge < stop))

-- The neighbours of a cell with the sides that they are on.
def connectionAt (lines : List (Grip × Rect)) (axis : Axis) (x y : Nat) : Connections :=
  let taken (x y : Nat) : Bool := lines.any fun line => line.2.contains x y
  let sides : List (Bool × Connections) :=
    [(decide (0 < y) && taken x (y - 1), .UP), (taken (x + 1) y, .RIGHT), (taken x (y + 1), .DOWN), (decide (0 < x) && taken (x - 1) y, .LEFT)]
  sides.foldl (fun connection side => if side.1 then connection.with_ side.2 else connection) (pick axis .VERTICAL .HORIZONTAL)

def segmentsOf (panes : List Pane) (lines : List (Grip × Rect)) (line : Grip × Rect) : List Divider :=
  let axis := line.1.axis
  let rect := line.2
  let start := pick axis rect.y rect.x
  let stop := start + pick axis rect.rows rect.cols
  let cuts := cutsOf panes axis start stop
  (cuts.zip cuts.tail).map fun pair =>
    let part : Rect := ⟨pick axis rect.x pair.1, pick axis pair.1 rect.y, pick axis 1 (pair.2 - pair.1), pick axis (pair.2 - pair.1) 1⟩
    { rect := part
      connections := (List.range part.rows).flatMap fun row => (List.range part.cols).map fun col =>
        connectionAt lines axis (part.x + col) (part.y + row)
      panes := (panes.filter fun pane => (pane.rect.grown 1).contains part.x part.y && !pane.rect.contains part.x part.y).map Pane.pane
      grip := line.1 }

def floatPane (float : Tiling.Float) : Pane :=
  ⟨float.pane, ⟨float.x, float.y, float.cols.get, float.rows.get⟩, if float.border then some float.title else none⟩

def windowGeometry (window : Window) : Geometry :=
  match window.zoom with
  | some pane => ⟨[⟨pane, ⟨0, 0, window.cols.get, window.rows.get⟩, none⟩], []⟩
  | none =>
    let walked := walk window.tree 0 0
    ⟨walked.panes ++ (window.floats.mergeSort fun one other => decide (one.z ≤ other.z)).map floatPane,
      walked.lines.flatMap (segmentsOf walked.panes walked.lines)⟩

end Kido.Tui
