import Kido.Layout.Sized

set_option autoImplicit false

namespace Kido.Tiling.Sizing

instance : Tile DraftLeaf where
  paneId leaf :=
    match leaf.pane with
    | .existing id => some id
    | .new _ => none
  extent leaf axis := (pick axis leaf.cols leaf.rows).map Cells.get

inductive Edge where
  | left
  | right
  | top
  | bottom
deriving DecidableEq

inductive Edit where
  | resizeBy (pane : PaneId) (edge : Edge) (delta : Cells)
  | resizePair (first second : PaneId) (firstSize : Cells)
  | equalize (pane : PaneId)
deriving DecidableEq

inductive Refusal where
  | gone (id : String)
  | invalid (reason : String)
deriving DecidableEq

abbrev Tree := Node DraftLeaf

def is (node : Tree) (pane : PaneId) : Bool :=
  match node with
  | .leaf leaf => decide (Tile.paneId leaf = some pane)
  | .split .. => false

def cells (count : Nat) : Option Cells := Cells.new (max (min count u16Max) 1)

def DraftLeaf.withExtent (axis : Axis) (wanted : Nat) (leaf : DraftLeaf) : DraftLeaf :=
  match axis with
  | .horizontal => { leaf with cols := cells wanted }
  | .vertical => { leaf with rows := cells wanted }

def portions (room sum : Nat) : List Nat → Nat → List Nat
  | [], _ => []
  | [_], left => [left]
  | size :: next :: rest, left =>
    let share := min (max (size * room / sum) 1) left
    share :: portions room sum (next :: rest) (left - share)

def setExtent (axis : Axis) : Tree → Nat → Tree :=
  Node.para (fun leaf wanted => .leaf (DraftLeaf.withExtent axis wanted leaf)) fun split children wanted =>
    if split = axis then
      let room := wanted - (children.length - 1)
      let sizes := children.map fun child => (child.1.known axis).getD 1
      let sum := max sizes.sum 1
      .split split ((children.zip (portions room sum sizes room)).map fun (child, share) => child.2 share)
    else .split split (children.map fun child => child.2 wanted)

def spread : Tree → Nat → Nat → Tree :=
  Node.fold (fun leaf cols rows => .leaf { leaf with cols := cells cols, rows := cells rows }) fun split children cols rows =>
    let count := max children.length 1
    let room := pick split cols rows - (count - 1)
    .split split (children.zipIdx.map fun (child, at_) =>
      let share := room / count + if at_ < room % count then 1 else 0
      match split with
      | .horizontal => child share rows
      | .vertical => child cols share)

def along : Edge → Axis × Bool
  | .left => (.horizontal, true)
  | .right => (.horizontal, false)
  | .top => (.vertical, true)
  | .bottom => (.vertical, false)

def give (node neighbor : Tree) (axis : Axis) (wanted : Nat) : Tree × Tree :=
  match node.known axis, neighbor.known axis with
  | some own, some other =>
    let total := own + other
    let least := node.minimum axis
    let most := total - neighbor.minimum axis
    if most < least then (node, neighbor)
    else
      let wanted := min (max wanted least) most
      (setExtent axis node wanted, setExtent axis neighbor (total - wanted))
  | _, _ => (node, neighbor)

def adjacent (children : List Tree) (at_ : Nat) (axis : Axis) (wanted : Nat) : List Tree :=
  match children[at_]?, children[at_ + 1]? with
  | some node, some neighbor =>
    let (node, neighbor) := give node neighbor axis wanted
    (children.set at_ node).set (at_ + 1) neighbor
  | _, _ => children

def resizeByIn (pane : PaneId) (edge : Edge) (delta : Nat) : Tree → Option Bool × Tree :=
  Node.para (fun leaf => (if is (.leaf leaf) pane then some false else none, .leaf leaf)) fun split children =>
    match children.findIdx? fun child => child.1.contains pane with
    | none => (none, .split split (children.map Prod.fst))
    | some at_ =>
      match children[at_]? with
      | none => (none, .split split (children.map Prod.fst))
      | some (_, inside, child) =>
        let nodes := (children.map Prod.fst).set at_ child
        match inside with
        | none => (none, .split split nodes)
        | some inside =>
          let (axis, leading) := along edge
          if inside || split ≠ axis then (some inside, .split split nodes)
          else
            match if at_ + 1 < nodes.length then some at_ else if at_ = 0 then none else some (at_ - 1) with
            | none => (none, .split split nodes)
            | some first =>
              match nodes[first]?.bind fun node => node.known axis with
              | none => (none, .split split nodes)
              | some size =>
                let wanted := if leading then size - delta else size + delta
                (some true, .split split (adjacent nodes first axis wanted))

def pairIn (first second : PaneId) (size : Nat) : Tree → Option Bool × Tree :=
  Node.para (fun leaf => (none, .leaf leaf)) fun split children =>
    match children.findIdx? (fun child => child.1.contains first), children.findIdx? fun child => child.1.contains second with
    | some a, some b =>
      if a = b then
        match children[a]? with
        | some (_, result, child) => (result, .split split ((children.map Prod.fst).set a child))
        | none => (none, .split split (children.map Prod.fst))
      else if b ≠ a + 1 then (some false, .split split (children.map Prod.fst))
      else (some true, .split split (adjacent (children.map Prod.fst) a split size))
    | _, _ => (none, .split split (children.map Prod.fst))

-- The children up to the first one that is changed, which is changed.
def equalizeFirst : List (Tree × Bool × Tree) → Bool × List Tree
  | [] => (false, [])
  | (node, done, changed) :: rest =>
    if done then (true, changed :: rest.map Prod.fst)
    else
      let (done, rest) := equalizeFirst rest
      (done, node :: rest)

def equalizeIn (pane : PaneId) : Tree → Bool × Tree :=
  Node.para (fun leaf => (false, .leaf leaf)) fun split children =>
    let node : Tree := .split split (children.map Prod.fst)
    if children.any fun child => is child.1 pane then
      (true, spread node ((node.known .horizontal).getD 1) ((node.known .vertical).getD 1))
    else
      let (done, nodes) := equalizeFirst children
      (done, .split split nodes)

def holds (window : DraftWindow) (pane : PaneId) : Bool :=
  window.tree.contains pane || window.floats.any fun float => decide (float.pane = .existing pane)

-- The window that holds the pane is changed, or the edit is refused.
def inWindow (layout : DraftLayout) (pane : PaneId) (change : DraftWindow → Except Refusal DraftWindow) :
    Except Refusal DraftLayout :=
  match (layout.sessions.flatMap DraftSession.windows).find? fun window => holds window pane with
  | none => .error (.gone pane.text)
  | some window => do
    let changed ← change window
    .ok ⟨replaceFirst (fun session => session.windows.any fun window => holds window pane)
      (fun session => [{ session with windows := replaceFirst (fun window => holds window pane) (fun _ => [changed]) session.windows }])
      layout.sessions⟩

def resizeFloat (edge : Edge) (delta : Cells) (float : DraftFloat) : DraftFloat :=
  let (axis, leading) := along edge
  let resized (size : Option Cells) : Option Cells :=
    size.bind fun size => Cells.new (if leading then max (size.get - delta.get) 1 else min (size.get + delta.get) u16Max)
  match axis with
  | .horizontal => { float with cols := resized float.cols }
  | .vertical => { float with rows := resized float.rows }

def apply (layout : DraftLayout) : Edit → Except Refusal DraftLayout
  | .resizeBy pane edge delta =>
    inWindow layout pane fun window =>
      let window := { window with zoom := none }
      if window.floats.any fun float => decide (float.pane = .existing pane) then
        .ok { window with
          floats := replaceFirst (fun float => decide (float.pane = .existing pane)) (fun float => [resizeFloat edge delta float]) window.floats }
      else .ok { window with tree := (resizeByIn pane edge delta.get window.tree).2 }
  | .resizePair first second firstSize =>
    inWindow layout first fun window =>
      if holds window second then
        match pairIn first second firstSize.get window.tree with
        | (some true, tree) => .ok { window with tree := tree }
        | _ => .error (.invalid "the panes are not neighbours across one divider")
      else .error (.gone second.text)
  | .equalize pane =>
    inWindow layout pane fun window => .ok { window with tree := (equalizeIn pane window.tree).2 }

end Kido.Tiling.Sizing
