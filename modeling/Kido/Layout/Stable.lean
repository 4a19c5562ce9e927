import Kido.Layout.Place
import Kido.Layout.Handed

set_option autoImplicit false

namespace Kido.Tiling

section Calls

variable (calls : Node Leaf → Nat → Node Leaf → Prop)

inductive Pass : Nat → List Part → Bool → Nat → List Part → Prop where
  | last (left : Nat) (grow : Bool) : Pass left [] grow left []
  | stop (parts : List Part) (grow : Bool) : Pass 0 parts grow 0 parts
  | move {left rest : Nat} {grow : Bool} {part : Part} {parts after : List Part} {size : Nat} {child : Node Leaf}
      (some_left : left ≠ 0) (next : part.next grow = some size) (call : calls part.child size child)
      (later : Pass (left - 1) parts grow rest after) :
      Pass left (part :: parts) grow rest ({ part with child := child, size := size } :: after)
  | skip {left rest : Nat} {grow : Bool} {part : Part} {parts after : List Part} (some_left : left ≠ 0)
      (next : part.next grow = none) (later : Pass left parts grow rest after) :
      Pass left (part :: parts) grow rest (part :: after)

-- The `while` loop: it ends when a pass leaves nothing.
inductive Loop : Nat → List Part → Bool → List Part → Prop where
  | done (parts : List Part) (grow : Bool) : Loop 0 parts grow parts
  | turn {left rest : Nat} {grow : Bool} {parts between after : List Part} (some_left : left ≠ 0)
      (pass : Pass calls left parts grow rest between) (later : Loop rest between grow after) : Loop left parts grow after

-- The loop over the children of a split of the other axis.
inductive Each : List (Node Leaf) → Nat → List (Node Leaf) → Prop where
  | nil (wanted : Nat) : Each [] wanted []
  | cons {wanted : Nat} {child after : Node Leaf} {rest later : List (Node Leaf)} (call : calls child wanted after)
      (others : Each rest wanted later) : Each (child :: rest) wanted (after :: later)

end Calls

inductive Ends (axis : Axis) : Node Leaf → Nat → Node Leaf → Prop where
  | leaf (tile : Leaf) (wanted : Nat) : Ends axis (.leaf tile) wanted (.leaf (tile.setExtent axis (Cells.clamped (max wanted 1))))
  | along {children : List (Node Leaf)} {wanted current : Nat} {parts : List Part}
      (sizes : current = ((partsOf axis children).map Part.size).sum + (children.length - 1))
      (loop : Loop (Ends axis)
        ((current - max wanted ((Node.split axis children).minimum axis)) +
          (max wanted ((Node.split axis children).minimum axis) - current)) (partsOf axis children)
        (decide (current < max wanted ((Node.split axis children).minimum axis))) parts) :
      Ends axis (.split axis children) wanted (.split axis (parts.map Part.child))
  | across {split : Axis} {children after : List (Node Leaf)} {wanted : Nat} (other : split ≠ axis)
      (each : Each (Ends axis) children (max wanted ((Node.split split children).minimum axis)) after) :
      Ends axis (.split split children) wanted (.split split after)

section Reach

variable {axis : Axis} {height : Nat} {resize : Node Leaf → Nat → Node Leaf} {calls : Node Leaf → Nat → Node Leaf → Prop}

-- Calls for children within the bounds that the parts keep have the results of `resize`.
def Called (axis : Axis) (height : Nat) (resize : Node Leaf → Nat → Node Leaf) (calls : Node Leaf → Nat → Node Leaf → Prop) :
    Prop :=
  ∀ child n size, Spans axis child n → child.minimum axis ≤ size → n ≤ maxDimension → size ≤ maxDimension →
    child.height ≤ height → calls child size (resize child size)

theorem resizePass_pass (called : Called axis height resize calls) (grow : Bool) (left : Nat) (parts : List Part)
    (ok : ∀ part ∈ parts, part.Ok axis height (slack grow left)) :
    Pass calls left parts grow (resizePass resize grow left parts).1 (resizePass resize grow left parts).2 := by
  induction parts generalizing left with
  | nil => exact .last left grow
  | cons part rest ih =>
    by_cases zero : left = 0
    · simp only [resizePass, zero, if_true]
      exact .stop _ grow
    · have own := ok part List.mem_cons_self
      have tail : ∀ other ∈ rest, other.Ok axis height (slack grow left) := fun other member =>
        ok other (List.mem_cons_of_mem part member)
      cases next : part.next grow with
      | none =>
        simp only [resizePass, zero, if_false, next]
        exact .skip zero next (ih left tail)
      | some size =>
        simp only [resizePass, zero, if_false, next]
        have sized := own.next_bounds zero next
        have bound := own.bound
        have call := called part.child part.size size own.spans (own.least ▸ sized.1) (by omega) (by omega) own.shallow
        have smaller : slack grow (left - 1) ≤ slack grow left := by
          cases grow <;> simp only [slack, if_true, Bool.false_eq_true, if_false] <;> omega
        exact .move zero next call (ih (left - 1) fun other member => (tail other member).mono smaller)

-- While a pass hands a cell out or more, the loop ends; with as many turns as there are cells its model does too.
theorem resizeLoop_loop (resizes : Resizes axis height resize) (called : Called axis height resize calls) (grow : Bool)
    (fuel left : Nat) (parts : List Part) (enough : left ≤ fuel) (nonempty : parts ≠ [])
    (ok : ∀ part ∈ parts, part.Ok axis height (slack grow left))
    (room : grow = true ∨ (parts.map Part.minimum).sum + left ≤ (parts.map Part.size).sum) :
    Loop calls left parts grow (resizeLoop resize grow fuel left parts) := by
  induction fuel generalizing left parts with
  | zero =>
    obtain rfl := Nat.le_zero.1 enough
    exact .done parts grow
  | succ fuel ih =>
    by_cases zero : left = 0
    · subst zero
      exact .done parts grow
    · have less : (resizePass resize grow left parts).1 < left := resizePass_left_lt grow left parts zero
        (movable_part grow left parts zero nonempty room)
      obtain ⟨stays, roomy⟩ := resizePass_room resize grow left parts nonempty room
      simp only [resizeLoop, zero, if_false]
      exact .turn zero (resizePass_pass called grow left parts ok)
        (ih _ _ (by omega) stays (resizePass_ok resizes grow left parts ok) roomy)

end Reach

theorem each_of_forall {calls : Node Leaf → Nat → Node Leaf → Prop} {resize : Node Leaf → Nat → Node Leaf} {wanted : Nat}
    (children : List (Node Leaf)) (each : ∀ child ∈ children, calls child wanted (resize child wanted)) :
    Each calls children wanted (children.map fun child => resize child wanted) := by
  induction children with
  | nil => exact .nil wanted
  | cons child rest ih =>
    exact .cons (each child List.mem_cons_self) (ih fun other member => each other (List.mem_cons_of_mem child member))

theorem resizeAxisFuel_ends (axis : Axis) (fuel : Nat) (node : Node Leaf) (n wanted : Nat) (spans : Spans axis node n)
    (deep : node.height ≤ fuel) (bound : n ≤ maxDimension) (small : wanted ≤ maxDimension) :
    Ends axis node wanted (resizeAxisFuel axis fuel node wanted) := by
  induction fuel generalizing node n wanted with
  | zero =>
    match node with
    | .leaf tile => simp at deep
    | .split split children => simp [Node.height_split] at deep
  | succ fuel ih =>
    have least := spans.minimum_le
    match node with
    | .leaf tile =>
      rw [resizeAxisFuel, Node.minimum_leaf]
      exact .leaf tile wanted
    | .split split children =>
      have shallow (child : Node Leaf) (member : child ∈ children) : child.height ≤ fuel := by
        have below := Node.height_child split children child member
        omega
      by_cases same : split = axis
      · subst split
        have resizes : Resizes axis fuel (resizeAxisFuel axis fuel) := by
          intro child m size childSpans least bound small deep
          have result := resizeAxisFuel_spans axis fuel child m size childSpans deep bound small
          rw [max_eq_left least] at result
          exact ⟨result, resizeAxisFuel_kept axis fuel child size⟩
        have called : Called axis fuel (resizeAxisFuel axis fuel) (Ends axis) :=
          fun child m size childSpans _ bound small deep => ih child m size childSpans deep bound small
        obtain ⟨several, each, total⟩ := Spans.along_iff.mp spans
        have sizes : ((partsOf axis children).map Part.size).sum + (children.length - 1) = n := by
          rw [partsOf_sizes]
          exact total
        have floor : (Node.split axis children).minimum axis ≤ max wanted ((Node.split axis children).minimum axis) :=
          le_max_right _ _
        have loop := resizeLoop_loop resizes called _ _ _ (partsOf axis children) le_rfl (partsOf_ne_nil spans)
          (partsOf_ok spans bound shallow (max_le small (least.trans bound))) (partsOf_room spans floor)
        simp only [resizeAxisFuel, if_true, sizes]
        exact .along sizes.symm loop
      · have across := (Spans.across_iff same).mp spans
        simp only [resizeAxisFuel, same, if_false]
        apply Ends.across same
        apply each_of_forall
        intro child member
        exact ih child n _ (across.2 child member) (shallow child member) bound (max_le small (least.trans bound))

theorem resizeAxis_ends (axis : Axis) (node : Node Leaf) (n wanted : Nat) (spans : Spans axis node n) (bound : n ≤ maxDimension)
    (small : wanted ≤ maxDimension) : Ends axis node wanted (resizeAxis axis node wanted) :=
  resizeAxisFuel_ends axis node.height node n wanted spans le_rfl bound small

theorem resizeAxisFuel_same (axis : Axis) (fuel : Nat) (node : Node Leaf) (n : Nat) (spans : Spans axis node n) :
    resizeAxisFuel axis fuel node n = node := by
  induction fuel generalizing node with
  | zero => rfl
  | succ fuel ih =>
    have wanted : max n (node.minimum axis) = n := max_eq_left spans.minimum_le
    match node with
    | .leaf tile =>
      have extent := Spans.leaf_iff.1 spans
      rw [resizeAxisFuel, wanted, ← extent]
      cases axis <;> simp only [Leaf.setExtent, Leaf.extent, pick, Cells.clamped_self]
    | .split split children =>
      by_cases same : split = axis
      · subst split
        have total := (Spans.along_iff.mp spans).2.2
        have starts : (partsOf axis children).map Part.child = children := by
          simp [partsOf, Function.comp_def]
        simp only [resizeAxisFuel, if_true, partsOf_sizes, total, wanted, Nat.sub_self, Nat.add_zero, resizeLoop, starts]
      · have across := (Spans.across_iff same).mp spans
        simp only [resizeAxisFuel, same, if_false, wanted]
        congr 1
        conv_rhs => rw [← List.map_id children]
        exact List.map_congr_left fun child member => ih child (across.2 child member)

theorem resizeAxis_same (axis : Axis) (node : Node Leaf) (n : Nat) (spans : Spans axis node n) : resizeAxis axis node n = node :=
  resizeAxisFuel_same axis node.height node n spans

end Kido.Tiling

namespace Kido.Tiling

def Window.resized (window : Window) (wanted : Nat × Nat) (cellPx : Option CellPixels) : Window :=
  let size := extent window.tree (window.floats.any Float.border) wanted
  { window with
    tree := resizeAxis .vertical (resizeAxis .horizontal window.tree size.1) size.2
    floats := place (window.floats.map Float.input) size.1 size.2
    cols := Cells.clamped size.1
    rows := Cells.clamped size.2
    cellPx := cellPx.or window.cellPx }

theorem resize_eq (window : Window) (wanted : Nat × Nat) (cellPx : Option CellPixels) :
    resize window wanted cellPx =
      (decide (window.resized wanted cellPx ≠ window), window.resized wanted cellPx) := by
  show (if window.resized wanted cellPx ≠ window then (true, window.resized wanted cellPx) else (false, window)) = _
  by_cases same : window.resized wanted cellPx = window
  · rw [if_neg (not_not.2 same), same]
    simp
  · rw [if_pos same]
    simp [same]

-- The window has the size that was asked for, or what the tree and the borders of the floats need; the tree has its shape, the
-- panes stay in order, each has a cell or more, and the loops that hand the cells out end.
structure Exact (window resized : Window) (wanted : Axis → Nat) : Prop where
  size : ∀ axis, resized.size axis =
    max (max (wanted axis) (window.tree.minimum axis)) (if window.floats.any Float.border then 3 else 0)
  tree : resized.tree.map Leaf.pane = window.tree.map Leaf.pane
  floats : resized.floats.map Float.pane = window.floats.map Float.pane
  fills : ∀ axis, Spans axis resized.tree (resized.size axis)
  leaves : ∀ leaf ∈ resized.tree.leaves, ∀ axis, 1 ≤ leaf.extent axis
  placed : ∀ float ∈ resized.floats, 1 ≤ float.cols.get ∧ 1 ≤ float.rows.get ∧
    float.Inside resized.cols.get resized.rows.get
  ends : ∃ between, Ends .horizontal window.tree (resized.size .horizontal) between ∧
    Ends .vertical between (resized.size .vertical) resized.tree

section Window

variable {window : Window} (wellFormed : window.WellFormed) {wanted : Nat × Nat} (narrow : wanted.1 ≤ maxDimension)
  (short : wanted.2 ≤ maxDimension) (cellPx : Option CellPixels)

theorem resized_tree : (window.resized wanted cellPx).tree.map Leaf.pane = window.tree.map Leaf.pane :=
  (resizeAxis_kept .vertical _ _).1.trans (resizeAxis_kept .horizontal _ _).1

include wellFormed

theorem resized_floats : (window.resized wanted cellPx).floats.map Float.pane = window.floats.map Float.pane ∧
    (window.resized wanted cellPx).floats.any Float.border = window.floats.any Float.border := by
  have placed : (window.resized wanted cellPx).floats = _ := place_input window.floats _ _ wellFormed.z
  rw [placed, List.map_map, List.any_map]
  exact ⟨rfl, rfl⟩

include narrow short

theorem resized_size (axis : Axis) :
    (window.resized wanted cellPx).size axis =
      pick axis (extent window.tree (window.floats.any Float.border) wanted).1
        (extent window.tree (window.floats.any Float.border) wanted).2 := by
  obtain ⟨one, bound, _⟩ := extent_bound wellFormed.toSound wanted narrow short axis
  cases axis with
  | horizontal => exact Cells.clamped_get _ one bound
  | vertical => exact Cells.clamped_get _ one bound

theorem resized_wellFormed : (window.resized wanted cellPx).WellFormed := by
  have formed := (resize_wellFormed wellFormed wanted narrow short cellPx).1
  rw [resize_eq] at formed
  exact formed

theorem resized_exact : Exact window (window.resized wanted cellPx) fun axis => pick axis wanted.1 wanted.2 := by
  have size := resized_size wellFormed narrow short cellPx
  have formed := resized_wellFormed wellFormed narrow short cellPx
  constructor
  case size =>
    intro axis
    have one : 1 ≤ window.tree.minimum axis := minimum_positive axis _ fun none_ => by
      obtain ⟨leaf, first⟩ := (wellFormed.tiles axis).firstLeaf_some
      have member := firstLeaf_mem _ _ first
      rw [none_] at member
      cases member
    rw [size]
    cases axis <;> simp only [extent, pick] <;> split <;> omega
  case tree => exact resized_tree cellPx
  case floats => exact (resized_floats wellFormed cellPx).1
  case fills => exact formed.tiles
  case leaves => exact fun leaf _ axis => leaf.extent_positive axis
  case placed => exact fun float member => ⟨float.cols.positive, float.rows.positive, formed.inside float member⟩
  case ends =>
    have wide := extent_bound wellFormed.toSound wanted narrow short .horizontal
    have tall := extent_bound wellFormed.toSound wanted narrow short .vertical
    have first := wellFormed.tiles .horizontal
    have second := (resizeAxis_kept .horizontal window.tree
      (extent window.tree (window.floats.any Float.border) wanted).1).2 .vertical (by decide) _ (wellFormed.tiles .vertical)
    rw [size, size]
    exact ⟨_, resizeAxis_ends .horizontal _ _ _ first (window.tree_bound .horizontal) wide.2.1,
      resizeAxis_ends .vertical _ _ _ second (window.tree_bound .vertical) tall.2.1⟩

theorem resized_again : (window.resized wanted cellPx).resized wanted cellPx = window.resized wanted cellPx := by
  have formed := resized_wellFormed wellFormed narrow short cellPx
  have size := resized_size wellFormed narrow short cellPx
  have wide := extent_bound wellFormed.toSound wanted narrow short .horizontal
  have tall := extent_bound wellFormed.toSound wanted narrow short .vertical
  have tree := @resized_tree window wanted cellPx
  have minimum (axis : Axis) : (window.resized wanted cellPx).tree.minimum axis = window.tree.minimum axis := by
    rw [← Node.minimum_map axis Leaf.pane, tree, Node.minimum_map]
  have border := (@resized_floats window wellFormed wanted cellPx).2
  have same : extent (window.resized wanted cellPx).tree ((window.resized wanted cellPx).floats.any Float.border) wanted =
      extent window.tree (window.floats.any Float.border) wanted := by
    simp only [extent, minimum, border]
  have horizontal := formed.tiles .horizontal
  have vertical := formed.tiles .vertical
  rw [size] at horizontal vertical
  simp only [pick] at horizontal vertical
  have cols : (window.resized wanted cellPx).cols.get = (extent window.tree (window.floats.any Float.border) wanted).1 := size .horizontal
  have rows : (window.resized wanted cellPx).rows.get = (extent window.tree (window.floats.any Float.border) wanted).2 := size .vertical
  have floats := place_same (window.resized wanted cellPx).floats _ _ formed.z formed.inside (Cells.bound _) (Cells.bound _)
  rw [cols, rows] at floats
  have pixels : cellPx.or (cellPx.or window.cellPx) = cellPx.or window.cellPx := by cases cellPx <;> rfl
  conv_lhs => rw [Window.resized]
  simp only [same, floats]
  rw [resizeAxis_same .horizontal _ _ horizontal, resizeAxis_same .vertical _ _ vertical]
  simp only [Window.resized, pixels]

end Window

theorem find_replaced {layout : Layout} (distinct : layout.windowIds.Nodup) {id : WindowId} {window resized : Window}
    (found : layout.windowList.find? (fun window => decide (window.id = id)) = some window) (same : resized.id = window.id) :
    (layout.replaceFirst (fun window => decide (window.id = id)) fun _ => [resized]).windowList.find?
      (fun window => decide (window.id = id)) = some resized := by
  have here : window.id = id := by simpa using List.find?_some found
  obtain ⟨before, after, split, replaced⟩ := Layout.replaceFirst_windowList (fun _ => [resized]) found
  have earlier : before.find? (fun window => decide (window.id = id)) = none := by
    rw [List.find?_eq_none]
    intro other member equal
    rw [Layout.windowIds, split, List.map_append, List.nodup_append] at distinct
    apply distinct.2.2 other.id (List.mem_map_of_mem member) window.id (List.mem_map_of_mem List.mem_cons_self)
    rw [here]
    exact of_decide_eq_true equal
  rw [replaced, List.find?_append, earlier, Option.none_or, List.singleton_append, List.find?_cons_of_pos]
  rw [decide_eq_true_eq, same, here]

-- Of every window of a reachable document, to every size: the window is given what it needs of the size that was asked for, and
-- the same call made again changes nothing.
theorem resize_window_exact (ops : List Op) (id : WindowId) (cols rows : Cells) (cellPx : Option CellPixels) (window : Window)
    (found : ((World.run ops).document.layout.window? id).map Prod.snd = some window) :
    let after := ((World.run ops).document.resizeWindow id cols rows cellPx).2
    ∃ resized, (after.layout.window? id).map Prod.snd = some resized ∧
      Exact window resized (fun axis => pick axis cols.get rows.get) ∧
      after.resizeWindow id cols rows cellPx = (.same, after) := by
  intro after
  have wellFormed := (run_wellFormed ops).1
  have listed := found
  rw [window_window] at listed
  have formed := wellFormed.windows window (List.mem_of_find?_eq_some listed)
  have exact_ := @resized_exact _ formed (cols.get, rows.get) cols.bound rows.bound cellPx
  have again := @resized_again _ formed (cols.get, rows.get) cols.bound rows.bound cellPx
  have there : (after.layout.window? id).map Prod.snd = some (window.resized (cols.get, rows.get) cellPx) := by
    show ((((World.run ops).document.resizeWindow id cols rows cellPx).2).layout.window? id).map Prod.snd = _
    simp only [Document.resizeWindow, found, resize_eq]
    by_cases changed : window.resized (cols.get, rows.get) cellPx = window
    · simp only [changed, ne_eq, not_true_eq_false, decide_false, Bool.false_eq_true, if_false]
      exact found
    · simp only [changed, ne_eq, not_false_eq_true, decide_true, if_true]
      rw [window_window]
      exact find_replaced wellFormed.windowIds listed rfl
  refine ⟨_, there, exact_, ?_⟩
  simp only [Document.resizeWindow, there, resize_eq, again, ne_eq, not_true_eq_false, decide_false, Bool.false_eq_true, if_false]

theorem resize_window_exact_nested :
    let wide : Cells := ⟨100, by decide, by decide⟩
    let flat : Cells := ⟨2, by decide, by decide⟩
    let after := ((World.run [nestedPut]).document.resizeWindow ⟨1⟩ wide flat none).2
    ∃ window, ((World.run [nestedPut]).document.layout.window? ⟨1⟩).map Prod.snd = some window ∧
      (window.tree.panes = [⟨1⟩, ⟨2⟩, ⟨3⟩] ∧ window.tree.height = 3 ∧ window.floats.map Float.pane = [⟨4⟩]) ∧
      ∃ resized, (after.layout.window? ⟨1⟩).map Prod.snd = some resized ∧
        Exact window resized (fun axis => pick axis wide.get flat.get) ∧
        after.resizeWindow ⟨1⟩ wide flat none = (.same, after) := by
  have shown : ((World.run [nestedPut]).document.layout.window? ⟨1⟩).map
      (fun found => (found.2.tree.panes, found.2.tree.height, found.2.floats.map Float.pane)) =
        some ([⟨1⟩, ⟨2⟩, ⟨3⟩], 3, [⟨4⟩]) := by decide +kernel
  obtain ⟨⟨session, window⟩, found, parts⟩ := Option.map_eq_some_iff.1 shown
  have listed := congrArg (Option.map Prod.snd) found
  rw [Prod.mk.injEq, Prod.mk.injEq] at parts
  exact ⟨window, listed, parts, resize_window_exact [nestedPut] ⟨1⟩ _ _ none window listed⟩

end Kido.Tiling
