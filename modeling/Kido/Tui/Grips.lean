import Kido.Client.Divider
import Kido.Layout.Sized
import Kido.Tui.Neighbour

set_option autoImplicit false

namespace Kido.Tiling.Sizing

-- A draft that is given an extent is the draft of a tree.
theorem setExtent_draft {axis : Axis} {tree : Node Leaf} {wanted : Nat} (bound : wanted ≤ maxDimension) :
    ∃ after : Node Leaf, setExtent axis (tree.map Leaf.draft) wanted = after.map Leaf.draft := by
  induction tree generalizing wanted with
  | leaf leaf =>
    let size : Cells := ⟨max wanted 1, le_max_right _ _, max_le bound (by decide)⟩
    have written : cells wanted = some size := cells_is bound
    rw [Node.map_leaf, setExtent_leaf]
    cases axis with
    | horizontal =>
      rw [DraftLeaf.withExtent, written]
      exact ⟨.leaf { leaf with cols := size }, rfl⟩
    | vertical =>
      rw [DraftLeaf.withExtent, written]
      exact ⟨.leaf { leaf with rows := size }, rfl⟩
  | split split children ih =>
    have : Inhabited (Node Leaf) := ⟨.split .horizontal []⟩
    by_cases same : split = axis
    · subst same
      rw [Node.map_split, setExtent_along]
      simp only [List.length_map]
      generalize sizes : (children.map (Node.map Leaf.draft)).map (fun child => (child.known split).getD 1) = sizes_
      have small : ∀ share ∈ portions (wanted - (children.length - 1)) (max sizes_.sum 1) sizes_ (wanted - (children.length - 1)),
          share ≤ maxDimension := by
        intro share inside
        have nonempty : sizes_ ≠ [] := by
          rintro rfl
          simp [portions] at inside
        have total := portions_sum (wanted - (children.length - 1)) (max sizes_.sum 1) sizes_ (wanted - (children.length - 1)) nonempty
        have part := List.single_le_sum (fun size _ => Nat.zero_le size) _ inside
        omega
      generalize portions (wanted - (children.length - 1)) (max sizes_.sum 1) sizes_ (wanted - (children.length - 1)) = shares at small ⊢
      have parts : ∀ pair ∈ children.zip shares, ∃ after : Node Leaf, setExtent split (pair.1.map Leaf.draft) pair.2 = after.map Leaf.draft :=
        fun pair inside => ih pair.1 (List.of_mem_zip inside).1 (small pair.2 (List.of_mem_zip inside).2)
      choose! after is using parts
      refine ⟨.split split ((children.zip shares).map after), ?_⟩
      rw [Node.map_split, List.zip_map_left, List.map_map, List.map_map]
      exact congrArg (Node.split split) (List.map_congr_left fun pair inside => is pair inside)
    · have parts : ∀ child ∈ children, ∃ after : Node Leaf, setExtent axis (child.map Leaf.draft) wanted = after.map Leaf.draft :=
        fun child inside => ih child inside bound
      choose! after is using parts
      refine ⟨.split split (children.map after), ?_⟩
      rw [Node.map_split, Node.map_split, setExtent_across same, List.map_map, List.map_map]
      exact congrArg (Node.split split) (List.map_congr_left is)

-- Sizes that fill the room are handed out as they are.
theorem portions_own {room : Nat} (sizes : List Nat) (positive : ∀ size ∈ sizes, 1 ≤ size) (some_ : 0 < room) :
    portions room room sizes sizes.sum = sizes := by
  induction sizes with
  | nil => rfl
  | cons size rest ih =>
    have one := positive size List.mem_cons_self
    match rest with
    | [] => simp [portions]
    | next :: later =>
      have tail := ih fun size inside => positive size (List.mem_cons_of_mem _ inside)
      have share : min (max (size * room / room) 1) (size :: next :: later).sum = size := by
        rw [Nat.mul_div_cancel _ some_, List.sum_cons]
        omega
      rw [portions]
      simp only [share]
      rw [List.sum_cons, Nat.add_sub_cancel_left, tail]

theorem cells_own (size : Cells) : cells size.get = some size := by
  rw [cells_is size.bound, Option.some.injEq]
  exact Cells.ext (max_eq_left size.positive)

-- A tree that is given its own extent stays as it is.
theorem setExtent_own {axis : Axis} {tree : Node Leaf} {n : Nat} (spans : Spans axis tree n) :
    setExtent axis (tree.map Leaf.draft) n = tree.map Leaf.draft := by
  induction tree generalizing n with
  | leaf leaf =>
    obtain rfl := Spans.leaf_iff.1 spans
    rw [Node.map_leaf, setExtent_leaf]
    cases axis with
    | horizontal =>
      have own : cells (leaf.extent .horizontal) = some leaf.cols := cells_own leaf.cols
      rw [DraftLeaf.withExtent, own]
      rfl
    | vertical =>
      have own : cells (leaf.extent .vertical) = some leaf.rows := cells_own leaf.rows
      rw [DraftLeaf.withExtent, own]
      rfl
  | split split children ih =>
    by_cases same : split = axis
    · subst same
      obtain ⟨several, own, total⟩ := Spans.along_iff.1 spans
      have nonempty : children.map (tiledSize split) ≠ [] := by
        rw [ne_eq, List.map_eq_nil_iff]
        rintro rfl
        simp at several
      obtain ⟨sizes, positive⟩ := known_sizes own nonempty
      have room : n - (children.length - 1) = (children.map (tiledSize split)).sum := by omega
      have each : ∀ size ∈ children.map (tiledSize split), 1 ≤ size := by
        intro size inside
        obtain ⟨child, there, rfl⟩ := List.mem_map.1 inside
        exact (own child there).positive
      rw [Node.map_split, setExtent_along]
      simp only [List.length_map, sizes, positive, room]
      rw [portions_own _ each (by omega), List.zip_map', List.map_map]
      exact congrArg (Node.split split) (List.map_congr_left fun child inside => ih child inside (own child inside))
    · obtain ⟨several, own⟩ := (Spans.across_iff same).1 spans
      rw [Node.map_split, setExtent_across same, List.map_map]
      exact congrArg (Node.split split) (List.map_congr_left fun child inside => ih child inside (own child inside))

end Kido.Tiling.Sizing

namespace Kido.Tui

open Kido.Tiling
open Kido.Tiling.Sizing

-- The node is in the tree, with its cells from a place on, and `plug` puts another one in its place.
inductive Located (inner : Node Leaf) (innerX innerY : Nat) : Node Leaf → Nat → Nat → (Node Leaf → Node Leaf) → Prop where
  | here : Located inner innerX innerY inner innerX innerY fun node => node
  | inside (split : Axis) (front : List (Node Leaf)) {child : Node Leaf} (back : List (Node Leaf)) {x y : Nat} {plug : Node Leaf → Node Leaf}
      (deeper : Located inner innerX innerY child (x + pick split (offsetOf split front) 0) (y + pick split 0 (offsetOf split front)) plug) :
      Located inner innerX innerY (.split split (front ++ child :: back)) x y fun node => .split split (front ++ plug node :: back)

section Located

variable {inner tree : Node Leaf} {innerX innerY x y : Nat} {plug : Node Leaf → Node Leaf}

theorem Located.hole (located : Located inner innerX innerY tree x y plug) : Hole inner tree plug := by
  induction located with
  | here => exact .here
  | inside split front back deeper ih => exact .inside split front back ih

theorem Located.tiled (located : Located inner innerX innerY tree x y plug) (tiled : Tiled tree) : Tiled inner := by
  induction located with
  | here => exact tiled
  | inside split front back deeper ih => exact ih (tiled.child (by simp))

-- Each line of a walk is between two children of a split.
theorem line_located (tiled : Tiled tree) {line : Grip × Rect} (own : line ∈ (walk tree x y).lines) :
    ∃ front first second back innerX innerY plug, Located (.split line.1.axis (front ++ first :: second :: back)) innerX innerY tree x y plug ∧
      line = between line.1.axis innerX innerY (.split line.1.axis (front ++ first :: second :: back)) (offsetOf line.1.axis front) first second := by
  induction tree generalizing x y with
  | leaf leaf => simp at own
  | split split children ih =>
    rcases (walk_line tiled).mp own with ⟨front, child, back, rfl, deeper⟩ | ⟨front, first, second, back, rfl, rfl⟩
    · obtain ⟨front', first, second, back', innerX, innerY, plug, located, is⟩ :=
        ih child (by simp) (tiled.child (by simp)) deeper
      exact ⟨front', first, second, back', innerX, innerY, _, .inside split front back located, is⟩
    · exact ⟨front, first, second, back, x, y, _, .here, rfl⟩

end Located

-- The place before another on an axis, and the one behind it.
def beforeOn (axis : Axis) (place : Place) : Place := Function.update place axis (place axis - 1)

def behindOn (axis : Axis) (place : Place) : Place := Function.update place axis (place axis + 1)

-- The divider is the one between two neighbours in a split of the window: each of its cells has a cell of the first one before it and
-- one of the second one behind it.
structure Parts (window : Window) (divider : Divider) (axis : Axis) (front : List (Node Leaf)) (one two : Node Leaf) (back : List (Node Leaf))
    (x y : Nat) (plug : Node Leaf → Node Leaf) : Prop where
  along : divider.grip.axis = axis
  located : Located (.split axis (front ++ one :: two :: back)) x y window.tree 0 0 plug
  first : divider.grip.first ∈ one.panes
  second : divider.grip.second ∈ two.panes
  before : ∀ place, divider.rect.Holds place →
    In one (x + pick axis (offsetOf axis front) 0) (y + pick axis 0 (offsetOf axis front)) (beforeOn axis place)
  behind : ∀ place, divider.rect.Holds place →
    In two (x + pick axis (offsetOf axis (front ++ [one])) 0) (y + pick axis 0 (offsetOf axis (front ++ [one]))) (behindOn axis place)

section Grip

variable {window : Window} (tiles : ∀ axis, Spans axis window.tree (window.size axis)) (unzoomed : window.zoom = none) {divider : Divider}
  (own : divider ∈ (windowGeometry window).dividers)

include tiles unzoomed own

theorem divider_line : ∃ line ∈ (walk window.tree 0 0).lines, divider.grip = line.1 ∧ ∀ place, divider.rect.Holds place → line.2.Holds place := by
  obtain ⟨tiled, sizes⟩ := Tiled.of_spans tiles
  rw [windowGeometry_dividers unzoomed] at own
  obtain ⟨line, inside, part⟩ := List.mem_flatMap.mp own
  refine ⟨line, inside, ?_, fun place holds => ?_⟩
  · obtain ⟨pair, -, rfl⟩ := List.mem_map.mp part
    rfl
  · have cover := segments_cover (walk window.tree 0 0).panes (walk window.tree 0 0).lines (walk_thin tiled inside) place
    have positive : 0 < (segmentsOf (walk window.tree 0 0).panes (walk window.tree 0 0).lines line).countP
        (fun divider => decide (divider.rect.Holds place)) := countP_pos.mpr ⟨divider, part, holds⟩
    by_contra off
    rw [if_neg off] at cover
    omega

theorem divider_parts : ∃ axis front one two back x y plug, Parts window divider axis front one two back x y plug ∧
    divider.grip.start = pick axis x y + offsetOf axis front ∧
    ∀ place, divider.rect.Holds place → place axis = pick axis x y + (offsetOf axis front + tiledSize axis one) := by
  obtain ⟨tiled, sizes⟩ := Tiled.of_spans tiles
  obtain ⟨line, inside, grip, within⟩ := divider_line tiles unzoomed own
  obtain ⟨front, one, two, back, x, y, plug, located, is⟩ := line_located tiled inside
  have split := located.tiled tiled
  generalize line.1.axis = axis at located is split
  subst is
  have whole (place : Place) (holds : divider.rect.Holds place) := holds_line.mp (within place holds)
  have first : Tiled one := split.child (by simp)
  have second : Tiled two := split.child (by simp)
  refine ⟨axis, front, one, two, back, x, y, plug, ⟨?_, located, ?_, ?_, fun place holds => ?_, fun place holds => ?_⟩, ?_, fun place holds => ?_⟩
  · rw [grip]
    rfl
  · rw [grip]
    exact firstPane_mem first
  · rw [grip]
    exact firstPane_mem second
  · obtain ⟨beside, at_⟩ := whole place holds
    have positive := first.positive axis
    refine (in_part split rfl).mpr ⟨beside.moved _, ?_⟩
    rw [beforeOn, Function.update_self]
    omega
  · obtain ⟨beside, at_⟩ := whole place holds
    have positive := second.positive axis
    refine (in_part split (show front ++ one :: two :: back = (front ++ [one]) ++ two :: back by simp)).mpr ⟨beside.moved _, ?_⟩
    rw [behindOn, Function.update_self]
    simp only [offsetOf, List.map_append, List.map_cons, List.map_nil, List.sum_append, List.sum_cons, List.sum_nil] at at_ ⊢
    omega
  · rw [grip]
    rfl
  · exact (whole place holds).2

end Grip

section Give

variable {axis : Axis} {front back : List (Node Leaf)} {one two : Node Leaf}

-- The draft in which two neighbours are given sizes is the draft of a tree.
theorem given_draft {wanted : Nat} (small : tiledSize axis one + tiledSize axis two ≤ maxDimension) :
    ∃ node : Node Leaf, given axis front back one two wanted = node.map Leaf.draft := by
  have most := dividerAt_le axis one two wanted
  obtain ⟨one', first⟩ := @setExtent_draft axis one (dividerAt axis one two wanted) (by omega)
  obtain ⟨two', second⟩ := @setExtent_draft axis two
    (tiledSize axis one + tiledSize axis two - dividerAt axis one two wanted) (by omega)
  refine ⟨.split axis (front ++ one' :: two' :: back), ?_⟩
  rw [given, first, second, Node.map_split, List.map_append, List.map_cons, List.map_cons]

-- A divider that is put where it is changes nothing.
theorem given_own {own other : Nat} (first : Spans axis one own) (second : Spans axis two other) :
    given axis front back one two (tiledSize axis one) = (Node.split axis (front ++ one :: two :: back)).map Leaf.draft := by
  have least := first.minimum_le
  have most := second.minimum_le
  have stays : dividerAt axis one two (tiledSize axis one) = tiledSize axis one := by
    rw [dividerAt, first.tiled, second.tiled]
    omega
  have rest : tiledSize axis one + tiledSize axis two - tiledSize axis one = tiledSize axis two := by omega
  rw [given, stays, rest, setExtent_own (first.tiled.symm ▸ first), setExtent_own (second.tiled.symm ▸ second), Node.map_split, List.map_append,
    List.map_cons, List.map_cons]

end Give

-- A draft in which a window is what it was is the draft of the layout.
theorem draftWith_same {layout : Layout} (wellFormed : layout.WellFormed) {window : Window} (inside : window ∈ layout.windowList) :
    layout.draftWith (draftOr window.id window.draft) = layout.draft := by
  have same (other : Window) (there : other ∈ layout.windowList) : draftOr window.id window.draft other = other.draft := by
    rw [draftOr]
    by_cases id : other.id = window.id
    · rw [if_pos id, unique_of_nodup_map Window.id _ wellFormed.windowIds there inside id]
    · rw [if_neg id]
  rw [Layout.draftWith, Layout.draft]
  congr 1
  refine List.map_congr_left fun session member => ?_
  have windows : session.windows.map (draftOr window.id window.draft) = session.windows.map Window.draft :=
    List.map_congr_left fun other own => same other (List.mem_flatMap_of_mem member own)
  simp only [Session.draft, windows]

-- The geometry of a window that is not zoomed parts its cells, and each of its dividers can be moved by its grip.
theorem grips_edit (ops : List Op) {window : Window} (reached : window ∈ (World.run ops).document.layout.windowList)
    (unzoomed : window.zoom = none) :
    let document := (World.run ops).document
    (∀ place, (∀ axis, place axis < window.size axis) →
      (tiledPanes window).countP (fun pane => decide (pane.rect.Holds place)) +
        (windowGeometry window).dividers.countP (fun divider => decide (divider.rect.Holds place)) = 1) ∧
    ∀ divider ∈ (windowGeometry window).dividers, ∃ axis front one two back x y plug, Parts window divider axis front one two back x y plug ∧
      (∀ col row size, divider.grip.firstSize col row = some size → ∃ node : Node Leaf, given axis front back one two size.get = node.map Leaf.draft ∧
        apply document.layout.draft (.resizePair divider.grip.first divider.grip.second size) =
          .ok (document.layout.draftWith (draftOr window.id (treeDraft window none (plug node))))) ∧
      ∀ col row, divider.rect.contains col row = true → ∃ size draft, divider.grip.firstSize col row = some size ∧
        apply document.layout.draft (.resizePair divider.grip.first divider.grip.second size) = .ok draft ∧
        ∀ newWindow shell, document.putWithShell ⟨document.revision, draft⟩ newWindow shell = (.ok [], document) := by
  intro document
  have wellFormed := (run_wellFormed ops).1
  have tiles := (wellFormed.windows window reached).tiles
  have distinct : (window.tree.panes ++ window.floats.map Tiling.Float.pane).Nodup := (List.nodup_flatMap.1 wellFormed.panes).1 window reached
  have tiled := sound_tiled tiles
  refine ⟨fun place within => ?_, fun divider own => ?_⟩
  · rw [tiledPanes_walk tiled distinct unzoomed, windowGeometry_dividers unzoomed]
    exact window_cover tiles place within
  · obtain ⟨axis, front, one, two, back, x, y, plug, parts, start, at_⟩ := divider_parts tiles unzoomed own
    have hole := parts.located.hole
    obtain ⟨extent, small, spans⟩ := hole.inner_spans (tiles axis)
    obtain ⟨-, each, total⟩ := Spans.along_iff.1 spans
    have first := each one (by simp)
    have second := each two (by simp)
    have narrow : extent ≤ maxDimension := small.trans (Cells.bound _)
    have sum : tiledSize axis one + tiledSize axis two ≤ maxDimension := by
      simp only [List.map_append, List.map_cons, List.sum_append, List.sum_cons] at total
      omega
    have accepted {size : Cells} {node : Node Leaf} (changed : given axis front back one two size.get = node.map Leaf.draft) :
        apply document.layout.draft (.resizePair divider.grip.first divider.grip.second size) =
          .ok (document.layout.draftWith (draftOr window.id (treeDraft window none (plug node)))) := by
      obtain ⟨zoom, kept, applied⟩ := apply_asks wellFormed reached hole (.resizePair _ _ size parts.first parts.second) first second changed
      rw [unzoomed, or_self] at kept
      rwa [kept] at applied
    refine ⟨axis, front, one, two, back, x, y, plug, parts, fun col row size _ => ?_, fun col row inside => ?_⟩
    · obtain ⟨node, changed⟩ := @given_draft axis front back one two size.get sum
      exact ⟨node, changed, accepted changed⟩
    · have holds : divider.rect.Holds fun axis => pick axis col row := Rect.holds_iff.mpr inside
      have is : pick axis col row = pick axis x y + (offsetOf axis front + tiledSize axis one) := at_ _ holds
      have positive := first.positive
      let size : Cells := ⟨tiledSize axis one, positive, by omega⟩
      have asked : divider.grip.firstSize col row = some size := by
        have bound := size.bound
        have own : min (pick axis col row - divider.grip.start) u16Max = tiledSize axis one := by
          simp only [size, maxDimension, u16Max] at bound ⊢
          omega
        rw [Grip.firstSize, parts.along, if_neg (by omega), own, Cells.new, dif_pos ⟨positive, bound⟩]
      refine ⟨size, _, asked, accepted (given_own first second), fun newWindow shell => ?_⟩
      have back : treeDraft window none (plug (.split axis (front ++ one :: two :: back))) = window.draft := by
        rw [hole.plug_self, ← unzoomed]
        rfl
      rw [back, draftWith_same wellFormed reached]
      exact putWithShell_back wellFormed newWindow shell

theorem grips_edit_staggered :
    (tiledPanes staggered).countP (fun pane => decide (pane.rect.Holds fun _ => 2)) +
      (windowGeometry staggered).dividers.countP (fun divider => decide (divider.rect.Holds fun _ => 2)) = 1 := by
  have reached : staggered ∈ (World.run [staggeredPut]).document.layout.windowList := by
    rw [staggeredPut_windows]
    exact List.mem_cons_self
  refine (grips_edit [staggeredPut] reached rfl).1 (fun _ => 2) fun axis => ?_
  cases axis <;> decide

end Kido.Tui
