import Kido.Layout.Handed
import Kido.Tui.Lines

set_option autoImplicit false

namespace Kido.Tui

open Kido.Tiling
open Kido.Tiling.Sizing (Edge)

def cross : Axis → Axis
  | .horizontal => .vertical
  | .vertical => .horizontal

theorem cross_ne (axis : Axis) : cross axis ≠ axis := by cases axis <;> decide

theorem ne_cross {axis other : Axis} (off : other ≠ axis) : other = cross axis := by
  cases axis <;> cases other <;> first | rfl | exact absurd rfl off

def leadingEdge : Edge → Bool
  | .left => true
  | .right => false
  | .top => true
  | .bottom => false

-- The place with a number on an axis and another one on the other axis.
def placeOf (axis : Axis) (number other : Nat) : Place := fun own => if own = axis then number else other

@[simp]
theorem placeOf_self (axis : Axis) (number other : Nat) : placeOf axis number other axis = number := if_pos rfl

@[simp]
theorem placeOf_cross (axis : Axis) (number other : Nat) : placeOf axis number other (cross axis) = other := if_neg (cross_ne axis)

theorem placeOf_eta (axis : Axis) (place : Place) : placeOf axis (place axis) (place (cross axis)) = place := by
  funext own
  by_cases same : own = axis
  · rw [same, placeOf_self]
  · rw [ne_cross same, placeOf_cross]

theorem holds_placeOf {rect : Rect} {axis : Axis} {number other : Nat} : rect.Holds (placeOf axis number other) ↔
    (rect.start axis ≤ number ∧ number < rect.start axis + rect.len axis) ∧
      rect.start (cross axis) ≤ other ∧ other < rect.start (cross axis) + rect.len (cross axis) := by
  constructor
  · intro holds
    have along := holds axis
    have beside := holds (cross axis)
    rw [placeOf_self] at along
    rw [placeOf_cross] at beside
    exact ⟨along, beside⟩
  · rintro ⟨along, beside⟩ own
    by_cases same : own = axis
    · rw [same, placeOf_self]
      exact along
    · rw [ne_cross same, placeOf_cross]
      exact beside

section Facing

variable {tree : Node Leaf} (tiled : Tiled tree) {x y : Nat} {leading : Bool} {axis : Axis} {line : Grip × Rect} {pane other : Pane}

-- The number of a cell right behind a line, seen from a side.
def behind (leading : Bool) (number : Nat) : Nat := if leading then number - 1 else number + 1

-- The number is among the cells of a rectangle on the axis.
def Spanned (axis : Axis) (rect : Rect) (number : Nat) : Prop := rect.start axis ≤ number ∧ number < rect.start axis + rect.len axis

-- The other rectangle is one cell off the side.
def Facing (leading : Bool) (axis : Axis) (rect other : Rect) : Prop :=
  if leading then other.start axis + other.len axis + 1 = rect.start axis else rect.start axis + rect.len axis + 1 = other.start axis

include tiled

theorem gap_holds (own : line ∈ (walk tree x y).lines) (alongside : Alongside leading axis line pane.rect) {number : Nat}
    (spanned : Spanned (cross axis) pane.rect number) : line.2.Holds (placeOf axis (line.2.start axis) number) := by
  have thick := (walk_thin tiled own).thick
  rw [alongside.same] at thick
  have low := alongside.low _ (cross_ne axis)
  have high := alongside.high _ (cross_ne axis)
  rw [holds_placeOf]
  rw [Spanned] at spanned
  omega

theorem far_in (inside : pane ∈ (walk tree x y).panes) (own : line ∈ (walk tree x y).lines) (alongside : Alongside leading axis line pane.rect)
    {number : Nat} (spanned : Spanned (cross axis) pane.rect number) :
    In tree x y (placeOf axis (behind leading (line.2.start axis)) number) := by
  have inner := line_inner tiled own
  rw [alongside.same] at inner
  have within := pane_within tiled inside (cross axis)
  rw [Spanned] at spanned
  intro own
  by_cases same : own = axis
  · rw [same, placeOf_self, behind]
    split_ifs <;> omega
  · rw [ne_cross same, placeOf_cross]
    omega

-- Of the panes that have a cell beside the pane, those that face it are behind the line.
theorem facing_iff (inside : other ∈ (walk tree x y).panes) (own : line ∈ (walk tree x y).lines)
    (alongside : Alongside leading axis line pane.rect) {number : Nat} (spanned : Spanned (cross axis) pane.rect number) :
    Facing leading axis pane.rect other.rect ∧ Spanned (cross axis) other.rect number ↔
      other.rect.Holds (placeOf axis (behind leading (line.2.start axis)) number) := by
  have next := alongside.next
  have positive := (pane_within tiled inside axis).1
  have inner := line_inner tiled own
  rw [alongside.same] at inner
  have off : ¬ other.rect.Holds (placeOf axis (line.2.start axis) number) := by
    intro holds
    exact ((paned_iff tiled).mp ⟨other, inside, holds⟩).2 ⟨line, own, gap_holds tiled own alongside spanned⟩
  rw [holds_placeOf] at off ⊢
  rw [Facing, Spanned, behind]
  rw [endOf] at next
  cases leading <;> simp only [if_true, Bool.false_eq_true, if_false] at next ⊢ <;> omega

-- Of two cells that are one beside the other behind a line, a pane has one.
theorem far_paned (inside : pane ∈ (walk tree x y).panes) (own : line ∈ (walk tree x y).lines) (alongside : Alongside leading axis line pane.rect)
    {number : Nat} (spanned : Spanned (cross axis) pane.rect number) (next : Spanned (cross axis) pane.rect (number + 1)) :
    ∃ there, Spanned (cross axis) pane.rect there ∧ Paned tree x y (placeOf axis (behind leading (line.2.start axis)) there) := by
  have inner := line_inner tiled own
  rw [alongside.same] at inner
  have far := far_in tiled inside own alongside spanned
  -- The corner is on the line, or behind it where the line is at the start of the pane.
  have block : InBlock (placeOf axis (if leading then line.2.start axis - 1 else line.2.start axis) number)
      (placeOf axis (behind leading (line.2.start axis)) number) := by
    intro own
    by_cases same : own = axis
    · rw [same, placeOf_self, placeOf_self, behind]
      split_ifs <;> omega
    · rw [ne_cross same, placeOf_cross, placeOf_cross]
      omega
  obtain ⟨place, here, paned⟩ := block_paned tiled block far
  have along := here axis
  have beside := here (cross axis)
  rw [placeOf_self] at along
  rw [placeOf_cross] at beside
  have spanned_ : Spanned (cross axis) pane.rect (place (cross axis)) := by
    rw [Spanned] at spanned next ⊢
    omega
  refine ⟨place (cross axis), spanned_, ?_⟩
  have off : place axis ≠ line.2.start axis := by
    intro same
    have gap := gap_holds tiled own alongside spanned_
    rw [← same, placeOf_eta] at gap
    exact ((paned_iff tiled).mp paned).2 ⟨line, own, gap⟩
  have is : place axis = behind leading (line.2.start axis) := by
    rw [behind]
    cases leading <;> simp only [if_true, Bool.false_eq_true, if_false] at along ⊢ <;> omega
  rwa [← is, placeOf_eta]

end Facing

section Candidates

theorem lastMax_none {list : List (PaneId × (Bool × Nat))} : lastMax list = none ↔ list = [] := by
  cases list with
  | nil => exact ⟨fun _ => rfl, fun _ => rfl⟩
  | cons first rest =>
    simp only [lastMax, reduceCtorEq, iff_false]
    cases lastMax rest with
    | none => simp
    | some best =>
      simp only
      split_ifs <;> simp

theorem lastMax_mem {list : List (PaneId × (Bool × Nat))} {best : PaneId × (Bool × Nat)} (is : lastMax list = some best) : best ∈ list := by
  induction list generalizing best with
  | nil => simp [lastMax] at is
  | cons first rest ih =>
    rw [lastMax] at is
    cases found : lastMax rest with
    | none =>
      simp only [found, Option.some.injEq] at is
      exact is ▸ List.mem_cons_self
    | some later =>
      simp only [found] at is
      split_ifs at is
      · exact List.mem_cons_of_mem _ (ih (found.trans is))
      · exact Option.some.inj is ▸ List.mem_cons_self

-- The one that is taken has the mark when one has it.
theorem lastMax_marked {list : List (PaneId × (Bool × Nat))} {best other : PaneId × (Bool × Nat)} (is : lastMax list = some best)
    (inside : other ∈ list) (marked : other.2.1 = true) : best.2.1 = true := by
  induction list generalizing best with
  | nil => simp at inside
  | cons first rest ih =>
    rw [lastMax] at is
    cases found : lastMax rest with
    | none =>
      rw [lastMax_none] at found
      subst found
      simp only [lastMax, Option.some.injEq] at is
      rw [List.mem_singleton] at inside
      rw [← is, ← inside, marked]
    | some later =>
      simp only [found] at is
      rcases List.mem_cons.mp inside with rfl | there
      · split_ifs at is with less
        · obtain rfl := Option.some.inj is
          cases flag : later.2.1 with
          | true => rfl
          | false => simp [rankLe, marked, flag] at less
        · rw [← Option.some.inj is, marked]
      · have own := ih found there
        split_ifs at is with less
        · rw [← Option.some.inj is, own]
        · rw [← Option.some.inj is]
          cases flag : first.2.1 with
          | true => rfl
          | false => simp [rankLe, own, flag] at less

-- What a pane is as a candidate for the neighbour.
def candidate (edge : Edge) (rect : Rect) (position : Nat) (pane : Pane) : Option (PaneId × (Bool × Nat)) :=
  let axis := edgeAxis edge
  let other := pane.rect
  let start := pick axis rect.y rect.x
  let len := pick axis rect.rows rect.cols
  let otherStart := pick axis other.y other.x
  let otherLen := pick axis other.rows other.cols
  let overlap := min (start + len) (otherStart + otherLen) - max start otherStart
  if across edge rect other = true ∧ 0 < overlap then
    some (pane.pane, (other.contains (pick axis other.x position) (pick axis position other.y), overlap))
  else none

-- The number of the cell of a rectangle that the cursor is in, or is nearest to.
def nearest (axis : Axis) (rect : Rect) (cursor : Nat × Nat) : Nat := rect.start axis + min (pick axis cursor.1 cursor.2) (rect.len axis - 1)

theorem pick_cross {α : Type} (axis : Axis) (one other : α) : pick axis other one = pick (cross axis) one other := by cases axis <;> rfl

theorem neighbour_is {window : Window} (distinct : ((walk window.tree 0 0).panes.map Pane.pane).Nodup) {pane : Pane}
    (inside : pane ∈ (walk window.tree 0 0).panes) (edge : Edge) (cursor : Nat × Nat) :
    neighbour window pane.pane edge cursor = (lastMax ((walk window.tree 0 0).panes.filterMap
      (candidate edge pane.rect (nearest (cross (edgeAxis edge)) pane.rect cursor)))).map Prod.fst := by
  have found : (walk window.tree 0 0).panes.find? (fun other => decide (other.pane = pane.pane)) = some pane := by
    generalize (walk window.tree 0 0).panes = panes at distinct inside
    induction panes with
    | nil => simp at inside
    | cons first rest ih =>
      rw [List.map_cons, List.nodup_cons] at distinct
      rcases List.mem_cons.mp inside with rfl | there
      · simp
      · have other : first.pane ≠ pane.pane := by
          intro same
          exact distinct.1 (same ▸ List.mem_map_of_mem there)
        rw [List.find?_cons_of_neg (by simpa using other), ih distinct.2 there]
  rw [neighbour]
  simp only [found]
  have position : nearest (cross (edgeAxis edge)) pane.rect cursor =
      pick (edgeAxis edge) pane.rect.y pane.rect.x + min (pick (edgeAxis edge) cursor.2 cursor.1) (pick (edgeAxis edge) pane.rect.rows pane.rect.cols - 1) := by
    cases edge <;> rfl
  rw [position]
  rfl

theorem across_iff {edge : Edge} {rect other : Rect} : across edge rect other = true ↔ Facing (leadingEdge edge) (edgeAxis edge) rect other := by
  cases edge <;> simp [across, Facing, leadingEdge, edgeAxis, Rect.start, Rect.len, pick]

theorem overlap_iff {axis : Axis} {rect other : Rect} :
    0 < min (pick axis rect.y rect.x + pick axis rect.rows rect.cols) (pick axis other.y other.x + pick axis other.rows other.cols) -
        max (pick axis rect.y rect.x) (pick axis other.y other.x) ↔
      ∃ number, Spanned (cross axis) rect number ∧ Spanned (cross axis) other number := by
  simp only [pick_cross axis rect.x rect.y, pick_cross axis rect.cols rect.rows, pick_cross axis other.x other.y, pick_cross axis other.cols other.rows]
  change 0 < min (rect.start _ + rect.len _) (other.start _ + other.len _) - max (rect.start _) (other.start _) ↔ _
  constructor
  · intro positive
    refine ⟨max (rect.start (cross axis)) (other.start (cross axis)), ?_, ?_⟩
    · rw [Spanned]
      omega
    · rw [Spanned]
      omega
  · rintro ⟨number, here, there⟩
    rw [Spanned] at here there
    omega

-- A pane is a candidate when it faces the edge and has a cell beside one of the pane.
theorem candidate_isSome {edge : Edge} {rect : Rect} {position : Nat} {pane : Pane} : (candidate edge rect position pane).isSome = true ↔
    Facing (leadingEdge edge) (edgeAxis edge) rect pane.rect ∧
      ∃ number, Spanned (cross (edgeAxis edge)) rect number ∧ Spanned (cross (edgeAxis edge)) pane.rect number := by
  rw [← across_iff, ← overlap_iff]
  simp only [candidate]
  split_ifs with both
  · exact ⟨fun _ => both, fun _ => rfl⟩
  · exact ⟨fun none_ => absurd none_ (by simp), fun own => absurd own both⟩

theorem contains_iff {rect : Rect} {x y : Nat} :
    rect.contains x y = true ↔ rect.x ≤ x ∧ rect.y ≤ y ∧ x - rect.x < rect.cols ∧ y - rect.y < rect.rows := by
  rw [Rect.contains, decide_eq_true_eq]

-- The mark of a candidate: it has a cell on the row or column.
theorem candidate_some {edge : Edge} {rect : Rect} {position : Nat} {pane : Pane} {found : PaneId × (Bool × Nat)}
    (positive : 0 < pane.rect.len (edgeAxis edge)) (is : candidate edge rect position pane = some found) :
    found.1 = pane.pane ∧ (found.2.1 = true ↔ Spanned (cross (edgeAxis edge)) pane.rect position) := by
  simp only [candidate] at is
  split_ifs at is with both
  obtain rfl := Option.some.inj is
  refine ⟨rfl, ?_⟩
  clear both
  rw [Spanned, contains_iff]
  cases edge <;> simp only [edgeAxis, cross, pick, Rect.start, Rect.len] at positive ⊢ <;> omega

end Candidates

section Spec

-- The window without its zoom.
def unzoomed (window : Window) : Window := { window with zoom := none }

-- The rectangle is at the border of the window.
def Touches (window : Window) (edge : Edge) (rect : Rect) : Prop :=
  match edge with
  | .left => rect.x = 0
  | .right => rect.x + rect.cols = window.cols.get
  | .top => rect.y = 0
  | .bottom => rect.y + rect.rows = window.rows.get

-- The place is that many cells beyond the edge, beside one of the rectangle.
def Ahead (edge : Edge) (rect : Rect) (steps : Nat) (place : Place) : Prop :=
  (match edge with
    | .left => place .horizontal + steps = rect.x
    | .right => place .horizontal + 1 = rect.x + rect.cols + steps
    | .top => place .vertical + steps = rect.y
    | .bottom => place .vertical + 1 = rect.y + rect.rows + steps) ∧
  Spanned (cross (edgeAxis edge)) rect (place (cross (edgeAxis edge)))

-- The other rectangle is on the other side of a divider that is along the edge.
def Beyond (window : Window) (edge : Edge) (rect other : Rect) : Prop :=
  ∃ gap far, Ahead edge rect 1 gap ∧ Ahead edge rect 2 far ∧ gap (cross (edgeAxis edge)) = far (cross (edgeAxis edge)) ∧
    (∃ divider ∈ (windowGeometry (unzoomed window)).dividers, divider.grip.axis = edgeAxis edge ∧ divider.rect.Holds gap) ∧ other.Holds far

-- The rectangle has the row or column of the cursor of another, or the one of the cell there that is nearest to it.
def AtCursor (edge : Edge) (rect : Rect) (cursor : Nat × Nat) (other : Rect) : Prop :=
  Spanned (cross (edgeAxis edge)) other (rect.start (cross (edgeAxis edge)) + pick (cross (edgeAxis edge)) cursor.1 cursor.2) ∨
    Spanned (cross (edgeAxis edge)) other (nearest (cross (edgeAxis edge)) rect cursor)

-- There is no neighbour exactly at the border of the window, and else it is beyond the edge, at the cursor where a pane is.
structure FindsNeighbour (window : Window) (pane : Pane) (edge : Edge) (cursor : Nat × Nat) : Prop where
  none_iff : neighbour window pane.pane edge cursor = none ↔ Touches window edge pane.rect
  found : ∀ id, neighbour window pane.pane edge cursor = some id → ∃ other ∈ tiledPanes (unzoomed window), other.pane = id ∧
    Beyond window edge pane.rect other.rect ∧
    ∀ third ∈ tiledPanes (unzoomed window), Beyond window edge pane.rect third.rect → AtCursor edge pane.rect cursor third.rect → third = other

-- The pane has one cell along the edge, and a divider ends at the one across from it.
def EndsDivider (window : Window) (edge : Edge) (rect : Rect) : Prop :=
  ¬ Touches window edge rect ∧ rect.len (cross (edgeAxis edge)) = 1 ∧
    ∃ far, Ahead edge rect 2 far ∧ ∃ divider ∈ (windowGeometry (unzoomed window)).dividers, divider.rect.Holds far

section Relate

variable {window : Window} {edge : Edge} {rect : Rect} {steps : Nat} {place : Place}

theorem ahead_iff : Ahead edge rect steps place ↔
    (if leadingEdge edge then place (edgeAxis edge) + steps = rect.start (edgeAxis edge)
      else place (edgeAxis edge) + 1 = rect.start (edgeAxis edge) + rect.len (edgeAxis edge) + steps) ∧
    Spanned (cross (edgeAxis edge)) rect (place (cross (edgeAxis edge))) := by
  cases edge <;> rfl

theorem touches_iff : Touches window edge rect ↔
    endOf (leadingEdge edge) (edgeAxis edge) rect = if leadingEdge edge then 0 else window.size (edgeAxis edge) := by
  cases edge <;> rfl

theorem line_divider {line : Grip × Rect} (tiled : Tiled window.tree) (own : line ∈ (walk window.tree 0 0).lines) (holds : line.2.Holds place) :
    ∃ divider ∈ (windowGeometry (unzoomed window)).dividers, divider.grip = line.1 ∧ divider.rect.Holds place := by
  have cover := segments_cover (walk window.tree 0 0).panes (walk window.tree 0 0).lines (walk_thin tiled own) place
  rw [if_pos holds] at cover
  have some_ : 0 < (segmentsOf (walk window.tree 0 0).panes (walk window.tree 0 0).lines line).countP
      (fun divider => decide (divider.rect.Holds place)) := by omega
  obtain ⟨divider, inside, there⟩ := countP_pos.mp some_
  refine ⟨divider, ?_, ?_, there⟩
  · rw [windowGeometry_dividers rfl]
    exact List.mem_flatMap_of_mem own inside
  · obtain ⟨pair, -, rfl⟩ := List.mem_map.mp inside
    rfl

theorem divider_lined (tiled : Tiled window.tree) :
    (∃ divider ∈ (windowGeometry (unzoomed window)).dividers, divider.rect.Holds place) ↔ Lined window.tree 0 0 place := by
  rw [windowGeometry_dividers rfl, ← countP_pos, Lined, ← countP_pos]
  exact iff_of_eq (congrArg (0 < ·) (dividers_cover tiled _ place))

end Relate

section Across

variable {window : Window} (tiles : ∀ axis, Spans axis window.tree (window.size axis)) {pane other : Pane}
  (inside : pane ∈ (walk window.tree 0 0).panes) {edge : Edge}

include tiles inside

theorem touches_or_line : Touches window edge pane.rect ∨
    ∃ line ∈ (walk window.tree 0 0).lines, Alongside (leadingEdge edge) (edgeAxis edge) line pane.rect := by
  obtain ⟨tiled, sizes⟩ := Tiled.of_spans tiles
  rcases side_line tiled inside (leadingEdge edge) (edgeAxis edge) with side | line
  · left
    rw [touches_iff, side, endIn, sizes]
    cases edge <;> simp [leadingEdge, edgeAxis, pick]
  · exact Or.inr line

omit inside in
-- No pane is beyond the border of the window.
theorem border_faces_none (touches : Touches window edge pane.rect) (there : other ∈ (walk window.tree 0 0).panes) :
    ¬ Facing (leadingEdge edge) (edgeAxis edge) pane.rect other.rect := by
  obtain ⟨tiled, sizes⟩ := Tiled.of_spans tiles
  have within := pane_within tiled there (edgeAxis edge)
  rw [sizes] at within
  have zero : pick (edgeAxis edge) 0 0 = 0 := by cases edge <;> rfl
  rw [touches_iff, endOf] at touches
  rw [Facing]
  cases side : leadingEdge edge <;> simp only [side, if_true, Bool.false_eq_true, if_false] at touches ⊢ <;> omega

section Line

variable {line : Grip × Rect} (own : line ∈ (walk window.tree 0 0).lines)
  (alongside : Alongside (leadingEdge edge) (edgeAxis edge) line pane.rect)

include own alongside

omit inside in
theorem untouched : ¬ Touches window edge pane.rect := by
  obtain ⟨tiled, sizes⟩ := Tiled.of_spans tiles
  have inner := line_inner tiled own
  have next := alongside.next
  have zero : pick (edgeAxis edge) 0 0 = 0 := by cases edge <;> rfl
  rw [alongside.same, sizes] at inner
  rw [endOf] at next
  rw [touches_iff, endOf]
  cases side : leadingEdge edge <;> simp only [side, if_true, Bool.false_eq_true, if_false] at next ⊢ <;> omega

omit inside in
-- What is two cells beyond the edge is behind the line.
theorem ahead_far {place : Place} : Ahead edge pane.rect 2 place ↔
    Spanned (cross (edgeAxis edge)) pane.rect (place (cross (edgeAxis edge))) ∧
      placeOf (edgeAxis edge) (behind (leadingEdge edge) (line.2.start (edgeAxis edge))) (place (cross (edgeAxis edge))) = place := by
  obtain ⟨tiled, sizes⟩ := Tiled.of_spans tiles
  have inner := line_inner tiled own
  have next := alongside.next
  rw [alongside.same] at inner
  have is : placeOf (edgeAxis edge) (behind (leadingEdge edge) (line.2.start (edgeAxis edge))) (place (cross (edgeAxis edge))) = place ↔
      behind (leadingEdge edge) (line.2.start (edgeAxis edge)) = place (edgeAxis edge) := by
    constructor
    · intro same
      rw [← congrFun same (edgeAxis edge), placeOf_self]
    · intro same
      rw [same, placeOf_eta]
  rw [endOf] at next
  rw [ahead_iff, is, and_comm, behind]
  refine and_congr_right fun _ => ?_
  cases side : leadingEdge edge <;> simp only [side, if_true, Bool.false_eq_true, if_false] at next ⊢ <;> omega

omit inside in
theorem beyond_iff : Beyond window edge pane.rect other.rect ↔ ∃ number, Spanned (cross (edgeAxis edge)) pane.rect number ∧
    other.rect.Holds (placeOf (edgeAxis edge) (behind (leadingEdge edge) (line.2.start (edgeAxis edge))) number) := by
  obtain ⟨tiled, sizes⟩ := Tiled.of_spans tiles
  constructor
  · rintro ⟨gap, far, -, ahead, -, -, holds⟩
    obtain ⟨spanned, is⟩ := (ahead_far tiles own alongside).mp ahead
    rw [← is] at holds
    exact ⟨far (cross (edgeAxis edge)), spanned, holds⟩
  · rintro ⟨number, spanned, holds⟩
    have gap := gap_holds tiled own alongside spanned
    obtain ⟨divider, there, grip, here⟩ := line_divider tiled own gap
    refine ⟨_, _, ahead_iff.mpr ⟨?_, ?_⟩, (ahead_far tiles own alongside).mpr ⟨?_, ?_⟩, ?_,
      ⟨divider, there, by rw [grip, alongside.same], here⟩, holds⟩
    · have next := alongside.next
      rw [placeOf_self]
      rw [endOf] at next
      cases side : leadingEdge edge <;> simp only [side, if_true, Bool.false_eq_true, if_false] at next ⊢ <;> omega
    · rwa [placeOf_cross]
    · rwa [placeOf_cross]
    · rw [placeOf_cross]
    · rw [placeOf_cross, placeOf_cross]

omit inside in
-- The candidates are the panes beyond the edge.
theorem candidate_beyond (there : other ∈ (walk window.tree 0 0).panes) (position : Nat) :
    (candidate edge pane.rect position other).isSome = true ↔ Beyond window edge pane.rect other.rect := by
  obtain ⟨tiled, sizes⟩ := Tiled.of_spans tiles
  rw [candidate_isSome, beyond_iff tiles own alongside]
  constructor
  · rintro ⟨facing, number, here, spanned⟩
    exact ⟨number, here, (facing_iff tiled there own alongside here).mp ⟨facing, spanned⟩⟩
  · rintro ⟨number, here, holds⟩
    obtain ⟨facing, spanned⟩ := (facing_iff tiled there own alongside here).mpr holds
    exact ⟨facing, number, here, spanned⟩

-- There is a pane beyond the edge unless the only cell there is one of a divider.
theorem exists_beyond : (∃ other ∈ (walk window.tree 0 0).panes, Beyond window edge pane.rect other.rect) ↔ ¬ EndsDivider window edge pane.rect := by
  obtain ⟨tiled, sizes⟩ := Tiled.of_spans tiles
  have positive := (pane_within tiled inside (cross (edgeAxis edge))).1
  constructor
  · rintro ⟨other, there, beyond⟩ ⟨-, single, far, ahead, divider, belongs, holds⟩
    obtain ⟨number, spanned, own_⟩ := (beyond_iff tiles own alongside).mp beyond
    obtain ⟨spanned', is⟩ := (ahead_far tiles own alongside).mp ahead
    have only : far (cross (edgeAxis edge)) = number := by
      rw [Spanned] at spanned spanned'
      omega
    rw [only] at is
    rw [is] at own_
    exact ((paned_iff tiled).mp ⟨other, there, own_⟩).2 ((divider_lined tiled).mp ⟨divider, belongs, holds⟩)
  · intro ends
    have first : Spanned (cross (edgeAxis edge)) pane.rect (pane.rect.start (cross (edgeAxis edge))) := by
      rw [Spanned]
      omega
    by_cases single : pane.rect.len (cross (edgeAxis edge)) = 1
    · have within := far_in tiled inside own alongside first
      by_cases paned : Paned window.tree 0 0
          (placeOf (edgeAxis edge) (behind (leadingEdge edge) (line.2.start (edgeAxis edge))) (pane.rect.start (cross (edgeAxis edge))))
      · obtain ⟨other, there, holds⟩ := paned
        exact ⟨other, there, (beyond_iff tiles own alongside).mpr ⟨_, first, holds⟩⟩
      · have lined : Lined window.tree 0 0 _ := not_not.mp fun off => paned ((paned_iff tiled).mpr ⟨within, off⟩)
        refine absurd ⟨untouched tiles own alongside, single, _, ?_, (divider_lined tiled).mpr lined⟩ ends
        rw [ahead_far tiles own alongside, placeOf_cross]
        exact ⟨first, rfl⟩
    · have second : Spanned (cross (edgeAxis edge)) pane.rect (pane.rect.start (cross (edgeAxis edge)) + 1) := by
        rw [Spanned]
        omega
      obtain ⟨number, spanned, other, there, holds⟩ := far_paned tiled inside own alongside first second
      exact ⟨other, there, (beyond_iff tiles own alongside).mpr ⟨number, spanned, holds⟩⟩

end Line

variable (distinct : (window.tree.panes ++ window.floats.map Tiling.Float.pane).Nodup) (cursor : Nat × Nat)

include distinct

theorem neighbour_candidates : neighbour window pane.pane edge cursor = (lastMax ((walk window.tree 0 0).panes.filterMap
    (candidate edge pane.rect (nearest (cross (edgeAxis edge)) pane.rect cursor)))).map Prod.fst := by
  refine neighbour_is ?_ inside edge cursor
  rw [walk_panes (sound_tiled tiles)]
  exact (List.nodup_append.mp distinct).1

theorem border_none (touches : Touches window edge pane.rect) : neighbour window pane.pane edge cursor = none := by
  rw [neighbour_candidates tiles inside distinct, Option.map_eq_none_iff, lastMax_none, List.filterMap_eq_nil_iff]
  intro other there
  rw [← Option.not_isSome_iff_eq_none, candidate_isSome]
  exact fun both => border_faces_none tiles touches there both.1

section Line

variable {line : Grip × Rect} (own : line ∈ (walk window.tree 0 0).lines)
  (alongside : Alongside (leadingEdge edge) (edgeAxis edge) line pane.rect)

include own alongside

theorem neighbour_none_iff : neighbour window pane.pane edge cursor = none ↔ EndsDivider window edge pane.rect := by
  rw [neighbour_candidates tiles inside distinct, Option.map_eq_none_iff, lastMax_none, List.filterMap_eq_nil_iff,
    ← not_iff_not (b := EndsDivider window edge pane.rect), ← exists_beyond tiles inside own alongside, not_forall]
  refine exists_congr fun other => ?_
  rw [Classical.not_imp, ← ne_eq, Option.ne_none_iff_isSome]
  exact and_congr_right fun there => candidate_beyond tiles own alongside there _

omit inside distinct in
-- Where a pane beyond the edge has the row or column of the cursor, it has that of the nearest cell.
theorem at_nearest (beyond : Beyond window edge pane.rect other.rect) (at_ : AtCursor edge pane.rect cursor other.rect) :
    Spanned (cross (edgeAxis edge)) other.rect (nearest (cross (edgeAxis edge)) pane.rect cursor) := by
  rcases at_ with row | near
  · obtain ⟨number, spanned, holds⟩ := (beyond_iff tiles own alongside).mp beyond
    have there := (holds_placeOf.mp holds).2
    rw [Spanned] at row spanned ⊢
    rw [nearest]
    omega
  · exact near

theorem neighbour_found {id : PaneId} (is : neighbour window pane.pane edge cursor = some id) :
    ∃ other ∈ (walk window.tree 0 0).panes, other.pane = id ∧ Beyond window edge pane.rect other.rect ∧
      ∀ third ∈ (walk window.tree 0 0).panes, Beyond window edge pane.rect third.rect → AtCursor edge pane.rect cursor third.rect →
        third = other := by
  obtain ⟨tiled, sizes⟩ := Tiled.of_spans tiles
  rw [neighbour_candidates tiles inside distinct, Option.map_eq_some_iff] at is
  obtain ⟨best, taken, rfl⟩ := is
  obtain ⟨other, there, candidate_⟩ := List.mem_filterMap.mp (lastMax_mem taken)
  have positive {pane : Pane} (inside : pane ∈ (walk window.tree 0 0).panes) := (pane_within tiled inside (edgeAxis edge)).1
  obtain ⟨same, mark⟩ := candidate_some (positive there) candidate_
  have beyond := (candidate_beyond tiles own alongside there _).mp (Option.isSome_of_eq_some candidate_)
  refine ⟨other, there, same.symm, beyond, fun third member beyond' at_ => ?_⟩
  -- The pane at the cursor is marked, so the one that is taken is, and both have the cell across from it.
  have near := at_nearest tiles cursor own alongside beyond' at_
  obtain ⟨entry, entryIs⟩ := Option.isSome_iff_exists.mp ((candidate_beyond tiles own alongside member
    (nearest (cross (edgeAxis edge)) pane.rect cursor)).mpr beyond')
  have marked := lastMax_marked taken (List.mem_filterMap.mpr ⟨third, member, entryIs⟩) ((candidate_some (positive member) entryIs).2.mpr near)
  have spanned : Spanned (cross (edgeAxis edge)) pane.rect (nearest (cross (edgeAxis edge)) pane.rect cursor) := by
    have long := (pane_within tiled inside (cross (edgeAxis edge))).1
    rw [Spanned, nearest]
    omega
  have facing {pane' : Pane} {position : Nat} (some_ : (candidate edge pane.rect position pane').isSome = true) := (candidate_isSome.mp some_).1
  have here := (facing_iff tiled there own alongside spanned).mp ⟨facing (Option.isSome_of_eq_some candidate_), mark.mp marked⟩
  have here' := (facing_iff tiled member own alongside spanned).mp ⟨facing (Option.isSome_of_eq_some entryIs), near⟩
  exact unique_pane tiled member there here' here

end Line

end Across

end Spec

-- A neighbour is found wherever there is one, but where the only cell across from the pane is one of a divider.
theorem neighbour_across (ops : List Op) {window : Window} (reached : window ∈ (World.run ops).document.layout.windowList) {pane : Pane}
    (own : pane ∈ tiledPanes (unzoomed window)) (edge : Edge) (cursor : Nat × Nat) :
    FindsNeighbour window pane edge cursor ↔ ¬ EndsDivider window edge pane.rect := by
  have wellFormed := (run_wellFormed ops).1
  have tiles := (wellFormed.windows window reached).tiles
  have distinct : (window.tree.panes ++ window.floats.map Tiling.Float.pane).Nodup := (List.nodup_flatMap.1 wellFormed.panes).1 window reached
  have panes : tiledPanes (unzoomed window) = (walk window.tree 0 0).panes := tiledPanes_walk (sound_tiled tiles) distinct rfl
  rw [panes] at own
  rcases touches_or_line tiles own with touches | ⟨line, inside, alongside⟩
  · have none_ := border_none tiles own distinct cursor touches
    refine ⟨fun _ ends => ends.1 touches, fun _ => ⟨by simp [none_, touches], fun id is => ?_⟩⟩
    rw [none_] at is
    exact absurd is (by simp)
  · have off := untouched tiles inside alongside
    have none_iff := neighbour_none_iff tiles own distinct cursor inside alongside
    constructor
    · exact fun finds ends => off (finds.none_iff.mp (none_iff.mpr ends))
    · intro free
      refine ⟨by simp [none_iff, free, off], fun id is => ?_⟩
      rw [panes]
      exact neighbour_found tiles own distinct cursor inside alongside is

def cell (size : Nat) : Cells := .clamped size

-- Panes of 5, 1 and 5 rows, beside two of 6.
def staggeredPut : Op := .put ⟨.first, ⟨[⟨none, singleName, .empty, [{
  id := none
  name := some singleWindowName
  vars := .empty
  cols := some (cell 5)
  rows := some (cell 13)
  cellPx := none
  zoom := none
  tree := .split .horizontal [
    .split .vertical [
      .leaf ⟨.new freshPane, some (cell 2), some (cell 5)⟩,
      .leaf ⟨.new freshPane, some (cell 2), some (cell 1)⟩,
      .leaf ⟨.new freshPane, some (cell 2), some (cell 5)⟩],
    .split .vertical [
      .leaf ⟨.new freshPane, some (cell 2), some (cell 6)⟩,
      .leaf ⟨.new freshPane, some (cell 2), some (cell 6)⟩]]
  floats := [] }]⟩]⟩⟩
  none none

def paneLeaf (id rows : Nat) : Node Leaf := .leaf ⟨⟨id⟩, cell 2, cell rows⟩

def staggered : Window where
  id := ⟨1⟩
  name := singleWindowName
  vars := .empty
  cols := cell 5
  rows := cell 13
  cellPx := none
  zoom := none
  focus := ⟨1⟩
  tree := .split .horizontal [.split .vertical [paneLeaf 1 5, paneLeaf 2 1, paneLeaf 3 5], .split .vertical [paneLeaf 4 6, paneLeaf 5 6]]
  floats := []

theorem staggeredPut_windows : (World.run [staggeredPut]).document.layout.windowList = [staggered] := by decide +kernel

def middle : Pane := ⟨⟨2⟩, ⟨0, 6, 2, 1⟩, none⟩

theorem staggered_panes : tiledPanes (unzoomed staggered) = [⟨⟨1⟩, ⟨0, 0, 2, 5⟩, none⟩, middle, ⟨⟨3⟩, ⟨0, 8, 2, 5⟩, none⟩, ⟨⟨4⟩, ⟨3, 0, 2, 6⟩, none⟩,
    ⟨⟨5⟩, ⟨3, 7, 2, 6⟩, none⟩] := by decide +kernel

-- The pane before the middle one has a neighbour at its last row.
theorem neighbour_across_staggered : FindsNeighbour staggered ⟨⟨1⟩, ⟨0, 0, 2, 5⟩, none⟩ .right (0, 4) := by
  have reached : staggered ∈ (World.run [staggeredPut]).document.layout.windowList := by
    rw [staggeredPut_windows]
    exact List.mem_cons_self
  have own : (⟨⟨1⟩, ⟨0, 0, 2, 5⟩, none⟩ : Pane) ∈ tiledPanes (unzoomed staggered) := by
    rw [staggered_panes]
    simp
  refine (neighbour_across [staggeredPut] reached own .right (0, 4)).mpr fun ends => ?_
  exact absurd ends.2.1 (show ¬ (5 = 1) by decide)

theorem neighbour_missed : ¬ ∀ ops : List Op, ∀ window ∈ (World.run ops).document.layout.windowList, ∀ pane ∈ tiledPanes (unzoomed window),
    ∀ edge cursor, FindsNeighbour window pane edge cursor := by
  intro finds
  have reached : staggered ∈ (World.run [staggeredPut]).document.layout.windowList := by
    rw [staggeredPut_windows]
    exact List.mem_cons_self
  have own : middle ∈ tiledPanes (unzoomed staggered) := by
    rw [staggered_panes]
    simp
  have found := finds [staggeredPut] staggered reached middle own .right (0, 0)
  have touches : Touches staggered .right middle.rect := found.none_iff.mp (by decide +kernel)
  exact absurd touches (show ¬ (2 = 5) by decide)

end Kido.Tui
