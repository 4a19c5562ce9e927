import Mathlib.Data.List.Dedup
import Kido.Tui.Walk

set_option autoImplicit false

namespace Kido.Tui

open Kido.Tiling

theorem ascending_mem {numbers : List Nat} {number : Nat} : number ∈ ascending numbers ↔ number ∈ numbers := by
  rw [ascending, List.mem_insertionSort, List.mem_dedup]

theorem ascending_sorted (numbers : List Nat) : (ascending numbers).Pairwise (· < ·) := by
  have distinct : (ascending numbers).Nodup := (List.perm_insertionSort _ _).nodup_iff.mpr (List.nodup_dedup numbers)
  have sorted : (ascending numbers).Pairwise (· ≤ ·) := List.pairwise_insertionSort _ _
  exact (sorted.and distinct).imp fun both => by omega

theorem least_first {first : Nat} {rest : List Nat} (sorted : (first :: rest).Pairwise (· < ·)) (number : Nat) :
    (∃ cut ∈ first :: rest, cut ≤ number) ↔ first ≤ number := by
  constructor
  · rintro ⟨cut, inside, small⟩
    rcases List.mem_cons.mp inside with rfl | later
    · exact small
    · have := List.rel_of_pairwise_cons sorted later
      omega
  · exact fun small => ⟨first, List.mem_cons_self, small⟩

-- Between two cuts one behind the other is each number that has cuts on both sides.
theorem pairs_cover (number : Nat) {cuts : List Nat} (sorted : cuts.Pairwise (· < ·)) :
    (cuts.zip cuts.tail).countP (fun pair => decide (pair.1 ≤ number ∧ number < pair.2)) =
      if (∃ cut ∈ cuts, cut ≤ number) ∧ ∃ cut ∈ cuts, number < cut then 1 else 0 := by
  induction cuts with
  | nil => simp
  | cons first rest ih =>
    cases rest with
    | nil =>
      have none_ : ¬ ((∃ cut ∈ [first], cut ≤ number) ∧ ∃ cut ∈ [first], number < cut) := by
        rintro ⟨⟨low, inside, small⟩, high, inside', large⟩
        rw [List.mem_singleton] at inside inside'
        omega
      rw [if_neg none_]
      rfl
    | cons second later =>
      have next : first < second := List.rel_of_pairwise_cons sorted List.mem_cons_self
      have above : (∃ cut ∈ first :: second :: later, number < cut) ↔ ∃ cut ∈ second :: later, number < cut := by
        rw [List.exists_mem_cons_iff, or_iff_right_of_imp]
        exact fun large => ⟨second, List.mem_cons_self, by omega⟩
      rw [List.tail_cons, List.zip_cons_cons, List.countP_cons]
      have later_ := ih sorted.of_cons
      rw [List.tail_cons] at later_
      rw [later_]
      simp only [least_first sorted, least_first sorted.of_cons, above]
      have high : number < second → ∃ cut ∈ second :: later, number < cut := fun large => ⟨second, List.mem_cons_self, large⟩
      by_cases larger : ∃ cut ∈ second :: later, number < cut
      · simp only [larger, and_true, decide_eq_true_eq]
        split_ifs <;> omega
      · have beyond : ¬ number < second := fun large => larger (high large)
        simp only [larger, and_false, if_false, decide_eq_true_eq]
        split_ifs <;> omega

-- A line is one cell thick, and not of length zero.
structure Thin (line : Grip × Rect) : Prop where
  thick : line.2.len line.1.axis = 1
  long : ∀ axis, 0 < line.2.len axis

theorem cutsOf_mem {panes : List Pane} {axis : Axis} {start stop cut : Nat} (inside : cut ∈ cutsOf panes axis start stop) :
    cut = start ∨ cut = stop ∨ start < cut ∧ cut < stop := by
  rw [cutsOf, ascending_mem, List.mem_cons, List.mem_cons, List.mem_filter, decide_eq_true_eq] at inside
  rcases inside with start | stop | ⟨-, between⟩
  · exact Or.inl start
  · exact Or.inr (Or.inl stop)
  · exact Or.inr (Or.inr between)

-- The cuts of a line go from its start to its end.
theorem cuts_cover (panes : List Pane) (axis : Axis) {start stop : Nat} (long : start < stop) (number : Nat) :
    ((cutsOf panes axis start stop).zip (cutsOf panes axis start stop).tail).countP
        (fun pair => decide (pair.1 ≤ number ∧ number < pair.2)) = if start ≤ number ∧ number < stop then 1 else 0 := by
  have first : start ∈ cutsOf panes axis start stop := ascending_mem.mpr List.mem_cons_self
  have last : stop ∈ cutsOf panes axis start stop := ascending_mem.mpr (List.mem_cons_of_mem _ List.mem_cons_self)
  have low : (∃ cut ∈ cutsOf panes axis start stop, cut ≤ number) ↔ start ≤ number := by
    refine ⟨fun ⟨cut, inside, small⟩ => ?_, fun small => ⟨start, first, small⟩⟩
    have := cutsOf_mem inside
    omega
  have high : (∃ cut ∈ cutsOf panes axis start stop, number < cut) ↔ number < stop := by
    refine ⟨fun ⟨cut, inside, large⟩ => ?_, fun large => ⟨stop, last, large⟩⟩
    have := cutsOf_mem inside
    omega
  have sorted : (cutsOf panes axis start stop).Pairwise (· < ·) := ascending_sorted _
  rw [pairs_cover number sorted]
  exact if_congr (and_congr low high) rfl rfl

section Segments

variable (panes : List Pane) (lines : List (Grip × Rect)) {line : Grip × Rect}

theorem holds_cases {rect : Rect} {place : Place} : rect.Holds place ↔
    (rect.x ≤ place .horizontal ∧ place .horizontal < rect.x + rect.cols) ∧ rect.y ≤ place .vertical ∧ place .vertical < rect.y + rect.rows :=
  ⟨fun holds => ⟨holds .horizontal, holds .vertical⟩, fun holds axis => by cases axis; exacts [holds.1, holds.2]⟩

-- The segments of a line cover its cells once each.
theorem segments_cover (thin : Thin line) (place : Place) :
    (segmentsOf panes lines line).countP (fun divider => decide (divider.rect.Holds place)) = if line.2.Holds place then 1 else 0 := by
  obtain ⟨⟨first, second, axis, from_⟩, rect⟩ := line
  have thick : pick axis rect.cols rect.rows = 1 := thin.thick
  have cols : 0 < rect.cols := thin.long .horizontal
  have rows : 0 < rect.rows := thin.long .vertical
  rw [segmentsOf, List.countP_map]
  cases axis with
  | horizontal =>
    have thick : rect.cols = 1 := thick
    have cover := cuts_cover panes .horizontal (show rect.y < rect.y + rect.rows by omega) (place .vertical)
    by_cases at_ : place .horizontal = rect.x
    · refine Eq.trans (List.countP_congr fun pair _ => ?_) (cover.trans (if_congr ?_ rfl rfl))
      · simp only [Function.comp_apply, decide_eq_true_eq, holds_cases, pick]
        omega
      · simp only [holds_cases]
        omega
    · have off : ¬ rect.Holds place := by
        rw [holds_cases]
        omega
      rw [if_neg off, List.countP_eq_zero]
      intro pair _
      simp only [Function.comp_apply, decide_eq_true_eq, holds_cases, pick]
      omega
  | vertical =>
    have thick : rect.rows = 1 := thick
    have cover := cuts_cover panes .vertical (show rect.x < rect.x + rect.cols by omega) (place .horizontal)
    by_cases at_ : place .vertical = rect.y
    · refine Eq.trans (List.countP_congr fun pair _ => ?_) (cover.trans (if_congr ?_ rfl rfl))
      · simp only [Function.comp_apply, decide_eq_true_eq, holds_cases, pick]
        omega
      · simp only [holds_cases]
        omega
    · have off : ¬ rect.Holds place := by
        rw [holds_cases]
        omega
      rw [if_neg off, List.countP_eq_zero]
      intro pair _
      simp only [Function.comp_apply, decide_eq_true_eq, holds_cases, pick]
      omega

end Segments

theorem lineRect_thin {split : Axis} {x y offset : Nat} {tree : Node Leaf} (tiled : Tiled tree) (first second : PaneId) (start : Nat) :
    Thin (⟨first, second, split, start⟩, lineRect split x y tree offset) := by
  have cols := tiled.positive .horizontal
  have rows := tiled.positive .vertical
  constructor
  · cases split <;> rfl
  · intro axis
    cases split <;> cases axis <;> simp only [lineRect, Rect.len, pick] <;> omega

theorem walk_thin {tree : Node Leaf} (tiled : Tiled tree) {x y : Nat} {line : Grip × Rect} (inside : line ∈ (walk tree x y).lines) :
    Thin line := by
  induction tree generalizing x y with
  | leaf leaf => simp at inside
  | split split children ih =>
    rcases (walk_line tiled).mp inside with ⟨front, child, back, rfl, deeper⟩ | ⟨front, first, second, back, rfl, rfl⟩
    · have member : child ∈ front ++ child :: back := by simp
      exact ih child member (tiled.child member) deeper
    · exact lineRect_thin tiled _ _ _

-- The dividers cover what the lines do.
theorem dividers_cover {tree : Node Leaf} (tiled : Tiled tree) (panes : List Pane) (place : Place) :
    ((walk tree 0 0).lines.flatMap (segmentsOf panes (walk tree 0 0).lines)).countP (fun divider => decide (divider.rect.Holds place)) =
      (walk tree 0 0).lines.countP fun line => decide (line.2.Holds place) := by
  have thin : ∀ line ∈ (walk tree 0 0).lines, Thin line := fun line inside => walk_thin tiled inside
  generalize (walk tree 0 0).lines = all at thin ⊢
  suffices each : ∀ lines : List (Grip × Rect), (∀ line ∈ lines, Thin line) →
      (lines.flatMap (segmentsOf panes all)).countP (fun divider => decide (divider.rect.Holds place)) =
        lines.countP fun line => decide (line.2.Holds place) from each all thin
  intro lines thin
  induction lines with
  | nil => rfl
  | cons line rest ih =>
    rw [List.flatMap_cons, List.countP_append, segments_cover panes all (thin line List.mem_cons_self),
      ih fun line inside => thin line (List.mem_cons_of_mem _ inside), List.countP_cons]
    simp only [decide_eq_true_eq]
    omega

section Window

variable {window : Window}

-- The panes of a geometry that the tree has.
def tiledPanes (window : Window) : List Pane := (windowGeometry window).panes.filter fun pane => decide (pane.pane ∈ window.tree.panes)

theorem sound_tiled (tiles : ∀ axis, Spans axis window.tree (window.size axis)) : Tiled window.tree := (Tiled.of_spans tiles).1

theorem windowGeometry_dividers (unzoomed : window.zoom = none) : (windowGeometry window).dividers =
    (walk window.tree 0 0).lines.flatMap (segmentsOf (walk window.tree 0 0).panes (walk window.tree 0 0).lines) := by
  rw [windowGeometry, unzoomed]

theorem tiledPanes_walk (tiled : Tiled window.tree) (distinct : (window.tree.panes ++ window.floats.map Tiling.Float.pane).Nodup)
    (unzoomed : window.zoom = none) : tiledPanes window = (walk window.tree 0 0).panes := by
  rw [tiledPanes, windowGeometry, unzoomed]
  simp only [List.filter_append]
  have own : (walk window.tree 0 0).panes.filter (fun pane => decide (pane.pane ∈ window.tree.panes)) = (walk window.tree 0 0).panes := by
    rw [List.filter_eq_self]
    intro pane inside
    rw [decide_eq_true_eq, ← walk_panes tiled 0 0]
    exact List.mem_map_of_mem inside
  have others : ((window.floats.mergeSort fun one other => decide (one.z ≤ other.z)).map floatPane).filter
      (fun pane => decide (pane.pane ∈ window.tree.panes)) = [] := by
    rw [List.filter_eq_nil_iff]
    intro pane inside
    obtain ⟨float, there, rfl⟩ := List.mem_map.mp inside
    rw [List.mem_mergeSort] at there
    rw [decide_eq_true_eq]
    intro tiledToo
    exact (List.nodup_append.mp distinct).2.2 _ tiledToo _ (List.mem_map_of_mem there) rfl
  rw [own, others, List.append_nil]

-- A window that is not zoomed is parted into panes and dividers.
theorem window_cover (tiles : ∀ axis, Spans axis window.tree (window.size axis)) (place : Place)
    (inside : ∀ axis, place axis < window.size axis) :
    (walk window.tree 0 0).panes.countP (fun pane => decide (pane.rect.Holds place)) +
      ((walk window.tree 0 0).lines.flatMap (segmentsOf (walk window.tree 0 0).panes (walk window.tree 0 0).lines)).countP
        (fun divider => decide (divider.rect.Holds place)) = 1 := by
  obtain ⟨tiled, sizes⟩ := Tiled.of_spans tiles
  rw [dividers_cover tiled]
  have cover := walk_covers tiled 0 0 place
  have within : In window.tree 0 0 place := by
    intro axis
    rw [sizes]
    have := inside axis
    cases axis <;> simpa [pick] using this
  rw [covered, if_pos within] at cover
  exact cover

end Window

end Kido.Tui

namespace Kido.Tui

open Kido.Tiling

section Parts

variable {split : Axis} {children : List (Node Leaf)} {x y : Nat} {place : Place}

-- Behind the start of a split is a child or the line behind one.
theorem locate (split : Axis) {children : List (Node Leaf)} {offset : Nat}
    (within : offset < (children.map (tiledSize split)).sum + (children.length - 1)) :
    (∃ front child back, children = front ++ child :: back ∧ offsetOf split front ≤ offset ∧
        offset < offsetOf split front + tiledSize split child) ∨
      ∃ front first second back, children = front ++ first :: second :: back ∧ offset = offsetOf split front + tiledSize split first := by
  induction children generalizing offset with
  | nil => simp at within
  | cons child rest ih =>
    rw [List.map_cons, List.sum_cons, List.length_cons] at within
    by_cases here : offset < tiledSize split child
    · exact Or.inl ⟨[], child, rest, rfl, by simp [offsetOf], by simpa [offsetOf] using here⟩
    · cases rest with
      | nil =>
        simp at within
        omega
      | cons next later =>
        by_cases line : offset = tiledSize split child
        · exact Or.inr ⟨[], child, next, later, rfl, by simpa [offsetOf] using line⟩
        · have shorter : offset - (tiledSize split child + 1) < ((next :: later).map (tiledSize split)).sum + ((next :: later).length - 1) := by
            simp only [List.length_cons] at within ⊢
            omega
          rcases ih shorter with ⟨front, found, back, is, low, high⟩ | ⟨front, first, second, back, is, at_⟩
          · refine Or.inl ⟨child :: front, found, back, by rw [is]; rfl, ?_, ?_⟩
            · simp only [offsetOf, List.map_cons, List.sum_cons] at low ⊢
              omega
            · simp only [offsetOf, List.map_cons, List.sum_cons] at high ⊢
              omega
          · refine Or.inr ⟨child :: front, first, second, back, by rw [is]; rfl, ?_⟩
            simp only [offsetOf, List.map_cons, List.sum_cons] at at_ ⊢
            omega

variable (tiled : Tiled (.split split children))

include tiled

theorem in_part {front back : List (Node Leaf)} {child : Node Leaf} (is : children = front ++ child :: back) :
    In child (x + pick split (offsetOf split front) 0) (y + pick split 0 (offsetOf split front)) place ↔
      Beside_ split (.split split children) x y place ∧ pick split x y + offsetOf split front ≤ place split ∧
        place split < pick split x y + offsetOf split front + tiledSize split child :=
  in_child fun axis other => tiled.same other (by simp [is])

theorem in_parts (inside : In (.split split children) x y place) :
    (∃ front child back, children = front ++ child :: back ∧
        In child (x + pick split (offsetOf split front) 0) (y + pick split 0 (offsetOf split front)) place) ∨
      ∃ front first second back, children = front ++ first :: second :: back ∧ Beside_ split (.split split children) x y place ∧
        place split = pick split x y + (offsetOf split front + tiledSize split first) := by
  have beside : Beside_ split (.split split children) x y place := fun axis _ => inside axis
  have along := inside split
  rw [tiled.total] at along
  have within : place split - pick split x y < (children.map (tiledSize split)).sum + (children.length - 1) := by omega
  rcases locate split within with ⟨front, child, back, is, low, high⟩ | ⟨front, first, second, back, is, at_⟩
  · refine Or.inl ⟨front, child, back, is, (in_part tiled is).mpr ⟨beside, ?_, ?_⟩⟩
    · omega
    · omega
  · refine Or.inr ⟨front, first, second, back, is, beside, ?_⟩
    omega

end Parts

section Blocks

-- A pane has the place.
def Paned (tree : Node Leaf) (x y : Nat) (place : Place) : Prop := ∃ pane ∈ (walk tree x y).panes, pane.rect.Holds place

-- Two cells by two from a corner on.
def InBlock (corner place : Place) : Prop := ∀ axis, corner axis ≤ place axis ∧ place axis ≤ corner axis + 1

theorem InBlock.moved {corner place : Place} (inside : InBlock corner place) {axis : Axis} {number : Nat} (low : corner axis ≤ number)
    (high : number ≤ corner axis + 1) : InBlock corner (Function.update place axis number) := by
  intro other
  by_cases same : other = axis
  · subst same
    rw [Function.update_self]
    exact ⟨low, high⟩
  · rw [Function.update_of_ne same]
    exact inside other

theorem Beside_.moved {split : Axis} {tree : Node Leaf} {x y : Nat} {place : Place} (beside : Beside_ split tree x y place) (number : Nat) :
    Beside_ split tree x y (Function.update place split number) := by
  intro axis other
  rw [Function.update_of_ne other]
  exact beside axis other

-- No block that meets a tree is all lines.
theorem block_paned {tree : Node Leaf} (tiled : Tiled tree) {x y : Nat} {corner place : Place} (block : InBlock corner place)
    (inside : In tree x y place) : ∃ place, InBlock corner place ∧ Paned tree x y place := by
  induction tree generalizing x y place with
  | leaf leaf =>
    refine ⟨place, block, ⟨leaf.pane, ⟨x, y, leaf.cols.get, leaf.rows.get⟩, none⟩, by simp, fun axis => ?_⟩
    have here := inside axis
    cases axis <;> simpa [Rect.start, Rect.len, pick, Leaf.extent] using here
  | split split children ih =>
    have deeper {front back : List (Node Leaf)} {child : Node Leaf} (is : children = front ++ child :: back) {place : Place}
        (block : InBlock corner place)
        (within : In child (x + pick split (offsetOf split front) 0) (y + pick split 0 (offsetOf split front)) place) :
        ∃ place, InBlock corner place ∧ Paned (.split split children) x y place := by
      have member : child ∈ children := by simp [is]
      obtain ⟨found, here, pane, own, holds⟩ := ih child member (tiled.child member) block within
      exact ⟨found, here, pane, (walk_pane tiled).mpr ⟨front, child, back, is, own⟩, holds⟩
    rcases in_parts tiled inside with ⟨front, child, back, is, within⟩ | ⟨front, first, second, back, is, beside, at_⟩
    · exact deeper is block within
    · have range := block split
      -- A line has a child on both sides, and the block has a cell of one of them.
      by_cases leading : corner split = place split
      · have split_ : children = (front ++ [first]) ++ second :: back := by simp [is]
        have positive := (tiled.child (show second ∈ children by simp [is])).positive split
        refine deeper split_ (block.moved (show corner split ≤ place split + 1 by omega) (by omega))
          ((in_part tiled split_).mpr ⟨beside.moved _, ?_⟩)
        simp only [Function.update_self, offsetOf, List.map_append, List.map_cons, List.map_nil, List.sum_append, List.sum_cons, List.sum_nil] at at_ ⊢
        omega
      · have positive := (tiled.child (show first ∈ children by simp [is])).positive split
        refine deeper is (block.moved (show corner split ≤ place split - 1 by omega) (by omega))
          ((in_part tiled is).mpr ⟨beside.moved _, ?_⟩)
        rw [Function.update_self]
        omega

end Blocks

section Covered

variable {tree : Node Leaf} (tiled : Tiled tree) {x y : Nat} {place : Place}

-- A line has the place.
def Lined (tree : Node Leaf) (x y : Nat) (place : Place) : Prop := ∃ line ∈ (walk tree x y).lines, line.2.Holds place

theorem countP_pos {α : Type} {list : List α} {p : α → Prop} [DecidablePred p] : 0 < list.countP (fun item => decide (p item)) ↔ ∃ item ∈ list, p item := by
  simp [List.countP_pos_iff]

theorem unique_of_countP {α : Type} {list : List α} {p : α → Prop} [DecidablePred p] (most : list.countP (fun item => decide (p item)) ≤ 1)
    {one other : α} (first : one ∈ list) (second : other ∈ list) (here : p one) (there : p other) : one = other := by
  rw [List.countP_eq_length_filter] at most
  have own : one ∈ list.filter fun item => decide (p item) := by simp [first, here]
  have same : other ∈ list.filter fun item => decide (p item) := by simp [second, there]
  obtain ⟨only, is⟩ := List.length_eq_one_iff.mp (Nat.le_antisymm most (List.length_pos_of_mem own))
  rw [is, List.mem_singleton] at own same
  rw [own, same]

include tiled

theorem paned_iff : Paned tree x y place ↔ In tree x y place ∧ ¬ Lined tree x y place := by
  have cover := walk_covers tiled x y place
  rw [Paned, Lined, ← countP_pos, ← countP_pos]
  rw [covered] at cover
  by_cases inside : In tree x y place
  · rw [if_pos inside] at cover
    simp only [inside, true_and]
    omega
  · rw [if_neg inside] at cover
    simp only [inside, false_and, iff_false]
    omega

theorem unique_pane {one other : Pane} (first : one ∈ (walk tree x y).panes) (second : other ∈ (walk tree x y).panes)
    (here : one.rect.Holds place) (there : other.rect.Holds place) : one = other := by
  have cover := walk_covers tiled x y place
  have at_most : (walk tree x y).panes.countP (fun pane => decide (pane.rect.Holds place)) ≤ 1 := by
    rw [covered] at cover
    split_ifs at cover <;> omega
  exact unique_of_countP at_most first second here there

theorem unique_line {one other : Grip × Rect} (first : one ∈ (walk tree x y).lines) (second : other ∈ (walk tree x y).lines)
    (here : one.2.Holds place) (there : other.2.Holds place) : one = other := by
  have cover := walk_covers tiled x y place
  have at_most : (walk tree x y).lines.countP (fun line => decide (line.2.Holds place)) ≤ 1 := by
    rw [covered] at cover
    split_ifs at cover <;> omega
  exact unique_of_countP at_most first second here there

end Covered

section Sides

-- Where a rectangle starts on an axis, or where it ends.
def endOf (leading : Bool) (axis : Axis) (rect : Rect) : Nat := if leading then rect.start axis else rect.start axis + rect.len axis

-- Where a tree starts, or where it ends.
def endIn (leading : Bool) (axis : Axis) (tree : Node Leaf) (x y : Nat) : Nat :=
  if leading then pick axis x y else pick axis x y + tiledSize axis tree

-- The line goes along the side of the rectangle, from end to end and one cell off.
structure Alongside (leading : Bool) (axis : Axis) (line : Grip × Rect) (rect : Rect) : Prop where
  same : line.1.axis = axis
  next : line.2.start axis + (if leading then 1 else 0) = endOf leading axis rect
  low : ∀ other, other ≠ axis → line.2.start other ≤ rect.start other
  high : ∀ other, other ≠ axis → rect.start other + rect.len other ≤ line.2.start other + line.2.len other

section Split

variable {split : Axis} {children front back : List (Node Leaf)} {child : Node Leaf} (tiled : Tiled (.split split children))
  (is : children = front ++ child :: back)

theorem offsetOf_sum (split : Axis) (front : List (Node Leaf)) : offsetOf split front = (front.map (tiledSize split)).sum + front.length := by
  induction front with
  | nil => rfl
  | cons child rest ih =>
    simp only [offsetOf, List.map_cons, List.sum_cons, List.length_cons] at ih ⊢
    omega

include tiled is

-- A child with what is before it and behind it fills its split.
theorem offset_total : offsetOf split front + tiledSize split child + offsetOf split back = tiledSize split (.split split children) := by
  rw [tiled.total, offsetOf_sum, offsetOf_sum, is]
  simp only [List.map_append, List.map_cons, List.sum_append, List.sum_cons, List.length_append, List.length_cons]
  omega

end Split

theorem pane_within {tree : Node Leaf} (tiled : Tiled tree) {x y : Nat} {pane : Pane} (inside : pane ∈ (walk tree x y).panes) (axis : Axis) :
    0 < pane.rect.len axis ∧ pick axis x y ≤ pane.rect.start axis ∧
      pane.rect.start axis + pane.rect.len axis ≤ pick axis x y + tiledSize axis tree := by
  induction tree generalizing x y with
  | leaf leaf =>
    rw [walk_leaf, List.mem_singleton] at inside
    subst inside
    have cols := leaf.cols.positive
    have rows := leaf.rows.positive
    cases axis <;> simp [Rect.start, Rect.len, pick, Leaf.extent] <;> omega
  | split split children ih =>
    obtain ⟨front, child, back, is, deeper⟩ := (walk_pane tiled).mp inside
    have member : child ∈ children := by simp [is]
    obtain ⟨positive, low, high⟩ := ih child member (tiled.child member) deeper
    rw [pick_shift] at low high
    refine ⟨positive, by omega, ?_⟩
    by_cases same : axis = split
    · subst same
      have total := offset_total tiled is
      rw [if_pos rfl] at high
      omega
    · rw [if_neg same, Nat.add_zero, tiled.same same member] at high
      exact high

section Line

variable (axis : Axis) (x y : Nat) (tree : Node Leaf) (offset : Nat)

theorem lineRect_start : (lineRect axis x y tree offset).start axis = pick axis x y + offset := by cases axis <;> rfl

theorem lineRect_beside {other : Axis} (off : other ≠ axis) : (lineRect axis x y tree offset).start other = pick other x y ∧
    (lineRect axis x y tree offset).len other = tiledSize other tree := by
  cases axis <;> cases other <;> first | exact ⟨rfl, rfl⟩ | exact absurd rfl off

end Line

theorem between_alongside {axis : Axis} {children : List (Node Leaf)} (tiled : Tiled (.split axis children)) {x y : Nat} {pane : Pane}
    (inside : pane ∈ (walk (.split axis children) x y).panes) {leading : Bool} {offset : Nat} {first second : Node Leaf}
    (next : pick axis x y + (offset + tiledSize axis first) + (if leading then 1 else 0) = endOf leading axis pane.rect) :
    Alongside leading axis (between axis x y (.split axis children) offset first second) pane.rect where
  same := rfl
  next := by rw [between, lineRect_start, next]
  low := by
    intro other off
    rw [between, (lineRect_beside axis x y _ _ off).1]
    exact (pane_within tiled inside other).2.1
  high := by
    intro other off
    rw [between, (lineRect_beside axis x y _ _ off).1, (lineRect_beside axis x y _ _ off).2]
    exact (pane_within tiled inside other).2.2

-- A pane is at the side of the tree, or a line is alongside.
theorem side_line {tree : Node Leaf} (tiled : Tiled tree) {x y : Nat} {pane : Pane} (inside : pane ∈ (walk tree x y).panes) (leading : Bool)
    (axis : Axis) : endOf leading axis pane.rect = endIn leading axis tree x y ∨ ∃ line ∈ (walk tree x y).lines, Alongside leading axis line pane.rect := by
  induction tree generalizing x y with
  | leaf leaf =>
    rw [walk_leaf, List.mem_singleton] at inside
    subst inside
    left
    cases axis <;> simp [endOf, endIn, Rect.start, Rect.len, pick, Leaf.extent]
  | split split children ih =>
    obtain ⟨front, child, back, is, deeper⟩ := (walk_pane tiled).mp inside
    have member : child ∈ children := by simp [is]
    rcases ih child member (tiled.child member) deeper with side | ⟨line, own, alongside⟩
    · by_cases same : axis = split
      · subst same
        rw [side]
        cases leading with
        | true =>
          rcases List.eq_nil_or_concat front with rfl | ⟨before, last, rfl⟩
          · exact Or.inl (by simp [endIn, pick_shift, offsetOf])
          · have split_ : children = before ++ last :: child :: back := by simp [is]
            refine Or.inr ⟨_, (walk_line tiled).mpr (Or.inr ⟨before, last, child, back, split_, rfl⟩), between_alongside tiled inside ?_⟩
            rw [side, endIn, if_pos rfl, if_pos rfl, pick_shift, if_pos rfl, List.concat_eq_append]
            simp only [offsetOf_sum, List.map_append, List.map_cons, List.map_nil, List.sum_append, List.sum_cons, List.sum_nil, List.length_append,
              List.length_cons, List.length_nil]
            omega
        | false =>
          cases back with
          | nil =>
            have total := offset_total tiled is
            left
            rw [endIn, endIn, if_neg (by decide), if_neg (by decide), pick_shift, if_pos rfl, ← total]
            simp only [offsetOf, List.map_nil, List.sum_nil]
            omega
          | cons second later =>
            refine Or.inr ⟨_, (walk_line tiled).mpr (Or.inr ⟨front, child, second, later, is, rfl⟩), between_alongside tiled inside ?_⟩
            rw [side, endIn, if_neg (by decide), if_neg (by decide), pick_shift, if_pos rfl]
            omega
      · left
        rw [side, endIn, endIn, pick_shift, if_neg same, Nat.add_zero, tiled.same same member]
    · exact Or.inr ⟨line, (walk_line tiled).mpr (Or.inl ⟨front, child, back, is, own⟩), alongside⟩

-- A line has cells of its tree on both sides.
theorem line_inner {tree : Node Leaf} (tiled : Tiled tree) {x y : Nat} {line : Grip × Rect} (inside : line ∈ (walk tree x y).lines) :
    pick line.1.axis x y < line.2.start line.1.axis ∧ line.2.start line.1.axis + 1 < pick line.1.axis x y + tiledSize line.1.axis tree := by
  induction tree generalizing x y with
  | leaf leaf => simp at inside
  | split split children ih =>
    rcases (walk_line tiled).mp inside with ⟨front, child, back, is, deeper⟩ | ⟨front, first, second, back, is, rfl⟩
    · have member : child ∈ children := by simp [is]
      obtain ⟨low, high⟩ := ih child member (tiled.child member) deeper
      rw [pick_shift] at low high
      refine ⟨by omega, ?_⟩
      by_cases same : line.1.axis = split
      · have total := offset_total tiled is
        rw [if_pos same] at high
        rw [same] at high ⊢
        omega
      · rw [if_neg same, Nat.add_zero, tiled.same same member] at high
        exact high
    · have total := offset_total tiled is
      have one := (tiled.child (show first ∈ children by simp [is])).positive split
      have two := (tiled.child (show second ∈ children by simp [is])).positive split
      rw [between, lineRect_start]
      simp only [offsetOf, List.map_cons, List.sum_cons] at total ⊢
      omega

end Sides

end Kido.Tui
