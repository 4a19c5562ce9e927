import Kido.Copy.Mode

set_option autoImplicit false

namespace Kido.Copy

open Kido.Shared (isWhitespace)
open Mode (WordMotion)

section Row

variable (alphanumeric : Char → Bool) (cells : List RowCell) (big : Bool)

-- A word starts at a cell that is no blank and differs in class from the one before it in the row.
def Starts (at_ : Nat) : Prop :=
  ∃ kind, kindAt alphanumeric cells big at_ = some kind ∧ kind ≠ .blank ∧
    ∀ before, before + 1 = at_ → kindAt alphanumeric cells big before ≠ some kind

def Ends (at_ : Nat) : Prop :=
  ∃ kind, kindAt alphanumeric cells big at_ = some kind ∧ kind ≠ .blank ∧ kindAt alphanumeric cells big (at_ + 1) ≠ some kind

-- The cells that the motion stops at.
def Marks (motion : WordMotion) (at_ : Nat) : Prop :=
  match motion with
  | .end => Ends alphanumeric cells big at_
  | _ => Starts alphanumeric cells big at_

variable {alphanumeric cells big}

theorem Marks.kind {motion : WordMotion} {at_ : Nat} (marks : Marks alphanumeric cells big motion at_) :
    ∃ kind, kindAt alphanumeric cells big at_ = some kind ∧ kind ≠ .blank := by
  cases motion with
  | «end» => exact ⟨marks.choose, marks.choose_spec.1, marks.choose_spec.2.1⟩
  | next => exact ⟨marks.choose, marks.choose_spec.1, marks.choose_spec.2.1⟩
  | back => exact ⟨marks.choose, marks.choose_spec.1, marks.choose_spec.2.1⟩

theorem Marks.lt {motion : WordMotion} {at_ : Nat} (marks : Marks alphanumeric cells big motion at_) : at_ < cells.length :=
  kindAt_lt alphanumeric cells big marks.kind.choose_spec.1

variable (alphanumeric cells big)

theorem next_spec (at_ : Nat) {target : Nat} (is_target : pastBlanks alphanumeric cells big (runEnd alphanumeric cells at_ big + 1) = target) :
    at_ < target ∧ (target < cells.length → Starts alphanumeric cells big target) ∧
      ∀ place, Starts alphanumeric cells big place → at_ < place → target ≤ place := by
  obtain ⟨run_low, run, run_edge⟩ := runEnd_spec alphanumeric cells big at_
  obtain ⟨past_low, blanks, past_edge⟩ := pastBlanks_spec alphanumeric cells big (runEnd alphanumeric cells at_ big + 1)
  rw [is_target] at past_low blanks past_edge
  refine ⟨by omega, fun inside => ?_, fun place starts above => ?_⟩
  · obtain ⟨kind, here⟩ := kindAt_some alphanumeric cells big inside
    refine ⟨kind, here, fun blank => past_edge (blank ▸ here), fun before next same => ?_⟩
    rcases Nat.lt_or_ge (runEnd alphanumeric cells at_ big) before with behind | within
    · exact past_edge (by rw [here, ← same, blanks before behind (by omega)])
    · -- the cell before is the last of the cursor's run
      obtain rfl : runEnd alphanumeric cells at_ big = before := by omega
      exact run_edge kind (next ▸ here) (same.symm.trans (run _ run_low (Nat.le_refl _)))
  · by_contra below
    obtain ⟨kind, here, filled, edge⟩ := starts
    obtain ⟨before, rfl⟩ : ∃ n, place = n + 1 := ⟨place - 1, by omega⟩
    rcases Nat.lt_or_ge (runEnd alphanumeric cells at_ big) (before + 1) with behind | within
    · exact filled (Option.some.inj (here.symm.trans (blanks _ behind (by omega))))
    · exact edge before rfl ((run before (by omega) (by omega)).trans ((run _ (by omega) within).symm.trans here))

theorem end_spec (at_ : Nat) {target : Nat}
    (is_target : runEnd alphanumeric cells (pastBlanks alphanumeric cells big (min (at_ + 1) cells.length)) big = target) :
    (target < cells.length → at_ < target ∧ Ends alphanumeric cells big target) ∧
      ∀ place, Ends alphanumeric cells big place → at_ < place → target ≤ place := by
  obtain ⟨past_low, blanks, past_edge⟩ := pastBlanks_spec alphanumeric cells big (min (at_ + 1) cells.length)
  generalize pastBlanks alphanumeric cells big (min (at_ + 1) cells.length) = first at *
  obtain ⟨run_low, run, run_edge⟩ := runEnd_spec alphanumeric cells big first
  rw [is_target] at run_low run run_edge
  refine ⟨fun inside => ⟨by omega, ?_⟩, fun place ends above => ?_⟩
  · obtain ⟨kind, here⟩ := kindAt_some alphanumeric cells big (show first < cells.length by omega)
    exact ⟨kind, (run _ run_low (Nat.le_refl _)).trans here, fun blank => past_edge (blank ▸ here),
      fun same => run_edge kind same here.symm⟩
  · by_contra below
    obtain ⟨kind, here, filled, edge⟩ := ends
    have inside := kindAt_lt alphanumeric cells big here
    rcases Nat.lt_or_ge place first with before | within
    · exact filled (Option.some.inj (here.symm.trans (blanks place (by omega) before)))
    · exact edge ((run (place + 1) (by omega) (by omega)).trans ((run place within (by omega)).symm.trans here))

theorem back_spec {at_ : Nat} (inside : at_ < cells.length) {target : Nat}
    (is_target : runStart alphanumeric cells (backBlanks alphanumeric cells big at_) big = target) :
    (target = 0 ∧ ∀ place ≤ at_, kindAt alphanumeric cells big place = some .blank) ∨
      target ≤ at_ ∧ Starts alphanumeric cells big target ∧
        ∀ place, Starts alphanumeric cells big place → place ≤ at_ → place ≤ target := by
  obtain ⟨low, blanks, first⟩ := backBlanks_spec alphanumeric cells big at_
  generalize backBlanks alphanumeric cells big at_ = last at *
  obtain ⟨run_low, run, edge⟩ := runStart_spec alphanumeric cells big (show last < cells.length by omega)
  rw [is_target] at run_low run edge
  by_cases blank : kindAt alphanumeric cells big last = some .blank
  · obtain rfl := first blank
    refine Or.inl ⟨by omega, fun place below => ?_⟩
    rcases Nat.eq_zero_or_pos place with rfl | above
    · exact blank
    · exact blanks place above below
  · obtain ⟨kind, here⟩ := kindAt_some alphanumeric cells big (show last < cells.length by omega)
    refine Or.inr ⟨by omega, ⟨kind, (run _ (Nat.le_refl _) run_low).trans here, fun blank' => blank (blank' ▸ here), fun before next => ?_⟩,
      fun place starts below => ?_⟩
    · exact here ▸ edge before next
    · by_contra above
      obtain ⟨other, there, filled, other_edge⟩ := starts
      rcases Nat.lt_or_ge last place with behind | within
      · exact filled (Option.some.inj (there.symm.trans (blanks place behind below)))
      · obtain ⟨before, rfl⟩ : ∃ n, place = n + 1 := ⟨place - 1, by omega⟩
        exact other_edge before rfl ((run before (by omega) (by omega)).trans ((run _ (by omega) within).symm.trans there))

theorem kindAt_blank {at_ : Nat} {cell : RowCell} (found : cells[at_]? = some cell) :
    kindAt alphanumeric cells big at_ = some .blank ↔ isWhitespace cell.char = true := by
  rw [kindAt, found, Option.map_some, Option.some_inj, classOf]
  split_ifs with white
  · simp [white]
  · simp [white]
  · simp [white]

-- A row holds no word exactly when all its cells are blank.
theorem marks_none (blank : ∀ cell ∈ cells, isWhitespace cell.char = true) (motion : WordMotion) (place : Nat) :
    ¬ Marks alphanumeric cells big motion place := by
  intro marks
  obtain ⟨kind, here, filled⟩ := marks.kind
  have inside := marks.lt
  have found : cells[place]? = some cells[place] := List.getElem?_eq_getElem inside
  have white := (kindAt_blank alphanumeric cells big found).mpr (blank _ (List.getElem_mem inside))
  exact filled (Option.some.inj (here.symm.trans white))

theorem entered_none {motion : WordMotion} (entered : Mode.entered alphanumeric cells motion big = none) (place : Nat) :
    ¬ Marks alphanumeric cells big motion place := by
  have blank : ∀ cell ∈ cells, isWhitespace cell.char = true := by
    cases motion <;> simpa [Mode.entered] using entered
  exact marks_none alphanumeric cells big blank motion place

-- The first cell that is no blank starts the first word; the end of its run ends it.
theorem first_filled {at_ : Nat} (found : cells.findIdx? (fun cell => !isWhitespace cell.char) = some at_) :
    (∃ kind, kindAt alphanumeric cells big at_ = some kind ∧ kind ≠ .blank) ∧
      ∀ place < at_, kindAt alphanumeric cells big place = some .blank := by
  obtain ⟨inside, filled, blanks⟩ := List.findIdx?_eq_some_iff_getElem.mp found
  refine ⟨?_, fun place below => ?_⟩
  · obtain ⟨kind, here⟩ := kindAt_some alphanumeric cells big inside
    refine ⟨kind, here, fun blank => ?_⟩
    have white := (kindAt_blank alphanumeric cells big (List.getElem?_eq_getElem inside)).mp (blank ▸ here)
    exact absurd filled (by simp [white])
  · have white := blanks place below
    exact (kindAt_blank alphanumeric cells big (List.getElem?_eq_getElem (by omega))).mpr (by simpa using white)

theorem entered_next {at_ : Nat} (entered : Mode.entered alphanumeric cells .next big = some at_) :
    Starts alphanumeric cells big at_ ∧ ∀ place, Starts alphanumeric cells big place → at_ ≤ place := by
  obtain ⟨⟨kind, here, filled⟩, blanks⟩ := first_filled alphanumeric cells big entered
  refine ⟨⟨kind, here, filled, fun before next same => ?_⟩, fun place starts => ?_⟩
  · exact filled (Option.some.inj (same.symm.trans (blanks before (by omega))))
  · by_contra below
    obtain ⟨other, there, solid, -⟩ := starts
    exact solid (Option.some.inj (there.symm.trans (blanks place (by omega))))

theorem entered_end {at_ : Nat} (entered : Mode.entered alphanumeric cells .end big = some at_) :
    Ends alphanumeric cells big at_ ∧ ∀ place, Ends alphanumeric cells big place → at_ ≤ place := by
  obtain ⟨first, found, is_target⟩ := Option.map_eq_some_iff.mp entered
  obtain ⟨⟨kind, here, filled⟩, blanks⟩ := first_filled alphanumeric cells big found
  obtain ⟨run_low, run, run_edge⟩ := runEnd_spec alphanumeric cells big first
  rw [is_target] at run_low run run_edge
  refine ⟨⟨kind, (run _ run_low (Nat.le_refl _)).trans here, filled, fun same => run_edge kind same here.symm⟩, fun place ends => ?_⟩
  by_contra below
  obtain ⟨other, there, solid, edge⟩ := ends
  rcases Nat.lt_or_ge place first with before | within
  · exact solid (Option.some.inj (there.symm.trans (blanks place before)))
  · exact edge ((run (place + 1) (by omega) (by omega)).trans ((run place within (by omega)).symm.trans there))

theorem entered_back {at_ : Nat} (entered : Mode.entered alphanumeric cells .back big = some at_) :
    Starts alphanumeric cells big at_ ∧ ∀ place, Starts alphanumeric cells big place → place ≤ at_ := by
  obtain ⟨back, found, is_target⟩ := Option.map_eq_some_iff.mp entered
  obtain ⟨inside, filled, blanks⟩ := List.findIdx?_eq_some_iff_getElem.mp found
  rw [List.length_reverse] at inside
  rw [List.getElem_reverse] at filled
  have within : cells.length - 1 - back < cells.length := by omega
  obtain ⟨kind, here⟩ := kindAt_some alphanumeric cells big within
  have solid : kind ≠ .blank := by
    rintro rfl
    have white := (kindAt_blank alphanumeric cells big (List.getElem?_eq_getElem within)).mp here
    exact absurd filled (by simp [white])
  have behind : ∀ place, cells.length - 1 - back < place → place < cells.length →
      kindAt alphanumeric cells big place = some .blank := by
    intro place above below
    have white := blanks (cells.length - 1 - place) (by omega)
    rw [List.getElem_reverse] at white
    have same : cells.length - 1 - (cells.length - 1 - place) = place := by omega
    exact (kindAt_blank alphanumeric cells big (List.getElem?_eq_getElem below)).mpr (by simpa [same] using white)
  obtain ⟨run_low, run, edge⟩ := runStart_spec alphanumeric cells big within
  rw [is_target] at run_low run edge
  refine ⟨⟨kind, (run _ (Nat.le_refl _) run_low).trans here, solid, fun before next => here ▸ edge before next⟩, fun place starts => ?_⟩
  by_contra above
  obtain ⟨other, there, other_solid, other_edge⟩ := starts
  rcases Nat.lt_or_ge (cells.length - 1 - back) place with beyond | inner
  · exact other_solid (Option.some.inj (there.symm.trans (behind place beyond (kindAt_lt alphanumeric cells big there))))
  · obtain ⟨before, rfl⟩ : ∃ n, place = n + 1 := ⟨place - 1, by omega⟩
    exact other_edge before rfl ((run before (by omega) (by omega)).trans ((run _ (by omega) inner).symm.trans there))

end Row

-- Behind the cell in the motion's direction.
def Ahead (motion : WordMotion) (from_ cell : Cell) : Prop :=
  match motion with
  | .back => cell.Before from_
  | _ => from_.Before cell

def Past (motion : WordMotion) (row other : Nat) : Prop :=
  match motion with
  | .back => other < row
  | _ => row < other

theorem Ahead.asymm {motion : WordMotion} {first second : Cell} (ahead : Ahead motion first second) : ¬ Ahead motion second first := by
  cases motion <;> exact Cell.Before.asymm ahead

theorem Past.ahead {motion : WordMotion} {first second : Cell} (past : Past motion first.row second.row) : Ahead motion first second := by
  cases motion <;> exact Or.inl past

theorem ahead_iff {motion : WordMotion} {first second : Cell} :
    Ahead motion first second ↔ Past motion first.row second.row ∨ first.row = second.row ∧ Past motion first.col second.col := by
  cases motion with
  | next => exact Iff.rfl
  | «end» => exact Iff.rfl
  | back => simp only [Ahead, Past, Cell.Before, eq_comm]

namespace Screen

variable (screen : Screen) (alphanumeric : Char → Bool) (motion : WordMotion) (big : Bool)

-- The cells of the screen that the motion stops at.
def Marked (cell : Cell) : Prop :=
  ∃ row slot at_, screen.text[cell.row]? = some row ∧ row.cells[at_]? = some slot ∧ slot.col = cell.col ∧
    Marks alphanumeric row.cells big motion at_

-- The first such cell from the cursor on.
structure Nearest (cursor cell : Cell) : Prop where
  marked : screen.Marked alphanumeric motion big cell
  ahead : Ahead motion cursor cell
  first : ∀ other, screen.Marked alphanumeric motion big other → Ahead motion cursor other → other = cell ∨ Ahead motion cell other

variable {screen alphanumeric motion big}

theorem Nearest.unique {cursor cell other : Cell} (near : screen.Nearest alphanumeric motion big cursor cell)
    (too : screen.Nearest alphanumeric motion big cursor other) : cell = other := by
  rcases near.first other too.marked too.ahead with same | behind
  · exact same.symm
  · rcases too.first cell near.marked near.ahead with same | before
    · exact same
    · exact absurd before behind.asymm

theorem Marked.row_lt {cell : Cell} (marked : screen.Marked alphanumeric motion big cell) : cell.row < screen.text.length := by
  obtain ⟨row, -, -, found, -⟩ := marked
  exact (List.getElem?_eq_some_iff.mp found).1

-- What the entry of another row finds is the first mark of that row.
theorem entered_marked {row : Row} {at_ : Nat} (entered : Mode.entered alphanumeric row.cells motion big = some at_) {number : Nat}
    (found : screen.text[number]? = some row) :
    ∃ slot, row.cells[at_]? = some slot ∧ screen.Marked alphanumeric motion big ⟨slot.col, number⟩ ∧
      ∀ other, screen.Marked alphanumeric motion big other → other.row = number →
        other = ⟨slot.col, number⟩ ∨ Ahead motion ⟨slot.col, number⟩ other := by
  have beside := row.cells_beside
  have spec : Marks alphanumeric row.cells big motion at_ ∧
      ∀ place, Marks alphanumeric row.cells big motion place → place = at_ ∨ Past motion at_ place := by
    cases motion with
    | next =>
      obtain ⟨marks, least⟩ := entered_next alphanumeric row.cells big entered
      exact ⟨marks, fun place other => (Nat.eq_or_lt_of_le (least place other)).imp Eq.symm id⟩
    | «end» =>
      obtain ⟨marks, least⟩ := entered_end alphanumeric row.cells big entered
      exact ⟨marks, fun place other => (Nat.eq_or_lt_of_le (least place other)).imp Eq.symm id⟩
    | back =>
      obtain ⟨marks, most⟩ := entered_back alphanumeric row.cells big entered
      exact ⟨marks, fun place other => Nat.eq_or_lt_of_le (most place other)⟩
  obtain ⟨marks, first⟩ := spec
  have inside := marks.lt
  have here : row.cells[at_]? = some row.cells[at_] := List.getElem?_eq_getElem inside
  refine ⟨_, here, ⟨row, _, at_, found, here, rfl, marks⟩, ?_⟩
  rintro ⟨col, number⟩ ⟨row', slot, place, found', there, same, other⟩ rfl
  obtain rfl : row = row' := Option.some.inj (found.symm.trans found')
  obtain rfl : slot.col = col := same
  rcases first place other with rfl | past
  · left
    rw [Option.some.inj (here.symm.trans there)]
  · right
    refine ahead_iff.mpr (Or.inr ⟨rfl, ?_⟩)
    cases motion with
    | next => exact (beside.lt_iff here there).mp past
    | «end» => exact (beside.lt_iff here there).mp past
    | back => exact (beside.lt_iff there here).mp past

-- The rows that are left in the motion's direction.
def rowsLeft (motion : WordMotion) (total row : Nat) : Nat := if motion = .back then row else total - 1 - row

variable (alphanumeric motion big) in
-- Over the other rows, the motion goes to the first mark of the first of them that has one.
theorem wordRows_spec (left : Nat) (mode : Mode) (inside : mode.cursor.row < screen.text.length)
    (exact_ : left = rowsLeft motion screen.text.length mode.cursor.row) :
    ∃ after, mode.wordRows alphanumeric motion big screen.reads left = .ok after ∧
      ((screen.Marked alphanumeric motion big after.cursor ∧ Past motion mode.cursor.row after.cursor.row ∧
          ∀ other, screen.Marked alphanumeric motion big other → Past motion mode.cursor.row other.row →
            other = after.cursor ∨ Ahead motion after.cursor other) ∨
        ∀ other, screen.Marked alphanumeric motion big other → ¬ Past motion mode.cursor.row other.row) := by
  induction left generalizing mode with
  | zero =>
    refine ⟨mode, rfl, Or.inr fun other marked past => ?_⟩
    have := marked.row_lt
    cases motion <;> simp [rowsLeft, Past] at exact_ past <;> omega
  | succ left ih =>
    rw [Mode.wordRows]
    set next := if motion = .back then mode.cursor.row - 1 else mode.cursor.row + 1 with next_eq
    have below : next < screen.text.length := by
      cases motion <;> simp [rowsLeft] at exact_ next_eq <;> omega
    have past : Past motion mode.cursor.row next := by
      cases motion <;> simp [rowsLeft, Past] at exact_ next_eq ⊢ <;> omega
    have rest : left = rowsLeft motion screen.text.length next := by
      cases motion <;> simp [rowsLeft] at exact_ next_eq ⊢ <;> omega
    have further : ∀ number, Past motion mode.cursor.row number → number = next ∨ Past motion next number := by
      intro number beyond
      cases motion <;> simp [rowsLeft, Past] at exact_ next_eq beyond ⊢ <;> omega
    have found : screen.text[next]? = some screen.text[next] := List.getElem?_eq_getElem below
    rw [show screen.reads.row next = .ok screen.text[next] from screen.row_inside below]
    dsimp only
    cases entered : Mode.entered alphanumeric screen.text[next].cells motion big with
    | some at_ =>
      obtain ⟨slot, here, marked, first⟩ := entered_marked entered found
      have target : ((screen.text[next].cells[at_]?.map RowCell.col).getD 0) = slot.col := by rw [here, Option.map_some, Option.getD_some]
      refine ⟨_, rfl, Or.inl ?_⟩
      simp only [Mode.moved, Mode.toRow, target]
      refine ⟨marked, past, fun other marks beyond => ?_⟩
      rcases further other.row beyond with same | behind
      · exact first other marks same
      · exact Or.inr (Past.ahead behind)
    | none =>
      have empty : ∀ other, screen.Marked alphanumeric motion big other → other.row ≠ next := by
        rintro other ⟨row, slot, place, there, -, -, marks⟩ same
        rw [same] at there
        rw [← Option.some.inj (found.symm.trans there)] at marks
        exact entered_none alphanumeric _ big entered place marks
      obtain ⟨after, done, spec⟩ := ih ((mode.toRow next).moved 0) below rest
      refine ⟨after, done, ?_⟩
      rcases spec with ⟨marked, beyond, first⟩ | none_
      · refine Or.inl ⟨marked, ?_, fun other marks away => ?_⟩
        · cases motion <;> simp [rowsLeft, Past, Mode.toRow, Mode.moved] at exact_ next_eq beyond ⊢ <;> omega
        · exact first other marks ((further other.row away).resolve_left (empty other marks))
      · exact Or.inr fun other marks away => none_ other marks ((further other.row away).resolve_left (empty other marks))

-- Only blanks stand before the cursor in its row, and at least one.
def Indented (screen : Screen) (cursor : Cell) : Prop :=
  ∃ row, screen.text[cursor.row]? = some row ∧ (∃ cell ∈ row.cells, cell.col < cursor.col) ∧
    ∀ cell ∈ row.cells, cell.col < cursor.col → isWhitespace cell.char = true

section Within

variable {mode : Mode} {row : Row} (found : screen.text[mode.cursor.row]? = some row) (aligned : Aligned row.cells mode.cursor.col)

include found aligned

-- The marks of the cursor's row by their places.
theorem marked_within (other : Cell) (same : other.row = mode.cursor.row) (marked : screen.Marked alphanumeric motion big other) :
    ∃ place slot, row.cells[place]? = some slot ∧ slot.col = other.col ∧ Marks alphanumeric row.cells big motion place ∧
      (mode.cursor.col < other.col ↔ row.cells.findIdx (fun cell => decide (mode.cursor.col ≤ cell.col)) < place) ∧
      (other.col < mode.cursor.col ↔ place < row.cells.findIdx fun cell => decide (mode.cursor.col ≤ cell.col)) := by
  obtain ⟨before, here⟩ := row.cells_beside.place aligned
  obtain ⟨row', slot, place, there, at_place, col, marks⟩ := marked
  rw [same] at there
  obtain rfl := Option.some.inj (found.symm.trans there)
  refine ⟨place, slot, at_place, col, marks, ?_, ?_⟩
  · rw [← col]
    have low := before place slot at_place
    constructor
    · intro above
      rcases Nat.lt_trichotomy (row.cells.findIdx fun cell => decide (mode.cursor.col ≤ cell.col)) place with less | equal | more
      · exact less
      · have := here slot (equal ▸ at_place)
        omega
      · have := low.mp more
        omega
    · intro above
      by_contra not_above
      rcases Nat.eq_or_lt_of_le (Nat.not_lt.mp not_above) with equal | less
      · have inside : row.cells.findIdx (fun cell => decide (mode.cursor.col ≤ cell.col)) < row.cells.length := by
          have := (List.getElem?_eq_some_iff.mp at_place).1
          omega
        have at_cursor := List.getElem?_eq_getElem inside
        have order := (row.cells_beside.lt_iff at_cursor at_place).mp above
        have := here _ at_cursor
        omega
      · have := low.mpr less
        omega
  · rw [← col]
    exact (before place slot at_place).symm

-- A motion to a place with a mark goes to the first, when no mark lies between.
theorem target_nearest {target : Nat} {slot : RowCell} (at_target : row.cells[target]? = some slot)
    (marks : Marks alphanumeric row.cells big motion target)
    (past : Past motion (row.cells.findIdx fun cell => decide (mode.cursor.col ≤ cell.col)) target)
    (first : ∀ place, Marks alphanumeric row.cells big motion place →
      Past motion (row.cells.findIdx fun cell => decide (mode.cursor.col ≤ cell.col)) place → place = target ∨ Past motion target place) :
    screen.Nearest alphanumeric motion big mode.cursor (mode.moved slot.col).cursor := by
  have marked : screen.Marked alphanumeric motion big (mode.moved slot.col).cursor := ⟨row, slot, target, found, at_target, rfl, marks⟩
  have cols : ∀ other, other.row = mode.cursor.row → screen.Marked alphanumeric motion big other →
      ∃ place slot, row.cells[place]? = some slot ∧ slot.col = other.col ∧ Marks alphanumeric row.cells big motion place ∧
        (Past motion mode.cursor.col other.col ↔ Past motion (row.cells.findIdx fun cell => decide (mode.cursor.col ≤ cell.col)) place) := by
    intro other same marked
    obtain ⟨place, slot, at_place, col, marks, above, below⟩ := marked_within found aligned other same marked
    refine ⟨place, slot, at_place, col, marks, ?_⟩
    cases motion with
    | next => exact above
    | «end» => exact above
    | back => exact below
  refine ⟨marked, ?_, fun other marks ahead => ?_⟩
  · obtain ⟨place, slot', at_place, col, -, iff⟩ := cols (mode.moved slot.col).cursor rfl marked
    have same : place = target := by
      by_contra other
      rcases Nat.lt_or_gt_of_ne other with less | more
      · have := (row.cells_beside.lt_iff at_place at_target).mp less
        exact absurd col (Nat.ne_of_lt this)
      · have := (row.cells_beside.lt_iff at_target at_place).mp more
        exact absurd col (Nat.ne_of_gt this)
    exact ahead_iff.mpr (Or.inr ⟨rfl, iff.mpr (same ▸ past)⟩)
  · rcases ahead_iff.mp ahead with beyond | ⟨same, beyond⟩
    · exact Or.inr (Past.ahead beyond)
    · obtain ⟨place, slot', at_place, col, marks', iff⟩ := cols other same.symm marks
      rcases first place marks' (iff.mp beyond) with rfl | behind
      · left
        obtain rfl := Option.some.inj (at_target.symm.trans at_place)
        cases other
        simp only [Mode.moved, Cell.mk.injEq]
        exact ⟨col.symm, same.symm⟩
      · refine Or.inr (ahead_iff.mpr (Or.inr ⟨same, ?_⟩))
        rw [← col]
        cases motion with
        | next => exact (row.cells_beside.lt_iff at_target at_place).mp behind
        | «end» => exact (row.cells_beside.lt_iff at_target at_place).mp behind
        | back => exact (row.cells_beside.lt_iff at_place at_target).mp behind

omit found aligned in
theorem word_some {after : Mode} (moved : mode.word alphanumeric motion big row = some after) :
    ∃ target slot, Mode.wordTarget alphanumeric row.cells motion big mode.cursor.col = some target ∧
      row.cells[target]? = some slot ∧ after = mode.moved slot.col := by
  obtain ⟨target, is_target, moved⟩ := Option.bind_eq_some_iff.mp moved
  obtain ⟨slot, at_target, rfl⟩ := Option.map_eq_some_iff.mp moved
  exact ⟨target, slot, is_target, at_target, rfl⟩

omit found aligned in
theorem word_none (stays : mode.word alphanumeric motion big row = none) {target : Nat}
    (is_target : Mode.wordTarget alphanumeric row.cells motion big mode.cursor.col = some target) : row.cells.length ≤ target := by
  rw [Mode.word, is_target, Option.bind_some, Option.map_eq_none_iff] at stays
  exact List.getElem?_eq_none_iff.mp stays

-- Within its row, a motion forward goes to the first mark ahead.
theorem word_forward (forward : motion ≠ .back) :
    (∀ after, mode.word alphanumeric motion big row = some after → screen.Nearest alphanumeric motion big mode.cursor after.cursor) ∧
      (mode.word alphanumeric motion big row = none →
        ∀ other, screen.Marked alphanumeric motion big other → other.row = mode.cursor.row → ¬ Ahead motion mode.cursor other) := by
  set place := row.cells.findIdx (fun cell => decide (mode.cursor.col ≤ cell.col)) with place_eq
  obtain ⟨target, is_target, lands, least⟩ : ∃ target,
      Mode.wordTarget alphanumeric row.cells motion big mode.cursor.col = some target ∧
        (target < row.cells.length → place < target ∧ Marks alphanumeric row.cells big motion target) ∧
        ∀ other, Marks alphanumeric row.cells big motion other → place < other → target ≤ other := by
    cases motion with
    | next =>
      obtain ⟨past, starts, least⟩ := next_spec alphanumeric row.cells big place rfl
      exact ⟨_, rfl, fun inside => ⟨past, starts inside⟩, least⟩
    | «end» =>
      obtain ⟨lands, least⟩ := end_spec alphanumeric row.cells big place rfl
      exact ⟨_, rfl, lands, least⟩
    | back => exact absurd rfl forward
  have past_iff : ∀ first second, Past motion first second ↔ first < second := by
    cases motion with
    | back => exact absurd rfl forward
    | next => exact fun _ _ => Iff.rfl
    | «end» => exact fun _ _ => Iff.rfl
  constructor
  · intro after moved
    obtain ⟨target', slot, is_target', at_target, rfl⟩ := word_some moved
    obtain rfl := Option.some.inj (is_target.symm.trans is_target')
    obtain ⟨past, marks⟩ := lands (List.getElem?_eq_some_iff.mp at_target).1
    refine target_nearest found aligned at_target marks ((past_iff _ _).mpr past) fun other marks' beyond => ?_
    rw [past_iff] at beyond ⊢
    exact (Nat.eq_or_lt_of_le (least other marks' beyond)).imp Eq.symm id
  · intro stays other marked same ahead
    have outside := word_none stays is_target
    obtain ⟨other_place, slot, at_place, -, marks, above, -⟩ := marked_within found aligned other same marked
    have beyond : mode.cursor.col < other.col := by
      rcases ahead_iff.mp ahead with row_past | ⟨-, col_past⟩
      · rw [past_iff, same] at row_past
        exact absurd row_past (Nat.lt_irrefl _)
      · exact (past_iff _ _).mp col_past
    have := least other_place marks (above.mp beyond)
    have := marks.lt
    omega

-- Back over the row, the motion goes to the first mark, or over blanks alone to the row's first cell.
theorem word_back :
    (∀ after, mode.word alphanumeric .back big row = some after →
        screen.Nearest alphanumeric .back big mode.cursor after.cursor ∨
          screen.Indented mode.cursor ∧ after.cursor.row = mode.cursor.row) ∧
      (mode.word alphanumeric .back big row = none → ∀ cell ∈ row.cells, ¬ cell.col < mode.cursor.col) := by
  obtain ⟨before, here⟩ := row.cells_beside.place aligned
  set place := row.cells.findIdx (fun cell => decide (mode.cursor.col ≤ cell.col)) with place_eq
  have low : place ≤ row.cells.length := List.findIdx_le_length
  constructor
  · intro after moved
    obtain ⟨target, slot, is_target, at_target, rfl⟩ := word_some moved
    simp only [Mode.wordTarget, ← place_eq] at is_target
    split_ifs at is_target with at_start
    obtain ⟨last, at_last⟩ : ∃ n, place = n + 1 := ⟨place - 1, by omega⟩
    rcases back_spec alphanumeric row.cells big (show place - 1 < row.cells.length by omega) (Option.some.inj is_target) with
      ⟨rfl, blanks⟩ | ⟨inner, starts, most⟩
    · right
      refine ⟨⟨row, found, ⟨slot, List.mem_of_getElem? at_target, (before 0 slot at_target).mp (by omega)⟩, fun cell member less => ?_⟩, rfl⟩
      obtain ⟨number, inside, rfl⟩ := List.getElem_of_mem member
      have at_number := List.getElem?_eq_getElem inside
      exact (kindAt_blank alphanumeric row.cells big at_number).mp (blanks number (by have := (before number _ at_number).mpr less; omega))
    · left
      refine target_nearest found aligned at_target starts (show target < place by omega) fun other marks beyond => ?_
      exact Nat.eq_or_lt_of_le (most other marks (by have : other < place := beyond; omega))
  · intro stays cell member less
    obtain ⟨number, inside, rfl⟩ := List.getElem_of_mem member
    have := (before number _ (List.getElem?_eq_getElem inside)).mpr less
    have at_last : place ≠ 0 := by omega
    have back_low := (backBlanks_spec alphanumeric row.cells big (place - 1)).1
    have is_target : Mode.wordTarget alphanumeric row.cells .back big mode.cursor.col =
        some (runStart alphanumeric row.cells (backBlanks alphanumeric row.cells big (place - 1)) big) := if_neg at_last
    have outside := word_none stays is_target
    have start_low := (runStart_spec alphanumeric row.cells big
      (show backBlanks alphanumeric row.cells big (place - 1) < row.cells.length by omega)).1
    omega

end Within

theorem indented_unmarked {cursor other : Cell} (indented : screen.Indented cursor) (same : other.row = cursor.row)
    (marked : screen.Marked alphanumeric motion big other) : ¬ Ahead .back cursor other := by
  obtain ⟨row, found, -, blanks⟩ := indented
  obtain ⟨row', slot, place, found', at_place, col, marks⟩ := marked
  rw [same] at found'
  obtain rfl := Option.some.inj (found.symm.trans found')
  rintro (above | ⟨-, before⟩)
  · exact absurd above (by omega)
  · obtain ⟨kind, here, filled⟩ := marks.kind
    have white := blanks slot (List.mem_of_getElem? at_place) (col ▸ before)
    exact filled (Option.some.inj (here.symm.trans ((kindAt_blank alphanumeric row.cells big at_place).mpr white)))

variable (alphanumeric motion big) in
-- Over the other rows, when no mark is ahead in the cursor's own.
theorem wordRows_nearest {mode : Mode} (inside : mode.cursor.row < screen.text.length)
    (unmarked : ∀ other, screen.Marked alphanumeric motion big other → other.row = mode.cursor.row → ¬ Ahead motion mode.cursor other) :
    ∃ after, mode.wordRows alphanumeric motion big screen.reads (rowsLeft motion screen.text.length mode.cursor.row) = .ok after ∧
      (screen.Nearest alphanumeric motion big mode.cursor after.cursor ∨
        ∀ other, screen.Marked alphanumeric motion big other → ¬ Ahead motion mode.cursor other) := by
  obtain ⟨after, done, spec⟩ := wordRows_spec alphanumeric motion big _ mode inside rfl
  have past : ∀ other, screen.Marked alphanumeric motion big other → Ahead motion mode.cursor other →
      Past motion mode.cursor.row other.row := by
    intro other marked ahead
    rcases ahead_iff.mp ahead with beyond | ⟨same, -⟩
    · exact beyond
    · exact absurd ahead (unmarked other marked same.symm)
  refine ⟨after, done, ?_⟩
  rcases spec with ⟨marked, beyond, first⟩ | none_
  · exact Or.inl ⟨marked, Past.ahead beyond, fun other marks ahead => first other marks (past other marks ahead)⟩
  · exact Or.inr fun other marks ahead => none_ other marks (past other marks ahead)

section Motion

variable {mode : Mode} (shows : screen.Shows mode) (seated : screen.Seated mode.cursor)

include shows seated

variable (alphanumeric) in
theorem wordMotion_row : ∃ row, screen.text[mode.cursor.row]? = some row ∧ Aligned row.cells mode.cursor.col ∧
    ∀ motion big, mode.wordMotion alphanumeric motion big screen.reads =
      match mode.word alphanumeric motion big row with
      | some mode => .ok mode
      | none => mode.wordRows alphanumeric motion big screen.reads (rowsLeft motion screen.text.length mode.cursor.row) := by
  have inside := seated.row
  have found : screen.text[mode.cursor.row]? = some screen.text[mode.cursor.row] := List.getElem?_eq_getElem inside
  refine ⟨_, found, seated.aligned _ found, fun motion big => ?_⟩
  rw [Mode.wordMotion, show screen.reads.row mode.cursor.row = .ok _ from screen.row_inside inside, shows.total]
  dsimp only
  cases mode.word alphanumeric motion big screen.text[mode.cursor.row] <;> rfl

variable (alphanumeric) in
-- The motion goes to the nearest mark ahead, unless none is ahead or it goes back over blanks alone.
theorem wordMotion_spec (motion : WordMotion) (big : Bool) :
    ∃ after, mode.wordMotion alphanumeric motion big screen.reads = .ok after ∧
      (screen.Nearest alphanumeric motion big mode.cursor after.cursor ∨ (motion = .back ∧ screen.Indented mode.cursor) ∨
        ∀ other, screen.Marked alphanumeric motion big other → ¬ Ahead motion mode.cursor other) := by
  obtain ⟨row, found, aligned, motion_eq⟩ := wordMotion_row alphanumeric shows seated
  rw [motion_eq]
  cases moved : mode.word alphanumeric motion big row with
  | some after =>
    refine ⟨after, rfl, ?_⟩
    by_cases back : motion = .back
    · subst back
      rcases (word_back found aligned).1 after moved with near | ⟨indented, -⟩
      · exact Or.inl near
      · exact Or.inr (Or.inl ⟨rfl, indented⟩)
    · exact Or.inl ((word_forward found aligned back).1 after moved)
  | none =>
    have unmarked : ∀ other, screen.Marked alphanumeric motion big other → other.row = mode.cursor.row →
        ¬ Ahead motion mode.cursor other := by
      by_cases back : motion = .back
      · subst back
        rintro other marked same (above | ⟨-, before⟩)
        · exact absurd above (by omega)
        · obtain ⟨row', slot, place, found', at_place, col, -⟩ := marked
          rw [same] at found'
          obtain rfl := Option.some.inj (found.symm.trans found')
          exact (word_back found aligned).2 moved slot (List.mem_of_getElem? at_place) (col ▸ before)
      · exact (word_forward found aligned back).2 moved
    obtain ⟨after, done, near | none_⟩ := wordRows_nearest alphanumeric motion big seated.row unmarked
    · exact ⟨after, done, Or.inl near⟩
    · exact ⟨after, done, Or.inr (Or.inr none_)⟩

-- Back over blanks alone, the cursor stays in its row.
theorem wordMotion_indented (indented : screen.Indented mode.cursor) {big : Bool} {after : Mode}
    (done : mode.wordMotion alphanumeric .back big screen.reads = .ok after) : after.cursor.row = mode.cursor.row := by
  obtain ⟨row, found, aligned, motion_eq⟩ := wordMotion_row alphanumeric shows seated
  rw [motion_eq] at done
  cases moved : mode.word alphanumeric .back big row with
  | some other =>
    rw [moved] at done
    obtain rfl := Except.ok.inj done
    obtain ⟨-, -, -, -, rfl⟩ := word_some moved
    rfl
  | none =>
    obtain ⟨row', found', ⟨cell, member, before⟩, -⟩ := indented
    obtain rfl := Option.some.inj (found.symm.trans found')
    exact absurd before ((word_back found aligned).2 moved cell member)

end Motion

-- The motion goes to the first mark ahead, whenever there is one.
def Finds (screen : Screen) (alphanumeric : Char → Bool) (mode : Mode) (motion : WordMotion) (big : Bool) : Prop :=
  ∀ cell, screen.Nearest alphanumeric motion big mode.cursor cell →
    ∃ after, mode.wordMotion alphanumeric motion big screen.reads = .ok after ∧ after.cursor = cell

-- Back over blanks alone, a word in a row above is not found.
theorem finds_indented {mode : Mode} (shows : screen.Shows mode) (seated : screen.Seated mode.cursor) (indented : screen.Indented mode.cursor)
    {cell : Cell} (marked : screen.Marked alphanumeric .back big cell) (ahead : Ahead .back mode.cursor cell) :
    ¬ screen.Finds alphanumeric mode .back big := by
  intro finds
  obtain ⟨after, -, near | none_⟩ := wordRows_nearest alphanumeric .back big seated.row
    fun other marks same => indented_unmarked indented same marks
  · obtain ⟨there, done, same⟩ := finds _ near
    have stays := wordMotion_indented shows seated indented done
    exact indented_unmarked indented (same ▸ stays) near.marked near.ahead
  · exact none_ cell marked ahead

-- A motion finds its word exactly when it is not one back over blanks alone with a word in a row above.
theorem word_motions (screen : Screen) (alphanumeric : Char → Bool) (mode : Mode) (shows : screen.Shows mode)
    (seated : screen.Seated mode.cursor) (motion : WordMotion) (big : Bool) :
    screen.Finds alphanumeric mode motion big ↔
      ¬ (motion = .back ∧ screen.Indented mode.cursor ∧
        ∃ cell, screen.Marked alphanumeric motion big cell ∧ Ahead motion mode.cursor cell) := by
  constructor
  · rintro finds ⟨rfl, indented, cell, marked, ahead⟩
    exact finds_indented shows seated indented marked ahead finds
  · intro right cell near
    obtain ⟨after, done, found | ⟨back, indented⟩ | none_⟩ := wordMotion_spec alphanumeric shows seated motion big
    · exact ⟨after, done, found.unique near⟩
    · exact absurd ⟨back, indented, cell, near.marked, near.ahead⟩ right
    · exact absurd near.ahead (none_ cell near.marked)

end Screen

section Text

def plain (text : String) : Row := ⟨text.toList.map fun char => ⟨[char], 1⟩, false⟩

-- A line and an indented one.
def paragraph : Screen where
  cols := 20
  rows := 2
  text := [plain "one", plain "  two"]
  wide := by decide
  tall := by decide
  filled := by decide
  fits := by decide

def Screen.modeAt (screen : Screen) (cursor : Cell) : Mode :=
  ⟨screen.cols, screen.rows, screen.text.length, 0, cursor, none, none, none, .normal, none⟩

theorem Screen.modeAt_shows (screen : Screen) (cursor : Cell) : screen.Shows (screen.modeAt cursor) := ⟨rfl, rfl, rfl⟩

theorem paragraph_seated : paragraph.Seated ⟨2, 1⟩ where
  row := by decide
  col := by decide
  aligned := by
    rintro row ⟨⟩
    show ∀ cell ∈ (plain "  two").cells, ¬ (cell.col < 2 ∧ 2 < cell.col + cell.width)
    decide

theorem word_motions_end : paragraph.Finds Char.isAlphanum (paragraph.modeAt ⟨2, 1⟩) .end false :=
  (Screen.word_motions paragraph Char.isAlphanum (paragraph.modeAt ⟨2, 1⟩) (paragraph.modeAt_shows _) paragraph_seated .end false).mpr
    (by simp)

theorem word_motions_stay : ¬ ∀ (screen : Screen) (alphanumeric : Char → Bool) (mode : Mode), screen.Shows mode →
    screen.Seated mode.cursor → ∀ motion big, screen.Finds alphanumeric mode motion big := by
  intro every
  have indented : paragraph.Indented ⟨2, 1⟩ := ⟨plain "  two", rfl, by decide, by decide⟩
  have marked : paragraph.Marked Char.isAlphanum .back false ⟨0, 0⟩ :=
    ⟨plain "one", ⟨0, 1, 'o'⟩, 0, rfl, rfl, rfl, .word, by decide, by decide, by simp⟩
  exact Screen.finds_indented (paragraph.modeAt_shows _) paragraph_seated indented marked (Or.inl (by decide))
    (every paragraph Char.isAlphanum (paragraph.modeAt ⟨2, 1⟩) (paragraph.modeAt_shows _) paragraph_seated .back false)

end Text

end Kido.Copy
