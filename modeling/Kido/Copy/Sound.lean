import Kido.Shared.Run
import Kido.Copy.Mode

set_option autoImplicit false

namespace Kido.Copy

open Kido.Shared
open Kido.Tui (Entry KeyEvent)
open Kido.Shared (isWhitespace)

namespace Screen

variable (screen : Screen)

-- The row goes on in the next.
def GoesOn (number : Nat) : Prop := ∃ row, screen.text[number]? = some row ∧ row.wraps = true

-- From the start of the upper row's logical line to the end of the lower row's.
structure Covers (upper lower first last : Nat) : Prop where
  above : first ≤ upper
  joined_above : ∀ row, first ≤ row → row < upper → screen.GoesOn row
  starts : ∀ row, row + 1 = first → ¬ screen.GoesOn row
  below : lower ≤ last
  inside : last < screen.text.length
  joined_below : ∀ row, lower ≤ row → row < last → screen.GoesOn row
  ends : last + 1 < screen.text.length → ¬ screen.GoesOn last

-- A mode between two steps of an event: its cursor is on some row of the screen.
structure Roams (mode : Mode) : Prop where
  shows : screen.Shows mode
  row : mode.cursor.row < screen.text.length
  offset : mode.offset ≤ screen.text.length - screen.rows
  anchor : ∀ selection, mode.selection = some selection → screen.Seated selection.anchor
  found : ∀ last, mode.last = some last → ∀ match_ ∈ last.found, screen.Seated match_.start

structure Placed (mode : Mode) : Prop extends screen.Roams mode where
  seated : screen.Seated mode.cursor
  shown : mode.offset ≤ mode.cursor.row ∧ mode.cursor.row < mode.offset + screen.rows

-- What copy mode keeps.
structure Kept (mode : Mode) : Prop extends screen.Placed mode where
  lines : ∀ anchor first last, mode.selection = some (.line anchor first last) →
    screen.Covers (min anchor.row mode.cursor.row) (max anchor.row mode.cursor.row) first last

section Lines

theorem reads_wraps {number : Nat} (inside : number < screen.text.length) :
    ∃ wraps, screen.reads.wraps number = .ok wraps ∧ (wraps = true ↔ screen.GoesOn number) := by
  have found : screen.text[number]? = some screen.text[number] := List.getElem?_eq_getElem inside
  refine ⟨screen.text[number].wraps, ?_, fun wraps => ⟨_, found, wraps⟩, ?_⟩
  · show (screen.row number).map Row.wraps = _
    rw [row_inside screen inside]
    rfl
  · rintro ⟨row, there, wraps⟩
    rwa [Option.some.inj (found.symm.trans there)]

theorem lineStart_spec (number : Nat) (inside : number < screen.text.length) :
    ∃ first, Mode.lineStart screen.reads number = .ok first ∧ first ≤ number ∧
      (∀ row, first ≤ row → row < number → screen.GoesOn row) ∧ ∀ row, row + 1 = first → ¬ screen.GoesOn row := by
  induction number with
  | zero => exact ⟨0, rfl, Nat.le_refl 0, fun row _ below => absurd below (by omega), fun row zero => absurd zero (by omega)⟩
  | succ number ih =>
    obtain ⟨wraps, read, goes⟩ := screen.reads_wraps (show number < screen.text.length by omega)
    rw [Mode.lineStart, read]
    dsimp only
    split_ifs with joined
    · obtain ⟨first, done, low, between, starts⟩ := ih (by omega)
      refine ⟨first, done, by omega, fun row above below => ?_, starts⟩
      rcases Nat.eq_or_lt_of_le (Nat.le_of_lt_succ below) with rfl | below
      · exact goes.mp joined
      · exact between row above below
    · refine ⟨number + 1, rfl, Nat.le_refl _, fun row above below => absurd below (by omega), fun row next => ?_⟩
      obtain rfl : row = number := by omega
      exact fun on => joined (goes.mpr on)

theorem lineEnd_spec (left number : Nat) (exact_ : number + left + 1 = screen.text.length) :
    ∃ last, Mode.lineEnd screen.reads number left = .ok last ∧ number ≤ last ∧ last < screen.text.length ∧
      (∀ row, number ≤ row → row < last → screen.GoesOn row) ∧ (last + 1 < screen.text.length → ¬ screen.GoesOn last) := by
  induction left generalizing number with
  | zero =>
    exact ⟨number, rfl, Nat.le_refl _, by omega, fun row _ below => absurd below (by omega), fun more => absurd more (by omega)⟩
  | succ left ih =>
    obtain ⟨wraps, read, goes⟩ := screen.reads_wraps (show number < screen.text.length by omega)
    rw [Mode.lineEnd, read]
    dsimp only
    split_ifs with joined
    · obtain ⟨last, done, low, inside, between, ends⟩ := ih (number + 1) (by omega)
      refine ⟨last, done, by omega, inside, fun row above below => ?_, ends⟩
      rcases Nat.eq_or_lt_of_le above with rfl | above
      · exact goes.mp joined
      · exact between row above below
    · exact ⟨number, rfl, Nat.le_refl _, by omega, fun row _ below => absurd below (by omega), fun _ on => joined (goes.mpr on)⟩

variable {screen}

theorem updateLines_kept {mode : Mode} (placed : screen.Placed mode) :
    ∃ after, mode.updateLines screen.reads = .ok after ∧ screen.Kept after := by
  rw [Mode.updateLines.eq_def]
  split
  · next anchor old_first old_last selected =>
    have seated := placed.anchor _ selected
    obtain ⟨first, started, above, joined_above, starts⟩ := screen.lineStart_spec (min anchor.row mode.cursor.row)
      (Nat.lt_of_le_of_lt (Nat.min_le_right _ _) placed.row)
    have low : max anchor.row mode.cursor.row < screen.text.length := max_lt seated.row placed.row
    obtain ⟨last, ended, below, inside, joined_below, ends⟩ := screen.lineEnd_spec
      (mode.total - 1 - max anchor.row mode.cursor.row) (max anchor.row mode.cursor.row) (by rw [placed.shows.total]; omega)
    rw [started]
    dsimp only
    rw [ended]
    refine ⟨_, rfl, ⟨⟨⟨placed.shows.cols, placed.shows.rows, placed.shows.total⟩, placed.row, placed.offset, ?_, placed.found⟩,
      placed.seated, placed.shown⟩, ?_⟩
    · rintro selection ⟨⟩
      exact seated
    · rintro anchor' first' last' ⟨⟩
      exact ⟨above, joined_above, starts, below, inside, joined_below, ends⟩
  · next other =>
    exact ⟨mode, rfl, placed, fun anchor first last selected => absurd selected (other anchor first last)⟩

end Lines

section Moves

variable {screen} {mode : Mode}

theorem Shows.moved (shows : screen.Shows mode) (col : Nat) : screen.Shows (mode.moved col) := ⟨shows.cols, shows.rows, shows.total⟩

theorem Roams.moved (roams : screen.Roams mode) (col : Nat) : screen.Roams (mode.moved col) :=
  ⟨⟨roams.shows.cols, roams.shows.rows, roams.shows.total⟩, roams.row, roams.offset, roams.anchor, roams.found⟩

theorem Roams.toRow (roams : screen.Roams mode) {row : Nat} (inside : row < screen.text.length) : screen.Roams (mode.toRow row) :=
  ⟨⟨roams.shows.cols, roams.shows.rows, roams.shows.total⟩, inside, roams.offset, roams.anchor, roams.found⟩

-- What copy mode remembers of keys and searches moves nothing.
theorem Kept.remembering (kept : screen.Kept mode) (pending : Option Jump) (jump : Option (Jump × Char)) (search : SearchState) :
    screen.Kept { mode with pending := pending, jump := jump, search := search } :=
  ⟨⟨⟨⟨kept.shows.cols, kept.shows.rows, kept.shows.total⟩, kept.row, kept.offset, kept.anchor, kept.found⟩, kept.seated, kept.shown⟩,
    kept.lines⟩

theorem Roams.searching (roams : screen.Roams mode) (pending : Option Jump) (search : SearchState) :
    screen.Roams { mode with pending := pending, search := search } :=
  ⟨⟨roams.shows.cols, roams.shows.rows, roams.shows.total⟩, roams.row, roams.offset, roams.anchor, roams.found⟩

theorem Roams.selecting (roams : screen.Roams mode) {selection : Option Selection}
    (anchored : ∀ selected, selection = some selected → screen.Seated selected.anchor) :
    screen.Roams { mode with selection := selection } :=
  ⟨⟨roams.shows.cols, roams.shows.rows, roams.shows.total⟩, roams.row, roams.offset, anchored, roams.found⟩

-- A column of the row that copy mode may put its cursor at.
structure Fits (screen : Screen) (row : Row) (col : Nat) : Prop where
  inside : col < screen.cols
  aligned : Aligned row.cells col

theorem cell_fits {row : Row} (member : row ∈ screen.text) {cell : RowCell} (here : cell ∈ row.cells) : screen.Fits row cell.col := by
  have beside := row.cells_beside
  constructor
  · have room := screen.fits row member cell here
    have wide := beside.wide cell here
    omega
  · rintro other there ⟨before, within⟩
    obtain ⟨first, in_first, rfl⟩ := List.getElem_of_mem here
    obtain ⟨second, in_second, rfl⟩ := List.getElem_of_mem there
    have at_first := List.getElem?_eq_getElem in_first
    have at_second := List.getElem?_eq_getElem in_second
    have order := (beside.lt_iff at_second at_first).mpr before
    have := beside.lt at_second at_first order
    omega

theorem normalize_fits (shows : screen.Shows mode) {row : Row} (member : row ∈ screen.text) :
    ∃ col, mode.normalize row = mode.moved col ∧ screen.Fits row col := by
  have wide := screen.wide
  rw [Mode.normalize, shows.cols]
  generalize low : (if row.wraps = true ∧ row.width = screen.cols - 1 ∧ min mode.cursor.col (screen.cols - 1) = row.width then
    min mode.cursor.col (screen.cols - 1) - 1 else min mode.cursor.col (screen.cols - 1)) = col
  have inside : col < screen.cols := by
    split_ifs at low <;> omega
  split
  · next cell found => exact ⟨_, rfl, cell_fits member (List.mem_of_find?_eq_some found)⟩
  · next none_ =>
    refine ⟨col, rfl, inside, fun cell here within => ?_⟩
    have outside := List.find?_eq_none.mp none_ cell here
    exact outside (decide_eq_true ⟨Nat.le_of_lt within.1, within.2⟩)

theorem horizontal_fits (shows : screen.Shows mode) {row : Row} (member : row ∈ screen.text) (right : Bool) :
    ∃ col, mode.horizontal right row = mode.moved col ∧ screen.Fits row col := by
  rw [Mode.horizontal]
  exact normalize_fits (shows.moved _) member

theorem find_fits (shows : screen.Shows mode) {row : Row} (member : row ∈ screen.text) {jump : Jump} {needle : Char} {after : Mode}
    (found : mode.find jump needle row = some after) : ∃ col, after = mode.moved col ∧ screen.Fits row col := by
  obtain ⟨cell, here, rfl⟩ := Option.map_eq_some_iff.mp found
  have in_row : cell ∈ row.cells := by
    split_ifs at here
    · exact List.mem_of_find?_eq_some here
    · exact List.mem_reverse.mp (List.mem_of_find?_eq_some here)
  split_ifs
  · exact horizontal_fits (shows.moved cell.col) member _
  · exact ⟨cell.col, rfl, cell_fits member in_row⟩

theorem row_member {number : Nat} (inside : number < screen.text.length) :
    ∃ row, screen.reads.row number = .ok row ∧ screen.text[number]? = some row ∧ row ∈ screen.text :=
  ⟨_, screen.row_inside inside, List.getElem?_eq_getElem inside, List.getElem_mem inside⟩

section Words

variable (alphanumeric : Char → Bool) (motion : Mode.WordMotion) (big : Bool)

theorem wordRows_roams (left : Nat) (roams : screen.Roams mode)
    (room : if motion = .back then left ≤ mode.cursor.row else mode.cursor.row + left < screen.text.length) :
    ∃ after, mode.wordRows alphanumeric motion big screen.reads left = .ok after ∧ screen.Roams after := by
  induction left generalizing mode with
  | zero => exact ⟨mode, rfl, roams⟩
  | succ left ih =>
    have row := roams.row
    have below : (if motion = .back then mode.cursor.row - 1 else mode.cursor.row + 1) < screen.text.length := by
      split_ifs at room ⊢ <;> omega
    have rest : if motion = .back then left ≤ (if motion = .back then mode.cursor.row - 1 else mode.cursor.row + 1)
        else (if motion = .back then mode.cursor.row - 1 else mode.cursor.row + 1) + left < screen.text.length := by
      split_ifs at room ⊢ <;> omega
    obtain ⟨text, read, -⟩ := row_member below
    rw [Mode.wordRows, read]
    dsimp only
    split
    · exact ⟨_, rfl, (roams.toRow below).moved _⟩
    · exact ih ((roams.toRow below).moved 0) rest

theorem wordMotion_roams (roams : screen.Roams mode) :
    ∃ after, mode.wordMotion alphanumeric motion big screen.reads = .ok after ∧ screen.Roams after := by
  obtain ⟨row, read, -⟩ := row_member roams.row
  have inside := roams.row
  rw [Mode.wordMotion, read, roams.shows.total]
  dsimp only
  split
  · next after moved =>
    obtain ⟨target, -, moved⟩ := Option.bind_eq_some_iff.mp moved
    obtain ⟨cell, -, rfl⟩ := Option.map_eq_some_iff.mp moved
    exact ⟨_, rfl, roams.moved _⟩
  · exact wordRows_roams alphanumeric motion big _ roams (by split_ifs <;> omega)

end Words

-- Scrolling leaves the cursor among the rows that it shows.
theorem scroll_roams (roams : screen.Roams mode) (delta : Int) :
    screen.Roams (mode.scroll delta) ∧ (mode.scroll delta).offset ≤ (mode.scroll delta).cursor.row ∧
      (mode.scroll delta).cursor.row < (mode.scroll delta).offset + screen.rows := by
  have tall := screen.tall
  have filled := screen.filled_pos
  obtain ⟨⟨cols, rows, total⟩, row, offset, anchor, found⟩ := roams
  simp only [Mode.scroll, Mode.toRow, clamp, clampInt, Mode.lastShown, rows, total]
  refine ⟨⟨⟨cols, rfl, rfl⟩, ?_, ?_, anchor, found⟩, ?_, ?_⟩
  · dsimp only
    omega
  · dsimp only
    omega
  · omega
  · omega

theorem page_roams (roams : screen.Roams mode) (delta : Int) :
    screen.Roams (mode.page delta) ∧ (mode.page delta).offset ≤ (mode.page delta).cursor.row ∧
      (mode.page delta).cursor.row < (mode.page delta).offset + screen.rows := by
  have filled := screen.filled_pos
  refine scroll_roams (roams.toRow ?_) delta
  rw [clampInt, roams.shows.total]
  omega

theorem visible_placed (roams : screen.Roams mode) (seated : screen.Seated mode.cursor) : screen.Placed mode.visible := by
  have tall := screen.tall
  obtain ⟨⟨cols, rows, total⟩, row, offset, anchor, found⟩ := roams
  simp only [Mode.visible, rows, total]
  refine ⟨⟨⟨cols, rfl, rfl⟩, row, ?_, anchor, found⟩, seated, ?_⟩
  · dsimp only
    omega
  · dsimp only
    split_ifs <;> omega

theorem searchJump_placed (placed : screen.Placed mode) (forward : Bool) : screen.Placed (mode.searchJump forward) := by
  rw [Mode.searchJump]
  split
  · exact placed
  · next last remembered =>
    split_ifs
    · exact placed
    · exact ⟨placed.toRoams.searching mode.pending .noMatch, placed.seated, placed.shown⟩
    · split
      · next match_ here =>
        have start := placed.found last remembered match_ (List.mem_of_getElem? here)
        exact visible_placed ⟨⟨placed.shows.cols, placed.shows.rows, placed.shows.total⟩, start.row, placed.offset, placed.anchor,
          placed.found⟩ start
      · exact placed

end Moves

section Settle

variable {screen} {before after : Mode} (placed : screen.Placed before) (roams : screen.Roams after)

include placed roams

-- A cursor that moved is put at the start of its cell.
theorem normalizeAt_seated : ∃ col, Mode.normalizeAt before after screen.reads = .ok (after.moved col) ∧
    screen.Seated (after.moved col).cursor := by
  rw [Mode.normalizeAt]
  split_ifs with same
  · exact ⟨after.cursor.col, rfl, same ▸ placed.seated⟩
  · obtain ⟨row, read, found, member⟩ := row_member roams.row
    obtain ⟨col, normal, fits⟩ := normalize_fits roams.shows member
    refine ⟨col, by rw [read, ← normal]; rfl, roams.row, fits.inside, fun other there => ?_⟩
    exact Option.some.inj (found.symm.trans there) ▸ fits.aligned

end Settle

-- Where nothing changed, the lines that were selected are those still.
theorem update_kept {screen : Screen} {before after : Mode} (kept : screen.Kept before) (placed : screen.Placed after) :
    ∃ final, Mode.update before after screen.reads = .ok final ∧ screen.Kept final := by
  rw [Mode.update]
  split_ifs with changed
  · exact updateLines_kept placed
  · obtain ⟨cursor, selection, -⟩ : after.cursor = before.cursor ∧ after.selection = before.selection ∧ after.offset = before.offset := by
      simpa [Mode.changed] using changed
    refine ⟨after, rfl, placed, fun anchor first last selected => ?_⟩
    rw [cursor]
    exact kept.lines anchor first last (selection ▸ selected)

theorem settle_kept {screen : Screen} {before after : Mode} (kept : screen.Kept before) (roams : screen.Roams after) :
    ∃ final, Mode.settle before after screen.reads = .ok final ∧ screen.Kept final := by
  obtain ⟨col, normal, seated⟩ := normalizeAt_seated kept.toPlaced roams
  rw [Mode.settle, normal]
  exact update_kept kept (visible_placed (roams.moved col) seated)

section Act

variable {screen : Screen} {mode : Mode}

-- A key ends copy mode or moves its mode over the screen.
def Leads (screen : Screen) (result : Except String Mode.Acted) : Prop :=
  ∃ acted, result = .ok acted ∧ ∀ after, acted = .go after → screen.Roams after

theorem leads_go {after : Mode} (roams : screen.Roams after) : screen.Leads (.ok (.go after)) :=
  ⟨_, rfl, fun _ same => Mode.Acted.go.inj same ▸ roams⟩

theorem leads_done (outcome : Outcome) : screen.Leads (.ok (.done outcome)) := ⟨_, rfl, fun _ same => nomatch same⟩

theorem leads_ite {condition : Prop} [Decidable condition] {yes no : Except String Mode.Acted} (first : screen.Leads yes)
    (second : screen.Leads no) : screen.Leads (if condition then yes else no) := by
  split_ifs
  · exact first
  · exact second

theorem leads_reading (roams : screen.Roams mode) {after : Row → Mode} (leads : ∀ row ∈ screen.text, screen.Roams (after row)) :
    screen.Leads ((screen.reads.row mode.cursor.row).map fun row => .go (after row)) := by
  obtain ⟨row, read, -, member⟩ := row_member roams.row
  rw [read]
  exact leads_go (leads row member)

theorem jumpAgain_roams (roams : screen.Roams mode) (jump : Jump) (needle : Char) {row : Row} (member : row ∈ screen.text) :
    screen.Roams (mode.jumpAgain jump needle row) := by
  obtain ⟨col, near⟩ : ∃ col, (if jump.isTill = true then mode.horizontal (decide (jump = .before)) row else mode) = mode.moved col := by
    split_ifs
    · obtain ⟨col, moved, -⟩ := horizontal_fits roams.shows member (decide (jump = .before))
      exact ⟨col, moved⟩
    · exact ⟨mode.cursor.col, rfl⟩
  rw [Mode.jumpAgain, near]
  cases found : (mode.moved col).find jump needle row with
  | none => exact roams
  | some after =>
    obtain ⟨other, rfl, -⟩ := find_fits (roams.shows.moved col) member found
    exact (roams.moved col).moved other

theorem act_leads (placed : screen.Placed mode) (alphanumeric : Char → Bool) (event : KeyEvent) :
    screen.Leads (mode.act alphanumeric event screen.reads) := by
  have roams := placed.toRoams
  have shows := roams.shows
  have row := roams.row
  have filled := screen.filled_pos
  have unselected : ∀ selected : Selection, none = some selected → screen.Seated selected.anchor := fun _ same => nomatch same
  have at_cursor : ∀ selection : Selection, selection.anchor = mode.cursor →
      ∀ selected, some selection = some selected → screen.Seated selected.anchor := by
    rintro selection same _ ⟨⟩
    exact same ▸ placed.seated
  rw [Mode.act]
  dsimp only
  apply leads_ite (leads_go (roams.selecting unselected))
  apply leads_ite (leads_done .leave)
  apply leads_ite (leads_done .copy)
  apply leads_ite
  · -- the kind of the selection changes, its anchor stays
    refine leads_go (roams.selecting ?_)
    split
    · next anchor selected =>
      have seated : screen.Seated anchor := roams.anchor _ selected
      rintro _ ⟨⟩
      exact seated
    · next selection _ selected =>
      have seated := roams.anchor _ selected
      rintro _ ⟨⟩
      exact seated
    · exact at_cursor _ rfl
  apply leads_ite (leads_go (roams.searching none _))
  apply leads_ite
  · split
    · exact leads_go (searchJump_placed placed _).toRoams
    · exact leads_go roams
  apply leads_ite (leads_go (roams.selecting (at_cursor _ rfl)))
  apply leads_ite (leads_go (roams.selecting (at_cursor _ rfl)))
  apply leads_ite
  · split
    · next selection selected =>
      have anchor := roams.anchor _ selected
      refine leads_go ⟨⟨shows.cols, shows.rows, shows.total⟩, anchor.row, roams.offset, ?_, roams.found⟩
      rintro _ ⟨⟩
      cases selection <;> exact placed.seated
    · exact leads_go roams
  have sideways : ∀ right, ∀ row ∈ screen.text, screen.Roams (mode.horizontal right row) := by
    intro right row member
    obtain ⟨col, moved, -⟩ := horizontal_fits shows member right
    exact moved ▸ roams.moved col
  apply leads_ite (leads_reading roams (sideways false))
  apply leads_ite (leads_reading roams (sideways true))
  apply leads_ite (leads_go (roams.toRow (by omega)))
  apply leads_ite (leads_go (roams.toRow (by rw [shows.total]; omega)))
  split
  · next motion big _ =>
    obtain ⟨after, done, roamed⟩ := wordMotion_roams alphanumeric motion big roams
    rw [done]
    exact leads_go roamed
  apply leads_ite (leads_go (roams.moved 0))
  apply leads_ite (leads_reading roams fun row _ => roams.moved _)
  apply leads_ite (leads_reading roams fun row _ => roams.moved _)
  have offset := roams.offset
  have tall := screen.tall
  apply leads_ite (leads_go (roams.toRow (by omega)))
  apply leads_ite (leads_go (roams.toRow (by rw [shows.total]; omega)))
  apply leads_ite (leads_go (roams.toRow (by rw [Mode.lastShown, shows.total]; omega)))
  apply leads_ite (leads_go (roams.toRow filled))
  apply leads_ite (leads_go (roams.toRow (by rw [shows.total]; omega)))
  apply leads_ite (leads_go (page_roams roams _).1)
  apply leads_ite (leads_go (page_roams roams _).1)
  apply leads_ite (leads_go (page_roams roams _).1)
  apply leads_ite (leads_go (page_roams roams _).1)
  apply leads_ite (leads_go (scroll_roams roams _).1)
  apply leads_ite (leads_go (scroll_roams roams _).1)
  apply leads_ite (leads_go (roams.searching _ mode.search))
  apply leads_ite (leads_go (roams.searching _ mode.search))
  apply leads_ite (leads_go (roams.searching _ mode.search))
  apply leads_ite (leads_go (roams.searching _ mode.search))
  apply leads_ite
  · split
    · exact leads_go roams
    · next jump needle _ => exact leads_reading roams fun row member => jumpAgain_roams roams _ needle member
  · exact leads_go roams

end Act

section Events

variable {screen : Screen} {mode : Mode} (kept : screen.Kept mode) (alphanumeric : Char → Bool)

include kept

theorem heard_kept : screen.Kept mode.heard := by
  rw [Mode.heard]
  split_ifs
  · exact kept.remembering mode.pending mode.jump .normal
  · exact kept

theorem prompted_kept (direction : Direction) (text : List Char) (event : KeyEvent) : screen.Kept (mode.prompted direction text event) := by
  unfold Mode.prompted
  split
  · exact kept.remembering _ _ _
  · exact kept.remembering _ _ _
  · split
    · exact kept.remembering _ _ _
    · exact kept.remembering _ _ _
  · split
    · exact kept.remembering _ _ _
    · exact kept

-- A column alone changes no row of the selection.
theorem moved_kept {row : Row} (found : screen.text[mode.cursor.row]? = some row) {col : Nat} (fits : screen.Fits row col) :
    screen.Kept (mode.moved col) := by
  refine ⟨⟨kept.toRoams.moved col, ⟨kept.row, fits.inside, fun other there => ?_⟩, kept.shown⟩, kept.lines⟩
  exact Option.some.inj (found.symm.trans there) ▸ fits.aligned

theorem feed_kept (event : KeyEvent) :
    ∃ outcome after, mode.feed alphanumeric event screen.reads = .ok (outcome, after) ∧ screen.Kept after := by
  have heard := heard_kept kept
  rw [Mode.feed]
  dsimp only
  generalize mode.heard = mode at heard
  clear kept
  split
  · exact ⟨_, _, rfl, prompted_kept heard _ _ event⟩
  · split_ifs
    · exact ⟨_, _, rfl, heard.remembering none mode.jump .normal⟩
    · split
      · exact ⟨_, _, rfl, heard.remembering none mode.jump mode.search⟩
      · next jump needle pending key =>
        have waiting := heard.remembering none mode.jump mode.search
        obtain ⟨row, read, found, member⟩ := row_member heard.row
        rw [read]
        refine ⟨_, _, rfl, ?_⟩
        cases here : Mode.find { mode with pending := none } jump needle row with
        | none => exact waiting.remembering none _ mode.search
        | some after =>
          obtain ⟨col, rfl, fits⟩ := find_fits waiting.shows member here
          exact (moved_kept waiting found fits).remembering none _ mode.search
      · obtain ⟨acted, done, roams⟩ := act_leads heard.toPlaced alphanumeric event
        rw [done]
        cases acted with
        | done outcome => exact ⟨_, _, rfl, heard⟩
        | go after =>
          obtain ⟨final, settled, sound⟩ := settle_kept heard (roams after rfl)
          dsimp only
          rw [settled]
          exact ⟨_, _, rfl, sound⟩

omit kept in
theorem selecting_placed (placed : screen.Placed mode) {selection : Option Selection}
    (anchored : ∀ selected, selection = some selected → screen.Seated selected.anchor) :
    screen.Placed { mode with selection := selection } :=
  ⟨placed.toRoams.selecting anchored, placed.seated, placed.shown⟩

omit kept in
-- A press selects from a cell of the row at the pointer.
theorem pressed_placed (placed : screen.Placed mode) {old : Cell} (seated : screen.Seated old) (kind : Mode.MouseKind) (clicks : Nat)
    {row : Row} (found : screen.text[mode.cursor.row]? = some row) (member : row ∈ screen.text) :
    screen.Placed (mode.pressed alphanumeric old kind clicks row) := by
  have one : ∀ {selection : Selection}, screen.Seated selection.anchor →
      ∀ selected, some selection = some selected → screen.Seated selected.anchor := by
    rintro selection seated _ ⟨⟩
    exact seated
  have at_cell : ∀ cell ∈ row.cells, screen.Seated ⟨cell.col, mode.cursor.row⟩ := by
    intro cell here
    have fits := cell_fits member here
    refine ⟨placed.row, fits.inside, fun other there => ?_⟩
    exact Option.some.inj (found.symm.trans there) ▸ fits.aligned
  unfold Mode.pressed
  split
  · split_ifs
    · exact selecting_placed placed (one placed.seated)
    · dsimp only
      split
      · exact selecting_placed placed (one placed.seated)
      · split
        · next first last at_first at_last =>
          have seated_last := at_cell last (List.mem_of_getElem? at_last)
          refine ⟨?_, seated_last, placed.shown⟩
          exact (placed.toRoams.moved last.col).selecting (one (at_cell first (List.mem_of_getElem? at_first)))
        · exact placed
    · exact selecting_placed placed fun _ same => nomatch same
  · split_ifs
    · exact selecting_placed placed (one seated)
    · exact placed
  · exact placed

theorem mouse_kept (kind : Mode.MouseKind) (position : Cell) (clicks : Nat) :
    ∃ after, mode.mouse alphanumeric kind position clicks screen.reads = .ok after ∧ screen.Kept after := by
  have tall := screen.tall
  have wide := screen.wide
  have filled := screen.filled_pos
  have offset := kept.offset
  unfold Mode.mouse
  split
  · exact ⟨mode, rfl, kept⟩
  · exact ⟨mode, rfl, kept⟩
  · next up =>
    obtain ⟨roams, low, high⟩ := scroll_roams kept.toRoams (if up = true then -3 else 3)
    obtain ⟨col, normal, seated⟩ := normalizeAt_seated kept.toPlaced roams
    rw [normal]
    exact update_kept kept ⟨roams.moved col, seated, low, high⟩
  · -- the pointer's cell is among the rows that are shown
    have row : min (mode.offset + min position.row (mode.rows - 1)) (mode.total - 1) < screen.text.length := by
      rw [kept.shows.total]
      omega
    obtain ⟨text, read, found, member⟩ := row_member row
    let pointed : Mode := { mode with cursor := ⟨min position.col (mode.cols - 1),
      min (mode.offset + min position.row (mode.rows - 1)) (mode.total - 1)⟩ }
    have shows : screen.Shows pointed := ⟨kept.shows.cols, kept.shows.rows, kept.shows.total⟩
    obtain ⟨col, normal, fits⟩ := normalize_fits shows member
    have seated : screen.Seated (pointed.moved col).cursor :=
      ⟨row, fits.inside, fun other there => Option.some.inj (found.symm.trans there) ▸ fits.aligned⟩
    have shown : mode.offset ≤ (pointed.moved col).cursor.row ∧ (pointed.moved col).cursor.row < mode.offset + screen.rows := by
      simp only [pointed, Mode.moved, kept.shows.rows, kept.shows.total]
      omega
    have placed : screen.Placed (pointed.moved col) := ⟨⟨shows.moved col, row, kept.offset, kept.anchor, kept.found⟩, seated, shown⟩
    dsimp only
    rw [read]
    dsimp only
    rw [normal]
    exact update_kept kept (pressed_placed alphanumeric placed kept.seated _ clicks found member)

theorem paste_kept (text : List Char) : screen.Kept (mode.paste text) := by
  have heard := heard_kept kept
  unfold Mode.paste
  dsimp only
  split
  · exact heard.remembering _ _ _
  · exact heard

theorem searchDone_kept {found : List Match} (inside : ∀ match_ ∈ found, screen.Seated match_.start) :
    ∃ after, mode.searchDone found screen.reads = .ok after ∧ screen.Kept after := by
  unfold Mode.searchDone
  split
  · next direction text _ =>
    have starts : ∀ last, some (Found.mk direction text found) = some last → ∀ match_ ∈ last.found, screen.Seated match_.start := by
      rintro last ⟨⟩
      exact inside
    have remembered : screen.Placed { mode with search := .normal, last := some ⟨direction, text, found⟩ } :=
      ⟨⟨⟨kept.shows.cols, kept.shows.rows, kept.shows.total⟩, kept.row, kept.offset, kept.anchor, starts⟩, kept.seated, kept.shown⟩
    exact updateLines_kept (searchJump_placed remembered _)
  · exact ⟨_, rfl, kept.remembering mode.pending mode.jump .normal⟩

end Events

-- How copy mode is opened: at any place of the terminal's cursor, over rows that end within the screen.
structure Opening (screen : Screen) where
  x : Nat
  y : Nat
  offset : Nat
  entry : Entry
  high : offset ≤ screen.text.length - screen.rows

-- What copy mode is told; the matches of a search start on cells of the screen.
inductive Event (screen : Screen) where
  | key (event : KeyEvent)
  | mouse (kind : Mode.MouseKind) (position : Cell) (clicks : Nat)
  | paste (text : List Char)
  | searchDone (found : List Match) (inside : ∀ match_ ∈ found, screen.Seated match_.start)
  | searchFailed

section Run

variable (screen : Screen) (alphanumeric : Char → Bool)

def opened (opening : screen.Opening) : Except String Mode :=
  Mode.open opening.x opening.y screen.text.length opening.offset screen.cols screen.rows opening.entry screen.reads

def told (mode : Mode) : screen.Event → Except String Mode
  | .key event => (mode.feed alphanumeric event screen.reads).map Prod.snd
  | .mouse kind position clicks => mode.mouse alphanumeric kind position clicks screen.reads
  | .paste text => .ok (mode.paste text)
  | .searchDone found _ => mode.searchDone found screen.reads
  | .searchFailed => .ok mode.searchFailed

def step (mode : Except String Mode) (event : screen.Event) : Except String Mode := mode.bind (screen.told alphanumeric · event)

theorem opened_kept (opening : screen.Opening) : ∃ mode, screen.opened opening = .ok mode ∧ screen.Kept mode := by
  have tall := screen.tall
  have filled := screen.filled_pos
  have high := opening.high
  let first : Mode := ⟨screen.cols, screen.rows, screen.text.length, opening.offset, ⟨opening.x, 0⟩, none, none, none, .normal, none⟩
  let placed := first.toRow (clamp opening.offset first.lastShown (screen.text.length - screen.rows + opening.y))
  have roams : screen.Roams placed := by
    refine ⟨⟨rfl, rfl, rfl⟩, ?_, high, fun _ same => (nomatch same), fun _ same => (nomatch same)⟩
    simp only [placed, first, Mode.toRow, Mode.lastShown, clamp]
    omega
  have shown : placed.offset ≤ placed.cursor.row ∧ placed.cursor.row < placed.offset + screen.rows := by
    simp only [placed, first, Mode.toRow, Mode.lastShown, clamp]
    omega
  obtain ⟨entered, same, roams, shown, empty⟩ : ∃ entered,
      (if opening.entry = .pageUp then placed.page (-(screen.rows : Int)) else placed) = entered ∧ screen.Roams entered ∧
        (entered.offset ≤ entered.cursor.row ∧ entered.cursor.row < entered.offset + screen.rows) ∧ entered.selection = none := by
    split_ifs
    · obtain ⟨paged, low, above⟩ := page_roams roams (-(screen.rows : Int))
      exact ⟨_, rfl, paged, ⟨low, above⟩, rfl⟩
    · exact ⟨_, rfl, roams, shown, rfl⟩
  obtain ⟨row, read, found, member⟩ := row_member roams.row
  obtain ⟨col, normal, fits⟩ := normalize_fits roams.shows member
  refine ⟨entered.moved col, ?_, ⟨⟨roams.moved col, ⟨roams.row, fits.inside, fun other there => ?_⟩, shown⟩, fun _ _ _ selected => ?_⟩⟩
  · show (screen.reads.row (if opening.entry = .pageUp then placed.page (-(screen.rows : Int)) else placed).cursor.row).map
      (Mode.normalize (if opening.entry = .pageUp then placed.page (-(screen.rows : Int)) else placed)) = _
    rw [same, read, ← normal]
    rfl
  · exact Option.some.inj (found.symm.trans there) ▸ fits.aligned
  · exact absurd (empty.symm.trans selected) (by simp)

theorem told_kept {mode : Mode} (kept : screen.Kept mode) (event : screen.Event) :
    ∃ after, screen.told alphanumeric mode event = .ok after ∧ screen.Kept after := by
  cases event with
  | key event =>
    obtain ⟨outcome, after, fed, sound⟩ := feed_kept kept alphanumeric event
    exact ⟨after, by rw [told, fed]; rfl, sound⟩
  | mouse kind position clicks => exact mouse_kept kept alphanumeric kind position clicks
  | paste text => exact ⟨_, rfl, paste_kept kept text⟩
  | searchDone found inside => exact searchDone_kept kept inside
  | searchFailed => exact ⟨_, rfl, kept.remembering mode.pending mode.jump .normal⟩

-- Whatever copy mode is told from an opening, it reads no row outside the screen and keeps its invariant.
theorem copy_kept (opening : screen.Opening) (events : List screen.Event) :
    ∃ mode, run (screen.step alphanumeric) (screen.opened opening) events = .ok mode ∧ screen.Kept mode := by
  refine run_invariant (P := fun state : Except String Mode => ∃ mode, state = .ok mode ∧ screen.Kept mode) (screen.opened_kept opening) ?_ events
  rintro state event ⟨mode, rfl, kept⟩
  exact screen.told_kept alphanumeric kept event

end Run

section Page

def clusters (text : String) : List Cluster := text.toList.map fun char => ⟨[char], if char = '界' then 2 else 1⟩

-- A line of two rows that ends in a wide character, and an indented one.
def page : Screen where
  cols := 6
  rows := 3
  text := [⟨clusters "one 界", true⟩, ⟨clusters "two", false⟩, ⟨[], false⟩, ⟨clusters "  end", false⟩]
  wide := by decide
  tall := by decide
  filled := by decide
  fits := by decide

def pageOpening : page.Opening := ⟨5, 1, 1, .pageUp, by decide⟩

theorem page_seated : page.Seated ⟨0, 1⟩ where
  row := by decide
  col := by decide
  aligned := by
    rintro row ⟨⟩
    show ∀ cell ∈ cellsFrom 0 (clusters "two"), ¬ (cell.col < 0 ∧ 0 < cell.col + cell.width)
    decide

def pressed (char : Char) : page.Event := .key ⟨.char char, Kido.Tui.Mods.none, .press, String.singleton char⟩

-- Lines are selected, the pointer marks some text, and a search jumps to what it found.
def pageEvents : List page.Event :=
  [pressed 'V', pressed 'j', .mouse .down ⟨5, 0⟩ 1, .mouse .drag ⟨2, 1⟩ 1, pressed 'b', .mouse (.scroll true) ⟨0, 0⟩ 1, pressed '/',
    .paste ['t'], .key ⟨.enter, Kido.Tui.Mods.none, .press, ""⟩,
    .searchDone [⟨⟨0, 1⟩, ⟨1, 1⟩⟩] (by rw [List.forall_mem_singleton]; exact page_seated), pressed 'n', .searchFailed]

theorem page_kept :
    ∃ mode, run (page.step Char.isAlphanum) (page.opened pageOpening) pageEvents = .ok mode ∧ page.Kept mode :=
  page.copy_kept Char.isAlphanum pageOpening pageEvents

end Page

end Screen

end Kido.Copy
