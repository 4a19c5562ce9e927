import Kido.Copy.Row
import Kido.Tui.Keys

set_option autoImplicit false

namespace Kido.Copy

open Kido.Tui (Entry KeyEvent Name)
open Kido.Shared (isControl isWhitespace)

structure Cell where
  col : Nat
  row : Nat
deriving DecidableEq

structure Match where
  start : Cell
  end_ : Cell
deriving DecidableEq

inductive Selection where
  | character (anchor : Cell)
  | line (anchor : Cell) (first last : Nat)
  | rectangle (anchor : Cell)
deriving DecidableEq

def Selection.anchor : Selection → Cell
  | .character anchor => anchor
  | .line anchor _ _ => anchor
  | .rectangle anchor => anchor

def Selection.withAnchor (anchor : Cell) : Selection → Selection
  | .character _ => .character anchor
  | .line _ first last => .line anchor first last
  | .rectangle _ => .rectangle anchor

inductive Jump where
  | forward
  | backward
  | before
  | after
deriving DecidableEq

namespace Jump

def isForward (jump : Jump) : Bool := decide (jump = .forward ∨ jump = .before)

def isTill (jump : Jump) : Bool := decide (jump = .before ∨ jump = .after)

def reversed : Jump → Jump
  | .forward => .backward
  | .backward => .forward
  | .before => .after
  | .after => .before

end Jump

inductive Outcome where
  | stay
  | leave
  | copy
deriving DecidableEq

inductive Direction where
  | forward
  | backward
deriving DecidableEq

inductive SearchState where
  | normal
  | prompt (direction : Direction) (text : List Char)
  | searching (direction : Direction) (text : List Char)
  | noMatch
deriving DecidableEq

structure Found where
  direction : Direction
  text : List Char
  found : List Match
deriving DecidableEq

structure Mode where
  cols : Nat
  rows : Nat
  total : Nat
  offset : Nat
  cursor : Cell
  selection : Option Selection
  pending : Option Jump
  jump : Option (Jump × Char)
  search : SearchState
  last : Option Found
deriving DecidableEq

-- What `clamp` gives for bounds in order.
def clamp (low high value : Nat) : Nat := max low (min value high)

def clampInt (high : Nat) (value : Int) : Nat := min value.toNat high

-- How copy mode reads the screen: a row, and whether a row goes on in the next.
structure Reads where
  row : Nat → Except String Row
  wraps : Nat → Except String Bool

namespace Mode

def history (mode : Mode) : Nat := mode.total - mode.rows

def moved (mode : Mode) (col : Nat) : Mode := { mode with cursor := { mode.cursor with col := col } }

def toRow (mode : Mode) (row : Nat) : Mode := { mode with cursor := { mode.cursor with row := row } }

-- The last row that is shown.
def lastShown (mode : Mode) : Nat := min (mode.offset + (mode.rows - 1)) (mode.total - 1)

def visible (mode : Mode) : Mode :=
  let offset := if mode.cursor.row < mode.offset then mode.cursor.row else mode.offset
  let offset := if offset + mode.rows ≤ mode.cursor.row then mode.cursor.row - (mode.rows - 1) else offset
  { mode with offset := min offset (mode.total - mode.rows) }

def scroll (mode : Mode) (delta : Int) : Mode :=
  let mode := { mode with offset := clampInt (mode.total - mode.rows) (mode.offset + delta) }
  mode.toRow (clamp mode.offset mode.lastShown mode.cursor.row)

def page (mode : Mode) (delta : Int) : Mode := (mode.toRow (clampInt (mode.total - 1) (mode.cursor.row + delta))).scroll delta

def normalize (mode : Mode) (row : Row) : Mode :=
  let col := min mode.cursor.col (mode.cols - 1)
  let col := if row.wraps = true ∧ row.width = mode.cols - 1 ∧ col = row.width then col - 1 else col
  match row.cells.find? fun cell => decide (cell.col ≤ col ∧ col < cell.col + cell.width) with
  | some cell => mode.moved cell.col
  | none => mode.moved col

def horizontal (mode : Mode) (right : Bool) (row : Row) : Mode :=
  let width := ((row.cells.find? fun cell => decide (cell.col = mode.cursor.col)).map RowCell.width).getD 1
  (mode.moved (if right = true then min (mode.cursor.col + width) (mode.cols - 1) else mode.cursor.col - 1)).normalize row

-- The mode once the cursor is found in its row, or none where it stays.
def find (mode : Mode) (jump : Jump) (needle : Char) (row : Row) : Option Mode :=
  let found :=
    if jump.isForward = true then row.cells.find? fun cell => decide (mode.cursor.col < cell.col ∧ cell.char = needle)
    else row.cells.reverse.find? fun cell => decide (cell.col < mode.cursor.col ∧ cell.char = needle)
  found.map fun cell =>
    if jump.isTill = true then (mode.moved cell.col).horizontal (!jump.isForward) row else mode.moved cell.col

section Words

variable (alphanumeric : Char → Bool)

inductive WordMotion where
  | next
  | back
  | «end»
deriving DecidableEq

def wordMotionOf (key : Char) : Option (WordMotion × Bool) :=
  match key with
  | 'w' => some (.next, false)
  | 'b' => some (.back, false)
  | 'e' => some (.end, false)
  | 'W' => some (.next, true)
  | 'B' => some (.back, true)
  | 'E' => some (.end, true)
  | _ => none

-- The cell to which the motion goes in the cursor's row, if the row has it.
def wordTarget (cells : List RowCell) (motion : WordMotion) (big : Bool) (col : Nat) : Option Nat :=
  let at_ := cells.findIdx fun cell => decide (col ≤ cell.col)
  match motion with
  | .back =>
    if at_ = 0 then none else some (runStart alphanumeric cells (backBlanks alphanumeric cells big (at_ - 1)) big)
  | .end => some (runEnd alphanumeric cells (pastBlanks alphanumeric cells big (min (at_ + 1) cells.length)) big)
  | .next => some (pastBlanks alphanumeric cells big (runEnd alphanumeric cells at_ big + 1))

def word (mode : Mode) (motion : WordMotion) (big : Bool) (row : Row) : Option Mode :=
  (wordTarget alphanumeric row.cells motion big mode.cursor.col).bind fun target => row.cells[target]?.map fun cell => mode.moved cell.col

-- The cell at which another row is entered: its first or last that is no blank, then an end of its run.
def entered (cells : List RowCell) (motion : WordMotion) (big : Bool) : Option Nat :=
  match motion with
  | .back =>
    (cells.reverse.findIdx? fun cell => !isWhitespace cell.char).map fun back =>
      runStart alphanumeric cells (cells.length - 1 - back) big
  | .end => (cells.findIdx? fun cell => !isWhitespace cell.char).map fun at_ => runEnd alphanumeric cells at_ big
  | .next => cells.findIdx? fun cell => !isWhitespace cell.char

-- Over the rows that are left in the motion's direction.
def wordRows (mode : Mode) (motion : WordMotion) (big : Bool) (reads : Reads) : Nat → Except String Mode
  | 0 => .ok mode
  | left + 1 =>
    let next := if motion = .back then mode.cursor.row - 1 else mode.cursor.row + 1
    match reads.row next with
    | .error error => .error error
    | .ok row =>
      match entered alphanumeric row.cells motion big with
      | some at_ => .ok ((mode.toRow next).moved ((row.cells[at_]?.map RowCell.col).getD 0))
      | none => wordRows ((mode.toRow next).moved 0) motion big reads left

def wordMotion (mode : Mode) (motion : WordMotion) (big : Bool) (reads : Reads) : Except String Mode :=
  match reads.row mode.cursor.row with
  | .error error => .error error
  | .ok row =>
    match mode.word alphanumeric motion big row with
    | some mode => .ok mode
    | none =>
      mode.wordRows alphanumeric motion big reads (if motion = .back then mode.cursor.row else mode.total - 1 - mode.cursor.row)

end Words

def isSearching (mode : Mode) : Bool :=
  match mode.search with
  | .searching _ _ => true
  | _ => false

-- The place of the match that is next on the way from the cursor, the list being taken round.
def nextMatch (found : List Match) (cursor : Cell) (forward : Bool) : Nat :=
  if forward = true then
    let at_ := found.findIdx fun match_ =>
      !decide (match_.start.row < cursor.row ∨ match_.start.row = cursor.row ∧ match_.start.col ≤ cursor.col)
    if at_ = found.length then 0 else at_
  else
    let at_ := found.findIdx fun match_ =>
      !decide (match_.start.row < cursor.row ∨ match_.start.row = cursor.row ∧ match_.start.col < cursor.col)
    if at_ = 0 then found.length - 1 else at_ - 1

def searchJump (mode : Mode) (forward : Bool) : Mode :=
  match mode.last with
  | none => mode
  | some last =>
    if last.found = [] then if mode.isSearching = true then mode else { mode with search := .noMatch }
    else
      match last.found[nextMatch last.found mode.cursor forward]? with
      | some match_ => visible { mode with cursor := match_.start }
      | none => mode

def lineStart (reads : Reads) : Nat → Except String Nat
  | 0 => .ok 0
  | first + 1 =>
    match reads.wraps first with
    | .error error => .error error
    | .ok wraps => if wraps = true then lineStart reads first else .ok (first + 1)

-- Over the rows that are left behind the line's last.
def lineEnd (reads : Reads) (last : Nat) : Nat → Except String Nat
  | 0 => .ok last
  | left + 1 =>
    match reads.wraps last with
    | .error error => .error error
    | .ok wraps => if wraps = true then lineEnd reads (last + 1) left else .ok last

def updateLines (mode : Mode) (reads : Reads) : Except String Mode :=
  match mode.selection with
  | some (.line anchor _ _) =>
    match lineStart reads (min anchor.row mode.cursor.row) with
    | .error error => .error error
    | .ok first =>
      let last := max anchor.row mode.cursor.row
      match lineEnd reads last (mode.total - 1 - last) with
      | .error error => .error error
      | .ok last => .ok { mode with selection := some (.line anchor first last) }
  | _ => .ok mode

def changed (before after : Mode) : Bool :=
  decide (after.cursor ≠ before.cursor ∨ after.selection ≠ before.selection ∨ after.offset ≠ before.offset)

-- The lines of a selection are found again where something changed.
def update (before after : Mode) (reads : Reads) : Except String Mode :=
  if changed before after = true then after.updateLines reads else .ok after

def normalizeAt (before after : Mode) (reads : Reads) : Except String Mode :=
  if after.cursor = before.cursor then .ok after else (reads.row after.cursor.row).map after.normalize

def settle (before after : Mode) (reads : Reads) : Except String Mode :=
  match normalizeAt before after reads with
  | .error error => .error error
  | .ok after => update before after.visible reads

def «open» (x y total offset cols rows : Nat) (entry : Entry) (reads : Reads) : Except String Mode :=
  let mode : Mode := ⟨cols, rows, total, offset, ⟨x, 0⟩, none, none, none, .normal, none⟩
  let mode := mode.toRow (clamp offset mode.lastShown (total - rows + y))
  let mode := if entry = .pageUp then mode.page (-(rows : Int)) else mode
  (reads.row mode.cursor.row).map mode.normalize

def range (mode : Mode) : Option (Cell × Cell × Bool) :=
  mode.selection.map fun selection =>
    let ordered :=
      if selection.anchor.row < mode.cursor.row ∨ selection.anchor.row = mode.cursor.row ∧ selection.anchor.col ≤ mode.cursor.col then
        (selection.anchor, mode.cursor)
      else (mode.cursor, selection.anchor)
    match selection with
    | .character _ => (ordered.1, ordered.2, false)
    | .rectangle _ => (ordered.1, ordered.2, true)
    | .line _ first last => (⟨0, first⟩, ⟨mode.cols - 1, last⟩, false)

def prompted (mode : Mode) (direction : Direction) (text : List Char) (event : KeyEvent) : Mode :=
  match event.name with
  | .escape => { mode with search := .normal }
  | .backspace => { mode with search := if text = [] then .normal else .prompt direction text.dropLast }
  | .enter =>
    match if text = [] then mode.last.map Found.text else some text with
    | some text => { mode with search := .searching direction text }
    | none => { mode with search := .normal }
  | _ =>
    match event.character with
    | some typed => { mode with search := .prompt direction (if isControl typed = true then text else text ++ [typed]) }
    | none => mode

inductive Acted where
  | done (outcome : Outcome)
  | go (mode : Mode)

-- The half of a page that a key scrolls by.
def halfPage (mode : Mode) : Int := (max (mode.rows / 2) 1 : Nat)

def jumpAgain (mode : Mode) (jump : Jump) (needle : Char) (row : Row) : Mode :=
  let near := if jump.isTill = true then mode.horizontal (decide (jump = .before)) row else mode
  (near.find jump needle row).getD { near with cursor := mode.cursor }

section Feed

variable (alphanumeric : Char → Bool)

-- What a key does; a key that reads the cursor's row fails with it.
def act (mode : Mode) (event : KeyEvent) (reads : Reads) : Except String Acted :=
  let key := event.character
  let ctrl := event.ctrl
  let go (mode : Mode) : Except String Acted := .ok (.go mode)
  let reading (after : Row → Mode) : Except String Acted := (reads.row mode.cursor.row).map fun row => .go (after row)
  if event.name = .escape ∧ mode.selection.isSome = true then go { mode with selection := none }
  else if event.name = .escape ∨ key = some 'q' then .ok (.done .leave)
  else if event.name = .enter ∨ key = some 'y' then .ok (.done .copy)
  else if ctrl = some 'v' then
    go { mode with
      selection :=
        match mode.selection with
        | some (.rectangle anchor) => some (.character anchor)
        | some selection => some (.rectangle selection.anchor)
        | none => some (.rectangle mode.cursor) }
  else if key = some '/' ∨ key = some '?' then
    go { mode with pending := none, search := .prompt (if key = some '/' then .forward else .backward) [] }
  else if key = some 'n' ∨ key = some 'N' then
    match mode.last with
    | some last => go (mode.searchJump (decide (last.direction = .forward) != decide (key = some 'N')))
    | none => go mode
  else if key = some ' ' ∨ key = some 'v' then go { mode with selection := some (.character mode.cursor) }
  else if key = some 'V' then go { mode with selection := some (.line mode.cursor mode.cursor.row mode.cursor.row) }
  else if key = some 'o' then
    match mode.selection with
    | some selection => go { mode with selection := some (selection.withAnchor mode.cursor), cursor := selection.anchor }
    | none => go mode
  else if event.name = .left ∨ key = some 'h' then reading (mode.horizontal false)
  else if event.name = .right ∨ key = some 'l' then reading (mode.horizontal true)
  else if event.name = .up ∨ key = some 'k' then go (mode.toRow (mode.cursor.row - 1))
  else if event.name = .down ∨ key = some 'j' then go (mode.toRow (min (mode.cursor.row + 1) (mode.total - 1)))
  else
    match key.bind wordMotionOf with
    | some (motion, big) => (mode.wordMotion alphanumeric motion big reads).map .go
    | none =>
      if key = some '0' then go (mode.moved 0)
      else if key = some '^' then
        reading fun row => mode.moved (((row.cells.find? fun cell => !isWhitespace cell.char).map RowCell.col).getD 0)
      else if key = some '$' then reading fun row => mode.moved ((row.cells.getLast?.map RowCell.col).getD 0)
      else if key = some 'H' then go (mode.toRow mode.offset)
      else if key = some 'M' then go (mode.toRow (min (mode.offset + mode.rows / 2) (mode.total - 1)))
      else if key = some 'L' then go (mode.toRow mode.lastShown)
      else if key = some 'g' then go (mode.toRow 0)
      else if key = some 'G' then go (mode.toRow (mode.total - 1))
      else if ctrl = some 'b' ∨ event.name = .pageUp then go (mode.page (-(mode.rows : Int)))
      else if ctrl = some 'f' ∨ event.name = .pageDown then go (mode.page mode.rows)
      else if ctrl = some 'u' then go (mode.page (-mode.halfPage))
      else if ctrl = some 'd' then go (mode.page mode.halfPage)
      else if ctrl = some 'y' then go (mode.scroll (-1))
      else if ctrl = some 'e' then go (mode.scroll 1)
      else if key = some 'f' then go { mode with pending := some .forward }
      else if key = some 'F' then go { mode with pending := some .backward }
      else if key = some 't' then go { mode with pending := some .before }
      else if key = some 'T' then go { mode with pending := some .after }
      else if key = some ';' ∨ key = some ',' then
        match mode.jump with
        | none => go mode
        | some (jump, needle) => reading (mode.jumpAgain (if key = some ',' then jump.reversed else jump) needle)
      else go mode

-- A search that found nothing is over at the next event.
def heard (mode : Mode) : Mode := if mode.search = .noMatch then { mode with search := .normal } else mode

def feed (mode : Mode) (event : KeyEvent) (reads : Reads) : Except String (Outcome × Mode) :=
  let mode := mode.heard
  match mode.search with
  | .prompt direction text => .ok (.stay, mode.prompted direction text event)
  | _ =>
    if event.name = .escape ∧ mode.isSearching = true then .ok (.stay, { mode with search := .normal, pending := none })
    else
      match mode.pending, event.character with
      | some _, none => .ok (.stay, { mode with pending := none })
      | some jump, some needle =>
        let mode := { mode with pending := none }
        (reads.row mode.cursor.row).map fun row => (.stay, { (mode.find jump needle row).getD mode with jump := some (jump, needle) })
      | none, _ =>
        match mode.act alphanumeric event reads with
        | .error error => .error error
        | .ok (.done outcome) => .ok (outcome, mode)
        | .ok (.go after) => (settle mode after reads).map fun after => (.stay, after)

inductive MouseKind where
  | down
  | up
  | drag
  | move
  | scroll (up : Bool)
deriving DecidableEq

-- What a press or a drag selects, once the cursor is where the pointer is.
def pressed (mode : Mode) (old : Cell) (kind : MouseKind) (clicks : Nat) (row : Row) : Mode :=
  match kind with
  | .down =>
    if 3 ≤ clicks then { mode with selection := some (.line mode.cursor mode.cursor.row mode.cursor.row) }
    else if clicks = 2 then
      let at_ := row.cells.findIdx fun cell => decide (cell.col = mode.cursor.col)
      match row.cells[at_]? with
      | none => { mode with selection := some (.character mode.cursor) }
      | some _ =>
        match row.cells[runStart alphanumeric row.cells at_ false]?, row.cells[runEnd alphanumeric row.cells at_ false]? with
        | some first, some last =>
          { mode.moved last.col with selection := some (.character ⟨first.col, mode.cursor.row⟩) }
        | _, _ => mode
    else { mode with selection := none }
  | .drag => if mode.selection = none then { mode with selection := some (.character old) } else mode
  | _ => mode

def mouse (mode : Mode) (kind : MouseKind) (position : Cell) (clicks : Nat) (reads : Reads) : Except String Mode :=
  match kind with
  | .up => .ok mode
  | .move => .ok mode
  | .scroll up =>
    match normalizeAt mode (mode.scroll (if up = true then -3 else 3)) reads with
    | .error error => .error error
    | .ok after => update mode after reads
  | _ =>
    let cursor : Cell := ⟨min position.col (mode.cols - 1), min (mode.offset + min position.row (mode.rows - 1)) (mode.total - 1)⟩
    match reads.row cursor.row with
    | .error error => .error error
    | .ok row => update mode (pressed alphanumeric (normalize { mode with cursor := cursor } row) mode.cursor kind clicks row) reads

end Feed

def paste (mode : Mode) (text : List Char) : Mode :=
  let mode := mode.heard
  match mode.search with
  | .prompt direction prompt => { mode with search := .prompt direction (prompt ++ text.filter fun char => !isControl char) }
  | _ => mode

def searchFailed (mode : Mode) : Mode := { mode with search := .normal }

def searchDone (mode : Mode) (found : List Match) (reads : Reads) : Except String Mode :=
  match mode.search with
  | .searching direction text =>
    (searchJump { mode with search := .normal, last := some ⟨direction, text, found⟩ } (decide (direction = .forward))).updateLines reads
  | _ => .ok { mode with search := .normal }

end Mode

end Kido.Copy

namespace Kido.Copy

structure Screen where
  cols : Nat
  rows : Nat
  text : List Row
  wide : 0 < cols
  tall : 0 < rows
  filled : text ≠ []
  fits : ∀ row ∈ text, ∀ cell ∈ row.cells, cell.col + cell.width ≤ cols

namespace Screen

variable (screen : Screen)

def row (at_ : Nat) : Except String Row :=
  match screen.text[at_]? with
  | some row => .ok row
  | none => .error "copy row is missing"

def reads : Reads := ⟨screen.row, fun at_ => (screen.row at_).map Row.wraps⟩

theorem row_inside {at_ : Nat} (inside : at_ < screen.text.length) : screen.row at_ = .ok screen.text[at_] := by
  rw [row, List.getElem?_eq_getElem inside]

-- A mode that was opened on the screen.
structure Shows (mode : Mode) : Prop where
  cols : mode.cols = screen.cols
  rows : mode.rows = screen.rows
  total : mode.total = screen.text.length

-- A cell of the screen that is not the second half of a wide one.
structure Seated (cell : Cell) : Prop where
  row : cell.row < screen.text.length
  col : cell.col < screen.cols
  aligned : ∀ row, screen.text[cell.row]? = some row → Aligned row.cells cell.col

theorem filled_pos : 0 < screen.text.length := List.length_pos_iff.mpr screen.filled

end Screen

def Cell.Before (first second : Cell) : Prop := first.row < second.row ∨ first.row = second.row ∧ first.col < second.col

theorem Cell.Before.asymm {first second : Cell} (before : first.Before second) : ¬ second.Before first := by
  simp only [Cell.Before] at before ⊢
  omega

end Kido.Copy
