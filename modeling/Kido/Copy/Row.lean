import Kido.Layout.Claims
import Mathlib.Data.List.Basic

set_option autoImplicit false

namespace Kido.Copy

open Kido.Shared (isWhitespace)

-- A cluster of a text: its characters and the columns that it is wide.
structure Cluster where
  chars : List Char
  width : Nat
deriving DecidableEq

structure Row where
  text : List Cluster
  wraps : Bool
deriving DecidableEq

-- A cell of a row: its column, its width and its first character.
structure RowCell where
  col : Nat
  width : Nat
  char : Char
deriving DecidableEq

def cellsFrom (col : Nat) : List Cluster → List RowCell
  | [] => []
  | cluster :: rest =>
    ⟨col, max cluster.width 1, cluster.chars.head?.getD ' '⟩ :: cellsFrom (col + max cluster.width 1) rest

def Row.cells (row : Row) : List RowCell := cellsFrom 0 row.text

def Row.width (row : Row) : Nat := (row.text.map Cluster.width).sum

inductive WordClass where
  | blank
  | word
  | punctuation
deriving DecidableEq

section Runs

-- Which characters are letters and digits of any script.
variable (alphanumeric : Char → Bool)

def classOf (char : Char) (big : Bool) : WordClass :=
  if isWhitespace char = true then .blank
  else if big = true ∨ alphanumeric char = true ∨ char = '_' then .word
  else .punctuation

def kindAt (cells : List RowCell) (big : Bool) (at_ : Nat) : Option WordClass :=
  cells[at_]?.map fun cell => classOf alphanumeric cell.char big

def runStartFrom (cells : List RowCell) (big : Bool) (kind : Option WordClass) : Nat → Nat
  | 0 => 0
  | at_ + 1 =>
    if at_ < cells.length ∧ kindAt alphanumeric cells big at_ = kind then runStartFrom cells big kind at_ else at_ + 1

def runStart (cells : List RowCell) (at_ : Nat) (big : Bool) : Nat :=
  runStartFrom alphanumeric cells big (kindAt alphanumeric cells big at_) at_

def runEnd (cells : List RowCell) (at_ : Nat) (big : Bool) : Nat :=
  at_ + ((cells.drop (at_ + 1)).takeWhile fun cell =>
    decide (some (classOf alphanumeric cell.char big) = kindAt alphanumeric cells big at_)).length

-- Behind the blanks that start at a place.
def pastBlanks (cells : List RowCell) (big : Bool) (at_ : Nat) : Nat :=
  at_ + ((cells.drop at_).takeWhile fun cell => decide (classOf alphanumeric cell.char big = .blank)).length

-- Back over the blanks that end at a place, to the first cell at most.
def backBlanks (cells : List RowCell) (big : Bool) : Nat → Nat
  | 0 => 0
  | at_ + 1 => if kindAt alphanumeric cells big (at_ + 1) = some .blank then backBlanks cells big at_ else at_ + 1

end Runs

end Kido.Copy

namespace Kido.Copy

open Kido.Shared (isWhitespace)

universe u

section Taken

variable {α : Type u} (p : α → Bool)

theorem takeWhile_places (items : List α) :
    (∀ place < (items.takeWhile p).length, ∃ item, items[place]? = some item ∧ p item = true) ∧
      ∀ item, items[(items.takeWhile p).length]? = some item → p item = false := by
  induction items with
  | nil => simp
  | cons first rest ih =>
    cases met : p first with
    | true =>
      rw [List.takeWhile_cons_of_pos met, List.length_cons]
      constructor
      · intro place below
        cases place with
        | zero => exact ⟨first, rfl, met⟩
        | succ place => exact ih.1 place (by omega)
      · intro item found
        exact ih.2 item (by simpa using found)
    | false =>
      rw [List.takeWhile_cons_of_neg (by simp [met])]
      refine ⟨by simp, fun item found => ?_⟩
      obtain rfl : first = item := Option.some.inj found
      exact met

-- From a place on, the items that are taken and the first that is not.
theorem takeWhile_behind (items : List α) (start : Nat) :
    (∀ place, start ≤ place → place < start + ((items.drop start).takeWhile p).length →
        ∃ item, items[place]? = some item ∧ p item = true) ∧
      ∀ item, items[start + ((items.drop start).takeWhile p).length]? = some item → p item = false := by
  have places := takeWhile_places p (items.drop start)
  simp only [List.getElem?_drop] at places
  constructor
  · intro place above below
    have taken := places.1 (place - start) (by omega)
    rwa [Nat.add_sub_cancel' above] at taken
  · exact places.2

end Taken

section Runs

variable (alphanumeric : Char → Bool) (cells : List RowCell) (big : Bool)

theorem kindAt_lt {at_ : Nat} {kind : WordClass} (here : kindAt alphanumeric cells big at_ = some kind) : at_ < cells.length := by
  rw [kindAt, Option.map_eq_some_iff] at here
  obtain ⟨cell, found, -⟩ := here
  exact List.getElem?_eq_some_iff.mp found |>.1

theorem kindAt_some {at_ : Nat} (inside : at_ < cells.length) : ∃ kind, kindAt alphanumeric cells big at_ = some kind :=
  ⟨_, by rw [kindAt, List.getElem?_eq_getElem inside, Option.map_some]⟩

-- A run ends before a cell of another class.
theorem runEnd_spec (at_ : Nat) :
    at_ ≤ runEnd alphanumeric cells at_ big ∧
      (∀ place, at_ ≤ place → place ≤ runEnd alphanumeric cells at_ big →
        kindAt alphanumeric cells big place = kindAt alphanumeric cells big at_) ∧
      ∀ kind, kindAt alphanumeric cells big (runEnd alphanumeric cells at_ big + 1) = some kind →
        some kind ≠ kindAt alphanumeric cells big at_ := by
  have behind := takeWhile_behind
    (fun cell : RowCell => decide (some (classOf alphanumeric cell.char big) = kindAt alphanumeric cells big at_)) cells (at_ + 1)
  refine ⟨Nat.le_add_right _ _, fun place above below => ?_, fun kind found => ?_⟩
  · rcases Nat.eq_or_lt_of_le above with rfl | above
    · rfl
    · obtain ⟨cell, found, same⟩ := behind.1 place above (by rw [runEnd] at below; omega)
      rw [← of_decide_eq_true same, kindAt, found, Option.map_some]
  · rw [kindAt, Option.map_eq_some_iff] at found
    obtain ⟨cell, found, rfl⟩ := found
    exact of_decide_eq_false (behind.2 cell (by rw [runEnd] at found; rw [← found]; congr 1; omega))

theorem pastBlanks_spec (at_ : Nat) :
    at_ ≤ pastBlanks alphanumeric cells big at_ ∧
      (∀ place, at_ ≤ place → place < pastBlanks alphanumeric cells big at_ →
        kindAt alphanumeric cells big place = some .blank) ∧
      kindAt alphanumeric cells big (pastBlanks alphanumeric cells big at_) ≠ some .blank := by
  have behind := takeWhile_behind (fun cell : RowCell => decide (classOf alphanumeric cell.char big = .blank)) cells at_
  refine ⟨Nat.le_add_right _ _, fun place above below => ?_, fun blank => ?_⟩
  · obtain ⟨cell, found, same⟩ := behind.1 place above below
    rw [kindAt, found, Option.map_some, of_decide_eq_true same]
  · rw [kindAt, Option.map_eq_some_iff] at blank
    obtain ⟨cell, found, same⟩ := blank
    exact of_decide_eq_false (behind.2 cell found) same

-- A run starts behind a cell of another class.
theorem runStart_spec {at_ : Nat} (inside : at_ < cells.length) :
    runStart alphanumeric cells at_ big ≤ at_ ∧
      (∀ place, runStart alphanumeric cells at_ big ≤ place → place ≤ at_ →
        kindAt alphanumeric cells big place = kindAt alphanumeric cells big at_) ∧
      ∀ before, before + 1 = runStart alphanumeric cells at_ big →
        kindAt alphanumeric cells big before ≠ kindAt alphanumeric cells big at_ := by
  have along : ∀ kind place, place < cells.length → kindAt alphanumeric cells big place = kind →
      runStartFrom alphanumeric cells big kind place ≤ place ∧
        (∀ other, runStartFrom alphanumeric cells big kind place ≤ other → other ≤ place →
          kindAt alphanumeric cells big other = kind) ∧
        ∀ before, before + 1 = runStartFrom alphanumeric cells big kind place →
          kindAt alphanumeric cells big before ≠ kind := by
    intro kind place
    induction place with
    | zero =>
      intro _ here
      refine ⟨Nat.le_refl 0, fun other _ below => ?_, fun before first => ?_⟩
      · rwa [Nat.le_zero.mp below]
      · exact absurd first (by simp [runStartFrom])
    | succ place ih =>
      intro below here
      rw [runStartFrom]
      split_ifs with back
      · obtain ⟨low, same, edge⟩ := ih back.1 back.2
        refine ⟨by omega, fun other above within => ?_, edge⟩
        rcases Nat.eq_or_lt_of_le within with rfl | within
        · exact here
        · exact same other above (by omega)
      · refine ⟨Nat.le_refl _, fun other above within => ?_, fun before first => ?_⟩
        · rwa [Nat.le_antisymm within above]
        · obtain rfl : before = place := by omega
          exact fun same => back ⟨by omega, same⟩
  exact along _ at_ inside rfl

theorem backBlanks_spec (at_ : Nat) :
    backBlanks alphanumeric cells big at_ ≤ at_ ∧
      (∀ place, backBlanks alphanumeric cells big at_ < place → place ≤ at_ → kindAt alphanumeric cells big place = some .blank) ∧
      (kindAt alphanumeric cells big (backBlanks alphanumeric cells big at_) = some .blank → backBlanks alphanumeric cells big at_ = 0) := by
  induction at_ with
  | zero => exact ⟨Nat.le_refl 0, fun place above below => absurd above (by simp [backBlanks]; omega), fun _ => rfl⟩
  | succ at_ ih =>
    rw [backBlanks]
    split_ifs with blank
    · obtain ⟨low, blanks, first⟩ := ih
      refine ⟨by omega, fun place above below => ?_, first⟩
      rcases Nat.eq_or_lt_of_le below with rfl | below
      · exact blank
      · exact blanks place above (by omega)
    · exact ⟨Nat.le_refl _, fun place above below => absurd above (by omega), fun here => absurd here blank⟩

end Runs

section Beside

variable {cells : List RowCell}

-- The cells lie from a column on, each right behind the one before.
def Beside : Nat → List RowCell → Prop
  | _, [] => True
  | col, cell :: rest => cell.col = col ∧ 0 < cell.width ∧ Beside (col + cell.width) rest

theorem cellsFrom_beside (col : Nat) (text : List Cluster) : Beside col (cellsFrom col text) := by
  induction text generalizing col with
  | nil => trivial
  | cons cluster rest ih => exact ⟨rfl, Nat.lt_of_lt_of_le Nat.one_pos (Nat.le_max_right _ _), ih _⟩

theorem Row.cells_beside (row : Row) : Beside 0 row.cells := cellsFrom_beside 0 row.text

theorem Beside.le {col : Nat} (beside : Beside col cells) : ∀ cell ∈ cells, col ≤ cell.col := by
  induction cells generalizing col with
  | nil => simp
  | cons first rest ih =>
    obtain ⟨rfl, _, behind⟩ := beside
    exact List.forall_mem_cons.mpr ⟨Nat.le_refl _, fun cell member => Nat.le_of_add_right_le (ih behind cell member)⟩

theorem Beside.first {col : Nat} (beside : Beside col cells) {cell : RowCell} (found : cells[0]? = some cell) : cell.col = col := by
  cases cells with
  | nil => exact absurd found (by simp)
  | cons first rest =>
    obtain rfl : first = cell := Option.some.inj found
    exact beside.1

theorem Beside.next {col : Nat} (beside : Beside col cells) {at_ : Nat} {cell next : RowCell} (here : cells[at_]? = some cell)
    (there : cells[at_ + 1]? = some next) : next.col = cell.col + cell.width := by
  induction cells generalizing col at_ with
  | nil => exact absurd here (by simp)
  | cons first rest ih =>
    obtain ⟨rfl, _, behind⟩ := beside
    cases at_ with
    | zero =>
      obtain rfl : first = cell := Option.some.inj here
      exact behind.first there
    | succ at_ => exact ih behind here there

theorem Beside.lt {col : Nat} (beside : Beside col cells) {at_ later : Nat} {cell other : RowCell} (here : cells[at_]? = some cell)
    (there : cells[later]? = some other) (below : at_ < later) : cell.col + cell.width ≤ other.col := by
  induction cells generalizing col at_ later with
  | nil => exact absurd here (by simp)
  | cons first rest ih =>
    obtain ⟨rfl, _, behind⟩ := beside
    obtain ⟨later, rfl⟩ : ∃ n, later = n + 1 := ⟨later - 1, by omega⟩
    cases at_ with
    | zero =>
      obtain rfl : first = cell := Option.some.inj here
      exact behind.le other (List.mem_of_getElem? there)
    | succ at_ => exact ih behind here there (by omega)

theorem Beside.wide {col : Nat} (beside : Beside col cells) : ∀ cell ∈ cells, 0 < cell.width := by
  induction cells generalizing col with
  | nil => simp
  | cons first rest ih => exact List.forall_mem_cons.mpr ⟨beside.2.1, ih beside.2.2⟩

-- The places of cells are in the order of their columns.
theorem Beside.lt_iff {col : Nat} (beside : Beside col cells) {at_ later : Nat} {cell other : RowCell} (here : cells[at_]? = some cell)
    (there : cells[later]? = some other) : at_ < later ↔ cell.col < other.col := by
  have wide := beside.wide
  constructor
  · intro below
    have apart := beside.lt here there below
    have := wide cell (List.mem_of_getElem? here)
    omega
  · intro before
    by_contra above
    rcases Nat.eq_or_lt_of_le (Nat.not_lt.mp above) with rfl | above
    · obtain rfl : cell = other := Option.some.inj (here.symm.trans there)
      exact Nat.lt_irrefl _ before
    · have apart := beside.lt there here above
      have := wide other (List.mem_of_getElem? there)
      omega

-- A column that is not inside a cell: the first half of one, or behind the text.
def Aligned (cells : List RowCell) (col : Nat) : Prop := ∀ cell ∈ cells, ¬ (cell.col < col ∧ col < cell.col + cell.width)

-- The first cell that is not before the column is the one at it.
theorem Beside.place (beside : Beside 0 cells) {col : Nat} (aligned : Aligned cells col) :
    (∀ at_ cell, cells[at_]? = some cell → (at_ < cells.findIdx (fun cell => decide (col ≤ cell.col)) ↔ cell.col < col)) ∧
      ∀ cell, cells[cells.findIdx fun cell => decide (col ≤ cell.col)]? = some cell → cell.col = col := by
  set place := cells.findIdx fun cell => decide (col ≤ cell.col) with place_eq
  have before : ∀ at_ cell, cells[at_]? = some cell → at_ < place → cell.col < col := by
    intro at_ cell found below
    obtain ⟨inside, rfl⟩ := List.getElem?_eq_some_iff.mp found
    simpa using List.not_of_lt_findIdx below
  have met : ∀ cell, cells[place]? = some cell → col ≤ cell.col := by
    intro cell found
    obtain ⟨inside, rfl⟩ := List.getElem?_eq_some_iff.mp found
    exact of_decide_eq_true (List.findIdx_getElem (w := inside))
  have here : ∀ cell, cells[place]? = some cell → cell.col = col := by
    intro cell found
    cases at_place : place with
    | zero =>
      rw [at_place] at found
      have zero := beside.first found
      have := met cell (at_place ▸ found)
      omega
    | succ back =>
      obtain ⟨inside, -⟩ := List.getElem?_eq_some_iff.mp found
      have prior : cells[back]? = some cells[back] := List.getElem?_eq_getElem (by omega)
      have low := before back _ prior (by omega)
      have joined := beside.next prior (at_place ▸ found)
      have clear := aligned _ (List.getElem_mem (by omega : back < cells.length))
      have := met cell found
      omega
  refine ⟨fun at_ cell found => ⟨before at_ cell found, fun low => ?_⟩, here⟩
  by_contra above
  obtain ⟨inside, -⟩ := List.getElem?_eq_some_iff.mp found
  have there : cells[place]? = some cells[place] := List.getElem?_eq_getElem (by omega)
  rcases Nat.eq_or_lt_of_le (Nat.not_lt.mp above) with same | above
  · have := here cell (same ▸ found)
    omega
  · have := (beside.lt_iff there found).mp above
    have := here _ there
    omega

end Beside

end Kido.Copy
