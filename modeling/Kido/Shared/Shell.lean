import Mathlib.Data.List.Basic

set_option autoImplicit false

namespace Kido.Shared.Shell

-- A byte of a word: taken for itself, unquoted, or one that an expansion begins with.
inductive Piece where
  | literal (byte : UInt8)
  | bare (byte : UInt8)
  | active (byte : UInt8)
deriving DecidableEq

inductive Token where
  | word (pieces : List Piece)
  | operator (byte : UInt8)
deriving DecidableEq

def literal (bytes : List UInt8) : Token := .word (bytes.map .literal)

inductive Mode where
  | bare
  | single
  | double
  | escaped
  | doubleEscaped
  | comment
deriving DecidableEq

-- The word is none between two words.
structure State where
  mode : Mode
  word : Option (List Piece)
  tokens : List Token
deriving DecidableEq

def newline : UInt8 := 10

def blank : UInt8 := 32

def quote : UInt8 := 39

def doubleQuote : UInt8 := 34

def escape : UInt8 := 92

def isBlank (byte : UInt8) : Bool := byte = blank || byte = 9

def isOperator (byte : UInt8) : Bool := [newline, 124, 38, 59, 60, 62, 40, 41].contains byte

def substitutes (byte : UInt8) : Bool := byte = 36 || byte = 96

def expands (byte : UInt8) : Bool := substitutes byte || [42, 63, 91, 126].contains byte

def State.start : State := ⟨.bare, none, []⟩

def State.push (state : State) (piece : Piece) : State :=
  { state with mode := .bare, word := some (state.word.getD [] ++ [piece]) }

def State.enter (state : State) (mode : Mode) : State := { state with mode := mode, word := some (state.word.getD []) }

def State.ended (state : State) : State :=
  { state with word := none, tokens := state.tokens ++ (state.word.map Token.word).toList }

def State.operator (state : State) (byte : UInt8) : State :=
  { state.ended with mode := .bare, tokens := state.ended.tokens ++ [.operator byte] }

def bareStep (state : State) (byte : UInt8) : State :=
  if isBlank byte then state.ended
  else if isOperator byte then state.operator byte
  else if byte = quote then state.enter .single
  else if byte = doubleQuote then state.enter .double
  else if byte = escape then { state with mode := .escaped }
  else if byte = 35 ∧ state.word = none then { state with mode := .comment }
  else state.push (if expands byte then .active byte else .bare byte)

def step (state : State) (byte : UInt8) : State :=
  match state.mode with
  | .bare => bareStep state byte
  | .single => if byte = quote then state.enter .bare else { state.push (.literal byte) with mode := .single }
  | .double =>
    if byte = doubleQuote then state.enter .bare
    else if byte = escape then { state with mode := .doubleEscaped }
    else { state.push (if substitutes byte then .active byte else .literal byte) with mode := .double }
  -- An escaped newline is no part of the line.
  | .escaped => if byte = newline then { state with mode := .bare } else state.push (.literal byte)
  | .doubleEscaped =>
    if byte = newline then { state with mode := .double }
    else if substitutes byte || byte = doubleQuote || byte = escape then { state.push (.literal byte) with mode := .double }
    else { (state.push (.literal escape)).push (.literal byte) with mode := .double }
  | .comment => if byte = newline then state.operator byte else state

def run (state : State) (line : List UInt8) : State := line.foldl step state

-- The line in tokens, and nothing where a quote stays open or a zero byte stands.
def read (line : List UInt8) : Option (List Token) :=
  let last := run .start line
  if line.contains 0 || (last.mode ≠ .bare && last.mode ≠ .comment) then none else some last.ended.tokens

def joined (words : List (List UInt8)) : List UInt8 := [blank].intercalate words

section Rules

theorem run_append (state : State) (first second : List UInt8) : run state (first ++ second) = run (run state first) second :=
  List.foldl_append

def ReadsAs (text : List UInt8) (pieces : List Piece) : Prop :=
  ∀ tokens, run ⟨.bare, none, tokens⟩ text = ⟨.bare, some pieces, tokens⟩

theorem run_single {bytes : List UInt8} (other : quote ∉ bytes) (pieces : List Piece) (tokens : List Token) :
    run ⟨.single, some pieces, tokens⟩ bytes = ⟨.single, some (pieces ++ bytes.map .literal), tokens⟩ := by
  induction bytes generalizing pieces with
  | nil => simp [run]
  | cons byte rest ih =>
    rw [List.mem_cons, not_or] at other
    have here : step ⟨.single, some pieces, tokens⟩ byte = ⟨.single, some (pieces ++ [.literal byte]), tokens⟩ := by
      simp [step, State.push, Ne.symm other.1]
    rw [run, List.foldl_cons, here]
    have later := ih other.2 (pieces ++ [.literal byte])
    rw [run] at later
    rw [later, List.map_cons, List.append_assoc, List.singleton_append]

theorem joined_whole {texts : List (List UInt8)} (whole : ∀ text ∈ texts, 0 ∉ text) : 0 ∉ joined texts := by
  rw [joined]
  induction texts with
  | nil => exact List.not_mem_nil
  | cons text others ih =>
    have first := whole text List.mem_cons_self
    have rest := ih fun other among => whole other (List.mem_cons_of_mem text among)
    cases others with
    | nil => rwa [List.intercalate_singleton]
    | cons next later =>
      rw [List.intercalate_cons_cons, List.mem_append, List.mem_append, List.mem_singleton]
      rintro ((among | among) | among)
      · exact first among
      · exact absurd among (by decide)
      · exact rest among

variable {α : Type} {text : α → List UInt8} {pieces : α → List Piece}

theorem run_joined {items : List α} (reads : ∀ item ∈ items, ReadsAs (text item) (pieces item)) (tokens : List Token) :
    (run ⟨.bare, none, tokens⟩ (joined (items.map text))).mode = .bare ∧
      (run ⟨.bare, none, tokens⟩ (joined (items.map text))).ended.tokens = tokens ++ items.map fun item => .word (pieces item) := by
  induction items generalizing tokens with
  | nil => simp [joined, run, State.ended]
  | cons item others ih =>
    have first := reads item List.mem_cons_self tokens
    cases others with
    | nil =>
      rw [joined, List.map_singleton, List.intercalate_singleton, first]
      exact ⟨rfl, rfl⟩
    | cons next later =>
      have rest := ih (fun other among => reads other (List.mem_cons_of_mem item among)) (tokens ++ [.word (pieces item)])
      have between : run ⟨.bare, some (pieces item), tokens⟩ [blank] = ⟨.bare, none, tokens ++ [.word (pieces item)]⟩ := rfl
      rw [joined, List.map_cons] at rest
      rw [joined, List.map_cons, List.map_cons, List.intercalate_cons_cons, run_append, run_append, first, between]
      refine ⟨rest.1, ?_⟩
      rw [rest.2, List.append_assoc]
      rfl

theorem read_joined {items : List α} (reads : ∀ item ∈ items, ReadsAs (text item) (pieces item))
    (whole : ∀ item ∈ items, 0 ∉ text item) : read (joined (items.map text)) = some (items.map fun item => .word (pieces item)) := by
  obtain ⟨bare, tokens⟩ := run_joined reads []
  have none_ : 0 ∉ joined (items.map text) := by
    refine joined_whole fun part among => ?_
    obtain ⟨item, here, rfl⟩ := List.mem_map.1 among
    exact whole item here
  simp [read, none_, State.start, bare, tokens]

end Rules

end Kido.Shared.Shell
