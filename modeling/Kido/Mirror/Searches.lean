import Kido.Mirror.Mirror
import Kido.Copy.Mode

set_option autoImplicit false

namespace Kido.Mirrors

open Kido.Shared
open Kido.Tui (KeyEvent)
open Kido.Copy (Cell Match Mode Reads)

variable {C V : Type}

-- The searches that a terminal has. What was opened on it, and every id that was ended there, stands beside the list.
structure Searches where
  list : List Nat
  opened : List Nat
  ended : List Nat
deriving DecidableEq

namespace Searches

def fresh : Searches := ⟨[], [], []⟩

def push (searches : Searches) (id : Nat) : Searches := ⟨searches.list ++ [id], searches.opened ++ [id], searches.ended⟩

def «end» (searches : Searches) (id : Nat) : Searches :=
  ⟨searches.list.filter fun other => decide (other ≠ id), searches.opened, searches.ended ++ [id]⟩

end Searches

structure Vt (C : Type) where
  content : C
  searches : Searches

-- The library's terminal with its searches: a decoded one has none, and nothing but copy mode opens or ends one.
def Engine.searching (engine : Engine C V) : Engine (Vt C) V where
  inflate := engine.inflate
  decode buffer extent := (engine.decode buffer extent).map fun vt => ⟨⟨vt.content, .fresh⟩, vt.viewport⟩
  ready := engine.ready
  configure vt := (engine.configure vt.content).map fun content => { vt with content := content }
  watch vt := engine.watch vt.content
  put vt byte := { vt with content := engine.put vt.content byte }
  resize vt size := (engine.resize vt.content size).map fun content => { vt with content := content }
  follow before after := engine.follow before.content after.content
  offset vt := engine.offset vt.content
  rows vt := engine.rows vt.content
  lowest vt := engine.lowest vt.content
  topmost vt := engine.topmost vt.content
  moved vt := engine.moved vt.content
  hold vt := engine.hold vt.content

def searchWith (act : Searches → Searches) (vt : Terminal (Vt C) V) : Terminal (Vt C) V :=
  ⟨{ vt.content with searches := act vt.content.searches }, vt.viewport⟩

def Surface.searches (surface : Surface (Vt C) V) : Option Searches := surface.screen.map fun vt => vt.content.searches

structure Copying where
  mode : Mode
  search : Option Nat

-- A mirror with its copy mode, and the thread that compresses its terminal: it is suspended from when it finds the flag
-- set until it is woken. `next` is where the ids of searches have come to.
structure Searcher (C V : Type) where
  mirror : Mirror (Vt C) V
  copy : Option Copying
  searching : Bool
  suspended : Bool
  next : Nat

-- How the terminal answers a change of copy mode, what is left of copy mode where a row cannot be read, and how many ids
-- other terminals took meanwhile.
structure Answers where
  reads : Reads
  left : Mode
  searches : Bool
  scrolls : Bool
  taken : Nat

inductive Progress where
  | running
  | failed
  | complete (found : List Match)

namespace Searcher

def start (next : Nat) : Searcher C V := ⟨.start, none, false, false, next⟩

variable (engine : Engine C V) (searcher : Searcher C V)

def search : Option Nat := searcher.copy.bind Copying.search

def searches : Option Searches := searcher.mirror.surface.searches

def onTerminal (act : Searches → Searches) : Searcher C V :=
  { searcher with mirror := { searcher.mirror with surface := searcher.mirror.surface.change (searchWith act) } }

def compress : Searcher C V :=
  { searcher with suspended := searcher.suspended || (searcher.searching && searcher.mirror.surface.screen.isSome) }

def wake : Searcher C V := { searcher with suspended := false }

def handled {α : Type} (result : Mirror (Vt C) V × Except Failure α) : Searcher C V :=
  if result.2.isOk then wake { searcher with mirror := result.1 } else { searcher with mirror := result.1 }

def freeze (opened : Option Mode) : Searcher C V :=
  match searcher.mirror.freeze engine.searching (opened.map Mode.offset) with
  | (mirror, .ok true) => { searcher with mirror := mirror, copy := opened.map fun mode => ⟨mode, none⟩ }
  | (mirror, _) => { searcher with mirror := mirror }

def hasId (taken : Nat) : Bool := decide (searcher.next + taken + 1 < u64)

def follow (answers : Answers) (copy : Copying) : Searcher C V × Bool :=
  match copy.mode.isSearching, copy.search with
  | true, none =>
    if answers.searches && searcher.hasId answers.taken then
      let id := searcher.next + answers.taken
      ({ searcher.onTerminal (fun searches => searches.push id) with
          copy := some { copy with search := some id },
          next := id + 1 }, true)
    else ({ searcher with copy := some { copy with mode := copy.mode.searchFailed } }, false)
  | false, some id => ({ searcher.onTerminal (fun searches => searches.end id) with copy := some { copy with search := none } }, true)
  | _, _ => ({ searcher with copy := some copy }, true)

def flag : Searcher C V :=
  let searching := searcher.search.isSome
  { searcher with suspended := searcher.suspended && !(searcher.searching && !searching), searching := searching }

def scrollFails (answers : Answers) (before after : Mode) : Bool := decide (after.offset ≠ before.offset) && !answers.scrolls

def copyChange (answers : Answers) (change : Mode → Except String Mode) : Searcher C V :=
  match searcher.copy, searcher.mirror.surface.screen with
  | some copy, some _ =>
    match change copy.mode with
    | .error _ =>
      { searcher with
        mirror := (searcher.mirror.copyChange engine.searching answers.left.offset true).1,
        copy := some { copy with mode := answers.left } }
    | .ok mode =>
      let fails := scrollFails answers copy.mode mode
      match searcher.follow answers { copy with mode := mode } with
      | (followed, false) => { followed with mirror := (followed.mirror.copyChange engine.searching mode.offset true).1 }
      | (followed, true) =>
        let scrolled := { followed with mirror := (followed.mirror.copyChange engine.searching mode.offset fails).1 }
        if fails then scrolled else scrolled.flag
  | _, _ => searcher

def key (alphanumeric : Char → Bool) (event : KeyEvent) (answers : Answers) : Searcher C V :=
  searcher.copyChange engine answers fun mode => (mode.feed alphanumeric event answers.reads).map Prod.snd

def paste (text : List Char) : Searcher C V :=
  { searcher with copy := searcher.copy.map fun copy => { copy with mode := copy.mode.paste text } }

def mouse (alphanumeric : Char → Bool) (kind : Mode.MouseKind) (position : Cell) (clicks : Nat) (answers : Answers) : Searcher C V :=
  if kind = .up ∨ kind = .move then searcher
  else searcher.copyChange engine answers fun mode => mode.mouse alphanumeric kind position clicks answers.reads

-- A slice of the search. Between its end and the change of copy mode the lock is free: `looked` says whether the thread
-- takes it there.
def searchStep (progress : Progress) (looked : Bool) (answers : Answers) : Searcher C V :=
  match searcher.copy, searcher.search, searcher.mirror.surface.screen with
  | some copy, some id, some _ =>
    let ended := { searcher.onTerminal (fun searches => searches.end id) with copy := some { copy with search := none } }
    match progress with
    | .running => searcher
    | .failed => ended
    | .complete found =>
      (if looked then ended.compress else ended).copyChange engine answers fun mode => mode.searchDone found answers.reads
  | _, _, _ => searcher

def thaw (sent : Bool) : Searcher C V :=
  let ended :=
    match searcher.search with
    | some id => searcher.onTerminal fun searches => searches.end id
    | none => searcher
  { ended with mirror := (ended.mirror.thaw engine.searching sent).1, copy := none, searching := false, suspended := false }

def unwatch : Searcher C V := { searcher with mirror := searcher.mirror.unwatch, copy := none }

def relink (connected watched : Bool) : Searcher C V :=
  if connected && watched then { searcher with mirror := { searcher.mirror with assembly := none } } else searcher

end Searcher

inductive Act where
  | record (record : List UInt8)
  | event (event : Option ViewEvent)
  | wake
  | compress
  | freeze (opened : Option Mode)
  | key (event : KeyEvent) (answers : Answers)
  | paste (text : List Char)
  | mouse (kind : Mode.MouseKind) (position : Cell) (clicks : Nat) (answers : Answers)
  | searchStep (progress : Progress) (looked : Bool) (answers : Answers)
  | thaw (sent : Bool)
  | bottom
  | scroll (delta : Int) (sent : Bool)
  | unwatch
  | relink (connected watched : Bool)

def Searcher.step (engine : Engine C V) (alphanumeric : Char → Bool) (searcher : Searcher C V) : Act → Searcher C V
  | .record record => searcher.handled (searcher.mirror.record engine.searching record)
  | .event event => searcher.handled (searcher.mirror.marker engine.searching event)
  | .wake => searcher.wake
  | .compress => searcher.compress
  | .freeze opened => searcher.freeze engine opened
  | .key event answers => searcher.key engine alphanumeric event answers
  | .paste text => searcher.paste text
  | .mouse kind position clicks answers => searcher.mouse engine alphanumeric kind position clicks answers
  | .searchStep progress looked answers => searcher.searchStep engine progress looked answers
  | .thaw sent => searcher.thaw engine sent
  | .bottom => { searcher with mirror := (searcher.mirror.bottom engine.searching).1 }
  | .scroll delta sent => wake { searcher with mirror := (searcher.mirror.scroll engine.searching delta sent).1 }
  | .unwatch => searcher.unwatch
  | .relink connected watched => searcher.relink connected watched

end Kido.Mirrors
