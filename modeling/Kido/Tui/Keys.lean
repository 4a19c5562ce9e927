import Mathlib.Data.List.Basic
import Kido.Client.Apply
import Kido.Client.Select

set_option autoImplicit false

namespace Kido.Tui

structure Mods where
  bits : UInt8
deriving DecidableEq

namespace Mods

def SHIFT : UInt8 := 1

def ALT : UInt8 := 2

def CTRL : UInt8 := 4

def SUPER : UInt8 := 8

def HYPER : UInt8 := 16

def META : UInt8 := 32

def CAPS : UInt8 := 64

def NUM : UInt8 := 128

def none : Mods := ⟨0⟩

def has (mods : Mods) (flag : UInt8) : Bool := decide (mods.bits &&& flag ≠ 0)

def onlyCtrl (mods : Mods) : Bool := decide (mods.bits &&& ~~~(CAPS ||| NUM) = CTRL)

def onlyAlt (mods : Mods) : Bool := decide (mods.bits &&& ~~~(CAPS ||| NUM) = (ALT ||| META))

def plain (mods : Mods) : Bool := decide (mods.bits &&& ~~~(SHIFT ||| CAPS ||| NUM) = 0)

def shift (mods : Mods) : Bool := mods.has SHIFT

end Mods

inductive Name where
  | char (char : Char)
  | enter
  | tab
  | backspace
  | delete
  | «end»
  | home
  | insert
  | pageDown
  | pageUp
  | down
  | left
  | right
  | up
  | escape
  | f (number : UInt8)
  | other (code : UInt16)
deriving DecidableEq

inductive Kind where
  | press
  | repeat
  | release
deriving DecidableEq

structure KeyEvent where
  name : Name
  mods : Mods
  kind : Kind
  text : String
deriving DecidableEq

namespace KeyEvent

def ctrl (event : KeyEvent) : Option Char :=
  match event.name with
  | .char char => if event.mods.onlyCtrl then some char else none
  | _ => none

def character (event : KeyEvent) : Option Char :=
  match event.name with
  | .char named =>
    if event.mods.has (Mods.CTRL ||| Mods.ALT ||| Mods.SUPER ||| Mods.HYPER ||| Mods.META) then none
    else
      match event.text.toList with
      | [typed] => some typed
      | _ => some named
  | _ => none

end KeyEvent

end Kido.Tui

namespace Kido.Tui

open Kido.Shared (isControl)
open Kido.Tiling
open Kido.Tiling.Sizing (Edge)
open Kido.Selecting (Over Direction)

inductive Rename where
  | session
  | window
deriving DecidableEq

inductive Kill where
  | window
  | pane
deriving DecidableEq

inductive KeyState where
  | normal
  | prefixed
  | repeat (until_ : Nat)
  | help
  | rename (of : Rename) (text : List Char)
  | confirm (kill : Kill)
  | chooser (pane : PaneId)
deriving DecidableEq

inductive Amount where
  | one
  | five
deriving DecidableEq

inductive PaneSelect where
  | next
  | last
  | edge (edge : Edge)
deriving DecidableEq

inductive PaneEdit where
  | split (axis : Axis)
  | zoom
  | resize (edge : Edge) (amount : Amount)
  | swap (direction : Direction)
  | equalize
  | float
  | breakOut

inductive PaneCommand where
  | select (select : PaneSelect)
  | edit (edit : PaneEdit)

inductive Entry where
  | here
  | pageUp
deriving DecidableEq

inductive KeyAction where
  | detach
  | redraw
  | toggleSidebar
  | leaveSidebar
  | resizeSidebar (edge : Edge) (amount : Amount)
  | pager
  | enterCopy (entry : Entry)
  | copyKey (event : KeyEvent)
  | leaveCopy
  | pasteBuffer
  | newWindow
  | switch (past : Over) (direction : Direction)
  | lastSession
  | lastWindow
  | pane (command : PaneCommand)
  | window (number : Nat)
  | chooser
  | choose (direction : Direction)
  | select (pane : PaneId)
  | rename (of : Rename) (text : List Char)
  | kill (kill : Kill)

inductive KeyStep where
  | pane (event : KeyEvent)
  | act (action : KeyAction)
  | swallow

inductive Context where
  | live
  | dead
  | copying
deriving DecidableEq

inductive KeyMode where
  | pane
  | resize
  | sidebar (pane : PaneId)
  | sidebarResize (pane : PaneId)
deriving DecidableEq

def repeatable (event : KeyEvent) : Option PaneCommand :=
  let arrow : Option Edge :=
    match event.name with
    | .left => some .left
    | .down => some .bottom
    | .up => some .top
    | .right => some .right
    | _ => none
  match arrow with
  | some edge =>
    if event.mods.onlyCtrl then some (.edit (.resize edge .one))
    else if event.mods.onlyAlt then some (.edit (.resize edge .five))
    else if event.mods = Mods.none then some (.select (.edge edge))
    else none
  | none =>
    match event.ctrl <|> event.character with
    | some 'h' => some (.select (.edge .left))
    | some 'j' => some (.select (.edge .bottom))
    | some 'k' => some (.select (.edge .top))
    | some 'l' => some (.select (.edge .right))
    | _ => none

def paneCommand (event : KeyEvent) : Option PaneCommand :=
  match event.character with
  | some '%' => some (.edit (.split .horizontal))
  | some '"' => some (.edit (.split .vertical))
  | some 'z' => some (.edit .zoom)
  | some '*' => some (.edit .float)
  | some '!' => some (.edit .breakOut)
  | some 'o' => some (.select .next)
  | some ';' => some (.select .last)
  | some '\x7b' => some (.edit (.swap .previous))
  | some '\x7d' => some (.edit (.swap .next))
  | some 'E' => some (.edit .equalize)
  | _ => none

def digit (char : Char) : Option Nat := if '0' ≤ char ∧ char ≤ '9' then some (char.toNat - '0'.toNat) else none

structure Keys where
  state : KeyState
  mode : KeyMode
  consumed : List Name
deriving DecidableEq

namespace Keys

def new : Keys := ⟨.normal, .pane, []⟩

def stop (keys : Keys) : Keys := { keys with state := .normal }

def leave (keys : Keys) : Keys := stop { keys with mode := .pane }

def focusSidebar (keys : Keys) (pane : PaneId) : Keys :=
  { keys with
    mode :=
      match keys.mode with
      | .sidebarResize _ => .sidebarResize pane
      | _ => .sidebar pane }

def cursor (keys : Keys) : Option PaneId :=
  match keys.state, keys.mode with
  | .chooser pane, _ => some pane
  | _, .sidebar pane => some pane
  | _, .sidebarResize pane => some pane
  | _, _ => none

def choose (keys : Keys) (pane : PaneId) : Keys :=
  match keys.mode with
  | .sidebar _ => keys.focusSidebar pane
  | _ => { keys with state := .chooser pane }

def paste (keys : Keys) (text : List Char) : Keys × Option (List Char) :=
  match keys.state with
  | .normal => (keys, if keys.mode = .pane then some text else none)
  | .rename of typed => ({ keys with state := .rename of (typed ++ text.filter fun char => !isControl char) }, none)
  | _ => ({ keys with state := .normal }, none)

def deadline (keys : Keys) : Option Nat :=
  match keys.state with
  | .repeat until_ => some until_
  | _ => none

def expire (keys : Keys) (now : Nat) : Keys :=
  match keys.deadline with
  | some until_ => if until_ ≤ now then keys.stop else keys
  | none => keys

def enter (keys : Keys) (state : KeyState) : Keys × KeyStep := ({ keys with state := state }, .swallow)

def normal (keys : Keys) (event : KeyEvent) (dead : Bool) : Keys × KeyStep :=
  match event.ctrl with
  | some 'a' => keys.enter .prefixed
  | ctrl =>
    match keys.mode with
    | .sidebar _ =>
      if event.name = .up ∨ event.character = some 'k' then (keys, .act (.choose .previous))
      else if event.name = .down ∨ event.character = some 'j' then (keys, .act (.choose .next))
      else if event.name = .enter then
        match keys.cursor with
        | some pane => (keys, .act (.select pane))
        | none => (keys, .swallow)
      else if event.name = .escape then (keys, .act .leaveSidebar)
      else (keys, .swallow)
    | _ => if ctrl = some 'd' ∧ dead = true then (keys, .act (.kill .pane)) else (keys, .pane event)

def repeatTime : Nat := 500

def again (keys : Keys) (command : PaneCommand) (now : Nat) : Keys × KeyStep :=
  let keys := { keys with state := .repeat (now + repeatTime) }
  match keys.mode with
  | .sidebar _ =>
    match command with
    | .select (.edge .right) => (keys, .act .leaveSidebar)
    | .select (.edge .top) => (keys, .act (.choose .previous))
    | .select (.edge .bottom) => (keys, .act (.choose .next))
    | _ => (keys, .swallow)
  | _ => (keys, .act (.pane command))

-- The keys behind the one that starts a command, by their character.
def command (keys : Keys) (key : Char) : Keys × KeyStep :=
  match digit key with
  | some number => (keys, .act (.window number))
  | none =>
    match key with
    | '[' => (keys, .act (.enterCopy .here))
    | ']' => (keys, .act .pasteBuffer)
    | 'd' => (keys, .act .detach)
    | 'r' => (keys, .act .redraw)
    | 'e' => (keys, .act .pager)
    | 'c' => (keys, .act .newWindow)
    | '(' => (keys, .act (.switch .session .previous))
    | ')' => (keys, .act (.switch .session .next))
    | 'p' => (keys, .act (.switch .window .previous))
    | 'n' => (keys, .act (.switch .window .next))
    | 'L' => (keys, .act .lastSession)
    | 's' => (keys, .act .chooser)
    | 'w' => (keys, .act .chooser)
    | 'R' =>
      ({ keys with
        mode :=
          match keys.mode with
          | .sidebar pane => .sidebarResize pane
          | _ => .resize }, .swallow)
    | '?' => keys.enter .help
    | '$' => keys.enter (.rename .session [])
    | ',' => keys.enter (.rename .window [])
    | '&' => keys.enter (.confirm .window)
    | 'x' => keys.enter (.confirm .pane)
    | _ => (keys, .swallow)

def prefixed (keys : Keys) (event : KeyEvent) (now : Nat) : Keys × KeyStep :=
  if event.name = .tab ∧ event.mods = Mods.none then (keys, .act .lastWindow)
  else if event.name = .backspace then keys.again (.select (.edge .left)) now
  else if event.name = .enter then keys.again (.select (.edge .bottom)) now
  else
    match repeatable event with
    | some command => keys.again command now
    | none =>
      match paneCommand event with
      | some command => (keys, .act (.pane command))
      | none =>
        if event.ctrl = some 'a' ∧ keys.mode = .pane then (keys, .pane event)
        else if event.ctrl = some 's' then (keys, .act .toggleSidebar)
        else if event.name = .pageUp then (keys, .act (.enterCopy .pageUp))
        else
          match event.character with
          | none => (keys, .swallow)
          | some key => keys.command key

def resizeEdge (event : KeyEvent) : Option Edge :=
  let character := event.character
  if event.name = .left ∨ character = some 'h' ∨ character = some 'H' then some .left
  else if event.name = .down ∨ character = some 'j' ∨ character = some 'J' then some .bottom
  else if event.name = .up ∨ character = some 'k' ∨ character = some 'K' then some .top
  else if event.name = .right ∨ character = some 'l' ∨ character = some 'L' then some .right
  else none

def resizeCommand (keys : Keys) (character : Option Char) (resize : Option (Edge × Amount)) : KeyStep :=
  match keys.mode with
  | .resize =>
    match resize with
    | some (edge, amount) => .act (.pane (.edit (.resize edge amount)))
    | none => .act (.pane (.edit (if character = some '=' then .equalize else .zoom)))
  | .sidebarResize _ =>
    match resize with
    | some (.left, amount) => .act (.resizeSidebar .left amount)
    | some (.right, amount) => .act (.resizeSidebar .right amount)
    | _ => .swallow
  | _ => .swallow

def resize (keys : Keys) (event : KeyEvent) : Keys × KeyStep :=
  let leaving : KeyMode :=
    match keys.mode with
    | .sidebarResize pane => .sidebar pane
    | _ => .pane
  if event.ctrl = some 'a' then enter { keys with mode := leaving } .prefixed
  else if event.name = .enter ∨ event.name = .escape ∨ event.character = some 'q' then ({ keys with mode := leaving }, .swallow)
  else if event.character = some '=' ∨ event.character = some 'z' then (keys, keys.resizeCommand event.character none)
  else
    match resizeEdge event with
    | none => (keys, .swallow)
    | some edge =>
      if event.character = none ∧ event.mods.plain = false then (keys, .swallow)
      else
        let amount : Amount := if event.mods.shift || event.character.any Char.isUpper then .five else .one
        (keys, keys.resizeCommand event.character (some (edge, amount)))

def «renaming» (keys : Keys) (of : Rename) (text : List Char) (event : KeyEvent) : Keys × KeyStep :=
  if event.name = .enter then (keys, if text.isEmpty then .swallow else .act (.rename of text))
  else if event.name = .escape then (keys, .swallow)
  else if event.name = .backspace then keys.enter (.rename of text.dropLast)
  else
    match event.character with
    | some typed => keys.enter (.rename of (text ++ [typed]))
    | none => keys.enter (.rename of text)

def choosing (keys : Keys) (pane : PaneId) (event : KeyEvent) (dead : Bool) : Keys × KeyStep :=
  match event.name with
  | .up => ({ keys with state := .chooser pane }, .act (.choose .previous))
  | .down => ({ keys with state := .chooser pane }, .act (.choose .next))
  | .enter => (keys, .act (.select pane))
  | .escape => (keys, .swallow)
  | _ => keys.normal event dead

def pressed (keys : Keys) (state : KeyState) (event : KeyEvent) (context : Context) (now : Nat) : Keys × KeyStep :=
  let dead := decide (context = .dead)
  match state with
  | .normal =>
    if context = .copying then
      if event.ctrl = some 'a' then ({ keys with state := .prefixed, mode := .pane }, .act .leaveCopy)
      else (keys, .act (.copyKey event))
    else
      match keys.mode with
      | .resize => keys.resize event
      | .sidebarResize _ => keys.resize event
      | _ => keys.normal event dead
  | .prefixed => keys.prefixed event now
  | .repeat _ =>
    match repeatable event with
    | some command => keys.again command now
    | none => keys.normal event dead
  | .help => (keys, .swallow)
  | .rename of text => keys.«renaming» of text event
  | .confirm kill => (keys, if event.character = some 'y' then .act (.kill kill) else .swallow)
  | .chooser pane => keys.choosing pane event dead

def feed (keys : Keys) (event : KeyEvent) (context : Context) (now : Nat) : Keys × KeyStep :=
  let keys := keys.expire now
  if event.kind = .release then
    if event.name ∈ keys.consumed then ({ keys with consumed := keys.consumed.erase event.name }, .swallow)
    else if keys.state = .normal ∧ keys.mode = .pane ∧ context ≠ .copying then (keys, .pane event)
    else (keys, .swallow)
  else
    let (after, step) := pressed { keys with state := .normal } keys.state event context now
    match step with
    | .pane _ => ({ after with consumed := after.consumed.erase event.name }, step)
    | _ =>
      if event.name ∈ keys.consumed then (after, step)
      else ({ after with consumed := after.consumed ++ [event.name] }, step)

end Keys

end Kido.Tui
