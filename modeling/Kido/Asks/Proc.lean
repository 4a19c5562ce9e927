import Kido.Wire.Decode
import Kido.Shared.SortedMap
import Mathlib.Data.Nat.Basic

set_option autoImplicit false

namespace Kido.Asking

open Kido.Shared Kido.Framing

theorem low_injective : Function.Injective fun req : Req => req.low.toNat := by
  rintro ⟨first⟩ ⟨second⟩ same
  exact congrArg Req.mk (UInt32.toNat_inj.1 same)

instance : LinearOrder Req where
  le first second := first.low.toNat ≤ second.low.toNat
  le_refl _ := Nat.le_refl _
  le_trans _ _ _ := Nat.le_trans
  le_antisymm _ _ below above := low_injective (Nat.le_antisymm below above)
  le_total _ _ := Nat.le_total _ _
  toDecidableLE first second := inferInstanceAs (Decidable (first.low.toNat ≤ second.low.toNat))
  toDecidableEq := inferInstance

inductive Reply where
  | screen
  | paste
  | image
  | search
deriving DecidableEq

inductive Fault where
  | delivery (text : String)
  | frame (malformed : Malformed)
  | ready
  | closed
  | tooLarge
  | pane (message : Bytes)
  | ended (exit : Exit)

inductive Failing where
  | fault (fault : Fault)
  | removed

inductive Death where
  | told (dead : Dead)
  | failed (fault : Fault)

inductive Event where
  | ready
  | title
  | pwd
  | output
  | dead (death : Death)
  | pasted (req : Req) (pasted unsafePaste : Bool)
  | screen (req : Req) (chunk : Bytes) (last : Bool)
  | image (req : Req) (object : Option ImageObject)
  | found (req : Req) (found : Matches)
  | searchDone (req : Req)
  | failed (req : Req) (why : Failing)
  -- What is passed on as the pane reported it.
  | report (frame : FromPane)

inductive Refusal where
  | ended
  | tooLarge (why : Oversize)

inductive Stage where
  | open_
  | closed
  | reaped
deriving DecidableEq

structure PaneProc where
  stage : Stage
  claimed : Bool
  title : Bytes
  reportedDir : Option Bytes
  dead : Option Death
  pending : SortedMap Req Reply

def PaneProc.new : PaneProc := ⟨.open_, false, [], none, none, .empty⟩

structure Turn where
  proc : PaneProc
  events : List Event

-- What a frame meets: whether the process that it names is the pane's, the faults and the tail of the ring, and whether
-- what is sent meets a socket that fails.
structure Meets where
  verified : Bool
  delivered : Option String
  scanned : Option String
  tail : Pos
  fails : Bool

namespace Turn

def push (turn : Turn) (event : Event) : Turn := { turn with events := turn.events ++ [event] }

def isOpen (turn : Turn) : Bool := decide (turn.proc.stage = .open_)

def die (death : Death) (turn : Turn) : Turn :=
  { turn with proc := { turn.proc with dead := some death } }.push (.dead death)

def close (turn : Turn) : Turn :=
  if turn.isOpen then { turn with proc := { turn.proc with stage := .closed } } else turn

def failPending (why : Failing) (turn : Turn) : Turn :=
  ⟨{ turn.proc with pending := .empty }, turn.events ++ turn.proc.pending.entries.map fun entry => .failed entry.1 why⟩

def failure (fault : Fault) (turn : Turn) : Turn :=
  if turn.isOpen then (turn.close.failPending (.fault fault)).die (.failed fault) else turn

def flush (fails : Bool) (turn : Turn) : Turn := if turn.isOpen && fails then turn.failure .closed else turn

-- `fails` is that the queue was empty and what is written at once fails.
def send (frame : ToPane) (fails : Bool) (turn : Turn) : Except Oversize Unit × Turn :=
  if turn.isOpen then
    match (encode frame []).1 with
    | .error why => (.error why, turn)
    | .ok () => (.ok (), turn.flush fails)
  else (.ok (), turn)

def scan (fault : Option String) (turn : Turn) : Turn :=
  match fault with
  | some text => turn.failure (.delivery text)
  | none => turn

def insert (req : Req) (reply : Reply) (turn : Turn) : Turn :=
  { turn with proc := { turn.proc with pending := turn.proc.pending.insert req reply } }

def erase (req : Req) (turn : Turn) : Turn :=
  { turn with proc := { turn.proc with pending := turn.proc.pending.erase req } }

def pending? (turn : Turn) (req : Req) : Option Reply := turn.proc.pending.find? req

def delivered (meets : Meets) (turn : Turn) (after : Turn) : Except Fault Unit × Turn :=
  match meets.delivered with
  | some text => (.error (.delivery text), turn)
  | none => (.ok (), after)

def onFrame (meets : Meets) (bytes : Bytes) (turn : Turn) : Except Fault Unit × Turn :=
  match decode bytes with
  | .error malformed => (.error (.frame malformed), turn)
  | .ok none => (.ok (), turn)
  | .ok (some frame) =>
    match frame with
    | .ready _ =>
      if turn.proc.claimed = false ∧ meets.verified then
        (.ok (), { turn with proc := { turn.proc with claimed := true } }.push .ready)
      else (.error .ready, turn)
    | .title title =>
      (.ok (), if turn.proc.title = title then turn else { turn with proc := { turn.proc with title := title } }.push .title)
    | .pwd cwd =>
      (.ok (), if turn.proc.reportedDir = some cwd then turn
        else { turn with proc := { turn.proc with reportedDir := some cwd } }.push .pwd)
    | .head _ => (.ok (), turn.push .output)
    | .dead dead => (.ok (), turn.die (.told dead))
    | .full _ => (.ok (), (((turn.scan meets.scanned).send (.tail meets.tail) meets.fails).2).push .output)
    | .snapshotDone _ => turn.delivered meets turn
    | .pasteDone req pasted unsafePaste =>
      turn.delivered meets
        (if turn.pending? req = some .paste then (turn.erase req).push (.pasted req pasted unsafePaste) else turn)
    | .screen req last text =>
      turn.delivered meets
        (if turn.pending? req = some .screen then (if last then turn.erase req else turn).push (.screen req text last)
        else turn)
    | .error message => (.error (.pane message), turn)
    -- These two take the request off the table whatever it waits for.
    | .image req object =>
      (.ok (), if turn.pending? req = some .image then (turn.erase req).push (.image req object) else turn.erase req)
    | .searchDone req =>
      (.ok (), if turn.pending? req = some .search then (turn.erase req).push (.searchDone req) else turn.erase req)
    | .matches req found =>
      (.ok (), if turn.pending? req = some .search then turn.push (.found req found) else turn)
    | frame => (.ok (), turn.push (.report frame))

def ask (reply : Reply) (frame : Req → ToPane) (minted : Option Req) (fails : Bool) (turn : Turn) : Option Req × Turn :=
  match minted.filter fun _ => turn.isOpen with
  | none => (none, turn)
  | some req => (some req, ((turn.insert req reply).send (frame req) fails).2)

-- `search` and a paste take a request back that is too large to send.
def askSized (reply : Reply) (frame : Req → ToPane) (minted : Option Req) (fails : Bool) (turn : Turn) :
    Except Refusal Req × Turn :=
  match minted.filter fun _ => turn.isOpen with
  | none => (.error .ended, turn)
  | some req =>
    match (turn.insert req reply).send (frame req) fails with
    | (.error why, after) => (.error (.tooLarge why), after.erase req)
    | (.ok (), after) => (.ok req, after)

def screen (format : ScreenFormat) (rows : ScreenRows) := ask .screen fun req => .screen req format rows

def image (key : ImageKey) (name : Bytes) := ask .image fun req => .image req key name

def search (needle : Bytes) := askSized .search fun req => .search req needle

def paste (text : String) (checkSafe : Bool) := askSized .paste fun req => .paste req text checkSafe

def searchCancel (req : Req) (fails : Bool) (turn : Turn) : Turn :=
  if turn.pending? req = some .search then ((turn.erase req).send (.searchCancel req) fails).2 else turn

def shutdown (fails : Bool) (turn : Turn) : Turn :=
  if turn.isOpen then ((turn.send .exit fails).2.close).failPending .removed else turn

end Turn

inductive Waited where
  | running
  | ended (exit : Exit)
  | noChild

namespace Turn

def reaped (turn : Turn) : Turn := { turn with proc := { turn.proc with stage := .reaped } }

def reap (waited : Waited) (turn : Turn) : Turn :=
  if turn.proc.stage = .reaped then turn
  else
    match waited with
    | .running => turn
    | .ended exit => (turn.failure (.ended exit)).close.reaped
    | .noChild => turn.close.reaped

end Turn

-- What may happen to a pane in a call that asks for nothing.
inductive Act where
  | frame (meets : Meets) (bytes : Bytes)
  | failure (fault : Fault)
  | flush (fails : Bool)
  | scan (fault : Option String)
  | send (frame : ToPane) (fails : Bool)
  | reap (waited : Waited)

namespace Turn

def handle (meets : Meets) (bytes : Bytes) (turn : Turn) : Turn :=
  if turn.isOpen then
    match turn.onFrame meets bytes with
    | (.ok (), after) => after
    | (.error fault, after) => after.failure fault
  else turn

def act (turn : Turn) : Act → Turn
  | .frame meets bytes => turn.handle meets bytes
  | .failure fault => turn.failure fault
  | .flush fails => turn.flush fails
  | .scan fault => turn.scan fault
  | .send frame fails => (turn.send frame fails).2
  | .reap waited => turn.reap waited

end Turn

end Kido.Asking
