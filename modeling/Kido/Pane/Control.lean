import Kido.Shared.Action
import Kido.Wire.Decode
import Kido.Wire.Frames

set_option autoImplicit false

namespace Kido.Dispatching

open Kido.Shared Kido.Framing

inductive Halt
  | requested
  | failed
  -- The run is seen up to a point where the pane still waits or still works.
  | unfinished
  deriving DecidableEq

structure Pane where
  input : Frames
  deferred : Frames
  full : Bool
  stopping : Bool
  live : Bool
  dead : Bool
  -- The bytes that have come, and the frames that were dispatched: what is told of a run.
  came : Bytes
  handled : List Bytes

abbrev Act := Action Halt Pane

namespace Pane

def start : Pane := ⟨.default, .default, false, false, false, false, [], []⟩

end Pane

-- What one read of the socket until it has no more bytes finds.
structure Reading where
  pieces : List Piece
  closed : Bool

-- What a wait for room sees: the room in the ring, and then what the poll says.
structure Look where
  room : Nat
  failed : Bool
  signaled : Bool
  input : Option Reading

def kind? (frame : Bytes) : Option Kind := frame[4]? >>= Kind.ofCode

def fill (reading : Reading) : Act Bool := fun pane =>
  match pane.input.fill reading.pieces reading.closed with
  | none => (.error .failed, pane)
  | some (eof, input) => (.ok eof, { pane with input, came := pane.came ++ bytesOf reading.pieces })

def defers (pane : Pane) : Except Halt Unit × Pane :=
  match _ : pane.input.next with
  | .error _ => (.error .failed, pane)
  | .ok none => (.ok (), pane)
  | .ok (some (range, input)) =>
    let frame := input.frame range
    match kind? frame with
    | some .exit => defers { pane with input, stopping := true }
    | some .tail =>
      match decodeRequest frame with
      | .ok .tail => defers { pane with input, full := false }
      | _ => (.error .failed, { pane with input })
    | _ => defers { pane with input, deferred := pane.deferred.push frame }
termination_by pane.input.rest.length
decreasing_by all_goals exact Frames.next_shorter ‹_›

def compact : Act Unit := Action.modify fun pane => { pane with input := pane.input.compact }

def stops (stop : Bool) : Act Unit := Action.modify fun pane => { pane with stopping := pane.stopping || stop }

def nestedControl (reading : Reading) : Act Unit := do
  let eof ← fill reading
  defers
  compact
  stops eof

def announceFull : Act Unit := Action.modify fun pane => { pane with full := true }

def failsIf (fails : Bool) : Act Unit := if fails then Action.halt .failed else pure ()

def pollOnce (look : Look) : Act (Option Reading) := do
  failsIf look.failed
  stops look.signaled
  return look.input

-- Waits until the ring has so much room: the room is looked at first, and again after each poll.
def waitSpace (minimum : Nat) : List Look → Act Unit
  | [] => Action.halt .unfinished
  | look :: looks => do
    let pane ← Action.get
    if look.room < minimum ∧ pane.stopping = false then do
      announceFull
      match (← pollOnce look) with
      | some reading => do
        nestedControl reading
        waitSpace minimum looks
      | none => waitSpace minimum looks
    else if pane.stopping then Action.halt .requested
    else pure ()

end Kido.Dispatching

namespace Kido.Dispatching

open Kido.Shared Kido.Framing

def resizeLen : Nat := 9
def deadLen : Nat := 17
def sliceHeader : Nat := 2

-- How the handling of one frame goes: the waits for room before its slices, the last wait, and how it ends.
structure Handling where
  slices : List (List Look)
  last : List Look
  fails : Bool
  stops : Bool

def note (frame : Bytes) : Act Unit := Action.modify fun pane => { pane with handled := pane.handled ++ [frame] }

def needsLive : Act Unit := do
  let pane ← Action.get
  failsIf !pane.live

def init (handling : Handling) : Act Unit := do
  failsIf handling.fails
  stops handling.stops
  Action.modify fun pane => { pane with live := true }

def resize (handling : Handling) : Act Unit := do
  needsLive
  waitSpace resizeLen handling.last
  failsIf handling.fails
  stops handling.stops

def emit : List (List Look) → Act Unit
  | [] => pure ()
  | looks :: later => do
    waitSpace (sliceHeader + 1) looks
    emit later

def snapshot (handling : Handling) : Act Unit := do
  needsLive
  emit handling.slices
  failsIf handling.fails
  waitSpace sliceHeader handling.last
  stops handling.stops

def simple (request : Request) (handling : Handling) : Act Unit := do
  needsLive
  match request with
  | .tail => Action.modify fun pane => { pane with full := false }
  | .exit => stops true
  | .init _ | .resize _ | .snapshot _ _ => Action.halt .failed
  | _ => do
    failsIf handling.fails
    stops handling.stops

def dispatch (frame : Bytes) (handling : Handling) : Act Unit := do
  note frame
  match decodeRequest frame with
  | .error _ => Action.halt .failed
  | .ok (.init _) => do
    let pane ← Action.get
    failsIf pane.live
    init handling
  | .ok (.resize _) => resize handling
  | .ok (.snapshot _ _) => snapshot handling
  | .ok request => simple request handling

-- Those that are not dispatched where they may wait go to `simple`.
def dispatchSimple (frame : Bytes) (handling : Handling) : Act Unit := do
  note frame
  match decodeRequest frame with
  | .error _ => Action.halt .failed
  | .ok request => simple request handling

def started (frame : Bytes) : Act Unit := do
  note frame
  Action.halt .unfinished

def routed (frame : Bytes) : Option Handling → Act Unit
  | none => started frame
  | some handling =>
    if kind? frame ∈ [some Kind.init, some .resize, some .snapshot] then dispatch frame handling
    else dispatchSimple frame handling

def route (handling : Option Handling) : Act Bool := do
  let pane ← Action.get
  match pane.input.next with
  | .error _ => Action.halt .failed
  | .ok none => return false
  | .ok (some (range, input)) => do
    Action.modify fun pane => { pane with input }
    routed (input.frame range) handling
    return true

-- The loop of `control` over `route`, with the handlings of its frames.
def routes : List Handling → Act Unit
  | [] => do
    let _ ← route none
    return ()
  | handling :: later => do
    if (← route (some handling)) then routes later else return ()

def ran (frame : Bytes) : Option Handling → Act Unit
  | none => started frame
  | some handling => dispatch frame handling

def runNext (pending : Frames) (handling : Option Handling) : Act (Option Frames) :=
  match pending.next with
  | .error _ => Action.halt .failed
  | .ok none => return none
  | .ok (some (range, after)) => do
    ran (after.frame range) handling
    return some after

def runPending (pending : Frames) : List Handling → Act Unit
  | [] => do
    let _ ← runNext pending none
    return ()
  | handling :: later => do
    match (← runNext pending (some handling)) with
    | none => return ()
    | some pending => runPending pending later

def runDeferred (handlings : List Handling) : Act Unit := do
  let pane ← Action.get
  Action.modify fun pane => { pane with deferred := .default }
  runPending pane.deferred handlings

def runsDeferred : List (List Handling) → Act Unit
  | [] => do
    let pane ← Action.get
    if pane.deferred.isEmpty then return () else Action.halt .unfinished
  | handlings :: later => do
    let pane ← Action.get
    if pane.deferred.isEmpty then return ()
    else do
      runDeferred handlings
      runsDeferred later

structure Controlled where
  reading : Reading
  routed : List Handling
  deferred : List (List Handling)

def control (controlled : Controlled) : Act Unit := do
  let eof ← fill controlled.reading
  routes controlled.routed
  compact
  runsDeferred controlled.deferred
  stops eof

def dead (death : Option (List Look)) : Act Unit := do
  let pane ← Action.get
  match death with
  | some looks =>
    if pane.live ∧ pane.dead = false then do
      waitSpace deadLen looks
      Action.modify fun pane => { pane with dead := true }
    else return ()
  | none => return ()

-- One turn of the loop: what the socket has, if it is ready; whether a signal or a refused record stops the pane; the
-- wait of the marker, where the program has ended and its output too; and whether the output can be written.
structure Turn where
  control : Option Controlled
  stops : Bool
  death : Option (List Look)
  fails : Bool

def ready : Option Controlled → Act Unit
  | some controlled => control controlled
  | none => return ()

def controls (turn : Turn) : Act Unit := do
  let pane ← Action.get
  if pane.stopping then Action.halt .requested
  else do
    ready turn.control
    stops turn.stops

def turn (turn : Turn) : Act Unit := do
  controls turn
  dead turn.death
  failsIf turn.fails

def turns : List Turn → Act Unit
  | [] => return ()
  | first :: later => do
    turn first
    turns later

end Kido.Dispatching
