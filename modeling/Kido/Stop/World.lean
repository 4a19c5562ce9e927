import Kido.Shared.Run
import Kido.Shared.SwapRemove
import Mathlib.Data.List.Basic
import Mathlib.Logic.Function.Basic

set_option autoImplicit false

namespace Kido.Stopping

open Kido.Shared

-- Stops are numbered, and keep when their connection's timer runs out.
structure Stop where
  serial : Nat
  conn : Nat
  pane : Nat
  due : Nat
deriving DecidableEq

inductive Frame where
  -- The loop of `delete` over the panes that it stops, and `settle_stops` behind it.
  | remove (panes : List Nat)
  | settle
  | kill (pane : Nat) (lives : Bool)
  -- The loop of `settle_stops`, and `answer_stop` behind `kill_pane`.
  | answers (stops : List Stop)
  | answer (stop : Stop)
  | kills (panes : List Nat)
deriving DecidableEq

inductive Note where
  | held (stop : Stop)
  | answered (stop : Stop)
  | closed (stop : Stop)
  | left (pane : Nat) (lives : Bool)
  | doomed (pane due : Nat)
  | killed (pane time : Nat)
  | reaped (pane : Nat)
deriving DecidableEq

-- `panes` tells of each whether it lives; `removed` are those that are out and not reaped. The log's last note is its first.
structure World where
  now : Nat
  next : Nat
  serial : Nat
  layout : List Nat
  panes : List (Nat × Bool)
  removed : List Nat
  waits : List Stop
  doomed : List (Nat × Nat)
  armed : Option Nat
  conns : List Nat
  handling : List Nat
  timers : Nat → Option Nat
  frames : List Frame
  log : List Note

inductive Act where
  | create
  | accept (conn : Nat)
  | stop (conn pane wait : Nat)
  | delete (panes : List Nat)
  | kill (panes : List Nat)
  | dies (pane : Nat) (failed : Bool)
  | next
  | timeout (conn : Nat)
  | close (conn : Nat)
  | reap (panes : List Nat)
  | escalate
  | wait (time : Nat)

namespace World

def start : World := ⟨0, 0, 0, [], [], [], [], [], none, [], [], fun _ => none, [], []⟩

def lives (world : World) (pane : Nat) : Bool := decide ((pane, true) ∈ world.panes)

def push (world : World) (frame : Frame) : World := { world with frames := frame :: world.frames }

def under (world : World) (frames : List Frame) : World := { world with frames := frames }

def located (world : World) (panes : List Nat) : List Nat := panes.filter fun pane => decide (pane ∈ world.layout)

def deletePanes (world : World) (panes : List Nat) : World :=
  if world.located panes = [] then world
  else { world with layout := world.layout.filter fun pane => decide (pane ∉ panes) }.push (.remove (world.located panes))

def killPane (world : World) (pane : Nat) : World := (world.push (.kill pane (world.lives pane))).deletePanes [pane]

def removePane (world : World) (pane : Nat) : World :=
  match world.panes.find? fun found => decide (found.1 = pane) with
  | none => world
  | some found =>
    { world with
      panes := world.panes.filter fun other => decide (other.1 ≠ pane)
      removed := world.removed ++ [pane]
      log := .left pane found.2 :: world.log }

def hold (world : World) (conn pane within : Nat) : World :=
  let stop := ⟨world.serial, conn, pane, world.now + within⟩
  { world with
    serial := world.serial + 1
    handling := conn :: world.handling
    timers := Function.update world.timers conn (some stop.due)
    waits := world.waits ++ [stop]
    log := .held stop :: world.log }

def stopRoute (world : World) (conn pane wait : Nat) : World :=
  match world.panes.find? fun found => decide (found.1 = pane) with
  | none => world
  | some found => if found.2 = false ∨ wait = 0 then world.killPane pane else world.hold conn pane wait

def settleStops (world : World) : World :=
  let ended (stop : Stop) : Bool := !world.lives stop.pane
  { world with waits := world.waits.filter fun stop => !ended stop }.push (.answers (world.waits.filter ended))

def answerStop (world : World) (stop : Stop) : World := (world.push (.answer stop)).killPane stop.pane

def finish (world : World) (stop : Stop) : World :=
  if stop.conn ∈ world.conns then
    { world with
      timers := Function.update world.timers stop.conn none
      handling := world.handling.filter fun other => decide (other ≠ stop.conn)
      log := .answered stop :: world.log }
  else world

def stopDue (world : World) (conn : Nat) : World :=
  match takeFirst (fun stop : Stop => decide (stop.conn = conn)) world.waits with
  | none => world
  | some (stop, rest) => { world with timers := Function.update world.timers conn none, waits := rest }.answerStop stop

def forgetStops (world : World) (conn : Nat) : World :=
  let closed := world.waits.filter fun stop => decide (stop.conn = conn)
  { world with
    waits := world.waits.filter fun stop => decide (stop.conn ≠ conn)
    log := closed.map Note.closed ++ world.log }.push (.kills (closed.map Stop.pane))

def nextEscalation (doomed : List (Nat × Nat)) (now : Nat) : Option Nat := (doomed.map fun entry => entry.2 - now).min?

def armEscalation (world : World) : World := { world with armed := (nextEscalation world.doomed world.now).map (world.now + ·) }

def killRemoved (world : World) (pane : Nat) : List Note :=
  (world.removed.filter fun removed => decide (removed = pane)).map fun removed => .killed removed world.now

def escalate (world : World) : World :=
  let due := world.doomed.filter fun entry => decide (entry.2 ≤ world.now)
  { world with
    doomed := world.doomed.filter fun entry => decide (¬ entry.2 ≤ world.now)
    log := due.flatMap (fun entry : Nat × Nat => world.killRemoved entry.1) ++ world.log }.armEscalation

variable (escalation : Nat)

def resume (world : World) : World :=
  match world.frames with
  | [] => world
  | .remove (pane :: panes) :: frames => (world.under (.remove panes :: frames)).removePane pane
  | .remove [] :: frames => (world.under frames).settleStops
  | .settle :: frames => (world.under frames).settleStops
  | .kill pane true :: frames =>
    { world.under frames with
      doomed := world.doomed ++ [(pane, world.now + escalation)]
      log := .doomed pane (world.now + escalation) :: world.log }.armEscalation
  | .kill _ false :: frames => world.under frames
  | .answers (stop :: stops) :: frames => (world.under (.answers stops :: frames)).answerStop stop
  | .answers [] :: frames => world.under frames
  | .answer stop :: frames => (world.under frames).finish stop
  | .kills (pane :: panes) :: frames => (world.under (.kills panes :: frames)).killPane pane
  | .kills [] :: frames => world.under frames

-- Timers, closed connections and reaped programs are handled once no call is left.
def step (world : World) : Act → World
  | .create => { world with next := world.next + 1, layout := world.layout ++ [world.next], panes := world.panes ++ [(world.next, true)] }
  | .accept conn => if conn ∈ world.conns then world else { world with conns := conn :: world.conns }
  | .stop conn pane wait => if conn ∈ world.conns ∧ conn ∉ world.handling then world.stopRoute conn pane wait else world
  | .delete panes => world.deletePanes panes
  | .kill panes => world.push (.kills panes)
  | .dies pane failed =>
    let dead := { world with panes := world.panes.map fun found : Nat × Bool => if found.1 = pane then (pane, false) else found }.push .settle
    if failed then dead.deletePanes [pane] else dead
  | .next => world.resume escalation
  | .timeout conn =>
    match world.frames, world.timers conn with
    | [], some due => if due ≤ world.now then world.stopDue conn else world
    | _, _ => world
  | .close conn =>
    if world.frames = [] then
      { world with
        conns := world.conns.filter fun other => decide (other ≠ conn)
        handling := world.handling.filter fun other => decide (other ≠ conn)
        timers := Function.update world.timers conn none }.forgetStops conn
    else world
  | .reap panes =>
    if world.frames = [] then
      { world with
        removed := world.removed.filter fun pane => decide (pane ∉ panes)
        log := (world.removed.filter fun pane => decide (pane ∈ panes)).map Note.reaped ++ world.log }
    else world
  | .escalate =>
    match world.frames, world.armed with
    | [], some due => if due ≤ world.now then world.escalate else world
    | _, _ => world
  | .wait time => { world with now := world.now + time }

end World

end Kido.Stopping
