import Kido.Asks.World
import Kido.Clipboard.Pack
import Kido.Shared.Run
import Kido.Shared.SwapRemove
import Mathlib.Logic.Function.Basic

set_option autoImplicit false

namespace Kido.Clipboards

open Kido.Shared Kido.Framing

abbrev PaneId := Asking.PaneId
abbrev ClientId := Nat

def Req.ofSerial (serial : Nat) : Req := ⟨UInt32.ofNat serial⟩

structure Viewer where
  client : ClientId
  focused : Bool
  onPane : Bool

namespace Viewer

-- The order of the keys `(focused && on_pane, focused, client)`.
def least (first second : Viewer) : Bool :=
  match compare (first.focused && first.onPane) (second.focused && second.onPane) with
  | .lt => true
  | .gt => false
  | .eq =>
    match compare first.focused second.focused with
    | .lt => true
    | .gt => false
    | .eq => decide (first.client ≤ second.client)

end Viewer

def answerer (viewers : List Viewer) : Option ClientId :=
  (viewers.foldl (fun best viewer =>
    match best with
    | some other => if other.least viewer then some viewer else some other
    | none => some viewer) none).map Viewer.client

structure Notes where
  reads : List (Nat × Nat)
  nextRead : Nat
  handles : Nat

namespace Notes

def maxOpenReads : Nat := 16

def clipboardRead (notes : Notes) : Option Nat × Notes :=
  if maxOpenReads ≤ notes.reads.length then (none, notes)
  else (some notes.nextRead,
    ⟨notes.reads ++ [(notes.nextRead, notes.handles)], (notes.nextRead + 1) % 2 ^ 64, notes.handles + 1⟩)

def complete (notes : Notes) (id : Nat) : Option Nat × Notes :=
  match takeFirst (fun read => decide (read.1 = id)) notes.reads with
  | some (read, rest) => (some read.2, { notes with reads := rest })
  | none => (none, notes)

end Notes

structure Requests where
  open_ : List (Req × Nat)
  next : Nat

namespace Requests

def opened (requests : Requests) (read : Nat) : Req × Requests :=
  (Req.ofSerial requests.next, ⟨requests.open_ ++ [(Req.ofSerial requests.next, read)], (requests.next + 1) % 2 ^ 64⟩)

def close (requests : Requests) (req : Req) : Option Nat × Requests :=
  match takeFirst (fun request => decide (request.1 = req)) requests.open_ with
  | some (request, rest) => (some request.2, { requests with open_ := rest })
  | none => (none, requests)

end Requests

-- A read on its way, and which of the terminal's it is: nothing looks at that.
structure Ask where
  req : Req
  handle : Nat

structure Frame where
  bytes : Bytes
  handle : Nat

-- The server's process of a pane, the pane process and what is between them: the frames that the pane process sent, the
-- events that the server made of some and has not dispatched, and the frames that it sent.
structure Pane where
  isOpen : Bool
  notes : Notes
  requests : Requests
  up : List Ask
  events : List Ask
  down : List Frame

def Pane.new : Pane := ⟨true, ⟨[], 0, 0⟩, ⟨[], 0⟩, [], [], []⟩

structure Read where
  id : Nat
  pane : PaneId
  req : Req
  client : ClientId
  timer : Nat
  -- The terminal's read that it is for: nothing looks at that.
  handle : Nat

structure Reads where
  open_ : List Read
  next : Nat

namespace Reads

def opened (reads : Reads) (timer : Nat) (pane : PaneId) (ask : Ask) (client : ClientId) : Nat × Reads :=
  (reads.next, ⟨reads.open_ ++ [⟨reads.next, pane, ask.req, client, timer, ask.handle⟩], min (reads.next + 1) (2 ^ 64 - 1)⟩)

def taken (reads : Reads) (fits : Read → Bool) : Option Read × Reads :=
  match takeFirst fits reads.open_ with
  | some (read, rest) => (some read, { reads with open_ := rest })
  | none => (none, reads)

def answered (reads : Reads) (id : Nat) (client : ClientId) : Option Read × Reads :=
  reads.taken fun read => decide (read.id = id ∧ read.client = client)

def due (reads : Reads) (timer : Nat) : Option Read × Reads := reads.taken fun read => decide (read.timer = timer)

def dropWhere (reads : Reads) (matching : Read → Bool) : List Read × Reads :=
  ((takeEach matching reads.open_).1, { reads with open_ := (takeEach matching reads.open_).2 })

end Reads

-- What happened to a read of a terminal: the server took its frame, a client was asked, the answer was sent (with the
-- client that it is from and what that client served), and a read of the terminal was completed with it.
inductive Fact where
  | taken (req : Req)
  | asked (req : Req) (client : ClientId) (id : Nat)
  | answered (req : Req) (source : Option (ClientId × Nat × Option ClipboardServed)) (served : Option Served)
  | completed (handle : Nat) (served : Option Served)

structure Entry where
  pane : PaneId
  handle : Nat
  fact : Fact

structure World where
  panes : PaneId → Pane
  clipboard : Reads
  timers : Nat
  log : List Entry

namespace World

def start : World := ⟨fun _ => .new, ⟨[], 0⟩, 0, []⟩

def withPane (world : World) (pane : PaneId) (changed : Pane) : World :=
  { world with panes := Function.update world.panes pane changed }

def note (world : World) (pane : PaneId) (handle : Nat) (fact : Fact) : World :=
  { world with log := world.log ++ [⟨pane, handle, fact⟩] }

def close (world : World) (pane : PaneId) : World :=
  world.withPane pane { world.panes pane with isOpen := false }

def packed (source : Option (ClientId × Nat × Option ClipboardServed)) : Option Served :=
  (source.bind fun source => source.2.2).bind ClipboardServed.packed

def sends (world : World) (pane : PaneId) (frame : Frame) : World :=
  world.withPane pane { world.panes pane with down := (world.panes pane).down ++ [frame] }

def clipboardAnswer (world : World) (pane : PaneId) (req : Req) (handle : Nat)
    (source : Option (ClientId × Nat × Option ClipboardServed)) (fails : Bool) : World :=
  if (world.panes pane).isOpen then
    match encode (.clipboardAnswer req (packed source)) [] with
    | (.ok (), bytes) =>
      let sent := (world.sends pane ⟨bytes, handle⟩).note pane handle (.answered req source (packed source))
      if fails then sent.close pane else sent
    | (.error _, _) => world
  else world

def clipboardRefuse (world : World) (pane : PaneId) (req : Req) (handle : Nat) (fails : Bool) : World :=
  world.clipboardAnswer pane req handle none fails

def clipboardRead (world : World) (pane : PaneId) (ask : Ask) (viewers : List Viewer) (fails : Bool) : World :=
  match answerer viewers with
  | none => world.clipboardRefuse pane ask.req ask.handle fails
  | some client =>
    let (id, reads) := world.clipboard.opened world.timers pane ask client
    { world with clipboard := reads, timers := world.timers + 1 }.note pane ask.handle (.asked ask.req client id)

def clipboardAnswered (world : World) (client : ClientId) (id : Nat) (served : Option ClipboardServed) (fails : Bool) : World :=
  match world.clipboard.answered id client with
  | (some read, reads) =>
    { world with clipboard := reads }.clipboardAnswer read.pane read.req read.handle (some (client, id, served)) fails
  | (none, _) => world

def clipboardDue (world : World) (timer : Nat) (fails : Bool) : World :=
  match world.clipboard.due timer with
  | (some read, reads) => { world with clipboard := reads }.clipboardRefuse read.pane read.req read.handle fails
  | (none, _) => world

def refuseEach (fails : Read → Bool) (dropped : List Read) (world : World) : World :=
  dropped.foldl (fun world read => world.clipboardRefuse read.pane read.req read.handle (fails read)) world

def clipboardForget (world : World) (matching : Read → Bool) (fails : Read → Bool) : World :=
  refuseEach fails (world.clipboard.dropWhere matching).1 { world with clipboard := (world.clipboard.dropWhere matching).2 }

def stopPane (world : World) (pane : PaneId) : World :=
  { world with clipboard := (world.clipboard.dropWhere fun read => decide (read.pane = pane)).2 }.close pane

def programReads (world : World) (pane : PaneId) : World :=
  let proc := world.panes pane
  match proc.notes.clipboardRead with
  | (some read, notes) =>
    let (req, requests) := proc.requests.opened read
    world.withPane pane { proc with
      notes := notes
      requests := requests
      up := proc.up ++ [⟨req, proc.notes.handles⟩] }
  | (none, _) => world

def takes (world : World) (pane : PaneId) : World :=
  let proc := world.panes pane
  match proc.isOpen, proc.up with
  | true, ask :: rest =>
    (world.withPane pane { proc with up := rest, events := proc.events ++ [ask] }).note pane ask.handle (.taken ask.req)
  | _, _ => world

def dispatches (world : World) (pane : PaneId) (viewers : List Viewer) (fails : Bool) : World :=
  let proc := world.panes pane
  match proc.events with
  | ask :: rest => (world.withPane pane { proc with events := rest }).clipboardRead pane ask viewers fails
  | [] => world

def delivers (world : World) (pane : PaneId) : World :=
  let proc := world.panes pane
  match proc.down with
  | frame :: rest =>
    let left := { proc with down := rest }
    match decodeRequest frame.bytes with
    | .ok (.clipboardAnswer req served) =>
      match proc.requests.close req with
      | (some read, requests) =>
        match proc.notes.complete read with
        | (some handle, notes) =>
          (world.withPane pane { left with requests := requests, notes := notes }).note pane frame.handle
            (.completed handle served)
        | (none, _) => world.withPane pane { left with requests := requests }
      | (none, _) => world.withPane pane left
    | _ => world.withPane pane left
  | [] => world

end World

inductive Op where
  | programReads (pane : PaneId)
  | takes (pane : PaneId)
  | dispatches (pane : PaneId) (viewers : List Viewer) (fails : Bool)
  | answer (client : ClientId) (id : Nat) (served : Option ClipboardServed) (fails : Bool)
  | due (timer : Nat) (fails : Bool)
  | clientClosed (client : ClientId) (fails : Read → Bool)
  | stopPane (pane : PaneId)
  | close (pane : PaneId)
  | delivers (pane : PaneId)

def World.step (world : World) : Op → World
  | .programReads pane => world.programReads pane
  | .takes pane => world.takes pane
  | .dispatches pane viewers fails => world.dispatches pane viewers fails
  | .answer client id served fails => world.clipboardAnswered client id served fails
  | .due timer fails => world.clipboardDue timer fails
  | .clientClosed client fails => world.clipboardForget (fun read => decide (read.client = client)) fails
  | .stopPane pane => world.stopPane pane
  | .close pane => world.close pane
  | .delivers pane => world.delivers pane

end Kido.Clipboards
