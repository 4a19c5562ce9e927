import Kido.Conn.Waiting

set_option autoImplicit false

namespace Kido.Sending

open Kido.Shared
open Kido.Tiling (u64Max)

-- Instants are in milliseconds.
def pingInterval : Nat := 30000

def pongWithin : Nat := 10000

def stallWithin : Nat := 10000

inductive Life where
  | opened
  | draining
  | shut
deriving DecidableEq

def World.life (world : World) : Life :=
  if world.output.shut then .shut else if world.queue.isSealed then .draining else .opened

inductive Cause where
  | stalled
  | pingTimeout
  | io
deriving DecidableEq

inductive Ping where
  | after (left : Nat)
  | expired (cause : Option Cause)
deriving DecidableEq

inductive Awaiting where
  | pong (sent : Nat)
  | reads
deriving DecidableEq

structure Ws where
  nextPing : Nat
  ping : Option Awaiting
  accepted : Nat
  blocked : Option Nat

-- What the websocket writes for a ping and how that goes: `none` where it refuses; and what it writes to close.
structure Answers where
  write : Option (Bytes × Disk)
  turns : List Turn
  close : Bytes
  closeTurns : List Turn

namespace Ws

def new (now : Nat) : Ws := ⟨now + pingInterval, none, 0, none⟩

-- The pong deadline restarts while the output progresses, because a ping waits behind the queued messages.
def stall (ws : Ws) (world : World) (now : Nat) : Option Nat × Ws :=
  let moved := decide (world.output.accepted ≠ ws.accepted)
  let ping :=
    match ws.ping with
    | some (.pong sent) => some (.pong (if moved then now else sent))
    | other => other
  let ws := { ws with accepted := world.output.accepted, ping := ping }
  if moved || !world.waiting then (none, { ws with blocked := none })
  else
    let since := ws.blocked.getD now
    (some (since + stallWithin - now), { ws with blocked := some since })

def readsChanged (ws : Ws) (reads : Bool) (now : Nat) : Ws :=
  { ws with
    ping :=
      match ws.ping, reads with
      | some _, false => some .reads
      | some .reads, true => some (.pong now)
      | pending, _ => pending }

def overdue (ws : Ws) (now : Nat) : Bool :=
  match ws.ping with
  | some (.pong sent) => decide (pongWithin ≤ now - sent)
  | _ => false

def left (ws : Ws) (stall : Option Nat) (now : Nat) (reads : Bool) : Nat :=
  let ping := ws.nextPing - now
  let pong :=
    match ws.ping with
    | some (.pong sent) => if reads then min ping (pongWithin - (now - sent)) else ping
    | _ => ping
  match stall with
  | some stall => min pong stall
  | none => pong

end Ws

-- A ping is queued, and the output flushed; what the flush takes is counted here.
def sendPing (ws : Ws) (world : World) (stall : Option Nat) (now : Nat) (reads : Bool) (answers : Answers) : Ws × World × Ping :=
  match answers.write with
  | none => (ws, world.step .shut, .expired (some .io))
  | some (bytes, disk) =>
    let written := world.step (.write bytes disk)
    if (world.queue.push [bytes] .cap disk).1 then
      let asked := { ws with
        nextPing := now + pingInterval
        ping := ws.ping.or (some (if reads then .pong now else .reads)) }
      let flushed := written.step (.flush answers.turns)
      let ws := { asked with accepted := flushed.output.accepted }
      if flushed.output.shut then (ws, flushed, .expired none) else (ws, flushed, .after (ws.left stall now reads))
    else if written.life = .draining then (ws, written, .after (stall.getD stallWithin))
    else (ws, written.step .shut, .expired (some .io))

def ping (ws : Ws) (world : World) (now : Nat) (reads : Bool) (answers : Answers) : Ws × World × Ping :=
  let (stall, ws) := ws.stall world now
  if stall = some 0 then (ws, world.step .shut, .expired (some .stalled))
  else
    match world.life with
    | .shut => (ws, world, .expired none)
    | .draining => (ws, world, .after (stall.getD stallWithin))
    | .opened =>
      if reads && ws.overdue now then
        (ws, (world.step (.finish answers.close answers.closeTurns)).step .shut, .expired (some .pingTimeout))
      else if ws.nextPing ≤ now then sendPing ws world stall now reads answers
      else (ws, world, .after (ws.left stall now reads))

def exchange (ws : Ws) (world : World) (writes : List (Bytes × Disk)) (pong close : Bool) (turns : List Turn) : Ws × World :=
  if world.isOpen then
    let written := writes.foldl (fun world write => world.step (.write write.1 write.2)) world
    let flushed := written.step (.flush turns)
    ({ ws with ping := if pong then none else ws.ping }, if close then flushed.step .close else flushed)
  else (ws, world)

inductive Deed where
  | output (op : Op)
  | exchange (writes : List (Bytes × Disk)) (pong close : Bool) (turns : List Turn)
  | reads (on : Bool)
  | ping (reads : Bool) (answers : Answers)

inductive Note where
  | asked
  | answered
  | other
deriving DecidableEq

structure Moment where
  time : Nat
  world : World
  reads : Bool
  note : Note

-- A link, whether reads were on when they were told last, and its history, of which the last moment comes first.
structure Link where
  ws : Ws
  world : World
  reads : Bool
  now : Nat
  past : List Moment
  -- A writable event found nothing to send, and the socket took nothing since.
  vacant : Bool

namespace Link

def begin_ (now : Nat) (world : World) : Link := ⟨.new now, world, true, now, [⟨now, world, true, .other⟩], false⟩

def did (link : Link) (time : Nat) : Deed → Ws × World × Bool × Note
  | .output op => (link.ws, link.world.step op, link.reads, .other)
  | .exchange writes pong close turns =>
    let (ws, world) := Sending.exchange link.ws link.world writes pong close turns
    (ws, world, link.reads, if link.world.isOpen && pong then .answered else .other)
  | .reads on => (link.ws.readsChanged on time, link.world, on, .other)
  | .ping reads answers =>
    let (ws, world, _) := Sending.ping link.ws link.world time reads answers
    (ws, world, link.reads, if ws.nextPing ≠ link.ws.nextPing then .asked else .other)

def wasTold (_ : Link) (world : World) : Deed → Bool
  | .output (.writable _) => !world.waiting
  | _ => false

def step (link : Link) (time : Nat) (deed : Deed) : Link :=
  let (ws, world, reads, note) := link.did time deed
  ⟨ws, world, reads, time, ⟨time, world, reads, note⟩ :: link.past,
    decide (world.wire.length = link.world.wire.length) && (link.vacant || link.wasTold world deed)⟩

end Link

end Kido.Sending
