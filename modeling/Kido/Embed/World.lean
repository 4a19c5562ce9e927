import Kido.Mirror.Terminal
import Kido.Shared.Run
import Mathlib.Algebra.Order.Ring.Nat

set_option autoImplicit false

namespace Kido.Embedded

open Kido.Shared Kido.Mirrors Kido.Framing

def highWater : Nat := 4 * 2 ^ 20

def lowWater : Nat := 2 ^ 20

def feedBatch : Nat := 64 * 2 ^ 10

def queuedLimit : Nat := 4 * 2 ^ 20

inductive Restored where
  | ok
  | rejected
  | historyIncomplete
deriving DecidableEq

def Restored.of : Int → Restored
  | 0 => .ok
  | 2 => .historyIncomplete
  | _ => .rejected

-- The slices of a snapshot that the app has not read.
structure Stream where
  queue : List (List UInt8)
  pending : Nat
  last : Bool
  cancelled : Bool

namespace Stream

def fresh : Stream := ⟨[], 0, false, false⟩

def push (stream : Stream) (body : List UInt8) (last : Bool) : Stream :=
  if stream.cancelled then stream
  else ⟨stream.queue ++ [body], stream.pending + body.length, stream.last || last, false⟩

def cancel (stream : Stream) : Stream := { stream with cancelled := true }

-- Some bytes are read, if there are any; nothing is read of a stream that is cancelled.
def read (stream : Stream) (room : Nat) : List UInt8 × Stream :=
  if stream.cancelled then ([], stream)
  else
    match stream.queue with
    | [] => ([], stream)
    | front :: rest =>
      let taken := front.take room
      let left := front.drop room
      (taken, { stream with
        queue := if left = [] then rest else left :: rest,
        pending := stream.pending - taken.length })

end Stream

structure Job where
  generation : Nat
  history : Bool
  continuation : Nat
  offset : Nat
deriving DecidableEq

inductive Feed where
  | bytes (offset : Nat) (data : List UInt8)
  | marker (offset : Nat) (marker : Marker)
deriving DecidableEq

inductive Work where
  | snapshot (job : Job)
  | feed (feed : Feed)
deriving DecidableEq

-- What the network thread and the decoder share. A stream is known by the generation of its snapshot.
structure View where
  generation : Nat
  work : List Work
  current : Option Nat
  skipping : Bool
  resume : Option Nat
  queued : Nat
  closed : Bool
  pause : Bool
  options : History
  streams : Nat → Stream

structure Header where
  first : Bool
  last : Bool
  history : Bool
  offset : Nat
  continuation : Nat

def stopOf (offset count : Nat) : Nat := min (offset + count) (u64 - 1)

namespace View

def start (options : History) : View := ⟨0, [], none, false, none, 0, false, false, options, fun _ => .fresh⟩

variable (view : View)

def withStream (generation : Nat) (change : Stream → Stream) : View :=
  { view with streams := fun other => if other = generation then change (view.streams other) else view.streams other }

def cancelCurrent : View :=
  match view.current with
  | none => view
  | some generation => { view.withStream generation .cancel with current := none }

def begun (header : Header) : View :=
  let cleared := view.cancelCurrent
  let generation := cleared.generation + 1
  { cleared with
    generation := generation,
    work := [.snapshot ⟨generation, header.history, header.continuation, header.offset⟩],
    current := some generation,
    resume := none,
    queued := 0,
    pause := false }.withStream generation fun _ => .fresh

-- The slice is pushed to the current stream; without one it is an error.
def slice (header : Header) (body : List UInt8) : View × Bool :=
  let begun := if header.first then view.begun header else view
  match begun.current with
  | none => (begun, false)
  | some generation =>
    let pushed := begun.withStream generation (·.push body header.last)
    ({ pushed with
        pause := pushed.pause ||
          (!(begun.streams generation).cancelled && decide (highWater ≤ (pushed.streams generation).pending)) },
      true)

def feed (feed : Feed) : View :=
  let queued :=
    match feed with
    | .bytes _ data => view.queued + data.length
    | .marker _ _ => view.queued
  let full :=
    match feed with
    | .bytes _ _ => decide (queuedLimit ≤ queued)
    | .marker _ _ => false
  { view with queued := queued, pause := view.pause || full, work := view.work ++ [.feed feed] }

def abandon : View :=
  { view.cancelCurrent with work := [], queued := 0, generation := view.cancelCurrent.generation + 1, skipping := false, pause := false }

def shut : View := { view with closed := true }.abandon

-- The records at the front of the queue that go on where the bytes end, as far as they fit in a batch.
def gather : Nat → Nat → List Work → List UInt8 × List Work
  | stop, count, .feed (.bytes next more) :: rest =>
    if next ≠ stop ∨ feedBatch < count + more.length then ([], .feed (.bytes next more) :: rest)
    else
      let (data, left) := gather (stopOf stop more.length) (count + more.length) rest
      (more ++ data, left)
  | _, _, work => ([], work)

def read (generation room : Nat) : List UInt8 × View :=
  let (taken, left) := (view.streams generation).read room
  let read := view.withStream generation fun _ => left
  (taken, if taken ≠ [] ∧ left.pending < lowWater then { read with pause := false } else read)

def settle (offset : Nat) (count : Nat) : View :=
  let queued := view.queued - count
  { view with
    queued := queued,
    resume := if !view.skipping ∧ 0 < count then view.resume.map fun _ => stopOf offset count else view.resume,
    pause := if queued < lowWater then false else view.pause }

def restored (job : Job) (result : Restored) : View :=
  let cancelled := view.withStream job.generation .cancel
  if cancelled.generation ≠ job.generation ∨ cancelled.closed then cancelled
  else
    { cancelled with
      skipping := decide (result ≠ .ok),
      resume := if result = .ok ∧ job.history then some job.offset else none,
      options := if result = .historyIncomplete then .all else cancelled.options }

end View

end Kido.Embedded

namespace Kido.Embedded

open Kido.Shared Kido.Mirrors Kido.Framing

inductive FeedItem where
  | bytes (offset : Nat) (data : List UInt8)
  | resize (offset : Nat) (cols rows : UInt16)
  | other (offset : Nat)
deriving DecidableEq

def Feed.item (data : List UInt8) : Feed → FeedItem
  | .bytes offset _ => .bytes offset data
  | .marker offset (.resize size) => .resize offset size.cols.value size.rows.value
  | .marker offset (.dead _) => .other offset

def Feed.offset : Feed → Nat
  | .bytes offset _ => offset
  | .marker offset _ => offset

-- The decoder thread: between two critical sections, or in a call of the app.
inductive Decoder where
  | idle
  | took (feed : Feed)
  | gathered (feed : Feed) (data : List UInt8)
  | passed (feed : Feed) (data : List UInt8)
  | restoring (job : Job)
  | returned (job : Job) (result : Restored)
deriving DecidableEq

-- One byte of the stream with its offset, or a marker.
inductive Piece where
  | byte (offset : Nat) (value : UInt8)
  | marker (item : FeedItem)
deriving DecidableEq

def bytePieces : Nat → List UInt8 → List Piece
  | _, [] => []
  | offset, value :: rest => .byte offset value :: bytePieces (offset + 1) rest

def FeedItem.pieces : FeedItem → List Piece
  | .bytes offset data => bytePieces offset data
  | item => [.marker item]

def Feed.pieces : Feed → List Piece
  | .bytes offset data => bytePieces offset data
  | .marker offset mark => [.marker (Feed.item [] (.marker offset mark))]

-- What the app has seen: the last snapshot that it was to restore with what it made of it, and what it was given since.
structure App where
  last : Option (Job × Option Restored)
  given : List FeedItem

-- A link that is opened at an offset: what the app has by then, and the feeds that are still to come to it.
structure Opening where
  offset : Nat
  app : App
  coming : List Feed

def Decoder.holds : Decoder → List Feed
  | .took feed | .gathered feed _ | .passed feed _ => [feed]
  | _ => []

def feedsOf (work : List Work) : List Feed :=
  work.filterMap fun work => match work with
    | .feed feed => some feed
    | .snapshot _ => none

def maxOffset : Nat := 2 ^ 62 - 1

-- A view, its decoder and its link, which is open once it is connected. The rest is what the threads have done: where the
-- server's next output begins, the last snapshot, what the server sent after each one, and what the app has seen.
structure World where
  view : View
  decoder : Decoder
  session : Bool
  conn : Option Bool
  announced : Option Nat
  latest : Option Job
  lines : Nat → List Piece
  app : App
  openings : List Opening

inductive Op where
  | join
  | lose
  | openLink (started : Bool)
  | linked
  | drop
  | slice (header : Header) (body : List UInt8)
  | feed (feed : Feed)
  | shut
  | take
  | gather
  | give
  | settle
  | read (room : Nat)
  | restore (code : Int)
  | restored

namespace World

def start (options : History) : World :=
  ⟨.start options, .idle, false, none, none, none, fun _ => [], ⟨none, []⟩, []⟩

variable (world : World)

def reads : Bool := world.conn == some true && !world.view.pause && !world.view.closed

def withLine (job : Job) (line : List Piece) : World :=
  { world with lines := fun generation => if generation = job.generation then line else world.lines generation }

def dropConn : World := { world with view := world.view.abandon, conn := none, announced := none }

def lose : World := { world.dropConn with session := false }

-- A link is opened where the view resumes. The server sends what follows again, so what the app was not given is no longer
-- part of what came after the snapshot.
def openLink (started : Bool) : World :=
  if !world.session || world.conn.isSome || world.view.closed then world
  else if !started then world.lose
  else
    match world.view.resume.filter fun offset => offset ≤ maxOffset with
    | none => { world with conn := some false, announced := none }
    | some offset =>
      let opened := { world with
        conn := some false,
        announced := some offset,
        openings := world.openings ++ [⟨offset, world.app, world.decoder.holds ++ feedsOf world.view.work⟩] }
      match world.latest with
      | none => opened
      | some job => opened.withLine job (world.app.given.flatMap FeedItem.pieces)

def slice (header : Header) (body : List UInt8) : World :=
  if world.reads then
    let sliced := { world with view := (world.view.slice header body).1 }
    if header.first then
      let job := ⟨sliced.view.generation, header.history, header.continuation, header.offset⟩
      { sliced with announced := some header.offset, latest := some job }.withLine job []
    else sliced
  else world

def feed (feed : Feed) : World :=
  if world.reads then
    let fed := { world with
      view := world.view.feed feed,
      announced := match feed with
        | .bytes offset data => some (offset + data.length)
        | .marker _ _ => world.announced }
    match world.latest with
    | none => fed
    | some job => fed.withLine job (world.lines job.generation ++ feed.pieces)
  else world

def take : World :=
  match world.decoder, world.view.closed, world.view.work with
  | .idle, false, .snapshot job :: rest =>
    { world with
      view := { world.view with work := rest, skipping := false },
      decoder := .restoring job,
      app := ⟨some (job, none), []⟩ }
  | .idle, false, .feed feed :: rest => { world with view := { world.view with work := rest }, decoder := .took feed }
  | _, _, _ => world

def gather : World :=
  match world.decoder with
  | .took (.bytes offset data) =>
    let (more, rest) := View.gather (stopOf offset data.length) data.length world.view.work
    { world with view := { world.view with work := rest }, decoder := .gathered (.bytes offset data) (data ++ more) }
  | .took (.marker offset marker) => { world with decoder := .gathered (.marker offset marker) [] }
  | _ => world

-- The app is given the item, unless the view skips or is closed.
def give : World :=
  match world.decoder with
  | .gathered feed data =>
    if !world.view.skipping && !world.view.closed then
      { world with
        decoder := .passed feed data,
        app := { world.app with given := world.app.given ++ [feed.item data] } }
    else { world with decoder := .passed feed data }
  | _ => world

def settle : World :=
  match world.decoder with
  | .passed feed data => { world with view := world.view.settle feed.offset data.length, decoder := .idle }
  | _ => world

def read (room : Nat) : World :=
  match world.decoder with
  | .restoring job => { world with view := (world.view.read job.generation room).2 }
  | _ => world

def restore (code : Int) : World :=
  match world.decoder with
  | .restoring job =>
    { world with decoder := .returned job (.of code), app := { world.app with last := some (job, some (.of code)) } }
  | _ => world

def restored : World :=
  match world.decoder with
  | .returned job result => { world with view := world.view.restored job result, decoder := .idle }
  | _ => world

def step (world : World) : Op → World
  | .join => if world.session then world else { world with session := true }
  | .lose => world.lose
  | .openLink started => world.openLink started
  | .linked => { world with conn := world.conn.map fun _ => true }
  | .drop => world.dropConn
  | .slice header body => world.slice header body
  | .feed feed => world.feed feed
  | .shut => { world with view := world.view.shut, conn := none, announced := none }
  | .take => world.take
  | .gather => world.gather
  | .give => world.give
  | .settle => world.settle
  | .read room => world.read room
  | .restore code => world.restore code
  | .restored => world.restored

end World

-- Bytes that are the pane's output from an offset on, with markers between.
def Follows (stream : Nat → UInt8) : Nat → List Piece → Prop
  | _, [] => True
  | place, .byte offset value :: rest => offset = place ∧ value = stream place ∧ Follows stream (place + 1) rest
  | place, .marker _ :: rest => Follows stream place rest

def reach : Nat → List Piece → Nat
  | place, [] => place
  | place, .byte _ _ :: rest => reach (place + 1) rest
  | place, .marker _ :: rest => reach place rest

-- The server sends nothing on a link before a place is announced or resumed at, and contiguous output from there.
def Sends (stream : Nat → UInt8) (world : World) : Op → Prop
  | .feed feed => world.reads = true → ∃ place, world.announced = some place ∧
      match feed with
      | .bytes offset data => offset = place ∧ Follows stream offset (bytePieces offset data) ∧ offset + data.length < u64
      | .marker _ _ => True
  | _ => True

def Decoder.undecided : Decoder → Bool
  | .took _ | .gathered _ _ => true
  | _ => false

-- A link is opened at an offset only when the decoder has done with what it took; and while the app skips after a restore
-- that failed, the link is not given up between the moment that the decoder takes a feed and the moment that it passes it.
def Finished (world : World) : Op → Prop
  | .openLink started => world.session = true → world.conn = none → started = true → world.view.resume.isSome = true →
      world.decoder.holds = []
  | .drop | .lose => world.view.skipping = true → world.decoder.undecided = false
  | _ => True

end Kido.Embedded
