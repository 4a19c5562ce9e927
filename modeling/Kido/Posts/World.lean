import Kido.Inbox.Books
import Kido.Shared.Run

set_option autoImplicit false

namespace Kido.Posting

open Kido.Mailing

abbrev PaneId := Tiling.PaneId
abbrev MessageId := String
abbrev Token := Nat
abbrev PaneInbox := Inbox MessageId Token

inductive MessageState where
  | queued
  | delivered
  | acked
deriving DecidableEq

inductive PostError where
  | denied
  | missing
  | dead (pane : PaneId)
  | full
  | lost
  | refusedByReceiver
deriving DecidableEq

structure Posted where
  state : MessageState
  seq : Nat
  duplicate : Bool
deriving DecidableEq

abbrev Answer := Except PostError Posted

instance exceptDecidableEq {ε α : Type} [DecidableEq ε] [DecidableEq α] : DecidableEq (Except ε α)
  | .ok first, .ok second => decidable_of_iff (first = second) (by simp)
  | .error first, .error second => decidable_of_iff (first = second) (by simp)
  | .ok _, .error _ => isFalse (by simp)
  | .error _, .ok _ => isFalse (by simp)

-- A post that is held: `post` counts those that were.
structure Wait where
  post : Nat
  conn : Token
  pane : PaneId
  id : MessageId
  seq : Nat
  duplicate : Bool

def Wait.answered (wait : Wait) (outcome : Except PostError MessageState) : Answer :=
  outcome.map fun state => ⟨state, wait.seq, wait.duplicate⟩

def outcomeOf : Outcome → Except PostError MessageState
  | .acked => .ok .acked
  | .refused => .error .refusedByReceiver

-- A message, and whether its sender may not reach the pane.
structure Post where
  target : PaneId
  id : MessageId
  sender : Sender
  relation : Option Relation
  content : Content
  denied : Bool

-- What happens to panes: a pane starts, its process dies, its end is dispatched, it is removed, and the server tells a
-- parent of the end of a child.
inductive Call where
  | birth (pane : PaneId)
  | die (pane : PaneId)
  | ended (pane : PaneId)
  | remove (pane : PaneId)
  | tell (pane : PaneId) (id : MessageId) (sender : Sender) (relation : Option Relation) (content : Content)

-- What a connection brings: requests, or the frames of a message stream.
inductive Input where
  | post (post : Post)
  | messages (pane : PaneId) (denied : Bool)
  | other (calls : List Call)
  | settle (id : MessageId) (outcome : Outcome)

inductive Phase where
  | head
  | handling
  | stream (pane : PaneId)
deriving DecidableEq

structure Conn where
  token : Token
  phase : Phase
  armed : Bool
  buffered : List Input

structure Pane where
  dead : Bool
  inbox : PaneInbox

-- What is left to do of the calls that are under way.
inductive Item where
  | serve (conn : Token)
  | answer (wait : Wait) (outcome : Except PostError MessageState)
  | flush (pane : PaneId)
  | call (call : Call)
  | endPane (pane : PaneId)
  | removePane (pane : PaneId)
  | dropPane (pane : PaneId)

inductive Fact where
  | held (wait : Wait)
  | answered (post : Nat) (answer : Answer)
  | settled (pane : PaneId) (id : MessageId) (outcome : Outcome)
  | streamClosed (pane : PaneId)
  | ended (pane : PaneId)
  | due (conn : Token)
  | gone (conn : Token)

-- The panes, the connections, the posts that are held, the work that is under way, and what happened so far.
structure World where
  panes : PaneId → Option Pane
  conns : List Conn
  tokens : Nat
  waits : List Wait
  posts : Nat
  work : List Item
  log : List Fact

namespace World

def start : World := ⟨fun _ => none, [], 0, [], 0, [], []⟩

def conn? (world : World) (token : Token) : Option Conn := world.conns.find? fun conn => decide (conn.token = token)

def withConn (world : World) (token : Token) (change : Conn → Conn) : World :=
  { world with conns := world.conns.map fun conn => if conn.token = token then change conn else conn }

def withPane (world : World) (pane : PaneId) (changed : Option Pane) : World :=
  { world with panes := Function.update world.panes pane changed }

def withInbox (world : World) (pane : PaneId) (change : PaneInbox → PaneInbox) : World :=
  match world.panes pane with
  | some found => world.withPane pane (some { found with inbox := change found.inbox })
  | none => world

def note (world : World) (fact : Fact) : World := { world with log := world.log ++ [fact] }

def push (world : World) (items : List Item) : World := { world with work := items ++ world.work }

def live (world : World) (pane : PaneId) : Except PostError Pane :=
  match world.panes pane with
  | none => .error .missing
  | some found => if found.dead then .error (.dead pane) else .ok found

-- Messages are written for as long as there is room in the window.
def written : Nat → PaneInbox → PaneInbox
  | 0, inbox => inbox
  | fuel + 1, inbox =>
    match inbox.nextWrite with
    | (some _, after) => written fuel after
    | (none, _) => inbox

def flushMessages (world : World) (pane : PaneId) : World :=
  match (world.panes pane).bind fun found => found.inbox.stream with
  | none => world
  | some token =>
    match (world.conn? token).map Conn.phase with
    | some (.stream _) => world.withInbox pane (written window)
    | _ => world

-- The posts that fit are no longer held, and will be answered next.
def answerWaits (world : World) (matching : Wait → Bool) (outcome : Except PostError MessageState) (after : List Item) : World :=
  { world with
    waits := world.waits.filter fun wait => !matching wait
    work := (world.waits.filter matching).map (fun wait => .answer wait outcome) ++ after ++ world.work }

def hold (world : World) (conn : Token) (wait : Wait) : World :=
  { world.withConn conn fun conn => { conn with phase := .handling, armed := true } with
    waits := world.waits ++ [wait]
    posts := world.posts + 1 }.note (.held wait)

-- The message is taken in, and written when it is new and there is room.
def admitPost (world : World) (pane : Pane) (post : Post) : Admit × World :=
  let (admitted, inbox) := pane.inbox.admitMessage post.id post.sender post.relation post.content
  let taken := world.withPane post.target (some { pane with inbox := inbox })
  match admitted with
  | .new seq => (.new seq, taken.flushMessages post.target)
  | _ => (admitted, taken)

-- What becomes of a message that is in the queue: its answer, or none when the post is held.
def answerSeen (world : World) (conn : Token) (post : Post) (duplicate : Bool) : Option Answer × World :=
  match (world.panes post.target).bind fun found => found.inbox.seen post.id with
  | none => (some (.error .lost), world)
  | some ⟨seq, .queued⟩ => (some (.ok ⟨.queued, seq, duplicate⟩), world)
  | some ⟨seq, .settled .acked⟩ => (some (.ok ⟨.acked, seq, duplicate⟩), world)
  | some ⟨_, .settled .refused⟩ => (some (.error .refusedByReceiver), world)
  | some ⟨seq, .delivered⟩ => (none, world.hold conn ⟨world.posts, conn, post.target, post.id, seq, duplicate⟩)

def submit (world : World) (conn : Token) (post : Post) : Option Answer × World :=
  if post.denied then (some (.error .denied), world)
  else
    match world.live post.target with
    | .error error => (some (.error error), world)
    | .ok pane =>
      match world.admitPost pane post with
      | (.full, after) => (some (.error .full), after)
      | (.new _, after) => after.answerSeen conn post false
      | (.repeated _, after) => after.answerSeen conn post true

def openStream (world : World) (conn : Token) (pane : PaneId) (denied : Bool) : World :=
  match denied, world.live pane with
  | false, .ok found =>
    match found.inbox.stream with
    | some _ => world
    | none =>
      ((world.withConn conn fun conn => { conn with phase := .stream pane }).withInbox pane fun inbox =>
        (inbox.openStream conn).2).flushMessages pane
  | _, _ => world

def streamText (world : World) (pane : PaneId) (id : MessageId) (outcome : Outcome) : World :=
  match world.panes pane with
  | none => world
  | some found =>
    match found.inbox.settle id outcome with
    | (some _, inbox) =>
      ((world.withPane pane (some { found with inbox := inbox })).note (.settled pane id outcome)).answerWaits
        (fun wait => decide (wait.pane = pane ∧ wait.id = id)) (outcomeOf outcome) [.flush pane]
    | (none, _) => world

def serve (world : World) (token : Token) : World :=
  match world.conn? token with
  | none => world
  | some conn =>
    match conn.phase, conn.buffered with
    | .handling, _ => world
    | _, [] => world
    | phase, input :: _ =>
      let taken := world.withConn token fun conn => { conn with buffered := conn.buffered.tail }
      match phase, input with
      | .head, .post post =>
        match taken.submit token post with
        | (none, held) => held
        | (some _, replied) => replied.push [.serve token]
      | .head, .messages pane denied => (taken.openStream token pane denied).push [.serve token]
      | .head, .other calls => (taken.push [.serve token]).push (calls.map .call)
      | .stream pane, .settle id outcome => (taken.push [.serve token]).streamText pane id outcome
      | _, _ => taken.push [.serve token]

-- `router::answer`: a connection that waits goes on with what it has buffered.
def answer (world : World) (wait : Wait) (outcome : Except PostError MessageState) : World :=
  match world.conn? wait.conn with
  | none => world
  | some conn =>
    let told := (world.withConn wait.conn fun conn => { conn with armed := false }).note
      (.answered wait.post (wait.answered outcome))
    if conn.phase = .handling then
      (told.withConn wait.conn fun conn => { conn with phase := .head }).push [.serve wait.conn]
    else told

def paneEnded (world : World) (pane : PaneId) (after : List Item) : World :=
  ((world.withInbox pane fun inbox => inbox.clear.2).note (.ended pane)).answerWaits (fun wait => decide (wait.pane = pane))
    (.error (.dead pane)) after

def tell (world : World) (pane : PaneId) (id : MessageId) (sender : Sender) (relation : Option Relation) (content : Content) :
    World :=
  match world.live pane with
  | .error _ => world
  | .ok found =>
    let (admitted, inbox) := found.inbox.admitMessage id sender relation content
    let taken := world.withPane pane (some { found with inbox := inbox })
    match admitted with
    | .new _ => taken.flushMessages pane
    | _ => taken

def perform (world : World) : Call → World
  | .birth pane => if (world.panes pane).isNone then world.withPane pane (some ⟨false, .default⟩) else world
  | .die pane =>
    match world.panes pane with
    | some found => world.withPane pane (some { found with dead := true })
    | none => world
  | .ended pane =>
    match world.panes pane with
    | some found => if found.dead then world.push [.endPane pane] else world
    | none => world
  | .remove pane => world.push [.removePane pane]
  | .tell pane id sender relation content => world.tell pane id sender relation content

def item (world : World) : Item → World
  | .serve conn => world.serve conn
  | .answer wait outcome => world.answer wait outcome
  | .flush pane => world.flushMessages pane
  | .call call => world.perform call
  | .endPane pane => world.paneEnded pane []
  | .removePane pane => world.paneEnded pane [.dropPane pane]
  | .dropPane pane => world.withPane pane none

def go (world : World) : World :=
  match world.work with
  | [] => world
  | next :: rest => { world with work := rest }.item next

def due (world : World) (token : Token) : World :=
  match world.conn? token with
  | none => world
  | some conn =>
    if conn.armed then
      ((world.withConn token fun conn => { conn with armed := false }).note (.due token)).answerWaits
        (fun wait => decide (wait.conn = token)) (.ok .delivered) []
    else world

-- A connection is closed: its posts are forgotten, and its stream is closed.
def gone (world : World) (token : Token) : World :=
  match world.conn? token with
  | none => world
  | some conn =>
    let left := { world with
      conns := world.conns.filter fun conn => !decide (conn.token = token)
      waits := world.waits.filter fun wait => !decide (wait.conn = token) }.note (.gone token)
    match conn.phase with
    | .stream pane =>
      match left.panes pane with
      | none => left
      | some found =>
        match found.inbox.close token with
        | (true, inbox) =>
          ((left.withPane pane (some { found with inbox := inbox })).note (.streamClosed pane)).answerWaits
            (fun wait => decide (wait.pane = pane)) (.ok .queued) []
        | (false, _) => left
    | _ => left

end World

-- What comes from outside comes when nothing is under way.
inductive Op where
  | go
  | accept
  | receive (conn : Token) (input : Input)
  | due (conn : Token)
  | gone (conn : Token)
  | call (call : Call)

def World.step (world : World) (op : Op) : World :=
  match op, world.work with
  | .go, _ => world.go
  | .accept, [] => { world with conns := world.conns ++ [⟨world.tokens, .head, false, []⟩], tokens := world.tokens + 1 }
  | .receive token input, [] =>
    (world.withConn token fun conn => { conn with buffered := conn.buffered ++ [input] }).push [.serve token]
  | .due token, [] => world.due token
  | .gone token, [] => world.gone token
  | .call call, [] => world.perform call
  | _, _ :: _ => world

end Kido.Posting
