import Kido.Client.Selections

set_option autoImplicit false

namespace Kido.Sweeping

open Kido.Tiling Kido.Selecting
open Kido.Editing (Removed Verdict)

inductive Close where
  | exit
  | keep
  | onExit
deriving DecidableEq

inductive Condition where
  | live
  | dead (since : Nat)
  | failed (since : Nat)
deriving DecidableEq

structure Pane where
  id : PaneId
  condition : Condition
  parent : Option PaneId
  close : Close
deriving DecidableEq

structure Seen extends Pane where
  shown : Bool

inductive Standing where
  | live
  | dead
  | gone
deriving DecidableEq

def standing (panes : List Pane) (id : PaneId) : Standing :=
  match panes.find? fun pane => decide (pane.id = id) with
  | none => .gone
  | some pane => if pane.condition = .live then .live else .dead

structure Swept where
  removed : List PaneId
  next : Option Nat

def Pane.since (pane : Pane) : Option Nat :=
  match pane.condition with
  | .live => none
  | .dead since => some since
  | .failed since => some since

def Pane.age (pane : Pane) (now : Nat) : Option Nat :=
  (pane.since.filter fun _ => decide (pane.close = .onExit)).map fun since => now - since

def Pane.orphan (panes : List Pane) (pane : Pane) : Bool := pane.parent.any fun parent => decide (standing panes parent ≠ .live)

def Pane.lingered (pane : Pane) (now linger : Nat) : Bool := (pane.age now).any fun age => decide (linger ≤ age)

def Pane.exited (pane : Pane) : Bool :=
  match pane.condition with
  | .dead _ => decide (pane.close = .exit)
  | _ => false

def Seen.removable (panes : List Pane) (now linger : Nat) (seen : Seen) : Bool :=
  seen.exited || (!seen.shown && (seen.orphan panes || seen.lingered now linger))

-- What is left until the grace of a pane ends.
def Pane.left (pane : Pane) (now linger : Nat) : Option Nat :=
  ((pane.age now).filter fun age => decide (age < linger)).map fun age => linger - age

def sweep (seen : List Seen) (now linger : Nat) : Swept where
  removed := (seen.filter (Seen.removable (seen.map Seen.toPane) now linger)).map fun seen => seen.id
  next := (seen.filterMap fun seen => seen.left now linger).min?

inductive Frame where
  | stopping (panes : List PaneId) (before : Layout) (parents : List (PaneId × PaneId))
  | changed (before : Layout) (parents : List (PaneId × PaneId))
  | refocus
  | retract (panes : List PaneId) (before : Document)
  | sweep (panes : List PaneId) (next : Option Nat)
deriving DecidableEq

structure World where
  now : Nat
  state : State
  panes : List Pane
  shown : List PaneId
  due : Bool
  timer : Option Nat
  frames : List Frame

inductive Death where
  | exit
  | startFailed
  | failed
deriving DecidableEq

inductive Act where
  | attach
  | request (index : Nat) (request : ClientRequest)
  | leave (index : Nat)
  -- A put whose panes start, or of which so many start before one fails.
  | put (request : PutLayout) (shell : Option Name) (verdict : Verdict) (close : PaneId → Close) (started : Nat)
  | patch (pane : PaneId) (close : Close)
  | delete (what : Removed)
  | dies (pane : PaneId) (since : Nat) (death : Death)
  | next
  | tick
  | timeout
  | wait (time : Nat)

def focusedPane (conn : Conn) : Option PaneId :=
  (conn.client.active.filter Active.focused).bind fun active => active.current.map Current.pane

def focusedPanes (state : State) : List PaneId := state.conns.filterMap focusedPane

-- Whether a request ends in `refocus`.
def refocuses (state : State) (conn : Conn) (request : ClientRequest) : Bool :=
  let (change, client) := conn.client.receive request
  match change with
  | .ok (.hello _) => true
  | .ok (.select selection) => (client.select state.document.layout selection).isSome
  | .ok (.switch switch) => (client.switch state.document.layout switch).isSome
  | .ok .claim => true
  | .ok .nothing => true
  | _ => false

namespace World

def start : World := ⟨0, .start, [], [], false, none, []⟩

def push (world : World) (frame : Frame) : World := { world with frames := frame :: world.frames }

def under (world : World) (frames : List Frame) : World := { world with frames := frames }

def seen (world : World) : List Seen := world.panes.map fun pane => ⟨pane, decide (pane.id ∈ focusedPanes world.state)⟩

def refocus (world : World) : World :=
  let shown := focusedPanes world.state
  if world.shown ⊆ shown ∧ shown ⊆ world.shown then world else { world with shown := shown, due := true }

def parent? (world : World) (id : PaneId) : Option PaneId :=
  (world.panes.find? fun pane => decide (pane.id = id)).bind Pane.parent

def delete (world : World) (what : Removed) : World :=
  match what.apply world.state.document with
  | (none, _) => world
  | (some removal, document) =>
    let parents := removal.panes.filterMap fun pane => (world.parent? pane).map fun parent => (pane, parent)
    ({ world with state := { world.state with document := document } } : World).push (.stopping removal.panes removal.before parents)

def drop (world : World) (id : PaneId) : World := { world with panes := world.panes.filter fun pane => decide (pane.id ≠ id) }

def rollback (world : World) (document before : Document) : World :=
  { world with state := { world.state with document := document.rollback before } }

def born (close : PaneId → Close) (created : PaneId × CreatePane × Vars) : Pane := ⟨created.1, .live, created.2.1.parent, close created.1⟩

def patched (id : PaneId) (close : Close) (pane : Pane) : Pane :=
  if pane.id = id ∧ pane.condition = .live then { pane with close := close } else pane

def died (id : PaneId) (since : Nat) (death : Death) (pane : Pane) : Pane :=
  if pane.id = id ∧ pane.condition = .live then
    { pane with condition := if death = .startFailed then .failed since else .dead since }
  else pane

-- `admit_parent` of every pane that a put creates.
def admits (world : World) (created : List (PaneId × CreatePane × Vars)) : Bool :=
  created.all fun made => made.2.1.parent.all fun parent => decide (standing world.panes parent = .live)

def grown (world : World) (document : Document) (close : PaneId → Close) (created : List (PaneId × CreatePane × Vars)) : World :=
  { world with state := { world.state with document := document }, panes := world.panes ++ created.map (born close) }

def put (world : World) (request : PutLayout) (shell : Option Name) (verdict : Verdict) (close : PaneId → Close) (started : Nat) : World :=
  let before := world.state.document
  match before.putWithShell request (newWindowSizer (world.state.actives.map Prod.snd)) shell with
  | (.error _, _) => world
  | (.ok created, document) =>
    match verdict, world.admits created with
    | _, false => world.rollback document before
    | .accepted, true =>
      let grown := world.grown document close created
      if document.unpublished then grown.push (.changed before.layout []) else grown
    | .rejected, true =>
      match created.take started with
      | [] => world.rollback document before
      | some_ => (world.grown document close some_).push (.retract (some_.map Prod.fst) before)

-- A pane that is dead keeps its close mode.
def patch (world : World) (id : PaneId) (close : Close) : World := { world with panes := world.panes.map (patched id close) }

def dies (world : World) (id : PaneId) (since : Nat) (death : Death) : World :=
  let dead : World := { world with panes := world.panes.map (died id since death), due := true }
  if death = .failed then dead.delete (.pane id) else dead

variable (linger : Nat)

-- A sweep that deletes nothing, as where its panes are in the table alone, starts its timer at once.
def sweep (world : World) : World :=
  let swept := Sweeping.sweep world.seen world.now linger
  if swept.removed.all fun id => decide (id ∉ world.state.document.layout.panes) then
    { world with timer := swept.next.map (world.now + ·) }
  else world.push (.sweep swept.removed swept.next)

def resume (world : World) : World :=
  match world.frames with
  | [] => world
  | .stopping (pane :: panes) before parents :: frames => (world.drop pane).under (.stopping panes before parents :: frames)
  | .stopping [] before parents :: frames => { world.under (.changed before parents :: frames) with due := true }
  | .changed before parents :: frames => { world.under (.refocus :: frames) with state := world.state.changed before parents }
  | .refocus :: frames => (world.under frames).refocus
  | .retract (pane :: panes) before :: frames => { (world.drop pane).under (.retract panes before :: frames) with due := true }
  | .retract [] before :: frames => (world.under frames).rollback world.state.document before
  | .sweep (pane :: panes) next :: frames => (world.under (.sweep panes next :: frames)).delete (.pane pane)
  | .sweep [] next :: frames => { world.under frames with timer := next.map (world.now + ·) }

def request (world : World) (index : Nat) (request : ClientRequest) : World :=
  match world.state.conns[index]? with
  | none => world
  | some conn =>
    let served : World := { world with state := world.state.serve index conn request }
    if refocuses world.state conn request then served.push .refocus else served

-- While frames are open, a stop that is answered may have requests of its connection served, and panes may die.
def step (world : World) : Act → World
  | .attach => { world with state := world.state.act .attach }
  | .request index request => world.request index request
  | .leave index => if world.frames = [] then ({ world with state := world.state.act (.leave index) } : World).refocus else world
  | .put request shell verdict close started => world.put request shell verdict close started
  | .patch pane close => world.patch pane close
  | .delete what => world.delete what
  | .dies pane since death => if since ≤ world.now then world.dies pane since death else world
  | .next => world.resume
  | .tick => if world.frames = [] ∧ world.due = true then ({ world with due := false } : World).sweep linger else world
  | .timeout =>
    match world.frames, world.timer with
    | [], some time => if time ≤ world.now then ({ world with timer := none } : World).sweep linger else world
    | _, _ => world
  | .wait time => { world with now := world.now + time }

end World

end Kido.Sweeping
