import Kido.Asks.Moves
import Kido.Layout.Ids
import Kido.Shared.Run
import Mathlib.Logic.Function.Basic

set_option autoImplicit false

namespace Kido.Asking

open Kido.Shared Kido.Framing

abbrev PaneId := Tiling.PaneId
abbrev Token := Nat

inductive Owner where
  | screen (conn : Token) (started : Bool)
  | httpPaste (conn : Token) (id : Option UInt64)
  | viewPaste (conn : Token) (id : Option UInt64)
  | prompt (conn : Token)
  | image (conn : Option Token) (shm : Bool) (key : ImageKey) (minted : Bytes)
  | search (conn : Token)

def Owner.reply : Owner → Reply
  | .screen .. => .screen
  | .httpPaste .. | .viewPaste .. | .prompt .. => .paste
  | .image .. => .image
  | .search .. => .search

inductive Place where
  | unborn
  | here (proc : PaneProc)
  | gone

def Place.isOpen : Place → Bool
  | .here proc => decide (proc.stage = .open_)
  | _ => false

inductive Item where
  | event (pane : PaneId) (event : Event)
  | register (pane : PaneId) (req : Req) (owner : Owner)

inductive Entry where
  | asked (pane : PaneId) (req : Req)
  | told (pane : PaneId) (req : Req) (last : Bool)
  | lost (pane : PaneId) (req : Req)
deriving DecidableEq

inductive Given where
  | asked (pane : PaneId) (req : Req)
  | taken (pane : PaneId) (req : Req)
  | event (pane : PaneId) (event : Event)

-- The table of panes, the owners, the searches that connections hold, the work left and the events that a put withholds;
-- and of what happened so far, what passed between the panes and the server and what the owners saw of it.
structure World where
  panes : PaneId → Place
  owners : PaneId → Req → Option Owner
  searches : List (PaneId × Req)
  work : List Item
  withheld : List PaneId
  held : List (PaneId × Event)
  given : List Given
  log : List Entry

namespace World

def start : World := ⟨fun _ => .unborn, fun _ _ => none, [], [], [], [], [], []⟩

def withPane (world : World) (pane : PaneId) (place : Place) : World :=
  { world with panes := Function.update world.panes pane place }

def withOwner (world : World) (pane : PaneId) (req : Req) (owner : Option Owner) : World :=
  { world with owners := Function.update world.owners pane (Function.update (world.owners pane) req owner) }

def note (world : World) (entry : Entry) : World := { world with log := world.log ++ [entry] }

def give (world : World) (more : List Given) : World := { world with given := world.given ++ more }

def registered : List Item → World → World
  | .register pane req owner :: rest, world =>
    registered rest { world.withOwner pane req (some owner) with searches := (pane, req) :: world.searches }
  | work, world => { world with work := work }

def resume (world : World) : World := registered world.work world

def dispatch (world : World) (pane : PaneId) (events : List Event) : World :=
  { world.give (events.map (.event pane)) with work := events.map (.event pane) ++ world.work }

def finish (world : World) (pane : PaneId) (req : Req) (fits : Owner → Bool) : World :=
  (world.withOwner pane req none).note (match world.owners pane req with
    | some owner => if fits owner then .told pane req true else .lost pane req
    | none => .lost pane req)

def handle (world : World) (pane : PaneId) : Event → World
  | .screen req _ last =>
    match world.owners pane req with
    | some (.screen conn _) =>
      if last then world.finish pane req fun _ => true
      else (world.withOwner pane req (some (.screen conn true))).note (.told pane req false)
    | _ => if last then world.note (.lost pane req) else world
  | .pasted req _ _ => world.finish pane req fun owner => decide (owner.reply = .paste)
  | .image req _ => world.finish pane req fun owner => decide (owner.reply = .image)
  | .found req _ =>
    match world.owners pane req with
    | some (.search _) => world.note (.told pane req false)
    | _ => world
  | .searchDone req => world.finish pane req fun owner => decide (owner.reply = .search)
  | .failed req _ => world.finish pane req fun _ => true
  | _ => world

def event (world : World) (pane : PaneId) (event : Event) : World :=
  if pane ∈ world.withheld then { world with held := world.held ++ [(pane, event)] } else world.handle pane event

-- The panes of a put are there, and what was withheld of them is dispatched.
def release (world : World) : World :=
  { world with withheld := [], held := [], work := world.held.map (fun found => .event found.1 found.2) ++ world.work }

def call {α : Type} (world : World) (pane : PaneId) (f : Turn → α × Turn) : Option (α × PaneProc × List Event) :=
  match world.panes pane with
  | .here proc =>
    let (result, turn) := f ⟨proc, []⟩
    some (result, turn.proc, turn.events)
  | _ => none

def asked (world : World) (pane : PaneId) (req : Req) (owner : Owner) : World :=
  ((world.withOwner pane req (some owner)).note (.asked pane req)).give [.asked pane req]

def request (world : World) (pane : PaneId) (owner : Owner) (f : Turn → Option Req × Turn) : World :=
  match world.call pane f with
  | none => world
  | some (none, proc, events) => (world.withPane pane (.here proc)).dispatch pane events
  | some (some req, proc, events) => ((world.withPane pane (.here proc)).asked pane req owner).dispatch pane events

def granted (result : Except Refusal Req × Turn) : Option Req × Turn := (result.1.toOption, result.2)

def screen (world : World) (pane : PaneId) (format : ScreenFormat) (rows : ScreenRows) (conn : Token)
    (minted : Option Req) (fails : Bool) : World :=
  world.request pane (.screen conn false) (Turn.screen format rows minted fails)

def paste (world : World) (pane : PaneId) (text : String) (checkSafe : Bool) (owner : Owner) (minted : Option Req)
    (fails : Bool) : World :=
  world.request pane owner fun turn => granted (Turn.paste text checkSafe minted fails turn)

def fetchImage (world : World) (pane : PaneId) (key : ImageKey) (name : Bytes) (shm : Bool) (conn : Token)
    (minted : Option Req) (fails : Bool) : World :=
  world.request pane (.image (some conn) shm key name) (Turn.image key name minted fails)

-- The owner is registered after the events of the call were dispatched.
def startSearch (world : World) (pane : PaneId) (needle : Bytes) (conn : Token) (minted : Option Req) (fails : Bool) :
    World :=
  match world.call pane fun turn => granted (Turn.search needle minted fails turn) with
  | none => world
  | some (none, proc, events) => (world.withPane pane (.here proc)).dispatch pane events
  | some (some req, proc, events) =>
    let sent := ((world.withPane pane (.here proc)).note (.asked pane req)).give
      (.asked pane req :: events.map (.event pane))
    { sent with work := events.map (.event pane) ++ .register pane req (.search conn) :: sent.work }

def cancelSearch (world : World) (pane : PaneId) (req : Req) (fails : Bool) : World :=
  if world.work = [] ∧ world.held = [] ∧ (pane, req) ∈ world.searches then
    let world := { world with searches := world.searches.erase (pane, req) }
    let closed := match world.owners pane req with
      | some _ => ((world.withOwner pane req none).note (.told pane req true)).give [.taken pane req]
      | none => world
    match closed.call pane fun turn => ((), turn.searchCancel req fails) with
    | none => closed
    | some ((), proc, events) => (closed.withPane pane (.here proc)).dispatch pane events
  else world

-- The wait of an image is over: its owner stays, and has nobody to tell.
def imageDue (world : World) (pane : PaneId) (req : Req) : World :=
  match world.owners pane req with
  | some (.image _ shm key minted) => world.withOwner pane req (some (.image none shm key minted))
  | _ => world

def runOne (world : World) (pane : PaneId) (acts : List Act) : World × List Item :=
  match world.call pane fun turn => ((), acts.foldl Turn.act turn) with
  | none => (world, [])
  | some ((), proc, events) =>
    ((world.withPane pane (.here proc)).give (events.map (.event pane)), events.map (.event pane))

def runAll : List (PaneId × List Act) → World → World × List Item
  | [], world => (world, [])
  | (pane, acts) :: rest, world =>
    let (after, events) := world.runOne pane acts
    let (last, later) := runAll rest after
    (last, events ++ later)

def remove (world : World) (pane : PaneId) (fails : Bool) : World :=
  match world.call pane fun turn => ((), turn.shutdown fails) with
  | none => world
  | some ((), _, events) => (world.withPane pane .gone).dispatch pane events

def shutdown (world : World) (fails : PaneId → Bool) : World :=
  { world with panes := fun pane =>
    match world.panes pane with
    | .here proc => .here (Turn.shutdown (fails pane) ⟨proc, []⟩).proc
    | place => place }

end World

inductive Op where
  | birth (pane : PaneId) (fails : Bool)
  | run (calls : List (PaneId × List Act))
  | screen (pane : PaneId) (format : ScreenFormat) (rows : ScreenRows) (conn : Token) (minted : Option Req) (fails : Bool)
  | paste (pane : PaneId) (text : String) (checkSafe : Bool) (owner : { owner : Owner // owner.reply = .paste })
    (minted : Option Req) (fails : Bool)
  | fetchImage (pane : PaneId) (key : ImageKey) (name : Bytes) (shm : Bool) (conn : Token) (minted : Option Req)
    (fails : Bool)
  | startSearch (pane : PaneId) (needle : Bytes) (conn : Token) (minted : Option Req) (fails : Bool)
  | cancelSearch (pane : PaneId) (req : Req) (fails : Bool)
  | imageDue (pane : PaneId) (req : Req)
  | remove (pane : PaneId) (fails : Bool)
  | withhold (panes : List PaneId)
  | release
  -- A put that fails drops what was withheld.
  | drop
  | next
  | shutdown (fails : PaneId → Bool)

namespace World

def take (world : World) : Op → World
  | .birth pane fails =>
    match world.panes pane with
    | .unborn =>
      let turn := Turn.flush fails ⟨.new, []⟩
      (world.withPane pane (.here turn.proc)).dispatch pane turn.events
    | _ => world
  | .run calls =>
    let (after, events) := runAll calls world
    { after with work := events ++ after.work }
  | .screen pane format rows conn minted fails => world.screen pane format rows conn minted fails
  | .paste pane text checkSafe owner minted fails => world.paste pane text checkSafe owner.val minted fails
  | .fetchImage pane key name shm conn minted fails => world.fetchImage pane key name shm conn minted fails
  | .startSearch pane needle conn minted fails => world.startSearch pane needle conn minted fails
  | .cancelSearch pane req fails => world.cancelSearch pane req fails
  | .imageDue pane req => world.imageDue pane req
  | .remove pane fails => world.remove pane fails
  | .withhold panes => { world with withheld := panes ++ world.withheld }
  | .release => world.release
  | .drop => { world with withheld := [], held := [] }
  | .next =>
    match world.work with
    | .event pane event :: rest => { world with work := rest }.event pane event
    | _ => world
  | .shutdown fails => world.shutdown fails

def step (world : World) (op : Op) : World := (world.take op).resume

def run (ops : List Op) : World := Shared.run step start ops

end World

end Kido.Asking
