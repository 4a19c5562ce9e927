import Kido.Sidebar.Snapshot
import Kido.Status.Seen

set_option autoImplicit false

namespace Kido.Notifying

open Kido.Statuses (Live Local Remote Shell Agent Phase CommandExit AgentState Mark)

export Kido.Tiling (PaneId WindowId SessionId)
export Kido.Sidebar (Position)

inductive Cause where
  | exited (code : Int)
  | signaled (signal : Int)
  | failed (message : String)
deriving DecidableEq

inductive Close where
  | exit
  | keep
  | onExit
deriving DecidableEq

structure PaneJson where
  id : PaneId
  mark : Mark
  dead : Option Cause
  close : Option Close
  kind : Option Live
  label : String
  inbox : Option Bool
deriving DecidableEq

abbrev Node := Sidebar.NodeOf PaneJson

abbrev Item := Sidebar.ItemOf PaneJson Node

abbrev SessionNodes := Sidebar.SessionNodesOf PaneJson

abbrev Snapshot := Sidebar.SnapshotOf PaneJson

inductive Lifecycle where
  | live (kind : Live)
  | ended (cause : Cause)
  | lingering (cause : Cause)
deriving DecidableEq

inductive Status where
  | error
  | waiting
  | running
  | done
  | quiet
  | endedFailed
  | endedClean
deriving DecidableEq

def Live.local : Live → Option Local
  | .host pane | .runtime pane => some pane
  | .ssh .. => none

def Shell.commandTitle (shell : Shell) : Option String :=
  match shell.report, shell.phase with
  | none, .running (.command command _) false => if command = "" then none else some command
  | _, _ => none

namespace Item

variable (item : Item)

def id : PaneId := item.pane.id

def lifecycle : Lifecycle :=
  match item.pane.dead with
  | some cause => if item.pane.close = some .onExit then .lingering cause else .ended cause
  | none => .live (item.pane.kind.getD (.host (.terminal ⟨.unknown, none⟩)))

def isMessageable : Bool :=
  match item.lifecycle with
  | .live kind =>
    match Live.local kind with
    | some (.piAgent ..) => item.pane.inbox = some true
    | _ => false
  | _ => false

def agent : Option Agent :=
  match item.lifecycle with
  | .live (.ssh _ (.agent _ status)) => some status
  | .live kind => (Live.local kind).bind Local.agent
  | _ => none

def shell : Option Shell :=
  match item.lifecycle with
  | .live (.ssh _ (.terminal _ status)) => some status
  | .live kind => (Live.local kind).bind Local.shell
  | _ => none

def label : String :=
  match item.lifecycle with
  | .live (.ssh destination (.terminal interactive status)) =>
    match interactive, Shell.commandTitle status with
    | true, some command => "ssh " ++ destination ++ ": " ++ command
    | _, _ => "ssh " ++ destination
  | .live kind =>
    match Live.local kind with
    | some (.terminal status) => (Shell.commandTitle status).getD item.pane.label
    | _ => item.pane.label
  | _ => item.pane.label

def departure : Option (Status × String) :=
  match item.lifecycle with
  | .ended cause | .lingering cause =>
    match cause with
    | .exited code => some (if code = 0 then (.done, "") else (.error, "exited with code " ++ toString code))
    | .signaled signal => some (.error, "killed by signal " ++ toString signal)
    | .failed _ => some (.error, "failed to start")
  | .live _ => none

def progress : AgentState → Option Nat
  | .running progress | .waiting _ progress => progress
  | .idle _ => none

def captionOf (report : Agent) : String :=
  " ".intercalate ([report.msg.getD "", ((progress report.state).map fun share => toString share ++ "%").getD ""].filter fun part => decide (part ≠ ""))

def caption : String :=
  match item.lifecycle, item.departure with
  | .ended _, some departure => departure.2
  | _, _ => ((item.agent.or (item.shell.bind Shell.report)).map captionOf).getD ""

-- The last command of a plain shell, which neither an agent nor a report covers.
def lastCommand : Option CommandExit :=
  match item.agent, item.shell with
  | none, some ⟨.idle last, none⟩ | none, some ⟨.pending last, none⟩ => last
  | _, _ => none

def indicator : Status × String :=
  match item.departure with
  | some (status, caption) =>
    match item.lifecycle with
    | .ended _ => if status = .done then (.done, "gone, completed") else (status, "gone, " ++ caption)
    | _ => if status = .done then (.endedClean, "gone, exited") else (.endedFailed, "gone, " ++ caption)
  | none =>
    match item.pane.mark with
    | .running => (.running, "running")
    | .waiting => (.waiting, "waiting")
    | .done => (.done, "done")
    | .failed => (.error, "failed")
    | .none => (.quiet, "idle")

def quietShell : Bool :=
  match item.lifecycle with
  | .live kind =>
    match Live.local kind with
    | some (.terminal ⟨.idle _, _⟩) | some (.terminal ⟨.pending _, _⟩) => decide (item.indicator.1 ∈ [Status.quiet, .done, .error])
    | _ => false
  | _ => false

-- A text as its characters, which are clusters of what it is written in.
variable (clusters : String → List String)

def sidebarTitle (title : String) (messageable : Bool) : String :=
  if messageable && (clusters title).head? ≠ some "@" then "@" ++ title else title

def rowTitle : String :=
  if item.quietShell then "Terminal" else sidebarTitle clusters item.label item.isMessageable

theorem departure_live {kind : Live} (live : item.lifecycle = .live kind) : item.departure = none := by
  rw [departure, live]

theorem indicator_live {kind : Live} (live : item.lifecycle = .live kind) :
    item.indicator.1 = .waiting ↔ item.pane.mark = .waiting := by
  rw [indicator, departure_live item live]
  cases item.pane.mark <;> simp

end Item

section Visit

variable {σ : Type} (meet : σ → Item → σ)

mutual

-- A node is met before its children.
def visit (state : σ) : Node → σ
  | .window _ children => visitItems state children
  | .item item => visitItem state item
termination_by structural node => node

def visitItem (state : σ) : Sidebar.ItemOf PaneJson Node → σ
  | ⟨pane, window, children, runtime⟩ => visitAll (meet state ⟨pane, window, children, runtime⟩) children
termination_by structural item => item

def visitAll (state : σ) : List Node → σ
  | [] => state
  | node :: rest => visitAll (visit state node) rest
termination_by structural nodes => nodes

def visitItems (state : σ) : List (Sidebar.ItemOf PaneJson Node) → σ
  | [] => state
  | item :: rest => visitItems (visitItem state item) rest
termination_by structural items => items

end

end Visit

mutual

def Node.items : Node → List Item
  | .window _ children => itemsOf children
  | .item item => itemItems item
termination_by structural node => node

def itemItems : Sidebar.ItemOf PaneJson Node → List Item
  | ⟨pane, window, children, runtime⟩ => ⟨pane, window, children, runtime⟩ :: items children
termination_by structural item => item

def items : List Node → List Item
  | [] => []
  | node :: rest => node.items ++ items rest
termination_by structural nodes => nodes

def itemsOf : List (Sidebar.ItemOf PaneJson Node) → List Item
  | [] => []
  | item :: rest => itemItems item ++ itemsOf rest
termination_by structural items => items

end

section Visited

variable {σ : Type} (meet : σ → Item → σ)

mutual

theorem visit_items (state : σ) : ∀ node : Node, visit meet state node = node.items.foldl meet state
  | .window _ children => by rw [visit, Node.items, visitItems_items state children]
  | .item item => by rw [visit, Node.items, visitItem_items state item]
termination_by structural node => node

theorem visitItem_items (state : σ) : ∀ item : Sidebar.ItemOf PaneJson Node, visitItem meet state item = (itemItems item).foldl meet state
  | ⟨pane, window, children, runtime⟩ => by rw [visitItem, itemItems, List.foldl_cons, visitAll_items _ children]
termination_by structural item => item

theorem visitAll_items (state : σ) : ∀ nodes : List Node, visitAll meet state nodes = (items nodes).foldl meet state
  | [] => rfl
  | node :: rest => by rw [visitAll, items, List.foldl_append, visit_items state node, visitAll_items _ rest]
termination_by structural nodes => nodes

theorem visitItems_items (state : σ) : ∀ items : List (Sidebar.ItemOf PaneJson Node), visitItems meet state items = (itemsOf items).foldl meet state
  | [] => rfl
  | item :: rest => by rw [visitItems, itemsOf, List.foldl_append, visitItem_items state item, visitItems_items _ rest]
termination_by structural items => items

end

end Visited

end Kido.Notifying
