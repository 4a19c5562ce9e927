import Kido.Layout.Ids
import Kido.Shared.Run
import Mathlib.Data.List.Dedup

set_option autoImplicit false

namespace Kido.Statuses

export Kido.Tiling (PaneId)

inductive ProgramKind where
  | permission
  | question
  | auth
deriving DecidableEq

inductive ProgramState where
  | idle
  | working (progress : Option Nat)
  | done
  | blocked (kind : Option ProgramKind) (progress : Option Nat)
  | error
deriving DecidableEq

structure ProgramRecord where
  id : String
  started : Option Nat
  state : ProgramState
  app : Option String
  title : Option String
  msg : Option String
deriving DecidableEq

structure ProgramStatus where
  serial : Nat
  records : List ProgramRecord
deriving DecidableEq

inductive OutcomeResult where
  | success
  | failure
deriving DecidableEq

structure Outcome where
  serial : Nat
  result : OutcomeResult
deriving DecidableEq

inductive AgentState where
  | running (progress : Option Nat)
  | waiting (kind : Option ProgramKind) (progress : Option Nat)
  | idle (outcome : Option Outcome)
deriving DecidableEq

structure Agent where
  since : Nat
  msg : Option String
  state : AgentState
deriving DecidableEq

structure CommandExit where
  code : Int
  command : String
  startedAt : Nat
  endedAt : Nat
deriving DecidableEq

inductive Origin where
  | unknown
  | command (command : String) (startedAt : Nat)
deriving DecidableEq

inductive Phase where
  | unknown
  | pending (last : Option CommandExit)
  | idle (last : Option CommandExit)
  | running (origin : Origin) (fullscreen : Bool)
deriving DecidableEq

structure Shell where
  phase : Phase
  report : Option Agent
deriving DecidableEq

inductive Remote where
  | terminal (interactive : Bool) (status : Shell)
  | agent (name : String) (status : Agent)
deriving DecidableEq

inductive Local where
  | terminal (shell : Shell)
  | someAgent (name : String) (status : Agent)
  | piAgent (session : String) (status : Agent)
deriving DecidableEq

def Local.shell : Local → Option Shell
  | .terminal shell => some shell
  | .someAgent .. | .piAgent .. => none

def Local.agent : Local → Option Agent
  | .someAgent _ status | .piAgent _ status => some status
  | .terminal _ => none

inductive Live where
  | host (pane : Local)
  | runtime (pane : Local)
  | ssh (destination : String) (pane : Remote)
deriving DecidableEq

def Live.shell : Live → Option Shell
  | .host pane | .runtime pane => pane.shell
  | .ssh _ (.terminal _ shell) => some shell
  | .ssh _ (.agent ..) => none

def Live.agent : Live → Option Agent
  | .host pane | .runtime pane => pane.agent
  | .ssh _ (.agent _ status) => some status
  | .ssh _ (.terminal ..) => none

end Kido.Statuses

namespace Kido.Statuses

open Shared
open Kido.Tiling (u64Max)

def maxRecords : Nat := 64

structure Record where
  id : String
  state : ProgramState
  app : Option String
  title : Option String
  msg : Option String
deriving DecidableEq

inductive Report where
  | clear (id : String)
  | set (record : Record)
deriving DecidableEq

structure ProgramSet where
  serial : Nat
  records : List ProgramRecord
deriving DecidableEq

def finalState (record : ProgramRecord) : Bool :=
  match record.state with
  | .done | .error => true
  | .idle | .working _ | .blocked .. => false

def startsWith (text front : String) : Bool := front.toList.isPrefixOf text.toList

namespace ProgramSet

def new : ProgramSet := ⟨0, []⟩

-- With the records that a call leaves, and what the call returns.
def changed (set : ProgramSet) (records : List ProgramRecord) : ProgramSet × Bool :=
  (⟨min (set.serial + 1) u64Max, records⟩, true)

def remove (set : ProgramSet) (keep : ProgramRecord → Bool) : ProgramSet × Bool :=
  let records := set.records.filter keep
  if records.length ≠ set.records.length then set.changed records else (⟨set.serial, records⟩, false)

def clear (set : ProgramSet) : ProgramSet × Bool := set.remove fun _ => false

def promptStart (set : ProgramSet) : ProgramSet × Bool := set.remove finalState

-- What the set stores of a report, and when it first stored the id.
def stamped (report : Record) (stored : Option ProgramRecord) (now : Nat) : ProgramRecord where
  id := report.id
  started := if report.id = "" then none else (stored.bind ProgramRecord.started).or (some now)
  state := report.state
  app := report.app
  title := report.title
  msg := report.msg

def store (set : ProgramSet) (report : Record) (now : Nat) : ProgramSet × Bool :=
  let stored := set.records.findIdx? fun record => record.id = report.id
  let record := stamped report (stored.bind fun index => set.records[index]?) now
  let push (records : List ProgramRecord) :=
    set.changed ((if maxRecords ≤ records.length then records.drop 1 else records) ++ [record])
  match stored with
  | some index => if set.records[index]? = some record then (set, false) else push (set.records.eraseIdx index)
  | none => push set.records

def apply (set : ProgramSet) (report : Report) (now : Nat) : ProgramSet × Bool :=
  match report with
  | .clear id =>
    if id = "" then set.clear
    else set.remove fun record => record.id ≠ id ∧ ¬startsWith record.id (id ++ "/")
  | .set record => set.store record now

def hidden (record : ProgramRecord) : Bool :=
  record.state = .working (some 0) ∧ record.app = none ∧ record.title = none ∧ record.msg = none

def published (set : ProgramSet) : ProgramStatus where
  serial := set.serial
  records := (set.records.filter fun record => !hidden record).mergeSort fun first second => first.id ≤ second.id

end ProgramSet

def root (records : List ProgramRecord) : Option ProgramRecord := records.find? fun record => record.id = ""

def parentId (id : String) : String := String.ofList ((id.toList.reverse.dropWhile (· ≠ '/')).drop 1).reverse

theorem parentId_shorter {id : String} (some_ : id ≠ "") : (parentId id).length < id.length := by
  have shorter := (List.dropWhile_sublist (p := (· ≠ '/')) (l := id.toList.reverse)).length_le
  have positive : 0 < id.toList.length := List.length_pos_of_ne_nil fun empty => some_ (String.toList_inj.1 empty)
  rw [List.length_reverse] at shorter
  rw [parentId, String.length_ofList, List.length_reverse, List.length_drop, ← String.length_toList]
  omega

def appFrom (records : List ProgramRecord) (id : String) : Option String :=
  match (records.find? fun found => found.id = id).bind ProgramRecord.app with
  | some app => some app
  | none => if id = "" then none else appFrom records (parentId id)
termination_by id.length
decreasing_by exact parentId_shorter ‹_›

def app (records : List ProgramRecord) (record : ProgramRecord) : Option String := appFrom records record.id

end Kido.Statuses
