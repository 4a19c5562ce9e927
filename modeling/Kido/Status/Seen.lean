import Kido.Shared.Run
import Kido.Status.Records
import Mathlib.Data.List.Basic
import Mathlib.Logic.Function.Basic

set_option autoImplicit false

namespace Kido.Statuses

structure PaneStatus where
  kind : Live
  programStatus : ProgramStatus
deriving DecidableEq

structure Pane where
  id : PaneId
  dead : Bool
  status : Option PaneStatus
deriving DecidableEq

inductive Mark where
  | none
  | running
  | waiting
  | done
  | failed
deriving DecidableEq

inductive Source where
  | agent
  | report
deriving DecidableEq

structure Keys where
  outcome : Option (Source × Nat) := none
  exit : Option (Nat × Nat) := none
  records : Option Nat := none
deriving DecidableEq

structure Seen where
  started : Nat
  keys : PaneId → Option Keys

def outcomes (status : PaneStatus) : Option (Source × Outcome) × Option CommandExit :=
  match status.kind.agent with
  | some agent =>
    match agent.state with
    | .idle (some outcome) => (some (.agent, outcome), none)
    | _ => (none, none)
  | none =>
    match status.kind.shell with
    | none => (none, none)
    | some shell =>
      let report :=
        match shell.report.map Agent.state with
        | some (.idle (some outcome)) => some (Source.report, outcome)
        | _ => none
      let exit :=
        match shell.phase with
        | .idle last | .pending last => last
        | .unknown | .running .. => none
      (report, exit)

namespace Seen

def new (started : Nat) : Seen := ⟨started, fun _ => none⟩

def insert (seen : Seen) (id : PaneId) (keys : Keys) : Seen :=
  { seen with keys := Function.update seen.keys id (some keys) }

end Seen

def keysOf (status : Option PaneStatus) : Keys :=
  match status with
  | none => {}
  | some status =>
    { outcome := (outcomes status).1.map fun (source, outcome) => (source, outcome.serial)
      exit := (outcomes status).2.map fun exit => (exit.startedAt, exit.endedAt)
      records := some status.programStatus.serial }

namespace Seen

def observe (seen : Seen) (shown : List PaneId) (attending : Bool) (panes : List Pane) : Seen :=
  if attending then
    (panes.filter fun pane => pane.id ∈ shown).foldl (fun seen pane => seen.insert pane.id (keysOf pane.status)) seen
  else seen

def unseen (seen : Seen) (pane : PaneId) (status : PaneStatus) : Option (Source × Outcome) × Option CommandExit :=
  let keys := (seen.keys pane).getD {}
  ((outcomes status).1.filter fun (source, outcome) => keys.outcome ≠ some (source, outcome.serial),
    (outcomes status).2.filter fun exit => seen.started < exit.endedAt ∧ keys.exit ≠ some (exit.startedAt, exit.endedAt))

end Seen

def OutcomeResult.mark : OutcomeResult → Mark
  | .success => .done
  | .failure => .failed

def CommandExit.mark (exit : CommandExit) : Mark := if exit.code = 0 then .done else .failed

namespace Seen

def mark (seen : Seen) (pane : Pane) : Mark :=
  match if pane.dead then none else pane.status with
  | none => .none
  | some status =>
    let (unseenOutcome, unseenExit) := seen.unseen pane.id status
    let outcome (source : Source) :=
      (unseenOutcome.filter fun (found, _) => found = source).map fun (_, outcome) => outcome.result.mark
    match status.kind.agent with
    | some agent =>
      match agent.state with
      | .running _ => .running
      | .waiting .. => .waiting
      | .idle _ => (outcome .agent).getD .none
    | none =>
      match status.kind.shell with
      | none => .none
      | some shell =>
        let exit := unseenExit.map CommandExit.mark
        let mark : Option Mark :=
          match shell.phase, shell.report with
          | _, some report =>
            match report.state with
            | .running _ => some .running
            | .waiting .. => some .waiting
            | .idle _ =>
              match outcome .report, unseenExit with
              | some .failed, _ => some .failed
              | report, some exit => if exit.code ≠ 0 then some .failed else report
              | report, none => report
          | .running _ true, none => none
          | .running .., none => some .running
          | _, none => exit
        mark.getD .none

end Seen

-- An outcome or an exit, with its place in the status, its time and its result.
inductive Ended where
  | agent (serial : Nat) (result : OutcomeResult)
  | report (serial : Nat) (result : OutcomeResult)
  | exit (startedAt endedAt : Nat) (code : Int)
deriving DecidableEq

namespace Ended

def ofOutcome (source : Source) (outcome : Outcome) : Ended :=
  match source with
  | .agent => .agent outcome.serial outcome.result
  | .report => .report outcome.serial outcome.result

def ofExit (exit : CommandExit) : Ended := .exit exit.startedAt exit.endedAt exit.code

def mark : Ended → Mark
  | .agent _ result | .report _ result => result.mark
  | .exit _ _ code => if code = 0 then .done else .failed

def early (started : Nat) : Ended → Bool
  | .agent .. | .report .. => false
  | .exit _ endedAt _ => endedAt ≤ started

def sameTime : Ended → Ended → Bool
  | .agent serial _, .agent other _ => serial = other
  | .report serial _, .report other _ => serial = other
  | .exit startedAt endedAt _, .exit start stop _ => startedAt = start ∧ endedAt = stop
  | _, _ => false

end Ended

def ended (status : PaneStatus) : List Ended :=
  ((outcomes status).1.map fun (source, outcome) => Ended.ofOutcome source outcome).toList ++
    ((outcomes status).2.map Ended.ofExit).toList

namespace Seen

def shows (seen : Seen) (pane : Pane) : Option Ended :=
  match if pane.dead then none else pane.status with
  | none => none
  | some status =>
    let (unseenOutcome, unseenExit) := seen.unseen pane.id status
    let outcome := unseenOutcome.map fun (source, outcome) => Ended.ofOutcome source outcome
    match status.kind.agent, status.kind.shell with
    | some _, _ => outcome
    | none, none => none
    | none, some shell =>
      match shell.phase, shell.report with
      | _, some report =>
        match report.state with
        | .running _ | .waiting .. => none
        | .idle _ =>
          match outcome, unseenExit with
          | some found, some exit => if found.mark ≠ .failed ∧ exit.code ≠ 0 then some (.ofExit exit) else some found
          | some found, none => some found
          | none, some exit => if exit.code ≠ 0 then some (.ofExit exit) else none
          | none, none => none
      | .running .., none => none
      | _, none => unseenExit.map .ofExit

end Seen

end Kido.Statuses
