import Kido.Status.Records

set_option autoImplicit false

namespace Kido.Statuses

def debounce : Nat := 200000000

inductive Shown where
  | running
  | waiting
  | idle (outcome : Option Outcome)
deriving DecidableEq

structure Retained where
  outcome : Outcome
  id : String
  at_ : Nat
deriving DecidableEq

structure Episode where
  finals : String → Option OutcomeResult
  retained : Option Retained
  shown : Option Shown
  since : Nat

structure Command where
  start : Nat
  observed : Nat
  promoted : Bool
deriving DecidableEq

inductive Root where
  | agent (name : String)
  | program
deriving DecidableEq

structure Identity where
  root : Root
  session : Option String
  ssh : Option String
deriving DecidableEq

structure Track where
  identity : Identity
  episode : Episode
  last : Option CommandExit
  command : Option Command
  interactive : Bool

inductive Activity where
  | running (progress : Option Nat)
  | waiting (kind : Option ProgramKind) (progress : Option Nat)
  | idle

def finalResult (record : ProgramRecord) : Option OutcomeResult :=
  match record.state with
  | .done => some .success
  | .error => some .failure
  | .idle | .working _ | .blocked .. => none

def finalsOf (records : List ProgramRecord) (id : String) : Option OutcomeResult :=
  (records.filterMap fun record => (finalResult record).map fun result => (record.id, result)).reverse.lookup id

def enters (now serial : Nat) (e : Episode) (record : ProgramRecord) : Option Retained :=
  (finalResult record).bind fun result =>
    if e.finals record.id ≠ some result then some ⟨⟨serial, result⟩, record.id, now⟩ else none

def advance (now serial : Nat) (activity : Activity) (records : List ProgramRecord) (e : Episode) : Episode :=
  let entered := records.findSome? (enters now serial e)
  let kept :=
    match e.shown, activity with
    | some (.idle _), .running _ | some (.idle _), .waiting .. => none
    | _, _ => e.retained
  let retained := entered.or kept
  let key :=
    match activity with
    | .idle => Shown.idle (retained.map Retained.outcome)
    | .running _ => .running
    | .waiting .. => .waiting
  { finals := finalsOf records
    retained := retained
    shown := some key
    since := if e.shown = some key then e.since else now }

def isBlocked (record : ProgramRecord) : Bool :=
  match record.state with
  | .blocked .. => true
  | _ => false

def isWorking (record : ProgramRecord) : Bool :=
  match record.state with
  | .working _ => true
  | _ => false

def representative (e : Episode) (records : List ProgramRecord) : Option ProgramRecord :=
  (records.find? isBlocked).or <| (records.find? isWorking).or <|
    (e.retained.bind fun retained => records.find? fun record => record.id = retained.id).or <|
      (records.find? fun record => record.state = .idle).or records.head?

def blocked (records : List ProgramRecord) : Option (Option ProgramKind × Option Nat) :=
  records.findSome? fun record =>
    match record.state with
    | .blocked kind progress => some (kind, progress)
    | _ => none

def working (records : List ProgramRecord) : Option (Option Nat) :=
  records.findSome? fun record =>
    match record.state with
    | .working progress => some progress
    | _ => none

def activityOf (records : List ProgramRecord) : Activity :=
  match blocked records, working records with
  | some (kind, progress), _ => .waiting kind progress
  | none, some progress => .running progress
  | none, none => .idle

def core (now serial : Nat) (msg : Option String → Option String) (records : List ProgramRecord) (e : Episode) : Episode × Agent :=
  let activity := activityOf records
  let e := advance now serial activity records e
  let msg := msg ((representative e records).bind ProgramRecord.msg)
  let state :=
    match activity with
    | .waiting kind progress => AgentState.waiting kind progress
    | .running progress => .running progress
    | .idle =>
      .idle (match e.shown with
        | some (.idle outcome) => outcome
        | _ => none)
  (e, ⟨e.since, msg, state⟩)

def report (now serial : Nat) (records : List ProgramRecord) (e : Episode) : Episode × Option Agent :=
  let (e, agent) := core now serial id records e
  if records = [] ∧ e.retained = none then ({ e with shown := none }, none) else (e, some agent)

structure CommandRun where
  startedAt : Nat
  line : String
  running : Bool
deriving DecidableEq

structure LastExit where
  code : Int
  at_ : Nat
deriving DecidableEq

structure Telemetry where
  lastPrompt : Option Nat
  command : Option CommandRun
  lastExit : Option LastExit
  alternate : Bool
deriving DecidableEq

inductive Reading where
  | unintegrated
  | exited (exit : CommandExit)
  | prompt
  | command (command : String) (startedAt : Nat) (prompted : Bool)
deriving DecidableEq

def reading (transport : Bool) (telemetry : Telemetry) : Reading :=
  let quiet := if telemetry.lastPrompt.isSome then Reading.prompt else .unintegrated
  match telemetry.command with
  | none => if transport then .unintegrated else quiet
  | some command =>
    if transport then .command command.line command.startedAt telemetry.lastPrompt.isSome
    else if command.running then .command command.line command.startedAt true
    else
      match telemetry.lastExit with
      | some exit => .exited ⟨exit.code, command.line, command.startedAt, exit.at_⟩
      | none => quiet

def fullscreenOr (fullscreen : Bool) (otherwise : Phase) : Phase :=
  if fullscreen then .running .unknown true else otherwise

def isLate (now : Nat) (fullscreen : Bool) (command : Command) : Bool :=
  !command.promoted && (fullscreen || debounce ≤ now - command.observed)

def knownAt (now startedAt : Nat) (command : Option Command) : Command :=
  match command with
  | some known => if known.start = startedAt then known else ⟨startedAt, now, false⟩
  | none => ⟨startedAt, now, false⟩

def phaseOf (now : Nat) (fullscreen : Bool) (reading : Reading) (t : Track) : Track × Phase :=
  match reading with
  | .command command startedAt prompted =>
    let known := knownAt now startedAt t.command
    let promote := isLate now fullscreen known
    let cmd := { known with promoted := known.promoted || promote }
    let t :=
      if promote then
        { t with
          last := none
          episode := { t.episode with retained := t.episode.retained.filter fun retained => known.observed ≤ retained.at_ } }
      else t
    let phase :=
      if cmd.promoted then Phase.running (.command command startedAt) fullscreen
      else if prompted then .pending t.last
      else .unknown
    ({ t with command := some cmd }, phase)
  | .exited exit => ({ t with last := some exit, command := none }, fullscreenOr fullscreen (.idle (some exit)))
  | .prompt =>
    let t := { t with last := if t.command.isSome then none else t.last, command := none }
    (t, fullscreenOr fullscreen (.idle t.last))
  | .unintegrated => ({ t with command := none }, fullscreenOr fullscreen .unknown)

def shell (now : Nat) (fullscreen : Bool) (serial : Nat) (records : List ProgramRecord) (reading : Reading) (t : Track) : Track × Shell :=
  let (t, phase) := phaseOf now fullscreen reading t
  let (episode, report) := report now serial records t.episode
  ({ t with episode := episode }, ⟨phase, report⟩)

inductive LocalKind where
  | terminal
  | someAgent (name : String)
  | piAgent (session name activity : String)
deriving DecidableEq

inductive RemoteKind where
  | terminal
  | agent (name : String)
deriving DecidableEq

inductive Kind where
  | host (pane : LocalKind)
  | runtime (pane : LocalKind)
  | ssh (destination : String) (pane : RemoteKind)
deriving DecidableEq

def identityOf (kind : Kind) : Identity :=
  match kind with
  | .host pane | .runtime pane =>
    match pane with
    | .terminal => ⟨.program, none, none⟩
    | .someAgent name => ⟨.agent name, none, none⟩
    | .piAgent session _ _ => ⟨.agent "pi", some session, none⟩
  | .ssh destination pane =>
    match pane with
    | .terminal => ⟨.program, none, some destination⟩
    | .agent name => ⟨.agent name, none, some destination⟩

def titleOf (kind : Kind) (paneTitle : String) : Option String :=
  let named (name : String) := if paneTitle = "" then name else paneTitle
  match kind with
  | .host pane | .runtime pane =>
    match pane with
    | .terminal => none
    | .someAgent name => some (named name)
    | .piAgent _ name _ => some (if name = "" then paneTitle else name)
  | .ssh _ .terminal => none
  | .ssh _ (.agent name) => some (named name)

structure Input where
  now : Nat
  telemetry : Telemetry
  paneTitle : String
  kind : Kind
  status : ProgramStatus

namespace Input

variable (input : Input)

def identity : Identity := identityOf input.kind

def fresh : Track :=
  ⟨input.identity, ⟨fun _ => none, none, none, input.now⟩, none, none, false⟩

def tracked (prev : Option Track) : Track :=
  match prev with
  | some t => if t.identity = input.identity then t else input.fresh
  | none => input.fresh

-- The message of an agent, but not the one that its title shows.
def agentMsg (dedupe : Bool) (fallback : Option String) (msg : Option String) : Option String :=
  let title := (titleOf input.kind input.paneTitle).getD ""
  (msg.filter fun msg => !(dedupe && (title = msg || startsWith title (msg ++ " - ")))).or fallback

def agent (dedupe : Bool) (fallback : Option String) (t : Track) : Track × Agent :=
  let (episode, agent) :=
    core input.now input.status.serial (input.agentMsg dedupe fallback) (root input.status.records).toList t.episode
  ({ t with episode := episode }, agent)

def shell (transport : Bool) (t : Track) : Track × Shell :=
  Statuses.shell input.now input.telemetry.alternate input.status.serial input.status.records (reading transport input.telemetry) t

def localPane (pane : LocalKind) (t : Track) : Track × Local :=
  match pane with
  | .terminal =>
    let (t, status) := input.shell false t
    (t, .terminal status)
  | .someAgent name =>
    let (t, status) := input.agent false none t
    (t, .someAgent name status)
  | .piAgent session _ activity =>
    let (t, status) := input.agent true (if activity = "" then none else some activity) t
    (t, .piAgent session status)

-- A prompt after the command began is one of the remote shell's.
def isInteractive : Bool :=
  match input.telemetry.lastPrompt, input.telemetry.command with
  | some prompt, some command => command.startedAt < prompt
  | _, _ => false

def observe (prev : Option Track) : Track × Live :=
  let t := input.tracked prev
  match input.kind with
  | .host pane =>
    let (t, pane) := input.localPane pane t
    (t, .host pane)
  | .runtime pane =>
    let (t, pane) := input.localPane pane t
    (t, .runtime pane)
  | .ssh destination (.agent name) =>
    let (t, status) := input.agent false none t
    (t, .ssh destination (.agent name status))
  | .ssh destination .terminal =>
    let interactive := t.interactive || input.isInteractive
    let (t, status) := input.shell (!interactive) { t with interactive := interactive }
    (t, .ssh destination (.terminal interactive status))

end Input

end Kido.Statuses
