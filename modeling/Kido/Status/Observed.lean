import Kido.Status.Track

set_option autoImplicit false

namespace Kido.Statuses

def Live.report (live : Live) : Option Agent := live.agent.or (live.shell.bind Shell.report)

def Live.phase (live : Live) : Option Phase := live.shell.map Shell.phase

def Live.transport : Live → Bool
  | .ssh _ (.terminal interactive _) => !interactive
  | .ssh _ (.agent ..) | .host _ | .runtime _ => false

def keyOf : AgentState → Shown
  | .running _ => .running
  | .waiting .. => .waiting
  | .idle outcome => .idle outcome

def Phase.command : Phase → Option Nat
  | .running (.command _ startedAt) _ => some startedAt
  | .running .unknown _ | .unknown | .pending _ | .idle _ => none

def Reading.startedAt : Reading → Option Nat
  | .command _ startedAt _ => some startedAt
  | .unintegrated | .exited _ | .prompt => none

section Episode

variable (now serial : Nat) (records : List ProgramRecord) (e : Episode)

-- The final result that a record has now and did not have before.
def entered : Option (ProgramRecord × OutcomeResult) :=
  records.findSome? fun record =>
    (finalResult record).bind fun result => if e.finals record.id ≠ some result then some (record, result) else none

def retain (found : ProgramRecord × OutcomeResult) : Retained := ⟨⟨serial, found.2⟩, found.1.id, now⟩

def Episode.kept (activity : Activity) : Option Retained :=
  match e.shown, activity with
  | some (.idle _), .running _ | some (.idle _), .waiting .. => none
  | _, _ => e.retained

theorem entered_eq : records.findSome? (enters now serial e) =
    (entered records e).map (retain now serial) := by
  induction records with
  | nil => rfl
  | cons record rest ih =>
    rw [entered, List.findSome?_cons, List.findSome?_cons, ih, enters]
    cases finalResult record with
    | none => rfl
    | some result => by_cases same : e.finals record.id = some result <;> simp [same, entered, retain]

theorem advance_retained (activity : Activity) : (advance now serial activity records e).retained =
    ((entered records e).map (retain now serial)).or (e.kept activity) := by
  rw [← entered_eq]
  rfl

theorem advance_shown {activity : Activity} {outcome : Option Outcome}
    (idle : (advance now serial activity records e).shown = some (.idle outcome)) :
    activity = .idle ∧ outcome = (advance now serial activity records e).retained.map Retained.outcome := by
  cases activity with
  | idle => exact ⟨rfl, (Shown.idle.inj (Option.some.inj idle)).symm⟩
  | running progress => cases idle
  | waiting kind progress => cases idle

theorem kept_idle : e.kept .idle = e.retained := by
  unfold Episode.kept
  split <;> first | rfl | contradiction

theorem kept_or (activity : Activity) : e.kept activity = e.retained ∨ e.kept activity = none := by
  unfold Episode.kept
  split
  · exact .inr rfl
  · exact .inr rfl
  · exact .inl rfl

theorem core_agent (msg : Option String → Option String) {episode : Episode} {agent : Agent}
    (same : core now serial msg records e = (episode, agent)) :
    episode = advance now serial (activityOf records) records e ∧ episode.shown = some (keyOf agent.state) ∧
      agent.since = episode.since := by
  rw [core] at same
  obtain ⟨rfl, rfl⟩ := Prod.mk.inj same
  refine ⟨rfl, ?_, rfl⟩
  cases activityOf records with
  | idle => rfl
  | running progress => rfl
  | waiting kind progress => rfl

end Episode

theorem knownAt_cases (now startedAt : Nat) (command : Option Command) :
    command = some (knownAt now startedAt command) ∧ (knownAt now startedAt command).start = startedAt ∨
      knownAt now startedAt command = ⟨startedAt, now, false⟩ ∧ ∀ known ∈ command, known.start ≠ startedAt := by
  cases command with
  | none => exact .inr ⟨rfl, fun _ inside => nomatch inside⟩
  | some known =>
    by_cases same : known.start = startedAt
    · rw [knownAt, if_pos same]
      exact .inl ⟨rfl, same⟩
    · rw [knownAt, if_neg same]
      refine .inr ⟨rfl, fun _ inside => ?_⟩
      rw [← Option.some.inj inside]
      exact same

theorem knownAt_start (now startedAt : Nat) (command : Option Command) : (knownAt now startedAt command).start = startedAt := by
  rcases knownAt_cases now startedAt command with ⟨-, start⟩ | ⟨fresh, -⟩
  · exact start
  · rw [fresh]

-- The command that is read goes on from what the track knows of it.
structure Follows (now : Nat) (fullscreen : Bool) (line : String) (startedAt : Nat) (known : Command) (after : Option Command)
    (phase : Phase) : Prop where
  after : after = some { known with promoted := known.promoted || isLate now fullscreen known }
  runs : (known.promoted || isLate now fullscreen known) = true → phase = .running (.command line startedAt) fullscreen
  hidden : (known.promoted || isLate now fullscreen known) = false → phase.command = none

structure CommandStep (now : Nat) (fullscreen : Bool) (reading : Reading) (before after : Option Command) (phase : Phase) : Prop where
  quiet : reading.startedAt = none → after = none ∧ phase.command = none
  follows : ∀ line startedAt prompted, reading = .command line startedAt prompted →
    Follows now fullscreen line startedAt (knownAt now startedAt before) after phase

theorem CommandStep.reported {now : Nat} {fullscreen : Bool} {reading : Reading} {before after : Option Command} {phase : Phase}
    (step : CommandStep now fullscreen reading before after phase) :
    phase.command = (after.filter Command.promoted).map Command.start := by
  cases reading with
  | command line startedAt prompted =>
    have follows := step.follows line startedAt prompted rfl
    have start := knownAt_start now startedAt before
    rw [follows.after]
    cases promoted : (knownAt now startedAt before).promoted || isLate now fullscreen (knownAt now startedAt before) with
    | true =>
      rw [follows.runs promoted, start]
      rfl
    | false => exact follows.hidden promoted
  | unintegrated | exited exit | prompt =>
    obtain ⟨none_, hidden⟩ := step.quiet rfl
    rw [none_, hidden]
    rfl

def Promotes (before : Option Command) (phase : Phase) : Prop :=
  ∃ startedAt, phase.command = some startedAt ∧ ∀ known ∈ before, known.start = startedAt → known.promoted = false

-- What a reading leaves of an episode before the records are read.
structure Begins (before start : Episode) (promotes : Prop) : Prop where
  finals : start.finals = before.finals
  shown : start.shown = before.shown
  since : start.since = before.since
  retained : start.retained = before.retained ∨ start.retained = none ∧ promotes

theorem fullscreenOr_command {fullscreen : Bool} {otherwise : Phase} (quiet : otherwise.command = none) :
    (fullscreenOr fullscreen otherwise).command = none := by
  cases fullscreen with
  | true => rfl
  | false => exact quiet

theorem phaseOf_step (now : Nat) (fullscreen : Bool) (reading : Reading) (t : Track) :
    let (after, phase) := phaseOf now fullscreen reading t
    after.identity = t.identity ∧ Begins t.episode after.episode (Promotes t.command phase) ∧
      CommandStep now fullscreen reading t.command after.command phase := by
  cases reading with
  | unintegrated =>
    exact ⟨rfl, ⟨rfl, rfl, rfl, .inl rfl⟩, ⟨fun _ => ⟨rfl, fullscreenOr_command rfl⟩, fun _ _ _ is => nomatch is⟩⟩
  | prompt =>
    exact ⟨rfl, ⟨rfl, rfl, rfl, .inl rfl⟩, ⟨fun _ => ⟨rfl, fullscreenOr_command rfl⟩, fun _ _ _ is => nomatch is⟩⟩
  | exited exit =>
    exact ⟨rfl, ⟨rfl, rfl, rfl, .inl rfl⟩, ⟨fun _ => ⟨rfl, fullscreenOr_command rfl⟩, fun _ _ _ is => nomatch is⟩⟩
  | command line startedAt prompted =>
    simp only [phaseOf]
    generalize is : knownAt now startedAt t.command = known
    have start : known.start = startedAt := by rw [← is, knownAt_start]
    by_cases late : isLate now fullscreen known = true
    · simp only [late, if_true, Bool.or_true]
      refine ⟨trivial, ⟨rfl, rfl, rfl, ?_⟩, ⟨fun quiet => (nomatch quiet), fun _ _ _ same => ?_⟩⟩
      · simp only
        cases kept : t.episode.retained with
        | none => exact .inl rfl
        | some retained =>
          by_cases later : known.observed ≤ retained.at_
          · exact .inl (by simp [later])
          · refine .inr ⟨by simpa using later, startedAt, rfl, fun other inside same => ?_⟩
            have knows : knownAt now startedAt t.command = other := by rw [Option.mem_def.1 inside, knownAt, if_pos same]
            rw [← knows, is]
            rw [isLate, Bool.and_eq_true, Bool.not_eq_true'] at late
            exact late.1
      · obtain ⟨rfl, rfl, rfl⟩ := Reading.command.inj same
        rw [is]
        exact ⟨by rw [late, Bool.or_true], fun _ => rfl, fun other => by simp [late] at other⟩
    · rw [Bool.not_eq_true] at late
      simp only [late, Bool.or_false, Bool.false_eq_true, if_false]
      refine ⟨trivial, ⟨rfl, rfl, rfl, .inl rfl⟩, ⟨fun quiet => (nomatch quiet), fun _ _ _ same => ?_⟩⟩
      obtain ⟨rfl, rfl, rfl⟩ := Reading.command.inj same
      rw [is]
      refine ⟨by rw [late, Bool.or_false], fun promoted => ?_, fun hidden => ?_⟩
      · rw [late, Bool.or_false] at promoted
        rw [if_pos promoted]
      · rw [late, Bool.or_false] at hidden
        rw [if_neg (by rw [hidden]; exact Bool.false_ne_true)]
        cases prompted <;> rfl

namespace Input

variable (input : Input)

-- The records that count: an agent's own, or all that a terminal's programs report.
def relevant : List ProgramRecord :=
  match input.identity.root with
  | .agent _ => (root input.status.records).toList
  | .program => input.status.records

def advanced (start : Episode) : Episode :=
  advance input.now input.status.serial (activityOf input.relevant) input.relevant start

end Input

-- The episode begins as `start`; what it advances to is shown.
structure Advances (input : Input) (start after : Episode) (shown : Option Agent) : Prop where
  advanced : after = { input.advanced start with shown := shown.map fun agent => keyOf agent.state }
  shows : ∀ agent ∈ shown, (input.advanced start).shown = some (keyOf agent.state) ∧ agent.since = (input.advanced start).since
  hidden : shown = none → (input.advanced start).retained = none

structure Observed (input : Input) (before after : Track) (live : Live) : Prop where
  identity : after.identity = before.identity
  command : live.shell = none ∧ input.identity.root ≠ .program ∧ after.command = before.command ∨
    ∃ phase, live.phase = some phase ∧ input.identity.root = .program ∧
      CommandStep input.now input.telemetry.alternate (reading live.transport input.telemetry) before.command after.command phase
  episode : ∃ start, Begins before.episode start (∃ phase ∈ live.phase, Promotes before.command phase) ∧
    Advances input start after.episode live.report

theorem core_advances (input : Input) (msg : Option String → Option String) (start : Episode) :
    let (after, agent) := core input.now input.status.serial msg input.relevant start
    Advances input start after (some agent) := by
  obtain ⟨next, shows, since⟩ := core_agent input.now input.status.serial input.relevant start msg rfl
  refine ⟨?_, fun agent inside => ?_, fun hidden => ?_⟩
  · rw [Option.map_some, ← shows]
    exact next
  · obtain rfl := Option.some.inj inside
    rw [next] at shows since
    exact ⟨shows, since⟩
  · cases hidden

theorem report_advances (input : Input) (start : Episode) :
    let (after, shown) := report input.now input.status.serial input.relevant start
    Advances input start after shown := by
  have advances := core_advances input id start
  rw [report]
  generalize core input.now input.status.serial id input.relevant start = result at advances ⊢
  obtain ⟨episode, agent⟩ := result
  by_cases hides : input.relevant = [] ∧ episode.retained = none
  · simp only [if_pos hides]
    refine ⟨?_, fun _ inside => (nomatch inside), fun _ => ?_⟩
    · rw [advances.advanced]
      rfl
    · rw [← hides.2, advances.advanced]
  · simp only [if_neg hides]
    exact advances

namespace Input

variable (input : Input)

theorem relevant_agent {name : String} (agent : input.identity.root = .agent name) :
    input.relevant = (root input.status.records).toList := by rw [relevant, agent]

theorem relevant_program (program : input.identity.root = .program) : input.relevant = input.status.records := by
  rw [relevant, program]

theorem agent_observed {name : String} (agent : input.identity.root = .agent name) (dedupe : Bool) (fallback : Option String)
    (before : Track) :
    let (after, status) := input.agent dedupe fallback before
    after.identity = before.identity ∧ after.command = before.command ∧
      Advances input before.episode after.episode (some status) := by
  rw [Input.agent, ← relevant_agent input agent]
  exact ⟨rfl, rfl, core_advances input _ _⟩

theorem shell_observed (program : input.identity.root = .program) (transport : Bool) (before : Track) :
    let (after, status) := input.shell transport before
    after.identity = before.identity ∧
      CommandStep input.now input.telemetry.alternate (reading transport input.telemetry) before.command after.command status.phase ∧
      ∃ start, Begins before.episode start (Promotes before.command status.phase) ∧
        Advances input start after.episode status.report := by
  have step := phaseOf_step input.now input.telemetry.alternate (reading transport input.telemetry) before
  rw [Input.shell, Statuses.shell, ← relevant_program input program]
  generalize phaseOf input.now input.telemetry.alternate (reading transport input.telemetry) before = result at step ⊢
  obtain ⟨identity, begins, command⟩ := step
  exact ⟨identity, command, _, begins, report_advances input _⟩

end Input

theorem Observed.of_agent {input : Input} {before after : Track} {live : Live} {name : String} {status : Agent}
    (agent : input.identity.root = .agent name) (hidden : live.shell = none) (shown : live.agent = some status)
    (observed : after.identity = before.identity ∧ after.command = before.command ∧
      Advances input before.episode after.episode (some status)) : Observed input before after live := by
  obtain ⟨identity, command, advances⟩ := observed
  have noProgram : input.identity.root ≠ .program := by
    rw [agent]
    exact Root.noConfusion
  refine ⟨identity, .inl ⟨hidden, noProgram, command⟩, _, ⟨rfl, rfl, rfl, .inl rfl⟩, ?_⟩
  rw [Live.report, shown]
  exact advances

theorem Observed.of_shell {input : Input} {before after : Track} {live : Live} {status : Shell}
    (program : input.identity.root = .program) (shown : live.shell = some status) (hidden : live.agent = none)
    (observed : after.identity = before.identity ∧
      CommandStep input.now input.telemetry.alternate (reading live.transport input.telemetry) before.command after.command status.phase ∧
      ∃ start, Begins before.episode start (Promotes before.command status.phase) ∧
        Advances input start after.episode status.report) : Observed input before after live := by
  obtain ⟨identity, command, start, begins, advances⟩ := observed
  have phase : live.phase = some status.phase := by rw [Live.phase, shown, Option.map_some]
  refine ⟨identity, .inr ⟨_, phase, program, command⟩, start, ⟨begins.finals, begins.shown, begins.since, ?_⟩, ?_⟩
  · exact begins.retained.imp_right fun ⟨none_, promotes⟩ => ⟨none_, _, phase, promotes⟩
  · rw [Live.report, hidden, shown]
    exact advances

theorem local_observed {input : Input} {pane : LocalKind} (is : input.identity = identityOf (.host pane)) (wrap : Local → Live)
    (shell : ∀ pane, (wrap pane).shell = pane.shell) (agent : ∀ pane, (wrap pane).agent = pane.agent)
    (transport : ∀ pane, (wrap pane).transport = false) (before : Track) :
    let (after, pane) := input.localPane pane before
    Observed input before after (wrap pane) := by
  cases pane with
  | terminal =>
    have program : input.identity.root = .program := by
      rw [is]
      rfl
    refine .of_shell program (shell _) (agent _) ?_
    rw [transport]
    exact input.shell_observed program false before
  | someAgent name =>
    have root : input.identity.root = .agent name := by
      rw [is]
      rfl
    exact .of_agent root (shell _) (agent _) (input.agent_observed root false none before)
  | piAgent session name activity =>
    have root : input.identity.root = .agent "pi" := by
      rw [is]
      rfl
    exact .of_agent root (shell _) (agent _)
      (input.agent_observed root true (if activity = "" then none else some activity) before)

theorem observe_observed (input : Input) (prev : Option Track) :
    let (after, live) := input.observe prev
    Observed input (input.tracked prev) after live := by
  cases kind : input.kind with
  | host pane =>
    simp only [Input.observe, kind]
    exact local_observed (by rw [Input.identity, kind]) .host (fun _ => rfl) (fun _ => rfl) (fun _ => rfl) _
  | runtime pane =>
    simp only [Input.observe, kind]
    exact local_observed (by rw [Input.identity, kind]; rfl) .runtime (fun _ => rfl) (fun _ => rfl) (fun _ => rfl) _
  | ssh destination pane =>
    cases pane with
    | agent name =>
      simp only [Input.observe, kind]
      have root : input.identity.root = .agent name := by
        rw [Input.identity, kind]
        rfl
      exact .of_agent root rfl rfl (input.agent_observed root false none (input.tracked prev))
    | terminal =>
      simp only [Input.observe, kind]
      generalize ((input.tracked prev).interactive || input.isInteractive) = interactive
      have program : input.identity.root = .program := by
        rw [Input.identity, kind]
        rfl
      exact .of_shell program rfl rfl
        (input.shell_observed program (!interactive) { input.tracked prev with interactive := interactive })

end Kido.Statuses
