import Kido.Status.Observed

set_option autoImplicit false

namespace Kido.Statuses

open Shared

structure Observation where
  input : Input
  live : Live

namespace Observation

variable (o : Observation)

def identity : Identity := o.input.identity

def agent : Option Agent := o.live.report

def shown : Option Shown := o.agent.map fun agent => keyOf agent.state

def command : Option Nat := o.live.phase.bind Phase.command

def reads : Option Nat := o.live.phase.bind fun _ => (reading o.live.transport o.input.telemetry).startedAt

end Observation

-- A pane's track, and all that was seen of the pane.
structure Watch where
  track : Option Track
  seen : List Observation

namespace Watch

def new : Watch := ⟨none, []⟩

def take (watch : Watch) (input : Input) : Watch :=
  let (track, live) := input.observe watch.track
  ⟨some track, watch.seen ++ [⟨input, live⟩]⟩

end Watch

def watch (inputs : List Input) : Watch := run Watch.take Watch.new inputs

def lasting (seen : List Observation) (identity : Identity) : Option Observation :=
  seen.getLast?.filter fun o => o.identity = identity

def finalsSeen (seen : List Observation) (identity : Identity) (id : String) : Option OutcomeResult :=
  (lasting seen identity).bind fun o => finalsOf o.input.relevant id

-- A record has a final result that it did not have in what was seen last.
def Enters (seen : List Observation) (o : Observation) (result : OutcomeResult) : Prop :=
  ∃ record ∈ o.input.relevant, finalResult record = some result ∧ finalsSeen seen o.identity record.id ≠ some result

-- The outcome is of the last reading at which a record entered a final result.
def Entered (seen : List Observation) (outcome : Outcome) : Prop :=
  ∃ front o back, seen = front ++ o :: back ∧ (∀ later ∈ back, later.identity = o.identity) ∧
    o.input.status.serial = outcome.serial ∧ Enters front o outcome.result ∧
      ∀ middle later rest, back = middle ++ later :: rest → ∀ result, ¬ Enters (front ++ o :: middle) later result

def HeldSince (seen : List Observation) (startedAt : Nat) (first : Observation) (rest : List Observation) : Prop :=
  (∃ front, seen = front ++ first :: rest) ∧ ∀ o ∈ first :: rest, o.identity = first.identity ∧ o.reads = some startedAt

-- It was fullscreen, or it was there for the time that a command must be.
def Lasts (first : Observation) (rest : List Observation) : Prop :=
  ∃ o ∈ first :: rest, o.input.telemetry.alternate = true ∨ debounce ≤ o.input.now - first.input.now

structure Remembers (seen : List Observation) (t : Track) : Prop where
  finals : ∀ id, t.episode.finals id = finalsSeen seen t.identity id
  shown : t.episode.shown = (lasting seen t.identity).bind Observation.shown
  since : ∀ o ∈ lasting seen t.identity, ∀ agent ∈ o.agent, agent.since = t.episode.since
  outcome : ∀ outcome, t.episode.shown = some (.idle outcome) → outcome = t.episode.retained.map Retained.outcome
  retained : ∀ retained ∈ t.episode.retained, lasting seen t.identity ≠ none ∧ Entered seen retained.outcome
  command : ∀ command ∈ t.command, lasting seen t.identity ≠ none ∧ ∃ first rest, HeldSince seen command.start first rest ∧
    first.input.now = command.observed ∧ (command.promoted = true → Lasts first rest)
  agent : t.identity.root ≠ .program → t.command = none
  reported : (lasting seen t.identity).bind Observation.command = (t.command.filter Command.promoted).map Command.start

structure Steady (seen : List Observation) (o : Observation) : Prop where
  same : ∀ last ∈ lasting seen o.identity, ∀ old ∈ last.agent, ∀ agent ∈ o.agent, keyOf agent.state = keyOf old.state →
    agent.since = old.since
  changed : ∀ agent ∈ o.agent, (lasting seen o.identity).bind Observation.shown ≠ some (keyOf agent.state) →
    agent.since = o.input.now
  serial : ∀ agent ∈ o.agent, ∀ outcome, agent.state = .idle (some outcome) → Entered (seen ++ [o]) outcome
  kept : ∀ last ∈ lasting seen o.identity, ∀ old ∈ last.agent, ∀ agent ∈ o.agent, ∀ before after, old.state = .idle before →
    agent.state = .idle after → before ≠ after →
      (∃ result, Enters seen o result ∧ after = some ⟨o.input.status.serial, result⟩) ∨
        after = none ∧ o.command ≠ none ∧ o.command ≠ last.command
  lasts : ∀ startedAt ∈ o.command, ∃ first rest, HeldSince (seen ++ [o]) startedAt first rest ∧ Lasts first rest
  stays : ∀ last ∈ lasting seen o.identity, ∀ startedAt ∈ last.command, ∀ command ∈ o.input.telemetry.command,
    command.startedAt = startedAt → command.running = true →
      o.live.phase = some (.running (.command command.line startedAt) o.input.telemetry.alternate)

section Seen

variable {seen : List Observation} {o : Observation}

theorem lasting_snoc (seen : List Observation) (o : Observation) : lasting (seen ++ [o]) o.identity = some o := by
  rw [lasting, List.getLast?_concat]
  exact Option.filter_some_pos (decide_eq_true rfl)

theorem lasting_some {identity : Identity} (last : o ∈ lasting seen identity) :
    ∃ front, seen = front ++ [o] ∧ o.identity = identity := by
  obtain ⟨there, same⟩ := Option.filter_eq_some_iff.1 last
  obtain ⟨front, split⟩ := List.getLast?_eq_some_iff.1 there
  exact ⟨front, split, of_decide_eq_true same⟩

theorem Entered.now {result : OutcomeResult} (enters : Enters seen o result) :
    Entered (seen ++ [o]) ⟨o.input.status.serial, result⟩ := by
  refine ⟨seen, o, [], rfl, fun _ inside => (nomatch inside), rfl, enters, fun middle later rest split => ?_⟩
  exact absurd split (by simp)

theorem mem_of_last {front back front' : List Observation} {first last : Observation}
    (split : front ++ first :: back = front' ++ [last]) : last ∈ first :: back := by
  have last? := congrArg List.getLast? split
  rw [List.getLast?_concat, List.getLast?_append_of_ne_nil _ (List.cons_ne_nil _ _)] at last?
  exact List.mem_of_getLast? last?

theorem Entered.snoc {outcome : Outcome} (entered : Entered seen outcome) (last : lasting seen o.identity ≠ none)
    (quiet : ∀ result, ¬ Enters seen o result) : Entered (seen ++ [o]) outcome := by
  obtain ⟨front, first, back, rfl, same, serial, enters, none_⟩ := entered
  obtain ⟨a, last⟩ := Option.ne_none_iff_exists'.1 last
  obtain ⟨front', split, identity⟩ := lasting_some last
  have identity : o.identity = first.identity := by
    rcases List.mem_cons.1 (mem_of_last split) with rfl | inside
    · exact identity.symm
    · rw [← identity, same a inside]
  refine ⟨front, first, back ++ [o], by simp, fun later inside => ?_, serial, enters, fun middle later rest split => ?_⟩
  · rcases List.mem_append.1 inside with inside | inside
    · exact same later inside
    · rw [List.mem_singleton.1 inside, identity]
  · rcases List.eq_nil_or_concat rest with rfl | ⟨rest, other, rfl⟩
    · obtain ⟨rfl, is⟩ := List.append_inj' split rfl
      rw [← List.head_eq_of_cons_eq is]
      exact quiet
    · rw [List.concat_eq_append, ← List.cons_append, ← List.append_assoc] at split
      exact none_ middle later rest (List.append_inj' split rfl).1

theorem HeldSince.now {startedAt : Nat} (reads : o.reads = some startedAt) : HeldSince (seen ++ [o]) startedAt o [] :=
  ⟨⟨seen, rfl⟩, fun other inside => by rw [List.mem_singleton.1 inside]; exact ⟨rfl, reads⟩⟩

theorem HeldSince.snoc {startedAt : Nat} {first : Observation} {rest : List Observation} (held : HeldSince seen startedAt first rest)
    (last : lasting seen o.identity ≠ none) (reads : o.reads = some startedAt) :
    HeldSince (seen ++ [o]) startedAt first (rest ++ [o]) := by
  obtain ⟨⟨front, rfl⟩, same⟩ := held
  obtain ⟨a, last⟩ := Option.ne_none_iff_exists'.1 last
  obtain ⟨front', split, identity⟩ := lasting_some last
  refine ⟨⟨front, by simp⟩, fun other inside => ?_⟩
  rw [← List.cons_append] at inside
  rcases List.mem_append.1 inside with inside | inside
  · exact same other inside
  · rw [List.mem_singleton.1 inside, ← identity]
    exact ⟨(same a (mem_of_last split)).1, reads⟩

theorem Lasts.snoc {first : Observation} {rest : List Observation} (lasts : Lasts first rest) : Lasts first (rest ++ [o]) := by
  obtain ⟨other, inside, long⟩ := lasts
  exact ⟨other, List.mem_append_left [o] inside, long⟩

end Seen

section Step

variable {seen : List Observation} {input : Input} {live : Live} {before after : Track} {start : Episode}

theorem enters_of_entered (finals : ∀ id, start.finals id = finalsSeen seen input.identity id) {record : ProgramRecord}
    {result : OutcomeResult} (is : entered input.relevant start = some (record, result)) : Enters seen ⟨input, live⟩ result := by
  obtain ⟨other, inside, final⟩ := List.exists_of_findSome?_eq_some is
  obtain ⟨is, final_, new⟩ := Option.bind_eq_some_iff.1 final
  by_cases differs : start.finals other.id ≠ some is
  · rw [if_pos differs] at new
    obtain ⟨rfl, rfl⟩ := Prod.mk.inj (Option.some.inj new)
    rw [finals] at differs
    exact ⟨other, inside, final_, differs⟩
  · rw [if_neg differs] at new
    cases new

theorem quiet_of_entered (finals : ∀ id, start.finals id = finalsSeen seen input.identity id)
    (is : entered input.relevant start = none) (result : OutcomeResult) : ¬ Enters seen ⟨input, live⟩ result := by
  rintro ⟨record, inside, final, differs⟩
  change finalsSeen seen input.identity record.id ≠ some result at differs
  have none_ := List.findSome?_eq_none_iff.1 is record inside
  rw [final, Option.bind_some, finals, if_pos differs] at none_
  cases none_

theorem Remembers.advanced (remembers : Remembers seen before) (identity : before.identity = input.identity) {promotes : Prop}
    (begins : Begins before.episode start promotes) :
    ∀ retained ∈ (input.advanced start).retained, Entered (seen ++ [⟨input, live⟩]) retained.outcome := by
  intro retained inside
  have finals (id : String) : start.finals id = finalsSeen seen input.identity id := by
    rw [begins.finals, remembers.finals, identity]
  rw [Input.advanced, advance_retained] at inside
  cases is : entered input.relevant start with
  | some found =>
    rw [is] at inside
    obtain rfl := Option.some.inj inside
    exact .now (enters_of_entered finals is)
  | none =>
    rw [is, Option.map_none, Option.none_or] at inside
    have held : retained ∈ before.episode.retained := by
      rcases kept_or start (activityOf input.relevant) with kept | kept
      · rcases begins.retained with same | ⟨none_, -⟩
        · rwa [kept, same] at inside
        · rw [kept, none_] at inside
          cases inside
      · rw [kept] at inside
        cases inside
    obtain ⟨last, entered⟩ := remembers.retained retained held
    rw [identity] at last
    exact entered.snoc last (quiet_of_entered finals is)

theorem Remembers.follows (remembers : Remembers seen before) (identity : before.identity = input.identity) {line : String}
    {startedAt : Nat} {prompted : Bool} {phase : Phase} (shown : live.phase = some phase)
    (reads : reading live.transport input.telemetry = .command line startedAt prompted) :
    let known := knownAt input.now startedAt before.command
    ∃ first rest, HeldSince (seen ++ [⟨input, live⟩]) startedAt first rest ∧ first.input.now = known.observed ∧
      ((known.promoted || isLate input.now input.telemetry.alternate known) = true → Lasts first rest) := by
  have here : Observation.reads ⟨input, live⟩ = some startedAt := by
    rw [Observation.reads, shown, Option.bind_some, reads]
    rfl
  rcases knownAt_cases input.now startedAt before.command with ⟨is, start⟩ | ⟨fresh, -⟩
  · obtain ⟨last, first, rest, held, observed, promoted⟩ := remembers.command _ is
    rw [identity] at last
    rw [start] at held
    refine ⟨first, rest ++ [⟨input, live⟩], HeldSince.snoc (o := ⟨input, live⟩) held last here, observed, fun promotes => ?_⟩
    rcases Bool.or_eq_true _ _ ▸ promotes with already | late
    · exact (promoted already).snoc
    · rw [isLate, Bool.and_eq_true, Bool.or_eq_true, decide_eq_true_eq, ← observed] at late
      exact ⟨⟨input, live⟩, by simp, late.2⟩
  · refine ⟨⟨input, live⟩, [], .now here, by rw [fresh], fun promotes => ⟨⟨input, live⟩, List.mem_cons_self, ?_⟩⟩
    rw [fresh, Bool.false_or, isLate, Bool.and_eq_true, Bool.or_eq_true, decide_eq_true_eq] at promotes
    exact promotes.2

theorem Remembers.next (remembers : Remembers seen before) (identity : before.identity = input.identity)
    (observed : Observed input before after live) : Remembers (seen ++ [⟨input, live⟩]) after := by
  have same : after.identity = Observation.identity ⟨input, live⟩ := observed.identity.trans identity
  have last : lasting (seen ++ [⟨input, live⟩]) after.identity = some ⟨input, live⟩ := by
    rw [same]
    exact lasting_snoc seen _
  obtain ⟨start, begins, advances⟩ := observed.episode
  have retains : after.episode.retained = (input.advanced start).retained := by rw [advances.advanced]
  refine ⟨fun id => ?_, ?_, ?_, fun outcome idle => ?_, fun retained inside => ?_, fun command inside => ?_, ?_, ?_⟩
  · rw [finalsSeen, last, advances.advanced]
    rfl
  · rw [last, advances.advanced]
    rfl
  · rw [last]
    intro _ is agent inside
    obtain rfl := Option.some.inj is
    rw [(advances.shows agent inside).2, advances.advanced]
  · rw [advances.advanced] at idle
    obtain ⟨agent, shown, key⟩ := Option.map_eq_some_iff.1 idle
    rw [retains]
    refine (advance_shown _ _ _ _ ?_).2
    rw [← key]
    exact (advances.shows agent shown).1
  · rw [retains] at inside
    rw [last]
    exact ⟨Option.some_ne_none _, remembers.advanced identity begins retained inside⟩
  · rw [last]
    refine ⟨Option.some_ne_none _, ?_⟩
    rcases observed.command with ⟨-, agent, kept⟩ | ⟨phase, shown, -, step⟩
    · rw [kept, remembers.agent (by rwa [identity])] at inside
      cases inside
    · cases reads : reading live.transport input.telemetry with
      | command line startedAt prompted =>
        have follows := step.follows line startedAt prompted reads
        obtain ⟨first, rest, held, at_, lasts⟩ := remembers.follows identity shown reads
        rw [follows.after] at inside
        obtain rfl := Option.some.inj inside
        rw [knownAt_start]
        exact ⟨first, rest, held, at_, lasts⟩
      | unintegrated | exited exit | prompt =>
        rw [(step.quiet (by rw [reads]; rfl)).1] at inside
        cases inside
  · intro agent
    rcases observed.command with ⟨-, -, kept⟩ | ⟨phase, shown, program, step⟩
    · rw [kept]
      exact remembers.agent (by rwa [← observed.identity])
    · rw [same] at agent
      exact absurd program agent
  · rw [last, Option.bind_some, Observation.command]
    rcases observed.command with ⟨hidden, agent, kept⟩ | ⟨phase, shown, -, step⟩
    · rw [kept, remembers.agent (by rwa [identity]), Live.phase, hidden]
      rfl
    · rw [shown, Option.bind_some]
      exact step.reported

theorem advance_since (start : Episode) :
    (input.advanced start).since = if start.shown = (input.advanced start).shown then start.since else input.now := rfl

theorem Advances.idle {episode : Episode} {shown : Option Agent} (advances : Advances input start episode shown) {agent : Agent}
    (inside : agent ∈ shown) {outcome : Option Outcome} (idle : agent.state = .idle outcome) :
    outcome = (((entered input.relevant start).map (retain input.now input.status.serial)).or start.retained).map Retained.outcome := by
  have shows := (advances.shows agent inside).1
  rw [idle] at shows
  obtain ⟨activity, is⟩ := advance_shown _ _ _ _ shows
  rw [is, advance_retained, activity, kept_idle]

theorem Remembers.kept (remembers : Remembers seen before) (identity : before.identity = input.identity)
    (observed : Observed input before after live) :
    ∀ last ∈ lasting seen input.identity, ∀ old ∈ last.agent, ∀ agent ∈ live.report, ∀ first second, old.state = .idle first →
      agent.state = .idle second → first ≠ second →
        (∃ result, Enters seen ⟨input, live⟩ result ∧ second = some ⟨input.status.serial, result⟩) ∨
          second = none ∧ Observation.command ⟨input, live⟩ ≠ none ∧ Observation.command ⟨input, live⟩ ≠ last.command := by
  intro last there old wasShown agent isShown first second wasIdle isIdle differs
  obtain ⟨start, begins, advances⟩ := observed.episode
  have finals (id : String) : start.finals id = finalsSeen seen input.identity id := by
    rw [begins.finals, remembers.finals, identity]
  have shown : before.episode.shown = some (.idle first) := by
    rw [remembers.shown, identity, there, Option.bind_some, Observation.shown, wasShown, Option.map_some, wasIdle]
    rfl
  have was := remembers.outcome first shown
  have is := advances.idle isShown isIdle
  cases found : entered input.relevant start with
  | some found_ =>
    rw [found] at is
    exact .inl ⟨_, enters_of_entered finals found, is⟩
  | none =>
    rw [found, Option.map_none, Option.none_or] at is
    rcases begins.retained with same | ⟨none_, phase, isPhase, startedAt, reported, unpromoted⟩
    · rw [is, same] at differs
      exact absurd was differs
    · have command : Observation.command ⟨input, live⟩ = some startedAt := by
        rw [Observation.command, isPhase, Option.bind_some, reported]
      refine .inr ⟨by rw [is, none_, Option.map_none], by rw [command]; exact Option.some_ne_none _, fun same => ?_⟩
      have old := remembers.reported
      rw [identity, there, Option.bind_some, ← same, command] at old
      obtain ⟨known, kept, started⟩ := Option.map_eq_some_iff.1 old.symm
      obtain ⟨kept, promoted⟩ := Option.filter_eq_some_iff.1 kept
      rw [unpromoted known kept started] at promoted
      cases promoted

theorem Remembers.stays (remembers : Remembers seen before) (identity : before.identity = input.identity)
    (observed : Observed input before after live) :
    ∀ last ∈ lasting seen input.identity, ∀ startedAt ∈ last.command, ∀ command ∈ input.telemetry.command,
      command.startedAt = startedAt → command.running = true →
        live.phase = some (.running (.command command.line startedAt) input.telemetry.alternate) := by
  rintro last there startedAt reported command inside rfl running
  have old := remembers.reported
  rw [identity, there, Option.bind_some, reported] at old
  obtain ⟨known, kept, started⟩ := Option.map_eq_some_iff.1 old.symm
  obtain ⟨kept, promoted⟩ := Option.filter_eq_some_iff.1 kept
  rcases observed.command with ⟨-, agent, -⟩ | ⟨phase, shown, -, step⟩
  · rw [remembers.agent (by rwa [identity])] at kept
    cases kept
  · have reads : ∃ prompted, reading live.transport input.telemetry = .command command.line command.startedAt prompted := by
      rw [reading, inside]
      cases live.transport with
      | true => exact ⟨_, rfl⟩
      | false => exact ⟨true, by simp [running]⟩
    obtain ⟨prompted, reads⟩ := reads
    have follows := step.follows _ _ _ reads
    have knows : knownAt input.now command.startedAt before.command = known := by rw [kept, knownAt, if_pos started]
    rw [shown, follows.runs (by rw [knows, promoted, Bool.true_or])]

theorem Remembers.steady (remembers : Remembers seen before) (identity : before.identity = input.identity)
    (observed : Observed input before after live) : Steady seen ⟨input, live⟩ := by
  have next := remembers.next identity observed
  have same : after.identity = Observation.identity ⟨input, live⟩ := observed.identity.trans identity
  obtain ⟨start, begins, advances⟩ := observed.episode
  have wasShown : start.shown = (lasting seen input.identity).bind Observation.shown := by
    rw [begins.shown, remembers.shown, identity]
  refine ⟨fun last there old was agent is key => ?_, fun agent is differs => ?_, fun agent is outcome idle => ?_,
    remembers.kept identity observed, fun startedAt reported => ?_, remembers.stays identity observed⟩
  · change last ∈ lasting seen input.identity at there
    have shown : start.shown = (input.advanced start).shown := by
      rw [(advances.shows agent is).1, key, wasShown, there, Option.bind_some, Observation.shown, was, Option.map_some]
    rw [(advances.shows agent is).2, advance_since, if_pos shown, begins.since]
    exact (remembers.since last (by rwa [identity]) old was).symm
  · rw [(advances.shows agent is).2, advance_since, if_neg]
    rw [(advances.shows agent is).1, wasShown]
    exact differs
  · have shows := (advances.shows agent is).1
    rw [idle] at shows
    obtain ⟨retained, kept, rfl⟩ := Option.map_eq_some_iff.1 (advance_shown _ _ _ _ shows).2.symm
    exact remembers.advanced identity begins retained kept
  · have command := next.reported
    rw [same, lasting_snoc, Option.bind_some, reported] at command
    obtain ⟨known, kept, rfl⟩ := Option.map_eq_some_iff.1 command.symm
    obtain ⟨kept, promoted⟩ := Option.filter_eq_some_iff.1 kept
    obtain ⟨-, first, rest, held, -, lasts⟩ := next.command known kept
    exact ⟨first, rest, held, lasts promoted⟩

end Step

section Run

structure Watch.Sound (watch : Watch) : Prop where
  track : ∀ t ∈ watch.track, Remembers watch.seen t ∧ lasting watch.seen t.identity ≠ none
  empty : watch.track = none → watch.seen = []
  steady : ∀ front o back, watch.seen = front ++ o :: back → Steady front o

theorem remembers_fresh {seen : List Observation} {input : Input} (none_ : lasting seen input.identity = none) :
    Remembers seen input.fresh := by
  have none_ : lasting seen input.fresh.identity = none := none_
  constructor
  case finals =>
    intro id
    rw [finalsSeen, none_]
    rfl
  case shown | reported =>
    rw [none_]
    rfl
  case agent => exact fun _ => rfl
  case since =>
    intro _ is
    rw [none_] at is
    cases is
  case outcome | retained | command =>
    intro _ is
    cases is

theorem Watch.Sound.tracked {watch : Watch} (sound : watch.Sound) (input : Input) :
    Remembers watch.seen (input.tracked watch.track) ∧ (input.tracked watch.track).identity = input.identity := by
  cases is : watch.track with
  | none =>
    refine ⟨remembers_fresh ?_, rfl⟩
    rw [sound.empty is]
    rfl
  | some t =>
    obtain ⟨remembers, last⟩ := sound.track t is
    by_cases same : t.identity = input.identity
    · rw [Input.tracked, if_pos same]
      exact ⟨remembers, same⟩
    · rw [Input.tracked, if_neg same]
      refine ⟨remembers_fresh (Option.eq_none_iff_forall_not_mem.2 fun o inside => same ?_), rfl⟩
      obtain ⟨a, last⟩ := Option.ne_none_iff_exists'.1 last
      obtain ⟨front, split, identity⟩ := lasting_some last
      obtain ⟨front', split', identity'⟩ := lasting_some inside
      rw [split] at split'
      rw [← identity, ← identity', List.singleton_inj.1 (List.append_inj' split' rfl).2]

theorem Watch.Sound.take {watch : Watch} (sound : watch.Sound) (input : Input) : (watch.take input).Sound := by
  obtain ⟨remembers, identity⟩ := sound.tracked input
  have observed := observe_observed input watch.track
  rw [Watch.take]
  generalize input.observe watch.track = result at observed ⊢
  obtain ⟨after, live⟩ := result
  refine ⟨fun t is => ?_, fun none_ => (nomatch none_), fun front o back split => ?_⟩
  · obtain rfl := Option.some.inj is
    refine ⟨remembers.next identity observed, ?_⟩
    rw [observed.identity, identity]
    exact Option.ne_none_iff_exists'.2 ⟨_, lasting_snoc watch.seen ⟨input, live⟩⟩
  · rcases List.eq_nil_or_concat back with rfl | ⟨back, other, rfl⟩
    · obtain ⟨rfl, is⟩ := List.append_inj' split rfl
      rw [← List.singleton_inj.1 is]
      exact remembers.steady identity observed
    · rw [List.concat_eq_append, ← List.cons_append, ← List.append_assoc] at split
      exact sound.steady front o back (List.append_inj' split rfl).1

theorem watch_sound (inputs : List Input) : (watch inputs).Sound := by
  refine run_invariant ⟨fun _ is => (nomatch is), fun _ => rfl, fun front o back split => ?_⟩ (fun _ input sound => sound.take input) inputs
  exact absurd split (by simp [Watch.new])

theorem seen_inputs (inputs : List Input) : (watch inputs).seen.map Observation.input = inputs := by
  induction inputs using List.reverseRecOn with
  | nil => rfl
  | append_singleton inputs input ih =>
    rw [watch, run_snoc, ← watch, Watch.take, List.map_append, ih]
    rfl

-- However a pane is read, what each reading shows is steady.
theorem times_are_stable (inputs : List Input) :
    (watch inputs).seen.map Observation.input = inputs ∧
      ∀ front o back, (watch inputs).seen = front ++ o :: back → Steady front o :=
  ⟨seen_inputs inputs, (watch_sound inputs).steady⟩

end Run

end Kido.Statuses
