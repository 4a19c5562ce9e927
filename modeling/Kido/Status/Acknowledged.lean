import Kido.Status.Seen

set_option autoImplicit false

namespace Kido.Statuses

open Shared

def AgentState.outcome : AgentState → Option Outcome
  | .idle outcome => outcome
  | .running _ | .waiting .. => none

def Phase.last : Phase → Option CommandExit
  | .idle last | .pending last => last
  | .unknown | .running .. => none

section Outcomes

variable {status : PaneStatus}

theorem outcomes_agent {agent : Agent} (isAgent : status.kind.agent = some agent) :
    outcomes status = (agent.state.outcome.map fun outcome => (.agent, outcome), none) := by
  rw [outcomes, isAgent]
  dsimp only
  rcases agent.state with _ | _ | _ | _ <;> rfl

theorem outcomes_shell {shell : Shell} (noAgent : status.kind.agent = none) (isShell : status.kind.shell = some shell) :
    outcomes status = ((shell.report.bind fun report => report.state.outcome).map fun outcome => (.report, outcome),
      shell.phase.last) := by
  rw [outcomes, noAgent, isShell]
  obtain ⟨phase, report⟩ := shell
  rcases report with _ | ⟨_, _, _ | _ | _ | _⟩ <;> cases phase <;> rfl

end Outcomes

namespace Seen

variable {seen : Seen} {pane : Pane}

theorem mark_shows {mark : Mark} (ended : mark = .done ∨ mark = .failed) :
    seen.mark pane = mark ↔ ∃ event, seen.shows pane = some event ∧ event.mark = mark := by
  unfold Seen.mark shows
  cases alive : if pane.dead then none else pane.status with
  | none => rcases ended with rfl | rfl <;> simp
  | some status =>
    dsimp only
    cases isAgent : status.kind.agent with
    | some agent =>
      simp only [unseen, outcomes_agent isAgent]
      cases state : agent.state with
      | running progress => rcases ended with rfl | rfl <;> simp [AgentState.outcome]
      | waiting kind progress => rcases ended with rfl | rfl <;> simp [AgentState.outcome]
      | idle outcome =>
        simp only [AgentState.outcome]
        cases outcome with
        | none => rcases ended with rfl | rfl <;> simp
        | some outcome =>
          cases fresh : decide (((seen.keys pane.id).getD {}).outcome ≠ some (.agent, outcome.serial)) with
          | false => rcases ended with rfl | rfl <;> simp [Option.filter, fresh]
          | true => simp [Option.filter, fresh, Ended.ofOutcome, Ended.mark]
    | none =>
      cases isShell : status.kind.shell with
      | none => rcases ended with rfl | rfl <;> simp
      | some shell =>
        simp only [unseen, outcomes_shell isAgent isShell]
        generalize (Option.filter _ shell.phase.last) = unseenExit
        obtain ⟨phase, report⟩ := shell
        cases report with
        | none =>
          have exits : (unseenExit.map CommandExit.mark).getD .none = mark ↔
              ∃ event, unseenExit.map Ended.ofExit = some event ∧ event.mark = mark := by
            cases unseenExit with
            | none => rcases ended with rfl | rfl <;> simp
            | some exit => simp [Ended.ofExit, Ended.mark, CommandExit.mark]
          cases phase with
          | running origin fullscreen => cases fullscreen <;> rcases ended with rfl | rfl <;> simp
          | unknown => exact exits
          | pending last => exact exits
          | idle last => exact exits
        | some report =>
          obtain ⟨since, msg, state⟩ := report
          cases state with
          | running progress => rcases ended with rfl | rfl <;> simp
          | waiting kind progress => rcases ended with rfl | rfl <;> simp
          | idle outcome =>
            simp only [Option.bind_some, AgentState.outcome]
            -- Only an outcome that counts as unseen stands before the exit.
            have alone : (unseenExit.bind fun exit => if exit.code ≠ 0 then some Mark.failed else none).getD .none = mark ↔
                ∃ event, (unseenExit.bind fun exit => if exit.code ≠ 0 then some (Ended.ofExit exit) else none) = some event ∧
                  event.mark = mark := by
              cases unseenExit with
              | none => rcases ended with rfl | rfl <;> simp
              | some exit => by_cases zero : exit.code = 0 <;> rcases ended with rfl | rfl <;> simp [zero, Ended.ofExit, Ended.mark]
            cases outcome with
            | none =>
              cases unseenExit with
              | none => exact alone
              | some exit => by_cases zero : exit.code = 0 <;> simpa [zero] using alone
            | some outcome =>
              obtain ⟨serial, result⟩ := outcome
              cases fresh : decide (((seen.keys pane.id).getD {}).outcome ≠ some (.report, serial)) with
              | false =>
                cases unseenExit with
                | none => simpa [Option.filter, fresh] using alone
                | some exit => by_cases zero : exit.code = 0 <;> simpa [Option.filter, fresh, zero] using alone
              | true =>
                cases result with
                | failure => cases unseenExit <;> simp [Option.filter, fresh, Ended.ofOutcome, Ended.mark, OutcomeResult.mark]
                | success =>
                  cases unseenExit with
                  | none => simp [Option.filter, fresh, Ended.ofOutcome, Ended.mark, OutcomeResult.mark]
                  | some exit =>
                    by_cases zero : exit.code = 0 <;>
                      simp [Option.filter, fresh, zero, Ended.ofOutcome, Ended.ofExit, Ended.mark, OutcomeResult.mark]

end Seen

def Keys.has (keys : Keys) : Ended → Bool
  | .agent serial _ => keys.outcome = some (.agent, serial)
  | .report serial _ => keys.outcome = some (.report, serial)
  | .exit startedAt endedAt _ => keys.exit = some (startedAt, endedAt)

theorem has_keysOf (status : Option PaneStatus) (event : Ended) :
    (keysOf status).has event = true ↔ ∃ shown, status = some shown ∧ ∃ carried ∈ ended shown, carried.sameTime event = true := by
  cases status with
  | none => cases event <;> simp [keysOf, Keys.has]
  | some status =>
    simp only [keysOf, ended, Option.some.injEq, exists_eq_left']
    generalize outcomes status = found
    rcases found with ⟨_ | ⟨_ | _, outcome⟩, _ | exit⟩ <;> cases event <;>
      simp [Keys.has, Ended.ofOutcome, Ended.ofExit, Ended.sameTime]

namespace Seen

variable {seen : Seen}

theorem unseen_outcome {pane : PaneId} {status : PaneStatus} {source : Source} {outcome : Outcome}
    (found : (seen.unseen pane status).1 = some (source, outcome)) :
    ((seen.keys pane).getD {}).has (.ofOutcome source outcome) = false := by
  have fresh := (Option.filter_eq_some_iff.1 found).2
  cases source <;> simpa [Keys.has, Ended.ofOutcome] using fresh

theorem unseen_exit {pane : PaneId} {status : PaneStatus} {exit : CommandExit} (found : (seen.unseen pane status).2 = some exit) :
    (Ended.ofExit exit).early seen.started = false ∧ ((seen.keys pane).getD {}).has (.ofExit exit) = false := by
  have fresh := (Option.filter_eq_some_iff.1 found).2
  simpa [Keys.has, Ended.ofExit, Ended.early] using fresh

theorem shows_fresh {pane : Pane} {event : Ended} (found : seen.shows pane = some event) :
    event.early seen.started = false ∧ ((seen.keys pane.id).getD {}).has event = false := by
  unfold shows at found
  cases alive : if pane.dead then none else pane.status with
  | none =>
    rw [alive] at found
    cases found
  | some status =>
    rw [alive] at found
    dsimp only at found
    have outcomes {event : Ended}
        (here : ((seen.unseen pane.id status).1.map fun unseen => Ended.ofOutcome unseen.1 unseen.2) = some event) :
        event.early seen.started = false ∧ ((seen.keys pane.id).getD {}).has event = false := by
      obtain ⟨⟨source, outcome⟩, unseen, rfl⟩ := Option.map_eq_some_iff.1 here
      exact ⟨by cases source <;> rfl, unseen_outcome unseen⟩
    have exits {event : Ended} (here : (seen.unseen pane.id status).2.map Ended.ofExit = some event) :
        event.early seen.started = false ∧ ((seen.keys pane.id).getD {}).has event = false := by
      obtain ⟨exit, unseen, rfl⟩ := Option.map_eq_some_iff.1 here
      exact unseen_exit unseen
    split at found
    · exact outcomes found
    · cases found
    · split at found
      · split at found
        · cases found
        · cases found
        · split at found
          · rename_i first second
            split at found
            · exact exits (second ▸ found)
            · exact outcomes (first.trans found)
          · rename_i first second
            exact outcomes (first.trans found)
          · rename_i first second
            split at found
            · exact exits (second ▸ found)
            · cases found
          · cases found
      · cases found
      · exact exits found

theorem fresh_shows {id : PaneId} {event : Ended} (late : event.early seen.started = false)
    (fresh : ((seen.keys id).getD {}).has event = false) : ∃ pane : Pane, pane.id = id ∧ seen.shows pane = some event := by
  cases event with
  | agent serial result =>
    refine ⟨⟨id, false, some ⟨.host (.someAgent "" ⟨0, none, .idle (some ⟨serial, result⟩)⟩), ⟨0, []⟩⟩⟩, rfl, ?_⟩
    have new : ((seen.keys id).getD {}).outcome ≠ some (.agent, serial) := by simpa [Keys.has] using fresh
    simp [shows, unseen, outcomes, Live.agent, Local.agent, Option.filter, new, Ended.ofOutcome]
  | report serial result =>
    refine ⟨⟨id, false, some ⟨.host (.terminal ⟨.unknown, some ⟨0, none, .idle (some ⟨serial, result⟩)⟩⟩), ⟨0, []⟩⟩⟩, rfl, ?_⟩
    have new : ((seen.keys id).getD {}).outcome ≠ some (.report, serial) := by simpa [Keys.has] using fresh
    simp [shows, unseen, outcomes, Live.agent, Local.agent, Live.shell, Local.shell, Option.filter, new, Ended.ofOutcome]
  | exit startedAt endedAt code =>
    refine ⟨⟨id, false, some ⟨.host (.terminal ⟨.idle (some ⟨code, "", startedAt, endedAt⟩), none⟩), ⟨0, []⟩⟩⟩, rfl, ?_⟩
    have new : ((seen.keys id).getD {}).exit ≠ some (startedAt, endedAt) := by simpa [Keys.has] using fresh
    have late : seen.started < endedAt := by simpa [Ended.early] using late
    simp [shows, unseen, outcomes, Live.agent, Local.agent, Live.shell, Local.shell, Option.filter, new, late, Ended.ofExit]

end Seen

structure Call where
  shown : List PaneId
  attending : Bool
  panes : List Pane

-- The rows of a pane that a call shows while the pane is attended.
def Call.showings (call : Call) (id : PaneId) : List Pane :=
  if call.attending ∧ id ∈ call.shown then call.panes.filter fun pane => pane.id = id else []

def lastShown (calls : List Call) (id : PaneId) : Option Pane := (calls.flatMap fun call => call.showings id).getLast?

namespace Seen

def after (started : Nat) (calls : List Call) : Seen :=
  run (fun seen call => seen.observe call.shown call.attending call.panes) (new started) calls

theorem inserts_keys (seen : Seen) (panes : List Pane) (id : PaneId) :
    let after := panes.foldl (fun seen pane => seen.insert pane.id (keysOf pane.status)) seen
    after.started = seen.started ∧
      after.keys id = ((panes.filter fun pane => pane.id = id).getLast?.map fun pane => keysOf pane.status).or (seen.keys id) := by
  induction panes using List.reverseRecOn with
  | nil => exact ⟨rfl, rfl⟩
  | append_singleton panes pane ih =>
    simp only [List.foldl_append, List.foldl_cons, List.foldl_nil]
    refine ⟨ih.1, ?_⟩
    by_cases same : pane.id = id
    · subst same
      simp [insert]
    · have kept := ih.2
      simp only [insert, Function.update_of_ne (Ne.symm same)] at kept ⊢
      rw [kept, List.filter_append, List.filter_cons_of_neg (by simpa using same), List.filter_nil, List.append_nil]

theorem observe_keys (seen : Seen) (call : Call) (id : PaneId) :
    (seen.observe call.shown call.attending call.panes).started = seen.started ∧
      (seen.observe call.shown call.attending call.panes).keys id =
        ((call.showings id).getLast?.map fun pane => keysOf pane.status).or (seen.keys id) := by
  unfold observe Call.showings
  by_cases attending : call.attending = true
  · have inserted := inserts_keys seen (call.panes.filter fun pane => pane.id ∈ call.shown) id
    rw [if_pos attending, inserted.1, inserted.2, List.filter_filter]
    refine ⟨rfl, ?_⟩
    by_cases shown : id ∈ call.shown
    · rw [if_pos ⟨attending, shown⟩]
      congr 4
      funext pane
      by_cases same : pane.id = id <;> simp [same, shown]
    · rw [if_neg fun both => shown both.2, List.filter_eq_nil_iff.2]
      intro pane _
      by_cases same : pane.id = id <;> simp [same, shown]
  · rw [if_neg attending, if_neg fun both => attending both.1]
    exact ⟨rfl, rfl⟩

theorem after_snoc (started : Nat) (calls : List Call) (call : Call) :
    after started (calls ++ [call]) = (after started calls).observe call.shown call.attending call.panes :=
  run_snoc _ _ _ _

theorem after_keys (started : Nat) (calls : List Call) (id : PaneId) :
    (after started calls).started = started ∧
      (after started calls).keys id = (lastShown calls id).map fun pane => keysOf pane.status := by
  induction calls using List.reverseRecOn with
  | nil => exact ⟨rfl, rfl⟩
  | append_singleton calls call ih =>
    have step := observe_keys (after started calls) call id
    rw [after_snoc, step.1, step.2, ih.1, ih.2]
    refine ⟨rfl, ?_⟩
    rw [lastShown, lastShown, List.flatMap_append, List.flatMap_singleton, List.getLast?_append]
    cases (call.showings id).getLast? <;> rfl

end Seen

theorem never_shows_iff (started : Nat) (calls : List Call) (id : PaneId) (event : Ended) :
    (∀ pane : Pane, pane.id = id → (Seen.after started calls).shows pane ≠ some event) ↔
      event.early started = true ∨ ∃ pane status, lastShown calls id = some pane ∧ pane.status = some status ∧
        ∃ carried ∈ ended status, carried.sameTime event = true := by
  obtain ⟨start, keys⟩ := Seen.after_keys started calls id
  have remembered : (((Seen.after started calls).keys id).getD {}).has event = true ↔ ∃ pane status, lastShown calls id = some pane ∧
      pane.status = some status ∧ ∃ carried ∈ ended status, carried.sameTime event = true := by
    rw [keys]
    cases lastShown calls id with
    | none => cases event <;> simp [Keys.has]
    | some pane =>
      rw [Option.map_some, Option.getD_some, has_keysOf]
      simp
  rw [← remembered]
  constructor
  · intro never
    by_contra neither
    rw [not_or, Bool.not_eq_true, Bool.not_eq_true] at neither
    obtain ⟨pane, same, shows⟩ := Seen.fresh_shows (start.symm ▸ neither.1) neither.2
    exact never pane same shows
  · intro either pane same shows
    obtain ⟨late, fresh⟩ := Seen.shows_fresh shows
    rw [start] at late
    rw [same] at fresh
    rcases either with early | known
    · rw [early] at late
      cases late
    · rw [known] at fresh
      cases fresh

-- The mark shows as done or failed what `shows` says. It never shows an outcome, whatever the pane's status comes to be, exactly
-- when the last status of the pane that was shown while it was attended had it in the same place, or it is an exit from before the
-- client started.
theorem outcome_stays_seen (started : Nat) (calls : List Call) :
    (∀ pane mark, mark = .done ∨ mark = .failed → ((Seen.after started calls).mark pane = mark ↔
      ∃ event, (Seen.after started calls).shows pane = some event ∧ event.mark = mark)) ∧
    ∀ id event, (∀ pane : Pane, pane.id = id → (Seen.after started calls).shows pane ≠ some event) ↔
      event.early started = true ∨ ∃ pane status, lastShown calls id = some pane ∧ pane.status = some status ∧
        ∃ carried ∈ ended status, carried.sameTime event = true :=
  ⟨fun _ _ => Seen.mark_shows, never_shows_iff started calls⟩

-- The event was in a status of the pane that was shown while the pane was attended.
def WasShown (calls : List Call) (id : PaneId) (event : Ended) : Prop :=
  ∃ call ∈ calls, ∃ pane ∈ call.showings id, ∃ status, pane.status = some status ∧ event ∈ ended status

def rowOf (phase : Phase) : Pane := ⟨⟨1⟩, false, some ⟨.host (.terminal ⟨phase, none⟩), ⟨0, []⟩⟩⟩

def attend (pane : Pane) : Call := ⟨[pane.id], true, [pane]⟩

-- A failed command was shown, then a program that took the whole screen for a while.
theorem full_screen_forgets :
    let failed := rowOf (.idle (some ⟨1, "make", 20, 30⟩))
    let fullScreen := rowOf (.running .unknown true)
    (Seen.after 10 [attend failed]).mark failed = .none ∧
      (Seen.after 10 [attend failed, attend fullScreen]).mark failed = .failed ∧
      ¬∀ calls (pane : Pane) event, WasShown calls pane.id event → (Seen.after 10 calls).shows pane ≠ some event := by
  intro failed fullScreen
  refine ⟨by decide, by decide, ?_⟩
  intro stays
  exact stays [attend failed, attend fullScreen] failed (.exit 20 30 1)
    ⟨attend failed, List.mem_cons_self, failed, by decide, _, rfl, by decide⟩ (by decide)

end Kido.Statuses
