import Kido.Attach.Sound

set_option autoImplicit false

namespace Kido.Attach

open Kido.Runtimes (Exit)
open Kido.Children (Act Processes)

variable {remote : Remote} {step : Option (Nat × Role)} {reported : Option String} {answers : Answers}

theorem tryWait_alive {pid : Nat} (alive : remote.processes.status pid = .alive) :
    remote.tryWait answers pid = (some (answers.look pid), { remote with processes := remote.processes.waited pid (answers.look pid) }) := by
  unfold Remote.tryWait
  rw [if_pos alive]

-- A master that was not waited for before is asked for its end.
theorem masterRunning_alive {pid : Nat} (master : remote.master = some pid) (alive : remote.processes.status pid = .alive) :
    remote.masterRunning answers =
      match answers.look pid with
      | none => (true, { remote with processes := remote.processes.waited pid none })
      | some exit => (false, { remote with master := none, processes := remote.processes.waited pid (some exit) }) := by
  unfold Remote.masterRunning
  rw [master]
  dsimp only
  rw [tryWait_alive alive]
  cases answers.look pid <;> simp only [master]

theorem Ready.masterRunning (ready : Ready remote step) (answers : Answers) :
    match remote.masterRunning answers with
    | (true, after) => Ready after step ∧ Seen after ∧ after = { remote with processes := after.processes }
    | (false, after) => Ready after step ∧ after = { remote with master := none, processes := after.processes } := by
  obtain master | ⟨pid, master⟩ := Option.eq_none_or_eq_some remote.master
  · have same : remote.masterRunning answers = (false, remote) := by
      unfold Remote.masterRunning
      rw [master]
    rw [same]
    refine ⟨ready, ?_⟩
    rw [← master]
  · rw [masterRunning_alive master (ready.master master)]
    cases answers.look pid with
    | none => exact ⟨ready.looked master, ⟨pid, master, List.mem_cons_self⟩, rfl⟩
    | some exit => exact ⟨ready.masterless master exit, rfl⟩

theorem Ready.forgets (ready : Ready remote step) : Ready { remote with remoteSocket := none } step :=
  ⟨ready.tracked, ready.command, ready.running, ready.held⟩

theorem Ready.staged (ready : Ready remote step) (stage : Stage) : Ready { remote with stage := stage } step :=
  ⟨ready.tracked, ready.command, ready.running, ready.held⟩

-- Where the link goes on after an error.
def Remote.Again (remote : Remote) : Prop := remote.stage = .down ∨ ∃ deadline, remote.stage = .master deadline

theorem Ready.reconnect (ready : Ready remote none) :
    Sound (remote.reconnect answers) reported ∧ (remote.reconnect answers).Again := by
  have running := ready.forgets.masterRunning answers
  unfold Remote.reconnect
  generalize Remote.masterRunning _ answers = result at running
  obtain ⟨runs, after⟩ := result
  cases runs with
  | true =>
    obtain ⟨ready, ⟨pid, master, _⟩, same⟩ := running
    refine ⟨⟨none, ready.staged _, rfl, ?_, ?_⟩, .inr ⟨_, rfl⟩⟩
    · simp [master]
    · rw [same]
  | false =>
    obtain ⟨ready, same⟩ := running
    refine ⟨⟨none, ready.staged _, rfl, ?_⟩, .inl rfl⟩
    rw [same]

-- What an advance tells, and where it leaves the link.
def Leads (reported : Option String) : Except Error Progress × Remote → Prop
  | (.ok .up, after) => Sound after reported ∧ after.stage = .up ∧ Seen after
  | (.ok (.pending _), after) => Sound after reported
  | (.error _, after) => Sound after reported ∧ after.Again

theorem Ready.retryForward (ready : Ready remote none) {error : Error} : Leads reported (remote.retryForward answers error) := ready.reconnect

-- A command is spawned, or the link is tried again.
def Remote.spawned (remote : Remote) (answers : Answers) (role : Role) (args : List String) (deadline : Nat) (stage : Nat → Stage) :
    Except Error Progress × Remote :=
  match remote.spawnSsh answers role args with
  | .error error => remote.retryForward answers error
  | .ok (child, remote) => (.ok (.pending deadline), { remote with stage := stage child })

theorem startStep_query (answers : Answers) (none : remote.remoteSocket = none) :
    ∃ args deadline, remote.startStep answers = remote.spawned answers .query args deadline fun child => .query child deadline := by
  unfold Remote.startStep
  rw [none]
  exact ⟨_, _, rfl⟩

theorem startStep_forward {socket : String} (answers : Answers) (some : remote.remoteSocket = some socket) :
    ∃ args deadline, remote.startStep answers = remote.spawned answers (.forward socket) args deadline fun child => .forward child deadline := by
  unfold Remote.startStep
  rw [some]
  exact ⟨_, _, rfl⟩

theorem Ready.spawned (ready : Ready remote none) {role : Role} {args : List String} {deadline : Nat} {stage : Nat → Stage}
    (command : role ≠ .master) (free : ∀ socket, role = .cancel socket → remote.forwardedSocket = none)
    (staged : ∀ child after, after = { remote with stage := stage child, processes := remote.processes.spawn role args } →
      Staged after (some (child, role)) reported) :
    Leads reported (remote.spawned answers role args deadline stage) := by
  unfold Remote.spawned Remote.spawnSsh
  cases answers.refused with
  | some message => exact ready.retryForward
  | none => exact ⟨_, (ready.starts command free args).staged _, staged _ _ rfl⟩

-- A process more is spawned; the master was seen before.
theorem Seen.spawn (seen : Seen remote) (role : Role) (args : List String) (stage : Stage) :
    Seen { remote with stage := stage, processes := remote.processes.spawn role args } := by
  obtain ⟨pid, master, looked⟩ := seen
  exact ⟨pid, master, List.mem_cons_of_mem _ looked⟩

theorem Ready.startStep (ready : Ready remote none) (seen : Seen remote)
    (next : remote.remoteSocket = none ∨
      ∃ socket, remote.remoteSocket = some socket ∧ reported = some socket ∧ remote.forwardedSocket = none) :
    Leads reported (remote.startStep answers) := by
  obtain none | ⟨socket, some, told, free⟩ := next
  · obtain ⟨args, deadline, same⟩ := startStep_query answers none
    rw [same]
    apply ready.spawned
    case command => exact nofun
    case free => exact nofun
    rintro child after rfl
    exact ⟨rfl, seen.spawn _ _ _⟩
  · obtain ⟨args, deadline, same⟩ := startStep_forward answers some
    rw [same]
    apply ready.spawned
    case command => exact nofun
    case free => exact nofun
    rintro child after rfl
    exact ⟨socket, rfl, some, told, free, seen.spawn _ _ _⟩

-- What the query told is up, or an old forward is cancelled first, or it is forwarded.
theorem Ready.queried (ready : Ready remote none) (seen : Seen remote) (found : String) :
    Leads (some found) (remote.queried answers found) := by
  obtain ⟨pid, master, looked⟩ := seen
  unfold Remote.queried
  split
  next same => exact ⟨⟨none, ready.staged _, rfl, same, ⟨found, rfl⟩, .inr ⟨pid, master, looked⟩⟩, rfl, pid, master, looked⟩
  next =>
    have told : Ready { remote with remoteSocket := some found } none := ⟨ready.tracked, ready.command, ready.running, ready.held⟩
    dsimp only
    split
    next old forwarded =>
      have free : Ready { remote with remoteSocket := some found, forwardedSocket := none } none :=
        ⟨ready.tracked, ready.command, ready.running, by simp⟩
      apply free.spawned
      case command => simp
      case free => exact fun _ _ => rfl
      rintro child after rfl
      exact ⟨old, found, rfl, rfl, rfl, rfl, pid, master, List.mem_cons_of_mem _ looked⟩
    next free => exact told.startStep ⟨pid, master, looked⟩ (.inr ⟨found, rfl, rfl, free⟩)

-- What the query told, if it did.
def Remote.reports (remote : Remote) (answers : Answers) : Option String :=
  match remote.stage with
  | .query child _ =>
    match answers.look child with
    | some exit => (Attach.remoteSocket answers.quoted remote.host exit answers.out answers.err).toOption
    | none => none
  | _ => none

-- The command of the stage was waited for.
def Remote.waited (remote : Remote) (child : Nat) (exit : Option Exit) : Remote :=
  { remote with processes := remote.processes.waited child exit }

theorem step_alive {child deadline : Nat} (alive : remote.processes.status child = .alive) :
    remote.step answers child deadline =
      match answers.look child with
      | some exit => (remote.waited child (some exit)).stepped answers exit
      | none =>
        if answers.now < deadline then (.ok (.pending deadline), remote.waited child none)
        else ((remote.waited child none).kill answers child).retryForward answers (.timeout remote.host) := by
  unfold Remote.step
  rw [tryWait_alive alive]
  cases answers.look child <;> rfl

theorem Seen.waited (seen : Seen remote) (child : Nat) (exit : Option Exit) : Seen (remote.waited child exit) := by
  obtain ⟨pid, master, looked⟩ := seen
  exact ⟨pid, master, List.mem_cons_of_mem _ looked⟩

-- The command is looked at and runs.
theorem Ready.looks {child : Nat} {role : Role} (ready : Ready remote (some (child, role))) :
    Ready (remote.waited child none) (some (child, role)) :=
  ⟨ready.tracked.running (.inr rfl), ready.command, ready.running, ready.held⟩

theorem Ready.killed {child : Nat} {role : Role} (ready : Ready remote (some (child, role)))
    (free : ∀ socket, role = .forward socket → remote.forwardedSocket = none) : Ready (remote.kill answers child) none := by
  have signalled := ready.signalled (.inr rfl)
  exact signalled.done free answers.killed

theorem Ready.ended {child : Nat} {role : Role} (ready : Ready remote (some (child, role)))
    (free : ∀ socket, role = .forward socket → remote.forwardedSocket = none) (exit : Exit) :
    Ready (remote.waited child (some exit)) none := ready.done free exit

-- The forward was made.
theorem Ready.forwarded {child : Nat} {socket : String} (ready : Ready remote (some (child, .forward socket)))
    (free : remote.forwardedSocket = none) :
    Ready { remote.waited child (some (.exited 0)) with
      forwardedSocket := some socket, remoteSocket := none, stage := .up, interactive := false } none := by
  have done := ready.ended (fun _ _ => free) (.exited 0)
  refine ⟨done.tracked, done.command, done.running, ?_⟩
  rintro other ⟨⟩
  have running : (forwardsIn remote.processes.acts).running = some (child, socket) := ready.running
  simp [Remote.waited, Processes.waited, forwardsIn, Forwards.after, running]

theorem stepped_query {child deadline : Nat} {exit : Exit} (ready : Ready remote none) (seen : Seen remote)
    (stage : remote.stage = .query child deadline) :
    Leads ((Attach.remoteSocket answers.quoted remote.host exit answers.out answers.err).toOption.or reported) (remote.stepped answers exit) := by
  unfold Remote.stepped
  rw [stage]
  dsimp only
  cases Attach.remoteSocket answers.quoted remote.host exit answers.out answers.err with
  | error error => exact ready.retryForward
  | ok found => exact ready.queried seen found

theorem stepped_cancel {child deadline : Nat} {exit : Exit} {socket : String} (ready : Ready remote none) (seen : Seen remote)
    (stage : remote.stage = .cancel child deadline) (wanted : remote.remoteSocket = some socket) (told : reported = some socket)
    (free : remote.forwardedSocket = none) : Leads reported (remote.stepped answers exit) := by
  unfold Remote.stepped
  rw [stage]
  dsimp only
  split
  next => exact ready.startStep seen (.inr ⟨socket, wanted, told, free⟩)
  next => exact ready.retryForward

-- The command of a stage that has one is looked at.
theorem Sound.stepping {child : Nat} (sound : Sound remote reported) (runs : remote.stage.child = some child) (deadline : Nat) :
    Leads ((remote.reports answers).or reported) (remote.step answers child deadline) := by
  obtain ⟨step, ready, staged⟩ := sound
  have again {role : Role} (ready : Ready remote (some (child, role))) (free : ∀ socket, role = .forward socket → remote.forwardedSocket = none) :
      Leads reported (((remote.waited child none).kill answers child).retryForward answers (.timeout remote.host)) :=
    (ready.looks.killed free).retryForward
  unfold Staged at staged
  cases stage : remote.stage with
  | down => simp [stage, Stage.child] at runs
  | master _ => simp [stage, Stage.child] at runs
  | up => simp [stage, Stage.child] at runs
  | query other until_ =>
    rw [stage] at staged runs
    cases runs
    obtain ⟨rfl, seen⟩ := staged
    rw [step_alive (ready.command_alive rfl)]
    unfold Remote.reports
    rw [stage]
    dsimp only
    cases answers.look child with
    | none =>
      dsimp only
      split
      next =>
        refine ⟨_, ready.looks, ?_⟩
        unfold Staged
        rw [show (remote.waited child none).stage = .query child until_ from stage]
        exact ⟨rfl, seen.waited child none⟩
      next => exact again ready nofun
    | some exit => exact stepped_query (ready.ended nofun exit) (seen.waited child _) stage
  | forward other until_ =>
    rw [stage] at staged runs
    cases runs
    obtain ⟨socket, rfl, wanted, told, free, seen⟩ := staged
    have none : remote.reports answers = none := by
      unfold Remote.reports
      rw [stage]
    rw [none, step_alive (ready.command_alive rfl)]
    cases answers.look child with
    | none =>
      dsimp only
      split
      next =>
        refine ⟨_, ready.looks, ?_⟩
        unfold Staged
        rw [show (remote.waited child Option.none).stage = .forward child until_ from stage]
        exact ⟨socket, rfl, wanted, told, free, seen.waited child Option.none⟩
      next => exact again ready fun _ _ => free
    | some exit =>
      dsimp only
      unfold Remote.stepped
      rw [show (remote.waited child (some exit)).stage = .forward child until_ from stage]
      dsimp only
      split
      next zero =>
        obtain ⟨pid, master, looked⟩ := seen.waited child (some exit)
        subst zero
        have forwarded := ready.forwarded free
        rw [← wanted] at forwarded
        exact ⟨⟨Option.none, forwarded, rfl, wanted.trans told.symm, ⟨socket, told⟩, .inr ⟨pid, master, looked⟩⟩, rfl, pid, master, looked⟩
      next => exact (ready.ended (fun _ _ => free) exit).retryForward
  | cancel other until_ =>
    rw [stage] at staged runs
    cases runs
    obtain ⟨old, socket, rfl, wanted, told, free, seen⟩ := staged
    have none : remote.reports answers = none := by
      unfold Remote.reports
      rw [stage]
    rw [none, step_alive (ready.command_alive rfl)]
    cases answers.look child with
    | none =>
      dsimp only
      split
      next =>
        refine ⟨_, ready.looks, ?_⟩
        unfold Staged
        rw [show (remote.waited child Option.none).stage = .cancel child until_ from stage]
        exact ⟨old, socket, rfl, wanted, told, free, seen.waited child Option.none⟩
      next => exact again ready nofun
    | some exit => exact stepped_cancel (ready.ended nofun exit) (seen.waited child _) stage wanted told free

end Kido.Attach

namespace Kido.Attach

open Kido.Runtimes (Exit)
open Kido.Children (Act Processes)

variable {remote : Remote} {reported : Option String} {answers : Answers}

-- A master that was asked to end, or killed, was waited for.
theorem Ready.stopMaster {step : Option (Nat × Role)} (ready : Ready remote step) (answers : Answers) :
    Ready (remote.stopMaster answers) step ∧ (remote.stopMaster answers).master = none := by
  obtain master | ⟨pid, master⟩ := Option.eq_none_or_eq_some remote.master
  · have same : remote.stopMaster answers = remote := by
      unfold Remote.stopMaster
      rw [master]
    rw [same]
    exact ⟨ready, master⟩
  · have signalled := ready.signalled (.inl ⟨master, rfl⟩)
    unfold Remote.stopMaster
    rw [master]
    dsimp only
    cases answers.stopped with
    | some exit => exact ⟨signalled.masterless master exit, rfl⟩
    | none =>
      have looked := signalled.looked master
      exact ⟨(looked.signalled (.inl ⟨master, rfl⟩)).masterless master answers.killed, rfl⟩

-- The first part of an advance: a link that is up is looked at.
theorem Sound.noticed (sound : Sound remote reported) (answers : Answers) :
    Sound (remote.noticed answers) reported ∧
      ((remote.noticed answers).stage = .up → Seen (remote.noticed answers)) := by
  unfold Remote.noticed
  split
  next up =>
    obtain ⟨step, ready, staged⟩ := sound
    unfold Staged at staged
    rw [up] at staged
    obtain ⟨rfl, forwarded, told, _⟩ := staged
    have running := ready.masterRunning answers
    generalize remote.masterRunning answers = result at running
    obtain ⟨runs, after⟩ := result
    cases runs with
    | true =>
      obtain ⟨ready, seen, same⟩ := running
      refine ⟨⟨none, ready, ?_⟩, fun _ => seen⟩
      have stage : after.stage = .up := by rw [same]; exact up
      have still : after.forwardedSocket = reported := by rw [same]; exact forwarded
      unfold Staged
      rw [show (if true = true then after else { after with stage := .down }).stage = .up from stage]
      exact ⟨rfl, still, told, .inr seen⟩
    | false =>
      obtain ⟨ready, same⟩ := running
      refine ⟨⟨none, ready.staged .down, rfl, ?_⟩, nofun⟩
      rw [same]
      rfl
  next other => exact ⟨sound, fun up => absurd up other⟩

theorem Sound.lost (sound : Sound remote reported) : Sound (remote.lost answers).2 reported := by
  unfold Remote.lost
  split
  next up =>
    obtain ⟨step, ready, staged⟩ := sound
    unfold Staged at staged
    rw [up] at staged
    obtain ⟨rfl, forwarded, told, _⟩ := staged
    have running := ready.masterRunning answers
    generalize remote.masterRunning answers = result at running
    obtain ⟨runs, after⟩ := result
    have staged (stage : after.stage = .up) (still : after.forwardedSocket = reported) (master : after.master = none ∨ Seen after) :
        Staged after none reported := by
      unfold Staged
      rw [stage]
      exact ⟨rfl, still, told, master⟩
    cases runs with
    | true =>
      obtain ⟨ready, seen, same⟩ := running
      refine ⟨none, ready, staged ?_ ?_ (.inr seen)⟩
      · rw [same]
        exact up
      · rw [same]
        exact forwarded
    | false =>
      obtain ⟨ready, same⟩ := running
      refine ⟨none, ready, staged ?_ ?_ (.inl ?_)⟩
      · rw [same]
        exact up
      · rw [same]
        exact forwarded
      · rw [same]
  next => exact sound

theorem Sound.reconnect (sound : Sound remote reported) (free : remote.stage.child = none) : Sound (remote.reconnect answers) reported := by
  obtain ⟨step, ready, staged⟩ := sound
  have none : step = none := by
    unfold Staged at staged
    cases stage : remote.stage with
    | down => exact (stage ▸ staged).1
    | master _ => exact (stage ▸ staged).1
    | up => exact (stage ▸ staged).1
    | query _ _ => simp [stage, Stage.child] at free
    | forward _ _ => simp [stage, Stage.child] at free
    | cancel _ _ => simp [stage, Stage.child] at free
  subst none
  exact ready.reconnect.1

theorem Ready.startMaster (ready : Ready remote none) (answers : Answers) (reported : Option String) (free : remote.master = none) (down : remote.stage = .down) :
    match remote.startMaster answers with
    | (.error _, after) => Sound after reported ∧ after.Again
    | (.ok (), after) => Sound after reported := by
  have forgets : Ready { remote with remoteSocket := none, forwardedSocket := none } none :=
    ⟨ready.tracked, ready.command, ready.running, nofun⟩
  unfold Remote.startMaster Remote.spawnSsh
  cases answers.refused with
  | some message =>
    refine ⟨⟨none, forgets, ?_⟩, .inl down⟩
    unfold Staged
    rw [show Remote.stage { remote with remoteSocket := none, forwardedSocket := none } = .down from down]
    exact ⟨rfl, free⟩
  | none => exact ⟨none, (forgets.mastered free rfl _).staged _, rfl, nofun, rfl⟩

theorem Ready.connecting {deadline : Nat} (ready : Ready remote none) (wants : remote.remoteSocket = none)
    (stage : remote.stage = .master deadline) : Leads reported (remote.connecting answers deadline) := by
  have running := ready.masterRunning answers
  unfold Remote.connecting
  generalize remote.masterRunning answers = result at running
  obtain ⟨runs, after⟩ := result
  cases runs with
  | false =>
    obtain ⟨ready, same⟩ := running
    refine ⟨⟨none, ready.staged _, rfl, ?_⟩, .inl rfl⟩
    rw [same]
  | true =>
    obtain ⟨ready, seen, same⟩ := running
    have wants : after.remoteSocket = none := by rw [same]; exact wants
    have stage : after.stage = .master deadline := by rw [same]; exact stage
    simp only [Bool.not_true, Bool.false_eq_true, if_false]
    split
    next => exact ready.startStep seen (.inl wants)
    next =>
      split
      next =>
        have stopped := ready.stopMaster answers
        exact ⟨⟨none, stopped.1.staged _, rfl, stopped.2⟩, .inl rfl⟩
      next =>
        obtain ⟨pid, master, _⟩ := seen
        refine ⟨none, ready, ?_⟩
        unfold Staged
        rw [stage]
        exact ⟨rfl, by simp [master], wants⟩

theorem noticed_other (other : remote.stage ≠ .up) : remote.noticed answers = remote := by
  unfold Remote.noticed
  rw [if_neg other]

-- A link that was up still is, or its master is started again.
theorem noticed_up (answers : Answers) (sound : Sound remote reported) (up : remote.stage = .up) :
    (remote.noticed answers).stage = .up ∨ (remote.noticed answers).stage = .down := by
  obtain ⟨step, ready, _⟩ := sound
  have running := ready.masterRunning answers
  unfold Remote.noticed
  rw [if_pos up]
  generalize remote.masterRunning answers = result at running
  obtain ⟨runs, after⟩ := result
  cases runs with
  | true =>
    obtain ⟨_, _, same⟩ := running
    have still : after.stage = .up := by rw [same]; exact up
    exact .inl still
  | false => exact .inr rfl

theorem Sound.down (sound : Sound remote reported) (down : remote.stage = .down) :
    Leads reported (match remote.startMaster answers with
      | (.error error, after) => (.error error, after)
      | (.ok (), after) => (.ok (.pending (answers.now + tick)), after)) := by
  obtain ⟨step, ready, staged⟩ := sound
  unfold Staged at staged
  rw [down] at staged
  obtain ⟨rfl, free⟩ := staged
  have started := ready.startMaster answers reported free down
  generalize remote.startMaster answers = result at started
  obtain ⟨result, after⟩ := result
  cases result with
  | error error => exact started
  | ok _ => exact started

-- What a link that is up, or whose master is gone, does next.
theorem advance_noticed {after : Remote} (noticed : remote.noticed answers = after) :
    remote.advance answers =
      match after.stage with
      | .up => (.ok .up, after)
      | .down =>
        match after.startMaster answers with
        | (.error error, after) => (.error error, after)
        | (.ok (), after) => (.ok (.pending (answers.now + tick)), after)
      | .master deadline => after.connecting answers deadline
      | .query child deadline | .forward child deadline | .cancel child deadline => after.step answers child deadline := by
  subst noticed
  rfl

-- An advance keeps the invariant.
theorem Sound.advance (sound : Sound remote reported) (answers : Answers) : Leads ((remote.reports answers).or reported) (remote.advance answers) := by
  have silent (quiet : ∀ child deadline, remote.stage ≠ .query child deadline) : (remote.reports answers).or reported = reported := by
    unfold Remote.reports
    cases stage : remote.stage with
    | query child deadline => exact absurd stage (quiet child deadline)
    | down => rfl
    | master _ => rfl
    | forward _ _ => rfl
    | cancel _ _ => rfl
    | up => rfl
  cases stage : remote.stage with
  | up =>
    rw [silent (by simp [stage]), advance_noticed rfl]
    obtain ⟨sound', seen⟩ := sound.noticed answers
    obtain up | down := noticed_up answers sound stage
    · rw [up]
      exact ⟨sound', up, seen up⟩
    · rw [down]
      exact sound'.down down
  | down =>
    rw [silent (by simp [stage]), advance_noticed (noticed_other (by simp [stage])), stage]
    exact sound.down stage
  | master deadline =>
    rw [silent (by simp [stage]), advance_noticed (noticed_other (by simp [stage])), stage]
    obtain ⟨step, ready, staged⟩ := sound
    unfold Staged at staged
    rw [stage] at staged
    obtain ⟨rfl, _, wants⟩ := staged
    exact ready.connecting wants stage
  | query child deadline =>
    rw [advance_noticed (noticed_other (by simp [stage])), stage]
    exact sound.stepping (by rw [stage]; rfl) deadline
  | forward child deadline =>
    rw [advance_noticed (noticed_other (by simp [stage])), stage]
    exact sound.stepping (by rw [stage]; rfl) deadline
  | cancel child deadline =>
    rw [advance_noticed (noticed_other (by simp [stage])), stage]
    exact sound.stepping (by rw [stage]; rfl) deadline

-- The calls of a client; it reconnects only while no command runs.
inductive Reached (host dir : String) : Remote → Option String → Prop where
  | opened : Reached host dir (.new host dir) none
  | advanced {remote : Remote} {reported : Option String} (answers : Answers) (before : Reached host dir remote reported) :
      Reached host dir (remote.advance answers).2 ((remote.reports answers).or reported)
  | looked {remote : Remote} {reported : Option String} (answers : Answers) (before : Reached host dir remote reported) :
      Reached host dir (remote.lost answers).2 reported
  | reconnected {remote : Remote} {reported : Option String} (answers : Answers) (before : Reached host dir remote reported)
      (idle : remote.stage.child = none) : Reached host dir (remote.reconnect answers) reported

theorem Leads.sound {result : Except Error Progress × Remote} (leads : Leads reported result) : Sound result.2 reported := by
  obtain ⟨result, after⟩ := result
  cases result with
  | error error => exact leads.1
  | ok progress =>
    cases progress with
    | up => exact leads.1
    | pending until_ => exact leads

theorem reached_sound {host dir : String} (reached : Reached host dir remote reported) : Sound remote reported := by
  induction reached with
  | opened => exact sound_new
  | advanced answers _ ih => exact (ih.advance answers).sound
  | looked answers _ ih => exact ih.lost
  | reconnected answers _ idle ih => exact ih.reconnect idle

-- No process is left when the link is dropped.
theorem Sound.drop (sound : Sound remote reported) (answers : Answers) : Processes.Tracked (fun _ _ => False) (remote.drop answers).processes := by
  have empty {remote : Remote} (ready : Ready remote none) : Processes.Tracked (fun _ _ => False) (remote.stopMaster answers).processes := by
    obtain ⟨stopped, gone⟩ := ready.stopMaster answers
    apply stopped.tracked.same
    intro pid role
    simp [Lives, gone]
  obtain ⟨step, ready, staged⟩ := sound
  unfold Staged at staged
  unfold Remote.drop
  cases stage : remote.stage with
  | down =>
    rw [stage] at staged
    obtain ⟨rfl, _⟩ := staged
    exact empty ready
  | master _ =>
    rw [stage] at staged
    obtain ⟨rfl, _⟩ := staged
    exact empty ready
  | up =>
    rw [stage] at staged
    obtain ⟨rfl, _⟩ := staged
    exact empty ready
  | query child _ =>
    rw [stage] at staged
    obtain ⟨rfl, _⟩ := staged
    exact empty (ready.killed (by simp))
  | forward child _ =>
    rw [stage] at staged
    obtain ⟨socket, rfl, _, _, free, _⟩ := staged
    exact empty (ready.killed fun _ _ => free)
  | cancel child _ =>
    rw [stage] at staged
    obtain ⟨old, socket, rfl, _⟩ := staged
    exact empty (ready.killed (by simp))

end Kido.Attach
