import Kido.Attach.Runs

set_option autoImplicit false

namespace Kido.Attach

open Kido.Runtimes (Exit)
open Kido.Children (Act Processes)

variable {remote : Remote} {reported : Option String}

-- The socket `/s` is what a query tells.
def helpful (remote : Remote) : Answers :=
  ⟨0, 0, fun pid => if remote.master = some pid then none else some (.exited 0), true, none, none, .exited 0, [47, 115], [], "", id⟩

-- Advances with these answers bring the link up.
inductive Rises : Remote → Prop where
  | up {remote : Remote} (answers : Answers) (up : (remote.advance answers).1 = .ok .up) : Rises remote
  | more {remote : Remote} (answers : Answers) (later : Rises (remote.advance answers).2) : Rises remote

theorem helpful_socket {host : String} :
    remoteSocket (helpful remote).quoted host (.exited 0) (helpful remote).out (helpful remote).err = .ok "/s" := by
  have path : Runtimes.trimmed [47, 115] = "/s" := by decide +kernel
  have valid : Runtimes.Remote.remoteDirValid "/s" = true := by decide +kernel
  simp only [remoteSocket, queryFailure, helpful, if_true, path, valid]

theorem helpful_steps {child deadline : Nat} {role : Role} (ready : Ready remote (some (child, role))) :
    remote.step (helpful remote) child deadline = (remote.waited child (some (.exited 0))).stepped (helpful remote) (.exited 0) := by
  have other : remote.master ≠ some child := fun master => ready.distinct master rfl rfl
  have look : (helpful remote).look child = some (.exited 0) := if_neg other
  rw [step_alive (ready.command_alive rfl), look]

theorem Sound.forward_rises {child deadline : Nat} (sound : Sound remote reported) (stage : remote.stage = .forward child deadline) : Rises remote := by
  obtain ⟨step, ready, staged⟩ := sound
  unfold Staged at staged
  rw [stage] at staged
  obtain ⟨socket, rfl, _⟩ := staged
  apply Rises.up (helpful remote)
  rw [advance_noticed (noticed_other (by simp [stage])), stage]
  dsimp only
  rw [helpful_steps ready]
  unfold Remote.stepped
  rw [show (remote.waited child (some (.exited 0))).stage = .forward child deadline from stage]
  rfl

theorem startStep_forwards {socket : String} (some : remote.remoteSocket = some socket) (answers : Answers) (spawns : answers.refused = none) :
    ∃ child deadline, (remote.startStep answers).2.stage = .forward child deadline := by
  obtain ⟨args, deadline, same⟩ := startStep_forward answers some
  rw [same]
  unfold Remote.spawned Remote.spawnSsh
  rw [spawns]
  exact ⟨_, _, rfl⟩

theorem Sound.cancel_rises {child deadline : Nat} (sound : Sound remote reported) (stage : remote.stage = .cancel child deadline) : Rises remote := by
  have next := (sound.advance (helpful remote)).sound
  refine .more (helpful remote) ?_
  obtain ⟨step, ready, staged⟩ := sound
  unfold Staged at staged
  rw [stage] at staged
  obtain ⟨old, socket, rfl, wanted, _⟩ := staged
  have advanced : remote.advance (helpful remote) = (remote.waited child (some (.exited 0))).startStep (helpful remote) := by
    rw [advance_noticed (noticed_other (by simp [stage])), stage]
    dsimp only
    rw [helpful_steps ready]
    unfold Remote.stepped
    rw [show (remote.waited child (some (.exited 0))).stage = .cancel child deadline from stage]
    rfl
  obtain ⟨child', deadline', forward⟩ := startStep_forwards (show (remote.waited child (some (.exited 0))).remoteSocket = _ from wanted) (helpful remote) rfl
  rw [← advanced] at forward
  exact next.forward_rises forward

theorem Sound.query_rises {child deadline : Nat} (sound : Sound remote reported) (stage : remote.stage = .query child deadline) : Rises remote := by
  have next := (sound.advance (helpful remote)).sound
  obtain ⟨step, ready, staged⟩ := sound
  unfold Staged at staged
  rw [stage] at staged
  obtain ⟨rfl, _⟩ := staged
  have advanced : remote.advance (helpful remote) = (remote.waited child (some (.exited 0))).queried (helpful remote) "/s" := by
    rw [advance_noticed (noticed_other (by simp [stage])), stage]
    dsimp only
    rw [helpful_steps ready]
    unfold Remote.stepped
    rw [show (remote.waited child (some (.exited 0))).stage = .query child deadline from stage]
    dsimp only
    rw [helpful_socket]
  rw [advanced] at next
  -- The socket is forwarded already, or another one is, or none.
  by_cases same : remote.forwardedSocket = some "/s"
  · apply Rises.up (helpful remote)
    rw [advanced]
    unfold Remote.queried
    rw [if_pos (show (remote.waited child (some (.exited 0))).forwardedSocket = some "/s" from same)]
  · apply Rises.more (helpful remote)
    rw [advanced]
    have other : (remote.waited child (some (.exited 0))).forwardedSocket ≠ some "/s" := same
    obtain none | ⟨old, some⟩ := Option.eq_none_or_eq_some remote.forwardedSocket
    · have unfolded : (remote.waited child (some (.exited 0))).queried (helpful remote) "/s" =
          { remote.waited child (Option.some (.exited 0)) with remoteSocket := Option.some "/s" }.startStep (helpful remote) := by
        unfold Remote.queried
        rw [if_neg other]
        dsimp only
        rw [show (remote.waited child (Option.some (.exited 0))).forwardedSocket = Option.none from none]
      rw [unfolded] at next ⊢
      obtain ⟨child', deadline', forward⟩ := startStep_forwards
        (show { remote.waited child (Option.some (.exited 0)) with remoteSocket := Option.some "/s" }.remoteSocket = Option.some "/s" from rfl)
        (helpful remote) rfl
      exact next.forward_rises forward
    · have unfolded : (remote.waited child (Option.some (.exited 0))).queried (helpful remote) "/s" =
          { remote.waited child (Option.some (.exited 0)) with remoteSocket := Option.some "/s", forwardedSocket := none }.spawned (helpful remote)
            (.cancel old) (controlArgs remote.ctl ["-O", "cancel", "-L", s!"{remote.socket}:{old}"] remote.host)
            ((helpful remote).now + commandWithin) fun child => .cancel child ((helpful remote).now + commandWithin) := by
        unfold Remote.queried
        rw [if_neg other]
        dsimp only
        rw [show (remote.waited child (Option.some (.exited 0))).forwardedSocket = Option.some old from some]
        rfl
      rw [unfolded] at next ⊢
      exact next.cancel_rises rfl

theorem Sound.master_rises {deadline : Nat} (sound : Sound remote reported) (stage : remote.stage = .master deadline) : Rises remote := by
  have next := (sound.advance (helpful remote)).sound
  apply Rises.more (helpful remote)
  obtain ⟨step, ready, staged⟩ := sound
  unfold Staged at staged
  rw [stage] at staged
  obtain ⟨rfl, there, wants⟩ := staged
  obtain none | ⟨pid, master⟩ := Option.eq_none_or_eq_some remote.master
  · exact absurd none there
  · have look : (helpful remote).look pid = none := if_pos master
    have advanced : remote.advance (helpful remote) = (remote.waited pid none).startStep (helpful remote) := by
      rw [advance_noticed (noticed_other (by simp [stage])), stage]
      dsimp only
      unfold Remote.connecting
      rw [masterRunning_alive master (ready.master master), look]
      rfl
    rw [advanced] at next ⊢
    obtain ⟨args, until_, same⟩ := startStep_query (helpful remote) (show (remote.waited pid none).remoteSocket = none from wants)
    rw [same] at next ⊢
    exact next.query_rises rfl

theorem Sound.rises (sound : Sound remote reported) (again : remote.Again) : Rises remote := by
  obtain down | ⟨deadline, stage⟩ := again
  · have next := (sound.advance (helpful remote)).sound
    apply Rises.more (helpful remote)
    rw [advance_noticed (noticed_other (by simp [down])), down] at next ⊢
    exact next.master_rises rfl
  · exact sound.master_rises stage

theorem Sound.tracked (sound : Sound remote reported) : ∃ step, Processes.Tracked (Lives remote.master step) remote.processes ∧
    ∀ pid, step ≠ some (pid, .master) := by
  obtain ⟨step, ready, _⟩ := sound
  exact ⟨step, ready.tracked, ready.command⟩

-- Two that live are the master and the command.
theorem Sound.apart (sound : Sound remote reported) {first second : Nat} (firstLives : remote.processes.status first = .alive)
    (secondLives : remote.processes.status second = .alive)
    (alike : remote.processes.role first = some .master ↔ remote.processes.role second = some .master) : first = second := by
  obtain ⟨step, tracked, command⟩ := sound.tracked
  obtain ⟨role, lives⟩ := tracked.lives firstLives
  obtain ⟨role', lives'⟩ := tracked.lives secondLives
  have is := (tracked.alive first role lives).2
  have is' := (tracked.alive second role' lives').2
  rw [is, is', Option.some.injEq, Option.some.injEq] at alike
  obtain ⟨master, rfl⟩ | runs := lives
  · cases alike.mp rfl
    obtain ⟨master', _⟩ | runs' := lives'
    · rw [master] at master'
      exact Option.some.inj master'
    · exact absurd runs' (command second)
  · obtain ⟨_, rfl⟩ | runs' := lives'
    · cases alike.mpr rfl
      exact absurd runs (command first)
    · rw [runs] at runs'
      cases runs'
      rfl

-- At an end no process lives, each that was spawned was waited for, and none was touched after that.
theorem remote_sound {host dir : String} {remote : Remote} {reported : Option String} (reached : Reached host dir remote reported) :
    (∀ first second, remote.processes.status first = .alive → remote.processes.status second = .alive →
      (remote.processes.role first = some .master ↔ remote.processes.role second = some .master) → first = second) ∧
    (∀ pid, remote.processes.status pid ≠ .misused) ∧
    (∀ answers pid, pid < (remote.drop answers).processes.next → (remote.drop answers).processes.status pid = .ended) ∧
    (∀ socket, remote.forwardedSocket = some socket → (forwardsIn remote.processes.acts).held = some socket) ∧
    (∀ answers after, remote.advance answers = (.ok .up, after) →
      (∃ pid, after.master = some pid ∧ after.processes.status pid = .alive ∧ Act.waited pid none ∈ after.processes.acts) ∧
      ∃ socket, after.forwardedSocket = some socket ∧ (remote.reports answers).or reported = some socket) ∧
    (∀ answers error after, remote.advance answers = (.error error, after) → Rises after) := by
  have sound := reached_sound reached
  obtain ⟨step, tracked, _⟩ := sound.tracked
  refine ⟨fun _ _ => sound.apart, tracked.well, ?_, ?_, ?_, ?_⟩
  · intro answers pid below
    exact (sound.drop answers).ended pid (fun _ lives => lives) below
  · intro socket forwarded
    obtain ⟨_, ready, _⟩ := sound
    exact ready.held socket forwarded
  · intro answers after up
    have leads := sound.advance answers
    rw [up] at leads
    obtain ⟨⟨step, ready, staged⟩, stage, pid, master, looked⟩ := leads
    unfold Staged at staged
    rw [stage] at staged
    obtain ⟨_, forwarded, ⟨socket, told⟩, _⟩ := staged
    exact ⟨⟨pid, master, ready.master master, looked⟩, socket, forwarded.trans told, told⟩
  · intro answers error after failed
    have leads := sound.advance answers
    rw [failed] at leads
    exact leads.1.rises leads.2

def climbed : Nat → Remote
  | 0 => .new "host" "/d"
  | calls + 1 => ((climbed calls).advance (helpful (climbed calls))).2

theorem climbed_reached (calls : Nat) : ∃ reported, Reached "host" "/d" (climbed calls) reported := by
  induction calls with
  | zero => exact ⟨none, .opened⟩
  | succ calls ih =>
    obtain ⟨reported, reached⟩ := ih
    exact ⟨_, .advanced _ reached⟩

def gone : Answers := { helpful (climbed 0) with look := fun _ => some (.exited 255) }

theorem climbed_sound : (forwardsIn (climbed 4).processes.acts).held = some "/s" := by
  obtain ⟨reported, reached⟩ := climbed_reached 4
  exact (remote_sound reached).2.2.2.1 "/s" (by decide +kernel)

-- A link that is up, and whose master is seen to have ended, keeps the socket that was forwarded.
theorem forwarded_masterless : ¬ ∀ remote reported, Reached "host" "/d" remote reported → ∀ socket, remote.forwardedSocket = some socket →
    ∃ pid, remote.master = some pid ∧ (forwardsIn remote.processes.acts).held = some socket := by
  intro claim
  obtain ⟨reported, reached⟩ := climbed_reached 4
  have forwarded : ((climbed 4).lost gone).2.forwardedSocket = some "/s" := by decide +kernel
  have masterless : ((climbed 4).lost gone).2.master = none := by decide +kernel
  obtain ⟨pid, master, _⟩ := claim _ _ (.looked gone reached) "/s" forwarded
  rw [masterless] at master
  cases master

end Kido.Attach
