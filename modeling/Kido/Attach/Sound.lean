import Kido.Attach.Remote

set_option autoImplicit false

namespace Kido.Attach

open Kido.Runtimes (Exit)
open Kido.Children (Act Processes roleIn)
open Kido.Children.Processes (Tracked)

-- The forward that runs, and the one that the last master was told last, until it is told to cancel it.
structure Forwards where
  running : Option (Nat × String)
  held : Option String

def Forwards.after (forwards : Forwards) : Act Role Exit → Forwards
  | .spawned _ .master _ => ⟨none, none⟩
  | .spawned _ .query _ => forwards
  | .spawned pid (.forward socket) _ => { forwards with running := some (pid, socket) }
  | .spawned _ (.cancel socket) _ => { forwards with held := if forwards.held = some socket then none else forwards.held }
  | .waited pid (some exit) =>
    match forwards.running with
    | some (other, socket) =>
      if other = pid then ⟨none, if exit = .exited 0 then some socket else forwards.held⟩ else forwards
    | none => forwards
  | .waited _ none => forwards
  | .signalled _ => forwards

def forwardsIn : List (Act Role Exit) → Forwards
  | [] => ⟨none, none⟩
  | act :: before => (forwardsIn before).after act

def Lives (master : Option Nat) (step : Option (Nat × Role)) (pid : Nat) (role : Role) : Prop :=
  master = some pid ∧ role = .master ∨ step = some (pid, role)

def forwarding : Option (Nat × Role) → Option (Nat × String)
  | some (pid, .forward socket) => some (pid, socket)
  | _ => none

-- What holds whatever the stage is; `step` is the command that runs.
structure Ready (remote : Remote) (step : Option (Nat × Role)) : Prop where
  tracked : Tracked (Lives remote.master step) remote.processes
  command : ∀ pid, step ≠ some (pid, .master)
  running : (forwardsIn remote.processes.acts).running = forwarding step
  held : ∀ socket, remote.forwardedSocket = some socket → (forwardsIn remote.processes.acts).held = some socket

-- The master was running when it was last looked at.
def Seen (remote : Remote) : Prop := ∃ pid, remote.master = some pid ∧ Act.waited pid none ∈ remote.processes.acts

-- What the stage says; `reported` is the socket that the last query told.
def Staged (remote : Remote) (step : Option (Nat × Role)) (reported : Option String) : Prop :=
  match remote.stage with
  | .down => step = none ∧ remote.master = none
  | .master _ => step = none ∧ remote.master ≠ none ∧ remote.remoteSocket = none
  | .query child _ => step = some (child, .query) ∧ Seen remote
  | .forward child _ => ∃ socket, step = some (child, .forward socket) ∧ remote.remoteSocket = some socket ∧
      reported = some socket ∧ remote.forwardedSocket = none ∧ Seen remote
  | .cancel child _ => ∃ old socket, step = some (child, .cancel old) ∧ remote.remoteSocket = some socket ∧
      reported = some socket ∧ remote.forwardedSocket = none ∧ Seen remote
  | .up => step = none ∧ remote.forwardedSocket = reported ∧ (∃ socket, reported = some socket) ∧ (remote.master = none ∨ Seen remote)

def Sound (remote : Remote) (reported : Option String) : Prop := ∃ step, Ready remote step ∧ Staged remote step reported

variable {remote : Remote} {step : Option (Nat × Role)} {reported : Option String} {answers : Answers}

theorem sound_new {host dir : String} : Sound (.new host dir) none := by
  refine ⟨none, ⟨?_, nofun, rfl, nofun⟩, rfl, rfl⟩
  apply Processes.tracked_new.same
  intro pid role
  simp [Lives, Remote.new]

theorem Ready.master (ready : Ready remote step) {pid : Nat} (master : remote.master = some pid) : remote.processes.status pid = .alive :=
  (ready.tracked.alive pid .master (.inl ⟨master, rfl⟩)).1

theorem Ready.command_alive (ready : Ready remote step) {pid : Nat} {role : Role} (runs : step = some (pid, role)) :
    remote.processes.status pid = .alive := (ready.tracked.alive pid role (.inr runs)).1

theorem Ready.distinct (ready : Ready remote step) {pid other : Nat} {role : Role} (master : remote.master = some pid)
    (runs : step = some (other, role)) : other ≠ pid := by
  rintro rfl
  have first := (ready.tracked.alive other .master (.inl ⟨master, rfl⟩)).2
  have second := (ready.tracked.alive other role (.inr runs)).2
  rw [first] at second
  cases second
  exact ready.command other runs

theorem Ready.looked (ready : Ready remote step) {pid : Nat} (master : remote.master = some pid) :
    Ready { remote with processes := remote.processes.waited pid none } step := by
  refine ⟨ready.tracked.running (.inl ⟨master, rfl⟩), ready.command, ?_, ?_⟩
  · exact ready.running
  · exact ready.held

theorem forwards_end {acts : List (Act Role Exit)} {pid : Nat} {exit : Exit}
    (other : ∀ forward socket, (forwardsIn acts).running = some (forward, socket) → forward ≠ pid) :
    forwardsIn (.waited pid (some exit) :: acts) = forwardsIn acts := by
  simp only [forwardsIn, Forwards.after]
  split
  next forward socket running => rw [if_neg (other forward socket running)]
  next => rfl

theorem forwarding_some {pid : Nat} {socket : String} (runs : forwarding step = some (pid, socket)) : step = some (pid, .forward socket) := by
  unfold forwarding at runs
  split at runs
  next =>
    cases runs
    rfl
  next => cases runs

theorem Ready.masterless (ready : Ready remote step) {pid : Nat} (master : remote.master = some pid) (exit : Exit) :
    Ready { remote with master := none, processes := remote.processes.waited pid (some exit) } step := by
  have same : forwardsIn (.waited pid (some exit) :: remote.processes.acts) = forwardsIn remote.processes.acts := by
    apply forwards_end
    intro forward socket running
    rw [ready.running] at running
    exact ready.distinct master (forwarding_some running)
  constructor
  case tracked =>
    apply (ready.tracked.ends (.inl ⟨master, rfl⟩) exit).same
    intro other role
    simp only [Lives, reduceCtorEq, false_and, false_or]
    constructor
    · intro runs
      exact ⟨.inr runs, ready.distinct master runs⟩
    · rintro ⟨⟨is, rfl⟩ | runs, distinct⟩
      · rw [master] at is
        cases is
        exact absurd rfl distinct
      · exact runs
  case command => exact ready.command
  case running => exact (congrArg Forwards.running same).trans ready.running
  case held =>
    intro socket forwarded
    exact (congrArg Forwards.held same).trans (ready.held socket forwarded)

theorem Ready.done {pid : Nat} {role : Role} (ready : Ready remote (some (pid, role))) (free : ∀ socket, role = .forward socket → remote.forwardedSocket = none)
    (exit : Exit) : Ready { remote with processes := remote.processes.waited pid (some exit) } none := by
  constructor
  case tracked =>
    apply (ready.tracked.ends (.inr rfl) exit).same
    intro other role'
    simp only [Lives, reduceCtorEq, or_false]
    constructor
    · rintro ⟨master, rfl⟩
      exact ⟨.inl ⟨master, rfl⟩, fun same => ready.distinct master rfl same.symm⟩
    · rintro ⟨master | runs, distinct⟩
      · exact master
      · cases runs
        exact absurd rfl distinct
  case command => exact nofun
  case running =>
    simp only [Processes.waited, forwardsIn, Forwards.after, forwarding]
    split
    next forward socket running =>
      rw [ready.running] at running
      cases forwarding_some running
      rw [if_pos rfl]
    next running => exact running
  case held =>
    intro socket forwarded
    have other : ∀ forward socket, (forwardsIn remote.processes.acts).running = some (forward, socket) → forward ≠ pid := by
      intro forward socket' running
      rw [ready.running] at running
      cases forwarding_some running
      exact absurd (free socket' rfl) (by simp [show remote.forwardedSocket = some socket from forwarded])
    exact (congrArg Forwards.held (forwards_end other)).trans (ready.held socket forwarded)

theorem Ready.signalled (ready : Ready remote step) {pid : Nat} {role : Role} (lives : Lives remote.master step pid role) :
    Ready { remote with processes := remote.processes.signal pid } step := by
  refine ⟨ready.tracked.signal lives, ready.command, ?_, ?_⟩
  · exact ready.running
  · exact ready.held

theorem Ready.starts (ready : Ready remote none) {role : Role} (command : role ≠ .master) (free : ∀ socket, role = .cancel socket → remote.forwardedSocket = none)
    (args : List String) : Ready { remote with processes := remote.processes.spawn role args } (some (remote.processes.next, role)) := by
  constructor
  case tracked =>
    apply (ready.tracked.spawn role args).same
    intro pid other
    simp only [Lives, reduceCtorEq, or_false, Option.some.injEq, Prod.mk.injEq]
    constructor
    · rintro (master | ⟨rfl, rfl⟩)
      · exact .inl master
      · exact .inr ⟨rfl, rfl⟩
    · rintro (master | ⟨rfl, rfl⟩)
      · exact .inl master
      · exact .inr ⟨rfl, rfl⟩
  case command =>
    rintro pid ⟨⟩
    exact command rfl
  case running =>
    have none := ready.running
    cases role with
    | master => exact absurd rfl command
    | query => exact none
    | forward socket => rfl
    | cancel socket => exact none
  case held =>
    intro socket forwarded
    have held := ready.held socket forwarded
    cases role with
    | master => exact absurd rfl command
    | query => exact held
    | forward other => exact held
    | cancel other => exact absurd (free other rfl) (by simp [show remote.forwardedSocket = some socket from forwarded])

theorem Ready.mastered (ready : Ready remote none) (none_ : remote.master = none) (free : remote.forwardedSocket = none) (args : List String) :
    Ready { remote with master := some remote.processes.next, processes := remote.processes.spawn .master args } none := by
  constructor
  case tracked =>
    apply (ready.tracked.spawn .master args).same
    intro pid role
    simp only [Lives, none_, reduceCtorEq, false_and, or_false, Option.some.injEq, false_or]
    constructor
    · rintro ⟨rfl, rfl⟩
      exact ⟨rfl, rfl⟩
    · rintro ⟨rfl, rfl⟩
      exact ⟨rfl, rfl⟩
  case command => exact nofun
  case running => rfl
  case held =>
    intro socket forwarded
    exact absurd free (by simp [show remote.forwardedSocket = some socket from forwarded])

end Kido.Attach
