import Kido.Runtime.Ssh

set_option autoImplicit false

namespace Kido.Runtimes

inductive Kind where
  | container (engine : Engine)
  | ssh (remote : Ssh)

inductive Start where
  | container (stage : Container.Stage) (fresh : Bool)
  | ssh (link : Remote.Link)

namespace Start

def new (kind : Kind) (fresh : Bool) : Start :=
  match kind with
  | .container (.apple ..) => .container .system fresh
  | .container (.podman ..) => .container .inspect fresh
  | .ssh _ => .ssh .new

def mismatch : String := "the kind of the runtime changed during its start"

def first (host : Host) (kind : Kind) (world : World) (cx : Ctx) : Start → Except String Launch
  | .container .. =>
    match kind with
    | .container engine => Container.first host engine world cx
    | .ssh _ => .error mismatch
  | .ssh _ =>
    match kind with
    | .ssh remote => Remote.first remote world cx
    | .container _ => .error mismatch

def next (host : Host) (kind : Kind) (start : Start) (world : World) (cx : Ctx) (out : Outcome) : Start × Next :=
  match kind, start with
  | .container engine, .container stage fresh =>
    let (stage, next) := Container.next host engine stage fresh world cx out
    (.container stage fresh, next)
  | .ssh remote, .ssh link =>
    let (link, next) := Remote.next host remote link world cx out
    (.ssh link, next)
  | _, start => (start, .fail mismatch)

end Start

inductive Course where
  | running (start : Start) (launch : Launch)
  | up
  | failed (message : String)

-- A step that was run to its end.
structure Done where
  start : Start
  launch : Launch
  world : World
  out : Outcome

structure Starting where
  -- The last one is the last in the list.
  done : List Done
  course : Course

inductive Event where
  | ended (world : World) (out : Outcome)
  -- The program was not started, took too long or was not found again.
  | broken (message : String)

namespace Starting

variable (host : Host) (kind : Kind) (cx : Ctx)

def begin_ (fresh : Bool) (world : World) : Starting :=
  match (Start.new kind fresh).first host kind world cx with
  | .ok launch => ⟨[], .running (Start.new kind fresh) launch⟩
  | .error message => ⟨[], .failed message⟩

def advance (state : Starting) : Event → Starting
  | .ended world out =>
    match state.course with
    | .running start launch =>
      let (start', next) := start.next host kind world cx out
      let done := state.done ++ [⟨start, launch, world, out⟩]
      match next with
      | .run launch => ⟨done, .running start' launch⟩
      | .up => ⟨done, .up⟩
      | .fail message => ⟨done, .failed message⟩
    | _ => state
  | .broken message =>
    match state.course with
    | .running _ _ => { state with course := .failed message }
    | _ => state

def run (fresh : Bool) (world : World) (events : List Event) : Starting :=
  events.foldl (advance host kind cx) (begin_ host kind cx fresh world)

end Starting

-- The stages in the order in which a start enters them.
def Container.Stage.rank : Container.Stage → Nat
  | .system => 0
  | .inspect => 1
  | .deleteStale _ => 2
  | .run => 3
  | .start => 3
  | .version => 4

def Remote.Stage.rank : Remote.Stage → Nat
  | .check => 0
  | .master => 1
  | .prepare => 2
  | .cancel => 3
  | .forward => 4

def Start.rank : Start → Nat
  | .container stage _ => stage.rank
  | .ssh link => link.stage.rank

-- The starts whose step was run or runs, one behind the other.
def Starting.entered (state : Starting) : List Start :=
  state.done.map Done.start ++ (match state.course with
    | .running start _ => [start]
    | _ => [])

-- All that was launched.
def Starting.launched (state : Starting) : List (Start × Launch) :=
  state.done.map (fun done => (done.start, done.launch)) ++ (match state.course with
    | .running start launch => [(start, launch)]
    | _ => [])

def Course.Ended : Course → Prop
  | .running _ _ => False
  | _ => True

end Kido.Runtimes

namespace Kido.Runtimes

variable {host : Host} {cx : Ctx} {fresh : Bool}

-- The step printed a version that fits.
def Printed (host : Host) (out : Outcome) (stdout : Framing.Bytes) : Prop :=
  out.exit = .exited 0 ∧ ∃ version, host.readVersion stdout = some version ∧ checkVersion host version = true

theorem version_up {name : String} {out : Outcome} (up : versionNext host name out = .up) : Printed host out out.stdout := by
  unfold versionNext at up
  split at up
  next ok =>
    refine ⟨by simpa [Outcome.ok] using ok, ?_⟩
    split at up
    next => cases up
    next inner read =>
      split at up
      next fits => exact ⟨inner, read, fits⟩
      next => cases up
  next =>
    split at up
    next => cases up
    next => cases up

theorem version_run {name : String} {out : Outcome} {launch : Launch} : versionNext host name out ≠ .run launch := by
  unfold versionNext
  intro run
  split at run
  next =>
    split at run
    next => cases run
    next =>
      split at run
      next => cases run
      next => cases run
  next =>
    split at run
    next => cases run
    next => cases run

namespace Container

-- What a launch of the stage is.
def Fits (settings : Engine) (cx : Ctx) : Stage → List String → Prop
  | .system, args => args = ["system", "status"]
  | .inspect, args => args = inspectArgs cx.key settings
  | .deleteStale _, args => args = [(facts settings).delete, "--force", target cx.key settings]
  | .start, args => args = ["start", target cx.key settings]
  | .run, args => args.head? = some "run"
  | .version, args => args = versionArgs settings cx

-- The first container that an inspection showed.
def foundBy (host : Host) (settings : Engine) (out : Outcome) : Option Inspected :=
  if out.ok then ((decode host settings out).getD []).head? else none

-- What led to the stage: an inspection at least, when something is removed or a container of the user is used.
def Led (host : Host) (settings : Engine) (cx : Ctx) (fresh : Bool) (done : List Done) : Stage → Prop
  | .system | .inspect => True
  | .deleteStale image =>
    fresh = true ∧ settings.options.from_ = .image image ∧
      ∃ before ∈ done, before.start = .container .inspect fresh ∧ foundBy host settings before.out ≠ none
  | .run => ∃ image, settings.options.from_ = .image image
  | .start | .version => ∀ name, settings.options.from_ = .container name →
    ∃ before ∈ done, before.start = .container .inspect fresh ∧
      ∃ found, foundBy host settings before.out = some found ∧ shared settings before.world cx found = true

theorem Led.more {settings : Engine} {done : List Done} {stage : Stage} (led : Led host settings cx fresh done stage) (last : Done) :
    Led host settings cx fresh (done ++ [last]) stage := by
  cases stage with
  | system => trivial
  | inspect => trivial
  | run => exact led
  | deleteStale image =>
    obtain ⟨new, owned, before, member, rest⟩ := led
    exact ⟨new, owned, before, List.mem_append_left _ member, rest⟩
  | start =>
    intro name user
    obtain ⟨before, member, rest⟩ := led name user
    exact ⟨before, List.mem_append_left _ member, rest⟩
  | version =>
    intro name user
    obtain ⟨before, member, rest⟩ := led name user
    exact ⟨before, List.mem_append_left _ member, rest⟩

variable {settings : Engine} {world : World} {out : Outcome}

theorem launch_args {args : List String} {launched : Launch} (ok : launch settings world cx args = .ok launched) : launched.args = args := by
  unfold launch at ok
  cases found : binary settings world with
  | error message =>
    rw [found] at ok
    cases ok
  | ok program =>
    rw [found] at ok
    cases ok
    rfl

theorem step_args {args : List String} {launched : Launch} (runs : step settings world cx args = .run launched) : launched.args = args := by
  unfold step at runs
  split at runs
  next other ok =>
    cases runs
    exact launch_args ok
  next => cases runs

theorem step_up {args : List String} : step settings world cx args ≠ .up := by
  unfold step
  split <;> exact nofun

theorem run_args {image : String} {launched : Launch} (runs : run host settings image world cx = .run launched) :
    launched.args.head? = some "run" := by
  unfold run at runs
  split at runs
  next => cases runs
  next =>
    rw [step_args runs]
    rfl

theorem run_up {image : String} : run host settings image world cx ≠ .up := by
  unfold run
  split
  next => exact nofun
  next => exact step_up

-- What one step leads to.
def Follows (host : Host) (settings : Engine) (cx : Ctx) (fresh : Bool) (done : List Done) (stage : Stage) (last : Done) : Stage × Next → Prop
  | (after, .run launch) =>
    stage.rank < after.rank ∧ Fits settings cx after launch.args ∧ Led host settings cx fresh (done ++ [last]) after
  | (_, .up) => stage = .version ∧ Printed host last.out last.out.stdout
  | (_, .fail _) => True

theorem follows_step {done : List Done} {stage after : Stage} {last : Done} {args : List String} (later : stage.rank < after.rank)
    (fits : Fits settings cx after args) (led : Led host settings cx fresh (done ++ [last]) after) :
    Follows host settings cx fresh done stage last (after, step settings world cx args) := by
  cases next : step settings world cx args with
  | run launched =>
    have same := step_args next
    exact ⟨later, same ▸ fits, led⟩
  | up => exact absurd next step_up
  | fail message => trivial

theorem follows_run {done : List Done} {stage : Stage} {last : Done} {image : String} (later : stage.rank < Stage.run.rank)
    (owned : settings.options.from_ = .image image) :
    Follows host settings cx fresh done stage last (.run, run host settings image world cx) := by
  cases next : run host settings image world cx with
  | run launched => exact ⟨later, run_args next, image, owned⟩
  | up => exact absurd next run_up
  | fail message => trivial

theorem found_ok {found : Inspected} (ok : out.ok = true) (head : ((decode host settings out).getD []).head? = some found) :
    foundBy host settings out = some found := by
  unfold foundBy
  rw [if_pos ok, head]

theorem inspected_follows {done : List Done} {last : Done} (start : last.start = .container .inspect fresh) :
    Follows host settings cx fresh done .inspect last (inspected host settings .inspect fresh last.world cx last.out) := by
  have here : last ∈ done ++ [last] := List.mem_append_right _ List.mem_cons_self
  -- Once the container of the user is known to share, or is no user's, it is started or asked for its version.
  have started (found : Inspected) (led : Led host settings cx fresh (done ++ [last]) .version) :
      Follows host settings cx fresh done .inspect last
        (if found.state = "running" then (.version, step settings last.world cx (versionArgs settings cx))
          else (.start, step settings last.world cx ["start", target cx.key settings])) := by
    split
    next => exact follows_step (by decide) rfl led
    next => exact follows_step (by decide) rfl led
  unfold inspected
  cases owner : settings.options.from_ with
  | image image =>
    dsimp only
    split
    next => exact follows_run (by decide) owner
    next =>
      split
      next => trivial
      next ok =>
        have ok : last.out.ok = true := by simpa using ok
        split
        next => trivial
        next found head =>
          split
          next new =>
            have seen : foundBy host settings last.out ≠ none := by
              rw [found_ok ok head]
              exact nofun
            exact follows_step (by simp [Stage.rank]) rfl ⟨new, owner, last, here, start, seen⟩
          next =>
            apply started
            intro name user
            rw [owner] at user
            cases user
  | container name =>
    dsimp only
    split
    next => trivial
    next ok =>
      have ok : last.out.ok = true := by simpa using ok
      split
      next => trivial
      next found head =>
        split
        next mounts =>
          apply started
          intro _ _
          exact ⟨last, here, start, found, found_ok ok head, mounts⟩
        next => trivial

theorem next_follows {done : List Done} {last : Done} {stage : Stage} (start : last.start = .container stage fresh)
    (led : Led host settings cx fresh done stage) :
    Follows host settings cx fresh done stage last (next host settings stage fresh last.world cx last.out) := by
  cases stage with
  | system =>
    unfold next
    dsimp only
    split
    next => exact follows_step (by decide) rfl trivial
    next => trivial
  | inspect => exact inspected_follows start
  | deleteStale image =>
    unfold next
    dsimp only
    split
    next => exact follows_run (by simp [Stage.rank]) led.2.1
    next => trivial
  | start =>
    unfold next
    dsimp only
    split
    next => exact follows_step (by decide) rfl (led.more last)
    next => trivial
  | run =>
    obtain ⟨image, owner⟩ := led
    unfold next
    dsimp only
    split
    next =>
      have led : Led host settings cx fresh (done ++ [last]) .version := by
        intro name user
        rw [owner] at user
        cases user
      exact follows_step (by decide) rfl led
    next => trivial
  | version =>
    unfold next
    dsimp only
    cases next : versionNext host cx.key.name last.out with
    | run launched => exact absurd next version_run
    | up => exact ⟨rfl, version_up next⟩
    | fail message => trivial

end Container

end Kido.Runtimes
