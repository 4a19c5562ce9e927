import Kido.Runtime.Runs

set_option autoImplicit false

namespace Kido.Runtimes

variable {host : Host} {cx : Ctx} {fresh : Bool}

namespace Container

theorem first_args {settings : Engine} {world : World} {launched : Launch} (ok : first host settings world cx = .ok launched) :
    launched.args = match (facts settings).platform with
      | .appleVm => ["system", "status"]
      | .linux => inspectArgs cx.key settings := by
  unfold first at ok
  cases supports : supported host (facts settings) with
  | error message =>
    rw [supports] at ok
    cases ok
  | ok _ =>
    rw [supports] at ok
    exact launch_args ok

def Good (host : Host) (settings : Engine) (cx : Ctx) (fresh : Bool) (done : List Done) (start : Start) (launch : Launch) : Prop :=
  ∃ stage, start = .container stage fresh ∧ Fits settings cx stage launch.args ∧ Led host settings cx fresh done stage

-- The version step, with what it printed.
def Last (host : Host) (fresh : Bool) (last : Done) : Prop :=
  last.start = .container .version fresh ∧ Printed host last.out last.out.stdout

theorem follows_next {settings : Engine} {done : List Done} {last : Done} (good : Good host settings cx fresh done last.start last.launch) :
    ∃ stage after next, last.start = .container stage fresh ∧
      last.start.next host (.container settings) last.world cx last.out = (.container after fresh, next) ∧
        Follows host settings cx fresh done stage last (after, next) := by
  obtain ⟨stage, start, _, led⟩ := good
  have follows : Follows host settings cx fresh done stage last (next host settings stage fresh last.world cx last.out) := next_follows start led
  refine ⟨stage, _, _, start, ?_, follows⟩
  rw [start]
  rfl

def rules (host : Host) (settings : Engine) (cx : Ctx) (fresh : Bool) : Rules host (.container settings) cx fresh where
  Good := Good host settings cx fresh
  Last := Last host fresh
  more := by
    intro done start launch last good
    obtain ⟨stage, start, fits, led⟩ := good
    exact ⟨stage, start, fits, led.more last⟩
  first := by
    intro world launch ok
    cases settings with
    | apple container sshAgent options => exact ⟨.system, rfl, first_args ok, trivial⟩
    | podman podman options => exact ⟨.inspect, rfl, first_args ok, trivial⟩
  next_run := by
    intro done last start launch good next
    obtain ⟨stage, after, result, from_, leads, follows⟩ := follows_next good
    rw [leads] at next
    cases next
    obtain ⟨later, fits, led⟩ := follows
    rw [from_]
    exact ⟨later, after, rfl, fits, led⟩
  next_up := by
    intro done last start good next
    obtain ⟨stage, after, result, from_, leads, follows⟩ := follows_next good
    rw [leads] at next
    cases next
    obtain ⟨rfl, printed⟩ := follows
    exact ⟨from_, printed⟩

-- The socket, or its directory, is mounted where the runtime looks for it.
def Mounts (settings : Engine) (world : World) (cx : Ctx) (found : Inspected) : Prop :=
  ∃ mounted ∈ found.mounts, mounted.destination = (socketMount settings cx).2 ∧
    (samePath mounted.source (socketMount settings cx).1 = true ∨
      ∃ real, world.canonical (socketMount settings cx).1 = some real ∧ samePath mounted.source real = true)

-- Where the socket's real path is not found, nothing without a source is mounted in its place.
def Clear (host : Host) (settings : Engine) (cx : Ctx) (world : World) (out : Outcome) : Prop :=
  world.canonical (socketMount settings cx).1 = none → ∀ found, foundBy host settings out = some found →
    ∀ mounted ∈ found.mounts, mounted.destination = (socketMount settings cx).2 → samePath mounted.source "" = false

theorem shared_mounts {settings : Engine} {world : World} {out : Outcome} {found : Inspected} (clear : Clear host settings cx world out)
    (shown : foundBy host settings out = some found) (shares : shared settings world cx found = true) : Mounts settings world cx found := by
  unfold shared at shares
  obtain ⟨mounted, member, right⟩ := List.any_eq_true.mp shares
  simp only [Bool.and_eq_true, Bool.or_eq_true, decide_eq_true_eq] at right
  obtain ⟨destination, source | real⟩ := right
  · exact ⟨mounted, member, destination, .inl source⟩
  · have real : samePath mounted.source ((world.canonical (socketMount settings cx).1).getD "") = true := real
    cases found : world.canonical (socketMount settings cx).1 with
    | some path =>
      rw [found] at real
      exact ⟨mounted, member, destination, .inr ⟨path, found, real⟩⟩
    | none =>
      rw [found] at real
      have other := clear found _ shown mounted member destination
      rw [show samePath mounted.source "" = true from real] at other
      cases other

end Container

namespace Remote

variable {ssh : Ssh}

-- A step that prepared the other host, and printed a version that fits.
def Prepares (host : Host) (ssh : Ssh) (done : Done) : Prop :=
  ∃ link dir version, done.start = .ssh link ∧ link.stage = .prepare ∧
    prepared host ssh.destination done.out = .ok (dir, version) ∧ Printed host done.out version

def Good (host : Host) (ssh : Ssh) (done : List Done) (start : Start) (_ : Launch) : Prop :=
  ∃ link, start = .ssh link ∧ (Stage.prepare.rank < link.stage.rank → ∃ before ∈ done, Prepares host ssh before)

-- The socket was forwarded.
def Last (last : Done) : Prop := ∃ link, last.start = .ssh link ∧ link.stage = .forward ∧ last.out.exit = .exited 0

-- What one step leads to.
def Follows (host : Host) (ssh : Ssh) (done : List Done) (link : Link) (last : Done) : Link × Next → Prop
  | (after, .run _) => link.stage.rank < after.stage.rank ∧
      (Stage.prepare.rank < after.stage.rank → ∃ before ∈ done ++ [last], Prepares host ssh before)
  | (_, .up) => link.stage = .forward ∧ last.out.exit = .exited 0
  | (_, .fail _) => True

theorem follows_launched {done : List Done} {link after : Link} {last : Done} {result : Except String Launch}
    (later : link.stage.rank < after.stage.rank)
    (prepared : Stage.prepare.rank < after.stage.rank → ∃ before ∈ done ++ [last], Prepares host ssh before) :
    Follows host ssh done link last (after, launched result) := by
  cases result with
  | ok launch => exact ⟨later, prepared⟩
  | error message => trivial

theorem next_follows {link : Link} {done : List Done} {last : Done} (start : last.start = .ssh link)
    (good : Stage.prepare.rank < link.stage.rank → ∃ before ∈ done, Prepares host ssh before) :
    Follows host ssh done link last (next host ssh link last.world cx last.out) := by
  unfold next
  cases stage : link.stage with
  | check =>
    dsimp only
    split
    next =>
      apply follows_launched
      · simp [stage, Stage.rank]
      · simp [Stage.rank]
    next =>
      apply follows_launched
      · simp [stage, Stage.rank]
      · simp [Stage.rank]
  | master =>
    dsimp only
    split
    next =>
      apply follows_launched
      · simp [stage, Stage.rank]
      · simp [Stage.rank]
    next => trivial
  | prepare =>
    dsimp only
    split
    next => trivial
    next dir version ready =>
      split
      next => trivial
      next up =>
        have fits : versionNext host cx.key.name { last.out with stdout := version } = .up := by
          cases result : versionNext host cx.key.name { last.out with stdout := version } with
          | run launched => exact absurd result version_run
          | up => rfl
          | fail message => exact absurd result (up message)
        have prepares : Prepares host ssh last := ⟨link, dir, version, start, stage, ready, version_up fits⟩
        have here : last ∈ done ++ [last] := List.mem_append_right _ List.mem_cons_self
        split
        next =>
          apply follows_launched
          · simp [stage, Stage.rank]
          · exact fun _ => ⟨last, here, prepares⟩
        next =>
          apply follows_launched
          · simp [stage, Stage.rank]
          · exact fun _ => ⟨last, here, prepares⟩
  | cancel =>
    obtain ⟨before, member, prepares⟩ := good (by simp [stage, Stage.rank])
    apply follows_launched
    · simp [stage, Stage.rank]
    · exact fun _ => ⟨before, List.mem_append_left _ member, prepares⟩
  | forward =>
    dsimp only
    split
    next ok => exact ⟨stage, by simpa [Outcome.ok] using ok⟩
    next => trivial

theorem next_leads (cx : Ctx) {done : List Done} {last : Done} (good : Good host ssh done last.start last.launch) :
    ∃ link after next, last.start = .ssh link ∧
      last.start.next host (.ssh ssh) last.world cx last.out = (.ssh after, next) ∧
        Follows host ssh done link last (after, next) := by
  obtain ⟨link, start, prepared⟩ := good
  have follows : Follows host ssh done link last (next host ssh link last.world cx last.out) := next_follows start prepared
  refine ⟨link, _, _, start, ?_, follows⟩
  rw [start]
  rfl

def rules (host : Host) (ssh : Ssh) (cx : Ctx) (fresh : Bool) : Rules host (.ssh ssh) cx fresh where
  Good := Good host ssh
  Last := Last
  more := by
    intro done start launch last good
    obtain ⟨link, start, prepared⟩ := good
    refine ⟨link, start, fun late => ?_⟩
    obtain ⟨before, member, prepares⟩ := prepared late
    exact ⟨before, List.mem_append_left _ member, prepares⟩
  first := by
    intro world launch ok
    exact ⟨.new, rfl, by simp [Link.new, Stage.rank]⟩
  next_run := by
    intro done last start launch good next
    obtain ⟨link, after, result, from_, leads, follows⟩ := next_leads cx good
    rw [leads] at next
    cases next
    rw [from_]
    exact ⟨follows.1, after, rfl, follows.2⟩
  next_up := by
    intro done last start good next
    obtain ⟨link, after, result, from_, leads, follows⟩ := next_leads cx good
    rw [leads] at next
    cases next
    exact ⟨link, from_, follows⟩

end Remote

-- The step that brought the runtime up, or that printed the version before the socket was forwarded.
def Verified (host : Host) (fresh : Bool) (done : List Done) : Kind → Prop
  | .container _ => ∃ prior last, done = prior ++ [last] ∧ Container.Last host fresh last
  | .ssh remote => ∃ prior last, done = prior ++ [last] ∧ Remote.Last last ∧ ∃ before ∈ prior, Remote.Prepares host remote before

namespace Container

-- What may be run for a container of the user: the system and the container are looked at, and it is started and entered.
def spared (settings : Engine) (cx : Ctx) (name : String) : List (List String) :=
  [["system", "status"], inspectArgs cx.key settings, ["start", name], versionArgs settings cx]

-- An inspection that was run.
def Inspects (settings : Engine) (cx : Ctx) (fresh : Bool) (done : Done) : Prop :=
  done.start = .container .inspect fresh ∧ done.launch.args = inspectArgs cx.key settings

-- The container was entered, or may be.
def Entered (state : Starting) : Prop :=
  state.course = .up ∨ ∃ start launch, (start, launch) ∈ state.launched ∧ launch.args.head? = some "exec"

variable {settings : Engine} {world : World} {events : List Event} {state : Starting}

theorem done_launched {done : Done} (member : done ∈ state.done) : (done.start, done.launch) ∈ state.launched :=
  List.mem_append_left _ (List.mem_map.mpr ⟨done, member, rfl⟩)

theorem inspects_done (ordered : Ordered (rules host settings cx fresh) events state) {done : Done} (member : done ∈ state.done)
    (start : done.start = .container .inspect fresh) : Inspects settings cx fresh done := by
  obtain ⟨stage, same, fits, _⟩ := ordered.good _ _ (done_launched member)
  rw [start] at same
  cases same
  exact ⟨start, fits⟩

-- The heads of what is launched tell the stages apart.
theorem fits_head {stage : Stage} {args : List String} (fits : Fits settings cx stage args) :
    (args.head? = some "exec" → stage = .version) ∧ (args.head? = some (facts settings).delete → ∃ image, stage = .deleteStale image) := by
  cases settings with
  | apple container sshAgent options =>
    cases stage with
    | run =>
      have head : args.head? = some "run" := fits
      simp [head, facts, apple]
    | system => simp [show args = _ from fits, facts, apple]
    | inspect => simp [show args = _ from fits, inspectArgs, facts, apple]
    | deleteStale image => simp [show args = _ from fits, facts, apple]
    | start => simp [show args = _ from fits, facts, apple]
    | version => simp [show args = _ from fits, versionArgs, facts, apple]
  | podman program options =>
    cases stage with
    | run =>
      have head : args.head? = some "run" := fits
      simp [head, facts, podman]
    | system => simp [show args = _ from fits, facts, podman]
    | inspect => simp [show args = _ from fits, inspectArgs, facts, podman]
    | deleteStale image => simp [show args = _ from fits, facts, podman]
    | start => simp [show args = _ from fits, facts, podman]
    | version => simp [show args = _ from fits, versionArgs, facts, podman]

theorem spared_launched (ordered : Ordered (rules host settings cx fresh) events state) {name : String}
    (user : settings.options.from_ = .container name) {start : Start} {launch : Launch} (member : (start, launch) ∈ state.launched) :
    launch.args ∈ spared settings cx name := by
  have named : target cx.key settings = name := by
    unfold target
    rw [user]
  obtain ⟨stage, _, fits, led⟩ := ordered.good start launch member
  unfold spared
  cases stage with
  | system => simp [show launch.args = _ from fits]
  | inspect => simp [show launch.args = _ from fits]
  | start => simp [show launch.args = _ from fits, named]
  | version => simp [show launch.args = _ from fits]
  | deleteStale image =>
    obtain ⟨_, owned, _⟩ := led
    rw [user] at owned
    cases owned
  | run =>
    obtain ⟨image, owned⟩ := led
    rw [user] at owned
    cases owned

theorem entered_mounts (ordered : Ordered (rules host settings cx fresh) events state) {name : String}
    (user : settings.options.from_ = .container name)
    (clear : ∀ done ∈ state.done, done.start = .container .inspect fresh → Clear host settings cx done.world done.out)
    (entered : Entered state) :
    ∃ before ∈ state.done, Inspects settings cx fresh before ∧
      ∃ found, foundBy host settings before.out = some found ∧ Mounts settings before.world cx found := by
  -- A version step is what a container is entered by, and the last one of a start that is up.
  have version : ∃ launch, (Start.container .version fresh, launch) ∈ state.launched := by
    obtain up | ⟨start, launch, member, head⟩ := entered
    · obtain ⟨prior, last, done, start, _⟩ := ordered.up up
      have member : (last.start, last.launch) ∈ state.launched := done_launched (by simp [done])
      rw [start] at member
      exact ⟨_, member⟩
    · obtain ⟨stage, rfl, fits, _⟩ := ordered.good start launch member
      obtain rfl := (fits_head fits).1 head
      exact ⟨launch, member⟩
  obtain ⟨launch, member⟩ := version
  obtain ⟨stage, same, _, led⟩ := ordered.good _ _ member
  cases same
  obtain ⟨before, earlier, start, found, shown, shares⟩ := led name user
  exact ⟨before, earlier, inspects_done ordered earlier start, found, shown, shared_mounts (clear before earlier start) shown shares⟩

theorem delete_found (ordered : Ordered (rules host settings cx fresh) events state) {start : Start} {launch : Launch}
    (member : (start, launch) ∈ state.launched) (head : launch.args.head? = some (facts settings).delete) :
    fresh = true ∧ (∃ image, settings.options.from_ = .image image) ∧
      ∃ before ∈ state.done, Inspects settings cx fresh before ∧ foundBy host settings before.out ≠ none := by
  obtain ⟨stage, _, fits, led⟩ := ordered.good start launch member
  obtain ⟨image, rfl⟩ := (fits_head fits).2 head
  obtain ⟨new, owned, before, earlier, start, found⟩ := led
  exact ⟨new, ⟨image, owned⟩, before, earlier, inspects_done ordered earlier start, found⟩

-- What watches the runtime, and what runs a program in it, enter the container.
theorem entering_exec {launched : Launch} (ok : watch settings world cx = .ok launched ∨ execLaunch settings world cx = .ok launched) :
    launched.args.head? = some "exec" := by
  obtain ok | ok := ok
  · rw [launch_args ok]
    rfl
  · rw [launch_args ok]
    rfl

theorem cleanup_user {name : String} (user : settings.options.from_ = .container name) (what : Cleanup) :
    cleanup host settings world cx what = none := by
  unfold cleanup
  rw [user]
  cases (supported host (facts settings)).toOption <;> rfl

end Container

-- The rules of either kind.
theorem run_verified {kind : Kind} {world : World} {events : List Event}
    (up : (Starting.run host kind cx fresh world events).course = .up) :
    Verified host fresh (Starting.run host kind cx fresh world events).done kind := by
  cases kind with
  | container settings => exact (ordered_run (Container.rules host settings cx fresh) world events).up up
  | ssh remote =>
    have ordered := ordered_run (Remote.rules host remote cx fresh) world events
    obtain ⟨prior, last, done, link, start, stage, exit⟩ := ordered.up up
    refine ⟨prior, last, done, ⟨link, start, stage, exit⟩, ?_⟩
    have member : last ∈ (Starting.run host (.ssh remote) cx fresh world events).done := by simp [done]
    obtain ⟨other, same, prepared⟩ := ordered.good _ _ (Container.done_launched member)
    rw [start] at same
    cases same
    obtain ⟨before, earlier, prepares⟩ := prepared (by simp [stage, Remote.Stage.rank])
    rw [done] at earlier
    obtain prior | same := List.mem_append.mp earlier
    · exact ⟨before, prior, prepares⟩
    · -- The last step is no step that prepares.
      cases List.mem_singleton.mp same
      obtain ⟨_, _, _, other, prepare, _⟩ := prepares
      rw [start] at other
      cases other
      rw [stage] at prepare
      cases prepare

theorem run_ordered {kind : Kind} {world : World} {events : List Event} :
    (Starting.run host kind cx fresh world events).entered.Pairwise (fun before after => before.rank < after.rank) ∧
      (5 ≤ events.length → (Starting.run host kind cx fresh world events).course.Ended) := by
  cases kind with
  | container settings =>
    have ordered := ordered_run (Container.rules host settings cx fresh) world events
    exact ⟨ordered.ranks, ordered.ended⟩
  | ssh remote =>
    have ordered := ordered_run (Remote.rules host remote cx fresh) world events
    exact ⟨ordered.ranks, ordered.ended⟩

-- Each stage comes after those before it, and so no stage comes twice.
theorem start_careful (host : Host) (kind : Kind) (cx : Ctx) (fresh : Bool) (world : World) (events : List Event)
    (clear : ∀ settings name, kind = .container settings → settings.options.from_ = .container name →
      ∀ done ∈ (Starting.run host kind cx fresh world events).done, done.start = .container .inspect fresh →
        Container.Clear host settings cx done.world done.out) :
    (5 ≤ events.length → (Starting.run host kind cx fresh world events).course.Ended) ∧
      (Starting.run host kind cx fresh world events).entered.Pairwise (fun before after => before.rank < after.rank) ∧
      ((Starting.run host kind cx fresh world events).course = .up →
        Verified host fresh (Starting.run host kind cx fresh world events).done kind) ∧
      (∀ settings name, kind = .container settings → settings.options.from_ = .container name →
        (∀ start launch, (start, launch) ∈ (Starting.run host kind cx fresh world events).launched →
          launch.args ∈ Container.spared settings cx name) ∧
        (∀ other what, Container.cleanup host settings other cx what = none) ∧
        (∀ other launch, Container.watch settings other cx = .ok launch ∨ Container.execLaunch settings other cx = .ok launch →
          launch.args.head? = some "exec") ∧
        (Container.Entered (Starting.run host kind cx fresh world events) →
          ∃ before ∈ (Starting.run host kind cx fresh world events).done, Container.Inspects settings cx fresh before ∧
            ∃ found, Container.foundBy host settings before.out = some found ∧
              Container.Mounts settings before.world cx found)) ∧
      (∀ settings, kind = .container settings →
        ∀ start launch, (start, launch) ∈ (Starting.run host kind cx fresh world events).launched →
          launch.args.head? = some (Container.facts settings).delete →
            fresh = true ∧ (∃ image, settings.options.from_ = .image image) ∧
              ∃ before ∈ (Starting.run host kind cx fresh world events).done, Container.Inspects settings cx fresh before ∧
                Container.foundBy host settings before.out ≠ none) := by
  refine ⟨run_ordered.2, run_ordered.1, run_verified, ?_, ?_⟩
  · intro settings name same user
    cases same
    have ordered := ordered_run (Container.rules host settings cx fresh) world events
    refine ⟨?_, fun other what => Container.cleanup_user user what, fun other launch => Container.entering_exec, ?_⟩
    · intro start launch member
      exact Container.spared_launched ordered user member
    · intro entered
      exact Container.entered_mounts ordered user (clear settings name rfl user) entered
  · intro settings same start launch member head
    cases same
    have ordered := ordered_run (Container.rules host settings cx fresh) world events
    exact Container.delete_found ordered member head

namespace Container

def mine : Engine := .podman none ⟨.container "mine", [], none, [], [], .shipped⟩

def here : Ctx := ⟨⟨"dev", none⟩, [], "/state/runtimes/dev/io/socket", "/state/runtimes", "/usr/bin/ko"⟩

def shows (found : Inspected) : Host := ⟨true, "x86_64", ⟨"1.0", "1", "1"⟩, fun _ => none, fun _ => none, fun _ => some [found], id⟩

-- A container with the socket's directory, and one with something in its place that has no source.
def sharing : Inspected := ⟨"running", [⟨"/run/ko", "/state/runtimes/dev/io"⟩]⟩

def bare : Inspected := ⟨"running", [⟨"/run/ko", ""⟩]⟩

def held : World := ⟨some, some, fun _ => true, fun _ _ => []⟩

-- The directory of the socket is not found there.
def lost : World := { held with canonical := fun _ => none }

def zero : Outcome := ⟨.exited 0, [], []⟩

def asked (found : Inspected) (world : World) : Starting :=
  Starting.run (shows found) (.container mine) here false world [.ended world zero]

theorem asked_bare : asked bare lost =
    ⟨[⟨.container .inspect false, ⟨"podman", ["container", "inspect", "mine"], []⟩, lost, zero⟩],
      .running (.container .version false) ⟨"podman", ["exec", "mine", "/opt/ko/bin/ko", "version"], []⟩⟩ := rfl

theorem asked_sharing : asked sharing held =
    ⟨[⟨.container .inspect false, ⟨"podman", ["container", "inspect", "mine"], []⟩, held, zero⟩],
      .running (.container .version false) ⟨"podman", ["exec", "mine", "/opt/ko/bin/ko", "version"], []⟩⟩ := rfl

end Container

theorem sharing_careful :
    ∃ before ∈ (Container.asked Container.sharing Container.held).done, Container.Inspects Container.mine Container.here false before ∧
      ∃ found, Container.foundBy (Container.shows Container.sharing) Container.mine before.out = some found ∧
        Container.Mounts Container.mine before.world Container.here found := by
  have careful := start_careful (Container.shows Container.sharing) (.container Container.mine) Container.here false Container.held
    [.ended Container.held Container.zero] (by
      intro settings name same user done member start lost
      change done ∈ (Container.asked Container.sharing Container.held).done at member
      rw [Container.asked_sharing] at member
      cases List.mem_singleton.mp member
      cases lost)
  apply (careful.2.2.2.1 Container.mine "mine" rfl rfl).2.2.2
  refine .inr ⟨.container .version false, ⟨"podman", ["exec", "mine", "/opt/ko/bin/ko", "version"], []⟩, ?_, rfl⟩
  change _ ∈ (Container.asked Container.sharing Container.held).launched
  rw [Container.asked_sharing]
  exact List.mem_append_right _ List.mem_cons_self

-- The container is entered, and its socket is not mounted.
theorem bare_entered :
    Container.Entered (Container.asked Container.bare Container.lost) ∧
    ¬ ∃ before ∈ (Container.asked Container.bare Container.lost).done, Container.Inspects Container.mine Container.here false before ∧
      ∃ found, Container.foundBy (Container.shows Container.bare) Container.mine before.out = some found ∧
        Container.Mounts Container.mine before.world Container.here found := by
  rw [Container.asked_bare]
  constructor
  · exact .inr ⟨.container .version false, _, List.mem_append_right _ List.mem_cons_self, rfl⟩
  · rintro ⟨before, member, _, found, shown, mounted, there, _, source | ⟨real, canonical, _⟩⟩
    · cases List.mem_singleton.mp member
      cases (show some Container.bare = some found from shown)
      cases List.mem_singleton.mp there
      exact absurd source (by decide +kernel)
    · cases List.mem_singleton.mp member
      cases canonical

end Kido.Runtimes
