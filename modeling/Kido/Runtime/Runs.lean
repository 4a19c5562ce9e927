import Mathlib.Data.List.Induction
import Kido.Runtime.Start

set_option autoImplicit false

namespace Kido.Runtimes

variable {host : Host} {kind : Kind} {cx : Ctx}

-- What an event does to a start.
inductive Starting.Advances (host : Host) (kind : Kind) (cx : Ctx) (state : Starting) : Event → Starting → Prop where
  | stays {event : Event} (ended : state.course.Ended) : Advances host kind cx state event state
  | breaks (message : String) : Advances host kind cx state (.broken message) { state with course := .failed message }
  | runs (last : Done) (start : Start) (launch : Launch) (course : state.course = .running last.start last.launch)
      (next : last.start.next host kind last.world cx last.out = (start, .run launch)) :
      Advances host kind cx state (.ended last.world last.out) ⟨state.done ++ [last], .running start launch⟩
  | up (last : Done) (start : Start) (course : state.course = .running last.start last.launch)
      (next : last.start.next host kind last.world cx last.out = (start, .up)) :
      Advances host kind cx state (.ended last.world last.out) ⟨state.done ++ [last], .up⟩
  | fails (last : Done) (message : String) (course : state.course = .running last.start last.launch) :
      Advances host kind cx state (.ended last.world last.out) ⟨state.done ++ [last], .failed message⟩

theorem Starting.advance_cases (state : Starting) (event : Event) :
    Starting.Advances host kind cx state event (state.advance host kind cx event) := by
  cases course : state.course with
  | running start launch =>
    cases event with
    | broken message =>
      simp only [Starting.advance, course]
      exact .breaks message
    | ended world out =>
      simp only [Starting.advance, course]
      cases next : start.next host kind world cx out with
      | mk after result =>
        cases result with
        | run launched => exact .runs ⟨start, launch, world, out⟩ after launched course next
        | up => exact .up ⟨start, launch, world, out⟩ after course next
        | fail message => exact .fails ⟨start, launch, world, out⟩ message course
  | up =>
    have same : state.advance host kind cx event = state := by cases event <;> simp [Starting.advance, course]
    rw [same]
    exact .stays (by simp [course, Course.Ended])
  | failed message =>
    have same : state.advance host kind cx event = state := by cases event <;> simp [Starting.advance, course]
    rw [same]
    exact .stays (by simp [course, Course.Ended])

theorem Starting.run_snoc {fresh : Bool} {world : World} {events : List Event} {event : Event} :
    Starting.run host kind cx fresh world (events ++ [event]) =
      (Starting.run host kind cx fresh world events).advance host kind cx event := by
  unfold Starting.run
  rw [List.foldl_append]
  rfl

-- What is known of each launch, and of the step that brings the runtime up.
structure Rules (host : Host) (kind : Kind) (cx : Ctx) (fresh : Bool) where
  Good : List Done → Start → Launch → Prop
  Last : Done → Prop
  more : ∀ {done : List Done} {start : Start} {launch : Launch} (last : Done), Good done start launch → Good (done ++ [last]) start launch
  first : ∀ {world : World} {launch : Launch}, (Start.new kind fresh).first host kind world cx = .ok launch →
    Good [] (Start.new kind fresh) launch
  next_run : ∀ {done : List Done} {last : Done} {start : Start} {launch : Launch}, Good done last.start last.launch →
    last.start.next host kind last.world cx last.out = (start, .run launch) →
      last.start.rank < start.rank ∧ Good (done ++ [last]) start launch
  next_up : ∀ {done : List Done} {last : Done} {start : Start}, Good done last.start last.launch →
    last.start.next host kind last.world cx last.out = (start, .up) → Last last

variable {fresh : Bool}

-- The invariant of a start.
structure Ordered (rules : Rules host kind cx fresh) (events : List Event) (state : Starting) : Prop where
  good : ∀ start launch, (start, launch) ∈ state.launched → rules.Good state.done start launch
  ranks : state.entered.Pairwise fun before after => before.rank < after.rank
  up : state.course = .up → ∃ prior last, state.done = prior ++ [last] ∧ rules.Last last
  counted : ∀ start launch, state.course = .running start launch → state.done.length = events.length

variable {rules : Rules host kind cx fresh}

theorem entered_done {state : Starting} {last : Done} (course : state.course = .running last.start last.launch) :
    (state.done ++ [last]).map Done.start = state.entered := by
  unfold Starting.entered
  rw [course, List.map_append]
  rfl

theorem launched_done {state : Starting} {last : Done} (course : state.course = .running last.start last.launch) :
    (state.done ++ [last]).map (fun done => (done.start, done.launch)) = state.launched := by
  unfold Starting.launched
  rw [course, List.map_append]
  rfl

theorem ordered_first {world : World} : Ordered rules [] (Starting.begin_ host kind cx fresh world) := by
  unfold Starting.begin_
  cases first : (Start.new kind fresh).first host kind world cx with
  | ok launch =>
    refine ⟨?_, List.pairwise_singleton _ _, nofun, fun _ _ _ => rfl⟩
    intro start other member
    have same : (start, other) = (Start.new kind fresh, launch) := List.mem_singleton.mp member
    cases same
    exact rules.first first
  | error message => exact ⟨nofun, .nil, nofun, nofun⟩

-- What was launched stays good when one more step is done.
theorem Ordered.more {events : List Event} {state : Starting} (ordered : Ordered rules events state) (last : Done) {start : Start} {launch : Launch}
    (member : (start, launch) ∈ state.launched) : rules.Good (state.done ++ [last]) start launch :=
  rules.more last (ordered.good start launch member)

theorem Ordered.last {events : List Event} {state : Starting} {last : Done} (ordered : Ordered rules events state)
    (course : state.course = .running last.start last.launch) : rules.Good state.done last.start last.launch := by
  apply ordered.good
  rw [← launched_done course, List.map_append]
  exact List.mem_append_right _ List.mem_cons_self

-- A step that was the last one leaves its launch among those that were launched.
theorem Ordered.finish {events : List Event} {state : Starting} {last : Done} {course : Course} (ordered : Ordered rules events state)
    (running : state.course = .running last.start last.launch) (ended : course.Ended) (up : course = .up → rules.Last last) :
    Ordered rules (events ++ [.ended last.world last.out]) ⟨state.done ++ [last], course⟩ := by
  have launched : Starting.launched ⟨state.done ++ [last], course⟩ = state.launched := by
    rw [← launched_done running]
    cases course with
    | running => exact ended.elim
    | up => exact List.append_nil _
    | failed => exact List.append_nil _
  have entered : Starting.entered ⟨state.done ++ [last], course⟩ = state.entered := by
    rw [← entered_done running]
    cases course with
    | running => exact ended.elim
    | up => exact List.append_nil _
    | failed => exact List.append_nil _
  constructor
  case good =>
    intro start launch member
    rw [launched] at member
    exact ordered.more last member
  case ranks =>
    rw [entered]
    exact ordered.ranks
  case up =>
    intro is
    exact ⟨state.done, last, rfl, up is⟩
  case counted =>
    intro start launch is
    rw [show course = .running start launch from is] at ended
    exact ended.elim

theorem Ordered.step {events : List Event} {state : Starting} (ordered : Ordered rules events state) (event : Event) :
    Ordered rules (events ++ [event]) (state.advance host kind cx event) := by
  generalize advanced : state.advance host kind cx event = after
  have advances : Starting.Advances host kind cx state event after := advanced ▸ state.advance_cases event
  clear advanced
  cases advances with
  | stays ended =>
    refine ⟨ordered.good, ordered.ranks, ordered.up, ?_⟩
    intro start launch running
    rw [running] at ended
    exact ended.elim
  | breaks message =>
    refine ⟨?_, ?_, nofun, nofun⟩
    · intro start launch member
      apply ordered.good
      exact List.mem_append_left _ (by simpa [Starting.launched] using member)
    · have fewer := (List.pairwise_append.mp ordered.ranks).1
      simpa [Starting.entered] using fewer
  | runs last start launch course next =>
    obtain ⟨later, good⟩ := rules.next_run (ordered.last course) next
    have launched : Starting.launched ⟨state.done ++ [last], .running start launch⟩ = state.launched ++ [(start, launch)] := by
      rw [← launched_done course]
      rfl
    have entered : Starting.entered ⟨state.done ++ [last], .running start launch⟩ = state.entered ++ [start] := by
      rw [← entered_done course]
      rfl
    constructor
    case good =>
      intro other entry member
      rw [launched] at member
      obtain before | new := List.mem_append.mp member
      · exact ordered.more last before
      · cases List.mem_singleton.mp new
        exact good
    case ranks =>
      rw [entered, List.pairwise_append]
      refine ⟨ordered.ranks, List.pairwise_singleton _ _, ?_⟩
      intro before member after new
      cases List.mem_singleton.mp new
      -- The step that was run was the last one entered.
      rw [← entered_done course, List.map_append] at member
      obtain early | same := List.mem_append.mp member
      · have ranks := ordered.ranks
        rw [← entered_done course, List.map_append, List.pairwise_append] at ranks
        have earlier := ranks.2.2 before early last.start List.mem_cons_self
        omega
      · cases List.mem_singleton.mp same
        exact later
    case up => exact nofun
    case counted =>
      intro _ _ _
      have before := ordered.counted _ _ course
      simp only [List.length_append, List.length_cons, List.length_nil, before]
    | up last start course next => exact ordered.finish course trivial fun _ => rules.next_up (ordered.last course) next
  | fails last message course => exact ordered.finish course trivial nofun

theorem ordered_run (rules : Rules host kind cx fresh) (world : World) (events : List Event) :
    Ordered rules events (Starting.run host kind cx fresh world events) := by
  induction events using List.reverseRecOn with
  | nil => exact ordered_first
  | append_singleton events event ih =>
    rw [Starting.run_snoc]
    exact ih.step event

theorem rank_small (start : Start) : start.rank < 5 := by
  cases start with
  | container stage _ => cases stage <;> simp [Start.rank, Container.Stage.rank]
  | ssh link => cases stage : link.stage <;> simp [Start.rank, Remote.Stage.rank, stage]

-- Five steps at most are run.
theorem Ordered.ended {events : List Event} {state : Starting} (ordered : Ordered rules events state) (many : 5 ≤ events.length) :
    state.course.Ended := by
  cases course : state.course with
  | up => trivial
  | failed => trivial
  | running start launch =>
    have counted := ordered.counted start launch course
    have ranks : (state.entered.map Start.rank).Pairwise (· < ·) := List.pairwise_map.mpr ordered.ranks
    have within : state.entered.map Start.rank ⊆ List.range 5 := by
      intro rank member
      obtain ⟨start, _, rfl⟩ := List.mem_map.mp member
      exact List.mem_range.mpr (rank_small start)
    have distinct : (state.entered.map Start.rank).Nodup := ranks.imp Nat.ne_of_lt
    have few := (List.subperm_of_subset distinct within).length_le
    have length : state.entered.length = state.done.length + 1 := by
      unfold Starting.entered
      rw [course, List.length_append, List.length_map]
      rfl
    rw [List.length_map, List.length_range] at few
    omega

end Kido.Runtimes
