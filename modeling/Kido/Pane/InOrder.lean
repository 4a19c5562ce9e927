import Kido.Pane.Turns

set_option autoImplicit false

namespace Kido.Dispatching

open Kido.Shared Kido.Framing

def Look.come (look : Look) : Bytes :=
  match look.input with
  | none => []
  | some reading => bytesOf reading.pieces

def comeOf (minimum : Nat) : List Look → Bytes
  | [] => []
  | look :: looks => if look.room < minimum then look.come ++ comeOf minimum looks else []

def Told (came : Bytes) (handled : List Bytes) (pane : Pane) : Prop := pane.came = came ∧ pane.handled = handled

section Told

variable {came : Bytes} {handled : List Bytes}

theorem told_modify {change : Pane → Pane} (sameCame : ∀ pane, (change pane).came = pane.came)
    (sameHandled : ∀ pane, (change pane).handled = pane.handled) :
    Action.Ensures (Told came handled) (Action.modify change : Act Unit) (fun _ => Told came handled) (fun _ => True) :=
  Action.Ensures.modify fun pane ⟨first, second⟩ => ⟨(sameCame pane).trans first, (sameHandled pane).trans second⟩

theorem fill_told (reading : Reading) :
    Action.Ensures (Told came handled) (fill reading) (fun _ => Told (came ++ bytesOf reading.pieces) handled)
      (fun _ => True) := by
  intro pane ⟨first, second⟩
  unfold fill
  split
  next => exact .inr ⟨_, _, rfl, trivial⟩
  next => exact .inl ⟨_, _, rfl, congrArg (· ++ bytesOf reading.pieces) first, second⟩

theorem defers_told :
    Action.Ensures (Told came handled) defers (fun _ => Told came handled) (fun _ => True) := by
  intro pane told
  fun_induction defers pane with
  | case1 => exact .inr ⟨_, _, rfl, trivial⟩
  | case2 => exact .inl ⟨_, _, rfl, told⟩
  | case3 pane range input found frame isExit ih => exact ih told
  | case4 pane range input found frame isTail decoded ih => exact ih told
  | case5 => exact .inr ⟨_, _, rfl, trivial⟩
  | case6 pane range input found frame notExit notTail ih => exact ih told

theorem compact_told : Action.Ensures (Told came handled) compact (fun _ => Told came handled) (fun _ => True) :=
  told_modify (fun _ => rfl) fun _ => rfl

theorem stops_told (stop : Bool) :
    Action.Ensures (Told came handled) (stops stop) (fun _ => Told came handled) (fun _ => True) :=
  told_modify (fun _ => rfl) fun _ => rfl

theorem announceFull_told :
    Action.Ensures (Told came handled) announceFull (fun _ => Told came handled) (fun _ => True) :=
  told_modify (fun _ => rfl) fun _ => rfl

theorem failsIf_told (fails : Bool) :
    Action.Ensures (Told came handled) (failsIf fails) (fun _ => Told came handled) (fun _ => True) := by
  cases fails with
  | true => exact Action.Ensures.halt fun _ _ => trivial
  | false => exact Action.Ensures.pure fun _ held => held

theorem nestedControl_told (reading : Reading) :
    Action.Ensures (Told came handled) (nestedControl reading)
      (fun _ => Told (came ++ bytesOf reading.pieces) handled) (fun _ => True) :=
  (fill_told reading).bind fun _ => defers_told.bind fun _ => compact_told.bind fun _ => stops_told _

theorem pollOnce_told (look : Look) :
    Action.Ensures (Told came handled) (pollOnce look)
      (fun input pane => input = look.input ∧ Told came handled pane) (fun _ => True) :=
  (failsIf_told _).bind fun _ => (stops_told _).bind fun _ => Action.Ensures.pure fun _ held => ⟨rfl, held⟩

theorem waitSpace_told (minimum : Nat) (looks : List Look) :
    Action.Ensures (Told came handled) (waitSpace minimum looks)
      (fun _ => Told (came ++ comeOf minimum looks) handled) (fun _ => True) := by
  induction looks generalizing came with
  | nil => exact Action.Ensures.halt fun _ _ => trivial
  | cons look looks ih =>
    have looked : Action.Ensures (Told came handled) (Action.get : Act Pane) (fun _ => Told came handled) (fun _ => True) :=
      Action.Ensures.get fun _ held => held
    refine looked.bind fun pane => ?_
    split
    next waits =>
      rw [comeOf, if_pos waits.1, ← List.append_assoc]
      refine announceFull_told.bind fun _ => (pollOnce_told look).bind fun input => ?_
      cases input with
      | none =>
        refine (@ih (came ++ look.come)).weaken (fun _ ⟨none_, told⟩ => ?_) (fun _ _ => id) fun _ => id
        rwa [Look.come, ← none_, List.append_nil]
      | some reading =>
        have nested := (nestedControl_told reading).bind fun _ => @ih (came ++ bytesOf reading.pieces)
        intro state ⟨some_, told⟩
        rw [Look.come, ← some_]
        exact nested state told
    next enough =>
      split
      next => exact Action.Ensures.halt fun _ _ => trivial
      next going =>
        have none_ : comeOf minimum (look :: looks) = [] := if_neg fun short => enough ⟨short, Bool.eq_false_iff.2 going⟩
        rw [none_, List.append_nil]
        exact Action.Ensures.pure fun _ held => held

end Told

-- No frame becomes whole that has to wait for its turn, while the marker of the death waits for room.
def QuietWait (frames : List Bytes) (pane : Pane) (looks : List Look) : Prop :=
  (wholeFrames frames (pane.came ++ comeOf deadLen looks)).filter plain = (wholeFrames frames pane.came).filter plain

def Quiet (frames : List Bytes) : List Turn → Pane → Prop
  | [], _ => True
  | first :: later, pane =>
    (∀ middle looks, controls first pane = (.ok (), middle) → first.death = some looks →
      middle.live = true ∧ middle.dead = false → QuietWait frames middle looks) ∧
    ∀ after, turn first pane = (.ok (), after) → Quiet frames later after

theorem start_rests (frames : List Bytes) : Rests frames .start := by
  refine ⟨fun _ => ⟨[], frames, [], [], rfl, rfl, rfl, ?_, rfl, ?_, ?_, rfl⟩, rfl, fun _ => rfl⟩ <;> simp

section

variable {frames : List Bytes} (isFrame : ∀ frame ∈ frames, IsFrame frame)
include isFrame

theorem Filed.whole {pending : Bytes} {pane : Pane} {taken remaining running held : List Bytes}
    (filed : Filed frames pending pane taken remaining running held) (drained : Drained pane)
    (cut : pane.came <+: frames.flatten) : wholeFrames frames pane.came = taken := by
  rw [← filed.came, ← filed.stream, List.flatten_append] at cut
  have none_ := wholeFrames_none
    (fun frame member => isFrame frame (by rw [← filed.stream]; exact List.mem_append_right _ member))
    ((List.prefix_append_right_inj _).1 cut) drained
  rw [← filed.came, ← filed.stream, wholeFrames_taken, none_, List.append_nil]

theorem Rests.handled {pane : Pane} (rests : Rests frames pane) (cut : pane.came <+: frames.flatten) :
    pane.handled.filter plain = (wholeFrames frames pane.came).filter plain := by
  obtain ⟨taken, remaining, running, held, filed⟩ := rests.orderly cut
  obtain rfl := no_bytes filed.runs filed.runBytes
  obtain rfl := no_bytes filed.holds (filed.heldBytes.trans (rests.none_ cut))
  rw [filed.whole isFrame rests.drained cut, filed.order, List.append_nil, List.append_nil]

theorem deathWait_ensures {pane : Pane} {looks : List Look} (rests : Rests frames pane)
    (quiet : QuietWait frames pane looks) :
    Action.Ensures (fun state => state = pane) (waitSpace deadLen looks) (fun _ => Rests frames) (InOrder frames) := by
  have keeps : Keeps frames [] Drained (waitSpace deadLen looks) := keeps_waitSpace isFrame Drained.stable deadLen looks
  have told := @waitSpace_told pane.came pane.handled deadLen looks
  refine (keeps.and told).weaken ?_ ?_ fun _ held => held.1
  · rintro _ rfl
    exact ⟨⟨rests.orderly, rests.drained⟩, rfl, rfl⟩
  · intro _ after ⟨⟨orderly, drained⟩, came, handled⟩
    refine ⟨orderly, drained, fun cut => ?_⟩
    obtain ⟨taken, remaining, running, held, filed⟩ := orderly cut
    obtain rfl := no_bytes filed.runs filed.runBytes
    have before : pane.came <+: frames.flatten := by
      rw [came] at cut
      exact (List.prefix_append _ _).trans cut
    have order := filed.order
    rw [← filed.whole isFrame drained cut, List.append_nil, handled, rests.handled isFrame before, came, quiet] at order
    rw [← filed.heldBytes, List.self_eq_append_right.1 order]
    rfl

theorem dead_ensures {pane : Pane} {death : Option (List Look)} (rests : Rests frames pane)
    (quiet : ∀ looks, death = some looks → pane.live = true ∧ pane.dead = false → QuietWait frames pane looks) :
    Action.Ensures (fun state => state = pane) (dead death) (fun _ => Rests frames) (InOrder frames) := by
  have looked : Action.Ensures (fun state => state = pane) (Action.get : Act Pane)
      (fun value state => value = pane ∧ state = pane) (InOrder frames) :=
    Action.Ensures.get fun _ held => ⟨held, held⟩
  refine looked.bind fun value => ?_
  split
  next looks =>
    split
    next alive =>
      intro state ⟨same, same'⟩
      obtain rfl := same
      have waited := deathWait_ensures isFrame rests (quiet looks rfl alive)
      refine (waited.bind fun _ => Action.Ensures.modify fun _ held => ?_) state same'
      exact ⟨held.orderly.same rfl rfl rfl rfl, held.drained, held.none_⟩
    next => exact Action.Ensures.pure fun _ ⟨_, same⟩ => same ▸ rests
  next => exact Action.Ensures.pure fun _ ⟨_, same⟩ => same ▸ rests

theorem turn_ensures {first : Turn} {later : List Turn} {pane : Pane} (rests : Rests frames pane)
    (quiet : Quiet frames (first :: later) pane) :
    Action.Ensures (fun state => state = pane) (turn first)
      (fun _ after => Rests frames after ∧ Quiet frames later after) (InOrder frames) := by
  have controlled : Action.Ensures (fun state => state = pane) (controls first)
      (fun _ middle => Rests frames middle ∧ controls first pane = (.ok (), middle)) (InOrder frames) := by
    rintro state rfl
    rcases controls_ensures isFrame first state rests with ⟨value, middle, done, held⟩ | halted
    · exact .inl ⟨value, middle, done, held, done⟩
    · exact .inr halted
  have rested : Action.Ensures (fun state => state = pane) (turn first) (fun _ => Rests frames) (InOrder frames) := by
    refine controlled.bind fun _ => ?_
    intro middle ⟨held, done⟩
    have died := dead_ensures isFrame held fun looks death alive => quiet.1 middle looks done death alive
    refine (died.bind fun _ => ?_) middle rfl
    cases first.fails with
    | true => exact Action.Ensures.halt fun _ held => held.orderly.inOrder
    | false => exact Action.Ensures.pure fun _ held => held
  rintro state rfl
  rcases rested state rfl with ⟨value, after, done, held⟩ | halted
  · exact .inl ⟨value, after, done, held, quiet.2 after done⟩
  · exact .inr halted

theorem turns_ensures {script : List Turn} {pane : Pane} (rests : Rests frames pane) (quiet : Quiet frames script pane) :
    Action.Ensures (fun state => state = pane) (turns script) (fun _ => Rests frames) (InOrder frames) := by
  induction script generalizing pane with
  | nil => exact Action.Ensures.pure fun _ same => same ▸ rests
  | cons first later ih =>
    refine (turn_ensures isFrame rests quiet).bind fun _ => ?_
    intro state ⟨held, quiet'⟩
    exact ih held quiet' state rfl

-- As long as no frame has to wait for its turn while the marker of the death waits for room, the frames are handled in
-- their order in every run, and after each turn all that came whole were.
theorem requests_in_order {script : List Turn} (quiet : Quiet frames script .start)
    (cut : (turns script .start).2.came <+: frames.flatten) :
    (turns script .start).2.handled.filter plain <+: frames.filter plain ∧
      ((turns script .start).1 = .ok () →
        (turns script .start).2.deferred.isEmpty = true ∧
        (turns script .start).2.handled.filter plain =
          (wholeFrames frames (turns script .start).2.came).filter plain) := by
  rcases turns_ensures isFrame (start_rests frames) quiet .start rfl with ⟨value, last, done, rests⟩ | ⟨reason, last, stopped, inOrder⟩
  · rw [done] at cut ⊢
    exact ⟨rests.orderly.inOrder cut, fun _ => ⟨(Frames.isEmpty_iff _).2 (rests.none_ cut), rests.handled isFrame cut⟩⟩
  · rw [stopped] at cut ⊢
    exact ⟨inOrder cut, nofun⟩

end

structure Goes (input deferred : Bytes) (live dead : Bool) (came : Bytes) (handled : List Bytes) (pane : Pane) : Prop where
  input : pane.input.rest = input
  deferred : pane.deferred.rest = deferred
  stopping : pane.stopping = false
  live : pane.live = live
  dead : pane.dead = dead
  came : pane.came = came
  handled : pane.handled = handled

abbrev Does {α : Type} (before : Pane → Prop) (action : Act α) (after : α → Pane → Prop) : Prop :=
  Action.Ensures before action after fun _ => False

section Goes

variable {input deferred came : Bytes} {live dead : Bool} {handled : List Bytes}

theorem fill_goes {reading : Reading} (small : input.length + (bytesOf reading.pieces).length < maxFrameBytes) :
    Does (Goes input deferred live dead came handled) (fill reading)
      (fun eof pane => eof = reading.closed ∧
        Goes (input ++ bytesOf reading.pieces) deferred live dead (came ++ bytesOf reading.pieces) handled pane) := by
  intro pane goes
  unfold fill
  rcases pane.input.fill_cases reading.pieces reading.closed with ⟨-, large⟩ | ⟨filled, done, rest, -⟩
  · rw [goes.input] at large
    omega
  · rw [done]
    exact .inl ⟨_, _, rfl, rfl, by rw [rest, goes.input], goes.deferred, goes.stopping, goes.live, goes.dead,
      congrArg (· ++ bytesOf reading.pieces) goes.came, goes.handled⟩

theorem compact_goes :
    Does (Goes input deferred live dead came handled) compact (fun _ => Goes input deferred live dead came handled) :=
  Action.Ensures.modify fun pane goes =>
    ⟨pane.input.compact_rest.trans goes.input, goes.deferred, goes.stopping, goes.live, goes.dead, goes.came, goes.handled⟩

theorem stops_goes :
    Does (Goes input deferred live dead came handled) (stops false)
      (fun _ => Goes input deferred live dead came handled) :=
  Action.Ensures.modify fun _ goes =>
    ⟨goes.input, goes.deferred, (Bool.or_false _).trans goes.stopping, goes.live, goes.dead, goes.came, goes.handled⟩

theorem next_frame {frames : Frames} {frame : Bytes} (isFrame : IsFrame frame) (rest : frames.rest = frame) :
    ∃ range after, frames.next = .ok (some (range, after)) ∧ after.frame range = frame ∧ after.rest = [] := by
  have sized := isFrame []
  rw [List.append_nil, ← rest] at sized
  obtain ⟨range, after, found, taken, left⟩ := Frames.next_some sized
  rw [rest] at taken left
  exact ⟨range, after, found, by simpa using taken, by simpa using left⟩

theorem defers_none {pane : Pane} (none_ : pane.input.next = .ok none) : defers pane = (.ok (), pane) := by
  unfold defers
  split
  next failed => rw [none_] at failed; cases failed
  next => rfl
  next found => rw [none_] at found; cases found

theorem defers_push {pane : Pane} {range : Nat × Nat} {input : Frames}
    (found : pane.input.next = .ok (some (range, input))) (counts : plain (input.frame range) = true) :
    defers pane = defers { pane with input, deferred := pane.deferred.push (input.frame range) } := by
  have neither : kind? (input.frame range) ≠ some .exit ∧ kind? (input.frame range) ≠ some .tail := of_decide_eq_true counts
  conv_lhs => unfold defers
  split
  next failed => rw [found] at failed; cases failed
  next none_ => rw [found] at none_; cases none_
  next same =>
    rw [found] at same
    cases same
    dsimp only
    split
    next isExit => exact absurd isExit neither.1
    next isTail => exact absurd isTail neither.2
    next => rfl

theorem defers_goes {frame : Bytes} (isFrame : IsFrame frame) (counts : plain frame = true) :
    Does (Goes frame deferred live dead came handled) defers
      (fun _ => Goes [] (deferred ++ frame) live dead came handled) := by
  intro pane goes
  obtain ⟨range, input, found, taken, left⟩ := next_frame isFrame goes.input
  have none_ : input.next = .ok none := Frames.next_none.2 (by rw [left]; rfl)
  rw [defers_push found (by rwa [taken]), defers_none none_]
  refine .inl ⟨_, _, rfl, left, ?_, goes.stopping, goes.live, goes.dead, goes.came, goes.handled⟩
  rw [Frames.push_rest, goes.deferred, taken]

structure IsTail (frame : Bytes) : Prop where
  isFrame : IsFrame frame
  small : frame.length < maxFrameBytes
  kind : kind? frame = some .tail
  decoded : decodeRequest frame = .ok .tail

theorem defers_tail {frame : Bytes} (isTail : IsTail frame) :
    Does (Goes frame deferred live dead came handled) defers (fun _ => Goes [] deferred live dead came handled) := by
  intro pane goes
  obtain ⟨range, input, found, taken, left⟩ := next_frame isTail.isFrame goes.input
  have none_ : input.next = .ok none := Frames.next_none.2 (by rw [left]; rfl)
  have passed : defers pane = defers { pane with input, full := false } := by
    conv_lhs => unfold defers
    split
    next failed => rw [found] at failed; cases failed
    next none_ => rw [found] at none_; cases none_
    next same =>
      rw [found] at same
      cases same
      simp only [taken, isTail.kind, isTail.decoded]
  rw [passed, defers_none none_]
  exact .inl ⟨_, _, rfl, left, goes.deferred, goes.stopping, goes.live, goes.dead, goes.came, goes.handled⟩

def quick : Handling := ⟨[], [], false, false⟩

theorem needsLive_goes :
    Does (Goes input deferred true dead came handled) needsLive
      (fun _ => Goes input deferred true dead came handled) := by
  intro pane goes
  have live : failsIf (!pane.live) = pure () := by rw [goes.live]; rfl
  exact .inl ⟨(), pane, congrFun live pane, goes⟩

theorem simple_goes (text : Bytes) :
    Does (Goes input deferred true dead came handled) (simple (.text text) quick)
      (fun _ => Goes input deferred true dead came handled) :=
  needsLive_goes.bind fun _ => Action.Ensures.bind (Action.Ensures.pure fun _ => id) fun _ => stops_goes

theorem note_goes (frame : Bytes) :
    Does (Goes input deferred live dead came handled) (note frame)
      (fun _ => Goes input deferred live dead came (handled ++ [frame])) :=
  Action.Ensures.modify fun _ goes =>
    ⟨goes.input, goes.deferred, goes.stopping, goes.live, goes.dead, goes.came, congrArg (· ++ [frame]) goes.handled⟩

structure IsText (frame : Bytes) : Prop where
  isFrame : IsFrame frame
  small : frame.length < maxFrameBytes
  kind : kind? frame = some .text
  decoded : ∃ text, decodeRequest frame = .ok (.text text)

theorem IsText.counts {frame : Bytes} (isText : IsText frame) : plain frame = true := by
  simp [plain, isText.kind]

theorem dispatch_goes {frame : Bytes} (isText : IsText frame) :
    Does (Goes input deferred true dead came handled) (dispatch frame quick)
      (fun _ => Goes input deferred true dead came (handled ++ [frame])) := by
  obtain ⟨text, decoded⟩ := isText.decoded
  refine (note_goes frame).bind fun _ => ?_
  rw [decoded]
  exact simple_goes text

theorem routed_goes {frame : Bytes} (isText : IsText frame) :
    Does (Goes input deferred true dead came handled) (routed frame (some quick))
      (fun _ => Goes input deferred true dead came (handled ++ [frame])) := by
  obtain ⟨text, decoded⟩ := isText.decoded
  have other : kind? frame ∉ [some Kind.init, some .resize, some .snapshot] := by
    rw [isText.kind]
    decide
  simp only [routed, if_neg other]
  refine (note_goes frame).bind fun _ => ?_
  rw [decoded]
  exact simple_goes text

theorem route_none (handling : Option Handling) :
    Does (Goes [] deferred live dead came handled) (route handling)
      (fun more pane => more = false ∧ Goes [] deferred live dead came handled pane) := by
  intro pane goes
  have none_ : pane.input.next = .ok none := Frames.next_none.2 (by rw [goes.input]; rfl)
  refine .inl ⟨false, pane, ?_, rfl, goes⟩
  rw [route, Action.get_bind, none_]
  rfl

theorem route_goes {frame : Bytes} (isFrame : IsFrame frame) {handling : Handling} {live' : Bool}
    (goes_ : Does (Goes [] deferred live dead came handled) (routed frame (some handling))
      (fun _ => Goes [] deferred live' dead came (handled ++ [frame]))) :
    Does (Goes frame deferred live dead came handled) (route (some handling))
      (fun more pane => more = true ∧ Goes [] deferred live' dead came (handled ++ [frame]) pane) := by
  intro pane goes
  obtain ⟨range, input, found, taken, left⟩ := next_frame isFrame goes.input
  have took : Goes [] deferred live dead came handled { pane with input } :=
    ⟨left, goes.deferred, goes.stopping, goes.live, goes.dead, goes.came, goes.handled⟩
  have rest : Does (Goes [] deferred live dead came handled) (routed frame (some handling) >>= fun _ => pure true)
      (fun more pane => more = true ∧ Goes [] deferred live' dead came (handled ++ [frame]) pane) :=
    goes_.bind fun _ => Action.Ensures.pure fun _ held => ⟨rfl, held⟩
  have same : route (some handling) pane =
      (routed frame (some handling) >>= fun _ => pure true : Act Bool) { pane with input } := by
    rw [route, Action.get_bind, found, ← taken]
    rfl
  rw [same]
  exact rest _ took

structure IsInit (frame : Bytes) : Prop where
  isFrame : IsFrame frame
  small : frame.length < maxFrameBytes
  kind : kind? frame = some .init
  decoded : ∃ init, decodeRequest frame = .ok (.init init)

theorem init_goes {frame : Bytes} (isInit : IsInit frame) :
    Does (Goes input deferred false dead came handled) (routed frame (some quick))
      (fun _ => Goes input deferred true dead came (handled ++ [frame])) := by
  obtain ⟨setup, decoded⟩ := isInit.decoded
  have member : kind? frame ∈ [some Kind.init, some .resize, some .snapshot] := by
    rw [isInit.kind]
    decide
  simp only [routed, if_pos member]
  refine (note_goes frame).bind fun _ => ?_
  rw [decoded]
  intro pane goes
  have notLive : failsIf pane.live = pure () := by rw [goes.live]; rfl
  refine .inl ⟨(), { pane with live := true, stopping := pane.stopping || false }, congrFun (congrArg (· >>= fun _ => init quick) notLive) pane, ?_⟩
  exact ⟨goes.input, goes.deferred, (Bool.or_false _).trans goes.stopping, rfl, goes.dead, goes.came, goes.handled⟩

theorem routes_goes {frame : Bytes} (isFrame : IsFrame frame) {live' : Bool}
    (goes_ : Does (Goes [] deferred live dead came handled) (routed frame (some quick))
      (fun _ => Goes [] deferred live' dead came (handled ++ [frame]))) :
    Does (Goes frame deferred live dead came handled) (routes [quick])
      (fun _ => Goes [] deferred live' dead came (handled ++ [frame])) := by
  refine (route_goes isFrame goes_).bind fun more => ?_
  cases more with
  | false => exact fun _ held => nomatch held.1
  | true =>
    have last : Does (Goes [] deferred live' dead came (handled ++ [frame])) (routes [])
        (fun _ => Goes [] deferred live' dead came (handled ++ [frame])) :=
      (route_none none).bind fun _ => Action.Ensures.pure fun _ held => held.2
    exact last.weaken (fun _ held => held.2) (fun _ _ => id) fun _ => id

theorem runsDeferred_none :
    Does (Goes [] [] live dead came handled) (runsDeferred []) (fun _ => Goes [] [] live dead came handled) := by
  intro pane goes
  have empty := (Frames.isEmpty_iff _).2 goes.deferred
  have same : runsDeferred [] pane = (if pane.deferred.isEmpty = true then pure () else Action.halt .unfinished : Act Unit) pane := rfl
  rw [same, if_pos empty]
  exact .inl ⟨(), pane, rfl, goes⟩

theorem runPending_one {pending : Frames} {frame : Bytes} (isText : IsText frame) (rest : pending.rest = frame) :
    Does (Goes [] deferred true dead came handled) (runPending pending [quick])
      (fun _ => Goes [] deferred true dead came (handled ++ [frame])) := by
  obtain ⟨range, after, found, taken, left⟩ := next_frame isText.isFrame rest
  have none_ : after.next = .ok none := Frames.next_none.2 (by rw [left]; rfl)
  have first : runNext pending (some quick) = (do dispatch frame quick; return some after) := by
    unfold runNext
    rw [found, ← taken]
    rfl
  have last : runPending after [] = pure () := by
    unfold runPending runNext
    rw [none_]
    rfl
  have ran : Does (Goes [] deferred true dead came handled) (runNext pending (some quick))
      (fun more pane => more = some after ∧ Goes [] deferred true dead came (handled ++ [frame]) pane) := by
    rw [first]
    exact (dispatch_goes isText).bind fun _ => Action.Ensures.pure fun _ held => ⟨rfl, held⟩
  refine ran.bind fun more => ?_
  rintro pane ⟨rfl, held⟩
  exact .inl ⟨(), pane, congrFun last pane, held⟩

theorem runsDeferred_one {frame : Bytes} (isText : IsText frame) :
    Does (Goes [] frame true dead came handled) (runsDeferred [[quick]])
      (fun _ => Goes [] [] true dead came (handled ++ [frame])) := by
  intro pane goes
  have full : ¬pane.deferred.isEmpty = true := by
    rw [Frames.isEmpty_iff, goes.deferred]
    intro none_
    have long := isText.isFrame.bounds.1
    rw [none_] at long
    exact absurd long (by decide)
  have same : runsDeferred [[quick]] pane =
      (if pane.deferred.isEmpty = true then pure () else runDeferred [quick] >>= fun _ => runsDeferred [] : Act Unit) pane :=
    rfl
  have taken : Goes [] [] true dead came handled { pane with deferred := .default } :=
    ⟨goes.input, rfl, goes.stopping, goes.live, goes.dead, goes.came, goes.handled⟩
  rw [same, if_neg full]
  exact ((runPending_one isText goes.deferred).bind fun _ => runsDeferred_none) _ taken

theorem fill_one {text : Piece} (small : text.val.length < maxFrameBytes) :
    Does (Goes [] deferred live dead came handled) (fill ⟨[text], false⟩)
      (fun eof pane => eof = false ∧ Goes text.val deferred live dead (came ++ text.val) handled pane) := by
  have bytes : bytesOf [text] = text.val := List.append_nil text.val
  have fits : ([] : Bytes).length + (bytesOf [text]).length < maxFrameBytes := by rwa [bytes, List.length_nil, Nat.zero_add]
  have filled := @fill_goes [] deferred came live dead handled ⟨[text], false⟩ fits
  rwa [List.nil_append, bytes] at filled

theorem nestedControl_text {text : Piece} (isText : IsText text.val) :
    Does (Goes [] deferred live dead came handled) (nestedControl ⟨[text], false⟩)
      (fun _ => Goes [] (deferred ++ text.val) live dead (came ++ text.val) handled) := by
  refine (fill_one isText.small).bind fun eof => ?_
  rintro pane ⟨rfl, goes⟩
  exact ((defers_goes isText.isFrame isText.counts).bind fun _ => compact_goes.bind fun _ => stops_goes) pane goes

theorem nestedControl_tail {tail : Piece} (isTail : IsTail tail.val) :
    Does (Goes [] deferred live dead came handled) (nestedControl ⟨[tail], false⟩)
      (fun _ => Goes [] deferred live dead (came ++ tail.val) handled) := by
  refine (fill_one isTail.small).bind fun eof => ?_
  rintro pane ⟨rfl, goes⟩
  exact ((defers_tail isTail).bind fun _ => compact_goes.bind fun _ => stops_goes) pane goes

-- A wait in which one frame comes, and then room.
def waited (minimum : Nat) (piece : Piece) : List Look :=
  [⟨0, false, false, some ⟨[piece], false⟩⟩, ⟨minimum, false, false, none⟩]

theorem waitSpace_one {minimum : Nat} (positive : 0 < minimum) {piece : Piece} {deferred' : Bytes}
    (nested : Does (Goes [] deferred live dead came handled) (nestedControl ⟨[piece], false⟩)
      (fun _ => Goes [] deferred' live dead (came ++ piece.val) handled)) :
    Does (Goes [] deferred live dead came handled) (waitSpace minimum (waited minimum piece))
      (fun _ => Goes [] deferred' live dead (came ++ piece.val) handled) := by
  intro pane goes
  have waits : 0 < minimum ∧ pane.stopping = false := ⟨positive, goes.stopping⟩
  have ready : Does (Goes [] deferred' live dead (came ++ piece.val) handled)
      (waitSpace minimum [⟨minimum, false, false, none⟩])
      (fun _ => Goes [] deferred' live dead (came ++ piece.val) handled) := by
    intro after goes
    have enough : ¬(minimum < minimum ∧ after.stopping = false) := by omega
    have same : waitSpace minimum [⟨minimum, false, false, none⟩] after = (pure () : Act Unit) after := by
      change (if minimum < minimum ∧ after.stopping = false then _ else
        if after.stopping = true then Action.halt .requested else pure () : Act Unit) after = _
      rw [if_neg enough, goes.stopping]
      rfl
    exact .inl ⟨(), after, same, goes⟩
  have announced : Goes [] deferred live dead came handled { pane with full := true, stopping := pane.stopping || false } :=
    ⟨goes.input, goes.deferred, (Bool.or_false _).trans goes.stopping, goes.live, goes.dead, goes.came, goes.handled⟩
  have same : waitSpace minimum (waited minimum piece) pane =
      (nestedControl ⟨[piece], false⟩ >>= fun _ => waitSpace minimum [⟨minimum, false, false, none⟩] : Act Unit)
        { pane with full := true, stopping := pane.stopping || false } := by
    change (if 0 < minimum ∧ pane.stopping = false then _ else _ : Act Unit) pane = _
    rw [if_pos waits]
    rfl
  rw [same]
  exact (nested.bind fun _ => ready) _ announced

theorem controls_goes {piece : Piece} {rounds : List (List Handling)} {death : Option (List Look)} {live' : Bool}
    {handled' : List Bytes} (isFrame : IsFrame piece.val) (small : piece.val.length < maxFrameBytes)
    (routed_ : Does (Goes [] deferred live dead (came ++ piece.val) handled) (routed piece.val (some quick))
      (fun _ => Goes [] deferred live' dead (came ++ piece.val) (handled ++ [piece.val])))
    (ran : Does (Goes [] deferred live' dead (came ++ piece.val) (handled ++ [piece.val])) (runsDeferred rounds)
      (fun _ => Goes [] [] live' dead (came ++ piece.val) handled')) :
    Does (Goes [] deferred live dead came handled)
      (controls ⟨some ⟨⟨[piece], false⟩, [quick], rounds⟩, false, death, false⟩)
      (fun _ => Goes [] [] live' dead (came ++ piece.val) handled') := by
  intro pane goes
  have going : ¬pane.stopping = true := by
    rw [goes.stopping]
    exact Bool.false_ne_true
  have controlled : Does (Goes [] deferred live dead came handled) (control ⟨⟨[piece], false⟩, [quick], rounds⟩)
      (fun _ => Goes [] [] live' dead (came ++ piece.val) handled') := by
    refine (fill_one small).bind fun eof => ?_
    rintro pane ⟨rfl, goes⟩
    exact ((routes_goes isFrame routed_).bind fun _ => compact_goes.bind fun _ => ran.bind fun _ => stops_goes) pane goes
  have same : controls ⟨some ⟨⟨[piece], false⟩, [quick], rounds⟩, false, death, false⟩ pane =
      (control ⟨⟨[piece], false⟩, [quick], rounds⟩ >>= fun _ => stops false : Act Unit) pane := by
    change (if pane.stopping = true then Action.halt .requested else _ : Act Unit) pane = _
    rw [if_neg going]
    rfl
  rw [same]
  exact (controlled.bind fun _ => stops_goes) pane goes

theorem dead_goes {piece : Piece} {deferred' : Bytes}
    (nested : Does (Goes [] deferred true false came handled) (nestedControl ⟨[piece], false⟩)
      (fun _ => Goes [] deferred' true false (came ++ piece.val) handled)) :
    Does (Goes [] deferred true false came handled) (Kido.Dispatching.dead (some (waited deadLen piece)))
      (fun _ => Goes [] deferred' true true (came ++ piece.val) handled) := by
  intro pane goes
  have alive : pane.live = true ∧ pane.dead = false := ⟨goes.live, goes.dead⟩
  have marked : Does (Goes [] deferred' true false (came ++ piece.val) handled)
      (Action.modify fun pane => { pane with dead := true })
      (fun _ => Goes [] deferred' true true (came ++ piece.val) handled) :=
    Action.Ensures.modify fun _ goes => ⟨goes.input, goes.deferred, goes.stopping, goes.live, rfl, goes.came, goes.handled⟩
  have same : Kido.Dispatching.dead (some (waited deadLen piece)) pane =
      (waitSpace deadLen (waited deadLen piece) >>= fun _ =>
        Action.modify fun pane => { pane with dead := true } : Act Unit) pane := by
    change (if pane.live = true ∧ pane.dead = false then _ else pure () : Act Unit) pane = _
    rw [if_pos alive]
  rw [same]
  exact ((waitSpace_one (by decide) nested).bind fun _ => marked) pane goes

theorem turn_goes {first : Turn} {before middle after : Pane → Prop} (fine : first.fails = false)
    (controlled : Does before (controls first) fun _ => middle) (died : Does middle (Kido.Dispatching.dead first.death) fun _ => after) :
    Does before (turn first) fun _ => after := by
  refine controlled.bind fun _ => died.bind fun _ => ?_
  rw [fine]
  exact Action.Ensures.pure fun _ held => held

theorem deathless_goes {held : Pane → Prop} : Does held (Kido.Dispatching.dead none) fun _ => held :=
  Action.Ensures.bind (Action.Ensures.get fun _ same => same) fun _ => Action.Ensures.pure fun _ same => same

-- The pane reads one frame and handles it; `rounds` are the handlings of what was deferred.
def oneTurn (piece : Piece) (rounds : List (List Handling)) (death : Option (List Look)) : Turn :=
  ⟨some ⟨⟨[piece], false⟩, [quick], rounds⟩, false, death, false⟩

-- The pane starts; a text comes while the marker of the death waits for room.
def dyingTurn (first text : Piece) : Turn := oneTurn first [] (some (waited deadLen text))

def laterTurn (other : Piece) : Turn := oneTurn other [[quick]] none

theorem lateText_goes {first text other : Piece} (isInit : IsInit first.val) (isText : IsText text.val)
    (isOther : IsText other.val) :
    Does (Goes [] [] false false [] []) (turns [dyingTurn first text, laterTurn other])
      (fun _ => Goes [] [] true true (first.val ++ text.val ++ other.val) [first.val, other.val, text.val]) := by
  have one : Does (Goes [] [] false false [] []) (turn (dyingTurn first text))
      (fun _ => Goes [] text.val true true (first.val ++ text.val) [first.val]) :=
    turn_goes rfl (controls_goes isInit.isFrame isInit.small (init_goes isInit) runsDeferred_none)
      (dead_goes (nestedControl_text isText))
  have two : Does (Goes [] text.val true true (first.val ++ text.val) [first.val]) (turn (laterTurn other))
      (fun _ => Goes [] [] true true (first.val ++ text.val ++ other.val) [first.val, other.val, text.val]) :=
    turn_goes rfl (controls_goes isOther.isFrame isOther.small (routed_goes isOther) (runsDeferred_one isText)) deathless_goes
  exact one.bind fun _ => two.bind fun _ => Action.Ensures.pure fun _ held => held

theorem quiet_cons {frames : List Bytes} {first : Turn} {later : List Turn} {pane : Pane} {before middle after : Pane → Prop}
    (start : before pane) (controlled : Does before (controls first) fun _ => middle)
    (turned : Does before (turn first) fun _ => after)
    (waits : ∀ state looks, middle state → first.death = some looks → QuietWait frames state looks)
    (rest : ∀ state, after state → Quiet frames later state) : Quiet frames (first :: later) pane := by
  constructor
  · intro state looks done death _
    rcases controlled pane start with ⟨value, last, ran, held⟩ | ⟨reason, last, -, halted⟩
    · rw [done] at ran
      cases ran
      exact waits state looks held death
    · exact halted.elim
  · intro state done
    rcases turned pane start with ⟨value, last, ran, held⟩ | ⟨reason, last, -, halted⟩
    · rw [done] at ran
      cases ran
      exact rest state held
    · exact halted.elim

end Goes

def shellStart : Bytes :=
  [78, 0, 0, 0, 1, 3, 0, 80, 0, 24, 0] ++ List.replicate 47 0 ++
    [1, 0, 0, 0, 47, 1, 0, 0, 0, 3, 0, 0, 0, 47, 115, 104] ++ List.replicate 8 0

def starting : Except Malformed Request → Bool
  | .ok (.init _) => true
  | _ => false

theorem shellStart_isInit : IsInit shellStart := by
  refine ⟨isFrame_of_size (by decide +kernel), by decide +kernel, by decide +kernel, ?_⟩
  have starts : starting (decodeRequest shellStart) = true := by decide +kernel
  cases decoded : decodeRequest shellStart with
  | error _ =>
    rw [decoded] at starts
    cases starts
  | ok request =>
    rw [decoded] at starts
    cases request with
    | init setup => exact ⟨setup, rfl⟩
    | _ => cases starts

theorem began : Goes [] [] false false [] [] .start := ⟨rfl, rfl, rfl, rfl, rfl, rfl, rfl⟩

def letter (byte : UInt8) : Bytes := [2, 0, 0, 0, 4, byte]

theorem letter_isText (byte : UInt8) : IsText (letter byte) :=
  ⟨isFrame_of_size rfl, by change 6 < maxFrameBytes; decide, rfl, [byte], rfl⟩

def roomMade : Bytes := [9, 0, 0, 0, 2, 0, 1, 0, 0, 0, 0, 0, 0]

theorem roomMade_isTail : IsTail roomMade :=
  ⟨isFrame_of_size rfl, by change 13 < maxFrameBytes; decide, rfl, rfl⟩

def endedStream : List Bytes := [shellStart, letter 97, roomMade, letter 98]

-- The program ends in the second turn, and room is made while the marker waits for it.
def endedScript : List Turn :=
  [oneTurn ⟨shellStart, by decide⟩ [] none, oneTurn ⟨letter 97, by decide⟩ [] (some (waited deadLen ⟨roomMade, by decide⟩)),
    oneTurn ⟨letter 98, by decide⟩ [] none]

theorem ended_in_order :
    (turns endedScript .start).1 = .ok () ∧ (turns endedScript .start).2.dead = true ∧
      (turns endedScript .start).2.came = endedStream.flatten ∧
      (turns endedScript .start).2.handled = [shellStart, letter 97, letter 98] ∧
      (turns endedScript .start).2.handled.filter plain <+: endedStream.filter plain ∧
        ((turns endedScript .start).1 = .ok () →
          (turns endedScript .start).2.deferred.isEmpty = true ∧
          (turns endedScript .start).2.handled.filter plain =
            (wholeFrames endedStream (turns endedScript .start).2.came).filter plain) := by
  let seen : Bytes := shellStart ++ letter 97 ++ roomMade
  have first := @controls_goes [] [] false false [] ⟨shellStart, by decide⟩ [] none true _ shellStart_isInit.isFrame
    shellStart_isInit.small (init_goes shellStart_isInit) runsDeferred_none
  have second := @controls_goes [] shellStart true false [shellStart] ⟨letter 97, by decide⟩ []
    (some (waited deadLen ⟨roomMade, by decide⟩)) true _ (letter_isText 97).isFrame (letter_isText 97).small
    (routed_goes (letter_isText 97)) runsDeferred_none
  have third := @controls_goes [] seen true true [shellStart, letter 97] ⟨letter 98, by decide⟩ [] none true _
    (letter_isText 98).isFrame (letter_isText 98).small (routed_goes (letter_isText 98)) runsDeferred_none
  have one := @turn_goes (oneTurn ⟨shellStart, by decide⟩ [] none) _ _ _ rfl first deathless_goes
  have two := @turn_goes (oneTurn ⟨letter 97, by decide⟩ [] (some (waited deadLen ⟨roomMade, by decide⟩))) _ _ _ rfl second
    (dead_goes (nestedControl_tail roomMade_isTail))
  have three := @turn_goes (oneTurn ⟨letter 98, by decide⟩ [] none) _ _ _ rfl third deathless_goes
  have ran : Does (Goes [] [] false false [] []) (turns endedScript)
      (fun _ => Goes [] [] true true (seen ++ letter 98) [shellStart, letter 97, letter 98]) :=
    one.bind fun _ => two.bind fun _ => three.bind fun _ => Action.Ensures.pure fun _ held => held
  have quiet : Quiet endedStream endedScript .start := by
    refine quiet_cons began first one (fun _ _ _ none_ => nomatch none_) fun state held => ?_
    refine quiet_cons held second two ?_ fun state held => ?_
    · rintro state looks held ⟨⟩
      unfold QuietWait
      rw [held.came]
      decide +kernel
    · exact quiet_cons held third three (fun _ _ _ none_ => nomatch none_) fun _ _ => trivial
  rcases ran .start began with ⟨value, pane, done, goes⟩ | ⟨reason, pane, -, halted⟩
  · have cut : (turns endedScript .start).2.came <+: endedStream.flatten := by
      rw [done, goes.came]
      decide +kernel
    have isFrame : ∀ frame ∈ endedStream, IsFrame frame := by
      simp only [endedStream, List.forall_mem_cons, List.not_mem_nil, false_imp_iff, implies_true, and_true]
      exact ⟨shellStart_isInit.isFrame, (letter_isText 97).isFrame, roomMade_isTail.isFrame, (letter_isText 98).isFrame⟩
    have inOrder := requests_in_order isFrame quiet cut
    rw [done] at inOrder ⊢
    refine ⟨rfl, goes.dead, goes.came.trans ?_, goes.handled, inOrder⟩
    decide +kernel
  · exact halted.elim

-- The letter that comes first is handled last: it came while the marker of the death waited for room.
theorem letters_out_of_order :
    ∃ script pane, turns script .start = (.ok (), pane) ∧
      pane.came = [shellStart, letter 97, letter 98].flatten ∧ pane.handled = [shellStart, letter 98, letter 97] ∧
      ¬pane.handled.filter plain <+: [shellStart, letter 97, letter 98].filter plain := by
  have ran := @lateText_goes ⟨shellStart, by decide⟩ ⟨letter 97, by decide⟩ ⟨letter 98, by decide⟩ shellStart_isInit
    (letter_isText 97) (letter_isText 98) .start began
  rcases ran with ⟨value, pane, done, goes⟩ | ⟨reason, pane, -, halted⟩
  · refine ⟨_, pane, done, goes.came.trans (by simp), goes.handled, ?_⟩
    rw [goes.handled]
    decide +kernel
  · exact halted.elim

end Kido.Dispatching
