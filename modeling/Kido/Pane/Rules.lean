import Kido.Pane.Control

set_option autoImplicit false

namespace Kido.Dispatching

open Kido.Shared Kido.Framing

-- The frames whose order matters: a wait takes the others at once.
def plain (frame : Bytes) : Bool := decide (kind? frame ≠ some .exit ∧ kind? frame ≠ some .tail)

-- Where the frames of the stream are: some are taken out of the input; of those, the ones that count were handled, are
-- about to be, or are held for later, in this order.
structure Filed (frames : List Bytes) (pending : Bytes) (pane : Pane) (taken remaining running held : List Bytes) : Prop where
  stream : taken ++ remaining = frames
  came : taken.flatten ++ pane.input.rest = pane.came
  runBytes : running.flatten = pending
  runs : ∀ frame ∈ running, IsFrame frame
  heldBytes : held.flatten = pane.deferred.rest
  holds : ∀ frame ∈ held, IsFrame frame
  counts : ∀ frame ∈ held, plain frame = true
  order : taken.filter plain = (pane.handled ++ running).filter plain ++ held

def Orderly (frames : List Bytes) (pending : Bytes) (pane : Pane) : Prop :=
  pane.came <+: frames.flatten → ∃ taken remaining running held, Filed frames pending pane taken remaining running held

def Drained (pane : Pane) : Prop := frameSize pane.input.rest = .ok none

-- Those that were handled are the first of the stream, in its order.
def InOrder (frames : List Bytes) (pane : Pane) : Prop :=
  pane.came <+: frames.flatten → pane.handled.filter plain <+: frames.filter plain

def NoneHeld (frames : List Bytes) (pane : Pane) : Prop := pane.came <+: frames.flatten → pane.deferred.rest = []

theorem no_bytes {frames : List Bytes} (isFrame : ∀ frame ∈ frames, IsFrame frame) (none_ : frames.flatten = []) :
    frames = [] := by
  cases frames with
  | nil => rfl
  | cons frame frames =>
    have long := (isFrame frame List.mem_cons_self).bounds.1
    have length := congrArg List.length none_
    rw [List.flatten_cons, List.length_append, List.length_nil] at length
    omega

section Orderly

variable {frames : List Bytes} {pending : Bytes} {pane : Pane}

theorem Orderly.inOrder (orderly : Orderly frames pending pane) : InOrder frames pane := by
  intro cut
  obtain ⟨taken, remaining, running, held, filed⟩ := orderly cut
  have handled : pane.handled.filter plain <+: taken.filter plain := by
    rw [filed.order, List.filter_append, List.append_assoc]
    exact List.prefix_append _ _
  rw [← filed.stream, List.filter_append]
  exact handled.trans (List.prefix_append _ _)

theorem Orderly.same (orderly : Orderly frames pending pane) {after : Pane} (came : after.came = pane.came)
    (input : after.input.rest = pane.input.rest) (deferred : after.deferred.rest = pane.deferred.rest)
    (handled : after.handled = pane.handled) : Orderly frames pending after := by
  intro cut
  rw [came] at cut
  obtain ⟨taken, remaining, running, held, filed⟩ := orderly cut
  exact ⟨taken, remaining, running, held, filed.stream, by rw [input, came, filed.came], filed.runBytes, filed.runs,
    by rw [deferred, filed.heldBytes], filed.holds, filed.counts, by rw [handled, filed.order]⟩

theorem Orderly.reads (orderly : Orderly frames pending pane) {after : Pane} {bytes : Bytes}
    (came : after.came = pane.came ++ bytes) (input : after.input.rest = pane.input.rest ++ bytes)
    (deferred : after.deferred = pane.deferred) (handled : after.handled = pane.handled) :
    Orderly frames pending after := by
  intro cut
  rw [came] at cut
  obtain ⟨taken, remaining, running, held, filed⟩ := orderly ((List.prefix_append _ _).trans cut)
  exact ⟨taken, remaining, running, held, filed.stream,
    by rw [input, came, ← filed.came, List.append_assoc], filed.runBytes, filed.runs,
    by rw [deferred, filed.heldBytes], filed.holds, filed.counts, by rw [handled, filed.order]⟩

variable (isFrame : ∀ frame ∈ frames, IsFrame frame)
include isFrame

theorem Filed.takes {taken remaining running held : List Bytes}
    (filed : Filed frames pending pane taken remaining running held) (cut : pane.came <+: frames.flatten) {size : Nat}
    (found : frameSize pane.input.rest = .ok (some size)) :
    ∃ later, remaining = pane.input.rest.take size :: later ∧
      (taken ++ [pane.input.rest.take size]).flatten ++ pane.input.rest.drop size = pane.came := by
  have cut' : pane.input.rest <+: remaining.flatten := by
    rw [← filed.came, ← filed.stream, List.flatten_append] at cut
    exact (List.prefix_append_right_inj _).1 cut
  have remains : ∀ frame ∈ remaining, IsFrame frame := by
    intro frame member
    apply isFrame
    rw [← filed.stream]
    exact List.mem_append_right _ member
  obtain ⟨later, split, -⟩ := stream_next remains cut' found
  refine ⟨later, split, ?_⟩
  rw [List.flatten_append, List.flatten_cons, List.flatten_nil, List.append_nil, List.append_assoc,
    List.take_append_drop, filed.came]

theorem Orderly.passes (orderly : Orderly frames pending pane) {size : Nat}
    (found : frameSize pane.input.rest = .ok (some size)) (other : plain (pane.input.rest.take size) = false)
    {after : Pane} (came : after.came = pane.came) (input : after.input.rest = pane.input.rest.drop size)
    (deferred : after.deferred = pane.deferred) (handled : after.handled = pane.handled) :
    Orderly frames pending after := by
  intro cut
  rw [came] at cut
  obtain ⟨taken, remaining, running, held, filed⟩ := orderly cut
  obtain ⟨later, split, whole⟩ := filed.takes isFrame cut found
  refine ⟨taken ++ [pane.input.rest.take size], later, running, held, ?_, by rw [input, came, whole], filed.runBytes,
    filed.runs, by rw [deferred, filed.heldBytes], filed.holds, filed.counts, ?_⟩
  · rw [List.append_assoc, List.singleton_append, ← split, filed.stream]
  · rw [handled, ← filed.order, List.filter_append, List.filter_cons, other]
    simp

theorem Orderly.defers (orderly : Orderly frames pending pane) {size : Nat}
    (found : frameSize pane.input.rest = .ok (some size)) (counts : plain (pane.input.rest.take size) = true)
    {after : Pane} (came : after.came = pane.came) (input : after.input.rest = pane.input.rest.drop size)
    (deferred : after.deferred.rest = pane.deferred.rest ++ pane.input.rest.take size)
    (handled : after.handled = pane.handled) : Orderly frames pending after := by
  intro cut
  rw [came] at cut
  obtain ⟨taken, remaining, running, held, filed⟩ := orderly cut
  obtain ⟨later, split, whole⟩ := filed.takes isFrame cut found
  refine ⟨taken ++ [pane.input.rest.take size], later, running, held ++ [pane.input.rest.take size], ?_,
    by rw [input, came, whole], filed.runBytes, filed.runs, ?_, ?_, ?_, ?_⟩
  · rw [List.append_assoc, List.singleton_append, ← split, filed.stream]
  · rw [deferred, ← filed.heldBytes, List.flatten_append, List.flatten_cons, List.flatten_nil, List.append_nil]
  · intro frame member
    rcases List.mem_append.1 member with old | new
    · exact filed.holds frame old
    · obtain rfl := List.mem_singleton.1 new
      exact frameSize_isFrame found
  · intro frame member
    rcases List.mem_append.1 member with old | new
    · exact filed.counts frame old
    · obtain rfl := List.mem_singleton.1 new
      exact counts
  · rw [handled, List.filter_append, filed.order, List.filter_cons, counts, List.append_assoc]
    rfl

theorem Orderly.takes (orderly : Orderly frames [] pane) (none_ : NoneHeld frames pane) {size : Nat}
    (found : frameSize pane.input.rest = .ok (some size)) {after : Pane} (came : after.came = pane.came)
    (input : after.input.rest = pane.input.rest.drop size) (deferred : after.deferred = pane.deferred)
    (handled : after.handled = pane.handled) : Orderly frames (pane.input.rest.take size) after := by
  intro cut
  rw [came] at cut
  obtain ⟨taken, remaining, running, held, filed⟩ := orderly cut
  obtain ⟨later, split, whole⟩ := filed.takes isFrame cut found
  obtain rfl := no_bytes filed.runs filed.runBytes
  obtain rfl := no_bytes filed.holds (filed.heldBytes.trans (none_ cut))
  refine ⟨taken ++ [pane.input.rest.take size], later, [pane.input.rest.take size], [], ?_,
    by rw [input, came, whole], by simp, ?_, by rw [deferred, none_ cut]; rfl, by simp, by simp, ?_⟩
  · rw [List.append_assoc, List.singleton_append, ← split, filed.stream]
  · intro frame member
    obtain rfl := List.mem_singleton.1 member
    exact frameSize_isFrame found
  · rw [handled, List.filter_append, filed.order]
    simp

end Orderly

theorem Orderly.notes {frames : List Bytes} {frame later : Bytes} {pane : Pane}
    (orderly : Orderly frames (frame ++ later) pane) (isFrame : IsFrame frame) {after : Pane}
    (came : after.came = pane.came) (input : after.input = pane.input) (deferred : after.deferred = pane.deferred)
    (handled : after.handled = pane.handled ++ [frame]) : Orderly frames later after := by
  intro cut
  rw [came] at cut
  obtain ⟨taken, remaining, running, held, filed⟩ := orderly cut
  have cut' : frame ++ later <+: running.flatten := by rw [filed.runBytes]
  obtain ⟨rest, split, -⟩ := stream_next filed.runs cut' (isFrame later)
  rw [List.take_left] at split
  have pending : rest.flatten = later := by
    have whole := filed.runBytes
    rw [split, List.flatten_cons] at whole
    exact List.append_cancel_left whole
  refine ⟨taken, remaining, rest, held, filed.stream, by rw [input, came, filed.came], pending, ?_,
    by rw [deferred, filed.heldBytes], filed.holds, filed.counts, ?_⟩
  · intro other member
    exact filed.runs other (by rw [split]; exact List.mem_cons_of_mem _ member)
  · rw [filed.order, split, handled, List.append_assoc, List.singleton_append]

theorem Orderly.finishes {frames : List Bytes} {pending : Bytes} {pane : Pane} (orderly : Orderly frames pending pane)
    (part : frameSize pending = .ok none) : Orderly frames [] pane := by
  intro cut
  obtain ⟨taken, remaining, running, held, filed⟩ := orderly cut
  cases running with
  | nil => exact ⟨taken, remaining, [], held, { filed with runBytes := rfl }⟩
  | cons frame later =>
    have found := filed.runs frame List.mem_cons_self later.flatten
    rw [← List.flatten_cons, filed.runBytes, part] at found
    cases found

theorem Orderly.runs {frames : List Bytes} {pane : Pane} (orderly : Orderly frames [] pane) {after : Pane}
    (came : after.came = pane.came) (input : after.input = pane.input) (deferred : after.deferred.rest = [])
    (handled : after.handled = pane.handled) : Orderly frames pane.deferred.rest after := by
  intro cut
  rw [came] at cut
  obtain ⟨taken, remaining, running, held, filed⟩ := orderly cut
  obtain rfl := no_bytes filed.runs filed.runBytes
  refine ⟨taken, remaining, held, [], filed.stream, by rw [input, came, filed.came], filed.heldBytes, filed.holds,
    by rw [deferred]; rfl, by simp, by simp, ?_⟩
  rw [filed.order, handled, List.append_nil, List.append_nil, List.filter_append, List.filter_eq_self.2 filed.counts]

end Kido.Dispatching

namespace Kido.Dispatching

open Kido.Shared Kido.Framing

-- A condition that a wait does not break: it holds once the input is drained.
structure Stable (keep : Pane → Prop) : Prop where
  drained : ∀ pane, Drained pane → keep pane
  same : ∀ {pane after : Pane}, after.input = pane.input → after.deferred = pane.deferred → after.came = pane.came →
    keep pane → keep after

-- Nothing is held, or nothing that is whole is left in the input.
def Free (frames : List Bytes) (pane : Pane) : Prop := NoneHeld frames pane ∨ Drained pane

theorem Drained.stable : Stable Drained :=
  ⟨fun _ drained => drained, fun input _ _ drained => by unfold Drained; rwa [input]⟩

theorem Free.stable (frames : List Bytes) : Stable (Free frames) :=
  ⟨fun _ drained => .inr drained, fun input deferred came free => by
    unfold Free NoneHeld Drained
    rwa [input, deferred, came]⟩

section

variable {frames : List Bytes} {pending : Bytes} {keep : Pane → Prop}

abbrev Keeps {α : Type} (frames : List Bytes) (pending : Bytes) (keep : Pane → Prop) (action : Act α) : Prop :=
  Action.Ensures (fun pane => Orderly frames pending pane ∧ keep pane) action
    (fun _ pane => Orderly frames pending pane ∧ keep pane) (InOrder frames)

theorem keeps_modify (stable : Stable keep) {change : Pane → Pane} (came : ∀ pane, (change pane).came = pane.came)
    (input : ∀ pane, (change pane).input = pane.input) (deferred : ∀ pane, (change pane).deferred = pane.deferred)
    (handled : ∀ pane, (change pane).handled = pane.handled) : Keeps frames pending keep (Action.modify change) :=
  Action.Ensures.modify fun pane ⟨orderly, kept⟩ =>
    ⟨orderly.same (came pane) (by rw [input]) (by rw [deferred]) (handled pane),
      stable.same (input pane) (deferred pane) (came pane) kept⟩

theorem keeps_halt {α : Type} (reason : Halt) : Keeps frames pending keep (Action.halt reason : Act α) :=
  Action.Ensures.halt fun _ held => held.1.inOrder

theorem keeps_pure {α : Type} (value : α) : Keeps frames pending keep (pure value) :=
  Action.Ensures.pure fun _ held => held

theorem keeps_get : Keeps frames pending keep Action.get :=
  Action.Ensures.get fun _ held => held

theorem keeps_bind {α β : Type} {first : Act α} {next : α → Act β} (one : Keeps frames pending keep first)
    (two : ∀ value, Keeps frames pending keep (next value)) : Keeps frames pending keep (first >>= next) :=
  one.bind two

theorem keeps_stops (stable : Stable keep) (stop : Bool) : Keeps frames pending keep (stops stop) :=
  keeps_modify stable (fun _ => rfl) (fun _ => rfl) (fun _ => rfl) (fun _ => rfl)

theorem keeps_failsIf (fails : Bool) : Keeps frames pending keep (failsIf fails) := by
  cases fails with
  | true => exact keeps_halt _
  | false => exact keeps_pure _

theorem keeps_needsLive : Keeps frames pending keep needsLive :=
  keeps_bind keeps_get fun _ => keeps_failsIf _

theorem fill_ensures (reading : Reading) :
    Action.Ensures (Orderly frames pending) (fill reading)
      (fun _ => Orderly frames pending) (InOrder frames) := by
  intro pane orderly
  unfold fill
  rcases pane.input.fill_cases reading.pieces reading.closed with ⟨failed, -⟩ | ⟨filled, done, rest, -⟩
  · rw [failed]
    exact .inr ⟨_, _, rfl, orderly.inOrder⟩
  · rw [done]
    exact .inl ⟨_, _, rfl, orderly.reads rfl rest rfl rfl⟩

theorem fill_noneHeld (reading : Reading) :
    Action.Ensures (NoneHeld frames) (fill reading) (fun _ => NoneHeld frames) (fun _ => True) := by
  intro pane none_
  unfold fill
  split
  next => exact .inr ⟨_, _, rfl, trivial⟩
  next => exact .inl ⟨_, _, rfl, fun cut => none_ ((List.prefix_append _ _).trans cut)⟩

theorem keeps_compact (stable : Stable keep) (drained : ∀ pane, keep pane → Drained pane) :
    Keeps frames pending keep compact :=
  Action.Ensures.modify fun pane ⟨orderly, kept⟩ =>
    ⟨orderly.same rfl pane.input.compact_rest rfl rfl, stable.drained _ (by
      have := drained pane kept
      unfold Drained at this ⊢
      rwa [Frames.compact_rest])⟩

variable (isFrame : ∀ frame ∈ frames, IsFrame frame)
include isFrame

theorem defers_ensures :
    Action.Ensures (Orderly frames pending) defers (fun _ pane => Orderly frames pending pane ∧ Drained pane)
      (InOrder frames) := by
  intro pane orderly
  fun_induction defers pane with
  | case1 pane malformed failed => exact .inr ⟨_, _, rfl, orderly.inOrder⟩
  | case2 pane none_ => exact .inl ⟨_, _, rfl, orderly, Frames.next_none.1 none_⟩
  | case3 pane range input found frame isExit ih =>
    obtain ⟨size, sized, taken, rest⟩ := Frames.next_found found
    have other : plain (pane.input.rest.take size) = false := by
      rw [← taken]
      simp [plain, show kind? (input.frame range) = some .exit from isExit]
    have passed : Orderly frames pending { pane with input, stopping := true } :=
      orderly.passes isFrame sized other rfl rest rfl rfl
    exact ih passed
  | case4 pane range input found frame isTail decoded ih =>
    obtain ⟨size, sized, taken, rest⟩ := Frames.next_found found
    have other : plain (pane.input.rest.take size) = false := by
      rw [← taken]
      simp [plain, show kind? (input.frame range) = some .tail from isTail]
    have passed : Orderly frames pending { pane with input, full := false } :=
      orderly.passes isFrame sized other rfl rest rfl rfl
    exact ih passed
  | case5 pane range input found frame isTail wrong =>
    obtain ⟨size, sized, taken, rest⟩ := Frames.next_found found
    have other : plain (pane.input.rest.take size) = false := by
      rw [← taken]
      simp [plain, show kind? (input.frame range) = some .tail from isTail]
    have passed : Orderly frames pending { pane with input } := orderly.passes isFrame sized other rfl rest rfl rfl
    exact .inr ⟨_, _, rfl, passed.inOrder⟩
  | case6 pane range input found frame notExit notTail ih =>
    obtain ⟨size, sized, taken, rest⟩ := Frames.next_found found
    have counts : plain (pane.input.rest.take size) = true := by
      rw [← taken]
      simp only [plain, decide_eq_true_eq]
      exact ⟨notExit, notTail⟩
    have held : (pane.deferred.push frame).rest = pane.deferred.rest ++ pane.input.rest.take size := by
      rw [Frames.push_rest, ← taken]
    have deferred : Orderly frames pending { pane with input, deferred := pane.deferred.push frame } :=
      orderly.defers isFrame sized counts rfl rest held rfl
    exact ih deferred

theorem nestedControl_ensures (reading : Reading) :
    Action.Ensures (Orderly frames pending) (nestedControl reading)
      (fun _ pane => Orderly frames pending pane ∧ Drained pane) (InOrder frames) := by
  refine (fill_ensures reading).bind fun eof => (defers_ensures isFrame).bind fun _ => ?_
  exact keeps_bind (keeps_compact Drained.stable fun _ drained => drained) fun _ => keeps_stops Drained.stable eof

theorem keeps_nestedControl (stable : Stable keep) (reading : Reading) :
    Keeps frames pending keep (nestedControl reading) :=
  (nestedControl_ensures isFrame reading).weaken (fun _ held => held.1)
    (fun _ pane ⟨orderly, drained⟩ => ⟨orderly, stable.drained pane drained⟩) (fun _ inOrder => inOrder)

theorem keeps_waitSpace (stable : Stable keep) (minimum : Nat) (looks : List Look) :
    Keeps frames pending keep (waitSpace minimum looks) := by
  induction looks with
  | nil => exact keeps_halt _
  | cons look looks ih =>
    refine keeps_bind keeps_get fun pane => ?_
    split
    next =>
      refine keeps_bind (keeps_modify stable (fun _ => rfl) (fun _ => rfl) (fun _ => rfl) (fun _ => rfl)) fun _ => ?_
      refine keeps_bind (keeps_bind (keeps_failsIf _) fun _ => keeps_bind (keeps_stops stable _) fun _ => keeps_pure _) ?_
      intro input
      cases input with
      | none => exact ih
      | some reading => exact keeps_bind (keeps_nestedControl isFrame stable reading) fun _ => ih
    next =>
      split
      next => exact keeps_halt _
      next => exact keeps_pure _

end

end Kido.Dispatching
