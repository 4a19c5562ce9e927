import Kido.Pane.Rules

set_option autoImplicit false

namespace Kido.Dispatching

open Kido.Shared Kido.Framing

section Dispatch

variable {frames : List Bytes} {pending : Bytes} {keep : Pane → Prop}

theorem note_ensures (stable : Stable keep) {frame : Bytes} (isFrame : IsFrame frame) :
    Action.Ensures (fun pane => Orderly frames (frame ++ pending) pane ∧ keep pane) (note frame)
      (fun _ pane => Orderly frames pending pane ∧ keep pane) (InOrder frames) :=
  Action.Ensures.modify fun pane ⟨orderly, kept⟩ =>
    have input : ({ pane with handled := pane.handled ++ [frame] } : Pane).input = pane.input := rfl
    ⟨orderly.notes isFrame rfl rfl rfl rfl, stable.same input rfl rfl kept⟩

theorem keeps_init (stable : Stable keep) (handling : Handling) : Keeps frames pending keep (init handling) :=
  keeps_bind (keeps_failsIf _) fun _ => keeps_bind (keeps_stops stable _) fun _ =>
    keeps_modify stable (fun _ => rfl) (fun _ => rfl) (fun _ => rfl) (fun _ => rfl)

theorem keeps_simple (stable : Stable keep) (request : Request) (handling : Handling) :
    Keeps frames pending keep (simple request handling) := by
  refine keeps_bind keeps_needsLive fun _ => ?_
  split
  next => exact keeps_modify stable (fun _ => rfl) (fun _ => rfl) (fun _ => rfl) (fun _ => rfl)
  next => exact keeps_stops stable _
  next => exact keeps_halt _
  next => exact keeps_halt _
  next => exact keeps_halt _
  next => exact keeps_bind (keeps_failsIf _) fun _ => keeps_stops stable _

theorem dispatchSimple_ensures (stable : Stable keep) {frame : Bytes} (isFrame : IsFrame frame) (handling : Handling) :
    Action.Ensures (fun pane => Orderly frames (frame ++ pending) pane ∧ keep pane) (dispatchSimple frame handling)
      (fun _ pane => Orderly frames pending pane ∧ keep pane) (InOrder frames) := by
  refine (note_ensures stable isFrame).bind fun _ => ?_
  split
  next => exact keeps_halt _
  next => exact keeps_simple stable _ handling

theorem started_ensures (stable : Stable keep) {frame : Bytes} (isFrame : IsFrame frame) :
    Action.Ensures (fun pane => Orderly frames (frame ++ pending) pane ∧ keep pane) (started frame)
      (fun _ _ => False) (InOrder frames) :=
  (note_ensures stable isFrame).bind fun _ => Action.Ensures.halt fun _ held => held.1.inOrder

variable (isFrame : ∀ frame ∈ frames, IsFrame frame)
include isFrame

theorem keeps_resize (stable : Stable keep) (handling : Handling) : Keeps frames pending keep (resize handling) :=
  keeps_bind keeps_needsLive fun _ => keeps_bind (keeps_waitSpace isFrame stable _ _) fun _ =>
    keeps_bind (keeps_failsIf _) fun _ => keeps_stops stable _

theorem keeps_emit (stable : Stable keep) (slices : List (List Look)) : Keeps frames pending keep (emit slices) := by
  induction slices with
  | nil => exact keeps_pure _
  | cons looks later ih => exact keeps_bind (keeps_waitSpace isFrame stable _ _) fun _ => ih

theorem keeps_snapshot (stable : Stable keep) (handling : Handling) : Keeps frames pending keep (snapshot handling) :=
  keeps_bind keeps_needsLive fun _ => keeps_bind (keeps_emit isFrame stable _) fun _ =>
    keeps_bind (keeps_failsIf _) fun _ => keeps_bind (keeps_waitSpace isFrame stable _ _) fun _ => keeps_stops stable _

theorem dispatch_ensures (stable : Stable keep) {frame : Bytes} (whole : IsFrame frame) (handling : Handling) :
    Action.Ensures (fun pane => Orderly frames (frame ++ pending) pane ∧ keep pane) (dispatch frame handling)
      (fun _ pane => Orderly frames pending pane ∧ keep pane) (InOrder frames) := by
  refine (note_ensures stable whole).bind fun _ => ?_
  split
  next => exact keeps_halt _
  next => exact keeps_bind keeps_get fun _ => keeps_bind (keeps_failsIf _) fun _ => keeps_init stable handling
  next => exact keeps_resize isFrame stable handling
  next => exact keeps_snapshot isFrame stable handling
  next => exact keeps_simple stable _ handling

end Dispatch

section Control

variable {frames : List Bytes} (isFrame : ∀ frame ∈ frames, IsFrame frame)
include isFrame

theorem routed_ensures {frame : Bytes} (whole : IsFrame frame) (handling : Option Handling) :
    Action.Ensures (fun pane => Orderly frames frame pane ∧ Free frames pane) (routed frame handling)
      (fun _ pane => Orderly frames [] pane ∧ Free frames pane ∧ handling.isSome = true) (InOrder frames) := by
  have same : frame ++ [] = frame := List.append_nil frame
  cases handling with
  | none => exact (started_ensures (Free.stable frames) whole).weaken (fun _ held => same.symm ▸ held) (fun _ _ => False.elim) fun _ => id
  | some handling =>
    have handled : Action.Ensures (fun pane => Orderly frames (frame ++ []) pane ∧ Free frames pane) (routed frame (some handling))
        (fun _ pane => Orderly frames [] pane ∧ Free frames pane) (InOrder frames) := by
      simp only [routed]
      split
      next => exact dispatch_ensures isFrame (Free.stable frames) whole handling
      next => exact dispatchSimple_ensures (Free.stable frames) whole handling
    exact handled.weaken (fun _ held => same.symm ▸ held) (fun _ _ held => ⟨held.1, held.2, rfl⟩) fun _ => id

theorem route_ensures (handling : Option Handling) :
    Action.Ensures (fun pane => Orderly frames [] pane ∧ Free frames pane) (route handling)
      (fun more pane => Orderly frames [] pane ∧ if more then Free frames pane ∧ handling.isSome = true else Drained pane)
      (InOrder frames) := by
  have looked : Action.Ensures (fun pane => Orderly frames [] pane ∧ Free frames pane) (Action.get : Act Pane)
      (fun pane state => state = pane ∧ Orderly frames [] pane ∧ Free frames pane) (InOrder frames) :=
    Action.Ensures.get fun _ held => ⟨rfl, held⟩
  refine looked.bind fun pane => ?_
  split
  next => exact Action.Ensures.halt fun _ ⟨same, orderly, _⟩ => same ▸ orderly.inOrder
  next none_ => exact Action.Ensures.pure fun _ ⟨same, orderly, _⟩ => same ▸ ⟨orderly, Frames.next_none.1 none_⟩
  next range input found =>
    obtain ⟨size, sized, taken, rest⟩ := Frames.next_found found
    have whole : IsFrame (input.frame range) := taken ▸ frameSize_isFrame sized
    have took : Action.Ensures (fun state => state = pane ∧ Orderly frames [] pane ∧ Free frames pane)
        (Action.modify fun pane => { pane with input } : Act Unit)
        (fun _ pane => Orderly frames (input.frame range) pane ∧ Free frames pane) (InOrder frames) := by
      refine Action.Ensures.modify fun state ⟨same, orderly, free⟩ => ?_
      obtain rfl := same
      have none_ : NoneHeld frames state := by
        refine free.resolve_right fun drained => ?_
        unfold Drained at drained
        rw [sized] at drained
        cases drained
      rw [taken]
      exact ⟨orderly.takes isFrame none_ sized rfl rest rfl rfl, .inl none_⟩
    exact took.bind fun _ => (routed_ensures isFrame whole handling).bind fun _ =>
      Action.Ensures.pure fun _ held => held

theorem routes_ensures (handlings : List Handling) :
    Action.Ensures (fun pane => Orderly frames [] pane ∧ Free frames pane) (routes handlings)
      (fun _ pane => Orderly frames [] pane ∧ Drained pane) (InOrder frames) := by
  induction handlings with
  | nil =>
    refine (route_ensures isFrame none).bind fun more => ?_
    cases more with
    | true => exact Action.Ensures.pure fun _ held => nomatch held.2.2
    | false => exact Action.Ensures.pure fun _ held => held
  | cons handling later ih =>
    refine (route_ensures isFrame (some handling)).bind fun more => ?_
    cases more with
    | true => exact ih.weaken (fun _ held => ⟨held.1, held.2.1⟩) (fun _ _ => id) fun _ => id
    | false => exact Action.Ensures.pure fun _ held => held

theorem runNext_ensures (pending : Frames) (handling : Option Handling) :
    Action.Ensures (fun pane => Orderly frames pending.rest pane ∧ Drained pane) (runNext pending handling)
      (fun after pane => Orderly frames ((after.map Frames.rest).getD []) pane ∧ Drained pane ∧
        (after.isSome = true → handling.isSome = true)) (InOrder frames) := by
  unfold runNext
  split
  next => exact Action.Ensures.halt fun _ held => held.1.inOrder
  next none_ =>
    have part := Frames.next_none.1 none_
    exact Action.Ensures.pure fun _ held => ⟨held.1.finishes part, held.2, nofun⟩
  next range after found =>
    obtain ⟨size, sized, taken, rest⟩ := Frames.next_found found
    have whole : IsFrame (after.frame range) := taken ▸ frameSize_isFrame sized
    have split : pending.rest = after.frame range ++ after.rest := by rw [taken, rest, List.take_append_drop]
    rw [split]
    cases handling with
    | none =>
      refine Action.Ensures.bind (started_ensures Drained.stable whole) fun _ => fun _ => False.elim
    | some handling =>
      exact (dispatch_ensures isFrame Drained.stable whole handling).bind fun _ =>
        Action.Ensures.pure fun _ held => ⟨held.1, held.2, fun _ => rfl⟩

theorem runPending_ensures (pending : Frames) (handlings : List Handling) :
    Action.Ensures (fun pane => Orderly frames pending.rest pane ∧ Drained pane) (runPending pending handlings)
      (fun _ pane => Orderly frames [] pane ∧ Drained pane) (InOrder frames) := by
  induction handlings generalizing pending with
  | nil =>
    refine (runNext_ensures isFrame pending none).bind fun after => ?_
    cases after with
    | none => exact Action.Ensures.pure fun _ held => ⟨held.1, held.2.1⟩
    | some after => exact Action.Ensures.pure fun _ held => nomatch held.2.2 rfl
  | cons handling later ih =>
    refine (runNext_ensures isFrame pending (some handling)).bind fun after => ?_
    cases after with
    | none => exact Action.Ensures.pure fun _ held => ⟨held.1, held.2.1⟩
    | some after => exact (ih after).weaken (fun _ held => ⟨held.1, held.2.1⟩) (fun _ _ => id) fun _ => id

theorem runDeferred_ensures (handlings : List Handling) :
    Action.Ensures (fun pane => Orderly frames [] pane ∧ Drained pane) (runDeferred handlings)
      (fun _ pane => Orderly frames [] pane ∧ Drained pane) (InOrder frames) := by
  have looked : Action.Ensures (fun pane => Orderly frames [] pane ∧ Drained pane) (Action.get : Act Pane)
      (fun pane state => state = pane ∧ Orderly frames [] pane ∧ Drained pane) (InOrder frames) :=
    Action.Ensures.get fun _ held => ⟨rfl, held⟩
  refine looked.bind fun pane => ?_
  have taken : Action.Ensures (fun state => state = pane ∧ Orderly frames [] pane ∧ Drained pane)
      (Action.modify fun pane => { pane with deferred := .default } : Act Unit)
      (fun _ state => Orderly frames pane.deferred.rest state ∧ Drained state) (InOrder frames) := by
    refine Action.Ensures.modify fun state ⟨same, orderly, drained⟩ => ?_
    obtain rfl := same
    exact ⟨orderly.runs rfl rfl rfl rfl, drained⟩
  exact taken.bind fun _ => runPending_ensures isFrame _ _

theorem runsDeferred_ensures (rounds : List (List Handling)) :
    Action.Ensures (fun pane => Orderly frames [] pane ∧ Drained pane) (runsDeferred rounds)
      (fun _ pane => Orderly frames [] pane ∧ Drained pane ∧ pane.deferred.rest = []) (InOrder frames) := by
  have looked : Action.Ensures (fun pane => Orderly frames [] pane ∧ Drained pane) (Action.get : Act Pane)
      (fun pane state => state = pane ∧ Orderly frames [] state ∧ Drained state) (InOrder frames) :=
    Action.Ensures.get fun _ held => ⟨rfl, held⟩
  induction rounds with
  | nil =>
    refine looked.bind fun pane => ?_
    split
    next none_ =>
      exact Action.Ensures.pure fun _ ⟨same, held⟩ => ⟨held.1, held.2, same ▸ (Frames.isEmpty_iff _).1 none_⟩
    next => exact Action.Ensures.halt fun _ held => held.2.1.inOrder
  | cons handlings later ih =>
    refine looked.bind fun pane => ?_
    split
    next none_ =>
      exact Action.Ensures.pure fun _ ⟨same, held⟩ => ⟨held.1, held.2, same ▸ (Frames.isEmpty_iff _).1 none_⟩
    next =>
      have ran := (runDeferred_ensures isFrame handlings).bind fun _ => ih
      exact ran.weaken (fun _ held => held.2) (fun _ _ => id) fun _ => id

-- Between two turns nothing is held and nothing whole is left.
structure Rests (frames : List Bytes) (pane : Pane) : Prop where
  orderly : Orderly frames [] pane
  drained : Drained pane
  none_ : NoneHeld frames pane

theorem control_ensures (controlled : Controlled) :
    Action.Ensures (Rests frames) (control controlled) (fun _ => Rests frames) (InOrder frames) := by
  have filled : Action.Ensures (Rests frames) (fill controlled.reading)
      (fun _ pane => Orderly frames [] pane ∧ Free frames pane) (InOrder frames) :=
    ((fill_ensures _).and (fill_noneHeld _)).weaken (fun _ rests => ⟨rests.orderly, rests.none_⟩)
      (fun _ _ held => ⟨held.1, .inl held.2⟩) fun _ => And.left
  refine filled.bind fun eof => (routes_ensures isFrame _).bind fun _ => ?_
  refine Action.Ensures.bind (keeps_compact Drained.stable fun _ => id) fun _ => ?_
  refine (runsDeferred_ensures isFrame _).bind fun _ => ?_
  exact Action.Ensures.modify fun _ held => ⟨held.1.same rfl rfl rfl rfl, held.2.1, fun _ => held.2.2⟩

theorem controls_ensures (turn : Turn) :
    Action.Ensures (Rests frames) (controls turn) (fun _ => Rests frames) (InOrder frames) := by
  have looked : Action.Ensures (Rests frames) (Action.get : Act Pane) (fun _ => Rests frames) (InOrder frames) :=
    Action.Ensures.get fun _ held => held
  refine looked.bind fun pane => ?_
  split
  next => exact Action.Ensures.halt fun _ held => held.orderly.inOrder
  next =>
    have readied : Action.Ensures (Rests frames) (ready turn.control) (fun _ => Rests frames) (InOrder frames) := by
      cases turn.control with
      | none => exact Action.Ensures.pure fun _ held => held
      | some controlled => exact control_ensures isFrame controlled
    refine readied.bind fun _ => Action.Ensures.modify fun _ held => ?_
    exact ⟨held.orderly.same rfl rfl rfl rfl, held.drained, held.none_⟩

end Control

end Kido.Dispatching
