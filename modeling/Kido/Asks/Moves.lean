import Kido.Asks.Proc

set_option autoImplicit false

namespace Kido.Asking

open Kido.Shared Kido.Framing

def Event.ends (req : Req) : Event → Bool
  | .pasted of _ _ | .image of _ | .searchDone of | .failed of _ => decide (of = req)
  | .screen of _ last => decide (of = req) && last
  | _ => false

def Event.fits (reply : Reply) : Event → Bool
  | .pasted .. => decide (reply = .paste)
  | .screen .. => decide (reply = .screen)
  | .image .. => decide (reply = .image)
  | .searchDone .. => decide (reply = .search)
  | .failed .. => true
  | _ => false

-- What happens to a request: it is sent, it is answered, or it is taken back.
inductive Step where
  | asked
  | answer (last : Bool)
  | taken
deriving DecidableEq

def Event.step (req : Req) : Event → Option Step
  | .pasted of _ _ | .image of _ | .searchDone of | .failed of _ => if of = req then some (.answer true) else none
  | .screen of _ last => if of = req then some (.answer last) else none
  | .found of _ => if of = req then some (.answer false) else none
  | _ => none

-- Requests of one number one after another, and whether one of them waits: after its end nothing is heard of a request.
inductive Answers : Bool → List Step → Prop where
  | start : Answers false []
  | asked {steps : List Step} (earlier : Answers false steps) : Answers true (steps ++ [.asked])
  | more {steps : List Step} (earlier : Answers true steps) : Answers true (steps ++ [.answer false])
  | last {steps : List Step} (earlier : Answers true steps) : Answers false (steps ++ [.answer true])
  | taken {steps : List Step} (earlier : Answers true steps) : Answers false (steps ++ [.taken])

-- What becomes of a request in a call: it stays where it is, or its one end is told.
inductive Moved : Option Reply → Option Reply → List Event → Prop where
  | stays (reply : Option Reply) : Moved reply reply []
  | ends (reply : Reply) (event : Event) (fits : event.fits reply = true) : Moved (some reply) none [event]

theorem Moved.trans {first second third : Option Reply} {events later : List Event} (left : Moved first second events)
    (right : Moved second third later) : Moved first third (events ++ later) := by
  cases left with
  | stays reply => exact right
  | ends reply event fits =>
    cases right with
    | stays _ => exact .ends reply event fits

namespace Turn

-- What a call may do to the requests of a pane, and that a closed pane stays closed and has none.
structure Moves (before after : Turn) : Prop where
  news : ∃ more, after.events = before.events ++ more ∧
    (∀ req, Moved (before.pending? req) (after.pending? req) (more.filter (Event.ends req))) ∧
    ∀ req steps, Answers (before.pending? req).isSome steps →
      Answers (after.pending? req).isSome (steps ++ more.filterMap (Event.step req))
  shut : before.isOpen = false → after.isOpen = false
  none_ : (before.isOpen = false → ∀ req, before.pending? req = none) → after.isOpen = false → ∀ req, after.pending? req = none

theorem Moves.refl (turn : Turn) : Moves turn turn :=
  ⟨⟨[], (List.append_nil _).symm, fun _ => .stays _, fun _ steps answers => by simpa using answers⟩, id, id⟩

theorem Moves.trans {first second third : Turn} (left : Moves first second) (right : Moves second third) :
    Moves first third := by
  obtain ⟨more, events, moved, answers⟩ := left.news
  obtain ⟨more', events', moved', answers'⟩ := right.news
  refine ⟨⟨more ++ more', by rw [events', events, List.append_assoc], fun req => ?_, fun req steps earlier => ?_⟩,
    fun closed => right.shut (left.shut closed), fun none_ => right.none_ (left.none_ none_)⟩
  · rw [List.filter_append]
    exact (moved req).trans (moved' req)
  · rw [List.filterMap_append, ← List.append_assoc]
    exact answers' req _ (answers req steps earlier)

variable {turn : Turn}

theorem Moves.told {after : Turn} {more : List Event} (events : after.events = turn.events ++ more)
    (other : ∀ event ∈ more, ∀ req, event.ends req = false)
    (answers : ∀ req steps, Answers (turn.pending? req).isSome steps →
      Answers (turn.pending? req).isSome (steps ++ more.filterMap (Event.step req)))
    (pending : after.proc.pending = turn.proc.pending) (stage : after.proc.stage = turn.proc.stage) : Moves turn after := by
  have same (req : Req) : after.pending? req = turn.pending? req := by rw [pending?, pending?, pending]
  have isOpen : after.isOpen = turn.isOpen := by rw [isOpen, isOpen, stage]
  refine ⟨⟨more, events, fun req => ?_, fun req => ?_⟩, fun closed => isOpen.trans closed, fun none_ closed req => ?_⟩
  · rw [same, List.filter_eq_nil_iff.2 fun event member => by simp [other event member req]]
    exact .stays _
  · rw [same]
    exact answers req
  · rw [same]
    exact none_ (isOpen ▸ closed) req

theorem Moves.aside {after : Turn} {event : Event} (events : after.events = turn.events ++ [event])
    (ends : ∀ req, event.ends req = false) (step : ∀ req, event.step req = none)
    (pending : after.proc.pending = turn.proc.pending) (stage : after.proc.stage = turn.proc.stage) : Moves turn after :=
  .told events (fun _ member => (List.mem_singleton.1 member) ▸ ends) (fun req steps answers => by simpa [step] using answers)
    pending stage

theorem push_moves {event : Event} (ends : ∀ req, event.ends req = false) (step : ∀ req, event.step req = none) :
    Moves turn (turn.push event) := .aside rfl ends step rfl rfl

theorem partial_moves {req : Req} {reply : Reply} {event : Event} (waits : turn.pending? req = some reply)
    (ends : ∀ other, event.ends other = false)
    (step : ∀ other, event.step other = if req = other then some (.answer false) else none) : Moves turn (turn.push event) := by
  refine .told rfl (fun _ member => (List.mem_singleton.1 member) ▸ ends) (fun other steps answers => ?_) rfl rfl
  by_cases same : req = other
  · subst same
    rw [waits] at answers ⊢
    simpa [step] using answers.more
  · simpa [step, same] using answers

theorem erase_pending? (req other : Req) :
    (turn.erase req).pending? other = if req = other then none else turn.pending? other :=
  turn.proc.pending.find?_erase req other

theorem insert_pending? (req : Req) (reply : Reply) (other : Req) :
    (turn.insert req reply).pending? other = if req = other then some reply else turn.pending? other :=
  turn.proc.pending.find?_insert req reply other

theorem answer_moves {req : Req} {reply : Reply} {event : Event} (waits : turn.pending? req = some reply)
    (isOpen : turn.isOpen = true) (ends : ∀ other, event.ends other = decide (req = other))
    (step : ∀ other, event.step other = if req = other then some (.answer true) else none) (fits : event.fits reply = true) :
    Moves turn ((turn.erase req).push event) := by
  have pending (other : Req) :
      ((turn.erase req).push event).pending? other = if req = other then none else turn.pending? other :=
    erase_pending? req other
  refine ⟨⟨[event], rfl, fun other => ?_, fun other steps answers => ?_⟩, fun closed => ?_, fun _ closed => ?_⟩
  · rw [pending]
    by_cases same : req = other
    · rw [← same, waits, if_pos rfl, List.filter_singleton, ends]
      simpa using Moved.ends reply event fits
    · rw [if_neg same, List.filter_singleton, ends]
      simpa [same] using Moved.stays (turn.pending? other)
  · rw [pending]
    by_cases same : req = other
    · subst same
      rw [waits] at answers
      simpa [step] using answers.last
    · simpa [step, same] using answers
  · rw [isOpen] at closed
    cases closed
  · have same : ((turn.erase req).push event).isOpen = turn.isOpen := rfl
    rw [same, isOpen] at closed
    cases closed

theorem erase_moves {req : Req} (none_ : turn.pending? req = none) : Moves turn (turn.erase req) := by
  have same (other : Req) : (turn.erase req).pending? other = turn.pending? other := by
    rw [erase_pending?]
    by_cases equal : req = other
    · rw [if_pos equal, ← equal, none_]
    · rw [if_neg equal]
  refine ⟨⟨[], (List.append_nil _).symm, fun other => ?_, fun other steps answers => ?_⟩, id, fun nothing closed other => ?_⟩
  · rw [same]
    exact .stays _
  · simpa [same] using answers
  · rw [same]
    exact nothing closed other

theorem close_closed : turn.close.isOpen = false := by
  unfold close isOpen
  by_cases stage : turn.proc.stage = .open_ <;> simp [stage]

theorem failPending_moves (why : Failing) : Moves turn (turn.close.failPending why) := by
  have pending : turn.close.proc.pending = turn.proc.pending := by
    unfold close
    split <;> rfl
  have events : turn.close.events = turn.events := by
    unfold close
    split <;> rfl
  refine ⟨⟨turn.proc.pending.entries.map fun entry => .failed entry.1 why, ?_, fun req => ?_, fun req steps answers => ?_⟩,
    fun _ => close_closed, fun _ _ _ => rfl⟩
  · rw [failPending, pending, events]
  · have ends : (turn.proc.pending.entries.map fun entry => Event.failed entry.1 why).filter (Event.ends req) =
        (turn.pending? req).toList.map fun _ => .failed req why := by
      rw [List.filter_map]
      change (turn.proc.pending.entries.filter fun entry => decide (entry.1 = req)).map _ = _
      rw [turn.proc.pending.filter_key, List.map_map]
      rfl
    rw [ends]
    change Moved (turn.pending? req) none _
    cases turn.pending? req with
    | none => exact .stays none
    | some reply => exact .ends reply _ rfl
  · have failed : (turn.proc.pending.entries.map fun entry => Event.failed entry.1 why).filterMap (Event.step req) =
        (turn.pending? req).toList.map fun _ => .answer true := by
      rw [List.filterMap_map]
      change turn.proc.pending.entries.filterMap (fun entry => if entry.1 = req then some (Step.answer true) else none) = _
      have guarded : (fun entry : Req × Reply => if entry.1 = req then some (Step.answer true) else none) =
          fun entry => (Option.guard (fun entry : Req × Reply => decide (entry.1 = req)) entry).map fun _ => .answer true := by
        funext entry
        by_cases same : entry.1 = req <;> simp [same, Option.guard]
      rw [guarded, ← List.map_filterMap, List.filterMap_eq_filter, turn.proc.pending.filter_key, List.map_map]
      rfl
    rw [failed]
    change Answers false _
    cases waits : turn.pending? req with
    | none =>
      rw [waits] at answers
      simpa using answers
    | some reply =>
      rw [waits] at answers
      exact answers.last

theorem die_moves (death : Death) : Moves turn (turn.die death) := .aside rfl (fun _ => rfl) (fun _ => rfl) rfl rfl

theorem failure_moves (fault : Fault) : Moves turn (turn.failure fault) := by
  unfold failure
  split
  · exact (failPending_moves _).trans (die_moves _)
  · exact .refl turn

theorem flush_moves (fails : Bool) : Moves turn (turn.flush fails) := by
  unfold flush
  split
  · exact failure_moves _
  · exact .refl turn

theorem send_moves (frame : ToPane) (fails : Bool) : Moves turn (turn.send frame fails).2 := by
  unfold send
  split
  · split
    · exact .refl turn
    · exact flush_moves fails
  · exact .refl turn

theorem scan_moves (fault : Option String) : Moves turn (turn.scan fault) := by
  cases fault with
  | none => exact .refl turn
  | some text => exact failure_moves _

-- A frame that takes a request off the table that waits for something else.
def Mixed (turn : Turn) (bytes : Bytes) : Prop :=
  match decode bytes with
  | .ok (some (.image req _)) => turn.pending? req ≠ none ∧ turn.pending? req ≠ some .image
  | .ok (some (.searchDone req)) => turn.pending? req ≠ none ∧ turn.pending? req ≠ some .search
  | _ => False

-- The reaping of a pane that is open with requests, where the system knows no such child.
def Orphaned (turn : Turn) : Waited → Prop
  | .noChild => turn.isOpen = true ∧ turn.proc.pending ≠ .empty
  | _ => False

theorem delivered_moves {after : Turn} {meets : Meets} (moves : Moves turn after) :
    Moves turn (turn.delivered meets after).2 := by
  unfold delivered
  split
  · exact .refl turn
  · exact moves

theorem taken_moves {req : Req} {reply : Reply} {event : Event} (isOpen : turn.isOpen = true)
    (ends : ∀ other, event.ends other = decide (req = other))
    (step : ∀ other, event.step other = if req = other then some (.answer true) else none) (fits : event.fits reply = true)
    (pure_ : ¬(turn.pending? req ≠ none ∧ turn.pending? req ≠ some reply)) :
    Moves turn (if turn.pending? req = some reply then (turn.erase req).push event else turn.erase req) := by
  split
  next waits => exact answer_moves waits isOpen ends step fits
  next other =>
    refine erase_moves ?_
    by_contra some_
    exact pure_ ⟨some_, other⟩

theorem onFrame_moves (meets : Meets) {bytes : Bytes} (isOpen : turn.isOpen = true) (pure_ : ¬turn.Mixed bytes) :
    Moves turn (turn.onFrame meets bytes).2 := by
  unfold Mixed at pure_
  unfold onFrame
  cases decoded : decode bytes with
  | error malformed => exact .refl turn
  | ok found =>
    cases found with
    | none => exact .refl turn
    | some frame =>
      rw [decoded] at pure_
      cases frame with
      | ready pid =>
        simp only
        split
        · exact .aside rfl (fun _ => rfl) (fun _ => rfl) rfl rfl
        · exact .refl turn
      | title title =>
        simp only
        split
        · exact .refl turn
        · exact .aside rfl (fun _ => rfl) (fun _ => rfl) rfl rfl
      | pwd cwd =>
        simp only
        split
        · exact .refl turn
        · exact .aside rfl (fun _ => rfl) (fun _ => rfl) rfl rfl
      | dead dead => exact die_moves _
      | full pos => exact ((scan_moves _).trans (send_moves _ _)).trans (push_moves (fun _ => rfl) fun _ => rfl)
      | snapshotDone req => exact delivered_moves (.refl turn)
      | pasteDone req pasted unsafePaste =>
        refine delivered_moves ?_
        split
        next waits => exact answer_moves waits isOpen (fun _ => rfl) (fun _ => rfl) rfl
        next => exact .refl turn
      | screen req last text =>
        refine delivered_moves ?_
        split
        next waits =>
          cases last with
          | true => exact answer_moves waits isOpen (fun other => by simp [Event.ends]) (fun _ => rfl) rfl
          | false => exact partial_moves waits (fun other => by simp [Event.ends]) fun _ => rfl
        next => exact .refl turn
      | error message => exact .refl turn
      | image req object => exact taken_moves isOpen (fun _ => rfl) (fun _ => rfl) rfl pure_
      | searchDone req => exact taken_moves isOpen (fun _ => rfl) (fun _ => rfl) rfl pure_
      | «matches» req found =>
        simp only
        split
        next waits => exact partial_moves waits (fun _ => rfl) fun _ => rfl
        next => exact .refl turn
      | head pos => exact push_moves (fun _ => rfl) fun _ => rfl
      | prompt prompt => exact push_moves (fun _ => rfl) fun _ => rfl
      | record record => exact push_moves (fun _ => rfl) fun _ => rfl
      | foreground foreground => exact push_moves (fun _ => rfl) fun _ => rfl
      | alternate on => exact push_moves (fun _ => rfl) fun _ => rfl
      | bell => exact push_moves (fun _ => rfl) fun _ => rfl
      | notify title body => exact push_moves (fun _ => rfl) fun _ => rfl
      | progress report => exact push_moves (fun _ => rfl) fun _ => rfl
      | imageGone name => exact push_moves (fun _ => rfl) fun _ => rfl
      | clipboardWrite location contents => exact push_moves (fun _ => rfl) fun _ => rfl
      | clipboardRead req location list mimes => exact push_moves (fun _ => rfl) fun _ => rfl

theorem handle_moves (meets : Meets) {bytes : Bytes} (pure_ : ¬(turn.isOpen = true ∧ turn.Mixed bytes)) :
    Moves turn (turn.handle meets bytes) := by
  unfold handle
  split
  next isOpen =>
    have moves := onFrame_moves meets isOpen fun mixed => pure_ ⟨isOpen, mixed⟩
    rcases handled : turn.onFrame meets bytes with ⟨_ | _, after⟩
    · rw [handled] at moves
      exact moves.trans (failure_moves _)
    · rw [handled] at moves
      exact moves
  next => exact .refl turn

theorem failure_closed (fault : Fault) : (turn.failure fault).isOpen = false := by
  unfold failure
  split
  next isOpen => exact @close_closed turn
  next closed => exact Bool.eq_false_iff.2 closed

theorem shutdown_moves (fails : Bool) : Moves turn (turn.shutdown fails) := by
  unfold shutdown
  split
  · exact (send_moves _ _).trans (failPending_moves _)
  · exact .refl turn

theorem shutdown_closed (fails : Bool) : (turn.shutdown fails).isOpen = false := by
  unfold shutdown
  split
  next => exact @close_closed (turn.send .exit fails).2
  next closed => exact Bool.eq_false_iff.2 closed

theorem close_reaped_moves (none_ : turn.isOpen = true → turn.proc.pending = .empty) : Moves turn turn.close.reaped := by
  have pending : turn.close.reaped.proc.pending = turn.proc.pending := by
    unfold close
    split <;> rfl
  have events : turn.close.reaped.events = turn.events := by
    unfold close
    split <;> rfl
  have same (req : Req) : turn.close.reaped.pending? req = turn.pending? req := by rw [pending?, pending?, pending]
  refine ⟨⟨[], by rw [events, List.append_nil], fun req => ?_, fun req steps answers => ?_⟩, fun _ => rfl,
    fun nothing _ req => ?_⟩
  · rw [same]
    exact .stays _
  · simpa [same] using answers
  · rw [same]
    by_cases isOpen : turn.isOpen = true
    · rw [pending?, none_ isOpen]
      rfl
    · exact nothing (Bool.eq_false_iff.2 isOpen) req

theorem reap_moves {waited : Waited} (known : ¬turn.Orphaned waited) : Moves turn (turn.reap waited) := by
  unfold reap
  split
  · exact .refl turn
  · cases waited with
    | running => exact .refl turn
    | ended exit =>
      refine (failure_moves _).trans (close_reaped_moves fun isOpen => ?_)
      rw [failure_closed] at isOpen
      cases isOpen
    | noChild =>
      refine close_reaped_moves fun isOpen => ?_
      by_contra some_
      exact known ⟨isOpen, some_⟩

def Clean (turn : Turn) : Act → Prop
  | .frame _ bytes => ¬(turn.isOpen = true ∧ turn.Mixed bytes)
  | .reap waited => ¬turn.Orphaned waited
  | _ => True

def CleanAll (turn : Turn) : List Act → Prop
  | [] => True
  | act :: acts => turn.Clean act ∧ (turn.act act).CleanAll acts

theorem act_moves {act : Act} (clean : turn.Clean act) : Moves turn (turn.act act) := by
  cases act with
  | frame meets bytes => exact handle_moves meets clean
  | failure fault => exact failure_moves fault
  | flush fails => exact flush_moves fails
  | scan fault => exact scan_moves fault
  | send frame fails => exact send_moves frame fails
  | reap waited => exact reap_moves clean

theorem acts_moves {acts : List Act} (clean : turn.CleanAll acts) : Moves turn (acts.foldl act turn) := by
  induction acts generalizing turn with
  | nil => exact .refl turn
  | cons one acts ih => exact (act_moves clean.1).trans (ih clean.2)

theorem searchCancel_moves {req : Req} (fails : Bool) (none_ : turn.pending? req ≠ some .search) :
    turn.searchCancel req fails = turn := if_neg none_

end Turn

end Kido.Asking
