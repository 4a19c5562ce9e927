import Kido.Mirror.World

set_option autoImplicit false

namespace Kido.Mirrors

open Kido.Shared

variable {C V : Type} {engine : Engine C V} {stream : Nat → UInt8}

-- What holds of a mirror whatever becomes of its link.
structure Still (engine : Engine C V) (stream : Nat → UInt8) (mirror : Mirror C V) (base : Option Shot)
    (since : List Following) : Prop where
  full : ∀ vt, mirror.surface = .full vt → ∃ shot, base = some shot ∧ Shown engine stream shot since vt
  resumed : ∀ offset, mirror.resume = some offset → mirror.assembly = none ∧ mirror.awaitingSnapshot = false ∧
    (∃ vt, mirror.surface = .full vt) ∧ ∀ shot, base = some shot → offset = shot.offset + (bytesOf since).length
  frozen : mirror.frozen.isSome = true → mirror.assembly = none ∧ mirror.awaitingSnapshot = false ∧ ∃ vt, mirror.surface = .full vt
  waiting : mirror.awaitingSnapshot = true → mirror.assembly = none

-- A snapshot that is assembled is the one that comes, and the output behind it goes on where the server stands.
structure Comes (stream : Nat → UInt8) (assembly : Assembly) (coming : Coming) (announced : Option Nat) : Prop where
  body : coming.shot.body = assembly.buffer
  kind : coming.full = assembly.kind.isFull
  items : coming.items = assembly.following
  stop : assembly.stop = coming.shot.offset + (bytesOf coming.items).length
  bytes : bytesOf coming.items = between stream coming.shot.offset (bytesOf coming.items).length
  next : announced = some assembly.stop

structure Linked (stream : Nat → UInt8) (mirror : Mirror C V) (coming : Option Coming) (announced : Option Nat) : Prop where
  comes : ∀ assembly, mirror.assembly = some assembly → ∃ incoming, coming = some incoming ∧
    Comes stream assembly incoming announced
  bare : mirror.assembly = none → coming = none
  next : (∀ frozen, mirror.frozen = some frozen → frozen.dirty = false) → mirror.assembly = none →
    mirror.awaitingSnapshot = false → ∀ vt, mirror.surface = .full vt → ∀ offset, announced = some offset →
      mirror.resume = some offset

variable {mirror after : Mirror C V} {taken : Taken} {announced : Option Nat}

theorem Still.resume_none (still : Still engine stream mirror taken.base taken.since) {assembly : Assembly}
    (some_ : mirror.assembly = some assembly) : mirror.resume = none := by
  cases resume : mirror.resume with
  | none => rfl
  | some offset =>
    have bare := (still.resumed offset resume).1
    rw [some_] at bare
    cases bare

namespace Mirror

theorem marker_ok {event : Option ViewEvent} (still : Still engine stream mirror taken.base taken.since)
    (linked : Linked stream mirror taken.coming announced) (thawed : mirror.frozen = none)
    (settled : mirror.awaitingSnapshot = false) (result : mirror.marker engine event = (after, .ok ())) :
    Still engine stream after (taken.event event).base (taken.event event).since ∧
      Linked stream after (taken.event event).coming announced := by
  unfold marker at result
  rw [thawed] at result
  dsimp only at result
  rw [settled, if_neg Bool.false_ne_true] at result
  rcases event with _ | (⟨offset, marker⟩ | _ | _)
  · cases result
  · dsimp only at result
    cases assembled : mirror.assembly with
    | some assembly =>
      rw [assembled] at result
      cases result
      obtain ⟨coming, here, comes⟩ := linked.comes assembly assembled
      have taken_ : taken.event (some (.marked offset marker)) =
          { taken with coming := some { coming with items := coming.items ++ [.marker marker] } } := by
        simp [Taken.event, Taken.item, here]
      rw [taken_]
      constructor
      · exact ⟨still.full, fun _ resume => absurd resume (by simp [still.resume_none assembled]),
          fun frozen => by simp at frozen, fun awaits => by simp at awaits⟩
      · constructor
        case comes =>
          rintro _ ⟨⟩
          refine ⟨_, rfl, comes.body, comes.kind, by rw [comes.items], ?_, between_marker marker comes.bytes, comes.next⟩
          rw [comes.stop, bytesOf_append, bytesOf_marker, List.append_nil]
        case bare => rintro ⟨⟩
        case next =>
          rintro _ ⟨⟩
    | none =>
      have nothing := linked.bare assembled
      have taken_ : taken.event (some (.marked offset marker)) = { taken with since := taken.since ++ [.marker marker] } := by
        simp [Taken.event, Taken.item, nothing]
      rw [assembled] at result
      rw [taken_]
      have resumes (position : Nat) (resume : mirror.resume = some position) :=
        still.resumed position resume
      have length : (bytesOf (taken.since ++ [.marker marker])).length = (bytesOf taken.since).length := by
        rw [bytesOf_append, bytesOf_marker, List.append_nil]
      dsimp only at result
      cases surface : mirror.surface with
      | full screen =>
        rw [surface] at result
        dsimp only at result
        cases applied : engine.apply screen marker with
        | none =>
          rw [applied] at result
          cases result
        | some next =>
          rw [applied] at result
          cases result
          obtain ⟨shot, base, shown⟩ := still.full screen surface
          constructor
          · constructor
            case full =>
              rintro _ ⟨⟩
              exact ⟨shot, base, Engine.rebuilt_snoc shown.1 (Engine.apply_taken applied), between_marker marker shown.2⟩
            case resumed =>
              intro position resume
              obtain ⟨-, -, -, ends⟩ := resumes position resume
              exact ⟨rfl, rfl, ⟨next, rfl⟩, fun shot base => length ▸ ends shot base⟩
            case frozen =>
              intro frozen
              simp at frozen
            case waiting =>
              intro awaits
              simp at awaits
          · exact ⟨fun _ some_ => by simp at some_, fun _ => nothing,
              fun _ _ _ _ _ position here => linked.next (by simp [thawed]) assembled settled screen surface position here⟩
      | empty | partly _ | loading _ _ =>
        rw [surface] at result
        cases result
        constructor
        · refine ⟨fun _ full => by simp at full, fun position resume => ?_, fun frozen => by simp at frozen,
            fun awaits => by simp at awaits⟩
          obtain ⟨-, -, ⟨vt, full⟩, -⟩ := resumes position resume
          rw [surface] at full
          cases full
        · exact ⟨fun _ some_ => by simp at some_, fun _ => nothing,
            fun _ _ _ _ full => by simp at full⟩
  all_goals
    cases result
    exact ⟨still, linked⟩

theorem marker_error {event : Option ViewEvent} {failure : Failure} (still : Still engine stream mirror taken.base taken.since)
    (result : mirror.marker engine event = (after, .error failure)) : Still engine stream after taken.base taken.since := by
  unfold marker at result
  cases frozen : mirror.frozen with
  | some _ =>
    rw [frozen] at result
    cases result
  | none =>
    rw [frozen] at result
    dsimp only at result
    split at result
    · cases result
    · split at result
      · cases result
        exact still
      · split at result
        · cases result
        · split at result
          · split at result
            · cases result
              exact ⟨still.full, still.resumed, fun frozen => by simp at frozen, still.waiting⟩
            · cases result
          · cases result
      · cases result

theorem scrollBottom_still (still : Still engine stream mirror taken.base taken.since) :
    Still engine stream { mirror with surface := (mirror.surface.scrollBottom engine).1 } taken.base taken.since := by
  constructor
  case full =>
    intro vt full
    obtain ⟨before, was, same⟩ := Surface.scrollBottom_full full
    obtain ⟨shot, base, shown⟩ := still.full before was
    exact ⟨shot, base, shown.of_content same⟩
  case resumed =>
    intro offset resume
    obtain ⟨bare, settled, ⟨vt, full⟩, ends⟩ := still.resumed offset resume
    exact ⟨bare, settled, Surface.scrollBottom_kind full, ends⟩
  case frozen =>
    intro frozen
    obtain ⟨bare, settled, vt, full⟩ := still.frozen frozen
    exact ⟨bare, settled, Surface.scrollBottom_kind full⟩
  case waiting => exact still.waiting

theorem output_ok {record data : List UInt8} {offset : Nat} (still : Still engine stream mirror taken.base taken.since)
    (linked : Linked stream mirror taken.coming announced) (thawed : mirror.frozen = none)
    (settled : mirror.awaitingSnapshot = false) (here : announced = some offset)
    (bytes : data = between stream offset data.length) (bound : offset + data.length < u64)
    (rest : record.drop (record.length - data.length) = data)
    (result : mirror.output engine record offset data = (after, .ok ())) :
    Still engine stream after (taken.item (.bytes data)).base (taken.item (.bytes data)).since ∧
      Linked stream after (taken.item (.bytes data)).coming (some (offset + data.length)) := by
  have scrolled : Still engine stream { mirror with surface := (mirror.surface.scrollBottom engine).1 } taken.base taken.since :=
    scrollBottom_still still
  have kind := fun vt (full : (mirror.surface.scrollBottom engine).1 = .full vt) => Surface.scrollBottom_full full
  have stop : min (offset + data.length) (u64 - 1) = offset + data.length := by omega
  unfold output at result
  rcases low : mirror.surface.scrollBottom engine with ⟨surface, _ | moved⟩
  · rw [low] at result
    cases result
  · rw [low] at result scrolled kind
    dsimp only at result scrolled kind
    rw [stop] at result
    cases assembled : mirror.assembly with
    | some assembly =>
      rw [assembled] at result
      cases result
      obtain ⟨coming, there, comes⟩ := linked.comes assembly assembled
      have taken_ : taken.item (.bytes data) =
          { taken with coming := some { coming with items := coming.items ++ [.bytes data] } } := by
        simp [Taken.item, there]
      have offset_ : assembly.stop = offset := Option.some.inj (comes.next.symm.trans here)
      rw [taken_]
      constructor
      · exact ⟨scrolled.full, fun _ resume => absurd resume (by simp [still.resume_none assembled]),
          fun frozen => by simp [thawed] at frozen, fun awaits => by simp [settled] at awaits⟩
      · constructor
        case comes =>
          rintro _ ⟨⟩
          refine ⟨_, rfl, comes.body, comes.kind, by rw [comes.items, rest], ?_, between_bytes comes.bytes ?_, rfl⟩
          · change offset + data.length = _
            rw [bytesOf_append, bytesOf_bytes, List.length_append, ← offset_, comes.stop]
            dsimp only
            omega
          · rw [← comes.stop, offset_]
            exact bytes
        case bare => rintro ⟨⟩
        case next => rintro _ ⟨⟩
    | none =>
      have nothing := linked.bare assembled
      have taken_ : taken.item (.bytes data) = { taken with since := taken.since ++ [.bytes data] } := by
        simp [Taken.item, nothing]
      have thaw : ∀ frozen, mirror.frozen = some frozen → frozen.dirty = false := fun _ frozen => by simp [thawed] at frozen
      rw [taken_]
      rw [assembled] at result
      dsimp only at result
      have written : ∃ resume, after =
          { mirror with surface := surface.change (fun screen => engine.write screen data), resume := resume } ∧ (∀ vt, surface = .full vt → resume = mirror.resume.map fun _ => offset + data.length) ∧
          (mirror.resume = none → resume = none) ∧ ∀ position, resume = some position → mirror.resume ≠ none := by
        cases shown : surface.screen with
        | none =>
          rw [shown] at result
          cases result
          have empty : surface = .empty := by cases surface <;> first | rfl | cases shown
          subst empty
          refine ⟨mirror.resume, by rw [assembled]; rfl, ?_, id, fun position resume => by simp [resume]⟩
          rintro vt ⟨⟩
        | some screen =>
          rw [shown] at result
          cases result
          refine ⟨_, by rw [assembled], fun _ _ => rfl, fun none_ => by simp [none_], fun position resume => ?_⟩
          obtain ⟨before, was, -⟩ := Option.map_eq_some_iff.1 resume
          simp [was]
      obtain ⟨resume, rfl, moves, stays, was⟩ := written
      -- The terminal that shows the snapshot stood where the server goes on.
      have place : ∀ vt, surface = .full vt → ∃ shot, taken.base = some shot ∧ Shown engine stream shot taken.since vt ∧
          mirror.resume = some offset ∧ offset = shot.offset + (bytesOf taken.since).length := by
        intro vt full
        obtain ⟨shot, base, shown⟩ := scrolled.full vt full
        obtain ⟨before, was_full, -⟩ := kind vt full
        have resume := linked.next thaw assembled settled before was_full offset here
        obtain ⟨-, -, -, ends⟩ := still.resumed offset resume
        exact ⟨shot, base, shown, resume, ends shot base⟩
      have length : (bytesOf (taken.since ++ [.bytes data])).length = (bytesOf taken.since).length + data.length := by
        rw [bytesOf_append, bytesOf_bytes, List.length_append]
      constructor
      · constructor
        case full =>
          intro vt full
          obtain ⟨before, was_full, rfl⟩ := Surface.change_full full
          obtain ⟨shot, base, shown, -, ends⟩ := place before was_full
          exact ⟨shot, base, Engine.rebuilt_snoc shown.1 rfl, between_bytes shown.2 (ends ▸ bytes)⟩
        case resumed =>
          intro position resumed
          obtain ⟨old, old_resume⟩ := Option.ne_none_iff_exists'.1 (was position resumed)
          obtain ⟨-, -, ⟨vt, full⟩, -⟩ := still.resumed old old_resume
          obtain ⟨low_vt, low_full⟩ := @Surface.scrollBottom_kind _ _ engine _ _ full
          rw [low] at low_full
          dsimp only at low_full
          obtain ⟨shot, base, -, resume, ends⟩ := place low_vt low_full
          rw [moves low_vt low_full, resume] at resumed
          have same : offset + data.length = position := Option.some.inj resumed
          refine ⟨assembled, settled, ⟨engine.write low_vt data, by simp only [low_full, Surface.change]⟩, ?_⟩
          intro other other_base
          cases base.symm.trans other_base
          rw [length]
          omega
        case frozen =>
          intro frozen
          simp [thawed] at frozen
        case waiting =>
          intro awaits
          simp [settled] at awaits
      · constructor
        case comes =>
          intro assembly some_
          simp [assembled] at some_
        case bare => exact fun _ => nothing
        case next =>
          rintro - - - vt full position ⟨⟩
          obtain ⟨before, was_full, -⟩ := Surface.change_full full
          obtain ⟨-, -, -, resume, -⟩ := place before was_full
          rw [moves before was_full, resume]
          rfl

theorem output_error {record data : List UInt8} {offset : Nat} {failure : Failure}
    (still : Still engine stream mirror taken.base taken.since)
    (result : mirror.output engine record offset data = (after, .error failure)) :
    Still engine stream after taken.base taken.since := by
  have scrolled : Still engine stream { mirror with surface := (mirror.surface.scrollBottom engine).1 } taken.base taken.since :=
    scrollBottom_still still
  unfold output at result
  rcases low : mirror.surface.scrollBottom engine with ⟨surface, _ | moved⟩
  · rw [low] at result scrolled
    cases result
    exact scrolled
  · rw [low] at result
    dsimp only at result
    split at result
    · cases result
    · split at result <;> cases result

end Mirror

end Kido.Mirrors

namespace Kido.Mirrors

open Kido.Shared

variable {C V : Type} {engine : Engine C V} {stream : Nat → UInt8} {mirror after : Mirror C V} {taken : Taken}
  {announced : Option Nat}

theorem Still.shown (still : Still engine stream mirror taken.base taken.since)
    (full : ∀ vt, after.surface = .full vt → mirror.surface = .full vt) (resume : after.resume = none)
    (thawed : after.frozen = none) (settled : after.awaitingSnapshot = false) :
    Still engine stream after taken.base taken.since :=
  ⟨fun vt shown => still.full vt (full vt shown), fun _ some_ => by simp [resume] at some_, fun frozen => by simp [thawed] at frozen,
    fun awaits => by simp [settled] at awaits⟩

namespace Mirror

theorem readied_keeps {assembly : Assembly} {outcome : Except Failure Unit}
    (result : mirror.readied engine assembly = (after, outcome)) :
    after.resume = mirror.resume ∧ after.frozen = mirror.frozen ∧ after.awaitingSnapshot = mirror.awaitingSnapshot ∧
      (∀ vt, after.surface = .full vt → mirror.surface = .full vt) ∧
      ∃ kind : Shape, kind.isFull = assembly.kind.isFull ∧ after.assembly = some { assembly with kind := kind } := by
  unfold readied at result
  by_cases ready : assembly.kind = .full true ∧ engine.ready assembly.buffer = true
  · rw [if_pos ready] at result
    have kind : (Shape.full false).isFull = assembly.kind.isFull := by rw [ready.1]; rfl
    dsimp only at result
    split at result
    · cases result
      exact ⟨rfl, rfl, rfl, fun _ full => full, _, kind, rfl⟩
    · split at result
      · cases result
        exact ⟨rfl, rfl, rfl, (fun _ full => by simp at full), _, kind, rfl⟩
      · cases result
        exact ⟨rfl, rfl, rfl, fun _ full => full, _, kind, rfl⟩
  · rw [if_neg ready] at result
    cases result
    exact ⟨rfl, rfl, rfl, fun _ full => full, _, rfl, rfl⟩

-- A slice joins the snapshot that it finds once its own first slice has begun one, or there is none and it is an error.
theorem joined_cases {offset : Nat} {data : List UInt8} {outcome : Except Failure Bool}
    (result : mirror.joined engine offset data = (after, outcome)) :
    (after = mirror ∧ ∃ failure, outcome = .error failure) ∨
      ∃ slice body, Slice.decode data = some (slice, body) ∧
        ((after = mirror.begun offset slice ∧ (mirror.begun offset slice).assembly = none ∧ ∃ failure, outcome = .error failure) ∨
          ∃ begun kind, (mirror.begun offset slice).assembly = some begun ∧
            after.resume = (mirror.begun offset slice).resume ∧ after.frozen = (mirror.begun offset slice).frozen ∧
            after.awaitingSnapshot = (mirror.begun offset slice).awaitingSnapshot ∧
            (∀ vt, after.surface = .full vt → (mirror.begun offset slice).surface = .full vt) ∧
            Shape.isFull kind = begun.kind.isFull ∧
            after.assembly = some { begun with buffer := begun.buffer ++ body, kind := kind } ∧
            (outcome = .ok slice.last ∨ ∃ failure, outcome = .error failure)) := by
  unfold joined at result
  cases decoded : Slice.decode data with
  | none =>
    rw [decoded] at result
    cases result
    exact .inl ⟨rfl, _, rfl⟩
  | some found =>
    obtain ⟨slice, body⟩ := found
    rw [decoded] at result
    dsimp only at result
    refine .inr ⟨slice, body, rfl, ?_⟩
    cases assembled : (mirror.begun offset slice).assembly with
    | none =>
      rw [assembled] at result
      cases result
      exact .inl ⟨rfl, rfl, _, rfl⟩
    | some begun =>
      rw [assembled] at result
      dsimp only at result
      rcases read : (mirror.begun offset slice).readied engine { begun with buffer := begun.buffer ++ body } with
        ⟨next, failure | ⟨⟩⟩
      all_goals
        obtain ⟨resume, frozen, awaits, full, kind, same, assembly⟩ := readied_keeps read
        rw [read] at result
        cases result
      · exact .inr ⟨begun, kind, rfl, resume, frozen, awaits, full, same, assembly, .inr ⟨_, rfl⟩⟩
      · exact .inr ⟨begun, kind, rfl, resume, frozen, awaits, full, same, assembly, .inl rfl⟩

theorem begun_facts (still : Still engine stream mirror taken.base taken.since) (offset : Nat) (slice : Slice) :
    (mirror.begun offset slice).frozen = mirror.frozen ∧
      (mirror.begun offset slice).awaitingSnapshot = mirror.awaitingSnapshot ∧
      (mirror.begun offset slice).surface = mirror.surface ∧
      ∀ begun, (mirror.begun offset slice).assembly = some begun → (mirror.begun offset slice).resume = none := by
  unfold begun
  by_cases first : slice.first = true
  · rw [if_pos first]
    exact ⟨rfl, rfl, rfl, fun _ _ => rfl⟩
  · rw [if_neg first]
    exact ⟨rfl, rfl, rfl, fun _ some_ => still.resume_none some_⟩

theorem begun_comes {offset : Nat} {slice : Slice} {data body : List UInt8} {begun : Assembly} {kind : Shape}
    (comes : ∀ assembly, mirror.assembly = some assembly → ∃ incoming, taken.coming = some incoming ∧
      Comes stream assembly incoming announced)
    (decoded : Slice.decode data = some (slice, body)) (some_ : (mirror.begun offset slice).assembly = some begun)
    (same : kind.isFull = begun.kind.isFull) :
    ∃ coming, taken.grown offset slice body = some coming ∧
      Comes stream { begun with buffer := begun.buffer ++ body, kind := kind } coming
        (announcedAfter announced (.ok (.snapshot offset data))) := by
  unfold Mirror.begun at some_
  unfold Taken.grown announcedAfter
  dsimp only
  rw [decoded, Option.any_some]
  dsimp only
  by_cases first : slice.first = true
  · rw [if_pos first] at some_ ⊢
    rw [if_pos first]
    cases some_
    refine ⟨_, rfl, ⟨rfl, ?_, rfl, rfl, rfl, rfl⟩⟩
    dsimp only
    rw [same]
    cases slice.screen <;> rfl
  · rw [if_neg first] at some_ ⊢
    rw [if_neg first]
    obtain ⟨incoming, here, comes⟩ := comes begun some_
    rw [here]
    refine ⟨_, rfl, ⟨?_, same ▸ comes.kind, comes.items, comes.stop, comes.bytes, comes.next⟩⟩
    dsimp only
    rw [comes.body]

theorem joined_error {offset : Nat} {data : List UInt8} {failure : Failure}
    (still : Still engine stream mirror taken.base taken.since) (thawed : mirror.frozen = none)
    (settled : mirror.awaitingSnapshot = false) (result : mirror.joined engine offset data = (after, .error failure)) :
    Still engine stream after taken.base taken.since := by
  rcases joined_cases result with ⟨rfl, -⟩ | ⟨slice, body, -, ⟨rfl, bare, -⟩ | ⟨begun, kind, some_, resume, frozen, awaits, full, -, -, -⟩⟩
  · exact still
  · have same : mirror.begun offset slice = mirror := by
      unfold Mirror.begun at bare ⊢
      by_cases first : slice.first = true
      · rw [if_pos first] at bare
        cases bare
      · rw [if_neg first]
    rw [same]
    exact still
  · obtain ⟨thaw, settle, surface, forgets⟩ := begun_facts still offset slice
    exact still.shown (fun vt shown => surface ▸ full vt shown) (resume.trans (forgets begun some_))
      (frozen.trans (thaw.trans thawed)) (awaits.trans (settle.trans settled))

theorem joined_ok {offset : Nat} {data : List UInt8} {last : Bool} (still : Still engine stream mirror taken.base taken.since)
    (comes : ∀ assembly, mirror.assembly = some assembly → ∃ incoming, taken.coming = some incoming ∧
      Comes stream assembly incoming announced)
    (thawed : mirror.frozen = none) (settled : mirror.awaitingSnapshot = false)
    (result : mirror.joined engine offset data = (after, .ok last)) :
    Still engine stream after taken.base taken.since ∧ after.resume = none ∧ after.frozen = none ∧
      after.awaitingSnapshot = false ∧ ∃ slice body coming assembly, Slice.decode data = some (slice, body) ∧
        last = slice.last ∧ taken.grown offset slice body = some coming ∧ after.assembly = some assembly ∧
        Comes stream assembly coming (announcedAfter announced (.ok (.snapshot offset data))) := by
  rcases joined_cases result with
    ⟨-, _, ⟨⟩⟩ | ⟨slice, body, decoded, ⟨-, -, _, ⟨⟩⟩ | ⟨begun, kind, some_, resume, frozen, awaits, full, same, assembly, out⟩⟩
  obtain ⟨thaw, settle, surface, forgets⟩ := begun_facts still offset slice
  obtain ⟨coming, grown, arrives⟩ := begun_comes comes decoded some_ same
  have none_ := resume.trans (forgets begun some_)
  have thawed_ := frozen.trans (thaw.trans thawed)
  have settled_ := awaits.trans (settle.trans settled)
  refine ⟨still.shown (fun vt shown => surface ▸ full vt shown) none_ thawed_ settled_, none_, thawed_, settled_, slice, body, coming,
    _, decoded, ?_, grown, assembly, arrives⟩
  rcases out with out | ⟨_, ⟨⟩⟩
  exact Except.ok.inj out

variable {assembly : Assembly} {coming : Coming}

theorem finish_ok (assembled : mirror.assembly = some assembly) (comes : Comes stream assembly coming announced)
    (forgotten : mirror.resume = none) (thawed : mirror.frozen = none) (settled : mirror.awaitingSnapshot = false)
    (result : mirror.finish engine = (after, .ok ())) :
    Still engine stream after (Taken.whole coming).base (Taken.whole coming).since ∧
      Linked stream after (Taken.whole coming).coming announced := by
  unfold finish at result
  rw [assembled] at result
  dsimp only at result
  cases made : restored engine assembly.buffer assembly.kind.isFull with
  | none =>
    rw [made] at result
    cases result
  | some vt =>
    rw [made] at result
    dsimp only at result
    rcases played : replay engine assembly.kind.isFull assembly.following mirror.dead vt with ⟨dead, _ | final⟩
    · rw [played] at result
      cases result
    · rw [played] at result
      dsimp only at result
      unfold Taken.whole
      rw [comes.kind]
      cases full : assembly.kind.isFull with
      | false =>
        rw [full] at result
        have partly : ∀ vt, after.surface ≠ .full vt := by
          intro vt shown
          cases pending : mirror.surface.pending with
          | none | some delta =>
            rw [pending] at result
            cases result
            cases shown
        cases result
        rw [if_neg Bool.false_ne_true, if_neg Bool.false_ne_true] at *
        refine ⟨⟨fun vt shown => absurd shown (partly vt), fun _ resume => absurd resume (by simp [forgotten]),
          fun frozen => absurd frozen (by simp [thawed]), fun awaits => absurd awaits (by simp [settled])⟩, ?_⟩
        exact ⟨fun _ some_ => absurd some_ (by simp), fun _ => rfl, fun _ _ _ vt shown => absurd shown (partly vt)⟩
      | true =>
        rw [full] at result made played
        have shown : ∃ vt, after.surface = .full vt ∧ vt.content = final.content := by
          cases pending : mirror.surface.pending with
          | none | some delta =>
            rw [pending] at result
            cases result
            exact ⟨_, rfl, rfl⟩
        have rest : after.resume = some assembly.stop ∧ after.assembly = none ∧ after.awaitingSnapshot = false ∧
            after.frozen = none := by
          cases result
          exact ⟨rfl, rfl, settled, thawed⟩
        obtain ⟨vt, shown, content⟩ := shown
        obtain ⟨resume, bare, settled, thawed⟩ := rest
        rw [if_pos rfl]
        have rebuilt : engine.rebuilt coming.shot coming.items = some final.content := by
          rw [comes.items, show coming.shot = ⟨coming.shot.offset, assembly.buffer⟩ by rw [← comes.body]]
          exact restored_rebuilt made (replay_taken played)
        constructor
        · constructor
          case full =>
            intro other other_shown
            cases shown.symm.trans other_shown
            exact ⟨coming.shot, rfl, content ▸ rebuilt, comes.bytes⟩
          case resumed =>
            intro offset here
            cases resume.symm.trans here
            refine ⟨bare, settled, ⟨vt, shown⟩, ?_⟩
            rintro _ ⟨⟩
            exact comes.stop
          case frozen =>
            intro frozen
            simp [thawed] at frozen
          case waiting =>
            intro awaits
            simp [settled] at awaits
        · exact ⟨fun _ some_ => by simp [bare] at some_, fun _ => rfl,
            fun _ _ _ _ _ offset here => resume.trans (comes.next.symm.trans here)⟩

theorem finish_error {failure : Failure} (still : Still engine stream mirror taken.base taken.since)
    (assembled : mirror.assembly = some assembly) (restores : assembly.kind.isFull = true → assembly.restores engine = true)
    (forgotten : mirror.resume = none) (thawed : mirror.frozen = none) (settled : mirror.awaitingSnapshot = false)
    (result : mirror.finish engine = (after, .error failure)) : Still engine stream after taken.base taken.since := by
  unfold finish at result
  rw [assembled] at result
  dsimp only at result
  cases full : assembly.kind.isFull with
  | false =>
    rw [full] at result
    simp only [Bool.false_eq_true, if_false] at result
    apply still.shown
    all_goals
      split at result
      · cases result
        first | exact fun _ shown => shown | assumption
      · split at result <;> cases result
        first | exact fun _ shown => shown | assumption
  | true =>
    obtain ⟨final, played⟩ := Option.isSome_iff_exists.1 (restores full)
    obtain ⟨vt, made, played⟩ := Option.bind_eq_some_iff.1 played
    rw [replay_dead true assembly.following none mirror.dead vt] at played
    rw [full, made] at result
    dsimp only at result
    rcases again : replay engine true assembly.following mirror.dead vt with ⟨dead, _ | other⟩
    · rw [again] at played
      cases played
    · rw [again] at result
      cases result

end Mirror

end Kido.Mirrors
