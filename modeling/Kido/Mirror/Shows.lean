import Kido.Mirror.Sound

set_option autoImplicit false

namespace Kido.Mirrors

open Kido.Shared

variable {C V : Type} {engine : Engine C V} {stream : Nat → UInt8} {mirror after : Mirror C V} {taken : Taken}
  {announced : Option Nat}

namespace Mirror

theorem snapshot_ok {offset : Nat} {data : List UInt8} (still : Still engine stream mirror taken.base taken.since)
    (comes : ∀ assembly, mirror.assembly = some assembly → ∃ incoming, taken.coming = some incoming ∧
      Comes stream assembly incoming announced)
    (thawed : mirror.frozen = none) (settled : mirror.awaitingSnapshot = false)
    (result : mirror.snapshot engine offset data = (after, .ok ())) :
    Still engine stream after (taken.record (.ok (.snapshot offset data))).base
        (taken.record (.ok (.snapshot offset data))).since ∧
      Linked stream after (taken.record (.ok (.snapshot offset data))).coming
        (announcedAfter announced (.ok (.snapshot offset data))) := by
  unfold snapshot at result
  rcases grows : mirror.joined engine offset data with ⟨next, failure | last⟩
  · rw [grows] at result
    cases result
  · rw [grows] at result
    dsimp only at result
    obtain ⟨kept, forgotten, thaw, settle, slice, body, coming, assembly, decoded, rfl, grown, assembled, arrives⟩ :=
      joined_ok still comes thawed settled grows
    have takes : taken.record (.ok (.snapshot offset data)) =
        if slice.last then Taken.whole coming else { taken with coming := some coming } := by
      unfold Taken.record
      dsimp only
      rw [decoded]
      dsimp only
      unfold Taken.slice
      rw [grown]
    rw [takes]
    by_cases last : slice.last = true
    · rw [if_pos last] at result ⊢
      exact finish_ok assembled arrives forgotten thaw settle result
    · rw [if_neg last] at result ⊢
      cases result
      refine ⟨kept, ?_, fun bare => by simp [assembled] at bare, fun _ bare => by simp [assembled] at bare⟩
      intro other there
      cases assembled.symm.trans there
      exact ⟨coming, rfl, arrives⟩

theorem snapshot_error {record data : List UInt8} {offset : Nat} {failure : Failure}
    (still : Still engine stream mirror taken.base taken.since) (thawed : mirror.frozen = none)
    (settled : mirror.awaitingSnapshot = false)
    (comes : ∀ assembly, mirror.assembly = some assembly → ∃ incoming, taken.coming = some incoming ∧
      Comes stream assembly incoming announced)
    (parsed : parseRecord engine.inflate record = .ok (.snapshot offset data))
    (restores : ∀ assembly, mirror.completed engine record = some assembly → assembly.kind.isFull = true →
      assembly.restores engine = true)
    (result : mirror.snapshot engine offset data = (after, .error failure)) :
    Still engine stream after taken.base taken.since := by
  unfold snapshot at result
  rcases grows : mirror.joined engine offset data with ⟨next, failure | last⟩
  · rw [grows] at result
    cases result
    exact joined_error still thawed settled grows
  · rw [grows] at result
    dsimp only at result
    obtain ⟨kept, forgotten, thaw, settle, -, -, -, assembly, -, -, -, assembled, -⟩ := joined_ok still comes thawed settled grows
    cases last with
    | false =>
      rw [if_neg Bool.false_ne_true] at result
      cases result
    | true =>
      have completes : mirror.completed engine record = some assembly := by
        unfold completed
        rw [parsed, show { mirror with awaitingSnapshot := false } = mirror by rw [← settled]]
        dsimp only
        rw [grows]
        exact assembled
      exact finish_error kept assembled (restores assembly completes) forgotten thaw settle result

variable {record : List UInt8} {parsed : Except BadRecord Parsed}

theorem took_ok (still : Still engine stream mirror taken.base taken.since)
    (linked : startsSnapshot parsed = false → Linked stream mirror taken.coming announced)
    (comes : ∀ assembly, mirror.assembly = some assembly → ∃ incoming, taken.coming = some incoming ∧
      Comes stream assembly incoming announced)
    (thawed : mirror.frozen = none) (settled : mirror.awaitingSnapshot = false) (parses : parseRecord engine.inflate record = parsed)
    (sends : ∀ offset data, parsed = .ok (.output offset data) →
      announced = some offset ∧ data = between stream offset data.length ∧ offset + data.length < u64)
    (result : mirror.took engine record parsed = (after, .ok ())) :
    Still engine stream after (taken.record parsed).base (taken.record parsed).since ∧
      Linked stream after (taken.record parsed).coming (announcedAfter announced parsed) := by
  rcases parsed with failure | (⟨offset, data⟩ | ⟨offset, data⟩)
  · cases failure <;> cases result
  · obtain ⟨here, bytes, bound⟩ := sends offset data rfl
    refine output_ok still (linked rfl) thawed settled here bytes bound ?_ result
    obtain rfl := parseRecord_output parses
    rw [List.length_drop]
    by_cases short : record.length < recordHeader
    · rw [parseRecord, if_pos short] at parses
      cases parses
    · congr 1
      omega
  · exact snapshot_ok still comes thawed settled result

theorem took_error {failure : Failure} (still : Still engine stream mirror taken.base taken.since)
    (comes : ∀ assembly, mirror.assembly = some assembly → ∃ incoming, taken.coming = some incoming ∧
      Comes stream assembly incoming announced)
    (thawed : mirror.frozen = none) (settled : mirror.awaitingSnapshot = false) (parses : parseRecord engine.inflate record = parsed)
    (restores : ∀ assembly, mirror.completed engine record = some assembly → assembly.kind.isFull = true →
      assembly.restores engine = true)
    (result : mirror.took engine record parsed = (after, .error failure)) : Still engine stream after taken.base taken.since := by
  rcases parsed with bad | (⟨offset, data⟩ | ⟨offset, data⟩)
  · cases bad
    all_goals
      cases result
      exact still
  · exact output_error still result
  · exact snapshot_error still thawed settled comes parses restores result

end Mirror

-- What holds of a mirror and its link in every state.
structure World.Holds (engine : Engine C V) (stream : Nat → UInt8) (world : World C V) : Prop where
  still : Still engine stream world.mirror world.taken.base world.taken.since
  linked : world.up = true → Linked stream world.mirror world.taken.coming world.announced

namespace World

variable {world : World C V}

theorem start_holds : Holds engine stream start := by
  refine ⟨⟨?_, ?_, ?_, ?_⟩, fun _ => ⟨?_, fun _ => rfl, ?_⟩⟩
  · rintro _ ⟨⟩
  · rintro _ ⟨⟩
  · rintro ⟨⟩
  · rintro ⟨⟩
  · rintro _ ⟨⟩
  · rintro _ _ _ _ ⟨⟩

theorem Holds.record {bytes : List UInt8} (holds : world.Holds engine stream) (sends : Sends engine stream world (.record bytes))
    (restores : Restores engine world (.record bytes)) : (world.record engine bytes).Holds engine stream := by
  unfold World.record
  by_cases up : world.up = true
  case neg => rwa [if_neg up]
  rw [if_pos up]
  have still := holds.still
  have linked := holds.linked up
  dsimp only
  rcases result : world.mirror.record engine bytes with ⟨after, outcome⟩
  have came := result
  unfold Mirror.record at came
  cases frozen : world.mirror.frozen with
  | some copy =>
    rw [frozen] at came
    cases came
    have deaf : world.mirror.listens (parseRecord engine.inflate bytes) = false := by simp [Mirror.listens, frozen]
    have held := still.frozen (by rw [frozen]; rfl)
    have bare := held.1
    rw [deaf, Bool.false_and]
    refine ⟨⟨still.full, still.resumed, fun _ => held, still.waiting⟩, fun _ => ⟨?_, linked.bare, ?_⟩⟩
    · intro assembly some_
      exact absurd (bare.symm.trans some_) (by simp)
    · intro clean
      exact absurd (clean _ rfl) (by simp)
  | none =>
    rw [frozen] at came
    dsimp only at came
    have settles : Still engine stream { world.mirror with awaitingSnapshot := false } world.taken.base world.taken.since :=
      ⟨still.full, fun offset resume => ⟨(still.resumed offset resume).1, rfl, (still.resumed offset resume).2.2⟩,
        fun some_ => by simp [frozen] at some_, fun awaits => by simp at awaits⟩
    -- The record is taken by a mirror that listens to it.
    have takes (hears : world.mirror.listens (parseRecord engine.inflate bytes) = true)
        (listening : Mirror.startsSnapshot (parseRecord engine.inflate bytes) = false → world.mirror.awaitingSnapshot = false)
        (opened : Mirror C V) (same : opened = { world.mirror with awaitingSnapshot := false })
        (came : opened.took engine bytes (parseRecord engine.inflate bytes) = (after, outcome)) :
        Holds engine stream ⟨after, outcome.isOk, announcedAfter world.announced (parseRecord engine.inflate bytes),
          if world.mirror.listens (parseRecord engine.inflate bytes) && outcome.isOk then
            world.taken.record (parseRecord engine.inflate bytes) else world.taken⟩ := by
      subst same
      cases outcome with
      | error failure =>
        rw [hears, Bool.true_and]
        exact ⟨Mirror.took_error settles linked.comes frozen rfl rfl (restores up hears) came, fun broken => by cases broken⟩
      | ok value =>
        rw [hears, Bool.true_and]
        have same (follows : Mirror.startsSnapshot (parseRecord engine.inflate bytes) = false) :
            Linked stream { world.mirror with awaitingSnapshot := false } world.taken.coming world.announced :=
          ⟨linked.comes, linked.bare, fun clean bare _ => linked.next clean bare (listening follows)⟩
        obtain ⟨kept, joined⟩ := Mirror.took_ok settles same linked.comes frozen rfl rfl sends came
        exact ⟨kept, fun _ => joined⟩
    by_cases awaits : world.mirror.awaitingSnapshot = true
    · rw [if_pos awaits] at came
      by_cases starts : Mirror.startsSnapshot (parseRecord engine.inflate bytes) = true
      · rw [if_pos starts] at came
        exact takes (by simp [Mirror.listens, frozen, starts]) (fun follows => by simp [starts] at follows) _ (by dsimp only; rw [frozen]) came
      · rw [if_neg starts] at came
        have deaf : world.mirror.listens (parseRecord engine.inflate bytes) = false := by simp [Mirror.listens, awaits, starts]
        have bare := still.waiting awaits
        rw [deaf, Bool.false_and]
        rcases parsed : parseRecord engine.inflate bytes with failure | made
        · rw [parsed] at came
          refine ⟨?_, fun broken => ?_⟩
          all_goals cases failure <;> cases came
          · exact still
          · exact still
          · exact still
          all_goals cases broken
        · rw [parsed] at came
          cases came
          refine ⟨still, fun _ => ⟨fun _ some_ => absurd (bare.symm.trans some_) (by simp), linked.bare, fun _ _ settled => ?_⟩⟩
          exact absurd (awaits.symm.trans settled) (by simp)
    · rw [if_neg awaits] at came
      have settled : world.mirror.awaitingSnapshot = false := Bool.not_eq_true _ ▸ awaits
      exact takes (by simp [Mirror.listens, frozen, settled]) (fun _ => settled) _ (by rw [← settled]) came

theorem Holds.event {event : Option ViewEvent} (holds : world.Holds engine stream) :
    (world.event engine event).Holds engine stream := by
  unfold World.event
  by_cases up : world.up = true
  case neg => rwa [if_neg up]
  rw [if_pos up]
  have still := holds.still
  have linked := holds.linked up
  dsimp only
  rcases result : world.mirror.marker engine event with ⟨after, failure | value⟩
  · rw [show (world.mirror.frozen.isNone && !world.mirror.awaitingSnapshot &&
      (Except.error failure : Except Failure Unit).isOk) = false from Bool.and_false _]
    exact ⟨Mirror.marker_error still result, fun broken => by cases broken⟩
  · cases frozen : world.mirror.frozen with
    | some copy =>
      have held := still.frozen (by rw [frozen]; rfl)
      unfold Mirror.marker at result
      rw [frozen] at result
      cases result
      refine ⟨⟨still.full, still.resumed, fun _ => held, still.waiting⟩, fun _ => ⟨linked.comes, linked.bare, ?_⟩⟩
      intro clean
      exact absurd (clean _ rfl) (by simp)
    | none =>
      cases settled : world.mirror.awaitingSnapshot with
      | true =>
        unfold Mirror.marker at result
        rw [frozen, settled] at result
        cases result
        exact ⟨still, fun _ => linked⟩
      | false =>
        obtain ⟨kept, joined⟩ := Mirror.marker_ok still linked frozen settled result
        exact ⟨kept, fun _ => joined⟩

theorem Holds.moved {α : Type} {result : Mirror C V × Except Failure α} (holds : world.Holds engine stream)
    (full : ∀ vt, result.1.surface = .full vt → ∃ before, world.mirror.surface = .full before ∧ vt.content = before.content)
    (kind : ∀ vt, world.mirror.surface = .full vt → ∃ after, result.1.surface = .full after)
    (assembly : result.1.assembly = world.mirror.assembly) (resume : result.1.resume = world.mirror.resume)
    (awaits : result.1.awaitingSnapshot = world.mirror.awaitingSnapshot)
    (frozen : result.1.frozen.isSome = true → result.1.assembly = none ∧ result.1.awaitingSnapshot = false ∧
      ∃ vt, result.1.surface = .full vt)
    (clean : result.2.isOk = true → (∀ copy, result.1.frozen = some copy → copy.dirty = false) →
      ∀ copy, world.mirror.frozen = some copy → copy.dirty = false) : (world.acted result).Holds engine stream := by
  have still := holds.still
  have same : (world.acted result).taken.base = world.taken.base ∧ (world.acted result).taken.since = world.taken.since := by
    unfold World.acted
    dsimp only
    split <;> exact ⟨rfl, rfl⟩
  refine ⟨⟨fun vt shown => ?_, fun offset here => ?_, frozen, fun awaiting => ?_⟩, fun up => ?_⟩
  · obtain ⟨before, was, content⟩ := full vt shown
    obtain ⟨shot, base, shown⟩ := still.full before was
    rw [same.1, same.2]
    exact ⟨shot, base, shown.of_content content⟩
  · obtain ⟨bare, settled, ⟨vt, was⟩, ends⟩ := still.resumed offset (resume ▸ here)
    rw [same.1, same.2]
    exact ⟨assembly.trans bare, awaits.trans settled, kind vt was, ends⟩
  · exact assembly.trans (still.waiting (awaits ▸ awaiting))
  · have both : world.up = true ∧ result.2.isOk = true := by
      have split_ : (world.up && result.2.isOk) = true := up
      exact Bool.and_eq_true_iff.1 split_
    have linked := holds.linked both.1
    have coming : (world.acted result).taken.coming = world.taken.coming := by
      unfold World.acted
      dsimp only
      cases here : result.1.assembly with
      | some _ => rfl
      | none => exact (linked.bare (assembly.symm.trans here)).symm
    refine ⟨fun other some_ => ?_, fun bare => ?_, fun clear bare settled vt shown offset here => ?_⟩
    · rw [coming]
      exact linked.comes other (assembly.symm.trans some_)
    · exact coming.trans (linked.bare (assembly.symm.trans bare))
    · obtain ⟨before, was, -⟩ := full vt shown
      exact resume.trans (linked.next (clean both.2 clear) (assembly.symm.trans bare) (awaits.symm.trans settled) before was
        offset here)

theorem Holds.resynced {before : Mirror C V} {sent : Bool} (holds : world.Holds engine stream)
    (full : ∀ vt, before.surface = .full vt → ∃ was, world.mirror.surface = .full was ∧ vt.content = was.content)
    (thawed : before.frozen = none) : (world.acted (before.resync sent)).Holds engine stream := by
  refine ⟨⟨fun vt shown => ?_, fun _ some_ => by simp [World.acted, Mirror.resync] at some_,
    fun frozen => by simp [World.acted, Mirror.resync, thawed] at frozen, fun _ => rfl⟩, fun _ => ⟨?_, fun _ => rfl, ?_⟩⟩
  · obtain ⟨was, here, content⟩ := full vt shown
    obtain ⟨shot, base, shown⟩ := holds.still.full was here
    exact ⟨shot, base, shown.of_content content⟩
  · rintro _ ⟨⟩
  · rintro - - ⟨⟩

theorem Holds.same {α : Type} (holds : world.Holds engine stream) (outcome : Except Failure α) :
    (world.acted (world.mirror, outcome)).Holds engine stream :=
  holds.moved (fun vt full => ⟨vt, full, rfl⟩) (fun vt full => ⟨vt, full⟩) rfl rfl rfl holds.still.frozen fun _ clean => clean

theorem Holds.freeze (holds : world.Holds engine stream) (opened : Option Nat) (live : world.mirror.frozen = none) :
    (world.acted (world.mirror.freeze engine opened)).Holds engine stream := by
  unfold Mirror.freeze
  by_cases busy : (world.mirror.assembly.isSome || world.mirror.awaitingSnapshot) = true
  · rw [if_pos busy]
    exact holds.same _
  rw [if_neg busy]
  obtain ⟨bare, settled⟩ : world.mirror.assembly = none ∧ world.mirror.awaitingSnapshot = false := by simpa using busy
  split
  case h_2 => exact holds.same _
  case h_1 screen shown =>
    by_cases hold : engine.hold screen.content = true
    · rw [if_pos hold]
      exact holds.same _
    rw [if_neg hold]
    split
    case h_2 => exact holds.same _
    case h_1 offset row _ _ =>
      have kept : ∃ vt, (if row ≠ offset then Surface.full (engine.scrollTo screen row) else world.mirror.surface) = .full vt ∧
          vt.content = screen.content := by
        by_cases moved : row ≠ offset
        · rw [if_pos moved]
          exact ⟨_, rfl, rfl⟩
        · rw [if_neg moved]
          exact ⟨screen, shown, rfl⟩
      obtain ⟨after, here, content⟩ := kept
      refine holds.moved (fun vt full => ?_) (fun _ _ => ⟨after, here⟩) rfl rfl rfl (fun _ => ⟨bare, settled, after, here⟩) ?_
      · cases here.symm.trans full
        exact ⟨screen, shown, content⟩
      · intro _ _ copy some_
        rw [live] at some_
        cases some_

theorem Holds.copyChange (holds : world.Holds engine stream) (row : Nat) (failed : Bool) :
    (world.acted (world.mirror.copyChange engine row failed)).Holds engine stream := by
  unfold Mirror.copyChange
  split
  case h_1 => exact holds.same _
  case h_2 => exact holds.same _
  case h_3 frozen screen on _ =>
    have held := holds.still.frozen (by rw [on]; rfl)
    have clean : (∀ copy, some { frozen with offset := row } = some copy → copy.dirty = false) →
        ∀ copy, world.mirror.frozen = some copy → copy.dirty = false := by
      intro clean copy here
      cases on.symm.trans here
      exact clean { frozen with offset := row } rfl
    dsimp only
    split
    · exact holds.moved (fun vt full => ⟨vt, full, rfl⟩) (fun vt full => ⟨vt, full⟩) rfl rfl rfl (fun _ => held) fun _ => clean
    · split
      · obtain ⟨bare, settled, before, full⟩ := held
        refine holds.moved (fun vt shown => ?_) (fun vt here => ?_) rfl rfl rfl (fun _ => ⟨bare, settled, ?_⟩) fun _ => clean
        · obtain ⟨was, here, rfl⟩ := Surface.change_full shown
          exact ⟨was, here, rfl⟩
        · exact ⟨_, congrArg (Surface.change _) here⟩
        · exact ⟨_, congrArg (Surface.change _) full⟩
      · exact holds.moved (fun vt full => ⟨vt, full, rfl⟩) (fun vt full => ⟨vt, full⟩) rfl rfl rfl (fun _ => held) fun _ => clean

theorem Holds.bottom (holds : world.Holds engine stream) : (world.acted (world.mirror.bottom engine)).Holds engine stream := by
  unfold Mirror.bottom
  by_cases on : world.mirror.frozen.isSome = true
  · rw [if_pos on]
    exact holds.same _
  rw [if_neg on]
  have moved (outcome : Except Failure Unit) :
      (world.acted ({ world.mirror with surface := (world.mirror.surface.scrollBottom engine).1 }, outcome)).Holds engine stream :=
    holds.moved (fun _ => Surface.scrollBottom_full) (fun _ => Surface.scrollBottom_kind) rfl rfl rfl
      (fun some_ => absurd some_ on) fun _ clean => clean
  rcases low : world.mirror.surface.scrollBottom engine with ⟨surface, _ | _⟩
  all_goals
    rw [low] at moved
    exact moved _

theorem Holds.thaw (holds : world.Holds engine stream) (sent : Bool) :
    (world.acted (world.mirror.thaw engine sent)).Holds engine stream := by
  unfold Mirror.thaw
  cases on : world.mirror.frozen with
  | none => exact holds.same _
  | some frozen =>
    dsimp only
    unfold Mirror.bottom
    rw [if_neg (by simp)]
    dsimp only
    have full (vt : Terminal C V) (shown : (world.mirror.surface.scrollBottom engine).1 = .full vt) :=
      Surface.scrollBottom_full shown
    have moved (outcome : Except Failure Unit) (clean : outcome.isOk = true → frozen.dirty = false) :
        (world.acted ({ world.mirror with frozen := none, surface := (world.mirror.surface.scrollBottom engine).1 },
          outcome)).Holds engine stream := by
      refine holds.moved full (fun _ => Surface.scrollBottom_kind) rfl rfl rfl (fun some_ => by simp at some_) ?_
      intro ok _ copy here
      cases on.symm.trans here
      exact clean ok
    rcases low : world.mirror.surface.scrollBottom engine with ⟨surface, _ | _⟩
    all_goals
      rw [low] at moved full
      dsimp only
    · exact moved _ fun broken => by cases broken
    · by_cases dirty : frozen.dirty = true
      · rw [if_pos dirty]
        exact holds.resynced full rfl
      · rw [if_neg dirty]
        exact moved _ fun _ => by simpa using dirty

theorem Holds.scroll (holds : world.Holds engine stream) (delta : Int) (sent : Bool) :
    (world.acted (world.mirror.scroll engine delta sent)).Holds engine stream := by
  have held (surface : Surface C V) (other : ∀ vt, surface ≠ .full vt) (shown : world.mirror.surface = surface) :
      world.mirror.frozen = none := by
    cases on : world.mirror.frozen with
    | none => rfl
    | some _ =>
      obtain ⟨-, -, vt, full⟩ := holds.still.frozen (by rw [on]; rfl)
      exact absurd (shown.symm.trans full) (other vt)
  unfold Mirror.scroll
  cases shown : world.mirror.surface with
  | empty => exact holds.same _
  | full screen =>
    refine holds.moved (fun vt here => ?_) (fun _ _ => ⟨_, rfl⟩) rfl rfl rfl (fun on => ?_) fun _ clean => clean
    · cases here
      exact ⟨screen, shown, rfl⟩
    · obtain ⟨bare, settled, -⟩ := holds.still.frozen on
      exact ⟨bare, settled, _, rfl⟩
  | partly screen =>
    have live := held _ (fun _ => by simp) shown
    refine holds.resynced (fun vt here => ?_) live
    cases here
  | loading screen pending =>
    have live := held _ (fun _ => by simp) shown
    refine holds.moved (fun vt here => ?_) (fun vt here => ?_) rfl rfl rfl (fun on => ?_) fun _ clean => clean
    · cases here
    · cases shown.symm.trans here
    · change world.mirror.frozen.isSome = true at on
      rw [live] at on
      cases on

theorem Holds.unwatch (holds : world.Holds engine stream) :
    Holds engine stream { world with mirror := world.mirror.unwatch, up := false } := by
  refine ⟨?_, fun broken => by cases broken⟩
  change Still engine stream world.mirror.unwatch world.taken.base world.taken.since
  unfold Mirror.unwatch
  cases on : world.mirror.frozen with
  | none => exact holds.still
  | some _ =>
    obtain ⟨-, settled, -⟩ := holds.still.frozen (by rw [on]; rfl)
    exact holds.still.shown (fun _ full => full) rfl rfl settled

theorem Holds.relink (holds : world.Holds engine stream) (connected watched : Bool) :
    (world.relink connected watched).Holds engine stream := by
  unfold World.relink
  cases connected with
  | false => exact holds
  | true =>
    cases watched with
    | false => exact ⟨holds.still, fun broken => by cases broken⟩
    | true =>
      obtain ⟨full, resumed, frozen, waiting⟩ := holds.still
      refine ⟨⟨full, fun offset here => ?_, fun on => ⟨rfl, (frozen on).2⟩, fun _ => rfl⟩, fun _ => ⟨?_, fun _ => rfl, ?_⟩⟩
      · exact ⟨rfl, (resumed offset here).2⟩
      · rintro _ ⟨⟩
      · intro _ _ _ vt shown offset here
        exact (Option.filter_eq_some_iff.1 here).1

theorem Holds.step {op : Op} (holds : world.Holds engine stream) (sends : Sends engine stream world op)
    (restores : Restores engine world op) : (world.step engine op).Holds engine stream := by
  cases op with
  | record bytes => exact holds.record sends restores
  | event event => exact holds.event
  | closed => exact ⟨holds.still, fun broken => by cases broken⟩
  | freeze opened => exact holds.freeze opened restores
  | copyChange row failed => exact holds.copyChange row failed
  | thaw sent => exact holds.thaw sent
  | bottom => exact holds.bottom
  | scroll delta sent => exact holds.scroll delta sent
  | unwatch => exact holds.unwatch
  | relink connected watched => exact holds.relink connected watched

end World

-- A mirror shows the pane's stream: when it shows a screen with its history, and does not freeze it, assemble a snapshot or
-- wait for one, its terminal is the last full snapshot followed by exactly the output from the snapshot's end to where the mirror
-- resumes. It resumes only with such a terminal, and its link goes on where it resumes.
structure Shows (engine : Engine C V) (stream : Nat → UInt8) (world : World C V) : Prop where
  shown : ∀ vt, world.mirror.surface = .full vt → world.mirror.frozen = none → world.mirror.assembly = none →
    world.mirror.awaitingSnapshot = false → ∃ shot, world.taken.base = some shot ∧
      Shown engine stream shot world.taken.since vt ∧
      ∀ offset, world.mirror.resume = some offset → offset = shot.offset + (bytesOf world.taken.since).length
  resumed : ∀ offset, world.mirror.resume = some offset → ∃ vt shot, world.mirror.surface = .full vt ∧
    world.taken.base = some shot ∧ Shown engine stream shot world.taken.since vt ∧
    offset = shot.offset + (bytesOf world.taken.since).length
  continued : ∀ offset, world.mirror.resume = some offset → world.up = true → world.mirror.frozen = none →
    ∀ next, world.announced = some next → next = offset

theorem World.Holds.shows {world : World C V} (holds : world.Holds engine stream) : Shows engine stream world := by
  constructor
  case shown =>
    intro vt full _ _ _
    obtain ⟨shot, base, shown⟩ := holds.still.full vt full
    refine ⟨shot, base, shown, fun offset resume => ?_⟩
    obtain ⟨-, -, -, ends⟩ := holds.still.resumed offset resume
    exact ends shot base
  case resumed =>
    intro offset resume
    obtain ⟨-, -, ⟨vt, full⟩, ends⟩ := holds.still.resumed offset resume
    obtain ⟨shot, base, shown⟩ := holds.still.full vt full
    exact ⟨vt, shot, full, base, shown, ends shot base⟩
  case continued =>
    intro offset resume up live next announced
    obtain ⟨bare, settled, ⟨vt, full⟩, -⟩ := holds.still.resumed offset resume
    have same := (holds.linked up).next (fun _ on => by rw [live] at on; cases on) bare settled vt full next announced
    exact Option.some.inj (same.symm.trans resume)

section Runs

-- A terminal that is the bytes written to it; a snapshot of a zero byte is not one.
def bytesEngine : Engine (List UInt8) Unit where
  inflate header packed := some (header ++ packed)
  decode bytes _ := if bytes = [0] then none else some ⟨bytes, ()⟩
  ready _ := false
  configure := some
  watch _ := true
  put content byte := content ++ [byte]
  resize content _ := some content
  follow _ _ viewport := viewport
  offset _ _ := some 0
  rows _ := some 1
  lowest _ viewport := viewport
  topmost _ viewport := viewport
  moved _ viewport _ := viewport
  hold _ := false

def counting (index : Nat) : UInt8 := UInt8.ofNat index

def snapshotAt (offset : UInt8) (body : List UInt8) : Op := .record ([2, offset, 0, 0, 0, 0, 0, 0, 0, 3, 0] ++ body)

def outputAt (offset : UInt8) (data : List UInt8) : Op := .record ([1, offset, 0, 0, 0, 0, 0, 0, 0] ++ data)

def watched : List Op := [snapshotAt 4 [9], outputAt 4 [4, 5], .unwatch, .relink true true, outputAt 6 [6]]

end Runs

end Kido.Mirrors
