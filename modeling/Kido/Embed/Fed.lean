import Kido.Embed.Decode

set_option autoImplicit false

namespace Kido.Embedded

open Kido.Shared Kido.Mirrors Kido.Framing

variable {stream : Nat → UInt8} {world : World}

namespace View

@[simp]
theorem cancelCurrent_work (view : View) : view.cancelCurrent.work = view.work := by
  unfold cancelCurrent
  split <;> rfl

@[simp]
theorem cancelCurrent_generation (view : View) : view.cancelCurrent.generation = view.generation := by
  unfold cancelCurrent
  split <;> rfl

@[simp]
theorem cancelCurrent_resume (view : View) : view.cancelCurrent.resume = view.resume := by
  unfold cancelCurrent
  split <;> rfl

@[simp]
theorem cancelCurrent_skipping (view : View) : view.cancelCurrent.skipping = view.skipping := by
  unfold cancelCurrent
  split <;> rfl

@[simp]
theorem cancelCurrent_closed (view : View) : view.cancelCurrent.closed = view.closed := by
  unfold cancelCurrent
  split <;> rfl

theorem slice_same (view : View) (header : Header) (body : List UInt8) :
    let begun := if header.first then view.begun header else view
    (view.slice header body).1.work = begun.work ∧ (view.slice header body).1.generation = begun.generation ∧
      (view.slice header body).1.resume = begun.resume ∧ (view.slice header body).1.skipping = begun.skipping ∧
      (view.slice header body).1.closed = begun.closed := by
  intro begun
  unfold slice
  dsimp only
  cases begun.current with
  | none => exact ⟨rfl, rfl, rfl, rfl, rfl⟩
  | some generation => exact ⟨rfl, rfl, rfl, rfl, rfl⟩

end View

namespace World

theorem Sound.dropConn (sound : world.Sound stream) (session : Bool)
    (settled : world.view.skipping = true → world.decoder.undecided = false) :
    Sound stream { world with view := world.view.abandon, session := session, conn := none, announced := none } := by
  obtain ⟨queued, feeds, sound⟩ := sound
  refine ⟨none, [], sound.abandoned (fun skips _ => settled skips) rfl ?_ ?_ rfl fun shut => ?_⟩
  all_goals simp [View.abandon]
  exact shut

theorem Sound.openLink (sound : world.Sound stream) {started : Bool} (done : Finished world (.openLink started)) :
    (world.openLink started).Sound stream := by
  have kept := sound
  obtain ⟨queued, feeds, sound⟩ := sound
  unfold World.openLink
  by_cases refused : (!world.session || world.conn.isSome || world.view.closed) = true
  · rw [if_pos refused]
    exact kept
  rw [if_neg refused]
  simp only [Bool.or_eq_true, Bool.not_eq_true', not_or, Bool.not_eq_true, Option.isSome_eq_false_iff, Option.isNone_iff_eq_none]
    at refused
  obtain ⟨⟨joined, bare⟩, open_⟩ := refused
  cases started with
  | false =>
    refine kept.dropConn false fun skips => ?_
    obtain ⟨-, linked, -⟩ := sound.skip skips
    rw [bare] at linked
    cases linked
  | true =>
    dsimp only [Bool.not_true, Bool.false_eq_true, if_false]
    cases resume : world.view.resume.filter fun offset => offset ≤ maxOffset with
    | none => exact ⟨queued, feeds, sound.linked open_ (.inl ⟨bare, rfl⟩)⟩
    | some offset =>
      obtain ⟨here, -⟩ := Option.filter_eq_some_iff.1 resume
      have free := done (by simpa using joined) bare rfl (by rw [here]; rfl)
      obtain ⟨job, latest, sound⟩ := sound.resumed bare open_ free here
      simp only [World.withLine, latest] at sound
      simp only [latest]
      exact ⟨none, [], sound⟩

theorem reads_iff : world.reads = true ↔ world.conn = some true ∧ world.view.pause = false ∧ world.view.closed = false := by
  simp [reads, and_assoc]

theorem Sound.slice (sound : world.Sound stream) (header : Header) (body : List UInt8) :
    (world.slice header body).Sound stream := by
  have kept := sound
  obtain ⟨queued, feeds, sound⟩ := sound
  unfold World.slice
  by_cases reads : world.reads = true
  case neg => rwa [if_neg reads]
  rw [if_pos reads]
  obtain ⟨conn, -, open_⟩ := reads_iff.1 reads
  obtain ⟨work, generation, resume, skipping, closed⟩ := world.view.slice_same header body
  by_cases first : header.first = true
  · simp only [first, if_true] at work generation resume skipping closed ⊢
    have begun : (world.view.begun header).generation = world.view.generation + 1 ∧
        (world.view.begun header).work = [.snapshot ⟨world.view.generation + 1, header.history, header.continuation, header.offset⟩] ∧
        (world.view.begun header).resume = none ∧ (world.view.begun header).skipping = world.view.skipping ∧
        (world.view.begun header).closed = world.view.closed := by
      simp [View.begun, View.withStream]
    obtain ⟨generation_, work_, resume_, skipping_, closed_⟩ := begun
    refine ⟨some ⟨(world.view.slice header body).1.generation, header.history, header.continuation, header.offset⟩, [],
      sound.sliced (by rw [conn]; rfl) open_ ?_ (generation.trans generation_) rfl (resume.trans resume_)
        (skipping.trans skipping_) (closed.trans closed_) rfl⟩
    rw [work, work_, generation, generation_]
  · simp only [first] at work generation resume skipping closed ⊢
    exact ⟨queued, feeds, sound.withView work generation resume skipping closed⟩

theorem Sound.feed (sound : world.Sound stream) {feed : Feed} (sends : Sends stream world (.feed feed)) :
    (world.feed feed).Sound stream := by
  have kept := sound
  obtain ⟨queued, feeds, sound⟩ := sound
  unfold World.feed
  by_cases reads : world.reads = true
  case neg => rwa [if_neg reads]
  rw [if_pos reads]
  obtain ⟨conn, -, open_⟩ := reads_iff.1 reads
  obtain ⟨place, here, sent⟩ := sends reads
  have linked : world.conn.isSome = true := by rw [conn]; rfl
  cases feed with
  | bytes offset data =>
    obtain ⟨rfl, follows, bound⟩ := sent
    obtain ⟨job, latest, sound⟩ := @SoundWith.fedOn stream world _ _ (world.view.feed (.bytes offset data)) (.bytes offset data) _
      (some (offset + data.length)) sound linked open_ here rfl rfl rfl rfl rfl bound follows
      (by rw [show (Feed.bytes offset data).pieces = bytePieces offset data from rfl, reach_bytePieces])
    simp only [World.withLine, latest] at sound
    simp only [latest]
    exact ⟨queued, _, sound⟩
  | marker offset mark =>
    obtain ⟨job, latest, sound⟩ := @SoundWith.fedOn stream world _ _ (world.view.feed (.marker offset mark)) (.marker offset mark) _
      world.announced sound linked open_ here rfl rfl rfl rfl rfl trivial trivial here
    simp only [World.withLine, latest] at sound
    simp only [latest]
    exact ⟨queued, _, sound⟩

theorem Sound.take (sound : world.Sound stream) : world.take.Sound stream := by
  have kept := sound
  obtain ⟨queued, feeds, sound⟩ := sound
  unfold World.take
  split
  case h_1 job rest idle open_ work =>
    have same := work.symm.trans sound.work
    cases queued with
    | none =>
      cases feeds <;> cases same
    | some other =>
      cases same
      exact ⟨none, feeds, sound.takesSnapshot rfl rfl rfl rfl rfl⟩
  case h_2 feed rest idle open_ work =>
    have same := work.symm.trans sound.work
    cases queued with
    | some other => cases same
    | none =>
      cases feeds with
      | nil => cases same
      | cons other tail =>
        cases same
        exact ⟨none, tail, sound.takesFeed idle open_ rfl rfl rfl rfl rfl⟩
  case h_3 => exact kept

theorem Sound.gather (sound : world.Sound stream) : world.gather.Sound stream := by
  have kept := sound
  obtain ⟨queued, feeds, sound⟩ := sound
  unfold World.gather
  split
  case h_1 offset data took =>
    have held := sound.held
    rw [took] at held
    have held : offset + data.length < u64 := held
    rcases gathered : View.gather (stopOf offset data.length) data.length world.view.work with ⟨more, rest⟩
    cases queued with
    | some job =>
      rw [sound.work] at gathered
      cases (gather_snapshot _ _ _ _).symm.trans gathered
      refine ⟨some job, feeds, sound.gathers took rfl (fun _ member => member) ?_ (fun _ => ⟨?_, rfl⟩) ?_ rfl rfl
        (fun _ _ => by simp) id rfl rfl rfl rfl⟩
      · rw [List.append_nil]
        rfl
      · rw [List.append_nil]
        rfl
      · exact fun _ => by rwa [List.append_nil]
    | none =>
      rw [sound.work, stopOf_eq held] at gathered
      obtain ⟨left, rfl, members, pieces, limit⟩ := gather_feeds sound.bound gathered
      refine ⟨none, left, sound.gathers took rfl members ?_ (fun none_ => ?_) ?_ rfl rfl (fun _ _ => by simp) (fun none_ => ?_)
        rfl rfl rfl rfl⟩
      · change bytePieces offset data ++ linePieces feeds = bytePieces offset (data ++ more) ++ linePieces left
        rw [pieces, bytePieces_append, List.append_assoc]
      · have none_ : feeds = [] := none_.resolve_left (by simp)
        subst none_
        have same : ([], []) = (more, left.map Work.feed) := gathered
        obtain ⟨empty, nothing⟩ := Prod.mk.inj same
        subst empty
        exact ⟨congrArg (bytePieces offset) (List.append_nil data), List.map_eq_nil_iff.1 nothing.symm⟩
      · intro _
        cases more with
        | nil => rwa [List.append_nil]
        | cons value others =>
          have deep := limit (by simp)
          rw [List.length_append]
          omega
      · subst none_
        exact List.eq_nil_iff_forall_not_mem.2 fun feed member => absurd (members feed member) (by simp)
  case h_2 offset mark took =>
    exact ⟨queued, feeds, sound.gathers took sound.work (fun _ member => member) (by rw [← Feed.item_marker]; rfl)
      (fun _ => ⟨Feed.item_marker offset mark, rfl⟩) rfl rfl rfl (fun _ _ => by simp) id rfl rfl rfl rfl⟩
  case h_3 => exact kept

theorem Sound.give (sound : world.Sound stream) : world.give.Sound stream := by
  have kept := sound
  obtain ⟨queued, feeds, sound⟩ := sound
  unfold World.give
  split
  case h_1 feed data gathered =>
    by_cases given : (!world.view.skipping && !world.view.closed) = true
    · rw [if_pos given]
      simp only [Bool.and_eq_true, Bool.not_eq_true'] at given
      exact ⟨queued, feeds, sound.gives gathered given.1 given.2⟩
    · rw [if_neg given]
      refine ⟨queued, feeds, sound.drops gathered ?_⟩
      cases skips : world.view.skipping with
      | true => exact .inl rfl
      | false =>
        rw [skips] at given
        simpa using given
  case h_2 => exact kept

theorem Sound.restored (sound : world.Sound stream) : world.restored.Sound stream := by
  have kept := sound
  obtain ⟨queued, feeds, sound⟩ := sound
  unfold World.restored
  split
  case h_1 job result returned =>
    unfold View.restored
    dsimp only
    by_cases late : (world.view.withStream job.generation .cancel).generation ≠ job.generation ∨
        (world.view.withStream job.generation .cancel).closed = true
    · rw [if_pos late]
      exact ⟨queued, feeds, (sound.outdated returned late).withView rfl rfl rfl rfl rfl⟩
    · rw [if_neg late]
      have both := not_or.1 late
      exact ⟨none, feeds, sound.concludes returned (Decidable.not_not.1 both.1) rfl rfl rfl rfl rfl⟩
  case h_2 => exact kept

theorem Sound.step {op : Op} (sound : world.Sound stream) (sends : Sends stream world op) (done : Finished world op) :
    (world.step op).Sound stream := by
  have kept := sound
  obtain ⟨queued, feeds, with_⟩ := sound
  cases op with
  | join =>
    unfold World.step
    dsimp only
    split
    · exact kept
    · exact ⟨queued, feeds, { with_ with }⟩
  | lose => exact kept.dropConn false done
  | openLink started => exact kept.openLink done
  | linked =>
    unfold World.step
    dsimp only
    cases conn : world.conn with
    | none =>
      rw [Option.map_none, ← conn]
      exact kept
    | some up =>
      rw [Option.map_some]
      refine ⟨queued, feeds, with_.linked ?_ (.inr rfl)⟩
      cases shut : world.view.closed with
      | false => rfl
      | true =>
        rw [with_.shut shut] at conn
        cases conn
  | drop => exact kept.dropConn world.session done
  | slice header body => exact kept.slice header body
  | feed feed => exact kept.feed sends
  | shut =>
    refine ⟨none, [], with_.abandoned (fun _ open_ => ?_) rfl ?_ ?_ rfl fun _ => ?_⟩
    · simp [View.shut, View.abandon] at open_
    all_goals simp [View.shut, View.abandon]
  | take => exact kept.take
  | gather => exact kept.gather
  | give => exact kept.give
  | settle =>
    unfold World.step World.settle
    dsimp only
    split
    case h_1 feed data passed => exact ⟨queued, feeds, with_.settles passed⟩
    case h_2 => exact kept
  | read room =>
    unfold World.step World.read
    dsimp only
    split
    case h_1 job _ =>
      have same : ∀ view : View, view = (world.view.read job.generation room).2 → view.work = world.view.work ∧
          view.generation = world.view.generation ∧ view.resume = world.view.resume ∧ view.skipping = world.view.skipping ∧
          view.closed = world.view.closed := by
        rintro view rfl
        unfold View.read
        dsimp only
        split <;> exact ⟨rfl, rfl, rfl, rfl, rfl⟩
      obtain ⟨work, generation, resume, skipping, closed⟩ := same _ rfl
      exact ⟨queued, feeds, with_.withView work generation resume skipping closed⟩
    case h_2 => exact kept
  | restore code =>
    unfold World.step World.restore
    dsimp only
    split
    case h_1 job restoring => exact ⟨queued, feeds, with_.returns restoring _⟩
    case h_2 => exact kept
  | restored => exact kept.restored

end World

structure FedExactly (stream : Nat → UInt8) (world : World) : Prop where
  fed : ∀ job, world.app.last = some (job, some .ok) →
    givenPieces world.app.given <+: world.lines job.generation ∧ Follows stream job.offset (givenPieces world.app.given)
  failed : ∀ job result, world.app.last = some (job, some result) → result ≠ .ok → world.app.given = []
  opened : ∀ opening ∈ world.openings, opening.Right stream

theorem World.Sound.fedExactly (sound : world.Sound stream) : FedExactly stream world := by
  obtain ⟨queued, feeds, sound⟩ := sound
  constructor
  case fed =>
    intro job last
    obtain ⟨before, follows⟩ := sound.fed job last
    exact ⟨(List.prefix_append _ _).trans before, follows.left⟩
  case failed =>
    intro job result last other
    refine (sound.failed fun job' ok => ?_).1
    rw [last] at ok
    cases ok
    exact other rfl
  case opened => exact sound.opened

-- After a restore the app is given what the server sent after the snapshot, in order and once, and nothing after a restore that
-- failed; and a link that resumes goes on where the app is.
theorem app_fed_exactly {options : History} {ops : List Op}
    (allowed : AllAllowed World.step (fun world op => Sends stream world op ∧ Finished world op) (World.start options) ops) :
    FedExactly stream (run World.step (World.start options) ops) :=
  (run_allowed (fun _ _ sound met => sound.step met.1 met.2) (World.start_sound options) allowed :
    World.Sound stream _).fedExactly

section Runs

def counting (index : Nat) : UInt8 := UInt8.ofNat index

def shown : List Op :=
  [.join, .openLink true, .linked, .slice ⟨true, true, true, 4, 0⟩ [9], .take, .restore 0, .restored, .feed (.bytes 4 [4, 5])]

def fedFirst : List Op := shown ++ [.take, .gather, .give, .settle, .drop, .openLink true, .linked, .feed (.bytes 6 [6])]

theorem resumed_fed_exactly : AllAllowed World.step (fun world op => Sends counting world op ∧ Finished world op)
      (World.start .all) fedFirst ∧ FedExactly counting (run World.step (World.start .all) fedFirst) := by
  have allowed : AllAllowed World.step (fun world op => Sends counting world op ∧ Finished world op)
      (World.start .all) fedFirst := by
    refine ⟨⟨trivial, trivial⟩, ⟨trivial, ?_⟩, ⟨trivial, trivial⟩, ⟨trivial, trivial⟩, ⟨trivial, trivial⟩, ⟨trivial, trivial⟩,
      ⟨trivial, trivial⟩, ⟨?_, trivial⟩, ⟨trivial, trivial⟩, ⟨trivial, trivial⟩, ⟨trivial, trivial⟩, ⟨trivial, trivial⟩,
      ⟨trivial, ?_⟩, ⟨trivial, ?_⟩, ⟨trivial, trivial⟩, ⟨?_, trivial⟩, trivial⟩
    · exact fun _ _ _ _ => rfl
    · exact fun _ => ⟨4, rfl, rfl, ⟨rfl, rfl, rfl, rfl, trivial⟩, by decide⟩
    · exact fun _ => rfl
    · exact fun _ _ _ _ => rfl
    · exact fun _ => ⟨6, rfl, rfl, ⟨rfl, rfl, trivial⟩, by decide⟩
  exact ⟨allowed, app_fed_exactly allowed⟩

-- The link is lost and opened again while the decoder is about to feed what it took; the server sends it again.
def fedTwice : List Op :=
  shown ++ [.take, .gather, .drop, .openLink true, .linked, .feed (.bytes 4 [4, 5]), .give, .settle, .take, .gather, .give]

-- The same bytes are given to the app twice.
theorem reopened_feeds_twice : AllAllowed World.step (Sends counting) (World.start .all) fedTwice ∧
    ¬FedExactly counting (run World.step (World.start .all) fedTwice) := by
  constructor
  · refine ⟨trivial, trivial, trivial, trivial, trivial, trivial, trivial, ?_, trivial, trivial, trivial, trivial, trivial, ?_,
      trivial, trivial, trivial, trivial, trivial, trivial⟩
    · exact fun _ => ⟨4, rfl, rfl, ⟨rfl, rfl, rfl, rfl, trivial⟩, by decide⟩
    · exact fun _ => ⟨4, rfl, rfl, ⟨rfl, rfl, rfl, rfl, trivial⟩, by decide⟩
  · intro exactly
    obtain ⟨-, follows⟩ := exactly.fed ⟨1, true, 0, 4⟩ rfl
    obtain ⟨-, -, -, -, again, -⟩ : Follows counting 4
        [.byte 4 4, .byte 5 5, .byte 4 4, .byte 5 5] := follows
    cases again

end Runs

end Kido.Embedded
