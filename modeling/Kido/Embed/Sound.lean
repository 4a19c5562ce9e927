import Kido.Embed.World

set_option autoImplicit false

namespace Kido.Embedded

open Kido.Shared Kido.Mirrors Kido.Framing

variable {stream : Nat → UInt8}

theorem bytePieces_append (offset : Nat) (first second : List UInt8) :
    bytePieces offset (first ++ second) = bytePieces offset first ++ bytePieces (offset + first.length) second := by
  induction first generalizing offset with
  | nil => rfl
  | cons value rest ih =>
    rw [List.cons_append, bytePieces, bytePieces, ih, List.length_cons, List.cons_append, Nat.add_assoc, Nat.add_comm 1]

theorem reach_append (place : Nat) (first second : List Piece) :
    reach place (first ++ second) = reach (reach place first) second := by
  induction first generalizing place with
  | nil => rfl
  | cons piece rest ih => cases piece <;> exact ih _

theorem reach_bytePieces (place offset : Nat) (data : List UInt8) : reach place (bytePieces offset data) = place + data.length := by
  induction data generalizing place offset with
  | nil => rfl
  | cons value rest ih =>
    rw [bytePieces, reach, ih, List.length_cons]
    omega

theorem Follows.append {place : Nat} {first second : List Piece} (follows : Follows stream place first)
    (rest : Follows stream (reach place first) second) : Follows stream place (first ++ second) := by
  induction first generalizing place with
  | nil => exact rest
  | cons piece tail ih =>
    cases piece with
    | byte offset value => exact ⟨follows.1, follows.2.1, ih follows.2.2 rest⟩
    | marker item => exact @ih place follows rest

theorem Follows.left {place : Nat} {first second : List Piece} (follows : Follows stream place (first ++ second)) :
    Follows stream place first := by
  induction first generalizing place with
  | nil => trivial
  | cons piece tail ih =>
    cases piece with
    | byte offset value => exact ⟨follows.1, follows.2.1, ih follows.2.2⟩
    | marker item => exact @ih place follows

theorem Follows.right {place : Nat} {first second : List Piece} (follows : Follows stream place (first ++ second)) :
    Follows stream (reach place first) second := by
  induction first generalizing place with
  | nil => exact follows
  | cons piece tail ih =>
    cases piece with
    | byte offset value => exact ih follows.2.2
    | marker item => exact @ih place follows

theorem Follows.begins {place offset : Nat} {data : List UInt8} (follows : Follows stream place (bytePieces offset data))
    (some_ : 0 < data.length) : offset = place := by
  cases data with
  | nil => cases some_
  | cons value rest => exact follows.1

def linePieces (feeds : List Feed) : List Piece := feeds.flatMap Feed.pieces

def givenPieces (items : List FeedItem) : List Piece := items.flatMap FeedItem.pieces

@[simp]
theorem linePieces_nil : linePieces [] = [] := rfl

@[simp]
theorem givenPieces_nil : givenPieces [] = [] := rfl

@[simp]
theorem linePieces_cons (feed : Feed) (rest : List Feed) : linePieces (feed :: rest) = feed.pieces ++ linePieces rest := rfl

@[simp]
theorem linePieces_snoc (feeds : List Feed) (feed : Feed) : linePieces (feeds ++ [feed]) = linePieces feeds ++ feed.pieces := by
  simp [linePieces, List.flatMap_append]

@[simp]
theorem givenPieces_snoc (items : List FeedItem) (item : FeedItem) :
    givenPieces (items ++ [item]) = givenPieces items ++ item.pieces := by
  simp [givenPieces, List.flatMap_append]

def Feed.bounded : Feed → Prop
  | .bytes offset data => offset + data.length < u64
  | .marker _ _ => True

def Decoder.hand : Decoder → List Piece
  | .took feed => feed.pieces
  | .gathered feed data => (feed.item data).pieces
  | _ => []

def Decoder.late : Decoder → Nat
  | .passed _ data => data.length
  | _ => 0

def Decoder.job : Decoder → Option Job
  | .restoring job | .returned job _ => some job
  | _ => none

def Decoder.bounded : Decoder → Prop
  | .took feed => feed.bounded
  | .gathered (.bytes offset _) data | .passed (.bytes offset _) data => 0 < data.length → offset + data.length < u64
  | .gathered (.marker _ _) data | .passed (.marker _ _) data => data = []
  | _ => True

theorem stopOf_eq {offset count : Nat} (bound : offset + count < u64) : stopOf offset count = offset + count := by
  unfold stopOf
  omega

theorem Feed.item_marker (offset : Nat) (mark : Marker) :
    (Feed.item [] (.marker offset mark)).pieces = (Feed.marker offset mark).pieces := by
  cases mark <;> rfl

theorem gather_feeds {stop count : Nat} {feeds : List Feed} {more : List UInt8} {rest : List Work}
    (bound : ∀ feed ∈ feeds, feed.bounded) (gathered : View.gather stop count (feeds.map .feed) = (more, rest)) :
    ∃ left, rest = left.map .feed ∧ (∀ feed ∈ left, feed ∈ feeds) ∧
      linePieces feeds = bytePieces stop more ++ linePieces left ∧ (more ≠ [] → stop + more.length < u64) := by
  induction feeds generalizing stop count more rest with
  | nil =>
    cases gathered
    exact ⟨[], rfl, fun _ member => member, rfl, fun some_ => absurd rfl some_⟩
  | cons feed tail ih =>
    have same (none_ : ([], (feed :: tail).map Work.feed) = (more, rest)) :
        ∃ left, rest = left.map .feed ∧ (∀ other ∈ left, other ∈ feed :: tail) ∧
          linePieces (feed :: tail) = bytePieces stop more ++ linePieces left ∧ (more ≠ [] → stop + more.length < u64) := by
      cases none_
      exact ⟨feed :: tail, rfl, fun _ member => member, rfl, fun some_ => absurd rfl some_⟩
    cases feed with
    | marker offset mark => exact same gathered
    | bytes next data =>
      rw [List.map_cons, View.gather] at gathered
      by_cases ends : next ≠ stop ∨ feedBatch < count + data.length
      · rw [if_pos ends] at gathered
        exact same gathered
      · rw [if_neg ends] at gathered
        have here : next = stop := Decidable.not_not.1 fun other => ends (.inl other)
        subst here
        have fits : next + data.length < u64 := bound _ List.mem_cons_self
        rcases deeper : View.gather (stopOf next data.length) (count + data.length) (tail.map .feed) with ⟨found, left_⟩
        rw [deeper] at gathered
        cases gathered
        rw [stopOf_eq fits] at deeper
        obtain ⟨left, rfl, members, pieces, limit⟩ := ih (fun other member => bound other (List.mem_cons_of_mem _ member)) deeper
        refine ⟨left, rfl, fun other member => List.mem_cons_of_mem _ (members other member), ?_, fun _ => ?_⟩
        · rw [linePieces_cons, pieces, bytePieces_append, List.append_assoc]
          rfl
        · rw [List.length_append]
          cases found with
          | nil => simpa using fits
          | cons value others =>
            have deep := limit (by simp)
            omega

theorem gather_snapshot (stop count : Nat) (job : Job) (rest : List Work) :
    View.gather stop count (.snapshot job :: rest) = ([], .snapshot job :: rest) := rfl

end Kido.Embedded

namespace Kido.Embedded

open Kido.Shared Kido.Mirrors Kido.Framing

variable {stream : Nat → UInt8}

-- Where what came after the last snapshot is: behind the snapshot in the queue, behind the restore of it, or with the app and
-- on the way there. While the view skips, it is dropped.
def Standing (world : World) (queued : Option Job) (feeds : List Feed) (latest : Job) : Prop :=
  (queued = some latest ∧ linePieces feeds = world.lines latest.generation) ∨
    (queued = none ∧ world.decoder.job = some latest ∧ latest.generation = world.view.generation ∧
      linePieces feeds = world.lines latest.generation) ∨
    (queued = none ∧ world.decoder.job = none ∧ world.app.last = some (latest, some .ok) ∧
      givenPieces world.app.given ++ world.decoder.hand ++ linePieces feeds = world.lines latest.generation) ∨
    (queued = none ∧ world.decoder.job = none ∧ world.view.skipping = true)

-- The app has, of the pane's stream, the last snapshot and what follows it up to an offset, and is to get nothing else.
def Opening.Right (stream : Nat → UInt8) (opening : Opening) : Prop :=
  opening.coming = [] ∧ ∃ job, opening.app.last = some (job, some .ok) ∧ job.history = true ∧
    Follows stream job.offset (givenPieces opening.app.given) ∧
    reach job.offset (givenPieces opening.app.given) = opening.offset

structure SoundWith (stream : Nat → UInt8) (world : World) (queued : Option Job) (feeds : List Feed) : Prop where
  work : world.view.work = (queued.map Work.snapshot).toList ++ feeds.map .feed
  bound : ∀ feed ∈ feeds, feed.bounded
  held : world.decoder.bounded
  queue : ∀ job, queued = some job → world.latest = some job ∧ world.view.resume = none ∧
    job.generation = world.view.generation ∧
    ∀ other result, world.app.last = some (other, result) → other.generation < job.generation
  running : ∀ job, world.decoder = .restoring job → world.app = ⟨some (job, none), []⟩ ∧ world.view.resume = none
  returned : ∀ job result, world.decoder = .returned job result → world.app = ⟨some (job, some result), []⟩ ∧
    world.view.resume = none
  grown : ∀ latest, world.latest = some latest → latest.generation ≤ world.view.generation
  known : ∀ job result, world.app.last = some (job, result) → ∃ latest, world.latest = some latest ∧
    (job = latest ∨ job.generation < latest.generation)
  line : ∀ latest, world.latest = some latest → Follows stream latest.offset (world.lines latest.generation)
  fed : ∀ job, world.app.last = some (job, some .ok) →
    givenPieces world.app.given ++ world.decoder.hand <+: world.lines job.generation ∧
      Follows stream job.offset (givenPieces world.app.given ++ world.decoder.hand)
  place : ∀ offset, world.announced = some offset → ∃ latest, world.latest = some latest ∧
    offset = reach latest.offset (world.lines latest.generation) ∧ Standing world queued feeds latest
  clear : world.decoder.job.isSome = true → world.view.skipping = false
  current : ∀ job, world.decoder.job = some job → job.generation = world.view.generation → world.announced.isSome = true
  resume : world.view.closed = false → ∀ offset, world.view.resume = some offset → ∃ job, world.latest = some job ∧
    world.app.last = some (job, some .ok) ∧ job.history = true ∧
    offset + world.decoder.late = reach job.offset (givenPieces world.app.given) ∧
    ∀ feed data, world.decoder = .passed feed data → 0 < data.length →
      feed.offset + data.length = reach job.offset (givenPieces world.app.given)
  skip : world.view.skipping = true → world.view.resume = none ∧ world.conn.isSome = true ∧
    ∀ job, world.app.last ≠ some (job, some .ok)
  failed : (∀ job, world.app.last ≠ some (job, some .ok)) → world.app.given = [] ∧
    (world.view.skipping = true ∨ world.view.closed = true ∨
      world.decoder.undecided = false ∧
        ((∃ job, world.decoder.job = some job ∧ job.generation = world.view.generation) ∨ queued.isSome = true ∨ feeds = []))
  unlinked : world.conn = none → world.announced = none
  silent : world.announced = none → world.view.work = []
  shut : world.view.closed = true → world.conn = none
  opened : ∀ opening ∈ world.openings, opening.Right stream

def World.Sound (stream : Nat → UInt8) (world : World) : Prop := ∃ queued feeds, SoundWith stream world queued feeds

namespace World

variable {world : World}

theorem start_sound (options : History) : (start options).Sound stream := by
  refine ⟨none, [], ?_⟩
  constructor
  case work => rfl
  case bound =>
    intro _ member
    cases member
  case held => trivial
  case failed => exact fun _ => ⟨rfl, .inr (.inr ⟨rfl, .inr (.inr rfl)⟩)⟩
  case unlinked => exact fun _ => rfl
  case silent => exact fun _ => rfl
  case opened =>
    intro _ member
    cases member
  all_goals
    intros
    contradiction

end World

namespace SoundWith

variable {world : World} {queued : Option Job} {feeds : List Feed}

theorem bounded (sound : SoundWith stream world queued feeds) {job : Job} (restores : world.decoder.job = some job) :
    job.generation ≤ world.view.generation := by
  have last : ∃ result, world.app.last = some (job, result) := by
    cases decoder : world.decoder with
    | idle | took | gathered | passed =>
      rw [decoder] at restores
      cases restores
    | restoring other =>
      rw [decoder] at restores
      cases restores
      exact ⟨none, by rw [(sound.running job decoder).1]⟩
    | returned other result =>
      rw [decoder] at restores
      cases restores
      exact ⟨some result, by rw [(sound.returned job result decoder).1]⟩
  obtain ⟨result, last⟩ := last
  obtain ⟨latest, here, order⟩ := sound.known job result last
  have bound := sound.grown latest here
  rcases order with rfl | before <;> omega

theorem withView {view : View} (sound : SoundWith stream world queued feeds) (work : view.work = world.view.work)
    (generation : view.generation = world.view.generation) (resume : view.resume = world.view.resume)
    (skipping : view.skipping = world.view.skipping) (closed : view.closed = world.view.closed) :
    SoundWith stream { world with view := view } queued feeds := by
  constructor
  case work => exact work.trans sound.work
  case bound => exact sound.bound
  case held => exact sound.held
  case queue =>
    dsimp only
    rw [resume, generation]
    exact sound.queue
  case running =>
    dsimp only
    rw [resume]
    exact sound.running
  case returned =>
    dsimp only
    rw [resume]
    exact sound.returned
  case grown =>
    dsimp only
    rw [generation]
    exact sound.grown
  case known => exact sound.known
  case line => exact sound.line
  case fed => exact sound.fed
  case place =>
    unfold Standing
    dsimp only
    rw [generation, skipping]
    exact sound.place
  case clear =>
    dsimp only
    rw [skipping]
    exact sound.clear
  case current =>
    dsimp only
    rw [generation]
    exact sound.current
  case resume =>
    dsimp only
    rw [resume, closed]
    exact sound.resume
  case skip =>
    dsimp only
    rw [resume, skipping]
    exact sound.skip
  case failed =>
    dsimp only
    rw [skipping, closed, generation]
    exact sound.failed
  case unlinked => exact sound.unlinked
  case silent =>
    dsimp only
    rw [work]
    exact sound.silent
  case shut =>
    dsimp only
    rw [closed]
    exact sound.shut
  case opened => exact sound.opened

theorem abandoned {view : View} {session : Bool} (sound : SoundWith stream world queued feeds)
    (settled : world.view.skipping = true → view.closed = false → world.decoder.undecided = false) (work : view.work = [])
    (generation : view.generation = world.view.generation + 1) (resume : view.resume = world.view.resume)
    (skipping : view.skipping = false) (closed : world.view.closed = true → view.closed = true) :
    SoundWith stream { world with view := view, session := session, conn := none, announced := none } none [] := by
  constructor
  case work => exact work
  case bound =>
    intro _ member
    cases member
  case held => exact sound.held
  case queue => rintro _ ⟨⟩
  case running =>
    dsimp only
    rw [resume]
    exact sound.running
  case returned =>
    dsimp only
    rw [resume]
    exact sound.returned
  case grown =>
    intro latest here
    have bound := sound.grown latest here
    dsimp only
    omega
  case known => exact sound.known
  case line => exact sound.line
  case fed => exact sound.fed
  case place => rintro _ ⟨⟩
  case clear => exact fun _ => skipping
  case current =>
    intro job restores same
    have bound := sound.bounded restores
    dsimp only at same
    omega
  case resume =>
    dsimp only
    rw [resume]
    intro open_
    refine sound.resume ?_
    cases shut : world.view.closed with
    | false => rfl
    | true => exact absurd (open_.symm.trans (closed shut)) Bool.false_ne_true
  case skip =>
    intro skips
    rw [skipping] at skips
    cases skips
  case failed =>
    intro failed
    obtain ⟨given, why⟩ := sound.failed failed
    refine ⟨given, .inr ?_⟩
    cases shut : view.closed with
    | true => exact .inl rfl
    | false =>
      refine .inr ⟨?_, .inr (.inr rfl)⟩
      rcases why with skips | broken | ⟨decided, -⟩
      · exact settled skips shut
      · exact absurd (shut.symm.trans (closed broken)) Bool.false_ne_true
      · exact decided
  case unlinked => exact fun _ => rfl
  case silent => exact fun _ => work
  case shut => exact fun _ => rfl
  case opened => exact sound.opened

theorem linked {conn : Bool} {announced : Option Nat} (sound : SoundWith stream world queued feeds)
    (open_ : world.view.closed = false) (same : world.conn = none ∧ announced = none ∨ announced = world.announced) :
    SoundWith stream { world with conn := some conn, announced := announced } queued feeds := by
  constructor
  case place =>
    intro offset here
    rcases same with ⟨-, rfl⟩ | rfl
    · cases here
    · exact sound.place offset here
  case silent =>
    rcases same with ⟨bare, -⟩ | rfl
    · exact fun _ => sound.silent (sound.unlinked bare)
    · exact sound.silent
  case skip =>
    intro skips
    obtain ⟨none_, -, failed⟩ := sound.skip skips
    exact ⟨none_, rfl, failed⟩
  case unlinked => rintro ⟨⟩
  case shut =>
    intro closed
    exact absurd (open_.symm.trans closed) Bool.false_ne_true
  case work => exact sound.work
  case bound => exact sound.bound
  case held => exact sound.held
  case queue => exact sound.queue
  case running => exact sound.running
  case returned => exact sound.returned
  case grown => exact sound.grown
  case known => exact sound.known
  case line => exact sound.line
  case fed => exact sound.fed
  case clear => exact sound.clear
  case current =>
    intro job restores generation
    have announced_ := sound.current job restores generation
    rcases same with ⟨bare, -⟩ | rfl
    · rw [sound.unlinked bare] at announced_
      cases announced_
    · exact announced_
  case resume => exact sound.resume
  case failed => exact sound.failed
  case opened => exact sound.opened

-- A link is opened at an offset while the decoder has nothing in hand: the app has what ends there, and nothing else comes.
theorem resumed {offset : Nat} (sound : SoundWith stream world queued feeds) (bare : world.conn = none)
    (open_ : world.view.closed = false) (done : world.decoder.holds = []) (resume : world.view.resume = some offset) :
    ∃ job, world.latest = some job ∧
      SoundWith stream (World.withLine { world with
        conn := some false,
        announced := some offset,
        openings := world.openings ++ [⟨offset, world.app, world.decoder.holds ++ feedsOf world.view.work⟩] } job
          (givenPieces world.app.given)) none [] := by
  obtain ⟨job, latest, last, history, ends, -⟩ := sound.resume open_ offset resume
  have work := sound.silent (sound.unlinked bare)
  have free : world.decoder.hand = [] ∧ world.decoder.late = 0 ∧ world.decoder.job = none := by
    cases decoder : world.decoder with
    | idle => exact ⟨rfl, rfl, rfl⟩
    | took | gathered | passed =>
      rw [decoder] at done
      cases done
    | restoring job =>
      have none_ := (sound.running job decoder).2
      rw [resume] at none_
      cases none_
    | returned job result =>
      have none_ := (sound.returned job result decoder).2
      rw [resume] at none_
      cases none_
  obtain ⟨hand, late, unjob⟩ := free
  rw [late, Nat.add_zero] at ends
  have follows := (sound.fed job last).2
  rw [hand, List.append_nil] at follows
  refine ⟨job, latest, ?_⟩
  constructor
  case work => exact work
  case bound =>
    intro _ member
    cases member
  case held => exact sound.held
  case queue => rintro _ ⟨⟩
  case running => exact sound.running
  case returned => exact sound.returned
  case grown => exact sound.grown
  case known => exact sound.known
  case line =>
    intro other here
    cases latest.symm.trans here
    simp only [World.withLine, if_true]
    exact follows
  case fed =>
    intro other here
    have same : some (other, some Restored.ok) = some (job, some .ok) := here.symm.trans last
    cases same
    simp only [World.withLine, if_true]
    rw [hand, List.append_nil]
    exact ⟨List.prefix_rfl, follows⟩
  case place =>
    rintro _ ⟨⟩
    refine ⟨job, latest, ?_, .inr (.inr (.inl ⟨rfl, unjob, last, ?_⟩))⟩
    · simp only [World.withLine, if_true]
      exact ends
    · simp only [World.withLine, if_true]
      rw [hand, linePieces_nil, List.append_nil, List.append_nil]
  case clear => exact sound.clear
  case current => exact fun _ _ _ => rfl
  case resume => exact sound.resume
  case skip =>
    intro skips
    exact absurd last ((sound.skip skips).2.2 job)
  case failed =>
    intro failed
    exact absurd last (failed job)
  case unlinked => rintro ⟨⟩
  case silent => rintro ⟨⟩
  case shut =>
    intro closed
    exact absurd (open_.symm.trans closed) Bool.false_ne_true
  case opened =>
    intro opening member
    rcases List.mem_append.1 member with member | new
    · exact sound.opened opening member
    · cases List.mem_singleton.1 new
      refine ⟨?_, job, last, history, follows, ends.symm⟩
      dsimp only
      rw [done, work]
      rfl

theorem sliced {view : View} {job : Job} {place : Nat} (sound : SoundWith stream world queued feeds) (linked : world.conn.isSome = true)
    (open_ : world.view.closed = false) (work : view.work = [.snapshot job])
    (generation : view.generation = world.view.generation + 1) (same : job.generation = view.generation)
    (resume : view.resume = none) (skipping : view.skipping = world.view.skipping) (closed : view.closed = world.view.closed)
    (begins : job.offset = place) :
    SoundWith stream (World.withLine { world with view := view, announced := some place, latest := some job } job []) (some job) []
      := by
  have older (other : Job) (result : Option Restored) (last : world.app.last = some (other, result)) :
      other.generation < job.generation := by
    obtain ⟨latest, here, order⟩ := sound.known other result last
    have bound := sound.grown latest here
    rcases order with rfl | before <;> omega
  constructor
  case work => exact work
  case bound =>
    intro _ member
    cases member
  case held => exact sound.held
  case queue =>
    rintro _ ⟨⟩
    exact ⟨rfl, resume, same, older⟩
  case running =>
    intro other here
    exact ⟨(sound.running other here).1, resume⟩
  case returned =>
    intro other result here
    exact ⟨(sound.returned other result here).1, resume⟩
  case grown =>
    rintro _ ⟨⟩
    exact Nat.le_of_eq same
  case known =>
    intro other result last
    exact ⟨job, rfl, .inr (older other result last)⟩
  case line =>
    rintro _ ⟨⟩
    simp only [World.withLine, if_true]
    trivial
  case fed =>
    intro other last
    have order := older other _ last
    have kept := sound.fed other last
    simp only [World.withLine]
    rw [if_neg (by omega)]
    exact kept
  case place =>
    rintro _ ⟨⟩
    refine ⟨job, rfl, ?_, .inl ⟨rfl, ?_⟩⟩ <;> simp only [World.withLine, if_true]
    · exact begins.symm
    · rfl
  case clear =>
    simp only [World.withLine]
    rw [skipping]
    exact sound.clear
  case current => exact fun _ _ _ => rfl
  case resume =>
    intro _ offset here
    exact absurd (resume.symm.trans here) (by simp)
  case skip =>
    intro skips
    obtain ⟨-, -, failed⟩ := sound.skip (skipping.symm.trans skips)
    exact ⟨resume, linked, failed⟩
  case failed =>
    intro failed
    obtain ⟨given, why⟩ := sound.failed failed
    refine ⟨given, ?_⟩
    rcases why with skips | shut | ⟨decided, -⟩
    · exact .inl (skipping.trans skips)
    · exact absurd (open_.symm.trans shut) Bool.false_ne_true
    · exact .inr (.inr ⟨decided, .inr (.inl rfl)⟩)
  case unlinked =>
    intro bare
    have none_ : world.conn = none := bare
    rw [none_] at linked
    cases linked
  case silent =>
    intro silent
    simp [World.withLine] at silent
  case shut =>
    intro shut
    exact absurd (open_.symm.trans (closed.symm.trans shut)) Bool.false_ne_true
  case opened => exact sound.opened

theorem fedOn {view : View} {feed : Feed} {place : Nat} {announced : Option Nat} (sound : SoundWith stream world queued feeds)
    (linked : world.conn.isSome = true) (open_ : world.view.closed = false) (here : world.announced = some place)
    (work : view.work = world.view.work ++ [.feed feed]) (generation : view.generation = world.view.generation)
    (resume : view.resume = world.view.resume) (skipping : view.skipping = world.view.skipping)
    (closed : view.closed = world.view.closed) (bounded : feed.bounded) (follows : Follows stream place feed.pieces)
    (moves : announced = some (reach place feed.pieces)) :
    ∃ job, world.latest = some job ∧
      SoundWith stream (World.withLine { world with view := view, announced := announced } job
        (world.lines job.generation ++ feed.pieces)) queued (feeds ++ [feed]) := by
  obtain ⟨job, latest, stands, standing⟩ := sound.place place here
  subst stands
  refine ⟨job, latest, ?_⟩
  constructor
  case work =>
    refine work.trans ?_
    rw [sound.work, List.append_assoc, List.map_append]
    rfl
  case bound =>
    intro other member
    rcases List.mem_append.1 member with member | new
    · exact sound.bound other member
    · cases List.mem_singleton.1 new
      exact bounded
  case held => exact sound.held
  case queue =>
    simp only [World.withLine]
    rw [resume, generation]
    exact sound.queue
  case running =>
    simp only [World.withLine]
    rw [resume]
    exact sound.running
  case returned =>
    simp only [World.withLine]
    rw [resume]
    exact sound.returned
  case grown =>
    simp only [World.withLine]
    rw [generation]
    exact sound.grown
  case known => exact sound.known
  case line =>
    intro other there
    cases latest.symm.trans there
    simp only [World.withLine, if_true]
    exact (sound.line job latest).append follows
  case fed =>
    intro other last
    obtain ⟨before, kept⟩ := sound.fed other last
    refine ⟨?_, kept⟩
    simp only [World.withLine]
    by_cases same : other.generation = job.generation
    · rw [if_pos same, ← same]
      exact before.trans (List.prefix_append _ _)
    · rw [if_neg same]
      exact before
  case place =>
    intro offset moved
    cases moves.symm.trans moved
    refine ⟨job, latest, ?_, ?_⟩
    · simp only [World.withLine, if_true]
      rw [reach_append]
    · unfold Standing at standing ⊢
      simp only [World.withLine, if_true]
      rw [generation, skipping, linePieces_snoc, ← List.append_assoc]
      rcases standing with ⟨some_, same⟩ | ⟨none_, restores, current, same⟩ | ⟨none_, free, last, same⟩ | dropped
      · exact .inl ⟨some_, by rw [same]⟩
      · exact .inr (.inl ⟨none_, restores, current, by rw [same]⟩)
      · exact .inr (.inr (.inl ⟨none_, free, last, by rw [same]⟩))
      · exact .inr (.inr (.inr dropped))
  case clear =>
    simp only [World.withLine]
    rw [skipping]
    exact sound.clear
  case current =>
    intro _ _ _
    simp only [World.withLine]
    rw [moves]
    rfl
  case resume =>
    simp only [World.withLine]
    rw [resume, closed]
    exact sound.resume
  case skip =>
    simp only [World.withLine]
    rw [skipping, resume]
    exact sound.skip
  case failed =>
    intro failed
    obtain ⟨given, why⟩ := sound.failed failed
    refine ⟨given, ?_⟩
    simp only [World.withLine]
    rw [skipping, closed, generation]
    rcases why with skips | shut | ⟨decided, -⟩
    · exact .inl skips
    · exact .inr (.inl shut)
    · rcases standing with ⟨some_, -⟩ | ⟨-, restores, current, -⟩ | ⟨-, -, last, -⟩ | ⟨-, -, skips⟩
      · exact .inr (.inr ⟨decided, .inr (.inl (by rw [some_]; rfl))⟩)
      · exact .inr (.inr ⟨decided, .inl ⟨job, restores, current⟩⟩)
      · exact absurd last (failed job)
      · exact .inl skips
  case unlinked =>
    intro bare
    have none_ : world.conn = none := bare
    rw [none_] at linked
    cases linked
  case silent =>
    intro silent
    simp [World.withLine, moves] at silent
  case shut =>
    intro shut
    exact absurd (open_.symm.trans (closed.symm.trans shut)) Bool.false_ne_true
  case opened => exact sound.opened

end SoundWith

end Kido.Embedded
