import Kido.Embed.Sound

set_option autoImplicit false

namespace Kido.Embedded

open Kido.Shared Kido.Mirrors Kido.Framing

variable {stream : Nat → UInt8}

namespace SoundWith

variable {world : World} {queued : Option Job} {feeds : List Feed}

theorem takesSnapshot {job : Job} {view : View} (sound : SoundWith stream world (some job) feeds)
    (work : view.work = feeds.map .feed) (generation : view.generation = world.view.generation)
    (resume : view.resume = world.view.resume) (skipping : view.skipping = false) (closed : view.closed = world.view.closed) :
    SoundWith stream { world with view := view, decoder := .restoring job, app := ⟨some (job, none), []⟩ } none feeds := by
  obtain ⟨latest, forgotten, current, -⟩ := sound.queue job rfl
  constructor
  case work => exact work
  case bound => exact sound.bound
  case held => trivial
  case queue => rintro _ ⟨⟩
  case running =>
    rintro _ ⟨⟩
    exact ⟨rfl, resume.trans forgotten⟩
  case returned => rintro _ _ ⟨⟩
  case grown =>
    dsimp only
    rw [generation]
    exact sound.grown
  case known =>
    rintro _ _ ⟨⟩
    exact ⟨job, latest, .inl rfl⟩
  case line => exact sound.line
  case fed => rintro _ ⟨⟩
  case place =>
    intro offset here
    obtain ⟨other, same, stands, standing⟩ := sound.place offset here
    cases latest.symm.trans same
    refine ⟨job, latest, stands, .inr (.inl ⟨rfl, rfl, ?_, ?_⟩)⟩
    · exact current.trans generation.symm
    · rcases standing with ⟨-, line⟩ | ⟨⟨⟩, -⟩ | ⟨⟨⟩, -⟩ | ⟨⟨⟩, -⟩
      exact line
  case clear => exact fun _ => skipping
  case current =>
    intro _ _ _
    cases silent : world.announced with
    | some _ => rfl
    | none =>
      have none_ := sound.silent silent
      rw [sound.work] at none_
      cases none_
  case resume =>
    intro _ offset here
    exact absurd ((resume.trans forgotten).symm.trans here) (by simp)
  case skip =>
    intro skips
    exact absurd (skipping.symm.trans skips) Bool.false_ne_true
  case failed =>
    intro _
    exact ⟨rfl, .inr (.inr ⟨rfl, .inl ⟨job, rfl, current.trans generation.symm⟩⟩)⟩
  case unlinked => exact sound.unlinked
  case silent =>
    intro silent
    have none_ := sound.silent silent
    rw [sound.work] at none_
    cases none_
  case shut =>
    dsimp only
    rw [closed]
    exact sound.shut
  case opened => exact sound.opened

theorem takesFeed {feed : Feed} {view : View} (sound : SoundWith stream world none (feed :: feeds)) (idle : world.decoder = .idle)
    (open_ : world.view.closed = false)
    (work : view.work = feeds.map .feed) (generation : view.generation = world.view.generation)
    (resume : view.resume = world.view.resume) (skipping : view.skipping = world.view.skipping)
    (closed : view.closed = world.view.closed) :
    SoundWith stream { world with view := view, decoder := .took feed } none feeds := by
  constructor
  case work => exact work
  case bound => exact fun other member => sound.bound other (List.mem_cons_of_mem _ member)
  case held => exact sound.bound feed List.mem_cons_self
  case queue => rintro _ ⟨⟩
  case running => rintro _ ⟨⟩
  case returned => rintro _ _ ⟨⟩
  case grown =>
    dsimp only
    rw [generation]
    exact sound.grown
  case known => exact sound.known
  case line => exact sound.line
  case fed =>
    intro job last
    obtain ⟨place, here⟩ : ∃ place, world.announced = some place := by
      refine Option.ne_none_iff_exists'.1 fun silent => ?_
      have none_ := sound.silent silent
      rw [sound.work] at none_
      cases none_
    obtain ⟨latest, same, -, standing⟩ := sound.place place here
    rcases standing with ⟨⟨⟩, -⟩ | ⟨-, restores, -⟩ | ⟨-, -, shown, line⟩ | ⟨-, -, skips⟩
    · rw [idle] at restores
      cases restores
    · have equal : some (job, some Restored.ok) = some (latest, some .ok) := last.symm.trans shown
      cases equal
      rw [idle] at line
      have whole : givenPieces world.app.given ++ feed.pieces ++ linePieces feeds = world.lines job.generation := by
        rw [← line]
        simp [Decoder.hand]
      refine ⟨⟨linePieces feeds, whole⟩, ?_⟩
      have follows := sound.line job same
      rw [← whole] at follows
      exact follows.left
    · exact absurd last ((sound.skip skips).2.2 job)
  case place =>
    intro offset here
    obtain ⟨latest, same, stands, standing⟩ := sound.place offset here
    refine ⟨latest, same, stands, ?_⟩
    rcases standing with ⟨⟨⟩, -⟩ | ⟨-, restores, -⟩ | ⟨-, -, last, line⟩ | ⟨-, -, skips⟩
    · rw [idle] at restores
      cases restores
    · refine .inr (.inr (.inl ⟨rfl, rfl, last, ?_⟩))
      rw [idle] at line
      rw [← line]
      simp [Decoder.hand]
    · exact .inr (.inr (.inr ⟨rfl, rfl, skipping.trans skips⟩))
  case clear => rintro ⟨⟩
  case current => rintro _ ⟨⟩
  case resume =>
    dsimp only
    rw [resume]
    intro _ offset here
    obtain ⟨job, latest, last, history, ends, -⟩ := sound.resume open_ offset here
    rw [idle] at ends
    exact ⟨job, latest, last, history, ends, fun _ _ passed => by cases passed⟩
  case skip =>
    dsimp only
    rw [resume, skipping]
    exact sound.skip
  case failed =>
    intro failed
    obtain ⟨given, why⟩ := sound.failed failed
    refine ⟨given, .inl (skipping.trans ?_)⟩
    rcases why with skips | shut | ⟨-, ⟨job, restores, -⟩ | ⟨⟨⟩⟩ | ⟨⟨⟩⟩⟩
    · exact skips
    · exact absurd (open_.symm.trans shut) Bool.false_ne_true
    · rw [idle] at restores
      cases restores
  case unlinked => exact sound.unlinked
  case silent =>
    intro silent
    have none_ := sound.silent silent
    rw [sound.work] at none_
    cases none_
  case shut =>
    dsimp only
    rw [closed]
    exact sound.shut
  case opened => exact sound.opened

theorem whole {job : Job} (sound : SoundWith stream world none feeds) (free : world.decoder.job = none)
    (last : world.app.last = some (job, some .ok)) : feeds = [] ∨
      world.latest = some job ∧
        givenPieces world.app.given ++ world.decoder.hand ++ linePieces feeds = world.lines job.generation := by
  cases here : world.announced with
  | none =>
    have none_ := sound.silent here
    rw [sound.work] at none_
    exact .inl (List.map_eq_nil_iff.1 none_)
  | some place =>
    obtain ⟨latest, same, -, standing⟩ := sound.place place here
    rcases standing with ⟨⟨⟩, -⟩ | ⟨-, restores, -⟩ | ⟨-, -, shown, line⟩ | ⟨-, -, skips⟩
    · rw [free] at restores
      cases restores
    · have equal : some (job, some Restored.ok) = some (latest, some .ok) := last.symm.trans shown
      cases equal
      exact .inr ⟨same, line⟩
    · exact absurd last ((sound.skip skips).2.2 job)

theorem gathers {view : View} {before : Feed} {after : Decoder} {left : List Feed} (sound : SoundWith stream world queued feeds)
    (took : world.decoder = .took before) (work : view.work = (queued.map Work.snapshot).toList ++ left.map .feed)
    (members : ∀ feed ∈ left, feed ∈ feeds)
    (hand : before.pieces ++ linePieces feeds = after.hand ++ linePieces left)
    (same : queued.isSome = true ∨ feeds = [] → after.hand = before.pieces ∧ left = feeds)
    (bounded : after.bounded) (free : after.job = none) (early : after.late = 0)
    (unpassed : ∀ feed data, after ≠ .passed feed data) (silent : feeds = [] → left = [])
    (generation : view.generation = world.view.generation) (resume : view.resume = world.view.resume)
    (skipping : view.skipping = world.view.skipping) (closed : view.closed = world.view.closed) :
    SoundWith stream { world with view := view, decoder := after } queued left := by
  have restores (job : Job) (result : Restored) : after ≠ .restoring job ∧ after ≠ .returned job result :=
    ⟨(fun other => by rw [other] at free; cases free), (fun other => by rw [other] at free; cases free)⟩
  have unjob : world.decoder.job = none := by rw [took]; rfl
  constructor
  case work => exact work
  case bound => exact fun feed member => sound.bound feed (members feed member)
  case held => exact bounded
  case queue =>
    dsimp only
    rw [resume, generation]
    exact sound.queue
  case running => exact fun job here => absurd here (restores job .ok).1
  case returned => exact fun job result here => absurd here (restores job result).2
  case grown =>
    dsimp only
    rw [generation]
    exact sound.grown
  case known => exact sound.known
  case line => exact sound.line
  case fed =>
    intro job last
    have kept := sound.fed job last
    rw [took] at kept
    cases queue : queued with
    | some other =>
      dsimp only
      rw [(same (.inl (by rw [queue]; rfl))).1]
      exact kept
    | none =>
      subst queue
      rcases sound.whole unjob last with none_ | ⟨latest, line⟩
      · dsimp only
        rw [(same (.inr none_)).1]
        exact kept
      · rw [took] at line
        have all : givenPieces world.app.given ++ after.hand ++ linePieces left = world.lines job.generation := by
          rw [List.append_assoc, ← hand, ← List.append_assoc]
          exact line
        refine ⟨⟨linePieces left, all⟩, ?_⟩
        have follows := sound.line job latest
        rw [← all] at follows
        exact follows.left
  case place =>
    intro offset here
    obtain ⟨latest, there, stands, standing⟩ := sound.place offset here
    refine ⟨latest, there, stands, ?_⟩
    rcases standing with ⟨some_, line⟩ | ⟨-, busy, -⟩ | ⟨none_, -, last, line⟩ | ⟨none_, -, skips⟩
    · refine .inl ⟨some_, ?_⟩
      rw [(same (.inl (by rw [some_]; rfl))).2]
      exact line
    · rw [unjob] at busy
      cases busy
    · refine .inr (.inr (.inl ⟨none_, free, last, ?_⟩))
      rw [took] at line
      dsimp only
      rw [List.append_assoc, ← hand, ← List.append_assoc]
      exact line
    · exact .inr (.inr (.inr ⟨none_, free, skipping.trans skips⟩))
  case clear =>
    intro busy
    dsimp only at busy
    rw [free] at busy
    cases busy
  case current =>
    intro job busy
    exact absurd (free.symm.trans busy) (by simp)
  case resume =>
    dsimp only
    rw [resume, closed]
    intro open_ offset here
    obtain ⟨job, latest, last, history, ends, -⟩ := sound.resume open_ offset here
    rw [took] at ends
    exact ⟨job, latest, last, history, by rw [early]; exact ends, fun feed data passed => absurd passed (unpassed feed data)⟩
  case skip =>
    dsimp only
    rw [resume, skipping]
    exact sound.skip
  case failed =>
    intro failed
    obtain ⟨given, why⟩ := sound.failed failed
    refine ⟨given, ?_⟩
    dsimp only
    rw [skipping, closed]
    rcases why with skips | shut | ⟨decided, -⟩
    · exact .inl skips
    · exact .inr (.inl shut)
    · rw [took] at decided
      cases decided
  case unlinked => exact sound.unlinked
  case silent =>
    intro quiet
    have none_ := sound.silent quiet
    rw [sound.work] at none_
    obtain ⟨first, second⟩ := List.append_eq_nil_iff.1 none_
    refine work.trans ?_
    rw [first, silent (List.map_eq_nil_iff.1 second)]
    rfl
  case shut =>
    dsimp only
    rw [closed]
    exact sound.shut
  case opened => exact sound.opened

theorem gives {feed : Feed} {data : List UInt8} (sound : SoundWith stream world queued feeds)
    (gathered : world.decoder = .gathered feed data) (unskipped : world.view.skipping = false) (open_ : world.view.closed = false) :
    SoundWith stream { world with
      decoder := .passed feed data,
      app := { world.app with given := world.app.given ++ [feed.item data] } } queued feeds := by
  have unjob : world.decoder.job = none := by rw [gathered]; rfl
  have held := sound.held
  rw [gathered] at held
  -- A restore that failed makes the view skip until its link is given up, so the app has restored a snapshot.
  have shown : ∃ job, world.app.last = some (job, some .ok) := by
    refine by_contra fun none_ => ?_
    obtain ⟨-, skips | shut | ⟨decided, -⟩⟩ := sound.failed fun job last => none_ ⟨job, last⟩
    · exact absurd (unskipped.symm.trans skips) Bool.false_ne_true
    · exact absurd (open_.symm.trans shut) Bool.false_ne_true
    · rw [gathered] at decided
      cases decided
  have pieces : givenPieces (world.app.given ++ [feed.item data]) = givenPieces world.app.given ++ world.decoder.hand := by
    rw [givenPieces_snoc, gathered]
    rfl
  constructor
  case work => exact sound.work
  case bound => exact sound.bound
  case held =>
    cases feed <;> exact held
  case queue => exact sound.queue
  case running => rintro _ ⟨⟩
  case returned => rintro _ _ ⟨⟩
  case grown => exact sound.grown
  case known => exact sound.known
  case line => exact sound.line
  case fed =>
    intro job last
    dsimp only [Decoder.hand]
    rw [pieces, List.append_nil]
    exact sound.fed job last
  case place =>
    intro offset here
    obtain ⟨latest, there, stands, standing⟩ := sound.place offset here
    refine ⟨latest, there, stands, ?_⟩
    rcases standing with ⟨some_, line⟩ | ⟨-, busy, -⟩ | ⟨none_, -, last, line⟩ | ⟨none_, -, skips⟩
    · exact .inl ⟨some_, line⟩
    · rw [unjob] at busy
      cases busy
    · refine .inr (.inr (.inl ⟨none_, rfl, last, ?_⟩))
      dsimp only [Decoder.hand]
      rw [pieces, List.append_nil]
      exact line
    · exact absurd (unskipped.symm.trans skips) Bool.false_ne_true
  case clear => rintro ⟨⟩
  case current => rintro _ ⟨⟩
  case resume =>
    intro _ offset here
    obtain ⟨job, latest, last, history, ends, -⟩ := sound.resume open_ offset here
    have follows := (sound.fed job last).2.right
    rw [gathered] at ends follows
    simp only [Decoder.late, Nat.add_zero] at ends
    refine ⟨job, latest, last, history, ?_, ?_⟩
    · dsimp only [Decoder.late]
      rw [pieces, reach_append, ← ends, gathered]
      cases feed with
      | bytes place other => exact (reach_bytePieces _ _ _).symm
      | marker place mark =>
        have none_ : data = [] := held
        subst none_
        cases mark <;> rfl
    · rintro other found ⟨⟩ some_
      dsimp only
      rw [pieces, reach_append, gathered]
      cases feed with
      | bytes place other =>
        have begins : place = reach job.offset (givenPieces world.app.given) := follows.begins some_
        rw [← begins]
        exact (reach_bytePieces _ _ _).symm
      | marker place mark =>
        have none_ : data = [] := held
        subst none_
        cases some_
  case skip => exact sound.skip
  case failed =>
    intro failed
    obtain ⟨job, last⟩ := shown
    exact absurd last (failed job)
  case unlinked => exact sound.unlinked
  case silent => exact sound.silent
  case shut => exact sound.shut
  case opened => exact sound.opened

theorem drops {feed : Feed} {data : List UInt8} (sound : SoundWith stream world queued feeds)
    (gathered : world.decoder = .gathered feed data) (why : world.view.skipping = true ∨ world.view.closed = true) :
    SoundWith stream { world with decoder := .passed feed data } queued feeds := by
  have unjob : world.decoder.job = none := by rw [gathered]; rfl
  have held := sound.held
  rw [gathered] at held
  constructor
  case work => exact sound.work
  case bound => exact sound.bound
  case held =>
    cases feed <;> exact held
  case queue => exact sound.queue
  case running => rintro _ ⟨⟩
  case returned => rintro _ _ ⟨⟩
  case grown => exact sound.grown
  case known => exact sound.known
  case line => exact sound.line
  case fed =>
    intro job last
    obtain ⟨before, follows⟩ := sound.fed job last
    dsimp only [Decoder.hand]
    rw [List.append_nil]
    exact ⟨(List.prefix_append _ _).trans before, follows.left⟩
  case place =>
    intro offset here
    obtain ⟨latest, there, stands, standing⟩ := sound.place offset here
    refine ⟨latest, there, stands, ?_⟩
    rcases standing with ⟨some_, line⟩ | ⟨-, busy, -⟩ | ⟨none_, -, last, -⟩ | ⟨none_, -, skips⟩
    · exact .inl ⟨some_, line⟩
    · rw [unjob] at busy
      cases busy
    · rcases why with skips | shut
      · exact absurd last ((sound.skip skips).2.2 latest)
      · have quiet := sound.unlinked (sound.shut shut)
        rw [here] at quiet
        cases quiet
    · exact .inr (.inr (.inr ⟨none_, rfl, skips⟩))
  case clear => rintro ⟨⟩
  case current => rintro _ ⟨⟩
  case resume =>
    intro open_ offset here
    rcases why with skips | shut
    · rw [(sound.skip skips).1] at here
      cases here
    · exact absurd (open_.symm.trans shut) Bool.false_ne_true
  case skip => exact sound.skip
  case failed =>
    intro failed
    obtain ⟨given, -⟩ := sound.failed failed
    refine ⟨given, ?_⟩
    rcases why with skips | shut
    · exact .inl skips
    · exact .inr (.inl shut)
  case unlinked => exact sound.unlinked
  case silent => exact sound.silent
  case shut => exact sound.shut
  case opened => exact sound.opened

theorem settles {feed : Feed} {data : List UInt8} (sound : SoundWith stream world queued feeds)
    (passed : world.decoder = .passed feed data) :
    SoundWith stream { world with view := world.view.settle feed.offset data.length, decoder := .idle } queued feeds := by
  have unjob : world.decoder.job = none := by rw [passed]; rfl
  have held := sound.held
  rw [passed] at held
  have forgets (none_ : world.view.resume = none) : (world.view.settle feed.offset data.length).resume = none := by
    simp [View.settle, none_]
  constructor
  case work => exact sound.work
  case bound => exact sound.bound
  case held => trivial
  case queue =>
    intro job here
    obtain ⟨latest, none_, rest⟩ := sound.queue job here
    exact ⟨latest, forgets none_, rest⟩
  case running => rintro _ ⟨⟩
  case returned => rintro _ _ ⟨⟩
  case grown => exact sound.grown
  case known => exact sound.known
  case line => exact sound.line
  case fed =>
    intro job last
    have kept := sound.fed job last
    rwa [passed] at kept
  case place =>
    intro offset here
    obtain ⟨latest, there, stands, standing⟩ := sound.place offset here
    refine ⟨latest, there, stands, ?_⟩
    rcases standing with ⟨some_, line⟩ | ⟨-, busy, -⟩ | ⟨none_, -, last, line⟩ | ⟨none_, -, skips⟩
    · exact .inl ⟨some_, line⟩
    · rw [unjob] at busy
      cases busy
    · rw [passed] at line
      exact .inr (.inr (.inl ⟨none_, rfl, last, line⟩))
    · exact .inr (.inr (.inr ⟨none_, rfl, skips⟩))
  case clear => rintro ⟨⟩
  case current => rintro _ ⟨⟩
  case resume =>
    intro open_ offset here
    change (world.view.settle feed.offset data.length).resume = some offset at here
    unfold View.settle at here
    dsimp only at here
    by_cases moves : (!world.view.skipping) = true ∧ 0 < data.length
    · rw [if_pos moves] at here
      obtain ⟨before, was, same⟩ := Option.map_eq_some_iff.1 here
      obtain ⟨job, latest, last, history, -, ends⟩ := sound.resume open_ before was
      have stop := ends feed data passed moves.2
      refine ⟨job, latest, last, history, ?_, fun _ _ other => by cases other⟩
      cases feed with
      | bytes place other =>
        have same : stopOf place data.length = offset := same
        rw [stopOf_eq (held moves.2)] at same
        exact same.symm.trans stop
      | marker place mark =>
        have none_ : data = [] := held
        subst none_
        exact absurd moves.2 (Nat.lt_irrefl 0)
    · rw [if_neg moves] at here
      obtain ⟨job, latest, last, history, ends, -⟩ := sound.resume open_ offset here
      have empty : data.length = 0 := by
        refine Nat.eq_zero_of_not_pos fun some_ => moves ⟨?_, some_⟩
        cases skips : world.view.skipping with
        | false => rfl
        | true => exact absurd last ((sound.skip skips).2.2 job)
      rw [passed] at ends
      simp only [Decoder.late, empty, Nat.add_zero] at ends
      exact ⟨job, latest, last, history, ends, fun _ _ other => by cases other⟩
  case skip =>
    intro skips
    obtain ⟨none_, rest⟩ := sound.skip skips
    exact ⟨forgets none_, rest⟩
  case failed =>
    intro failed
    obtain ⟨given, why⟩ := sound.failed failed
    refine ⟨given, ?_⟩
    rcases why with skips | shut | ⟨-, ⟨job, busy, -⟩ | some_ | none_⟩
    · exact .inl skips
    · exact .inr (.inl shut)
    · rw [unjob] at busy
      cases busy
    · exact .inr (.inr ⟨rfl, .inr (.inl some_)⟩)
    · exact .inr (.inr ⟨rfl, .inr (.inr none_)⟩)
  case unlinked => exact sound.unlinked
  case silent => exact sound.silent
  case shut => exact sound.shut
  case opened => exact sound.opened

theorem returns {job : Job} (sound : SoundWith stream world queued feeds) (restoring : world.decoder = .restoring job)
    (result : Restored) : SoundWith stream { world with
      decoder := .returned job result,
      app := { world.app with last := some (job, some result) } } queued feeds := by
  obtain ⟨app, none_⟩ := sound.running job restoring
  have last : world.app.last = some (job, none) := by rw [app]
  have given : world.app.given = [] := by rw [app]
  have busy : world.decoder.job = some job := by rw [restoring]; rfl
  constructor
  case work => exact sound.work
  case bound => exact sound.bound
  case held => trivial
  case queue =>
    intro other here
    obtain ⟨latest, forgotten, current, older⟩ := sound.queue other here
    refine ⟨latest, forgotten, current, ?_⟩
    rintro _ _ ⟨⟩
    exact older job none last
  case running => rintro _ ⟨⟩
  case returned =>
    rintro _ _ ⟨⟩
    dsimp only
    rw [given]
    exact ⟨rfl, none_⟩
  case grown => exact sound.grown
  case known =>
    rintro _ _ ⟨⟩
    exact sound.known job none last
  case line => exact sound.line
  case fed =>
    intro other _
    dsimp only [Decoder.hand]
    rw [given]
    exact ⟨List.nil_prefix, trivial⟩
  case place =>
    intro offset here
    obtain ⟨latest, there, stands, standing⟩ := sound.place offset here
    refine ⟨latest, there, stands, ?_⟩
    rcases standing with ⟨some_, line⟩ | ⟨free, restores, current, line⟩ | ⟨-, idle, -⟩ | ⟨-, idle, -⟩
    · exact .inl ⟨some_, line⟩
    · rw [busy] at restores
      exact .inr (.inl ⟨free, restores, current, line⟩)
    · rw [busy] at idle
      cases idle
    · rw [busy] at idle
      cases idle
  case clear => exact fun _ => sound.clear (by rw [busy]; rfl)
  case current =>
    rintro _ ⟨⟩ current
    exact sound.current job busy current
  case resume =>
    intro _ offset here
    exact absurd (none_.symm.trans here) (by simp)
  case skip =>
    intro skips
    exact absurd ((sound.clear (by rw [busy]; rfl)).symm.trans skips) Bool.false_ne_true
  case failed =>
    intro _
    obtain ⟨-, why⟩ := sound.failed fun other shown => by rw [last] at shown; cases shown
    refine ⟨given, ?_⟩
    rcases why with skips | shut | ⟨-, ⟨other, restores, current⟩ | rest⟩
    · exact .inl skips
    · exact .inr (.inl shut)
    · rw [busy] at restores
      cases restores
      exact .inr (.inr ⟨rfl, .inl ⟨job, rfl, current⟩⟩)
    · exact .inr (.inr ⟨rfl, .inr rest⟩)
  case unlinked => exact sound.unlinked
  case silent => exact sound.silent
  case shut => exact sound.shut
  case opened => exact sound.opened

theorem outdated {job : Job} {result : Restored} (sound : SoundWith stream world queued feeds)
    (returned : world.decoder = .returned job result) (late : world.view.generation ≠ job.generation ∨ world.view.closed = true) :
    SoundWith stream { world with decoder := .idle } queued feeds := by
  obtain ⟨app, none_⟩ := sound.returned job result returned
  have given : world.app.given = [] := by rw [app]
  have busy : world.decoder.job = some job := by rw [returned]; rfl
  constructor
  case work => exact sound.work
  case bound => exact sound.bound
  case held => trivial
  case queue => exact sound.queue
  case running => rintro _ ⟨⟩
  case returned => rintro _ _ ⟨⟩
  case grown => exact sound.grown
  case known => exact sound.known
  case line => exact sound.line
  case fed =>
    intro other _
    dsimp only [Decoder.hand]
    rw [given]
    exact ⟨List.nil_prefix, trivial⟩
  case place =>
    intro offset here
    obtain ⟨latest, there, stands, standing⟩ := sound.place offset here
    refine ⟨latest, there, stands, ?_⟩
    rcases standing with ⟨some_, line⟩ | ⟨-, restores, current, -⟩ | ⟨-, idle, -⟩ | ⟨-, idle, -⟩
    · exact .inl ⟨some_, line⟩
    · rw [busy] at restores
      cases restores
      rcases late with other | shut
      · exact absurd current.symm other
      · have quiet := sound.unlinked (sound.shut shut)
        rw [here] at quiet
        cases quiet
    · rw [busy] at idle
      cases idle
    · rw [busy] at idle
      cases idle
  case clear => rintro ⟨⟩
  case current => rintro _ ⟨⟩
  case resume =>
    intro _ offset here
    exact absurd (none_.symm.trans here) (by simp)
  case skip => exact sound.skip
  case failed =>
    intro failed
    obtain ⟨-, why⟩ := sound.failed failed
    refine ⟨given, ?_⟩
    rcases why with skips | shut | ⟨-, ⟨other, restores, current⟩ | rest⟩
    · exact .inl skips
    · exact .inr (.inl shut)
    · rw [busy] at restores
      cases restores
      rcases late with other | shut
      · exact absurd current.symm other
      · exact .inr (.inl shut)
    · exact .inr (.inr ⟨rfl, .inr rest⟩)
  case unlinked => exact sound.unlinked
  case silent => exact sound.silent
  case shut => exact sound.shut
  case opened => exact sound.opened

theorem concludes {job : Job} {result : Restored} {view : View} (sound : SoundWith stream world queued feeds)
    (returned : world.decoder = .returned job result) (current : world.view.generation = job.generation)
    (work : view.work = world.view.work) (generation : view.generation = world.view.generation)
    (resume : view.resume = if result = .ok ∧ job.history then some job.offset else none)
    (skipping : view.skipping = decide (result ≠ .ok)) (closed : view.closed = world.view.closed) :
    SoundWith stream { world with view := view, decoder := .idle } none feeds := by
  obtain ⟨app, none_⟩ := sound.returned job result returned
  have given : world.app.given = [] := by rw [app]
  have last : world.app.last = some (job, some result) := by rw [app]
  have busy : world.decoder.job = some job := by rw [returned]; rfl
  have announced : world.announced.isSome = true := sound.current job busy current.symm
  have unqueued : queued = none := by
    cases queue : queued with
    | none => rfl
    | some other =>
      obtain ⟨-, -, same, older⟩ := sound.queue other queue
      have order := older job (some result) last
      omega
  subst unqueued
  have latest : world.latest = some job := by
    obtain ⟨latest, here, order⟩ := sound.known job (some result) last
    rcases order with rfl | before
    · exact here
    · have bound := sound.grown latest here
      omega
  constructor
  case work => exact work.trans sound.work
  case bound => exact sound.bound
  case held => trivial
  case queue => rintro _ ⟨⟩
  case running => rintro _ ⟨⟩
  case returned => rintro _ _ ⟨⟩
  case grown =>
    dsimp only
    rw [generation]
    exact sound.grown
  case known => exact sound.known
  case line => exact sound.line
  case fed =>
    intro other _
    dsimp only [Decoder.hand]
    rw [given]
    exact ⟨List.nil_prefix, trivial⟩
  case place =>
    intro offset here
    obtain ⟨other, there, stands, standing⟩ := sound.place offset here
    cases latest.symm.trans there
    refine ⟨job, latest, stands, ?_⟩
    rcases standing with ⟨⟨⟩, -⟩ | ⟨-, -, -, line⟩ | ⟨-, idle, -⟩ | ⟨-, idle, -⟩
    · by_cases ok : result = .ok
      · subst ok
        refine .inr (.inr (.inl ⟨rfl, rfl, last, ?_⟩))
        dsimp only [Decoder.hand]
        rw [given]
        exact line
      · exact .inr (.inr (.inr ⟨rfl, rfl, skipping.trans (decide_eq_true ok)⟩))
    · rw [busy] at idle
      cases idle
    · rw [busy] at idle
      cases idle
  case clear => rintro ⟨⟩
  case current => rintro _ ⟨⟩
  case resume =>
    intro _ offset here
    change view.resume = some offset at here
    rw [resume] at here
    by_cases ok : result = .ok ∧ job.history = true
    · rw [if_pos ok] at here
      cases here
      obtain ⟨rfl, history⟩ := ok
      refine ⟨job, latest, last, history, ?_, fun _ _ passed => by cases passed⟩
      dsimp only [Decoder.late]
      rw [given]
      rfl
    · rw [if_neg ok] at here
      cases here
  case skip =>
    intro skips
    have failed : result ≠ .ok := of_decide_eq_true (skipping.symm.trans skips)
    refine ⟨resume.trans (if_neg fun ok => failed ok.1), ?_, fun other shown => ?_⟩
    · cases bare : world.conn with
      | some _ => rfl
      | none =>
        rw [sound.unlinked bare] at announced
        cases announced
    · have shown : world.app.last = some (other, some .ok) := shown
      rw [last] at shown
      cases shown
      exact failed rfl
  case failed =>
    intro failed
    refine ⟨given, .inl (skipping.trans (decide_eq_true fun ok => ?_))⟩
    subst ok
    exact failed job last
  case unlinked => exact sound.unlinked
  case silent =>
    dsimp only
    rw [work]
    exact sound.silent
  case shut =>
    dsimp only
    rw [closed]
    exact sound.shut
  case opened => exact sound.opened

end SoundWith

end Kido.Embedded
