import Kido.Sidebar.Notifications

set_option autoImplicit false

namespace Kido.Notifying

open Kido.Shared

-- A post adds or replaces the notice of its key, and a withdraw removes it.
def replay (shown : List Notice) (effects : NotifierEffects) : List Notice :=
  effects.post.foldl (fun shown notice => (shown.filter fun other => decide (other.key ≠ notice.key)) ++ [notice])
    (shown.filter fun notice => decide (notice.key ∉ effects.withdraw))

section Replay

variable {shown : List Notice} {before after : NoticeKey → Option Entry} {effects : NotifierEffects}

-- The notices shown are those of the posted entries, each of its entry's reason.
structure Mirrors (shown : List Notice) (entry : NoticeKey → Option Entry) : Prop where
  single : (shown.map Notice.key).Nodup
  posted : ∀ notice ∈ shown, ∃ reason, entry notice.key = some (.posted reason) ∧ reason.kind = notice.kind
  shows : ∀ key reason, entry key = some (.posted reason) → ∃ notice ∈ shown, notice.key = key ∧ notice.kind = reason.kind

theorem isPosted_iff {entry : Option Entry} : Entry.isPosted entry = true ↔ ∃ reason, entry = some (.posted reason) := by
  match entry with
  | none => exact iff_of_false nofun fun ⟨_, same⟩ => nomatch same
  | some (.posted reason) => exact iff_of_true rfl ⟨reason, rfl⟩
  | some (.acknowledged reason) => exact iff_of_false nofun fun ⟨_, same⟩ => nomatch same

theorem posts_replay (posts : List Notice) (single : (posts.map Notice.key).Nodup) (old : (shown.map Notice.key).Nodup) :
    ((posts.foldl (fun shown notice => (shown.filter fun other => decide (other.key ≠ notice.key)) ++ [notice]) shown).map Notice.key).Nodup ∧
      ∀ notice, notice ∈ posts.foldl (fun shown notice => (shown.filter fun other => decide (other.key ≠ notice.key)) ++ [notice]) shown ↔
        notice ∈ posts ∨ (notice ∈ shown ∧ notice.key ∉ posts.map Notice.key) := by
  induction posts generalizing shown with
  | nil => exact ⟨old, fun notice => by simp⟩
  | cons post rest ih =>
    obtain ⟨apart, single⟩ := List.nodup_cons.1 single
    have next : (((shown.filter fun other => decide (other.key ≠ post.key)) ++ [post]).map Notice.key).Nodup := by
      rw [List.map_append, List.map_singleton]
      refine (old.sublist (List.filter_sublist.map Notice.key)).append (List.nodup_singleton _) fun key inside last => ?_
      rw [List.mem_singleton] at last
      obtain ⟨other, kept, rfl⟩ := List.mem_map.1 inside
      exact of_decide_eq_true (List.mem_filter.1 kept).2 last
    obtain ⟨distinct, inside⟩ := ih single next
    refine ⟨distinct, fun notice => ?_⟩
    rw [List.foldl_cons, inside, List.mem_append, List.mem_filter, List.mem_singleton, decide_eq_true_eq, List.map_cons, List.mem_cons, List.mem_cons]
    constructor
    · rintro (later | ⟨⟨held, other⟩ | rfl, silent⟩)
      · exact .inl (.inr later)
      · exact .inr ⟨held, fun here => here.elim other silent⟩
      · exact .inl (.inl rfl)
    · rintro ((rfl | later) | ⟨held, silent⟩)
      · exact .inr ⟨.inr rfl, apart⟩
      · exact .inl later
      · exact .inr ⟨.inl ⟨held, fun same => silent (.inl same)⟩, fun later => silent (.inr later)⟩

theorem mem_replay (turns : Turns before after effects) (mirrors : Mirrors shown before) :
    ((replay shown effects).map Notice.key).Nodup ∧ ∀ notice, notice ∈ replay shown effects ↔
      notice ∈ effects.post ∨ (notice ∈ shown ∧ notice.key ∉ effects.withdraw ∧ notice.key ∉ effects.post.map Notice.key) := by
  obtain ⟨distinct, inside⟩ := posts_replay effects.post turns.single
    (mirrors.single.sublist ((List.filter_sublist (p := fun notice => decide (notice.key ∉ effects.withdraw))).map Notice.key))
  refine ⟨distinct, fun notice => ?_⟩
  rw [replay, inside, List.mem_filter, decide_eq_true_eq, and_assoc]

theorem mirrors_turn (turns : Turns before after effects) (mirrors : Mirrors shown before) : Mirrors (replay shown effects) after := by
  obtain ⟨distinct, inside⟩ := mem_replay turns mirrors
  refine ⟨distinct, fun notice here => ?_, fun key reason posted => ?_⟩
  · rcases (inside notice).1 here with new | ⟨old, stays, silent⟩
    · exact turns.posts notice new
    · obtain ⟨reason, held, kind⟩ := mirrors.posted notice old
      have still : Entry.isPosted (after notice.key) = true := by
        by_contra gone
        exact stays ((turns.withdraws notice.key).2 ⟨held ▸ rfl, Bool.eq_false_iff.2 gone⟩)
      obtain ⟨now, posted⟩ := isPosted_iff.1 still
      have same := turns.kept notice.key now posted silent
      rw [held] at same
      cases same
      exact ⟨reason, posted, kind⟩
  · by_cases new : key ∈ effects.post.map Notice.key
    · obtain ⟨notice, here, rfl⟩ := List.mem_map.1 new
      obtain ⟨other, held, kind⟩ := turns.posts notice here
      rw [posted] at held
      cases held
      exact ⟨notice, (inside notice).2 (.inl here), rfl, kind.symm⟩
    · obtain ⟨notice, here, rfl, kind⟩ := mirrors.shows key reason (turns.kept key reason posted new)
      refine ⟨notice, (inside notice).2 (.inr ⟨here, fun withdrawn => ?_, new⟩), rfl, kind⟩
      have gone := ((turns.withdraws notice.key).1 withdrawn).2
      rw [posted] at gone
      cases gone

theorem withdraw_shown (turns : Turns before after effects) (mirrors : Mirrors shown before) {key : NoticeKey}
    (withdrawn : key ∈ effects.withdraw) : key ∈ shown.map Notice.key := by
  obtain ⟨reason, posted⟩ := isPosted_iff.1 ((turns.withdraws key).1 withdrawn).1
  obtain ⟨notice, here, rfl, _⟩ := mirrors.shows key reason posted
  exact List.mem_map_of_mem here

theorem post_stays (turns : Turns before after effects) {notice : Notice} (posted : notice ∈ effects.post) : notice.key ∉ effects.withdraw := by
  intro withdrawn
  obtain ⟨reason, held, _⟩ := turns.posts notice posted
  have gone := ((turns.withdraws notice.key).1 withdrawn).2
  rw [held] at gone
  cases gone

end Replay

section Count

variable (state : NotifierState)

def NotifierState.postedKeys (state : NotifierState) : List NoticeKey :=
  state.owners.entries.flatMap fun (owner, window) =>
    (window.entries.entries.filter fun entry => Entry.isPosted (some entry.2)).map fun entry => ⟨owner, entry.1⟩

theorem postedKeys_length : state.postedKeys.length = state.postedCount := by
  rw [NotifierState.postedKeys, NotifierState.postedCount, List.length_flatMap]
  congr 1
  refine List.map_congr_left fun entry _ => ?_
  exact List.length_map _

theorem mem_postedKeys (key : NoticeKey) : key ∈ state.postedKeys ↔ Entry.isPosted (state.entry key) = true := by
  rw [NotifierState.postedKeys, List.mem_flatMap]
  constructor
  · rintro ⟨⟨owner, window⟩, owned, listed⟩
    obtain ⟨⟨pane, entry⟩, kept, same⟩ := List.mem_map.1 listed
    subst same
    obtain ⟨inside, posted⟩ := List.mem_filter.1 kept
    have held := (SortedMap.mem_iff _).1 inside
    rw [NotifierState.entry, (SortedMap.mem_iff _).1 owned, Option.bind_some]
    exact (congrArg Entry.isPosted held).trans posted
  · intro posted
    obtain ⟨reason, held⟩ := isPosted_iff.1 posted
    obtain ⟨window, owned, held⟩ := Option.bind_eq_some_iff.1 held
    exact ⟨(key.owner, window), (SortedMap.mem_iff _).2 owned,
      List.mem_map.2 ⟨(key.pane, .posted reason), List.mem_filter.2 ⟨(SortedMap.mem_iff _).2 held, rfl⟩, rfl⟩⟩

theorem postedKeys_distinct : state.postedKeys.Nodup := by
  have sorted := List.pairwise_map.1 state.owners.sorted
  refine List.nodup_flatMap.2 ⟨fun entry _ => posted_keys_distinct entry.1 entry.2.entries _, sorted.imp fun {first second} less => ?_⟩
  intro key one two
  obtain ⟨_, _, rfl⟩ := List.mem_map.1 one
  obtain ⟨_, _, same⟩ := List.mem_map.1 two
  exact less.ne (NoticeKey.mk.inj same).1.symm

theorem mirrors_count {shown : List Notice} (mirrors : Mirrors shown state.entry) : shown.length = state.postedCount := by
  rw [← postedKeys_length, ← List.length_map (f := Notice.key)]
  refine ((List.perm_ext_iff_of_nodup mirrors.single (postedKeys_distinct state)).2 fun key => ?_).length_eq
  rw [mem_postedKeys, isPosted_iff]
  constructor
  · intro inside
    obtain ⟨notice, here, rfl⟩ := List.mem_map.1 inside
    obtain ⟨reason, held, _⟩ := mirrors.posted notice here
    exact ⟨reason, held⟩
  · rintro ⟨reason, held⟩
    obtain ⟨notice, here, rfl, _⟩ := mirrors.shows key reason held
    exact List.mem_map_of_mem here

end Count

section Runs

-- The notices shown so far, and what each owner's last step was given unless it was forgotten since.
structure Run where
  state : NotifierState
  shown : List Notice
  last : String → Option (String × Snapshot)

namespace Run

def new : Run := ⟨.new, [], fun _ => none⟩

def effects (clusters : String → List String) (run : Run) (call : Call) : NotifierEffects := (run.state.take clusters call).2

def Last.after (last : String → Option (String × Snapshot)) : Call → String → Option (String × Snapshot)
  | .step step => Function.update last step.owner (some (step.host, step.snapshot))
  | .forget owner => Function.update last owner none

def after (clusters : String → List String) (run : Run) (call : Call) : Run :=
  ⟨(run.state.take clusters call).1, replay run.shown (run.effects clusters call), Last.after run.last call⟩

def reasonBefore (run : Run) (key : NoticeKey) : Option Reason :=
  (run.last key.owner).bind fun (_, snapshot) => (snapshot.first key.pane).bind fun entry => reasonOf entry.2

-- A first step takes the marks as they are, and so does one of another host or a restarted server.
def Baseline (run : Run) (step : Step) : Prop :=
  step.fresh = true ∨ ∀ host snapshot, run.last step.owner = some (host, snapshot) →
    host ≠ step.host ∨ snapshot.serverInstance ≠ step.snapshot.serverInstance

-- What the state keeps of an owner is what its last step was given.
structure Sound (run : Run) : Prop where
  mirrors : Mirrors run.shown run.state.entry
  known : ∀ owner, (run.state.owners.find? owner).map (fun window => (window.host, window.server)) =
    (run.last owner).map fun given => (given.1, given.2.serverInstance)
  reasons : ∀ key, (run.state.entry key).map Entry.reason = run.reasonBefore key

variable {clusters : String → List String} {run : Run}

theorem new_sound : new.Sound where
  mirrors := ⟨List.nodup_nil, fun _ here => (nomatch here), fun _ _ posted => (nomatch posted)⟩
  known _ := rfl
  reasons _ := rfl

theorem take_turns (call : Call) : Turns run.state.entry (run.after clusters call).state.entry (run.effects clusters call) := by
  cases call with
  | step step => exact Step.run_turns
  | forget owner => exact forget_turns run.state owner

theorem changed_iff (sound : run.Sound) (step : Step) : step.changed run.state = true ↔
    ∀ host snapshot, run.last step.owner = some (host, snapshot) → host ≠ step.host ∨ snapshot.serverInstance ≠ step.snapshot.serverInstance := by
  rw [Step.changed, Bool.or_eq_true, decide_eq_true_eq, decide_eq_true_eq]
  have known := sound.known step.owner
  cases there : run.last step.owner with
  | none =>
    rw [there, Option.map_none, Option.map_eq_none_iff] at known
    rw [known]
    exact iff_of_true (.inl nofun) nofun
  | some given =>
    rw [there, Option.map_some, Option.map_eq_some_iff] at known
    obtain ⟨window, found, same⟩ := known
    obtain ⟨hosts, servers⟩ := Prod.mk.inj same
    rw [found, Option.map_some, Option.map_some, hosts, servers, Option.some_inj.ne, Option.some_inj.ne, or_comm]
    constructor
    · intro either host snapshot same
      cases same
      exact either
    · exact fun all => all given.1 given.2 rfl

theorem baseline_iff (sound : run.Sound) (step : Step) : step.baseline run.state = true ↔ run.Baseline step := by
  rw [Step.baseline, Bool.or_eq_true, changed_iff sound]
  rfl

theorem step_owner (step : Step) (state : NotifierState) (owner : String) :
    ((step.run clusters state).1.owners.find? owner).map (fun window => (window.host, window.server)) =
      if step.owner = owner then some (step.host, step.snapshot.serverInstance)
      else (state.owners.find? owner).map fun window => (window.host, window.server) := by
  rw [Step.run]
  dsimp only
  rw [SortedMap.find?_insert]
  by_cases own : step.owner = owner
  · rw [if_pos own, if_pos own, Option.map_some, Step.window, Step.start_owner]
    by_cases moved : step.changed state = true
    · rw [if_pos ⟨moved, rfl⟩]
      rfl
    · rw [if_neg fun both => moved both.1]
      rw [Step.changed, Bool.or_eq_true, decide_eq_true_eq, decide_eq_true_eq, not_or, not_not, not_not] at moved
      cases found : state.owners.find? step.owner with
      | none => rfl
      | some window =>
        rw [found] at moved
        exact congrArg some (Prod.ext (Option.some.inj moved.2) (Option.some.inj moved.1))
  · rw [if_neg own, if_neg own, Step.start_owner, if_neg fun both => own both.2]

theorem after_sound (sound : run.Sound) (call : Call) : (run.after clusters call).Sound where
  mirrors := mirrors_turn (take_turns call) sound.mirrors
  known owner := by
    cases call with
    | step step =>
      refine (step_owner step run.state owner).trans ?_
      change _ = (Function.update run.last step.owner (some (step.host, step.snapshot)) owner).map _
      by_cases own : step.owner = owner
      · subst own
        rw [if_pos rfl, Function.update_self]
        rfl
      · rw [if_neg own, Function.update_of_ne (Ne.symm own)]
        exact sound.known owner
    | forget gone =>
      change ((run.state.forget gone).1.owners.find? owner).map _ = (Function.update run.last gone none owner).map _
      rw [forget_owner]
      by_cases own : gone = owner
      · subst own
        rw [if_pos rfl, Function.update_self]
        rfl
      · rw [if_neg own, Function.update_of_ne (Ne.symm own)]
        exact sound.known owner
  reasons key := by
    cases call with
    | step step =>
      change ((step.run clusters run.state).1.entry key).map Entry.reason =
        (Function.update run.last step.owner (some (step.host, step.snapshot)) key.owner).bind _
      rw [Step.run_entry]
      by_cases own : step.owner = key.owner
      · rw [if_pos own, ← own, Function.update_self, Step.after, Option.bind_some]
        dsimp only
        cases step.snapshot.first key.pane with
        | none => rfl
        | some entry => exact Step.next_reason _
      · rw [if_neg own, Function.update_of_ne (Ne.symm own)]
        exact sound.reasons key
    | forget gone =>
      change ((run.state.forget gone).1.entry key).map Entry.reason = (Function.update run.last gone none key.owner).bind _
      rw [forget_entry]
      by_cases own : gone = key.owner
      · rw [if_pos own, own, Function.update_self]
        rfl
      · rw [if_neg own, Function.update_of_ne (Ne.symm own)]
        exact sound.reasons key

theorem calls_sound (calls : List Call) : (calls.foldl (after clusters) new).Sound := by
  induction calls using List.reverseRecOn with
  | nil => exact new_sound
  | append_singleton calls call ih =>
    rw [List.foldl_append]
    exact after_sound ih call

-- Where a step posts.
def Asked (run : Run) (call : Call) (key : NoticeKey) : Prop :=
  ∃ step, call = .step step ∧ step.owner = key.owner ∧ ¬run.Baseline step ∧ step.appActive = false ∧
    ∃ session item reason, step.snapshot.first key.pane = some (session, item) ∧ item.window ∉ step.shown ∧
      reasonOf item = some reason ∧ run.reasonBefore key ≠ some reason

theorem next_asks {step : Step} {item : Item} {previous : Option Entry} {baseline : Bool} {reason : Reason} :
    step.next baseline item previous = some (.posted reason) ∧ previous.map Entry.reason ≠ some reason ↔
      baseline = false ∧ step.appActive = false ∧ item.window ∉ step.shown ∧ reasonOf item = some reason ∧
        previous.map Entry.reason ≠ some reason := by
  rw [Step.next]
  cases asks : reasonOf item with
  | none =>
    constructor
    · rintro ⟨posted, _⟩
      cases posted
    · rintro ⟨_, _, _, here, _⟩
      cases here
  | some other =>
    dsimp only
    constructor
    · rintro ⟨posted, new⟩
      split_ifs at posted with hushed same
      · cases posted
      · rw [posted] at new
        exact absurd rfl new
      · cases posted
        simp only [Step.hushes, Bool.or_eq_true, Bool.and_eq_true, decide_eq_true_eq, not_or, not_and, Bool.not_eq_true] at hushed
        refine ⟨hushed.1.1, ?_, hushed.1.2, rfl, new⟩
        by_contra active
        exact hushed.2 (Bool.not_eq_false _ ▸ active) new
    · rintro ⟨rfl, inactive, outside, same, new⟩
      cases same
      have loud : step.hushes false item previous reason = false := by
        simp [Step.hushes, inactive, outside]
      rw [loud, if_neg Bool.false_ne_true, if_neg new]
      exact ⟨rfl, new⟩

theorem posts_iff (sound : run.Sound) (call : Call) (key : NoticeKey) :
    key ∈ (run.effects clusters call).post.map Notice.key ↔ run.Asked call key := by
  cases call with
  | forget owner =>
    change key ∈ (run.state.forget owner).2.post.map Notice.key ↔ _
    rw [forget_post]
    exact iff_of_false List.not_mem_nil fun ⟨_, same, _⟩ => nomatch same
  | step step =>
    change key ∈ (step.run clusters run.state).2.post.map Notice.key ↔ _
    have starts (still : step.baseline run.state = false) (own : step.owner = key.owner) :
        (step.base run.state key.pane).map Entry.reason = run.reasonBefore key := by
      rw [Step.baseline, Bool.or_eq_false_iff] at still
      have here : (⟨step.owner, key.pane⟩ : NoticeKey) = key := by rw [own]
      rw [Step.base, if_neg (Bool.eq_false_iff.1 still.2), here]
      exact sound.reasons key
    have base := baseline_iff sound step
    constructor
    · intro inside
      obtain ⟨notice, posted, rfl⟩ := List.mem_map.1 inside
      obtain ⟨session, item, reason, found, after, new, rfl⟩ := (Step.run_post notice).1 posted
      rw [Step.after, found] at after
      obtain ⟨still, inactive, outside, asks, new⟩ := next_asks.1 ⟨after, new⟩
      refine ⟨step, rfl, rfl, fun here => ?_, inactive, session, item, reason, found, outside, asks, ?_⟩
      · rw [base.2 here] at still
        cases still
      · rw [← starts still rfl]
        exact new
    · rintro ⟨given, same, own, loud, inactive, session, item, reason, found, outside, asks, new⟩
      cases same
      have still : step.baseline run.state = false := Bool.eq_false_iff.2 fun here => loud (base.1 here)
      rw [← starts still own] at new
      obtain ⟨_, same⟩ := Step.mem_of_first found
      have posted := next_asks.2 ⟨still, inactive, outside, asks, new⟩
      dsimp only at same
      refine List.mem_map.2 ⟨step.notice clusters session item reason, (Step.run_post _).2 ⟨session, item, reason, ?_, ?_, ?_, rfl⟩, ?_⟩
      · rw [same]
        exact found
      · rw [same, Step.after, found]
        exact posted.1
      · rw [same]
        exact new
      · change (⟨step.owner, item.id⟩ : NoticeKey) = key
        rw [same, own]

-- A notice that is shown is of a pane that was live at the last step, with the mark that the notice gives.
theorem shown_live (sound : run.Sound) {notice : Notice} (here : notice ∈ run.shown) :
    ∃ host snapshot session item kind, run.last notice.key.owner = some (host, snapshot) ∧
      snapshot.first notice.key.pane = some (session, item) ∧ item.lifecycle = .live kind ∧ item.pane.mark = notice.kind.mark := by
  obtain ⟨reason, held, same⟩ := sound.mirrors.posted notice here
  have asks := sound.reasons notice.key
  rw [held, reasonBefore] at asks
  obtain ⟨⟨host, snapshot⟩, last, asks⟩ := Option.bind_eq_some_iff.1 asks.symm
  obtain ⟨⟨session, item⟩, first, asks⟩ := Option.bind_eq_some_iff.1 asks
  obtain ⟨⟨kind, live⟩, mark⟩ := reason_live asks
  exact ⟨host, snapshot, session, item, kind, last, first, live, mark.trans (congrArg Kind.mark same)⟩

end Run

-- What a call that follows others does.
structure Mirrored (before after : Run) (call : Call) (effects : NotifierEffects) : Prop where
  single : (after.shown.map Notice.key).Nodup
  counted : after.shown.length = after.state.postedCount
  shown : ∀ key kind, (∃ notice ∈ after.shown, notice.key = key ∧ notice.kind = kind) ↔
    ∃ reason, after.state.entry key = some (.posted reason) ∧ reason.kind = kind
  once : effects.withdraw.Nodup
  withdraws : ∀ key ∈ effects.withdraw, key ∈ before.shown.map Notice.key
  apart : ∀ notice ∈ effects.post, notice.key ∉ effects.withdraw
  live : ∀ notice ∈ after.shown, ∃ host snapshot session item kind, after.last notice.key.owner = some (host, snapshot) ∧
    snapshot.first notice.key.pane = some (session, item) ∧ item.lifecycle = .live kind ∧ item.pane.mark = notice.kind.mark
  posts : ∀ key, key ∈ effects.post.map Notice.key ↔ before.Asked call key

theorem notices_mirror (clusters : String → List String) (calls : List Call) (call : Call) :
    Mirrored (calls.foldl (Run.after clusters) .new) ((calls.foldl (Run.after clusters) .new).after clusters call) call
      ((calls.foldl (Run.after clusters) .new).effects clusters call) := by
  have before := @Run.calls_sound clusters calls
  have after := @Run.after_sound clusters _ before call
  have turns := @Run.take_turns clusters (calls.foldl (Run.after clusters) .new) call
  refine ⟨after.mirrors.single, mirrors_count _ after.mirrors, fun key kind => ?_, turns.once, fun key withdrawn => ?_,
    fun notice posted => post_stays turns posted, fun notice here => Run.shown_live after here, Run.posts_iff before call⟩
  · constructor
    · rintro ⟨notice, here, rfl, rfl⟩
      exact after.mirrors.posted notice here
    · rintro ⟨reason, held, rfl⟩
      exact after.mirrors.shows key reason held
  · exact withdraw_shown turns before.mirrors withdrawn

end Runs

end Kido.Notifying
