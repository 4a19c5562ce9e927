import Kido.Layout.Handed
import Mathlib.Data.List.Permutation

set_option autoImplicit false

namespace Kido.Editing

open Kido.Tiling

structure Snapshot where
  revision : Revision
  layout : Layout

def snapshotOf (document : Document) : Snapshot := ⟨document.revision, document.layout⟩

-- The change that a client makes to a draft, or the text that refuses it.
abbrev Edit := DraftLayout → Except String DraftLayout

def attempts : Nat := 8

inductive Phase where
  | idle
  | fetching (edit : Edit)
  | holding (edit : Edit) (current : Snapshot) (left : Nat)
  | putting (edit : Edit) (current : Snapshot) (draft : DraftLayout) (left : Nat)

-- What `note_focus` and `claim` do to the document before it is published.
inductive Touch where
  | focus (id : WindowId) (pane : PaneId)
  | resize (id : WindowId) (cols rows : Cells) (cellPx : Option CellPixels)

def touch (document : Document) : Touch → Document
  | .focus id pane => (document.focus id pane).2
  | .resize id cols rows cellPx => (document.resizeWindow id cols rows cellPx).2

def touched (touches : List Touch) (document : Document) : Document := touches.foldl touch document

inductive Removed where
  | pane (id : PaneId)
  | window (id : WindowId)
  | session (id : SessionId)

def Removed.apply (document : Document) : Removed → Option Removal × Document
  | .pane id => document.removePane id
  | .window id => document.removeWindow id
  | .session id => document.removeSession id

-- How the rest of `put_layout_in` goes once `put_with_shell` took the draft.
inductive Verdict where
  | accepted
  | rejected

-- `put_layout_in` after `put_with_shell`: a rollback, or `changed` where there is something to publish.
def conclude (before after : Document) (verdict : Verdict) (touches : List Touch) : Document :=
  match verdict with
  | .rejected => after.rollback before
  | .accepted => if after.unpublished then (touched touches after).publish else after

-- What the server does of its own or for other callers.
inductive Change where
  | removed (what : Removed) (touches : List Touch)
  | arrived (touches : List Touch)
  | put (request : PutLayout) (newWindow : Option Size) (shell : Option Name) (verdict : Verdict)
    (touches : List Touch)

def Change.apply (document : Document) : Change → Document
  | .removed what touches =>
    match what.apply document with
    | (none, _) => document
    | (some _, after) => (touched touches after).publish
  | .arrived touches => (touched touches document).publish
  | .put request newWindow shell verdict touches =>
    match document.putWithShell request newWindow shell with
    | (.error _, after) => after
    | (.ok _, after) => conclude document after verdict touches

structure World where
  document : Document
  clients : Nat → Phase

inductive Op where
  | start (client : Nat) (edit : Edit)
  | fetch (client : Nat)
  | send (client : Nat)
  | serve (client : Nat) (newWindow : Option Size) (shell : Option Name) (verdict : Verdict) (touches : List Touch)
  | change (change : Change)

namespace World

def start : World := ⟨.new, fun _ => .idle⟩

def withClient (world : World) (client : Nat) (phase : Phase) : World :=
  { world with clients := Function.update world.clients client phase }

-- A conflict: the next attempt starts from the newer document, unless it was the last one.
def retry (edit : Edit) (newer : Snapshot) : Nat → Phase
  | 0 => .idle
  | left + 1 => .holding edit newer left

def step (world : World) : Op → World
  | .start client edit =>
    match world.clients client with
    | .idle => world.withClient client (.fetching edit)
    | _ => world
  | .fetch client =>
    match world.clients client with
    | .fetching edit => world.withClient client (retry edit (snapshotOf world.document) attempts)
    | _ => world
  | .send client =>
    match world.clients client with
    | .holding edit current left =>
      match edit current.layout.draft with
      | .ok draft => world.withClient client (.putting edit current draft left)
      | .error _ => world.withClient client .idle
    | _ => world
  | .serve client newWindow shell verdict touches =>
    match world.clients client with
    | .putting edit current draft left =>
      match world.document.putWithShell ⟨current.revision, draft⟩ newWindow shell with
      | (.error .stale, _) => world.withClient client (retry edit (snapshotOf world.document) left)
      | (.error (.invalid _), _) => world.withClient client .idle
      | (.ok _, after) =>
        { world.withClient client .idle with document := conclude world.document after verdict touches }
    | _ => world
  | .change change => { world with document := change.apply world.document }

def run (ops : List Op) : World := Shared.run step start ops

end World

def EqualUpToFocus (first second : Layout) : Prop :=
  first.mapWindows (fun window => { window with focus := ⟨0⟩ }) =
    second.mapWindows fun window => { window with focus := ⟨0⟩ }

theorem EqualUpToFocus.draft {first second : Layout} (same : EqualUpToFocus first second) :
    first.draft = second.draft := by
  have blind (layout : Layout) :
      (layout.mapWindows fun window => { window with focus := ⟨0⟩ }).draft = layout.draft := by
    simp only [Layout.draft, Layout.mapWindows, List.map_map]
    congr 1
    refine List.map_congr_left fun session _ => ?_
    simp only [Function.comp_def, Session.draft, List.map_map]
    rfl
  rw [← blind first, same, blind]

theorem EqualUpToFocus.replaceFirst (layout : Layout) (fits : Window → Bool) (pane : PaneId) :
    EqualUpToFocus (layout.replaceFirst fits fun window => [{ window with focus := pane }]) layout := by
  have windows (list : List Window) :
      (Tiling.replaceFirst fits (fun window => [{ window with focus := pane }]) list).map
        (fun window => { window with focus := ⟨0⟩ }) = list.map fun window => { window with focus := ⟨0⟩ } :=
    replaceFirst_map _ fits _ (fun _ => rfl) list
  simp only [EqualUpToFocus, Layout.replaceFirst, Layout.mapWindows]
  congr 1
  refine replaceFirst_map _ _ _ (fun session => ?_) layout.sessions
  simp only [List.map_cons, List.map_nil, windows]

-- A published document and a later one: its revision is passed, or its layout is still the one it had.
structure Later (before after : Document) : Prop where
  published : after.unpublished = false
  revision : before.revision.number ≤ after.revision.number
  bound : after.revision.number ≤ u64Max
  same : before.revision.number = after.revision.number → after.revision.number < u64Max →
    EqualUpToFocus before.layout after.layout

-- A document on its way from a published one to the next revision.
structure Pending (before after : Document) : Prop where
  revision : after.revision = before.revision
  same : after.unpublished = false → EqualUpToFocus before.layout after.layout

structure Published (document : Document) : Prop where
  published : document.unpublished = false
  bound : document.revision.number ≤ u64Max

theorem Published.later {document : Document} (own : Published document) : Later document document where
  published := own.published
  revision := Nat.le_refl _
  bound := own.bound
  same := fun _ _ => rfl

theorem Pending.refl (document : Document) : Pending document document := ⟨rfl, fun _ => rfl⟩

theorem Pending.publish {before after : Document} (own : Published before) (pending : Pending before after) :
    Later before after.publish := by
  have bound := own.bound
  cases unpublished : after.unpublished with
  | true =>
    have next : after.publish.revision.number = min (before.revision.number + 1) u64Max := by
      simp [Document.publish, unpublished, pending.revision, Revision.next]
    exact {
      published := by simp [Document.publish, unpublished]
      revision := by omega
      bound := by omega
      same := fun equal room => by omega }
  | false =>
    have kept : after.publish = after := by simp [Document.publish, unpublished]
    rw [kept]
    exact {
      published := unpublished
      revision := by rw [pending.revision]
      bound := by
        rw [pending.revision]
        exact bound
      same := fun _ _ => pending.same unpublished }

theorem Pending.touch {before after : Document} (pending : Pending before after) (one : Touch) :
    Pending before (touch after one) := by
  cases one with
  | focus id pane =>
    cases found : (after.layout.window? id).map Prod.snd with
    | none => simpa [Editing.touch, Document.focus, found] using pending
    | some window =>
      simp only [Editing.touch, Document.focus, found]
      split_ifs
      · exact ⟨pending.revision, fun published =>
          (pending.same published).trans (EqualUpToFocus.replaceFirst after.layout _ pane).symm⟩
      · exact pending
  | resize id cols rows cellPx =>
    cases found : (after.layout.window? id).map Prod.snd with
    | none => simpa [Editing.touch, Document.resizeWindow, found] using pending
    | some window =>
      simp only [Editing.touch, Document.resizeWindow, found]
      split_ifs
      · exact ⟨pending.revision, fun published => absurd published (by simp)⟩
      · exact pending

theorem Pending.touched {before after : Document} (pending : Pending before after) (touches : List Touch) :
    Pending before (touched touches after) := by
  induction touches generalizing after with
  | nil => exact pending
  | cons one rest ih => exact ih (pending.touch one)

theorem removed_pending {document after : Document} {what : Removed} {removal : Removal}
    (removed : what.apply document = (some removal, after)) : Pending document after := by
  have dropped (panes : List PaneId) (change : Layout → Layout) : Pending document (document.removal panes change).2 :=
    ⟨rfl, fun published => absurd published (by simp [Document.removal])⟩
  cases what with
  | pane id =>
    simp only [Removed.apply, Document.removePane] at removed
    split at removed <;> cases removed
    exact dropped _ _
  | window id =>
    simp only [Removed.apply, Document.removeWindow] at removed
    split at removed <;> cases removed
    exact dropped _ _
  | session id =>
    simp only [Removed.apply, Document.removeSession] at removed
    split at removed <;> cases removed
    exact dropped _ _

theorem removed_ids (document : Document) (what : Removed) : (what.apply document).2.ids = document.ids := by
  cases what with
  | pane id => exact after_ids [] document (.removePane id) (fun _ _ _ => nofun)
  | window id => exact after_ids [] document (.removeWindow id) (fun _ _ _ => nofun)
  | session id => exact after_ids [] document (.removeSession id) (fun _ _ _ => nofun)

theorem put_pending {document after : Document} {request : PutLayout} {newWindow : Option Size}
    {shell : Option Name} {created : List (PaneId × CreatePane × Vars)}
    (put : document.putWithShell request newWindow shell = (.ok created, after)) : Pending document after := by
  simp only [Document.putWithShell] at put
  split_ifs at put
  · cases put
  · split at put <;> cases put
    simp only [Document.replace]
    split_ifs
    · exact ⟨rfl, fun published => absurd published (by simp)⟩
    · exact ⟨rfl, fun _ => rfl⟩

theorem conclude_later {document after : Document} (own : Published document) (pending : Pending document after)
    (verdict : Verdict) (touches : List Touch) : Later document (conclude document after verdict touches) := by
  cases verdict with
  | rejected =>
    have rolled := own.later
    exact ⟨rolled.published, rolled.revision, rolled.bound, rolled.same⟩
  | accepted =>
    simp only [conclude]
    split_ifs with unpublished
    · exact (pending.touched touches).publish own
    · have kept : after.publish = after := by simp [Document.publish, unpublished]
      exact kept ▸ pending.publish own

theorem change_later {document : Document} (own : Published document) (change : Change) :
    Later document (change.apply document) := by
  cases change with
  | removed what touches =>
    rcases removed : what.apply document with ⟨_ | removal, after⟩
    · simpa [Change.apply, removed] using own.later
    · simpa only [Change.apply, removed] using ((removed_pending removed).touched touches).publish own
  | arrived touches => exact ((Pending.refl document).touched touches).publish own
  | put request newWindow shell verdict touches =>
    rcases put : document.putWithShell request newWindow shell with ⟨error | created, after⟩
    · simp only [Change.apply, put]
      rw [putWithShell_error put]
      exact own.later
    · simpa only [Change.apply, put] using conclude_later own (put_pending put) verdict touches

structure Past (snapshot : Snapshot) (document : Document) : Prop where
  revision : snapshot.revision.number ≤ document.revision.number
  same : snapshot.revision = document.revision → document.revision.number < u64Max →
    EqualUpToFocus snapshot.layout document.layout

theorem Past.later {snapshot : Snapshot} {before after : Document} (past : Past snapshot before)
    (later : Later before after) : Past snapshot after where
  revision := past.revision.trans later.revision
  same := by
    intro equal room
    have numbers : snapshot.revision.number = after.revision.number := by rw [equal]
    have first := past.revision
    have second := later.revision
    have between : snapshot.revision = before.revision := by
      cases held : snapshot.revision
      cases now : before.revision
      simp only [held, now, Revision.mk.injEq] at first second numbers ⊢
      omega
    have unmoved : before.revision.number = after.revision.number := by rw [← between, equal]
    exact (past.same between (unmoved ▸ room)).trans (later.same unmoved room)

def Phase.Sound (document : Document) : Phase → Prop
  | .idle => True
  | .fetching _ => True
  | .holding _ current _ => Past current document
  | .putting edit current draft _ => Past current document ∧ edit current.layout.draft = .ok draft

theorem Phase.Sound.later {before after : Document} {phase : Phase} (sound : phase.Sound before)
    (later : Later before after) : phase.Sound after := by
  cases phase with
  | idle => trivial
  | fetching edit => trivial
  | holding edit current left => exact Past.later sound later
  | putting edit current draft left => exact ⟨Past.later sound.1 later, sound.2⟩

theorem retry_sound (document : Document) (edit : Edit) (left : Nat) :
    (World.retry edit (snapshotOf document) left).Sound document := by
  cases left with
  | zero => trivial
  | succ left => exact ⟨Nat.le_refl _, fun _ _ => rfl⟩

structure World.Sound (world : World) : Prop where
  published : Published world.document
  phases : ∀ client, (world.clients client).Sound world.document

theorem World.Sound.withClient {world : World} (sound : world.Sound) {client : Nat} {phase : Phase}
    (own : phase.Sound world.document) : (world.withClient client phase).Sound where
  published := sound.published
  phases := by
    intro other
    by_cases same : other = client
    · subst other
      simpa [World.withClient] using own
    · simpa [World.withClient, same] using sound.phases other

theorem World.Sound.later {world : World} (sound : world.Sound) {after : Document}
    (later : Later world.document after) : World.Sound { world with document := after } where
  published := ⟨later.published, later.bound⟩
  phases := fun client => (sound.phases client).later later

theorem step_sound (world : World) (op : Op) (sound : world.Sound) : (world.step op).Sound := by
  cases op with
  | start client edit =>
    simp only [World.step]
    split
    · exact sound.withClient trivial
    · exact sound
  | fetch client =>
    simp only [World.step]
    split
    · exact sound.withClient (retry_sound world.document _ _)
    · exact sound
  | send client =>
    simp only [World.step]
    split
    · rename_i edit current left phase
      have own := sound.phases client
      rw [phase] at own
      split
      · rename_i draft applied
        exact sound.withClient ⟨own, applied⟩
      · exact sound.withClient trivial
    · exact sound
  | serve client newWindow shell verdict touches =>
    simp only [World.step]
    split
    · split
      · exact sound.withClient (retry_sound world.document _ _)
      · exact sound.withClient trivial
      · rename_i put
        have idle : (world.withClient client .idle).Sound := sound.withClient trivial
        exact idle.later (conclude_later sound.published (put_pending put) verdict touches)
    · exact sound
  | change change => exact sound.later (change_later sound.published change)

theorem run_sound (ops : List Op) : (World.run ops).Sound := by
  refine Shared.run_invariant ⟨⟨rfl, by decide⟩, fun _ => trivial⟩ (fun world op sound => ?_) ops
  exact step_sound world op sound

-- A put that the server accepts below the last revision replaces the layout that its edit was computed
-- from.
theorem accepted_edit_replaces_its_base (ops : List Op) (client : Nat) (edit : Edit) (current : Snapshot)
    (draft : DraftLayout) (left : Nat) (newWindow : Option Size) (shell : Option Name) (touches : List Touch)
    (created : List (PaneId × CreatePane × Vars)) (after : Document)
    (putting : (World.run ops).clients client = .putting edit current draft left)
    (room : (World.run ops).document.revision.number < u64Max)
    (put : (World.run ops).document.putWithShell ⟨current.revision, draft⟩ newWindow shell = (.ok created, after)) :
    let before := (World.run ops).document
    EqualUpToFocus current.layout before.layout ∧ edit before.layout.draft = .ok draft ∧
      (∃ normalized, normalize draft before.layout before.ids shell (newWindow.getD unsizedWindow) =
        .ok normalized ∧ after.layout = settle before.layout normalized.layout) ∧
      ((World.run ops).step (.serve client newWindow shell .accepted touches)).document =
        (if after.unpublished then (touched touches after).publish else after) ∧
      ((World.run ops).step (.serve client newWindow shell .rejected touches)).document =
        { before with ids := after.ids } := by
  have sound := (run_sound ops).phases client
  rw [putting] at sound
  obtain ⟨past, applied⟩ := sound
  have equal : current.revision = (World.run ops).document.revision := by
    by_contra differs
    simp [Document.putWithShell, differs] at put
  have same := past.same equal room
  obtain ⟨normalized, ok, _, _, layout⟩ := putWithShell_ok put
  refine ⟨same, same.draft ▸ applied, ⟨normalized, ok, layout⟩, ?_, ?_⟩
  · simp only [World.step, putting, put]
    rfl
  · simp only [World.step, putting, put]
    rfl

-- A window of one pane, 81 or 80 cells wide, in a published document.
def widened (wide : Bool) : Cells := if wide then ⟨81, by decide, by decide⟩ else unsizedWindow.cols

def widenedLayout (wide : Bool) : Layout :=
  ⟨[{ singleSession ⟨.one, .one, .one⟩ with
    windows := (singleSession ⟨.one, .one, .one⟩).windows.map fun window => { window with
      cols := widened wide
      tree := .leaf ⟨⟨1⟩, widened wide, unsizedWindow.rows⟩ } }]⟩

def laterIds : Ids := ⟨Counter.one.bump, Counter.one.bump, Counter.one.bump⟩

def adding : Edit := fun draft => .ok ⟨draft.sessions ++ singleDraft.sessions⟩

-- Two clients start from one document. The second is served first, and the window that it opened is resized; the first
-- meets the conflict and edits the newer document.
def contended : List Op :=
  [.start 0 adding, .fetch 0, .start 1 adding, .fetch 1, .send 0, .send 1, .serve 1 none none .accepted [],
    .change (.arrived [.resize ⟨1⟩ (widened true) unsizedWindow.rows none]), .serve 0 none none .accepted [], .send 0]

def contendedDraft : DraftLayout := ⟨(widenedLayout true).draft.sessions ++ singleDraft.sessions⟩

theorem contended_edit_replaces_its_base :
    let before := (World.run contended).document
    EqualUpToFocus (widenedLayout true) before.layout ∧ adding before.layout.draft = .ok contendedDraft ∧
      ((World.run contended).step (.serve 0 none none .accepted [])).document.layout.sessionIds = [⟨1⟩, ⟨2⟩] := by
  have putting : (World.run contended).clients 0 = .putting adding ⟨⟨2⟩, widenedLayout true⟩ contendedDraft 6 := by cbv
  have created : ((World.run contended).document.putWithShell ⟨⟨2⟩, contendedDraft⟩ none none).1 =
      .ok [(⟨2⟩, freshPane, .empty)] := by cbv
  have shown : ((World.run contended).step (.serve 0 none none .accepted [])).document.layout.sessionIds = [⟨1⟩, ⟨2⟩] := by cbv
  rcases put : (World.run contended).document.putWithShell ⟨⟨2⟩, contendedDraft⟩ none none with ⟨result, after⟩
  rw [put] at created
  cases created
  have all := accepted_edit_replaces_its_base contended 0 adding ⟨⟨2⟩, widenedLayout true⟩ contendedDraft 6 none none [] _ after
    putting (by decide +kernel) put
  exact ⟨all.1, all.2.1, shown⟩

def toggle (wide : Bool) : Op := .change (.arrived [.resize ⟨1⟩ (widened wide) unsizedWindow.rows none])

theorem toggle_correct (wide : Bool) (revision : Revision) :
    (Change.arrived [.resize ⟨1⟩ (widened !wide) unsizedWindow.rows none]).apply
      ⟨revision, false, widenedLayout wide, laterIds⟩ = ⟨revision.next, false, widenedLayout !wide, laterIds⟩ := by
  cases wide <;> rfl

def isOdd (n : Nat) : Bool := n % 2 = 1

theorem isOdd_succ (n : Nat) : isOdd (n + 1) = !isOdd n := by
  by_cases odd : n % 2 = 1
  · have even : ¬(n + 1) % 2 = 1 := by omega
    simp [isOdd, odd, even]
  · have next : (n + 1) % 2 = 1 := by omega
    simp [isOdd, odd, next]

-- A session is opened, and then its window is resized to and fro.
def resizes (n : Nat) : List Op :=
  .change (.put ⟨.first, singleDraft⟩ none none .accepted []) :: (List.range n).map fun k => toggle (isOdd (k + 1))

theorem resizes_correct (n : Nat) :
    World.run (resizes n) = ⟨⟨⟨min (n + 1) u64Max⟩, false, widenedLayout (isOdd n), laterIds⟩, fun _ => .idle⟩ := by
  induction n with
  | zero =>
    have put := single_put ⟨.one, .one, .one⟩ false
    have first : min (0 + 1) u64Max = 1 := by decide
    rw [first]
    rfl
  | succ n ih =>
    have more : World.run (resizes (n + 1)) = (World.run (resizes n)).step (toggle (isOdd (n + 1))) := by
      simp [resizes, World.run, List.range_succ, Shared.run]
    have next : (Revision.mk (min (n + 1) u64Max)).next = ⟨min (n + 1 + 1) u64Max⟩ := by
      simp only [Revision.next, Revision.mk.injEq]
      omega
    rw [more, ih, toggle, isOdd_succ, ← next]
    simp only [World.step, toggle_correct]

-- The client keeps the layout as it is; the window is resized between its fetch and its put.
def interleaved (n : Nat) : List Op :=
  resizes n ++ [.start 0 fun draft => .ok draft, .fetch 0, toggle (isOdd (n + 1)), .send 0]

theorem interleaved_correct (n : Nat) (full : u64Max ≤ n) :
    (World.run (interleaved n)).clients 0 =
        .putting (fun draft => .ok draft) ⟨⟨u64Max⟩, widenedLayout (isOdd n)⟩ (widenedLayout (isOdd n)).draft 7 ∧
      (World.run (interleaved n)).document = ⟨⟨u64Max⟩, false, widenedLayout !isOdd n, laterIds⟩ := by
  have last : min (n + 1) u64Max = u64Max := by omega
  have stays : (Revision.mk u64Max).next = ⟨u64Max⟩ := by
    simp only [Revision.next, Revision.mk.injEq]
    omega
  have run : World.run (interleaved n) =
      ((((World.run (resizes n)).step (.start 0 fun draft => .ok draft)).step (.fetch 0)).step
        (toggle (isOdd (n + 1)))).step (.send 0) := by
    simp [interleaved, World.run, Shared.run]
  rw [run, resizes_correct, last, isOdd_succ, toggle]
  simp only [World.step, World.withClient, Function.update_self, snapshotOf, World.retry, attempts, toggle_correct,
    stays, and_self]

theorem saturated_put_correct (wide : Bool) :
    (Document.mk ⟨u64Max⟩ false (widenedLayout !wide) laterIds).putWithShell ⟨⟨u64Max⟩, (widenedLayout wide).draft⟩
      none none = (.ok [], ⟨⟨u64Max⟩, true, widenedLayout wide, laterIds⟩) := by
  have normalized : normalize (widenedLayout wide).draft (widenedLayout !wide) laterIds none unsizedWindow =
      .ok ⟨widenedLayout wide, [], laterIds⟩ := by
    cases wide <;> rfl
  have replaced : (Document.mk ⟨u64Max⟩ false (widenedLayout !wide) laterIds).replace (widenedLayout wide) =
      ⟨⟨u64Max⟩, true, widenedLayout wide, laterIds⟩ := by
    cases wide <;> rfl
  simp only [Document.putWithShell, ne_eq, not_true, if_false, Option.getD_none, normalized, replaced]

theorem lost_resize (n : Nat) (full : u64Max ≤ n) :
    ∃ current draft after, (World.run (interleaved n)).clients 0 = .putting (fun draft => .ok draft) current draft 7 ∧
      (World.run (interleaved n)).document.putWithShell ⟨current.revision, draft⟩ none none = (.ok [], after) ∧
      ¬EqualUpToFocus current.layout (World.run (interleaved n)).document.layout := by
  obtain ⟨client, document⟩ := interleaved_correct n full
  refine ⟨_, _, ⟨⟨u64Max⟩, true, widenedLayout (isOdd n), laterIds⟩, client, ?_, ?_⟩
  · rw [document]
    exact saturated_put_correct (isOdd n)
  · rw [document]
    intro same
    have widths := congrArg (fun layout : Layout => layout.windowList.map Window.cols) same
    revert widths
    cases isOdd n <;> decide

-- At the last revision a put is accepted over a change that its client never saw.
theorem saturated_revision_loses_a_resize :
    ∃ current draft after,
      (World.run (interleaved u64Max)).clients 0 = .putting (fun draft => .ok draft) current draft 7 ∧
      (World.run (interleaved u64Max)).document.putWithShell ⟨current.revision, draft⟩ none none =
        (.ok [], after) ∧
      ¬EqualUpToFocus current.layout (World.run (interleaved u64Max)).document.layout :=
  lost_resize u64Max (Nat.le_refl u64Max)

end Kido.Editing
