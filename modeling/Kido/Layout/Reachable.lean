import Kido.Layout.Removal
import Kido.Shared.Run

set_option autoImplicit false

namespace Kido.Tiling

open Kido.Shared

inductive Op where
  | put (request : PutLayout) (newWindow : Option Size) (shell : Option Name)
  | removePane (pane : PaneId)
  | removeWindow (id : WindowId)
  | removeSession (id : SessionId)
  | focus (id : WindowId) (pane : PaneId)
  | resizeWindow (id : WindowId) (cols rows : Cells) (cellPx : Option CellPixels)
  | publish
  | rollback (back : Nat)

structure Handed where
  panes : List PaneId
  windows : List WindowId
  sessions : List SessionId

-- A document in a run, with the documents that the run went through and the ids it handed out.
structure World where
  document : Document
  past : List Document
  handed : Handed

def Document.after (past : List Document) (document : Document) : Op → Document
  | .put request newWindow shell => (document.putWithShell request newWindow shell).2
  | .removePane pane => (document.removePane pane).2
  | .removeWindow id => (document.removeWindow id).2
  | .removeSession id => (document.removeSession id).2
  | .focus id pane => (document.focus id pane).2
  | .resizeWindow id cols rows cellPx => (document.resizeWindow id cols rows cellPx).2
  | .publish => document.publish
  | .rollback back =>
    match past[back]? with
    | some before => document.rollback before
    | none => document

-- The ids that a put creates: its new panes, and the windows and sessions that were not there before.
def Document.hands (document : Document) : Op → Handed
  | .put request newWindow shell =>
    match document.putWithShell request newWindow shell with
    | (.ok created, after) =>
      ⟨created.map Prod.fst, after.layout.windowIds.filter fun id => decide (id ∉ document.layout.windowIds),
        after.layout.sessionIds.filter fun id => decide (id ∉ document.layout.sessionIds)⟩
    | (.error _, _) => ⟨[], [], []⟩
  | _ => ⟨[], [], []⟩

namespace World

def start : World := ⟨.new, [], ⟨[], [], []⟩⟩

def step (world : World) (op : Op) : World where
  document := world.document.after world.past op
  past := world.document :: world.past
  handed :=
    let hands := world.document.hands op
    ⟨hands.panes ++ world.handed.panes, hands.windows ++ world.handed.windows,
      hands.sessions ++ world.handed.sessions⟩

def run (ops : List Op) : World := Shared.run step start ops

end World

theorem putWithShell_ok {document after : Document} {request : PutLayout} {newWindow : Option Size}
    {shell : Option Name} {created : List (PaneId × CreatePane × Vars)}
    (put : document.putWithShell request newWindow shell = (.ok created, after)) :
    ∃ normalized, normalize request.layout document.layout document.ids shell (newWindow.getD unsizedWindow) =
      .ok normalized ∧ created = normalized.created ∧ after.ids = normalized.ids ∧
      after.layout = settle document.layout normalized.layout := by
  simp only [Document.putWithShell] at put
  split_ifs at put with stale
  · cases put
  · split at put
    · cases put
    · rename_i normalized ok
      cases put
      refine ⟨normalized, ok, rfl, ?_, ?_⟩
      · simp only [Document.replace]
        split_ifs <;> rfl
      · simp only [Document.replace]
        split_ifs with changed
        · rfl
        · exact (not_not.mp changed).symm

theorem putWithShell_error {document after : Document} {request : PutLayout} {newWindow : Option Size}
    {shell : Option Name} {error : PutError}
    (put : document.putWithShell request newWindow shell = (.error error, after)) : after = document := by
  simp only [Document.putWithShell] at put
  split_ifs at put with stale
  · cases put
    rfl
  · split at put <;> cases put
    rfl

theorem settle_panes (before after : Layout) : (settle before after).panes = after.panes :=
  mapWindows_panes _ _ (settleWindow_panes before)

theorem settle_windowIds (before after : Layout) : (settle before after).windowIds = after.windowIds :=
  mapWindows_windowIds _ _ (settleWindow_id before)

theorem settle_sessionIds (before after : Layout) : (settle before after).sessionIds = after.sessionIds :=
  mapWindows_sessionIds _ _

theorem putWithShell_grows {document after : Document} {request : PutLayout} {newWindow : Option Size}
    {shell : Option Name} {created : List (PaneId × CreatePane × Vars)}
    (put : document.putWithShell request newWindow shell = (.ok created, after)) :
    ∃ claims : Claims, claims.created = created ∧ claims.ids = after.ids ∧
      (∀ pane ∈ document.layout.panes, pane ∈ claims.seen) ∧
      Grows (startClaims document.layout document.ids shell) after.layout.panes after.layout.windowIds
        after.layout.sessionIds claims := by
  obtain ⟨normalized, ok, rfl, ids, layout⟩ := putWithShell_ok put
  obtain ⟨_, _, claims, sameCreated, sameIds, live, grows⟩ := normalize_correct ok
  refine ⟨claims, sameCreated, sameIds.trans ids.symm, live, ?_⟩
  rw [layout, settle_panes, settle_windowIds, settle_sessionIds]
  exact grows

theorem putWithShell_panes {document after : Document} {request : PutLayout} {newWindow : Option Size}
    {shell : Option Name} {created : List (PaneId × CreatePane × Vars)}
    (put : document.putWithShell request newWindow shell = (.ok created, after)) :
    after.layout.panes.Nodup ∧ (created.map Prod.fst).Nodup ∧
      ∀ pane, pane ∈ after.layout.panes ↔ pane ∈ document.layout.panes ∨ pane ∈ created.map Prod.fst := by
  obtain ⟨claims, same, _, live, grows⟩ := putWithShell_grows put
  obtain ⟨news, list, register⟩ := grows.panes
  have all : claims.created = news := by simpa [startClaims] using list
  rw [all] at same
  subst same
  have distinct := register.out_nodup
  refine ⟨distinct, ?_, ?_⟩
  · obtain ⟨named, perm, _⟩ := register.split
    exact ((perm.nodup_iff.mp distinct).of_append_right)
  · intro pane
    constructor
    · exact register.origin pane
    · rintro (old | new)
      · have seen := live pane old
        simpa [startClaims] using register.seen.mem_iff.mp seen
      · exact register.minted_subset pane new

def Handed.Below (handed : Handed) (ids : Ids) : Prop :=
  (∀ id ∈ handed.panes, id.number < ids.pane.value ∨ id.number = u64Max) ∧
    (∀ id ∈ handed.windows, id.number < ids.window.value ∨ id.number = u64Max) ∧
    ∀ id ∈ handed.sessions, id.number < ids.session.value ∨ id.number = u64Max

end Kido.Tiling

namespace Kido.Tiling

open Kido.Shared

theorem normalize_settleable {draft : DraftLayout} {current : Layout} {ids : Ids} {shell : Option Name}
    {newWindow : Size} {result : Normalized} (ok : normalize draft current ids shell newWindow = .ok result) :
    Settleable current result.layout := by
  obtain ⟨nonempty, wellFormed, claims, _, _, _, grows⟩ := normalize_correct ok
  obtain ⟨_, _, panes⟩ := grows.panes
  obtain ⟨_, windows⟩ := grows.windows
  obtain ⟨_, sessions⟩ := grows.sessions
  exact {
    sound := fun window member => (wellFormed window member).toSound
    focus := fun window member => .inl (wellFormed window member).focus
    panes := panes.out_nodup
    windowIds := windows.out_nodup
    sessionIds := sessions.out_nodup
    nonempty := nonempty }

theorem putWithShell_wellFormed {document : Document} (own : document.layout.WellFormed) (request : PutLayout)
    (newWindow : Option Size) (shell : Option Name) :
    (document.putWithShell request newWindow shell).2.layout.WellFormed := by
  rcases put : document.putWithShell request newWindow shell with ⟨_ | created, after⟩
  · rw [putWithShell_error put]
    exact own
  · obtain ⟨normalized, ok, _, _, layout⟩ := putWithShell_ok put
    simp only [layout]
    exact settle_wellFormed own (normalize_settleable ok)

theorem removePane_wellFormed {document : Document} (own : document.layout.WellFormed) (pane : PaneId) :
    (document.removePane pane).2.layout.WellFormed := by
  cases located : document.layout.locate pane with
  | none => simpa [Document.removePane, located] using own
  | some found =>
    have member := (document.layout.locate_some_iff pane).mp (by rw [located]; rfl)
    simp only [Document.removePane, located, Document.removal]
    exact settle_wellFormed own (removePane_correct own member).1

theorem filterWindows_windowList (layout : Layout) (keep : Window → Bool) :
    Layout.windowList ⟨layout.sessions.map fun session =>
      { session with windows := session.windows.filter keep }⟩ = layout.windowList.filter keep := by
  simp only [Layout.windowList, List.flatMap_map, List.filter_flatMap]

theorem removeWindow_wellFormed {document : Document} (own : document.layout.WellFormed) (id : WindowId) :
    (document.removeWindow id).2.layout.WellFormed := by
  cases found : document.layout.window? id with
  | none => simpa [Document.removeWindow, found] using own
  | some pair =>
    simp only [Document.removeWindow, found, Document.removal]
    refine settle_wellFormed own (Settleable.fewer own ?_ ?_ (prune_nonempty _))
    · rw [prune_windowList, filterWindows_windowList]
      exact List.filter_sublist
    · refine (prune_sessionIds _).trans ?_
      simp [Layout.sessionIds, Function.comp_def]

theorem removeSession_wellFormed {document : Document} (own : document.layout.WellFormed) (id : SessionId) :
    (document.removeSession id).2.layout.WellFormed := by
  cases found : document.layout.session? id with
  | none => simpa [Document.removeSession, found] using own
  | some session =>
    simp only [Document.removeSession, found, Document.removal]
    refine settle_wellFormed own (Settleable.fewer own ?_ (List.filter_sublist.map _) ?_)
    · exact List.filter_sublist.flatMap _
    · exact fun other member => own.nonempty other (List.mem_of_mem_filter member)

theorem focus_wellFormed {document : Document} (own : document.layout.WellFormed) (id : WindowId)
    (pane : PaneId) : (document.focus id pane).2.layout.WellFormed := by
  have same := window_window document.layout id
  cases found : (document.layout.window? id).map Prod.snd with
  | none => simpa [Document.focus, found] using own
  | some window =>
    rw [found] at same
    simp only [Document.focus, found]
    split_ifs with changes
    · have formed := own.windows window (List.mem_of_find?_eq_some same.symm)
      exact own.replace same.symm (fun window => { window with focus := pane })
        ⟨{ formed.toSound with }, (window.has_iff pane).mp changes.2⟩ rfl (.refl _)
    · exact own

theorem resizeWindow_wellFormed {document : Document} (own : document.layout.WellFormed) (id : WindowId)
    (cols rows : Cells) (cellPx : Option CellPixels) :
    (document.resizeWindow id cols rows cellPx).2.layout.WellFormed := by
  have same := window_window document.layout id
  cases found : (document.layout.window? id).map Prod.snd with
  | none => simpa [Document.resizeWindow, found] using own
  | some window =>
    rw [found] at same
    have formed := own.windows window (List.mem_of_find?_eq_some same.symm)
    obtain ⟨resized, sameId, panes⟩ := resize_wellFormed formed (cols.get, rows.get) cols.bound rows.bound cellPx
    simp only [Document.resizeWindow, found]
    split_ifs
    · exact own.replace same.symm (fun _ => (resize window (cols.get, rows.get) cellPx).2) resized sameId panes
    · exact own

theorem publish_layout (document : Document) : document.publish.layout = document.layout := by
  simp only [Document.publish]
  split_ifs <;> rfl

theorem after_wellFormed (past : List Document) (document : Document) (op : Op)
    (own : document.layout.WellFormed) (earlier : ∀ before ∈ past, before.layout.WellFormed) :
    (document.after past op).layout.WellFormed := by
  cases op with
  | put request newWindow shell => exact putWithShell_wellFormed own request newWindow shell
  | removePane pane => exact removePane_wellFormed own pane
  | removeWindow id => exact removeWindow_wellFormed own id
  | removeSession id => exact removeSession_wellFormed own id
  | focus id pane => exact focus_wellFormed own id pane
  | resizeWindow id cols rows cellPx => exact resizeWindow_wellFormed own id cols rows cellPx
  | publish =>
    rw [Document.after, publish_layout]
    exact own
  | rollback back =>
    cases found : past[back]? with
    | none => simpa [Document.after, found] using own
    | some before =>
      simp only [Document.after, found]
      exact earlier before (List.mem_of_getElem? found)

theorem start_wellFormed : World.start.document.layout.WellFormed where
  windows := by simp [World.start, Document.new, Layout.windowList]
  panes := List.nodup_nil
  windowIds := List.nodup_nil
  sessionIds := List.nodup_nil
  nonempty := by simp [World.start, Document.new]

theorem run_wellFormed (ops : List Op) :
    (World.run ops).document.layout.WellFormed ∧ ∀ before ∈ (World.run ops).past, before.layout.WellFormed := by
  refine run_invariant (P := fun world : World =>
    world.document.layout.WellFormed ∧ ∀ before ∈ world.past, before.layout.WellFormed)
    ⟨start_wellFormed, by simp [World.start]⟩ ?_ ops
  rintro world op ⟨own, earlier⟩
  refine ⟨after_wellFormed world.past world.document op own earlier, ?_⟩
  intro before member
  rcases List.mem_cons.mp member with head | tail
  · exact head ▸ own
  · exact earlier before tail

theorem reachable_layout_invariant (ops : List Op) :
    let layout := (World.run ops).document.layout
    layout.WellFormed ∧ ∀ window ∈ layout.windowList, window.panes ≠ [] ∧
      (∀ leaf ∈ window.tree.leaves, ∀ axis, 1 ≤ leaf.extent axis) ∧
      ∀ float ∈ window.floats, 1 ≤ float.cols.get ∧ 1 ≤ float.rows.get := by
  have wellFormed := (run_wellFormed ops).1
  refine ⟨wellFormed, fun window member => ⟨?_, ?_, ?_⟩⟩
  · exact (wellFormed.windows window member).toSound.panes_ne_nil
  · exact fun leaf _ axis => leaf.extent_positive axis
  · exact fun float _ => ⟨float.cols.positive, float.rows.positive⟩

end Kido.Tiling
