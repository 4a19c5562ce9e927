import Kido.Layout.Settle

set_option autoImplicit false

namespace Kido.Tiling

@[grind =]
def replaceFirst {α : Type} (fits : α → Bool) (f : α → List α) : List α → List α
  | [] => []
  | item :: rest => if fits item then f item ++ rest else item :: replaceFirst fits f rest

def Layout.replaceFirst (fits : Window → Bool) (f : Window → List Window) (layout : Layout) : Layout :=
  ⟨Tiling.replaceFirst (fun session => session.windows.any fits)
    (fun session => [{ session with windows := Tiling.replaceFirst fits f session.windows }]) layout.sessions⟩

inductive PutError where
  | stale
  | invalid (message : String)
deriving DecidableEq

structure Document where
  revision : Revision
  unpublished : Bool
  layout : Layout
  ids : Ids
deriving DecidableEq

structure Removal where
  panes : List PaneId
  before : Layout

inductive Resized where
  | unknown
  | same
  | changed
deriving DecidableEq

-- `resize`: the window after it, and whether anything of it changed.
def resize (window : Window) (wanted : Nat × Nat) (cellPx : Option CellPixels) : Bool × Window :=
  let bordered := window.floats.any Float.border
  let (cols, rows) := extent window.tree bordered wanted
  let tree := resizeAxis .vertical (resizeAxis .horizontal window.tree cols) rows
  let cellPx := cellPx.or window.cellPx
  let floats := place (window.floats.map Float.input) cols rows
  let resized := { window with
    tree := tree
    floats := floats
    cols := Cells.clamped cols
    rows := Cells.clamped rows
    cellPx := cellPx }
  if resized ≠ window then (true, resized) else (false, window)

def renumber (floats : List Float) : List Float :=
  floats.zipIdx.map fun (float, z) => { float with z := z }

-- The window without the pane, or nothing where the pane was all it had.
def Window.removed (pane : PaneId) (window : Window) : Option Window :=
  match window.floats.findIdx? fun float => decide (float.pane = pane) with
  | some index => some { window with floats := window.floats.eraseIdx index }
  | none =>
    match removeLeaf pane window.tree, window.floats with
    | some tree, _ => some { window with tree := tree }
    | none, [] => none
    | none, float :: rest =>
      some { window with tree := .leaf ⟨float.pane, window.cols, window.rows⟩, floats := rest }

def Window.tidied (pane : PaneId) (window : Window) : Window :=
  { window with
    floats := renumber window.floats
    zoom := if window.zoom = some pane then none else window.zoom }

def Window.without (pane : PaneId) (window : Window) : Option Window :=
  (window.removed pane).map (Window.tidied pane)

def removePane (pane : PaneId) (layout : Layout) : Layout :=
  match (layout.locate pane).map fun found => found.2.without pane with
  | none => layout
  | some none => prune (layout.replaceFirst (fun window => window.has pane) fun _ => [])
  | some (some window) => layout.replaceFirst (fun window => window.has pane) fun _ => [window]

namespace Document

def new : Document where
  revision := .first
  unpublished := false
  layout := ⟨[]⟩
  ids := ⟨.one, .one, .one⟩

def replace (document : Document) (layout : Layout) : Document :=
  let layout := settle document.layout layout
  if layout ≠ document.layout then { document with layout := layout, unpublished := true } else document

def putWithShell (document : Document) (request : PutLayout) (newWindow : Option Size) (shell : Option Name) :
    Except PutError (List (PaneId × CreatePane × Vars)) × Document :=
  if request.revision ≠ document.revision then (.error .stale, document)
  else
    match normalize request.layout document.layout document.ids shell (newWindow.getD unsizedWindow) with
    | .error message => (.error (.invalid message), document)
    | .ok normalized => (.ok normalized.created, { document with ids := normalized.ids }.replace normalized.layout)

def removal (document : Document) (panes : List PaneId) (change : Layout → Layout) : Removal × Document :=
  (⟨panes, document.layout⟩,
    { document with layout := settle document.layout (change document.layout), unpublished := true })

def removePane (document : Document) (pane : PaneId) : Option Removal × Document :=
  match document.layout.locate pane with
  | none => (none, document)
  | some _ =>
    let (removal, document) := document.removal [pane] (Tiling.removePane pane)
    (some removal, document)

def removeWindow (document : Document) (id : WindowId) : Option Removal × Document :=
  match document.layout.window? id with
  | none => (none, document)
  | some (_, window) =>
    let (removal, document) := document.removal window.panes fun layout =>
      prune ⟨layout.sessions.map fun session =>
        { session with windows := session.windows.filter fun found => decide (found.id ≠ id) }⟩
    (some removal, document)

def removeSession (document : Document) (id : SessionId) : Option Removal × Document :=
  match document.layout.session? id with
  | none => (none, document)
  | some session =>
    let (removal, document) := document.removal session.panes fun layout =>
      ⟨layout.sessions.filter fun found => decide (found.id ≠ id)⟩
    (some removal, document)

def publish (document : Document) : Document :=
  if document.unpublished then { document with unpublished := false, revision := document.revision.next }
  else document

def focus (document : Document) (id : WindowId) (pane : PaneId) : Bool × Document :=
  match (document.layout.window? id).map Prod.snd with
  | none => (false, document)
  | some found =>
    if found.focus ≠ pane ∧ found.has pane = true then
      (true, { document with layout :=
        document.layout.replaceFirst (fun window => decide (window.id = id)) fun window =>
          [{ window with focus := pane }] })
    else (false, document)

def rollback (document before : Document) : Document := { before with ids := document.ids }

def resizeWindow (document : Document) (id : WindowId) (cols rows : Cells) (cellPx : Option CellPixels) :
    Resized × Document :=
  match (document.layout.window? id).map Prod.snd with
  | none => (.unknown, document)
  | some found =>
    let (changed, window) := resize found (cols.get, rows.get) cellPx
    if changed then
      (.changed, { document with
        layout := document.layout.replaceFirst (fun window => decide (window.id = id)) fun _ => [window]
        unpublished := true })
    else (.same, document)

end Document

end Kido.Tiling

namespace Kido.Tiling

open Kido.Shared

theorem replaceFirst_pos {α : Type} (fits : α → Bool) (f : α → List α) {first : α} {rest : List α}
    (here : fits first = true) : replaceFirst fits f (first :: rest) = f first ++ rest := by
  rw [replaceFirst, if_pos here]

theorem replaceFirst_neg {α : Type} (fits : α → Bool) (f : α → List α) {first : α} {rest : List α}
    (other : ¬fits first = true) : replaceFirst fits f (first :: rest) = first :: replaceFirst fits f rest := by
  rw [replaceFirst, if_neg other]

theorem replaceFirst_eq {α : Type} {fits : α → Bool} (f : α → List α) {list : List α} {item : α}
    (found : list.find? fits = some item) :
    ∃ before after, list = before ++ item :: after ∧ replaceFirst fits f list = before ++ (f item ++ after) := by
  induction list with
  | nil => simp at found
  | cons first rest ih =>
    by_cases here : fits first = true
    · rw [List.find?_cons_of_pos here] at found
      cases found
      exact ⟨[], rest, rfl, by simp [replaceFirst, here]⟩
    · rw [List.find?_cons_of_neg here] at found
      obtain ⟨before, after, rfl, same⟩ := ih found
      exact ⟨first :: before, after, rfl, by simp [replaceFirst, here, same]⟩

theorem replaceFirst_map {α β : Type} (g : α → β) (fits : α → Bool) (f : α → List α)
    (same : ∀ item, (f item).map g = [g item]) (list : List α) :
    (replaceFirst fits f list).map g = list.map g := by
  induction list with
  | nil => rfl
  | cons first rest ih =>
    by_cases here : fits first = true
    · simp [replaceFirst, here, same]
    · simp [replaceFirst, here, ih]

section Windows

variable (layout : Layout) (fits : Window → Bool) (f : Window → List Window)

theorem windowList_find? : layout.windowList.find? fits = (layout.windows.find? fun found => fits found.2).map
    Prod.snd := by
  rw [← Layout.windows_map_snd, List.find?_map]
  rfl

variable {layout fits}

theorem Layout.replaceFirst_windowList {window : Window} (found : layout.windowList.find? fits = some window) :
    ∃ before after, layout.windowList = before ++ window :: after ∧
      (layout.replaceFirst fits f).windowList = before ++ (f window ++ after) := by
  have walk (sessions : List Session) (found : (sessions.flatMap Session.windows).find? fits = some window) :
      ∃ before after, sessions.flatMap Session.windows = before ++ window :: after ∧
        (Tiling.replaceFirst (fun session => session.windows.any fits)
          (fun session => [{ session with windows := Tiling.replaceFirst fits f session.windows }])
          sessions).flatMap Session.windows = before ++ (f window ++ after) := by
    induction sessions with
    | nil => simp at found
    | cons session rest ih =>
      rw [List.flatMap_cons, List.find?_append] at found
      cases own : session.windows.find? fits with
      | some first =>
        rw [own] at found
        cases found
        have any : session.windows.any fits = true := by
          rw [List.any_eq_true]
          exact ⟨window, List.mem_of_find?_eq_some own, List.find?_some own⟩
        obtain ⟨before, after, split, same⟩ := replaceFirst_eq f own
        exact ⟨before, after ++ rest.flatMap Session.windows, by simp [split],
          by simp [Tiling.replaceFirst, any, same]⟩
      | none =>
        rw [own, Option.none_or] at found
        have none_ : ¬session.windows.any fits = true := by
          rw [List.any_eq_true]
          rintro ⟨other, member, holds⟩
          exact List.find?_eq_none.mp own other member holds
        obtain ⟨before, after, split, same⟩ := ih found
        exact ⟨session.windows ++ before, after, by simp [split],
          by rw [replaceFirst_neg (fun session : Session => session.windows.any fits) _ none_, List.flatMap_cons, same, List.append_assoc]⟩
  exact walk layout.sessions found

variable (layout fits)

theorem Layout.replaceFirst_sessionIds : (layout.replaceFirst fits f).sessionIds = layout.sessionIds :=
  replaceFirst_map Session.id _ _ (fun _ => rfl) layout.sessions

theorem Layout.replaceFirst_nonempty (some_ : ∀ window, f window ≠ [])
    (nonempty : ∀ session ∈ layout.sessions, session.windows ≠ []) :
    ∀ session ∈ (layout.replaceFirst fits f).sessions, session.windows ≠ [] := by
  have stays (list : List Window) (some' : list ≠ []) : Tiling.replaceFirst fits f list ≠ [] := by
    match list with
    | [] => exact absurd rfl some'
    | first :: rest =>
      by_cases here : fits first = true <;> simp [Tiling.replaceFirst, here, some_]
  have walk (sessions : List Session) (nonempty : ∀ session ∈ sessions, session.windows ≠ []) :
      ∀ session ∈ Tiling.replaceFirst (fun session => session.windows.any fits)
        (fun session => [{ session with windows := Tiling.replaceFirst fits f session.windows }]) sessions,
        session.windows ≠ [] := by
    induction sessions with
    | nil => simp [Tiling.replaceFirst]
    | cons first rest ih =>
      have head := nonempty first (by simp)
      have tail : ∀ session ∈ rest, session.windows ≠ [] := fun session member => nonempty session (by simp [member])
      by_cases here : first.windows.any fits = true
      · rw [replaceFirst_pos (fun session : Session => session.windows.any fits) _ here, List.singleton_append, List.forall_mem_cons]
        exact ⟨stays _ head, tail⟩
      · rw [replaceFirst_neg (fun session : Session => session.windows.any fits) _ here, List.forall_mem_cons]
        exact ⟨head, ih tail⟩
  exact walk layout.sessions nonempty

end Windows

theorem Layout.replaceFirst_perm {layout : Layout} {fits : Window → Bool} {window : Window}
    (found : layout.windowList.find? fits = some window) (f : Window → Window) (panes : (f window).panes.Perm window.panes) :
    (layout.replaceFirst fits fun window => [f window]).panes.Perm layout.panes := by
  obtain ⟨before, after, split, same⟩ := Layout.replaceFirst_windowList (fun window => [f window]) found
  simp only [Layout.panes, split, same, List.flatMap_append, List.flatMap_cons, List.flatMap_nil, List.append_nil]
  exact (panes.append_right _).append_left _

theorem Layout.WellFormed.replace {layout : Layout} (wellFormed : layout.WellFormed) {fits : Window → Bool}
    {window : Window} (found : layout.windowList.find? fits = some window) (f : Window → Window)
    (own : (f window).WellFormed) (id : (f window).id = window.id) (panes : (f window).panes.Perm window.panes) :
    (layout.replaceFirst fits fun window => [f window]).WellFormed := by
  obtain ⟨before, after, split, same⟩ := Layout.replaceFirst_windowList (fun window => [f window]) found
  have ids : (layout.replaceFirst fits fun window => [f window]).windowIds = layout.windowIds := by
    simp [Layout.windowIds, split, same, id]
  have perm := Layout.replaceFirst_perm found f panes
  refine ⟨?_, perm.nodup_iff.mpr wellFormed.panes, ids ▸ wellFormed.windowIds, ?_, ?_⟩
  · intro other member
    rw [same] at member
    rcases List.mem_append.mp member with left | right
    · exact wellFormed.windows other (by simp [split, left])
    · rcases List.mem_cons.mp right with head | tail
      · rw [head]
        exact own
      · exact wellFormed.windows other (by simp [split, show other ∈ after from tail])
  · rw [Layout.replaceFirst_sessionIds]
    exact wellFormed.sessionIds
  · exact Layout.replaceFirst_nonempty layout fits _ (by simp) wellFormed.nonempty

theorem Window.tree_bound (window : Window) (axis : Axis) : window.size axis ≤ maxDimension :=
  Cells.bound _

theorem extent_bound {window : Window} (sound : window.Sound) (wanted : Nat × Nat)
    (narrow : wanted.1 ≤ maxDimension) (short : wanted.2 ≤ maxDimension) (axis : Axis) :
    let size := extent window.tree (window.floats.any Float.border) wanted
    1 ≤ pick axis size.1 size.2 ∧ pick axis size.1 size.2 ≤ maxDimension ∧
      window.tree.minimum axis ≤ pick axis size.1 size.2 := by
  have least := (sound.tiles axis).minimum_le
  have limit := window.tree_bound axis
  have three : (if window.floats.any Float.border then 3 else 1) ≤ maxDimension := by split_ifs <;> decide
  have one : 1 ≤ (if window.floats.any Float.border then 3 else 1) := by split_ifs <;> decide
  cases axis <;> simp only [extent, pick] <;> omega

theorem resize_wellFormed {window : Window} (wellFormed : window.WellFormed) (wanted : Nat × Nat)
    (narrow : wanted.1 ≤ maxDimension) (short : wanted.2 ≤ maxDimension) (cellPx : Option CellPixels) :
    (resize window wanted cellPx).2.WellFormed ∧ (resize window wanted cellPx).2.id = window.id ∧
      (resize window wanted cellPx).2.panes.Perm window.panes := by
  have bounds := extent_bound wellFormed.toSound wanted narrow short
  have room := extent_correct window.tree (window.floats.any Float.border) wanted
  simp only at bounds room
  generalize sized : extent window.tree (window.floats.any Float.border) wanted = size at bounds room
  generalize treed : resizeAxis .vertical (resizeAxis .horizontal window.tree size.1) size.2 = tree
  generalize pixels : cellPx.or window.cellPx = px
  have wide := bounds .horizontal
  have tall := bounds .vertical
  simp only [pick] at wide tall
  have cols : (Cells.clamped size.1).get = size.1 := Cells.clamped_get _ wide.1 wide.2.1
  have rows : (Cells.clamped size.2).get = size.2 := Cells.clamped_get _ tall.1 tall.2.1
  let resized : Window := { window with
    tree := tree
    floats := place (window.floats.map Float.input) size.1 size.2
    cols := Cells.clamped size.1
    rows := Cells.clamped size.2
    cellPx := px }
  have result : (resize window wanted cellPx).2 = resized ∨ (resize window wanted cellPx).2 = window := by
    simp only [resize, sized, treed, pixels]
    split_ifs
    · exact .inl rfl
    · exact .inr rfl
  rcases result with changed | same
  · have kept : Kept .horizontal window.tree (resizeAxis .horizontal window.tree size.1) := resizeAxis_kept _ _ _
    have kept' : Kept .vertical (resizeAxis .horizontal window.tree size.1) tree := treed ▸ resizeAxis_kept _ _ _
    have treePanes : tree.panes = window.tree.panes := kept'.panes.trans kept.panes
    have floatPanes := place_panes (window.floats.map Float.input) size.1 size.2
    have panes : resized.panes.Perm window.panes := by
      simp only [Window.panes, resized, treePanes]
      refine List.Perm.append_left _ (floatPanes.trans ?_)
      rw [List.map_map]
      exact .refl _
    have horizontal : Spans .horizontal tree size.1 := by
      have spans := resizeAxis_spans .horizontal window.tree _ size.1 (wellFormed.tiles .horizontal)
        (window.tree_bound .horizontal) wide.2.1
      rw [max_eq_left wide.2.2] at spans
      exact kept'.2 .horizontal (by simp) _ spans
    have vertical : Spans .vertical tree size.2 := by
      have before := kept.2 .vertical (by simp) _ (wellFormed.tiles .vertical)
      have spans := resizeAxis_spans .vertical _ _ size.2 before (window.tree_bound .vertical) tall.2.1
      rw [kept.minimum, max_eq_left tall.2.2, treed] at spans
      exact spans
    have border : (window.floats.map Float.input).any FloatIn.border = window.floats.any Float.border := by
      rw [List.any_map]
      rfl
    rw [changed]
    refine ⟨⟨⟨?_, ?_, place_z _ _ _, ?_⟩, ?_⟩, rfl, panes⟩
    · intro axis
      cases axis with
      | horizontal => simpa [Window.size, resized, pick, cols] using horizontal
      | vertical => simpa [Window.size, resized, pick, rows] using vertical
    · intro pane zoom
      exact panes.mem_iff.mpr (wellFormed.zoom pane zoom)
    · have inside := place_inside (window.floats.map Float.input) size.1 size.2
        (fun float member => border_room _ float member size.1 (by rw [border]; exact (room .horizontal).2.2))
        (fun float member => border_room _ float member size.2 (by rw [border]; exact (room .vertical).2.2))
        wide.2.1 tall.2.1
      simpa only [resized, cols, rows] using inside
    · exact panes.mem_iff.mpr wellFormed.focus
  · rw [same]
    exact ⟨wellFormed, rfl, .refl _⟩

end Kido.Tiling
