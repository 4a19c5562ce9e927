import Kido.Layout.Claims

set_option autoImplicit false

namespace Kido.Tiling

open Kido.Shared

structure Size where
  cols : Cells
  rows : Cells
  cellPx : Option CellPixels

def unsizedWindow : Size := ⟨⟨80, by decide, by decide⟩, ⟨24, by decide, by decide⟩, none⟩

def wantedCells (given old : Option Cells) (default : Cells) : Nat := ((given.or old).getD default).get

namespace Claims

def windowName (draft : DraftWindow) (previous : Option Window) (claims : Claims) : Except String Name :=
  match draft.name, previous with
  | some name, _ => .ok name
  | none, some old => .ok old.name
  | none, none =>
    match (firstLeaf draft.tree).bind fun leaf => claims.defaultName leaf.pane with
    | some name => .ok name
    | none => .error "the window needs a name"

def firstPane (tree : Node Raw) : Except String PaneId :=
  match firstLeaf tree with
  | some raw => .ok raw.pane
  | none => .error "a window needs a pane"

-- The window that `window` builds once every pane of the draft is claimed.
def built (draft : DraftWindow) (id : WindowId) (previous : Option Window) (newWindow : Size) (name : Name)
    (vars : Vars) (focus : PaneId) (tree : Node Raw) (floats : List FloatIn) (cols rows : Nat) : Window where
  id := id
  name := name
  vars := vars
  cols := Cells.clamped cols
  rows := Cells.clamped rows
  cellPx := draft.cellPx.or (match previous with
    | some old => old.cellPx
    | none => newWindow.cellPx)
  zoom := draft.zoom
  focus := focus
  tree := fit tree cols rows
  floats := place floats cols rows

def checkZoom (id : WindowId) (window : Window) : Except String Window :=
  match window.zoom with
  | some zoom => if window.has zoom = true then .ok window else .error s!"{zoom.text} is not in {id.text}"
  | none => .ok window

def window (draft : DraftWindow) (id : WindowId) (previous : Option Window) (newWindow : Size)
    (claims : Claims) : Except String (Window × Claims) := do
  let name ← windowName draft previous claims
  let (tree, claims) ← node draft.tree claims
  let focus ← firstPane tree
  let (floats, claims) ← runAll (draft.floats.map float) claims
  let bordered := floats.any FloatIn.border
  let (cols, rows) := extent tree bordered
    (wantedCells draft.cols (previous.map Window.cols) newWindow.cols,
      wantedCells draft.rows (previous.map Window.rows) newWindow.rows)
  if maxDimension < cols ∨ maxDimension < rows then
    .error s!"{id.text} needs {cols}x{rows} cells, more than the limit"
  else do
    let vars ← Vars.checked draft.vars
    let window ← checkZoom id (built draft id previous newWindow name vars focus tree floats cols rows)
    .ok (window, claims)

def windowId (draft : Option WindowId) (claims : Claims) : Except String (WindowId × Claims) :=
  match draft with
  | some id =>
    if (claims.current.window? id).isSome = true then .ok (id, claims) else .error s!"{id.text} is not a window"
  | none => .ok (claims.ids.mintWindow.1, { claims with ids := claims.ids.mintWindow.2 })

def sessionId (draft : Option SessionId) (claims : Claims) : Except String (SessionId × Claims) :=
  match draft with
  | some id =>
    if (claims.current.session? id).isSome = true then .ok (id, claims) else .error s!"{id.text} is not a session"
  | none => .ok (claims.ids.mintSession.1, { claims with ids := claims.ids.mintSession.2 })

def seeWindow (claims : Claims) (id : WindowId) : Except String Claims :=
  if id ∈ claims.windowIds then .error s!"{id.text} is in the layout twice"
  else .ok { claims with windowIds := claims.windowIds ++ [id] }

def seeSession (claims : Claims) (id : SessionId) : Except String Claims :=
  if id ∈ claims.sessionIds then .error s!"{id.text} is in the layout twice"
  else .ok { claims with sessionIds := claims.sessionIds ++ [id] }

-- One turn of the loop of `normalize` over the windows of a session.
def draftWindow (newWindow : Size) (draft : DraftWindow) (claims : Claims) : Except String (Window × Claims) := do
  let (id, claims) ← windowId draft.id claims
  let claims ← claims.seeWindow id
  window draft id ((claims.current.window? id).map Prod.snd) newWindow claims

def draftSession (newWindow : Size) (draft : DraftSession) (claims : Claims) :
    Except String (Session × Claims) := do
  let (id, claims) ← sessionId draft.id claims
  let claims ← claims.seeSession id
  if draft.windows = [] then .error s!"{id.text} needs a window"
  else do
    let (windows, claims) ← runAll (draft.windows.map (draftWindow newWindow)) claims
    let vars ← Vars.checked draft.vars
    .ok (⟨id, draft.name, vars, windows⟩, claims)

def missing (claims : Claims) : Option PaneId :=
  (((claims.current.panes.filter fun pane => decide (pane ∉ claims.seen)).map PaneId.number).min?).map PaneId.mk

end Claims

structure Normalized where
  layout : Layout
  created : List (PaneId × CreatePane × Vars)
  ids : Ids

def startClaims (current : Layout) (ids : Ids) (shell : Option Name) : Claims where
  current := current
  shell := shell
  seen := []
  ids := ids
  created := []
  sessionIds := []
  windowIds := []

def normalize (draft : DraftLayout) (current : Layout) (ids : Ids) (shell : Option Name) (newWindow : Size) :
    Except String Normalized := do
  let (sessions, claims) ← runAll (draft.sessions.map (Claims.draftSession newWindow)) (startClaims current ids shell)
  match claims.missing with
  | some pane => .error s!"{pane.text} is in no window"
  | none => .ok ⟨⟨sessions⟩, claims.created, claims.ids⟩

-- What holds of a window on its own, but for its focus.
structure Window.Sound (window : Window) : Prop where
  tiles : ∀ axis, Spans axis window.tree (window.size axis)
  zoom : ∀ pane, window.zoom = some pane → pane ∈ window.panes
  z : window.floats.map Float.z = List.range window.floats.length
  inside : ∀ float ∈ window.floats, float.Inside window.cols.get window.rows.get

structure Window.WellFormed (window : Window) : Prop extends Window.Sound window where
  focus : window.focus ∈ window.panes

theorem extent_correct {L : Type} (tree : Node L) (bordered : Bool) (wanted : Nat × Nat) (axis : Axis) :
    let size := pick axis (extent tree bordered wanted).1 (extent tree bordered wanted).2
    pick axis wanted.1 wanted.2 ≤ size ∧ tree.minimum axis ≤ size ∧ (if bordered then 3 else 1) ≤ size := by
  cases axis <;> simp [extent, pick]

theorem border_room (floats : List FloatIn) (float : FloatIn) (member : float ∈ floats) (size : Nat)
    (room : (if floats.any FloatIn.border then 3 else 1) ≤ size) : 1 + 2 * float.pad ≤ size := by
  cases border : float.border with
  | true =>
    have any : floats.any FloatIn.border = true := List.any_eq_true.mpr ⟨float, member, border⟩
    simp only [any, if_true, FloatIn.pad, border] at room ⊢
    omega
  | false =>
    simp only [FloatIn.pad, border, Bool.false_eq_true, if_false]
    split_ifs at room <;> omega

namespace Claims

theorem built_panes (draft : DraftWindow) (id : WindowId) (previous : Option Window) (newWindow : Size)
    (name : Name) (vars : Vars) (focus : PaneId) (tree : Node Raw) (floats : List FloatIn) (cols rows : Nat) :
    (tree.leaves.map Raw.pane ++ floats.map FloatIn.pane).Perm
      (built draft id previous newWindow name vars focus tree floats cols rows).panes := by
  simp only [Window.panes, built, fit_panes]
  exact (place_panes floats cols rows).symm.append_left _

theorem checkZoom_ok_iff {id : WindowId} {window result : Window} :
    checkZoom id window = .ok result ↔
      result = window ∧ ∀ pane, window.zoom = some pane → pane ∈ window.panes := by
  cases zoom : window.zoom with
  | none => simp [checkZoom, zoom, eq_comm]
  | some pane =>
    simp only [checkZoom, zoom]
    rw [accept_ok_iff, Window.has_iff]
    simp [eq_comm, and_comm]

theorem firstPane_mem {tree : Node Raw} {focus : PaneId} (found : firstPane tree = .ok focus) :
    focus ∈ tree.leaves.map Raw.pane := by
  cases first : firstLeaf tree with
  | none => simp [firstPane, first] at found
  | some raw =>
    have same : raw.pane = focus := by simpa [firstPane, first] using found
    exact same ▸ List.mem_map_of_mem (firstLeaf_mem tree raw first)

theorem window_correct {draft : DraftWindow} {id : WindowId} {previous : Option Window} {newWindow : Size}
    {claims after : Claims} {result : Window}
    (built_ : window draft id previous newWindow claims = .ok (result, after)) :
    result.id = id ∧ result.WellFormed ∧ Grows claims result.panes [] [] after := by
  obtain ⟨name, _, step⟩ := bind_ok_iff.mp built_
  obtain ⟨⟨tree, middle⟩, claimed, step⟩ := bind_ok_iff.mp step
  obtain ⟨focus, focused, step⟩ := bind_ok_iff.mp step
  obtain ⟨⟨floats, last⟩, floated, step⟩ := bind_ok_iff.mp step
  obtain ⟨branching, treeGrows⟩ := node_grows draft.tree claimed
  have floatsGrow := floats_grow floated
  simp only at step
  generalize asked : (wantedCells draft.cols (previous.map Window.cols) newWindow.cols,
    wantedCells draft.rows (previous.map Window.rows) newWindow.rows) = wanted at step
  obtain ⟨within, step⟩ := guard_ok_iff.mp step
  obtain ⟨vars, _, step⟩ := bind_ok_iff.mp step
  obtain ⟨window, zoomed, step⟩ := bind_ok_iff.mp step
  cases step
  have room := extent_correct tree (floats.any FloatIn.border) wanted
  generalize extent tree (floats.any FloatIn.border) wanted = size at within zoomed room
  have panes := built_panes draft id previous newWindow name vars focus tree floats size.1 size.2
  have bounds : size.1 ≤ maxDimension ∧ size.2 ≤ maxDimension := by omega
  have width := room .horizontal
  have height := room .vertical
  simp only [pick] at width height
  have positive : 1 ≤ size.1 ∧ 1 ≤ size.2 := by
    have one : 1 ≤ if floats.any FloatIn.border = true then 3 else 1 := by split_ifs <;> omega
    exact ⟨one.trans width.2.2, one.trans height.2.2⟩
  obtain ⟨rfl, zoom⟩ := checkZoom_ok_iff.mp zoomed
  have cols : (Cells.clamped size.1).get = size.1 := Cells.clamped_get _ positive.1 bounds.1
  have rows : (Cells.clamped size.2).get = size.2 := Cells.clamped_get _ positive.2 bounds.2
  refine ⟨rfl, ⟨⟨?_, zoom, place_z floats size.1 size.2, ?_⟩, ?_⟩, ?_⟩
  · intro axis
    have fits : Fits tree size.1 size.2 := ⟨fun axis => (room axis).2.1, fun axis => by cases axis <;> simp [pick, bounds],
      fun axis => by cases axis <;> simp [pick, positive]⟩
    have spans := fits.spans branching axis
    have filled : (built draft id previous newWindow name vars focus tree floats size.1 size.2).size axis =
        pick axis size.1 size.2 := by
      cases axis <;> simp [Window.size, built, pick, cols, rows]
    rw [filled]
    exact spans
  · have inside := place_inside floats size.1 size.2
      (fun float member => border_room floats float member size.1 width.2.2)
      (fun float member => border_room floats float member size.2 height.2.2) bounds.1 bounds.2
    simpa only [built, cols, rows] using inside
  · exact panes.mem_iff.mp (List.mem_append_left _ (firstPane_mem focused))
  · have grows := treeGrows.trans floatsGrow
    exact grows.perm panes

theorem windowId_grows {draft : Option WindowId} {claims middle after : Claims} {id : WindowId}
    (found : windowId draft claims = .ok (id, middle)) (seen : middle.seeWindow id = .ok after) :
    Grows claims [] [id] [] after := by
  obtain ⟨absent, same⟩ := guard_ok_iff.mp seen
  cases same
  match draft with
  | some given =>
    obtain ⟨known, same⟩ := accept_ok_iff.mp found
    cases same
    exact { Grows.refl claims with
      windows := ⟨[], .named claims.ids.window.bound claims.windowIds id known absent⟩ }
  | none =>
    cases found
    exact { Grows.refl claims with
      windows := ⟨[claims.ids.mintWindow.1],
        .mint claims.ids.window.bound claims.windowIds claims.ids.mintWindow.1 rfl absent⟩ }

theorem sessionId_grows {draft : Option SessionId} {claims middle after : Claims} {id : SessionId}
    (found : sessionId draft claims = .ok (id, middle)) (seen : middle.seeSession id = .ok after) :
    Grows claims [] [] [id] after := by
  obtain ⟨absent, same⟩ := guard_ok_iff.mp seen
  cases same
  match draft with
  | some given =>
    obtain ⟨known, same⟩ := accept_ok_iff.mp found
    cases same
    exact { Grows.refl claims with
      sessions := ⟨[], .named claims.ids.session.bound claims.sessionIds id known absent⟩ }
  | none =>
    cases found
    exact { Grows.refl claims with
      sessions := ⟨[claims.ids.mintSession.1],
        .mint claims.ids.session.bound claims.sessionIds claims.ids.mintSession.1 rfl absent⟩ }

theorem draftWindow_correct {newWindow : Size} {draft : DraftWindow} {claims after : Claims} {result : Window}
    (walked : draftWindow newWindow draft claims = .ok (result, after)) :
    result.WellFormed ∧ Grows claims result.panes [result.id] [] after := by
  obtain ⟨⟨id, middle⟩, found, step⟩ := bind_ok_iff.mp walked
  obtain ⟨last, seen, step⟩ := bind_ok_iff.mp step
  obtain ⟨rfl, wellFormed, grows⟩ := window_correct step
  exact ⟨wellFormed, by simpa using (windowId_grows found seen).trans grows⟩

theorem draftSession_correct {newWindow : Size} {draft : DraftSession} {claims after : Claims} {result : Session}
    (walked : draftSession newWindow draft claims = .ok (result, after)) :
    result.windows ≠ [] ∧ (∀ window ∈ result.windows, window.WellFormed) ∧
      Grows claims result.panes (result.windows.map Window.id) [result.id] after := by
  obtain ⟨⟨id, middle⟩, found, step⟩ := bind_ok_iff.mp walked
  obtain ⟨next, seen, step⟩ := bind_ok_iff.mp step
  obtain ⟨some_, step⟩ := guard_ok_iff.mp step
  obtain ⟨⟨windows, last⟩, run, step⟩ := bind_ok_iff.mp step
  obtain ⟨vars, _, step⟩ := bind_ok_iff.mp step
  cases step
  have steps : ∀ step ∈ draft.windows.map (draftWindow newWindow), ∀ state value next,
      step state = .ok (value, next) → value.WellFormed ∧ Grows state value.panes [value.id] [] next := by
    intro step member state value next stepped
    obtain ⟨window, _, rfl⟩ := List.mem_map.mp member
    exact draftWindow_correct stepped
  refine ⟨?_, ?_, ?_⟩
  · intro empty
    have length := runAll_length run
    rw [show windows = [] from empty, List.length_map] at length
    exact some_ (List.length_eq_zero_iff.mp length.symm)
  · exact runAll_values (fun step member state value next stepped =>
      (steps step member state value next stepped).1) run
  · have grows : Grows next (windows.flatMap Window.panes) (windows.map Window.id) [] after := by
      refine runAll_related (R := fun state values next =>
        Grows state (values.flatMap Window.panes) (values.map Window.id) [] next) Grows.refl ?_ ?_ run
      · intro state next last value values first rest
        simpa using first.trans rest
      · intro step member state value next stepped
        simpa using (steps step member state value next stepped).2
    exact (sessionId_grows found seen).trans grows

theorem missing_none_iff (claims : Claims) :
    claims.missing = none ↔ ∀ pane ∈ claims.current.panes, pane ∈ claims.seen := by
  simp only [missing, Option.map_eq_none_iff, List.min?_eq_none_iff, List.map_eq_nil_iff,
    List.filter_eq_nil_iff, decide_eq_true_eq, not_not]

end Claims

theorem normalize_correct {draft : DraftLayout} {current : Layout} {ids : Ids} {shell : Option Name}
    {newWindow : Size} {result : Normalized} (ok : normalize draft current ids shell newWindow = .ok result) :
    (∀ session ∈ result.layout.sessions, session.windows ≠ []) ∧
      (∀ window ∈ result.layout.windowList, window.WellFormed) ∧
      ∃ claims : Claims, claims.created = result.created ∧ claims.ids = result.ids ∧
        (∀ pane ∈ current.panes, pane ∈ claims.seen) ∧
        Grows (startClaims current ids shell) result.layout.panes result.layout.windowIds
          result.layout.sessionIds claims := by
  obtain ⟨⟨sessions, claims⟩, run, step⟩ := bind_ok_iff.mp ok
  have steps : ∀ step ∈ draft.sessions.map (Claims.draftSession newWindow), ∀ state value next,
      step state = .ok (value, next) → value.windows ≠ [] ∧ (∀ window ∈ value.windows, window.WellFormed) ∧
        Grows state value.panes (value.windows.map Window.id) [value.id] next := by
    intro step member state value next stepped
    obtain ⟨session, _, rfl⟩ := List.mem_map.mp member
    exact Claims.draftSession_correct stepped
  have grows : Grows (startClaims current ids shell) (sessions.flatMap Session.panes)
      (sessions.flatMap fun session => session.windows.map Window.id) (sessions.map Session.id) claims := by
    refine runAll_related (R := fun state values next => Grows state (values.flatMap Session.panes)
      (values.flatMap fun session => session.windows.map Window.id) (values.map Session.id) next)
      Grows.refl ?_ ?_ run
    · intro state next last value values first rest
      simpa using first.trans rest
    · intro step member state value next stepped
      simpa using (steps step member state value next stepped).2.2
  have present := runAll_values (fun step member state value next stepped =>
    (steps step member state value next stepped).1) run
  have wellFormed := runAll_values (fun step member state value next stepped =>
    (steps step member state value next stepped).2.1) run
  cases missing : claims.missing with
  | some pane => simp [missing] at step
  | none =>
    simp only [missing, Except.ok.injEq] at step
    subst step
    refine ⟨present, ?_, claims, rfl, rfl, ?_, ?_⟩
    · intro window member
      obtain ⟨session, inside, own⟩ := (Layout.mem_windowList_iff _ window).mp member
      exact wellFormed session inside window own
    · have all := claims.missing_none_iff.mp missing
      rwa [grows.current] at all
    · have panes : Layout.panes ⟨sessions⟩ = sessions.flatMap Session.panes := by
        simp only [Layout.panes, Layout.windowList, List.flatMap_assoc]
        rfl
      have windows : Layout.windowIds ⟨sessions⟩ =
          sessions.flatMap fun session => session.windows.map Window.id := by
        simp only [Layout.windowIds, Layout.windowList, List.map_flatMap]
      rw [panes, windows]
      exact grows

end Kido.Tiling
