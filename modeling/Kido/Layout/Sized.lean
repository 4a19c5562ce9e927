import Kido.Layout.Fair
import Kido.Layout.Reachable

set_option autoImplicit false

namespace Kido.Tiling

open Kido.Shared

namespace Claims

-- The claims after a part of a draft that only names what is there.
def named (claims : Claims) (panes : List PaneId) (windows : List WindowId) (sessions : List SessionId) : Claims :=
  { claims with
    seen := claims.seen ++ panes
    windowIds := claims.windowIds ++ windows
    sessionIds := claims.sessionIds ++ sessions }

@[simp]
theorem named_nil (claims : Claims) : claims.named [] [] [] = claims := by
  simp [named]

@[simp]
theorem named_named (claims : Claims) (panes panes' : List PaneId) (windows windows' : List WindowId)
    (sessions sessions' : List SessionId) :
    (claims.named panes windows sessions).named panes' windows' sessions' =
      claims.named (panes ++ panes') (windows ++ windows') (sessions ++ sessions') := by
  simp [named]

-- Ids that can still be named: known ones, each for the first time.
structure Unnamed {ι : Type} (known : ι → Prop) (seen ids : List ι) : Prop where
  known : ∀ id ∈ ids, known id
  absent : ∀ id ∈ ids, id ∉ seen
  distinct : ids.Nodup

theorem Unnamed.left {ι : Type} {known : ι → Prop} {seen first second : List ι}
    (unnamed : Unnamed known seen (first ++ second)) : Unnamed known seen first where
  known := fun id member => unnamed.known id (List.mem_append_left _ member)
  absent := fun id member => unnamed.absent id (List.mem_append_left _ member)
  distinct := unnamed.distinct.of_append_left

theorem Unnamed.right {ι : Type} {known : ι → Prop} {seen first second : List ι}
    (unnamed : Unnamed known seen (first ++ second)) : Unnamed known (seen ++ first) second where
  known := fun id member => unnamed.known id (List.mem_append_right _ member)
  absent := fun id member named => by
    rcases List.mem_append.mp named with old | new
    · exact unnamed.absent id (List.mem_append_right _ member) old
    · exact (List.nodup_append.mp unnamed.distinct).2.2 id new id member rfl
  distinct := unnamed.distinct.of_append_right

structure Namable (claims : Claims) (panes : List PaneId) (windows : List WindowId) (sessions : List SessionId) :
    Prop where
  panes : Unnamed (· ∈ claims.current.panes) claims.seen panes
  windows : Unnamed (fun id => (claims.current.window? id).isSome = true) claims.windowIds windows
  sessions : Unnamed (fun id => (claims.current.session? id).isSome = true) claims.sessionIds sessions

namespace Namable

variable {claims : Claims} {panes panes' : List PaneId} {windows windows' : List WindowId}
  {sessions sessions' : List SessionId}

theorem left (namable : claims.Namable (panes ++ panes') (windows ++ windows') (sessions ++ sessions')) :
    claims.Namable panes windows sessions :=
  ⟨namable.panes.left, namable.windows.left, namable.sessions.left⟩

theorem right (namable : claims.Namable (panes ++ panes') (windows ++ windows') (sessions ++ sessions')) :
    (claims.named panes windows sessions).Namable panes' windows' sessions' :=
  ⟨namable.panes.right, namable.windows.right, namable.sessions.right⟩

end Namable

theorem pane_named {claims : Claims} {pane : PaneId} (namable : claims.Namable [pane] [] []) :
    Claims.pane (.existing pane) claims = .ok (pane, claims.named [pane] [] []) := by
  simp [Claims.pane, namable.panes.known pane (by simp), see, namable.panes.absent pane (by simp), named]

theorem runAll_named {ι α : Type} (items : List ι) (step : ι → Claims → Except String (α × Claims)) (value : ι → α)
    (panes : ι → List PaneId) (windows : ι → List WindowId) (sessions : ι → List SessionId) (claims : Claims)
    (namable : claims.Namable (items.flatMap panes) (items.flatMap windows) (items.flatMap sessions))
    (each : ∀ item ∈ items, ∀ before : Claims, before.current = claims.current →
      before.Namable (panes item) (windows item) (sessions item) →
      step item before = .ok (value item, before.named (panes item) (windows item) (sessions item))) :
    runAll (items.map step) claims =
      .ok (items.map value, claims.named (items.flatMap panes) (items.flatMap windows) (items.flatMap sessions)) := by
  have walk := runAll_ok items step value
    (fun done => claims.named (done.flatMap panes) (done.flatMap windows) (done.flatMap sessions)) (by
      rintro done item rest rfl
      simp only [List.flatMap_append, List.flatMap_cons] at namable
      rw [each item (by simp) (claims.named (done.flatMap panes) (done.flatMap windows) (done.flatMap sessions)) rfl
        namable.right.left]
      simp)
  simpa using walk

theorem flatMap_nil_fun {ι κ : Type} (list : List ι) : (list.flatMap fun _ => ([] : List κ)) = [] := by
  simp

end Claims

def PaneRef.named : PaneRef → PaneId
  | .existing pane => pane
  | .new _ => ⟨0⟩

def DraftLeaf.raw (leaf : DraftLeaf) : Raw := ⟨leaf.pane.named, leaf.cols.map Cells.get, leaf.rows.map Cells.get⟩

def DraftFloat.input (float : DraftFloat) : FloatIn where
  pane := float.pane.named
  x := float.x
  y := float.y
  cols := float.cols.map Cells.get
  rows := float.rows.map Cells.get
  z := float.z
  border := float.border
  title := float.title

theorem firstLeaf_map {L M : Type} (f : L → M) (node : Node L) : firstLeaf (node.map f) = (firstLeaf node).map f := by
  induction node with
  | leaf tile => simp
  | split axis children ih =>
    have walk (children : List (Node L)) (ih : ∀ child ∈ children, firstLeaf (child.map f) = (firstLeaf child).map f) :
        (children.map (Node.map f)).findSome? firstLeaf = (children.findSome? firstLeaf).map f := by
      induction children with
      | nil => rfl
      | cons child rest ihRest =>
        have head := ih child (by simp)
        have tail := ihRest fun other member => ih other (by simp [member])
        rw [List.map_cons, List.findSome?_cons, List.findSome?_cons, head]
        cases firstLeaf child with
        | none => exact tail
        | some leaf => rfl
    rw [Node.map_split, firstLeaf_split, firstLeaf_split]
    exact walk children ih

theorem map_map_node {L M N : Type} (f : L → M) (g : M → N) (node : Node L) : (node.map f).map g = node.map fun tile => g (f tile) := by
  induction node with
  | leaf tile => simp
  | split axis children ih =>
    simp only [Node.map_split, List.map_map, Node.split.injEq, true_and]
    exact List.map_congr_left ih

theorem branching_map {L M : Type} {f : L → M} {node : Node L} : Branching (node.map f) ↔ Branching node := by
  induction node with
  | leaf tile =>
    rw [Node.map_leaf]
    exact ⟨fun _ => .leaf _, fun _ => .leaf _⟩
  | split axis children ih =>
    rw [Node.map_split]
    constructor
    · rintro (_ | ⟨_, _, several, each⟩)
      rw [List.length_map] at several
      exact .split axis children several fun child inside => (ih child inside).1 (each _ (List.mem_map_of_mem inside))
    · rintro (_ | ⟨_, _, several, each⟩)
      refine .split axis _ (by rwa [List.length_map]) fun child inside => ?_
      obtain ⟨own, here, rfl⟩ := List.mem_map.1 inside
      exact (ih own here).2 (each own here)

theorem Spans.branching {axis : Axis} {node : Node Leaf} {n : Nat} (spans : Spans axis node n) : Branching node := by
  induction spans with
  | leaf leaf => exact .leaf leaf
  | along children extent several each ih => exact .split axis children several ih
  | across split children n other several each ih => exact .split split children several ih

-- The draft of a window that has other sizes, and maybe no zoom.
structure Window.Sizes (window : Window) (draft : DraftWindow) : Prop where
  id : draft.id = some window.id
  name : draft.name = some window.name
  vars : draft.vars = window.vars.loose
  cols : draft.cols = some window.cols
  rows : draft.rows = some window.rows
  cellPx : draft.cellPx = window.cellPx
  zoom : ∀ pane, draft.zoom = some pane → pane ∈ window.panes
  tree : draft.tree.map DraftLeaf.pane = window.tree.map fun leaf => .existing leaf.pane
  floats : draft.floats.map (fun float => (float.pane, float.border)) =
    window.floats.map fun float => (.existing float.pane, float.border)

def Window.sized (window : Window) (draft : DraftWindow) : Window :=
  { window with
    zoom := draft.zoom
    tree := fit (draft.tree.map DraftLeaf.raw) window.cols.get window.rows.get
    floats := place (draft.floats.map DraftFloat.input) window.cols.get window.rows.get }

-- What `window` makes of a window: the focus is on its first leaf.
def Window.unfocused (window : Window) : Window :=
  { window with focus := ((firstLeaf window.tree).map Leaf.pane).getD window.focus }

namespace Claims

theorem node_sized (draft : Node DraftLeaf) (branching : Branching draft)
    (live : ∀ leaf ∈ draft.leaves, leaf.pane = .existing leaf.pane.named) {claims : Claims}
    (namable : claims.Namable (draft.leaves.map fun leaf => leaf.pane.named) [] []) :
    node draft claims = .ok (draft.map DraftLeaf.raw, claims.named (draft.leaves.map fun leaf => leaf.pane.named) [] []) := by
  induction branching generalizing claims with
  | leaf leaf =>
    have pane := live leaf (by simp)
    rw [Node.leaves_leaf, List.map_singleton] at namable ⊢
    rw [Node.map_leaf, node_leaf, Claims.leaf, pane, pane_named namable]
    rfl
  | split axis children several each ih =>
    rw [Node.leaves_split, List.map_flatMap] at namable ⊢
    have walk := runAll_named children node (Node.map DraftLeaf.raw) (fun child => child.leaves.map fun leaf => leaf.pane.named)
      (fun _ => []) (fun _ => []) claims (by rw [flatMap_nil_fun, flatMap_nil_fun]; exact namable)
      (fun child member before _ own => ih child member (fun leaf inside => live leaf (by
        rw [Node.leaves_split]
        exact List.mem_flatMap_of_mem member inside)) own)
    rw [node_split, split, walk, flatMap_nil_fun, flatMap_nil_fun]
    obtain ⟨first, second, rest, rfl⟩ : ∃ first second rest, children = first :: second :: rest := by
      rcases children with _ | ⟨first, _ | ⟨second, rest⟩⟩
      · simp at several
      · simp at several
      · exact ⟨first, second, rest, rfl⟩
    simp only [List.map_cons, Node.map_split]
    rfl

theorem floats_sized (floats : List DraftFloat) (live : ∀ float ∈ floats, float.pane = .existing float.pane.named) {claims : Claims}
    (namable : claims.Namable (floats.map fun float => float.pane.named) [] []) :
    runAll (floats.map float) claims =
      .ok (floats.map DraftFloat.input, claims.named (floats.map fun float => float.pane.named) [] []) := by
  rw [List.map_eq_flatMap (f := fun float : DraftFloat => float.pane.named)] at namable ⊢
  have walk := runAll_named floats float DraftFloat.input (fun float => [float.pane.named])
    (fun _ => []) (fun _ => []) claims (by rw [flatMap_nil_fun, flatMap_nil_fun]; exact namable)
    (fun item member before _ own => by
      rw [float, live item member, pane_named own]
      rfl)
  rw [flatMap_nil_fun, flatMap_nil_fun] at walk
  exact walk

end Claims

namespace Window.Sizes

variable {window : Window} {draft : DraftWindow} (sizes : window.Sizes draft)

include sizes

theorem raws : (draft.tree.map DraftLeaf.raw).map Raw.pane = window.tree.map Leaf.pane := by
  have named := congrArg (Node.map PaneRef.named) sizes.tree
  rw [map_map_node, map_map_node] at named
  rw [map_map_node]
  exact named

theorem leaves : draft.tree.leaves.map DraftLeaf.pane = window.tree.leaves.map fun leaf => .existing leaf.pane := by
  rw [← Node.leaves_map, sizes.tree, Node.leaves_map]

theorem liveLeaves : ∀ leaf ∈ draft.tree.leaves, leaf.pane = .existing leaf.pane.named := by
  intro leaf inside
  have there : leaf.pane ∈ draft.tree.leaves.map DraftLeaf.pane := List.mem_map_of_mem inside
  rw [sizes.leaves] at there
  obtain ⟨own, -, is⟩ := List.mem_map.1 there
  rw [← is]
  rfl

theorem treePanes : draft.tree.leaves.map (fun leaf => leaf.pane.named) = window.tree.panes := by
  have named := congrArg (List.map PaneRef.named) sizes.leaves
  rw [List.map_map, List.map_map] at named
  exact named

theorem liveFloats : ∀ float ∈ draft.floats, float.pane = .existing float.pane.named := by
  intro float inside
  have there := List.mem_map_of_mem (f := fun float : DraftFloat => (float.pane, float.border)) inside
  rw [sizes.floats] at there
  obtain ⟨own, -, is⟩ := List.mem_map.1 there
  rw [← (Prod.mk.inj is).1]
  rfl

theorem floatPanes : draft.floats.map (fun float => float.pane.named) = window.floats.map Float.pane := by
  have named := congrArg (List.map fun pair : PaneRef × Bool => pair.1.named) sizes.floats
  rw [List.map_map, List.map_map] at named
  exact named

theorem bordered : (draft.floats.map DraftFloat.input).any FloatIn.border = window.floats.any Float.border := by
  have borders := congrArg (List.any · Prod.snd) sizes.floats
  simp only [List.any_map] at borders ⊢
  exact borders

theorem extent (sound : window.Sound) :
    Tiling.extent (draft.tree.map DraftLeaf.raw) ((draft.floats.map DraftFloat.input).any FloatIn.border)
      (window.cols.get, window.rows.get) = (window.cols.get, window.rows.get) := by
  have minimum (axis : Axis) : (draft.tree.map DraftLeaf.raw).minimum axis = window.tree.minimum axis := by
    rw [← Node.minimum_map axis Raw.pane, sizes.raws, Node.minimum_map]
  have width := (sound.tiles .horizontal).minimum_le
  have height := (sound.tiles .vertical).minimum_le
  have cols := window.cols.positive
  have rows := window.rows.positive
  simp only [Window.size, pick] at width height
  rw [sizes.bordered]
  simp only [Tiling.extent, minimum, Prod.mk.injEq]
  split_ifs with bordered
  · obtain ⟨float, member, border⟩ := List.any_eq_true.mp bordered
    obtain ⟨left, right, top, bottom⟩ := sound.inside float member
    have wide := float.cols.positive
    have tall := float.rows.positive
    simp only [Float.pad, border, if_true] at left right top bottom
    omega
  · omega

theorem panes : window.panes.Perm (window.sized draft).panes := by
  have tree : (fit (draft.tree.map DraftLeaf.raw) window.cols.get window.rows.get).panes = window.tree.panes := by
    rw [fit_panes, Node.leaves_map, List.map_map]
    exact sizes.treePanes
  have floats := place_panes (draft.floats.map DraftFloat.input) window.cols.get window.rows.get
  have same : (draft.floats.map DraftFloat.input).map FloatIn.pane = window.floats.map Float.pane := by
    rw [List.map_map]
    exact sizes.floatPanes
  rw [same] at floats
  rw [Window.panes, Window.panes]
  simp only [Window.sized, tree]
  exact floats.symm.append_left _

end Window.Sizes

namespace Claims

theorem window_sized {window : Window} {draft : DraftWindow} (sizes : window.Sizes draft) (sound : window.Sound) (newWindow : Size)
    {claims : Claims} (namable : claims.Namable window.panes [] []) :
    Claims.window draft window.id (some window) newWindow claims =
      .ok ((window.sized draft).unfocused, claims.named window.panes [] []) := by
  have whole : claims.Namable (window.tree.panes ++ window.floats.map Float.pane) ([] ++ []) ([] ++ []) := namable
  rw [← sizes.treePanes, ← sizes.floatPanes] at whole
  have branching : Branching draft.tree := by
    have branching := (sound.tiles .horizontal).branching
    rwa [← branching_map (f := fun leaf : Leaf => PaneRef.existing leaf.pane), ← sizes.tree, branching_map] at branching
  have tree := node_sized draft.tree branching sizes.liveLeaves whole.left
  have floats := floats_sized draft.floats sizes.liveFloats whole.right
  obtain ⟨leaf, first⟩ := (sound.tiles .horizontal).firstLeaf_some
  have firstRaw : (firstLeaf (draft.tree.map DraftLeaf.raw)).map Raw.pane = some leaf.pane := by
    rw [← firstLeaf_map, sizes.raws, firstLeaf_map, first]
    rfl
  have focus : firstPane (draft.tree.map DraftLeaf.raw) = .ok leaf.pane := by
    rw [firstPane]
    obtain ⟨raw, found, is⟩ := Option.map_eq_some_iff.1 firstRaw
    rw [found, ← is]
  have within : ¬(maxDimension < window.cols.get ∨ maxDimension < window.rows.get) := by
    have cols := window.cols.bound
    have rows := window.rows.bound
    omega
  have same : built draft window.id (some window) newWindow window.name window.vars leaf.pane
      (draft.tree.map DraftLeaf.raw) (draft.floats.map DraftFloat.input) window.cols.get window.rows.get =
        (window.sized draft).unfocused := by
    have pixels : window.cellPx.or window.cellPx = window.cellPx := by
      cases window.cellPx <;> rfl
    have firstFit : (firstLeaf (window.sized draft).tree).map Leaf.pane = some leaf.pane := by
      rw [← firstRaw, ← firstLeaf_map, ← firstLeaf_map, Window.sized, fit_shape]
    simp only [built, sizes.cellPx, pixels, Cells.clamped_self, Window.unfocused, firstFit, Option.getD_some]
    rfl
  have zoom : checkZoom window.id (window.sized draft).unfocused = .ok (window.sized draft).unfocused :=
    checkZoom_ok_iff.mpr ⟨rfl, fun pane zoomed => sizes.panes.mem_iff.1 (sizes.zoom pane zoomed)⟩
  have name : windowName draft (some window) claims = .ok window.name := by
    simp only [windowName, sizes.name]
  have vars : Vars.checked draft.vars = .ok window.vars := by
    rw [sizes.vars]
    exact window.vars.checked_loose
  rw [named_named] at floats
  rw [sizes.treePanes] at tree
  rw [sizes.treePanes, sizes.floatPanes] at floats
  refine bind_ok_iff.mpr ⟨window.name, name, ?_⟩
  refine bind_ok_iff.mpr ⟨_, tree, ?_⟩
  refine bind_ok_iff.mpr ⟨leaf.pane, focus, ?_⟩
  refine bind_ok_iff.mpr ⟨_, floats, ?_⟩
  simp only [Option.map_some, sizes.cols, sizes.rows, wantedCells, Option.some_or, Option.getD_some, sizes.extent sound]
  refine guard_ok_iff.mpr ⟨within, bind_ok_iff.mpr ⟨window.vars, vars, ?_⟩⟩
  refine bind_ok_iff.mpr ⟨(window.sized draft).unfocused, ?_, rfl⟩
  rw [same, zoom]

theorem draftWindow_sized {window : Window} {draft : DraftWindow} (sizes : window.Sizes draft) (sound : window.Sound)
    (newWindow : Size) {claims : Claims} (own : (claims.current.window? window.id).map Prod.snd = some window)
    (namable : claims.Namable window.panes [window.id] []) :
    draftWindow newWindow draft claims =
      .ok ((window.sized draft).unfocused, claims.named window.panes [window.id] []) := by
  have known := namable.windows.known window.id (by simp)
  have absent := namable.windows.absent window.id (by simp)
  have id : windowId draft.id claims = .ok (window.id, claims) := by
    rw [sizes.id]
    exact accept_ok_iff.mpr ⟨known, rfl⟩
  have seen : claims.seeWindow window.id = .ok (claims.named [] [window.id] []) := by
    simp [seeWindow, absent, named]
  have rest : (claims.named [] [window.id] []).Namable window.panes [] [] := by
    have whole : claims.Namable ([] ++ window.panes) ([window.id] ++ []) ([] ++ []) := namable
    exact whole.right
  refine bind_ok_iff.mpr ⟨_, id, ?_⟩
  refine bind_ok_iff.mpr ⟨_, seen, ?_⟩
  change Claims.window draft window.id ((claims.current.window? window.id).map Prod.snd) newWindow _ = _
  rw [own, window_sized sizes sound newWindow rest, named_named]
  rfl

end Claims

-- The draft of a layout in which each window is drafted by `change`.
def Layout.draftWith (change : Window → DraftWindow) (layout : Layout) : DraftLayout :=
  ⟨layout.sessions.map fun session => { session.draft with windows := session.windows.map change }⟩

def Layout.sizedWith (change : Window → DraftWindow) (layout : Layout) : Layout :=
  layout.mapWindows fun window => window.sized (change window)

namespace Claims

theorem draftSession_sized {change : Window → DraftWindow} (session : Session)
    (sizes : ∀ window ∈ session.windows, window.Sizes (change window)) (sound : ∀ window ∈ session.windows, window.Sound)
    (nonempty : session.windows ≠ []) (newWindow : Size) {claims : Claims}
    (own : ∀ window ∈ session.windows, (claims.current.window? window.id).map Prod.snd = some window)
    (namable : claims.Namable session.panes (session.windows.map Window.id) [session.id]) :
    draftSession newWindow { session.draft with windows := session.windows.map change } claims =
      .ok ({ session with windows := session.windows.map fun window => (window.sized (change window)).unfocused },
        claims.named session.panes (session.windows.map Window.id) [session.id]) := by
  have known := namable.sessions.known session.id (by simp)
  have absent := namable.sessions.absent session.id (by simp)
  have id : sessionId session.draft.id claims = .ok (session.id, claims) := accept_ok_iff.mpr ⟨known, rfl⟩
  have seen : claims.seeSession session.id = .ok (claims.named [] [] [session.id]) := by
    simp [seeSession, absent, named]
  have rest : (claims.named [] [] [session.id]).Namable session.panes (session.windows.map Window.id) [] := by
    have whole : claims.Namable ([] ++ session.panes) ([] ++ session.windows.map Window.id) ([session.id] ++ []) :=
      namable
    exact whole.right
  have some_ : ¬session.windows.map change = [] := by
    rwa [List.map_eq_nil_iff]
  have vars : Vars.checked session.draft.vars = .ok session.vars := session.vars.checked_loose
  have ids : session.windows.flatMap (fun window => [window.id]) = session.windows.map Window.id :=
    List.map_eq_flatMap.symm
  have walk := runAll_named session.windows (fun window => draftWindow newWindow (change window))
    (fun window => (window.sized (change window)).unfocused) Window.panes (fun window => [window.id]) (fun _ => [])
    (claims.named [] [] [session.id]) (by rw [ids, flatMap_nil_fun]; exact rest)
    (fun window member before same own' => draftWindow_sized (sizes window member) (sound window member) newWindow
      (by rw [same]; exact own window member) own')
  rw [ids, flatMap_nil_fun, named_named] at walk
  refine bind_ok_iff.mpr ⟨_, id, ?_⟩
  refine bind_ok_iff.mpr ⟨_, seen, ?_⟩
  refine guard_ok_iff.mpr ⟨some_, ?_⟩
  have windows : (session.windows.map change).map (draftWindow newWindow) =
      session.windows.map fun window => draftWindow newWindow (change window) := by
    rw [List.map_map]
    rfl
  simp only [windows]
  exact bind_ok_iff.mpr ⟨_, walk, bind_ok_iff.mpr ⟨_, vars, rfl⟩⟩

end Claims

theorem window?_own {layout : Layout} (wellFormed : layout.WellFormed) {window : Window}
    (member : window ∈ layout.windowList) : (layout.window? window.id).map Prod.snd = some window := by
  rw [window_window]
  cases found : layout.windowList.find? fun other => decide (other.id = window.id) with
  | none =>
    have absent := List.find?_eq_none.mp found window member
    simp at absent
  | some other =>
    have same : other.id = window.id := by
      simpa using List.find?_some (p := fun other : Window => decide (other.id = window.id)) found
    rw [unique_of_nodup_map Window.id _ wellFormed.windowIds (List.mem_of_find?_eq_some found) member same]

theorem session?_known {layout : Layout} {id : SessionId} (member : id ∈ layout.sessionIds) :
    (layout.session? id).isSome = true := by
  obtain ⟨session, inside, same⟩ := List.mem_map.mp member
  simp only [Layout.session?, List.find?_isSome, decide_eq_true_eq]
  exact ⟨session, inside, same⟩

theorem start_namable {layout : Layout} (wellFormed : layout.WellFormed) (ids : Ids) (shell : Option Name) :
    (startClaims layout ids shell).Namable layout.panes layout.windowIds layout.sessionIds where
  panes := ⟨fun _ member => member, fun _ _ => by simp [startClaims], wellFormed.panes⟩
  windows := by
    refine ⟨?_, fun _ _ => by simp [startClaims], wellFormed.windowIds⟩
    intro id member
    obtain ⟨window, inside, rfl⟩ := List.mem_map.mp member
    have own := window?_own wellFormed inside
    change (layout.window? window.id).isSome = true
    cases found : layout.window? window.id with
    | none => simp [found] at own
    | some pair => rfl
  sessions := ⟨fun _ member => session?_known member, fun _ _ => by simp [startClaims], wellFormed.sessionIds⟩

theorem normalize_sized {layout : Layout} (wellFormed : layout.WellFormed) {change : Window → DraftWindow}
    (sizes : ∀ window ∈ layout.windowList, window.Sizes (change window)) (ids : Ids) (shell : Option Name) (newWindow : Size) :
    normalize (layout.draftWith change) layout ids shell newWindow =
      .ok ⟨layout.mapWindows fun window => (window.sized (change window)).unfocused, [], ids⟩ := by
  have panes : layout.sessions.flatMap Session.panes = layout.panes := by
    simp only [Layout.panes, Layout.windowList, List.flatMap_assoc]
    rfl
  have windows : layout.sessions.flatMap (fun session => session.windows.map Window.id) = layout.windowIds := by
    simp only [Layout.windowIds, Layout.windowList, List.map_flatMap]
  have sessions : layout.sessions.flatMap (fun session => [session.id]) = layout.sessionIds :=
    List.map_eq_flatMap.symm
  have inside (session : Session) (member : session ∈ layout.sessions) (window : Window)
      (own : window ∈ session.windows) : window ∈ layout.windowList :=
    (Layout.mem_windowList_iff layout window).mpr ⟨session, member, own⟩
  have walk := Claims.runAll_named layout.sessions
    (fun session => Claims.draftSession newWindow { session.draft with windows := session.windows.map change })
    (fun session => { session with windows := session.windows.map fun window => (window.sized (change window)).unfocused })
    Session.panes (fun session => session.windows.map Window.id) (fun session => [session.id]) (startClaims layout ids shell)
    (by rw [panes, windows, sessions]; exact start_namable wellFormed ids shell)
    (fun session member before same own => Claims.draftSession_sized session
      (fun window there => sizes window (inside session member window there))
      (fun window there => (wellFormed.windows window (inside session member window there)).toSound)
      (wellFormed.nonempty session member) newWindow
      (fun window there => by rw [same]; exact window?_own wellFormed (inside session member window there)) own)
  have steps : (layout.draftWith change).sessions.map (Claims.draftSession newWindow) =
      layout.sessions.map fun session =>
        Claims.draftSession newWindow { session.draft with windows := session.windows.map change } := by
    rw [Layout.draftWith, List.map_map]
    rfl
  rw [panes, windows, sessions] at walk
  have none_ : ((startClaims layout ids shell).named layout.panes layout.windowIds layout.sessionIds).missing = none := by
    rw [Claims.missing_none_iff]
    intro pane member
    exact List.mem_append_right _ member
  rw [normalize, steps]
  refine bind_ok_iff.mpr ⟨_, walk, ?_⟩
  simp only [none_]
  rfl

theorem settle_sized {layout : Layout} (wellFormed : layout.WellFormed) {change : Window → DraftWindow}
    (sizes : ∀ window ∈ layout.windowList, window.Sizes (change window)) :
    settle layout (layout.mapWindows fun window => (window.sized (change window)).unfocused) = layout.sizedWith change := by
  simp only [settle, Layout.mapWindows, Layout.sizedWith, List.map_map, Layout.mk.injEq]
  refine List.map_congr_left fun session member => ?_
  simp only [Function.comp_def, List.map_map, Session.mk.injEq, true_and]
  refine List.map_congr_left fun window own => ?_
  have known : window ∈ layout.windowList := (Layout.mem_windowList_iff layout window).mpr ⟨session, member, own⟩
  have focus : (window.sized (change window)).unfocused.has window.focus = true :=
    (Window.has_iff _ window.focus).mpr ((sizes window known).panes.mem_iff.1 (wellFormed.windows window known).focus)
  have old : oldWindow layout (window.sized (change window)).unfocused.id = some window := oldWindow_eq wellFormed.windowIds known
  simp only [settleWindow, old, settleFocus, focus, if_true]
  rfl

theorem putWithShell_sized {document : Document} (wellFormed : document.layout.WellFormed) {change : Window → DraftWindow}
    (sizes : ∀ window ∈ document.layout.windowList, window.Sizes (change window)) (newWindow : Option Size) (shell : Option Name) :
    document.putWithShell ⟨document.revision, document.layout.draftWith change⟩ newWindow shell =
      (.ok [], if document.layout.sizedWith change ≠ document.layout then
        { document with layout := document.layout.sizedWith change, unpublished := true } else document) := by
  simp only [Document.putWithShell, ne_eq, not_true, if_false,
    normalize_sized wellFormed sizes document.ids shell (newWindow.getD unsizedWindow), Document.replace,
    settle_sized wellFormed sizes]

end Kido.Tiling

namespace Kido.Tiling

theorem Window.Sound.sizes {window : Window} (sound : window.Sound) : window.Sizes window.draft where
  id := rfl
  name := rfl
  vars := rfl
  cols := rfl
  rows := rfl
  cellPx := rfl
  zoom := sound.zoom
  tree := by
    rw [Window.draft, map_map_node]
    rfl
  floats := by
    rw [Window.draft, List.map_map]
    rfl

theorem Window.Sound.sized {window : Window} (sound : window.Sound) : window.sized window.draft = window := by
  have tree : window.draft.tree.map DraftLeaf.raw = window.tree.map Leaf.toRaw := by
    rw [Window.draft, map_map_node]
    rfl
  have floats : window.draft.floats.map DraftFloat.input = window.floats.map Float.input := by
    rw [Window.draft, List.map_map]
    rfl
  have fitted : fit (window.tree.map Leaf.toRaw) window.cols.get window.rows.get = window.tree :=
    fit_same window.tree _ _ fun axis => by
      have spans := sound.tiles axis
      cases axis <;> exact spans
  have placed : place (window.floats.map Float.input) window.cols.get window.rows.get = window.floats :=
    place_same window.floats _ _ sound.z sound.inside window.cols.bound window.rows.bound
  rw [Window.sized, tree, floats, fitted, placed]
  rfl

theorem putWithShell_back {document : Document} (wellFormed : document.layout.WellFormed)
    (newWindow : Option Size) (shell : Option Name) :
    document.putWithShell ⟨document.revision, document.layout.draft⟩ newWindow shell = (.ok [], document) := by
  have sound (window : Window) (member : window ∈ document.layout.windowList) : window.Sound :=
    (wellFormed.windows window member).toSound
  have same : document.layout.sizedWith Window.draft = document.layout :=
    mapWindows_same _ _ fun window member => (sound window member).sized
  have sent := putWithShell_sized wellFormed (fun window member => (sound window member).sizes) newWindow shell
  rw [same, if_neg (not_not.2 rfl)] at sent
  exact sent

-- A layout that is sent back with its revision changes nothing.
theorem put_back_same (ops : List Op) (newWindow : Option Size) (shell : Option Name) :
    let document := (World.run ops).document
    document.putWithShell ⟨document.revision, document.layout.draft⟩ newWindow shell = (.ok [], document) :=
  putWithShell_back (run_wellFormed ops).1 newWindow shell

end Kido.Tiling
