import Kido.Client.Apply
import Kido.Layout.Sized
import Kido.Layout.Shares

set_option autoImplicit false

namespace Kido.Tiling.Sizing

@[simp]
theorem paneId_draft (leaf : Leaf) : Tile.paneId leaf.draft = some leaf.pane := rfl

theorem contains_draft (pane : PaneId) (tree : Node Leaf) : (tree.map Leaf.draft).contains pane = tree.contains pane := by
  induction tree with
  | leaf leaf => rfl
  | split axis children ih =>
    rw [Node.map_split, Node.contains_split, Node.contains_split, List.any_map]
    rw [Bool.eq_iff_iff, List.any_eq_true, List.any_eq_true]
    constructor
    · rintro ⟨child, inside, found⟩
      exact ⟨child, inside, by rw [← ih child inside]; exact found⟩
    · rintro ⟨child, inside, found⟩
      exact ⟨child, inside, by rw [Function.comp_apply, ih child inside]; exact found⟩

theorem holds_draft (window : Window) (pane : PaneId) : holds window.draft pane = true ↔ pane ∈ window.panes := by
  rw [← window.has_iff, holds, Window.has, Window.draft, contains_draft, List.any_map]
  simp [Float.draft, Function.comp_def]

theorem window_of_pane {layout : Layout} (wellFormed : layout.WellFormed) {first second : Window} (one : first ∈ layout.windowList)
    (two : second ∈ layout.windowList) {pane : PaneId} (here : pane ∈ first.panes) (there : pane ∈ second.panes) : first = second := by
  by_contra differs
  have apart := (List.nodup_flatMap.1 wellFormed.panes).2
  have : Std.Symm (Function.onFun List.Disjoint Window.panes) := ⟨fun _ _ disjoint _ here there => disjoint there here⟩
  exact apart.forall one two differs here there

def draftOr (id : WindowId) (changed : DraftWindow) (window : Window) : DraftWindow :=
  if window.id = id then changed else window.draft

section Replace

variable {pane : PaneId} {id : WindowId} {changed : DraftWindow}

theorem draftOr_other {windows : List Window} (absent : id ∉ windows.map Window.id) :
    windows.map (draftOr id changed) = windows.map Window.draft := by
  refine List.map_congr_left fun window inside => if_neg fun same => absent ?_
  rw [← same]
  exact List.mem_map_of_mem inside

theorem replace_windows {windows : List Window} (distinct : (windows.map Window.id).Nodup)
    (only : ∀ window ∈ windows, holds window.draft pane = true ↔ window.id = id) :
    replaceFirst (fun window => holds window pane) (fun _ => [changed]) (windows.map Window.draft) = windows.map (draftOr id changed) := by
  induction windows with
  | nil => rfl
  | cons window rest ih =>
    rw [List.map_cons, List.nodup_cons] at distinct
    rw [List.map_cons, List.map_cons, replaceFirst]
    by_cases same : window.id = id
    · rw [if_pos ((only window List.mem_cons_self).2 same), draftOr, if_pos same, draftOr_other (by rw [← same]; exact distinct.1)]
      rfl
    · rw [if_neg (fun held => same ((only window List.mem_cons_self).1 held)), draftOr, if_neg same,
        ih distinct.2 fun other inside => only other (List.mem_cons_of_mem _ inside)]

theorem replace_sessions {sessions : List Session} (distinct : ((sessions.flatMap Session.windows).map Window.id).Nodup)
    (only : ∀ window ∈ sessions.flatMap Session.windows, holds window.draft pane = true ↔ window.id = id) :
    replaceFirst (fun session => session.windows.any fun window => holds window pane)
        (fun session => [{ session with windows := replaceFirst (fun window => holds window pane) (fun _ => [changed]) session.windows }])
        (sessions.map Session.draft) =
      sessions.map fun session => { session.draft with windows := session.windows.map (draftOr id changed) } := by
  induction sessions with
  | nil => rfl
  | cons session rest ih =>
    rw [List.flatMap_cons, List.map_append] at distinct
    have own (window : Window) (inside : window ∈ session.windows) := only window (by
      rw [List.flatMap_cons]
      exact List.mem_append_left _ inside)
    have others (window : Window) (inside : window ∈ rest.flatMap Session.windows) := only window (by
      rw [List.flatMap_cons]
      exact List.mem_append_right _ inside)
    have replaced : replaceFirst (fun window => holds window pane) (fun _ => [changed]) (session.windows.map Window.draft) =
        session.windows.map (draftOr id changed) := replace_windows distinct.of_append_left own
    rw [List.map_cons, List.map_cons, replaceFirst]
    by_cases here : id ∈ session.windows.map Window.id
    · have held : (session.draft.windows.any fun window => holds window pane) = true := by
        obtain ⟨window, inside, same⟩ := List.mem_map.1 here
        rw [Session.draft, List.any_map]
        exact List.any_eq_true.2 ⟨window, inside, (own window inside).2 same⟩
      have absent : ∀ other ∈ rest, id ∉ other.windows.map Window.id := by
        intro other inside there
        refine (List.nodup_append.1 distinct).2.2 id here id ?_ rfl
        obtain ⟨window, own, same⟩ := List.mem_map.1 there
        rw [← same]
        exact List.mem_map_of_mem (List.mem_flatMap_of_mem inside own)
      rw [if_pos held]
      simp only [List.singleton_append, List.cons.injEq]
      refine ⟨by rw [← replaced]; rfl, List.map_congr_left fun other inside => ?_⟩
      rw [draftOr_other (absent other inside)]
      rfl
    · have held : ¬(session.draft.windows.any fun window => holds window pane) = true := by
        rw [Session.draft, List.any_map]
        rintro any
        obtain ⟨window, inside, held⟩ := List.any_eq_true.1 any
        exact here (List.mem_map.2 ⟨window, inside, (own window inside).1 held⟩)
      rw [if_neg held, ih distinct.of_append_right others, draftOr_other here]
      rfl

end Replace

section Put

variable {layout : Layout} {window : Window} {pane : PaneId}

theorem only_window (wellFormed : layout.WellFormed) (inside : window ∈ layout.windowList) (own : pane ∈ window.panes) :
    ∀ other ∈ layout.windowList, holds other.draft pane = true ↔ other.id = window.id := by
  intro other there
  rw [holds_draft]
  constructor
  · intro held
    rw [window_of_pane wellFormed there inside held own]
  · intro same
    rw [unique_of_nodup_map Window.id _ wellFormed.windowIds there inside same]
    exact own

theorem inWindow_draft (wellFormed : layout.WellFormed) (inside : window ∈ layout.windowList) (own : pane ∈ window.panes)
    {change : DraftWindow → Except Refusal DraftWindow} {changed : DraftWindow} (accepts : change window.draft = .ok changed) :
    inWindow layout.draft pane change = .ok (layout.draftWith (draftOr window.id changed)) := by
  have only := only_window wellFormed inside own
  have drafts : layout.draft.sessions.flatMap DraftSession.windows = layout.windowList.map Window.draft := by
    rw [Layout.draft, Layout.windowList, List.flatMap_map, List.map_flatMap]
    rfl
  have found : (layout.draft.sessions.flatMap DraftSession.windows).find? (fun window => holds window pane) = some window.draft := by
    rw [drafts, List.find?_map]
    cases is : layout.windowList.find? ((fun window => holds window pane) ∘ Window.draft) with
    | none =>
      have absent := List.find?_eq_none.1 is window inside
      exact absurd ((only window inside).2 rfl) absent
    | some other =>
      have there := List.mem_of_find?_eq_some is
      have held := List.find?_some (p := (fun window => holds window pane) ∘ Window.draft) is
      have same := (only other there).1 held
      rw [Option.map_some, unique_of_nodup_map Window.id _ wellFormed.windowIds there inside same]
  rw [inWindow, found]
  simp only [accepts]
  change Except.ok (DraftLayout.mk (replaceFirst _ _ (layout.sessions.map Session.draft))) = _
  rw [replace_sessions wellFormed.windowIds only]
  rfl

-- The layout with another window in the place of the one of that id.
def withWindow (layout : Layout) (id : WindowId) (window : Window) : Layout :=
  layout.mapWindows fun other => if other.id = id then window else other

theorem sizedWith_draftOr (wellFormed : layout.WellFormed) (inside : window ∈ layout.windowList) (changed : DraftWindow) :
    layout.sizedWith (draftOr window.id changed) = withWindow layout window.id (window.sized changed) := by
  refine mapWindows_congr _ _ fun other there => ?_
  rw [draftOr]
  by_cases same : other.id = window.id
  · rw [if_pos same, if_pos same, unique_of_nodup_map Window.id _ wellFormed.windowIds there inside same]
  · rw [if_neg same, if_neg same]
    exact (wellFormed.windows other there).toSound.sized

theorem put_changed {document : Document} (wellFormed : document.layout.WellFormed) (inside : window ∈ document.layout.windowList)
    {changed : DraftWindow} (sizes : window.Sizes changed) (newWindow : Option Size) (shell : Option Name) :
    ∃ after, document.putWithShell ⟨document.revision, document.layout.draftWith (draftOr window.id changed)⟩ newWindow shell =
      (.ok [], after) ∧ after.layout = withWindow document.layout window.id (window.sized changed) ∧ after.layout.WellFormed := by
  have every : ∀ other ∈ document.layout.windowList, other.Sizes (draftOr window.id changed other) := by
    intro other there
    rw [draftOr]
    by_cases same : other.id = window.id
    · rw [if_pos same, unique_of_nodup_map Window.id _ wellFormed.windowIds there inside same]
      exact sizes
    · rw [if_neg same]
      exact (wellFormed.windows other there).toSound.sizes
  have put := putWithShell_sized wellFormed every newWindow shell
  have kept := after_wellFormed [] document
    (.put ⟨document.revision, document.layout.draftWith (draftOr window.id changed)⟩ newWindow shell) wellFormed (by simp)
  rw [Document.after, put] at kept
  refine ⟨_, put, ?_, kept⟩
  rw [sizedWith_draftOr wellFormed inside changed]
  split_ifs with differs
  · rfl
  · exact (not_not.1 differs).symm

end Put

end Kido.Tiling.Sizing

namespace Kido.Tiling.Sizing

def leafSize (leaf : Leaf) : PaneId × Cells × Cells := (leaf.pane, leaf.cols, leaf.rows)

def sizes (layout : Layout) : List (PaneId × Cells × Cells) :=
  layout.windowList.flatMap fun window =>
    window.tree.leaves.map leafSize ++ window.floats.map fun float => (float.pane, float.cols, float.rows)

section Put

variable {layout : Layout} {window : Window} {tree : Node Leaf}

def withTree (window : Window) (zoom : Option PaneId) (tree : Node Leaf) : Window := { window with zoom := zoom, tree := tree }

def treeDraft (window : Window) (zoom : Option PaneId) (tree : Node Leaf) : DraftWindow :=
  { window.draft with zoom := zoom, tree := tree.map Leaf.draft }

theorem treeDraft_sizes (sound : window.Sound) (panes : tree.map Leaf.pane = window.tree.map Leaf.pane) {zoom : Option PaneId}
    (kept : zoom = none ∨ zoom = window.zoom) : window.Sizes (treeDraft window zoom tree) where
  id := rfl
  name := rfl
  vars := rfl
  cols := rfl
  rows := rfl
  cellPx := rfl
  zoom := by
    intro pane is
    rcases kept with rfl | rfl
    · exact nomatch is
    · exact sound.zoom pane is
  tree := by
    have named := congrArg (Node.map PaneRef.existing) panes
    rw [map_map_node, map_map_node] at named
    rw [treeDraft, map_map_node]
    exact named
  floats := by
    rw [treeDraft, Window.draft, List.map_map]
    rfl

theorem treeDraft_sized (sound : window.Sound) (zoom : Option PaneId) (tree : Node Leaf) :
    window.sized (treeDraft window zoom tree) = withTree window zoom (fit (tree.map Leaf.toRaw) window.cols.get window.rows.get) := by
  have raws : (treeDraft window zoom tree).tree.map DraftLeaf.raw = tree.map Leaf.toRaw := by
    rw [treeDraft, map_map_node]
    rfl
  have floats : (treeDraft window zoom tree).floats.map DraftFloat.input = window.floats.map Float.input := by
    rw [treeDraft, Window.draft, List.map_map]
    rfl
  have placed : place (window.floats.map Float.input) window.cols.get window.rows.get = window.floats :=
    place_same window.floats _ _ sound.z sound.inside window.cols.bound window.rows.bound
  rw [Window.sized, raws, floats, placed]
  rfl

theorem put_tree {document : Document} (wellFormed : document.layout.WellFormed) (inside : window ∈ document.layout.windowList)
    (panes : tree.map Leaf.pane = window.tree.map Leaf.pane) {zoom : Option PaneId} (kept : zoom = none ∨ zoom = window.zoom)
    (newWindow : Option Size) (shell : Option Name) :
    ∃ after, document.putWithShell ⟨document.revision, document.layout.draftWith (draftOr window.id (treeDraft window zoom tree))⟩
        newWindow shell = (.ok [], after) ∧
      after.layout = withWindow document.layout window.id
        (withTree window zoom (fit (tree.map Leaf.toRaw) window.cols.get window.rows.get)) := by
  have sound := (wellFormed.windows window inside).toSound
  obtain ⟨after, put, layout, -⟩ := put_changed wellFormed inside (treeDraft_sizes sound panes kept) newWindow shell
  rw [treeDraft_sized sound] at layout
  exact ⟨after, put, layout⟩

theorem pick_size (window : Window) (axis : Axis) : pick axis window.cols.get window.rows.get = window.size axis := by
  cases axis <;> rfl

theorem fit_filled (tiles : ∀ axis, Spans axis tree (window.size axis)) :
    fit (tree.map Leaf.toRaw) window.cols.get window.rows.get = tree :=
  fit_same tree _ _ fun axis => by
    rw [pick_size]
    exact tiles axis

theorem withTree_mem (inside : window ∈ layout.windowList) (zoom : Option PaneId) :
    withTree window zoom tree ∈ (withWindow layout window.id (withTree window zoom tree)).windowList := by
  rw [withWindow, mapWindows_windowList]
  exact List.mem_map.2 ⟨window, inside, if_pos rfl⟩

theorem sizes_withTree (wellFormed : layout.WellFormed) (inside : window ∈ layout.windowList) (zoom : Option PaneId)
    {size : PaneId × Cells × Cells} (same : size ∈ tree.leaves.map leafSize ↔ size ∈ window.tree.leaves.map leafSize) :
    size ∈ sizes (withWindow layout window.id (withTree window zoom tree)) ↔ size ∈ sizes layout := by
  rw [sizes, sizes, withWindow, mapWindows_windowList, List.flatMap_map, List.mem_flatMap, List.mem_flatMap]
  refine exists_congr fun other => and_congr_right fun there => ?_
  by_cases is : other.id = window.id
  · rw [if_pos is, unique_of_nodup_map Window.id _ wellFormed.windowIds there inside is, List.mem_append, List.mem_append]
    exact or_congr same Iff.rfl
  · rw [if_neg is]

end Put

section Hole

variable {inner node tree : Node Leaf} {plug : Node Leaf → Node Leaf} {size : PaneId × Cells × Cells}

theorem leafSize_absent (outside : size.1 ∉ node.panes) : size ∉ node.leaves.map leafSize := by
  intro there
  obtain ⟨leaf, own, rfl⟩ := List.mem_map.1 there
  exact outside (List.mem_map_of_mem own)

theorem beside_hole (hole : Hole inner tree plug) (same : size ∈ node.leaves.map leafSize ↔ size ∈ inner.leaves.map leafSize) :
    size ∈ (plug node).leaves.map leafSize ↔ size ∈ tree.leaves.map leafSize := by
  obtain ⟨front, back, leaves⟩ := hole.leaves
  rw [← hole.plug_self, leaves node, leaves inner]
  simp only [List.map_append, List.mem_append, same]

end Hole

end Kido.Tiling.Sizing
