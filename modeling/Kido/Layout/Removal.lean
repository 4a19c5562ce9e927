import Kido.Layout.Document
import Mathlib.Data.List.Flatten

set_option autoImplicit false

namespace Kido.Tiling

open Kido.Shared

theorem Window.Sound.panes_ne_nil {window : Window} (sound : window.Sound) : window.panes ≠ [] := by
  obtain ⟨leaf, first⟩ := (sound.tiles .horizontal).firstLeaf_some
  have member := firstLeaf_mem _ leaf first
  intro empty
  have inside : leaf.pane ∈ window.panes := List.mem_append_left _ (List.mem_map_of_mem member)
  rw [empty] at inside
  exact absurd inside (by simp)

theorem renumber_map {α : Type} (f : Float → α) (same : ∀ (float : Float) (z : Nat), f { float with z := z } = f float)
    (floats : List Float) : (renumber floats).map f = floats.map f := by
  conv_rhs => rw [← List.zipIdx_map_fst 0 floats]
  rw [renumber, List.map_map, List.map_map]
  exact List.map_congr_left fun pair _ => same pair.1 pair.2

theorem renumber_z (floats : List Float) : (renumber floats).map Float.z = List.range (renumber floats).length := by
  simp [renumber, Function.comp_def, List.range_eq_range', List.zipIdx_map_snd]

theorem renumber_inside (floats : List Float) (cols rows : Nat)
    (inside : ∀ float ∈ floats, float.Inside cols rows) : ∀ float ∈ renumber floats, float.Inside cols rows := by
  intro float member
  obtain ⟨pair, given, rfl⟩ := List.mem_map.mp member
  obtain ⟨left, right, top, bottom⟩ := inside pair.1 (List.fst_mem_of_mem_zipIdx given)
  exact ⟨left, right, top, bottom⟩

-- What `removed` leaves of a window, before the z order and the zoom are put right.
structure Left (pane : PaneId) (window left : Window) : Prop where
  tiles : ∀ axis, Spans axis left.tree (left.size axis)
  inside : ∀ float ∈ left.floats, float.Inside left.cols.get left.rows.get
  panes : left.panes = window.panes.erase pane
  id : left.id = window.id
  zoom : left.zoom = window.zoom

theorem tidied_panes (pane : PaneId) (window : Window) : (window.tidied pane).panes = window.panes := by
  simp only [Window.panes, Window.tidied, renumber_map Float.pane fun _ _ => rfl]

theorem Left.tidied {pane : PaneId} {window left : Window} (rest : Left pane window left)
    (wellFormed : window.WellFormed) (distinct : window.panes.Nodup) :
    (left.tidied pane).Sound ∧ (left.tidied pane).id = window.id ∧
      (left.tidied pane).panes = window.panes.erase pane := by
  have panes := (tidied_panes pane left).trans rest.panes
  refine ⟨⟨rest.tiles, ?_, renumber_z left.floats, renumber_inside _ _ _ rest.inside⟩, rest.id, panes⟩
  intro zoomed zoom
  simp only [Window.tidied] at zoom
  split_ifs at zoom with own
  rw [panes, distinct.mem_erase_iff]
  rw [rest.zoom] at zoom own
  exact ⟨fun same => own (same ▸ zoom), wellFormed.zoom zoomed zoom⟩

theorem erase_float {pane : PaneId} {floats : List Float} {index : Nat}
    (found : (floats.findIdx? fun float => decide (float.pane = pane)) = some index) :
    (floats.eraseIdx index).map Float.pane = (floats.map Float.pane).erase pane := by
  induction floats generalizing index with
  | nil => simp at found
  | cons float rest ih =>
    by_cases own : float.pane = pane
    · have zero : index = 0 := by simpa [List.findIdx?_cons, own] using found.symm
      simp [zero, own]
    · rw [List.findIdx?_cons] at found
      simp only [own, decide_false, Bool.false_eq_true, if_false, Option.map_eq_some_iff] at found
      obtain ⟨place, later, rfl⟩ := found
      simp [ih later, List.erase_cons_tail, own]

theorem removed_correct {pane : PaneId} {window : Window} (wellFormed : window.WellFormed)
    (distinct : window.panes.Nodup) (member : pane ∈ window.panes) :
    match window.removed pane with
    | none => window.panes = [pane]
    | some left => Left pane window left := by
  have tiles : Tiles window.tree window.size := ⟨wellFormed.tiles, window.tree_bound⟩
  rw [Window.removed]
  cases found : window.floats.findIdx? fun float => decide (float.pane = pane) with
  | some index =>
    have floated : pane ∈ window.floats.map Float.pane := by
      obtain ⟨inside, own, _⟩ := List.findIdx?_eq_some_iff_getElem.mp found
      exact List.mem_map.mpr ⟨window.floats[index], List.getElem_mem _, by simpa using own⟩
    have absent : pane ∉ window.tree.panes := by
      intro tiled
      exact (List.nodup_append.mp distinct).2.2 pane tiled pane floated rfl
    exact {
      tiles := wellFormed.tiles
      inside := fun float inside => wellFormed.inside float (List.mem_of_mem_eraseIdx inside)
      panes := by
        simp only [Window.panes]
        rw [erase_float found, List.erase_append_right _ absent]
      id := rfl
      zoom := rfl }
  | none =>
    have unfloated : pane ∉ window.floats.map Float.pane := by
      rintro floated
      obtain ⟨float, inside, same⟩ := List.mem_map.mp floated
      simpa [same] using List.findIdx?_eq_none_iff.mp found float inside
    have tiled : pane ∈ window.tree.panes := by
      rcases List.mem_append.mp member with left | right
      · exact left
      · exact absurd right unfloated
    have removed := removeLeaf_correct pane window.tree window.size tiles
    cases result : removeLeaf pane window.tree with
    | some tree =>
      rw [result] at removed
      exact {
        tiles := removed.1.spans
        inside := wellFormed.inside
        panes := by
          simp only [Window.panes]
          rw [removed.2, List.erase_append_left _ tiled]
        id := rfl
        zoom := rfl }
    | none =>
      rw [result] at removed
      obtain ⟨leaf, same, rfl⟩ := removed
      cases floats : window.floats with
      | nil => simp [Window.panes, same, floats]
      | cons float rest =>
        exact {
          tiles := by
            intro axis
            rw [Spans.leaf_iff]
            cases axis <;> rfl
          inside := fun other inside => wellFormed.inside other (by simp [floats, show other ∈ rest from inside])
          panes := by simp [Window.panes, same, floats]
          id := rfl
          zoom := rfl }

theorem without_correct {pane : PaneId} {window : Window} (wellFormed : window.WellFormed)
    (distinct : window.panes.Nodup) (member : pane ∈ window.panes) :
    match window.without pane with
    | none => window.panes = [pane]
    | some left => left.Sound ∧ left.id = window.id ∧ left.panes = window.panes.erase pane := by
  have removed := removed_correct wellFormed distinct member
  rw [Window.without]
  cases result : window.removed pane with
  | none =>
    rw [result] at removed
    exact removed
  | some left =>
    rw [result] at removed
    exact removed.tidied wellFormed distinct

theorem prune_windowList (layout : Layout) : (prune layout).windowList = layout.windowList := by
  have walk (sessions : List Session) :
      (sessions.filter fun session => !session.windows.isEmpty).flatMap Session.windows =
        sessions.flatMap Session.windows := by
    induction sessions with
    | nil => rfl
    | cons session rest ih =>
      cases windows : session.windows with
      | nil => simp [windows, ih]
      | cons window others => simp [windows, ih]
  exact walk layout.sessions

theorem prune_nonempty (layout : Layout) : ∀ session ∈ (prune layout).sessions, session.windows ≠ [] := by
  intro session member
  simpa using (List.mem_filter.mp member).2

theorem prune_sessionIds (layout : Layout) : (prune layout).sessionIds.Sublist layout.sessionIds :=
  List.filter_sublist.map Session.id

theorem Settleable.fewer {before after : Layout} (wellFormed : before.WellFormed)
    (windows : after.windowList.Sublist before.windowList) (sessions : after.sessionIds.Sublist before.sessionIds)
    (nonempty : ∀ session ∈ after.sessions, session.windows ≠ []) : Settleable before after where
  sound := fun window member => (wellFormed.windows window (windows.subset member)).toSound
  focus := fun window member => .inl (wellFormed.windows window (windows.subset member)).focus
  panes := wellFormed.panes.sublist (windows.flatMap _)
  windowIds := wellFormed.windowIds.sublist (windows.map _)
  sessionIds := wellFormed.sessionIds.sublist sessions
  nonempty := nonempty

theorem locate_window (layout : Layout) (pane : PaneId) :
    (layout.locate pane).map Prod.snd = layout.windowList.find? fun window => window.has pane :=
  (windowList_find? layout fun window => window.has pane).symm

theorem window_window (layout : Layout) (id : WindowId) :
    (layout.window? id).map Prod.snd = layout.windowList.find? fun window => decide (window.id = id) :=
  (windowList_find? layout fun window => decide (window.id = id)).symm

theorem removePane_correct {layout : Layout} (wellFormed : layout.WellFormed) {pane : PaneId}
    (member : pane ∈ layout.panes) :
    Settleable layout (removePane pane layout) ∧ (removePane pane layout).panes = layout.panes.erase pane := by
  obtain ⟨⟨session, window⟩, located⟩ := Option.isSome_iff_exists.mp ((layout.locate_some_iff pane).mpr member)
  have found : layout.windowList.find? (fun window => window.has pane) = some window := by
    rw [← locate_window, located]
    rfl
  have inside := List.mem_of_find?_eq_some found
  have own := (window.has_iff pane).mp (List.find?_some (p := fun window : Window => window.has pane) found)
  have windowFormed := wellFormed.windows window inside
  have without := without_correct windowFormed ((List.nodup_flatMap.mp wellFormed.panes).1 window inside) own
  have earlier (before after : List Window) (split : layout.windowList = before ++ window :: after) :
      pane ∉ before.flatMap Window.panes := by
    have distinct := wellFormed.panes
    rw [Layout.panes, split, List.flatMap_append, List.flatMap_cons, List.nodup_append] at distinct
    intro there
    exact distinct.2.2 pane there pane (List.mem_append_left _ own) rfl
  have erased (before after : List Window) (split : layout.windowList = before ++ window :: after) :
      layout.panes.erase pane =
        before.flatMap Window.panes ++ (window.panes.erase pane ++ after.flatMap Window.panes) := by
    rw [Layout.panes, split, List.flatMap_append, List.flatMap_cons,
      List.erase_append_right _ (earlier before after split), List.erase_append_left _ own]
  cases result : window.without pane with
  | none =>
    rw [result] at without
    have unfolded : removePane pane layout =
        prune (layout.replaceFirst (fun window => window.has pane) fun _ => []) := by
      simp [removePane, located, result]
    obtain ⟨before, after, split, same⟩ := Layout.replaceFirst_windowList (fun _ => []) found
    rw [List.nil_append] at same
    rw [unfolded]
    constructor
    · refine Settleable.fewer wellFormed ?_ ?_ (prune_nonempty _)
      · rw [prune_windowList, same, split]
        exact (List.sublist_cons_self _ _).append_left before
      · refine (prune_sessionIds _).trans ?_
        rw [Layout.replaceFirst_sessionIds]
    · rw [erased before after split, Layout.panes, prune_windowList, same, without]
      simp
  | some left =>
    rw [result] at without
    obtain ⟨sound, id, panes⟩ := without
    have unfolded : removePane pane layout = layout.replaceFirst (fun window => window.has pane) fun _ => [left] := by
      simp [removePane, located, result]
    obtain ⟨before, after, split, same⟩ := Layout.replaceFirst_windowList (fun _ => [left]) found
    rw [List.singleton_append] at same
    have all : (layout.replaceFirst (fun window => window.has pane) fun _ => [left]).panes =
        layout.panes.erase pane := by
      rw [erased before after split, Layout.panes, same, List.flatMap_append, List.flatMap_cons, panes]
    have others : ∀ other ∈ before ++ after, other ∈ layout.windowList := by
      intro other there
      rw [split]
      rcases List.mem_append.mp there with first | last <;> simp [*]
    rw [unfolded]
    refine ⟨⟨?_, ?_, ?_, ?_, ?_, ?_⟩, all⟩
    · intro other there
      rw [same, List.mem_append, List.mem_cons] at there
      rcases there with first | equal | last
      · exact (wellFormed.windows other (others other (by simp [first]))).toSound
      · exact equal ▸ sound
      · exact (wellFormed.windows other (others other (by simp [last]))).toSound
    · intro other there
      rw [same, List.mem_append, List.mem_cons] at there
      rcases there with first | equal | last
      · exact .inl (wellFormed.windows other (others other (by simp [first]))).focus
      · obtain ⟨kept, keeps⟩ := List.exists_mem_of_ne_nil _ sound.panes_ne_nil
        rw [equal]
        exact .inr ⟨window, inside, id.symm, kept, keeps, List.mem_of_mem_erase (panes ▸ keeps)⟩
      · exact .inl (wellFormed.windows other (others other (by simp [last]))).focus
    · rw [all]
      exact wellFormed.panes.erase pane
    · have ids : (layout.replaceFirst (fun window => window.has pane) fun _ => [left]).windowIds =
          layout.windowIds := by
        simp [Layout.windowIds, split, same, id]
      rw [ids]
      exact wellFormed.windowIds
    · rw [Layout.replaceFirst_sessionIds]
      exact wellFormed.sessionIds
    · exact Layout.replaceFirst_nonempty layout _ _ (by simp) wellFormed.nonempty

end Kido.Tiling
