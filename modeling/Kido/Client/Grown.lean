import Kido.Client.Changed
import Kido.Layout.Handed

set_option autoImplicit false

namespace Kido.Tiling.Sizing

def Float.extent (float : Float) (axis : Axis) : Nat := (pick axis float.cols float.rows).get

def float? (layout : Layout) (pane : PaneId) : Option Float :=
  (layout.windowList.flatMap Window.floats).find? fun float => decide (float.pane = pane)

-- Toward right and bottom a float grows, and keeps its other extent; else it shrinks.
def Monotone (edge : Edge) (before after : Float) : Prop :=
  let (axis, leading) := along edge
  if leading then Float.extent after axis ≤ Float.extent before axis
  else Float.extent before axis ≤ Float.extent after axis ∧
    ∀ other, other ≠ axis → Float.extent after other = Float.extent before other

-- The float shrinks, or its new size is one that a cell count can hold, or it has at most half of the window.
def Holdable (edge : Edge) (delta : Cells) (window : Window) (float : Float) : Prop :=
  let (axis, leading) := along edge
  leading = true ∨ Float.extent float axis + delta.get ≤ maxDimension ∨ Float.extent float axis ≤ (window.size axis + 1) / 2

theorem float?_own {layout : Layout} (wellFormed : layout.WellFormed) {window : Window} (inside : window ∈ layout.windowList)
    {float : Float} (own : float ∈ window.floats) : float? layout float.pane = some float := by
  cases found : float? layout float.pane with
  | none =>
    have absent := List.find?_eq_none.1 found float (List.mem_flatMap_of_mem inside own)
    simp at absent
  | some other =>
    have same := of_decide_eq_true (List.find?_some (p := fun other : Float => decide (other.pane = float.pane)) found)
    obtain ⟨otherWindow, there, held⟩ := List.mem_flatMap.1 (List.mem_of_find?_eq_some found)
    have here : float.pane ∈ window.panes := List.mem_append_right _ (List.mem_map_of_mem own)
    have here' : float.pane ∈ otherWindow.panes := by
      rw [← same]
      exact List.mem_append_right _ (List.mem_map_of_mem held)
    obtain rfl := window_of_pane wellFormed inside there here here'
    have distinct := ((List.nodup_flatMap.1 wellFormed.panes).1 window inside).of_append_right
    rw [unique_of_nodup_map Float.pane _ distinct own held same.symm]

def wantedSize (leading : Bool) (extent delta : Nat) : Option Nat :=
  if leading then some (max (extent - delta) 1) else if extent + delta ≤ maxDimension then some (extent + delta) else none

theorem new_wanted (leading : Bool) (size delta : Cells) :
    (Cells.new (if leading then max (size.get - delta.get) 1 else min (size.get + delta.get) u16Max)).map Cells.get =
      wantedSize leading size.get delta.get := by
  have own := size.bound
  have other := delta.bound
  have positive := size.positive
  cases leading with
  | true =>
    have valid : 1 ≤ max (size.get - delta.get) 1 ∧ max (size.get - delta.get) 1 ≤ maxDimension := by omega
    simp [Cells.new, wantedSize, valid]
  | false =>
    have small : min (size.get + delta.get) u16Max = size.get + delta.get := by
      simp only [maxDimension, u16Max] at own other ⊢
      omega
    by_cases holds : size.get + delta.get ≤ maxDimension
    · have valid : 1 ≤ size.get + delta.get ∧ size.get + delta.get ≤ maxDimension := ⟨by omega, holds⟩
      simp [Cells.new, wantedSize, small, valid]
    · simp [Cells.new, wantedSize, small, holds]

theorem placedSize_same {pad extent window : Nat} (positive : 1 ≤ extent) (room : extent + 2 * pad ≤ window) :
    placedSize pad (some extent) window = extent := by
  simp only [placedSize, Option.getD_some]
  omega

theorem placedSize_monotone {pad extent window : Nat} (delta : Nat) (leading : Bool) (positive : 1 ≤ extent) (room : extent + 2 * pad ≤ window) :
    (if leading = true then placedSize pad (wantedSize leading extent delta) window ≤ extent
      else extent ≤ placedSize pad (wantedSize leading extent delta) window) ↔
        leading = true ∨ extent + delta ≤ maxDimension ∨ extent ≤ (window + 1) / 2 := by
  cases leading with
  | true =>
    simp only [if_true, true_or, iff_true, wantedSize, placedSize, Option.getD_some]
    omega
  | false =>
    simp only [Bool.false_eq_true, if_false, false_or, wantedSize]
    by_cases holds : extent + delta ≤ maxDimension
    · simp only [holds, if_true, true_or, iff_true, placedSize, Option.getD_some]
      omega
    · simp only [holds, if_false, false_or, placedSize, Option.getD_none]
      omega

def resized (window : Window) (edge : Edge) (delta : Cells) (float : Float) : Float :=
  placeOne window.cols.get window.rows.get (resizeFloat edge delta float.draft).input float.z

theorem resizeFloat_pad (edge : Edge) (delta : Cells) (float : Float) : (resizeFloat edge delta float.draft).input.pad = float.pad := by
  cases edge <;> rfl

theorem resizeFloat_size (edge : Edge) (delta : Cells) (float : Float) (axis : Axis) :
    pick axis (resizeFloat edge delta float.draft).input.cols (resizeFloat edge delta float.draft).input.rows =
      if axis = (along edge).1 then wantedSize (along edge).2 (Float.extent float axis) delta.get else some (Float.extent float axis) := by
  have cols := new_wanted (along edge).2 float.cols delta
  have rows := new_wanted (along edge).2 float.rows delta
  cases edge <;> cases axis <;> first | exact cols | exact rows | rfl

theorem placeOne_extent {window : Window} {float : FloatIn} (wide : 1 + 2 * float.pad ≤ window.cols.get)
    (tall : 1 + 2 * float.pad ≤ window.rows.get) (z : Nat) (axis : Axis) :
    Float.extent (placeOne window.cols.get window.rows.get float z) axis =
      placedSize float.pad (pick axis float.cols float.rows) (window.size axis) := by
  have clamped (wanted : Option Nat) (cells : Cells) (room : 1 + 2 * float.pad ≤ cells.get) :
      (Cells.clamped (placedSize float.pad wanted cells.get)).get = placedSize float.pad wanted cells.get := by
    have bound := placedSize_bound float.pad wanted cells.get room
    have limit := cells.bound
    exact Cells.clamped_get _ bound.1 (by omega)
  cases axis with
  | horizontal => exact clamped float.cols window.cols wide
  | vertical => exact clamped float.rows window.rows tall

theorem extent_room {window : Window} {float : Float} (inside : float.Inside window.cols.get window.rows.get) (axis : Axis) :
    1 ≤ Float.extent float axis ∧ Float.extent float axis + 2 * float.pad ≤ window.size axis := by
  obtain ⟨left, right, top, bottom⟩ := inside
  have cols := float.cols.positive
  have rows := float.rows.positive
  cases axis with
  | horizontal =>
    simp only [Float.extent, Window.size, pick]
    omega
  | vertical =>
    simp only [Float.extent, Window.size, pick]
    omega

theorem resized_extent {window : Window} {float : Float} (inside : float.Inside window.cols.get window.rows.get) (edge : Edge)
    (delta : Cells) (axis : Axis) :
    Float.extent (resized window edge delta float) axis =
      if axis = (along edge).1 then
        placedSize float.pad (wantedSize (along edge).2 (Float.extent float axis) delta.get) (window.size axis)
      else Float.extent float axis := by
  have wide := extent_room inside .horizontal
  have tall := extent_room inside .vertical
  have room := extent_room inside axis
  simp only [Window.size, pick] at wide tall
  rw [resized, placeOne_extent (by rw [resizeFloat_pad]; omega) (by rw [resizeFloat_pad]; omega), resizeFloat_pad, resizeFloat_size]
  split_ifs
  · rfl
  · exact placedSize_same room.1 room.2

theorem resized_monotone {window : Window} {float : Float} (inside : float.Inside window.cols.get window.rows.get) (edge : Edge)
    (delta : Cells) : Monotone edge float (resized window edge delta float) ↔ Holdable edge delta window float := by
  have room := extent_room inside (along edge).1
  have size := resized_extent inside edge delta (along edge).1
  rw [if_pos rfl] at size
  have monotone := placedSize_monotone delta.get (along edge).2 room.1 room.2
  rw [← size] at monotone
  have other : ∀ other, other ≠ (along edge).1 →
      Float.extent (resized window edge delta float) other = Float.extent float other := by
    intro other differs
    rw [resized_extent inside, if_neg differs]
  refine Iff.trans ?_ monotone
  simp only [Monotone]
  split_ifs
  · rfl
  · exact and_iff_left other

theorem replaceFirst_float {floats : List Float} (distinct : (floats.map Float.pane).Nodup) (pane : PaneId) (change : DraftFloat → DraftFloat) :
    replaceFirst (fun float => decide (float.pane = .existing pane)) (fun float => [change float]) (floats.map Float.draft) =
      floats.map fun float => if float.pane = pane then change float.draft else float.draft := by
  induction floats with
  | nil => rfl
  | cons float rest ih =>
    rw [List.map_cons, List.nodup_cons] at distinct
    rw [List.map_cons, List.map_cons, replaceFirst]
    by_cases same : float.pane = pane
    · have others : rest.map (fun other => if other.pane = pane then change other.draft else other.draft) = rest.map Float.draft := by
        refine List.map_congr_left fun other inside => if_neg fun is => distinct.1 ?_
        rw [same, ← is]
        exact List.mem_map_of_mem inside
      rw [if_pos (by simp [Float.draft, same]), if_pos same, others]
      rfl
    · rw [if_neg (by simp [Float.draft, same]), if_neg same, ih distinct.2]

def resizedDraft (window : Window) (edge : Edge) (delta : Cells) (pane : PaneId) : DraftWindow :=
  { window.draft with
    zoom := none
    floats := window.floats.map fun float => if float.pane = pane then resizeFloat edge delta float.draft else float.draft }

theorem resizedDraft_sizes (window : Window) (edge : Edge) (delta : Cells) (pane : PaneId) :
    window.Sizes (resizedDraft window edge delta pane) where
  id := rfl
  name := rfl
  vars := rfl
  cols := rfl
  rows := rfl
  cellPx := rfl
  zoom := fun _ is => nomatch is
  tree := by
    rw [resizedDraft, Window.draft, map_map_node]
    rfl
  floats := by
    rw [resizedDraft, List.map_map]
    refine List.map_congr_left fun float _ => ?_
    rw [Function.comp_apply]
    split_ifs
    · cases edge <;> rfl
    · rfl

theorem resized_mem {window : Window} (sound : window.Sound) {float : Float} (own : float ∈ window.floats) (edge : Edge) (delta : Cells) :
    resized window edge delta float ∈ (window.sized (resizedDraft window edge delta float.pane)).floats := by
  have placed := place_ordered window.floats
    (fun other => (if other.pane = float.pane then resizeFloat edge delta other.draft else other.draft).input) Float.z
    (fun other => by split_ifs <;> [cases edge <;> rfl; rfl]) window.cols.get window.rows.get sound.z
  rw [Window.sized, resizedDraft, List.map_map]
  change _ ∈ place (window.floats.map fun other =>
    (if other.pane = float.pane then resizeFloat edge delta other.draft else other.draft).input) _ _
  rw [placed]
  refine List.mem_map.2 ⟨float, own, ?_⟩
  rw [if_pos rfl]
  rfl

theorem apply_float {layout : Layout} (wellFormed : layout.WellFormed) {window : Window} (inside : window ∈ layout.windowList)
    {float : Float} (own : float ∈ window.floats) (edge : Edge) (delta : Cells) :
    apply layout.draft (.resizeBy float.pane edge delta) =
      .ok (layout.draftWith (draftOr window.id (resizedDraft window edge delta float.pane))) := by
  have here : float.pane ∈ window.panes := List.mem_append_right _ (List.mem_map_of_mem own)
  have distinct := ((List.nodup_flatMap.1 wellFormed.panes).1 window inside).of_append_right
  refine inWindow_draft wellFormed inside here ?_
  have any : (window.draft.floats.any fun other => decide (other.pane = .existing float.pane)) = true := by
    rw [Window.draft, List.any_map]
    exact List.any_eq_true.2 ⟨float, own, decide_eq_true rfl⟩
  simp only [any, if_true]
  rw [show window.draft.floats = window.floats.map Float.draft from rfl, replaceFirst_float distinct]
  rfl

theorem float_put {document : Document} (wellFormed : document.layout.WellFormed) {window : Window}
    (inside : window ∈ document.layout.windowList) {float : Float} (own : float ∈ window.floats) (edge : Edge) (delta : Cells)
    (newWindow : Option Size) (shell : Option Name) :
    ∃ draft after, apply document.layout.draft (.resizeBy float.pane edge delta) = .ok draft ∧
      document.putWithShell ⟨document.revision, draft⟩ newWindow shell = (.ok [], after) ∧
        float? after.layout float.pane = some (resized window edge delta float) := by
  have sound := (wellFormed.windows window inside).toSound
  have applied := apply_float wellFormed inside own edge delta
  obtain ⟨after, put, layout, wellFormed'⟩ :=
    put_changed wellFormed inside (resizedDraft_sizes window edge delta float.pane) newWindow shell
  refine ⟨_, after, applied, put, ?_⟩
  have there : window.sized (resizedDraft window edge delta float.pane) ∈ after.layout.windowList := by
    rw [layout, withWindow, mapWindows_windowList]
    exact List.mem_map.2 ⟨window, inside, if_pos rfl⟩
  have pane : (resized window edge delta float).pane = float.pane := by cases edge <;> rfl
  rw [← pane]
  exact float?_own wellFormed' there (resized_mem sound own edge delta)

-- A float that is resized and put is larger or smaller as asked for, exactly when its new size can be held or it has at most
-- half of its window.
theorem float_resizes (ops : List Op) {window : Window} (inside : window ∈ (World.run ops).document.layout.windowList)
    {float : Float} (own : float ∈ window.floats) (edge : Edge) (delta : Cells) (newWindow : Option Size) (shell : Option Name) :
    let document := (World.run ops).document
    ∃ draft after found, apply document.layout.draft (.resizeBy float.pane edge delta) = .ok draft ∧
      document.putWithShell ⟨document.revision, draft⟩ newWindow shell = (.ok [], after) ∧ float? after.layout float.pane = some found ∧
        (Monotone edge float found ↔ Holdable edge delta window float) := by
  intro document
  have wellFormed := (run_wellFormed ops).1
  obtain ⟨draft, after, applied, put, found⟩ := float_put wellFormed inside own edge delta newWindow shell
  have sound := (wellFormed.windows window inside).toSound
  exact ⟨draft, after, _, applied, put, found, resized_monotone (sound.inside float own) edge delta⟩

def floatPut : Op := .put ⟨.first, ⟨[⟨none, singleName, .empty, [{
  id := none
  name := some singleWindowName
  vars := .empty
  cols := none
  rows := none
  cellPx := none
  zoom := none
  tree := .leaf ⟨.new freshPane, none, none⟩
  floats := [⟨.new freshPane, none, none, some ⟨60, by decide, by decide⟩, some ⟨10, by decide, by decide⟩, none, false, ""⟩] }]⟩]⟩⟩
  none none

def wideFloat : Float := ⟨⟨2⟩, 10, 7, ⟨60, by decide, by decide⟩, ⟨10, by decide, by decide⟩, 0, false, ""⟩

def floatWindow : Window where
  id := ⟨1⟩
  name := singleWindowName
  vars := .empty
  cols := unsizedWindow.cols
  rows := unsizedWindow.rows
  cellPx := none
  zoom := none
  focus := ⟨1⟩
  tree := .leaf ⟨⟨1⟩, unsizedWindow.cols, unsizedWindow.rows⟩
  floats := [wideFloat]

theorem floatPut_windows : (World.run [floatPut]).document.layout.windowList = [floatWindow] := by rfl

def widest : Cells := .clamped maxDimension

-- Toward the left it is smaller.
theorem float_narrows : ∃ draft after found, apply (World.run [floatPut]).document.layout.draft (.resizeBy ⟨2⟩ .left widest) = .ok draft ∧
    (World.run [floatPut]).document.putWithShell ⟨(World.run [floatPut]).document.revision, draft⟩ none none = (.ok [], after) ∧
      float? after.layout ⟨2⟩ = some found ∧ Monotone .left wideFloat found := by
  have inside : floatWindow ∈ (World.run [floatPut]).document.layout.windowList := by
    rw [floatPut_windows]
    exact List.mem_cons_self
  have own : wideFloat ∈ floatWindow.floats := List.mem_cons_self
  obtain ⟨draft, after, found, applied, put, is, monotone⟩ :=
    float_resizes [floatPut] inside own .left widest none none
  exact ⟨draft, after, found, applied, put, is, monotone.2 (.inl rfl)⟩

-- Toward the right it is smaller too, when a cell count cannot hold the size that was asked for.
theorem float_shrinks : ∃ draft after found, apply (World.run [floatPut]).document.layout.draft (.resizeBy ⟨2⟩ .right widest) = .ok draft ∧
    (World.run [floatPut]).document.putWithShell ⟨(World.run [floatPut]).document.revision, draft⟩ none none = (.ok [], after) ∧
      float? (World.run [floatPut]).document.layout ⟨2⟩ = some wideFloat ∧ float? after.layout ⟨2⟩ = some found ∧
        found.cols.get < wideFloat.cols.get ∧ ¬ Monotone .right wideFloat found := by
  have wellFormed := (run_wellFormed [floatPut]).1
  have inside : floatWindow ∈ (World.run [floatPut]).document.layout.windowList := by
    rw [floatPut_windows]
    exact List.mem_cons_self
  have own : wideFloat ∈ floatWindow.floats := List.mem_cons_self
  obtain ⟨draft, after, applied, put, is⟩ := float_put wellFormed inside own .right widest none none
  refine ⟨draft, after, _, applied, put, float?_own wellFormed inside own, is, by decide, fun monotone => ?_⟩
  have smaller : ¬ Float.extent wideFloat .horizontal ≤ Float.extent (resized floatWindow .right widest wideFloat) .horizontal := by decide
  exact smaller monotone.1

end Kido.Tiling.Sizing
