import Kido.Layout.Normalize
import Kido.Layout.Remove

set_option autoImplicit false

namespace Kido.Tiling

-- The first item from `at_` on that is kept, else the last one before it.
def nearest {α : Type} (order : List α) (at_ : Nat) (keep : α → Bool) : Option α :=
  (order.drop at_ ++ (order.take at_).reverse).find? keep

theorem nearest_mem {α : Type} {order : List α} {at_ : Nat} {keep : α → Bool} {item : α}
    (found : nearest order at_ keep = some item) : item ∈ order ∧ keep item = true := by
  refine ⟨?_, List.find?_some found⟩
  have member := List.mem_of_find?_eq_some found
  rcases List.mem_append.mp member with left | right
  · exact List.mem_of_mem_drop left
  · exact List.mem_of_mem_take (List.mem_reverse.mp right)

theorem nearest_some {α : Type} (order : List α) (at_ : Nat) (keep : α → Bool) (item : α) (member : item ∈ order)
    (kept : keep item = true) : ∃ found, nearest order at_ keep = some found := by
  rw [← Option.isSome_iff_exists, nearest, List.find?_isSome]
  rw [← List.take_append_drop at_ order] at member
  refine ⟨item, ?_, kept⟩
  rcases List.mem_append.mp member with left | right
  · exact List.mem_append_right _ (List.mem_reverse.mpr left)
  · exact List.mem_append_left _ right

def Layout.mapWindows (f : Window → Window) (layout : Layout) : Layout :=
  ⟨layout.sessions.map fun session => { session with windows := session.windows.map f }⟩

-- The window of `olds` with the id: the last one of that id wins.
def oldWindow (before : Layout) (id : WindowId) : Option Window :=
  before.windowList.reverse.find? fun window => decide (window.id = id)

def settleFocus (old window : Window) : PaneId :=
  if window.has old.focus = true then old.focus
  else
    match (old.panes.findIdx? fun pane => decide (pane = old.focus)).bind fun at_ =>
        nearest old.panes at_ fun pane => window.panes.contains pane with
    | some pane => pane
    | none => window.focus

def settleWindow (before : Layout) (window : Window) : Window :=
  match oldWindow before window.id with
  | some old => { window with focus := settleFocus old window }
  | none => window

def settle (before after : Layout) : Layout := after.mapWindows (settleWindow before)

def prune (layout : Layout) : Layout :=
  ⟨layout.sessions.filter fun session => !session.windows.isEmpty⟩

structure Layout.WellFormed (layout : Layout) : Prop where
  windows : ∀ window ∈ layout.windowList, window.WellFormed
  panes : layout.panes.Nodup
  windowIds : layout.windowIds.Nodup
  sessionIds : layout.sessionIds.Nodup
  nonempty : ∀ session ∈ layout.sessions, session.windows ≠ []

theorem oldWindow_some {before : Layout} {id : WindowId} {old : Window} (found : oldWindow before id = some old) :
    old ∈ before.windowList ∧ old.id = id :=
  ⟨List.mem_reverse.mp (List.mem_of_find?_eq_some found), by simpa using List.find?_some found⟩

theorem unique_of_nodup_map {α β : Type} (f : α → β) (list : List α) (distinct : (list.map f).Nodup)
    {first second : α} (here : first ∈ list) (there : second ∈ list) (same : f first = f second) :
    first = second :=
  List.inj_on_of_nodup_map distinct here there same

theorem oldWindow_eq {before : Layout} (distinct : before.windowIds.Nodup) {old : Window}
    (member : old ∈ before.windowList) : oldWindow before old.id = some old := by
  cases found : oldWindow before old.id with
  | none =>
    have absent := List.find?_eq_none.mp found old (List.mem_reverse.mpr member)
    simp at absent
  | some other =>
    obtain ⟨inside, same⟩ := oldWindow_some found
    rw [unique_of_nodup_map Window.id _ distinct inside member same]

theorem settleFocus_mem {old window : Window} (focus : old.focus ∈ old.panes)
    (shared : ∃ pane ∈ window.panes, pane ∈ old.panes) : settleFocus old window ∈ window.panes := by
  rw [settleFocus]
  by_cases has : window.has old.focus = true
  · rw [if_pos has]
    exact (window.has_iff old.focus).mp has
  · rw [if_neg has]
    cases index : old.panes.findIdx? fun pane => decide (pane = old.focus) with
    | none =>
      have absent := List.findIdx?_eq_none_iff.mp index old.focus focus
      simp at absent
    | some at_ =>
      obtain ⟨pane, inside, common⟩ := shared
      obtain ⟨found, near⟩ := nearest_some old.panes at_ (fun pane => window.panes.contains pane) pane common
        (by simpa using inside)
      have kept := (nearest_mem near).2
      simp only [Option.bind_some, near]
      simpa using kept

theorem settleFocus_keeps {old window : Window} (focus : window.focus ∈ window.panes) :
    settleFocus old window ∈ window.panes := by
  rw [settleFocus]
  by_cases has : window.has old.focus = true
  · rw [if_pos has]
    exact (window.has_iff old.focus).mp has
  · rw [if_neg has]
    split
    · rename_i pane near
      obtain ⟨at_, _, found⟩ := Option.bind_eq_some_iff.mp near
      simpa using (nearest_mem found).2
    · exact focus

section MapWindows

variable (f : Window → Window) (layout : Layout)

theorem mapWindows_windowList : (layout.mapWindows f).windowList = layout.windowList.map f := by
  simp [Layout.mapWindows, Layout.windowList, List.flatMap_map, List.map_flatMap]

theorem mapWindows_sessionIds : (layout.mapWindows f).sessionIds = layout.sessionIds := by
  simp [Layout.mapWindows, Layout.sessionIds, Function.comp_def]

theorem mapWindows_panes (same : ∀ window, (f window).panes = window.panes) :
    (layout.mapWindows f).panes = layout.panes := by
  simp [Layout.panes, mapWindows_windowList, List.flatMap_map, same]

theorem mapWindows_windowIds (same : ∀ window, (f window).id = window.id) :
    (layout.mapWindows f).windowIds = layout.windowIds := by
  simp [Layout.windowIds, mapWindows_windowList, Function.comp_def, same]

theorem mapWindows_congr {g : Window → Window} (same : ∀ window ∈ layout.windowList, f window = g window) :
    layout.mapWindows f = layout.mapWindows g := by
  simp only [Layout.mapWindows, Layout.mk.injEq]
  refine List.map_congr_left fun session member => ?_
  simp only [Session.mk.injEq, true_and]
  exact List.map_congr_left fun window inside => same window ((Layout.mem_windowList_iff layout window).mpr ⟨session, member, inside⟩)

theorem mapWindows_same (same : ∀ window ∈ layout.windowList, f window = window) : layout.mapWindows f = layout := by
  rw [mapWindows_congr f layout (g := fun window => window) same]
  simp only [Layout.mapWindows, List.map_id']

theorem mapWindows_nonempty (nonempty : ∀ session ∈ layout.sessions, session.windows ≠ []) :
    ∀ session ∈ (layout.mapWindows f).sessions, session.windows ≠ [] := by
  intro session member
  obtain ⟨old, inside, rfl⟩ := List.mem_map.mp member
  simpa using nonempty old inside

end MapWindows

theorem settleWindow_id (before : Layout) (window : Window) : (settleWindow before window).id = window.id := by
  simp only [settleWindow]
  split <;> rfl

theorem settleWindow_panes (before : Layout) (window : Window) :
    (settleWindow before window).panes = window.panes := by
  simp only [settleWindow]
  split <;> rfl

theorem settleWindow_wellFormed (before : Layout) (window : Window) (sound : window.Sound)
    (focus : (settleWindow before window).focus ∈ window.panes) : (settleWindow before window).WellFormed := by
  have panes := settleWindow_panes before window
  have same : settleWindow before window = { window with focus := (settleWindow before window).focus } := by
    simp only [settleWindow]
    split <;> rfl
  refine ⟨?_, by rw [panes]; exact focus⟩
  rw [same]
  exact { sound with }

-- A layout whose windows may have lost their focus, before `settle`.
structure Settleable (before after : Layout) : Prop where
  sound : ∀ window ∈ after.windowList, window.Sound
  focus : ∀ window ∈ after.windowList, window.focus ∈ window.panes ∨
    ∃ old ∈ before.windowList, old.id = window.id ∧ ∃ pane ∈ window.panes, pane ∈ old.panes
  panes : after.panes.Nodup
  windowIds : after.windowIds.Nodup
  sessionIds : after.sessionIds.Nodup
  nonempty : ∀ session ∈ after.sessions, session.windows ≠ []

theorem settle_wellFormed {before after : Layout} (wellFormed : before.WellFormed)
    (settleable : Settleable before after) : (settle before after).WellFormed where
  windows := by
    intro window member
    rw [settle, mapWindows_windowList] at member
    obtain ⟨bare, inside, rfl⟩ := List.mem_map.mp member
    refine settleWindow_wellFormed before bare (settleable.sound bare inside) ?_
    rcases settleable.focus bare inside with own | ⟨old, known, same, shared⟩
    · simp only [settleWindow]
      split
      · exact settleFocus_keeps own
      · exact own
    · rw [settleWindow, ← same, oldWindow_eq wellFormed.windowIds known]
      exact settleFocus_mem (wellFormed.windows old known).focus shared
  panes := by
    rw [settle, mapWindows_panes _ _ (settleWindow_panes before)]
    exact settleable.panes
  windowIds := by
    rw [settle, mapWindows_windowIds _ _ (settleWindow_id before)]
    exact settleable.windowIds
  sessionIds := by
    rw [settle, mapWindows_sessionIds]
    exact settleable.sessionIds
  nonempty := mapWindows_nonempty _ after settleable.nonempty

theorem settleWindow_self {layout : Layout} (wellFormed : layout.WellFormed) {window : Window}
    (known : window ∈ layout.windowList) : settleWindow layout window = window := by
  have focus := (window.has_iff window.focus).mpr (wellFormed.windows window known).focus
  simp [settleWindow, oldWindow_eq wellFormed.windowIds known, settleFocus, focus]

end Kido.Tiling
