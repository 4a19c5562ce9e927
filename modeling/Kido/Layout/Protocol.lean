import Kido.Layout.Tree
import Kido.Layout.Vars

set_option autoImplicit false

namespace Kido.Tiling

structure CellPixels where
  width : Nat
  height : Nat
  bounds : 1 ≤ width ∧ width ≤ u16Max ∧ 1 ≤ height ∧ height ≤ u16Max
deriving DecidableEq

structure Float where
  pane : PaneId
  x : Nat
  y : Nat
  cols : Cells
  rows : Cells
  z : Nat
  border : Bool
  title : String
deriving DecidableEq

structure Window where
  id : WindowId
  name : Name
  vars : Vars
  cols : Cells
  rows : Cells
  cellPx : Option CellPixels
  zoom : Option PaneId
  focus : PaneId
  tree : Node Leaf
  floats : List Float
deriving DecidableEq

structure Session where
  id : SessionId
  name : Name
  vars : Vars
  windows : List Window
deriving DecidableEq

structure Layout where
  sessions : List Session
deriving DecidableEq

namespace Window

def panes (window : Window) : List PaneId := window.tree.panes ++ window.floats.map Float.pane

def has (window : Window) (pane : PaneId) : Bool :=
  window.tree.contains pane || window.floats.any fun float => decide (float.pane = pane)

theorem has_iff (window : Window) (pane : PaneId) : window.has pane = true ↔ pane ∈ window.panes := by
  simp [has, panes, Node.contains_iff_mem_panes]

def size (window : Window) (axis : Axis) : Nat := (pick axis window.cols window.rows).get

end Window

def Session.panes (session : Session) : List PaneId := session.windows.flatMap Window.panes

namespace Layout

def windows (layout : Layout) : List (Session × Window) :=
  layout.sessions.flatMap fun session => session.windows.map fun window => (session, window)

def session? (layout : Layout) (id : SessionId) : Option Session :=
  layout.sessions.find? fun session => decide (session.id = id)

def window? (layout : Layout) (id : WindowId) : Option (Session × Window) :=
  layout.windows.find? fun found => decide (found.2.id = id)

def locate (layout : Layout) (pane : PaneId) : Option (Session × Window) :=
  layout.windows.find? fun found => found.2.has pane

def windowList (layout : Layout) : List Window := layout.sessions.flatMap Session.windows

-- The panes of all windows, in order; `panes` of the source is the set of them.
def panes (layout : Layout) : List PaneId := layout.windowList.flatMap Window.panes

def windowIds (layout : Layout) : List WindowId := layout.windowList.map Window.id

def sessionIds (layout : Layout) : List SessionId := layout.sessions.map Session.id

theorem windows_map_snd (layout : Layout) : layout.windows.map Prod.snd = layout.windowList := by
  simp only [windows, windowList, List.map_flatMap, List.map_map]
  exact List.flatMap_congr fun session _ => by simp [Function.comp_def]

theorem mem_windows_iff (layout : Layout) (session : Session) (window : Window) :
    (session, window) ∈ layout.windows ↔ session ∈ layout.sessions ∧ window ∈ session.windows := by
  simp only [windows, List.mem_flatMap, List.mem_map, Prod.mk.injEq]
  constructor
  · rintro ⟨found, member, other, inside, rfl, rfl⟩
    exact ⟨member, inside⟩
  · rintro ⟨member, inside⟩
    exact ⟨session, member, window, inside, rfl, rfl⟩

theorem mem_windowList_iff (layout : Layout) (window : Window) :
    window ∈ layout.windowList ↔ ∃ session ∈ layout.sessions, window ∈ session.windows := by
  simp [windowList]

theorem locate_some_iff (layout : Layout) (pane : PaneId) :
    (layout.locate pane).isSome = true ↔ pane ∈ layout.panes := by
  simp only [locate, List.find?_isSome, Window.has_iff, panes, List.mem_flatMap, ← windows_map_snd,
    List.mem_map]
  constructor
  · rintro ⟨found, member, inside⟩
    exact ⟨found.2, ⟨found, member, rfl⟩, inside⟩
  · rintro ⟨window, ⟨found, member, rfl⟩, inside⟩
    exact ⟨found, member, inside⟩

theorem window?_mem (layout : Layout) (id : WindowId) (session : Session) (window : Window)
    (found : layout.window? id = some (session, window)) :
    session ∈ layout.sessions ∧ window ∈ session.windows ∧ window.id = id := by
  have member := (mem_windows_iff layout session window).mp (List.mem_of_find?_eq_some found)
  exact ⟨member.1, member.2, by simpa using List.find?_some found⟩

end Layout

inductive Command where
  | argv (argv : List String)
  | shell (command : String)
deriving DecidableEq, Repr

structure CreatePane where
  command : Option Command
  vars : Loose
  parent : Option PaneId
deriving DecidableEq

inductive PaneRef where
  | existing (pane : PaneId)
  | new (request : CreatePane)
deriving DecidableEq

structure DraftLeaf where
  pane : PaneRef
  cols : Option Cells
  rows : Option Cells
deriving DecidableEq

structure DraftFloat where
  pane : PaneRef
  x : Option Nat
  y : Option Nat
  cols : Option Cells
  rows : Option Cells
  z : Option Nat
  border : Bool
  title : String
deriving DecidableEq

structure DraftWindow where
  id : Option WindowId
  name : Option Name
  vars : Loose
  cols : Option Cells
  rows : Option Cells
  cellPx : Option CellPixels
  zoom : Option PaneId
  tree : Node DraftLeaf
  floats : List DraftFloat
deriving DecidableEq

structure DraftSession where
  id : Option SessionId
  name : Name
  vars : Loose
  windows : List DraftWindow
deriving DecidableEq

structure DraftLayout where
  sessions : List DraftSession
deriving DecidableEq

structure PutLayout where
  revision : Revision
  layout : DraftLayout

def Leaf.draft (leaf : Leaf) : DraftLeaf := ⟨.existing leaf.pane, some leaf.cols, some leaf.rows⟩

def Float.draft (float : Float) : DraftFloat where
  pane := .existing float.pane
  x := some float.x
  y := some float.y
  cols := some float.cols
  rows := some float.rows
  z := some float.z
  border := float.border
  title := float.title

def Window.draft (window : Window) : DraftWindow where
  id := some window.id
  name := some window.name
  vars := window.vars.loose
  cols := some window.cols
  rows := some window.rows
  cellPx := window.cellPx
  zoom := window.zoom
  tree := window.tree.map Leaf.draft
  floats := window.floats.map Float.draft

def Session.draft (session : Session) : DraftSession where
  id := some session.id
  name := session.name
  vars := session.vars.loose
  windows := session.windows.map Window.draft

def Layout.draft (layout : Layout) : DraftLayout := ⟨layout.sessions.map Session.draft⟩

end Kido.Tiling
