import Kido.Layout.Handed
import Kido.Sidebar.Projection

set_option autoImplicit false

namespace Kido.Sidebar

open Kido.Tiling
open Kido.Outlining (Pane Model)

inductive RowId where
  | header (session : SessionId)
  | pane (session : SessionId) (pane : PaneId)
  | program (session : SessionId) (pane : PaneId) (record : List UInt8)
  | gap (session : SessionId)
deriving DecidableEq

inductive Kind where
  | header
  | pane (target : Option Position)
  | gap
deriving DecidableEq

structure SidebarRow where
  id : RowId
  kind : Kind
  indent : Nat
  focused : Bool
  root : Option WindowId
  runtime : Option String
deriving DecidableEq

def slash : UInt8 := 0x2f

-- How many records of the pane are above the record: each `/` ends the id of one, if it has it.
def ancestors (records : List (List UInt8)) (record : List UInt8) : Nat :=
  (List.range record.length).countP fun at_ => decide (record[at_]? = some slash ∧ record.take at_ ∈ records)

def programRows (session : SessionId) (pane : Pane) (depth : Nat) (root : WindowId) : List SidebarRow :=
  (pane.records.filter fun record => !record.isEmpty).map fun record =>
    ⟨.program session pane.id record, .pane none, depth + 1 + ancestors (pane.records.filter fun record => !record.isEmpty) record,
      false, some root, none⟩

section Windows

variable (session : SessionId) (client : Position)

mutual

-- The runtime of a row is left out where the pane above it has the same.
def windows (depth : Nat) (root : Option WindowId) (above : Option String) : List Node → List SidebarRow
  | [] => []
  | node :: rest => windowsNode depth root above node ++ windows depth root above rest
termination_by structural nodes => nodes

def windowsNode (depth : Nat) (root : Option WindowId) (above : Option String) : Node → List SidebarRow
  | .window id items => windowsItems depth (root.getD id) above items
  | .item item => windowsItem depth (root.getD item.window) above item
termination_by structural node => node

def windowsItems (depth : Nat) (root : WindowId) (above : Option String) : List (ItemOf Pane Node) → List SidebarRow
  | [] => []
  | item :: rest => windowsItem depth root above item ++ windowsItems depth root above rest
termination_by structural items => items

def windowsItem (depth : Nat) (root : WindowId) (above : Option String) : ItemOf Pane Node → List SidebarRow
  | ⟨pane, window, children, runtime⟩ =>
    ⟨.pane session pane.id, .pane (some ⟨session, window, pane.id⟩), depth, decide ((⟨session, window, pane.id⟩ : Position) = client), some root,
        runtime.filter fun name => decide (some name ≠ above)⟩ ::
      programRows session pane depth root ++ windows (depth + 1) (some root) runtime children
termination_by structural item => item

end

end Windows

def sessionRows (client : Position) (session : SessionNodes) : List SidebarRow :=
  ⟨.header session.id, .header, 0, false, none, none⟩ :: windows session.id client 0 none none session.nodes ++
    [⟨.gap session.id, .gap, 0, false, none, none⟩]

def sidebarRows : Option Snapshot → List SidebarRow
  | none => []
  | some snapshot => snapshot.sessions.flatMap (sessionRows snapshot.client)

-- The pane that a row stands for, and its indent.
def SidebarRow.shown (row : SidebarRow) : Option (Position × Nat) :=
  match row.kind with
  | .pane (some target) => some (target, row.indent)
  | _ => none

-- The panes of an outline, each with its session and its depth.
def listed : Option SessionId → List Outlining.Item → List (Position × Nat)
  | _, [] => []
  | _, .session id _ :: rest => listed (some id) rest
  | none, .pane _ _ _ :: rest => listed none rest
  | some session, .pane id window depth :: rest => (⟨session, window, id⟩, depth) :: listed (some session) rest

section Shown

variable {session : SessionId} {client : Position}

def placed (session : SessionId) (entry : ItemPane × Option ItemPane) : Position × Nat := (⟨session, entry.1.window, entry.1.id⟩, entry.1.depth)

theorem programRows_shown (pane : Pane) (depth : Nat) (root : WindowId) : (programRows session pane depth root).filterMap SidebarRow.shown = [] := by
  rw [List.filterMap_eq_nil_iff]
  intro row member
  obtain ⟨record, _, rfl⟩ := List.mem_map.mp member
  rfl

mutual

theorem windows_shown (level : Nat) (root : Option WindowId) (above : Option String) (parent : Option ItemPane) :
    ∀ nodes : List Node, (windows session client level root above nodes).filterMap SidebarRow.shown = (preorder level parent nodes).map (placed session)
  | [] => rfl
  | node :: rest => by
    rw [windows, preorder, List.filterMap_append, List.map_append, windows_shown level root above parent rest,
      windowsNode_shown level root above parent node]
termination_by structural nodes => nodes

theorem windowsNode_shown (level : Nat) (root : Option WindowId) (above : Option String) (parent : Option ItemPane) :
    ∀ node : Node, (windowsNode session client level root above node).filterMap SidebarRow.shown = (preorderNode level parent node).map (placed session)
  | .window id items => windowsItems_shown level (root.getD id) above parent items
  | .item item => windowsItem_shown level (root.getD item.window) above parent item
termination_by structural node => node

theorem windowsItems_shown (level : Nat) (root : WindowId) (above : Option String) (parent : Option ItemPane) :
    ∀ items : List (ItemOf Pane Node),
      (windowsItems session client level root above items).filterMap SidebarRow.shown = (preorderItems level parent items).map (placed session)
  | [] => rfl
  | item :: rest => by
    rw [windowsItems, preorderItems, List.filterMap_append, List.map_append, windowsItems_shown level root above parent rest,
      windowsItem_shown level root above parent item]
termination_by structural items => items

theorem windowsItem_shown (level : Nat) (root : WindowId) (above : Option String) (parent : Option ItemPane) :
    ∀ item : ItemOf Pane Node,
      (windowsItem session client level root above item).filterMap SidebarRow.shown = (preorderItem level parent item).map (placed session)
  | ⟨pane, window, children, runtime⟩ => by
    have inner := windows_shown (level + 1) (some root) runtime (some ⟨pane.id, window, level⟩) children
    rw [windowsItem, preorderItem, List.cons_append, List.filterMap_cons, List.filterMap_append, programRows_shown, List.nil_append, inner]
    rfl
termination_by structural item => item

end

-- The panes of the sessions in front of which an outline is read.
theorem listed_blocks (items : List Outlining.Item) :
    (∀ session, listed (some session) items =
        (blocks items).1.map (fun entry => (⟨session, entry.window, entry.id⟩, entry.depth)) ++ listed none items) ∧
      listed none items = (blocks items).2.flatMap fun block => block.2.2.map fun entry => (⟨block.1, entry.window, entry.id⟩, entry.depth) := by
  induction items with
  | nil => exact ⟨fun _ => rfl, rfl⟩
  | cons item rest ih =>
    obtain ⟨inside, outside⟩ := ih
    cases item with
    | session id name =>
      have first : listed none (.session id name :: rest) = listed (some id) rest := rfl
      refine ⟨fun _ => rfl, ?_⟩
      rw [first, inside, outside]
      rfl
    | pane id window depth =>
      refine ⟨fun session => ?_, outside⟩
      change _ :: listed (some session) rest = _
      rw [inside]
      rfl

end Shown

-- What a sidebar shows of an outline: its sessions with their panes in order, each under the nearest earlier pane of smaller
-- depth, the panes of a window in one group where they stand side by side, and a row for each with the indent of its depth.
structure Shows (outline : List Outlining.Item) (sessions : List SessionNodes) (rows : List SidebarRow) : Prop where
  whole : (blocks outline).1 = []
  tree : List.Forall₂ (fun block shown => shown.id = block.1 ∧ shown.name = block.2.1.text ∧
    preorder 0 none shown.nodes = under [] block.2.2 ∧ Grouped shown.nodes) (blocks outline).2 sessions
  rows : rows.filterMap SidebarRow.shown = listed none outline

section Outline

variable {model : Model} {marks : PaneId → Option String}

theorem built_tree (rows : ∀ id window depth, .pane id window depth ∈ model.outline → ∃ pane ∈ model.panes, pane.id = id)
    {session : Session} (member : session ∈ model.layout.sessions) :
    preorder 0 none ((Projection.mk model marks).built (block model session)).nodes = under [] (block model session).2.2 ∧
      Grouped ((Projection.mk model marks).built (block model session)).nodes := by
  have rises : Outlining.Rises 0 ((block model session).2.2.map ItemPane.depth) := by
    rw [block, List.map_map]
    exact Outlining.order_rises _ _ _
  have found : ∀ entry ∈ (block model session).2.2, ∃ pane, (Projection.mk model marks).panes entry.id = some pane := by
    intro entry among
    obtain ⟨⟨⟨id, window⟩, depth⟩, here, rfl⟩ := List.mem_map.mp among
    have is : .pane id window depth ∈ model.outline :=
      List.mem_flatMap.mpr ⟨session, member, List.mem_cons_of_mem _ (List.mem_map.mpr ⟨_, here, rfl⟩)⟩
    obtain ⟨pane, row, same⟩ := rows id window depth is
    apply Option.isSome_iff_exists.mp
    rw [Projection.panes, List.find?_isSome]
    exact ⟨pane, row, decide_eq_true same⟩
  obtain ⟨entries, takes⟩ := nodes_take (Projection.mk model marks) _ [] _ 0 [] (Nat.le_refl _) rises found
  have rest : ((Projection.mk model marks).nodes (block model session).2.2.length (block model session).2.2 0 []).2 = [] := by
    cases left : ((Projection.mk model marks).nodes (block model session).2.2.length (block model session).2.2 0 []).2 with
    | nil => rfl
    | cons entry _ => exact absurd (takes.ends entry (by rw [left]; rfl)) (Nat.not_lt_zero _)
  have all : (block model session).2.2 = entries := by
    rw [takes.split, rest, List.append_nil]
  refine ⟨?_, takes.grouped trivial⟩
  rw [all]
  exact takes.order

theorem sessionRows_shown (client : Position) (session : SessionNodes) :
    (sessionRows client session).filterMap SidebarRow.shown = (preorder 0 none session.nodes).map (placed session.id) := by
  rw [sessionRows, List.cons_append, List.filterMap_cons, List.filterMap_append, windows_shown 0 none none none]
  exact List.append_nil _

theorem sidebar_shows (rows : ∀ id window depth, .pane id window depth ∈ model.outline → ∃ pane ∈ model.panes, pane.id = id) :
    (∀ client serverInstance,
        Shows model.outline (Projection.mk model marks).sessions (sidebarRows (some ⟨client, serverInstance, (Projection.mk model marks).sessions⟩))) ∧
      (∀ serverInstance, snapshot model serverInstance marks = none → model.layout.sessions = [] ∨ ∃ session ∈ model.layout.sessions, session.windows = []) := by
  constructor
  · intro client serverInstance
    have outline := outline_blocks model
    refine ⟨by rw [outline], ?_, ?_⟩
    · rw [outline, Projection.sessions_built, List.forall₂_map_right_iff, List.forall₂_same]
      intro block member
      obtain ⟨session, among, rfl⟩ := List.mem_map.mp member
      exact ⟨rfl, rfl, built_tree rows among⟩
    · rw [(listed_blocks _).2, outline, sidebarRows, Projection.sessions_built, List.map_map, List.flatMap_map, List.flatMap_map,
        List.filterMap_flatMap]
      apply List.flatMap_congr
      intro session member
      rw [sessionRows_shown, Function.comp, (built_tree rows member).1]
      nth_rewrite 2 [← under_entries [] (block model session).2.2]
      rw [List.map_map]
      rfl
  · intro serverInstance none_
    rw [snapshot, Option.map_eq_none_iff, current] at none_
    split at none_
    · cases none_
    · cases chosen : (model.layout.sessions.find? fun session => decide (some session.id = model.selection.session)).or model.layout.sessions.head? with
      | none => exact .inl (List.head?_eq_none_iff.mp (Option.or_eq_none_iff.mp chosen).2)
      | some session =>
        have member : session ∈ model.layout.sessions := by
          obtain found | ⟨_, first⟩ := Option.or_eq_some_iff.mp chosen
          · exact List.mem_of_find?_eq_some found
          · exact List.mem_of_mem_head? first
        rw [chosen, Option.bind_some, Option.map_eq_none_iff, Option.or_eq_none_iff] at none_
        exact .inr ⟨session, member, List.head?_eq_none_iff.mp none_.2⟩

-- A shell, and the agent that it started in a window of its own.
def startedWindow (id pane : Nat) : Window :=
  ⟨⟨id⟩, singleWindowName, .empty, unsizedWindow.cols, unsizedWindow.rows, none, none, ⟨pane⟩,
    .leaf ⟨⟨pane⟩, unsizedWindow.cols, unsizedWindow.rows⟩, []⟩

def started : Model :=
  ⟨⟨[⟨⟨1⟩, singleName, .empty, [startedWindow 1 1, startedWindow 2 2]⟩]⟩, .default, [⟨⟨1⟩, none, none, []⟩, ⟨⟨2⟩, some ⟨1⟩, none, []⟩]⟩

theorem started_shows :
    (∀ client serverInstance, Shows started.outline (Projection.mk started fun _ => none).sessions
        (sidebarRows (some ⟨client, serverInstance, (Projection.mk started fun _ => none).sessions⟩))) ∧
      (∀ serverInstance, snapshot started serverInstance (fun _ => none) = none → started.layout.sessions = [] ∨ ∃ session ∈ started.layout.sessions, session.windows = []) := by
  apply sidebar_shows
  have outline : started.outline = [.session ⟨1⟩ ⟨"s", by decide⟩, .pane ⟨1⟩ ⟨1⟩ 0, .pane ⟨2⟩ ⟨2⟩ 1] := by decide
  intro id window depth member
  rw [outline] at member
  simp only [List.mem_cons, List.not_mem_nil, reduceCtorEq, Outlining.Item.pane.injEq, false_or, or_false] at member
  obtain ⟨rfl, _⟩ | ⟨rfl, _⟩ := member
  · exact ⟨_, List.mem_cons_self, rfl⟩
  · exact ⟨_, List.mem_cons_of_mem _ List.mem_cons_self, rfl⟩

end Outline

end Kido.Sidebar
