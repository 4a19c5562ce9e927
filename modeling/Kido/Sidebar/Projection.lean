import Kido.Client.Outline
import Kido.Sidebar.Snapshot

set_option autoImplicit false

namespace Kido.Sidebar

open Kido.Tiling
open Kido.Outlining (Pane Model Rises)

structure ItemPane where
  id : PaneId
  window : WindowId
  depth : Nat
deriving DecidableEq

abbrev Node := NodeOf Pane

abbrev Item := ItemOf Pane Node

def Node.root : Node → WindowId
  | .window id _ => id
  | .item leaf => leaf.window

abbrev SessionNodes := SessionNodesOf Pane

abbrev Snapshot := SnapshotOf Pane

structure Projection where
  model : Model
  marks : PaneId → Option String

-- The window of a new item joins its neighbour's.
def put (nodes : List Node) (item : Item) : List Node :=
  match nodes.getLast? with
  | some (.item previous) =>
    if previous.window = item.window then nodes.dropLast ++ [.window item.window [previous, item]] else nodes ++ [.item item]
  | some (.window id children) =>
    if id = item.window then nodes.dropLast ++ [.window id (children ++ [item])] else nodes ++ [.item item]
  | none => [.item item]

namespace Projection

variable (projection : Projection)

def panes (id : PaneId) : Option Pane := projection.model.panes.find? fun pane => decide (pane.id = id)

-- `nodes` from the cursor on, with what the loop has. Each call takes an entry, so as many calls as entries are enough.
def nodes : Nat → List ItemPane → Nat → List Node → List Node × List ItemPane
  | 0, rest, _, done => (done, rest)
  | _, [], _, done => (done, [])
  | fuel + 1, entry :: rest, depth, done =>
    if entry.depth < depth then (done, entry :: rest)
    else
      let (children, rest) := nodes fuel rest (entry.depth + 1) []
      match projection.panes entry.id with
      | none => nodes fuel rest depth done
      | some pane => nodes fuel rest depth (put done ⟨pane, entry.window, children, projection.marks entry.id⟩)

structure Reading where
  result : List SessionNodes
  outline : List ItemPane

def close (reading : Reading) : Reading :=
  match reading.result.getLast? with
  | none => reading
  | some last =>
    ⟨reading.result.dropLast ++ [{ last with nodes := (projection.nodes reading.outline.length reading.outline 0 []).1 }], []⟩

def read (reading : Reading) : Outlining.Item → Reading
  | .session id name => { projection.close reading with result := (projection.close reading).result ++ [⟨id, name.text, []⟩] }
  | .pane id window depth => { reading with outline := reading.outline ++ [⟨id, window, depth⟩] }

def sessions : List SessionNodes :=
  (projection.close (projection.model.outline.foldl projection.read ⟨[], []⟩)).result

end Projection

-- The client's pane, else the window that it selected in the session that it selected, or the first of them.
def current (model : Model) : Option Position :=
  match model.selection.pane.bind fun pane => (model.layout.locate pane).map fun (session, window) => (⟨session.id, window.id, pane⟩ : Position) with
  | some position => some position
  | none =>
    ((model.layout.sessions.find? fun session => decide (some session.id = model.selection.session)).or model.layout.sessions.head?).bind fun session =>
      ((session.windows.find? fun window => decide (some window.id = model.selection.window)).or session.windows.head?).map fun window =>
        ⟨session.id, window.id, window.focus⟩

def snapshot (model : Model) (serverInstance : String) (marks : PaneId → Option String) : Option Snapshot :=
  (current model).map fun client => ⟨client, serverInstance, (Projection.mk model marks).sessions⟩

section Preorder

mutual

-- The panes of a tree from the top, each with its level and the pane that it stands under.
def preorder (level : Nat) (above : Option ItemPane) : List Node → List (ItemPane × Option ItemPane)
  | [] => []
  | node :: rest => preorderNode level above node ++ preorder level above rest
termination_by structural nodes => nodes

def preorderNode (level : Nat) (above : Option ItemPane) : Node → List (ItemPane × Option ItemPane)
  | .window _ items => preorderItems level above items
  | .item item => preorderItem level above item
termination_by structural node => node

def preorderItems (level : Nat) (above : Option ItemPane) : List (ItemOf Pane Node) → List (ItemPane × Option ItemPane)
  | [] => []
  | item :: rest => preorderItem level above item ++ preorderItems level above rest
termination_by structural items => items

def preorderItem (level : Nat) (above : Option ItemPane) : ItemOf Pane Node → List (ItemPane × Option ItemPane)
  | ⟨pane, window, children, _⟩ => (⟨pane.id, window, level⟩, above) :: preorder (level + 1) (some ⟨pane.id, window, level⟩) children
termination_by structural item => item

end

mutual

-- Neighbours are of one window just where they are in its group.
def Grouped : List Node → Prop
  | [] => True
  | node :: rest => GroupedNode node ∧ (∀ next ∈ rest.head?, next.root ≠ node.root) ∧ Grouped rest
termination_by structural nodes => nodes

def GroupedNode : Node → Prop
  | .window id items => 2 ≤ items.length ∧ (∀ item ∈ items, item.window = id) ∧ GroupedItems items
  | .item item => GroupedItem item
termination_by structural node => node

def GroupedItems : List (ItemOf Pane Node) → Prop
  | [] => True
  | item :: rest => GroupedItem item ∧ GroupedItems rest
termination_by structural items => items

def GroupedItem : ItemOf Pane Node → Prop
  | ⟨_, _, children, _⟩ => Grouped children
termination_by structural item => item

end

variable {level : Nat} {above : Option ItemPane}

theorem preorder_append (front back : List Node) : preorder level above (front ++ back) = preorder level above front ++ preorder level above back := by
  induction front with
  | nil => rfl
  | cons node rest ih => simp only [List.cons_append, preorder, ih, List.append_assoc]

theorem preorderItems_append (front back : List Item) :
    preorderItems level above (front ++ back) = preorderItems level above front ++ preorderItems level above back := by
  induction front with
  | nil => rfl
  | cons item rest ih => simp only [List.cons_append, preorderItems, ih, List.append_assoc]

theorem preorder_put (nodes : List Node) (item : Item) :
    preorder level above (put nodes item) = preorder level above nodes ++ preorderItem level above item := by
  obtain rfl | ⟨front, last, rfl⟩ := List.eq_nil_or_concat nodes
  · simp [put, preorder, preorderNode]
  · cases last with
    | item previous =>
      simp only [put, List.concat_eq_append, List.getLast?_append, List.getLast?_singleton, Option.some_or, List.dropLast_concat]
      split_ifs <;> simp [preorder_append, preorder, preorderNode, preorderItems]
    | window id children =>
      simp only [put, List.concat_eq_append, List.getLast?_append, List.getLast?_singleton, Option.some_or, List.dropLast_concat]
      split_ifs <;> simp [preorder_append, preorder, preorderNode, preorderItems, preorderItems_append]

theorem groupedItems_iff (items : List Item) : GroupedItems items ↔ ∀ item ∈ items, GroupedItem item := by
  induction items with
  | nil => simp [GroupedItems]
  | cons item rest ih => simp [GroupedItems, ih]

theorem grouped_snoc (front : List Node) (last : Node) :
    Grouped (front ++ [last]) ↔ Grouped front ∧ GroupedNode last ∧ ∀ before ∈ front.getLast?, last.root ≠ before.root := by
  induction front with
  | nil => simp [Grouped]
  | cons node rest ih =>
    rw [List.cons_append, Grouped, ih, Grouped]
    cases rest with
    | nil => simp [Grouped, and_comm]
    | cons next rest => simp [List.getLast?_cons_cons, and_assoc, and_left_comm]

theorem grouped_put {nodes : List Node} {item : Item} (grouped : Grouped nodes) (inner : GroupedItem item) : Grouped (put nodes item) := by
  obtain rfl | ⟨front, last, rfl⟩ := List.eq_nil_or_concat nodes
  · simp [put, Grouped, GroupedNode, inner]
  · rw [List.concat_eq_append] at grouped ⊢
    obtain ⟨before, own, apart⟩ := (grouped_snoc front last).mp grouped
    cases last with
    | item previous =>
      simp only [put, List.getLast?_append, List.getLast?_singleton, Option.some_or, List.dropLast_concat]
      split_ifs with same
      · refine (grouped_snoc _ _).mpr ⟨before, ⟨Nat.le_refl _, by simp [same], own, inner, trivial⟩, ?_⟩
        rw [← same]
        exact apart
      · refine (grouped_snoc _ _).mpr ⟨grouped, inner, ?_⟩
        simpa [Node.root] using Ne.symm same
    | window id children =>
      obtain ⟨many, one, each⟩ := own
      simp only [put, List.getLast?_append, List.getLast?_singleton, Option.some_or, List.dropLast_concat]
      split_ifs with same
      · refine (grouped_snoc _ _).mpr ⟨before, ⟨?_, ?_, ?_⟩, apart⟩
        · rw [List.length_append]
          exact many.trans (Nat.le_add_right _ _)
        · intro other member
          obtain member | rfl := List.mem_append.mp member |>.imp_right List.mem_singleton.mp
          · exact one other member
          · exact same.symm
        · rw [groupedItems_iff] at each ⊢
          intro other member
          obtain member | rfl := List.mem_append.mp member |>.imp_right List.mem_singleton.mp
          · exact each other member
          · exact inner
      · refine (grouped_snoc _ _).mpr ⟨grouped, inner, ?_⟩
        simpa [Node.root] using Ne.symm same

end Preorder

section Tree

-- The nearest earlier entry of smaller depth; the latest of them is the first.
def nearest (front : List ItemPane) (depth : Nat) : Option ItemPane := front.find? fun entry => decide (entry.depth < depth)

def under : List ItemPane → List ItemPane → List (ItemPane × Option ItemPane)
  | _, [] => []
  | front, entry :: rest => (entry, nearest front entry.depth) :: under (entry :: front) rest

theorem under_append (front first second : List ItemPane) :
    under front (first ++ second) = under front first ++ under (first.reverse ++ front) second := by
  induction first generalizing front with
  | nil => rfl
  | cons entry rest ih => simp [under, ih]

theorem under_entries (front entries : List ItemPane) : (under front entries).map Prod.fst = entries := by
  induction entries generalizing front with
  | nil => rfl
  | cons entry rest ih => rw [under, List.map_cons, ih]

theorem nearest_deeper {front taken : List ItemPane} {depth : Nat} (deeper : ∀ entry ∈ taken, depth ≤ entry.depth) :
    nearest (taken.reverse ++ front) depth = nearest front depth := by
  rw [nearest, List.find?_append, List.find?_eq_none.mpr, Option.none_or]
  · rfl
  · intro entry member
    simpa using deeper entry (List.mem_reverse.mp member)

theorem rises_from {bound depth : Nat} {depths : List Nat} (rises : Rises bound depths) (first : ∀ next ∈ depths.head?, next ≤ depth) :
    Rises depth depths := by
  cases depths with
  | nil => trivial
  | cons next rest => exact ⟨first next rfl, rises.2⟩

theorem rises_tail {front back : List Nat} {bound : Nat} (rises : Rises bound (front ++ back)) : ∃ bound, Rises bound back := by
  induction front generalizing bound with
  | nil => exact ⟨bound, rises⟩
  | cons next rest ih => exact ih rises.2

variable (projection : Projection)

-- What a call takes from the cursor on: the entries that are deep enough, each under the nearest earlier one of smaller depth.
structure Takes (front rest : List ItemPane) (depth : Nat) (done taken : List Node × List ItemPane) (entries : List ItemPane) : Prop where
  split : rest = entries ++ taken.2
  deep : ∀ entry ∈ entries, depth ≤ entry.depth
  ends : ∀ entry ∈ taken.2.head?, entry.depth < depth
  order : preorder depth (nearest front depth) taken.1 = preorder depth (nearest front depth) done.1 ++ under front entries
  grouped : Grouped done.1 → Grouped taken.1

theorem nodes_take (fuel : Nat) : ∀ (front rest : List ItemPane) (depth : Nat) (done : List Node), rest.length ≤ fuel →
    Rises depth (rest.map ItemPane.depth) → (∀ entry ∈ rest, ∃ pane, projection.panes entry.id = some pane) →
    ∃ entries, Takes front rest depth (done, rest) (projection.nodes fuel rest depth done) entries := by
  induction fuel with
  | zero =>
    intro front rest depth done short _ _
    obtain rfl := List.length_eq_zero_iff.mp (Nat.le_zero.mp short)
    exact ⟨[], rfl, nofun, nofun, (List.append_nil _).symm, id⟩
  | succ fuel ih =>
    intro front rest depth done short rises rows
    cases rest with
    | nil => exact ⟨[], rfl, nofun, nofun, (List.append_nil _).symm, id⟩
    | cons entry rest =>
      rw [Projection.nodes]
      split_ifs with shallow
      · refine ⟨[], rfl, nofun, ?_, (List.append_nil _).symm, id⟩
        rintro _ ⟨⟩
        exact shallow
      · obtain ⟨first, rises⟩ := rises
        obtain ⟨⟨pane, row⟩, rows⟩ := List.forall_mem_cons.mp rows
        obtain rfl : entry.depth = depth := Nat.le_antisymm first (Nat.le_of_not_lt shallow)
        have short : rest.length ≤ fuel := Nat.le_of_succ_le_succ short
        obtain ⟨below, inner⟩ := ih (entry :: front) rest (entry.depth + 1) [] short rises rows
        generalize projection.nodes fuel rest (entry.depth + 1) [] = children at inner
        obtain ⟨children, later⟩ := children
        obtain ⟨rfl, deeper, ends, order, grouped⟩ := inner
        have above : nearest (entry :: front) (entry.depth + 1) = some entry := by simp [nearest]
        have same : nearest (below.reverse ++ entry :: front) entry.depth = nearest front entry.depth := by
          rw [nearest_deeper fun other member => (Nat.le_succ _).trans (deeper other member)]
          simp [nearest]
        have item : preorderItem entry.depth (nearest front entry.depth) ⟨pane, entry.window, children, projection.marks entry.id⟩ =
            under front (entry :: below) := by
          have own : pane.id = entry.id := by simpa using List.find?_some row
          rw [above] at order
          rw [preorderItem, own, under]
          change (entry, _) :: preorder _ (some entry) children = _
          rw [order, preorder, List.nil_append]
        have fewer : later.length ≤ fuel := (List.length_append ▸ Nat.le_add_left _ _).trans short
        obtain ⟨bound, tail⟩ := rises_tail (List.map_append ▸ rises)
        have tail : Rises entry.depth (later.map ItemPane.depth) := by
          apply rises_from tail
          intro next found
          rw [List.head?_map] at found
          obtain ⟨other, is, rfl⟩ := Option.map_eq_some_iff.mp found
          exact Nat.le_of_lt_succ (ends other is)
        obtain ⟨entries, outer⟩ := ih (below.reverse ++ entry :: front) later entry.depth
          (put done ⟨pane, entry.window, children, projection.marks entry.id⟩) fewer tail
          fun other member => rows other (List.mem_append_right _ member)
        simp only [row]
        refine ⟨entry :: below ++ entries, ?_, ?_, outer.ends, ?_, ?_⟩
        · rw [List.append_assoc, ← outer.split]
          rfl
        · intro other member
          obtain (member | member) := List.mem_append.mp member
          · obtain rfl | member := List.mem_cons.mp member
            · exact Nat.le_refl _
            · exact (Nat.le_succ _).trans (deeper other member)
          · exact outer.deep other member
        · have after := outer.order
          rw [same, preorder_put, item] at after
          rw [after, under_append, List.append_assoc]
          simp
        · exact fun before => outer.grouped (grouped_put before (grouped trivial))

end Tree

section Sessions

-- The panes in front of the first session, and each session with those behind it.
def blocks : List Outlining.Item → List ItemPane × List (SessionId × Name × List ItemPane)
  | [] => ([], [])
  | .pane id window depth :: rest => (⟨id, window, depth⟩ :: (blocks rest).1, (blocks rest).2)
  | .session id name :: rest => ([], (id, name, (blocks rest).1) :: (blocks rest).2)

def block (model : Model) (session : Session) : SessionId × Name × List ItemPane :=
  (session.id, session.name, (model.sessionOrder session).map fun entry => ⟨entry.1.1, entry.1.2, entry.2⟩)

theorem blocks_panes (entries : List ((PaneId × WindowId) × Nat)) (rest : List Outlining.Item) :
    blocks (entries.map (fun entry => .pane entry.1.1 entry.1.2 entry.2) ++ rest) =
      (entries.map (fun entry => ⟨entry.1.1, entry.1.2, entry.2⟩) ++ (blocks rest).1, (blocks rest).2) := by
  induction entries with
  | nil => rfl
  | cons entry entries ih => rw [List.map_cons, List.cons_append, blocks, ih, List.map_cons, List.cons_append]

theorem outline_blocks (model : Model) : blocks model.outline = ([], model.layout.sessions.map (block model)) := by
  rw [Model.outline]
  induction model.layout.sessions with
  | nil => rfl
  | cons session rest ih =>
    rw [List.flatMap_cons, List.cons_append, blocks]
    have panes := blocks_panes (model.sessionOrder session) (rest.flatMap fun session =>
      .session session.id session.name :: (model.sessionOrder session).map fun entry => .pane entry.1.1 entry.1.2 entry.2)
    rw [panes, ih, List.map_cons, List.append_nil]
    rfl

namespace Projection

variable (projection : Projection)

def built (block : SessionId × Name × List ItemPane) : SessionNodes :=
  ⟨block.1, block.2.1.text, (projection.nodes block.2.2.length block.2.2 0 []).1⟩

theorem close_last (front : List SessionNodes) (id : SessionId) (name : Name) (outline : List ItemPane) :
    projection.close ⟨front ++ [⟨id, name.text, []⟩], outline⟩ = ⟨front ++ [projection.built (id, name, outline)], []⟩ := by
  simp [close, built]

-- Once a session is open, every later entry goes to the last one.
theorem read_blocks (items : List Outlining.Item) : ∀ (front : List SessionNodes) (id : SessionId) (name : Name) (outline : List ItemPane),
    projection.close (items.foldl projection.read ⟨front ++ [⟨id, name.text, []⟩], outline⟩) =
      ⟨front ++ projection.built (id, name, outline ++ (blocks items).1) :: (blocks items).2.map projection.built, []⟩ := by
  induction items with
  | nil =>
    intro front id name outline
    rw [List.foldl_nil, close_last, blocks, List.append_nil, List.map_nil]
  | cons item rest ih =>
    intro front id name outline
    cases item with
    | session next title =>
      rw [List.foldl_cons, read, close_last, ih, blocks, List.append_nil, List.map_cons, List.nil_append]
      simp
    | pane pane window depth =>
      rw [List.foldl_cons, read, ih, blocks]
      simp

theorem sessions_built : projection.sessions = (projection.model.layout.sessions.map (block projection.model)).map projection.built := by
  have all := outline_blocks projection.model
  rw [sessions]
  cases outline : projection.model.outline with
  | nil =>
    rw [outline, blocks] at all
    rw [← (Prod.mk.inj all).2]
    rfl
  | cons item rest =>
    rw [outline] at all
    cases item with
    | session id name =>
      rw [blocks] at all
      have first : projection.read ⟨[], []⟩ (.session id name) = ⟨[] ++ [⟨id, name.text, []⟩], []⟩ := rfl
      rw [← (Prod.mk.inj all).2, List.foldl_cons, first, read_blocks, List.nil_append, List.nil_append, List.map_cons]
    | pane id window depth =>
      rw [blocks] at all
      exact absurd (Prod.mk.inj all).1 (List.cons_ne_nil _ _)

end Projection

end Sessions

end Kido.Sidebar
