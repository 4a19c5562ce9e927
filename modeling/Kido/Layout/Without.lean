import Kido.Layout.Removal
import Kido.Layout.Handed

set_option autoImplicit false

namespace Kido.Tiling

open Node (panes_split panes_leaf leaves_split leaves_leaf)

inductive Within : Node Leaf → Node Leaf → Prop where
  | self (node : Node Leaf) : Within node node
  | child {node child : Node Leaf} (split : Axis) (children : List (Node Leaf)) (member : child ∈ children)
      (inside : Within node child) : Within node (.split split children)

-- The two are next to each other in a split of the axis, and of the two neighbours of the first this is the one after it, if
-- there is one.
inductive Neighbours (axis : Axis) (tile : Leaf) (neighbour : Node Leaf) : List (Node Leaf) → Prop where
  | after (before rest : List (Node Leaf)) : Neighbours axis tile neighbour (before ++ .leaf tile :: neighbour :: rest)
  | before (before : List (Node Leaf)) : Neighbours axis tile neighbour (before ++ [neighbour, .leaf tile])

-- The tree without the pane: the other leaves are as they were, but for those of one neighbour, which grows by the cells of the
-- pane and the divider.
structure Gives (pane : PaneId) (tree left : Node Leaf) (axis : Axis) (tile : Leaf) (neighbour widened : Node Leaf) : Prop where
  own : tile.pane = pane
  beside : ∃ children, Within (.split axis children) tree ∧ Neighbours axis tile neighbour children
  others : ∃ front back, tree.leaves.filter (fun leaf => leaf.pane ≠ pane) = front ++ neighbour.leaves ++ back ∧
    left.leaves = front ++ widened.leaves ++ back
  grows : Spans axis neighbour (tiledSize axis neighbour) ∧
    Spans axis widened (tiledSize axis neighbour + (tile.extent axis + 1))
  kept : Kept axis neighbour widened

theorem collapse_leaves (split : Axis) (children : List (Node Leaf)) :
    (collapse split children).leaves = children.flatMap Node.leaves := by
  match children with
  | [] => simp [collapse]
  | [only] => simp [collapse]
  | first :: second :: rest => rw [collapse, leaves_split]; simp

theorem modify_between {α : Type} (f : α → α) (before after : List α) (value : α) :
    (before ++ value :: after).modify before.length f = before ++ f value :: after := by
  induction before with
  | nil => rfl
  | cons first rest ih => rw [List.cons_append, List.length_cons, List.modify_succ_cons, ih, List.cons_append]

theorem widenNeighbour_beside (split : Axis) (before after : List (Node Leaf)) (tile : Leaf) (freed : Nat)
    (nonempty : before ++ after ≠ []) :
    ∃ neighbour front back, before ++ after = front ++ neighbour :: back ∧
      widenNeighbour split before.length freed (before ++ after) =
        front ++ resizeAxis split neighbour (tiledSize split neighbour + freed) :: back ∧
      Neighbours split tile neighbour (before ++ .leaf tile :: after) := by
  cases after with
  | cons next rest =>
    have place : min before.length ((before ++ next :: rest).length - 1) = before.length := by
      simp only [List.length_append, List.length_cons]
      omega
    refine ⟨next, before, rest, rfl, ?_, .after before rest⟩
    rw [widenNeighbour, place, modify_between]
  | nil =>
    rw [List.append_nil] at nonempty
    obtain ⟨front, last, rfl⟩ : ∃ front last, before = front ++ [last] :=
      ⟨before.dropLast, before.getLast nonempty, (List.dropLast_append_getLast nonempty).symm⟩
    have place : min (front ++ [last]).length ((front ++ [last] ++ []).length - 1) = front.length := by
      simp only [List.append_nil, List.length_append, List.length_singleton]
      omega
    refine ⟨last, front, [], List.append_nil _, ?_, ?_⟩
    · rw [widenNeighbour, place, List.append_nil, modify_between]
    · rw [List.append_assoc]
      exact .before front

theorem filter_absent (pane : PaneId) (nodes : List (Node Leaf)) (absent : ∀ node ∈ nodes, pane ∉ node.panes) :
    (nodes.flatMap Node.leaves).filter (fun leaf => leaf.pane ≠ pane) = nodes.flatMap Node.leaves := by
  rw [List.filter_eq_self]
  intro leaf member
  obtain ⟨node, inside, here⟩ := List.mem_flatMap.1 member
  have other : leaf.pane ≠ pane := fun same => absent node inside (same ▸ List.mem_map_of_mem here)
  simpa using other

theorem tile_gives (split : Axis) (before after : List (Node Leaf)) (tile : Leaf) (size : Axis → Nat)
    (tiles : Tiles (.split split (before ++ .leaf tile :: after)) size)
    (absent : ∀ node ∈ before ++ after, tile.pane ∉ node.panes) :
    ∃ neighbour widened, Gives tile.pane (.split split (before ++ .leaf tile :: after))
      (collapse split (widenNeighbour split before.length (tile.extent split + 1) (before ++ after)))
      split tile neighbour widened := by
  obtain ⟨several, each, total⟩ := Spans.along_iff.mp (tiles.spans split)
  have nonempty : before ++ after ≠ [] := by
    intro none_
    have length := congrArg List.length none_
    simp only [List.length_append, List.length_cons, List.length_nil] at length several
    omega
  obtain ⟨neighbour, front, back, parts, widened, neighbours⟩ :=
    widenNeighbour_beside split before after tile (tile.extent split + 1) nonempty
  have member : neighbour ∈ before ++ .leaf tile :: after := by
    have inside : neighbour ∈ before ++ after := parts ▸ List.mem_append_right _ List.mem_cons_self
    rw [List.mem_append] at inside ⊢
    exact inside.imp id (List.mem_cons_of_mem _)
  have own := each neighbour member
  have sizes : ((before ++ after).map (tiledSize split)).sum + tile.extent split + (before ++ after).length = size split := by
    simp only [List.map_append, List.map_cons, List.sum_append, List.sum_cons, tiledSize_leaf, List.length_append,
      List.length_cons] at total ⊢
    omega
  have share : tiledSize split neighbour ≤ ((before ++ after).map (tiledSize split)).sum := by
    rw [parts]
    exact List.single_le_sum (fun _ _ => Nat.zero_le _) _ (List.mem_map_of_mem (List.mem_append_right _ List.mem_cons_self))
  have limit := tiles.bound split
  have positive : 0 < (before ++ after).length := List.length_pos_iff_ne_nil.mpr nonempty
  have wide := resizeAxis_spans split neighbour _ (tiledSize split neighbour + (tile.extent split + 1)) own (by omega) (by omega)
  have least := own.minimum_le
  rw [max_eq_left (by omega)] at wide
  refine ⟨neighbour, _, ⟨rfl, ⟨_, .self _, neighbours⟩, ⟨front.flatMap Node.leaves, back.flatMap Node.leaves, ?_, ?_⟩,
    ⟨own, wide⟩, resizeAxis_kept split neighbour _⟩⟩
  · have left : (Node.leaf tile).leaves.filter (fun leaf => leaf.pane ≠ tile.pane) = [] := by simp
    rw [leaves_split, List.flatMap_append, List.flatMap_cons, List.filter_append, List.filter_append, left, List.nil_append,
      ← List.filter_append, ← List.flatMap_append, filter_absent tile.pane _ absent, parts]
    simp only [List.flatMap_append, List.flatMap_cons, List.append_assoc]
  · rw [collapse_leaves, widened]
    simp only [List.flatMap_append, List.flatMap_cons, List.append_assoc]

theorem Gives.below {pane : PaneId} {child node : Node Leaf} {axis : Axis} {tile : Leaf} {neighbour widened : Node Leaf}
    (gives : Gives pane child node axis tile neighbour widened) (split : Axis) (before after : List (Node Leaf))
    (absent : ∀ other ∈ before ++ after, pane ∉ other.panes) :
    Gives pane (.split split (before ++ child :: after)) (collapse split (before ++ node :: after)) axis tile neighbour widened := by
  obtain ⟨children, within, neighbours⟩ := gives.beside
  obtain ⟨front, back, old, new⟩ := gives.others
  have outside (nodes : List (Node Leaf)) (some_ : ∀ other ∈ nodes, other ∈ before ++ after) :=
    filter_absent pane nodes fun other member => absent other (some_ other member)
  refine ⟨gives.own, ⟨children, .child split _ (List.mem_append_right _ List.mem_cons_self) within, neighbours⟩,
    ⟨before.flatMap Node.leaves ++ front, back ++ after.flatMap Node.leaves, ?_, ?_⟩, gives.grows, gives.kept⟩
  · rw [leaves_split, List.flatMap_append, List.flatMap_cons, List.filter_append, List.filter_append, old,
      outside before fun _ => List.mem_append_left _, outside after fun _ => List.mem_append_right _]
    simp only [List.append_assoc]
  · rw [collapse_leaves, List.flatMap_append, List.flatMap_cons, new]
    simp only [List.append_assoc]

theorem removeLeaf_gives (pane : PaneId) (node : Node Leaf) (size : Axis → Nat) (tiles : Tiles node size)
    (distinct : node.panes.Nodup) (member : pane ∈ node.panes) {left : Node Leaf} (removed : removeLeaf pane node = some left) :
    ∃ axis tile neighbour widened, Gives pane node left axis tile neighbour widened := by
  induction node generalizing size left with
  | leaf leaf =>
    have own : pane = leaf.pane := by simpa using member
    rw [removeLeaf_leaf, if_pos own.symm] at removed
    cases removed
  | split split children ih =>
    obtain ⟨before, child, after, rfl, here, earlier⟩ := first_holder pane split children member
    have absent : ∀ other ∈ before ++ after, pane ∉ other.panes := by
      intro other inside there
      rw [panes_split, List.flatMap_append, List.flatMap_cons, List.nodup_append, List.nodup_append] at distinct
      rcases List.mem_append.1 inside with first | last
      · exact earlier other first there
      · exact distinct.2.1.2.2 pane here pane (List.mem_flatMap.2 ⟨other, last, there⟩) rfl
    rw [removeLeaf_split pane split before after child here earlier] at removed
    match child with
    | .leaf tile =>
      have own : pane = tile.pane := by simpa using here
      subst own
      cases removed
      exact ⟨split, tile, tile_gives split before after tile size tiles absent⟩
    | .split inner below =>
      have inside : Node.split inner below ∈ before ++ .split inner below :: after :=
        List.mem_append_right _ List.mem_cons_self
      have childTiles := child_tiles split before after (.split inner below) size tiles
      have childDistinct : (Node.split inner below).panes.Nodup := by
        rw [panes_split, List.nodup_flatMap] at distinct
        exact distinct.1 _ inside
      cases result : removeLeaf pane (.split inner below) with
      | none =>
        have correct := removeLeaf_correct pane (.split inner below) _ childTiles
        rw [result] at correct
        obtain ⟨leaf, same, _⟩ := correct
        cases same
      | some node =>
        rw [result] at removed
        cases removed
        obtain ⟨axis, tile, neighbour, widened, gives⟩ := ih _ inside _ childTiles childDistinct here result
        exact ⟨axis, tile, neighbour, widened, gives.below split before after absent⟩

end Kido.Tiling

namespace Kido.Tiling

-- Where the cells of the pane were, and where they go.
inductive Vacates (pane : PaneId) (window left : Window) : Prop where
  | float (front back : List Float) (float : Float) (floats : window.floats = front ++ float :: back) (own : float.pane = pane)
    (tree : left.tree = window.tree) (others : left.floats = renumber (front ++ back))
  | tiled (axis : Axis) (tile : Leaf) (neighbour widened : Node Leaf)
    (gives : Gives pane window.tree left.tree axis tile neighbour widened) (floats : left.floats = window.floats)
  | last (leaf : Leaf) (lowest : Float) (rest : List Float) (tree : window.tree = .leaf leaf) (own : leaf.pane = pane)
    (floats : window.floats = lowest :: rest) (low : ∀ float ∈ rest, lowest.z < float.z)
    (promoted : left.tree = .leaf ⟨lowest.pane, window.cols, window.rows⟩) (others : left.floats = renumber rest)

structure Without (pane : PaneId) (window left : Window) : Prop where
  id : left.id = window.id
  name : left.name = window.name
  vars : left.vars = window.vars
  cellPx : left.cellPx = window.cellPx
  cols : left.cols = window.cols
  rows : left.rows = window.rows
  zoom : left.zoom = if window.zoom = some pane then none else window.zoom
  panes : left.panes = window.panes.erase pane
  cells : Vacates pane window left
  focus : window.focus ≠ pane → left.focus = window.focus
  nearest : window.focus = pane →
    ∃ front back, window.panes = front ++ pane :: back ∧ some left.focus = back.head?.or front.getLast?

-- The layout with another window, or none, in the place of one; a session that has no window left is gone.
def Layout.edit (layout : Layout) (id : WindowId) (after : Option Window) : Layout :=
  prune ⟨layout.sessions.map fun session =>
    { session with windows := session.windows.filterMap fun window => if window.id = id then after else some window }⟩

section Edit

variable {id : WindowId} {after : Option Window}

theorem filterMap_other {windows : List Window} (other : id ∉ windows.map Window.id) :
    windows.filterMap (fun window => if window.id = id then after else some window) = windows := by
  induction windows with
  | nil => rfl
  | cons window rest ih =>
    rw [List.map_cons, List.mem_cons, not_or] at other
    rw [List.filterMap_cons, if_neg (Ne.symm other.1), ih other.2]

theorem replaceFirst_filterMap {fits : Window → Bool} {windows : List Window} {window : Window}
    (distinct : (windows.map Window.id).Nodup) (found : windows.find? fits = some window) :
    replaceFirst fits (fun _ => after.toList) windows =
      windows.filterMap fun found => if found.id = window.id then after else some found := by
  obtain ⟨before, rest, rfl, same⟩ := replaceFirst_eq (fun _ => after.toList) found
  rw [List.map_append, List.map_cons, List.nodup_append, List.nodup_cons] at distinct
  obtain ⟨_, ⟨later, _⟩, apart⟩ := distinct
  have earlier : window.id ∉ before.map Window.id := fun member =>
    apart window.id member window.id List.mem_cons_self rfl
  rw [same, List.filterMap_append, List.filterMap_cons, if_pos rfl, filterMap_other earlier, filterMap_other later]
  cases after <;> rfl

theorem replaceFirst_edit {layout : Layout} {fits : Window → Bool} {window : Window} (distinct : layout.windowIds.Nodup)
    (found : layout.windowList.find? fits = some window) :
    prune (layout.replaceFirst fits fun _ => after.toList) = layout.edit window.id after := by
  have walk (sessions : List Session) (distinct : ((sessions.flatMap Session.windows).map Window.id).Nodup)
      (found : (sessions.flatMap Session.windows).find? fits = some window) :
      replaceFirst (fun session => session.windows.any fits)
        (fun session => [{ session with windows := replaceFirst fits (fun _ => after.toList) session.windows }]) sessions =
      sessions.map fun session => { session with
        windows := session.windows.filterMap fun found => if found.id = window.id then after else some found } := by
    induction sessions with
    | nil => rfl
    | cons session rest ih =>
      rw [List.flatMap_cons, List.find?_append] at found
      rw [List.flatMap_cons, List.map_append, List.nodup_append] at distinct
      obtain ⟨own, others, apart⟩ := distinct
      cases here : session.windows.find? fits with
      | some first =>
        rw [here, Option.some_or] at found
        cases found
        have inside := List.mem_of_find?_eq_some here
        have any : session.windows.any fits = true := List.any_eq_true.2 ⟨window, inside, List.find?_some here⟩
        have same : rest.map (fun session => { session with
            windows := session.windows.filterMap fun found => if found.id = window.id then after else some found }) = rest := by
          conv_rhs => rw [← List.map_id rest]
          apply List.map_congr_left
          intro later member
          rw [filterMap_other]
          · rfl
          · intro there
            apply apart window.id (List.mem_map_of_mem inside) window.id _ rfl
            obtain ⟨other, listed, equal⟩ := List.mem_map.1 there
            exact List.mem_map.2 ⟨other, List.mem_flatMap.2 ⟨later, member, listed⟩, equal⟩
        rw [replaceFirst_pos (fun session : Session => session.windows.any fits) _ any, List.map_cons, same,
          replaceFirst_filterMap own here]
        rfl
      | none =>
        rw [here, Option.none_or] at found
        have none_ : ¬session.windows.any fits = true := by
          rw [List.any_eq_true]
          rintro ⟨other, member, holds⟩
          exact List.find?_eq_none.mp here other member holds
        have elsewhere : window.id ∉ session.windows.map Window.id := fun member =>
          apart window.id member window.id (List.mem_map_of_mem (List.mem_of_find?_eq_some found)) rfl
        rw [replaceFirst_neg (fun session : Session => session.windows.any fits) _ none_, List.map_cons,
          filterMap_other elsewhere, ih others found]
  exact congrArg (fun sessions => prune ⟨sessions⟩) (walk layout.sessions distinct found)

theorem prune_same {layout : Layout} (nonempty : ∀ session ∈ layout.sessions, session.windows ≠ []) : prune layout = layout := by
  have all : layout.sessions.filter (fun session => !session.windows.isEmpty) = layout.sessions := by
    rw [List.filter_eq_self]
    intro session member
    simpa using nonempty session member
  rw [prune, all]

end Edit

theorem removePane_edit {layout : Layout} (wellFormed : layout.WellFormed) {pane : PaneId} {session : Session} {window : Window}
    (located : layout.locate pane = some (session, window)) :
    removePane pane layout = layout.edit window.id (window.without pane) := by
  have found : layout.windowList.find? (fun window => window.has pane) = some window := by
    rw [← locate_window, located]
    rfl
  have inside := List.mem_of_find?_eq_some found
  have same := @replaceFirst_edit (window.without pane) _ _ _ wellFormed.windowIds found
  rw [← same, removePane, located, Option.map_some]
  cases result : window.without pane with
  | none => rfl
  | some left =>
    symm
    exact prune_same (Layout.replaceFirst_nonempty layout _ _ (fun _ => List.cons_ne_nil left []) wellFormed.nonempty)

theorem mapWindows_prune (f : Window → Window) (layout : Layout) :
    (prune layout).mapWindows f = prune (layout.mapWindows f) := by
  simp only [prune, Layout.mapWindows, List.filter_map, Layout.mk.injEq]
  congr 1
  apply List.filter_congr
  intro session _
  simp only [Function.comp_apply, List.isEmpty_map]

theorem settle_edit {layout : Layout} (wellFormed : layout.WellFormed) (id : WindowId) (after : Option Window) :
    settle layout (layout.edit id after) = layout.edit id (after.map (settleWindow layout)) := by
  have windows : ∀ session ∈ layout.sessions,
      (session.windows.filterMap fun window => if window.id = id then after else some window).map (settleWindow layout) =
        session.windows.filterMap fun window => if window.id = id then after.map (settleWindow layout) else some window := by
    intro session member
    rw [List.map_filterMap]
    apply List.filterMap_congr
    intro window inside
    by_cases own : window.id = id
    · rw [if_pos own, if_pos own]
    · have known := (Layout.mem_windowList_iff layout window).mpr ⟨session, member, inside⟩
      rw [if_neg own, if_neg own, Option.map_some, settleWindow_self wellFormed known]
  rw [settle, Layout.edit, mapWindows_prune, Layout.mapWindows, List.map_map]
  exact congrArg (fun sessions => prune ⟨sessions⟩) (List.map_congr_left fun session member =>
    congrArg (fun windows => { session with windows := windows }) (windows session member))

theorem settleFocus_moved {old left : Window} {front back : List PaneId} (distinct : old.panes.Nodup)
    (order : old.panes = front ++ old.focus :: back) (panes : left.panes = old.panes.erase old.focus)
    (nonempty : left.panes ≠ []) : some (settleFocus old left) = back.head?.or front.getLast? := by
  rw [order] at distinct
  have absent : old.focus ∉ front := fun member =>
    (List.nodup_append.1 distinct).2.2 old.focus member old.focus List.mem_cons_self rfl
  have remaining : left.panes = front ++ back := by
    rw [panes, order, List.erase_append_right _ absent, List.erase_cons_head]
  have gone : old.focus ∉ left.panes := by
    rw [panes, order]
    exact distinct.not_mem_erase
  have without : ¬left.has old.focus = true := fun has => gone ((left.has_iff old.focus).1 has)
  have place : (old.panes.findIdx? fun pane => decide (pane = old.focus)) = some front.length := by
    rw [order, List.findIdx?_eq_some_iff_getElem]
    refine ⟨by simp, by simp, fun index below => ?_⟩
    rw [List.getElem_append_left below, decide_eq_true_eq]
    exact fun same => absent (same ▸ List.getElem_mem below)
  have near : nearest old.panes front.length (fun pane => left.panes.contains pane) = back.head?.or front.getLast? := by
    have kept : ∀ pane ∈ back ++ front.reverse, left.panes.contains pane = true := by
      intro pane member
      rw [remaining, List.contains_iff_mem]
      simpa [or_comm] using member
    rw [nearest, order, List.drop_left, List.take_left, List.cons_append, List.find?_cons_of_neg (by simpa using gone)]
    cases back with
    | cons next rest =>
      rw [List.cons_append, List.find?_cons_of_pos (kept next List.mem_cons_self)]
      rfl
    | nil =>
      rw [List.nil_append, List.head?_nil, Option.none_or, ← List.head?_reverse]
      cases reversed : front.reverse with
      | nil => rfl
      | cons last rest =>
        rw [List.find?_cons_of_pos (kept last (by rw [reversed]; exact List.mem_cons_self))]
        rfl
  rw [settleFocus, if_neg without, place, Option.bind_some, near]
  cases result : back.head?.or front.getLast? with
  | some pane => rfl
  | none =>
    rw [Option.or_eq_none_iff, List.head?_eq_none_iff, List.getLast?_eq_none_iff] at result
    rw [remaining, result.1, result.2] at nonempty
    exact absurd rfl nonempty

theorem renumber_same {floats : List Float} (z : floats.map Float.z = List.range floats.length) : renumber floats = floats := by
  apply List.ext_getElem
  · rw [renumber, List.length_map, List.length_zipIdx]
  · intro index before after
    have own : floats[index].z = index := by
      have here := congrArg (fun list => list[index]?) z
      simpa [after] using here
    simp only [renumber, List.getElem_map, List.getElem_zipIdx, Nat.zero_add]
    generalize floats[index] = float at own ⊢
    rw [← own]

theorem floats_ascend {float : Float} {rest : List Float}
    (z : (float :: rest).map Float.z = List.range (float :: rest).length) : ∀ other ∈ rest, float.z < other.z := by
  intro other member
  have ascending : ((float :: rest).map Float.z).Pairwise (· < ·) := z ▸ List.pairwise_lt_range
  rw [List.map_cons, List.pairwise_cons] at ascending
  exact ascending.1 other.z (List.mem_map_of_mem member)

theorem without_vacates {pane : PaneId} {window : Window} (wellFormed : window.WellFormed) (distinct : window.panes.Nodup)
    (member : pane ∈ window.panes) {left : Window} (without : window.without pane = some left) : Vacates pane window left := by
  obtain ⟨bare, removed, rfl⟩ := Option.map_eq_some_iff.1 without
  rw [Window.removed] at removed
  cases found : window.floats.findIdx? fun float => decide (float.pane = pane) with
  | some index =>
    rw [found] at removed
    cases removed
    obtain ⟨inside, own, _⟩ := List.findIdx?_eq_some_iff_getElem.mp found
    refine .float (window.floats.take index) (window.floats.drop (index + 1)) window.floats[index] ?_ (by simpa using own) rfl ?_
    · rw [← List.drop_eq_getElem_cons inside, List.take_append_drop]
    · rw [← List.eraseIdx_eq_take_drop_succ]
      rfl
  | none =>
    rw [found] at removed
    have tiled : pane ∈ window.tree.panes := by
      obtain inTree | inFloats := List.mem_append.mp member
      · exact inTree
      · obtain ⟨float, inside, same⟩ := List.mem_map.mp inFloats
        have other := List.findIdx?_eq_none_iff.mp found float inside
        rw [decide_eq_false_iff_not] at other
        exact absurd same other
    have tiles : Tiles window.tree window.size := ⟨wellFormed.tiles, window.tree_bound⟩
    cases result : removeLeaf pane window.tree with
    | some tree =>
      rw [result] at removed
      cases removed
      obtain ⟨axis, tile, neighbour, widened, gives⟩ := removeLeaf_gives pane window.tree window.size tiles
        (List.nodup_append.1 distinct).1 tiled result
      exact .tiled axis tile neighbour widened gives (renumber_same wellFormed.z)
    | none =>
      have correct := removeLeaf_correct pane window.tree window.size tiles
      rw [result] at correct removed
      obtain ⟨leaf, tree, own⟩ := correct
      cases floats : window.floats with
      | nil =>
        rw [floats] at removed
        cases removed
      | cons lowest rest =>
        rw [floats] at removed
        cases removed
        exact .last leaf lowest rest tree own floats (floats_ascend (floats ▸ wellFormed.z)) rfl rfl

theorem removed_fields {pane : PaneId} {window left : Window} (removed : window.removed pane = some left) :
    left.name = window.name ∧ left.vars = window.vars ∧ left.cellPx = window.cellPx ∧ left.cols = window.cols ∧
      left.rows = window.rows ∧ left.zoom = window.zoom ∧ left.focus = window.focus := by
  rw [Window.removed] at removed
  split at removed
  · cases removed
    exact ⟨rfl, rfl, rfl, rfl, rfl, rfl, rfl⟩
  · split at removed <;> cases removed <;> exact ⟨rfl, rfl, rfl, rfl, rfl, rfl, rfl⟩

theorem without_settled {layout : Layout} (wellFormed : layout.WellFormed) {window : Window} (known : window ∈ layout.windowList)
    {pane : PaneId} (member : pane ∈ window.panes) {left : Window} (without : window.without pane = some left) :
    Without pane window (settleWindow layout left) := by
  have formed := wellFormed.windows window known
  have distinct : window.panes.Nodup := (List.nodup_flatMap.mp wellFormed.panes).1 window known
  have correct := without_correct formed distinct member
  rw [without] at correct
  obtain ⟨sound, id, panes⟩ := correct
  have vacates := without_vacates formed distinct member without
  have settled : settleWindow layout left = { left with focus := settleFocus window left } := by
    rw [settleWindow, id, oldWindow_eq wellFormed.windowIds known]
  obtain ⟨bare, removed, tidied⟩ := Option.map_eq_some_iff.1 without
  obtain ⟨name, vars, cellPx, cols, rows, zoom, _⟩ := removed_fields removed
  have zoomed : left.zoom = if window.zoom = some pane then none else window.zoom := by
    rw [← tidied, ← zoom]
    rfl
  rw [← tidied] at settled ⊢
  rw [settled]
  constructor
  case id => exact tidied ▸ id
  case name => exact name
  case vars => exact vars
  case cellPx => exact cellPx
  case cols => exact cols
  case rows => exact rows
  case zoom => exact tidied ▸ zoomed
  case panes => exact tidied ▸ panes
  case cells =>
    rw [tidied]
    cases vacates with
    | float front back float floats own tree others => exact .float front back float floats own tree others
    | tiled axis tile neighbour widened gives floats => exact .tiled axis tile neighbour widened gives floats
    | last leaf lowest rest tree own floats low promoted others => exact .last leaf lowest rest tree own floats low promoted others
  case focus =>
    intro other
    have has : left.has window.focus = true := by
      rw [left.has_iff, panes]
      exact (List.mem_erase_of_ne other).2 formed.focus
    rw [tidied]
    show settleFocus window left = window.focus
    rw [settleFocus, if_pos has]
  case nearest =>
    intro own
    obtain ⟨front, back, order⟩ := List.append_of_mem member
    subst own
    rw [tidied]
    exact ⟨front, back, order, settleFocus_moved distinct order panes sound.panes_ne_nil⟩

-- Removing a live pane of a reachable document changes its window only, which goes with its last pane.
theorem remove_pane_frame (ops : List Op) (pane : PaneId) (live : pane ∈ (World.run ops).document.layout.panes) :
    let before := (World.run ops).document.layout
    let after := ((World.run ops).document.removePane pane).2.layout
    after.panes = before.panes.erase pane ∧
    ∃ window ∈ before.windowList, pane ∈ window.panes ∧
      ((window.panes = [pane] ∧ after = before.edit window.id none) ∨
        ∃ left, Without pane window left ∧ after = before.edit window.id (some left)) := by
  intro before after
  have wellFormed : before.WellFormed := (run_wellFormed ops).1
  obtain ⟨⟨session, window⟩, located⟩ := Option.isSome_iff_exists.mp ((before.locate_some_iff pane).mpr live)
  have found : before.windowList.find? (fun window => window.has pane) = some window := by
    rw [← locate_window, located]
    rfl
  have known := List.mem_of_find?_eq_some found
  have member := (window.has_iff pane).mp (List.find?_some (p := fun window : Window => window.has pane) found)
  have removed : after = settle before (removePane pane before) := by
    show ((World.run ops).document.removePane pane).2.layout = _
    simp only [Document.removePane, before] at located ⊢
    rw [located]
    rfl
  refine ⟨?_, window, known, member, ?_⟩
  · rw [removed, settle_panes]
    exact (removePane_correct wellFormed live).2
  · rw [removed, removePane_edit wellFormed located, settle_edit wellFormed]
    have correct := without_correct (wellFormed.windows window known)
      ((List.nodup_flatMap.mp wellFormed.panes).1 window known) member
    cases result : window.without pane with
    | none =>
      rw [result] at correct
      exact .inl ⟨correct, rfl⟩
    | some left => exact .inr ⟨_, without_settled wellFormed known member result, rfl⟩

theorem remove_pane_frame_nested :
    let before := (World.run [nestedPut]).document.layout
    let after := ((World.run [nestedPut]).document.removePane ⟨2⟩).2.layout
    before.windowList.map Window.panes = [[⟨1⟩, ⟨2⟩, ⟨3⟩, ⟨4⟩], [⟨5⟩]] ∧
    after.windowList.map Window.panes = [[⟨1⟩, ⟨3⟩, ⟨4⟩], [⟨5⟩]] ∧
    after.panes = before.panes.erase ⟨2⟩ ∧
    ∃ window ∈ before.windowList, (⟨2⟩ : PaneId) ∈ window.panes ∧
      ((window.panes = [⟨2⟩] ∧ after = before.edit window.id none) ∨
        ∃ left, Without ⟨2⟩ window left ∧ after = before.edit window.id (some left)) := by
  intro before after
  have live : (⟨2⟩ : PaneId) ∈ before.panes := by decide +kernel
  exact ⟨by decide +kernel, by decide +kernel, remove_pane_frame [nestedPut] ⟨2⟩ live⟩

end Kido.Tiling
