import Kido.Layout.Claims

set_option autoImplicit false

namespace Kido.Tiling

open Kido.Shared
open Node

-- Every split of the tree, with its axis and its children, has the property.
inductive Everywhere {L : Type} (P : Axis → List (Node L) → Prop) : Node L → Prop where
  | leaf (tile : L) : Everywhere P (.leaf tile)
  | split (axis : Axis) (children : List (Node L)) (here : P axis children) (each : ∀ child ∈ children, Everywhere P child) :
      Everywhere P (.split axis children)

def even (count room : Nat) : List Nat :=
  (List.range count).map fun index => room / count + if index < room % count then 1 else 0

theorem even_length (count room : Nat) : (even count room).length = count := by
  rw [even, List.length_map, List.length_range]

theorem even_sum {count : Nat} (some_ : 0 < count) (room : Nat) : (even count room).sum = room := by
  have total (size extra count : Nat) :
      ((List.range count).map fun index => size + if index < extra then 1 else 0).sum = size * count + min extra count := by
    induction count with
    | zero => simp
    | succ count ih =>
      rw [List.range_succ, List.map_append, List.sum_append, ih, List.map_singleton, List.sum_singleton, Nat.mul_succ]
      by_cases more : count < extra
      · rw [if_pos more]
        omega
      · rw [if_neg more]
        omega
  have small := Nat.mod_lt room some_
  rw [even, total, min_eq_left small.le, Nat.div_add_mod']

theorem even_bounds {count room size : Nat} (inside : size ∈ even count room) : room / count ≤ size ∧ size ≤ room / count + 1 := by
  obtain ⟨index, -, rfl⟩ := List.mem_map.1 inside
  split_ifs <;> omega

section Sharing

variable {children : List (Node Raw)} {axis : Axis} {total : Nat}

theorem shares_even (open_ : ∀ child ∈ children, child.known axis = none) (some_ : children ≠ [])
    (positive : ∀ child ∈ children, 1 ≤ child.minimum axis)
    (enough : ∀ child ∈ children, child.minimum axis ≤ (total - (children.length - 1)) / children.length) :
    shares children axis total = even children.length (total - (children.length - 1)) := by
  have count := List.length_pos_iff_ne_nil.2 some_
  obtain ⟨first, rest, is⟩ := List.exists_cons_of_ne_nil some_
  have inside : first ∈ children := by
    rw [is]
    exact List.mem_cons_self
  have room : children.length ≤ total - (children.length - 1) :=
    (Nat.one_le_div_iff count).1 ((positive first inside).trans (enough first inside))
  have none_ : children.map (Node.known axis) = List.replicate children.length none :=
    List.map_eq_replicate_iff.2 open_
  refine shares_filled children axis total _ ?_ ?_ (fun pair member => ?_) ?_
  · rw [preferences, none_, if_pos (by simp), even, List.map_map]
    rfl
  · rw [even_sum count]
    omega
  · obtain ⟨child, here, least⟩ := List.mem_map.1 (List.of_mem_zip member).2
    rw [← least]
    exact (enough child here).trans (even_bounds (List.of_mem_zip member).1).1
  · rw [even_sum count]
    omega

end Sharing

-- The children have the same extent but for one cell, where the equal share is enough for each of them.
def EvenSplit (axis split : Axis) (children : List (Node Leaf)) : Prop :=
  (split = axis → ∀ child ∈ children, child.minimum axis ≤ (children.map (tiledSize axis)).sum / children.length) →
    ∀ first ∈ children, ∀ second ∈ children, tiledSize axis first ≤ tiledSize axis second + 1

def LeastSplit (axis : Axis) (children : List (Node Leaf)) : Prop :=
  ∀ child ∈ children, Spans axis child (tiledSize axis child) ∧ child.minimum axis ≤ tiledSize axis child

theorem known_none {axis : Axis} {node : Node Raw} (open_ : ∀ raw ∈ node.leaves, Tile.extent raw axis = none) :
    node.known axis = none := by
  induction node with
  | leaf raw => exact open_ raw (by simp)
  | split split children ih =>
    have none_ : children.filterMap (Node.known axis) = [] := by
      rw [List.filterMap_eq_nil_iff]
      exact fun child inside => ih child inside fun raw there => open_ raw (by rw [leaves_split]; exact List.mem_flatMap_of_mem inside there)
    rw [known_split]
    simp [none_]

theorem fit_minimum (axis : Axis) (node : Node Raw) (cols rows : Nat) :
    (fit node cols rows).minimum axis = node.minimum axis := by
  rw [← minimum_map axis Leaf.pane, fit_shape, minimum_map]

theorem Spans.least {axis : Axis} {node : Node Leaf} {n : Nat} (spans : Spans axis node n) :
    Everywhere (fun _ => LeastSplit axis) node := by
  induction spans with
  | leaf leaf => exact .leaf leaf
  | along children extent several each ih =>
    refine .split axis children (fun child inside => ⟨?_, minimum_le_tiledSize axis child⟩) ih
    rw [(each child inside).tiled]
    exact each child inside
  | across split children n other several each ih =>
    refine .split split children (fun child inside => ⟨?_, minimum_le_tiledSize axis child⟩) ih
    rw [(each child inside).tiled]
    exact each child inside

theorem Fits.even {axis : Axis} {node : Node Raw} (branching : Branching node) {cols rows : Nat} (fits : Fits node cols rows)
    (open_ : ∀ raw ∈ node.leaves, Tile.extent raw axis = none) : Everywhere (EvenSplit axis) (fit node cols rows) := by
  induction branching generalizing cols rows with
  | leaf raw =>
    rw [fit_leaf]
    exact .leaf _
  | split split children several each ih =>
    have openChild {child : Node Raw} (inside : child ∈ children) : ∀ raw ∈ child.leaves, Tile.extent raw axis = none := by
      intro raw there
      refine open_ raw ?_
      rw [leaves_split]
      exact List.mem_flatMap_of_mem inside there
    have extent {pair : Node Raw × Nat} (member : pair ∈ children.zip (shares children split (pick split cols rows))) :
        tiledSize axis (fit pair.1 (childCols split pair.2 cols) (childRows split pair.2 rows)) =
          if split = axis then pair.2 else pick axis cols rows := by
      have inside := (List.of_mem_zip member).1
      rw [((fits.child each member).spans (each pair.1 inside) axis).tiled, pick_child]
    rw [fit_split]
    refine .split split _ ?_ fun child member => ?_
    · intro allows first inFirst second inSecond
      obtain ⟨one, oneInside, rfl⟩ := List.mem_map.1 inFirst
      obtain ⟨two, twoInside, rfl⟩ := List.mem_map.1 inSecond
      rw [extent oneInside, extent twoInside]
      by_cases same : split = axis
      · subst split
        have length := shares_length children axis (pick axis cols rows)
        have room := fits.enough axis
        rw [minimum_split, if_pos rfl] at room
        obtain ⟨total, -⟩ := shares_correct children axis (pick axis cols rows) (List.ne_nil_of_length_pos (by omega)) room
        have sizes : ((children.zip (shares children axis (pick axis cols rows))).map fun pair =>
            fit pair.1 (childCols axis pair.2 cols) (childRows axis pair.2 rows)).map (tiledSize axis) =
              shares children axis (pick axis cols rows) := by
          rw [List.map_map]
          conv_rhs => rw [← @List.map_snd_zip _ _ children (shares children axis (pick axis cols rows)) (by omega)]
          refine List.map_congr_left fun pair member => ?_
          rw [Function.comp_apply, extent member, if_pos rfl]
        have allows := allows rfl
        rw [sizes, List.length_map, List.length_zip, length, min_self, (by omega :
          (shares children axis (pick axis cols rows)).sum = pick axis cols rows - (children.length - 1))] at allows
        have even_ := shares_even (fun child inside => known_none (openChild inside)) (List.ne_nil_of_length_pos (by omega))
          (fun child inside => minimum_positive axis child (each child inside).nonempty) (fun child inside => by
            rw [← @List.map_fst_zip _ _ children (shares children axis (pick axis cols rows)) (by omega)] at inside
            obtain ⟨pair, member, rfl⟩ := List.mem_map.1 inside
            have small := allows _ (List.mem_map_of_mem member)
            rwa [fit_minimum] at small)
        rw [if_pos rfl, if_pos rfl]
        have oneShare := (List.of_mem_zip oneInside).2
        have twoShare := (List.of_mem_zip twoInside).2
        rw [even_] at oneShare twoShare
        have := even_bounds oneShare
        have := even_bounds twoShare
        omega
      · rw [if_neg same, if_neg same]
        exact Nat.le_succ _
    · obtain ⟨pair, inside, rfl⟩ := List.mem_map.1 member
      have here := (List.of_mem_zip inside).1
      exact ih pair.1 here (fits.child each inside) (openChild here)

namespace Claims

theorem node_sizes (axis : Axis) (draft : Node DraftLeaf) {claims after : Claims} {raw : Node Raw}
    (claimed : node draft claims = .ok (raw, after)) (open_ : ∀ leaf ∈ draft.leaves, pick axis leaf.cols leaf.rows = none) :
    ∀ leaf ∈ raw.leaves, Tile.extent leaf axis = none := by
  induction draft generalizing claims after raw with
  | leaf tile =>
    rw [node_leaf, leaf, bind_ok_iff] at claimed
    obtain ⟨⟨pane, middle⟩, found, same⟩ := claimed
    cases same
    have size := open_ tile (by simp)
    cases axis <;> simp_all [Tile.extent, pick]
  | split split children ih =>
    rw [node_split, Claims.split, bind_ok_iff] at claimed
    obtain ⟨⟨raws, middle⟩, run, same⟩ := claimed
    have each := runAll_values (P := fun value : Node Raw => ∀ leaf ∈ value.leaves, Tile.extent leaf axis = none)
      (fun step member state value next stepped => by
        obtain ⟨child, inside, rfl⟩ := List.mem_map.1 member
        refine ih child inside stepped fun leaf there => open_ leaf ?_
        rw [leaves_split]
        exact List.mem_flatMap_of_mem inside there) run
    rcases raws with _ | ⟨first, _ | ⟨second, rest⟩⟩
    · cases same
    · cases same
      exact each raw (by simp)
    · cases same
      intro leaf there
      rw [leaves_split] at there
      obtain ⟨child, inside, there⟩ := List.mem_flatMap.1 there
      exact each child inside leaf there

theorem node_drafted (tree : Node Leaf) (branching : Branching tree) {claims after : Claims} {raw : Node Raw}
    (claimed : node (tree.map Leaf.draft) claims = .ok (raw, after)) : raw = tree.map Leaf.toRaw := by
  induction branching generalizing claims after raw with
  | leaf tile =>
    rw [Node.map_leaf, node_leaf, leaf, bind_ok_iff] at claimed
    obtain ⟨⟨pane, middle⟩, found, same⟩ := claimed
    obtain ⟨-, seen⟩ := accept_ok_iff.mp found
    obtain ⟨-, is, -⟩ := see_ok_iff.mp seen
    cases same
    rw [is]
    rfl
  | split split children several each ih =>
    rw [Node.map_split, node_split, Claims.split, List.map_map, bind_ok_iff] at claimed
    obtain ⟨⟨raws, middle⟩, run, same⟩ := claimed
    have raws_ : raws = children.map (Node.map Leaf.toRaw) := by
      refine runAll_map_values (fun child inside state value next stepped => ?_) run
      exact ih child inside stepped
    subst raws_
    rcases children with _ | ⟨first, _ | ⟨second, rest⟩⟩
    · simp at several
    · simp at several
    · cases same
      simp

end Claims

theorem fit_branching {node : Node Raw} (branching : Branching node) (cols rows : Nat) : Branching (fit node cols rows) := by
  induction branching generalizing cols rows with
  | leaf raw =>
    rw [fit_leaf]
    exact .leaf _
  | split split children several each ih =>
    rw [fit_split]
    refine .split split _ ?_ fun child member => ?_
    · rwa [List.length_map, List.length_zip, shares_length, min_self]
    · obtain ⟨pair, inside, rfl⟩ := List.mem_map.1 member
      exact ih pair.1 (List.of_mem_zip inside).1 _ _

-- Sizes that are filled in are fair, and they stay when they are sent back.
theorem fit_fair (draft : Node DraftLeaf) {claims after : Claims} {raw : Node Raw} (valid : Claims.node draft claims = .ok (raw, after))
    (cols rows : Cells) (enough : ∀ axis, raw.minimum axis ≤ (pick axis cols rows).get) :
    let fitted := fit raw cols.get rows.get
    (∀ axis, Spans axis fitted (pick axis cols rows).get ∧ Everywhere (fun _ => LeastSplit axis) fitted) ∧
      (∀ axis, (∀ leaf ∈ draft.leaves, pick axis leaf.cols leaf.rows = none) → Everywhere (EvenSplit axis) fitted) ∧
        ∀ claims after again, Claims.node (fitted.map Leaf.draft) claims = .ok (again, after) → fit again cols.get rows.get = fitted := by
  have branching := (Claims.node_grows draft valid).1
  have picked (axis : Axis) : pick axis cols.get rows.get = (pick axis cols rows).get := by cases axis <;> rfl
  have fits : Fits raw cols.get rows.get := by
    constructor
    · intro axis
      rw [picked]
      exact enough axis
    · intro axis
      rw [picked]
      exact Cells.bound _
    · intro axis
      rw [picked]
      exact Cells.positive _
  have spans (axis : Axis) := fits.spans branching axis
  refine ⟨fun axis => ?_, fun axis open_ => ?_, fun claims after again claimed => ?_⟩
  · rw [← picked]
    exact ⟨spans axis, (spans axis).least⟩
  · exact fits.even branching (Claims.node_sizes axis draft valid open_)
  · rw [Claims.node_drafted _ (fit_branching branching _ _) claimed]
    exact fit_same _ _ _ spans

def openPair : Node DraftLeaf :=
  .split .horizontal [.leaf ⟨.new ⟨none, .empty, none⟩, none, none⟩, .leaf ⟨.new ⟨none, .empty, none⟩, none, none⟩]

def noClaims : Claims := ⟨⟨[]⟩, none, [], ⟨.one, .one, .one⟩, [], [], []⟩

theorem fit_fair_pair : ∃ raw after, Claims.node openPair noClaims = .ok (raw, after) ∧
    Everywhere (EvenSplit .horizontal) (fit raw 10 4) := by
  have valid : Claims.node openPair noClaims =
      .ok (.split .horizontal [.leaf ⟨⟨1⟩, none, none⟩, .leaf ⟨⟨2⟩, none, none⟩], _) := rfl
  refine ⟨_, _, valid, ?_⟩
  have fair := fit_fair openPair valid ⟨10, by decide, by decide⟩ ⟨4, by decide, by decide⟩ (by intro axis; cases axis <;> decide)
  exact fair.2.1 .horizontal (by decide)

end Kido.Tiling
