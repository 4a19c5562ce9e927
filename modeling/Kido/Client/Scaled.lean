import Kido.Client.Changed
import Kido.Layout.Shares
import Mathlib.Tactic.Choose

set_option autoImplicit false

namespace Kido.Tiling.Sizing

theorem known_draft (axis : Axis) (tree : Node Leaf) : (tree.map Leaf.draft).known axis = tree.known axis := by
  induction tree with
  | leaf leaf => cases axis <;> rfl
  | split split children ih =>
    have same : (children.map (Node.map Leaf.draft)).filterMap (Node.known axis) = children.filterMap (Node.known axis) := by
      rw [List.filterMap_map]
      exact List.filterMap_congr ih
    simp only [Node.map_split, Node.known_split, same]

theorem setExtent_leaf (axis : Axis) (leaf : DraftLeaf) (wanted : Nat) :
    setExtent axis (.leaf leaf) wanted = .leaf (DraftLeaf.withExtent axis wanted leaf) := by
  simp [setExtent]

theorem setExtent_along (axis : Axis) (children : List Tree) (wanted : Nat) :
    setExtent axis (.split axis children) wanted =
      let room := wanted - (children.length - 1)
      let sizes := children.map fun child => (child.known axis).getD 1
      .split axis ((children.zip (portions room (max sizes.sum 1) sizes room)).map fun pair => setExtent axis pair.1 pair.2) := by
  rw [setExtent, Node.para_split]
  simp only [if_true, List.length_map, List.map_map, Function.comp_def, List.zip_map_left]
  rfl

theorem setExtent_across {axis split : Axis} (other : split ≠ axis) (children : List Tree) (wanted : Nat) :
    setExtent axis (.split split children) wanted = .split split (children.map fun child => setExtent axis child wanted) := by
  rw [setExtent, Node.para_split, if_neg other, List.map_map]
  rfl

-- The proportional parts of all children but the last, at least one cell each.
def proportional (room sum : Nat) (sizes : List Nat) : List Nat := sizes.dropLast.map fun size => max (size * room / sum) 1

def scaled (room sum : Nat) (sizes : List Nat) : List Nat :=
  proportional room sum sizes ++ [room - (proportional room sum sizes).sum]

theorem portions_scaled (room sum : Nat) (sizes : List Nat) (left : Nat) (nonempty : sizes ≠ [])
    (enough : (proportional room sum sizes).sum < left) :
    portions room sum sizes left = proportional room sum sizes ++ [left - (proportional room sum sizes).sum] := by
  induction sizes generalizing left with
  | nil => exact absurd rfl nonempty
  | cons size rest ih =>
    match rest with
    | [] => simp [portions, proportional]
    | next :: later =>
      have unfolded : proportional room sum (size :: next :: later) =
          max (size * room / sum) 1 :: proportional room sum (next :: later) := rfl
      rw [unfolded, List.sum_cons] at enough
      have share : min (max (size * room / sum) 1) left = max (size * room / sum) 1 := by omega
      have tail := ih (left - max (size * room / sum) 1) (by simp) (by omega)
      rw [portions]
      simp only [share, tail, unfolded, List.sum_cons, List.cons_append, Nat.sub_sub]

theorem scaled_sum {room sum : Nat} {sizes : List Nat} (enough : (proportional room sum sizes).sum < room) :
    (scaled room sum sizes).sum = room := by
  rw [scaled, List.sum_append, List.sum_singleton]
  omega

theorem scaled_length (room sum : Nat) {sizes : List Nat} (nonempty : sizes ≠ []) :
    (scaled room sum sizes).length = sizes.length := by
  have positive := List.length_pos_iff_ne_nil.2 nonempty
  rw [scaled, proportional, List.length_append, List.length_map, List.length_dropLast, List.length_singleton]
  omega

-- The parts that a node hands out when it is scaled to an extent leave a cell for each leaf.
inductive Scales (axis : Axis) : Node Leaf → Nat → Prop where
  | leaf (leaf : Leaf) (wanted : Nat) (some_ : 1 ≤ wanted) : Scales axis (.leaf leaf) wanted
  | along (children : List (Node Leaf)) (wanted : Nat)
      (enough : (proportional (wanted - (children.length - 1)) (children.map (tiledSize axis)).sum
        (children.map (tiledSize axis))).sum < wanted - (children.length - 1))
      (each : ∀ pair ∈ children.zip (scaled (wanted - (children.length - 1)) (children.map (tiledSize axis)).sum
        (children.map (tiledSize axis))), Scales axis pair.1 pair.2) : Scales axis (.split axis children) wanted
  | across (split : Axis) (other : split ≠ axis) (children : List (Node Leaf)) (wanted : Nat)
      (each : ∀ child ∈ children, Scales axis child wanted) : Scales axis (.split split children) wanted

-- A tree with the panes of another has the wanted extent on the axis, and the same on the other axis.
structure Rescaled (axis : Axis) (before after : Node Leaf) (wanted : Nat) : Prop where
  panes : after.map Leaf.pane = before.map Leaf.pane
  along : Spans axis after wanted
  across : ∀ other, other ≠ axis → ∀ n, Spans other before n → Spans other after n

theorem cells_is {wanted : Nat} (bound : wanted ≤ maxDimension) :
    cells wanted = some ⟨max wanted 1, le_max_right _ _, max_le bound (by decide)⟩ := by
  have small : max (min wanted u16Max) 1 = max wanted 1 := by
    simp only [u16Max, maxDimension] at bound ⊢
    omega
  rw [cells, small, Cells.new, dif_pos ⟨le_max_right _ _, max_le bound (by decide)⟩]

theorem withExtent_leaf (axis : Axis) (leaf : Leaf) {wanted : Nat} (positive : 1 ≤ wanted) (bound : wanted ≤ maxDimension) :
    ∃ after : Leaf, DraftLeaf.withExtent axis wanted leaf.draft = after.draft ∧ Rescaled axis (.leaf leaf) (.leaf after) wanted := by
  have cells_ : cells wanted = some ⟨wanted, positive, bound⟩ := by
    rw [cells_is bound, Option.some.injEq]
    exact Cells.ext (max_eq_left positive)
  cases axis with
  | horizontal =>
    refine ⟨{ leaf with cols := ⟨wanted, positive, bound⟩ }, by simp only [DraftLeaf.withExtent, cells_]; rfl, by simp, ?_, ?_⟩
    · exact Spans.leaf_iff.2 rfl
    · intro other differs n spans
      cases other with
      | horizontal => exact absurd rfl differs
      | vertical =>
        have extent := Spans.leaf_iff.1 spans
        exact Spans.leaf_iff.2 extent
  | vertical =>
    refine ⟨{ leaf with rows := ⟨wanted, positive, bound⟩ }, by simp only [DraftLeaf.withExtent, cells_]; rfl, by simp, ?_, ?_⟩
    · exact Spans.leaf_iff.2 rfl
    · intro other differs n spans
      cases other with
      | horizontal =>
        have extent := Spans.leaf_iff.1 spans
        exact Spans.leaf_iff.2 extent
      | vertical => exact absurd rfl differs

theorem rescaled_children {axis : Axis} {children : List (Node Leaf)} {shares : List Nat} (length : shares.length = children.length)
    {after : Node Leaf × Nat → Node Leaf} (each : ∀ pair ∈ children.zip shares, Rescaled axis pair.1 (after pair) pair.2) :
    ((children.zip shares).map after).map (Node.map Leaf.pane) = children.map (Node.map Leaf.pane) ∧
      ((children.zip shares).map after).map (tiledSize axis) = shares := by
  constructor
  · conv_rhs => rw [← @List.map_fst_zip _ _ children shares (by omega)]
    rw [List.map_map, List.map_map]
    exact List.map_congr_left fun pair inside => (each pair inside).panes
  · conv_rhs => rw [← @List.map_snd_zip _ _ children shares (by omega)]
    rw [List.map_map]
    exact List.map_congr_left fun pair inside => (each pair inside).along.tiled

theorem known_sizes {axis : Axis} {children : List (Node Leaf)} (own : ∀ child ∈ children, Spans axis child (tiledSize axis child))
    (nonempty : children.map (tiledSize axis) ≠ []) :
    (children.map (Node.map Leaf.draft)).map (fun child => (child.known axis).getD 1) = children.map (tiledSize axis) ∧
      max (children.map (tiledSize axis)).sum 1 = (children.map (tiledSize axis)).sum := by
  constructor
  · rw [List.map_map]
    exact List.map_congr_left fun child inside => by rw [Function.comp_apply, known_draft, (own child inside).known, Option.getD_some]
  · obtain ⟨size, inside⟩ := List.exists_mem_of_ne_nil _ nonempty
    obtain ⟨first, there, rfl⟩ := List.mem_map.1 inside
    have one := (own first there).positive
    have total := List.single_le_sum (fun size _ => Nat.zero_le size) _ inside
    omega

theorem Scales.setExtent {axis : Axis} {tree : Node Leaf} {wanted : Nat} (scales : Scales axis tree wanted) {n : Nat}
    (spans : Spans axis tree n) (bound : wanted ≤ maxDimension) :
    ∃ after, setExtent axis (tree.map Leaf.draft) wanted = after.map Leaf.draft ∧ Rescaled axis tree after wanted := by
  induction scales generalizing n with
  | leaf leaf wanted some_ =>
    obtain ⟨after, same, rescaled⟩ := withExtent_leaf axis leaf some_ bound
    refine ⟨.leaf after, ?_, rescaled⟩
    rw [Node.map_leaf, Node.map_leaf, setExtent_leaf, same]
  | along children wanted enough each ih =>
    obtain ⟨several, own, -⟩ := Spans.along_iff.1 spans
    have nonempty : children.map (tiledSize axis) ≠ [] := by
      rw [ne_eq, List.map_eq_nil_iff]
      rintro rfl
      simp at several
    obtain ⟨sizes, positive⟩ := known_sizes own nonempty
    generalize room : wanted - (children.length - 1) = room_ at enough each ih
    have length := scaled_length room_ (children.map (tiledSize axis)).sum nonempty
    have total := scaled_sum enough
    rw [List.length_map] at length
    generalize shares : scaled room_ (children.map (tiledSize axis)).sum (children.map (tiledSize axis)) = parts at each ih length total
    have small {pair : Node Leaf × Nat} (inside : pair ∈ children.zip parts) : pair.2 ≤ maxDimension := by
      have share := List.single_le_sum (fun size _ => Nat.zero_le size) _ (List.of_mem_zip inside).2
      omega
    have parts_ : ∀ pair ∈ children.zip parts, ∃ after,
        Sizing.setExtent axis (pair.1.map Leaf.draft) pair.2 = after.map Leaf.draft ∧ Rescaled axis pair.1 after pair.2 :=
      fun pair inside => ih pair inside (own pair.1 (List.of_mem_zip inside).1) (small inside)
    have : Inhabited (Node Leaf) := ⟨.split .horizontal []⟩
    choose! after same rescaled using parts_
    obtain ⟨panes, extents⟩ := rescaled_children length rescaled
    refine ⟨.split axis ((children.zip parts).map after), ?_, ?_, ?_, ?_⟩
    · rw [Node.map_split, setExtent_along, List.length_map, room, sizes]
      simp only [positive, Node.map_split, Node.split.injEq, true_and]
      rw [portions_scaled _ _ _ _ nonempty enough]
      change (((children.map (Node.map Leaf.draft)).zip (scaled _ _ _)).map _) = _
      rw [shares, List.zip_map_left, List.map_map, List.map_map]
      exact List.map_congr_left fun pair inside => same pair inside
    · rw [Node.map_split, Node.map_split, panes]
    · rw [Spans.along_iff, extents, List.length_map, List.length_zip, length, min_self]
      refine ⟨several, fun child inside => ?_, by omega⟩
      obtain ⟨pair, there, rfl⟩ := List.mem_map.1 inside
      rw [(rescaled pair there).along.tiled]
      exact (rescaled pair there).along
    · intro other differs m across
      rw [Spans.across_iff differs.symm] at across ⊢
      rw [List.length_map, List.length_zip, length, min_self]
      refine ⟨several, fun child inside => ?_⟩
      obtain ⟨pair, there, rfl⟩ := List.mem_map.1 inside
      exact (rescaled pair there).across other differs m (across.2 pair.1 (List.of_mem_zip there).1)
  | across split other children wanted each ih =>
    obtain ⟨several, own⟩ := (Spans.across_iff other).1 spans
    have each_ : ∀ child ∈ children, ∃ after,
        Sizing.setExtent axis (child.map Leaf.draft) wanted = after.map Leaf.draft ∧ Rescaled axis child after wanted :=
      fun child inside => ih child inside (own child inside) bound
    have : Inhabited (Node Leaf) := ⟨.split .horizontal []⟩
    choose! after same rescaled using each_
    refine ⟨.split split (children.map after), ?_, ?_, ?_, ?_⟩
    · rw [Node.map_split, Node.map_split, setExtent_across other, List.map_map, List.map_map]
      exact congrArg (Node.split split) (List.map_congr_left same)
    · rw [Node.map_split, Node.map_split, List.map_map]
      exact congrArg (Node.split split) (List.map_congr_left fun child inside => (rescaled child inside).panes)
    · rw [Spans.across_iff other, List.length_map]
      refine ⟨several, fun child inside => ?_⟩
      obtain ⟨before, there, rfl⟩ := List.mem_map.1 inside
      exact (rescaled before there).along
    · intro axis' differs m spans
      by_cases equal : split = axis'
      · subst split
        obtain ⟨-, each, total⟩ := Spans.along_iff.1 spans
        rw [Spans.along_iff, List.length_map, List.map_map]
        refine ⟨several, fun child inside => ?_, ?_⟩
        · obtain ⟨before, there, rfl⟩ := List.mem_map.1 inside
          have spans := (rescaled before there).across axis' differs _ (each before there)
          rwa [spans.tiled]
        · rw [← total]
          congr 2
          exact List.map_congr_left fun child inside => ((rescaled child inside).across axis' differs _ (each child inside)).tiled
      · rw [Spans.across_iff equal] at spans ⊢
        rw [List.length_map]
        refine ⟨several, fun child inside => ?_⟩
        obtain ⟨before, there, rfl⟩ := List.mem_map.1 inside
        exact (rescaled before there).across axis' differs m (spans.2 before there)

theorem portions_length (room sum : Nat) (sizes : List Nat) (left : Nat) : (portions room sum sizes left).length = sizes.length := by
  induction sizes generalizing left with
  | nil => rfl
  | cons size rest ih =>
    match rest with
    | [] => rfl
    | next :: later =>
      rw [portions, List.length_cons, ih]
      rfl

theorem portions_sum (room sum : Nat) (sizes : List Nat) (left : Nat) (nonempty : sizes ≠ []) :
    (portions room sum sizes left).sum = left := by
  induction sizes generalizing left with
  | nil => exact absurd rfl nonempty
  | cons size rest ih =>
    match rest with
    | [] => simp [portions]
    | next :: later =>
      rw [portions, List.sum_cons, ih _ (by simp)]
      omega

theorem portions_enough (room sum : Nat) (sizes : List Nat) (left : Nat) (nonempty : sizes ≠ [])
    (some_ : ∀ portion ∈ portions room sum sizes left, 1 ≤ portion) : (proportional room sum sizes).sum < left := by
  induction sizes generalizing left with
  | nil => exact absurd rfl nonempty
  | cons size rest ih =>
    match rest with
    | [] =>
      have one := some_ left (by simp [portions])
      simp only [proportional, List.dropLast_singleton, List.map_nil, List.sum_nil]
      omega
    | next :: later =>
      have unfolded : proportional room sum (size :: next :: later) =
          max (size * room / sum) 1 :: proportional room sum (next :: later) := rfl
      rw [portions] at some_
      have tail := ih (left - min (max (size * room / sum) 1) left) (by simp)
        fun portion inside => some_ portion (List.mem_cons_of_mem _ inside)
      rw [unfolded, List.sum_cons]
      omega

theorem setExtent_known {axis : Axis} {tree : Node Leaf} (wanted : Nat) {n : Nat} (spans : Spans axis tree n) (bound : wanted ≤ maxDimension) :
    ∃ written, (setExtent axis (tree.map Leaf.draft) wanted).known axis = some written ∧ wanted ≤ written ∧ 1 ≤ written ∧
      (written = wanted → Scales axis tree wanted) := by
  induction tree generalizing wanted n with
  | leaf leaf =>
    have cells_ := cells_is bound
    refine ⟨max wanted 1, ?_, by omega, by omega, fun exact_ => .leaf leaf wanted (by omega)⟩
    rw [Node.map_leaf, setExtent_leaf, Node.known_leaf]
    cases axis <;> simp [DraftLeaf.withExtent, cells_, Tile.extent, pick]
  | split split children ih =>
    by_cases same : split = axis
    · subst split
      obtain ⟨several, own, -⟩ := Spans.along_iff.1 spans
      have nonempty : children.map (tiledSize axis) ≠ [] := by
        rw [ne_eq, List.map_eq_nil_iff]
        rintro rfl
        simp at several
      obtain ⟨sizes, positive⟩ := known_sizes own nonempty
      generalize room : wanted - (children.length - 1) = room_
      have length := portions_length room_ (children.map (tiledSize axis)).sum (children.map (tiledSize axis)) room_
      have total := portions_sum room_ (children.map (tiledSize axis)).sum (children.map (tiledSize axis)) room_ nonempty
      have enough := portions_enough room_ (children.map (tiledSize axis)).sum (children.map (tiledSize axis)) room_ nonempty
      have handed := portions_scaled room_ (children.map (tiledSize axis)).sum (children.map (tiledSize axis)) room_ nonempty
      generalize parts : portions room_ (children.map (tiledSize axis)).sum (children.map (tiledSize axis)) room_ = shares
        at length total enough handed
      rw [List.length_map] at length
      have each : ∀ pair ∈ children.zip shares, ∃ written,
          (Sizing.setExtent axis (pair.1.map Leaf.draft) pair.2).known axis = some written ∧ pair.2 ≤ written ∧ 1 ≤ written ∧
            (written = pair.2 → Scales axis pair.1 pair.2) := by
        intro pair inside
        have here := (List.of_mem_zip inside).1
        have share := List.single_le_sum (fun size _ => Nat.zero_le size) _ (List.of_mem_zip inside).2
        exact ih pair.1 here pair.2 (own pair.1 here) (by omega)
      choose! written known least one exact_ using each
      have sum : shares.sum ≤ ((children.zip shares).map written).sum := by
        conv_lhs => rw [← @List.map_snd_zip _ _ children shares (by omega)]
        exact List.sum_le_sum least
      have sizesWritten : (((children.map (Node.map Leaf.draft)).zip shares).map fun pair => Sizing.setExtent axis pair.1 pair.2).filterMap
          (Node.known axis) = (children.zip shares).map written := by
        rw [List.zip_map_left, List.map_map, List.filterMap_map, ← List.filterMap_eq_map]
        exact List.filterMap_congr known
      have count : ((children.zip shares).map written).length = children.length := by
        rw [List.length_map, List.length_zip, length, min_self]
      refine ⟨((children.zip shares).map written).sum + (children.length - 1), ?_, by omega, by omega, fun equal => ?_⟩
      · have many : ¬((children.zip shares).map written).isEmpty = true := by
          rw [List.isEmpty_iff_length_eq_zero]
          omega
        rw [Node.map_split, setExtent_along, List.length_map, room, sizes]
        simp only [positive, parts, Node.known_split, if_true, sizesWritten, if_neg many, count]
        congr 1
        omega
      · have exactly (pair : Node Leaf × Nat) (inside : pair ∈ children.zip shares) : written pair = pair.2 := by
          by_contra differs
          have more := List.sum_lt_sum (l := children.zip shares) Prod.snd written least
            ⟨pair, inside, lt_of_le_of_ne (least pair inside) (Ne.symm differs)⟩
          rw [List.map_snd_zip (by omega)] at more
          omega
        have some_ : ∀ share ∈ shares, 1 ≤ share := by
          intro share inside
          rw [← @List.map_snd_zip _ _ children shares (by omega)] at inside
          obtain ⟨pair, there, rfl⟩ := List.mem_map.1 inside
          rw [← exactly pair there]
          exact one pair there
        have fits := enough some_
        have handed := handed fits
        refine .along children wanted (by rwa [room]) fun pair inside => ?_
        rw [room] at inside
        change pair ∈ children.zip (proportional _ _ _ ++ [_]) at inside
        rw [← handed] at inside
        exact exact_ pair inside (exactly pair inside)
    · obtain ⟨several, own⟩ := (Spans.across_iff same).1 spans
      have each : ∀ child ∈ children, ∃ written, (Sizing.setExtent axis (child.map Leaf.draft) wanted).known axis = some written ∧
          wanted ≤ written ∧ 1 ≤ written ∧ (written = wanted → Scales axis child wanted) :=
        fun child inside => ih child inside wanted (own child inside) bound
      choose! written known least one exact_ using each
      have sizes : (children.map fun child => Sizing.setExtent axis (child.map Leaf.draft) wanted).filterMap (Node.known axis) =
          children.map written := by
        rw [List.filterMap_map, ← List.filterMap_eq_map]
        exact List.filterMap_congr known
      obtain ⟨most, found⟩ : ∃ most, (children.map written).max? = some most := by
        cases children with
        | nil => simp at several
        | cons child rest => exact ⟨_, rfl⟩
      obtain ⟨first, there, isMost⟩ := List.mem_map.1 (List.max?_mem found)
      refine ⟨most, ?_, ?_, ?_, fun equal => .across split same children wanted fun child inside => exact_ child inside ?_⟩
      · rw [Node.map_split, setExtent_across same, List.map_map, Node.known_split]
        simp only [same, if_false, Function.comp_def, sizes, found]
      · rw [← isMost]
        exact least first there
      · rw [← isMost]
        exact one first there
      · have upper := (List.max?_eq_some_iff.1 found).2 (written child) (List.mem_map_of_mem inside)
        have lower := least child inside
        omega

end Kido.Tiling.Sizing
