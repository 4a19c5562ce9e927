import Kido.Layout.Resize

set_option autoImplicit false

namespace Kido.Tiling

open Node (leaves_map minimum_map map_split map_leaf minimum_split minimum_leaf panes_split panes_leaf
  contains_iff_mem_panes para_leaf para_split)

-- `children.len() == 1 { children.pop() }` of `remove_leaf`: a split of one child is that child.
def collapse (split : Axis) : List (Node Leaf) → Node Leaf
  | [only] => only
  | children => .split split children

def widenNeighbour (split : Axis) (index freed : Nat) (children : List (Node Leaf)) : List (Node Leaf) :=
  children.modify (min index (children.length - 1)) fun child =>
    resizeAxis split child (tiledSize split child + freed)

-- The split case of `remove_leaf`, over each child and what is left of it.
def removeChild (pane : PaneId) (split : Axis) (pairs : List (Node Leaf × Option (Node Leaf))) :
    Option (Node Leaf) :=
  let children := pairs.map Prod.fst
  match children.findIdx? (Node.contains pane) with
  | none => some (.split split children)
  | some index =>
    let rest := children.eraseIdx index
    match pairs[index]? with
    | some (.leaf leaf, _) => some (collapse split (widenNeighbour split index (leaf.extent split + 1) rest))
    | some (.split .., some node) => some (collapse split (rest.insertIdx index node))
    | some (.split .., none) => some (collapse split rest)
    | none => some (.split split children)

def removeLeaf (pane : PaneId) : Node Leaf → Option (Node Leaf) :=
  Node.para (fun leaf => if leaf.pane = pane then none else some (.leaf leaf)) (removeChild pane)

theorem removeLeaf_leaf (pane : PaneId) (leaf : Leaf) :
    removeLeaf pane (.leaf leaf) = if leaf.pane = pane then none else some (.leaf leaf) := by
  simp [removeLeaf]

theorem found_at (pane : PaneId) (children : List (Node Leaf)) (index : Nat)
    (found : children.findIdx? (Node.contains pane) = some index) :
    ∃ before child after, children = before ++ child :: after ∧ index = before.length ∧
      pane ∈ child.panes ∧ ∀ other ∈ before, pane ∉ other.panes := by
  obtain ⟨inside, here, earlier⟩ := List.findIdx?_eq_some_iff_getElem.mp found
  refine ⟨children.take index, children[index], children.drop (index + 1), ?_, ?_, ?_, ?_⟩
  · rw [← List.drop_eq_getElem_cons inside, List.take_append_drop]
  · rw [List.length_take]
    omega
  · rwa [← contains_iff_mem_panes]
  · intro other member
    obtain ⟨place, bound, rfl⟩ := List.getElem_of_mem member
    rw [List.getElem_take, ← contains_iff_mem_panes]
    exact earlier place (by rw [List.length_take] at bound; omega)

theorem insertIdx_between {α : Type} (before after : List α) (value : α) :
    (before ++ after).insertIdx before.length value = before ++ value :: after := by
  induction before with
  | nil => rfl
  | cons first rest ih => simp [List.insertIdx_succ_cons, ih]

section Found

variable (pane : PaneId) (split : Axis) (before after : List (Node Leaf)) (child : Node Leaf)

theorem removeLeaf_children (children : List (Node Leaf)) :
    removeLeaf pane (.split split children) =
      removeChild pane split (children.map fun child => (child, removeLeaf pane child)) :=
  para_split _ _ split children

theorem removeLeaf_absent (children : List (Node Leaf)) (absent : pane ∉ (Node.split split children).panes) :
    removeLeaf pane (.split split children) = some (.split split children) := by
  have missing : children.findIdx? (Node.contains pane) = none := by
    rw [List.findIdx?_eq_none_iff]
    intro other member
    rw [Bool.eq_false_iff, ne_eq, contains_iff_mem_panes]
    intro inside
    exact absent (by rw [panes_split]; exact List.mem_flatMap.mpr ⟨other, member, inside⟩)
  simp [removeLeaf_children, removeChild, Function.comp_def, missing]

variable (here : pane ∈ child.panes) (earlier : ∀ other ∈ before, pane ∉ other.panes)

include here earlier

theorem findIdx?_found : (before ++ child :: after).findIdx? (Node.contains pane) = some before.length := by
  rw [List.findIdx?_eq_some_iff_getElem]
  refine ⟨by simp, ?_, ?_⟩
  · simpa [contains_iff_mem_panes] using here
  · intro place below
    rw [List.getElem_append_left below, contains_iff_mem_panes]
    exact earlier _ (List.getElem_mem below)

theorem removeLeaf_split :
    removeLeaf pane (.split split (before ++ child :: after)) =
      match child with
      | .leaf leaf =>
        some (collapse split (widenNeighbour split before.length (leaf.extent split + 1) (before ++ after)))
      | .split .. =>
        match removeLeaf pane child with
        | some node => some (collapse split (before ++ node :: after))
        | none => some (collapse split (before ++ after)) := by
  have found := findIdx?_found pane before after child here earlier
  have erased : (before ++ child :: after).eraseIdx before.length = before ++ after := by
    simp [List.eraseIdx_append_of_length_le]
  simp only [removeLeaf_children, removeChild, List.map_map, Function.comp_def, List.map_id', found, erased]
  rw [List.getElem?_map, List.getElem?_append_right le_rfl, Nat.sub_self, List.getElem?_cons_zero, Option.map_some]
  match child with
  | .leaf tile => rfl
  | .split inner children =>
    cases removeLeaf pane (.split inner children) with
    | none => rfl
    | some node => simp only [insertIdx_between]

end Found

-- The tree fills the rectangle, and no extent of it is past the limit of a `Cells`.
structure Tiles (node : Node Leaf) (size : Axis → Nat) : Prop where
  spans : ∀ axis, Spans axis node (size axis)
  bound : ∀ axis, size axis ≤ maxDimension

theorem collapse_spans (axis split : Axis) (children : List (Node Leaf)) (n : Nat) (nonempty : children ≠ [])
    (along : split = axis → (∀ child ∈ children, Spans axis child (tiledSize axis child)) ∧
      (children.map (tiledSize axis)).sum + (children.length - 1) = n)
    (across : split ≠ axis → ∀ child ∈ children, Spans axis child n) :
    Spans axis (collapse split children) n := by
  match children with
  | [] => exact absurd rfl nonempty
  | [only] =>
    by_cases same : split = axis
    · obtain ⟨each, total⟩ := along same
      have whole : tiledSize axis only = n := by simpa using total
      exact whole ▸ each only (by simp)
    · exact across same only (by simp)
  | first :: second :: rest =>
    have several : 2 ≤ (first :: second :: rest).length := by simp
    by_cases same : split = axis
    · subst split
      exact Spans.along_iff.mpr ⟨several, along rfl⟩
    · exact (Spans.across_iff same).mpr ⟨several, across same⟩

theorem collapse_panes (split : Axis) (children : List (Node Leaf)) :
    (collapse split children).panes = children.flatMap Node.panes := by
  match children with
  | [] => simp [collapse, panes_split]
  | [only] => simp [collapse]
  | first :: second :: rest => rw [collapse, panes_split]; simp

section Widen

variable (split : Axis) (index freed : Nat) (children : List (Node Leaf)) (nonempty : children ≠ [])

include nonempty in
theorem widenNeighbour_eq : ∃ before child after, children = before ++ child :: after ∧
    widenNeighbour split index freed children =
      before ++ resizeAxis split child (tiledSize split child + freed) :: after := by
  have inside : min index (children.length - 1) < children.length := by
    have positive := List.length_pos_iff_ne_nil.mpr nonempty
    omega
  refine ⟨children.take (min index (children.length - 1)), children[min index (children.length - 1)],
    children.drop (min index (children.length - 1) + 1), ?_, ?_⟩
  · rw [← List.drop_eq_getElem_cons inside, List.take_append_drop]
  · rw [widenNeighbour, List.modify_eq_take_cons_drop inside]

theorem widenNeighbour_panes : (widenNeighbour split index freed children).flatMap Node.panes =
    children.flatMap Node.panes := by
  by_cases empty : children = []
  · simp [empty, widenNeighbour]
  · obtain ⟨before, child, after, rfl, same⟩ := widenNeighbour_eq split index freed children empty
    simp [same, (resizeAxis_kept split child _).panes]

include nonempty in
theorem widenNeighbour_along (each : ∀ child ∈ children, Spans split child (tiledSize split child))
    (bound : (children.map (tiledSize split)).sum + freed ≤ maxDimension) :
    (∀ child ∈ widenNeighbour split index freed children, Spans split child (tiledSize split child)) ∧
      ((widenNeighbour split index freed children).map (tiledSize split)).sum =
        (children.map (tiledSize split)).sum + freed ∧
      (widenNeighbour split index freed children).length = children.length := by
  obtain ⟨before, child, after, rfl, same⟩ := widenNeighbour_eq split index freed children nonempty
  have own := each child (by simp)
  simp only [List.map_append, List.map_cons, List.sum_append, List.sum_cons] at bound
  have least := own.minimum_le
  have wide := resizeAxis_spans split child (tiledSize split child) (tiledSize split child + freed) own
    (by omega) (by omega)
  rw [max_eq_left (by omega)] at wide
  refine ⟨?_, ?_, by simp [same]⟩
  · intro other member
    rw [same] at member
    rcases List.mem_append.mp member with left | right
    · exact each other (by simp [left])
    · rcases List.mem_cons.mp right with head | tail
      · rw [head, wide.tiled]
        exact wide
      · exact each other (by simp [tail])
  · rw [same]
    simp only [List.map_append, List.map_cons, List.sum_append, List.sum_cons, wide.tiled]
    omega

theorem widenNeighbour_across (axis : Axis) (differs : split ≠ axis) (n : Nat)
    (each : ∀ child ∈ children, Spans axis child n) :
    ∀ child ∈ widenNeighbour split index freed children, Spans axis child n := by
  by_cases empty : children = []
  · simp [empty, widenNeighbour]
  · obtain ⟨before, child, after, rfl, same⟩ := widenNeighbour_eq split index freed children empty
    intro other member
    rw [same] at member
    rcases List.mem_append.mp member with left | right
    · exact each other (by simp [left])
    · rcases List.mem_cons.mp right with head | tail
      · rw [head]
        exact (resizeAxis_kept split child _).2 axis differs.symm n (each child (by simp))
      · exact each other (by simp [tail])

end Widen

theorem first_holder (pane : PaneId) (split : Axis) (children : List (Node Leaf))
    (member : pane ∈ (Node.split split children).panes) :
    ∃ before child after, children = before ++ child :: after ∧ pane ∈ child.panes ∧
      ∀ other ∈ before, pane ∉ other.panes := by
  cases found : children.findIdx? (Node.contains pane) with
  | none =>
    rw [panes_split, List.mem_flatMap] at member
    obtain ⟨child, inside, here⟩ := member
    have absent := List.findIdx?_eq_none_iff.mp found child inside
    rw [← contains_iff_mem_panes, absent] at here
    cases here
  | some index =>
    obtain ⟨before, child, after, same, _, here, earlier⟩ := found_at pane children index found
    exact ⟨before, child, after, same, here, earlier⟩

section Child

variable (split : Axis) (before after : List (Node Leaf)) (child : Node Leaf)

theorem erase_panes (pane : PaneId) (here : pane ∈ child.panes) (earlier : ∀ other ∈ before, pane ∉ other.panes) :
    ((before ++ child :: after).flatMap Node.panes).erase pane =
      before.flatMap Node.panes ++ (child.panes.erase pane ++ after.flatMap Node.panes) := by
  have absent : pane ∉ before.flatMap Node.panes := by
    rw [List.mem_flatMap]
    rintro ⟨other, member, inside⟩
    exact earlier other member inside
  rw [List.flatMap_append, List.flatMap_cons, List.erase_append_right _ absent, List.erase_append_left _ here]

variable (size : Axis → Nat) (tiles : Tiles (.split split (before ++ child :: after)) size)

include tiles

theorem child_tiles : Tiles child (Function.update size split (tiledSize split child)) := by
  obtain ⟨_, each, total⟩ := Spans.along_iff.mp (tiles.spans split)
  have limit := tiles.bound split
  simp only [List.map_append, List.map_cons, List.sum_append, List.sum_cons] at total
  constructor
  · intro axis
    by_cases same : axis = split
    · subst axis
      simpa using each child (by simp)
    · rw [Function.update_of_ne same]
      exact ((Spans.across_iff (Ne.symm same)).mp (tiles.spans axis)).2 child (by simp)
  · intro axis
    by_cases same : axis = split
    · subst axis
      rw [Function.update_self]
      omega
    · rw [Function.update_of_ne same]
      exact tiles.bound axis

theorem replace_spans (node : Node Leaf)
    (kept : Tiles node (Function.update size split (tiledSize split child))) (axis : Axis) :
    Spans axis (collapse split (before ++ node :: after)) (size axis) := by
  refine collapse_spans axis split _ _ (by simp) ?_ ?_
  · rintro rfl
    obtain ⟨_, each, total⟩ := Spans.along_iff.mp (tiles.spans split)
    have own := kept.spans split
    rw [Function.update_self] at own
    constructor
    · intro other member
      rcases List.mem_append.mp member with left | right
      · exact each other (by simp [left])
      · rcases List.mem_cons.mp right with head | tail
        · rw [head, own.tiled]
          exact own
        · exact each other (by simp [tail])
    · simpa [own.tiled] using total
  · intro differs other member
    have across := ((Spans.across_iff differs).mp (tiles.spans axis)).2
    have own := kept.spans axis
    rw [Function.update_of_ne (Ne.symm differs)] at own
    rcases List.mem_append.mp member with left | right
    · exact across other (by simp [left])
    · rcases List.mem_cons.mp right with head | tail
      · rw [head]
        exact own
      · exact across other (by simp [tail])

end Child

theorem removeTile_spans (split : Axis) (before after : List (Node Leaf)) (tile : Leaf) (size : Axis → Nat)
    (tiles : Tiles (.split split (before ++ .leaf tile :: after)) size) (axis : Axis) :
    Spans axis (collapse split (widenNeighbour split before.length (tile.extent split + 1) (before ++ after)))
      (size axis) := by
  obtain ⟨several, each, total⟩ := Spans.along_iff.mp (tiles.spans split)
  have limit := tiles.bound split
  simp only [List.length_append, List.length_cons] at several
  have nonempty : before ++ after ≠ [] := by
    rw [← List.length_pos_iff_ne_nil, List.length_append]
    omega
  simp only [List.map_append, List.map_cons, List.sum_append, List.sum_cons, tiledSize_leaf, List.length_append,
    List.length_cons] at total
  obtain ⟨wide, sum, length⟩ := widenNeighbour_along split before.length (tile.extent split + 1) (before ++ after)
    nonempty
    (fun child member => each child (by rcases List.mem_append.mp member with left | right <;> simp [*]))
    (by simp only [List.map_append, List.sum_append]; omega)
  refine collapse_spans axis split _ _ ?_ ?_ ?_
  · rw [← List.length_pos_iff_ne_nil, length]
    exact List.length_pos_iff_ne_nil.mpr nonempty
  · rintro rfl
    refine ⟨wide, ?_⟩
    rw [sum, length]
    simp only [List.map_append, List.sum_append, List.length_append]
    omega
  · intro differs
    refine widenNeighbour_across split _ _ _ axis differs _ fun child member => ?_
    exact ((Spans.across_iff differs).mp (tiles.spans axis)).2 child
      (by rcases List.mem_append.mp member with left | right <;> simp [*])

theorem removeLeaf_correct (pane : PaneId) (node : Node Leaf) (size : Axis → Nat) (tiles : Tiles node size) :
    match removeLeaf pane node with
    | none => ∃ leaf : Leaf, node = .leaf leaf ∧ leaf.pane = pane
    | some left => Tiles left size ∧ left.panes = node.panes.erase pane := by
  induction node generalizing size with
  | leaf leaf =>
    rw [removeLeaf_leaf]
    by_cases same : leaf.pane = pane
    · simp [same]
    · simpa [same] using tiles
  | split split children ih =>
    by_cases member : pane ∈ (Node.split split children).panes
    · obtain ⟨before, child, after, rfl, here, earlier⟩ := first_holder pane split children member
      have erased := erase_panes before after child pane here earlier
      rw [removeLeaf_split pane split before after child here earlier, panes_split, erased]
      match child with
      | .leaf tile =>
        have own : pane = tile.pane := by simpa using here
        refine ⟨⟨fun axis => removeTile_spans split before after tile size tiles axis, tiles.bound⟩, ?_⟩
        rw [collapse_panes, widenNeighbour_panes]
        simp [own]
      | .split inner below =>
        have result := ih (.split inner below) (by simp)
        have kept := result (Function.update size split (tiledSize split (.split inner below)))
          (child_tiles split before after (.split inner below) size tiles)
        cases left : removeLeaf pane (.split inner below) with
        | none => simp [left] at kept
        | some node =>
          rw [left] at kept
          refine ⟨⟨fun axis => ?_, tiles.bound⟩, ?_⟩
          · exact replace_spans split before after (.split inner below) size tiles node kept.1 axis
          · rw [collapse_panes]
            simp [kept.2]
    · rw [removeLeaf_absent pane split children member]
      exact ⟨tiles, (List.erase_of_not_mem member).symm⟩

end Kido.Tiling
