import Kido.Client.Divider

set_option autoImplicit false

namespace Kido.Tiling.Sizing

theorem spread_leaf (leaf : DraftLeaf) (cols rows : Nat) :
    spread (.leaf leaf) cols rows = .leaf { leaf with cols := cells cols, rows := cells rows } := by
  simp [spread]

theorem spread_split (split : Axis) {children : List Tree} (some_ : children ≠ []) (cols rows : Nat) :
    spread (.split split children) cols rows =
      .split split ((children.zip (even children.length (pick split cols rows - (children.length - 1)))).map fun pair =>
        spread pair.1 (childCols split pair.2 cols) (childRows split pair.2 rows)) := by
  have count : max children.length 1 = children.length := max_eq_left (List.length_pos_iff_ne_nil.2 some_)
  have pairs (room : Nat) : children.zip (even children.length room) =
      children.zipIdx.map fun pair => (pair.1, room / children.length + if pair.2 < room % children.length then 1 else 0) := by
    rw [even, List.zip_map_right, List.zipIdx_eq_zip_range']
    simp only [List.range_eq_range']
    rfl
  have folded : Node.fold _ _ = spread := rfl
  rw [← folded, Node.fold_split, folded, pairs, List.map_map, List.zipIdx_map]
  simp only [List.length_map, count, List.map_map, Node.split.injEq, true_and]
  refine List.map_congr_left fun pair _ => ?_
  cases split <;> rfl

-- The equal parts that a node hands out leave a cell for each leaf.
inductive Spreads (axis : Axis) : Node Leaf → Nat → Prop where
  | leaf (leaf : Leaf) (wanted : Nat) (some_ : 1 ≤ wanted) : Spreads axis (.leaf leaf) wanted
  | along (children : List (Node Leaf)) (wanted : Nat)
      (each : ∀ pair ∈ children.zip (even children.length (wanted - (children.length - 1))), Spreads axis pair.1 pair.2) :
      Spreads axis (.split axis children) wanted
  | across (split : Axis) (other : split ≠ axis) (children : List (Node Leaf)) (wanted : Nat)
      (each : ∀ child ∈ children, Spreads axis child wanted) : Spreads axis (.split split children) wanted

theorem Spreads.positive {axis : Axis} {node : Node Leaf} {n : Nat} (spreads : Spreads axis node n) (branching : Branching node) :
    1 ≤ n := by
  induction spreads with
  | leaf leaf wanted some_ => exact some_
  | along children wanted each ih =>
    cases branching with
    | split _ _ several below =>
      have length := even_length children.length (wanted - (children.length - 1))
      have total := even_sum (by omega : 0 < children.length) (wanted - (children.length - 1))
      have parts : children.zip (even children.length (wanted - (children.length - 1))) ≠ [] := by
        refine List.ne_nil_of_length_pos ?_
        rw [List.length_zip]
        omega
      obtain ⟨pair, inside⟩ := List.exists_mem_of_ne_nil _ parts
      have one := ih pair inside (below pair.1 (List.of_mem_zip inside).1)
      have share := List.single_le_sum (fun size _ => Nat.zero_le size) _ (List.of_mem_zip inside).2
      omega
  | across split other children wanted each ih =>
    cases branching with
    | split _ _ several below =>
      obtain ⟨child, inside⟩ := List.exists_mem_of_ne_nil children (List.ne_nil_of_length_pos (by omega))
      exact ih child inside (below child inside)

-- A tree with the panes of another has equal parts wherever they leave a cell for each leaf.
structure Levelled (before after : Node Leaf) (cols rows : Nat) : Prop where
  panes : after.map Leaf.pane = before.map Leaf.pane
  spans : ∀ axis, Spreads axis before (pick axis cols rows) → Spans axis after (pick axis cols rows)

theorem part_bounds {split : Axis} {children : List (Node Leaf)} (several : 2 ≤ children.length) {cols rows : Nat}
    (wide : cols ≤ maxDimension) (tall : rows ≤ maxDimension) {pair : Node Leaf × Nat}
    (inside : pair ∈ children.zip (even children.length (pick split cols rows - (children.length - 1)))) :
    childCols split pair.2 cols ≤ maxDimension ∧ childRows split pair.2 rows ≤ maxDimension := by
  have total := even_sum (by omega : 0 < children.length) (pick split cols rows - (children.length - 1))
  have small : pick split cols rows ≤ maxDimension := by cases split <;> assumption
  have part := List.single_le_sum (fun size _ => Nat.zero_le size) _ (List.of_mem_zip inside).2
  have share : pair.2 ≤ maxDimension := by omega
  cases split with
  | horizontal => exact ⟨share, tall⟩
  | vertical => exact ⟨wide, share⟩

theorem spread_children {split : Axis} {children : List (Node Leaf)} (several : 2 ≤ children.length)
    (below : ∀ child ∈ children, Branching child) {cols rows : Nat}
    (part : ∀ pair ∈ children.zip (even children.length (pick split cols rows - (children.length - 1))), ∃ after,
      spread (pair.1.map Leaf.draft) (childCols split pair.2 cols) (childRows split pair.2 rows) = after.map Leaf.draft ∧
        Levelled pair.1 after (childCols split pair.2 cols) (childRows split pair.2 rows)) :
    ∃ parts, spread ((Node.split split children).map Leaf.draft) cols rows = (Node.split split parts).map Leaf.draft ∧
      Levelled (.split split children) (.split split parts) cols rows ∧
        (Spreads split (.split split children) (pick split cols rows) →
          parts.map (tiledSize split) = even children.length (pick split cols rows - (children.length - 1))) := by
  have some_ : children ≠ [] := List.ne_nil_of_length_pos (by omega)
  have length := even_length children.length (pick split cols rows - (children.length - 1))
  have total := even_sum (by omega : 0 < children.length) (pick split cols rows - (children.length - 1))
  generalize shares : even children.length (pick split cols rows - (children.length - 1)) = parts at length total part ⊢
  have : Inhabited (Node Leaf) := ⟨.split .horizontal []⟩
  choose! after same levelled using part
  have firsts : (children.zip parts).map Prod.fst = children := List.map_fst_zip (by omega)
  have seconds : (children.zip parts).map Prod.snd = parts := List.map_snd_zip (by omega)
  have count : ((children.zip parts).map after).length = children.length := by
    rw [List.length_map, List.length_zip, length, min_self]
  have spans (axis : Axis) (pair : Node Leaf × Nat) (inside : pair ∈ children.zip parts)
      (own : Spreads axis pair.1 (if split = axis then pair.2 else pick axis cols rows)) :
      Spans axis (after pair) (if split = axis then pair.2 else pick axis cols rows) := by
    have there := (levelled pair inside).spans axis
    rw [pick_child] at there
    exact there own
  have sizes (each : ∀ pair ∈ children.zip parts, Spreads split pair.1 pair.2) :
      ((children.zip parts).map after).map (tiledSize split) = parts := by
    conv_rhs => rw [← seconds]
    rw [List.map_map]
    refine List.map_congr_left fun pair inside => ?_
    have own := spans split pair inside
    rw [if_pos rfl] at own
    exact (own (each pair inside)).tiled
  refine ⟨(children.zip parts).map after, ?_, ⟨?_, fun axis spreads => ?_⟩, fun spreads => ?_⟩
  · rw [Node.map_split, spread_split split (by simpa using some_), List.length_map, shares, List.zip_map_left, List.map_map,
      Node.map_split, List.map_map]
    exact congrArg _ (List.map_congr_left fun pair inside => same pair inside)
  · rw [Node.map_split, Node.map_split, List.map_map]
    conv_rhs => rw [← firsts, List.map_map]
    exact congrArg _ (List.map_congr_left fun pair inside => (levelled pair inside).panes)
  · cases spreads with
    | along _ _ each =>
      rw [shares] at each
      rw [Spans.along_iff, sizes each, count]
      refine ⟨several, fun child inside => ?_, ?_⟩
      · obtain ⟨pair, there, rfl⟩ := List.mem_map.1 inside
        have own := spans split pair there
        rw [if_pos rfl] at own
        rw [(own (each pair there)).tiled]
        exact own (each pair there)
      · have parts_ : children.zip parts ≠ [] := by
          refine List.ne_nil_of_length_pos ?_
          rw [List.length_zip]
          omega
        obtain ⟨pair, inside⟩ := List.exists_mem_of_ne_nil _ parts_
        have one := (each pair inside).positive (below pair.1 (List.of_mem_zip inside).1)
        have share := List.single_le_sum (fun size _ => Nat.zero_le size) _ (List.of_mem_zip inside).2
        omega
    | across _ other _ _ each =>
      rw [Spans.across_iff other, count]
      refine ⟨several, fun child inside => ?_⟩
      obtain ⟨pair, there, rfl⟩ := List.mem_map.1 inside
      have own := spans axis pair there
      rw [if_neg other] at own
      exact own (each pair.1 (List.of_mem_zip there).1)
  · cases spreads with
    | along _ _ each =>
      rw [shares] at each
      exact sizes each
    | across _ other => exact absurd rfl other

theorem spread_draft {tree : Node Leaf} (branching : Branching tree) {cols rows : Nat} (wide : cols ≤ maxDimension)
    (tall : rows ≤ maxDimension) :
    ∃ after, spread (tree.map Leaf.draft) cols rows = after.map Leaf.draft ∧ Levelled tree after cols rows := by
  induction branching generalizing cols rows with
  | leaf leaf =>
    refine ⟨.leaf ⟨leaf.pane, ⟨max cols 1, le_max_right _ _, max_le wide (by decide)⟩, ⟨max rows 1, le_max_right _ _,
      max_le tall (by decide)⟩⟩, ?_, by simp, fun axis spreads => ?_⟩
    · rw [Node.map_leaf, Node.map_leaf, spread_leaf, cells_is wide, cells_is tall]
      rfl
    · cases spreads with
      | leaf _ _ some_ =>
        rw [Spans.leaf_iff]
        cases axis with
        | horizontal => exact max_eq_left some_
        | vertical => exact max_eq_left some_
  | split split children several each ih =>
    obtain ⟨parts, same, levelled, -⟩ := spread_children several each fun pair inside =>
      ih pair.1 (List.of_mem_zip inside).1 (part_bounds several wide tall inside).1 (part_bounds several wide tall inside).2
    exact ⟨_, same, levelled⟩

theorem spread_even {split : Axis} {children : List (Node Leaf)} (branching : Branching (.split split children)) {cols rows : Nat}
    (wide : cols ≤ maxDimension) (tall : rows ≤ maxDimension) :
    ∃ parts, spread ((Node.split split children).map Leaf.draft) cols rows = (Node.split split parts).map Leaf.draft ∧
      Levelled (.split split children) (.split split parts) cols rows ∧
        (Spreads split (.split split children) (pick split cols rows) →
          parts.map (tiledSize split) = even children.length (pick split cols rows - (children.length - 1))) := by
  cases branching with
  | split _ _ several each =>
    exact spread_children several each fun pair inside => spread_draft (each pair.1 (List.of_mem_zip inside).1)
      (part_bounds several wide tall inside).1 (part_bounds several wide tall inside).2

section Find

variable {pane : PaneId}

theorem equalizeIn_split (split : Axis) (children : List Tree) :
    equalizeIn pane (.split split children) =
      if children.any fun child => is child pane then
        (true, spread (.split split children) (((Node.split split children).known .horizontal).getD 1)
          (((Node.split split children).known .vertical).getD 1))
      else
        ((equalizeFirst (children.map fun child => (child, equalizeIn pane child))).1,
          .split split (equalizeFirst (children.map fun child => (child, equalizeIn pane child))).2) := by
  have nodes : (children.map fun child => (child, equalizeIn pane child)).map Prod.fst = children := by
    rw [List.map_map]
    exact List.map_id _
  have any : ((children.map fun child => (child, equalizeIn pane child)).any fun child => is child.1 pane) =
      children.any fun child => is child pane := by
    rw [List.any_map]
    rfl
  have folded : Node.para _ _ = equalizeIn pane := rfl
  rw [← folded, Node.para_split]
  simp only [folded, nodes, any]

theorem equalizeFirst_none {children : List (Tree × Bool × Tree)} (none_ : ∀ child ∈ children, child.2.1 = false) :
    equalizeFirst children = (false, children.map Prod.fst) := by
  induction children with
  | nil => rfl
  | cons child rest ih =>
    obtain ⟨node, done, changed⟩ := child
    have first : done = false := none_ _ List.mem_cons_self
    rw [equalizeFirst, first, ih fun other inside => none_ other (List.mem_cons_of_mem _ inside)]
    rfl

theorem equalizeFirst_at {front rest : List (Tree × Bool × Tree)} (before : ∀ child ∈ front, child.2.1 = false) (node changed : Tree) :
    equalizeFirst (front ++ (node, true, changed) :: rest) = (true, front.map Prod.fst ++ changed :: rest.map Prod.fst) := by
  induction front with
  | nil => rfl
  | cons child later ih =>
    obtain ⟨own, done, other⟩ := child
    have first : done = false := before _ List.mem_cons_self
    rw [List.cons_append, equalizeFirst, first, ih fun other inside => before other (List.mem_cons_of_mem _ inside)]
    rfl

theorem is_draft (node : Node Leaf) : is (node.map Leaf.draft) pane = true ↔ ∃ leaf : Leaf, node = .leaf leaf ∧ leaf.pane = pane := by
  cases node with
  | leaf leaf => simp [is]
  | split split children => simp [is]

theorem equalizeIn_absent {tree : Node Leaf} (absent : pane ∉ tree.panes) :
    equalizeIn pane (tree.map Leaf.draft) = (false, tree.map Leaf.draft) := by
  induction tree with
  | leaf leaf => simp [equalizeIn]
  | split split children ih =>
    have each (child : Node Leaf) (inside : child ∈ children) : pane ∉ child.panes := by
      intro there
      rw [Node.panes_split] at absent
      exact absent (List.mem_flatMap_of_mem inside there)
    have notOwn : ¬((children.map (Node.map Leaf.draft)).any fun child => is child pane) = true := by
      rw [List.any_map]
      intro any
      obtain ⟨child, inside, held⟩ := List.any_eq_true.1 any
      obtain ⟨leaf, rfl, same⟩ := (is_draft child).1 held
      exact each _ inside (by simp [same])
    have none_ : equalizeFirst ((children.map (Node.map Leaf.draft)).map fun child => (child, equalizeIn pane child)) =
        (false, children.map (Node.map Leaf.draft)) := by
      rw [equalizeFirst_none, List.map_map]
      · exact congrArg _ (List.map_id _)
      · intro child inside
        obtain ⟨draft, there, rfl⟩ := List.mem_map.1 inside
        obtain ⟨own, here, rfl⟩ := List.mem_map.1 there
        rw [ih own here (each own here)]
    rw [Node.map_split, equalizeIn_split, if_neg notOwn, none_]

theorem equalizeIn_hole {split : Axis} {children : List (Node Leaf)} {tree node : Node Leaf} {plug : Node Leaf → Node Leaf}
    (hole : Hole (.split split children) tree plug) (distinct : tree.panes.Nodup) {leaf : Leaf} (own : .leaf leaf ∈ children)
    (spreads : equalizeIn leaf.pane ((Node.split split children).map Leaf.draft) = (true, node.map Leaf.draft)) :
    equalizeIn leaf.pane (tree.map Leaf.draft) = (true, (plug node).map Leaf.draft) := by
  have held : leaf.pane ∈ (Node.split split children).panes := by
    rw [Node.panes_split]
    exact List.mem_flatMap_of_mem own (by simp)
  induction hole with
  | here => exact spreads
  | @inside above front child back plug deeper ih =>
    have below := ih (child_distinct distinct)
    have there := deeper.panes.subset held
    rw [Node.panes_split, List.flatMap_append, List.flatMap_cons] at distinct
    have beside (other : Node Leaf) (inside : other ∈ front ∨ other ∈ back) : leaf.pane ∉ other.panes := by
      intro also
      rcases inside with inside | inside
      · exact (List.nodup_append.1 distinct).2.2 _ (List.mem_flatMap_of_mem inside also) _ (List.mem_append_left _ there) rfl
      · exact (List.nodup_append.1 distinct.of_append_right).2.2 _ there _ (List.mem_flatMap_of_mem inside also) rfl
    have notOwn : ¬(((front ++ child :: back).map (Node.map Leaf.draft)).any fun child => is child leaf.pane) = true := by
      rw [List.any_map]
      intro any
      obtain ⟨other, inside, isPane⟩ := List.any_eq_true.1 any
      obtain ⟨tile, rfl, same⟩ := (is_draft other).1 isPane
      have holds : leaf.pane ∈ (Node.leaf tile).panes := by simp [same]
      rcases List.mem_append.1 inside with inside | inside
      · exact beside _ (.inl inside) holds
      · rcases List.mem_cons.1 inside with rfl | inside
        · cases deeper
        · exact beside _ (.inr inside) holds
    rw [Node.map_split, equalizeIn_split, if_neg notOwn]
    simp only [List.map_append, List.map_cons, below]
    have before : ∀ child ∈ (front.map (Node.map Leaf.draft)).map fun child => (child, equalizeIn leaf.pane child), child.2.1 = false := by
      intro child inside
      obtain ⟨draft, there, rfl⟩ := List.mem_map.1 inside
      obtain ⟨own, here, rfl⟩ := List.mem_map.1 there
      rw [equalizeIn_absent (beside own (.inl here))]
    rw [equalizeFirst_at before]
    simp [Function.comp_def]

end Find

theorem fit_along {split : Axis} {parts : List (Node Leaf)} {cols rows : Nat} (branching : Branching (.split split parts))
    (fits : Fits ((Node.split split parts).map Leaf.toRaw) cols rows) :
    ∃ children, fit ((Node.split split parts).map Leaf.toRaw) cols rows = .split split children ∧
      (Spans split (.split split parts) (pick split cols rows) → children.map (tiledSize split) = parts.map (tiledSize split)) := by
  have raws : Branching ((Node.split split parts).map Leaf.toRaw) := branching_map.2 branching
  rw [Node.map_split] at fits raws ⊢
  rw [fit_split]
  refine ⟨_, rfl, fun spans => ?_⟩
  obtain ⟨several, each, total⟩ := Spans.along_iff.1 spans
  have along : shares (parts.map (Node.map Leaf.toRaw)) split (pick split cols rows) = parts.map (tiledSize split) := by
    refine shares_known spans ?_ ?_
    · rw [List.map_map]
      refine List.map_congr_left fun child member => ?_
      simp [known_toRaw, (each child member).known]
    · rw [List.map_map]
      exact List.map_congr_left fun child _ => Node.minimum_map split Leaf.toRaw child
  have children : ∀ child ∈ parts.map (Node.map Leaf.toRaw), Branching child := by
    cases raws with
    | split _ _ _ below => exact below
  have seconds : ((parts.map (Node.map Leaf.toRaw)).zip (shares (parts.map (Node.map Leaf.toRaw)) split (pick split cols rows))).map
      Prod.snd = parts.map (tiledSize split) := by
    rw [List.map_snd_zip (by rw [shares_length]), along]
  conv_rhs => rw [← seconds]
  rw [List.map_map]
  refine List.map_congr_left fun pair member => ?_
  have part := (fits.child children member).spans (children pair.1 (List.of_mem_zip member).1) split
  rw [pick_child, if_pos rfl] at part
  exact part.tiled

-- An equalized split is as large as before, its children have the same extent but for one cell where their minimums allow it, and
-- no other pane has another size.
structure Equalized (split : Axis) (children : List (Node Leaf)) (before after : Layout) : Prop where
  here : ∃ window ∈ after.windowList, ∃ children' plug, Hole (.split split children') window.tree plug ∧
    children'.map Node.panes = children.map Node.panes ∧
      (∀ axis, Spans axis (.split split children') (tiledSize axis (.split split children))) ∧ EvenSplit split split children'
  others : ∀ size : PaneId × Cells × Cells, size.1 ∉ (Node.split split children).panes → (size ∈ sizes after ↔ size ∈ sizes before)

-- On each axis, the equal parts that the split hands down leave a cell for each leaf, or there is nothing beside the split and its
-- children cannot have equal parts.
def Equalizable (window : Window) (split : Axis) (children : List (Node Leaf)) : Prop :=
  ∀ axis, Spreads axis (.split split children) (tiledSize axis (.split split children)) ∨
    (tiledSize axis (.split split children) = window.size axis ∧
      (axis = split → ∃ child ∈ children, (children.map (tiledSize split)).sum / children.length < child.minimum split))

section Put

variable {layout : Layout} {window : Window} {split : Axis} {children : List (Node Leaf)} {plug : Node Leaf → Node Leaf} {leaf : Leaf}

theorem apply_equalize (wellFormed : layout.WellFormed) (inside : window ∈ layout.windowList)
    (hole : Hole (.split split children) window.tree plug) (own : .leaf leaf ∈ children) {width height : Nat}
    (wide : Spans .horizontal (.split split children) width) (tall : Spans .vertical (.split split children) height) {node : Node Leaf}
    (spreads : spread ((Node.split split children).map Leaf.draft) width height = node.map Leaf.draft) :
    apply layout.draft (.equalize leaf.pane) =
      .ok (layout.draftWith (draftOr window.id (treeDraft window window.zoom (plug node)))) := by
  have distinct := (List.nodup_flatMap.1 wellFormed.panes).1 window inside
  have any : ((children.map (Node.map Leaf.draft)).any fun child => is child leaf.pane) = true := by
    rw [List.any_map]
    exact List.any_eq_true.2 ⟨_, own, (is_draft _).2 ⟨leaf, rfl, rfl⟩⟩
  have changed : equalizeIn leaf.pane ((Node.split split children).map Leaf.draft) = (true, node.map Leaf.draft) := by
    rw [← spreads, Node.map_split, equalizeIn_split, if_pos any, ← Node.map_split, known_draft, known_draft, wide.known, tall.known]
    rfl
  have whole := equalizeIn_hole hole distinct.of_append_left own changed
  have held : leaf.pane ∈ window.tree.panes := by
    refine hole.panes.subset ?_
    rw [Node.panes_split]
    exact List.mem_flatMap_of_mem own (by simp)
  refine inWindow_draft wellFormed inside (List.mem_append_left _ held) ?_
  rw [show window.draft.tree = window.tree.map Leaf.draft from rfl, whole]
  rfl

end Put

-- The split that holds a pane is equalized in place, when its equal parts leave a cell for each leaf, or there is nothing beside
-- it.
theorem equalize_local (ops : List Op) {window : Window} (inside : window ∈ (World.run ops).document.layout.windowList)
    {split : Axis} {children : List (Node Leaf)} {plug : Node Leaf → Node Leaf} (hole : Hole (.split split children) window.tree plug)
    {leaf : Leaf} (own : .leaf leaf ∈ children) (equalizable : Equalizable window split children) (newWindow : Option Size)
    (shell : Option Name) :
    let document := (World.run ops).document
    ∃ draft after, apply document.layout.draft (.equalize leaf.pane) = .ok draft ∧
      document.putWithShell ⟨document.revision, draft⟩ newWindow shell = (.ok [], after) ∧
        Equalized split children document.layout after.layout := by
  intro document
  have wellFormed := (run_wellFormed ops).1
  have sound := (wellFormed.windows window inside).toSound
  obtain ⟨width, narrow, wide⟩ := hole.inner_spans (sound.tiles .horizontal)
  obtain ⟨height, short, tall⟩ := hole.inner_spans (sound.tiles .vertical)
  have spans (axis : Axis) : Spans axis (.split split children) (pick axis width height) := by
    cases axis
    · exact wide
    · exact tall
  have branching := (spans split).branching
  obtain ⟨parts, same, levelled, even_⟩ := spread_even branching (narrow.trans (Cells.bound _)) (short.trans (Cells.bound _))
  have applied := apply_equalize wellFormed inside hole own wide tall same
  have exact_ (axis : Axis) (spreads : Spreads axis (.split split children) (tiledSize axis (.split split children))) :
      Spans axis (.split split parts) (pick axis width height) := by
    rw [(spans axis).tiled] at spreads
    exact levelled.spans axis spreads
  obtain ⟨after, put, layout⟩ := put_tree wellFormed inside (hole.map_eq Leaf.pane levelled.panes) (.inr rfl) newWindow shell
  have fills (axis : Axis) : (Node.split split parts).known axis = (Node.split split children).known axis ∨
      Spans axis (.split split children) (pick axis window.cols.get window.rows.get) := by
    rcases equalizable axis with spreads | ⟨whole, -⟩
    · refine .inl ?_
      rw [(exact_ axis spreads).known, (spans axis).known]
    · refine .inr ?_
      rw [pick_size, ← whole, (spans axis).tiled]
      exact spans axis
  obtain ⟨cols, rows, extents, fitted⟩ := hole.fit levelled.panes (fun axis => by rw [pick_size]; exact sound.tiles axis) fills
  have extent (axis : Axis) : pick axis cols rows = pick axis width height := (extents axis).tiled.symm.trans (spans axis).tiled
  have partsBranching : Branching (.split split parts) := by
    rwa [← branching_map (f := Leaf.pane), levelled.panes, branching_map]
  have fits : Fits ((Node.split split parts).map Leaf.toRaw) cols rows := by
    constructor
    · intro axis
      have least := (extents axis).minimum_le
      rwa [← Node.minimum_map axis Leaf.pane, ← levelled.panes, Node.minimum_map, ← Node.minimum_map axis Leaf.toRaw] at least
    · intro axis
      rw [extent]
      cases axis
      · exact narrow.trans (Cells.bound _)
      · exact short.trans (Cells.bound _)
    · exact fun axis => (extents axis).positive
  obtain ⟨children', is, along⟩ := fit_along partsBranching fits
  have tiles (axis : Axis) : Spans axis (.split split children') (tiledSize axis (.split split children)) := by
    have filled := fits.spans (branching_map.2 partsBranching) axis
    rwa [is, ← (extents axis).tiled] at filled
  have shape : children'.map (Node.map Leaf.pane) = children.map (Node.map Leaf.pane) := by
    have fitShape := fit_shape ((Node.split split parts).map Leaf.toRaw) cols rows
    rw [map_map_node] at fitShape
    have whole : (Node.split split children').map Leaf.pane = (Node.split split children).map Leaf.pane := by
      rw [← levelled.panes, ← is]
      exact fitShape
    rw [Node.map_split, Node.map_split] at whole
    exact (Node.split.inj whole).2
  have panes : children'.map Node.panes = children.map Node.panes := by
    have leaves := congrArg (List.map Node.leaves) shape
    simp only [List.map_map, Function.comp_def, Node.leaves_map] at leaves
    exact leaves
  have minimums : children'.map (Node.minimum split) = children.map (Node.minimum split) := by
    have mins := congrArg (List.map (Node.minimum split)) shape
    simp only [List.map_map, Function.comp_def, Node.minimum_map] at mins
    exact mins
  have count : children'.length = children.length := by simpa using congrArg List.length shape
  refine ⟨_, after, applied, put, ⟨withTree window window.zoom (plug (.split split children')), ?_, children', plug,
    hole.plugged _, panes, tiles, ?_⟩, ?_⟩
  · rw [layout, fitted, is]
    exact withTree_mem inside window.zoom
  · intro allows first inFirst second inSecond
    rcases equalizable split with spreads | ⟨-, large⟩
    · have sizes := (along (by rw [extent]; exact exact_ split spreads)).trans (even_ (by rwa [← (spans split).tiled]))
      have one := List.mem_map_of_mem (f := tiledSize split) inFirst
      have two := List.mem_map_of_mem (f := tiledSize split) inSecond
      rw [sizes] at one two
      have := even_bounds one
      have := even_bounds two
      omega
    · obtain ⟨child, there, more⟩ := large rfl
      have least := List.mem_map_of_mem (f := Node.minimum split) there
      rw [← minimums] at least
      obtain ⟨child', there', same'⟩ := List.mem_map.1 least
      have small := allows rfl child' there'
      have now := (Spans.along_iff.1 (tiles split)).2.2
      have was := (Spans.along_iff.1 (spans split)).2.2
      rw [(spans split).tiled] at now
      have sums : (children'.map (tiledSize split)).sum = (children.map (tiledSize split)).sum := by omega
      rw [sums, count, same'] at small
      omega
  · intro size outside
    rw [layout, fitted, is]
    refine sizes_withTree wellFormed inside window.zoom (beside_hole hole ?_)
    have insidePanes : (Node.split split children').panes = (Node.split split children).panes := by
      rw [Node.panes_split, Node.panes_split, List.flatMap_def, List.flatMap_def, panes]
    exact iff_of_false (leafSize_absent (insidePanes ▸ outside)) (leafSize_absent outside)

def one : Cells := .clamped 1

-- Four panes of one cell, three of them in a split of their own, beside two of five cells.
def crowdedPut : Op := .put ⟨.first, ⟨[⟨none, singleName, .empty, [{
  id := none
  name := some singleWindowName
  vars := .empty
  cols := some ⟨19, by decide, by decide⟩
  rows := some five
  cellPx := none
  zoom := none
  tree := .split .horizontal [
    .split .horizontal [
      .leaf ⟨.new freshPane, some one, none⟩,
      .split .horizontal [
        .leaf ⟨.new freshPane, some one, none⟩,
        .leaf ⟨.new freshPane, some one, none⟩,
        .leaf ⟨.new freshPane, some one, none⟩]],
    .leaf ⟨.new freshPane, some five, none⟩,
    .leaf ⟨.new freshPane, some five, none⟩]
  floats := [] }]⟩]⟩⟩
  none none

def crowd : List (Node Leaf) := [paneOf 2 one, paneOf 3 one, paneOf 4 one]

def crowded : List (Node Leaf) := [paneOf 1 one, .split .horizontal crowd]

def crowdedPlug (node : Node Leaf) : Node Leaf := .split .horizontal ([] ++ node :: [paneOf 5 five, paneOf 6 five])

def crowdedWindow : Window where
  id := ⟨1⟩
  name := singleWindowName
  vars := .empty
  cols := ⟨19, by decide, by decide⟩
  rows := five
  cellPx := none
  zoom := none
  focus := ⟨1⟩
  tree := crowdedPlug (.split .horizontal crowded)
  floats := []

theorem crowdedPut_windows : (World.run [crowdedPut]).document.layout.windowList = [crowdedWindow] := by decide +kernel

theorem crowded_hole : Hole (.split .horizontal crowded) crowdedWindow.tree crowdedPlug :=
  .inside .horizontal [] [paneOf 5 five, paneOf 6 five] .here

theorem crowd_hole : Hole (.split .horizontal crowd) crowdedWindow.tree
    fun node => crowdedPlug (.split .horizontal ([paneOf 1 one] ++ node :: [])) :=
  .inside .horizontal [] [paneOf 5 five, paneOf 6 five] (.inside .horizontal [paneOf 1 one] [] .here)

-- The three panes stay as they are.
theorem equalize_crowd : ∃ draft after, apply (World.run [crowdedPut]).document.layout.draft (.equalize ⟨2⟩) = .ok draft ∧
    (World.run [crowdedPut]).document.putWithShell ⟨(World.run [crowdedPut]).document.revision, draft⟩ none none = (.ok [], after) ∧
      Equalized .horizontal crowd (World.run [crowdedPut]).document.layout after.layout := by
  have inside : crowdedWindow ∈ (World.run [crowdedPut]).document.layout.windowList := by
    rw [crowdedPut_windows]
    exact List.mem_cons_self
  have own : Node.leaf ⟨⟨2⟩, one, five⟩ ∈ crowd := List.mem_cons_self
  refine equalize_local [crowdedPut] inside crowd_hole own (fun axis => .inl ?_) none none
  have parts {P : Node Leaf × Nat → Prop} (each : ∀ id, P (paneOf id one, 1)) :
      ∀ pair ∈ crowd.zip (even crowd.length (5 - (crowd.length - 1))), P pair := by
    intro pair there
    have known : pair ∈ [(paneOf 2 one, 1), (paneOf 3 one, 1), (paneOf 4 one, 1)] := there
    simp only [List.mem_cons, List.not_mem_nil, or_false] at known
    rcases known with rfl | rfl | rfl <;> exact each _
  cases axis with
  | horizontal => exact .along crowd 5 (parts fun id => .leaf _ _ le_rfl)
  | vertical =>
    refine .across .horizontal (by decide) crowd 5 fun child there => ?_
    simp only [crowd, List.mem_cons, List.not_mem_nil, or_false] at there
    rcases there with rfl | rfl | rfl <;> exact .leaf _ _ (by decide)

-- What the draft has when the panes are equalized: the three have five cells in a part of three.
def burst : Node Leaf :=
  crowdedPlug (.split .horizontal [paneOf 1 ⟨3, by decide, by decide⟩, .split .horizontal crowd])

theorem crowded_bursts {document : Document} (wellFormed : document.layout.WellFormed)
    (windows : document.layout.windowList = [crowdedWindow]) :
    ∃ draft after, apply document.layout.draft (.equalize ⟨1⟩) = .ok draft ∧
      document.putWithShell ⟨document.revision, draft⟩ none none = (.ok [], after) ∧
        ¬ Equalized .horizontal crowded document.layout after.layout := by
  have inside : crowdedWindow ∈ document.layout.windowList := by
    rw [windows]
    exact List.mem_cons_self
  have sound := (wellFormed.windows _ inside).toSound
  have spans (axis : Axis) : Spans axis (.split .horizontal crowded) (if axis = .horizontal then 7 else 5) := by
    obtain ⟨n, -, there⟩ := crowded_hole.inner_spans (sound.tiles axis)
    have size := there.tiled
    subst n
    cases axis <;> exact there
  have own : Node.leaf ⟨⟨1⟩, one, five⟩ ∈ crowded := List.mem_cons_self
  have spreads : spread ((Node.split .horizontal crowded).map Leaf.draft) 7 5 =
      (Node.split .horizontal [paneOf 1 ⟨3, by decide, by decide⟩, .split .horizontal crowd]).map Leaf.draft := by rfl
  have applied := apply_equalize wellFormed inside crowded_hole own (spans .horizontal) (spans .vertical) spreads
  have fits : crowdedWindow.Sizes (treeDraft crowdedWindow crowdedWindow.zoom burst) := treeDraft_sizes sound (by rfl) (.inr rfl)
  obtain ⟨after, put, layout, -⟩ := put_changed wellFormed inside fits none none
  refine ⟨_, after, applied, put, fun equalized => ?_⟩
  have same := equalized.others (⟨5⟩, five, five) (by decide)
  rw [layout, sizes, sizes, withWindow, mapWindows_windowList, windows] at same
  simp only [List.map_cons, List.map_nil, if_true, List.flatMap_cons, List.flatMap_nil, List.append_nil] at same
  have before : ((⟨5⟩, five, five) : PaneId × Cells × Cells) ∈
      crowdedWindow.tree.leaves.map leafSize ++ crowdedWindow.floats.map fun float => (float.pane, float.cols, float.rows) := by decide
  have now : ((⟨5⟩, five, five) : PaneId × Cells × Cells) ∈
      (fit ((burst.map Leaf.draft).map DraftLeaf.raw) 19 5).leaves.map leafSize := by
    have there := same.2 before
    rwa [show (crowdedWindow.sized (treeDraft crowdedWindow crowdedWindow.zoom burst)).floats = [] from rfl, List.map_nil,
      List.append_nil] at there
  exact absurd now (by decide)

theorem equalize_bursts : crowdedWindow ∈ (World.run [crowdedPut]).document.layout.windowList ∧
    Hole (.split .horizontal crowded) crowdedWindow.tree crowdedPlug ∧ Node.leaf ⟨⟨1⟩, one, five⟩ ∈ crowded ∧
      ∃ draft after, apply (World.run [crowdedPut]).document.layout.draft (.equalize ⟨1⟩) = .ok draft ∧
        (World.run [crowdedPut]).document.putWithShell ⟨(World.run [crowdedPut]).document.revision, draft⟩ none none = (.ok [], after) ∧
          ¬ Equalized .horizontal crowded (World.run [crowdedPut]).document.layout after.layout := by
  refine ⟨?_, crowded_hole, List.mem_cons_self, crowded_bursts (run_wellFormed [crowdedPut]).1 crowdedPut_windows⟩
  rw [crowdedPut_windows]
  exact List.mem_cons_self

end Kido.Tiling.Sizing
