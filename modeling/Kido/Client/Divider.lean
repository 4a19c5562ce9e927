import Kido.Client.Changed
import Kido.Client.Scaled
import Kido.Layout.Handed

set_option autoImplicit false

namespace Kido.Tiling.Sizing

-- Where a divider is put: the wanted extent of the node before it, within what the minimums of both allow.
def dividerAt (axis : Axis) (first second : Node Leaf) (wanted : Nat) : Nat :=
  min (max wanted (first.minimum axis)) (tiledSize axis first + tiledSize axis second - second.minimum axis)

theorem give_draft {axis : Axis} {first second : Node Leaf} {own other : Nat} (one : Spans axis first own) (two : Spans axis second other)
    (wanted : Nat) :
    give (first.map Leaf.draft) (second.map Leaf.draft) axis wanted =
      (setExtent axis (first.map Leaf.draft) (dividerAt axis first second wanted),
        setExtent axis (second.map Leaf.draft) (own + other - dividerAt axis first second wanted)) := by
  have least := one.minimum_le
  have most := two.minimum_le
  rw [give, known_draft, known_draft, one.known, two.known]
  simp only [Node.minimum_map]
  rw [if_neg (by omega), dividerAt, one.tiled, two.tiled]

theorem adjacent_at (front : List Tree) (first second : Tree) (back : List Tree) (axis : Axis) (wanted : Nat) :
    adjacent (front ++ first :: second :: back) front.length axis wanted =
      front ++ (give first second axis wanted).1 :: (give first second axis wanted).2 :: back := by
  have here : (front ++ first :: second :: back)[front.length]? = some first := by simp
  have next : (front ++ first :: second :: back)[front.length + 1]? = some second := by
    rw [List.getElem?_append_right (by omega)]
    simp
  rw [adjacent, here, next]
  simp only
  rw [List.set_append_right _ _ (by omega), Nat.sub_self, List.set_cons_zero, List.set_append_right _ _ (by omega)]
  simp

section Find

variable {L : Type} [Tile L] {pane : PaneId} {child : Node L}

theorem findIdx_child {R : Type} (result : Node L → R) (front back : List (Node L)) (before : ∀ other ∈ front, other.contains pane = false)
    (own : child.contains pane = true) :
    ((front ++ child :: back).map fun node => (node, result node)).findIdx? (fun node => node.1.contains pane) = some front.length := by
  rw [List.findIdx?_map, List.findIdx?_append]
  have none_ : front.findIdx? ((fun node : Node L × R => node.1.contains pane) ∘ fun node => (node, result node)) = none := by
    rw [List.findIdx?_eq_none_iff]
    exact fun other inside => by simp [before other inside]
  rw [none_, List.findIdx?_cons]
  simp [own]

end Find

section ResizeBy

variable {pane : PaneId} {edge : Edge} {delta : Nat} {front : List Tree} {child node : Tree} {inside : Bool}

theorem resizeByIn_split (split : Axis) (back : List Tree) (before : ∀ other ∈ front, other.contains pane = false) (own : child.contains pane = true)
    (deeper : resizeByIn pane edge delta child = (some inside, node)) :
    resizeByIn pane edge delta (.split split (front ++ child :: back)) =
      if inside || split ≠ (along edge).1 then (some inside, .split split (front ++ node :: back))
      else
        match if front.length + 1 < (front ++ node :: back).length then some front.length
          else if front.length = 0 then none else some (front.length - 1) with
        | none => (none, .split split (front ++ node :: back))
        | some first =>
          match (front ++ node :: back)[first]?.bind fun node => node.known (along edge).1 with
          | none => (none, .split split (front ++ node :: back))
          | some size =>
            (some true, .split split (adjacent (front ++ node :: back) first (along edge).1
              (if (along edge).2 then size - delta else size + delta))) := by
  have at_ : ((front ++ child :: back).map fun node => (node, resizeByIn pane edge delta node))[front.length]? =
      some (child, some inside, node) := by
    rw [List.getElem?_map]
    simp [deeper]
  have nodes : (((front ++ child :: back).map fun node => (node, resizeByIn pane edge delta node)).map Prod.fst).set front.length node =
      front ++ node :: back := by
    rw [List.map_map]
    change ((front ++ child :: back).map id).set front.length node = _
    rw [List.map_id, List.set_append_right _ _ (by omega), Nat.sub_self, List.set_cons_zero]
  have found := findIdx_child (fun node => resizeByIn pane edge delta node) front back before own
  have folded : Node.para _ _ = resizeByIn pane edge delta := rfl
  have value : resizeByIn pane edge delta (.split split (front ++ child :: back)) = _ := Node.para_split ..
  simp only [folded, found, at_, nodes] at value
  exact value

end ResizeBy

section Pair

variable {first second : PaneId} {size : Nat} {split : Axis} {front back : List Tree} {child next : Tree}

theorem pairIn_split (before : ∀ other ∈ front, other.contains first = false) (before' : ∀ other ∈ front, other.contains second = false)
    (own : child.contains first = true) (own' : child.contains second = true) :
    pairIn first second size (.split split (front ++ child :: back)) =
      ((pairIn first second size child).1, .split split (front ++ (pairIn first second size child).2 :: back)) := by
  have at_ : ((front ++ child :: back).map fun node => (node, pairIn first second size node))[front.length]? =
      some (child, pairIn first second size child) := by
    rw [List.getElem?_map]
    simp
  have nodes (node : Tree) : (((front ++ child :: back).map fun node => (node, pairIn first second size node)).map Prod.fst).set
      front.length node = front ++ node :: back := by
    rw [List.map_map]
    change ((front ++ child :: back).map id).set front.length node = _
    rw [List.map_id, List.set_append_right _ _ (by omega), Nat.sub_self, List.set_cons_zero]
  have found := findIdx_child (fun node => pairIn first second size node) front back before own
  have found' := findIdx_child (fun node => pairIn first second size node) front back before' own'
  have folded : Node.para _ _ = pairIn first second size := rfl
  rw [← folded, Node.para_split]
  simp only [folded, found, found', at_, nodes, if_true]

theorem pairIn_here (before : ∀ other ∈ front, other.contains first = false)
    (before' : ∀ other ∈ front ++ [child], other.contains second = false) (own : child.contains first = true)
    (own' : next.contains second = true) :
    pairIn first second size (.split split (front ++ child :: next :: back)) =
      (some true, .split split (adjacent (front ++ child :: next :: back) front.length split size)) := by
  have nodes : ((front ++ child :: next :: back).map fun node => (node, pairIn first second size node)).map Prod.fst =
      front ++ child :: next :: back := by
    rw [List.map_map]
    exact List.map_id _
  have found := findIdx_child (fun node => pairIn first second size node) front (next :: back) before own
  have found' := findIdx_child (fun node => pairIn first second size node) (front ++ [child]) back before' own'
  rw [List.append_assoc, List.singleton_append, List.length_append, List.length_singleton] at found'
  have folded : Node.para _ _ = pairIn first second size := rfl
  rw [← folded, Node.para_split]
  simp only [folded, found, found', nodes]
  simp

end Pair

section Descend

variable {pane other : PaneId} {front back : List (Node Leaf)} {child inner tree node : Node Leaf} {plug : Node Leaf → Node Leaf}

theorem contains_child (own : pane ∈ child.panes) : (child.map Leaf.draft).contains pane = true := by
  rw [contains_draft]
  exact (Node.contains_iff_mem_panes pane child).2 own

theorem before_child {split : Axis} (distinct : (Node.split split (front ++ child :: back)).panes.Nodup) (own : pane ∈ child.panes) :
    ∀ other ∈ front.map (Node.map Leaf.draft), other.contains pane = false := by
  intro other inside
  obtain ⟨sibling, there, rfl⟩ := List.mem_map.1 inside
  rw [contains_draft, Bool.eq_false_iff]
  intro held
  rw [Node.panes_split, List.flatMap_append] at distinct
  refine (List.nodup_append.1 distinct).2.2 pane ?_ pane ?_ rfl
  · exact List.mem_flatMap_of_mem there ((Node.contains_iff_mem_panes pane sibling).1 held)
  · exact List.mem_flatMap_of_mem List.mem_cons_self own

theorem child_distinct {split : Axis} (distinct : (Node.split split (front ++ child :: back)).panes.Nodup) : child.panes.Nodup := by
  rw [Node.panes_split] at distinct
  exact (List.nodup_flatMap.1 distinct).1 child (List.mem_append_right _ List.mem_cons_self)

theorem resizeByIn_hole (hole : Hole inner tree plug) (distinct : tree.panes.Nodup) (own : pane ∈ inner.panes) {edge : Edge} {delta : Nat}
    (changed : resizeByIn pane edge delta (inner.map Leaf.draft) = (some true, node.map Leaf.draft)) :
    resizeByIn pane edge delta (tree.map Leaf.draft) = (some true, (plug node).map Leaf.draft) := by
  induction hole with
  | here => exact changed
  | inside split front back deeper ih =>
    have below := ih (child_distinct distinct)
    have here := contains_child (deeper.panes.subset own)
    rw [Node.map_split, List.map_append, List.map_cons,
      resizeByIn_split _ _ (before_child distinct (deeper.panes.subset own)) here below]
    simp

theorem pairIn_hole (hole : Hole inner tree plug) (distinct : tree.panes.Nodup) (one : pane ∈ inner.panes) (two : other ∈ inner.panes)
    {size : Nat} (changed : pairIn pane other size (inner.map Leaf.draft) = (some true, node.map Leaf.draft)) :
    pairIn pane other size (tree.map Leaf.draft) = (some true, (plug node).map Leaf.draft) := by
  induction hole with
  | here => exact changed
  | inside split front back deeper ih =>
    have below := ih (child_distinct distinct)
    rw [Node.map_split, List.map_append, List.map_cons,
      pairIn_split (before_child distinct (deeper.panes.subset one)) (before_child distinct (deeper.panes.subset two))
        (contains_child (deeper.panes.subset one)) (contains_child (deeper.panes.subset two)), below]
    simp

end Descend

-- The pane is in the node, in no split of it along the axis.
inductive Unsplit (axis : Axis) (pane : PaneId) : Node Leaf → Prop where
  | leaf (leaf : Leaf) (same : leaf.pane = pane) : Unsplit axis pane (.leaf leaf)
  | across (split : Axis) (other : split ≠ axis) (front : List (Node Leaf)) {child : Node Leaf} (back : List (Node Leaf))
      (deeper : Unsplit axis pane child) : Unsplit axis pane (.split split (front ++ child :: back))

theorem Unsplit.own {axis : Axis} {pane : PaneId} {node : Node Leaf} (unsplit : Unsplit axis pane node) : pane ∈ node.panes := by
  induction unsplit with
  | leaf leaf same => simp [same]
  | across split other front back deeper ih =>
    rw [Node.panes_split]
    exact List.mem_flatMap_of_mem (List.mem_append_right _ List.mem_cons_self) ih

theorem Unsplit.resizeByIn {edge : Edge} (delta : Nat) {pane : PaneId} {node : Node Leaf} (unsplit : Unsplit (along edge).1 pane node)
    (distinct : node.panes.Nodup) : resizeByIn pane edge delta (node.map Leaf.draft) = (some false, node.map Leaf.draft) := by
  induction unsplit with
  | leaf leaf same =>
    rw [Node.map_leaf, Sizing.resizeByIn, Node.para_leaf]
    simp [is, same]
  | across split other front back deeper ih =>
    have below := ih (child_distinct distinct)
    rw [Node.map_split, List.map_append, List.map_cons, resizeByIn_split _ _ (before_child distinct deeper.own) (contains_child deeper.own) below]
    simp [other]

-- An edit asks for the divider between two neighbours of a split: the first one shall have the wanted extent.
inductive Asks (axis : Axis) (first second : Node Leaf) (back : List (Node Leaf)) : Edit → Nat → Prop where
  | resizeFirst (pane : PaneId) (edge : Edge) (delta : Cells) (same : (along edge).1 = axis) (own : Unsplit axis pane first) :
      Asks axis first second back (.resizeBy pane edge delta)
        (if (along edge).2 then tiledSize axis first - delta.get else tiledSize axis first + delta.get)
  | resizeLast (pane : PaneId) (edge : Edge) (delta : Cells) (same : (along edge).1 = axis) (own : Unsplit axis pane second)
      (last : back = []) :
      Asks axis first second back (.resizeBy pane edge delta)
        (if (along edge).2 then tiledSize axis first - delta.get else tiledSize axis first + delta.get)
  | resizePair (one two : PaneId) (firstSize : Cells) (here : one ∈ first.panes) (there : two ∈ second.panes) :
      Asks axis first second back (.resizePair one two firstSize) firstSize.get

section Asks

variable {axis : Axis} {first second : Node Leaf} {front back : List (Node Leaf)}

def given (axis : Axis) (front back : List (Node Leaf)) (first second : Node Leaf) (wanted : Nat) : Tree :=
  .split axis (front.map (Node.map Leaf.draft) ++
    setExtent axis (first.map Leaf.draft) (dividerAt axis first second wanted) ::
      setExtent axis (second.map Leaf.draft) (tiledSize axis first + tiledSize axis second - dividerAt axis first second wanted) ::
        back.map (Node.map Leaf.draft))

theorem adjacent_draft {own other : Nat} (one : Spans axis first own) (two : Spans axis second other) (wanted : Nat) :
    Node.split axis (adjacent ((front ++ first :: second :: back).map (Node.map Leaf.draft)) front.length axis wanted) =
      given axis front back first second wanted := by
  have there := adjacent_at (front.map (Node.map Leaf.draft)) (first.map Leaf.draft) (second.map Leaf.draft)
    (back.map (Node.map Leaf.draft)) axis wanted
  rw [List.length_map] at there
  rw [List.map_append, List.map_cons, List.map_cons, there, give_draft one two, given, one.tiled, two.tiled]

theorem resizeByIn_first {pane : PaneId} {edge : Edge} {delta : Nat} {own other : Nat} (along_ : (along edge).1 = axis)
    (distinct : (Node.split axis (front ++ first :: second :: back)).panes.Nodup) (unsplit : Unsplit axis pane first)
    (one : Spans axis first own) (two : Spans axis second other) :
    resizeByIn pane edge delta ((Node.split axis (front ++ first :: second :: back)).map Leaf.draft) =
      (some true, given axis front back first second
        (if (along edge).2 then tiledSize axis first - delta else tiledSize axis first + delta)) := by
  subst axis
  have below := unsplit.resizeByIn delta (child_distinct distinct)
  rw [Node.map_split, ← adjacent_draft one two, List.map_append, List.map_cons,
    resizeByIn_split _ _ (before_child distinct unsplit.own) (contains_child unsplit.own) below]
  have known : (first.map Leaf.draft).known (along edge).1 = some (tiledSize (along edge).1 first) := by
    rw [known_draft, one.known, one.tiled]
  simp [known]

theorem resizeByIn_last {pane : PaneId} {edge : Edge} {delta : Nat} {own other : Nat} (along_ : (along edge).1 = axis)
    (distinct : (Node.split axis (front ++ [first, second])).panes.Nodup) (unsplit : Unsplit axis pane second)
    (one : Spans axis first own) (two : Spans axis second other) :
    resizeByIn pane edge delta ((Node.split axis (front ++ [first, second])).map Leaf.draft) =
      (some true, given axis front [] first second
        (if (along edge).2 then tiledSize axis first - delta else tiledSize axis first + delta)) := by
  subst axis
  have shifted : front ++ [first, second] = (front ++ [first]) ++ second :: [] := by simp
  have distinct' := distinct
  rw [shifted] at distinct'
  have below := unsplit.resizeByIn delta (child_distinct distinct')
  have split := resizeByIn_split (along edge).1 [] (before_child distinct' unsplit.own) (contains_child unsplit.own) below
  have known : (first.map Leaf.draft).known (along edge).1 = some (tiledSize (along edge).1 first) := by
    rw [known_draft, one.known, one.tiled]
  rw [Node.map_split, ← adjacent_draft one two]
  simp only [List.map_append, List.map_cons, List.map_nil, List.append_assoc, List.singleton_append] at split ⊢
  rw [split]
  simp [known]

end Asks

-- The divider between two neighbours gives the first one the wanted extent, and no other pane has another size.
structure Moved (axis : Axis) (first second : Node Leaf) (wanted : Nat) (before after : Layout) : Prop where
  divider : ∃ window ∈ after.windowList, ∃ front first' second' back plug,
    Hole (.split axis (front ++ first' :: second' :: back)) window.tree plug ∧ first'.panes = first.panes ∧
      second'.panes = second.panes ∧ Spans axis first' wanted ∧ Spans axis second' (tiledSize axis first + tiledSize axis second - wanted)
  others : ∀ size : PaneId × Cells × Cells, size.1 ∉ first.panes → size.1 ∉ second.panes → (size ∈ sizes after ↔ size ∈ sizes before)

section Moved

variable {layout : Layout} {window : Window} {axis : Axis} {front back : List (Node Leaf)} {first second : Node Leaf}
  {plug : Node Leaf → Node Leaf} {edit : Edit} {wanted : Nat}

theorem apply_asks (wellFormed : layout.WellFormed) (inside : window ∈ layout.windowList)
    (hole : Hole (.split axis (front ++ first :: second :: back)) window.tree plug) (asks : Asks axis first second back edit wanted)
    {own other : Nat} (one : Spans axis first own) (two : Spans axis second other) {node : Node Leaf}
    (changed : given axis front back first second wanted = node.map Leaf.draft) :
    ∃ zoom, (zoom = none ∨ zoom = window.zoom) ∧
      apply layout.draft edit = .ok (layout.draftWith (draftOr window.id (treeDraft window zoom (plug node)))) := by
  have distinct := (List.nodup_flatMap.1 wellFormed.panes).1 window inside
  have tree := distinct.of_append_left
  have inner := hole.panes.nodup tree
  have held {pane : PaneId} (own : pane ∈ first.panes ∨ pane ∈ second.panes) :
      pane ∈ (Node.split axis (front ++ first :: second :: back)).panes := by
    rw [Node.panes_split]
    rcases own with own | own
    · exact List.mem_flatMap_of_mem (List.mem_append_right _ List.mem_cons_self) own
    · exact List.mem_flatMap_of_mem (List.mem_append_right _ (List.mem_cons_of_mem _ List.mem_cons_self)) own
  have tiled {pane : PaneId} (own : pane ∈ window.tree.panes) :
      ¬(window.draft.floats.any fun float => decide (float.pane = .existing pane)) = true := by
    rw [Window.draft, List.any_map]
    rintro any
    obtain ⟨float, there, same⟩ := List.any_eq_true.1 any
    have is : float.pane = pane := by simpa [Float.draft] using same
    refine (List.nodup_append.1 distinct).2.2 pane own pane ?_ rfl
    rw [← is]
    exact List.mem_map_of_mem there
  have resized {pane : PaneId} {edge : Edge} {delta : Cells} (own : pane ∈ first.panes ∨ pane ∈ second.panes)
      (resizes : resizeByIn pane edge delta.get ((Node.split axis (front ++ first :: second :: back)).map Leaf.draft) =
        (some true, node.map Leaf.draft)) :
      apply layout.draft (.resizeBy pane edge delta) = .ok (layout.draftWith (draftOr window.id (treeDraft window none (plug node)))) := by
    have there := hole.panes.subset (held own)
    have whole := resizeByIn_hole hole tree (held own) resizes
    refine inWindow_draft wellFormed inside (List.mem_append_left _ there) ?_
    simp only [tiled there]
    rw [show window.draft.tree = window.tree.map Leaf.draft from rfl, whole]
    rfl
  cases asks with
  | resizeFirst pane edge delta same unsplit =>
    refine ⟨none, .inl rfl, resized (.inl unsplit.own) ?_⟩
    rw [resizeByIn_first same inner unsplit one two, changed]
  | resizeLast pane edge delta same unsplit last =>
    subst last
    refine ⟨none, .inl rfl, resized (.inr unsplit.own) ?_⟩
    rw [resizeByIn_last same inner unsplit one two, changed]
  | resizePair a b size here there =>
    refine ⟨window.zoom, .inr rfl, ?_⟩
    have shifted : front ++ first :: second :: back = (front ++ [first]) ++ second :: back := by simp
    have inner' := inner
    rw [shifted] at inner'
    have before' := before_child inner' there
    rw [List.map_append, List.map_singleton] at before'
    have pair : pairIn a b size.get ((Node.split axis (front ++ first :: second :: back)).map Leaf.draft) =
        (some true, node.map Leaf.draft) := by
      rw [← changed, ← adjacent_draft one two, Node.map_split, List.map_append, List.map_cons, List.map_cons,
        pairIn_here (before_child inner here) before' (contains_child here) (contains_child there), List.length_map]
    have whole := pairIn_hole hole tree (held (.inl here)) (held (.inr there)) pair
    have both := hole.panes.subset (held (.inl here))
    have held' : holds window.draft b = true := (holds_draft window b).2 (List.mem_append_left _ (hole.panes.subset (held (.inr there))))
    refine inWindow_draft wellFormed inside (List.mem_append_left _ both) ?_
    simp only [held', if_true]
    rw [show window.draft.tree = window.tree.map Leaf.draft from rfl, whole]
    rfl

theorem spans_given {n : Nat} (spans : Spans axis (.split axis (front ++ first :: second :: back)) n) {first' second' : Node Leaf}
    {wanted : Nat} (most : wanted ≤ tiledSize axis first + tiledSize axis second) (one : Spans axis first' wanted)
    (two : Spans axis second' (tiledSize axis first + tiledSize axis second - wanted)) :
    Spans axis (.split axis (front ++ first' :: second' :: back)) n := by
  obtain ⟨several, each, total⟩ := Spans.along_iff.1 spans
  rw [Spans.along_iff]
  refine ⟨by simpa using several, fun child inside => ?_, ?_⟩
  · rcases List.mem_append.1 inside with there | there
    · exact each child (List.mem_append_left _ there)
    · rcases List.mem_cons.1 there with rfl | there
      · rw [one.tiled]
        exact one
      · rcases List.mem_cons.1 there with rfl | there
        · rw [two.tiled]
          exact two
        · exact each child (List.mem_append_right _ (List.mem_cons_of_mem _ (List.mem_cons_of_mem _ there)))
  · rw [← total]
    simp only [List.map_append, List.map_cons, List.sum_append, List.sum_cons, one.tiled, two.tiled, List.length_append, List.length_cons]
    omega

theorem dividerAt_le (axis : Axis) (first second : Node Leaf) (wanted : Nat) :
    dividerAt axis first second wanted ≤ tiledSize axis first + tiledSize axis second := by
  rw [dividerAt]
  omega

-- The draft is as large as the split exactly when the parts on the two sides leave a cell for each leaf; else it is larger.
theorem given_exact {n : Nat} (spans : Spans axis (.split axis (front ++ first :: second :: back)) n) (bound : n ≤ maxDimension) :
    (given axis front back first second wanted).known axis = some n ↔
      Scales axis first (dividerAt axis first second wanted) ∧
        Scales axis second (tiledSize axis first + tiledSize axis second - dividerAt axis first second wanted) := by
  obtain ⟨several, each, total⟩ := Spans.along_iff.1 spans
  have most := dividerAt_le axis first second wanted
  simp only [List.map_append, List.map_cons, List.sum_append, List.sum_cons, List.length_append, List.length_cons] at total
  have known (child : Node Leaf) (inside : child ∈ front ++ first :: second :: back) :
      (child.map Leaf.draft).known axis = some (tiledSize axis child) := by
    rw [known_draft, (each child inside).known]
  have others (part : List (Node Leaf)) (there : ∀ child ∈ part, child ∈ front ++ first :: second :: back) :
      (part.map (Node.map Leaf.draft)).filterMap (Node.known axis) = part.map (tiledSize axis) := by
    rw [List.filterMap_map, ← List.filterMap_eq_map]
    exact List.filterMap_congr fun child inside => known child (there child inside)
  have inFront := others front fun child inside => List.mem_append_left _ inside
  have inBack := others back fun child inside => List.mem_append_right _ (List.mem_cons_of_mem _ (List.mem_cons_of_mem _ inside))
  obtain ⟨one, oneKnown, oneLeast, -, oneExact⟩ :=
    setExtent_known (dividerAt axis first second wanted) (each first (by simp)) (by omega)
  obtain ⟨two, twoKnown, twoLeast, -, twoExact⟩ :=
    setExtent_known (tiledSize axis first + tiledSize axis second - dividerAt axis first second wanted)
      (each second (by simp)) (by omega)
  have whole : (given axis front back first second wanted).known axis =
      some ((front.map (tiledSize axis)).sum + (one + (two + (back.map (tiledSize axis)).sum)) + (front.length + (back.length + 1 + 1) - 1)) := by
    simp only [given, Node.known_split, if_true, List.filterMap_append, List.filterMap_cons, oneKnown, twoKnown, inFront, inBack]
    rw [if_neg (by simp)]
    simp only [List.sum_append, List.sum_cons, List.length_append, List.length_cons, List.length_map]
    congr 1
  rw [whole, Option.some.injEq, ← total]
  constructor
  · intro same
    exact ⟨oneExact (by omega), twoExact (by omega)⟩
  · rintro ⟨scales, scales'⟩
    obtain ⟨first', firstDraft, firstScaled⟩ := scales.setExtent (each first (by simp)) (by omega)
    obtain ⟨second', secondDraft, secondScaled⟩ := scales'.setExtent (each second (by simp)) (by omega)
    rw [firstDraft, known_draft, firstScaled.along.known] at oneKnown
    rw [secondDraft, known_draft, secondScaled.along.known] at twoKnown
    have oneIs := Option.some.inj oneKnown
    have twoIs := Option.some.inj twoKnown
    omega

theorem spans_beside {split : Axis} (differs : split ≠ axis) {n : Nat} (spans : Spans axis (.split split (front ++ first :: second :: back)) n)
    {first' second' : Node Leaf} (one : Spans axis first n → Spans axis first' n) (two : Spans axis second n → Spans axis second' n) :
    Spans axis (.split split (front ++ first' :: second' :: back)) n := by
  obtain ⟨several, each⟩ := (Spans.across_iff differs).1 spans
  rw [Spans.across_iff differs]
  refine ⟨by simpa using several, fun child inside => ?_⟩
  rcases List.mem_append.1 inside with there | there
  · exact each child (List.mem_append_left _ there)
  · rcases List.mem_cons.1 there with rfl | there
    · exact one (each first (by simp))
    · rcases List.mem_cons.1 there with rfl | there
      · exact two (each second (by simp))
      · exact each child (List.mem_append_right _ (List.mem_cons_of_mem _ (List.mem_cons_of_mem _ there)))

end Moved

-- A divider is where an edit asked for it once the edit is put, when the parts of the trees on its two sides leave a cell for
-- each leaf.
theorem divider_moves (ops : List Op) {window : Window} (inside : window ∈ (World.run ops).document.layout.windowList) {axis : Axis}
    {front back : List (Node Leaf)} {first second : Node Leaf} {plug : Node Leaf → Node Leaf}
    (hole : Hole (.split axis (front ++ first :: second :: back)) window.tree plug) {edit : Edit} {wanted : Nat}
    (asks : Asks axis first second back edit wanted) (one : Scales axis first (dividerAt axis first second wanted))
    (two : Scales axis second (tiledSize axis first + tiledSize axis second - dividerAt axis first second wanted))
    (newWindow : Option Size) (shell : Option Name) :
    let document := (World.run ops).document
    ∃ draft after, apply document.layout.draft edit = .ok draft ∧
      document.putWithShell ⟨document.revision, draft⟩ newWindow shell = (.ok [], after) ∧
        Moved axis first second (dividerAt axis first second wanted) document.layout after.layout := by
  intro document
  have wellFormed := (run_wellFormed ops).1
  have sound := (wellFormed.windows window inside).toSound
  obtain ⟨m, small, spans⟩ := hole.inner_spans (sound.tiles axis)
  obtain ⟨-, each, total⟩ := Spans.along_iff.1 spans
  have firstSpans := each first (by simp)
  have secondSpans := each second (by simp)
  have narrow : m ≤ maxDimension := small.trans (Cells.bound _)
  have sum : tiledSize axis first + tiledSize axis second ≤ m := by
    rw [← total]
    simp only [List.map_append, List.map_cons, List.sum_append, List.sum_cons]
    omega
  have most := dividerAt_le axis first second wanted
  obtain ⟨first', firstDraft, firstScaled⟩ := one.setExtent firstSpans (by omega)
  obtain ⟨second', secondDraft, secondScaled⟩ := two.setExtent secondSpans (by omega)
  have changed : given axis front back first second wanted = (Node.split axis (front ++ first' :: second' :: back)).map Leaf.draft := by
    rw [given, firstDraft, secondDraft]
    simp
  obtain ⟨zoom, kept, applied⟩ := apply_asks wellFormed inside hole asks firstSpans secondSpans changed
  have panes : (Node.split axis (front ++ first' :: second' :: back)).map Leaf.pane =
      (Node.split axis (front ++ first :: second :: back)).map Leaf.pane := by
    simp only [Node.map_split, List.map_append, List.map_cons, firstScaled.panes, secondScaled.panes]
  have tiles (other : Axis) : Spans other (plug (.split axis (front ++ first' :: second' :: back))) (window.size other) := by
    refine hole.spans (sound.tiles other) fun n whole => ?_
    by_cases same : other = axis
    · subst other
      exact spans_given whole most firstScaled.along secondScaled.along
    · exact spans_beside (Ne.symm same) whole (firstScaled.across other same n) (secondScaled.across other same n)
  obtain ⟨after, put, layout⟩ := put_tree wellFormed inside (hole.map_eq Leaf.pane panes) kept newWindow shell
  rw [fit_filled tiles] at layout
  have firstPanes : first'.panes = first.panes := panes_of_map firstScaled.panes
  have secondPanes : second'.panes = second.panes := panes_of_map secondScaled.panes
  refine ⟨_, after, applied, put, ?_, ?_⟩
  · rw [layout]
    exact ⟨_, withTree_mem inside zoom, front, first', second', back, plug, hole.plugged _, firstPanes, secondPanes,
      firstScaled.along, secondScaled.along⟩
  · intro size notFirst notSecond
    rw [layout]
    refine sizes_withTree wellFormed inside zoom (beside_hole hole ?_)
    have absent {node : Node Leaf} (outside : size.1 ∉ node.panes) := leafSize_absent outside
    simp only [Node.leaves_split, List.flatMap_append, List.flatMap_cons, List.map_append, List.mem_append, absent notFirst,
      absent notSecond, absent (firstPanes ▸ notFirst), absent (secondPanes ▸ notSecond)]

-- Three panes of 4, 1 and 1 cells in a split of their own, beside one of 4 and one of 6.
def dividersPut : Op := .put ⟨.first, ⟨[⟨none, singleName, .empty, [{
  id := none
  name := some singleWindowName
  vars := .empty
  cols := some ⟨20, by decide, by decide⟩
  rows := some ⟨5, by decide, by decide⟩
  cellPx := none
  zoom := none
  tree := .split .horizontal [
    .split .horizontal [
      .leaf ⟨.new freshPane, some ⟨4, by decide, by decide⟩, none⟩,
      .leaf ⟨.new freshPane, some (.clamped 1), none⟩,
      .leaf ⟨.new freshPane, some (.clamped 1), none⟩],
    .leaf ⟨.new freshPane, some ⟨4, by decide, by decide⟩, none⟩,
    .leaf ⟨.new freshPane, some ⟨6, by decide, by decide⟩, none⟩]
  floats := [] }]⟩]⟩⟩
  none none

def five : Cells := ⟨5, by decide, by decide⟩

def paneOf (id : Nat) (cols : Cells) : Node Leaf := .leaf ⟨⟨id⟩, cols, five⟩

def three (cols : Cells) : Node Leaf :=
  .split .horizontal [paneOf 1 cols, paneOf 2 (.clamped 1), paneOf 3 (.clamped 1)]

def neighbour (cols : Cells) : Node Leaf := paneOf 4 cols

def beyond : Node Leaf := paneOf 5 ⟨6, by decide, by decide⟩

def dividersWindow : Window where
  id := ⟨1⟩
  name := singleWindowName
  vars := .empty
  cols := ⟨20, by decide, by decide⟩
  rows := five
  cellPx := none
  zoom := none
  focus := ⟨1⟩
  tree := .split .horizontal [three ⟨4, by decide, by decide⟩, neighbour ⟨4, by decide, by decide⟩, beyond]
  floats := []

theorem dividersPut_windows : (World.run [dividersPut]).document.layout.windowList = [dividersWindow] := by decide +kernel

theorem dividers_asks (size : Cells) :
    Asks .horizontal (three ⟨4, by decide, by decide⟩) (neighbour ⟨4, by decide, by decide⟩) [beyond] (.resizePair ⟨1⟩ ⟨4⟩ size) size.get :=
  .resizePair ⟨1⟩ ⟨4⟩ size (by decide) (by decide)

theorem dividers_hole : Hole (.split .horizontal ([] ++ three ⟨4, by decide, by decide⟩ :: neighbour ⟨4, by decide, by decide⟩ :: [beyond]))
    dividersWindow.tree fun node => node := .here

-- The neighbour gives three cells.
theorem divider_widens : ∃ draft after,
    apply (World.run [dividersPut]).document.layout.draft (.resizePair ⟨1⟩ ⟨4⟩ ⟨11, by decide, by decide⟩) = .ok draft ∧
      (World.run [dividersPut]).document.putWithShell ⟨(World.run [dividersPut]).document.revision, draft⟩ none none = (.ok [], after) ∧
        Moved .horizontal (three ⟨4, by decide, by decide⟩) (neighbour ⟨4, by decide, by decide⟩) 11
          (World.run [dividersPut]).document.layout after.layout := by
  have inside : dividersWindow ∈ (World.run [dividersPut]).document.layout.windowList := by
    rw [dividersPut_windows]
    exact List.mem_cons_self
  refine divider_moves [dividersPut] inside dividers_hole (dividers_asks ⟨11, by decide, by decide⟩) ?_ ?_ none none
  · refine .along _ _ (by decide) fun pair there => ?_
    have parts : pair ∈ [(paneOf 1 ⟨4, by decide, by decide⟩, 6), (paneOf 2 ⟨1, by decide, by decide⟩, 1),
      (paneOf 3 ⟨1, by decide, by decide⟩, 2)] := there
    simp only [List.mem_cons, List.not_mem_nil, or_false] at parts
    rcases parts with rfl | rfl | rfl <;> exact .leaf _ _ (by decide)
  · exact .leaf _ _ (by decide)

-- What the draft has when five cells are asked for: the three panes have six.
def spilled : Node Leaf :=
  .split .horizontal [three ⟨2, by decide, by decide⟩, neighbour ⟨7, by decide, by decide⟩, beyond]

theorem dividers_spill {document : Document} (wellFormed : document.layout.WellFormed)
    (windows : document.layout.windowList = [dividersWindow]) :
    ∃ draft after, apply document.layout.draft (.resizePair ⟨1⟩ ⟨4⟩ five) = .ok draft ∧
      document.putWithShell ⟨document.revision, draft⟩ none none = (.ok [], after) ∧
        ¬ Moved .horizontal (three ⟨4, by decide, by decide⟩) (neighbour ⟨4, by decide, by decide⟩)
          (dividerAt .horizontal (three ⟨4, by decide, by decide⟩) (neighbour ⟨4, by decide, by decide⟩) 5) document.layout after.layout := by
  have inside : dividersWindow ∈ document.layout.windowList := by
    rw [windows]
    exact List.mem_cons_self
  have sound := (wellFormed.windows _ inside).toSound
  obtain ⟨-, each, -⟩ := Spans.along_iff.1 (sound.tiles .horizontal)
  have changed : given .horizontal [] [beyond] (three ⟨4, by decide, by decide⟩) (neighbour ⟨4, by decide, by decide⟩) 5 =
      spilled.map Leaf.draft := by rfl
  obtain ⟨zoom, kept, applied⟩ := apply_asks wellFormed inside dividers_hole (dividers_asks five) (each _ (by simp)) (each _ (by simp)) changed
  have fits : dividersWindow.Sizes (treeDraft dividersWindow zoom spilled) := treeDraft_sizes sound (by rfl) kept
  obtain ⟨after, put, layout, -⟩ := put_changed wellFormed inside fits none none
  refine ⟨_, after, applied, put, fun moved => ?_⟩
  have same := moved.others (⟨5⟩, ⟨6, by decide, by decide⟩, five) (by decide) (by decide)
  rw [layout, sizes, sizes, withWindow, mapWindows_windowList, windows] at same
  simp only [List.map_cons, List.map_nil, if_true, List.flatMap_cons, List.flatMap_nil, List.append_nil] at same
  have before : ((⟨5⟩, ⟨6, by decide, by decide⟩, five) : PaneId × Cells × Cells) ∈
      dividersWindow.tree.leaves.map leafSize ++ dividersWindow.floats.map fun float => (float.pane, float.cols, float.rows) := by decide
  have now : ((⟨5⟩, ⟨6, by decide, by decide⟩, five) : PaneId × Cells × Cells) ∈
      (fit ((spilled.map Leaf.draft).map DraftLeaf.raw) 20 5).leaves.map leafSize := by
    have there := same.2 before
    rwa [show (dividersWindow.sized (treeDraft dividersWindow zoom spilled)).floats = [] from rfl, List.map_nil, List.append_nil] at there
  exact absurd now (by decide)

theorem divider_spills : dividersWindow ∈ (World.run [dividersPut]).document.layout.windowList ∧
    Hole (.split .horizontal ([] ++ three ⟨4, by decide, by decide⟩ :: neighbour ⟨4, by decide, by decide⟩ :: [beyond]))
      dividersWindow.tree (fun node => node) ∧
    Asks .horizontal (three ⟨4, by decide, by decide⟩) (neighbour ⟨4, by decide, by decide⟩) [beyond] (.resizePair ⟨1⟩ ⟨4⟩ five) 5 ∧
    ∃ draft after, apply (World.run [dividersPut]).document.layout.draft (.resizePair ⟨1⟩ ⟨4⟩ five) = .ok draft ∧
      (World.run [dividersPut]).document.putWithShell ⟨(World.run [dividersPut]).document.revision, draft⟩ none none = (.ok [], after) ∧
        ¬ Moved .horizontal (three ⟨4, by decide, by decide⟩) (neighbour ⟨4, by decide, by decide⟩)
          (dividerAt .horizontal (three ⟨4, by decide, by decide⟩) (neighbour ⟨4, by decide, by decide⟩) 5)
          (World.run [dividersPut]).document.layout after.layout := by
  refine ⟨?_, dividers_hole, dividers_asks five, dividers_spill (run_wellFormed [dividersPut]).1 dividersPut_windows⟩
  rw [dividersPut_windows]
  exact List.mem_cons_self

end Kido.Tiling.Sizing
