import Kido.Layout.Shares

set_option autoImplicit false

namespace Kido.Tiling

open Node (leaves_map minimum_map height_map map_split map_leaf minimum_split minimum_leaf height_child)

-- A child of a split while `resize_axis` hands cells out, with its entry of `sizes`.
structure Part where
  child : Node Leaf
  size : Nat
  minimum : Nat

namespace Part

def next (grow : Bool) (part : Part) : Option Nat :=
  if grow then some (part.size + 1)
  else if part.minimum < part.size then some (part.size - 1)
  else none

def moved (resize : Node Leaf → Nat → Node Leaf) (part : Part) (size : Nat) : Part :=
  { part with child := resize part.child size, size := size }

end Part

def resizePass (resize : Node Leaf → Nat → Node Leaf) (grow : Bool) : Nat → List Part → Nat × List Part
  | left, [] => (left, [])
  | left, part :: rest =>
    if left = 0 then (0, part :: rest)
    else
      match part.next grow with
      | some size =>
        let done := resizePass resize grow (left - 1) rest
        (done.1, part.moved resize size :: done.2)
      | none =>
        let done := resizePass resize grow left rest
        (done.1, part :: done.2)

-- The `while` loop of `resize_axis`: every pass hands out a cell or more, so `left` passes are enough.
def resizeLoop (resize : Node Leaf → Nat → Node Leaf) (grow : Bool) : Nat → Nat → List Part → List Part
  | 0, _, parts => parts
  | fuel + 1, left, parts =>
    if left = 0 then parts
    else
      let done := resizePass resize grow left parts
      resizeLoop resize grow fuel done.1 done.2

def Leaf.setExtent (axis : Axis) (cells : Cells) (leaf : Leaf) : Leaf :=
  match axis with
  | .horizontal => { leaf with cols := cells }
  | .vertical => { leaf with rows := cells }

def partsOf (axis : Axis) (children : List (Node Leaf)) : List Part :=
  children.map fun child => ⟨child, tiledSize axis child, child.minimum axis⟩

def resizeAxisFuel (axis : Axis) : Nat → Node Leaf → Nat → Node Leaf
  | 0, node, _ => node
  | fuel + 1, node, wanted =>
    let wanted := max wanted (node.minimum axis)
    match node with
    | .leaf tile => .leaf (tile.setExtent axis (Cells.clamped wanted))
    | .split split children =>
      if split = axis then
        let parts := partsOf axis children
        let current := (parts.map Part.size).sum + (children.length - 1)
        let left := (current - wanted) + (wanted - current)
        .split split ((resizeLoop (resizeAxisFuel axis fuel) (decide (current < wanted)) left left parts).map
          Part.child)
      else .split split (children.map fun child => resizeAxisFuel axis fuel child wanted)

def resizeAxis (axis : Axis) (node : Node Leaf) (wanted : Nat) : Node Leaf :=
  resizeAxisFuel axis node.height node wanted

section Related

variable (R : Node Leaf → Node Leaf → Prop) (resize : Node Leaf → Nat → Node Leaf)

def Related (before after : List Part) : Prop :=
  List.Forall₂ (fun first second => R first.child second.child) before after

variable (refl : ∀ node, R node node) (trans : ∀ {first second third}, R first second → R second third → R first third)
  (step : ∀ node size, R node (resize node size))

include refl in
theorem related_refl (parts : List Part) : Related R parts parts := by
  induction parts with
  | nil => exact .nil
  | cons part rest ih => exact .cons (refl part.child) ih

include trans in
theorem related_trans (first second third : List Part) (one : Related R first second)
    (two : Related R second third) : Related R first third := by
  induction one generalizing third with
  | nil =>
    cases two
    exact .nil
  | cons head tail ih =>
    cases two with
    | cons next later => exact .cons (trans head next) (ih _ later)

include refl step in
theorem resizePass_related (grow : Bool) (left : Nat) (parts : List Part) :
    Related R parts (resizePass resize grow left parts).2 := by
  induction parts generalizing left with
  | nil => exact .nil
  | cons part rest ih =>
    by_cases zero : left = 0
    · simpa [resizePass, zero] using related_refl R refl (part :: rest)
    · cases next : part.next grow with
      | none =>
        simp only [resizePass, zero, if_false, next]
        exact .cons (refl part.child) (ih left)
      | some size =>
        simp only [resizePass, zero, if_false, next]
        exact .cons (step part.child size) (ih (left - 1))

include refl trans step in
theorem resizeLoop_related (grow : Bool) (fuel left : Nat) (parts : List Part) :
    Related R parts (resizeLoop resize grow fuel left parts) := by
  induction fuel generalizing left parts with
  | zero => exact related_refl R refl parts
  | succ fuel ih =>
    by_cases zero : left = 0
    · simpa [resizeLoop, zero] using related_refl R refl parts
    · simp only [resizeLoop, zero, if_false]
      exact related_trans R trans _ _ _ (resizePass_related R resize refl step grow left parts) (ih _ _)

end Related

-- What a resize on one axis leaves alone: the shape of the tree and every extent on the other axis.
def Kept (axis : Axis) (before after : Node Leaf) : Prop :=
  after.map Leaf.pane = before.map Leaf.pane ∧
    ∀ other, other ≠ axis → ∀ n, Spans other before n → Spans other after n

namespace Kept

variable {axis : Axis}

theorem refl (node : Node Leaf) : Kept axis node node := ⟨rfl, fun _ _ _ spans => spans⟩

theorem trans {first second third : Node Leaf} (one : Kept axis first second) (two : Kept axis second third) :
    Kept axis first third :=
  ⟨two.1.trans one.1, fun other differs n spans => two.2 other differs n (one.2 other differs n spans)⟩

theorem panes {before after : Node Leaf} (kept : Kept axis before after) : after.panes = before.panes := by
  have same := congrArg Node.leaves kept.1
  simpa [leaves_map, Node.panes] using same

theorem minimum {before after : Node Leaf} (kept : Kept axis before after) (other : Axis) :
    after.minimum other = before.minimum other := by
  rw [← minimum_map other Leaf.pane, kept.1, minimum_map]

theorem height {before after : Node Leaf} (kept : Kept axis before after) : after.height = before.height := by
  rw [← height_map Leaf.pane, kept.1, height_map]

theorem tiled {other : Axis} (differs : other ≠ axis) {before after : List (Node Leaf)}
    (kept : List.Forall₂ (Kept axis) before after)
    (each : ∀ child ∈ before, Spans other child (tiledSize other child)) :
    (∀ child ∈ after, Spans other child (tiledSize other child)) ∧
      after.map (tiledSize other) = before.map (tiledSize other) := by
  induction kept with
  | nil => exact ⟨by simp, rfl⟩
  | @cons first second rest later head tail ih =>
    have spans := head.2 other differs _ (each first (by simp))
    obtain ⟨others, sizes⟩ := ih fun child member => each child (by simp [member])
    constructor
    · intro child member
      rcases List.mem_cons.mp member with equal | inside
      · rw [equal, spans.tiled]
        exact spans
      · exact others child inside
    · simp [spans.tiled, sizes]

theorem split (split : Axis) {before after : List (Node Leaf)} (kept : List.Forall₂ (Kept axis) before after) :
    Kept axis (.split split before) (.split split after) := by
  have shapes : after.map (Node.map Leaf.pane) = before.map (Node.map Leaf.pane) := by
    induction kept with
    | nil => rfl
    | cons head tail ih => simp [head.1, ih]
  refine ⟨by simp [shapes], ?_⟩
  intro other differs n spans
  have length := kept.length_eq
  by_cases same : split = other
  · subst split
    rw [Spans.along_iff] at spans ⊢
    obtain ⟨each, sizes⟩ := tiled differs kept spans.2.1
    exact ⟨length ▸ spans.1, each, by rw [sizes, ← length]; exact spans.2.2⟩
  · rw [Spans.across_iff same] at spans ⊢
    refine ⟨length ▸ spans.1, ?_⟩
    intro child member
    obtain ⟨index, inside, rfl⟩ := List.getElem_of_mem member
    have keeps := kept.get (length ▸ inside) inside
    exact keeps.2 other differs n (spans.2 _ (List.get_mem before ⟨index, length ▸ inside⟩))

end Kept

theorem setExtent_kept (axis : Axis) (leaf : Leaf) (cells : Cells) :
    Kept axis (.leaf leaf) (.leaf (leaf.setExtent axis cells)) := by
  constructor
  · cases axis <;> simp [Leaf.setExtent]
  · intro other differs n spans
    rw [Spans.leaf_iff] at spans ⊢
    cases axis <;> cases other <;> simp_all [Leaf.setExtent, Leaf.extent, pick]

theorem setExtent_extent (axis : Axis) (leaf : Leaf) (cells : Cells) :
    (leaf.setExtent axis cells).extent axis = cells.get := by
  cases axis <;> rfl

theorem resizeAxisFuel_kept (axis : Axis) (fuel : Nat) (node : Node Leaf) (wanted : Nat) :
    Kept axis node (resizeAxisFuel axis fuel node wanted) := by
  induction fuel generalizing node wanted with
  | zero => exact Kept.refl node
  | succ fuel ih =>
    match node with
    | .leaf tile => exact setExtent_kept axis tile _
    | .split split children =>
      by_cases same : split = axis
      · simp only [resizeAxisFuel, same, if_true]
        refine Kept.split axis ?_
        generalize (max wanted _ : Nat) = wanted
        have related := resizeLoop_related (Kept axis) (resizeAxisFuel axis fuel) Kept.refl Kept.trans ih
        have pairs (grow : Bool) (rounds left : Nat) := related grow rounds left (partsOf axis children)
        have starts : children = (partsOf axis children).map Part.child := by
          simp [partsOf, Function.comp_def]
        conv => arg 2; rw [starts]
        rw [List.forall₂_map_left_iff, List.forall₂_map_right_iff]
        exact pairs _ _ _
      · simp only [resizeAxisFuel, same, if_false]
        refine Kept.split split ?_
        rw [List.forall₂_map_right_iff, List.forall₂_same]
        exact fun child _ => ih child _

theorem resizeAxis_kept (axis : Axis) (node : Node Leaf) (wanted : Nat) :
    Kept axis node (resizeAxis axis node wanted) := resizeAxisFuel_kept axis _ node wanted

section Reach

variable (axis : Axis) (height : Nat) (resize : Node Leaf → Nat → Node Leaf)

-- A part in step with its child; `slack` is how much the part may still grow.
structure Part.Ok (slack : Nat) (part : Part) : Prop where
  spans : Spans axis part.child part.size
  least : part.child.minimum axis = part.minimum
  low : part.minimum ≤ part.size
  bound : part.size + slack ≤ maxDimension
  shallow : part.child.height ≤ height

def Resizes : Prop :=
  ∀ child n size, Spans axis child n → child.minimum axis ≤ size → n ≤ maxDimension → size ≤ maxDimension →
    child.height ≤ height → Spans axis (resize child size) size ∧ Kept axis child (resize child size)

def slack (grow : Bool) (left : Nat) : Nat := if grow then left else 0

variable {axis height resize}

theorem Part.Ok.mono {less more : Nat} {part : Part} (ok : part.Ok axis height more) (smaller : less ≤ more) :
    part.Ok axis height less :=
  { ok with bound := by have bound := ok.bound; omega }

theorem Part.Ok.next_bounds {grow : Bool} {left : Nat} {part : Part} (ok : part.Ok axis height (slack grow left))
    (positive : left ≠ 0) {size : Nat} (next : part.next grow = some size) :
    part.minimum ≤ size ∧ size + slack grow (left - 1) ≤ maxDimension := by
  have low := ok.low
  have bound := ok.bound
  cases grow with
  | true =>
    simp only [Part.next, if_true, Option.some.injEq, slack] at next bound ⊢
    omega
  | false =>
    simp only [Part.next, slack, Bool.false_eq_true, if_false, Option.ite_none_right_eq_some,
      Option.some.injEq] at next bound ⊢
    omega

theorem Part.Ok.moved (resizes : Resizes axis height resize) {grow : Bool} {left : Nat} {part : Part}
    (ok : part.Ok axis height (slack grow left)) (positive : left ≠ 0) {size : Nat}
    (next : part.next grow = some size) :
    (part.moved resize size).Ok axis height (slack grow (left - 1)) := by
  have bound := ok.bound
  have sized := ok.next_bounds positive next
  obtain ⟨spans, kept⟩ := resizes part.child part.size size ok.spans (ok.least ▸ sized.1) (by omega) (by omega)
    ok.shallow
  exact {
    spans := spans
    least := (kept.minimum axis).trans ok.least
    low := sized.1
    bound := sized.2
    shallow := kept.height.trans_le ok.shallow }

theorem resizePass_left_le (grow : Bool) (left : Nat) (parts : List Part) :
    (resizePass resize grow left parts).1 ≤ left := by
  induction parts generalizing left with
  | nil => exact le_rfl
  | cons part rest ih =>
    by_cases zero : left = 0
    · simp [resizePass, zero]
    · cases next : part.next grow with
      | none => simpa [resizePass, zero, next] using ih left
      | some size =>
        simp only [resizePass, zero, if_false, next]
        exact (ih (left - 1)).trans (Nat.sub_le _ _)

theorem resizePass_ok (resizes : Resizes axis height resize) (grow : Bool) (left : Nat) (parts : List Part)
    (ok : ∀ part ∈ parts, part.Ok axis height (slack grow left)) :
    ∀ part ∈ (resizePass resize grow left parts).2,
      part.Ok axis height (slack grow (resizePass resize grow left parts).1) := by
  have shrinks (first second : Nat) (smaller : first ≤ second) : slack grow first ≤ slack grow second := by
    cases grow <;> simp [slack, smaller]
  induction parts generalizing left with
  | nil => simp [resizePass]
  | cons part rest ih =>
    by_cases zero : left = 0
    · simp only [resizePass, zero, if_true]
      exact zero ▸ ok
    · cases next : part.next grow with
      | none =>
        simp only [resizePass, zero, if_false, next]
        intro found member
        rcases List.mem_cons.mp member with head | tail
        · rw [head]
          exact (ok part (by simp)).mono (shrinks _ _ (resizePass_left_le grow left rest))
        · exact ih left (fun other inside => ok other (by simp [inside])) found tail
      | some size =>
        simp only [resizePass, zero, if_false, next]
        intro found member
        rcases List.mem_cons.mp member with head | tail
        · rw [head]
          exact ((ok part (by simp)).moved resizes zero next).mono
            (shrinks _ _ (resizePass_left_le grow (left - 1) rest))
        · exact ih (left - 1)
            (fun other inside => (ok other (by simp [inside])).mono (shrinks _ _ (Nat.sub_le _ _))) found tail

variable (resize) in
theorem resizePass_sum (grow : Bool) (left : Nat) (parts : List Part) :
    if grow then
      ((resizePass resize grow left parts).2.map Part.size).sum + (resizePass resize grow left parts).1 =
        (parts.map Part.size).sum + left
    else
      ((resizePass resize grow left parts).2.map Part.size).sum + left =
        (parts.map Part.size).sum + (resizePass resize grow left parts).1 := by
  induction parts generalizing left with
  | nil => simp [resizePass]
  | cons part rest ih =>
    by_cases zero : left = 0
    · simp [resizePass, zero]
    · cases next : part.next grow with
      | none =>
        have tail := ih left
        simp only [resizePass, zero, if_false, next, List.map_cons, List.sum_cons]
        split_ifs at tail ⊢ <;> omega
      | some size =>
        have tail := ih (left - 1)
        simp only [resizePass, zero, if_false, next, List.map_cons, List.sum_cons, Part.moved]
        cases grow with
        | true =>
          simp only [Part.next, if_true, Option.some.injEq] at next tail ⊢
          omega
        | false =>
          simp only [Part.next, Bool.false_eq_true, if_false, Option.ite_none_right_eq_some,
            Option.some.injEq] at next tail ⊢
          omega

theorem resizePass_left_lt (grow : Bool) (left : Nat) (parts : List Part) (positive : left ≠ 0)
    (movable : ∃ part ∈ parts, part.next grow ≠ none) : (resizePass resize grow left parts).1 < left := by
  induction parts with
  | nil => simp at movable
  | cons part rest ih =>
    cases next : part.next grow with
    | none =>
      simp only [resizePass, positive, if_false, next]
      refine ih ?_
      obtain ⟨found, member, moves⟩ := movable
      rcases List.mem_cons.mp member with head | tail
      · exact absurd next (head ▸ moves)
      · exact ⟨found, tail, moves⟩
    | some size =>
      simp only [resizePass, positive, if_false, next]
      have bound : (resizePass resize grow (left - 1) rest).1 ≤ left - 1 := resizePass_left_le grow (left - 1) rest
      omega

variable (resize) in
theorem resizePass_minimums (grow : Bool) (left : Nat) (parts : List Part) :
    (resizePass resize grow left parts).2.map Part.minimum = parts.map Part.minimum := by
  induction parts generalizing left with
  | nil => rfl
  | cons part rest ih =>
    by_cases zero : left = 0
    · simp [resizePass, zero]
    · cases next : part.next grow <;> simp [resizePass, zero, next, ih, Part.moved]

theorem movable_part (grow : Bool) (left : Nat) (parts : List Part) (positive : left ≠ 0) (nonempty : parts ≠ [])
    (room : grow = true ∨ (parts.map Part.minimum).sum + left ≤ (parts.map Part.size).sum) :
    ∃ part ∈ parts, part.next grow ≠ none := by
  obtain ⟨first, rest, rfl⟩ := List.exists_cons_of_ne_nil nonempty
  rcases room with up | down
  · exact ⟨first, by simp, by simp [Part.next, up]⟩
  · by_contra stuck
    push Not at stuck
    have floor : ((first :: rest).map Part.size).sum ≤ ((first :: rest).map Part.minimum).sum := by
      refine List.sum_le_sum fun part member => ?_
      have still := stuck part member
      cases grow <;> simp [Part.next] at still
      exact still
    omega

variable (resize) in
theorem resizePass_room (grow : Bool) (left : Nat) (parts : List Part) (nonempty : parts ≠ [])
    (room : grow = true ∨ (parts.map Part.minimum).sum + left ≤ (parts.map Part.size).sum) :
    (resizePass resize grow left parts).2 ≠ [] ∧
      (grow = true ∨ ((resizePass resize grow left parts).2.map Part.minimum).sum + (resizePass resize grow left parts).1 ≤
        ((resizePass resize grow left parts).2.map Part.size).sum) := by
  have sums := resizePass_sum resize grow left parts
  have minimums := resizePass_minimums resize grow left parts
  constructor
  · have lengths := congrArg List.length minimums
    rw [List.length_map, List.length_map] at lengths
    rw [← List.length_pos_iff_ne_nil, lengths]
    exact List.length_pos_iff_ne_nil.mpr nonempty
  · rw [minimums]
    rcases room with up | down
    · exact .inl up
    · cases grow with
      | true => exact .inl rfl
      | false =>
        right
        simp only [Bool.false_eq_true, if_false] at sums
        omega

theorem resizeLoop_correct (resizes : Resizes axis height resize) (grow : Bool) (fuel left : Nat)
    (parts : List Part) (enough : left ≤ fuel) (nonempty : parts ≠ [])
    (ok : ∀ part ∈ parts, part.Ok axis height (slack grow left))
    (room : grow = true ∨ (parts.map Part.minimum).sum + left ≤ (parts.map Part.size).sum) :
    (∀ part ∈ resizeLoop resize grow fuel left parts, part.Ok axis height 0) ∧
      if grow then
        ((resizeLoop resize grow fuel left parts).map Part.size).sum = (parts.map Part.size).sum + left
      else
        ((resizeLoop resize grow fuel left parts).map Part.size).sum + left = (parts.map Part.size).sum := by
  induction fuel generalizing left parts with
  | zero =>
    have zero : left = 0 := by omega
    subst zero
    exact ⟨fun part member => (ok part member).mono (Nat.zero_le _), by simp [resizeLoop]⟩
  | succ fuel ih =>
    by_cases zero : left = 0
    · subst zero
      exact ⟨fun part member => (ok part (by simpa [resizeLoop] using member)).mono (Nat.zero_le _),
        by simp [resizeLoop]⟩
    · have less : (resizePass resize grow left parts).1 < left := resizePass_left_lt grow left parts zero
        (movable_part grow left parts zero nonempty room)
      have sums := resizePass_sum resize grow left parts
      obtain ⟨stays, room⟩ := resizePass_room resize grow left parts nonempty room
      have next := ih (resizePass resize grow left parts).1 (resizePass resize grow left parts).2 (by omega) stays
        (resizePass_ok resizes grow left parts ok) room
      simp only [resizeLoop, zero, if_false]
      refine ⟨next.1, ?_⟩
      have total := next.2
      split_ifs at sums total ⊢ <;> omega

end Reach

section Along

variable {axis : Axis} {fuel : Nat} {children : List (Node Leaf)} {n : Nat}

theorem partsOf_sizes : (partsOf axis children).map Part.size = children.map (tiledSize axis) := by
  simp [partsOf, Function.comp_def]

theorem partsOf_minimums : (partsOf axis children).map Part.minimum = children.map (Node.minimum axis) := by
  simp [partsOf, Function.comp_def]

theorem partsOf_ne_nil (spans : Spans axis (.split axis children) n) : partsOf axis children ≠ [] := by
  rw [partsOf, ne_eq, List.map_eq_nil_iff]
  rintro rfl
  simpa using (Spans.along_iff.mp spans).1

theorem partsOf_ok (spans : Spans axis (.split axis children) n) (bound : n ≤ maxDimension)
    (shallow : ∀ child ∈ children, child.height ≤ fuel) {target : Nat} (small : target ≤ maxDimension) :
    ∀ part ∈ partsOf axis children, part.Ok axis fuel (slack (decide (n < target)) (n - target + (target - n))) := by
  obtain ⟨several, each, total⟩ := Spans.along_iff.mp spans
  intro part member
  obtain ⟨child, inside, rfl⟩ := List.mem_map.mp member
  have share : tiledSize axis child ≤ (children.map (tiledSize axis)).sum :=
    List.single_le_sum (fun _ _ => Nat.zero_le _) _ (List.mem_map_of_mem inside)
  exact {
    spans := each child inside
    least := rfl
    low := minimum_le_tiledSize axis child
    bound := by
      by_cases growing : n < target <;> simp only [slack, growing, decide_true, decide_false, if_true, Bool.false_eq_true,
        if_false] <;> omega
    shallow := shallow child inside }

theorem partsOf_room (spans : Spans axis (.split axis children) n) {target : Nat}
    (floor : (Node.split axis children).minimum axis ≤ target) :
    decide (n < target) = true ∨ ((partsOf axis children).map Part.minimum).sum + (n - target + (target - n)) ≤
      ((partsOf axis children).map Part.size).sum := by
  obtain ⟨several, each, total⟩ := Spans.along_iff.mp spans
  rw [minimum_split, if_pos rfl] at floor
  rw [partsOf_sizes, partsOf_minimums, decide_eq_true_eq]
  omega

end Along

theorem resizeAlong_spans {axis : Axis} {fuel : Nat} {children : List (Node Leaf)} {n wanted : Nat}
    (resizes : Resizes axis fuel (resizeAxisFuel axis fuel)) (spans : Spans axis (.split axis children) n)
    (bound : n ≤ maxDimension) (small : wanted ≤ maxDimension)
    (shallow : ∀ child ∈ children, child.height ≤ fuel) :
    Spans axis (resizeAxisFuel axis (fuel + 1) (.split axis children) wanted)
      (max wanted ((Node.split axis children).minimum axis)) := by
  have least := spans.minimum_le
  obtain ⟨several, each, total⟩ := Spans.along_iff.mp spans
  simp only [resizeAxisFuel, if_true, partsOf_sizes, total]
  have floor : (Node.split axis children).minimum axis ≤ max wanted ((Node.split axis children).minimum axis) :=
    le_max_right _ _
  have ok := partsOf_ok spans bound shallow (max_le small (least.trans bound))
  have room := partsOf_room spans floor
  generalize max wanted ((Node.split axis children).minimum axis) = target at ok room ⊢
  generalize growing : decide (n < target) = grow at ok room ⊢
  generalize distance : n - target + (target - n) = left at ok room ⊢
  obtain ⟨done, sum⟩ := resizeLoop_correct resizes grow left left (partsOf axis children) le_rfl (partsOf_ne_nil spans) ok room
  have related := resizeLoop_related (fun _ _ => True) (resizeAxisFuel axis fuel) (fun _ => trivial)
    (fun _ _ => trivial) (fun _ _ => trivial) grow left left (partsOf axis children)
  have length : (resizeLoop (resizeAxisFuel axis fuel) grow left left (partsOf axis children)).length =
      children.length := by
    rw [← related.length_eq, partsOf, List.length_map]
  generalize resizeLoop (resizeAxisFuel axis fuel) grow left left (partsOf axis children) = parts at done sum length ⊢
  have final : (parts.map Part.child).map (tiledSize axis) = parts.map Part.size := by
    rw [List.map_map]
    exact List.map_congr_left fun part member => (done part member).spans.tiled
  rw [Spans.along_iff, List.length_map, length, final]
  refine ⟨several, ?_, ?_⟩
  · intro child member
    obtain ⟨part, inside, rfl⟩ := List.mem_map.mp member
    have own := (done part inside).spans
    exact own.tiled ▸ own
  · rw [partsOf_sizes] at sum
    rw [partsOf_sizes, partsOf_minimums] at room
    cases grow <;> simp only [decide_eq_false_iff_not, decide_eq_true_eq] at growing <;>
      simp only [if_true, Bool.false_eq_true, if_false] at sum <;> omega

theorem resizeAxisFuel_spans (axis : Axis) (fuel : Nat) (node : Node Leaf) (n wanted : Nat)
    (spans : Spans axis node n) (deep : node.height ≤ fuel) (bound : n ≤ maxDimension)
    (small : wanted ≤ maxDimension) :
    Spans axis (resizeAxisFuel axis fuel node wanted) (max wanted (node.minimum axis)) := by
  induction fuel generalizing node n wanted with
  | zero =>
    match node with
    | .leaf tile => simp at deep
    | .split split children => simp [Node.height_split] at deep
  | succ fuel ih =>
    have least := spans.minimum_le
    match node with
    | .leaf tile =>
      have one := tile.extent_positive axis
      have target : 1 ≤ max wanted ((Node.leaf tile).minimum axis) ∧
          max wanted ((Node.leaf tile).minimum axis) ≤ maxDimension := by
        simp only [minimum_leaf, maxDimension] at small ⊢
        omega
      rw [resizeAxisFuel, Spans.leaf_iff, setExtent_extent, Cells.clamped_get _ target.1 target.2]
    | .split split children =>
      have shallow (child : Node Leaf) (member : child ∈ children) : child.height ≤ fuel := by
        have below := height_child split children child member
        omega
      have resizes : Resizes axis fuel (resizeAxisFuel axis fuel) := by
        intro child m size childSpans least bound small deep
        have result := ih child m size childSpans deep bound small
        rw [max_eq_left least] at result
        exact ⟨result, resizeAxisFuel_kept axis fuel child size⟩
      by_cases same : split = axis
      · subst split
        exact resizeAlong_spans resizes spans bound small shallow
      · have across := (Spans.across_iff same).mp spans
        simp only [resizeAxisFuel, same, if_false]
        refine (Spans.across_iff same).mpr ⟨by rw [List.length_map]; exact across.1, ?_⟩
        intro child member
        obtain ⟨old, inside, rfl⟩ := List.mem_map.mp member
        have result := ih old n (max wanted ((Node.split split children).minimum axis)) (across.2 old inside)
          (shallow old inside) bound (by omega)
        rwa [max_eq_left ((minimum_le_across axis split same children old inside).trans (le_max_right _ _))] at result

theorem resizeAxis_spans (axis : Axis) (node : Node Leaf) (n wanted : Nat) (spans : Spans axis node n)
    (bound : n ≤ maxDimension) (small : wanted ≤ maxDimension) :
    Spans axis (resizeAxis axis node wanted) (max wanted (node.minimum axis)) :=
  resizeAxisFuel_spans axis node.height node n wanted spans le_rfl bound small

section Fuel

variable {first second : Node Leaf → Nat → Node Leaf} {height : Nat}
  (agree : ∀ child size, child.height ≤ height → first child size = second child size)
  (keeps : ∀ child size, (first child size).height = child.height)

include agree in
theorem resizePass_congr (grow : Bool) (left : Nat) (parts : List Part)
    (shallow : ∀ part ∈ parts, part.child.height ≤ height) :
    resizePass first grow left parts = resizePass second grow left parts := by
  induction parts generalizing left with
  | nil => rfl
  | cons part rest ih =>
    have own := shallow part (by simp)
    have tail (left : Nat) := ih left fun other member => shallow other (by simp [member])
    simp only [resizePass, tail, Part.moved, agree part.child _ own]

include agree keeps in
theorem resizeLoop_congr (grow : Bool) (fuel left : Nat) (parts : List Part)
    (shallow : ∀ part ∈ parts, part.child.height ≤ height) :
    resizeLoop first grow fuel left parts = resizeLoop second grow fuel left parts := by
  induction fuel generalizing left parts with
  | zero => rfl
  | succ fuel ih =>
    have pass := resizePass_congr agree grow left parts shallow
    have related := resizePass_related (fun before after => after.height = before.height) first
      (fun _ => rfl) keeps grow left parts
    have stays : ∀ part ∈ (resizePass first grow left parts).2, part.child.height ≤ height := by
      intro part member
      obtain ⟨index, inside, rfl⟩ := List.getElem_of_mem member
      have same := related.get (related.length_eq ▸ inside) inside
      exact same.trans_le (shallow _ (List.get_mem parts ⟨index, related.length_eq ▸ inside⟩))
    have next := ih (resizePass first grow left parts).1 _ stays
    rw [pass] at next
    simp only [resizeLoop, pass, next]

end Fuel

theorem resizeAxisFuel_enough (axis : Axis) (fuel : Nat) (node : Node Leaf) (wanted : Nat)
    (deep : node.height ≤ fuel) : resizeAxisFuel axis fuel node wanted = resizeAxis axis node wanted := by
  have agrees (less more : Nat) (node : Node Leaf) (wanted : Nat) (deep : node.height ≤ less)
      (smaller : less ≤ more) : resizeAxisFuel axis more node wanted = resizeAxisFuel axis less node wanted := by
    induction less generalizing more node wanted with
    | zero =>
      match node with
      | .leaf tile => simp at deep
      | .split split children => simp [Node.height_split] at deep
    | succ less ih =>
      obtain ⟨more, rfl⟩ : ∃ rest, more = rest + 1 := ⟨more - 1, by omega⟩
      match node with
      | .leaf tile => rfl
      | .split split children =>
        have shallow (child : Node Leaf) (member : child ∈ children) : child.height ≤ less := by
          have below := height_child split children child member
          omega
        by_cases same : split = axis
        · have parts : ∀ part ∈ partsOf axis children, part.child.height ≤ less := by
            intro part member
            obtain ⟨child, inside, rfl⟩ := List.mem_map.mp member
            exact shallow child inside
          have loops := resizeLoop_congr (fun child size deep => ih more child size deep (by omega))
            (fun child size => (resizeAxisFuel_kept axis more child size).height)
          simp only [resizeAxisFuel, same, if_true, loops _ _ _ _ parts]
        · simp only [resizeAxisFuel, same, if_false]
          congr 1
          exact List.map_congr_left fun child member => ih more child _ (shallow child member) (by omega)
  exact agrees node.height fuel node wanted le_rfl deep

theorem resizeAxis_leaf (axis : Axis) (tile : Leaf) (wanted : Nat) :
    resizeAxis axis (.leaf tile) wanted = .leaf (tile.setExtent axis (Cells.clamped (max wanted 1))) := by
  simp [resizeAxis, resizeAxisFuel]

theorem resizeAxis_split (axis split : Axis) (children : List (Node Leaf)) (wanted : Nat) :
    resizeAxis axis (.split split children) wanted =
      let wanted := max wanted ((Node.split split children).minimum axis)
      if split = axis then
        let parts := partsOf axis children
        let current := (parts.map Part.size).sum + (children.length - 1)
        let left := (current - wanted) + (wanted - current)
        .split split ((resizeLoop (resizeAxis axis) (decide (current < wanted)) left left parts).map Part.child)
      else .split split (children.map fun child => resizeAxis axis child wanted) := by
  obtain ⟨fuel, tall⟩ : ∃ fuel, (Node.split split children).height = fuel + 1 :=
    ⟨_, Node.height_split split children⟩
  have shallow (child : Node Leaf) (member : child ∈ children) : child.height ≤ fuel := by
    have below := height_child split children child member
    omega
  have parts : ∀ part ∈ partsOf axis children, part.child.height ≤ fuel := by
    intro part member
    obtain ⟨child, inside, rfl⟩ := List.mem_map.mp member
    exact shallow child inside
  have loops := resizeLoop_congr (resizeAxisFuel_enough axis fuel)
    (fun child size => (resizeAxisFuel_kept axis fuel child size).height)
  rw [resizeAxis, tall]
  by_cases same : split = axis
  · simp only [resizeAxisFuel, same, if_true, loops _ _ _ _ parts]
  · simp only [resizeAxisFuel, same, if_false]
    congr 1
    exact List.map_congr_left fun child member => resizeAxisFuel_enough axis fuel child _ (shallow child member)

end Kido.Tiling
