import Kido.Layout.Tree
import Mathlib.Tactic.Ring

set_option autoImplicit false

namespace Kido.Tiling

open Node

def donor (prefs : List (Option Nat)) (index : Nat) : Option Nat :=
  ((List.range index).reverse ++ List.range' (index + 1) (prefs.length - (index + 1))).find?
    fun other => (prefs[other]?.join).isSome

-- One step of the loop in `shares` that gives an open child a part of a neighbour's size.
def donate (prefs : List (Option Nat)) (index : Nat) : List (Option Nat) :=
  if (prefs[index]?.join).isSome then prefs
  else
    match (donor prefs index).bind fun other => (prefs[other]?.join).map fun size => (other, size) with
    | some (other, size) =>
      if 3 ≤ size then
        let given := (size + 1) / 2 - 1
        (prefs.set other (some (size - 1 - given))).set index (some given)
      else prefs.set index (some 1)
    | none => prefs.set index (some 1)

-- The second loop of `shares`, over the size and the minimum of each child.
@[grind =]
def allot (room sum : Nat) : List (Nat × Nat) → Nat → List Nat
  | [], _ => []
  | [_], left => [left]
  | (size, minimum) :: next :: rest, left =>
    let reserve := ((next :: rest).map Prod.snd).sum + (next :: rest).length
    let share := max (min (size * room / sum) (left - reserve)) minimum
    share :: allot room sum (next :: rest) (left - (share + 1))

def preferences (children : List (Node Raw)) (axis : Axis) (room : Nat) : List (Option Nat) :=
  let count := children.length
  let prefs := children.map (Node.known axis)
  if prefs.all Option.isNone then
    (List.range count).map fun index => some (room / count + if index < room % count then 1 else 0)
  else prefs

def shares (children : List (Node Raw)) (axis : Axis) (total : Nat) : List Nat :=
  let count := children.length
  let room := total - (count - 1)
  let prefs := (List.range count).foldl donate (preferences children axis room)
  let sizes := prefs.filterMap id
  allot room sizes.sum (sizes.zip (children.map (Node.minimum axis))) total

def fit : Node Raw → Nat → Nat → Node Leaf :=
  Node.para (fun raw cols rows => .leaf ⟨raw.pane, Cells.clamped cols, Cells.clamped rows⟩)
    fun split children cols rows =>
      let along := shares (children.map Prod.fst) split (pick split cols rows)
      .split split (((children.map Prod.snd).zip along).map fun (child, share) =>
        match split with
        | .horizontal => child share rows
        | .vertical => child cols share)

theorem fit_leaf (raw : Raw) (cols rows : Nat) :
    fit (.leaf raw) cols rows = .leaf ⟨raw.pane, Cells.clamped cols, Cells.clamped rows⟩ := by
  simp [fit]

-- The extents that a child of a split gets when its share along the split is `share`.
def childCols (split : Axis) (share cols : Nat) : Nat := pick split share cols

def childRows (split : Axis) (share rows : Nat) : Nat := pick split rows share

theorem fit_split (split : Axis) (children : List (Node Raw)) (cols rows : Nat) :
    fit (.split split children) cols rows =
      .split split ((children.zip (shares children split (pick split cols rows))).map fun pair =>
        fit pair.1 (childCols split pair.2 cols) (childRows split pair.2 rows)) := by
  have unfolded : fit (.split split children) cols rows =
      .split split (((children.map fit).zip (shares children split (pick split cols rows))).map
        fun pair => pair.1 (childCols split pair.2 cols) (childRows split pair.2 rows)) := by
    simp only [fit, para_split, List.map_map, Function.comp_def, List.map_id']
    cases split <;> rfl
  rw [unfolded, List.zip_map_left, List.map_map]
  rfl

theorem preferences_length (children : List (Node Raw)) (axis : Axis) (room : Nat) :
    (preferences children axis room).length = children.length := by
  simp only [preferences]
  split_ifs <;> simp

theorem donate_length (prefs : List (Option Nat)) (index : Nat) :
    (donate prefs index).length = prefs.length := by
  unfold donate
  split_ifs
  · rfl
  · split
    · split_ifs <;> simp
    · simp

theorem donate_keeps (prefs : List (Option Nat)) (index at_ : Nat) (filled : (prefs[at_]?.join).isSome) :
    ((donate prefs index)[at_]?.join).isSome := by
  have inside : at_ < prefs.length := by
    by_contra outside
    simp [List.getElem?_eq_none (not_lt.mp outside)] at filled
  have set_keeps (values : List (Option Nat)) (place size : Nat) (same : values.length = prefs.length)
      (kept : (values[at_]?.join).isSome) : ((values.set place (some size))[at_]?.join).isSome := by
    by_cases equal : place = at_
    · subst place
      simp [same, inside]
    · simpa [List.getElem?_set, equal] using kept
  unfold donate
  split_ifs
  · exact filled
  · split
    · split_ifs
      · exact set_keeps _ _ _ (by simp) (set_keeps _ _ _ rfl filled)
      · exact set_keeps _ _ _ rfl filled
    · exact set_keeps _ _ _ rfl filled

theorem donate_fills (prefs : List (Option Nat)) (index : Nat) (inside : index < prefs.length) :
    ((donate prefs index)[index]?.join).isSome := by
  unfold donate
  split_ifs with filled
  · exact filled
  · split
    · split_ifs <;> simp [inside]
    · simp [inside]

theorem donate_filled (prefs : List (Option Nat)) (index : Nat) (filled : (prefs[index]?.join).isSome) :
    donate prefs index = prefs := by
  simp [donate, filled]

theorem donations_length (indices : List Nat) (prefs : List (Option Nat)) :
    (indices.foldl donate prefs).length = prefs.length := by
  induction indices generalizing prefs with
  | nil => rfl
  | cons index rest ih => rw [List.foldl_cons, ih, donate_length]

theorem donations_keep (indices : List Nat) (prefs : List (Option Nat)) (at_ : Nat)
    (filled : (prefs[at_]?.join).isSome) : ((indices.foldl donate prefs)[at_]?.join).isSome := by
  induction indices generalizing prefs with
  | nil => exact filled
  | cons index rest ih => exact ih _ (donate_keeps prefs index at_ filled)

theorem donations_fill (indices : List Nat) (prefs : List (Option Nat)) (index : Nat)
    (member : index ∈ indices) (inside : index < prefs.length) :
    ((indices.foldl donate prefs)[index]?.join).isSome := by
  induction indices generalizing prefs with
  | nil => simp at member
  | cons first rest ih =>
    rcases List.mem_cons.mp member with head | tail
    · subst first
      exact donations_keep rest _ index (donate_fills prefs index inside)
    · exact ih _ tail (by rw [donate_length]; exact inside)

theorem donations_filled (indices : List Nat) (prefs : List (Option Nat))
    (filled : ∀ index ∈ indices, (prefs[index]?.join).isSome) : indices.foldl donate prefs = prefs := by
  induction indices with
  | nil => rfl
  | cons index rest ih =>
    rw [List.foldl_cons, donate_filled prefs index (filled index (by simp))]
    exact ih fun other member => filled other (by simp [member])

theorem filterMap_full_length (prefs : List (Option Nat))
    (full : ∀ index < prefs.length, (prefs[index]?.join).isSome) :
    (prefs.filterMap id).length = prefs.length := by
  induction prefs with
  | nil => rfl
  | cons pref rest ih =>
    have head : pref.isSome := by simpa using full 0 (by simp)
    have tail := ih fun index inside => by simpa using full (index + 1) (by simpa using inside)
    obtain ⟨size, rfl⟩ := Option.isSome_iff_exists.mp head
    change (size :: rest.filterMap id).length = _
    rw [List.length_cons, tail, List.length_cons]

theorem allot_length (room sum : Nat) (pairs : List (Nat × Nat)) (left : Nat) :
    (allot room sum pairs left).length = pairs.length := by
  induction pairs generalizing left with
  | nil => rfl
  | cons pair rest ih =>
    match rest with
    | [] => rfl
    | next :: later => simp [allot, ih]

theorem allot_correct (room sum : Nat) (pairs : List (Nat × Nat)) (left : Nat) (nonempty : pairs ≠ [])
    (enough : (pairs.map Prod.snd).sum + (pairs.length - 1) ≤ left) :
    (allot room sum pairs left).sum + (pairs.length - 1) = left ∧
      ∀ pair ∈ pairs.zip (allot room sum pairs left), pair.1.2 ≤ pair.2 := by
  induction pairs generalizing left with
  | nil => exact absurd rfl nonempty
  | cons pair rest ih =>
    match rest with
    | [] => simpa [allot] using enough
    | next :: later =>
      simp only [List.map_cons, List.sum_cons, List.length_cons, Nat.add_sub_cancel] at enough
      generalize shared : max (min (pair.1 * room / sum) (left -
        (((next :: later).map Prod.snd).sum + (next :: later).length))) pair.2 = share
      have unfolded : allot room sum (pair :: next :: later) left =
          share :: allot room sum (next :: later) (left - (share + 1)) := by
        rw [← shared]
        rfl
      have low : pair.2 ≤ share := shared ▸ le_max_right _ _
      have fits : (((next :: later).map Prod.snd).sum + ((next :: later).length - 1)) ≤ left - (share + 1) := by
        simp only [List.map_cons, List.sum_cons, List.length_cons] at shared ⊢
        omega
      have within : share + 1 ≤ left := by
        simp only [List.map_cons, List.sum_cons, List.length_cons] at shared
        omega
      obtain ⟨total, each⟩ := ih (left - (share + 1)) (by simp) fits
      rw [unfolded]
      constructor
      · simp only [List.sum_cons, List.length_cons, Nat.add_sub_cancel] at total ⊢
        omega
      · intro found member
        rw [List.zip_cons_cons] at member
        rcases List.mem_cons.mp member with head | tail
        · rw [head]
          exact low
        · exact each found tail

theorem allot_same (room : Nat) (pairs : List (Nat × Nat)) (left : Nat) (positive : 0 < room)
    (enough : ∀ pair ∈ pairs, pair.2 ≤ pair.1) (exact_ : (pairs.map Prod.fst).sum + (pairs.length - 1) = left) :
    allot room room pairs left = pairs.map Prod.fst := by
  induction pairs generalizing left with
  | nil => rfl
  | cons pair rest ih =>
    match rest with
    | [] => simpa [allot] using exact_.symm
    | next :: later =>
      simp only [List.map_cons, List.sum_cons, List.length_cons, Nat.add_sub_cancel] at exact_
      have mins : ((next :: later).map Prod.snd).sum ≤ ((next :: later).map Prod.fst).sum :=
        List.sum_le_sum fun other member => enough other (by simp [List.mem_cons.mp member])
      have own := enough pair (by simp)
      have share : max (min (pair.1 * room / room) (left -
          (((next :: later).map Prod.snd).sum + (next :: later).length))) pair.2 = pair.1 := by
        rw [Nat.mul_div_cancel _ positive]
        simp only [List.map_cons, List.sum_cons, List.length_cons] at mins ⊢
        omega
      have tail := ih (left - (pair.1 + 1)) (fun other member => enough other (by simp [List.mem_cons.mp member]))
        (by simp only [List.map_cons, List.sum_cons, List.length_cons, Nat.add_sub_cancel]; omega)
      have unfolded : allot room room (pair :: next :: later) left =
          max (min (pair.1 * room / room) (left -
            (((next :: later).map Prod.snd).sum + (next :: later).length))) pair.2 ::
          allot room room (next :: later) (left - (max (min (pair.1 * room / room) (left -
            (((next :: later).map Prod.snd).sum + (next :: later).length))) pair.2 + 1)) := rfl
      rw [unfolded, share, tail]
      rfl

section Shares

variable (children : List (Node Raw)) (axis : Axis) (total : Nat)

theorem shares_eq : ∃ room sum : Nat, ∃ sizes : List Nat, sizes.length = children.length ∧
    shares children axis total = allot room sum (sizes.zip (children.map (Node.minimum axis))) total := by
  refine ⟨_, _, _, ?_, rfl⟩
  have length := preferences_length children axis (total - (children.length - 1))
  have after := donations_length (List.range children.length)
    (preferences children axis (total - (children.length - 1)))
  rw [filterMap_full_length, after, length]
  intro index inside
  rw [after, length] at inside
  exact donations_fill _ _ index (List.mem_range.mpr inside) (by rw [length]; exact inside)

theorem shares_length : (shares children axis total).length = children.length := by
  obtain ⟨room, sum, sizes, length, same⟩ := shares_eq children axis total
  rw [same, allot_length, List.length_zip, List.length_map, length, min_self]

theorem shares_correct (nonempty : children ≠ [])
    (enough : (children.map (Node.minimum axis)).sum + (children.length - 1) ≤ total) :
    (shares children axis total).sum + (children.length - 1) = total ∧
      ∀ pair ∈ children.zip (shares children axis total), pair.1.minimum axis ≤ pair.2 := by
  obtain ⟨room, sum, sizes, length, same⟩ := shares_eq children axis total
  have mins : (sizes.zip (children.map (Node.minimum axis))).map Prod.snd = children.map (Node.minimum axis) :=
    List.map_snd_zip (by simp [length])
  have count : (sizes.zip (children.map (Node.minimum axis))).length = children.length := by
    simp [length]
  have result := allot_correct room sum (sizes.zip (children.map (Node.minimum axis))) total
    (by
      rw [← List.length_pos_iff_ne_nil, count]
      exact List.length_pos_iff_ne_nil.mpr nonempty)
    (by rw [mins, count]; exact enough)
  rw [count, ← same] at result
  refine ⟨result.1, ?_⟩
  intro pair member
  obtain ⟨index, inside, rfl⟩ := List.getElem_of_mem member
  have bound : index < children.length := by
    simp only [List.length_zip] at inside
    omega
  have shareBound : index < (shares children axis total).length := by
    rw [shares_length]
    exact bound
  have pairBound : index < (sizes.zip (children.map (Node.minimum axis))).length := by
    rw [count]
    exact bound
  have low := result.2
    ((sizes.zip (children.map (Node.minimum axis)))[index], (shares children axis total)[index])
    (by
      refine List.mem_iff_getElem.mpr ⟨index, ?_, ?_⟩
      · rw [List.length_zip, count]
        omega
      · simp)
  simpa using low

theorem shares_filled (sizes : List Nat) (prefs : preferences children axis (total - (children.length - 1)) = sizes.map some)
    (positive : 0 < sizes.sum) (enough : ∀ pair ∈ sizes.zip (children.map (Node.minimum axis)), pair.2 ≤ pair.1)
    (exact_ : sizes.sum + (children.length - 1) = total) : shares children axis total = sizes := by
  have length : sizes.length = children.length := by
    rw [← preferences_length children axis (total - (children.length - 1)), prefs, List.length_map]
  have filled : (List.range children.length).foldl donate (sizes.map some) = sizes.map some := by
    refine donations_filled _ _ fun index member => ?_
    have inside : index < sizes.length := by
      rw [length]
      exact List.mem_range.mp member
    rw [List.getElem?_map, List.getElem?_eq_getElem inside]
    rfl
  have flat : (sizes.map some).filterMap id = sizes := by
    simp [List.filterMap_map]
  have room : total - (children.length - 1) = sizes.sum := by omega
  have pairs : (sizes.zip (children.map (Node.minimum axis))).map Prod.fst = sizes :=
    List.map_fst_zip (by simp [length])
  rw [room] at prefs
  simp only [shares, room, prefs, filled, flat]
  rw [allot_same _ _ _ positive enough, pairs]
  rw [pairs, List.length_zip, List.length_map, length, min_self, exact_]

theorem shares_same (nonempty : children ≠ []) (sizes : List Nat)
    (known : children.map (Node.known axis) = sizes.map some) (positive : ∀ size ∈ sizes, 1 ≤ size)
    (enough : ∀ pair ∈ sizes.zip (children.map (Node.minimum axis)), pair.2 ≤ pair.1)
    (exact_ : sizes.sum + (children.length - 1) = total) :
    shares children axis total = sizes := by
  have length : sizes.length = children.length := by
    simpa using (congrArg List.length known).symm
  obtain ⟨size, rest, rfl⟩ := List.exists_cons_of_ne_nil (l := sizes) (by
    rw [← List.length_pos_iff_ne_nil, length]
    exact List.length_pos_iff_ne_nil.mpr nonempty)
  have first : 1 ≤ size := positive size (by simp)
  refine shares_filled children axis total _ (by simp [preferences, known]) ?_ enough exact_
  rw [List.sum_cons]
  omega

end Shares

inductive Branching {L : Type} : Node L → Prop where
  | leaf (tile : L) : Branching (.leaf tile)
  | split (axis : Axis) (children : List (Node L)) (several : 2 ≤ children.length)
      (each : ∀ child ∈ children, Branching child) : Branching (.split axis children)

theorem Branching.nonempty {L : Type} {node : Node L} (branching : Branching node) : node.leaves ≠ [] := by
  induction branching with
  | leaf tile => simp
  | split axis children several each ih =>
    match children, several with
    | child :: _, _ => simp [ih child (by simp)]

theorem fit_shape (node : Node Raw) (cols rows : Nat) :
    (fit node cols rows).map Leaf.pane = node.map Raw.pane := by
  induction node generalizing cols rows with
  | leaf raw => simp [fit_leaf]
  | split split children ih =>
    rw [fit_split, map_split, map_split, List.map_map]
    have length : children.length ≤ (shares children split (pick split cols rows)).length := by
      rw [shares_length]
    have firsts := List.map_fst_zip length
    conv_rhs => rw [← firsts, List.map_map]
    congr 1
    refine List.map_congr_left fun pair member => ?_
    exact ih pair.1 (List.of_mem_zip member).1 _ _

theorem fit_panes (node : Node Raw) (cols rows : Nat) :
    (fit node cols rows).panes = node.leaves.map Raw.pane := by
  rw [Node.panes, ← leaves_map, fit_shape, leaves_map]

theorem pick_child (split axis : Axis) (share cols rows : Nat) :
    pick axis (childCols split share cols) (childRows split share rows) =
      if split = axis then share else pick axis cols rows := by
  cases split <;> cases axis <;> simp [childCols, childRows, pick]

theorem minimum_le_across {L : Type} (axis split : Axis) (other : split ≠ axis) (children : List (Node L))
    (child : Node L) (member : child ∈ children) :
    child.minimum axis ≤ (Node.split split children).minimum axis := by
  rw [minimum_split, if_neg other]
  exact List.le_max?_getD_of_mem (List.mem_map_of_mem member)

structure Fits (node : Node Raw) (cols rows : Nat) : Prop where
  enough : ∀ axis, node.minimum axis ≤ pick axis cols rows
  bound : ∀ axis, pick axis cols rows ≤ maxDimension
  positive : ∀ axis, 1 ≤ pick axis cols rows

theorem Fits.child {split : Axis} {children : List (Node Raw)} {cols rows : Nat} (fits : Fits (.split split children) cols rows)
    (each : ∀ child ∈ children, Branching child) {pair : Node Raw × Nat}
    (member : pair ∈ children.zip (shares children split (pick split cols rows))) :
    Fits pair.1 (childCols split pair.2 cols) (childRows split pair.2 rows) := by
  have inside := (List.of_mem_zip member).1
  have nonempty : children ≠ [] := List.ne_nil_of_mem inside
  have room := fits.enough split
  rw [minimum_split, if_pos rfl] at room
  obtain ⟨total, least⟩ := shares_correct children split (pick split cols rows) nonempty room
  have share : pair.2 ≤ (shares children split (pick split cols rows)).sum :=
    List.single_le_sum (fun _ _ => Nat.zero_le _) _ (List.of_mem_zip member).2
  have small := fits.bound split
  constructor
  · intro axis
    rw [pick_child]
    split_ifs with same
    · exact same ▸ least pair member
    · exact (minimum_le_across axis split same children pair.1 inside).trans (fits.enough axis)
  · intro axis
    rw [pick_child]
    split_ifs with same
    · omega
    · exact fits.bound axis
  · intro axis
    rw [pick_child]
    split_ifs with same
    · exact (minimum_positive split pair.1 (each pair.1 inside).nonempty).trans (least pair member)
    · exact fits.positive axis

theorem Fits.spans {node : Node Raw} (branching : Branching node) {cols rows : Nat} (fits : Fits node cols rows) (axis : Axis) :
    Spans axis (fit node cols rows) (pick axis cols rows) := by
  induction branching generalizing cols rows axis with
  | leaf raw =>
    rw [fit_leaf, Spans.leaf_iff]
    have same := Cells.clamped_get _ (fits.positive axis) (fits.bound axis)
    cases axis <;> simpa [Leaf.extent, pick] using same
  | split split children several each ih =>
    have room := fits.enough split
    rw [minimum_split, if_pos rfl] at room
    obtain ⟨total, -⟩ := shares_correct children split (pick split cols rows) (List.ne_nil_of_length_pos (by omega)) room
    have length := shares_length children split (pick split cols rows)
    have part (pair : Node Raw × Nat) (member : pair ∈ children.zip (shares children split (pick split cols rows))) (axis : Axis) :
        Spans axis (fit pair.1 (childCols split pair.2 cols) (childRows split pair.2 rows))
          (if split = axis then pair.2 else pick axis cols rows) := by
      have result := ih pair.1 (List.of_mem_zip member).1 (fits.child each member) axis
      rwa [pick_child] at result
    rw [fit_split]
    generalize shares children split (pick split cols rows) = along at total length part ⊢
    by_cases same : split = axis
    · subst split
      rw [Spans.along_iff, List.length_map, List.length_zip, length, min_self, List.map_map]
      refine ⟨several, ?_, ?_⟩
      · intro child member
        obtain ⟨pair, inside, rfl⟩ := List.mem_map.mp member
        have spans := part pair inside axis
        rw [if_pos rfl] at spans
        rwa [spans.tiled]
      · have sizes : (children.zip along).map (tiledSize axis ∘ fun pair =>
            fit pair.1 (childCols axis pair.2 cols) (childRows axis pair.2 rows)) = along := by
          have seconds : (children.zip along).map Prod.snd = along := List.map_snd_zip (by omega)
          conv_rhs => rw [← seconds]
          refine List.map_congr_left fun pair member => ?_
          have spans := part pair member axis
          rw [if_pos rfl] at spans
          exact spans.tiled
        rw [sizes, total]
    · rw [Spans.across_iff same, List.length_map, List.length_zip, length, min_self]
      refine ⟨several, ?_⟩
      intro child member
      obtain ⟨pair, inside, rfl⟩ := List.mem_map.mp member
      simpa [same] using part pair inside axis

def Leaf.toRaw (leaf : Leaf) : Raw := ⟨leaf.pane, some leaf.cols.get, some leaf.rows.get⟩

theorem known_toRaw (axis : Axis) (node : Node Leaf) :
    (node.map Leaf.toRaw).known axis = node.known axis := by
  induction node with
  | leaf leaf => cases axis <;> simp [Tile.extent, Leaf.toRaw, Leaf.extent, pick]
  | split split children ih =>
    have same : (children.map (Node.map Leaf.toRaw)).filterMap (Node.known axis) =
        children.filterMap (Node.known axis) := by
      rw [List.filterMap_map]
      exact List.filterMap_congr ih
    simp only [map_split, known_split, same]

theorem shares_known {axis : Axis} {children : List (Node Leaf)} {total : Nat} (spans : Spans axis (.split axis children) total)
    {raws : List (Node Raw)} (known : raws.map (Node.known axis) = children.map fun child => some (tiledSize axis child))
    (minimum : raws.map (Node.minimum axis) = children.map (Node.minimum axis)) :
    shares raws axis total = children.map (tiledSize axis) := by
  obtain ⟨several, each, whole⟩ := Spans.along_iff.1 spans
  have length : raws.length = children.length := by
    simpa using congrArg List.length known
  refine shares_same _ axis _ (List.ne_nil_of_length_pos (by omega)) (children.map (tiledSize axis)) ?_ ?_ ?_ ?_
  · rw [known, List.map_map]
    rfl
  · intro size member
    obtain ⟨child, inside, rfl⟩ := List.mem_map.mp member
    exact (each child inside).positive
  · intro pair member
    rw [minimum, List.zip_map', List.mem_map] at member
    obtain ⟨child, inside, rfl⟩ := member
    exact minimum_le_tiledSize axis child
  · rw [length, whole]

theorem fit_same (node : Node Leaf) (cols rows : Nat)
    (spans : ∀ axis, Spans axis node (pick axis cols rows)) :
    fit (node.map Leaf.toRaw) cols rows = node := by
  induction node generalizing cols rows with
  | leaf leaf =>
    have width := Spans.leaf_iff.mp (spans .horizontal)
    have height := Spans.leaf_iff.mp (spans .vertical)
    simp only [Leaf.extent, pick] at width height
    simp [fit_leaf, Leaf.toRaw, ← width, ← height]
  | split split children ih =>
    have whole := spans split
    have each := (Spans.along_iff.1 whole).2.1
    have along : shares (children.map (Node.map Leaf.toRaw)) split (pick split cols rows) =
        children.map (tiledSize split) := by
      refine shares_known whole ?_ ?_
      · rw [List.map_map]
        refine List.map_congr_left fun child member => ?_
        simp [known_toRaw, (each child member).known]
      · rw [List.map_map]
        exact List.map_congr_left fun child _ => minimum_map split Leaf.toRaw child
    rw [map_split, fit_split, along, List.zip_map', List.map_map]
    congr 1
    conv_rhs => rw [← List.map_id children]
    refine List.map_congr_left fun child member => ?_
    refine ih child member _ _ fun axis => ?_
    rw [pick_child]
    split_ifs with same
    · exact same ▸ each child member
    · exact ((Spans.across_iff same).mp (spans axis)).2 child member

end Kido.Tiling

namespace Kido.Tiling

open Node

-- The node `inner` is in the tree, and `plug` puts another one in its place.
inductive Hole {L : Type} (inner : Node L) : Node L → (Node L → Node L) → Prop where
  | here : Hole inner inner fun node => node
  | inside (split : Axis) (front : List (Node L)) {child : Node L} (back : List (Node L)) {plug : Node L → Node L}
      (deeper : Hole inner child plug) :
      Hole inner (.split split (front ++ child :: back)) fun node => .split split (front ++ plug node :: back)

namespace Hole

variable {L : Type} {inner tree : Node L} {plug : Node L → Node L}

theorem plug_self (hole : Hole inner tree plug) : plug inner = tree := by
  induction hole with
  | here => rfl
  | inside split front back deeper ih => exact congrArg (fun node => Node.split split (front ++ node :: back)) ih

theorem plugged (hole : Hole inner tree plug) (node : Node L) : Hole node (plug node) plug := by
  induction hole with
  | here => exact .here
  | inside split front back deeper ih => exact .inside split front back ih

theorem leaves (hole : Hole inner tree plug) : ∃ front back, ∀ node, (plug node).leaves = front ++ node.leaves ++ back := by
  induction hole with
  | here => exact ⟨[], [], fun node => by simp⟩
  | inside split front back deeper ih =>
    obtain ⟨before, after, same⟩ := ih
    refine ⟨front.flatMap Node.leaves ++ before, after ++ back.flatMap Node.leaves, fun node => ?_⟩
    rw [leaves_split, List.flatMap_append, List.flatMap_cons, same]
    simp only [List.append_assoc]

theorem map_eq {M : Type} (hole : Hole inner tree plug) (f : L → M) {node : Node L} (same : node.map f = inner.map f) :
    (plug node).map f = tree.map f := by
  induction hole with
  | here => exact same
  | inside split front back deeper ih => simp only [map_split, List.map_append, List.map_cons, ih]

end Hole

section Panes

variable {inner tree : Node Leaf} {plug : Node Leaf → Node Leaf}

theorem Hole.panes (hole : Hole inner tree plug) : List.Sublist inner.panes tree.panes := by
  obtain ⟨front, back, leaves⟩ := hole.leaves
  rw [← hole.plug_self, Node.panes, Node.panes, leaves]
  exact ((List.sublist_append_right front _).trans (List.sublist_append_left _ back)).map _

theorem panes_of_map {first second : Node Leaf} (same : first.map Leaf.pane = second.map Leaf.pane) : first.panes = second.panes := by
  rw [Node.panes, Node.panes, ← Node.leaves_map, ← Node.leaves_map, same]

end Panes

section Spans

variable {inner tree node : Node Leaf} {plug : Node Leaf → Node Leaf} {axis : Axis}

theorem Hole.inner_spans (hole : Hole inner tree plug) {n : Nat} (spans : Spans axis tree n) : ∃ m ≤ n, Spans axis inner m := by
  induction hole generalizing n with
  | here => exact ⟨n, le_rfl, spans⟩
  | @inside split front child back plug deeper ih =>
    have inside : child ∈ front ++ child :: back := List.mem_append_right _ List.mem_cons_self
    by_cases same : split = axis
    · subst split
      obtain ⟨several, each, total⟩ := Spans.along_iff.1 spans
      obtain ⟨m, small, inner⟩ := ih (each child inside)
      have share := List.single_le_sum (fun size _ => Nat.zero_le size) _ (List.mem_map_of_mem (f := tiledSize axis) inside)
      exact ⟨m, by omega, inner⟩
    · exact ih (((Spans.across_iff same).1 spans).2 child inside)

theorem Hole.spans (hole : Hole inner tree plug) {n : Nat} (spans : Spans axis tree n)
    (same : ∀ m, Spans axis inner m → Spans axis node m) : Spans axis (plug node) n := by
  induction hole generalizing n with
  | here => exact same n spans
  | @inside split front child back plug deeper ih =>
    have inside : child ∈ front ++ child :: back := List.mem_append_right _ List.mem_cons_self
    have several : (front ++ plug node :: back).length = (front ++ child :: back).length := by simp
    have others {P : Node Leaf → Prop} (each : ∀ other ∈ front ++ child :: back, P other) (own : P (plug node)) :
        ∀ other ∈ front ++ plug node :: back, P other := by
      intro other there
      rcases List.mem_append.1 there with there | there
      · exact each other (List.mem_append_left _ there)
      · rcases List.mem_cons.1 there with rfl | there
        · exact own
        · exact each other (List.mem_append_right _ (List.mem_cons_of_mem _ there))
    by_cases equal : split = axis
    · subst split
      obtain ⟨many, each, total⟩ := Spans.along_iff.1 spans
      have plugged := ih (each child inside)
      rw [Spans.along_iff, several]
      refine ⟨many, others each ?_, ?_⟩
      · rw [plugged.tiled]
        exact plugged
      · rw [← total]
        simp only [List.map_append, List.map_cons, plugged.tiled]
    · obtain ⟨many, each⟩ := (Spans.across_iff equal).1 spans
      rw [Spans.across_iff equal, several]
      exact ⟨many, others each (ih (each child inside))⟩

theorem Hole.known (hole : Hole inner tree plug) (same : node.known axis = inner.known axis) :
    (plug node).known axis = tree.known axis := by
  induction hole with
  | here => exact same
  | inside split front back deeper ih => simp only [known_split, List.filterMap_append, List.filterMap_cons, ih]

-- A part whose sizes are changed is fitted to its own extent, where the extents around it are as they were: it is as large as
-- before on an axis, or as large as the tree.
theorem Hole.fit (hole : Hole inner tree plug) (panes : node.map Leaf.pane = inner.map Leaf.pane) {cols rows : Nat}
    (spans : ∀ axis, Spans axis tree (pick axis cols rows))
    (fills : ∀ axis, node.known axis = inner.known axis ∨ Spans axis inner (pick axis cols rows)) :
    ∃ cols' rows', (∀ axis, Spans axis inner (pick axis cols' rows')) ∧
      Tiling.fit ((plug node).map Leaf.toRaw) cols rows = plug (Tiling.fit (node.map Leaf.toRaw) cols' rows') := by
  induction hole generalizing cols rows with
  | here => exact ⟨cols, rows, spans, rfl⟩
  | @inside split front child back plug deeper ih =>
    have inside : child ∈ front ++ child :: back := List.mem_append_right _ List.mem_cons_self
    have whole := spans split
    obtain ⟨several, each, total⟩ := Spans.along_iff.1 whole
    obtain ⟨m, small, innerSpans⟩ := deeper.inner_spans (each child inside)
    have less : m < pick split cols rows := by
      have share := List.single_le_sum (fun size _ => Nat.zero_le size) _ (List.mem_map_of_mem (f := tiledSize split) inside)
      omega
    have known : node.known split = inner.known split := by
      rcases fills split with known | filling
      · exact known
      · have equal := innerSpans.tiled.symm.trans filling.tiled
        omega
    have shape := deeper.map_eq Leaf.pane panes
    have along : shares ((front ++ plug node :: back).map (Node.map Leaf.toRaw)) split (pick split cols rows) =
        (front ++ child :: back).map (tiledSize split) := by
      refine shares_known whole ?_ ?_
      · have own (other : Node Leaf) (there : other ∈ front ++ child :: back) :
            (other.map Leaf.toRaw).known split = some (tiledSize split other) := by
          rw [known_toRaw, (each other there).known]
        have plugged : ((plug node).map Leaf.toRaw).known split = some (tiledSize split child) := by
          rw [known_toRaw, deeper.known known, (each child inside).known]
        have ownFront := List.map_congr_left fun other there => own other (List.mem_append_left _ there)
        have ownBack := List.map_congr_left fun other there =>
          own other (List.mem_append_right _ (List.mem_cons_of_mem child there))
        simp only [List.map_map, List.map_append, List.map_cons, Function.comp_def, plugged, ownFront, ownBack]
      · have minimum : (plug node).minimum split = child.minimum split := by
          rw [← minimum_map split Leaf.pane (plug node), shape, minimum_map]
        simp only [List.map_map, List.map_append, List.map_cons, Function.comp_def, minimum_map, minimum]
    have part (other : Node Leaf) (there : other ∈ front ++ child :: back) (axis : Axis) :
        Spans axis other (pick axis (childCols split (tiledSize split other) cols) (childRows split (tiledSize split other) rows)) := by
      rw [pick_child]
      split_ifs with same
      · exact same ▸ each other there
      · exact ((Spans.across_iff same).1 (spans axis)).2 other there
    obtain ⟨cols', rows', innerExtent, fitted⟩ := ih (part child inside) fun axis => by
      rw [pick_child]
      split_ifs with same
      · exact .inl (same ▸ known)
      · exact fills axis
    refine ⟨cols', rows', innerExtent, ?_⟩
    have others (list : List (Node Leaf)) (there : ∀ other ∈ list, other ∈ front ++ child :: back) :
        ((list.map (Node.map Leaf.toRaw)).zip (list.map (tiledSize split))).map
          (fun pair => Tiling.fit pair.1 (childCols split pair.2 cols) (childRows split pair.2 rows)) = list := by
      rw [List.zip_map', List.map_map]
      conv_rhs => rw [← List.map_id list]
      exact List.map_congr_left fun other own => fit_same other _ _ (part other (there other own))
    rw [map_split, fit_split, along, List.map_append, List.map_append, List.map_cons, List.map_cons,
      List.zip_append (by simp), List.zip_cons_cons, List.map_append, List.map_cons, fitted,
      others front fun other own => List.mem_append_left _ own,
      others back fun other own => List.mem_append_right _ (List.mem_cons_of_mem _ own)]

end Spans

end Kido.Tiling
