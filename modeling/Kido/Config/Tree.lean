import Mathlib.Algebra.Order.BigOperators.Group.List
import Mathlib.Data.List.MinMax
import Kido.Config.Yaml
import Mathlib.Algebra.Order.Ring.Nat

set_option autoImplicit false

namespace Kido.Config.Yaml

section Sizes

mutual

def Node.count : Node → Nat
  | .mk _ _ _ value => value.count

def Value.count : Value → Nat
  | .scalar _ _ => 1
  | .list items => 1 + countItems items
  | .map entries => 1 + countEntries entries

def countItems : List Node → Nat
  | [] => 0
  | item :: rest => item.count + countItems rest

def countEntries : List Entry → Nat
  | [] => 0
  | .mk _ _ value :: rest => 1 + value.count + countEntries rest

end

mutual

def Node.nesting : Node → Nat
  | .mk _ _ _ value => value.nesting

def Value.nesting : Value → Nat
  | .scalar _ _ => 0
  | .list items => 1 + nestingItems items
  | .map entries => 1 + nestingEntries entries

def nestingItems : List Node → Nat
  | [] => 0
  | item :: rest => max item.nesting (nestingItems rest)

def nestingEntries : List Entry → Nat
  | [] => 0
  | .mk _ _ value :: rest => max value.nesting (nestingEntries rest)

end

end Sizes

-- The node is somewhere in the tree.
inductive Within (sub : Node) : Node → Prop where
  | self : Within sub sub
  | item {at_ : Pos} {size depth : Nat} {items : List Node} {item : Node} (inside : item ∈ items) (deeper : Within sub item) :
      Within sub (.mk at_ size depth (.list items))
  | entry {at_ : Pos} {size depth : Nat} {entries : List Entry} {entry : Entry} (inside : entry ∈ entries) (deeper : Within sub entry.value) :
      Within sub (.mk at_ size depth (.map entries))

def Value.Distinct : Value → Prop
  | .scalar _ _ => True
  | .list _ => True
  | .map entries => (entries.map Entry.key).Nodup

-- The node and all in it have the sizes that they say, and keys that are distinct.
def Honest (node : Node) : Prop := ∀ sub, Within sub node → sub.size = sub.count ∧ sub.depth = sub.nesting ∧ sub.value.Distinct

section Honest

theorem Honest.own {node : Node} (honest : Honest node) : node.size = node.count ∧ node.depth = node.nesting ∧ node.value.Distinct :=
  honest node .self

theorem honest_scalar (at_ : Pos) (text : String) (plain : Bool) : Honest (.new at_ (.scalar text plain)) := by
  intro sub within
  cases within with
  | self => exact ⟨rfl, rfl, trivial⟩

theorem foldl_items (items : List Node) (start : Nat) :
    items.foldl (fun sum item => sum + item.size) start = start + (items.map Node.size).sum := by
  induction items generalizing start with
  | nil => rfl
  | cons item rest ih =>
    rw [List.foldl_cons, ih, List.map_cons, List.sum_cons]
    omega

theorem foldl_entries (entries : List Entry) (start : Nat) :
    entries.foldl (fun sum entry => sum + 1 + entry.value.size) start = start + (entries.map fun entry => 1 + entry.value.size).sum := by
  induction entries generalizing start with
  | nil => rfl
  | cons entry rest ih =>
    rw [List.foldl_cons, ih, List.map_cons, List.sum_cons]
    omega

theorem countItems_sum {items : List Node} (honest : ∀ item ∈ items, Honest item) : countItems items = (items.map Node.size).sum := by
  induction items with
  | nil => rfl
  | cons item rest ih =>
    rw [countItems, List.map_cons, List.sum_cons, ih fun item inside => honest item (List.mem_cons_of_mem _ inside),
      (honest item List.mem_cons_self).own.1]

theorem countEntries_sum {entries : List Entry} (honest : ∀ entry ∈ entries, Honest entry.value) :
    countEntries entries = (entries.map fun entry => 1 + entry.value.size).sum := by
  induction entries with
  | nil => rfl
  | cons entry rest ih =>
    obtain ⟨key, at_, value⟩ := entry
    have own : value.size = value.count := (honest _ List.mem_cons_self).own.1
    rw [countEntries, List.map_cons, List.sum_cons, ih fun entry inside => honest entry (List.mem_cons_of_mem _ inside), ← own]
    rfl

theorem max_getD (numbers : List Nat) : numbers.max?.getD 0 = numbers.foldr max 0 := by
  induction numbers with
  | nil => rfl
  | cons number rest ih =>
    rw [List.max?_cons, List.foldr_cons, ← ih]
    cases rest.max? <;> simp

theorem nestingItems_max {items : List Node} (honest : ∀ item ∈ items, Honest item) :
    nestingItems items = (items.map Node.depth).max?.getD 0 := by
  rw [max_getD]
  induction items with
  | nil => rfl
  | cons item rest ih =>
    rw [nestingItems, List.map_cons, List.foldr_cons, ih fun item inside => honest item (List.mem_cons_of_mem _ inside),
      (honest item List.mem_cons_self).own.2.1]

theorem nestingEntries_max {entries : List Entry} (honest : ∀ entry ∈ entries, Honest entry.value) :
    nestingEntries entries = (entries.map fun entry => entry.value.depth).max?.getD 0 := by
  rw [max_getD]
  induction entries with
  | nil => rfl
  | cons entry rest ih =>
    obtain ⟨key, at_, value⟩ := entry
    have own : value.depth = value.nesting := (honest _ List.mem_cons_self).own.2.1
    rw [nestingEntries, List.map_cons, List.foldr_cons, ih fun entry inside => honest entry (List.mem_cons_of_mem _ inside), ← own]
    rfl

theorem honest_list (at_ : Pos) {items : List Node} (honest : ∀ item ∈ items, Honest item) : Honest (.new at_ (.list items)) := by
  intro sub within
  cases within with
  | self =>
    refine ⟨?_, ?_, trivial⟩
    · rw [Node.new, Node.size, foldl_items, ← countItems_sum honest]
      rfl
    · rw [Node.new, Node.depth, ← nestingItems_max honest]
      rfl
  | item inside deeper => exact honest _ inside sub deeper

theorem honest_map (at_ : Pos) {entries : List Entry} (honest : ∀ entry ∈ entries, Honest entry.value)
    (distinct : (entries.map Entry.key).Nodup) : Honest (.new at_ (.map entries)) := by
  intro sub within
  cases within with
  | self =>
    refine ⟨?_, ?_, distinct⟩
    · rw [Node.new, Node.size, foldl_entries, ← countEntries_sum honest]
      rfl
    · rw [Node.new, Node.depth, ← nestingEntries_max honest]
      rfl
  | entry inside deeper => exact honest _ inside sub deeper

end Honest

section Frames

def Frame.nodes : Frame → List Node
  | .list _ _ items => items
  | .map _ _ entries _ _ => entries.map Entry.value

-- How large the node of a frame is so far, with the key that waits for its value.
def Frame.size : Frame → Nat
  | .list _ _ items => 1 + (items.map Node.size).sum
  | .map _ _ entries _ key => 1 + (entries.map fun entry => 1 + entry.value.size).sum + if key.isSome then 1 else 0

def Frame.Keyed : Frame → Prop
  | .list .. => True
  | .map _ _ entries seen _ => (entries.map Entry.key).Nodup ∧ ∀ key, key ∈ seen ↔ key ∈ entries.map Entry.key

-- The frames have nodes that say their sizes, and that are no deeper than is left under the frames around them.
def Framed : List Frame → Prop
  | [] => True
  | frame :: rest =>
    rest.length + 1 ≤ maxDepth ∧ (∀ node ∈ frame.nodes, Honest node ∧ rest.length + 1 + node.depth ≤ maxDepth) ∧ frame.Keyed ∧ Framed rest

structure Sound (state : State) : Prop where
  anchors : ∀ id node, state.anchors id = some node → Honest node
  root : ∀ node, state.root = some node → Honest node ∧ node.size ≤ maxNodes ∧ node.depth ≤ maxDepth
  framed : Framed state.stack
  open_ : (state.stack.map Frame.size).sum ≤ state.nodes

theorem Framed.small {stack : List Frame} (framed : Framed stack) : stack.length ≤ maxDepth := by
  cases stack with
  | nil => exact Nat.zero_le _
  | cons frame rest => exact framed.1

theorem sound_start : Sound .start where
  anchors := fun id node is => absurd is (by simp [State.start])
  root := fun node is => absurd is (by simp [State.start])
  framed := trivial
  open_ := Nat.le_refl _

theorem bind_honest {anchors : Nat → Option Node} (own : ∀ id node, anchors id = some node → Honest node) {node : Node} (honest : Honest node)
    (anchor : Nat) : ∀ id found, bind anchors anchor node id = some found → Honest found := by
  intro id found is
  rw [bind] at is
  split_ifs at is with none_
  · exact own id found is
  · by_cases same : id = anchor
    · rw [same, Function.update_self, Option.some.injEq] at is
      exact is ▸ honest
    · rw [Function.update_of_ne same] at is
      exact own id found is

theorem scalar_size {node : Node} (honest : Honest node) {text : String} {plain : Bool} (is : node.value = .scalar text plain) :
    node.size = 1 := by
  obtain ⟨at_, size, depth, value⟩ := node
  obtain rfl : value = .scalar text plain := is
  exact honest.own.1

section Finish

variable {debug : String → String} {state after : State} {at_ : Pos} {anchor : Nat} {node : Node}

-- A node that is complete is added to what is open, where there is room for it.
theorem finish_sound (sound : Sound state) (honest : Honest node) (room : node.size + (state.stack.map Frame.size).sum ≤ state.nodes)
    (shallow : state.stack.length + node.depth ≤ maxDepth) (done : finish debug state at_ anchor node = .ok after) : Sound after := by
  have bound := bind_honest sound.anchors honest anchor
  have framed := sound.framed
  obtain ⟨anchors, stack, root, documents, nodes⟩ := state
  simp only [finish] at done
  simp only at room shallow framed
  split_ifs at done with many
  cases stack with
  | nil =>
    obtain rfl := Except.ok.inj done
    exact ⟨bound, fun own is => by
      obtain rfl := Option.some.inj is
      have few : node.size ≤ nodes := by simpa using room
      exact ⟨honest, few.trans (not_lt.mp many), by simpa using shallow⟩, framed, sound.open_⟩
  | cons frame rest =>
    obtain ⟨short, own, keyed, others⟩ := framed
    rw [List.map_cons, List.sum_cons] at room
    rw [List.length_cons] at shallow
    cases frame with
    | list start opened items =>
      obtain rfl := Except.ok.inj done
      refine ⟨bound, sound.root, ⟨short, ?_, trivial, others⟩, ?_⟩
      · intro child inside
        rcases List.mem_append.mp inside with inside | inside
        · exact own child inside
        · rw [List.mem_singleton.mp inside]
          exact ⟨honest, shallow⟩
      · simp only [List.map_cons, List.sum_cons, Frame.size, List.map_append, List.sum_append, List.map_nil, List.sum_nil] at room ⊢
        omega
    | map start opened entries seen key =>
      cases key with
      | none =>
        cases value : node.value with
        | scalar text plain =>
          rw [value] at done
          obtain rfl := Except.ok.inj done
          have single := scalar_size honest value
          refine ⟨bound, sound.root, ⟨short, own, keyed, others⟩, ?_⟩
          simp only [List.map_cons, List.sum_cons, Frame.size, Option.isSome_none, Option.isSome_some, if_true, Bool.false_eq_true, if_false] at room ⊢
          omega
        | list items =>
          rw [value] at done
          exact absurd done (by simp)
        | map entries =>
          rw [value] at done
          exact absurd done (by simp)
      | some pair =>
        obtain ⟨key, keyAt⟩ := pair
        simp only at done
        split_ifs at done with twice
        obtain rfl := Except.ok.inj done
        obtain ⟨distinct, seen_⟩ := keyed
        refine ⟨bound, sound.root, ⟨short, ?_, ⟨?_, ?_⟩, others⟩, ?_⟩
        · intro child inside
          rw [Frame.nodes, List.map_append, List.mem_append] at inside
          rcases inside with inside | inside
          · exact own child inside
          · rw [List.map_singleton, List.mem_singleton] at inside
            rw [inside]
            exact ⟨honest, shallow⟩
        · rw [List.map_append, List.nodup_append]
          refine ⟨distinct, by simp, fun one here two there same => ?_⟩
          rw [List.map_singleton, List.mem_singleton] at there
          refine twice ((seen_ key).mpr ?_)
          rw [same, there] at here
          exact here
        · intro other
          rw [List.mem_cons, seen_, List.map_append, List.mem_append, List.map_singleton, List.mem_singleton, or_comm]
          rfl
        · simp only [List.map_cons, List.sum_cons, Frame.size, Option.isSome_none, Option.isSome_some, if_true, Bool.false_eq_true, if_false,
            List.map_append, List.sum_append, List.map_nil, List.sum_nil, Entry.value] at room ⊢
          omega

variable {event : Event}

theorem max_le_of {numbers : List Nat} {bound : Nat} (each : ∀ number ∈ numbers, number ≤ bound) : numbers.max?.getD 0 ≤ bound := by
  rw [max_getD]
  induction numbers with
  | nil => exact Nat.zero_le _
  | cons number rest ih =>
    exact max_le (each number List.mem_cons_self) (ih fun number inside => each number (List.mem_cons_of_mem _ inside))

-- A frame that is closed gives a node that says its size, and that is no deeper than is left.
theorem closed_list {start : Pos} {opened : Nat} {items : List Node} {rest : List Frame} (framed : Framed (.list start opened items :: rest)) :
    Honest (.new start (.list items)) ∧ (Node.new start (.list items)).size = (Frame.list start opened items).size ∧
      rest.length + (Node.new start (.list items)).depth ≤ maxDepth := by
  obtain ⟨short, own, -, -⟩ := framed
  refine ⟨honest_list start fun item inside => (own item inside).1, foldl_items items 1, ?_⟩
  have least : (items.map Node.depth).max?.getD 0 ≤ maxDepth - (rest.length + 1) := by
    refine max_le_of fun depth inside => ?_
    obtain ⟨item, there, rfl⟩ := List.mem_map.mp inside
    have shallow := (own item there).2
    omega
  rw [Node.new, Node.depth]
  omega

theorem closed_map {start : Pos} {opened : Nat} {entries : List Entry} {seen : List String} {key : Option (String × Pos)} {rest : List Frame}
    (framed : Framed (.map start opened entries seen key :: rest)) :
    Honest (.new start (.map entries)) ∧ (Node.new start (.map entries)).size ≤ (Frame.map start opened entries seen key).size ∧
      rest.length + (Node.new start (.map entries)).depth ≤ maxDepth := by
  obtain ⟨short, own, ⟨distinct, -⟩, -⟩ := framed
  have own_ (entry : Entry) (inside : entry ∈ entries) := own entry.value (List.mem_map_of_mem inside)
  refine ⟨honest_map start (fun entry inside => (own_ entry inside).1) distinct, ?_, ?_⟩
  · rw [Node.new, Node.size, foldl_entries, Frame.size]
    omega
  · have least : (entries.map fun entry => entry.value.depth).max?.getD 0 ≤ maxDepth - (rest.length + 1) := by
      refine max_le_of fun depth inside => ?_
      obtain ⟨entry, there, rfl⟩ := List.mem_map.mp inside
      have shallow := (own_ entry there).2
      omega
    rw [Node.new, Node.depth]
    omega

theorem opened_sound (sound : Sound state) {frame : Frame} (single : frame.size = 1) (empty : frame.nodes = []) (keyed : frame.Keyed)
    (room : ¬ maxDepth ≤ state.stack.length) : Sound { state with nodes := state.nodes + 1, stack := frame :: state.stack } where
  anchors := sound.anchors
  root := sound.root
  framed := by
    refine ⟨by omega, fun node inside => ?_, keyed, sound.framed⟩
    rw [empty] at inside
    exact absurd inside (by simp)
  open_ := by
    have held := sound.open_
    change ((frame :: state.stack).map Frame.size).sum ≤ state.nodes + 1
    rw [List.map_cons, List.sum_cons, single]
    omega

theorem on_sound (sound : Sound state) (done : on debug state event at_ = .ok after) : Sound after := by
  rw [on.eq_def] at done
  by_cases tagged : event.tagged = true
  · rw [if_pos tagged] at done
    exact absurd done (by simp)
  rw [if_neg tagged] at done
  have held := sound.open_
  cases event with
  | nothing => exact Except.ok.inj done ▸ sound
  | streamStart => exact Except.ok.inj done ▸ sound
  | streamEnd => exact Except.ok.inj done ▸ sound
  | documentEnd => exact Except.ok.inj done ▸ sound
  | documentStart explicit =>
    simp only at done
    split_ifs at done
    obtain rfl := Except.ok.inj done
    exact ⟨sound.anchors, sound.root, sound.framed, sound.open_⟩
  | scalar text style anchor tag =>
    have counted : Sound { state with nodes := state.nodes + 1 } := ⟨sound.anchors, sound.root, sound.framed, by simp only; omega⟩
    refine finish_sound counted (honest_scalar _ _ _) ?_ ?_ done
    · simp only [Node.new, Node.size]
      omega
    · simpa [Node.new, Node.depth] using sound.framed.small
  | alias_ id =>
    simp only at done
    cases found : state.anchors id with
    | none =>
      rw [found] at done
      exact absurd done (by simp)
    | some node =>
      rw [found] at done
      simp only at done
      split_ifs at done with deep
      have counted : Sound { state with nodes := state.nodes + node.size } := ⟨sound.anchors, sound.root, sound.framed, by simp only; omega⟩
      refine finish_sound counted (sound.anchors id node found) ?_ ?_ done
      · simp only
        omega
      · exact not_lt.mp deep
  | sequenceStart anchor tag =>
    simp only at done
    split_ifs at done with room
    exact Except.ok.inj done ▸ opened_sound sound rfl rfl trivial room
  | mappingStart anchor tag =>
    simp only at done
    split_ifs at done with room
    exact Except.ok.inj done ▸ opened_sound sound rfl rfl ⟨List.nodup_nil, by simp⟩ room
  | sequenceEnd =>
    simp only at done
    split at done
    next start opened items rest is =>
      have framed := sound.framed
      rw [is] at framed held
      rw [List.map_cons, List.sum_cons] at held
      obtain ⟨honest, size, shallow⟩ := closed_list framed
      have popped : Sound { state with stack := rest } := ⟨sound.anchors, sound.root, framed.2.2.2, by simp only; omega⟩
      refine finish_sound popped honest ?_ shallow done
      simp only
      omega
    next => exact absurd done (by simp)
  | mappingEnd =>
    simp only at done
    split at done
    next start opened entries seen key rest is =>
      have framed := sound.framed
      rw [is] at framed held
      rw [List.map_cons, List.sum_cons] at held
      obtain ⟨honest, size, shallow⟩ := closed_map framed
      have popped : Sound { state with stack := rest } := ⟨sound.anchors, sound.root, framed.2.2.2, by simp only; omega⟩
      refine finish_sound popped honest ?_ shallow done
      simp only
      omega
    next => exact absurd done (by simp)

end Finish

end Frames

section Meaning

-- What anchors stand for when there are none.
def noAnchors : Nat → Option Node := fun _ => none

-- The events that are not left out of a tree.
def significant : Event → Bool
  | .nothing => false
  | .streamStart => false
  | .streamEnd => false
  | .documentStart _ => false
  | .documentEnd => false
  | _ => true

def Node.keyOf (node : Node) : Option (String × Pos) :=
  match node.value with
  | .scalar text _ => some (text, node.at_)
  | _ => none

-- The nodes of a map by twos, and the key that is left over.
def pairUp : List Node → Option (List Entry × Option (String × Pos))
  | [] => some ([], none)
  | [key] => key.keyOf.map fun key => ([], some key)
  | key :: value :: rest => key.keyOf.bind fun key => (pairUp rest).map fun pairs => (.mk key.1 key.2 value :: pairs.1, pairs.2)

-- The events are those of the nodes one behind the other, each alias read as the node that its anchor stands for there.
inductive Reads : (Nat → Option Node) → List (Event × Pos) → List Node → (Nat → Option Node) → Prop where
  | done (anchors : Nat → Option Node) : Reads anchors [] [] anchors
  | scalar (at_ : Pos) (text : String) (style : ScalarStyle) (anchor : Nat) {anchors after : Nat → Option Node} {events : List (Event × Pos)}
      {nodes : List Node} (rest : Reads (bind anchors anchor (.new at_ (.scalar text (decide (style = .plain))))) events nodes after) :
      Reads anchors ((.scalar text style anchor none, at_) :: events) (.new at_ (.scalar text (decide (style = .plain))) :: nodes) after
  | alias_ (at_ : Pos) (id : Nat) {anchors after : Nat → Option Node} {node : Node} {events : List (Event × Pos)} {nodes : List Node}
      (stands : anchors id = some node) (rest : Reads anchors events nodes after) :
      Reads anchors ((.alias_ id, at_) :: events) (node :: nodes) after
  | list (at_ stop : Pos) (anchor : Nat) {anchors inner after : Nat → Option Node} {own events : List (Event × Pos)} {items nodes : List Node}
      (inside : Reads anchors own items inner) (rest : Reads (bind inner anchor (.new at_ (.list items))) events nodes after) :
      Reads anchors ((.sequenceStart anchor none, at_) :: own ++ (.sequenceEnd, stop) :: events) (.new at_ (.list items) :: nodes) after
  | map (at_ stop : Pos) (anchor : Nat) {anchors inner after : Nat → Option Node} {own events : List (Event × Pos)} {children nodes : List Node}
      {entries : List Entry} {left : Option (String × Pos)} (inside : Reads anchors own children inner)
      (pairs : pairUp children = some (entries, left)) (rest : Reads (bind inner anchor (.new at_ (.map entries))) events nodes after) :
      Reads anchors ((.mappingStart anchor none, at_) :: own ++ (.mappingEnd, stop) :: events) (.new at_ (.map entries) :: nodes) after

theorem Reads.append {anchors inner after : Nat → Option Node} {front back : List (Event × Pos)} {first second : List Node}
    (reads : Reads anchors front first inner) (then_ : Reads inner back second after) : Reads anchors (front ++ back) (first ++ second) after := by
  induction reads with
  | done anchors => exact then_
  | scalar at_ text style anchor rest ih => exact .scalar at_ text style anchor (ih then_)
  | alias_ at_ id stands rest ih => exact .alias_ at_ id stands (ih then_)
  | list at_ stop anchor inside rest ihInside ih =>
    rw [List.append_assoc, List.cons_append]
    exact .list at_ stop anchor inside (ih then_)
  | map at_ stop anchor inside pairs rest ihInside ih =>
    rw [List.append_assoc, List.cons_append]
    exact .map at_ stop anchor inside pairs (ih then_)

theorem pairUp_key {children : List Node} {entries : List Entry} {node : Node} {key : String × Pos}
    (pairs : pairUp children = some (entries, none)) (is : node.keyOf = some key) : pairUp (children ++ [node]) = some (entries, some key) := by
  fun_induction pairUp children generalizing entries with
  | case1 =>
    obtain ⟨rfl, -⟩ := Prod.mk.inj (Option.some.inj pairs)
    simp [pairUp, is]
  | case2 own => simp at pairs
  | case3 own value rest ih =>
    obtain ⟨first, found, pairs⟩ := Option.bind_eq_some_iff.mp pairs
    obtain ⟨⟨others, left⟩, tail, same⟩ := Option.map_eq_some_iff.mp pairs
    obtain ⟨rfl, rfl⟩ := Prod.mk.inj same
    simp only [List.cons_append, pairUp, ih tail, found, Option.bind_some, Option.map_some]

theorem pairUp_value {children : List Node} {entries : List Entry} {node : Node} {key : String × Pos}
    (pairs : pairUp children = some (entries, some key)) : pairUp (children ++ [node]) = some (entries ++ [.mk key.1 key.2 node], none) := by
  fun_induction pairUp children generalizing entries with
  | case1 => simp at pairs
  | case2 own =>
    obtain ⟨first, found, same⟩ := Option.map_eq_some_iff.mp pairs
    obtain ⟨rfl, is⟩ := Prod.mk.inj same
    obtain rfl := Option.some.inj is
    simp [pairUp, found]
  | case3 own value rest ih =>
    obtain ⟨first, found, pairs⟩ := Option.bind_eq_some_iff.mp pairs
    obtain ⟨⟨others, left⟩, tail, same⟩ := Option.map_eq_some_iff.mp pairs
    obtain ⟨rfl, rfl⟩ := Prod.mk.inj same
    simp only [List.cons_append, pairUp, ih tail, found, Option.bind_some, Option.map_some]

-- The events so far are those of the nodes that are complete and of the frames that are open.
inductive Opened : Option Node → List Frame → List (Event × Pos) → (Nat → Option Node) → Prop where
  | root {events : List (Event × Pos)} {nodes : List Node} {anchors : Nat → Option Node} {root : Option Node}
      (reads : Reads noAnchors events nodes anchors) (last : root = nodes.getLast?) : Opened root [] events anchors
  | list (at_ : Pos) (anchor : Nat) {root : Option Node} {rest : List Frame} {before own : List (Event × Pos)}
      {outer anchors : Nat → Option Node} {items : List Node} (below : Opened root rest before outer) (inside : Reads outer own items anchors) :
      Opened root (.list at_ anchor items :: rest) (before ++ (.sequenceStart anchor none, at_) :: own) anchors
  | map (at_ : Pos) (anchor : Nat) {root : Option Node} {rest : List Frame} {before own : List (Event × Pos)}
      {outer anchors : Nat → Option Node} {children : List Node} {entries : List Entry} {seen : List String} {key : Option (String × Pos)}
      (below : Opened root rest before outer) (inside : Reads outer own children anchors) (pairs : pairUp children = some (entries, key)) :
      Opened root (.map at_ anchor entries seen key :: rest) (before ++ (.mappingStart anchor none, at_) :: own) anchors

variable {debug : String → String} {state after : State} {at_ : Pos} {anchor : Nat} {node : Node}

-- A node that is complete stands behind what was read so far.
theorem finish_opened {root : Option Node} {stack : List Frame} {anchors now : Nat → Option Node} {documents nodes : Nat}
    {before own : List (Event × Pos)} (opened : Opened root stack before anchors) (reads : Reads anchors own [node] (bind now anchor node))
    (done : finish debug ⟨now, stack, root, documents, nodes⟩ at_ anchor node = .ok after) :
    Opened after.root after.stack (before ++ own) after.anchors := by
  simp only [finish] at done
  split_ifs at done with many
  cases opened with
  | root earlier last =>
    obtain rfl := Except.ok.inj done
    exact .root (earlier.append reads) List.getLast?_concat.symm
  | list start opened below inside =>
    obtain rfl := Except.ok.inj done
    rw [List.append_assoc, List.cons_append]
    exact .list start opened below (inside.append reads)
  | @map start opened _ rest _ _ _ _ _ entries seen key below inside pairs =>
    rw [List.append_assoc, List.cons_append]
    have whole := inside.append reads
    cases key with
    | none =>
      cases value : node.value with
      | scalar text plain =>
        rw [value] at done
        obtain rfl := Except.ok.inj done
        exact .map start opened below whole (pairUp_key pairs (by rw [Node.keyOf, value]))
      | list items =>
        rw [value] at done
        exact absurd done (by simp)
      | map entries =>
        rw [value] at done
        exact absurd done (by simp)
    | some pair =>
      simp only at done
      split_ifs at done with twice
      obtain rfl := Except.ok.inj done
      exact .map start opened below whole (pairUp_value pairs)

variable {event : Event}

-- What is read by an event is added to what was read before.
theorem on_opened {events : List (Event × Pos)} (opened : Opened state.root state.stack events state.anchors)
    (done : on debug state event at_ = .ok after) :
    Opened after.root after.stack (events ++ if significant event then [(event, at_)] else []) after.anchors := by
  rw [on.eq_def] at done
  by_cases tagged : event.tagged = true
  · rw [if_pos tagged] at done
    exact absurd done (by simp)
  rw [if_neg tagged] at done
  cases event with
  | nothing => simpa [significant, ← Except.ok.inj done] using opened
  | streamStart => simpa [significant, ← Except.ok.inj done] using opened
  | streamEnd => simpa [significant, ← Except.ok.inj done] using opened
  | documentEnd => simpa [significant, ← Except.ok.inj done] using opened
  | documentStart explicit =>
    simp only at done
    split_ifs at done
    simpa [significant, ← Except.ok.inj done] using opened
  | scalar text style anchor tag =>
    have untagged : tag = none := by simpa [Event.tagged] using tagged
    subst untagged
    exact finish_opened opened (.scalar at_ text style anchor (.done _)) done
  | alias_ id =>
    simp only at done
    cases found : state.anchors id with
    | none =>
      rw [found] at done
      exact absurd done (by simp)
    | some node =>
      rw [found] at done
      simp only at done
      split_ifs at done with deep
      exact finish_opened opened (.alias_ at_ id found (.done _)) done
  | sequenceStart anchor tag =>
    have untagged : tag = none := by simpa [Event.tagged] using tagged
    subst untagged
    simp only at done
    split_ifs at done with room
    obtain rfl := Except.ok.inj done
    exact .list at_ anchor opened (.done _)
  | mappingStart anchor tag =>
    have untagged : tag = none := by simpa [Event.tagged] using tagged
    subst untagged
    simp only at done
    split_ifs at done with room
    obtain rfl := Except.ok.inj done
    exact .map at_ anchor opened (.done _) rfl
  | sequenceEnd =>
    simp only at done
    split at done
    next start opened_ items rest is =>
      rw [is] at opened
      cases opened with
      | list _ _ below inside =>
        have whole := Reads.list start at_ opened_ inside (.done _)
        rw [List.append_assoc, List.cons_append]
        exact finish_opened below whole done
    next => exact absurd done (by simp)
  | mappingEnd =>
    simp only at done
    split at done
    next start opened_ entries seen key rest is =>
      rw [is] at opened
      cases opened with
      | map _ _ below inside pairs =>
        have whole := Reads.map start at_ opened_ inside pairs (.done _)
        rw [List.append_assoc, List.cons_append]
        exact finish_opened below whole done
    next => exact absurd done (by simp)

def starts : Event → Bool
  | .sequenceStart _ _ => true
  | .mappingStart _ _ => true
  | _ => false

def ends : Event → Bool
  | .sequenceEnd => true
  | .mappingEnd => true
  | _ => false

-- How many lists and maps are begun, and how many are ended.
def begun (events : List (Event × Pos)) : Nat := events.countP fun event => starts event.1

def ended (events : List (Event × Pos)) : Nat := events.countP fun event => ends event.1

-- The lists and maps that are begun and not ended, from the outermost on, each with the nodes in it that are complete.
inductive Unended (before : Nat → Option Node) : List (Event × Pos) → (Nat → Option Node) → Prop where
  | none : Unended before [] before
  | list (at_ : Pos) (anchor : Nat) {left own : List (Event × Pos)} {outer after : Nat → Option Node} {items : List Node}
      (around : Unended before left outer) (inside : Reads outer own items after) :
      Unended before (left ++ (.sequenceStart anchor none, at_) :: own) after
  | map (at_ : Pos) (anchor : Nat) {left own : List (Event × Pos)} {outer after : Nat → Option Node} {children : List Node}
      {entries : List Entry} {key : Option (String × Pos)} (around : Unended before left outer) (inside : Reads outer own children after)
      (pairs : pairUp children = some (entries, key)) : Unended before (left ++ (.mappingStart anchor none, at_) :: own) after

theorem begun_append (front back : List (Event × Pos)) : begun (front ++ back) = begun front + begun back := List.countP_append

theorem ended_append (front back : List (Event × Pos)) : ended (front ++ back) = ended front + ended back := List.countP_append

theorem begun_cons (event : Event × Pos) (events : List (Event × Pos)) :
    begun (event :: events) = begun events + if starts event.1 then 1 else 0 := List.countP_cons

theorem ended_cons (event : Event × Pos) (events : List (Event × Pos)) :
    ended (event :: events) = ended events + if ends event.1 then 1 else 0 := List.countP_cons

theorem Reads.balanced {anchors after : Nat → Option Node} {events : List (Event × Pos)} {nodes : List Node}
    (reads : Reads anchors events nodes after) : begun events = ended events := by
  induction reads with
  | done anchors => rfl
  | scalar at_ text style anchor rest ih => simpa [begun_cons, ended_cons, starts, ends] using ih
  | alias_ at_ id stands rest ih => simpa [begun_cons, ended_cons, starts, ends] using ih
  | list at_ stop anchor inside rest ihInside ih =>
    simp only [List.cons_append, begun_cons, ended_cons, begun_append, ended_append, starts, ends, if_true, Bool.false_eq_true, if_false]
    omega
  | map at_ stop anchor inside pairs rest ihInside ih =>
    simp only [List.cons_append, begun_cons, ended_cons, begun_append, ended_append, starts, ends, if_true, Bool.false_eq_true, if_false]
    omega

theorem Unended.balance {before after : Nat → Option Node} {left : List (Event × Pos)} (unended : Unended before left after) :
    left = [] ∨ ended left < begun left := by
  have more {left own : List (Event × Pos)} {start : Event × Pos} (around : left = [] ∨ ended left < begun left)
      (same : begun own = ended own) (begins : starts start.1 = true) (goes : ends start.1 = false) :
      ended (left ++ start :: own) < begun (left ++ start :: own) := by
    have least : ended left ≤ begun left := around.elim (fun none_ => by rw [none_]; exact Nat.le_refl _) Nat.le_of_lt
    simp only [begun_append, ended_append, begun_cons, ended_cons, begins, goes, if_true, Bool.false_eq_true, if_false]
    omega
  induction unended with
  | none => exact .inl rfl
  | list at_ anchor around inside ih => exact .inr (more ih inside.balanced rfl rfl)
  | map at_ anchor around inside pairs ih => exact .inr (more ih inside.balanced rfl rfl)

-- Under the open frames are the nodes that are complete.
theorem Opened.closed {root : Option Node} {stack : List Frame} {events : List (Event × Pos)} {after : Nat → Option Node}
    (opened : Opened root stack events after) : ∃ closed left nodes between, events = closed ++ left ∧
      Reads noAnchors closed nodes between ∧ Unended between left after ∧ root = nodes.getLast? := by
  induction opened with
  | root reads last => exact ⟨_, [], _, _, (List.append_nil _).symm, reads, .none, last⟩
  | list at_ anchor below inside ih =>
    obtain ⟨closed, left, nodes, between, rfl, reads, around, last⟩ := ih
    exact ⟨closed, _, nodes, between, List.append_assoc _ _ _, reads, .list at_ anchor around inside, last⟩
  | map at_ anchor below inside pairs ih =>
    obtain ⟨closed, left, nodes, between, rfl, reads, around, last⟩ := ih
    exact ⟨closed, _, nodes, between, List.append_assoc _ _ _, reads, .map at_ anchor around inside pairs, last⟩

def readOf : Item → Option (Event × Pos)
  | .ok (event, mark) => if significant event then some (event, .of mark) else none
  | .error _ => none

def eventsOf (items : List Item) : List (Event × Pos) := items.filterMap readOf

theorem load_kept {items : List Item} {events : List (Event × Pos)} (sound : Sound state)
    (opened : Opened state.root state.stack events state.anchors) (done : load debug state items = .ok after) :
    Sound after ∧ Opened after.root after.stack (events ++ eventsOf items) after.anchors := by
  induction items generalizing state events with
  | nil =>
    obtain rfl := Except.ok.inj done
    exact ⟨sound, by rwa [eventsOf, List.filterMap_nil, List.append_nil]⟩
  | cons item rest ih =>
    rw [load] at done
    cases stepped : step debug state item with
    | error error =>
      rw [stepped] at done
      exact absurd done (by simp)
    | ok next =>
      rw [stepped] at done
      cases item with
      | error problem => exact absurd stepped (by simp [step])
      | ok read =>
        have kept := ih (on_sound sound stepped) (on_opened opened stepped) done
        have own : (if significant read.1 then [(read.1, Pos.of read.2)] else []) = (readOf (.ok read)).toList := by
          rw [readOf]
          split_ifs <;> rfl
        rw [own, List.append_assoc] at kept
        have all : (readOf (.ok read)).toList ++ eventsOf rest = eventsOf (.ok read :: rest) := by
          rw [eventsOf, eventsOf, List.filterMap_cons]
          cases readOf (.ok read) <;> rfl
        rwa [all] at kept

end Meaning

theorem orEmpty_honest {root : Option Node}
    (own : ∀ node, root = some node → Honest node ∧ node.size ≤ maxNodes ∧ node.depth ≤ maxDepth) :
    Honest (orEmpty root) ∧ (orEmpty root).size ≤ maxNodes ∧ (orEmpty root).depth ≤ maxDepth := by
  have empty : Honest (.new ⟨1, 1⟩ (.map [])) ∧ (Node.new ⟨1, 1⟩ (.map [])).size ≤ maxNodes ∧ (Node.new ⟨1, 1⟩ (.map [])).depth ≤ maxDepth :=
    ⟨honest_map _ (by simp) (by simp), by decide, by decide⟩
  cases root with
  | none => exact empty
  | some root =>
    rw [orEmpty]
    split_ifs
    · exact empty
    · exact own root rfl

-- A tree that is accepted is within the bounds with all that its aliases stand for, its sizes are as recorded and its keys distinct, and
-- it is read from the events with each alias as the node of its anchor. Only what is begun and not ended is left, which is nothing
-- where all is ended.
theorem tree_loads (debug : String → String) {items : List Item} {node : Node} (accepted : tree debug items = .ok node) :
    node.count ≤ maxNodes ∧ node.nesting ≤ maxDepth ∧ (∀ sub, Within sub node → sub.size = sub.count ∧ sub.value.Distinct) ∧
      ∃ closed left nodes between after, eventsOf items = closed ++ left ∧ Reads noAnchors closed nodes between ∧
        Unended between left after ∧ (begun (eventsOf items) = ended (eventsOf items) → left = []) ∧ node = orEmpty nodes.getLast? := by
  rw [tree] at accepted
  cases loaded : load debug .start items with
  | error error =>
    rw [loaded] at accepted
    exact absurd accepted (by simp)
  | ok state =>
    rw [loaded] at accepted
    obtain rfl := Except.ok.inj accepted
    obtain ⟨sound, opened⟩ := load_kept sound_start (.root (.done noAnchors) rfl) loaded
    obtain ⟨honest, few, shallow⟩ := orEmpty_honest sound.root
    obtain ⟨closed, left, nodes, between, is, reads, unended, last⟩ := opened.closed
    rw [List.nil_append] at is
    refine ⟨honest.own.1 ▸ few, honest.own.2.1 ▸ shallow, fun sub within => ⟨(honest sub within).1, (honest sub within).2.2⟩,
      closed, left, nodes, between, _, is, reads, unended, fun balanced => ?_, by rw [last]⟩
    have whole := reads.balanced
    rw [is, begun_append, ended_append, whole] at balanced
    refine unended.balance.resolve_right fun more => ?_
    omega

-- A list with a scalar that has an anchor, and an alias of it.
def sharedItems : List Item := [
  .ok (.streamStart, ⟨1, 0⟩),
  .ok (.documentStart false, ⟨1, 0⟩),
  .ok (.sequenceStart 0 none, ⟨1, 0⟩),
  .ok (.scalar "x" .plain 1 none, ⟨1, 5⟩),
  .ok (.alias_ 1, ⟨2, 2⟩),
  .ok (.sequenceEnd, ⟨3, 0⟩),
  .ok (.documentEnd, ⟨3, 0⟩),
  .ok (.streamEnd, ⟨3, 0⟩)]

def sharedNode : Node := .new ⟨1, 1⟩ (.list [.new ⟨1, 6⟩ (.scalar "x" true), .new ⟨1, 6⟩ (.scalar "x" true)])

theorem tree_loads_shared :
    sharedNode.count = 3 ∧ sharedNode.count ≤ maxNodes ∧ sharedNode.nesting ≤ maxDepth ∧
      ∃ nodes after, Reads noAnchors (eventsOf sharedItems) nodes after ∧ sharedNode = orEmpty nodes.getLast? := by
  obtain ⟨few, shallow, -, closed, left, nodes, between, after, is, reads, -, none_, last⟩ :=
    tree_loads id (show tree id sharedItems = .ok sharedNode from rfl)
  obtain rfl := none_ rfl
  rw [List.append_nil] at is
  exact ⟨rfl, few, shallow, nodes, between, is ▸ reads, last⟩

end Kido.Config.Yaml
