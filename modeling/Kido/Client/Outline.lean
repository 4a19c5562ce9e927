import Kido.Client.Select
import Mathlib.Algebra.BigOperators.Group.List.Basic
import Mathlib.Algebra.Order.BigOperators.Group.List

set_option autoImplicit false

namespace Kido.Outlining

open Kido.Tiling

section Order

variable {T K : Type} [DecidableEq K] (items : List T) (id : T → K) (parent : T → Option K)

-- A map built from pairs keeps the last of a key.
def index (key : K) : Option Nat := (items.zipIdx.reverse.find? fun entry => decide (id entry.1 = key)).map Prod.snd

def found (entry : T × Nat) : Option Nat :=
  match (parent entry.1).bind (index items id) with
  | none => none
  | some above => if above = entry.2 then none else some above

def children (above : Nat) : List Nat :=
  (items.zipIdx.filter fun entry => decide (found items id parent entry = some above)).map Prod.snd

def roots : List Nat := (items.zipIdx.filter fun entry => decide (found items id parent entry = none)).map Prod.snd

end Order

section Walk

variable (children : Nat → List Nat)

-- The inner loop: what is seen is what the walk holds, and the stack's top is its first.
def drain : Nat → List (Nat × Nat) → List (Nat × Nat) → List (Nat × Nat) × List (Nat × Nat)
  | 0, walk, stack => (walk, stack)
  | _, walk, [] => (walk, [])
  | fuel + 1, walk, (at_, depth) :: stack =>
    if at_ ∈ walk.map Prod.fst then drain fuel walk stack
    else drain fuel (walk ++ [(at_, depth)]) ((children at_).map (·, depth + 1) ++ stack)

def walkFrom (fuel : Nat) (walk : List (Nat × Nat)) (start : Nat) : List (Nat × Nat) := (drain children fuel walk [(start, 0)]).1

end Walk

section Ordered

variable {T K : Type} [DecidableEq K] (items : List T) (id : T → K) (parent : T → Option K)

def starts : List Nat := roots items id parent ++ List.range items.length

def walk : List (Nat × Nat) := (starts items id parent).foldl (walkFrom (children items id parent) (items.length + 1)) []

-- Every position is walked once, so that no slot is taken twice.
def order : List (T × Nat) := (walk items id parent).filterMap fun entry => items[entry.1]?.map (·, entry.2)

end Ordered

-- A pane's row, with the runtime that marks it and the ids of its program's records.
structure Pane where
  id : PaneId
  parent : Option PaneId
  mark : Option String
  records : List (List UInt8)
deriving DecidableEq

structure Model where
  layout : Layout
  selection : Selecting.Selection
  panes : List Pane

inductive Item where
  | session (id : SessionId) (name : Name)
  | pane (id : PaneId) (window : WindowId) (depth : Nat)
deriving DecidableEq

namespace Model

variable (model : Model)

def parents (pane : PaneId) : Option PaneId :=
  (model.panes.filterMap fun row => row.parent.map (row.id, ·)).reverse.lookup pane

-- The first parent among the window's panes, unless it is in the window.
def windowParent (window : Window) : Option PaneId :=
  match window.panes.findSome? model.parents with
  | none => none
  | some parent => if parent ∈ window.panes then none else some parent

def sessionPanes (session : Session) : List (PaneId × WindowId) :=
  session.windows.flatMap fun window => window.panes.map (·, window.id)

def sessionParent (session : Session) (window : WindowId) : Option PaneId :=
  (session.windows.filterMap fun found => (model.windowParent found).map (found.id, ·)).reverse.lookup window

def sessionOrder (session : Session) : List ((PaneId × WindowId) × Nat) :=
  order (sessionPanes session) Prod.fst fun entry => model.sessionParent session entry.2

def outline : List Item :=
  model.layout.sessions.flatMap fun session =>
    .session session.id session.name :: (model.sessionOrder session).map fun ((id, window), depth) => .pane id window depth

end Model

section Drained

variable (children : Nat → List Nat)

-- What the stack can still take: itself, and the children of every position that is not walked.
def room (count : Nat) (walk stack : List (Nat × Nat)) : Nat :=
  stack.length + (((List.range count).filter fun at_ => decide (at_ ∉ walk.map Prod.fst)).map fun at_ => (children at_).length).sum

variable {children}

end Drained

section Depths

-- Each depth is at most one more than the one before it; the first is within the bound.
def Rises : Nat → List Nat → Prop
  | _, [] => True
  | bound, depth :: rest => depth ≤ bound ∧ Rises (depth + 1) rest

def bound (depths : List Nat) (first : Nat) : Nat := (depths.getLast?.map (· + 1)).getD first

theorem rises_snoc {depths : List Nat} {first depth : Nat} :
    Rises first (depths ++ [depth]) ↔ Rises first depths ∧ depth ≤ bound depths first := by
  induction depths generalizing first with
  | nil => simp [Rises, bound]
  | cons next rest ih =>
    have same : bound (next :: rest) first = bound rest (next + 1) := by
      rw [bound, bound, List.getLast?_cons]
      cases rest.getLast? <;> rfl
    rw [List.cons_append, Rises, ih, Rises, and_assoc, same]

variable {children : Nat → List Nat}

-- No entry of the stack is deeper than the one above it, nor more than one deeper than the last that was walked.
theorem drain_rises (fuel : Nat) : ∀ walk stack : List (Nat × Nat), Rises 0 (walk.map Prod.snd) →
    (stack.map Prod.snd).Pairwise (fun above below => below ≤ above) → (∀ entry ∈ stack, entry.2 ≤ bound (walk.map Prod.snd) 0) →
    Rises 0 ((drain children fuel walk stack).1.map Prod.snd) := by
  induction fuel with
  | zero => exact fun walk stack rises _ _ => rises
  | succ fuel ih =>
    intro walk stack rises sorted_ within
    cases stack with
    | nil => exact rises
    | cons top stack =>
      obtain ⟨at_, depth⟩ := top
      obtain ⟨below, sorted_⟩ := List.pairwise_cons.mp sorted_
      obtain ⟨first, within⟩ := List.forall_mem_cons.mp within
      have under : ∀ entry ∈ stack, entry.2 ≤ depth := fun entry member => below _ (List.mem_map_of_mem member)
      rw [drain]
      split_ifs with seen
      · exact ih walk stack rises sorted_ within
      · apply ih
        · rw [List.map_append, List.map_singleton]
          exact rises_snoc.mpr ⟨rises, first⟩
        · rw [List.map_append, List.map_map, List.pairwise_append]
          refine ⟨?_, sorted_, ?_⟩
          · rw [show Prod.snd ∘ (fun child => (child, depth + 1)) = fun _ : Nat => depth + 1 from rfl, List.map_const']
            exact List.pairwise_replicate.mpr (.inr (Nat.le_refl _))
          · intro above member other among
            obtain ⟨child, _, rfl⟩ := List.mem_map.mp member
            exact (below other among).trans (Nat.le_succ _)
        · have last : bound ((walk ++ [(at_, depth)]).map Prod.snd) 0 = depth + 1 := by
            simp [bound]
          intro entry member
          rw [last]
          obtain child | member := List.mem_append.mp member
          · obtain ⟨child, _, rfl⟩ := List.mem_map.mp child
            exact Nat.le_refl _
          · exact (under entry member).trans (Nat.le_succ _)

theorem walkFrom_rises {fuel : Nat} {walk : List (Nat × Nat)} (rises : Rises 0 (walk.map Prod.snd)) (start : Nat) :
    Rises 0 ((walkFrom children fuel walk start).map Prod.snd) := by
  apply drain_rises fuel walk _ rises
  · exact List.pairwise_singleton _ _
  · intro entry member
    obtain rfl := List.mem_singleton.mp member
    exact Nat.zero_le _

end Depths

section Inside

theorem drain_inside {children : Nat → List Nat} {P : Nat → Prop} (closed : ∀ at_, P at_ → ∀ child ∈ children at_, P child) (fuel : Nat) :
    ∀ walk stack : List (Nat × Nat), (∀ entry ∈ walk, P entry.1) → (∀ entry ∈ stack, P entry.1) →
      ∀ entry ∈ (drain children fuel walk stack).1, P entry.1 := by
  induction fuel with
  | zero => exact fun walk stack inside _ => inside
  | succ fuel ih =>
    intro walk stack inside within
    cases stack with
    | nil => exact inside
    | cons top stack =>
      obtain ⟨first, within⟩ := List.forall_mem_cons.mp within
      rw [drain]
      split_ifs
      · exact ih walk stack inside within
      · apply ih
        · intro entry member
          obtain member | rfl := List.mem_append.mp member |>.imp_right List.mem_singleton.mp
          · exact inside entry member
          · exact first
        · intro entry member
          obtain below | member := List.mem_append.mp member
          · obtain ⟨child, among, rfl⟩ := List.mem_map.mp below
            exact closed _ first child among
          · exact within entry member

variable {T K : Type} [DecidableEq K] (items : List T) (id : T → K) (parent : T → Option K)

theorem children_inside {above child : Nat} (member : child ∈ children items id parent above) : child < items.length := by
  obtain ⟨⟨item, at_⟩, among, rfl⟩ := List.mem_map.mp member
  exact List.snd_lt_of_mem_zipIdx (List.mem_of_mem_filter among)

theorem starts_inside {start : Nat} (member : start ∈ starts items id parent) : start < items.length := by
  obtain root | member := List.mem_append.mp member
  · obtain ⟨⟨item, at_⟩, among, rfl⟩ := List.mem_map.mp root
    exact List.snd_lt_of_mem_zipIdx (List.mem_of_mem_filter among)
  · exact List.mem_range.mp member

-- What holds of no walk, and what the walk from each start keeps, holds of the whole walk.
theorem walk_keeps {P : List (Nat × Nat) → Prop} (none_ : P [])
    (keeps : ∀ before start, P before → start < items.length → P (walkFrom (children items id parent) (items.length + 1) before start)) :
    P (walk items id parent) := by
  apply List.foldlRecOn
  · exact none_
  · exact fun before holds start member => keeps before start holds (starts_inside items id parent member)

theorem walk_inside : ∀ entry ∈ walk items id parent, entry.1 < items.length := by
  apply walk_keeps items id parent (P := fun walk => ∀ entry ∈ walk, entry.1 < items.length)
  · exact nofun
  · intro before start inside within
    apply drain_inside (fun at_ _ child member => children_inside items id parent member) _ before _ inside
    intro entry member
    obtain rfl := List.mem_singleton.mp member
    exact within

theorem order_depths : (order items id parent).map Prod.snd = (walk items id parent).map Prod.snd := by
  rw [order]
  have inside := walk_inside items id parent
  generalize walk items id parent = entries at inside
  induction entries with
  | nil => rfl
  | cons entry rest ih =>
    obtain ⟨first, inside⟩ := List.forall_mem_cons.mp inside
    have is : items[entry.1]?.map (·, entry.2) = some (items[entry.1], entry.2) := by
      rw [List.getElem?_eq_getElem first, Option.map_some]
    simp only [List.filterMap_cons, is, List.map_cons, ih inside]

theorem order_rises : Rises 0 ((order items id parent).map Prod.snd) := by
  rw [order_depths]
  apply walk_keeps items id parent (P := fun walk => Rises 0 (walk.map Prod.snd))
  · exact trivial
  · exact fun before start rises _ => walkFrom_rises rises start

end Inside

end Kido.Outlining
