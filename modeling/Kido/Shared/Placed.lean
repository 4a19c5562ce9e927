import Mathlib.Data.List.Infix
import Mathlib.Algebra.BigOperators.Group.List.Basic
import Mathlib.Algebra.Order.Ring.Nat

set_option autoImplicit false

namespace Kido.Shared

universe u

variable {α : Type u} (size : α → Nat)

def total (items : List α) : Nat := (items.map size).sum

-- The position where an item starts, or where the last one ends.
def Boundary (items : List α) (pos : Nat) : Prop := ∃ before, before <+: items ∧ total size before = pos

-- The item that starts at the position, and the items before it.
structure At (items : List α) (pos : Nat) (before : List α) (item : α) : Prop where
  begins : before ++ [item] <+: items
  place : total size before = pos

@[simp]
theorem total_nil : total size ([] : List α) = 0 := rfl

@[simp]
theorem total_append (first second : List α) : total size (first ++ second) = total size first + total size second := by
  simp [total]

@[simp]
theorem total_single (item : α) : total size [item] = size item := by simp [total]

variable {size}

theorem total_le {first second : List α} (cut : first <+: second) : total size first ≤ total size second := by
  obtain ⟨rest, rfl⟩ := cut
  rw [total_append]
  exact Nat.le_add_right _ _

theorem total_le_total {weight : α → Nat} (less : ∀ item, weight item ≤ size item) (items : List α) :
    total weight items ≤ total size items := by
  induction items with
  | nil => exact Nat.le_refl _
  | cons item items ih =>
    rw [← List.singleton_append, total_append, total_append, total_single, total_single]
    exact Nat.add_le_add (less item) ih

theorem Boundary.zero (items : List α) : Boundary size items 0 := ⟨[], List.nil_prefix, rfl⟩

theorem Boundary.end (items : List α) : Boundary size items (total size items) := ⟨items, List.prefix_rfl, rfl⟩

theorem Boundary.le {items : List α} {pos : Nat} (boundary : Boundary size items pos) : pos ≤ total size items := by
  obtain ⟨before, cut, rfl⟩ := boundary
  exact total_le cut

theorem Boundary.grow {items more : List α} {pos : Nat} (boundary : Boundary size items pos) (grown : items <+: more) :
    Boundary size more pos := by
  obtain ⟨before, cut, place⟩ := boundary
  exact ⟨before, cut.trans grown, place⟩

theorem Boundary.here {items : List α} {pos : Nat} (boundary : Boundary size items pos)
    (inside : pos < total size items) : ∃ before item, At size items pos before item := by
  obtain ⟨before, ⟨rest, rfl⟩, place⟩ := boundary
  cases rest with
  | nil =>
    rw [List.append_nil, place] at inside
    exact absurd inside (Nat.lt_irrefl _)
  | cons item rest => exact ⟨before, item, ⟨rest, by simp⟩, place⟩

namespace At

variable {items more before other : List α} {pos : Nat} {item item' : α}

theorem grow (here : At size items pos before item) (grown : items <+: more) : At size more pos before item :=
  ⟨here.begins.trans grown, here.place⟩

theorem boundary (here : At size items pos before item) : Boundary size items pos :=
  ⟨before, (List.prefix_append _ _).trans here.begins, here.place⟩

theorem next (here : At size items pos before item) : Boundary size items (pos + size item) :=
  ⟨before ++ [item], here.begins, by rw [total_append, total_single, here.place]⟩

theorem end_le (here : At size items pos before item) : pos + size item ≤ total size items := here.next.le

theorem last (items : List α) (item : α) : At size (items ++ [item]) (total size items) items item :=
  ⟨List.prefix_rfl, rfl⟩

theorem restrict (here : At size more pos before item) (grown : items <+: more) (inside : pos < total size items) :
    At size items pos before item := by
  refine ⟨?_, here.place⟩
  rcases List.prefix_or_prefix_of_prefix here.begins grown with cut | cut
  · exact cut
  · rcases List.prefix_concat_iff.mp cut with whole | short
    · exact whole ▸ List.prefix_rfl
    · have none_ := @total_le _ size _ _ short
      rw [here.place] at none_
      omega

theorem of_snoc (here : At size (items ++ [item']) pos before item) :
    At size items pos before item ∨ pos = total size items ∧ before = items ∧ item = item' := by
  rcases List.prefix_concat_iff.mp here.begins with whole | short
  · obtain ⟨same, last⟩ := List.append_inj' whole rfl
    exact .inr ⟨by rw [← same, here.place], same, by simpa using last⟩
  · exact .inl ⟨short, here.place⟩

theorem apart (here : At size items pos before item) {next : Nat} (boundary : Boundary size items next)
    (after : pos < next) : pos + size item ≤ next := by
  obtain ⟨early, cut, place⟩ := boundary
  rcases List.prefix_or_prefix_of_prefix here.begins cut with inside | outside
  · have far := @total_le _ size _ _ inside
    rw [total_append, total_single, here.place, place] at far
    exact far
  · rcases List.prefix_concat_iff.mp outside with whole | short
    · rw [← place, whole, total_append, total_single, here.place]
    · have near := @total_le _ size _ _ short
      rw [place, here.place] at near
      omega

end At

end Kido.Shared
