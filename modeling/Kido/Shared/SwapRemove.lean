import Mathlib.Data.List.Basic

set_option autoImplicit false

namespace Kido.Shared

universe u v

variable {α : Type u} {β : Type v}

def swapRemove (items : List α) (index : Nat) : List α :=
  match items.getLast? with
  | none => []
  | some last => (items.set index last).dropLast

theorem swapRemove_last (front : List α) (item : α) : swapRemove (front ++ [item]) front.length = front := by
  simp [swapRemove]

theorem swapRemove_middle (front middle : List α) (item last : α) :
    swapRemove (front ++ item :: (middle ++ [last])) front.length = front ++ last :: middle := by
  have end_ : (front ++ item :: (middle ++ [last])).getLast? = some last := by
    rw [show front ++ item :: (middle ++ [last]) = (front ++ item :: middle) ++ [last] by simp, List.getLast?_concat]
  have moved : (front ++ item :: (middle ++ [last])).set front.length last = (front ++ last :: middle) ++ [last] := by simp
  rw [swapRemove, end_]
  simp only [moved, List.dropLast_concat]

theorem getElem?_split {items : List α} {index : Nat} {item : α} (found : items[index]? = some item) :
    ∃ front back, items = front ++ item :: back ∧ front.length = index := by
  obtain ⟨inside, here⟩ := List.getElem?_eq_some_iff.1 found
  refine ⟨items.take index, items.drop (index + 1), ?_, List.length_take_of_le (Nat.le_of_lt inside)⟩
  rw [← here, List.getElem_cons_drop, List.take_append_drop]

theorem swapRemove_perm {items : List α} {index : Nat} {item : α} (found : items[index]? = some item) :
    items.Perm (item :: swapRemove items index) := by
  obtain ⟨front, back, rfl, rfl⟩ := getElem?_split found
  refine List.perm_middle.trans (.cons item ?_)
  rcases List.eq_nil_or_concat back with rfl | ⟨middle, last, rfl⟩
  · rw [swapRemove_last, List.append_nil]
  · rw [List.concat_eq_append, swapRemove_middle]
    exact .append_left front (List.perm_append_singleton last middle)

theorem map_swapRemove (f : α → β) (items : List α) (index : Nat) :
    (swapRemove items index).map f = swapRemove (items.map f) index := by
  rw [swapRemove, swapRemove, List.getLast?_map]
  cases items.getLast? with
  | none => rfl
  | some last => rw [List.map_dropLast, List.map_set]; rfl

def takeFirst (fits : α → Bool) (items : List α) : Option (α × List α) :=
  (items.findIdx? fits).bind fun index => items[index]?.map fun item => (item, swapRemove items index)

theorem takeFirst_some {fits : α → Bool} {items rest : List α} {item : α}
    (taken : takeFirst fits items = some (item, rest)) : fits item = true ∧ items.Perm (item :: rest) := by
  obtain ⟨index, found, picked⟩ := Option.bind_eq_some_iff.1 taken
  obtain ⟨other, here, same⟩ := Option.map_eq_some_iff.1 picked
  obtain ⟨rfl, rfl⟩ := Prod.mk.inj same
  obtain ⟨inside, holds, -⟩ := List.findIdx?_eq_some_iff_getElem.1 found
  obtain ⟨_, rfl⟩ := List.getElem?_eq_some_iff.1 here
  exact ⟨holds, swapRemove_perm here⟩

theorem takeFirst_none {fits : α → Bool} {items : List α} (missing : takeFirst fits items = none) :
    ∀ item ∈ items, fits item = false := by
  cases found : items.findIdx? fits with
  | none => exact fun item member => List.findIdx?_eq_none_iff.1 found item member
  | some index =>
    obtain ⟨inside, -⟩ := List.findIdx?_eq_some_iff_getElem.1 found
    rw [takeFirst, found, Option.bind_some, List.getElem?_eq_getElem inside] at missing
    cases missing

theorem takeFirst_congr {fits other : α → Bool} {items : List α} (same : ∀ item ∈ items, fits item = other item) :
    takeFirst fits items = takeFirst other items := by
  have index : items.findIdx? fits = items.findIdx? other := by
    induction items with
    | nil => rfl
    | cons item rest ih =>
      rw [List.findIdx?_cons, List.findIdx?_cons, same item (.head rest), ih fun more member => same more (.tail item member)]
  rw [takeFirst, takeFirst, index]

theorem takeFirst_map (f : α → β) (fits : β → Bool) (items : List α) :
    takeFirst fits (items.map f) = (takeFirst (fits ∘ f) items).map fun taken => (f taken.1, taken.2.map f) := by
  rw [takeFirst, takeFirst, List.findIdx?_map, Function.comp_def]
  cases items.findIdx? fun item => fits (f item) with
  | none => rfl
  | some index =>
    rw [Option.bind_some, Option.bind_some, List.getElem?_map, ← map_swapRemove]
    cases items[index]? <;> rfl

theorem takeFirst_shorter {fits : α → Bool} {items rest : List α} {item : α}
    (taken : takeFirst fits items = some (item, rest)) : rest.length < items.length := by
  rw [(takeFirst_some taken).2.length_eq]
  exact Nat.lt_succ_self rest.length

-- Items are taken for as long as one fits: what was taken, and what is left.
def takeEach (fits : α → Bool) (items : List α) : List α × List α :=
  match _taken : takeFirst fits items with
  | none => ([], items)
  | some (item, rest) => (item :: (takeEach fits rest).1, (takeEach fits rest).2)
termination_by items.length
decreasing_by all_goals exact takeFirst_shorter _taken

theorem takeEach_perm (fits : α → Bool) (items : List α) :
    items.Perm ((takeEach fits items).1 ++ (takeEach fits items).2) := by
  fun_induction takeEach fits items with
  | case1 items missing => exact .refl items
  | case2 items item rest taken ih => exact (takeFirst_some taken).2.trans (ih.cons item)

theorem takeEach_taken (fits : α → Bool) (items : List α) : ∀ item ∈ (takeEach fits items).1, fits item = true := by
  fun_induction takeEach fits items with
  | case1 items missing => simp
  | case2 items item rest taken ih =>
    intro other member
    rcases List.mem_cons.1 member with rfl | later
    · exact (takeFirst_some taken).1
    · exact ih other later

end Kido.Shared
