import Mathlib.Data.List.Induction

set_option autoImplicit false

namespace Kido.Shared

variable {α : Type}

def keepFirst (key : α → Nat) : Option α → α → Option α
  | none, item => some item
  | some best, item => if key best < key item then some item else some best

def keepLast (key : α → Nat) : Option α → α → Option α
  | none, item => some item
  | some best, item => if key best ≤ key item then some item else some best

def firstMax (key : α → Nat) (items : List α) : Option α := items.foldl (keepFirst key) none

-- `max_by_key`.
def lastMax (key : α → Nat) (items : List α) : Option α := items.foldl (keepLast key) none

-- The items that no other exceeds, in their order.
def maxima (key : α → Nat) (items : List α) : List α := items.filter fun item => items.all fun other => key other ≤ key item

theorem mem_maxima {key : α → Nat} {items : List α} {item : α} :
    item ∈ maxima key items ↔ item ∈ items ∧ ∀ other ∈ items, key other ≤ key item := by simp [maxima]

-- One more item is alone the best, is one of the best, or is none.
theorem maxima_append (key : α → Nat) (items : List α) (item : α) :
    maxima key (items ++ [item]) =
      if items.any fun other => key item < key other then maxima key items
      else (maxima key items).filter (fun other => key item ≤ key other) ++ [item] := by
  have ends : (items ++ [item]).all (fun other => key other ≤ key item) = !items.any fun other => key item < key other := by
    rw [List.all_append, List.not_any_eq_all_not]
    have same (other : α) : decide (key other ≤ key item) = !decide (key item < key other) := by
      rw [← decide_not]
      exact decide_eq_decide.2 Nat.not_lt.symm
    simp [same]
  have last : [item].filter (fun best => (items ++ [item]).all fun other => key other ≤ key best) =
      bif items.any fun other => key item < key other then [] else [item] := by
    rw [List.filter_cons, ends]
    cases items.any fun other => key item < key other <;> rfl
  rw [maxima, List.filter_append, last]
  have before : items.filter (fun best => (items ++ [item]).all fun other => key other ≤ key best) =
      (maxima key items).filter fun other => key item ≤ key other := by
    rw [maxima, List.filter_filter]
    refine List.filter_congr fun best _ => ?_
    rw [List.all_append, Bool.and_comm]
    simp
  rw [before]
  split
  next more =>
    rw [more]
    rw [cond_true, List.append_nil]
    refine List.filter_eq_self.2 fun best among => ?_
    obtain ⟨other, here, less⟩ := List.any_eq_true.1 more
    have most := (mem_maxima.1 among).2 other here
    rw [decide_eq_true_eq] at less ⊢
    omega
  next none_ =>
    rw [Bool.not_eq_true] at none_
    rw [none_]
    rfl

theorem maxima_none {key : α → Nat} {items : List α} (none_ : maxima key items = []) : items = [] := by
  induction items using List.reverseRecOn with
  | nil => rfl
  | append_singleton before item ih =>
    rw [maxima_append] at none_
    split at none_
    next more =>
      rw [ih none_] at more
      cases more
    next => exact absurd none_ (by simp)

theorem lastMax_append (key : α → Nat) (items : List α) (item : α) :
    lastMax key (items ++ [item]) = keepLast key (lastMax key items) item := by
  rw [lastMax, lastMax, List.foldl_append]
  rfl

theorem firstMax_append (key : α → Nat) (items : List α) (item : α) :
    firstMax key (items ++ [item]) = keepFirst key (firstMax key items) item := by
  rw [firstMax, firstMax, List.foldl_append]
  rfl

theorem lastMax_eq (key : α → Nat) (items : List α) : lastMax key items = (maxima key items).getLast? := by
  induction items using List.reverseRecOn with
  | nil => rfl
  | append_singleton before item ih =>
    rw [lastMax_append, maxima_append, ih]
    cases best : (maxima key before).getLast? with
    | none =>
      have none_ := maxima_none (List.getLast?_eq_none_iff.1 best)
      subst none_
      rfl
    | some found =>
      have most := mem_maxima.1 (List.mem_of_getLast? best)
      rw [keepLast]
      split
      next covers =>
        have least : ¬(before.any fun other => decide (key item < key other)) = true := by
          rw [List.any_eq_true]
          rintro ⟨other, here, less⟩
          have bound := most.2 other here
          rw [decide_eq_true_eq] at less
          omega
        rw [if_neg least, List.getLast?_concat]
      next over_ =>
        have more : (before.any fun other => decide (key item < key other)) = true :=
          List.any_eq_true.2 ⟨found, most.1, by rw [decide_eq_true_eq]; omega⟩
        rw [if_pos more, best]

theorem firstMax_eq (key : α → Nat) (items : List α) : firstMax key items = (maxima key items).head? := by
  induction items using List.reverseRecOn with
  | nil => rfl
  | append_singleton before item ih =>
    rw [firstMax_append, maxima_append, ih]
    cases same : maxima key before with
    | nil =>
      have none_ := maxima_none same
      subst none_
      rfl
    | cons found rest =>
      have among : ∀ best ∈ found :: rest, best ∈ before ∧ ∀ other ∈ before, key other ≤ key best :=
        fun best here => mem_maxima.1 (same ▸ here)
      have most := among found List.mem_cons_self
      rw [List.head?_cons, keepFirst]
      split
      next less =>
        have least : ¬(before.any fun other => decide (key item < key other)) = true := by
          rw [List.any_eq_true]
          rintro ⟨other, here, more⟩
          have bound := most.2 other here
          rw [decide_eq_true_eq] at more
          omega
        have gone : (found :: rest).filter (fun other => decide (key item ≤ key other)) = [] := by
          refine List.filter_eq_nil_iff.2 fun best here => ?_
          have bound := most.2 best (among best here).1
          rw [decide_eq_true_eq]
          omega
        rw [if_neg least, gone]
        rfl
      next covers =>
        split
        next => rfl
        next =>
          rw [List.filter_cons_of_pos (by rw [decide_eq_true_eq]; omega)]
          rfl

theorem lastMax_some {key : α → Nat} {items : List α} {item : α} (found : lastMax key items = some item) :
    item ∈ items ∧ ∀ other ∈ items, key other ≤ key item :=
  mem_maxima.1 (List.mem_of_getLast? ((lastMax_eq key items) ▸ found))

theorem lastMax_none {key : α → Nat} {items : List α} : lastMax key items = none ↔ items = [] := by
  rw [lastMax_eq, List.getLast?_eq_none_iff]
  refine ⟨maxima_none, ?_⟩
  rintro rfl
  rfl

end Kido.Shared
