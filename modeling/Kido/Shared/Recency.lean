import Mathlib.Data.List.Dedup
import Mathlib.Data.List.Nodup

set_option autoImplicit false

namespace Kido.Shared

universe u

variable {α : Type u} [DecidableEq α] {log items : List α}

theorem dedup_snoc (log : List α) (item : α) : (log ++ [item]).dedup = (log.dedup.filter fun other => other ≠ item) ++ [item] := by
  induction log with
  | nil => simp
  | cons first rest ih =>
    rw [List.cons_append]
    by_cases again : first ∈ rest
    · rw [List.dedup_cons_of_mem (List.mem_append_left _ again), List.dedup_cons_of_mem again, ih]
    · by_cases same : first = item
      · subst same
        rw [List.dedup_cons_of_mem (List.mem_append_right _ (List.mem_singleton_self first)), List.dedup_cons_of_notMem again, ih,
          List.filter_cons_of_neg (by simp)]
      · have fresh : first ∉ rest ++ [item] := by simp [again, same]
        rw [List.dedup_cons_of_notMem fresh, List.dedup_cons_of_notMem again, ih, List.filter_cons_of_pos (by simpa using same),
          List.cons_append]

theorem used_last (ordered : items.Sublist log.dedup) (item : α) :
    ((items.filter fun other => other ≠ item) ++ [item]).Sublist (log ++ [item]).dedup := by
  rw [dedup_snoc]
  exact (ordered.filter _).append (.refl _)

theorem first_used {item : α} (ordered : (item :: items).Sublist log.dedup) :
    ∃ before later, log = before ++ item :: later ∧ item ∉ later ∧ ∀ other ∈ items, other ∈ later := by
  induction log with
  | nil => cases ordered
  | cons first rest ih =>
    have longer (ordered : (item :: items).Sublist rest.dedup) :
        ∃ before later, first :: rest = before ++ item :: later ∧ item ∉ later ∧ ∀ other ∈ items, other ∈ later := by
      obtain ⟨before, later, rfl, last, others⟩ := ih ordered
      exact ⟨first :: before, later, rfl, last, others⟩
    by_cases again : first ∈ rest
    · rw [List.dedup_cons_of_mem again] at ordered
      exact longer ordered
    · rw [List.dedup_cons_of_notMem again] at ordered
      cases ordered with
      | cons _ ordered => exact longer ordered
      | cons_cons _ ordered => exact ⟨[], rest, rfl, again, fun other here => List.mem_dedup.1 (ordered.subset here)⟩

end Kido.Shared
