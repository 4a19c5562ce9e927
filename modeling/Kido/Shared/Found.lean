import Mathlib.Data.List.Nodup

set_option autoImplicit false

namespace Kido.Shared

universe u v

variable {α : Type u} {β : Type v} [DecidableEq β] {items : List α} {key : α → β}

theorem found_mem {wanted : β} {item : α} (found : items.find? (fun item => decide (key item = wanted)) = some item) :
    item ∈ items ∧ key item = wanted :=
  ⟨List.mem_of_find?_eq_some found, of_decide_eq_true (List.find?_some found :)⟩

theorem found_iff (distinct : (items.map key).Nodup) {wanted : β} {item : α} :
    items.find? (fun item => decide (key item = wanted)) = some item ↔ item ∈ items ∧ key item = wanted := by
  refine ⟨found_mem, fun ⟨member, is⟩ => ?_⟩
  cases found : items.find? (fun item => decide (key item = wanted)) with
  | none => exact absurd (decide_eq_true is) (List.find?_eq_none.mp found item member)
  | some other =>
    obtain ⟨there, has⟩ := found_mem found
    rw [List.inj_on_of_nodup_map distinct there member (has.trans is.symm)]

end Kido.Shared
