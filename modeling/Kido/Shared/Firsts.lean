import Mathlib.Data.List.Nodup

set_option autoImplicit false

namespace Kido.Shared

universe u v w

variable {α : Type u} {β : Type v} [DecidableEq β] (key : α → β)

def firsts : List α → List α
  | [] => []
  | item :: rest => item :: (firsts rest).filter fun other => decide (key other ≠ key item)

theorem firsts_distinct (items : List α) : ((firsts key items).map key).Nodup := by
  induction items with
  | nil => exact List.nodup_nil
  | cons item rest ih =>
    rw [firsts, List.map_cons, List.nodup_cons]
    refine ⟨fun again => ?_, ih.sublist (List.filter_sublist.map key)⟩
    obtain ⟨other, later, same⟩ := List.mem_map.1 again
    exact of_decide_eq_true (List.mem_filter.1 later).2 same

theorem find?_firsts (items : List α) (wanted : β) :
    (firsts key items).find? (fun item => decide (key item = wanted)) = items.find? fun item => decide (key item = wanted) := by
  induction items with
  | nil => rfl
  | cons item rest ih =>
    rw [firsts]
    by_cases here : key item = wanted
    · rw [List.find?_cons_of_pos (by simpa using here), List.find?_cons_of_pos (by simpa using here)]
    · rw [List.find?_cons_of_neg (by simpa using here), List.find?_cons_of_neg (by simpa using here), List.find?_filter, ← ih]
      congr 1
      funext other
      by_cases that : key other = wanted
      · simp [that, Ne.symm here]
      · simp [that]

theorem mem_keys_firsts {items : List α} {wanted : β} : wanted ∈ (firsts key items).map key ↔ wanted ∈ items.map key := by
  have found := find?_firsts key items wanted
  rw [← not_iff_not]
  have absent (some_ : List α) : wanted ∉ some_.map key ↔ some_.find? (fun item => decide (key item = wanted)) = none := by
    simp [List.find?_eq_none]
  rw [absent, absent, found]

section Loop

variable {key} {σ : Type w} {seen : σ → List β} {meet act : σ → α → σ}

-- `meet` passes over what it has seen, and `act` notes what it sees.
theorem foldl_firsts (passes : ∀ state item, key item ∈ seen state → meet state item = state)
    (acts : ∀ state item, key item ∉ seen state → meet state item = act state item)
    (notes : ∀ state item wanted, wanted ∈ seen (act state item) ↔ wanted = key item ∨ wanted ∈ seen state) (items : List α) (state : σ) :
    items.foldl meet state = ((firsts key items).filter fun item => decide (key item ∉ seen state)).foldl act state := by
  induction items generalizing state with
  | nil => rfl
  | cons item rest ih =>
    rw [List.foldl_cons, firsts, ih]
    by_cases old : key item ∈ seen state
    · rw [passes state item old, List.filter_cons_of_neg (by simpa using old), List.filter_filter]
      congr 1
      refine List.filter_congr fun other _ => ?_
      by_cases same : key other = key item
      · simp [same, old]
      · simp [same]
    · rw [acts state item old, List.filter_cons_of_pos (by simpa using old), List.foldl_cons, List.filter_filter]
      congr 1
      refine List.filter_congr fun other _ => ?_
      rw [← Bool.decide_and]
      exact decide_eq_decide.2 (by rw [notes]; tauto)

-- Each item reads and changes what belongs to its own key alone, and adds to what is told.
theorem foldl_touches {γ : Type v} {ω : Type w} (reads : σ → β → γ) (next : α → γ → γ) (out : σ → List ω) (tell : α → γ → List ω)
    (changes : ∀ state item wanted, reads (act state item) wanted = if key item = wanted then next item (reads state wanted) else reads state wanted)
    (tells : ∀ state item, out (act state item) = out state ++ tell item (reads state (key item))) {items : List α}
    (distinct : (items.map key).Nodup) (state : σ) :
    (∀ wanted, reads (items.foldl act state) wanted =
        ((items.find? fun item => decide (key item = wanted)).map fun item => next item (reads state wanted)).getD (reads state wanted)) ∧
      out (items.foldl act state) = out state ++ items.flatMap fun item => tell item (reads state (key item)) := by
  induction items generalizing state with
  | nil => exact ⟨fun _ => rfl, (List.append_nil _).symm⟩
  | cons item rest ih =>
    obtain ⟨apart, distinct⟩ := List.nodup_cons.1 distinct
    obtain ⟨read, told⟩ := ih distinct (act state item)
    have others (other : α) (later : other ∈ rest) : key item ≠ key other := fun same => apart (same ▸ List.mem_map_of_mem later)
    constructor
    · intro wanted
      rw [List.foldl_cons, read, changes]
      by_cases here : key item = wanted
      · have absent : rest.find? (fun item => decide (key item = wanted)) = none :=
          List.find?_eq_none.2 fun other later same => others other later (here.trans (of_decide_eq_true same).symm)
        rw [if_pos here, absent, List.find?_cons_of_pos (by simpa using here)]
        rfl
      · rw [if_neg here, List.find?_cons_of_neg (by simpa using here)]
    · rw [List.foldl_cons, told, tells, List.flatMap_cons, List.append_assoc]
      congr 2
      refine List.flatMap_congr fun other later => ?_
      rw [changes, if_neg (others other later)]

end Loop

end Kido.Shared
