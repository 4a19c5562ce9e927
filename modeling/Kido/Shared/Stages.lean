import Mathlib.Data.List.Nodup
import Mathlib.Logic.Function.Basic

set_option autoImplicit false

namespace Kido.Shared

universe u v w

variable {α : Type u} {ι : Type v} {κ : Type w}

-- Items that are about things, each about another, that have come as far as the items tell.
structure Stage (key : α → ι) (fits : α → κ → Prop) (states : ι → κ) (items : List α) : Prop where
  apart : (items.map key).Nodup
  state : ∀ item ∈ items, fits item (states (key item))

variable {key : α → ι} {fits : α → κ → Prop} {states : ι → κ} {items : List α}

namespace Stage

theorem nil : Stage key fits states [] := ⟨List.nodup_nil, by simp⟩

theorem absent (stage : Stage key fits states items) {own : ι} (other : ∀ item, ¬fits item (states own)) :
    ∀ item ∈ items, key item ≠ own := by
  rintro item member rfl
  exact other item (stage.state item member)

theorem perm (stage : Stage key fits states items) {others : List α} (same : items.Perm others) :
    Stage key fits states others :=
  ⟨(same.map key).nodup_iff.1 stage.apart, fun item member => stage.state item (same.mem_iff.2 member)⟩

theorem snoc (stage : Stage key fits states items) {item : α} (other : ∀ old ∈ items, key old ≠ key item)
    (new : fits item (states (key item))) : Stage key fits states (items ++ [item]) := by
  refine ⟨?_, fun thing member => ?_⟩
  · rw [List.map_append, List.nodup_append]
    refine ⟨stage.apart, List.nodup_singleton _, ?_⟩
    rintro first member second last rfl
    obtain ⟨thing, inside, same⟩ := List.mem_map.1 member
    rw [List.map_singleton, List.mem_singleton] at last
    exact other thing inside (same.trans last)
  · rcases List.mem_append.1 member with old | last
    · exact stage.state thing old
    · obtain rfl := List.mem_singleton.1 last
      exact new

theorem tail {item : α} {rest : List α} (stage : Stage key fits states (item :: rest)) :
    Stage key fits states rest :=
  ⟨(List.nodup_cons.1 stage.apart).2, fun other member => stage.state other (.tail item member)⟩

theorem sublist (stage : Stage key fits states items) {others : List α} (less : others.Sublist items) :
    Stage key fits states others :=
  ⟨stage.apart.sublist (less.map key), fun item member => stage.state item (less.subset member)⟩

variable [DecidableEq ι]

theorem keep (stage : Stage key fits states items) {own : ι} (other : ∀ item, ¬fits item (states own))
    (state : κ) : Stage key fits (Function.update states own state) items := by
  refine ⟨stage.apart, fun item member => ?_⟩
  rw [Function.update_of_ne (stage.absent other item member)]
  exact stage.state item member

theorem add (stage : Stage key fits states items) (item : α) (state : κ)
    (other : ∀ old, ¬fits old (states (key item))) (new : fits item state) :
    Stage key fits (Function.update states (key item) state) (items ++ [item]) := by
  refine (stage.keep other state).snoc (stage.absent other) ?_
  rwa [Function.update_self]

theorem pop {item : α} {rest : List α} (stage : Stage key fits states (item :: rest)) (state : κ) :
    Stage key fits (Function.update states (key item) state) rest := by
  refine ⟨stage.tail.apart, fun other member => ?_⟩
  have apart : key other ≠ key item := fun same =>
    (List.nodup_cons.1 stage.apart).1 (same ▸ List.mem_map_of_mem member)
  rw [Function.update_of_ne apart]
  exact stage.tail.state other member

end Stage

def Covers (key : α → ι) (waits : κ → Prop) (states : ι → κ) (items : List α) : Prop :=
  ∀ own, waits (states own) → ∃ item ∈ items, key item = own

namespace Covers

variable {waits : κ → Prop}

theorem perm (covers : Covers key waits states items) {others : List α} (same : items.Perm others) :
    Covers key waits states others := fun thing there => by
  obtain ⟨found, member, about⟩ := covers thing there
  exact ⟨found, same.mem_iff.1 member, about⟩

variable [DecidableEq ι]

theorem keep (covers : Covers key waits states items) {state : κ} (other : ¬waits state) (own : ι) :
    Covers key waits (Function.update states own state) items := by
  intro thing there
  by_cases same : thing = own
  · rw [same, Function.update_self] at there
    exact absurd there other
  · rw [Function.update_of_ne same] at there
    exact covers thing there

theorem pop {item : α} {rest : List α} (covers : Covers key waits states (item :: rest)) {state : κ}
    (other : ¬waits state) : Covers key waits (Function.update states (key item) state) rest := by
  intro thing there
  by_cases same : thing = key item
  · rw [same, Function.update_self] at there
    exact absurd there other
  · rw [Function.update_of_ne same] at there
    obtain ⟨found, member, about⟩ := covers thing there
    rcases List.mem_cons.1 member with rfl | later
    · exact absurd about.symm same
    · exact ⟨found, later, about⟩

theorem add (covers : Covers key waits states items) (item : α) (state : κ) :
    Covers key waits (Function.update states (key item) state) (items ++ [item]) := by
  intro thing there
  by_cases same : thing = key item
  · exact ⟨item, List.mem_append_right _ (List.mem_singleton_self _), same.symm⟩
  · rw [Function.update_of_ne same] at there
    obtain ⟨found, member, about⟩ := covers thing there
    exact ⟨found, List.mem_append_left _ member, about⟩

end Covers

end Kido.Shared
