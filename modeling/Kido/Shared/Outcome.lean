import Mathlib.Data.List.Basic

set_option autoImplicit false

namespace Kido.Shared

universe u v w

variable {ε : Type u} {α β : Type w}

theorem bind_ok_iff {first : Except ε α} {next : α → Except ε β} {result : β} :
    (first >>= next) = .ok result ↔ ∃ value, first = .ok value ∧ next value = .ok result := by
  cases first with
  | error error =>
    constructor
    · intro same
      cases same
    · rintro ⟨value, same, _⟩
      cases same
  | ok value =>
    constructor
    · intro same
      exact ⟨value, rfl, same⟩
    · rintro ⟨other, same, rest⟩
      cases same
      exact rest

theorem guard_ok_iff {condition : Prop} [Decidable condition] {error : ε} {next : Except ε α} {result : α} :
    (if condition then .error error else next) = .ok result ↔ ¬condition ∧ next = .ok result := by
  by_cases holds : condition <;> simp [holds]

theorem accept_ok_iff {condition : Prop} [Decidable condition] {error : ε} {next : Except ε α} {result : α} :
    (if condition then next else .error error) = .ok result ↔ condition ∧ next = .ok result := by
  by_cases holds : condition <;> simp [holds]

section Run

variable {ρ : Type v} {α : Type v}

@[grind =]
def runAll : List (ρ → Except ε (α × ρ)) → ρ → Except ε (List α × ρ)
  | [], state => .ok ([], state)
  | step :: rest, state => do
    let (value, state) ← step state
    let (values, state) ← runAll rest state
    .ok (value :: values, state)

theorem runAll_cons_ok_iff {step : ρ → Except ε (α × ρ)} {rest : List (ρ → Except ε (α × ρ))} {state : ρ}
    {values : List α} {after : ρ} :
    runAll (step :: rest) state = .ok (values, after) ↔
      ∃ value later next, step state = .ok (value, next) ∧ runAll rest next = .ok (later, after) ∧
        values = value :: later := by
  rw [runAll, bind_ok_iff]
  constructor
  · rintro ⟨⟨value, next⟩, stepped, run⟩
    obtain ⟨⟨later, last⟩, run, same⟩ := bind_ok_iff.mp run
    cases same
    exact ⟨value, later, next, stepped, run, rfl⟩
  · rintro ⟨value, later, next, stepped, run, rfl⟩
    exact ⟨⟨value, next⟩, stepped, bind_ok_iff.mpr ⟨⟨later, after⟩, run, rfl⟩⟩

theorem runAll_related {R : ρ → List α → ρ → Prop} (nil : ∀ state, R state [] state)
    (cons : ∀ {state next after value values}, R state [value] next → R next values after →
      R state (value :: values) after)
    {steps : List (ρ → Except ε (α × ρ))}
    (each : ∀ step ∈ steps, ∀ state value next, step state = .ok (value, next) → R state [value] next)
    {state after : ρ} {values : List α} (run : runAll steps state = .ok (values, after)) :
    R state values after := by
  induction steps generalizing state values with
  | nil =>
    cases run
    exact nil _
  | cons step rest ih =>
    obtain ⟨value, later, next, stepped, ran, rfl⟩ := runAll_cons_ok_iff.mp run
    exact cons (each step (by simp) state value next stepped)
      (ih (fun other member => each other (by simp [member])) ran)

theorem runAll_values {P : α → Prop} {steps : List (ρ → Except ε (α × ρ))}
    (each : ∀ step ∈ steps, ∀ state value next, step state = .ok (value, next) → P value)
    {state after : ρ} {values : List α} (run : runAll steps state = .ok (values, after)) :
    ∀ value ∈ values, P value := by
  refine runAll_related (R := fun _ values _ => ∀ value ∈ values, P value) (by simp) ?_ ?_ run
  · intro _ _ _ value values first rest other member
    rcases List.mem_cons.mp member with head | tail
    · exact first other (by simp [head])
    · exact rest other tail
  · intro step member state value next stepped other inside
    have same : other = value := by simpa using inside
    exact same ▸ each step member state value next stepped

theorem runAll_length {steps : List (ρ → Except ε (α × ρ))} {state after : ρ} {values : List α}
    (run : runAll steps state = .ok (values, after)) : values.length = steps.length := by
  induction steps generalizing state values with
  | nil =>
    cases run
    rfl
  | cons step rest ih =>
    obtain ⟨value, later, next, stepped, ran, rfl⟩ := runAll_cons_ok_iff.mp run
    simp [ih ran]

theorem runAll_map_values {ι : Type w} {items : List ι} {step : ι → ρ → Except ε (α × ρ)} {value : ι → α}
    (each : ∀ item ∈ items, ∀ state result next, step item state = .ok (result, next) → result = value item)
    {state after : ρ} {values : List α} (run : runAll (items.map step) state = .ok (values, after)) : values = items.map value := by
  induction items generalizing state values with
  | nil =>
    cases run
    rfl
  | cons item rest ih =>
    obtain ⟨result, later, next, stepped, ran, rfl⟩ := runAll_cons_ok_iff.mp run
    rw [List.map_cons, each item (by simp) state result next stepped,
      ih (fun other member => each other (by simp [member])) ran]

theorem runAll_ok {ι : Type w} (items : List ι) (step : ι → ρ → Except ε (α × ρ)) (value : ι → α)
    (after : List ι → ρ)
    (each : ∀ done item rest, items = done ++ item :: rest →
      step item (after done) = .ok (value item, after (done ++ [item]))) :
    runAll (items.map step) (after []) = .ok (items.map value, after items) := by
  have run (done rest : List ι) (whole : items = done ++ rest) :
      runAll (rest.map step) (after done) = .ok (rest.map value, after items) := by
    induction rest generalizing done with
    | nil => rw [List.map_nil, runAll, whole, List.append_nil, List.map_nil]
    | cons item rest ih =>
      rw [List.map_cons, runAll_cons_ok_iff]
      exact ⟨value item, rest.map value, _, each done item rest whole,
        ih (done ++ [item]) (by simp [whole]), rfl⟩
  exact run [] items rfl

end Run

end Kido.Shared
