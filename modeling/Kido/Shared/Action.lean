import Mathlib.Tactic.TypeStar

set_option autoImplicit false

namespace Kido.Shared

def Action (Halt State α : Type) := State → Except Halt α × State

namespace Action

variable {Halt State α β : Type}

def ret (value : α) : Action Halt State α := fun state => (.ok value, state)

def andThen (first : Action Halt State α) (next : α → Action Halt State β) : Action Halt State β := fun state =>
  match first state with
  | (.ok value, after) => next value after
  | (.error halt, after) => (.error halt, after)

instance : Monad (Action Halt State) where
  pure := ret
  bind := andThen

def get : Action Halt State State := fun state => (.ok state, state)

def modify (change : State → State) : Action Halt State Unit := fun state => (.ok (), change state)

def halt (reason : Halt) : Action Halt State α := fun state => (.error reason, state)

theorem get_bind (next : State → Action Halt State α) (state : State) : (get >>= next) state = next state state := rfl

-- From a state of the first kind the action ends with a value and in a state of the second kind, or halts in one of
-- the third.
def Ensures (before : State → Prop) (action : Action Halt State α) (after : α → State → Prop) (halted : State → Prop) :
    Prop :=
  ∀ state, before state →
    (∃ value last, action state = (.ok value, last) ∧ after value last) ∨
    ∃ reason last, action state = (.error reason, last) ∧ halted last

variable {before : State → Prop} {after : α → State → Prop} {halted : State → Prop}

theorem Ensures.pure {value : α} (holds : ∀ state, before state → after value state) :
    Ensures before (pure value : Action Halt State α) after halted :=
  fun state start => .inl ⟨value, state, rfl, holds state start⟩

theorem Ensures.halt {reason : Halt} (holds : ∀ state, before state → halted state) :
    Ensures before (halt reason : Action Halt State α) after halted :=
  fun state start => .inr ⟨reason, state, rfl, holds state start⟩

theorem Ensures.modify {change : State → State} {after : Unit → State → Prop}
    (holds : ∀ state, before state → after () (change state)) :
    Ensures before (modify change : Action Halt State Unit) after halted :=
  fun state start => .inl ⟨(), change state, rfl, holds state start⟩

theorem Ensures.get {after : State → State → Prop} (holds : ∀ state, before state → after state state) :
    Ensures before (get : Action Halt State State) after halted :=
  fun state start => .inl ⟨state, state, rfl, holds state start⟩

theorem Ensures.bind {first : Action Halt State α} {next : α → Action Halt State β} {between : α → State → Prop}
    {after : β → State → Prop} (one : Ensures before first between halted)
    (two : ∀ value, Ensures (between value) (next value) after halted) :
    Ensures before (first >>= next) after halted := by
  intro state start
  change (∃ value last, first.andThen next state = _ ∧ _) ∨ ∃ reason last, first.andThen next state = _ ∧ _
  unfold andThen
  rcases one state start with ⟨value, middle, done, holds⟩ | ⟨reason, last, stopped, holds⟩
  · rw [done]
    exact two value middle holds
  · rw [stopped]
    exact .inr ⟨reason, last, rfl, holds⟩

theorem Ensures.weaken {action : Action Halt State α} {before' : State → Prop} {after' : α → State → Prop}
    {halted' : State → Prop} (holds : Ensures before action after halted) (start : ∀ state, before' state → before state)
    (ends : ∀ value state, after value state → after' value state) (stops : ∀ state, halted state → halted' state) :
    Ensures before' action after' halted' := by
  intro state start'
  rcases holds state (start state start') with ⟨value, last, done, holds⟩ | ⟨reason, last, stopped, holds⟩
  · exact .inl ⟨value, last, done, ends value last holds⟩
  · exact .inr ⟨reason, last, stopped, stops last holds⟩

theorem Ensures.and {action : Action Halt State α} {before' : State → Prop} {after' : α → State → Prop}
    {halted' : State → Prop} (one : Ensures before action after halted) (two : Ensures before' action after' halted') :
    Ensures (fun state => before state ∧ before' state) action (fun value state => after value state ∧ after' value state)
      (fun state => halted state ∧ halted' state) := by
  intro state start
  rcases one state start.1 with ⟨value, last, done, holds⟩ | ⟨reason, last, stopped, holds⟩
  · rcases two state start.2 with ⟨value', last', done', holds'⟩ | ⟨reason', last', stopped', -⟩
    · rw [done] at done'
      cases done'
      exact .inl ⟨value, last, done, holds, holds'⟩
    · rw [done] at stopped'
      cases stopped'
  · rcases two state start.2 with ⟨value', last', done', -⟩ | ⟨reason', last', stopped', holds'⟩
    · rw [stopped] at done'
      cases done'
    · rw [stopped] at stopped'
      cases stopped'
      exact .inr ⟨reason, last, stopped, holds, holds'⟩

end Action

end Kido.Shared
