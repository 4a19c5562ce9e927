import Kido.Shared.Run

set_option autoImplicit false

namespace Kido.Shared

inductive Prog (Op : Type) (Result : Op → Type) (α : Type) where
  | ret (value : α)
  | call (op : Op) (next : Result op → Prog Op Result α)

namespace Prog

variable {Op : Type} {Result : Op → Type} {α β : Type}

def bind : Prog Op Result α → (α → Prog Op Result β) → Prog Op Result β
  | .ret value, rest => rest value
  | .call op next, rest => .call op fun result => bind (next result) rest

def perform (op : Op) : Prog Op Result (Result op) := .call op .ret

instance : Monad (Prog Op Result) where
  pure := .ret
  bind := bind

end Prog

section Safe

variable {M Op : Type} {Result : Op → Type} {α β : Type}
variable (exec : (op : Op) → M → Result op × M) (rely promise : M → M → Prop)

-- Whatever the other thread does in between, the steps keep the promise and the value comes with `post`.
def Safe : Prog Op Result α → (α → M → Prop) → M → Prop
  | .ret value, post, memory => ∀ later, rely memory later → post value later
  | .call op next, post, memory => ∀ later, rely memory later →
      promise later (exec op later).2 ∧ Safe (next (exec op later).1) post (exec op later).2

def Meets (pre : M → Prop) (prog : Prog Op Result α) (post : α → M → Prop) : Prop :=
  ∀ memory, pre memory → Safe exec rely promise prog post memory

def Stable (P : M → Prop) : Prop := ∀ memory later, rely memory later → P memory → P later

variable {exec rely promise}

theorem Safe.mono {prog : Prog Op Result α} {post post' : α → M → Prop} {memory : M}
    (weaker : ∀ value later, post value later → post' value later)
    (safe : Safe exec rely promise prog post memory) : Safe exec rely promise prog post' memory := by
  induction prog generalizing memory with
  | ret value => exact fun later other => weaker value later (safe later other)
  | call op next ih => exact fun later other => ⟨(safe later other).1, ih _ (safe later other).2⟩

theorem Safe.later {prog : Prog Op Result α} {post : α → M → Prop} {memory after : M}
    (trans : ∀ {a b c : M}, rely a b → rely b c → rely a c) (other : rely memory after)
    (safe : Safe exec rely promise prog post memory) : Safe exec rely promise prog post after := by
  cases prog with
  | ret value => exact fun later more => safe later (trans other more)
  | call op next => exact fun later more => safe later (trans other more)

theorem Safe.bind {prog : Prog Op Result α} {rest : α → Prog Op Result β} {post : β → M → Prop} {memory : M}
    (refl : ∀ memory, rely memory memory)
    (safe : Safe exec rely promise prog (fun value later => Safe exec rely promise (rest value) post later) memory) :
    Safe exec rely promise (prog.bind rest) post memory := by
  induction prog generalizing memory with
  | ret value => exact safe memory (refl memory)
  | call op next ih => exact fun later other => ⟨(safe later other).1, ih _ (safe later other).2⟩

def Prog.alone (exec : (op : Op) → M → Result op × M) : Prog Op Result α → M → α × M
  | .ret value, memory => (value, memory)
  | .call op next, memory => (next (exec op memory).1).alone exec (exec op memory).2

theorem Safe.alone {prog : Prog Op Result α} {post : α → M → Prop} {memory : M} (refl : ∀ memory, rely memory memory)
    (own : ∀ memory, promise memory memory) (trans : ∀ {a b c : M}, promise a b → promise b c → promise a c)
    (safe : Safe exec rely promise prog post memory) :
    post (prog.alone exec memory).1 (prog.alone exec memory).2 ∧ promise memory (prog.alone exec memory).2 := by
  induction prog generalizing memory with
  | ret value => exact ⟨safe memory (refl memory), own memory⟩
  | call op next ih =>
    obtain ⟨promised, rest⟩ := safe memory (refl memory)
    obtain ⟨done, kept⟩ := ih _ rest
    exact ⟨done, trans promised kept⟩

theorem Safe.frame {prog : Prog Op Result α} {post : α → M → Prop} {R : M → Prop} {memory : M}
    (stable : Stable rely R) (kept : Stable promise R) (holds : R memory)
    (safe : Safe exec rely promise prog post memory) :
    Safe exec rely promise prog (fun value later => post value later ∧ R later) memory := by
  induction prog generalizing memory with
  | ret value => exact fun later other => ⟨safe later other, stable memory later other holds⟩
  | call op next ih =>
    intro later other
    obtain ⟨promised, rest⟩ := safe later other
    exact ⟨promised, ih _ (kept later _ promised (stable memory later other holds)) rest⟩

theorem Stable.and {P Q : M → Prop} (first : Stable rely P) (second : Stable rely Q) :
    Stable rely fun memory => P memory ∧ Q memory :=
  fun memory later other holds => ⟨first memory later other holds.1, second memory later other holds.2⟩

theorem Stable.const (P : Prop) : Stable rely fun _ : M => P := fun _ _ _ holds => holds

theorem Meets.ret {pre : M → Prop} {value : α} {post : α → M → Prop} (stable : Stable rely pre)
    (done : ∀ memory, pre memory → post value memory) : Meets exec rely promise pre (.ret value) post :=
  fun memory holds later other => done later (stable memory later other holds)

theorem Meets.call {pre : M → Prop} {op : Op} {next : Result op → Prog Op Result α} {post : α → M → Prop}
    (middle : Result op → M → Prop) (stable : Stable rely pre)
    (step : ∀ memory, pre memory → promise memory (exec op memory).2 ∧ middle (exec op memory).1 (exec op memory).2)
    (rest : ∀ result, Meets exec rely promise (middle result) (next result) post) :
    Meets exec rely promise pre (.call op next) post := by
  intro memory holds later other
  have taken := step later (stable memory later other holds)
  exact ⟨taken.1, rest _ _ taken.2⟩

theorem Meets.perform {pre : M → Prop} {op : Op} {post : Result op → M → Prop} (stable : Stable rely pre)
    (after : ∀ result, Stable rely (post result))
    (step : ∀ memory, pre memory → promise memory (exec op memory).2 ∧ post (exec op memory).1 (exec op memory).2) :
    Meets exec rely promise pre (Prog.perform op) post :=
  .call post stable step fun result => .ret (after result) fun _ holds => holds

theorem Meets.bind {pre : M → Prop} {prog : Prog Op Result α} {rest : α → Prog Op Result β} {post : β → M → Prop}
    (refl : ∀ memory, rely memory memory) (middle : α → M → Prop) (first : Meets exec rely promise pre prog middle)
    (second : ∀ value, Meets exec rely promise (middle value) (rest value) post) :
    Meets exec rely promise pre (prog >>= rest) post :=
  fun memory holds => Safe.bind refl (Safe.mono (fun value later => second value later) (first memory holds))

theorem Meets.weaken {pre pre' : M → Prop} {prog : Prog Op Result α} {post post' : α → M → Prop}
    (before : ∀ memory, pre memory → pre' memory) (after : ∀ value memory, post' value memory → post value memory)
    (meets : Meets exec rely promise pre' prog post') : Meets exec rely promise pre prog post :=
  fun memory holds => (meets memory (before memory holds)).mono after

variable (exec rely promise)

def Yields (P : M → Prop) (prog : Prog Op Result α) (Q : α → Prop) : Prop :=
  Meets exec rely promise P prog fun value memory => P memory ∧ Q value

variable {exec rely promise}

theorem Yields.pure {P : M → Prop} {value : α} {Q : α → Prop} (stable : Stable rely P) (holds : Q value) :
    Yields exec rely promise P (Pure.pure value) Q :=
  Meets.ret stable fun _ own => ⟨own, holds⟩

theorem Yields.bind {P : M → Prop} {prog : Prog Op Result α} {rest : α → Prog Op Result β} {Q : α → Prop}
    {R : β → Prop} (refl : ∀ memory, rely memory memory) (first : Yields exec rely promise P prog Q)
    (second : ∀ value, Q value → Yields exec rely promise P (rest value) R) :
    Yields exec rely promise P (prog >>= rest) R :=
  Meets.bind refl _ first fun value memory holds => second value holds.2 memory holds.1

theorem Yields.given {P : M → Prop} {prog : Prog Op Result α} {Q : α → Prop}
    (yields : ∀ memory, P memory → Yields exec rely promise P prog Q) : Yields exec rely promise P prog Q :=
  fun memory holds => yields memory holds memory holds

theorem Yields.mono {P : M → Prop} {prog : Prog Op Result α} {Q R : α → Prop} (weaker : ∀ value, Q value → R value)
    (yields : Yields exec rely promise P prog Q) : Yields exec rely promise P prog R :=
  Meets.weaken (fun _ => id) (fun value _ holds => ⟨holds.1, weaker value holds.2⟩) yields

end Safe

-- The code of a thread: what it does to answer a call, and to the state it keeps.
structure Machine (M : Type) where
  Op : Type
  Result : Op → Type
  exec : (op : Op) → M → Result op × M
  State : Type
  Call : Type
  Reply : Type
  body : Call → State → Prog Op Result (Reply × State)

variable {M : Type}

namespace Machine

-- A call that was answered, with the states before and after.
structure Answer (machine : Machine M) where
  before : machine.State
  call : machine.Call
  reply : machine.Reply
  after : machine.State

-- A thread: the call that it works on, if any, and the answers so far, the latest first.
structure Thread (machine : Machine M) where
  state : machine.State
  running : Option (machine.Call × Prog machine.Op machine.Result (machine.Reply × machine.State))
  answers : List machine.Answer

inductive Turn (machine : Machine M) where
  | call (call : machine.Call)
  | step

def Thread.turn {machine : Machine M} (thread : machine.Thread) (memory : M) : machine.Turn → machine.Thread × M
  | .call call =>
    match thread.running with
    | some _ => (thread, memory)
    | none => ({ thread with running := some (call, machine.body call thread.state) }, memory)
  | .step =>
    match thread.running with
    | none => (thread, memory)
    | some (call, .ret (reply, state)) =>
      (⟨state, none, ⟨thread.state, call, reply, state⟩ :: thread.answers⟩, memory)
    | some (call, .call op next) =>
      let (result, memory) := machine.exec op memory
      ({ thread with running := some (call, next result) }, memory)

-- What a thread keeps: `rest` between two calls, and `told` of its answers all the time.
structure Contract (machine : Machine M) (rely promise : M → M → Prop) where
  rest : machine.State → List machine.Answer → M → Prop
  told : List machine.Answer → M → Prop
  refl : ∀ memory, rely memory memory
  trans : ∀ {a b c : M}, rely a b → rely b c → rely a c
  own : ∀ memory, promise memory memory
  rest_stable : ∀ state answers, Stable rely (rest state answers)
  told_stable : ∀ answers, Stable rely (told answers)
  told_kept : ∀ answers, Stable promise (told answers)
  rest_told : ∀ state answers memory, rest state answers memory → told answers memory
  answers_call : ∀ state answers call, Meets machine.exec rely promise (rest state answers) (machine.body call state)
    fun value => rest value.2 (⟨state, call, value.1, value.2⟩ :: answers)

variable {machine : Machine M} {rely promise : M → M → Prop}

structure Contract.Holds (contract : Contract machine rely promise) (thread : machine.Thread) (memory : M) : Prop where
  told : contract.told thread.answers memory
  rest : thread.running = none → contract.rest thread.state thread.answers memory
  busy : ∀ call prog, thread.running = some (call, prog) → Safe machine.exec rely promise prog
    (fun value => contract.rest value.2 (⟨thread.state, call, value.1, value.2⟩ :: thread.answers)) memory

theorem Contract.Holds.later {contract : Contract machine rely promise} {thread : machine.Thread} {memory after : M}
    (holds : contract.Holds thread memory) (other : rely memory after) : contract.Holds thread after where
  told := contract.told_stable _ _ _ other holds.told
  rest idle := contract.rest_stable _ _ _ _ other (holds.rest idle)
  busy call prog running := (holds.busy call prog running).later contract.trans other

theorem Contract.Holds.turn {contract : Contract machine rely promise} {thread : machine.Thread} {memory : M}
    (holds : contract.Holds thread memory) (turn : machine.Turn) :
    contract.Holds (thread.turn memory turn).1 (thread.turn memory turn).2 ∧
      promise memory (thread.turn memory turn).2 := by
  obtain ⟨state, running, answers⟩ := thread
  cases turn with
  | call call =>
    cases running with
    | some _ => exact ⟨holds, contract.own memory⟩
    | none =>
      refine ⟨⟨holds.told, by simp [Thread.turn], ?_⟩, contract.own memory⟩
      intro other prog same
      simp only [Thread.turn, Option.some.injEq, Prod.mk.injEq] at same
      obtain ⟨rfl, rfl⟩ := same
      exact contract.answers_call state answers call memory (holds.rest rfl)
  | step =>
    cases running with
    | none => exact ⟨holds, contract.own memory⟩
    | some work =>
      obtain ⟨call, prog⟩ := work
      have safe := holds.busy call prog rfl
      cases prog with
      | ret value =>
        have rest := safe memory (contract.refl memory)
        exact ⟨⟨contract.rest_told _ _ _ rest, fun _ => rest, by simp [Thread.turn]⟩, contract.own memory⟩
      | call op next =>
        have stepped := safe memory (contract.refl memory)
        refine ⟨⟨contract.told_kept _ _ _ stepped.1 holds.told, by simp [Thread.turn], ?_⟩, stepped.1⟩
        intro other prog same
        simp only [Thread.turn, Option.some.injEq, Prod.mk.injEq] at same
        obtain ⟨rfl, rfl⟩ := same
        exact stepped.2

end Machine

structure Pair (first second : Machine M) where
  memory : M
  one : first.Thread
  two : second.Thread

namespace Pair

variable {first second : Machine M}

inductive Event (first second : Machine M) where
  | one (turn : first.Turn)
  | two (turn : second.Turn)

def step (pair : Pair first second) : Event first second → Pair first second
  | .one turn =>
    let (one, memory) := pair.one.turn pair.memory turn
    ⟨memory, one, pair.two⟩
  | .two turn =>
    let (two, memory) := pair.two.turn pair.memory turn
    ⟨memory, pair.one, two⟩

theorem step_holds {rely promise : M → M → Prop} {one : Machine.Contract first rely promise}
    {two : Machine.Contract second promise rely} {pair : Pair first second}
    (holds : one.Holds pair.one pair.memory ∧ two.Holds pair.two pair.memory) (event : Event first second) :
    one.Holds (pair.step event).one (pair.step event).memory ∧
      two.Holds (pair.step event).two (pair.step event).memory := by
  cases event with
  | one turn => exact ⟨(holds.1.turn turn).1, holds.2.later (holds.1.turn turn).2⟩
  | two turn => exact ⟨holds.1.later (holds.2.turn turn).2, (holds.2.turn turn).1⟩

theorem run_holds {rely promise : M → M → Prop} {one : Machine.Contract first rely promise}
    {two : Machine.Contract second promise rely} {start : Pair first second}
    (holds : one.Holds start.one start.memory ∧ two.Holds start.two start.memory) (events : List (Event first second)) :
    one.Holds (run step start events).one (run step start events).memory ∧
      two.Holds (run step start events).two (run step start events).memory :=
  run_invariant (P := fun pair : Pair first second => one.Holds pair.one pair.memory ∧ two.Holds pair.two pair.memory)
    holds (fun _ event holds => step_holds holds event) events

end Pair

end Kido.Shared
