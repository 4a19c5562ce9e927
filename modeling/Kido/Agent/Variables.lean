import Kido.Shared.Run
import Mathlib.Logic.Function.Basic

set_option autoImplicit false

namespace Kido.Agents

open Kido.Shared

inductive Var where
  | session
  | name
  | runtime
  | koRuntime
deriving DecidableEq

-- A value is its JSON text: that is what the cache compares and what a request carries.
abbrev Entry := Var × String

-- What calls `writeVars`: the session's start, a rename of the session, and the routing to a runtime.
inductive Event where
  | started (session name : String)
  | renamed (name : String)
  | routed (runtime koRuntime : String)

def Event.entries : Event → List Entry
  | .started session name => [(.session, session), (.name, name)]
  | .renamed name => [(.name, name)]
  | .routed runtime koRuntime => [(.runtime, runtime), (.koRuntime, koRuntime)]

-- A call at its await: what it sends after its request, and whether the server carried the request out.
structure Call where
  rest : List Entry
  request : Entry
  done : Bool
deriving DecidableEq

-- What a call still brings to the server.
def Call.Brings (call : Call) (entry : Entry) : Prop := entry ∈ call.rest ∨ entry = call.request ∧ call.done = false

inductive Note where
  | called (entries : List Entry)
  | sent (entry : Entry)
  | failed (entry : Entry)
deriving DecidableEq

-- The extension, and the variables that the server has of its pane. The log's last note is its first.
structure State where
  pane : Option String
  written : Var → Option String
  calls : List Call
  vars : Var → Option String
  log : List Note

-- `session_start` up to its first await, a call of `writeVars`, and a request that is carried out or answered.
inductive Act where
  | session
  | write (event : Event)
  | carry (index : Nat)
  | answer (index : Nat) (ok : Bool)

namespace State

def start : State := ⟨none, fun _ => none, [], fun _ => none, []⟩

-- One turn of the loop: the cache takes the value before the request is made. `put` is where the call goes.
def send (state : State) (put : List Call → List Call) : List Entry → State
  | [] => { state with calls := put [] }
  | entry :: rest =>
    { state with
      written := Function.update state.written entry.1 (some entry.2)
      calls := put [⟨rest, entry, false⟩]
      log := .sent entry :: state.log }

def fresh (state : State) (entries : List Entry) : List Entry := entries.filter fun entry => state.written entry.1 ≠ some entry.2

def writeVars (state : State) (entries : List Entry) : State :=
  match state.pane with
  | none => state
  | some _ => { state with log := .called entries :: state.log }.send (state.calls ++ ·) (state.fresh entries)

def replace (calls : List Call) (index : Nat) (call : List Call) : List Call := calls.take index ++ call ++ calls.drop (index + 1)

variable (env : Option String)

def step (state : State) : Act → State
  | .session => { state with pane := env, written := fun _ => none }
  | .write event => state.writeVars event.entries
  | .carry index =>
    match state.calls[index]? with
    | none => state
    | some call =>
      if call.done then state
      else
        { state with
          calls := replace state.calls index [{ call with done := true }]
          vars := Function.update state.vars call.request.1 (some call.request.2) }
  | .answer index ok =>
    match state.calls[index]? with
    | none => state
    | some call =>
      match ok with
      -- A request is answered well only when it was carried out; one that fails may have been.
      | true => if call.done then state.send (replace state.calls index) call.rest else state
      | false => { state with log := .failed call.request :: state.log }.send (replace state.calls index) call.rest

end State

-- The value of the last call for a variable.
def latest : List Note → Var → Option String
  | [], _ => none
  | .called entries :: log, var => (entries.lookup var).or (latest log var)
  | _ :: log, var => latest log var

-- A request with the entry failed, and no call was made with it since.
def Owed : List Note → Entry → Prop
  | [], _ => False
  | .called entries :: log, entry => entry ∉ entries ∧ Owed log entry
  | .failed request :: log, entry => entry = request ∨ Owed log entry
  | .sent _ :: log, entry => Owed log entry

-- The variables end at the last values written, and what failed is sent again by the next call with it.
structure Settled (state : State) : Prop where
  latest : state.calls = [] → (∀ entry, .failed entry ∉ state.log) →
    ∀ var value, latest state.log var = some value → state.vars var = some value
  resent : ∀ later entries before, state.log = later ++ .called entries :: before → ∀ entry ∈ entries, Owed before entry →
    .sent entry ∈ later ∨ ∃ call ∈ state.calls, entry ∈ call.rest

-- No call brings another value of a variable that is written, and what fails is neither cached nor left to send.
def Careful (state : State) : Act → Prop
  | .write event => ∀ entry ∈ event.entries, ∀ call ∈ state.calls, ∀ other, call.Brings other → other.1 = entry.1 → other.2 = entry.2
  | .answer index false => ∀ call ∈ state.calls[index]?,
      state.written call.request.1 ≠ some call.request.2 ∧ ∀ other ∈ state.calls, call.request ∉ other.rest
  | _ => True

-- No entry of an event names a variable twice.
theorem Event.lookup (event : Event) : ∀ entry, entry ∈ event.entries ↔ event.entries.lookup entry.1 = some entry.2 := by
  have same (first second : Var) : (first == second) = decide (first = second) := rfl
  rintro ⟨var, value⟩
  cases event <;> cases var <;> simp [entries, List.lookup_cons, same, eq_comm]

-- What is left to send and what is brought to the server, beside the cache, the variables and the log.
structure Ledger (left brings : Entry → Prop) (written vars : Var → Option String) (log : List Note) : Prop where
  covers : ∀ entry, left entry → brings entry
  current : ∀ entry, brings entry → latest log entry.1 = some entry.2
  cached : ∀ var value, written var = some value → latest log var = some value ∨ ∃ entry, left entry ∧ entry.1 = var
  held : (∀ entry, .failed entry ∉ log) → ∀ var value, latest log var = some value → vars var = some value ∨ brings (var, value)
  owed : ∀ entry, Owed log entry → written entry.1 ≠ some entry.2 ∧ ¬ left entry
  resent : ∀ later entries before, log = later ++ .called entries :: before → ∀ entry ∈ entries, Owed before entry →
    .sent entry ∈ later ∨ left entry

namespace Ledger

variable {left brings less : Entry → Prop} {written vars : Var → Option String} {log : List Note} {request : Entry}

-- A note in front of the log leaves what was sent again after a call.
theorem noted {note : Note} (other : ∀ entries, note ≠ .called entries)
    (resent : ∀ later entries before, log = later ++ .called entries :: before → ∀ entry ∈ entries, Owed before entry →
      .sent entry ∈ note :: later ∨ less entry) :
    ∀ later entries before, note :: log = later ++ .called entries :: before → ∀ entry ∈ entries, Owed before entry →
      .sent entry ∈ later ∨ less entry := by
  intro later entries before split
  cases later with
  | nil => exact absurd (List.cons.inj split).1 (other entries)
  | cons first later =>
    obtain ⟨rfl, tail⟩ := List.cons.inj split
    exact resent later entries before tail

-- The loop sends an entry.
theorem send (ledger : Ledger left brings written vars log) (has : left request)
    (kept : ∀ entry, left entry → less entry ∨ entry = request) (only : ∀ entry, less entry → left entry) :
    Ledger less brings (Function.update written request.1 (some request.2)) vars (.sent request :: log) where
  covers entry more := ledger.covers entry (only entry more)
  current := ledger.current
  cached var value := by
    by_cases same : var = request.1
    · subst same
      rw [Function.update_self]
      rintro ⟨⟩
      exact .inl (ledger.current request (ledger.covers request has))
    · rw [Function.update_of_ne same]
      intro is
      obtain last | ⟨entry, more, of⟩ := ledger.cached var value is
      · exact .inl last
      · obtain more | rfl := kept entry more
        · exact .inr ⟨entry, more, of⟩
        · exact absurd of.symm same
  held sound := ledger.held fun entry failed => sound entry (List.mem_cons_of_mem _ failed)
  owed entry failed := by
    obtain ⟨differs, gone⟩ := ledger.owed entry failed
    refine ⟨?_, fun more => gone (only entry more)⟩
    by_cases same : entry.1 = request.1
    · rw [same, Function.update_self]
      rintro is
      have : entry = request := Prod.ext same (Option.some.inj is).symm
      exact gone (this ▸ has)
    · rw [Function.update_of_ne same]
      exact differs
  resent := by
    apply noted fun _ => Note.noConfusion
    intro later entries before split entry member failed
    obtain sent | more := ledger.resent later entries before split entry member failed
    · exact .inl (List.mem_cons_of_mem _ sent)
    · obtain more | rfl := kept entry more
      · exact .inr more
      · exact .inl List.mem_cons_self

-- A call begins, and has what is not cached left to send.
theorem call (ledger : Ledger left brings written vars log) (event : Event)
    (careful : ∀ entry ∈ event.entries, ∀ other, brings other → other.1 = entry.1 → other.2 = entry.2) :
    Ledger (fun entry => left entry ∨ entry ∈ event.entries ∧ written entry.1 ≠ some entry.2)
      (fun entry => brings entry ∨ entry ∈ event.entries ∧ written entry.1 ≠ some entry.2) written vars (.called event.entries :: log) where
  covers entry := Or.imp_left (ledger.covers entry)
  current entry more := by
    rw [latest]
    cases found : event.entries.lookup entry.1 with
    | some value =>
      obtain before | ⟨member, _⟩ := more
      · rw [careful (entry.1, value) ((event.lookup _).mpr found) entry before rfl, Option.some_or]
      · rw [(event.lookup entry).mp member] at found
        rw [found, Option.some_or]
    | none =>
      obtain before | ⟨member, _⟩ := more
      · rw [Option.none_or, ledger.current entry before]
      · rw [(event.lookup entry).mp member] at found
        cases found
  cached var value is := by
    rw [latest]
    cases found : event.entries.lookup var with
    | some given =>
      by_cases same : given = value
      · exact .inl (by rw [same, Option.some_or])
      · refine .inr ⟨(var, given), .inr ⟨(event.lookup _).mpr found, fun cached => same ?_⟩, rfl⟩
        exact Option.some.inj (cached.symm.trans is)
    | none =>
      rw [Option.none_or]
      obtain last | ⟨entry, more, of⟩ := ledger.cached var value is
      · exact .inl last
      · exact .inr ⟨entry, .inl more, of⟩
  held sound var value := by
    have before := ledger.held fun entry failed => sound entry (List.mem_cons_of_mem _ failed)
    rw [latest]
    cases found : event.entries.lookup var with
    | some given =>
      rintro ⟨⟩
      have member : (var, value) ∈ event.entries := (event.lookup _).mpr found
      by_cases same : written var = some value
      · obtain last | ⟨entry, more, rfl⟩ := ledger.cached var value same
        · exact (before var value last).imp_right .inl
        · have is : entry.2 = value := careful _ member entry (ledger.covers entry more) rfl
          rw [← is]
          exact .inr (.inl (ledger.covers entry more))
      · exact .inr (.inr ⟨member, same⟩)
    | none =>
      rw [Option.none_or]
      intro last
      exact (before var value last).imp_right .inl
  owed entry failed := by
    obtain ⟨stray, failed⟩ := failed
    obtain ⟨differs, gone⟩ := ledger.owed entry failed
    exact ⟨differs, not_or.mpr ⟨gone, fun fresh => stray fresh.1⟩⟩
  resent later entries before split entry member failed := by
    cases later with
    | nil =>
      obtain ⟨⟨⟩, rfl⟩ := List.cons.inj split
      exact .inr (.inr ⟨member, (ledger.owed entry failed).1⟩)
    | cons first later =>
      obtain ⟨rfl, tail⟩ := List.cons.inj split
      obtain sent | more := ledger.resent later entries before tail entry member failed
      · exact .inl (List.mem_cons_of_mem _ sent)
      · exact .inr (.inl more)

-- The server carries a request out.
theorem carry (ledger : Ledger left brings written vars log) (due : brings request)
    (kept : ∀ entry, brings entry → less entry ∨ entry = request) (only : ∀ entry, less entry → brings entry)
    (covers : ∀ entry, left entry → less entry) :
    Ledger left less written (Function.update vars request.1 (some request.2)) log where
  covers := covers
  current entry more := ledger.current entry (only entry more)
  cached := ledger.cached
  held sound var value last := by
    by_cases same : var = request.1
    · subst same
      rw [Function.update_self]
      exact .inl ((ledger.current request due).symm.trans last)
    · rw [Function.update_of_ne same]
      obtain is | more := ledger.held sound var value last
      · exact .inl is
      · obtain more | is := kept _ more
        · exact .inr more
        · exact absurd (congrArg Prod.fst is) same
  owed := ledger.owed
  resent := ledger.resent

theorem fail (ledger : Ledger left brings written vars log) (only : ∀ entry, less entry → brings entry)
    (covers : ∀ entry, left entry → less entry) (differs : written request.1 ≠ some request.2) (gone : ¬ left request) :
    Ledger left less written vars (.failed request :: log) where
  covers := covers
  current entry more := ledger.current entry (only entry more)
  cached := ledger.cached
  held sound := absurd List.mem_cons_self (sound request)
  owed entry failed := by
    obtain rfl | failed := failed
    · exact ⟨differs, gone⟩
    · exact ledger.owed entry failed
  resent := noted (fun _ => Note.noConfusion) fun later entries before split entry member failed =>
    (ledger.resent later entries before split entry member failed).imp_left (List.mem_cons_of_mem _)

theorem clear (ledger : Ledger left brings written vars log) : Ledger left brings (fun _ => none) vars log where
  covers := ledger.covers
  current := ledger.current
  cached := nofun
  held := ledger.held
  owed entry failed := ⟨nofun, (ledger.owed entry failed).2⟩
  resent := ledger.resent

end Ledger

namespace State

def left (state : State) (entry : Entry) : Prop := ∃ call ∈ state.calls, entry ∈ call.rest

def brings (state : State) (entry : Entry) : Prop := ∃ call ∈ state.calls, call.Brings entry

def Sound (state : State) : Prop := Ledger state.left state.brings state.written state.vars state.log

theorem start_sound : start.Sound where
  covers := nofun
  current := nofun
  cached := nofun
  held := nofun
  owed := nofun
  resent later entries before split := by simp [start] at split

theorem among_split {front back : List Call} {call : Call} {P : Call → Prop} :
    (∃ other ∈ front ++ [call] ++ back, P other) ↔ (∃ other ∈ front ++ back, P other) ∨ P call := by
  simp only [List.mem_append, List.mem_singleton, or_and_right, exists_or, exists_eq_left]
  exact or_right_comm

section Send

variable {state : State} {front back : List Call} {rest : List Entry} {put : List Call → List Call}

-- What the other calls have left, and what the loop has: the loop goes on to its next await.
theorem send_sound (puts : ∀ call, put call = front ++ call ++ back)
    (ledger : Ledger (fun entry => (∃ call ∈ front ++ back, entry ∈ call.rest) ∨ entry ∈ rest)
      (fun entry => (∃ call ∈ front ++ back, call.Brings entry) ∨ entry ∈ rest) state.written state.vars state.log) :
    (state.send put rest).Sound := by
  cases rest with
  | nil =>
    simp only [List.not_mem_nil, or_false] at ledger
    change Ledger (fun entry => ∃ call ∈ put [], entry ∈ call.rest) (fun entry => ∃ call ∈ put [], call.Brings entry) _ _ _
    rw [puts, List.append_nil]
    exact ledger
  | cons entry rest =>
    have calls : (state.send put (entry :: rest)).calls = front ++ [⟨rest, entry, false⟩] ++ back := puts _
    have left_iff (other : Entry) : (state.send put (entry :: rest)).left other ↔ (∃ call ∈ front ++ back, other ∈ call.rest) ∨ other ∈ rest := by
      rw [left, calls, among_split]
    have brings_eq : (state.send put (entry :: rest)).brings = fun other => (∃ call ∈ front ++ back, call.Brings other) ∨ other ∈ entry :: rest := by
      funext other
      have last : Call.Brings ⟨rest, entry, false⟩ other ↔ other ∈ entry :: rest := by
        simp [Call.Brings, or_comm]
      rw [brings, calls, among_split, last]
    rw [Sound, brings_eq]
    apply ledger.send (.inr List.mem_cons_self)
    · intro other more
      rw [left_iff]
      obtain more | more := more
      · exact .inl (.inl more)
      · exact (List.mem_cons.mp more).symm.imp_left .inr
    · intro other more
      exact ((left_iff other).mp more).imp_right (List.mem_cons_of_mem _)

end Send

theorem replace_split {calls : List Call} {index : Nat} {call : Call} (at_ : calls[index]? = some call) :
    ∃ front back, calls = front ++ [call] ++ back ∧ ∀ new, replace calls index new = front ++ new ++ back := by
  obtain ⟨inside, rfl⟩ := List.getElem?_eq_some_iff.mp at_
  refine ⟨calls.take index, calls.drop (index + 1), ?_, fun _ => rfl⟩
  rw [List.append_assoc, List.singleton_append, ← List.drop_eq_getElem_cons inside, List.take_append_drop]

theorem step_sound (env : Option String) (state : State) (act : Act) (sound : state.Sound) (careful : Careful state act) :
    (state.step env act).Sound := by
  cases act with
  | session => exact Ledger.clear sound
  | write event =>
    rw [step, writeVars]
    split
    · exact sound
    · apply send_sound (show ∀ call, state.calls ++ call = state.calls ++ call ++ [] by simp)
      have begun := Ledger.call sound event fun entry member other ⟨call, among, more⟩ => careful entry member call among other more
      simpa only [left, brings, fresh, List.append_nil, List.mem_filter, decide_eq_true_eq] using begun
  | carry index =>
    rw [step]
    split
    · exact sound
    · next call at_ =>
      obtain ⟨front, back, calls, puts⟩ := replace_split at_
      split_ifs with done
      · exact sound
      · have left_eq : (fun entry => ∃ other ∈ front ++ [{ call with done := true }] ++ back, entry ∈ other.rest) = state.left := by
          funext entry
          rw [left, calls, among_split, among_split]
        have brings_iff (entry : Entry) : state.brings entry ↔ (∃ other ∈ front ++ back, other.Brings entry) ∨ call.Brings entry := by
          rw [brings, calls, among_split]
        change Ledger (fun entry => ∃ other ∈ replace state.calls index _, entry ∈ other.rest) (fun entry => ∃ other ∈ replace state.calls index _, _) _ _ _
        rw [puts, left_eq]
        simp only [among_split]
        apply Ledger.carry sound
        · exact (brings_iff _).mpr (.inr (.inr ⟨rfl, Bool.eq_false_iff.mpr done⟩))
        · intro entry more
          obtain others | more | ⟨rfl, _⟩ := (brings_iff entry).mp more
          · exact .inl (.inl others)
          · exact .inl (.inr (.inl more))
          · exact .inr rfl
        · intro entry more
          obtain others | more | ⟨_, undone⟩ := more
          · exact (brings_iff entry).mpr (.inl others)
          · exact (brings_iff entry).mpr (.inr (.inl more))
          · cases undone
        · intro entry more
          rw [left, calls, among_split] at more
          exact more.imp (fun ⟨other, among, more⟩ => ⟨other, among, .inl more⟩) .inl
  | answer index ok =>
    rw [step]
    split
    · exact sound
    · next call at_ =>
      obtain ⟨front, back, calls, puts⟩ := replace_split at_
      have left_eq : state.left = fun entry => (∃ call ∈ front ++ back, entry ∈ call.rest) ∨ entry ∈ call.rest := by
        funext entry
        rw [left, calls, among_split]
      have brings_iff (entry : Entry) : state.brings entry ↔ (∃ call ∈ front ++ back, call.Brings entry) ∨ call.Brings entry := by
        rw [brings, calls, among_split]
      cases ok with
      | true =>
        split_ifs with done
        · apply send_sound puts
          have same : state.brings = fun entry => (∃ call ∈ front ++ back, call.Brings entry) ∨ entry ∈ call.rest := by
            funext entry
            rw [brings_iff, Call.Brings, done]
            simp
          rw [← left_eq, ← same]
          exact sound
        · exact sound
      | false =>
        obtain ⟨differs, gone⟩ := careful call at_
        apply send_sound puts
        rw [← left_eq]
        apply Ledger.fail sound
        · exact fun entry more => (brings_iff entry).mpr (more.imp_right .inl)
        · intro entry more
          rw [left_eq] at more
          exact more.imp_left fun ⟨other, among, more⟩ => ⟨other, among, .inl more⟩
        · exact differs
        · exact fun ⟨other, among, more⟩ => gone other among more

end State

theorem variables_settled {env : Option String} {acts : List Act}
    (careful : AllAllowed (State.step env) Careful State.start acts) : Settled (run (State.step env) State.start acts) := by
  have sound : (run (State.step env) State.start acts).Sound :=
    run_allowed (fun state act sound careful => State.step_sound env state act sound careful) State.start_sound careful
  constructor
  · intro idle whole var value last
    obtain is | ⟨call, among, _⟩ := sound.held whole var value last
    · exact is
    · rw [idle] at among
      cases among
  · exact sound.resent

-- A session starts with a name, and is renamed once that was written.
def renamed : List Act :=
  [.session, .write (.started "s" "a"), .carry 0, .answer 0 true, .carry 0, .answer 0 true, .write (.renamed "b"), .carry 0, .answer 0 true]

theorem renamed_settled : Settled (run (State.step (some "%1")) State.start renamed) := by
  apply variables_settled
  simp [AllAllowed, renamed, Careful, State.step, State.writeVars, State.send, State.fresh, State.start, Event.entries, State.replace]

-- A rename while the session's start waits for its first request: the old name is sent after the new one.
def overtaken : List Act :=
  [.session, .write (.started "s" "a"), .write (.renamed "b"), .carry 1, .answer 1 true, .carry 0, .answer 0 true, .carry 0, .answer 0 true]

theorem overtaken_stale : ¬ Settled (run (State.step (some "%1")) State.start overtaken) := by
  intro settled
  have idle : (run (State.step (some "%1")) State.start overtaken).calls = [] := by decide
  have whole : (run (State.step (some "%1")) State.start overtaken).log =
    [.sent (.name, "a"), .sent (.name, "b"), .called [(.name, "b")], .sent (.session, "s"), .called [(.session, "s"), (.name, "a")]] := by decide
  have last : latest (run (State.step (some "%1")) State.start overtaken).log .name = some "b" := by
    rw [whole]
    rfl
  have is := settled.latest idle (by simp [whole]) .name "b" last
  exact absurd is (by decide)

end Kido.Agents
