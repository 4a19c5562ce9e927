import Kido.Shared.Slab
import Mathlib.Data.List.Sort

set_option autoImplicit false

namespace Kido.Events

open Kido.Shared

abbrev Timer := Key

-- Instants and durations are nanoseconds; the clock ends at a last one.
def checkedAdd (last at_ : Nat) (after : Nat) : Option Nat := if at_ + after ≤ last then some (at_ + after) else none

structure Clock where
  armed : UInt64
  active : Bool
  period : Option Nat
deriving DecidableEq

structure Entry where
  due : Nat
  armed : UInt64
  index : UInt32
deriving DecidableEq

-- The order of the heap, in which the least is on top.
def Entry.le (first second : Entry) : Prop :=
  first.due < second.due ∨ first.due = second.due ∧ (first.armed < second.armed ∨ first.armed = second.armed ∧ first.index ≤ second.index)

instance : DecidableRel Entry.le := fun first second => by
  unfold Entry.le
  infer_instance

structure Due where
  timer : Timer
  armed : UInt64
deriving DecidableEq

inductive Refused where
  | withoutPeriod
  | beyondClock
deriving DecidableEq

structure Timers where
  clocks : Slab Clock
  -- From the least on.
  heap : List Entry
  arms : UInt64

namespace Timers

def new : Timers := ⟨.empty, [], 0⟩

def timer (timers : Timers) : Timers × Timer :=
  let (clocks, key) := timers.clocks.insert ⟨0, false, none⟩
  ({ timers with clocks := clocks }, key)

def current (timers : Timers) (due : Due) : Bool := (timers.clocks.get due.timer).any fun clock => clock.armed == due.armed

-- The time a start is for, when it is not refused.
def dueOf (last now : Nat) (after : Nat) (period : Option Nat) : Except Refused Nat :=
  if period = some 0 then .error .withoutPeriod
  else
    match checkedAdd last now after with
    | some due => .ok due
    | none => .error .beyondClock

def push (heap : List Entry) (entry : Entry) : List Entry := heap.orderedInsert Entry.le entry

def start (last now : Nat) (timer : Timer) (after : Nat) (period : Option Nat) (timers : Timers) :
    Except Refused Timers := do
  let due ← dueOf last now after period
  let armed := timers.arms + 1
  match timers.clocks.get timer with
  | none => return { timers with arms := armed }
  | some _ =>
    return {
      clocks := timers.clocks.update timer fun _ => ⟨armed, true, period⟩
      heap := push timers.heap ⟨due, armed, timer.index⟩
      arms := armed }

def stop (timer : Timer) (timers : Timers) : Timers :=
  { timers with
    clocks := timers.clocks.update timer fun clock => { clock with armed := timers.arms + 1, active := false }
    arms := timers.arms + 1 }

def free (timer : Timer) (timers : Timers) : Timers := { timers with clocks := timers.clocks.remove timer }

-- Whether the entry is that of its clock's last start.
def live (clocks : Slab Clock) (entry : Entry) : Bool :=
  match clocks.get (clocks.key entry.index) with
  | some clock => clock.active && clock.armed == entry.armed
  | none => false

def nextIn (clocks : Slab Clock) : List Entry → Option Nat × List Entry
  | [] => (none, [])
  | entry :: rest => if live clocks entry then (some entry.due, entry :: rest) else nextIn clocks rest

def nextDue (timers : Timers) : Option Nat × Timers :=
  let (due, heap) := nextIn timers.clocks timers.heap
  (due, { timers with heap := heap })

-- When a clock that was due is due again.
def again (last now due : Nat) (period : Option Nat) : Option Nat := do
  let period ← period
  match (checkedAdd last due period).filter (now < ·) with
  | some next => some next
  | none => checkedAdd last now period

-- A due comes with the time it was for.
def expireLoop (last now : Nat) : Nat → Timers → List (Nat × Due) × Timers
  | 0, timers => ([], timers)
  | fuel + 1, timers =>
    match timers.nextDue with
    | (none, timers) => ([], timers)
    | (some due, timers) =>
      if due ≤ now then
        match timers.heap with
        | [] => ([], timers)
        | entry :: heap =>
          let key := timers.clocks.key entry.index
          let timers :=
            match timers.clocks.get key with
            | none => { timers with heap := heap }
            | some clock =>
              match again last now due clock.period with
              | some next => { timers with heap := push heap ⟨next, entry.armed, entry.index⟩ }
              | none => { timers with heap := heap, clocks := timers.clocks.update key fun clock => { clock with active := false } }
          let (later, timers) := expireLoop last now fuel timers
          ((due, ⟨key, entry.armed⟩) :: later, timers)
      else ([], timers)

-- What is pushed again is not due, so that the loop takes each entry once at most.
def expire (last now : Nat) (timers : Timers) : List (Nat × Due) × Timers :=
  expireLoop last now timers.heap.length timers

end Timers

inductive Op where
  | timer
  | start (key : Timer) (now : Nat) (after : Nat) (period : Option Nat)
  | stop (key : Timer)
  | free (key : Timer)
  | nextDue
  | expire (now : Nat)

namespace Op

def step (last : Nat) (timers : Timers) : Op → Timers × List (Nat × Due)
  | .timer => (timers.timer.1, [])
  | .start key now after period =>
    match timers.start last now key after period with
    | .ok timers => (timers, [])
    | .error _ => (timers, [])
  | .stop key => (timers.stop key, [])
  | .free key => (timers.free key, [])
  | .nextDue => (timers.nextDue.2, [])
  | .expire now => ((timers.expire last now).2, (timers.expire last now).1)

-- The state, and all that was due.
def run (last : Nat) (timers : Timers) : List Op → Timers × List (Nat × Due)
  | [] => (timers, [])
  | op :: rest =>
    let (timers, due) := op.step last timers
    let (timers, later) := run last timers rest
    (timers, due ++ later)

def now? : Op → Option Nat
  | .start _ now _ _ => some now
  | .expire now => some now
  | _ => none

-- Time does not go back.
def Timed (ops : List Op) : Prop := (ops.filterMap now?).Pairwise (· ≤ ·)

-- Whether the operation counts as an arm.
def arms (last : Nat) : Op → Bool
  | .start _ now after period => (Timers.dueOf last now after period).toBool
  | .stop _ => true
  | _ => false

-- Whether the operation stops, frees or starts the timer.
def Touches (last : Nat) (key : Timer) : Op → Prop
  | .start other now after period => other = key ∧ (Timers.dueOf last now after period).toBool
  | .stop other => other = key
  | .free other => other = key
  | _ => False

-- The time of a timer that was due at a time, after operations that leave it alone.
def timeAfter (last : Nat) (period : Option Nat) : Nat → List Op → Option Nat
  | due, [] => some due
  | due, .expire now :: rest =>
    if due ≤ now then (Timers.again last now due period).bind fun next => timeAfter last period next rest
    else timeAfter last period due rest
  | due, _ :: rest => timeAfter last period due rest

end Op

end Kido.Events

namespace Kido.Events

open Kido.Shared

namespace Timers

section Order

theorem le_total (first second : Entry) : first.le second ∨ second.le first := by
  unfold Entry.le
  simp only [UInt64.lt_iff_toNat_lt, UInt32.le_iff_toNat_le, ← UInt64.toNat_inj]
  omega

theorem le_trans {first second third : Entry} (one : first.le second) (two : second.le third) : first.le third := by
  unfold Entry.le at *
  simp only [UInt64.lt_iff_toNat_lt, UInt32.le_iff_toNat_le, ← UInt64.toNat_inj] at *
  omega

instance : Std.Total Entry.le := ⟨le_total⟩

instance : IsTrans Entry Entry.le := ⟨fun _ _ _ => le_trans⟩

theorem le_due {first second : Entry} (ordered : first.le second) : first.due ≤ second.due := by
  rcases ordered with earlier | same
  · exact Nat.le_of_lt earlier
  · exact Nat.le_of_eq same.1

theorem mem_push {heap : List Entry} {entry other : Entry} : other ∈ push heap entry ↔ other = entry ∨ other ∈ heap :=
  List.mem_orderedInsert _

theorem push_sorted {heap : List Entry} (sorted : heap.Pairwise Entry.le) (entry : Entry) : (push heap entry).Pairwise Entry.le :=
  sorted.orderedInsert entry heap

theorem push_perm (heap : List Entry) (entry : Entry) : (push heap entry).Perm (entry :: heap) := List.perm_orderedInsert _ _ _

end Order

structure Good (timers : Timers) : Prop where
  whole : timers.clocks.Whole
  sorted : timers.heap.Pairwise Entry.le
  once : (timers.heap.map Entry.armed).Nodup
  low : ∀ entry ∈ timers.heap, 0 < entry.armed.toNat ∧ entry.armed.toNat ≤ timers.arms.toNat
  clocks : ∀ key clock, timers.clocks.get key = some clock → clock.armed.toNat ≤ timers.arms.toNat ∧ clock.period ≠ some 0
  own : ∀ entry ∈ timers.heap, ∀ key clock, timers.clocks.get key = some clock → clock.armed = entry.armed → key.index = entry.index
  queued : ∀ key clock, timers.clocks.get key = some clock → clock.active → ∃ due, ⟨due, clock.armed, key.index⟩ ∈ timers.heap

-- The timer is armed, with this number, for that time.
def Armed (timers : Timers) (key : Timer) (armed : UInt64) (period : Option Nat) (time : Nat) : Prop :=
  ⟨time, armed, key.index⟩ ∈ timers.heap ∧ timers.clocks.get key = some ⟨armed, true, period⟩

theorem new_good : new.Good where
  whole := Slab.whole_empty
  sorted := .nil
  once := .nil
  low := nofun
  clocks := by simp [new, Slab.empty, Slab.get]
  own := nofun
  queued := by simp [new, Slab.empty, Slab.get]

theorem live_of {clocks : Slab Clock} {key : Timer} {clock : Clock} {entry : Entry} (found : clocks.get key = some clock)
    (index : key.index = entry.index) : live clocks entry = (clock.active && clock.armed == entry.armed) := by
  unfold live
  rw [← index, Slab.key_get found, found]

theorem live_iff {clocks : Slab Clock} {entry : Entry} : live clocks entry = true ↔
    ∃ period, clocks.get (clocks.key entry.index) = some ⟨entry.armed, true, period⟩ := by
  unfold live
  split
  next clock found =>
    rw [found]
    obtain ⟨armed, active, period⟩ := clock
    simp [and_comm]
  next found =>
    rw [found]
    simp

theorem Armed.live {timers : Timers} {key : Timer} {armed : UInt64} {period : Option Nat} {time : Nat}
    (is : timers.Armed key armed period time) : live timers.clocks ⟨time, armed, key.index⟩ = true := by
  rw [live_of is.2 rfl]
  simp

-- A timer is armed once at most, and no other has its number.
theorem Good.unique {timers : Timers} (good : timers.Good) {first second : Timer} {armed : UInt64} {one two : Option Nat}
    {time other : Nat} (is : timers.Armed first armed one time) (also_ : timers.Armed second armed two other) :
    first = second ∧ one = two ∧ time = other := by
  have same := List.inj_on_of_nodup_map good.once is.1 also_.1 rfl
  obtain ⟨rfl, -, index⟩ := Entry.mk.inj same
  obtain rfl := Slab.get_same_index is.2 also_.2 index
  have clocks := is.2.symm.trans also_.2
  simp only [Option.some.injEq, Clock.mk.injEq, true_and] at clocks
  exact ⟨rfl, clocks, rfl⟩

section Steps

variable {timers : Timers} (good : timers.Good)

include good

omit good in
theorem next_arm (room : timers.arms.toNat + 1 < 2 ^ 64) : (timers.arms + 1).toNat = timers.arms.toNat + 1 := by
  rw [UInt64.toNat_add]
  exact Nat.mod_eq_of_lt room

theorem timer_get (key : Timer) : timers.timer.1.clocks.get key = timers.clocks.get key ∨
    timers.clocks.get key = none ∧ timers.timer.1.clocks.get key = some ⟨0, false, none⟩ := by
  by_cases room : timers.clocks.Room
  · have inserted := Slab.get_insert good.whole room ⟨0, false, none⟩ key
    by_cases fresh : key = (timers.clocks.insert ⟨0, false, none⟩).2
    · right
      rw [if_pos fresh] at inserted
      exact ⟨fresh ▸ Slab.insert_fresh good.whole room _, inserted⟩
    · left
      rw [if_neg fresh] at inserted
      exact inserted
  · exact .inl (Slab.insert_full room _ key)

theorem timer_armed (key : Timer) (armed : UInt64) (period : Option Nat) (time : Nat) :
    timers.timer.1.Armed key armed period time ↔ timers.Armed key armed period time := by
  have heap : timers.timer.1.heap = timers.heap := rfl
  unfold Armed
  rw [heap]
  rcases timer_get good key with same | ⟨absent, fresh⟩
  · rw [same]
  · rw [absent, fresh]
    simp

theorem timer_good : timers.timer.1.Good := by
  have found (key : Timer) (clock : Clock) (get : timers.timer.1.clocks.get key = some clock) :
      timers.clocks.get key = some clock ∨ clock = ⟨0, false, none⟩ := by
    rcases timer_get good key with same | ⟨-, fresh⟩
    · exact .inl (same ▸ get)
    · exact .inr (Option.some.inj (get.symm.trans fresh))
  constructor
  case whole => exact Slab.insert_whole good.whole _
  case sorted => exact good.sorted
  case once => exact good.once
  case low => exact good.low
  case clocks =>
    intro key clock get
    rcases found key clock get with old | rfl
    · exact good.clocks key clock old
    · exact ⟨Nat.zero_le _, nofun⟩
  case own =>
    intro entry member key clock get same
    rcases found key clock get with old | rfl
    · exact good.own entry member key clock old same
    · have positive := (good.low entry member).1
      rw [← same] at positive
      exact absurd positive (by decide)
  case queued =>
    intro key clock get active
    rcases found key clock get with old | rfl
    · exact good.queued key clock old active
    · cases active

omit good in
theorem stop_armed (stopped key : Timer) (armed : UInt64) (period : Option Nat) (time : Nat) :
    (timers.stop stopped).Armed key armed period time ↔ key ≠ stopped ∧ timers.Armed key armed period time := by
  unfold Armed stop
  simp only [Slab.get_update]
  by_cases same : key = stopped
  · rw [if_pos same]
    cases timers.clocks.get key <;> simp [same]
  · simp [same]

theorem stop_good (room : timers.arms.toNat + 1 < 2 ^ 64) (stopped : Timer) : (timers.stop stopped).Good := by
  have next := next_arm room
  have found (key : Timer) (clock : Clock) (get : (timers.stop stopped).clocks.get key = some clock) :
      timers.clocks.get key = some clock ∨ clock.armed = timers.arms + 1 ∧ clock.active = false ∧ clock.period ≠ some 0 := by
    unfold stop at get
    simp only [Slab.get_update] at get
    split at get
    · obtain ⟨old, was, rfl⟩ := Option.map_eq_some_iff.1 get
      exact .inr ⟨rfl, rfl, (good.clocks key old was).2⟩
    · exact .inl get
  constructor
  case whole => exact Slab.update_whole good.whole _ _
  case sorted => exact good.sorted
  case once => exact good.once
  case low =>
    intro entry member
    have low := good.low entry member
    exact ⟨low.1, by rw [stop, next]; omega⟩
  case clocks =>
    intro key clock get
    rw [stop, next]
    rcases found key clock get with old | ⟨armed, -, period⟩
    · have low := good.clocks key clock old
      exact ⟨by omega, low.2⟩
    · exact ⟨by rw [armed, next], period⟩
  case own =>
    intro entry member key clock get same
    rcases found key clock get with old | ⟨armed, -, -⟩
    · exact good.own entry member key clock old same
    · have low := (good.low entry member).2
      rw [← same, armed, next] at low
      omega
  case queued =>
    intro key clock get active
    rcases found key clock get with old | ⟨-, passive, -⟩
    · exact good.queued key clock old active
    · rw [passive] at active
      cases active

omit good in
theorem free_armed (freed key : Timer) (armed : UInt64) (period : Option Nat) (time : Nat) :
    (timers.free freed).Armed key armed period time ↔ key ≠ freed ∧ timers.Armed key armed period time := by
  unfold Armed free
  simp only [Slab.get_remove]
  by_cases same : key = freed
  · simp [same]
  · simp [same]

theorem free_good (freed : Timer) : (timers.free freed).Good := by
  have found (key : Timer) (clock : Clock) (get : (timers.free freed).clocks.get key = some clock) :
      timers.clocks.get key = some clock := by
    unfold free at get
    simp only [Slab.get_remove] at get
    split at get
    · cases get
    · exact get
  constructor
  case whole => exact Slab.remove_whole good.whole _
  case sorted => exact good.sorted
  case once => exact good.once
  case low => exact good.low
  case clocks => exact fun key clock get => good.clocks key clock (found key clock get)
  case own => exact fun entry member key clock get => good.own entry member key clock (found key clock get)
  case queued => exact fun key clock get => good.queued key clock (found key clock get)

omit good in
theorem dueOf_ok {last now after due : Nat} {period : Option Nat} (accepted : dueOf last now after period = .ok due) :
    period ≠ some 0 ∧ due = now + after := by
  unfold dueOf at accepted
  split at accepted
  next => cases accepted
  next positive =>
    unfold checkedAdd at accepted
    split at accepted
    next found =>
      split at found
      · cases accepted
        cases found
        exact ⟨positive, rfl⟩
      · cases found
    next => cases accepted

-- What an accepted start leaves.
def started (timers : Timers) (key : Timer) (due : Nat) (period : Option Nat) : Timers :=
  match timers.clocks.get key with
  | none => { timers with arms := timers.arms + 1 }
  | some _ =>
    { clocks := timers.clocks.update key fun _ => ⟨timers.arms + 1, true, period⟩
      heap := push timers.heap ⟨due, timers.arms + 1, key.index⟩
      arms := timers.arms + 1 }

omit good in
theorem start_cases (last now : Nat) (key : Timer) (after : Nat) (period : Option Nat) (timers : Timers) :
    (∃ refused, dueOf last now after period = .error refused ∧ timers.start last now key after period = .error refused) ∨
      ∃ due, dueOf last now after period = .ok due ∧ timers.start last now key after period = .ok (timers.started key due period) := by
  unfold start started
  cases accepted : dueOf last now after period with
  | error refused => exact .inl ⟨refused, rfl, rfl⟩
  | ok due =>
    refine .inr ⟨due, rfl, ?_⟩
    cases timers.clocks.get key <;> rfl

theorem started_armed (room : timers.arms.toNat + 1 < 2 ^ 64) (at_ key : Timer) (due : Nat) (every : Option Nat) (armed : UInt64)
    (period : Option Nat) (time : Nat) :
    (timers.started at_ due every).Armed key armed period time ↔
      key ≠ at_ ∧ timers.Armed key armed period time ∨
        key = at_ ∧ timers.clocks.get at_ ≠ none ∧ armed = timers.arms + 1 ∧ period = every ∧ time = due := by
  have next := next_arm room
  unfold started
  split
  next absent =>
    unfold Armed
    simp only [absent, ne_eq, not_true_eq_false, false_and, and_false, or_false]
    by_cases same : key = at_
    · simp [same, absent]
    · simp [same]
  next clock found =>
    unfold Armed
    simp only [Slab.get_update, mem_push]
    by_cases same : key = at_
    · subst same
      rw [if_pos rfl, found]
      constructor
      · rintro ⟨member, clock⟩
        simp only [Option.map_some, Option.some.injEq, Clock.mk.injEq, true_and] at clock
        obtain ⟨rfl, rfl⟩ := clock
        rcases member with new | old
        · exact .inr ⟨rfl, nofun, rfl, rfl, (Entry.mk.inj new).1⟩
        · have low := (good.low _ old).2
          simp only [next] at low
          omega
      · rintro (⟨other, -⟩ | ⟨-, -, rfl, rfl, rfl⟩)
        · exact absurd rfl other
        · exact ⟨.inl rfl, rfl⟩
    · simp only [same, ne_eq, not_false_eq_true, true_and, false_and, or_false]
      constructor
      · rintro ⟨member, get⟩
        refine ⟨member.resolve_left fun new => ?_, get⟩
        have low := (good.clocks key _ get).1
        rw [(Entry.mk.inj new).2.1, next] at low
        omega
      · exact fun ⟨member, get⟩ => ⟨.inr member, get⟩

theorem started_good (room : timers.arms.toNat + 1 < 2 ^ 64) (at_ : Timer) (due : Nat) {every : Option Nat} (positive : every ≠ some 0) :
    (timers.started at_ due every).Good := by
  have next := next_arm room
  unfold started
  split
  next absent =>
    refine ⟨good.whole, good.sorted, good.once, fun entry member => ?_, fun key clock get => ?_, good.own, good.queued⟩
    · have low := good.low entry member
      exact ⟨low.1, by rw [next]; omega⟩
    · have low := good.clocks key clock get
      exact ⟨by rw [next]; omega, low.2⟩
  next before was =>
    have found (key : Timer) (clock : Clock) (get : (timers.clocks.update at_ fun _ => ⟨timers.arms + 1, true, every⟩).get key = some clock) :
        key ≠ at_ ∧ timers.clocks.get key = some clock ∨ key = at_ ∧ clock = ⟨timers.arms + 1, true, every⟩ := by
      rw [Slab.get_update] at get
      by_cases same : key = at_
      · rw [if_pos same, same, was] at get
        exact .inr ⟨same, (Option.some.inj get).symm⟩
      · rw [if_neg same] at get
        exact .inl ⟨same, get⟩
    have fresh : timers.arms + 1 ∉ timers.heap.map Entry.armed := by
      intro member
      obtain ⟨entry, old, same⟩ := List.mem_map.1 member
      have low := (good.low entry old).2
      rw [same, next] at low
      omega
    constructor
    case whole => exact Slab.update_whole good.whole _ _
    case sorted => exact push_sorted good.sorted _
    case once => exact ((push_perm _ _).map Entry.armed).nodup_iff.2 (List.nodup_cons.2 ⟨fresh, good.once⟩)
    case low =>
      intro entry member
      rw [next]
      rcases mem_push.1 member with rfl | old
      · exact ⟨by rw [next]; omega, by rw [next]⟩
      · have low := good.low entry old
        omega
    case clocks =>
      intro key clock get
      rw [next]
      rcases found key clock get with ⟨-, old⟩ | ⟨-, rfl⟩
      · have low := good.clocks key clock old
        exact ⟨by omega, low.2⟩
      · exact ⟨by rw [next], positive⟩
    case own =>
      intro entry member key clock get same
      rcases mem_push.1 member with rfl | old
      · rcases found key clock get with ⟨-, earlier⟩ | ⟨rfl, -⟩
        · have low := (good.clocks key clock earlier).1
          rw [same, next] at low
          omega
        · rfl
      · rcases found key clock get with ⟨-, earlier⟩ | ⟨-, rfl⟩
        · exact good.own entry old key clock earlier same
        · exact absurd (List.mem_map.2 ⟨entry, old, same.symm⟩) fresh
    case queued =>
      intro key clock get active
      rcases found key clock get with ⟨-, earlier⟩ | ⟨rfl, rfl⟩
      · obtain ⟨time, member⟩ := good.queued key clock earlier active
        exact ⟨time, mem_push.2 (.inr member)⟩
      · exact ⟨due, mem_push.2 (.inl rfl)⟩

end Steps

end Timers

end Kido.Events
