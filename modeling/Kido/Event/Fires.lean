import Kido.Event.Expire

set_option autoImplicit false

namespace Kido.Events

open Kido.Shared

namespace Op

variable {last : Nat}

-- The timer was started with this number, was left alone since, and is to come at that time.
def InForce (last : Nat) (ops : List Op) (key : Timer) (armed : UInt64) (period : Option Nat) (time : Nat) : Prop :=
  ∃ before now after due since,
    ops = before ++ .start key now after period :: since ∧ Timers.dueOf last now after period = .ok due ∧
      (run last .new before).1.clocks.get key ≠ none ∧ armed = (run last .new before).1.arms + 1 ∧
      (∀ op ∈ since, ¬ op.Touches last key) ∧ timeAfter last period due since = some time

theorem run_append (timers : Timers) (first second : List Op) :
    (run last timers (first ++ second)).1 = (run last (run last timers first).1 second).1 ∧
      (run last timers (first ++ second)).2 = (run last timers first).2 ++ (run last (run last timers first).1 second).2 := by
  induction first generalizing timers with
  | nil => exact ⟨rfl, rfl⟩
  | cons op rest ih =>
    obtain ⟨state, log⟩ := ih (op.step last timers).1
    refine ⟨state, ?_⟩
    rw [List.cons_append, run, run]
    simp only [log, List.append_assoc]

theorem run_snoc (timers : Timers) (ops : List Op) (op : Op) :
    (run last timers (ops ++ [op])).1 = (op.step last (run last timers ops).1).1 ∧
      (run last timers (ops ++ [op])).2 = (run last timers ops).2 ++ (op.step last (run last timers ops).1).2 := by
  obtain ⟨state, log⟩ := run_append timers ops [op]
  refine ⟨state, log.trans ?_⟩
  simp [run]

theorem timeAfter_append (period : Option Nat) (due : Nat) (first second : List Op) :
    timeAfter last period due (first ++ second) = (timeAfter last period due first).bind fun time => timeAfter last period time second := by
  induction first generalizing due with
  | nil => rfl
  | cons op rest ih =>
    cases op with
    | expire now =>
      rw [List.cons_append, timeAfter, timeAfter]
      split
      · rw [Option.bind_assoc]
        simp only [ih]
      · exact ih due
    | _ => exact ih due

theorem inForce_snoc (ops : List Op) (op : Op) (key : Timer) (armed : UInt64) (period : Option Nat) (time : Nat) :
    InForce last (ops ++ [op]) key armed period time ↔
      (∃ before, InForce last ops key armed period before ∧ ¬ op.Touches last key ∧ timeAfter last period before [op] = some time) ∨
        ∃ now after, op = .start key now after period ∧ Timers.dueOf last now after period = .ok time ∧
          (run last .new ops).1.clocks.get key ≠ none ∧ armed = (run last .new ops).1.arms + 1 := by
  constructor
  · rintro ⟨before, now, after, due, since, split_, accepted, there, number, alone, comes⟩
    rcases List.eq_nil_or_concat since with rfl | ⟨earlier, latest, rfl⟩
    · obtain ⟨rfl, same⟩ := List.append_inj' split_ rfl
      obtain rfl : due = time := Option.some.inj comes
      exact .inr ⟨now, after, List.cons.inj same |>.1, accepted, there, number⟩
    · rw [List.concat_eq_append] at split_ alone comes
      rw [← List.cons_append, ← List.append_assoc] at split_
      obtain ⟨rfl, same⟩ := List.append_inj' split_ rfl
      obtain rfl : op = latest := List.cons.inj same |>.1
      rw [timeAfter_append] at comes
      obtain ⟨middle, until_, then_⟩ := Option.bind_eq_some_iff.1 comes
      refine .inl ⟨middle, ⟨before, now, after, due, earlier, rfl, accepted, there, number, ?_, until_⟩, ?_, then_⟩
      · exact fun other member => alone other (List.mem_append_left _ member)
      · exact alone op (by simp)
  · rintro (⟨middle, ⟨before, now, after, due, since, rfl, accepted, there, number, alone, until_⟩, away, then_⟩ |
      ⟨now, after, rfl, accepted, there, number⟩)
    · refine ⟨before, now, after, due, since ++ [op], by simp, accepted, there, number, fun other member => ?_, ?_⟩
      · rcases List.mem_append.1 member with earlier | latest
        · exact alone other earlier
        · rw [List.mem_singleton.1 latest]
          exact away
      · rw [timeAfter_append, until_]
        exact then_
    · exact ⟨ops, now, after, time, [], rfl, accepted, there, number, nofun, rfl⟩

theorem expired (last now : Nat) {timers : Timers} (good : timers.Good) :
    Timers.Expired last now timers (timers.expire last now).1 (timers.expire last now).2 :=
  Timers.expireLoop_spec good List.countP_le_length

-- A state that the operations lead to, with what is armed in it.
structure Reached (last : Nat) (ops : List Op) (timers : Timers) : Prop where
  good : timers.Good
  arms : timers.arms.toNat = ops.countP (arms last)
  armed : ∀ key armed period time, timers.Armed key armed period time ↔ InForce last ops key armed period time

theorem arms_start {now after : Nat} {key : Timer} {period : Option Nat} {due : Nat} (accepted : Timers.dueOf last now after period = .ok due) :
    arms last (.start key now after period) = true := by
  rw [arms, accepted]
  rfl

-- An operation that neither starts a timer nor lets time pass only takes timers away.
theorem inForce_other (ops : List Op) {op : Op} (still : op.now? = none) (key : Timer) (armed : UInt64) (period : Option Nat) (time : Nat) :
    InForce last (ops ++ [op]) key armed period time ↔ ¬ op.Touches last key ∧ InForce last ops key armed period time := by
  have passes (due : Nat) : timeAfter last period due [op] = some due := by
    cases op with
    | expire now => cases still
    | _ => rfl
  rw [inForce_snoc]
  constructor
  · rintro (⟨before, is, away, same⟩ | ⟨now, after, rfl, -⟩)
    · rw [passes] at same
      cases same
      exact ⟨away, is⟩
    · cases still
  · rintro ⟨away, is⟩
    exact .inl ⟨time, is, away, passes time⟩

theorem reached_step {ops : List Op} {op : Op} (few : (ops ++ [op]).countP (arms last) < 2 ^ 64)
    (reached : Reached last ops (run last .new ops).1) : Reached last (ops ++ [op]) (run last .new (ops ++ [op])).1 := by
  have count : (ops ++ [op]).countP (arms last) = ops.countP (arms last) + [op].countP (arms last) := List.countP_append
  obtain ⟨good, same, armed⟩ := reached
  rw [(run_snoc _ ops op).1]
  cases op with
  | timer =>
    refine ⟨Timers.timer_good good, same.trans count.symm, fun key number period time => ?_⟩
    rw [inForce_other ops rfl, ← armed]
    exact (Timers.timer_armed good key number period time).trans (by simp [Touches])
  | nextDue =>
    refine ⟨Timers.nextDue_good good, same.trans count.symm, fun key number period time => ?_⟩
    rw [inForce_other ops rfl, ← armed]
    exact (Timers.nextDue_armed key number period time).trans (by simp [Touches])
  | stop stopped =>
    have one : [Op.stop stopped].countP (arms last) = 1 := rfl
    have room : (run last .new ops).1.arms.toNat + 1 < 2 ^ 64 := by omega
    refine ⟨Timers.stop_good good room stopped, ?_, fun key number period time => ?_⟩
    · rw [count, one, ← same]
      exact Timers.next_arm room
    · rw [inForce_other ops rfl, ← armed]
      refine (Timers.stop_armed stopped key number period time).trans ?_
      simp [Touches, eq_comm]
  | free freed =>
    refine ⟨Timers.free_good good freed, same.trans count.symm, fun key number period time => ?_⟩
    rw [inForce_other ops rfl, ← armed]
    refine (Timers.free_armed freed key number period time).trans ?_
    simp [Touches, eq_comm]
  | start at_ now after every =>
    rcases Timers.start_cases last now at_ after every (run last .new ops).1 with ⟨refused, not_, run_⟩ | ⟨due, accepted, run_⟩
    · have step : step last (run last .new ops).1 (.start at_ now after every) = ((run last .new ops).1, []) := by
        rw [Op.step, run_]
      have none_ : [Op.start at_ now after every].countP (arms last) = 0 := by simp [arms, not_, Except.toBool]
      rw [step]
      refine ⟨good, by rw [count, none_, same, Nat.add_zero], fun key number period time => ?_⟩
      rw [armed, inForce_snoc]
      constructor
      · exact fun is => .inl ⟨time, is, by simp [Touches, not_, Except.toBool], rfl⟩
      · rintro (⟨before, is, -, then_⟩ | ⟨now_, after_, op, accepted, -⟩)
        · cases then_
          exact is
        · cases op
          rw [not_] at accepted
          cases accepted
    · obtain ⟨positive, -⟩ := Timers.dueOf_ok accepted
      have step : step last (run last .new ops).1 (.start at_ now after every) = ((run last .new ops).1.started at_ due every, []) := by
        rw [Op.step, run_]
      have one : [Op.start at_ now after every].countP (arms last) = 1 := by simp [arms_start accepted]
      have room : (run last .new ops).1.arms.toNat + 1 < 2 ^ 64 := by omega
      rw [step]
      refine ⟨Timers.started_good good room at_ due positive, ?_, fun key number period time => ?_⟩
      · have arms : ((run last .new ops).1.started at_ due every).arms = (run last .new ops).1.arms + 1 := by
          unfold Timers.started
          split <;> rfl
        rw [arms, count, one, ← same]
        exact Timers.next_arm room
      · rw [Timers.started_armed good room, inForce_snoc, armed]
        constructor
        · rintro (⟨other, is⟩ | ⟨rfl, there, rfl, rfl, rfl⟩)
          · exact .inl ⟨time, is, fun touched => other touched.1.symm, rfl⟩
          · exact .inr ⟨now, after, rfl, accepted, there, rfl⟩
        · rintro (⟨before, is, away, then_⟩ | ⟨now_, after_, op, comes, there, number⟩)
          · cases then_
            refine .inl ⟨fun other => away ⟨other.symm, ?_⟩, is⟩
            rw [accepted]
            rfl
          · cases op
            rw [accepted] at comes
            cases comes
            exact .inr ⟨rfl, there, number, rfl, rfl⟩
  | expire now =>
    have done := expired last now good
    refine ⟨done.good, ?_, fun key number period time => ?_⟩
    · exact (congrArg UInt64.toNat done.arms).trans (same.trans count.symm)
    · refine (done.armed key number period time).trans ?_
      rw [inForce_snoc]
      constructor
      · rintro ⟨before, is, then_⟩
        refine .inl ⟨before, (armed _ _ _ _).1 is, not_false, ?_⟩
        rw [timeAfter]
        split at then_
        next come =>
          rw [if_pos come, then_]
          rfl
        next come =>
          rw [if_neg come, then_]
          rfl
      · rintro (⟨before, is, -, then_⟩ | ⟨now_, after_, op, -⟩)
        · refine ⟨before, (armed _ _ _ _).2 is, ?_⟩
          rw [timeAfter] at then_
          split at then_
          next come =>
            rw [if_pos come]
            obtain ⟨next, is, last_⟩ := Option.bind_eq_some_iff.1 then_
            cases last_
            exact is
          next come =>
            rw [if_neg come]
            exact Option.some.inj then_
        · cases op

theorem reached {ops : List Op} (few : ops.countP (arms last) < 2 ^ 64) : Reached last ops (run last .new ops).1 := by
  induction ops using List.reverseRecOn with
  | nil =>
    refine ⟨Timers.new_good, rfl, fun key armed period time => ?_⟩
    constructor
    · exact fun is => absurd is.1 List.not_mem_nil
    · rintro ⟨before, now, after, due, since, split_, -⟩
      simp at split_
  | append_singleton ops op ih =>
    refine reached_step few (ih ?_)
    rw [List.countP_append] at few
    omega

section Order

-- All that was due came before what is armed, and its times do not go back.
structure Ordered (ops : List Op) (timers : Timers) (log : List (Nat × Due)) : Prop where
  rising : (log.map Prod.fst).Pairwise (· ≤ ·)
  past : ∀ time ∈ log.map Prod.fst, ∃ now ∈ ops.filterMap now?, time ≤ now
  ahead : ∀ time ∈ log.map Prod.fst, ∀ key armed period later, timers.Armed key armed period later → time ≤ later

theorem no_dues {op : Op} (other : ∀ now, op ≠ .expire now) (timers : Timers) : (op.step last timers).2 = [] := by
  cases op with
  | expire now => exact absurd rfl (other now)
  | start key now after period =>
    rw [step]
    split <;> rfl
  | _ => rfl

theorem timed_snoc {ops : List Op} {op : Op} (timed : Timed (ops ++ [op])) :
    Timed ops ∧ ∀ now, op.now? = some now → ∀ earlier ∈ ops.filterMap now?, earlier ≤ now := by
  rw [Timed, List.filterMap_append, List.pairwise_append] at timed
  refine ⟨timed.1, fun now is earlier member => timed.2.2 earlier member now ?_⟩
  simp [is]

theorem ordered {ops : List Op} (few : ops.countP (arms last) < 2 ^ 64) (timed : Timed ops) :
    Ordered ops (run last .new ops).1 (run last .new ops).2 := by
  induction ops using List.reverseRecOn with
  | nil => exact ⟨.nil, nofun, nofun⟩
  | append_singleton ops op ih =>
    obtain ⟨before, latest⟩ := timed_snoc timed
    have fewer : ops.countP (arms last) < 2 ^ 64 := by
      rw [List.countP_append] at few
      omega
    have was := reached fewer
    have is := reached few
    obtain ⟨log, past, ahead⟩ := ih fewer before
    obtain ⟨state, more⟩ := @run_snoc last .new ops op
    have since (time : Nat) (member : time ∈ (run last .new ops).2.map Prod.fst) : ∃ now ∈ (ops ++ [op]).filterMap now?, time ≤ now := by
      obtain ⟨now, there, bound⟩ := past time member
      exact ⟨now, by rw [List.filterMap_append]; exact List.mem_append_left _ there, bound⟩
    -- Whatever is armed after the operation is armed for what was armed before, or for a later time.
    have later (time : Nat) (member : time ∈ (run last .new ops).2.map Prod.fst) (key : Timer) (armed : UInt64) (period : Option Nat)
        (comes : Nat) (armed_ : (run last .new (ops ++ [op])).1.Armed key armed period comes) : time ≤ comes := by
      rcases (inForce_snoc ops op key armed period comes).1 ((is.armed _ _ _ _).1 armed_) with
        ⟨due, force, -, then_⟩ | ⟨now, after, rfl, accepted, -⟩
      · have least := ahead time member key armed period due ((was.armed _ _ _ _).2 force)
        cases op with
        | expire now =>
          rw [timeAfter] at then_
          split at then_
          next come =>
            obtain ⟨next, again, same⟩ := Option.bind_eq_some_iff.1 then_
            cases same
            have clock := ((was.armed _ _ _ _).2 force).2
            have ahead_ := Timers.again_later (was.good.clocks _ _ clock).2 again
            omega
          next =>
            cases then_
            exact least
        | _ =>
          cases then_
          exact least
      · obtain ⟨-, rfl⟩ := Timers.dueOf_ok accepted
        obtain ⟨earlier, there, bound⟩ := past time member
        have := latest now rfl earlier there
        omega
    rw [more]
    by_cases expires : ∃ now, op = .expire now
    · obtain ⟨now, rfl⟩ := expires
      have done := expired last now was.good
      have fired (time : Nat) (member : time ∈ ((run last .new ops).1.expire last now).1.map Prod.fst) :
          time ≤ now ∧ ∃ key armed period, (run last .new ops).1.Armed key armed period time := by
        obtain ⟨⟨time, due⟩, there, rfl⟩ := List.mem_map.1 member
        obtain ⟨come, period, armed⟩ := (done.each time due).1 there
        exact ⟨come, _, _, period, armed⟩
      constructor
      case rising =>
        rw [List.map_append, List.pairwise_append]
        refine ⟨log, List.pairwise_map.2 (done.ordered.imp fun both => both.1), fun time member other new => ?_⟩
        obtain ⟨-, key, armed, period, armed_⟩ := fired other new
        exact ahead time member key armed period other armed_
      case past =>
        intro time member
        rw [List.map_append] at member
        rcases List.mem_append.1 member with old | new
        · exact since time old
        · exact ⟨now, by simp [now?], (fired time new).1⟩
      case ahead =>
        intro time member key armed period comes armed_
        rw [List.map_append] at member
        rcases List.mem_append.1 member with old | new
        · exact later time old key armed period comes armed_
        · rw [state] at armed_
          obtain ⟨due, force, then_⟩ := (done.armed key armed period comes).1 armed_
          have soon := (fired time new).1
          split at then_
          next =>
            have ahead_ := Timers.again_later (was.good.clocks _ _ force.2).2 then_
            omega
          next => omega
    · rw [no_dues (fun now is => expires ⟨now, is⟩), List.append_nil]
      exact ⟨log, since, later⟩

end Order

section Current

-- The clock of the due, if there is one, has another number.
def Gone (timers : Timers) (due : Due) : Prop := ∀ clock, timers.clocks.get due.timer = some clock → clock.armed ≠ due.armed

theorem current_gone {timers : Timers} {due : Due} (gone : Gone timers due) : timers.current due = false := by
  unfold Timers.current
  cases found : timers.clocks.get due.timer with
  | none => rfl
  | some clock => simpa using gone clock found

-- A clock keeps its number, or has one that no due had.
theorem step_clock {timers : Timers} (good : timers.Good) (op : Op) {key : Timer} {clock : Clock}
    (found : (op.step last timers).1.clocks.get key = some clock) :
    (¬ op.Touches last key ∧ ∃ before, timers.clocks.get key = some before ∧ before.armed = clock.armed) ∨
      op.arms last = true ∧ clock.armed = timers.arms + 1 ∨ clock.armed = 0 := by
  cases op with
  | timer =>
    rcases Timers.timer_get good key with same | ⟨-, fresh⟩
    · exact .inl ⟨not_false, clock, same ▸ found, rfl⟩
    · right
      right
      exact congrArg Clock.armed (Option.some.inj (found.symm.trans fresh))
  | nextDue => exact .inl ⟨not_false, clock, found, rfl⟩
  | free freed =>
    change (timers.clocks.remove freed).get key = _ at found
    rw [Slab.get_remove] at found
    split at found
    next => cases found
    next other => exact .inl ⟨fun same => other same.symm, clock, found, rfl⟩
  | stop stopped =>
    change (timers.clocks.update stopped _).get key = _ at found
    rw [Slab.get_update] at found
    split at found
    next =>
      obtain ⟨before, -, rfl⟩ := Option.map_eq_some_iff.1 found
      exact .inr (.inl ⟨rfl, rfl⟩)
    next other => exact .inl ⟨fun same => other same.symm, clock, found, rfl⟩
  | start at_ now after period =>
    rcases Timers.start_cases last now at_ after period timers with ⟨refused, not_, run_⟩ | ⟨due, accepted, run_⟩
    · rw [step, run_] at found
      exact .inl ⟨by simp [Touches, not_, Except.toBool], clock, found, rfl⟩
    · rw [step, run_] at found
      unfold Timers.started at found
      cases there : timers.clocks.get at_ with
      | none =>
        rw [there] at found
        refine .inl ⟨?_, clock, found, rfl⟩
        rintro ⟨rfl, -⟩
        rw [show timers.clocks.get at_ = some clock from found] at there
        cases there
      | some before =>
        rw [there] at found
        change (timers.clocks.update at_ _).get key = _ at found
        rw [Slab.get_update] at found
        split at found
        next =>
          obtain ⟨_, -, rfl⟩ := Option.map_eq_some_iff.1 found
          exact .inr (.inl ⟨arms_start accepted, rfl⟩)
        next other => exact .inl ⟨fun touched => other touched.1.symm, clock, found, rfl⟩
  | expire now =>
    have same := (expired last now good).clocks key
    change (timers.expire last now).2.clocks.get key = _ at found
    rw [found] at same
    obtain ⟨before, was, armed⟩ := Option.map_eq_some_iff.1 same.symm
    exact .inl ⟨not_false, before, was, armed⟩

-- A due whose timer was touched since is gone for good.
theorem gone_since {ops since : List Op} {due : Due} (few : (ops ++ since).countP (arms last) < 2 ^ 64) (positive : 0 < due.armed.toNat)
    (low : due.armed.toNat ≤ ops.countP (arms last)) (touched : ∃ op ∈ since, op.Touches last due.timer) :
    Gone (run last .new (ops ++ since)).1 due := by
  induction since using List.reverseRecOn with
  | nil =>
    obtain ⟨op, member, -⟩ := touched
    cases member
  | append_singleton since op ih =>
    rw [← List.append_assoc] at few ⊢
    have count : ((ops ++ since) ++ [op]).countP (arms last) = (ops ++ since).countP (arms last) + [op].countP (arms last) :=
      List.countP_append
    have more : (ops ++ since).countP (arms last) = ops.countP (arms last) + since.countP (arms last) := List.countP_append
    have before := reached (show (ops ++ since).countP (arms last) < 2 ^ 64 by omega)
    rw [(run_snoc _ (ops ++ since) op).1]
    intro clock found same
    rcases step_clock before.good op found with ⟨away, was, there, number⟩ | ⟨arms_, number⟩ | zero
    · refine ih (by omega) ?_ was there (number.trans same)
      obtain ⟨other, member, touches⟩ := touched
      rcases List.mem_append.1 member with earlier | latest
      · exact ⟨other, earlier, touches⟩
      · rw [List.mem_singleton.1 latest] at touches
        exact absurd touches away
    · have one : [op].countP (arms last) = 1 := by simp [arms_]
      have next := @Timers.next_arm (run last .new (ops ++ since)).1 (by rw [before.arms]; omega)
      rw [← same, number, next, before.arms] at low
      omega
    · rw [← same, zero] at positive
      exact absurd positive (by decide)

end Current

-- Timers fire as they are armed. A turn at any later time has a due for each timer in force whose time has come, once,
-- and for no other; all dues of a run are in the order of their times; a due is not current once its timer was
-- stopped, freed or started again; and the next due time is the least of those in force.
theorem timers_fire (last : Nat) (ops : List Op) (timed : Timed ops) (few : ops.countP (arms last) < 2 ^ 64) :
    (∀ now,
      (∀ time due, (time, due) ∈ ((run last .new ops).1.expire last now).1 ↔
        time ≤ now ∧ ∃ period, InForce last ops due.timer due.armed period time) ∧
      (((run last .new ops).1.expire last now).1.map fun fired => fired.2.armed).Nodup) ∧
    ((run last .new ops).2.map Prod.fst).Pairwise (· ≤ ·) ∧
    (∀ before now since time due, ops = before ++ .expire now :: since → (time, due) ∈ ((run last .new before).1.expire last now).1 →
      (∃ op ∈ since, op.Touches last due.timer) → (run last .new ops).1.current due = false) ∧
    ∀ time, (run last .new ops).1.nextDue.1 = some time ↔
      (∃ key armed period, InForce last ops key armed period time) ∧
        ∀ key armed period other, InForce last ops key armed period other → time ≤ other := by
  have is := reached few
  refine ⟨fun now => ?_, (ordered few timed).rising, ?_, fun time => ?_⟩
  · have done := expired last now is.good
    refine ⟨fun time due => ?_, ?_⟩
    · rw [done.each]
      simp only [is.armed]
    · exact List.pairwise_map.2 (done.ordered.imp fun both => both.2)
  · rintro before now since time due rfl member touched
    have count : (before ++ .expire now :: since).countP (arms last) = before.countP (arms last) + (Op.expire now :: since).countP (arms last) :=
      List.countP_append
    have was := reached (show before.countP (arms last) < 2 ^ 64 by omega)
    obtain ⟨-, period, armed⟩ := ((expired last now was.good).each time due).1 member
    have low := was.good.low _ armed.1
    rw [was.arms] at low
    obtain ⟨op, among, touches⟩ := touched
    exact current_gone (gone_since few low.1 low.2 ⟨op, .tail _ among, touches⟩)
  · simp only [← is.armed]
    rcases Timers.nextDue_cases is.good with ⟨none_, nothing⟩ | ⟨entry, heap, key, period, next, -, top, least⟩
    · rw [none_]
      constructor
      · intro absurd_
        cases absurd_
      · rintro ⟨⟨key, armed, period, is⟩, -⟩
        exact absurd is (nothing _ _ _ _)
    · rw [next]
      constructor
      · intro same
        cases same
        exact ⟨⟨key, entry.armed, period, top⟩, least⟩
      · rintro ⟨⟨other, armed, every, also_⟩, lowest⟩
        have first := lowest _ _ _ _ top
        have second := least _ _ _ _ also_
        exact congrArg some (Nat.le_antisymm second first)

-- A timer that comes every five.
def ticking : List Op := [.timer, .start ⟨0, 0⟩ 0 5 (some 5), .expire 7]

theorem ticking_fires : 10 ≤ 12 ∧ ∃ period, InForce 100 ticking ⟨0, 0⟩ 1 period 10 := by
  have timed : Timed ticking := by
    unfold Timed
    decide
  exact (((timers_fire 100 ticking timed (by decide)).1 12).1 10 ⟨⟨0, 0⟩, 1⟩).1 (by decide)

example : ((run 100 .new ticking).1.expire 100 12).1 = [(10, ⟨⟨0, 0⟩, 1⟩)] := by decide

end Op

end Kido.Events
