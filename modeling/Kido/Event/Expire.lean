import Kido.Event.Timers

set_option autoImplicit false

namespace Kido.Events

open Kido.Shared

namespace Timers

-- The heap without the stale entries on top: nothing armed is lost, and what is then on top is armed.
theorem nextIn_spec (clocks : Slab Clock) (heap : List Entry) :
    (nextIn clocks heap).2 <:+ heap ∧ (∀ entry ∈ heap, live clocks entry = true → entry ∈ (nextIn clocks heap).2) ∧
      ((nextIn clocks heap).1 = none ∧ (nextIn clocks heap).2 = [] ∨
        ∃ entry rest, nextIn clocks heap = (some entry.due, entry :: rest) ∧ live clocks entry = true) := by
  induction heap with
  | nil => exact ⟨List.suffix_refl _, nofun, .inl ⟨rfl, rfl⟩⟩
  | cons top rest ih =>
    rw [nextIn]
    by_cases is : live clocks top = true
    · rw [if_pos is]
      exact ⟨List.suffix_refl _, fun _ member _ => member, .inr ⟨top, rest, rfl, is⟩⟩
    · rw [if_neg is]
      obtain ⟨behind, kept, ends⟩ := ih
      refine ⟨behind.trans (List.suffix_cons _ _), fun entry member own => ?_, ends⟩
      rcases List.mem_cons.1 member with rfl | later
      · exact absurd own is
      · exact kept entry later own

section Heap

variable {timers : Timers} (good : timers.Good)

include good

-- A heap may lose entries that are not of an armed timer.
theorem shrink_good {heap : List Entry} (part : heap.Sublist timers.heap)
    (kept : ∀ entry ∈ timers.heap, live timers.clocks entry = true → entry ∈ heap) : { timers with heap := heap }.Good where
  whole := good.whole
  sorted := good.sorted.sublist part
  once := good.once.sublist (part.map _)
  low := fun entry member => good.low entry (part.subset member)
  clocks := good.clocks
  own := fun entry member => good.own entry (part.subset member)
  queued := fun key clock get active => by
    obtain ⟨due, member⟩ := good.queued key clock get active
    refine ⟨due, kept _ member ?_⟩
    rw [live_of get rfl, active]
    simp

omit good in
theorem shrink_armed {heap : List Entry} (part : heap.Sublist timers.heap)
    (kept : ∀ entry ∈ timers.heap, live timers.clocks entry = true → entry ∈ heap) (key : Timer) (armed : UInt64)
    (period : Option Nat) (time : Nat) :
    Armed { timers with heap := heap } key armed period time ↔ timers.Armed key armed period time :=
  ⟨fun is => ⟨part.subset is.1, is.2⟩, fun is => ⟨kept _ is.1 is.live, is.2⟩⟩

theorem nextDue_good : timers.nextDue.2.Good := by
  obtain ⟨behind, kept, -⟩ := nextIn_spec timers.clocks timers.heap
  exact shrink_good good behind.sublist kept

omit good in
theorem nextDue_armed (key : Timer) (armed : UInt64) (period : Option Nat) (time : Nat) :
    timers.nextDue.2.Armed key armed period time ↔ timers.Armed key armed period time := by
  obtain ⟨behind, kept, -⟩ := nextIn_spec timers.clocks timers.heap
  exact shrink_armed behind.sublist kept key armed period time

-- What is on top of the heap: the least time of an armed timer.
theorem nextDue_cases :
    timers.nextDue.1 = none ∧ (∀ key armed period time, ¬ timers.Armed key armed period time) ∨
      ∃ entry heap key period, timers.nextDue = (some entry.due, { timers with heap := entry :: heap }) ∧
        timers.clocks.key entry.index = key ∧ timers.Armed key entry.armed period entry.due ∧
        ∀ other armed every time, timers.Armed other armed every time → entry.due ≤ time := by
  obtain ⟨behind, kept, nothing | ⟨entry, rest, top, is⟩⟩ := nextIn_spec timers.clocks timers.heap
  · refine .inl ⟨nothing.1, fun key armed period time is => ?_⟩
    have member := kept _ is.1 is.live
    rw [nothing.2] at member
    cases member
  · right
    rw [top] at behind kept
    obtain ⟨period, get⟩ := live_iff.1 is
    refine ⟨entry, rest, timers.clocks.key entry.index, period, ?_, rfl, ⟨behind.subset (.head _), get⟩, fun other armed every time also_ => ?_⟩
    · rw [nextDue, top]
    · have sorted := good.sorted.sublist behind.sublist
      rcases List.mem_cons.1 (kept _ also_.1 also_.live) with same | later
      · rw [← same]
      · exact le_due ((List.pairwise_cons.1 sorted).1 _ later)

end Heap

theorem again_later {last now due next : Nat} {period : Option Nat} (positive : period ≠ some 0)
    (is : again last now due period = some next) : now < next := by
  unfold again at is
  cases period with
  | none => cases is
  | some every =>
    have some_ : every ≠ 0 := fun zero => positive (by rw [zero])
    simp only [Option.bind_eq_bind, Option.bind_some] at is
    split at is
    next time found =>
      cases is
      simpa using (Option.filter_eq_some_iff.1 found).2
    next =>
      unfold checkedAdd at is
      split at is
      · cases is
        omega
      · cases is

-- The clock of the entry on top has come; it is armed again, or at rest.
def taken (last now : Nat) (timers : Timers) (entry : Entry) (heap : List Entry) : Timers :=
  match timers.clocks.get (timers.clocks.key entry.index) with
  | none => { timers with heap := heap }
  | some clock =>
    match again last now entry.due clock.period with
    | some next => { timers with heap := push heap ⟨next, entry.armed, entry.index⟩ }
    | none =>
      { timers with
        heap := heap
        clocks := timers.clocks.update (timers.clocks.key entry.index) fun clock => { clock with active := false } }

section Taken

variable {timers : Timers} {entry : Entry} {heap : List Entry} (good : timers.Good) (top : timers.heap = entry :: heap)
  {key : Timer} {every : Option Nat} (get : timers.clocks.get key = some ⟨entry.armed, true, every⟩) (index : key.index = entry.index)

include good top get index

omit good top in
theorem taken_again {last now next : Nat} (is : again last now entry.due every = some next) :
    taken last now timers entry heap = { timers with heap := push heap ⟨next, entry.armed, entry.index⟩ } := by
  unfold taken
  rw [← index, Slab.key_get get, get]
  simp only [is]

omit good top in
theorem taken_rest {last now : Nat} (is : again last now entry.due every = none) :
    taken last now timers entry heap =
      { timers with heap := heap, clocks := timers.clocks.update key fun clock => { clock with active := false } } := by
  unfold taken
  rw [← index, Slab.key_get get, get]
  simp only [is]

omit get index every in
theorem entry_apart : entry.armed ∉ heap.map Entry.armed ∧ (heap.map Entry.armed).Nodup := by
  have once := good.once
  rw [top] at once
  exact List.nodup_cons.1 once

-- No other timer has the number of the entry.
theorem other_key {other : Timer} {clock : Clock} (found : timers.clocks.get other = some clock) (same : clock.armed = entry.armed) :
    other = key := by
  have own := good.own entry (top ▸ .head _) other clock found same
  exact Slab.get_same_index found get (own.trans index.symm)

theorem taken_good (last now : Nat) : (taken last now timers entry heap).Good := by
  have inside : heap.Sublist timers.heap := top ▸ List.sublist_cons_self _ _
  have low := good.low entry (top ▸ .head _)
  obtain ⟨apart, once⟩ := entry_apart good top
  cases is : again last now entry.due every with
  | some next =>
    rw [taken_again get index is]
    constructor
    case whole => exact good.whole
    case sorted => exact push_sorted (good.sorted.sublist inside) _
    case once => exact ((push_perm _ _).map Entry.armed).nodup_iff.2 (List.nodup_cons.2 ⟨apart, once⟩)
    case low =>
      intro other member
      rcases mem_push.1 member with rfl | old
      · exact low
      · exact good.low other (inside.subset old)
    case clocks => exact good.clocks
    case own =>
      intro other member at_ clock found same
      rcases mem_push.1 member with rfl | old
      · exact good.own entry (top ▸ .head _) at_ clock found same
      · exact good.own other (inside.subset old) at_ clock found same
    case queued =>
      intro at_ clock found active
      obtain ⟨due, member⟩ := good.queued at_ clock found active
      rw [top] at member
      rcases List.mem_cons.1 member with same | later
      · refine ⟨next, mem_push.2 (.inl ?_)⟩
        rw [← same]
      · exact ⟨due, mem_push.2 (.inr later)⟩
  | none =>
    rw [taken_rest get index is]
    have found (at_ : Timer) (clock : Clock) (now_ : (timers.clocks.update key fun clock => { clock with active := false }).get at_ = some clock) :
        ∃ before, timers.clocks.get at_ = some before ∧ clock.armed = before.armed ∧ clock.period = before.period ∧
          (clock.active → at_ ≠ key ∧ before.active) := by
      rw [Slab.get_update] at now_
      split at now_
      · obtain ⟨before, was, rfl⟩ := Option.map_eq_some_iff.1 now_
        exact ⟨before, was, rfl, rfl, nofun⟩
      · exact ⟨clock, now_, rfl, rfl, fun active => ⟨‹_›, active⟩⟩
    constructor
    case whole => exact Slab.update_whole good.whole _ _
    case sorted => exact good.sorted.sublist inside
    case once => exact once
    case low => exact fun other member => good.low other (inside.subset member)
    case clocks =>
      intro at_ clock now_
      obtain ⟨before, was, armed, period, -⟩ := found at_ clock now_
      rw [armed, period]
      exact good.clocks at_ before was
    case own =>
      intro other member at_ clock now_ same
      obtain ⟨before, was, armed, -, -⟩ := found at_ clock now_
      exact good.own other (inside.subset member) at_ before was (armed.symm.trans same)
    case queued =>
      intro at_ clock now_ active
      obtain ⟨before, was, armed, -, others⟩ := found at_ clock now_
      obtain ⟨different, was_active⟩ := others active
      obtain ⟨due, member⟩ := good.queued at_ before was was_active
      rw [top] at member
      rw [armed]
      rcases List.mem_cons.1 member with same | later
      · exact absurd (other_key good top get index was (by rw [← same])) different
      · exact ⟨due, later⟩

theorem taken_armed (last now : Nat) (other : Timer) (armed : UInt64) (period : Option Nat) (time : Nat) :
    (taken last now timers entry heap).Armed other armed period time ↔
      other ≠ key ∧ timers.Armed other armed period time ∨
        other = key ∧ armed = entry.armed ∧ period = every ∧ again last now entry.due every = some time := by
  obtain ⟨apart, -⟩ := entry_apart good top
  -- What is left of the heap is of other timers.
  have left_ (at_ : Timer) (number : UInt64) (every_ : Option Nat) (due : Nat) (found : timers.clocks.get at_ = some ⟨number, true, every_⟩) :
      ⟨due, number, at_.index⟩ ∈ heap ↔ at_ ≠ key ∧ ⟨due, number, at_.index⟩ ∈ timers.heap := by
    rw [top, List.mem_cons]
    constructor
    · intro member
      refine ⟨?_, .inr member⟩
      rintro rfl
      have same : number = entry.armed := congrArg Clock.armed (Option.some.inj (found.symm.trans get))
      exact apart (List.mem_map.2 ⟨_, member, same⟩)
    · rintro ⟨different, new | old⟩
      · exact absurd (other_key good top get index found (by rw [← new])) different
      · exact old
  cases is : again last now entry.due every with
  | some next =>
    rw [taken_again get index is]
    unfold Armed
    simp only [mem_push]
    constructor
    · rintro ⟨member, found⟩
      rcases member with new | old
      · obtain ⟨rfl, rfl, same⟩ := Entry.mk.inj new
        obtain rfl := Slab.get_same_index found get (same.trans index.symm)
        have clocks := found.symm.trans get
        simp only [Option.some.injEq, Clock.mk.injEq, true_and] at clocks
        exact .inr ⟨rfl, rfl, clocks, rfl⟩
      · obtain ⟨different, member⟩ := (left_ other armed period time found).1 old
        exact .inl ⟨different, member, found⟩
    · rintro (⟨different, member, found⟩ | ⟨rfl, rfl, rfl, same⟩)
      · exact ⟨.inr ((left_ other armed period time found).2 ⟨different, member⟩), found⟩
      · cases same
        exact ⟨.inl (by rw [index]), get⟩
  | none =>
    rw [taken_rest get index is]
    unfold Armed
    simp only [Slab.get_update, reduceCtorEq, and_false, or_false]
    by_cases same : other = key
    · subst same
      simp [get]
    · rw [if_neg same]
      constructor
      · rintro ⟨member, found⟩
        exact ⟨same, ((left_ other armed period time found).1 member).2, found⟩
      · rintro ⟨-, member, found⟩
        exact ⟨(left_ other armed period time found).2 ⟨same, member⟩, found⟩

omit good top in
theorem taken_clocks (last now : Nat) (other : Timer) :
    ((taken last now timers entry heap).clocks.get other).map Clock.armed = (timers.clocks.get other).map Clock.armed := by
  cases is : again last now entry.due every with
  | some next => rw [taken_again get index is]
  | none =>
    rw [taken_rest get index is, Slab.get_update]
    split
    · rw [Option.map_map]
      rfl
    · rfl

-- The heap has one entry fewer that is due.
omit good in
theorem taken_fewer {last now : Nat} (positive : every ≠ some 0) (come : entry.due ≤ now) :
    (taken last now timers entry heap).heap.countP (·.due ≤ now) + 1 = timers.heap.countP (·.due ≤ now) := by
  have whole : timers.heap.countP (·.due ≤ now) = heap.countP (·.due ≤ now) + 1 := by
    rw [top, List.countP_cons_of_pos (by simpa using come)]
  rw [whole]
  cases is : again last now entry.due every with
  | some next =>
    have later := again_later positive is
    rw [taken_again get index is]
    change List.countP _ (push _ _) + 1 = _
    rw [(push_perm _ _).countP_eq, List.countP_cons_of_neg (by simpa using later)]
  | none => rw [taken_rest get index is]

end Taken

-- The dues of the timers whose time has come, in order, and what is armed after it.
structure Expired (last now : Nat) (timers : Timers) (dues : List (Nat × Due)) (after : Timers) : Prop where
  good : after.Good
  arms : after.arms = timers.arms
  clocks : ∀ key, (after.clocks.get key).map Clock.armed = (timers.clocks.get key).map Clock.armed
  armed : ∀ key armed period time, after.Armed key armed period time ↔
    ∃ before, timers.Armed key armed period before ∧ if before ≤ now then again last now before period = some time else before = time
  each : ∀ time due, (time, due) ∈ dues ↔ time ≤ now ∧ ∃ period, timers.Armed due.timer due.armed period time
  ordered : dues.Pairwise fun first second => first.1 ≤ second.1 ∧ first.2.armed ≠ second.2.armed

-- Nothing armed is due.
theorem Expired.quiet {last now : Nat} {timers after : Timers} (good : after.Good) (arms : after.arms = timers.arms)
    (clocks : after.clocks = timers.clocks)
    (armed : ∀ key armed period time, after.Armed key armed period time ↔ timers.Armed key armed period time)
    (later : ∀ key armed period time, timers.Armed key armed period time → now < time) : Expired last now timers [] after where
  good := good
  arms := arms
  clocks := fun key => by rw [clocks]
  armed := fun key number period time => by
    rw [armed]
    constructor
    · exact fun is => ⟨time, is, by rw [if_neg (Nat.not_le.2 (later _ _ _ _ is))]⟩
    · rintro ⟨before, is, same⟩
      rw [if_neg (Nat.not_le.2 (later _ _ _ _ is))] at same
      exact same ▸ is
  each := fun time due => by
    simp only [List.not_mem_nil, false_iff, not_and, not_exists]
    intro come period is
    have := later _ _ _ _ is
    omega
  ordered := .nil

-- One more timer was due before the others.
theorem Expired.cons {last now : Nat} {timers middle after : Timers} {dues : List (Nat × Due)} {key : Timer} {number : UInt64}
    {every : Option Nat} {due : Nat} (good : timers.Good) (top : timers.Armed key number every due) (come : due ≤ now) (positive : every ≠ some 0)
    (least : ∀ other armed period time, timers.Armed other armed period time → due ≤ time)
    (arms : middle.arms = timers.arms)
    (clocks : ∀ key, (middle.clocks.get key).map Clock.armed = (timers.clocks.get key).map Clock.armed)
    (armed : ∀ other armed period time, middle.Armed other armed period time ↔
      other ≠ key ∧ timers.Armed other armed period time ∨
        other = key ∧ armed = number ∧ period = every ∧ again last now due every = some time)
    (done : Expired last now middle dues after) : Expired last now timers ((due, ⟨key, number⟩) :: dues) after where
  good := done.good
  arms := done.arms.trans arms
  clocks := fun other => (done.clocks other).trans (clocks other)
  armed := fun other armed_ period time => by
    rw [done.armed]
    constructor
    · rintro ⟨before, is, then_⟩
      rcases (armed other armed_ period before).1 is with ⟨-, was⟩ | ⟨rfl, rfl, rfl, next⟩
      · exact ⟨before, was, then_⟩
      · have later := again_later positive next
        rw [if_neg (Nat.not_le.2 later)] at then_
        exact ⟨due, top, by rw [if_pos come, next, then_]⟩
    · rintro ⟨before, was, then_⟩
      by_cases same : other = key
      · subst same
        have clock := was.2.symm.trans top.2
        simp only [Option.some.injEq, Clock.mk.injEq, true_and] at clock
        obtain ⟨rfl, rfl⟩ := clock
        obtain ⟨-, -, rfl⟩ := good.unique was top
        rw [if_pos come] at then_
        refine ⟨time, (armed _ _ _ _).2 (.inr ⟨rfl, rfl, rfl, then_⟩), ?_⟩
        rw [if_neg (Nat.not_le.2 (again_later positive then_))]
      · exact ⟨before, (armed _ _ _ _).2 (.inl ⟨same, was⟩), then_⟩
  each := fun time other => by
    rw [List.mem_cons, done.each]
    constructor
    · rintro (same | ⟨soon, period, is⟩)
      · obtain ⟨rfl, rfl⟩ := Prod.mk.inj same
        exact ⟨come, every, top⟩
      · rcases (armed _ _ _ _).1 is with ⟨-, was⟩ | ⟨-, -, -, next⟩
        · exact ⟨soon, period, was⟩
        · have later := again_later positive next
          omega
    · rintro ⟨soon, period, was⟩
      by_cases same : other.timer = key
      · left
        obtain ⟨timer, number_⟩ := other
        subst same
        have clock := was.2.symm.trans top.2
        simp only [Option.some.injEq, Clock.mk.injEq, true_and] at clock
        obtain ⟨rfl, rfl⟩ := clock
        obtain ⟨-, -, rfl⟩ := good.unique was top
        rfl
      · exact .inr ⟨soon, period, (armed _ _ _ _).2 (.inl ⟨same, was⟩)⟩
  ordered := by
    refine List.pairwise_cons.2 ⟨fun other member => ?_, done.ordered⟩
    obtain ⟨time, later⟩ := other
    obtain ⟨soon, period, is⟩ := (done.each time later).1 member
    rcases (armed _ _ _ _).1 is with ⟨different, was⟩ | ⟨-, -, -, next⟩
    · refine ⟨least _ _ _ _ was, fun same => different ?_⟩
      simp only at same
      subst same
      exact (good.unique was top).1
    · have later := again_later positive next
      omega

theorem expireLoop_none {last now fuel : Nat} {timers after : Timers} (none_ : timers.nextDue = (none, after)) :
    expireLoop last now (fuel + 1) timers = ([], after) := by
  rw [expireLoop, none_]

theorem expireLoop_later {last now fuel due : Nat} {timers after : Timers} (next : timers.nextDue = (some due, after)) (later : ¬ due ≤ now) :
    expireLoop last now (fuel + 1) timers = ([], after) := by
  rw [expireLoop, next]
  simp only [if_neg later]

theorem expireLoop_come {last now fuel : Nat} {timers : Timers} {entry : Entry} {heap : List Entry}
    (next : timers.nextDue = (some entry.due, { timers with heap := entry :: heap })) (come : entry.due ≤ now) :
    expireLoop last now (fuel + 1) timers =
      ((entry.due, ⟨timers.clocks.key entry.index, entry.armed⟩) ::
          (expireLoop last now fuel (taken last now { timers with heap := entry :: heap } entry heap)).1,
        (expireLoop last now fuel (taken last now { timers with heap := entry :: heap } entry heap)).2) := by
  rw [expireLoop, next]
  simp only [if_pos come]
  rfl

theorem expireLoop_spec {last now fuel : Nat} {timers : Timers} (good : timers.Good)
    (enough : timers.heap.countP (·.due ≤ now) ≤ fuel) :
    Expired last now timers (expireLoop last now fuel timers).1 (expireLoop last now fuel timers).2 := by
  induction fuel generalizing timers with
  | zero =>
    refine .quiet good rfl rfl (fun _ _ _ _ => .rfl) fun key armed period time is => ?_
    have none_ := List.countP_eq_zero.1 (Nat.le_zero.1 enough) _ is.1
    simpa using none_
  | succ fuel ih =>
    have after := nextDue_good good
    have same := fun key armed period time => @nextDue_armed timers key armed period time
    rcases nextDue_cases good with ⟨none_, nothing⟩ | ⟨entry, heap, key, period, next, named, top, least⟩
    · have ends : timers.nextDue = (none, timers.nextDue.2) := Prod.ext none_ rfl
      rw [expireLoop_none ends]
      exact .quiet after rfl rfl same fun key armed period time is => absurd is (nothing key armed period time)
    · by_cases come : entry.due ≤ now
      · rw [expireLoop_come next come]
        rw [next] at after same
        simp only at after same
        have index : key.index = entry.index := named ▸ rfl
        have get : ({ timers with heap := entry :: heap } : Timers).clocks.get key = some ⟨entry.armed, true, period⟩ := top.2
        have positive := (good.clocks _ _ get).2
        have fewer : (taken last now { timers with heap := entry :: heap } entry heap).heap.countP (·.due ≤ now) + 1 =
            (entry :: heap).countP (·.due ≤ now) := taken_fewer rfl get index positive come
        have part : (entry :: heap).Sublist timers.heap := by
          have behind := (nextIn_spec timers.clocks timers.heap).1
          have heaps : timers.nextDue.2.heap = entry :: heap := by rw [next]
          exact heaps ▸ behind.sublist
        have bound := part.countP_le (p := fun entry => decide (entry.due ≤ now))
        have done := ih (taken_good after rfl get index last now) (by omega)
        rw [named]
        refine .cons good top come positive least ?_ (taken_clocks get index last now) (fun other armed every time => ?_) done
        · cases is : again last now entry.due period with
          | some next => rw [taken_again get index is]
          | none => rw [taken_rest get index is]
        · rw [taken_armed after rfl get index, same]
      · have ends : timers.nextDue = (some entry.due, timers.nextDue.2) := by rw [next]
        rw [expireLoop_later ends come]
        refine .quiet after rfl rfl same fun key armed period time is => ?_
        have := least key armed period time is
        omega

end Timers

end Kido.Events
