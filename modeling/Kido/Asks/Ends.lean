import Kido.Asks.World

set_option autoImplicit false

namespace Kido.Asking

open Kido.Shared Kido.Framing

def Entry.key : Entry → PaneId × Req
  | .asked pane req | .told pane req _ | .lost pane req => (pane, req)

def Given.step (pane : PaneId) (req : Req) : Given → Option Step
  | .asked of other => if of = pane ∧ other = req then some .asked else none
  | .taken of other => if of = pane ∧ other = req then some .taken else none
  | .event of made => if of = pane then made.step req else none

def Item.endsOf (pane : PaneId) (req : Req) : Item → Option Event
  | .event of made => if of = pane ∧ made.ends req = true then some made else none
  | .register .. => none

-- A request that was sent and whose owner heard of it a number of times.
def course (pane : PaneId) (req : Req) (told : Nat) : List Entry :=
  .asked pane req :: List.replicate told (.told pane req false)

-- The requests that a pane had under one number, each with its end.
def courses (pane : PaneId) (req : Req) (tolds : List Nat) : List Entry :=
  tolds.flatMap fun told => course pane req told ++ [.told pane req true]

-- Where a request is: whether it is in the table of its pane, who owns it, what its owner saw, and the ends that are made
-- and not dispatched.
inductive Phase (pane : PaneId) (req : Req) : Option Reply → Option Owner → List Entry → List Event → Prop where
  | rests (tolds : List Nat) : Phase pane req none none (courses pane req tolds) []
  | waits (tolds : List Nat) (owner : Owner) (told : Nat) :
      Phase pane req (some owner.reply) (some owner) (courses pane req tolds ++ course pane req told) []
  | leaves (tolds : List Nat) (owner : Owner) (told : Nat) (event : Event) (fits : event.fits owner.reply = true) :
      Phase pane req none (some owner) (courses pane req tolds ++ course pane req told) [event]

theorem course_snoc (pane : PaneId) (req : Req) (told : Nat) :
    course pane req told ++ [.told pane req false] = course pane req (told + 1) := by
  rw [course, course, List.cons_append, ← List.replicate_succ']

theorem courses_snoc (pane : PaneId) (req : Req) (tolds : List Nat) (told : Nat) :
    courses pane req tolds ++ course pane req told ++ [.told pane req true] = courses pane req (tolds ++ [told]) := by
  rw [courses, courses, List.flatMap_append, List.flatMap_singleton, List.append_assoc]

theorem Phase.free {pane : PaneId} {req : Req} {pending : Option Reply} {seen : List Entry} {leaving : List Event}
    (phase : Phase pane req pending none seen leaving) :
    pending = none ∧ leaving = [] ∧ ∃ tolds, seen = courses pane req tolds := by
  cases phase with
  | rests tolds => exact ⟨rfl, rfl, tolds, rfl⟩

theorem Phase.moved {pane : PaneId} {req : Req} {pending after : Option Reply} {owner : Option Owner} {seen : List Entry}
    {leaving ends : List Event} (phase : Phase pane req pending owner seen leaving) (moved : Moved pending after ends) :
    Phase pane req after owner seen (ends ++ leaving) := by
  cases moved with
  | stays => exact phase
  | ends reply event fits =>
    cases phase with
    | waits tolds owner told => exact .leaves tolds owner told event fits

namespace World

def pending? (world : World) (pane : PaneId) (req : Req) : Option Reply :=
  match world.panes pane with
  | .here proc => proc.pending.find? req
  | _ => none

def seen (world : World) (pane : PaneId) (req : Req) : List Entry :=
  world.log.filter fun entry => decide (entry.key = (pane, req))

def answers (world : World) (pane : PaneId) (req : Req) : List Step := world.given.filterMap (Given.step pane req)

def leaving (world : World) (pane : PaneId) (req : Req) : List Event :=
  world.work.filterMap (Item.endsOf pane req) ++ world.held.filterMap fun found => Item.endsOf pane req (.event found.1 found.2)

-- Every request is in its place, and a closed pane has none.
structure Sound (world : World) : Prop where
  phase : ∀ pane req, Phase pane req (world.pending? pane req) (world.owners pane req) (world.seen pane req)
    (world.leaving pane req)
  answers : ∀ pane req, Answers (world.pending? pane req).isSome (world.answers pane req)
  shut : ∀ pane, (world.panes pane).isOpen = false → ∀ req, world.pending? pane req = none
  plain : ∀ pane req owner, .register pane req owner ∉ world.work
  searches : ∀ pane req, (pane, req) ∈ world.searches →
    ∀ owner, world.owners pane req = some owner → owner.reply = .search

theorem start_sound : start.Sound where
  phase := fun _ _ => .rests []
  answers := fun _ _ => .start
  shut := fun _ _ _ => rfl
  plain := nofun
  searches := nofun

theorem registered_plain {work : List Item} (world : World) (plain : ∀ pane req owner, .register pane req owner ∉ work) :
    registered work world = { world with work := work } := by
  cases work with
  | nil => rfl
  | cons item rest =>
    cases item with
    | event pane event => rfl
    | register pane req owner => exact absurd List.mem_cons_self (plain pane req owner)

theorem Sound.resume {world : World} (sound : world.Sound) : world.resume = world := registered_plain world sound.plain

section Parts

variable {world : World} {pane : PaneId}

theorem withPane_same (place : Place) : (world.withPane pane place).panes pane = place := Function.update_self ..

theorem withPane_other {of : PaneId} (place : Place) (different : of ≠ pane) :
    (world.withPane pane place).panes of = world.panes of := Function.update_of_ne different ..

theorem withPane_pending? (proc : PaneProc) (of : PaneId) (req : Req) :
    (world.withPane pane (.here proc)).pending? of req = if of = pane then proc.pending.find? req else world.pending? of req := by
  by_cases same : of = pane
  · subst same
    simp [pending?, withPane]
  · simp [pending?, withPane, same]

theorem withOwner_owners (req : Req) (owner : Option Owner) (of : PaneId) (other : Req) :
    (world.withOwner pane req owner).owners of other =
      if of = pane ∧ other = req then owner else world.owners of other := by
  by_cases same : of = pane
  · subst same
    by_cases equal : other = req <;> simp [withOwner, equal]
  · simp [withOwner, same]

theorem note_seen (entry : Entry) (of : PaneId) (other : Req) :
    (world.note entry).seen of other = world.seen of other ++ if entry.key = (of, other) then [entry] else [] := by
  rw [seen, note, List.filter_append, List.filter_singleton]
  by_cases same : entry.key = (of, other) <;> simp [seen, same]

theorem dispatch_leaving (events : List Event) (of : PaneId) (req : Req) :
    (world.dispatch pane events).leaving of req =
      (if of = pane then events.filter (Event.ends req) else []) ++ world.leaving of req := by
  rw [leaving, dispatch, List.filterMap_append, List.filterMap_map, List.append_assoc]
  congr 1
  by_cases same : of = pane
  · subst same
    rw [if_pos rfl, ← List.filterMap_eq_filter]
    refine List.filterMap_congr fun event _ => ?_
    by_cases ends : event.ends req = true <;> simp [Item.endsOf, ends, Option.guard]
  · rw [if_neg same, List.filterMap_eq_nil_iff]
    intro event _
    simp [Item.endsOf, Ne.symm same]

theorem give_answers (more : List Given) (of : PaneId) (req : Req) :
    (world.give more).answers of req = world.answers of req ++ more.filterMap (Given.step of req) :=
  List.filterMap_append

theorem events_step (events : List Event) (of : PaneId) (req : Req) :
    (events.map (Given.event pane)).filterMap (Given.step of req) =
      if of = pane then events.filterMap (Event.step req) else [] := by
  rw [List.filterMap_map]
  by_cases same : of = pane
  · rw [if_pos same]
    exact List.filterMap_congr fun event _ => if_pos same.symm
  · rw [if_neg same, List.filterMap_eq_nil_iff]
    exact fun event _ => if_neg (Ne.symm same)

theorem Sound.dispatch {proc : PaneProc} {turn : Turn} (sound : world.Sound) (here : world.panes pane = .here proc)
    (moves : Turn.Moves ⟨proc, []⟩ turn) : ((world.withPane pane (.here turn.proc)).dispatch pane turn.events).Sound := by
  obtain ⟨more, events, moved, answers⟩ := moves.news
  rw [List.nil_append] at events
  have before (req : Req) : world.pending? pane req = proc.pending.find? req := by rw [pending?, here]
  have shut := sound.shut pane
  rw [here] at shut
  have pending (of : PaneId) (req : Req) : ((world.withPane pane (.here turn.proc)).dispatch pane turn.events).pending? of req =
      if of = pane then turn.pending? req else world.pending? of req := withPane_pending? turn.proc of req
  refine ⟨fun of req => ?_, fun of req => ?_, fun of closed req => ?_, ?_, sound.searches⟩
  · have left : ((world.withPane pane (.here turn.proc)).dispatch pane turn.events).leaving of req =
        (if of = pane then more.filter (Event.ends req) else []) ++ world.leaving of req := by
      rw [dispatch_leaving, events]
      rfl
    have old := sound.phase of req
    rw [pending, left]
    by_cases same : of = pane
    · subst same
      rw [if_pos rfl, if_pos rfl]
      rw [before] at old
      exact old.moved (moved req)
    · rw [if_neg same, if_neg same, List.nil_append]
      exact old
  · have given : ((world.withPane pane (.here turn.proc)).dispatch pane turn.events).answers of req =
        world.answers of req ++ if of = pane then more.filterMap (Event.step req) else [] := by
      rw [← events_step, ← events]
      exact give_answers _ of req
    have old := sound.answers of req
    rw [pending, given]
    by_cases same : of = pane
    · subst same
      rw [if_pos rfl, if_pos rfl]
      rw [before] at old
      exact answers req _ old
    · rw [if_neg same, if_neg same, List.append_nil]
      exact old
  · rw [pending]
    by_cases same : of = pane
    · subst same
      rw [if_pos rfl]
      refine moves.none_ (fun closed req => (before req).symm.trans (shut closed req)) ?_ req
      simpa [World.dispatch, World.give, withPane, Place.isOpen, Turn.isOpen] using closed
    · rw [if_neg same]
      refine sound.shut of ?_ req
      simpa [World.dispatch, World.give, withPane, same] using closed
  · intro of req owner member
    rcases List.mem_append.1 member with new | old
    · obtain ⟨event, _, same⟩ := List.mem_map.1 new
      cases same
    · exact sound.plain of req owner old

theorem Sound.asked {proc : PaneProc} {req : Req} (sound : world.Sound) (here : world.panes pane = .here proc)
    (isOpen : proc.stage = .open_) (free : world.owners pane req = none) (unheld : (pane, req) ∉ world.searches)
    (owner : Owner) :
    ((world.withPane pane (.here (Turn.insert req owner.reply ⟨proc, []⟩).proc)).asked pane req owner).Sound := by
  have rests := sound.phase pane req
  rw [free] at rests
  obtain ⟨unasked, unmade, tolds, seen⟩ := rests.free
  have before (other : Req) : world.pending? pane other = proc.pending.find? other := by rw [pending?, here]
  have pending (of : PaneId) (other : Req) :
      ((world.withPane pane (.here (Turn.insert req owner.reply ⟨proc, []⟩).proc)).asked pane req owner).pending? of other =
        if of = pane ∧ req = other then some owner.reply else world.pending? of other := by
    refine (withPane_pending? _ of other).trans ?_
    by_cases same : of = pane
    · subst same
      rw [if_pos rfl, before]
      exact (Turn.insert_pending? req owner.reply other).trans (by by_cases equal : req = other <;> simp [equal, Turn.pending?])
    · rw [if_neg same, if_neg (by tauto)]
  refine ⟨fun of other => ?_, fun of other => ?_, fun of closed other => ?_, sound.plain, fun of other held => ?_⟩
  · have old := sound.phase of other
    have saw : ((world.withPane pane (.here (Turn.insert req owner.reply ⟨proc, []⟩).proc)).asked pane req owner).seen of other =
        world.seen of other ++ if (Entry.asked pane req).key = (of, other) then [.asked pane req] else [] := note_seen _ of other
    rw [pending, saw]
    change Phase of other _ ((World.withOwner _ pane req (some owner)).owners of other) _ (world.leaving of other)
    rw [withOwner_owners]
    by_cases same : of = pane ∧ req = other
    · obtain ⟨rfl, rfl⟩ := same
      rw [if_pos ⟨rfl, rfl⟩, if_pos ⟨rfl, rfl⟩, if_pos (show (Entry.asked of req).key = (of, req) from rfl), unmade]
      rw [seen]
      exact .waits tolds owner 0
    · have other_ : ¬(of = pane ∧ other = req) := fun equal => same ⟨equal.1, equal.2.symm⟩
      have key : ¬(Entry.asked pane req).key = (of, other) := fun equal => same (by
        cases equal
        exact ⟨rfl, rfl⟩)
      rw [if_neg same, if_neg other_, if_neg key, List.append_nil]
      exact old
  · have given :
        ((world.withPane pane (.here (Turn.insert req owner.reply ⟨proc, []⟩).proc)).asked pane req owner).answers of other =
          world.answers of other ++ if pane = of ∧ req = other then [.asked] else [] := by
      refine (give_answers [.asked pane req] of other).trans ?_
      by_cases same : pane = of ∧ req = other <;> simp [Given.step, same, World.answers, note, withOwner, withPane]
    have old := sound.answers of other
    rw [pending, given]
    by_cases same : of = pane ∧ req = other
    · obtain ⟨rfl, rfl⟩ := same
      rw [unasked] at old
      rw [if_pos ⟨rfl, rfl⟩, if_pos ⟨rfl, rfl⟩]
      exact old.asked
    · rw [if_neg same, if_neg (by tauto), List.append_nil]
      exact old
  · rw [pending]
    by_cases same : of = pane
    · subst same
      simp [World.asked, World.note, World.give, withOwner, withPane, Place.isOpen, Turn.insert, isOpen] at closed
    · rw [if_neg (by tauto)]
      refine sound.shut of ?_ other
      simpa [World.asked, World.note, World.give, withOwner, withPane, same] using closed
  · have different : ¬(of = pane ∧ other = req) := by
      rintro ⟨rfl, rfl⟩
      exact unheld held
    change ∀ found, (World.withOwner _ pane req (some owner)).owners of other = some found → _
    rw [withOwner_owners, if_neg different]
    exact sound.searches of other held

end Parts

end World

end Kido.Asking

namespace Kido.Asking

open Kido.Shared Kido.Framing

theorem Phase.short {pane : PaneId} {req : Req} {pending : Option Reply} {owner : Option Owner} {seen : List Entry}
    {leaving : List Event} (phase : Phase pane req pending owner seen leaving) : leaving.length ≤ 1 := by
  cases phase <;> simp

theorem append_comm_of_short {α : Type} {first second : List α} (short : (first ++ second).length ≤ 1) :
    first ++ second = second ++ first := by
  rw [List.length_append] at short
  by_cases none_ : first = []
  · rw [none_, List.nil_append, List.append_nil]
  · have some_ := List.length_pos_iff.2 none_
    rw [List.eq_nil_of_length_eq_zero (by omega : second.length = 0), List.nil_append, List.append_nil]

namespace World

variable {world : World} {pane : PaneId} {req : Req}

theorem Sound.but {after : World} (sound : world.Sound)
    (phase : Phase pane req (after.pending? pane req) (after.owners pane req) (after.seen pane req) (after.leaving pane req))
    (answers : Answers (after.pending? pane req).isSome (after.answers pane req))
    (others : ∀ of other, ¬(of = pane ∧ other = req) → after.pending? of other = world.pending? of other ∧
      after.owners of other = world.owners of other ∧ after.seen of other = world.seen of other ∧
      after.leaving of other = world.leaving of other ∧ after.answers of other = world.answers of other)
    (shut : ∀ of, (after.panes of).isOpen = false → ∀ other, after.pending? of other = none)
    (plain : ∀ of other owner, .register of other owner ∉ after.work)
    (searches : ∀ of other, (of, other) ∈ after.searches →
      ∀ owner, after.owners of other = some owner → owner.reply = .search) : after.Sound := by
  refine ⟨fun of other => ?_, fun of other => ?_, shut, plain, searches⟩
  · by_cases same : of = pane ∧ other = req
    · obtain ⟨rfl, rfl⟩ := same
      exact phase
    · obtain ⟨pending, owners, seen, leaving, _⟩ := others of other same
      rw [pending, owners, seen, leaving]
      exact sound.phase of other
  · by_cases same : of = pane ∧ other = req
    · obtain ⟨rfl, rfl⟩ := same
      exact answers
    · obtain ⟨pending, _, _, _, answered⟩ := others of other same
      rw [pending, answered]
      exact sound.answers of other

theorem Sound.other {after : World} (sound : world.Sound)
    (phase : Phase pane req (after.pending? pane req) (after.owners pane req) (after.seen pane req) (after.leaving pane req))
    (others : ∀ of other, ¬(of = pane ∧ other = req) → after.owners of other = world.owners of other ∧
      after.seen of other = world.seen of other ∧ after.leaving of other = world.leaving of other)
    (panes : after.panes = world.panes) (given : after.given = world.given)
    (plain : ∀ of other owner, .register of other owner ∉ after.work)
    (searches : ∀ of other, (of, other) ∈ after.searches →
      ∀ owner, after.owners of other = some owner → owner.reply = .search) : after.Sound := by
  have pending (of : PaneId) (other : Req) : after.pending? of other = world.pending? of other := by
    rw [pending?, pending?, panes]
  have answers (of : PaneId) (other : Req) : after.answers of other = world.answers of other := by
    rw [World.answers, World.answers, given]
  refine sound.but phase ?_ (fun of other different => ?_) (fun of closed other => ?_) plain searches
  · rw [pending, answers]
    exact sound.answers pane req
  · exact ⟨pending of other, (others of other different).1, (others of other different).2.1, (others of other different).2.2,
      answers of other⟩
  · rw [pending]
    exact sound.shut of (by rwa [panes] at closed) other

theorem withOwner_self {owner : Option Owner} (same : world.owners pane req = owner) :
    world.withOwner pane req owner = world := by
  rw [withOwner, ← same, Function.update_eq_self, Function.update_eq_self]

theorem Sound.told {owner changed : Owner} (sound : world.Sound) (owns : world.owners pane req = some owner)
    (same : changed.reply = owner.reply) : ((world.withOwner pane req (some changed)).note (.told pane req false)).Sound := by
  have seen (of : PaneId) (other : Req) :
      ((world.withOwner pane req (some changed)).note (.told pane req false)).seen of other =
        world.seen of other ++ if (pane, req) = (of, other) then [.told pane req false] else [] := note_seen _ of other
  have owners (of : PaneId) (other : Req) :
      ((world.withOwner pane req (some changed)).note (.told pane req false)).owners of other =
        if of = pane ∧ other = req then some changed else world.owners of other := withOwner_owners req _ of other
  refine @Sound.other _ pane req _ sound ?_ ?_ rfl rfl sound.plain ?_
  · have old := sound.phase pane req
    rw [seen, owners, if_pos rfl, if_pos ⟨rfl, rfl⟩]
    change Phase pane req (world.pending? pane req) _ _ (world.leaving pane req)
    rw [owns] at old
    generalize world.pending? pane req = pending at old ⊢
    generalize world.seen pane req = sighted at old ⊢
    generalize world.leaving pane req = leaving at old ⊢
    cases old with
    | waits tolds owner told =>
      rw [List.append_assoc, course_snoc, ← same]
      exact .waits tolds changed (told + 1)
    | leaves tolds owner told event fits =>
      rw [List.append_assoc, course_snoc]
      exact .leaves tolds changed (told + 1) event (same ▸ fits)
  · intro of other different
    have key : ¬(pane, req) = (of, other) := fun equal => different (by
      cases equal
      exact ⟨rfl, rfl⟩)
    exact ⟨by rw [owners, if_neg different], by rw [seen, if_neg key, List.append_nil], rfl⟩
  · intro of other held found owned
    rw [owners] at owned
    split at owned
    next equal =>
      obtain ⟨rfl, rfl⟩ := equal
      cases owned
      rw [same]
      exact sound.searches of other held owner owns
    next => exact sound.searches of other held found owned

theorem Sound.changed {owner changed : Owner} (sound : world.Sound) (owns : world.owners pane req = some owner)
    (same : changed.reply = owner.reply) : (world.withOwner pane req (some changed)).Sound := by
  have owners (of : PaneId) (other : Req) : (world.withOwner pane req (some changed)).owners of other =
      if of = pane ∧ other = req then some changed else world.owners of other := withOwner_owners req _ of other
  refine @Sound.other _ pane req _ sound ?_ ?_ rfl rfl sound.plain ?_
  · have old := sound.phase pane req
    rw [owners, if_pos ⟨rfl, rfl⟩]
    change Phase pane req (world.pending? pane req) _ (world.seen pane req) (world.leaving pane req)
    rw [owns] at old
    generalize world.pending? pane req = pending at old ⊢
    generalize world.seen pane req = sighted at old ⊢
    generalize world.leaving pane req = leaving at old ⊢
    cases old with
    | waits tolds owner told =>
      rw [← same]
      exact .waits tolds changed told
    | leaves tolds owner told event fits => exact .leaves tolds changed told event (same ▸ fits)
  · intro of other different
    exact ⟨by rw [owners, if_neg different], rfl, rfl⟩
  · intro of other held found owned
    rw [owners] at owned
    split at owned
    next equal =>
      obtain ⟨rfl, rfl⟩ := equal
      cases owned
      rw [same]
      exact sound.searches of other held owner owns
    next => exact sound.searches of other held found owned

theorem Sound.finished {after : World} {tolds : List Nat} {told : Nat} (sound : world.Sound)
    (panes : after.panes = world.panes) (given : after.given = world.given) (searches : ∀ held ∈ after.searches, held ∈ world.searches)
    (owners : after.owners = world.owners) (log : after.log = world.log)
    (plain : ∀ of other owner, .register of other owner ∉ after.work)
    (pending : world.pending? pane req = none)
    (seen : world.seen pane req = courses pane req tolds ++ course pane req told) (none_ : after.leaving pane req = [])
    (others : ∀ of other, ¬(of = pane ∧ other = req) → after.leaving of other = world.leaving of other) :
    ((after.withOwner pane req none).note (.told pane req true)).Sound := by
  have seen' (of : PaneId) (other : Req) :
      ((after.withOwner pane req none).note (.told pane req true)).seen of other =
        world.seen of other ++ if (pane, req) = (of, other) then [.told pane req true] else [] := by
    refine (note_seen _ of other).trans ?_
    change after.seen of other ++ _ = _
    rw [World.seen, log]
    rfl
  have owners' (of : PaneId) (other : Req) :
      ((after.withOwner pane req none).note (.told pane req true)).owners of other =
        if of = pane ∧ other = req then none else world.owners of other := by
    refine (withOwner_owners req _ of other).trans ?_
    rw [owners]
  have pending' (of : PaneId) (other : Req) :
      ((after.withOwner pane req none).note (.told pane req true)).pending? of other = world.pending? of other := by
    change after.pending? of other = _
    rw [pending?, pending?, panes]
  refine @Sound.other _ pane req _ sound ?_ ?_ panes given plain ?_
  · rw [seen', owners', pending', if_pos rfl, if_pos ⟨rfl, rfl⟩, seen, pending]
    change Phase pane req _ _ _ (after.leaving pane req)
    rw [none_, courses_snoc]
    exact .rests (tolds ++ [told])
  · intro of other different
    have key : ¬(pane, req) = (of, other) := fun equal => different (by
      cases equal
      exact ⟨rfl, rfl⟩)
    exact ⟨by rw [owners', if_neg different], by rw [seen', if_neg key, List.append_nil], others of other different⟩
  · intro of other held found owned
    rw [owners'] at owned
    split at owned
    · cases owned
    · exact sound.searches of other (searches (of, other) held) found owned

section Next

variable {event : Event} {rest : List Item}

theorem popped_leaving (work : world.work = .event pane event :: rest) (of : PaneId) (other : Req) :
    world.leaving of other =
      (if pane = of ∧ event.ends other = true then [event] else []) ++ World.leaving { world with work := rest } of other := by
  rw [leaving, work, List.filterMap_cons]
  by_cases ends : pane = of ∧ event.ends other = true
  · rw [Item.endsOf, if_pos ends, if_pos ends]
    rfl
  · rw [Item.endsOf, if_neg ends, if_neg ends]
    rfl

theorem popped_plain (sound : world.Sound) (work : world.work = .event pane event :: rest) :
    ∀ of other owner, .register of other owner ∉ rest := by
  intro of other owner member
  exact sound.plain of other owner (work ▸ List.mem_cons_of_mem _ member)

theorem Sound.popped (sound : world.Sound) (work : world.work = .event pane event :: rest)
    (ends : ∀ other, event.ends other = false) : World.Sound { world with work := rest } := by
  have leaving (of : PaneId) (other : Req) : World.leaving { world with work := rest } of other = world.leaving of other := by
    rw [popped_leaving work, if_neg (by simp [ends]), List.nil_append]
  refine ⟨fun of other => ?_, sound.answers, sound.shut, popped_plain sound work, sound.searches⟩
  rw [leaving]
  exact sound.phase of other

theorem Sound.finish (sound : world.Sound) (work : world.work = .event pane event :: rest)
    (ends : ∀ other, event.ends other = decide (req = other)) :
    ∃ owner, world.owners pane req = some owner ∧ event.fits owner.reply = true ∧
      ((World.withOwner { world with work := rest } pane req none).note (.told pane req true)).Sound := by
  have old := sound.phase pane req
  have popped := popped_leaving work
  rw [popped, if_pos ⟨rfl, by rw [ends]; exact decide_eq_true rfl⟩] at old
  have others (of : PaneId) (other : Req) (different : ¬(of = pane ∧ other = req)) :
      World.leaving { world with work := rest } of other = world.leaving of other := by
    rw [popped, if_neg (fun both => different ⟨both.1.symm, ?_⟩), List.nil_append]
    rw [ends] at both
    exact (of_decide_eq_true both.2).symm
  generalize pended : world.pending? pane req = pending at old
  generalize owned : world.owners pane req = owns at old
  generalize sighted : world.seen pane req = seen at old
  generalize left : World.leaving { world with work := rest } pane req = leaving at old
  cases old with
  | leaves tolds owner told event fits =>
    exact ⟨owner, rfl, fits,
      @Sound.finished _ _ _ { world with work := rest } _ _ sound rfl rfl (fun _ => id) rfl rfl (popped_plain sound work) pended sighted left
        others⟩

theorem Sound.handled (sound : world.Sound) (work : world.work = .event pane event :: rest) :
    (World.handle { world with work := rest } pane event).Sound := by
  have finishes (req : Req) (fits : Owner → Bool) (ends : ∀ other, event.ends other = decide (req = other))
      (fitting : ∀ owner : Owner, event.fits owner.reply = true → fits owner = true) :
      (World.finish { world with work := rest } pane req fits).Sound := by
    obtain ⟨owner, owns, fit, finished⟩ := sound.finish work ends
    rw [World.finish]
    simp only [owns, fitting owner fit, if_true]
    exact finished
  cases event with
  | ready => exact sound.popped work fun _ => rfl
  | title => exact sound.popped work fun _ => rfl
  | pwd => exact sound.popped work fun _ => rfl
  | output => exact sound.popped work fun _ => rfl
  | dead death => exact sound.popped work fun _ => rfl
  | report frame => exact sound.popped work fun _ => rfl
  | pasted req pasted unsafePaste => exact finishes req _ (fun _ => rfl) fun _ fit => fit
  | image req object => exact finishes req _ (fun _ => rfl) fun _ fit => fit
  | searchDone req => exact finishes req _ (fun _ => rfl) fun _ fit => fit
  | failed req why => exact finishes req _ (fun _ => rfl) fun _ _ => rfl
  | screen req chunk last =>
    cases last with
    | true =>
      obtain ⟨owner, owns, fit, finished⟩ := @Sound.finish _ _ req _ _ sound work fun other => by simp [Event.ends]
      simp only [World.handle, owns]
      cases owner with
      | screen conn started =>
        simp only [if_true, World.finish, owns]
        exact finished
      | _ => cases fit
    | false =>
      have popped := sound.popped work fun other => by simp [Event.ends]
      simp only [World.handle]
      split
      next conn started owns => exact @Sound.told _ _ _ (.screen conn started) _ popped owns rfl
      next => exact popped
  | found req found =>
    have popped := sound.popped work fun _ => rfl
    simp only [World.handle]
    split
    next conn owns =>
      have told := @Sound.told _ _ _ _ (.search conn) popped owns rfl
      have same : World.withOwner { world with work := rest } pane req (some (.search conn)) = { world with work := rest } :=
        withOwner_self owns
      rwa [same] at told
    next => exact popped

theorem Sound.moved {after : World} (sound : world.Sound) (owners : after.owners = world.owners) (log : after.log = world.log)
    (given : after.given = world.given) (panes : after.panes = world.panes) (searches : after.searches = world.searches)
    (plain : ∀ pane req owner, .register pane req owner ∉ after.work)
    (leaving : ∀ of req, after.leaving of req = world.leaving of req) : after.Sound := by
  have pending (of : PaneId) (req : Req) : after.pending? of req = world.pending? of req := by rw [pending?, pending?, panes]
  refine ⟨fun of req => ?_, fun of req => ?_, fun of closed req => ?_, plain, fun of req held => ?_⟩
  · rw [pending, leaving, owners, World.seen, log]
    exact sound.phase of req
  · rw [pending, World.answers, given]
    exact sound.answers of req
  · rw [pending]
    exact sound.shut of (by rwa [panes] at closed) req
  · rw [owners]
    exact sound.searches of req (searches ▸ held)

theorem Sound.next (sound : world.Sound) (work : world.work = .event pane event :: rest) :
    (World.event { world with work := rest } pane event).Sound := by
  rw [World.event]
  split_ifs
  · refine @Sound.moved _ _ sound rfl rfl rfl rfl rfl (popped_plain sound work) fun of req => ?_
    have short := (sound.phase of req).short
    have one : world.leaving of req = (Item.endsOf of req (.event pane event)).toList ++ World.leaving { world with work := rest } of req := by
      rw [popped_leaving work, Item.endsOf]
      split_ifs <;> rfl
    rw [one] at short ⊢
    rw [append_comm_of_short short]
    simp only [leaving, List.filterMap_append, List.append_assoc]
    congr 2
  · exact sound.handled work

theorem Sound.release (sound : world.Sound) : world.release.Sound := by
  refine @Sound.moved _ _ sound rfl rfl rfl rfl rfl (fun of req owner member => ?_) fun of req => ?_
  · obtain new | old := List.mem_append.1 member
    · obtain ⟨_, _, same⟩ := List.mem_map.1 new
      cases same
    · exact sound.plain of req owner old
  · have short := (sound.phase of req).short
    rw [leaving] at short
    rw [leaving, World.release, List.filterMap_append, List.filterMap_map, List.filterMap_nil, List.append_nil, leaving, append_comm_of_short short]
    rfl

theorem Sound.cleared (sound : world.Sound) (none_ : ∀ found ∈ world.held, ∀ req, found.2.ends req = false) :
    World.Sound { world with withheld := [], held := [] } := by
  refine @Sound.moved _ _ sound rfl rfl rfl rfl rfl sound.plain fun of req => ?_
  have nothing : (world.held.filterMap fun found => Item.endsOf of req (.event found.1 found.2)) = [] := by
    refine List.filterMap_eq_nil_iff.2 fun found member => if_neg fun both => ?_
    rw [none_ found member req] at both
    exact Bool.false_ne_true both.2
  rw [leaving, leaving, nothing, List.filterMap_nil]

end Next

end World

end Kido.Asking
