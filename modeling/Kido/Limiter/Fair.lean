import Mathlib.Data.List.Basic
import Mathlib.Data.List.Nodup
import Mathlib.Data.List.Perm.Subperm
import Kido.Shared.Run

set_option autoImplicit false

namespace Kido.Limiting

universe u

inductive Admit where
  | run
  | wait
deriving DecidableEq

inductive Retry where
  | now
  | later
deriving DecidableEq

structure Limiter (Token : Type u) where
  cap : Nat
  running : Nat
  ends : Nat
  waiting : List Token
  parked : List Token

namespace Limiter

variable {Token : Type u}

def new (cap : Nat) : Limiter Token := ⟨cap, 0, 0, [], []⟩

def join (limiter : Limiter Token) (ticket : Token) : Admit × Limiter Token :=
  if limiter.running < limiter.cap ∧ limiter.waiting = [] then (.run, { limiter with running := limiter.running + 1 })
  else (.wait, { limiter with waiting := limiter.waiting ++ [ticket] })

def next (parkedFirst : Bool) (limiter : Limiter Token) : Option (Token × Limiter Token) :=
  match parkedFirst, limiter.parked, limiter.waiting with
  | true, ticket :: parked, _ => some (ticket, { limiter with parked := parked })
  | _, _, ticket :: waiting => some (ticket, { limiter with waiting := waiting })
  | _, _, [] => none

-- The turns of the loop that hands slots out, as many as there are slots.
def hand (parkedFirst : Bool) : Nat → Limiter Token → List Token × Limiter Token
  | 0, limiter => ([], limiter)
  | slots + 1, limiter =>
    match limiter.next parkedFirst with
    | none => ([], limiter)
    | some (ticket, rest) =>
      let (start, after) := hand parkedFirst slots { rest with running := rest.running + 1 }
      (ticket :: start, after)

def fill (limiter : Limiter Token) (parkedFirst : Bool) : List Token × Limiter Token :=
  hand parkedFirst (limiter.cap - limiter.running) limiter

def leave (limiter : Limiter Token) : List Token × Limiter Token :=
  fill { limiter with ends := limiter.ends + 1, running := limiter.running - 1 } true

def retry (limiter : Limiter Token) (ticket : Token) (started : Nat) : (Retry × List Token) × Limiter Token :=
  let freed := { limiter with running := limiter.running - 1 }
  if freed.running = 0 ∨ started < freed.ends then
    let (start, after) := fill { freed with running := freed.running + 1 } false
    ((.now, ticket :: start), after)
  else
    let (start, after) := fill { freed with parked := freed.parked ++ [ticket] } false
    ((.later, start), after)

def forget [DecidableEq Token] (limiter : Limiter Token) (ticket : Token) : Limiter Token :=
  { limiter with
    waiting := limiter.waiting.filter fun waiting => waiting ≠ ticket,
    parked := limiter.parked.filter fun parked => parked ≠ ticket }

-- What a round of handing out does: slots go to tickets that are parked, if these are first, and then to tickets that wait, from
-- the front of each; it ends when there is no slot left or nobody to take one.
structure Handed (parkedFirst : Bool) (slots : Nat) (before after : Limiter Token) (woken called : List Token) : Prop where
  cap : after.cap = before.cap
  ends : after.ends = before.ends
  running : after.running = before.running + (woken.length + called.length)
  fits : woken.length + called.length ≤ slots
  parked : before.parked = woken ++ after.parked
  waiting : before.waiting = called ++ after.waiting
  unwoken : parkedFirst = false → woken = []
  full : after.waiting ≠ [] → woken.length + called.length = slots
  awake : parkedFirst = true → after.parked ≠ [] → woken.length + called.length = slots

theorem next_cases (parkedFirst : Bool) (limiter : Limiter Token) :
    (limiter.next parkedFirst = none ∧ limiter.waiting = [] ∧ (parkedFirst = true → limiter.parked = [])) ∨
    (∃ ticket rest, limiter.next parkedFirst = some (ticket, { limiter with parked := rest }) ∧ parkedFirst = true ∧
      limiter.parked = ticket :: rest) ∨
    (∃ ticket rest, limiter.next parkedFirst = some (ticket, { limiter with waiting := rest }) ∧
      limiter.waiting = ticket :: rest ∧ (parkedFirst = true → limiter.parked = [])) := by
  obtain ⟨cap, running, ends, waiting, parked⟩ := limiter
  cases parkedFirst with
  | false =>
    cases waiting with
    | nil => exact .inl ⟨rfl, rfl, fun first => by cases first⟩
    | cons ticket rest => exact .inr (.inr ⟨ticket, rest, rfl, rfl, fun first => by cases first⟩)
  | true =>
    cases parked with
    | cons ticket rest => exact .inr (.inl ⟨ticket, rest, rfl, rfl, rfl⟩)
    | nil =>
      cases waiting with
      | nil => exact .inl ⟨rfl, rfl, fun _ => rfl⟩
      | cons ticket rest => exact .inr (.inr ⟨ticket, rest, rfl, rfl, fun _ => rfl⟩)

theorem hand_spec (parkedFirst : Bool) (slots : Nat) (limiter : Limiter Token) :
    ∃ woken called, (hand parkedFirst slots limiter).1 = woken ++ called ∧
      Handed parkedFirst slots limiter (hand parkedFirst slots limiter).2 woken called := by
  induction slots generalizing limiter with
  | zero => exact ⟨[], [], rfl, ⟨rfl, rfl, rfl, Nat.le_refl 0, rfl, rfl, fun _ => rfl, fun _ => rfl, fun _ _ => rfl⟩⟩
  | succ slots ih =>
    rw [hand]
    obtain ⟨nobody, quiet, asleep⟩ | ⟨ticket, rest, taken, first, here⟩ | ⟨ticket, rest, taken, here, asleep⟩ :=
      limiter.next_cases parkedFirst
    · rw [nobody]
      exact ⟨[], [], rfl, ⟨rfl, rfl, rfl, Nat.zero_le _, rfl, rfl, fun _ => rfl, fun some_ => absurd quiet some_,
        fun first some_ => absurd (asleep first) some_⟩⟩
    · rw [taken]
      obtain ⟨woken, called, start, handed⟩ := ih { limiter with parked := rest, running := limiter.running + 1 }
      refine ⟨ticket :: woken, called, congrArg (ticket :: ·) start,
        ⟨handed.cap, handed.ends, ?_, ?_, ?_, handed.waiting, ?_, ?_, ?_⟩⟩
      · have count := handed.running
        simp only [List.length_cons] at count ⊢
        omega
      · have fits := handed.fits
        simp only [List.length_cons] at fits ⊢
        omega
      · rw [here, List.cons_append]
        exact congrArg (ticket :: ·) handed.parked
      · intro second
        rw [first] at second
        cases second
      · intro some_
        have full := handed.full some_
        simp only [List.length_cons] at full ⊢
        omega
      · intro _ some_
        have awake := handed.awake first some_
        simp only [List.length_cons] at awake ⊢
        omega
    · rw [taken]
      obtain ⟨woken, called, start, handed⟩ := ih { limiter with waiting := rest, running := limiter.running + 1 }
      -- Nobody that is parked was passed over: either they do not come first or there is none.
      have none_ : woken = [] := by
        cases first : parkedFirst with
        | false => exact handed.unwoken first
        | true =>
          have parked := handed.parked
          rw [asleep first] at parked
          exact (List.append_eq_nil_iff.1 parked.symm).1
      subst none_
      refine ⟨[], ticket :: called, congrArg (ticket :: ·) start,
        ⟨handed.cap, handed.ends, ?_, ?_, handed.parked, ?_, fun _ => rfl, ?_, ?_⟩⟩
      · have count := handed.running
        simp only [List.length_nil, List.length_cons] at count ⊢
        omega
      · have fits := handed.fits
        simp only [List.length_nil, List.length_cons] at fits ⊢
        omega
      · rw [here, List.cons_append]
        exact congrArg (ticket :: ·) handed.waiting
      · intro some_
        have full := handed.full some_
        simp only [List.length_nil, List.length_cons] at full ⊢
        omega
      · intro first some_
        have awake := handed.awake first some_
        simp only [List.length_nil, List.length_cons] at awake ⊢
        omega

theorem fill_spec (limiter : Limiter Token) (parkedFirst : Bool) :
    ∃ woken called, (limiter.fill parkedFirst).1 = woken ++ called ∧
      Handed parkedFirst (limiter.cap - limiter.running) limiter (limiter.fill parkedFirst).2 woken called :=
  hand_spec parkedFirst _ limiter

end Limiter

end Kido.Limiting

namespace Kido.Limiting

open Kido.Shared

universe u

variable {Token : Type u} [DecidableEq Token]

-- What the sessions of a runtime ask of its limiter.
inductive Call (Token : Type u) where
  | join (ticket : Token)
  | leave (ticket : Token)
  | retry (ticket : Token) (started : Nat)
  | forget (ticket : Token)

-- The limiter beside the record of its use: the tickets that run, those that joined, each start and each wish for one in
-- order, and the wishes that were withdrawn from a queue.
structure World (Token : Type u) where
  limiter : Limiter Token
  running : List Token
  joined : List Token
  starts : List Token
  asked : List Token
  withdrawn : List Token

namespace World

def empty (cap : Nat) : World Token := ⟨Limiter.new cap, [], [], [], [], []⟩

def begin (world : World Token) (start : List Token) : World Token :=
  { world with running := world.running ++ start, starts := world.starts ++ start }

def queued (world : World Token) : List Token := world.limiter.waiting ++ world.limiter.parked

def join (world : World Token) (ticket : Token) : World Token :=
  let (admitted, limiter) := world.limiter.join ticket
  let asking := { world with limiter := limiter, joined := world.joined ++ [ticket], asked := world.asked ++ [ticket] }
  match admitted with
  | .run => asking.begin [ticket]
  | .wait => asking

def leave (world : World Token) (ticket : Token) : World Token :=
  let (start, limiter) := world.limiter.leave
  begin { world with limiter := limiter, running := world.running.erase ticket } start

def retry (world : World Token) (ticket : Token) (started : Nat) : World Token :=
  let ((_, start), limiter) := world.limiter.retry ticket started
  begin { world with limiter := limiter, running := world.running.erase ticket, asked := world.asked ++ [ticket] } start

def forget (world : World Token) (ticket : Token) : World Token :=
  { world with
    limiter := world.limiter.forget ticket,
    withdrawn := if ticket ∈ world.queued then world.withdrawn ++ [ticket] else world.withdrawn }

def step (world : World Token) : Call Token → World Token
  | .join ticket => world.join ticket
  | .leave ticket => world.leave ticket
  | .retry ticket started => world.retry ticket started
  | .forget ticket => world.forget ticket

end World

-- A session joins once, and leaves or tries again only while it runs. (One that could not be spawned is forgotten while it
-- still counts as running, so that no condition stands on forgetting.)
def LifeCycle (world : World Token) : Call Token → Prop
  | .join ticket => ticket ∉ world.joined
  | .leave ticket | .retry ticket _ => ticket ∈ world.running
  | .forget _ => True

instance (world : World Token) (call : Call Token) : Decidable (LifeCycle world call) :=
  match call with
  | .join ticket => inferInstanceAs (Decidable (ticket ∉ world.joined))
  | .leave ticket => inferInstanceAs (Decidable (ticket ∈ world.running))
  | .retry ticket _ => inferInstanceAs (Decidable (ticket ∈ world.running))
  | .forget _ => inferInstanceAs (Decidable True)

-- The limiter keeps its cap, holds each ticket in one place, starts each as often as it asked and those that wait in the order
-- that they joined, leaves no slot free while a ticket waits, and none parked when nothing runs.
structure Fair (cap : Nat) (world : World Token) : Prop where
  bounded : world.running.length ≤ cap
  counted : world.limiter.running = world.running.length
  apart : (world.running ++ world.queued).Nodup
  answered : ∀ ticket, world.asked.count ticket =
    world.starts.count ticket + world.queued.count ticket + world.withdrawn.count ticket
  ordered : (world.starts.eraseDups ++ world.limiter.waiting).Sublist world.joined
  once : world.joined.Nodup
  busy : world.limiter.waiting ≠ [] → world.running.length = cap
  awake : world.running = [] → world.limiter.parked = []

structure Sound (cap : Nat) (world : World Token) : Prop where
  kept : world.limiter.cap = cap
  counted : world.limiter.running = world.running.length
  bounded : world.running.length ≤ cap
  apart : (world.running ++ world.queued).Nodup
  answered : ∀ ticket, world.asked.count ticket =
    world.starts.count ticket + world.queued.count ticket + world.withdrawn.count ticket
  ordered : (world.starts.eraseDups ++ world.limiter.waiting).Sublist world.joined
  once : world.joined.Nodup
  known : ∀ ticket ∈ world.running ++ world.limiter.parked, ticket ∈ world.starts
  fresh : ∀ ticket ∈ world.limiter.waiting, ticket ∉ world.starts

section Lists

theorem eraseDups_append_known {starts woken called : List Token} (known : ∀ ticket ∈ woken, ticket ∈ starts)
    (fresh : ∀ ticket ∈ called, ticket ∉ starts) (once : called.Nodup) :
    (starts ++ (woken ++ called)).eraseDups = starts.eraseDups ++ called := by
  have left : (woken ++ called).removeAll starts = called := by
    unfold List.removeAll
    rw [List.filter_append, List.filter_eq_nil_iff.2, List.nil_append, List.filter_eq_self]
    · intro ticket member
      simpa using fresh ticket member
    · intro ticket member
      simpa using known ticket member
  rw [List.eraseDups_append, left]
  congr 1
  clear fresh left known
  induction called with
  | nil => rfl
  | cons ticket called ih =>
    have others : called.filter (fun other => !other == ticket) = called := by
      rw [List.filter_eq_self]
      intro other member
      have differs : other ≠ ticket := fun same => (List.nodup_cons.1 once).1 (same ▸ member)
      simpa using differs
    rw [List.eraseDups_cons, others, ih (List.nodup_cons.1 once).2]

end Lists

namespace Sound

variable {cap : Nat} {world : World Token}

theorem start (cap : Nat) : Sound cap (World.empty cap : World Token) :=
  ⟨rfl, rfl, Nat.zero_le _, List.nodup_nil, fun _ => rfl, List.Sublist.refl _, List.nodup_nil, fun _ member => (by cases member),
    fun _ member => (by cases member)⟩

theorem running_nodup (holds : Sound cap world) : world.running.Nodup := (List.nodup_append.1 holds.apart).1

theorem queued_nodup (holds : Sound cap world) : world.queued.Nodup := (List.nodup_append.1 holds.apart).2.1

theorem started_joined (holds : Sound cap world) {ticket : Token} (started : ticket ∈ world.starts) : ticket ∈ world.joined :=
  holds.ordered.subset (List.mem_append_left _ (List.mem_eraseDups.2 started))

theorem unjoined (holds : Sound cap world) {ticket : Token} (new : ticket ∉ world.joined) :
    ticket ∉ world.starts ∧ ticket ∉ world.running ++ world.queued := by
  have unstarted : ticket ∉ world.starts := fun started => new (holds.started_joined started)
  refine ⟨unstarted, fun member => ?_⟩
  simp only [World.queued, List.mem_append] at member
  obtain running | waiting | parked := member
  · exact unstarted (holds.known ticket (List.mem_append_left _ running))
  · exact new (holds.ordered.subset (List.mem_append_right _ waiting))
  · exact unstarted (holds.known ticket (List.mem_append_right _ parked))

theorem filled (holds : Sound cap world) {parkedFirst : Bool} {after : Limiter Token} {woken called : List Token}
    (handed : Limiter.Handed parkedFirst (world.limiter.cap - world.limiter.running) world.limiter after woken called) :
    Sound cap ({ world with limiter := after }.begin (woken ++ called)) := by
  have waiting := handed.waiting
  have parked := handed.parked
  have moved : List.Perm (world.running ++ world.queued)
      ((world.running ++ (woken ++ called)) ++ (after.waiting ++ after.parked)) := by
    unfold World.queued
    rw [waiting, parked]
    rw [List.append_assoc world.running]
    apply List.Perm.append_left
    rw [List.perm_iff_count]
    intro ticket
    simp only [List.count_append]
    omega
  have calledFresh : ∀ ticket ∈ called, ticket ∉ world.starts := fun ticket member =>
    holds.fresh ticket (waiting ▸ List.mem_append_left _ member)
  have queued := holds.queued_nodup
  unfold World.queued at queued
  rw [waiting] at queued
  have waitingOnce := (List.nodup_append.1 queued).1
  have calledOnce := (List.nodup_append.1 waitingOnce).1
  have wokenKnown : ∀ ticket ∈ woken, ticket ∈ world.starts := fun ticket member =>
    holds.known ticket (List.mem_append_right _ (parked ▸ List.mem_append_left _ member))
  constructor
  case kept => exact handed.cap.trans holds.kept
  case counted =>
    have counted := holds.counted
    have running := handed.running
    simp only [World.begin, List.length_append]
    omega
  case bounded =>
    have fits := handed.fits
    have counted := holds.counted
    have bounded := holds.bounded
    have kept := holds.kept
    simp only [World.begin, List.length_append]
    omega
  case apart => exact moved.nodup_iff.1 holds.apart
  case answered =>
    intro ticket
    have answered := holds.answered ticket
    have same := moved.count_eq ticket
    simp only [World.queued, World.begin, List.count_append] at answered same ⊢
    omega
  case ordered =>
    have first := eraseDups_append_known wokenKnown calledFresh calledOnce
    have ordered := holds.ordered
    rw [waiting, ← List.append_assoc] at ordered
    simp only [World.begin, first]
    exact ordered
  case once => exact holds.once
  case known =>
    intro ticket member
    simp only [World.begin, List.mem_append] at member ⊢
    obtain (running | new) | still := member
    · exact .inl (holds.known ticket (List.mem_append_left _ running))
    · exact .inr new
    · exact .inl (holds.known ticket (List.mem_append_right _ (parked ▸ List.mem_append_right _ still)))
  case fresh =>
    intro ticket member
    simp only [World.begin, List.mem_append]
    rintro (old | woke | new)
    · exact holds.fresh ticket (waiting ▸ List.mem_append_right _ member) old
    · exact holds.fresh ticket (waiting ▸ List.mem_append_right _ member) (wokenKnown ticket woke)
    · exact (List.nodup_append.1 waitingOnce).2.2 ticket new ticket member rfl

theorem taken (holds : Sound cap world) {ticket : Token} (idle : ticket ∉ world.running ++ world.queued)
    (free : world.running.length < cap) {joined : List Token}
    (ordered : ((world.starts ++ [ticket]).eraseDups ++ world.limiter.waiting).Sublist joined) (once : joined.Nodup) :
    Sound cap (World.begin { world with
      limiter := { world.limiter with running := world.limiter.running + 1 },
      joined := joined, asked := world.asked ++ [ticket] } [ticket]) := by
  simp only [World.queued, List.mem_append, not_or] at idle
  constructor
  case kept => exact holds.kept
  case counted =>
    simp only [World.begin, List.length_append, List.length_singleton]
    rw [holds.counted]
  case bounded =>
    simp only [World.begin, List.length_append, List.length_singleton]
    exact free
  case apart =>
    have moved : List.Perm (ticket :: (world.running ++ world.queued)) ((world.running ++ [ticket]) ++ world.queued) := by
      rw [List.append_assoc]
      exact List.perm_middle.symm
    apply moved.nodup_iff.1
    rw [List.nodup_cons]
    exact ⟨by simp only [World.queued, List.mem_append, not_or]; exact idle, holds.apart⟩
  case answered =>
    intro other
    have answered := holds.answered other
    simp only [World.queued, World.begin, List.count_append] at answered ⊢
    omega
  case ordered => exact ordered
  case once => exact once
  case known =>
    intro other member
    simp only [World.begin, List.mem_append] at member ⊢
    obtain (running | new) | parked := member
    · exact .inl (holds.known other (List.mem_append_left _ running))
    · exact .inr new
    · exact .inl (holds.known other (List.mem_append_right _ parked))
  case fresh =>
    intro other member
    simp only [World.begin, List.mem_append, List.mem_singleton, not_or]
    exact ⟨holds.fresh other member, fun same => idle.2.1 (same ▸ member)⟩

theorem waits (holds : Sound cap world) {ticket : Token} (new : ticket ∉ world.joined) :
    Sound cap { world with
      limiter := { world.limiter with waiting := world.limiter.waiting ++ [ticket] },
      joined := world.joined ++ [ticket], asked := world.asked ++ [ticket] } := by
  obtain ⟨unstarted, idle⟩ := holds.unjoined new
  constructor
  case kept => exact holds.kept
  case counted => exact holds.counted
  case bounded => exact holds.bounded
  case apart =>
    have moved : List.Perm (ticket :: (world.running ++ world.queued))
        (world.running ++ ((world.limiter.waiting ++ [ticket]) ++ world.limiter.parked)) := by
      rw [List.perm_iff_count]
      intro other
      simp only [World.queued, List.count_append, List.count_cons, List.count_nil]
      omega
    exact moved.nodup_iff.1 (List.nodup_cons.2 ⟨idle, holds.apart⟩)
  case answered =>
    intro other
    have answered := holds.answered other
    simp only [World.queued, List.count_append] at answered ⊢
    omega
  case ordered =>
    rw [← List.append_assoc]
    exact holds.ordered.append (List.Sublist.refl _)
  case once =>
    apply List.Nodup.append holds.once (List.nodup_singleton ticket)
    intro other member same
    rw [List.mem_singleton] at same
    exact new (same ▸ member)
  case known => exact holds.known
  case fresh =>
    intro other member
    obtain old | same := List.mem_append.1 member
    · exact holds.fresh other old
    · rw [List.mem_singleton.1 same]
      exact unstarted

theorem parks (holds : Sound cap world) {ticket : Token} (idle : ticket ∉ world.running ++ world.queued)
    (started : ticket ∈ world.starts) :
    Sound cap { world with
      limiter := { world.limiter with parked := world.limiter.parked ++ [ticket] }, asked := world.asked ++ [ticket] } := by
  constructor
  case kept => exact holds.kept
  case counted => exact holds.counted
  case bounded => exact holds.bounded
  case apart =>
    have moved : List.Perm (ticket :: (world.running ++ world.queued))
        (world.running ++ (world.limiter.waiting ++ (world.limiter.parked ++ [ticket]))) := by
      rw [List.perm_iff_count]
      intro other
      simp only [World.queued, List.count_append, List.count_cons, List.count_nil]
      omega
    exact moved.nodup_iff.1 (List.nodup_cons.2 ⟨idle, holds.apart⟩)
  case answered =>
    intro other
    have answered := holds.answered other
    simp only [World.queued, List.count_append] at answered ⊢
    omega
  case ordered => exact holds.ordered
  case once => exact holds.once
  case known =>
    intro other member
    rw [← List.append_assoc, List.mem_append, List.mem_singleton] at member
    obtain old | same := member
    · exact holds.known other old
    · exact same ▸ started
  case fresh => exact holds.fresh

theorem freed (holds : Sound cap world) {ticket : Token} (here : ticket ∈ world.running) (ends : Nat) :
    Sound cap { world with
      limiter := { world.limiter with ends := ends, running := world.limiter.running - 1 },
      running := world.running.erase ticket } := by
  have fewer := List.length_erase_of_mem here
  constructor
  case kept => exact holds.kept
  case counted => rw [fewer, holds.counted]
  case bounded => exact Nat.le_trans List.length_erase_le holds.bounded
  case apart => exact List.Nodup.sublist (List.erase_sublist.append (List.Sublist.refl _)) holds.apart
  case answered => exact holds.answered
  case ordered => exact holds.ordered
  case once => exact holds.once
  case known =>
    intro other member
    apply holds.known other
    rw [List.mem_append] at member ⊢
    exact member.imp List.mem_of_mem_erase id
  case fresh => exact holds.fresh

theorem freed_idle (holds : Sound cap world) {ticket : Token} (here : ticket ∈ world.running) :
    ticket ∉ world.running.erase ticket ++ world.queued := by
  intro member
  obtain running | queued := List.mem_append.1 member
  · exact (List.Nodup.not_mem_erase holds.running_nodup) running
  · exact (List.nodup_append.1 holds.apart).2.2 ticket here ticket queued rfl

theorem forgotten (holds : Sound cap world) (ticket : Token) : Sound cap (world.forget ticket) := by
  have waiting : (world.limiter.forget ticket).waiting.Sublist world.limiter.waiting := List.filter_sublist
  have parked : (world.limiter.forget ticket).parked.Sublist world.limiter.parked := List.filter_sublist
  constructor
  case kept => exact holds.kept
  case counted => exact holds.counted
  case bounded => exact holds.bounded
  case apart =>
    apply List.Nodup.sublist _ holds.apart
    exact (List.Sublist.refl _).append (waiting.append parked)
  case answered =>
    intro other
    have answered := holds.answered other
    have left : (world.forget ticket).queued = world.queued.filter fun kept => kept ≠ ticket := by
      simp only [World.queued, World.forget, Limiter.forget, List.filter_append]
    show world.asked.count other = world.starts.count other + (world.forget ticket).queued.count other +
      (world.forget ticket).withdrawn.count other
    rw [answered, left]
    by_cases same : other = ticket
    · have gone : (world.queued.filter fun kept => kept ≠ ticket).count other = 0 := by
        rw [List.count_eq_zero]
        intro member
        have differs := (List.mem_filter.1 member).2
        rw [same] at differs
        simp only [ne_eq, not_true_eq_false, decide_false, Bool.false_eq_true] at differs
      have once := holds.queued_nodup.count (a := other)
      rw [gone, once, World.forget, same]
      by_cases here : ticket ∈ world.queued
      · simp only [if_pos here, List.count_append, List.count_singleton_self]
        omega
      · simp only [if_neg here]
    · rw [List.count_filter (by simpa using same), World.forget]
      by_cases here : ticket ∈ world.queued
      · have others : [ticket].count other = 0 := List.count_eq_zero.2 fun member => same (List.mem_singleton.1 member)
        simp only [if_pos here, List.count_append, others]
        rfl
      · simp only [if_neg here]
  case ordered =>
    exact ((List.Sublist.refl _).append waiting).trans holds.ordered
  case once => exact holds.once
  case known =>
    intro other member
    apply holds.known other
    rw [List.mem_append] at member ⊢
    exact member.imp id fun kept => parked.subset kept
  case fresh => exact fun other member => holds.fresh other (waiting.subset member)

end Sound

structure Kept (cap : Nat) (world : World Token) : Prop where
  sound : Sound cap world
  busy : world.limiter.waiting ≠ [] → world.running.length = cap
  awake : world.running = [] → world.limiter.parked = []

namespace Kept

variable {cap : Nat} {world : World Token}

theorem fair (holds : Kept cap world) : Fair cap world :=
  ⟨holds.sound.bounded, holds.sound.counted, holds.sound.apart, holds.sound.answered, holds.sound.ordered, holds.sound.once,
    holds.busy, holds.awake⟩

theorem join (holds : Kept cap world) {ticket : Token} (new : ticket ∉ world.joined) : Kept cap (world.join ticket) := by
  have sound := holds.sound
  obtain ⟨unstarted, idle⟩ := sound.unjoined new
  rw [World.join, Limiter.join]
  by_cases free : world.limiter.running < world.limiter.cap ∧ world.limiter.waiting = []
  · rw [if_pos free]
    have room : world.running.length < cap := by
      rw [← sound.counted, ← sound.kept]
      exact free.1
    have first : (world.starts ++ [ticket]).eraseDups = world.starts.eraseDups ++ [ticket] :=
      @eraseDups_append_known _ _ world.starts [] [ticket] (fun _ member => by cases member)
        (fun other member => List.mem_singleton.1 member ▸ unstarted) (List.nodup_singleton ticket)
    have ordered : ((world.starts ++ [ticket]).eraseDups ++ world.limiter.waiting).Sublist (world.joined ++ [ticket]) := by
      have ordered := sound.ordered
      rw [free.2, List.append_nil] at ordered ⊢
      rw [first]
      exact ordered.append (List.Sublist.refl _)
    have once : (world.joined ++ [ticket]).Nodup := by
      apply List.Nodup.append sound.once (List.nodup_singleton ticket)
      intro other member same
      exact new (List.mem_singleton.1 same ▸ member)
    refine ⟨sound.taken idle room ordered once, fun some_ => absurd free.2 some_, fun none_ => ?_⟩
    exact absurd none_ (List.append_ne_nil_of_right_ne_nil _ (List.cons_ne_nil _ _))
  · rw [if_neg free]
    refine ⟨sound.waits new, fun _ => ?_, holds.awake⟩
    by_cases waiting : world.limiter.waiting = []
    · have counted := sound.counted
      have kept := sound.kept
      have bounded := sound.bounded
      have full : ¬world.limiter.running < world.limiter.cap := fun below => free ⟨below, waiting⟩
      show world.running.length = cap
      omega
    · exact holds.busy waiting

theorem handed (sound : Sound cap world) {parkedFirst : Bool} {after : Limiter Token} {woken called : List Token}
    (handed : Limiter.Handed parkedFirst (world.limiter.cap - world.limiter.running) world.limiter after woken called)
    (awake : world.running ++ (woken ++ called) = [] → after.parked = []) :
    Kept cap ({ world with limiter := after }.begin (woken ++ called)) := by
  refine ⟨sound.filled handed, fun some_ => ?_, awake⟩
  have full := handed.full some_
  have counted := sound.counted
  have kept := sound.kept
  have bounded := sound.bounded
  simp only [World.begin, List.length_append]
  omega

theorem leave (holds : Kept cap world) {ticket : Token} (here : ticket ∈ world.running) : Kept cap (world.leave ticket) := by
  have freed := holds.sound.freed here (world.limiter.ends + 1)
  obtain ⟨woken, called, start, round⟩ := Limiter.fill_spec
    { world.limiter with ends := world.limiter.ends + 1, running := world.limiter.running - 1 } true
  rw [World.leave, Limiter.leave]
  dsimp only
  rw [start]
  apply handed freed round
  intro none_
  obtain ⟨rest, starts⟩ := List.append_eq_nil_iff.1 none_
  have started : woken.length + called.length = 0 := by
    rw [← List.length_append, starts]
    rfl
  by_contra some_
  have slots := round.awake rfl some_
  have counted := freed.counted
  have kept := holds.sound.kept
  have bounded := holds.sound.bounded
  have inhabited : 0 < world.running.length := List.length_pos_of_mem here
  rw [rest] at counted
  dsimp only [List.length_nil] at counted slots
  omega

theorem retry (holds : Kept cap world) {ticket : Token} (here : ticket ∈ world.running) (started : Nat) :
    Kept cap (world.retry ticket started) := by
  have sound := holds.sound
  have known : ticket ∈ world.starts := sound.known ticket (List.mem_append_left _ here)
  have freed := sound.freed here world.limiter.ends
  have idle := sound.freed_idle here
  rw [World.retry, Limiter.retry]
  dsimp only
  by_cases again : world.limiter.running - 1 = 0 ∨ started < world.limiter.ends
  · rw [if_pos again]
    have room : (world.running.erase ticket).length < cap := by
      have fewer := List.length_erase_of_mem here
      have bounded := sound.bounded
      have inhabited : 0 < world.running.length := List.length_pos_of_mem here
      omega
    have ordered : ((world.starts ++ [ticket]).eraseDups ++ world.limiter.waiting).Sublist world.joined := by
      have same : (world.starts ++ [ticket]).eraseDups = world.starts.eraseDups := by
        have known := @eraseDups_append_known _ _ world.starts [ticket] []
          (fun other member => List.mem_singleton.1 member ▸ known) (fun _ member => by cases member) List.nodup_nil
        rw [List.append_nil, List.append_nil] at known
        exact known
      rw [same]
      exact sound.ordered
    have taken := freed.taken idle room ordered sound.once
    obtain ⟨woken, called, start, round⟩ := Limiter.fill_spec
      { world.limiter with running := world.limiter.running - 1 + 1 } false
    rw [start]
    have kept := handed taken round fun none_ => by
      simp only [World.begin, List.append_eq_nil_iff, List.cons_ne_nil, and_false, false_and] at none_
    simp only [World.begin, List.append_assoc, List.singleton_append] at kept ⊢
    exact kept
  · rw [if_neg again]
    rw [not_or] at again
    have parked := freed.parks idle known
    obtain ⟨woken, called, start, round⟩ := Limiter.fill_spec
      { world.limiter with running := world.limiter.running - 1, parked := world.limiter.parked ++ [ticket] } false
    rw [start]
    apply handed parked round
    intro none_
    -- Another session runs: this is why the ticket was parked.
    have counted := freed.counted
    rw [(List.append_eq_nil_iff.1 none_).1] at counted
    exact absurd counted again.1

theorem forget (holds : Kept cap world) (ticket : Token) : Kept cap (world.forget ticket) := by
  refine ⟨holds.sound.forgotten ticket, fun some_ => holds.busy fun none_ => some_ ?_, fun none_ => ?_⟩
  · simp only [World.forget, Limiter.forget, none_, List.filter_nil]
  · simp only [World.forget, Limiter.forget, holds.awake none_, List.filter_nil]

theorem step (holds : Kept cap world) {call : Call Token} (life : LifeCycle world call) : Kept cap (world.step call) := by
  cases call with
  | join ticket => exact holds.join life
  | leave ticket => exact holds.leave life
  | retry ticket started => exact holds.retry life started
  | forget ticket => exact holds.forget ticket

end Kept

-- Over every run of calls that follow the life cycle of the sessions, whatever the cap, the limiter is safe and keeps busy.
theorem limiter_fair (cap : Nat) (calls : List (Call Token))
    (life : AllAllowed World.step LifeCycle (World.empty cap) calls) :
    Fair cap (run World.step (World.empty cap) calls) := by
  have initial : Kept cap (World.empty cap : World Token) := ⟨Sound.start cap, fun some_ => absurd rfl some_, fun _ => rfl⟩
  have kept : Kept cap (run World.step (World.empty cap) calls) :=
    run_allowed (P := Kept cap) (fun _ _ holds met => holds.step met) initial life
  exact kept.fair

-- Two slots: the third session waits, the first is refused and parked, and its slot goes to the third.
theorem limiter_fair_parks : Fair 2 (run World.step (World.empty 2)
    [Call.join 1, .join 2, .join 3, .retry 1 0, .leave 2, .leave 3, .leave 1]) :=
  limiter_fair 2 _ (by simp only [AllAllowed]; decide)

end Kido.Limiting
