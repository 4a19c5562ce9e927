import Kido.Posts.World

set_option autoImplicit false

namespace Kido.Posting

open Kido.Mailing

deriving instance DecidableEq for Wait

inductive Course where
  | unborn
  | held (wait : Wait)
  | released (wait : Wait) (answer : Answer)
  | answered
  | lost
deriving DecidableEq

-- What a post is answered with when this happens while it is held.
def Fact.outcome? (wait : Wait) : Fact → Option (Except PostError MessageState)
  | .settled pane id outcome => if wait.pane = pane ∧ wait.id = id then some (outcomeOf outcome) else none
  | .streamClosed pane => if wait.pane = pane then some (.ok .queued) else none
  | .ended pane => if wait.pane = pane then some (.error (.dead pane)) else none
  | .due conn => if wait.conn = conn then some (.ok .delivered) else none
  | _ => none

def Fact.forgets (wait : Wait) : Fact → Bool
  | .gone conn => decide (wait.conn = conn)
  | _ => false

namespace Course

-- What a post makes of what happens to its pane, its id or its connection: what comes first decides.
def turn (fact : Fact) : Course → Course
  | .held wait =>
    match fact.outcome? wait with
    | some outcome => .released wait (wait.answered outcome)
    | none => if fact.forgets wait then .lost else .held wait
  | .released wait answer => if fact.forgets wait then .lost else .released wait answer
  | course => course

-- What may happen to the post `own`: it is held once, and answered once, with what was decided.
def next (own : Nat) (course : Course) : Fact → Option Course
  | .held wait =>
    if wait.post = own then (if course = .unborn then some (.held wait) else none) else some course
  | .answered post answer =>
    if post = own then
      match course with
      | .released _ decided => if decided = answer then some .answered else none
      | _ => none
    else some course
  | fact => some (course.turn fact)

end Course

-- What happened to a post, or none when something may not happen.
def courseOf (post : Nat) (log : List Fact) : Option Course :=
  log.foldl (fun course fact => course.bind fun course => course.next post fact) (some .unborn)

theorem courseOf_note (post : Nat) (log : List Fact) (fact : Fact) :
    courseOf post (log ++ [fact]) = (courseOf post log).bind fun course => course.next post fact := by
  rw [courseOf, List.foldl_append]
  rfl

end Kido.Posting

namespace Kido.Posting

open Kido.Mailing

-- The message of this id is written to the stream and not settled.
def WrittenIn (inbox : PaneInbox) (id : MessageId) : Prop := ∃ entry ∈ inbox.fifo, entry.frame.id = id ∧ entry.isOut = true

structure Ordered (inbox : PaneInbox) : Prop where
  books : inbox.Books
  places : inbox.Places

theorem Ordered.streams {inbox : PaneInbox} (ordered : Ordered inbox) {id : MessageId} (written : WrittenIn inbox id) :
    inbox.stream ≠ none := by
  intro closed
  obtain ⟨entry, member, -, out⟩ := written
  rw [ordered.places.streaming closed entry member] at out
  cases out

theorem Ordered.delivered {inbox : PaneInbox} (ordered : Ordered inbox) {id : MessageId} {seq : Nat}
    (seen : inbox.seen id = some ⟨seq, .delivered⟩) : WrittenIn inbox id := by
  unfold Inbox.seen at seen
  cases known : inbox.known id with
  | none => rw [known] at seen; cases seen
  | some kind =>
    rw [known] at seen
    cases kind with
    | settled outcome number => cases seen
    | pending number =>
      obtain ⟨entry, found, same⟩ := Option.map_eq_some_iff.1 seen
      obtain ⟨index, place, here⟩ := Option.bind_eq_some_iff.1 found
      obtain ⟨before, other, after, split, rfl, numbered, -⟩ := split_of_findIdx? place
      rw [split, getElem?_middle] at here
      cases here
      have member : entry ∈ inbox.fifo := by simp [split]
      obtain ⟨message, queued, numbers, rfl⟩ := (ordered.books.pending id number).1 known
      have own : entry.frame = message := ordered.books.seq_inj (List.mem_map_of_mem member) queued
        ((ordered.books.framed entry member).1.symm.trans ((of_decide_eq_true numbered).trans numbers.symm))
      refine ⟨entry, member, congrArg Message.id own, decide_eq_true ?_⟩
      by_contra elsewhere
      rw [if_neg elsewhere] at same
      cases same

section Keeps

variable {inbox : PaneInbox} (ordered : Ordered inbox)
include ordered

theorem nextWrite_ordered : Ordered inbox.nextWrite.2 :=
  ⟨Inbox.nextWrite_books ordered.books, Inbox.nextWrite_places ordered.places⟩

theorem openStream_ordered (stream : Token) : Ordered (inbox.openStream stream).2 :=
  ⟨Inbox.openStream_books ordered.books stream, Inbox.openStream_places ordered.places stream⟩

theorem close_ordered (stream : Token) : Ordered (inbox.close stream).2 :=
  ⟨Inbox.close_books ordered.books stream, Inbox.close_places ordered.places stream⟩

theorem settle_ordered (id : MessageId) (outcome : Outcome) : Ordered (inbox.settle id outcome).2 :=
  ⟨Inbox.settle_books ordered.books id outcome, Inbox.settle_places ordered.books ordered.places id outcome⟩

theorem admit_ordered (id : MessageId) (sender : Sender) (relation : Option Relation) (content : Content)
    (room : inbox.last.value < Tiling.u64Max) : Ordered (inbox.admitMessage id sender relation content).2 :=
  ⟨Inbox.admit_books ordered.books id sender relation content fun _ _ => room,
    Inbox.admit_places ordered.places id sender relation content⟩

end Keeps

-- One inbox after another: the messages that were written still are, and the stream is as it was.
structure Follows (before after : PaneInbox) : Prop where
  written : ∀ id, WrittenIn before id → WrittenIn after id
  stream : after.stream = before.stream

theorem Follows.refl (inbox : PaneInbox) : Follows inbox inbox := ⟨fun _ written => written, rfl⟩

theorem Follows.trans {first second third : PaneInbox} (one : Follows first second) (two : Follows second third) :
    Follows first third := ⟨fun id written => two.written id (one.written id written), two.stream.trans one.stream⟩

theorem nextWrite_follows (inbox : PaneInbox) : Follows inbox inbox.nextWrite.2 := by
  rcases inbox.nextWrite_cases with ⟨same, -⟩ | ⟨before, entry, after, -, split, -, back, -, wrote⟩
  · rw [same]
    exact .refl inbox
  · rw [wrote]
    refine ⟨fun id written => ?_, rfl⟩
    obtain ⟨other, member, own, out⟩ := written
    rw [split, List.mem_append, List.mem_cons] at member
    rcases member with front | rfl | later
    · exact ⟨other, List.mem_append_left _ front, own, out⟩
    · rw [back] at out
      cases out
    · exact ⟨other, List.mem_append_right _ (.tail _ later), own, out⟩

theorem admit_follows (inbox : PaneInbox) (id : MessageId) (sender : Sender) (relation : Option Relation) (content : Content) :
    Follows inbox (inbox.admitMessage id sender relation content).2 := by
  rcases inbox.admit_cases id sender relation content with ⟨_, -, same⟩ | ⟨-, same⟩ | ⟨-, -, -, same⟩
  all_goals rw [same]
  · exact .refl inbox
  · exact .refl inbox
  · refine ⟨fun other written => ?_, rfl⟩
    obtain ⟨entry, member, about⟩ := written
    exact ⟨entry, List.mem_append_left _ member, about⟩

theorem World.written_ordered (fuel : Nat) {inbox : PaneInbox} (ordered : Ordered inbox) :
    Ordered (World.written fuel inbox) ∧ Follows inbox (World.written fuel inbox) := by
  induction fuel generalizing inbox with
  | zero => exact ⟨ordered, .refl inbox⟩
  | succ fuel ih =>
    unfold World.written
    have after := nextWrite_ordered ordered
    have follows := nextWrite_follows inbox
    split
    next message next wrote =>
      rw [wrote] at after follows
      obtain ⟨rest, later⟩ := ih after
      exact ⟨rest, follows.trans later⟩
    next => exact ⟨ordered, .refl inbox⟩

theorem settle_written {inbox after : PaneInbox} (ordered : Ordered inbox) {id : MessageId} {outcome : Outcome} {seq : Nat}
    (settled : inbox.settle id outcome = (some seq, after)) :
    after.stream = inbox.stream ∧ ∀ other, other ≠ id → WrittenIn inbox other → WrittenIn after other := by
  rcases ordered.books.settle_cases id outcome with same | ⟨front, entry, rest, split, own, -, same⟩
  · rw [same] at settled
    cases settled
  · rw [same] at settled
    cases settled
    obtain ⟨fifo, stream⟩ := (inbox.withdrawn front rest entry outcome).forget_fifo
    refine ⟨stream, fun other apart written => ?_⟩
    obtain ⟨found, member, about, out⟩ := written
    rw [split, List.mem_append, List.mem_cons] at member
    rw [WrittenIn, fifo]
    rcases member with before | rfl | later
    · exact ⟨found, List.mem_append_left _ before, about, out⟩
    · exact absurd (about.symm.trans own) apart
    · exact ⟨found, List.mem_append_right _ later, about, out⟩

end Kido.Posting
