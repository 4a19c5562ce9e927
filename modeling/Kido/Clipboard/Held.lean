import Kido.Clipboard.World
import Kido.Shared.Stages

set_option autoImplicit false

namespace Kido.Clipboards

open Kido.Shared Kido.Framing

deriving instance DecidableEq for Mimes, Contents, Served

inductive Course where
  | fresh
  | taken (req : Req)
  | asked (req : Req) (client : ClientId) (id : Nat)
  | answered (req : Req) (served : Option Served)
  | completed

namespace Course

-- What may happen to the read `own`: its frame is taken once, one client at most is asked, one answer is sent, with
-- contents only when they are that client's, and the read itself is completed with it.
def next (own : Nat) : Course → Fact → Option Course
  | .fresh, .taken req => some (.taken req)
  | .taken req, .asked other client id => if other = req then some (.asked req client id) else none
  | .taken req, .answered other none none => if other = req then some (.answered req none) else none
  | .asked req _ _, .answered other none none => if other = req then some (.answered req none) else none
  | .asked req client id, .answered other (some (from_, number, served)) sent =>
    if other = req ∧ from_ = client ∧ number = id ∧ sent = served.bind ClipboardServed.packed then some (.answered req sent)
    else none
  | .answered _ served, .completed handle other => if handle = own ∧ other = served then some .completed else none
  | _, _ => none

def Taken (course : Course) : Prop := ∃ req, course = .taken req

def Asked (course : Course) : Prop := ∃ req client id, course = .asked req client id

end Course

def Entry.about (pane : PaneId) (handle : Nat) (entry : Entry) : Bool := decide (entry.pane = pane ∧ entry.handle = handle)

-- The facts about a read, in order, or none when one of them may not happen.
def courseOf (pane : PaneId) (handle : Nat) (log : List Entry) : Option Course :=
  (log.filter (Entry.about pane handle)).foldl (fun course entry => course.bind fun course => course.next handle entry.fact)
    (some .fresh)

theorem courseOf_note (pane : PaneId) (handle : Nat) (log : List Entry) (entry : Entry) :
    courseOf pane handle (log ++ [entry]) =
      if entry.pane = pane ∧ entry.handle = handle then (courseOf pane handle log).bind fun course => course.next handle entry.fact
      else courseOf pane handle log := by
  unfold courseOf
  rw [List.filter_append, List.foldl_append]
  by_cases about : entry.pane = pane ∧ entry.handle = handle
  · rw [if_pos about, List.filter_cons_of_pos (by simpa [Entry.about] using about)]
    rfl
  · rw [if_neg about, List.filter_cons_of_neg (by simpa [Entry.about] using about)]
    rfl

end Kido.Clipboards

namespace Kido.Clipboards

open Kido.Shared Kido.Framing

structure Kept where
  req : Req
  id : Nat
  handle : Nat

def Ask.waits (_ : Ask) : Course → Prop := (· = .fresh)
def Ask.taken (ask : Ask) : Course → Prop := (· = .taken ask.req)
def Read.owed (read : Read) : Course → Prop := (· = .asked read.req read.client read.id)

def Frame.answers (frame : Frame) : Course → Prop
  | .answered req served => decodeRequest frame.bytes = .ok (.clipboardAnswer req served)
  | _ => False

def Course.req? : Course → Option Req
  | .taken req | .asked req _ _ | .answered req _ => some req
  | _ => none

-- The two tables of the pane process are about the same reads, no two of which have one request number.
structure Tables (notes : Notes) (requests : Requests) (kept : List Kept) : Prop where
  opens : requests.open_ = kept.map fun read => (read.req, read.id)
  defers : notes.reads = kept.map fun read => (read.id, read.handle)
  counters : requests.next = notes.nextRead
  serials : ∀ read ∈ kept, read.req = Req.ofSerial read.id
  reqs : (kept.map Kept.req).Nodup
  handles : (kept.map Kept.handle).Nodup
  born : ∀ read ∈ kept, read.handle < notes.handles

-- The reads that are open are those that were deferred and not completed, under the numbers that they went out with.
structure Ties (courses : Nat → Course) (count : Nat) (kept : List Kept) : Prop where
  unborn : ∀ handle, count ≤ handle → courses handle = .fresh
  stays : ∀ handle < count, courses handle ≠ .completed → ∃ read ∈ kept, read.handle = handle
  gone : ∀ read ∈ kept, courses read.handle ≠ .completed
  tied : ∀ handle req, (courses handle).req? = some req → ∃ read ∈ kept, read.handle = handle ∧ read.req = req

namespace Tables

variable {notes : Notes} {requests : Requests} {kept : List Kept}

theorem programReads (tables : Tables notes requests kept) {read : Nat} {deferred : Notes}
    (ran : notes.clipboardRead = (some read, deferred))
    (free : ∀ request ∈ requests.open_, request.1 ≠ Req.ofSerial requests.next) :
    Tables deferred (requests.opened read).2 (kept ++ [⟨Req.ofSerial requests.next, notes.nextRead, notes.handles⟩]) := by
  unfold Notes.clipboardRead at ran
  split at ran
  next => cases ran
  next =>
    cases ran
    have apart : ∀ old ∈ kept, old.handle ≠ notes.handles := fun old member => Nat.ne_of_lt (tables.born old member)
    have free_ : ∀ old ∈ kept, old.req ≠ Req.ofSerial requests.next := fun old member =>
      free (old.req, old.id) (tables.opens ▸ List.mem_map_of_mem member)
    constructor
    case opens => simp only [Requests.opened, tables.opens, List.map_append, List.map_singleton]
    case defers => simp only [tables.defers, List.map_append, List.map_singleton]
    case counters => simp only [Requests.opened, tables.counters]
    case serials =>
      intro old member
      rcases List.mem_append.1 member with inside | last
      · exact tables.serials old inside
      · obtain rfl := List.mem_singleton.1 last
        exact congrArg Req.ofSerial tables.counters
    case reqs =>
      rw [List.map_append]
      refine List.nodup_append.2 ⟨tables.reqs, List.nodup_singleton _, ?_⟩
      rintro first inside second last rfl
      obtain ⟨old, member, rfl⟩ := List.mem_map.1 inside
      exact free_ old member (List.mem_singleton.1 last)
    case handles =>
      rw [List.map_append]
      refine List.nodup_append.2 ⟨tables.handles, List.nodup_singleton _, ?_⟩
      rintro first inside second last rfl
      obtain ⟨old, member, rfl⟩ := List.mem_map.1 inside
      exact apart old member (List.mem_singleton.1 last)
    case born =>
      intro old member
      rcases List.mem_append.1 member with inside | last
      · exact Nat.lt_succ_of_lt (tables.born old inside)
      · obtain rfl := List.mem_singleton.1 last
        exact Nat.lt_succ_self _

theorem named (tables : Tables notes requests kept) {first second : Kept} (one : first ∈ kept) (two : second ∈ kept) :
    first.req = second.req ↔ first = second :=
  ⟨List.inj_on_of_nodup_map tables.reqs one two, congrArg Kept.req⟩

theorem numbered (tables : Tables notes requests kept) {first second : Kept} (one : first ∈ kept) (two : second ∈ kept) :
    first.id = second.id ↔ first = second := by
  refine ⟨fun same => (tables.named one two).1 ?_, congrArg Kept.id⟩
  rw [tables.serials first one, tables.serials second two, same]

theorem completes (tables : Tables notes requests kept) {own : Kept} (member : own ∈ kept) :
    ∃ rest left undone, kept.Perm (own :: rest) ∧ requests.close own.req = (some own.id, left) ∧
      notes.complete own.id = (some own.handle, undone) ∧ undone.handles = notes.handles ∧ Tables undone left rest := by
  cases picked : takeFirst (fun read => decide (read.req = own.req)) kept with
  | none => exact absurd rfl (of_decide_eq_false (takeFirst_none picked own member))
  | some found =>
    obtain ⟨item, rest⟩ := found
    obtain ⟨fits, perm⟩ := takeFirst_some picked
    obtain rfl : item = own :=
      (tables.named (perm.mem_iff.2 (.head rest)) member).1 (of_decide_eq_true fits)
    have numbers : takeFirst (fun read => decide (read.id = item.id)) kept = some (item, rest) := by
      rw [← picked]
      refine takeFirst_congr fun read inside => ?_
      rw [decide_eq_decide, tables.numbered inside member, tables.named inside member]
    have request : takeFirst (fun request => decide (request.1 = item.req)) requests.open_ =
        some ((item.req, item.id), rest.map fun read => (read.req, read.id)) := by
      rw [tables.opens, takeFirst_map]
      exact congrArg (Option.map _) picked
    have deferred : takeFirst (fun read => decide (read.1 = item.id)) notes.reads =
        some ((item.id, item.handle), rest.map fun read => (read.id, read.handle)) := by
      rw [tables.defers, takeFirst_map]
      exact congrArg (Option.map _) numbers
    have closed : requests.close item.req = (some item.id, { requests with open_ := rest.map fun read => (read.req, read.id) }) := by
      rw [Requests.close, request]
    have completed : notes.complete item.id =
        (some item.handle, { notes with reads := rest.map fun read => (read.id, read.handle) }) := by
      rw [Notes.complete, deferred]
    have inside : ∀ read ∈ rest, read ∈ kept := fun read later => perm.mem_iff.2 (.tail item later)
    refine ⟨rest, _, _, perm, closed, completed, rfl, {
      opens := rfl
      defers := rfl
      counters := tables.counters
      serials := fun read later => tables.serials read (inside read later)
      reqs := (List.nodup_cons.1 ((perm.map Kept.req).nodup_iff.1 tables.reqs)).2
      handles := (List.nodup_cons.1 ((perm.map Kept.handle).nodup_iff.1 tables.handles)).2
      born := fun read later => tables.born read (inside read later) }⟩

end Tables

namespace Ties

variable {courses : Nat → Course} {count : Nat} {kept : List Kept}

theorem programReads (ties : Ties courses count kept) {read : Kept} (new : read.handle = count) :
    Ties courses (count + 1) (kept ++ [read]) where
  unborn handle above := ties.unborn handle (Nat.le_of_succ_le above)
  stays handle below ongoing := by
    rcases Nat.lt_succ_iff_lt_or_eq.1 below with before | rfl
    · obtain ⟨old, member, same⟩ := ties.stays handle before ongoing
      exact ⟨old, List.mem_append_left _ member, same⟩
    · exact ⟨read, List.mem_append_right _ (List.mem_singleton_self _), new⟩
  gone old member := by
    rcases List.mem_append.1 member with inside | last
    · exact ties.gone old inside
    · obtain rfl := List.mem_singleton.1 last
      rw [ties.unborn _ (Nat.le_of_eq new.symm)]
      exact Course.noConfusion
  tied handle req about := by
    obtain ⟨old, there, same⟩ := ties.tied handle req about
    exact ⟨old, List.mem_append_left _ there, same⟩

theorem inside {read : Kept} (member : read ∈ kept)
    (born : ∀ read ∈ kept, read.handle < count) (handle : Nat) (above : count ≤ handle) : handle ≠ read.handle := by
  have below := born read member
  omega

theorem goes (ties : Ties courses count kept) (born : ∀ read ∈ kept, read.handle < count) {read : Kept}
    (member : read ∈ kept) {course : Course} (about : course.req? = some read.req) :
    Ties (Function.update courses read.handle course) count kept where
  unborn handle above := by
    rw [Function.update_of_ne (inside member born handle above)]
    exact ties.unborn handle above
  stays handle below ongoing := by
    by_cases own : handle = read.handle
    · exact ⟨read, member, own.symm⟩
    · rw [Function.update_of_ne own] at ongoing
      exact ties.stays handle below ongoing
  gone old there := by
    by_cases own : old.handle = read.handle
    · rw [own, Function.update_self]
      rintro rfl
      cases about
    · rw [Function.update_of_ne own]
      exact ties.gone old there
  tied handle req asked := by
    by_cases own : handle = read.handle
    · subst own
      rw [Function.update_self, about] at asked
      exact ⟨read, member, rfl, Option.some.inj asked⟩
    · rw [Function.update_of_ne own] at asked
      exact ties.tied handle req asked

theorem ends (ties : Ties courses count kept) (born : ∀ read ∈ kept, read.handle < count) {read : Kept} {rest : List Kept}
    (perm : kept.Perm (read :: rest)) (handles : (kept.map Kept.handle).Nodup) :
    Ties (Function.update courses read.handle .completed) count rest where
  unborn handle above := by
    rw [Function.update_of_ne (inside (perm.mem_iff.2 (.head rest)) born handle above)]
    exact ties.unborn handle above
  stays handle below ongoing := by
    by_cases own : handle = read.handle
    · rw [own, Function.update_self] at ongoing
      exact absurd rfl ongoing
    · rw [Function.update_of_ne own] at ongoing
      obtain ⟨old, there, same⟩ := ties.stays handle below ongoing
      rcases List.mem_cons.1 (perm.mem_iff.1 there) with rfl | later
      · exact absurd same.symm own
      · exact ⟨old, later, same⟩
  gone old later := by
    have apart : old.handle ≠ read.handle := fun same =>
      (List.nodup_cons.1 ((perm.map Kept.handle).nodup_iff.1 handles)).1 (same ▸ List.mem_map_of_mem later)
    rw [Function.update_of_ne apart]
    exact ties.gone old (perm.mem_iff.2 (.tail read later))
  tied handle req asked := by
    by_cases own : handle = read.handle
    · rw [own, Function.update_self] at asked
      cases asked
    · rw [Function.update_of_ne own] at asked
      obtain ⟨old, there, same, about⟩ := ties.tied handle req asked
      rcases List.mem_cons.1 (perm.mem_iff.1 there) with rfl | later
      · exact absurd same.symm own
      · exact ⟨old, later, same, about⟩

end Ties

-- The tables of a pane, the frames and the events that are on their way, and the reads that clients owe it.
structure PaneHolds (courses : Nat → Course) (owed : List Read) (pane : Pane) (kept : List Kept) : Prop where
  tables : Tables pane.notes pane.requests kept
  ties : Ties courses pane.notes.handles kept
  asks : Stage Ask.handle Ask.waits courses pane.up
  events : Stage Ask.handle Ask.taken courses pane.events
  owes : Stage Read.handle Read.owed courses owed
  frames : Stage Frame.handle Frame.answers courses pane.down
  reported : ∀ ask ∈ pane.up, ∃ read ∈ kept, read.handle = ask.handle ∧ read.req = ask.req
  handled : pane.isOpen = true → Covers Ask.handle Course.Taken courses pane.events
  awaited : pane.isOpen = true → Covers Read.handle Course.Asked courses owed

namespace PaneHolds

variable {courses : Nat → Course} {owed : List Read} {read : Read} {pane : Pane} {kept : List Kept}

theorem start : PaneHolds (fun _ => .fresh) [] .new [] where
  tables := ⟨rfl, rfl, rfl, by simp, List.nodup_nil, List.nodup_nil, by simp⟩
  ties := ⟨fun _ _ => rfl, fun handle below => absurd below (Nat.not_lt_zero handle), by simp, fun _ _ other => by cases other⟩
  asks := .nil
  events := .nil
  owes := .nil
  frames := .nil
  reported := by simp [Pane.new]
  handled := fun _ _ ⟨_, other⟩ => by cases other
  awaited := fun _ _ ⟨_, _, _, other⟩ => by cases other

theorem perm (holds : PaneHolds courses owed pane kept) {others : List Read} (same : owed.Perm others) :
    PaneHolds courses others pane kept :=
  { holds with
    owes := holds.owes.perm same
    awaited := fun isOpen => (holds.awaited isOpen).perm same }

theorem closed (holds : PaneHolds courses owed pane kept) {others : List Read} (less : others.Sublist owed) :
    PaneHolds courses others { pane with isOpen := false } kept :=
  { holds with
    owes := holds.owes.sublist less
    handled := fun other => by cases other
    awaited := fun other => by cases other }

theorem programReads (holds : PaneHolds courses owed pane kept) {read : Nat} {notes : Notes}
    (deferred : pane.notes.clipboardRead = (some read, notes)) (counted : notes.handles = pane.notes.handles + 1)
    (free : ∀ request ∈ pane.requests.open_, request.1 ≠ Req.ofSerial pane.requests.next) :
    ∃ more, PaneHolds courses owed { pane with
      notes := notes
      requests := (pane.requests.opened read).2
      up := pane.up ++ [⟨(pane.requests.opened read).1, pane.notes.handles⟩] } more := by
  refine ⟨_, { holds with
    tables := holds.tables.programReads deferred free
    ties := counted ▸ holds.ties.programReads rfl
    asks := holds.asks.snoc (fun old member same => ?_) (holds.ties.unborn _ (Nat.le_refl _))
    reported := fun ask member => ?_ }⟩
  · obtain ⟨read, there, about, -⟩ := holds.reported old member
    have below := holds.tables.born read there
    exact Nat.ne_of_lt below (about.trans same)
  · rcases List.mem_append.1 member with old | last
    · obtain ⟨read, there, same⟩ := holds.reported ask old
      exact ⟨read, List.mem_append_left _ there, same⟩
    · obtain rfl := List.mem_singleton.1 last
      exact ⟨_, List.mem_append_right _ (List.mem_singleton_self _), rfl, rfl⟩

theorem ties_go (holds : PaneHolds courses owed pane kept) {handle : Nat} {req : Req} {course : Course}
    (there : ∃ read ∈ kept, read.handle = handle ∧ read.req = req) (about : course.req? = some req) :
    Ties (Function.update courses handle course) pane.notes.handles kept := by
  obtain ⟨read, member, rfl, rfl⟩ := there
  exact holds.ties.goes holds.tables.born member about

theorem takes (holds : PaneHolds courses owed pane kept) {ask : Ask} {rest : List Ask} (first : pane.up = ask :: rest) :
    PaneHolds (Function.update courses ask.handle (.taken ask.req)) owed
      { pane with up := rest, events := pane.events ++ [ask] } kept := by
  have asks := holds.asks
  rw [first] at asks
  have here : courses ask.handle = .fresh := asks.state ask (.head rest)
  exact {
    tables := holds.tables
    ties := holds.ties_go (holds.reported ask (first ▸ .head rest)) rfl
    asks := asks.pop _
    events := holds.events.add ask _ (fun old taken => by rw [here] at taken; cases taken) rfl
    owes := holds.owes.keep (fun old owed => by rw [here] at owed; cases owed) _
    frames := holds.frames.keep (fun old answers => by rw [here] at answers; exact answers) _
    reported := fun other later => holds.reported other (first ▸ .tail ask later)
    handled := fun isOpen => (holds.handled isOpen).add ask _
    awaited := fun isOpen => (holds.awaited isOpen).keep (fun ⟨_, _, _, other⟩ => by cases other) _ }

theorem asked (holds : PaneHolds courses owed pane kept) {ask : Ask} {rest : List Ask} (first : pane.events = ask :: rest)
    {read : Read} (own : read.handle = ask.handle) (number : read.req = ask.req) :
    PaneHolds (Function.update courses ask.handle (.asked ask.req read.client read.id)) (owed ++ [read])
      { pane with events := rest } kept := by
  have events := holds.events
  have handled := holds.handled
  rw [first] at events handled
  have here : courses ask.handle = .taken ask.req := events.state ask (.head rest)
  have owes := holds.owes.add read (.asked ask.req read.client read.id)
    (fun old owed => by rw [own, here] at owed; cases owed) (by rw [← number]; rfl)
  rw [own] at owes
  exact {
    tables := holds.tables
    ties := holds.ties_go (holds.ties.tied ask.handle ask.req (by rw [here]; rfl)) rfl
    asks := holds.asks.keep (fun old waits => by rw [here] at waits; cases waits) _
    events := events.pop _
    owes := owes
    frames := holds.frames.keep (fun old answers => by rw [here] at answers; exact answers) _
    reported := holds.reported
    handled := fun isOpen => (handled isOpen).pop fun ⟨_, other⟩ => by cases other
    awaited := fun isOpen => own ▸ (holds.awaited isOpen).add read _ }

theorem refused (holds : PaneHolds courses owed pane kept) {ask : Ask} {rest : List Ask} (first : pane.events = ask :: rest)
    {frame : Frame} (own : frame.handle = ask.handle)
    (decoded : decodeRequest frame.bytes = .ok (.clipboardAnswer ask.req none)) :
    PaneHolds (Function.update courses ask.handle (.answered ask.req none)) owed
      { pane with events := rest, down := pane.down ++ [frame] } kept := by
  have events := holds.events
  have handled := holds.handled
  rw [first] at events handled
  have here : courses ask.handle = .taken ask.req := events.state ask (.head rest)
  have frames := holds.frames.add frame (.answered ask.req none)
    (fun old answers => by rw [own, here] at answers; exact answers) decoded
  rw [own] at frames
  exact {
    tables := holds.tables
    ties := holds.ties_go (holds.ties.tied ask.handle ask.req (by rw [here]; rfl)) rfl
    asks := holds.asks.keep (fun old waits => by rw [here] at waits; cases waits) _
    events := events.pop _
    owes := holds.owes.keep (fun old owed => by rw [here] at owed; cases owed) _
    frames := frames
    reported := holds.reported
    handled := fun isOpen => (handled isOpen).pop fun ⟨_, other⟩ => by cases other
    awaited := fun isOpen => (holds.awaited isOpen).keep (fun ⟨_, _, _, other⟩ => by cases other) _ }

theorem answered (holds : PaneHolds courses (read :: owed) pane kept) {frame : Frame}
    (own : frame.handle = read.handle) {served : Option Served}
    (decoded : decodeRequest frame.bytes = .ok (.clipboardAnswer read.req served)) :
    PaneHolds (Function.update courses read.handle (.answered read.req served)) owed
      { pane with down := pane.down ++ [frame] } kept := by
  have here : courses read.handle = .asked read.req read.client read.id := holds.owes.state read (.head owed)
  have frames := holds.frames.add frame (.answered read.req served)
    (fun old answers => by rw [own, here] at answers; exact answers) decoded
  rw [own] at frames
  exact {
    tables := holds.tables
    ties := holds.ties_go (holds.ties.tied read.handle read.req (by rw [here]; rfl)) rfl
    asks := holds.asks.keep (fun old waits => by rw [here] at waits; cases waits) _
    events := holds.events.keep (fun old taken => by rw [here] at taken; cases taken) _
    owes := holds.owes.pop _
    frames := frames
    reported := holds.reported
    handled := fun isOpen => (holds.handled isOpen).keep (fun ⟨_, other⟩ => by cases other) _
    awaited := fun isOpen => (holds.awaited isOpen).pop fun ⟨_, _, _, other⟩ => by cases other }

theorem completed (holds : PaneHolds courses owed pane kept) {frame : Frame} {rest : List Frame}
    (first : pane.down = frame :: rest) {req : Req} {served : Option Served}
    (here : courses frame.handle = .answered req served) :
    ∃ read requests notes left, pane.requests.close req = (some read, requests) ∧
      pane.notes.complete read = (some frame.handle, notes) ∧
      PaneHolds (Function.update courses frame.handle .completed) owed
        { pane with notes := notes, requests := requests, down := rest } left := by
  obtain ⟨own, member, about, rfl⟩ := holds.ties.tied frame.handle req (by rw [here]; rfl)
  obtain ⟨left, requests, notes, perm, closed, completed, count, tables⟩ := holds.tables.completes member
  have frames := holds.frames
  rw [first] at frames
  have ties := holds.ties.ends holds.tables.born perm holds.tables.handles
  rw [about] at completed ties
  refine ⟨_, requests, notes, left, closed, completed, {
    tables := tables
    ties := count ▸ ties
    asks := holds.asks.keep (fun old waits => by rw [here] at waits; cases waits) _
    events := holds.events.keep (fun old taken => by rw [here] at taken; cases taken) _
    owes := holds.owes.keep (fun old owed => by rw [here] at owed; cases owed) _
    frames := frames.pop _
    reported := fun ask there => ?_
    handled := fun isOpen => (holds.handled isOpen).keep (fun ⟨_, other⟩ => by cases other) _
    awaited := fun isOpen => (holds.awaited isOpen).keep (fun ⟨_, _, _, other⟩ => by cases other) _ }⟩
  obtain ⟨read, inside, handle, number⟩ := holds.reported ask there
  rcases List.mem_cons.1 (perm.mem_iff.1 inside) with rfl | later
  · -- a frame that is still on its way is not answered
    have waits := holds.asks.state ask there
    rw [← handle, about, here] at waits
    cases waits
  · exact ⟨read, later, handle, number⟩

end PaneHolds

end Kido.Clipboards
