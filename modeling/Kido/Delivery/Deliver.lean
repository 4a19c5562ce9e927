import Kido.Ring.ReaderContract
import Kido.Shared.Run
import Kido.Wire.Messages

set_option autoImplicit false

namespace Kido.Delivering

open Kido.Shared Kido.Streaming

abbrev Req := Framing.Req

def Req.ofSerial (serial : Nat) : Req := ⟨UInt32.ofNat serial⟩

def recordAt : Log → Nat → Option Rec
  | [], _ => none
  | rec :: rest, pos => if pos = 0 then some rec else if pos < rec.size then none else recordAt rest (pos - rec.size)

-- Where the first record starts that does not start before `upto`, or where the log ends.
def boundaryFrom (upto : Nat) : Log → Nat → Nat
  | [], pos => pos
  | rec :: rest, pos => if upto ≤ pos then pos else boundaryFrom upto rest (pos + rec.size)

-- The reader of a ring, by the log of what the pane process has put there.
structure Source where
  ring : Ring
  log : Log
  tail : Nat
  seen : Nat

namespace Source

def head (source : Source) : Source := { source with seen := source.log.head }

def find (source : Source) (pos : Nat) : Option Rec :=
  if source.tail ≤ pos then (recordAt source.log pos).filter fun rec => decide (pos + rec.size ≤ source.seen) else none

-- What the server asks of a record: its kind, and where the next one starts.
def record (source : Source) (pos : Nat) : Except Invalid (RecordKind × Nat) :=
  match source.find pos with
  | some rec => .ok (rec.kind, pos + rec.size)
  | none => .error .record

def slice (source : Source) (pos : Nat) : Except Invalid Slice :=
  match source.find pos with
  | some rec => Reader.sliceOf rec.payload.length (rec.payload.take 2)
  | none => .error .record

def advance (source : Source) (upper keep : Nat) : Except Invalid Unit × Source :=
  if upper ≠ source.seen then (.error .head, source)
  else
    let upto := Reader.retain source.ring upper keep
    (.ok (), if source.tail < upto then { source with tail := boundaryFrom upto source.log 0 } else source)

end Source

inductive Fault where
  | ring (invalid : Invalid)
  | earlySlice
deriving DecidableEq

structure Waiting where
  serial : Nat
  at_ : Nat
  slices : Nat
deriving DecidableEq

structure Delivery where
  source : Source
  requests : List Waiting
  finished : List Waiting
  delivered : Nat
  slices : Nat
  next : Nat

structure Done where
  serial : Nat
  hold : Option Nat
  slices : Nat
deriving DecidableEq

inductive Event where
  | minted (serial : Nat)
  | asked (serial : Nat) (at_ : Nat)
  -- A slice that the sink is given, and where the record after it starts if it is the last one of its request.
  | handed (serial : Nat) (at_ : Nat) (stop : Option Nat)
  | done (done : Done)
deriving DecidableEq

-- The state of the deliveries of a pane, and what happened so far.
structure Turn where
  delivery : Delivery
  events : List Event

def saturatingAdd (first second : Nat) : Nat := min (first + second) (u64 - 1)

def Delivery.create (ring : Ring) : Delivery := ⟨⟨ring, [], 0, 0⟩, [], [], 0, 0, 1⟩

namespace Delivery

def look (delivery : Delivery) : Delivery := { delivery with source := delivery.source.head }

def popQueue (delivery : Delivery) (rest : List Waiting) : Delivery := { delivery with requests := rest, slices := 0 }

def ask (delivery : Delivery) (serial floor : Nat) : Delivery :=
  let delivery := if delivery.requests = [] then { delivery with delivered := floor } else delivery
  { delivery with requests := delivery.requests ++ [⟨serial, floor, 0⟩] }

def outstanding (delivery : Delivery) : List Waiting := delivery.finished ++ delivery.requests

def oldest (delivery : Delivery) : Option Nat := delivery.outstanding.head?.map Waiting.serial

def reading (delivery : Delivery) : Nat :=
  if delivery.requests = [] then delivery.source.seen else delivery.delivered

def keep (delivery : Delivery) : Nat :=
  match delivery.finished with
  | [] => delivery.reading
  | first :: _ => if first.at_ < delivery.reading then first.at_ else delivery.reading

end Delivery

namespace Turn

def note (turn : Turn) (event : Event) : Turn := { turn with events := turn.events ++ [event] }

def update (turn : Turn) (delivery : Delivery) : Turn := { turn with delivery := delivery }

-- The slice at the place where the deliveries are, for the request in front.
def hand (turn : Turn) (front : Waiting) (rest : List Waiting) (next : Nat) : Except Fault Unit × Turn :=
  let delivery := turn.delivery
  let counted := { delivery with slices := saturatingAdd delivery.slices 1, delivered := next }
  match delivery.source.slice delivery.delivered with
  | .error invalid => (.error (.ring invalid), (turn.update counted).note (.handed front.serial delivery.delivered none))
  | .ok slice =>
    if slice.last then
      let popped := counted.popQueue rest
      (.ok (), (turn.update { popped with finished := popped.finished ++ [⟨front.serial, next, counted.slices⟩] }).note
        (.handed front.serial delivery.delivered (some next)))
    else (.ok (), (turn.update counted).note (.handed front.serial delivery.delivered none))

def deliverOne (turn : Turn) : Except Fault Unit × Turn :=
  let delivery := turn.delivery
  match delivery.source.record delivery.delivered with
  | .error invalid => (.error (.ring invalid), turn)
  | .ok (kind, next) =>
    if kind = .slice then
      match delivery.requests with
      | [] => (.ok (), turn.update { delivery with delivered := next })
      | front :: rest => if front.at_ ≤ delivery.delivered then turn.hand front rest next else (.error .earlySlice, turn)
    else (.ok (), turn.update { delivery with delivered := next })

-- The loop of `deliver`. A record is longer than a byte, so the way to `upper` bounds the number of turns.
def deliverFrom (upper : Nat) : Nat → Turn → Except Fault Unit × Turn
  | 0, turn => (.ok (), turn)
  | fuel + 1, turn =>
    if turn.delivery.delivered < upper then
      match turn.deliverOne with
      | (.error fault, turn) => (.error fault, turn)
      | (.ok (), turn) => deliverFrom upper fuel turn
    else (.ok (), turn)

def deliver (turn : Turn) (upper : Nat) : Except Fault Unit × Turn :=
  if turn.delivery.requests = [] then (.ok (), turn)
  else deliverFrom upper (upper - turn.delivery.delivered) turn

def scanSeen (turn : Turn) : Except Fault Nat × Turn :=
  let head := turn.delivery.source.seen
  match turn.deliver head with
  | (.error fault, turn) => (.error fault, turn)
  | (.ok (), turn) =>
    let (advanced, source) := turn.delivery.source.advance head turn.delivery.keep
    match advanced with
    | .error invalid => (.error (.ring invalid), turn.update { turn.delivery with source := source })
    | .ok () => (.ok head, turn.update { turn.delivery with source := source })

def scan (turn : Turn) : Except Fault Nat × Turn := (turn.update turn.delivery.look).scanSeen

def deliverNow (turn : Turn) : Except Fault Unit × Turn :=
  let turn := turn.update turn.delivery.look
  turn.deliver turn.delivery.source.seen

-- The next number, unless the oldest request has the same low half.
def mint (delivery : Delivery) : Option (Nat × Delivery) :=
  match checkedAdd delivery.next 1 with
  | none => none
  | some following =>
    if delivery.oldest.any fun oldest => decide (Req.ofSerial oldest = Req.ofSerial delivery.next) then none
    else some (delivery.next, { delivery with next := following })

def mintSerial (turn : Turn) : Option (Nat × Req) × Turn :=
  match mint turn.delivery with
  | none => (none, turn)
  | some (serial, delivery) => (some (serial, .ofSerial serial), (turn.update delivery).note (.minted serial))

def request (turn : Turn) : Option (Nat × Req) × Turn :=
  let looked := turn.delivery.look
  let floor := looked.source.seen
  match mint looked with
  | none => (none, turn.update looked)
  | some (serial, delivery) =>
    (some (serial, .ofSerial serial), (turn.update (delivery.ask serial floor)).note (.asked serial floor))

def snapshotDone (turn : Turn) (req : Req) : Option Done × Turn :=
  let delivery := turn.delivery
  match delivery.finished, delivery.requests with
  | front :: rest, _ =>
    if Req.ofSerial front.serial = req then
      let done : Done := ⟨front.serial, some front.at_, front.slices⟩
      (some done, (turn.update { delivery with finished := rest }).note (.done done))
    else (none, turn)
  | [], front :: rest =>
    if Req.ofSerial front.serial = req then
      let done : Done := ⟨front.serial, none, 0⟩
      (some done, (turn.update (delivery.popQueue rest)).note (.done done))
    else (none, turn)
  | [], [] => (none, turn)

def failAll (turn : Turn) : List Done × Turn :=
  let dones := turn.delivery.outstanding.map fun waiting : Waiting => (⟨waiting.serial, none, 0⟩ : Done)
  let delivery : Delivery := { turn.delivery with finished := [] }
  let delivery := if delivery.requests = [] then delivery else delivery.popQueue []
  (dones, { delivery := delivery, events := turn.events ++ dones.map .done })

end Turn

-- What the pane process commits, and the calls of the server.
inductive Op where
  | commit (rec : Rec)
  | look
  | request
  | mintSerial
  | scan
  | deliverNow
  | snapshotDone (req : Req)
  | failAll

namespace Turn

def step (turn : Turn) : Op → Turn
  | .commit rec =>
    let log := turn.delivery.source.log ++ [rec]
    if log.head ≤ maxPos then turn.update { turn.delivery with source := { turn.delivery.source with log := log } } else turn
  | .look => turn.update turn.delivery.look
  | .request => turn.request.2
  | .mintSerial => turn.mintSerial.2
  | .scan => turn.scan.2
  | .deliverNow => turn.deliverNow.2
  | .snapshotDone req => (turn.snapshotDone req).2
  | .failAll => turn.failAll.2

def run (ring : Ring) (ops : List Op) : Turn := Shared.run step ⟨.create ring, []⟩ ops

end Turn

end Kido.Delivering

namespace Kido.Delivering

open Kido.Shared Kido.Streaming

theorem recordAt_some {log : Log} {pos : Nat} {rec : Rec} (found : recordAt log pos = some rec) :
    ∃ before, At Rec.size log pos before rec := by
  induction log generalizing pos with
  | nil => cases found
  | cons first rest ih =>
    rw [recordAt] at found
    split at found
    next start =>
      cases found
      exact ⟨[], ⟨⟨rest, rfl⟩, start.symm⟩⟩
    next later =>
      split at found
      · cases found
      next beyond =>
        obtain ⟨before, ⟨tail, same⟩, place⟩ := ih found
        refine ⟨first :: before, ⟨tail, by rw [← same]; rfl⟩, ?_⟩
        rw [← List.singleton_append, total_append, total_single, place]
        omega

theorem boundaryFrom_first (rest : Log) {before : Log} {upto : Nat} (inside : upto ≤ Log.head (before ++ rest)) :
    Reader.First (before ++ rest) (total Rec.size before) upto (boundaryFrom upto rest (total Rec.size before)) := by
  induction rest generalizing before with
  | nil =>
    rw [List.append_nil] at inside ⊢
    exact .here (.end before) inside
  | cons rec rest ih =>
    rw [boundaryFrom]
    split
    next reached => exact .here ⟨before, List.prefix_append _ _, rfl⟩ reached
    next short =>
      have here : At Rec.size (before ++ rec :: rest) (total Rec.size before) before rec := ⟨⟨rest, by simp⟩, rfl⟩
      have later := @ih (before ++ [rec])
      rw [List.append_assoc, total_append, total_single] at later
      exact .step here (Nat.lt_of_not_le short) (later inside)

namespace Source

variable {source : Source} {pos : Nat}

theorem find_some {rec : Rec} (found : source.find pos = some rec) :
    source.tail ≤ pos ∧ pos + rec.size ≤ source.seen ∧ ∃ before, At Rec.size source.log pos before rec := by
  rw [find] at found
  split at found
  next below =>
    obtain ⟨there, within⟩ := Option.filter_eq_some_iff.1 found
    exact ⟨below, of_decide_eq_true within, recordAt_some there⟩
  next => cases found

theorem record_ok {kind : RecordKind} {next : Nat} (ok : source.record pos = .ok (kind, next)) :
    source.tail ≤ pos ∧ pos < next ∧ next ≤ source.seen ∧ Boundary Rec.size source.log next := by
  rw [record] at ok
  split at ok
  next rec found =>
    obtain ⟨below, within, before, here⟩ := find_some found
    cases ok
    exact ⟨below, Nat.lt_add_of_pos_right rec.size_pos, within, here.next⟩
  next => cases ok

theorem advance_source {upper keep : Nat} (seen : upper = source.seen) (known : source.seen ≤ source.log.head)
    (tail : Boundary Rec.size source.log source.tail) :
    (source.advance upper keep).1 = .ok () ∧
      Reader.First source.log source.tail (Reader.retain source.ring upper keep) (source.advance upper keep).2.tail ∧
      (source.advance upper keep).2 = { source with tail := (source.advance upper keep).2.tail } := by
  rw [advance, if_neg (not_not.2 seen)]
  refine ⟨rfl, ?_, ?_⟩
  · simp only
    split
    next short =>
      have inside : Reader.retain source.ring upper keep ≤ Log.head ([] ++ source.log) :=
        Nat.le_trans (Reader.retain_le upper keep) (seen ▸ known)
      obtain ⟨boundary, _, reached, first⟩ := boundaryFrom_first source.log inside
      exact ⟨boundary, Nat.le_trans (Nat.le_of_lt short) reached, reached, fun other there _ after =>
        first other there (Nat.zero_le other) after⟩
    next reached => exact .here tail (Nat.le_of_not_lt reached)
  · simp only
    split <;> rfl

end Source

theorem recordAt_at {log before : Log} {pos : Nat} {rec : Rec} (here : At Rec.size log pos before rec) :
    recordAt log pos = some rec := by
  induction before generalizing log pos with
  | nil =>
    obtain ⟨⟨rest, rfl⟩, rfl⟩ := here
    exact if_pos rfl
  | cons first before ih =>
    obtain ⟨⟨rest, rfl⟩, rfl⟩ := here
    have size := first.size_pos
    have place : total Rec.size (first :: before) = first.size + total Rec.size before := by
      rw [← List.singleton_append, total_append, total_single]
    change recordAt (first :: (before ++ [rec] ++ rest)) _ = _
    rw [recordAt, place, if_neg (by omega), if_neg (by omega), Nat.add_sub_cancel_left]
    exact ih ⟨⟨rest, rfl⟩, rfl⟩

theorem reads_the_log {ring : Ring} {log : Log} {answer : ring.reader.Answer} (faithful : Reader.Faithful log answer) :
    (∀ pos before rec, answer.call = .record pos → At Rec.size log pos before rec → answer.before.tail ≤ pos →
      pos + rec.size ≤ answer.before.seen → ∃ record : Record, answer.reply = .record (.ok record) ∧
        Source.record ⟨ring, log, answer.before.tail, answer.before.seen⟩ pos = .ok (record.kind, record.next)) ∧
    (∀ pos before rec, answer.call = .slice pos → At Rec.size log pos before rec → answer.before.tail ≤ pos →
      pos + rec.size ≤ answer.before.seen →
      answer.reply = .slice (Source.slice ⟨ring, log, answer.before.tail, answer.before.seen⟩ pos)) ∧
    ∀ keep, answer.call = .advance answer.before.seen keep → answer.before.seen ≤ log.head →
      Boundary Rec.size log answer.before.tail →
      answer.after.tail = (Source.advance ⟨ring, log, answer.before.tail, answer.before.seen⟩ answer.before.seen keep).2.tail := by
  have decodes := faithful.decodes
  have found {pos : Nat} {before : Log} {rec : Rec} (here : At Rec.size log pos before rec) (below : answer.before.tail ≤ pos)
      (within : pos + rec.size ≤ answer.before.seen) :
      Source.find ⟨ring, log, answer.before.tail, answer.before.seen⟩ pos = some rec := by
    rw [Source.find, if_pos below]
    simp only [recordAt_at here]
    exact Option.filter_eq_some_iff.2 ⟨rfl, decide_eq_true within⟩
  refine ⟨fun pos before rec call here below within => ?_, fun pos before rec call here below within => ?_,
    fun keep call known tail => ?_⟩
  · rw [Reader.Exact, call] at decodes
    refine ⟨_, decodes before rec here below (Nat.lt_of_lt_of_le (Nat.lt_add_of_pos_right rec.size_pos) within), ?_⟩
    rw [Source.record, found here below within]
  · rw [Reader.Exact, call] at decodes
    rw [decodes before rec here below (Nat.lt_of_lt_of_le (Nat.lt_add_of_pos_right rec.size_pos) within), Source.slice,
      found here below within]
  · rw [Reader.Exact, call] at decodes
    obtain ⟨_, first⟩ := decodes rfl
    obtain ⟨_, other, _⟩ := @Source.advance_source ⟨ring, log, answer.before.tail, answer.before.seen⟩ answer.before.seen keep rfl
      known tail
    exact Nat.le_antisymm (first.first _ other.boundary other.after other.reached)
      (other.first _ first.boundary first.after first.reached)

end Kido.Delivering
