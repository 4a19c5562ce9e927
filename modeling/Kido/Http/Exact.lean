import Kido.Http.Follow

set_option autoImplicit false

namespace Kido.Requesting

open Kido.Shared

variable {parse : Library} (correct : Correct parse)

section Feed

variable {conn : Conn} {reading : Reading}

theorem Failed.open_ {bytes : Bytes} {events : List Event} (failed : Failed parse bytes events) (more : Bytes)
    (correct : Correct parse) (log : List Event) :
    (⟨log, .head bytes⟩ : Reading).bytes parse more = ⟨log, .head (bytes ++ more)⟩ := by
  apply Reading.bytes_head
  intro count _ positive fits head size complete
  cases failed with
  | decided seen later split _ decided other _ _ =>
    rw [split, List.append_assoc, parsed_steady correct decided] at complete
    exact other head size complete
  | full long _ _ => omega

theorem Failed.append {bytes : Bytes} {events : List Event} (failed : Failed parse bytes events) (more : Bytes) :
    Failed parse (bytes ++ more) events := by
  cases failed with
  | decided seen later split fits decided other pair told =>
    exact .decided seen (later ++ more) (by rw [split, List.append_assoc]) fits decided other pair told
  | full long quiet told =>
    refine .full (by rw [List.length_append]; omega) ?_ told
    rw [List.take_append_of_le_length long]
    exact quiet

theorem Done.reading_eta (reading : Reading) {rest : Rest} (same : reading.rest = rest) : reading = ⟨reading.log, rest⟩ := by
  cases reading
  cases same
  rfl

theorem Done.reading_http (done : Done parse conn reading) (reads : conn.readingHttp = true) : conn.buffer.length < maxHead := by
  cases done with
  | waits bytes _ _ _ _ _ buffer _ short => rw [buffer]; exact short
  | inside _ _ _ _ _ _ buffer => rw [buffer]; decide
  | stopped ended => rw [ended] at reads; cases reads
  | failed _ _ _ ended => rw [ended] at reads; cases reads

include correct

theorem feed_done (done : Done parse conn reading) {bytes : Bytes} (room : conn.Room bytes) :
    Done parse (conn.feed parse bytes) (reading.bytes parse bytes) := by
  cases done with
  | waits seen rest isOpen eof log phase buffer scanned short quiet =>
    have reads : conn.readingHttp = true := by simp [Conn.readingHttp, isOpen, eof, phase]
    have fits := room reads
    have at_ : reading = (⟨reading.log, .head []⟩ : Reading).bytes parse seen := by
      rw [bytes_open correct (quiet.not_complete correct)]
      exact Done.reading_eta reading rest
    have follows : Follows parse { conn with buffer := conn.buffer ++ bytes } ⟨reading.log, .head []⟩ := by
      refine ⟨isOpen, eof, log, congrArg Phase.rest phase, ?_, ?_, ?_, ?_, fun other => absurd phase other⟩
      · show conn.phase.Sound
        rw [phase]
        trivial
      · rw [List.length_append]
        exact fits
      · rw [scanned, buffer, List.length_append]
        omega
      · dsimp only
        rw [scanned, buffer, List.take_left]
        exact quiet
    have done := serve_done correct follows (weight_lt_turns _)
    rw [Conn.feed, if_pos reads]
    rw [at_, ← Reading.bytes_append, ← buffer]
    exact done
  | inside isOpen eof log rest sound other buffer scanned =>
    have reads : conn.readingHttp = true := by
      simp only [Conn.readingHttp, isOpen, eof, Bool.not_false, Bool.and_self, Bool.true_and]
      cases phase : conn.phase with
      | closing =>
        rw [phase] at sound
        exact sound.elim
      | head => rfl
      | body head body length => rfl
      | oversized head seen length => rfl
    have fits := room reads
    have follows : Follows parse { conn with buffer := conn.buffer ++ bytes } reading :=
      .fresh_scan isOpen eof log rest sound (by rw [List.length_append]; exact fits) scanned
    have done := serve_done correct follows (weight_lt_turns _)
    rw [Conn.feed, if_pos reads]
    simp only [buffer, List.nil_append] at done ⊢
    exact done
  | stopped ended eof log rest =>
    rw [Conn.feed, if_neg (by rw [ended]; exact Bool.false_ne_true), Done.reading_eta reading rest, Reading.bytes_stopped]
    exact .stopped ended eof log rfl
  | failed seen events rest ended eof log why =>
    rw [Conn.feed, if_neg (by rw [ended]; exact Bool.false_ne_true), Done.reading_eta reading rest, why.open_ bytes correct]
    exact .failed _ events rfl ended eof log (why.append bytes)

theorem run_done {reads : List Bytes} (done : Done parse conn reading) (allowed : AllAllowed (Conn.feed parse) Conn.Room conn reads) :
    Done parse (run (Conn.feed parse) conn reads) (reading.bytes parse reads.flatten) := by
  induction reads generalizing conn reading with
  | nil => exact done
  | cons bytes reads ih =>
    rw [List.flatten_cons, Reading.bytes_append]
    exact ih (feed_done correct done allowed.1) allowed.2

end Feed

theorem new_done : Done parse Conn.new Reading.start :=
  .waits [] rfl rfl rfl rfl rfl rfl rfl (by decide) quiet_nil

def undecided (closes : Bool) (bytes : Bytes) : List Event :=
  if maxHead ≤ bytes.length then [.refused .headTooLarge] else if closes = true ∧ bytes ≠ [] then [.closed] else []

inductive Tail (parse : Library) (closes : Bool) : Rest → List Event → Prop where
  | stopped : Tail parse closes .stopped []
  | body (head : Head) (body : Bytes) (length : Nat) : Tail parse closes (.body head body length) (if closes then [.closed] else [])
  | skip (head : Option Head) (seen length : Nat) : Tail parse closes (.skip head seen length) (if closes then [.closed] else [])
  | decided (bytes : Bytes) (pair : ∃ place, Pair (bytes.take maxHead) place)
      (decided : parsed parse (bytes.take maxHead) ≠ .more) :
      Tail parse closes (.head bytes) (parsed parse (bytes.take maxHead)).events
  | undecided (bytes : Bytes) (quiet : Quiet parse (bytes.take maxHead)) : Tail parse closes (.head bytes) (undecided closes bytes)

theorem Failed.tail (correct : Correct parse) (closes : Bool) {bytes : Bytes} {events : List Event} (failed : Failed parse bytes events) :
    Tail parse closes (.head bytes) events := by
  cases failed with
  | decided seen later split fits decided other pair told =>
    have parts : bytes.take maxHead = seen ++ later.take (maxHead - seen.length) := by
      rw [split, List.take_append, List.take_of_length_le fits]
    have same := parsed_steady correct decided (later.take (maxHead - seen.length))
    rw [← parts] at same
    rw [told, ← same]
    obtain ⟨place, pair⟩ := pair
    exact .decided bytes ⟨place, parts ▸ pair_append _ pair⟩ (same ▸ decided)
  | full long quiet told =>
    have whole := @Tail.undecided parse closes bytes quiet
    rw [undecided, if_pos long] at whole
    rw [told]
    exact whole

section Finish

variable {conn : Conn} {reading : Reading}

theorem undecided_nil (closes : Bool) : undecided closes [] = [] := by
  rw [undecided, if_neg (by decide), if_neg (by simp)]

theorem undecided_open {bytes : Bytes} (short : bytes.length < maxHead) : undecided false bytes = [] := by
  rw [undecided, if_neg (by omega), if_neg (by simp)]

theorem undecided_closes {bytes : Bytes} (short : bytes.length < maxHead) (some_ : bytes ≠ []) : undecided true bytes = [.closed] := by
  rw [undecided, if_neg (by omega), if_pos ⟨rfl, some_⟩]

theorem parseHead_again {bytes : Bytes} (quiet : Quiet parse bytes) (short : bytes.length < maxHead) :
    parseHead parse bytes bytes.length = .more := by
  have none_ : (if ended (bytes.drop (bytes.length - 2)) then parsed parse bytes else .more) = .more := by
    by_cases pair : ended (bytes.drop (bytes.length - 2)) = true
    · rw [if_pos pair]
      obtain ⟨place, unseen, pair⟩ := (ended_drop_iff bytes bytes.length).1 pair
      by_contra decided
      have late := (quiet place pair decided).1
      omega
    · rw [if_neg pair]
  rw [parseHead, none_]
  dsimp only
  rw [if_neg (by omega)]

theorem finish_back {next : Conn} (reads : conn.readingHttp = true) (back : turn parse { conn with eof := true } = .back none next) :
    conn.finish parse = next := by
  have isOpen : conn.isOpen = true := by
    simp only [Conn.readingHttp, Bool.and_eq_true] at reads
    exact reads.1.1
  have turns : ({ conn with eof := true } : Conn).turns = 2 * conn.buffer.length + 3 + 1 := rfl
  rw [Conn.finish, if_pos reads]
  dsimp only
  rw [turns, Conn.serve, turns, nextRequest, if_pos isOpen, back]

theorem Done.finish_inside (eof : conn.eof = false) (sound : conn.phase.Sound) (isOpen : conn.isOpen = true)
    (other : conn.phase ≠ .head) (buffer : conn.buffer = []) : (conn.finish parse).log = conn.log ++ [.closed] := by
  cases phase : conn.phase with
  | closing =>
    rw [phase] at sound
    exact sound.elim
  | head => exact absurd phase other
  | body head body length =>
    rw [phase] at sound
    have short : body.length < length := sound
    rw [@finish_back parse conn (({ conn with eof := true } : Conn).close) (by simp [Conn.readingHttp, isOpen, eof, phase]) ?_]
    · rfl
    · simp [turn, phase, bodyTurn, buffer, short, Conn.close]
  | oversized head seen length =>
    rw [phase] at sound
    obtain ⟨short, told, -⟩ : seen < length ∧ (maxBody < seen → head = none) ∧ maxBody < length := sound
    have ready : (if maxBody < seen then head else none) = none := by
      by_cases late : maxBody < seen
      · rw [if_pos late, told late]
      · rw [if_neg late]
    have kept : (if maxBody < seen then none else head) = head := by
      by_cases late : maxBody < seen
      · rw [if_pos late, told late]
      · rw [if_neg late]
    rw [@finish_back parse conn (({ conn with eof := true } : Conn).close) (by simp [Conn.readingHttp, isOpen, eof, phase]) ?_]
    · rfl
    · simp [turn, phase, oversizedTurn, buffer, Nat.ne_of_lt short, ready, kept, Conn.close]

theorem finish_ended (ended : conn.readingHttp = false) : conn.finish parse = conn := by
  rw [Conn.finish, if_neg (by rw [ended]; exact Bool.false_ne_true)]

structure Waits (conn : Conn) (log : List Event) (buffer : Bytes) : Prop where
  isOpen : conn.isOpen = true
  eof : conn.eof = false
  phase : conn.phase = .head
  log : conn.log = log
  buffer : conn.buffer = buffer
  scanned : conn.scanned = conn.buffer.length

theorem Waits.reads {log : List Event} {seen : Bytes} (waits : Waits conn log seen) : conn.readingHttp = true := by
  simp [Conn.readingHttp, waits.isOpen, waits.eof, waits.phase]

theorem Waits.finish {log : List Event} {seen : Bytes} (waits : Waits conn log seen) (closes : Bool) (quiet : Quiet parse seen)
    (short : seen.length < maxHead) : (if closes then conn.finish parse else conn).log = log ++ undecided closes seen := by
  have reads := waits.reads
  obtain ⟨isOpen, eof, phase, log, buffer, scanned⟩ := waits
  cases closes with
  | false => rw [if_neg Bool.false_ne_true, undecided_open short, List.append_nil, log]
  | true =>
    rw [if_pos rfl]
    by_cases empty : seen = []
    · rw [@finish_back parse conn { conn with eof := true, phase := .closing } reads ?_, empty, undecided_nil, List.append_nil]
      · exact log
      · simp [turn, phase, headTurn, buffer, empty]
    · rw [@finish_back parse conn (({ conn with eof := true, scanned := seen.length } : Conn).close) reads ?_,
        undecided_closes short empty, ← log]
      · rfl
      · simp only [turn, phase, headTurn, scanned, buffer, if_neg empty]
        rw [parseHead_again quiet short]
        simp [Conn.close]

theorem Done.finish (done : Done parse conn reading) (correct : Correct parse) (closes : Bool) :
    ∃ tail, (if closes then conn.finish parse else conn).log = reading.log ++ tail ∧ Tail parse closes reading.rest tail := by
  cases done with
  | waits bytes rest isOpen eof log phase buffer scanned short quiet =>
    have whole : bytes.take maxHead = bytes := List.take_of_length_le (by omega)
    have tail := @Tail.undecided parse closes bytes (whole.symm ▸ quiet)
    have waits : Waits conn reading.log bytes := ⟨isOpen, eof, phase, log, buffer, by rw [scanned, buffer]⟩
    exact ⟨undecided closes bytes, waits.finish closes quiet short, rest.symm ▸ tail⟩
  | inside isOpen eof log rest sound other buffer scanned =>
    have closing : (if closes then conn.finish parse else conn).log = reading.log ++ if closes then [.closed] else [] := by
      cases closes with
      | false => rw [if_neg Bool.false_ne_true, if_neg Bool.false_ne_true, List.append_nil, log]
      | true => rw [if_pos rfl, if_pos rfl, finish_inside eof sound isOpen other buffer, log]
    refine ⟨_, closing, ?_⟩
    rw [← rest]
    cases phase : conn.phase with
    | closing =>
      rw [phase] at sound
      exact sound.elim
    | head => exact absurd phase other
    | body head body length => exact .body head body length
    | oversized head seen length => exact .skip head seen length
  | stopped ended eof log rest =>
    refine ⟨[], ?_, rest.symm ▸ .stopped⟩
    rw [finish_ended ended, ite_self, List.append_nil, log]
  | failed bytes events rest ended eof log why =>
    refine ⟨events, ?_, rest.symm ▸ why.tail correct closes⟩
    rw [finish_ended ended, ite_self, log]

end Finish

-- What comes of a stream that is cut: what its bytes say one by one, and then what may come of a head that is not complete.
theorem events_tail (correct : Correct parse) (closes : Bool) {stream : Bytes} {reads : List Bytes} (cut : Cut parse stream reads) :
    ∃ tail, events parse closes reads = (Reading.start.bytes parse stream).log ++ tail ∧
      Tail parse closes (Reading.start.bytes parse stream).rest tail := by
  have done := run_done correct new_done cut.room
  rw [cut.whole] at done
  exact done.finish correct closes

end Kido.Requesting

namespace Kido.Requesting

open Kido.Shared

def Event.request? : Event → Option Request
  | .request whole => some whole
  | .refused _ | .closed => none

def requests (events : List Event) : List Request := events.filterMap Event.request?

@[simp]
theorem requests_append (first second : List Event) : requests (first ++ second) = requests first ++ requests second :=
  List.filterMap_append

@[simp]
theorem requests_nil : requests [] = [] := rfl

@[simp]
theorem requests_request (request : Request) : requests [.request request] = [request] := rfl

@[simp]
theorem requests_refused (refusal : Refusal) : requests [.refused refusal] = [] := rfl

structure Text (parse : Library) (text : Bytes) (head : Head) : Prop where
  complete : parsed parse text = .complete head text.length
  fits : text.length ≤ maxHead

inductive Whole (parse : Library) : Bytes → List Request → Prop where
  | nil : Whole parse [] []
  | body (before text body : Bytes) (requests : List Request) (head : Head) (whole : Whole parse before requests)
      (isHead : Text parse text head) (framing : head.framing = .length body.length) :
      Whole parse (before ++ text ++ body) (requests ++ [⟨head, .bytes body⟩])
  | oversized (before text skipped : Bytes) (requests : List Request) (head : Head) (whole : Whole parse before requests)
      (isHead : Text parse text head) (framing : head.framing = .oversized skipped.length) :
      Whole parse (before ++ text ++ skipped) (requests ++ [⟨head, .oversized⟩])

-- The request that is told when that many bytes of its body were skipped.
def toldOf (head : Head) (skipped : Nat) : List Request := if maxBody < skipped then [⟨head, .oversized⟩] else []

-- A stream is whole requests, and behind them a request that is not whole.
inductive Exact (parse : Library) (stream : Bytes) (requests : List Request) : Rest → Prop where
  | head (before bytes : Bytes) (split : stream = before ++ bytes) (whole : Whole parse before requests)
      (none_ : ∀ count ≤ maxHead, ∀ head size, parsed parse (bytes.take count) ≠ .complete head size) :
      Exact parse stream requests (.head bytes)
  | body (before text body : Bytes) (head : Head) (length : Nat) (split : stream = before ++ text ++ body)
      (whole : Whole parse before requests) (isHead : Text parse text head) (framing : head.framing = .length length)
      (part : body.length < length) : Exact parse stream requests (.body head body length)
  | skip (before text skipped : Bytes) (earlier : List Request) (head : Head) (length : Nat) (told : Option Head)
      (split : stream = before ++ text ++ skipped) (whole : Whole parse before earlier) (isHead : Text parse text head)
      (framing : head.framing = .oversized length) (part : skipped.length < length)
      (same : requests = earlier ++ toldOf head skipped.length) (once : told = if maxBody < skipped.length then none else some head) :
      Exact parse stream requests (.skip told skipped.length length)
  | stopped (before text later : Bytes) (head : Head) (split : stream = before ++ text ++ later) (whole : Whole parse before requests)
      (isHead : Text parse text head) (framing : head.framing = .chunked ∨ head.framing = .invalid) :
      Exact parse stream requests .stopped

section Byte

variable {parse : Library} {stream : Bytes} {log : List Event}

theorem Exact.whole {stream : Bytes} {requests : List Request} (correct : Correct parse) (whole : Whole parse stream requests) :
    Exact parse stream requests (.head []) := by
  refine .head stream [] (List.append_nil stream).symm whole ?_
  intro count _ head size complete
  rw [List.take_nil] at complete
  obtain ⟨_, own, -, before, line⟩ := parsed_complete correct complete
  rw [List.take_nil] at line
  simp at line

theorem Exact.begun {before text : Bytes} {head : Head} (correct : Correct parse) (whole : Whole parse before (requests log))
    (isHead : Text parse text head) :
    Exact parse (before ++ text) (requests (Reading.begun log head).log) (Reading.begun log head).rest := by
  have split : before ++ text = before ++ text ++ [] := (List.append_nil _).symm
  rw [Reading.begun]
  cases framing : head.framing with
  | chunked =>
    simp only [requests_append, requests_refused, List.append_nil]
    exact .stopped before text [] head split whole isHead (.inl framing)
  | invalid =>
    simp only [requests_append, requests_refused, List.append_nil]
    exact .stopped before text [] head split whole isHead (.inr framing)
  | length length =>
    cases length with
    | zero =>
      simp only [requests_append, requests_request]
      have next := Whole.body before text [] _ head whole isHead framing
      rw [List.append_nil] at next
      exact .whole correct next
    | succ length => exact .body before text [] head (length + 1) split whole isHead framing (Nat.succ_pos length)
  | oversized length =>
    have long := Head.oversized_length framing
    refine .skip before text [] (requests log) head length (some head) split whole isHead framing ?_ ?_ rfl
    · rw [List.length_nil]
      omega
    · simp [toldOf]

theorem Exact.byte {reading : Reading} (correct : Correct parse) (exact : Exact parse stream (requests reading.log) reading.rest)
    (byte : UInt8) :
    Exact parse (stream ++ [byte]) (requests (reading.byte parse byte).log) (reading.byte parse byte).rest := by
  obtain ⟨log, rest⟩ := reading
  dsimp only at exact
  cases exact with
  | head before bytes split whole none_ =>
    have longer : stream ++ [byte] = before ++ (bytes ++ [byte]) := by rw [split, List.append_assoc]
    have grown (open_ : ∀ head size, bytes.length + 1 ≤ maxHead → parsed parse (bytes ++ [byte]) ≠ .complete head size) :
        Exact parse (stream ++ [byte]) (requests log) (.head (bytes ++ [byte])) := by
      refine .head before (bytes ++ [byte]) longer whole ?_
      intro count fits head size
      by_cases all : count ≤ bytes.length
      · rw [List.take_append_of_le_length all]
        exact none_ count fits head size
      · rw [List.take_of_length_le (by rw [List.length_append, List.length_singleton]; omega)]
        exact open_ head size (by omega)
    rw [Reading.byte]
    dsimp only
    cases found : parsed parse (bytes ++ [byte]) with
    | complete head size =>
      dsimp only
      by_cases fits : bytes.length + 1 ≤ maxHead
      · rw [if_pos fits, longer]
        refine .begun correct whole ⟨?_, by rw [List.length_append]; exact fits⟩
        obtain ⟨small, own, -⟩ := parsed_complete correct found
        rw [List.length_append, List.length_singleton] at small
        -- A shorter head would have been complete before this byte.
        have last : size = (bytes ++ [byte]).length := by
          rw [List.length_append, List.length_singleton]
          by_contra shorter
          rw [List.take_append_of_le_length (by omega)] at own
          exact none_ size (by omega) head size own
        rw [← last]
        exact found
      · rw [if_neg fits]
        exact grown fun _ _ small => absurd small fits
    | more => exact grown fun _ _ _ => by rw [found]; exact fun no => by cases no
    | badLine => exact grown fun _ _ _ => by rw [found]; exact fun no => by cases no
    | invalid => exact grown fun _ _ _ => by rw [found]; exact fun no => by cases no
    | tooLarge => exact grown fun _ _ _ => by rw [found]; exact fun no => by cases no
  | body before text body head length split whole isHead framing part =>
    have longer : stream ++ [byte] = before ++ text ++ (body ++ [byte]) := by rw [split, List.append_assoc]
    rw [Reading.byte]
    dsimp only
    by_cases last : body.length + 1 = length
    · rw [if_pos last, longer]
      simp only [requests_append, requests_request]
      refine .whole correct (.body before text (body ++ [byte]) _ head whole isHead ?_)
      rw [framing, List.length_append, List.length_singleton, last]
    · rw [if_neg last]
      refine .body before text (body ++ [byte]) head length longer whole isHead framing ?_
      rw [List.length_append, List.length_singleton]
      omega
  | skip before text skipped earlier head length told split whole isHead framing part same once =>
    have longer : stream ++ [byte] = before ++ text ++ (skipped ++ [byte]) := by rw [split, List.append_assoc]
    have count : (skipped ++ [byte]).length = skipped.length + 1 := List.length_append
    have long := Head.oversized_length framing
    have now : requests (Reading.refusing log told (skipped.length + 1)) = earlier ++ toldOf head (skipped ++ [byte]).length := by
      rw [Reading.refusing, toldOf, count, once]
      rw [toldOf] at same
      by_cases late : maxBody < skipped.length
      · have later : maxBody < skipped.length + 1 := by omega
        simp only [if_pos late, if_pos later, Option.toList_none, List.map_nil, List.append_nil] at same ⊢
        exact same
      · rw [if_neg late, List.append_nil] at same
        by_cases later : maxBody < skipped.length + 1
        · simp only [if_pos later, if_neg late, Option.toList_some, List.map_cons, List.map_nil, requests_append, requests_request]
          rw [same]
        · rw [if_neg later, if_neg later, List.append_nil]
          exact same
    rw [Reading.byte]
    dsimp only
    rw [now]
    by_cases last : skipped.length + 1 = length
    · rw [if_pos last, longer, toldOf, count, if_pos (by omega)]
      refine .whole correct (.oversized before text (skipped ++ [byte]) earlier head whole isHead ?_)
      rw [framing, count, last]
    · rw [if_neg last, ← count]
      refine .skip before text (skipped ++ [byte]) earlier head length _ longer whole isHead framing (by omega) rfl ?_
      rw [count, once]
      by_cases late : maxBody < skipped.length
      · have later : maxBody < skipped.length + 1 := by omega
        rw [if_pos late, ite_self, if_pos later]
      · rw [if_neg late]
  | stopped before text later head split whole isHead framing =>
    rw [Reading.byte]
    exact .stopped before text (later ++ [byte]) head (by rw [split, List.append_assoc]) whole isHead framing

theorem Exact.bytes (correct : Correct parse) (stream : Bytes) :
    Exact parse stream (requests (Reading.start.bytes parse stream).log) (Reading.start.bytes parse stream).rest := by
  induction stream using List.reverseRecOn with
  | nil => exact .whole correct .nil
  | append_singleton stream last ih =>
    rw [Reading.bytes_snoc]
    exact ih.byte correct last

end Byte

theorem Tail.requests {parse : Library} {closes : Bool} {rest : Rest} {events : List Event} (tail : Tail parse closes rest events) :
    requests events = [] := by
  cases tail with
  | stopped => rfl
  | body => cases closes <;> rfl
  | skip => cases closes <;> rfl
  | decided bytes _ _ => cases parsed parse (bytes.take maxHead) <;> rfl
  | undecided bytes _ =>
    rw [Requesting.undecided]
    split
    · rfl
    · split <;> rfl

theorem events_exact {parse : Library} (correct : Correct parse) (closes : Bool) {stream : Bytes} {reads : List Bytes}
    (cut : Cut parse stream reads) : ∃ rest, Exact parse stream (requests (events parse closes reads)) rest := by
  obtain ⟨tail, same, after⟩ := events_tail correct closes cut
  refine ⟨(Reading.start.bytes parse stream).rest, ?_⟩
  rw [same, requests_append, after.requests, List.append_nil]
  exact .bytes correct stream

end Kido.Requesting
