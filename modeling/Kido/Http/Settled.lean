import Kido.Http.Exact

set_option autoImplicit false

namespace Kido.Requesting

open Kido.Shared

variable {parse : Library}

def Independent (parse : Library) (closes : Bool) (stream : Bytes) : Prop :=
  ∀ first second, Cut parse stream first → Cut parse stream second → events parse closes first = events parse closes second

structure Ending (parse : Library) (stream bytes : Bytes) : Prop where
  behind : ∃ before requests, stream = before ++ bytes ∧ Whole parse before requests
  none_ : ∀ count ≤ maxHead, ∀ head size, parsed parse (bytes.take count) ≠ .complete head size

-- The bytes are decided, or not, by all cuts alike: they are the beginning of a head, they are never looked at, they are looked at
-- when they are decided, or what comes of them is the same when they are not.
def Alike (parse : Library) (closes : Bool) (bytes : Bytes) : Prop :=
  parsed parse (bytes.take maxHead) = .more ∨
  (∀ place, ¬Pair (bytes.take maxHead) place) ∨
  (∃ place, Pair (bytes.take maxHead) place ∧ parsed parse ((bytes.take maxHead).take (place + 3)) ≠ .more) ∨
  (parsed parse (bytes.take maxHead) = .badLine ∧ closes = true ∧ bytes.length < maxHead) ∨
  (parsed parse (bytes.take maxHead) = .tooLarge ∧ maxHead ≤ bytes.length)

def Settled (parse : Library) (closes : Bool) (stream : Bytes) : Prop :=
  ∀ bytes, Ending parse stream bytes → Alike parse closes bytes

section Alike

variable {closes : Bool} {bytes : Bytes}

theorem Alike.events (alike : Alike parse closes bytes) (pair : ∃ place, Pair (bytes.take maxHead) place)
    (decided : parsed parse (bytes.take maxHead) ≠ .more) (quiet : Quiet parse (bytes.take maxHead)) :
    (parsed parse (bytes.take maxHead)).events = undecided closes bytes := by
  obtain more | none_ | ⟨place, here, early⟩ | ⟨badLine, closed, short⟩ | ⟨tooLarge, long⟩ := alike
  · exact absurd more decided
  · obtain ⟨place, here⟩ := pair
    exact absurd here (none_ place)
  · exact absurd (quiet place here decided).2 early
  · have some_ : bytes ≠ [] := by
      rintro rfl
      obtain ⟨place, here⟩ := pair
      exact absurd here.1 (by simp)
    rw [badLine, closed, undecided_closes short some_]
    rfl
  · rw [tooLarge, undecided, if_pos long]
    rfl

theorem Alike.tail_unique (alike : Alike parse closes bytes) {first second : List Event} (one : Tail parse closes (.head bytes) first)
    (other : Tail parse closes (.head bytes) second) : first = second := by
  cases one with
  | decided _ pair decided =>
    cases other with
    | decided => rfl
    | undecided _ quiet => exact alike.events pair decided quiet
  | undecided _ quiet =>
    cases other with
    | decided _ pair decided => exact (alike.events pair decided quiet).symm
    | undecided => rfl

theorem Tail.unique {rest : Rest} (alike : ∀ bytes, rest = .head bytes → Alike parse closes bytes) {first second : List Event}
    (one : Tail parse closes rest first) (other : Tail parse closes rest second) : first = second := by
  cases rest with
  | head bytes => exact (alike bytes rfl).tail_unique one other
  | body head body length =>
    cases one
    cases other
    rfl
  | skip head seen length =>
    cases one
    cases other
    rfl
  | stopped =>
    cases one
    cases other
    rfl

theorem Settled.independent (correct : Correct parse) {stream : Bytes} (settled : Settled parse closes stream) :
    Independent parse closes stream := by
  intro first second one other
  obtain ⟨tail, same, after⟩ := events_tail correct closes one
  obtain ⟨tail', same', after'⟩ := events_tail correct closes other
  have alike (bytes : Bytes) (rest : (Reading.start.bytes parse stream).rest = .head bytes) : Alike parse closes bytes := by
    have exact_ := Exact.bytes correct stream
    rw [rest] at exact_
    cases exact_ with
    | head before _ split whole none_ => exact settled bytes ⟨⟨before, _, split, whole⟩, none_⟩
  rw [same, same', after.unique alike after']

end Alike

section Waits

variable {conn : Conn} {log : List Event} {seen bytes : Bytes}

theorem Waits.turn (waits : Waits conn log seen) :
    turn parse { conn with buffer := conn.buffer ++ bytes } = headTurn parse ⟨seen ++ bytes, seen.length, false, .head, true, log⟩ := by
  have same : ({ conn with buffer := conn.buffer ++ bytes } : Conn) = ⟨seen ++ bytes, seen.length, false, .head, true, log⟩ := by
    rw [Conn.mk.injEq]
    exact ⟨by rw [waits.buffer], by rw [waits.scanned, waits.buffer], waits.eof, waits.phase, waits.isOpen, waits.log⟩
  rw [same]
  rfl

theorem Waits.feed_more (waits : Waits conn log seen) (some_ : bytes ≠ [])
    (more : parseHead parse (seen ++ bytes) seen.length = .more) : Waits (conn.feed parse bytes) log (seen ++ bytes) := by
  have turns : ({ conn with buffer := conn.buffer ++ bytes } : Conn).turns = 2 * (conn.buffer ++ bytes).length + 3 + 1 := rfl
  have fed : conn.feed parse bytes = ⟨seen ++ bytes, (seen ++ bytes).length, false, .head, true, log⟩ := by
    rw [Conn.feed, if_pos waits.reads]
    dsimp only
    rw [turns, Conn.serve, turns, nextRequest, if_pos waits.isOpen, waits.turn, headTurn]
    dsimp only
    rw [if_neg (by simp [some_]), more]
    rfl
  rw [fed]
  exact ⟨rfl, rfl, rfl, rfl, rfl, rfl⟩

theorem Waits.feed_decided (waits : Waits conn log seen) (some_ : bytes ≠ []) {found : Parsed}
    (parses : parseHead parse (seen ++ bytes) seen.length = found) (decided : found ≠ .more)
    (other : ∀ head size, found ≠ .complete head size) :
    (conn.feed parse bytes).readingHttp = false ∧ (conn.feed parse bytes).log = log ++ found.events := by
  have turns : ({ conn with buffer := conn.buffer ++ bytes } : Conn).turns = 2 * (conn.buffer ++ bytes).length + 3 + 1 := rfl
  have ends (next : Conn) (ended : next.readingHttp = false) (eof : next.eof = false)
      (back : headTurn parse ⟨seen ++ bytes, seen.length, false, .head, true, log⟩ = .again next) : conn.feed parse bytes = next := by
    rw [Conn.feed, if_pos waits.reads]
    dsimp only
    rw [turns, Conn.serve, turns, nextRequest, if_pos waits.isOpen, waits.turn, back]
    dsimp only
    rw [nextRequest_ended ended eof]
  cases found with
  | more => exact absurd rfl decided
  | complete head size => exact absurd rfl (other head size)
  | badLine =>
    rw [ends (Conn.close ⟨seen ++ bytes, (seen ++ bytes).length, false, .head, true, log⟩) rfl rfl ?_]
    · exact ⟨rfl, rfl⟩
    · rw [headTurn]
      dsimp only
      rw [if_neg (by simp [some_]), parses]
  | invalid =>
    rw [ends (Conn.closeWith ⟨seen ++ bytes, (seen ++ bytes).length, false, .head, true, log⟩ .badRequest) rfl rfl ?_]
    · exact ⟨rfl, rfl⟩
    · rw [headTurn]
      dsimp only
      rw [if_neg (by simp [some_]), parses]
  | tooLarge =>
    rw [ends (Conn.closeWith ⟨seen ++ bytes, (seen ++ bytes).length, false, .head, true, log⟩ .headTooLarge) rfl rfl ?_]
    · exact ⟨rfl, rfl⟩
    · rw [headTurn]
      dsimp only
      rw [if_neg (by simp [some_]), parses]

end Waits

section Reads

def singles (bytes : Bytes) : List Bytes := bytes.map fun byte => [byte]

variable {conn : Conn} {reading : Reading}

theorem singles_flatten (bytes : Bytes) : (singles bytes).flatten = bytes := by
  induction bytes with
  | nil => rfl
  | cons first rest ih => exact congrArg (first :: ·) ih

theorem singles_some (bytes : Bytes) : [] ∉ singles bytes := by
  simp [singles]

theorem singles_append (first second : Bytes) : singles (first ++ second) = singles first ++ singles second := List.map_append

theorem singles_room (correct : Correct parse) (done : Done parse conn reading) (bytes : Bytes) :
    AllAllowed (Conn.feed parse) Conn.Room conn (singles bytes) := by
  induction bytes generalizing conn reading with
  | nil => trivial
  | cons first rest ih =>
    have room : conn.Room [first] := done.reading_http
    exact ⟨room, ih (feed_done correct done room)⟩

theorem run_ended (ended : conn.readingHttp = false) (reads : List Bytes) : run (Conn.feed parse) conn reads = conn := by
  induction reads with
  | nil => rfl
  | cons bytes reads ih =>
    have fed : conn.feed parse bytes = conn := by rw [Conn.feed, if_neg (by rw [ended]; exact Bool.false_ne_true)]
    rw [run, List.foldl_cons, fed]
    exact ih

theorem ended_room (ended : conn.readingHttp = false) (reads : List Bytes) :
    AllAllowed (Conn.feed parse) Conn.Room conn reads := by
  induction reads with
  | nil => trivial
  | cons bytes reads ih =>
    have fed : conn.feed parse bytes = conn := by rw [Conn.feed, if_neg (by rw [ended]; exact Bool.false_ne_true)]
    refine ⟨fun reads => ?_, by rw [fed]; exact ih⟩
    rw [ended] at reads
    cases reads

theorem Done.fresh {log : List Event} (done : Done parse conn ⟨log, .head []⟩) : Waits conn log [] := by
  cases done with
  | waits bytes rest isOpen eof told phase buffer scanned =>
    cases rest
    exact ⟨isOpen, eof, phase, told, buffer, by rw [scanned, buffer]⟩
  | inside isOpen eof told rest sound other =>
    cases phase : conn.phase with
    | head => exact absurd phase other
    | closing =>
      rw [phase] at rest
      cases rest
    | body head body length =>
      rw [phase] at rest
      cases rest
    | oversized head seen length =>
      rw [phase] at rest
      cases rest
  | stopped _ _ _ rest => cases rest
  | failed bytes events rest _ _ _ why =>
    cases rest
    cases why with
    | decided seen later split _ _ _ pair =>
      obtain ⟨place, pair⟩ := pair
      have fits := pair.fits
      have count := congrArg List.length split
      rw [List.length_append, List.length_nil] at count
      omega
    | full long => exact absurd long (by decide)

end Reads

section Whole

theorem Whole.reading (correct : Correct parse) {stream : Bytes} {requests : List Request} (whole : Whole parse stream requests) :
    ∃ log, Reading.start.bytes parse stream = ⟨log, .head []⟩ := by
  induction whole with
  | nil => exact ⟨[], rfl⟩
  | body before text body requests head _ isHead framing ih =>
    obtain ⟨log, ih⟩ := ih
    rw [Reading.bytes_append, Reading.bytes_append, ih, Reading.bytes_complete correct isHead.fits isHead.complete, Reading.begun, framing]
    cases body with
    | nil => exact ⟨_, rfl⟩
    | cons first rest => exact ⟨_, Reading.bytes_whole_body head [] (first :: rest) _ (Nat.succ_pos _) (Nat.zero_add _)⟩
  | oversized before text skipped requests head _ isHead framing ih =>
    obtain ⟨log, ih⟩ := ih
    have long := Head.oversized_length framing
    have skips := @Reading.bytes_skip parse log (some head) 0 skipped.length skipped (by omega)
      (fun past => absurd past (Nat.not_lt_zero _)) (by omega)
    rw [Reading.bytes_append, Reading.bytes_append, ih, Reading.bytes_complete correct isHead.fits isHead.complete, Reading.begun, framing]
    dsimp only
    rw [skips, if_pos (Nat.zero_add _)]
    exact ⟨_, rfl⟩

end Whole

section Apart

variable {closes : Bool} {stream bytes before : Bytes} {log : List Event}

theorem not_alike (correct : Correct parse) (apart : ¬Alike parse closes bytes) :
    (∃ place, Pair (bytes.take maxHead) place) ∧ Quiet parse (bytes.take maxHead) ∧ parsed parse (bytes.take maxHead) ≠ .more ∧
      (parsed parse (bytes.take maxHead)).events ≠ undecided closes bytes := by
  simp only [Alike, not_or, not_forall, not_exists, not_and, not_not] at apart
  obtain ⟨decided, pair, late, badLine, tooLarge⟩ := apart
  have quiet : Quiet parse (bytes.take maxHead) := by
    intro place pair _
    refine ⟨?_, late place pair⟩
    by_contra short
    have more := late place pair
    rw [List.take_of_length_le (by omega)] at more
    exact decided more
  refine ⟨pair, quiet, decided, ?_⟩
  rw [undecided]
  cases found : parsed parse (bytes.take maxHead) with
  | more => exact absurd found decided
  | complete head size => exact absurd found (quiet.not_complete correct head size)
  | invalid => split <;> (try split) <;> simp [Parsed.events]
  | badLine =>
    by_cases long : maxHead ≤ bytes.length
    · simp [long, Parsed.events]
    · have stays : closes ≠ true := fun closed => badLine found closed (by omega)
      simp [long, stays, Parsed.events]
  | tooLarge =>
    have short : ¬maxHead ≤ bytes.length := fun long => tooLarge found long
    rw [if_neg short]
    split <;> simp [Parsed.events]

theorem read_whole (correct : Correct parse) (front : Reading.start.bytes parse before = ⟨log, .head []⟩)
    (pair : ∃ place, Pair (bytes.take maxHead) place) (decided : parsed parse (bytes.take maxHead) ≠ .more)
    (other : ∀ head size, parsed parse (bytes.take maxHead) ≠ .complete head size) :
    ∃ reads, Cut parse (before ++ bytes) reads ∧ events parse closes reads = log ++ (parsed parse (bytes.take maxHead)).events := by
  have room := singles_room correct new_done before
  have done := run_done correct new_done room
  rw [singles_flatten, front] at done
  have waits := done.fresh
  have some_ : bytes.take maxHead ≠ [] := by
    intro empty
    obtain ⟨place, pair⟩ := pair
    rw [empty] at pair
    exact absurd pair.1 (by simp)
  have parses : parseHead parse ([] ++ bytes.take maxHead) ([] : Bytes).length = parsed parse (bytes.take maxHead) := by
    rw [List.nil_append, List.length_nil, parseHead, Nat.zero_sub, List.drop_zero, if_pos ((ended_iff _).2 pair)]
    cases found : parsed parse (bytes.take maxHead) with
    | more => exact absurd found decided
    | complete head size => exact absurd found (other head size)
    | badLine => rfl
    | invalid => rfl
    | tooLarge => rfl
  obtain ⟨ended, told⟩ := waits.feed_decided some_ parses decided other
  refine ⟨singles before ++ (bytes.take maxHead :: singles (bytes.drop maxHead)), ⟨?_, ?_, ?_⟩, ?_⟩
  · rw [List.flatten_append, List.flatten_cons, singles_flatten, singles_flatten, List.take_append_drop]
  · rw [List.mem_append, List.mem_cons, not_or, not_or]
    exact ⟨singles_some before, some_.symm, singles_some _⟩
  · refine allAllowed_append.mpr ⟨room, fun _ => ?_, ended_room ended _⟩
    rw [waits.buffer, List.length_take, List.length_nil]
    omega
  · rw [events, run_append]
    have whole : run (Conn.feed parse) (run (Conn.feed parse) Conn.new (singles before))
        (bytes.take maxHead :: singles (bytes.drop maxHead)) =
        (run (Conn.feed parse) Conn.new (singles before)).feed parse (bytes.take maxHead) := run_ended ended _
    rw [whole, finish_ended ended, ite_self, told]

theorem scan_single (correct : Correct parse) {head : Bytes} (quiet : Quiet parse head) (decided : parsed parse head ≠ .more) {count : Nat}
    (inside : count < head.length) :
    (if ended ((head.take (count + 1)).drop (count - 2)) then parsed parse (head.take (count + 1)) else .more) = .more := by
  by_cases pair : ended ((head.take (count + 1)).drop (count - 2)) = true
  · rw [if_pos pair]
    obtain ⟨place, unseen, pair⟩ := (ended_drop_iff _ count).1 pair
    have fits := pair.fits
    rw [List.length_take] at fits
    have late := (quiet place ((pair_take (by omega)).1 pair) decided).2
    exact parsed_take_more correct late (by omega)
  · rw [if_neg pair]

theorem waits_singles (correct : Correct parse) {conn : Conn} {head : Bytes} (waits : Waits conn log []) (quiet : Quiet parse head)
    (decided : parsed parse head ≠ .more) {count : Nat} (inside : count ≤ head.length) (less : count < maxHead) :
    Waits (run (Conn.feed parse) conn (singles (head.take count))) log (head.take count) := by
  induction count with
  | zero => exact waits
  | succ count ih =>
    have earlier := ih (by omega) (by omega)
    have length : (head.take count).length = count := by
      rw [List.length_take]
      omega
    have grown : head.take (count + 1) = head.take count ++ [head[count]] := List.take_concat_get' head count (by omega) |>.symm
    have more : parseHead parse (head.take (count + 1)) count = .more := by
      rw [parseHead, scan_single correct quiet decided (by omega)]
      dsimp only
      rw [if_neg (by rw [List.length_take]; omega)]
    rw [grown, singles_append, run_append]
    refine earlier.feed_more (List.cons_ne_nil _ _) ?_
    rw [← grown, length]
    exact more

theorem read_singles (correct : Correct parse) (front : Reading.start.bytes parse before = ⟨log, .head []⟩)
    (quiet : Quiet parse (bytes.take maxHead)) (decided : parsed parse (bytes.take maxHead) ≠ .more) :
    Cut parse (before ++ bytes) (singles (before ++ bytes)) ∧
      events parse closes (singles (before ++ bytes)) = log ++ undecided closes bytes := by
  refine ⟨⟨singles_flatten _, singles_some _, singles_room correct new_done _⟩, ?_⟩
  have done := run_done correct new_done (singles_room correct new_done before)
  rw [singles_flatten, front] at done
  rw [events, singles_append, run_append]
  generalize run (Conn.feed parse) Conn.new (singles before) = conn at done
  by_cases long : maxHead ≤ bytes.length
  · have length : (bytes.take maxHead).length = maxHead := by
      rw [List.length_take]
      omega
    have most : maxHead - 1 + 1 = maxHead := by decide
    have last : maxHead - 1 < (bytes.take maxHead).length := by omega
    have waits := waits_singles correct done.fresh quiet decided (Nat.le_of_lt last) (by decide)
    have whole : (bytes.take maxHead).take (maxHead - 1) ++ [(bytes.take maxHead)[maxHead - 1]] = bytes.take maxHead := by
      rw [List.take_concat_get' _ _ last, most, List.take_of_length_le (by omega)]
    -- The byte that fills the input.
    have full : parseHead parse (bytes.take maxHead) (maxHead - 1) = .tooLarge := by
      have more := scan_single correct quiet decided last
      rw [most, List.take_of_length_le (by omega)] at more
      rw [parseHead, more]
      dsimp only
      rw [if_pos (by omega)]
    have count : ((bytes.take maxHead).take (maxHead - 1)).length = maxHead - 1 := by
      rw [List.length_take]
      omega
    have parses : parseHead parse ((bytes.take maxHead).take (maxHead - 1) ++ [(bytes.take maxHead)[maxHead - 1]])
        ((bytes.take maxHead).take (maxHead - 1)).length = .tooLarge := by
      rw [whole, count]
      exact full
    obtain ⟨ended, told⟩ := waits.feed_decided (List.cons_ne_nil _ _) parses (fun same => by cases same) (fun _ _ same => by cases same)
    have reads : run (Conn.feed parse) conn (singles bytes) =
        (run (Conn.feed parse) conn (singles ((bytes.take maxHead).take (maxHead - 1)))).feed parse [(bytes.take maxHead)[maxHead - 1]] := by
      conv_lhs => rw [← List.take_append_drop maxHead bytes, ← whole, singles_append, singles_append, run_append, run_append]
      exact run_ended ended _
    rw [reads, finish_ended ended, ite_self, told, undecided, if_pos long]
    rfl
  · have whole : bytes.take maxHead = bytes := List.take_of_length_le (by omega)
    rw [whole] at quiet decided
    have waits := waits_singles correct done.fresh quiet decided (Nat.le_refl _) (by omega)
    rw [List.take_length] at waits
    rw [waits.finish closes quiet (by omega)]

theorem Independent.settled (correct : Correct parse) (independent : Independent parse closes stream) : Settled parse closes stream := by
  rintro bytes ⟨⟨before, _, rfl, whole⟩, none_⟩
  by_contra apart
  obtain ⟨log, front⟩ := whole.reading correct
  obtain ⟨pair, quiet, decided, other⟩ := not_alike correct apart
  obtain ⟨reads, cut, told⟩ := @read_whole parse closes _ _ _ correct front pair decided (quiet.not_complete correct)
  obtain ⟨cut', told'⟩ := @read_singles parse closes _ _ _ correct front quiet decided
  have same := independent _ _ cut cut'
  rw [told, told'] at same
  exact other (List.append_cancel_left same)

end Apart

-- The requests, their bodies and the refusals of a stream are the same for all cuts, and what stands in the stream, if and only if
-- the head that the stream ends in is settled.
theorem requests_cut_iff {parse : Library} (correct : Correct parse) (closes : Bool) (stream : Bytes) :
    (Independent parse closes stream ∧
      ∀ reads, Cut parse stream reads → ∃ rest, Exact parse stream (requests (events parse closes reads)) rest) ↔
    Settled parse closes stream :=
  ⟨fun whole => whole.1.settled correct, fun settled => ⟨settled.independent correct, fun _ cut => events_exact correct closes cut⟩⟩

section Sample

def getRoot : Bytes := [71, 69, 84, 32, 47, 32, 72, 84, 84, 80, 47, 49, 46, 49, 13, 10, 13, 10]

def against : Bytes → Bytes → Nat → Status
  | [], _, place => .complete (some "GET") (some "/") [] place
  | _ :: _, [], _ => .more
  | wanted :: text, byte :: bytes, place =>
    if wanted = byte then against text bytes (place + 1) else if place < 6 then .token else .other

def Status.later (lines : Nat) : Status → Status
  | .complete method path headers size => .complete method path headers (size + lines)
  | status => status

-- A parser that knows one head, and skips the empty lines before it.
@[grind =]
def knowsGet : Bytes → Status
  | [] => .more
  | first :: rest =>
    if first = 10 then (knowsGet rest).later 1
    else if first = 13 then
      match rest with
      | [] => .more
      | second :: rest => if second = 10 then (knowsGet rest).later 2 else .other
    else against getRoot (first :: rest) 0

theorem against_steady {text bytes : Bytes} {place : Nat} (decided : against text bytes place ≠ .more) (more : Bytes) :
    against text (bytes ++ more) place = against text bytes place := by
  induction text generalizing bytes place with
  | nil => rw [against, against]
  | cons wanted text ih =>
    cases bytes with
    | nil => exact absurd rfl decided
    | cons byte bytes =>
      rw [against] at decided
      rw [List.cons_append, against, against]
      by_cases same : wanted = byte
      · rw [if_pos same] at decided ⊢
        rw [if_pos same, ih decided]
      · rw [if_neg same, if_neg same]

theorem against_complete {text bytes : Bytes} {place size : Nat} {method path : Option String} {headers : List (String × Bytes)}
    (complete : against text bytes place = .complete method path headers size) :
    size = place + text.length ∧ ∃ rest, bytes = text ++ rest := by
  induction text generalizing bytes place with
  | nil =>
    rw [against] at complete
    cases complete
    exact ⟨rfl, bytes, rfl⟩
  | cons wanted text ih =>
    cases bytes with
    | nil => cases complete
    | cons byte bytes =>
      rw [against] at complete
      by_cases same : wanted = byte
      · rw [if_pos same] at complete
        obtain ⟨count, rest, split⟩ := ih complete
        refine ⟨?_, rest, ?_⟩
        · rw [count, List.length_cons]
          omega
        · rw [split, same, List.cons_append]
      · rw [if_neg same] at complete
        split at complete <;> cases complete

theorem later_more_iff {status : Status} {lines : Nat} : status.later lines = .more ↔ status = .more := by
  cases status <;> simp [Status.later]

theorem later_complete {status : Status} {lines size : Nat} {method path : Option String} {headers : List (String × Bytes)}
    (complete : status.later lines = .complete method path headers size) :
    ∃ own, status = .complete method path headers own ∧ size = own + lines := by
  cases status with
  | complete method' path' headers' own =>
    cases complete
    exact ⟨own, rfl, rfl⟩
  | more => cases complete
  | tooManyHeaders => cases complete
  | token => cases complete
  | other => cases complete

theorem knowsGet_newline (rest : Bytes) : knowsGet (10 :: rest) = (knowsGet rest).later 1 := by
  rw [knowsGet.eq_def]
  rfl

theorem knowsGet_return (rest : Bytes) : knowsGet (13 :: 10 :: rest) = (knowsGet rest).later 2 := by
  rw [knowsGet.eq_def]
  rfl

theorem knowsGet_bare {second : UInt8} (other : second ≠ 10) (rest : Bytes) : knowsGet (13 :: second :: rest) = .other := by
  rw [knowsGet.eq_def]
  simp [other]

theorem knowsGet_line {first : UInt8} (newline : first ≠ 10) (return_ : first ≠ 13) (rest : Bytes) :
    knowsGet (first :: rest) = against getRoot (first :: rest) 0 := by
  rw [knowsGet.eq_def]
  simp [newline, return_]

theorem knowsGet_steady {bytes : Bytes} (decided : knowsGet bytes ≠ .more) (more : Bytes) :
    knowsGet (bytes ++ more) = knowsGet bytes := by
  fun_induction knowsGet bytes with
  | case1 => exact absurd rfl decided
  | case2 rest ih => rw [List.cons_append, knowsGet_newline, ih fun none_ => decided (later_more_iff.2 none_)]
  | case3 => exact absurd rfl decided
  | case4 _ rest ih =>
    rw [List.cons_append, List.cons_append, knowsGet_return, ih fun none_ => decided (later_more_iff.2 none_)]
  | case5 _ rest other => exact knowsGet_bare other (rest ++ more)
  | case6 first rest newline return_ =>
    rw [List.cons_append, knowsGet_line newline return_, ← List.cons_append, against_steady decided]

theorem knowsGet_complete {bytes : Bytes} {method path : Option String} {found : List (String × Bytes)} {size : Nat}
    (complete : knowsGet bytes = .complete method path found size) :
    size ≤ bytes.length ∧ knowsGet (bytes.take size) = .complete method path found size ∧
      (∀ shorter < size, knowsGet (bytes.take shorter) = .more) ∧ ∃ before, bytes.take size = before ++ [10, 13, 10] := by
  fun_induction knowsGet bytes generalizing size with
  | case1 => cases complete
  | case2 rest ih =>
    obtain ⟨own, inner, rfl⟩ := later_complete complete
    obtain ⟨fits, whole, parts, before, line⟩ := ih inner
    refine ⟨Nat.succ_le_succ fits, ?_, ?_, 10 :: before, ?_⟩
    · rw [List.take_succ_cons, knowsGet_newline, whole]
      rfl
    · intro shorter less
      cases shorter with
      | zero => rfl
      | succ shorter =>
        rw [List.take_succ_cons, knowsGet_newline, parts shorter (by omega)]
        rfl
    · rw [List.take_succ_cons, line, List.cons_append]
  | case3 => cases complete
  | case4 _ rest ih =>
    obtain ⟨own, inner, rfl⟩ := later_complete complete
    obtain ⟨fits, whole, parts, before, line⟩ := ih inner
    refine ⟨Nat.succ_le_succ (Nat.succ_le_succ fits), ?_, ?_, 13 :: 10 :: before, ?_⟩
    · rw [List.take_succ_cons, List.take_succ_cons, knowsGet_return, whole]
      rfl
    · intro shorter less
      match shorter with
      | 0 => rfl
      | 1 => rfl
      | shorter + 2 =>
        rw [List.take_succ_cons, List.take_succ_cons, knowsGet_return, parts shorter (by omega)]
        rfl
    · rw [List.take_succ_cons, List.take_succ_cons, line, List.cons_append, List.cons_append]
  | case5 => cases complete
  | case6 first rest newline return_ =>
    obtain ⟨count, later, split⟩ := against_complete complete
    have eighteen : size = 18 := count
    have whole : (first :: rest).take size = getRoot := by
      rw [split, eighteen]
      exact List.take_left' rfl
    have part (shorter : Nat) (less : shorter < size) : (first :: rest).take shorter = getRoot.take shorter := by
      rw [← whole, List.take_take, Nat.min_eq_left (Nat.le_of_lt less)]
    have same := @against_steady getRoot getRoot 0 (by decide) later
    rw [← split, complete] at same
    refine ⟨?_, ?_, ?_, getRoot.take 15, ?_⟩
    · rw [split, eighteen, List.length_append]
      exact Nat.le_add_right _ _
    · rw [whole, same]
      rfl
    · intro shorter less
      rw [part shorter less]
      subst eighteen
      revert shorter
      decide
    · rw [whole]
      rfl

def sample : Library := fun _ => knowsGet

theorem sample_correct : Correct sample where
  steady _ _ more decided := knowsGet_steady decided more
  room _ _ _ _ _ := rfl
  part _ _ _ _ _ _ complete := ⟨(knowsGet_complete complete).1, (knowsGet_complete complete).2.1, (knowsGet_complete complete).2.2.1⟩
  blank _ _ _ _ _ _ complete := (knowsGet_complete complete).2.2.2.imp fun _ line => .inr line

def badHead : Bytes := [13, 10, 13, 10, 71, 69, 84, 32, 47, 32, 72, 84, 84, 80, 47, 57, 46, 57, 13, 10]

theorem badHead_whole : Cut sample badHead [badHead] ∧ events sample false [badHead] = [.refused .badRequest] := by
  refine ⟨⟨rfl, by decide, ?_⟩, by decide⟩
  simp only [AllAllowed]
  decide

theorem badHead_cut : Cut sample badHead [badHead.take 4, badHead.drop 4] ∧ events sample false [badHead.take 4, badHead.drop 4] = [] := by
  refine ⟨⟨rfl, by decide, ?_⟩, by decide⟩
  simp only [AllAllowed]
  decide

-- One read refuses the head, and a read of the empty lines before it leaves it undecided.
theorem bad_head_depends_on_cut : Correct sample ∧ Cut sample badHead [badHead] ∧ Cut sample badHead [badHead.take 4, badHead.drop 4] ∧
    events sample false [badHead] = [.refused .badRequest] ∧ events sample false [badHead.take 4, badHead.drop 4] = [] :=
  ⟨sample_correct, badHead_whole.1, badHead_cut.1, badHead_whole.2, badHead_cut.2⟩

theorem bad_head_unsettled : Correct sample ∧ ¬Settled sample false badHead := by
  refine ⟨sample_correct, fun settled => ?_⟩
  have same := ((requests_cut_iff sample_correct false badHead).2 settled).1 _ _ badHead_whole.1 badHead_cut.1
  rw [badHead_whole.2, badHead_cut.2] at same
  cases same

end Sample

end Kido.Requesting
