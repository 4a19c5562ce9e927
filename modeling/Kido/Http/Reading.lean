import Kido.Http.Head
import Kido.Shared.Run

set_option autoImplicit false

namespace Kido.Requesting

inductive Payload where
  | bytes (bytes : Bytes)
  | oversized
deriving DecidableEq

structure Request where
  head : Head
  body : Payload
deriving DecidableEq

inductive Refusal where
  | badRequest
  | headTooLarge
  | lengthRequired
deriving DecidableEq

-- What a client can tell of its connection, in order.
inductive Event where
  | request (request : Request)
  | refused (refusal : Refusal)
  | closed
deriving DecidableEq

inductive Phase where
  | head
  | body (head : Head) (body : Bytes) (length : Nat)
  | oversized (head : Option Head) (seen length : Nat)
  | closing

-- A connection: its buffer is what stands between `start` and `end` of the input.
structure Conn where
  buffer : Bytes
  scanned : Nat
  eof : Bool
  phase : Phase
  isOpen : Bool
  log : List Event

namespace Conn

def new : Conn := ⟨[], 0, false, .head, true, []⟩

def close (conn : Conn) : Conn := { conn with isOpen := false, log := conn.log ++ [.closed] }

def closeWith (conn : Conn) (refusal : Refusal) : Conn :=
  { conn with phase := .closing, log := conn.log ++ [.refused refusal] }

end Conn

-- One turn of the loop of `next_request`: it goes on or returns.
inductive Turn where
  | again (conn : Conn)
  | back (request : Option Request) (conn : Conn)

def framed (conn : Conn) (head : Head) : Turn :=
  match head.framing with
  | .chunked => .again (conn.closeWith .lengthRequired)
  | .invalid => .again (conn.closeWith .badRequest)
  | .length 0 => .back (some ⟨head, .bytes []⟩) conn
  | .length (length + 1) => .again { conn with phase := .body head [] (length + 1) }
  | .oversized length => .again { conn with phase := .oversized (some head) 0 length }

def headTurn (parse : Library) (conn : Conn) : Turn :=
  if conn.buffer = [] then .back none (if conn.eof then { conn with phase := .closing } else conn)
  else
    let scanned := { conn with scanned := conn.buffer.length }
    match parseHead parse conn.buffer conn.scanned with
    | .more => .back none (if conn.eof then scanned.close else scanned)
    | .badLine => .again scanned.close
    | .invalid => .again (scanned.closeWith .badRequest)
    | .tooLarge => .again (scanned.closeWith .headTooLarge)
    | .complete head size => framed { conn with buffer := conn.buffer.drop size, scanned := 0 } head

def bodyTurn (conn : Conn) (head : Head) (body : Bytes) (length : Nat) : Turn :=
  let wanted := min (length - body.length) conn.buffer.length
  let taken := { conn with buffer := conn.buffer.drop wanted }
  let body := body ++ conn.buffer.take wanted
  if body.length < length then
    let waits := { taken with phase := .body head body length }
    .back none (if conn.eof then waits.close else waits)
  else .back (some ⟨head, .bytes body⟩) { taken with phase := .head }

def oversizedTurn (conn : Conn) (head : Option Head) (seen length : Nat) : Turn :=
  let skipped := min (length - seen) conn.buffer.length
  let seen := seen + skipped
  let taken := { conn with buffer := conn.buffer.drop skipped }
  let ready := if maxBody < seen then head else none
  let head := if maxBody < seen then none else head
  if seen = length then
    match ready with
    | some head => .back (some ⟨head, .oversized⟩) { taken with phase := .head }
    | none => .again { taken with phase := .head }
  else
    let waits := { taken with phase := .oversized head seen length }
    .back (ready.map fun head => ⟨head, .oversized⟩) (if conn.eof then waits.close else waits)

def turn (parse : Library) (conn : Conn) : Turn :=
  match conn.phase with
  | .head => headTurn parse conn
  | .body head body length => bodyTurn conn head body length
  | .oversized head seen length => oversizedTurn conn head seen length
  | .closing => .back none conn

def nextRequest (parse : Library) : Nat → Conn → Option Request × Conn
  | 0, conn => (none, conn)
  | turns + 1, conn =>
    if conn.isOpen then
      match turn parse conn with
      | .again conn => nextRequest parse turns conn
      | .back request conn => (request, conn)
    else (none, conn)

namespace Conn

-- More turns than the loops can take: each takes bytes or goes on to a phase that has fewer before it.
def turns (conn : Conn) : Nat := 2 * conn.buffer.length + 4

-- The loop around `next_request`; whoever handles a request leaves the phase as it is.
def serve (parse : Library) : Nat → Conn → Conn
  | 0, conn => conn
  | calls + 1, conn =>
    match nextRequest parse conn.turns conn with
    | (none, conn) => conn
    | (some request, conn) => serve parse calls { conn with log := conn.log ++ [.request request] }

def readingHttp (conn : Conn) : Bool :=
  conn.isOpen && !conn.eof && match conn.phase with
    | .head | .body .. | .oversized .. => true
    | .closing => false

def feed (parse : Library) (conn : Conn) (bytes : Bytes) : Conn :=
  if conn.readingHttp then
    let conn := { conn with buffer := conn.buffer ++ bytes }
    conn.serve parse conn.turns
  else conn

def finish (parse : Library) (conn : Conn) : Conn :=
  if conn.readingHttp then
    let conn := { conn with eof := true }
    conn.serve parse conn.turns
  else conn

def Room (conn : Conn) (bytes : Bytes) : Prop := conn.readingHttp = true → conn.buffer.length + bytes.length ≤ maxHead

instance (conn : Conn) (bytes : Bytes) : Decidable (conn.Room bytes) := inferInstanceAs (Decidable (_ → _))

end Conn

-- The reads cut the stream: each of them brings something, and fits.
structure Cut (parse : Library) (stream : Bytes) (reads : List Bytes) : Prop where
  whole : reads.flatten = stream
  some_ : [] ∉ reads
  room : Shared.AllAllowed (Conn.feed parse) Conn.Room Conn.new reads

-- What comes of a stream that is read so, and that ends or is still open.
def events (parse : Library) (closes : Bool) (reads : List Bytes) : List Event :=
  let conn := Shared.run (Conn.feed parse) Conn.new reads
  (if closes then conn.finish parse else conn).log

end Kido.Requesting

namespace Kido.Requesting

inductive Rest where
  | head (bytes : Bytes)
  | body (head : Head) (body : Bytes) (length : Nat)
  | skip (head : Option Head) (seen length : Nat)
  | stopped

structure Reading where
  log : List Event
  rest : Rest

namespace Reading

def start : Reading := ⟨[], .head []⟩

def begun (log : List Event) (head : Head) : Reading :=
  match head.framing with
  | .chunked => ⟨log ++ [.refused .lengthRequired], .stopped⟩
  | .invalid => ⟨log ++ [.refused .badRequest], .stopped⟩
  | .length 0 => ⟨log ++ [.request ⟨head, .bytes []⟩], .head []⟩
  | .length (length + 1) => ⟨log, .body head [] (length + 1)⟩
  | .oversized length => ⟨log, .skip (some head) 0 length⟩

def refusing (log : List Event) (head : Option Head) (seen : Nat) : List Event :=
  if maxBody < seen then log ++ head.toList.map (fun head => .request ⟨head, .oversized⟩) else log

def byte (parse : Library) (reading : Reading) (byte : UInt8) : Reading :=
  match reading.rest with
  | .head bytes =>
    match parsed parse (bytes ++ [byte]) with
    | .complete head _ => if bytes.length + 1 ≤ maxHead then begun reading.log head else ⟨reading.log, .head (bytes ++ [byte])⟩
    | _ => ⟨reading.log, .head (bytes ++ [byte])⟩
  | .body head body length =>
    if body.length + 1 = length then ⟨reading.log ++ [.request ⟨head, .bytes (body ++ [byte])⟩], .head []⟩
    else ⟨reading.log, .body head (body ++ [byte]) length⟩
  | .skip head seen length =>
    ⟨refusing reading.log head (seen + 1),
      if seen + 1 = length then .head [] else .skip (if maxBody < seen + 1 then none else head) (seen + 1) length⟩
  | .stopped => reading

def bytes (parse : Library) (reading : Reading) (bytes : Bytes) : Reading := bytes.foldl (byte parse) reading

variable {parse : Library} {log : List Event}

@[simp]
theorem bytes_nil (reading : Reading) : reading.bytes parse [] = reading := rfl

theorem bytes_append (reading : Reading) (first second : Bytes) :
    reading.bytes parse (first ++ second) = (reading.bytes parse first).bytes parse second := List.foldl_append

theorem bytes_snoc (reading : Reading) (first : Bytes) (last : UInt8) :
    reading.bytes parse (first ++ [last]) = (reading.bytes parse first).byte parse last := by
  rw [bytes_append]
  rfl

theorem bytes_stopped (seen : Bytes) : (⟨log, .stopped⟩ : Reading).bytes parse seen = ⟨log, .stopped⟩ := by
  induction seen using List.reverseRecOn with
  | nil => rfl
  | append_singleton seen last ih => rw [bytes_snoc, ih]; rfl

theorem bytes_head (before seen : Bytes)
    (open_ : ∀ count ≤ seen.length, 0 < count → before.length + count ≤ maxHead →
      ∀ head size, parsed parse (before ++ seen.take count) ≠ .complete head size) :
    (⟨log, .head before⟩ : Reading).bytes parse seen = ⟨log, .head (before ++ seen)⟩ := by
  induction seen using List.reverseRecOn with
  | nil => rw [bytes_nil, List.append_nil]
  | append_singleton seen last ih =>
    have earlier := ih fun count less positive fits head size => by
      have here := open_ count (by rw [List.length_append]; omega) positive fits head size
      rwa [List.take_append_of_le_length less] at here
    rw [bytes_snoc, earlier, byte, ← List.append_assoc]
    by_cases fits : (before ++ seen).length + 1 ≤ maxHead
    · have whole := open_ (seen.length + 1) (by rw [List.length_append]; exact Nat.le_refl _) (Nat.succ_pos _)
        (by rw [List.length_append] at fits; omega)
      rw [List.take_of_length_le (by rw [List.length_append]; exact Nat.le_refl _), ← List.append_assoc] at whole
      dsimp only
      split
      · exact absurd ‹_› (whole _ _)
      · rfl
    · dsimp only
      split
      · rw [if_neg fits]
      · rfl

theorem bytes_complete (correct : Correct parse) {seen : Bytes} {head : Head} (fits : seen.length ≤ maxHead)
    (complete : parsed parse seen = .complete head seen.length) :
    (⟨log, .head []⟩ : Reading).bytes parse seen = begun log head := by
  obtain ⟨_, _, parts, before, line⟩ := parsed_complete correct complete
  rw [List.take_length] at line
  obtain ⟨first, last, rfl⟩ : ∃ first last, seen = first ++ [last] := by
    obtain two | three := line
    · exact ⟨before ++ [10], 10, by rw [two, List.append_assoc]; rfl⟩
    · exact ⟨before ++ [10, 13], 10, by rw [three, List.append_assoc]; rfl⟩
  have earlier := @bytes_head parse log [] first fun count less _ _ head size => by
    have part := parts count (by rw [List.length_append, List.length_singleton]; omega)
    rw [List.take_append_of_le_length less] at part
    rw [List.nil_append, part]
    exact fun same => by cases same
  rw [bytes_snoc, earlier, List.nil_append, byte]
  dsimp only
  rw [complete]
  dsimp only
  rw [List.length_append] at fits
  exact if_pos fits

theorem bytes_body (head : Head) (got seen : Bytes) (length : Nat) (less : got.length + seen.length < length) :
    (⟨log, .body head got length⟩ : Reading).bytes parse seen = ⟨log, .body head (got ++ seen) length⟩ := by
  induction seen using List.reverseRecOn with
  | nil => rw [bytes_nil, List.append_nil]
  | append_singleton seen last ih =>
    rw [List.length_append, List.length_singleton] at less
    rw [bytes_snoc, ih (by omega), byte]
    dsimp only
    rw [if_neg (by rw [List.length_append]; omega), List.append_assoc]

theorem bytes_whole_body (head : Head) (got seen : Bytes) (length : Nat) (short : got.length < length)
    (whole : got.length + seen.length = length) :
    (⟨log, .body head got length⟩ : Reading).bytes parse seen = ⟨log ++ [.request ⟨head, .bytes (got ++ seen)⟩], .head []⟩ := by
  obtain rfl | ⟨first, last, rfl⟩ := List.eq_nil_or_concat' seen
  · rw [List.length_nil] at whole
    omega
  · rw [List.length_append, List.length_singleton] at whole
    rw [bytes_snoc, bytes_body head got first length (by omega), byte]
    dsimp only
    rw [if_pos (by rw [List.length_append]; omega), List.append_assoc]

theorem refusing_refusing (head : Option Head) {seen more : Nat} (less : seen ≤ more) :
    refusing (refusing log head seen) (if maxBody < seen then none else head) more = refusing log head more := by
  unfold refusing
  by_cases early : maxBody < seen
  · have late : maxBody < more := by omega
    simp [early, late]
  · simp [early]

theorem bytes_skip (head : Option Head) (seen length : Nat) (bytes_ : Bytes) (short : seen < length)
    (told : maxBody < seen → head = none) (less : seen + bytes_.length ≤ length) :
    (⟨log, .skip head seen length⟩ : Reading).bytes parse bytes_ = ⟨refusing log head (seen + bytes_.length),
      if seen + bytes_.length = length then .head []
      else .skip (if maxBody < seen + bytes_.length then none else head) (seen + bytes_.length) length⟩ := by
  induction bytes_ using List.reverseRecOn with
  | nil =>
    rw [bytes_nil, List.length_nil, Nat.add_zero, if_neg (by omega)]
    by_cases late : maxBody < seen
    · simp [refusing, late, told late]
    · simp [refusing, late]
  | append_singleton first last ih =>
    rw [List.length_append, List.length_singleton] at less
    rw [bytes_snoc, ih (by omega), if_neg (by omega), byte]
    dsimp only
    rw [refusing_refusing head (by omega), List.length_append, List.length_singleton, ← Nat.add_assoc]
    congr 2
    by_cases late : maxBody < seen + first.length
    · have later : maxBody < seen + first.length + 1 := by omega
      simp [later]
    · simp [late]

end Reading

end Kido.Requesting
