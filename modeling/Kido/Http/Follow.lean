import Kido.Http.Reading

set_option autoImplicit false

namespace Kido.Requesting

variable {parse : Library}

namespace Phase

-- Where the reading is when the connection is in the phase and nothing of its buffer is taken.
def rest : Phase → Rest
  | .head => .head []
  | .body of got length => .body of got length
  | .oversized of seen length => .skip of seen length
  | .closing => .stopped

def Sound : Phase → Prop
  | .head => True
  | .body _ got length => got.length < length
  | .oversized of seen length => seen < length ∧ (maxBody < seen → of = none) ∧ maxBody < length
  | .closing => False

def weight : Phase → Nat
  | .head => 1
  | .body _ _ _ => 2
  | .oversized none _ _ => 2
  | .oversized (some _) _ _ => 3
  | .closing => 0

end Phase

def Conn.weight (conn : Conn) : Nat := 2 * conn.buffer.length + conn.phase.weight

-- The connection stands at the reading, with its buffer still to come.
structure Follows (parse : Library) (conn : Conn) (reading : Reading) : Prop where
  isOpen : conn.isOpen = true
  eof : conn.eof = false
  log : conn.log = reading.log
  rest : conn.phase.rest = reading.rest
  sound : conn.phase.Sound
  fits : conn.buffer.length ≤ maxHead
  scanned : conn.scanned ≤ conn.buffer.length
  quiet : Quiet parse (conn.buffer.take conn.scanned)
  fresh : conn.phase ≠ .head → conn.scanned = 0

def Parsed.events : Parsed → List Event
  | .complete _ _ | .more => []
  | .badLine => [.closed]
  | .invalid => [.refused .badRequest]
  | .tooLarge => [.refused .headTooLarge]

-- Bytes that complete no head ended the connection: a part of them was decided where a pair stood, or they filled the input.
inductive Failed (parse : Library) (bytes : Bytes) (events : List Event) : Prop where
  | decided (seen later : Bytes) (split : bytes = seen ++ later) (fits : seen.length ≤ maxHead)
      (decided : parsed parse seen ≠ .more) (other : ∀ head size, parsed parse seen ≠ .complete head size)
      (pair : ∃ place, Pair seen place) (told : events = (parsed parse seen).events)
  | full (long : maxHead ≤ bytes.length) (quiet : Quiet parse (bytes.take maxHead)) (told : events = [.refused .headTooLarge])

inductive Done (parse : Library) (conn : Conn) (reading : Reading) : Prop where
  | waits (bytes : Bytes) (rest : reading.rest = .head bytes) (isOpen : conn.isOpen = true) (eof : conn.eof = false)
      (log : conn.log = reading.log) (phase : conn.phase = .head) (buffer : conn.buffer = bytes) (scanned : conn.scanned = bytes.length)
      (short : bytes.length < maxHead) (quiet : Quiet parse bytes)
  | inside (isOpen : conn.isOpen = true) (eof : conn.eof = false) (log : conn.log = reading.log)
      (rest : conn.phase.rest = reading.rest) (sound : conn.phase.Sound) (other : conn.phase ≠ .head) (buffer : conn.buffer = [])
      (scanned : conn.scanned = 0)
  | stopped (ended : conn.readingHttp = false) (eof : conn.eof = false) (log : conn.log = reading.log) (rest : reading.rest = .stopped)
  | failed (bytes : Bytes) (events : List Event) (rest : reading.rest = .head bytes) (ended : conn.readingHttp = false)
      (eof : conn.eof = false) (log : conn.log = reading.log ++ events) (why : Failed parse bytes events)

-- What one turn does, when all of the buffer is read as the reading has it.
inductive Turned (parse : Library) (conn : Conn) (reading : Reading) : Turn → Prop where
  | again (next : Conn) (after : Reading) (follows : Follows parse next after) (less : next.weight < conn.weight)
      (same : after.bytes parse next.buffer = reading.bytes parse conn.buffer) : Turned parse conn reading (.again next)
  | ends (next : Conn) (done : Done parse next (reading.bytes parse conn.buffer)) (ended : next.readingHttp = false) :
      Turned parse conn reading (.again next)
  | request (request : Request) (next : Conn) (after : Reading)
      (follows : Follows parse { next with log := next.log ++ [.request request] } after) (less : next.weight < conn.weight)
      (same : after.bytes parse next.buffer = reading.bytes parse conn.buffer) : Turned parse conn reading (.back (some request) next)
  | none_ (next : Conn) (done : Done parse next (reading.bytes parse conn.buffer)) : Turned parse conn reading (.back none next)

section Turns

variable {conn : Conn} {reading : Reading}

theorem quiet_nil : Quiet parse [] := fun place pair => absurd pair.1 (by simp)

theorem Follows.fresh_scan {next : Conn} {after : Reading} (isOpen : next.isOpen = true) (eof : next.eof = false)
    (log : next.log = after.log) (rest : next.phase.rest = after.rest) (sound : next.phase.Sound) (fits : next.buffer.length ≤ maxHead)
    (scanned : next.scanned = 0) : Follows parse next after :=
  ⟨isOpen, eof, log, rest, sound, fits, scanned ▸ Nat.zero_le _, by rw [scanned, List.take_zero]; exact quiet_nil, fun _ => scanned⟩

theorem bodyTurn_turned (follows : Follows parse conn reading) {head : Head} {body : Bytes} {length : Nat}
    (phase : conn.phase = .body head body length) : Turned parse conn reading (bodyTurn conn head body length) := by
  have short : body.length < length := by
    have sound := follows.sound
    rw [phase] at sound
    exact sound
  have scanned := follows.fresh (by rw [phase]; exact fun same => by cases same)
  have at_ : reading = ⟨conn.log, .body head body length⟩ := by
    have rest := follows.rest
    rw [phase] at rest
    cases reading
    simp only [Reading.mk.injEq]
    exact ⟨follows.log.symm, rest.symm⟩
  rw [bodyTurn]
  dsimp only
  by_cases more : body.length + conn.buffer.length < length
  · have all : min (length - body.length) conn.buffer.length = conn.buffer.length := by omega
    rw [all, List.take_length, List.drop_length, List.length_append, if_pos more, follows.eof, if_neg Bool.false_ne_true]
    refine .none_ _ (.inside follows.isOpen rfl ?_ ?_ ?_ (fun same => by cases same) rfl scanned)
    · rw [at_, Reading.bytes_body head body conn.buffer length more]
    · rw [at_, Reading.bytes_body head body conn.buffer length more]
      rfl
    · show (body ++ conn.buffer).length < length
      rw [List.length_append]
      exact more
  · have all : min (length - body.length) conn.buffer.length = length - body.length := by omega
    have taken : (conn.buffer.take (length - body.length)).length = length - body.length := by
      rw [List.length_take]
      omega
    rw [all, List.length_append, taken, if_neg (by omega)]
    refine .request _ _ ⟨conn.log ++ [.request ⟨head, .bytes (body ++ conn.buffer.take (length - body.length))⟩], .head []⟩
      (.fresh_scan follows.isOpen follows.eof rfl rfl trivial ?_ scanned) ?_ ?_
    · have fits := follows.fits
      simp only [List.length_drop]
      omega
    · simp only [Conn.weight, phase, Phase.weight, List.length_drop]
      omega
    · conv_rhs => rw [← List.take_append_drop (length - body.length) conn.buffer, Reading.bytes_append, at_,
        Reading.bytes_whole_body head body _ length short (by omega)]

theorem oversizedTurn_turned (follows : Follows parse conn reading) {head : Option Head} {seen length : Nat}
    (phase : conn.phase = .oversized head seen length) : Turned parse conn reading (oversizedTurn conn head seen length) := by
  obtain ⟨short, told, long⟩ : seen < length ∧ (maxBody < seen → head = none) ∧ maxBody < length := by
    have sound := follows.sound
    rw [phase] at sound
    exact sound
  have scanned := follows.fresh (by rw [phase]; exact fun same => by cases same)
  have at_ : reading = ⟨conn.log, .skip head seen length⟩ := by
    have rest := follows.rest
    rw [phase] at rest
    cases reading
    simp only [Reading.mk.injEq]
    exact ⟨follows.log.symm, rest.symm⟩
  have fits := follows.fits
  rw [oversizedTurn]
  dsimp only
  by_cases whole : length - seen ≤ conn.buffer.length
  · have count : min (length - seen) conn.buffer.length = length - seen := by omega
    have taken : (conn.buffer.take (length - seen)).length = length - seen := by
      rw [List.length_take]
      omega
    have skipped := @Reading.bytes_skip parse conn.log head seen length (conn.buffer.take (length - seen)) short
      told (by omega)
    rw [taken, Nat.add_sub_cancel' (Nat.le_of_lt short), if_pos rfl] at skipped
    have same : reading.bytes parse conn.buffer =
        (⟨Reading.refusing conn.log head length, .head []⟩ : Reading).bytes parse (conn.buffer.drop (length - seen)) := by
      conv_lhs => rw [← List.take_append_drop (length - seen) conn.buffer, Reading.bytes_append, at_, skipped]
    rw [Reading.refusing, if_pos long] at same
    rw [count, Nat.add_sub_cancel' (Nat.le_of_lt short), if_pos rfl, if_pos long]
    cases head with
    | some head =>
      refine .request _ _ ⟨conn.log ++ [.request ⟨head, .oversized⟩], .head []⟩
        (.fresh_scan follows.isOpen follows.eof rfl rfl trivial ?_ scanned) ?_ same.symm
      · simp only [List.length_drop]
        omega
      · simp only [Conn.weight, phase, Phase.weight, List.length_drop]
        omega
    | none =>
      refine .again _ ⟨conn.log, .head []⟩ (.fresh_scan follows.isOpen follows.eof rfl rfl trivial ?_ scanned) ?_ ?_
      · simp only [List.length_drop]
        omega
      · simp only [Conn.weight, phase, Phase.weight, List.length_drop]
        omega
      · rw [same]
        simp
  · have count : min (length - seen) conn.buffer.length = conn.buffer.length := by omega
    have skipped := @Reading.bytes_skip parse conn.log head seen length conn.buffer short told (by omega)
    rw [if_neg (by omega)] at skipped
    rw [count, if_neg (by omega), follows.eof, if_neg Bool.false_ne_true, List.drop_length]
    by_cases late : maxBody < seen + conn.buffer.length
    · rw [if_pos late, if_pos late]
      rw [Reading.refusing, if_pos late, if_pos late] at skipped
      cases head with
      | some head =>
        refine .request _ _ ⟨conn.log ++ [.request ⟨head, .oversized⟩], .skip none (seen + conn.buffer.length) length⟩
          (.fresh_scan follows.isOpen rfl rfl rfl ⟨by omega, fun _ => rfl, long⟩ (Nat.zero_le _) scanned) ?_ ?_
        · simp only [Conn.weight, phase, Phase.weight, List.length_nil]
          omega
        · rw [at_, skipped]
          rfl
      | none =>
        refine .none_ _ (.inside follows.isOpen rfl ?_ ?_ ⟨by omega, fun _ => rfl, long⟩ (fun same => by cases same) rfl scanned)
        · rw [at_, skipped]
          simp
        · rw [at_, skipped]
          rfl
    · rw [if_neg late, if_neg late]
      rw [Reading.refusing, if_neg late, if_neg late] at skipped
      refine .none_ _ (.inside follows.isOpen rfl ?_ ?_ ⟨by omega, fun past => absurd past late, long⟩ (fun same => by cases same) rfl
        scanned)
      · rw [at_, skipped]
      · rw [at_, skipped]
        rfl

-- What a parse of the buffer says, in terms of all of the buffer.
inductive Scanned (parse : Library) (bytes : Bytes) : Parsed → Prop where
  | more (short : bytes.length < maxHead) (quiet : Quiet parse bytes) : Scanned parse bytes .more
  | full (long : maxHead ≤ bytes.length) (quiet : Quiet parse bytes) : Scanned parse bytes .tooLarge
  | decided (found : Parsed) (some_ : found ≠ .more) (same : parsed parse bytes = found) (pair : ∃ place, Pair bytes place) :
      Scanned parse bytes found

theorem parseHead_scanned (correct : Correct parse) {bytes : Bytes} {scanned : Nat} (quiet : Quiet parse (bytes.take scanned))
    (seen : scanned ≤ bytes.length) (fits : bytes.length ≤ maxHead) : Scanned parse bytes (parseHead parse bytes scanned) := by
  have undecided (quiet : Quiet parse bytes) : Scanned parse bytes (if maxHead ≤ bytes.length then .tooLarge else .more) := by
    by_cases long : maxHead ≤ bytes.length
    · rw [if_pos long]
      exact .full long quiet
    · rw [if_neg long]
      exact .more (by omega) quiet
  rw [parseHead]
  by_cases pair : ended (bytes.drop (scanned - 2)) = true
  · rw [if_pos pair]
    obtain ⟨place, unseen, pair⟩ := (ended_drop_iff bytes scanned).1 pair
    cases found : parsed parse bytes with
    | more => exact undecided (quiet.next correct seen (.inr found))
    | complete head size =>
      have small := (parsed_complete correct found).1
      dsimp only
      rw [if_neg (by omega)]
      exact .decided _ (fun same => by cases same) found ⟨place, pair⟩
    | badLine => exact .decided _ (fun same => by cases same) found ⟨place, pair⟩
    | invalid => exact .decided _ (fun same => by cases same) found ⟨place, pair⟩
    | tooLarge => exact .decided _ (fun same => by cases same) found ⟨place, pair⟩
  · rw [if_neg pair]
    exact undecided (quiet.next correct seen (.inl fun place unseen found =>
      pair ((ended_drop_iff bytes scanned).2 ⟨place, unseen, found⟩)))

theorem bytes_open (correct : Correct parse) {log : List Event} {bytes : Bytes}
    (other : ∀ head size, parsed parse bytes ≠ .complete head size) :
    (⟨log, .head []⟩ : Reading).bytes parse bytes = ⟨log, .head bytes⟩ := by
  apply Reading.bytes_head
  intro count less _ _ head size complete
  rw [List.nil_append] at complete
  have same := parsed_steady correct (by rw [complete]; exact fun same => by cases same) (bytes.drop count)
  rw [List.take_append_drop, complete] at same
  exact other head size same

theorem framed_turned (conn next : Conn) {reading : Reading} {head : Head} (isOpen : next.isOpen = true) (eof : next.eof = false)
    (phase : next.phase = .head) (scanned : next.scanned = 0) (fits : next.buffer.length ≤ maxHead)
    (less : next.buffer.length + 2 ≤ conn.buffer.length)
    (same : reading.bytes parse conn.buffer = (Reading.begun next.log head).bytes parse next.buffer) :
    Turned parse conn reading (framed next head) := by
  have weight (weight : Nat) (small : weight ≤ 3) : 2 * next.buffer.length + weight < conn.weight := by
    unfold Conn.weight
    omega
  rw [framed]
  cases framing : head.framing with
  | chunked =>
    rw [Reading.begun, framing] at same
    refine .ends _ (.stopped ?_ eof ?_ ?_) ?_
    · simp [Conn.readingHttp, Conn.closeWith]
    · rw [same, Reading.bytes_stopped]
      rfl
    · rw [same, Reading.bytes_stopped]
    · simp [Conn.readingHttp, Conn.closeWith]
  | invalid =>
    rw [Reading.begun, framing] at same
    refine .ends _ (.stopped ?_ eof ?_ ?_) ?_
    · simp [Conn.readingHttp, Conn.closeWith]
    · rw [same, Reading.bytes_stopped]
      rfl
    · rw [same, Reading.bytes_stopped]
    · simp [Conn.readingHttp, Conn.closeWith]
  | length length =>
    rw [Reading.begun, framing] at same
    cases length with
    | zero =>
      refine .request _ _ ⟨next.log ++ [.request ⟨head, .bytes []⟩], .head []⟩
        (.fresh_scan isOpen eof rfl (congrArg Phase.rest phase) ?_ fits scanned) ?_ same.symm
      · show next.phase.Sound
        rw [phase]
        trivial
      · rw [Conn.weight, phase]
        exact weight 1 (by omega)
    | succ length =>
      exact .again _ ⟨next.log, .body head [] (length + 1)⟩
        (.fresh_scan isOpen eof rfl rfl (Nat.succ_pos length) fits scanned) (weight 2 (by omega)) same.symm
  | oversized length =>
    have long := Head.oversized_length framing
    rw [Reading.begun, framing] at same
    exact .again _ ⟨next.log, .skip (some head) 0 length⟩
      (.fresh_scan isOpen eof rfl rfl ⟨by omega, fun past => by omega, long⟩ fits scanned) (weight 3 (by omega)) same.symm

theorem headTurn_turned (correct : Correct parse) (follows : Follows parse conn reading) (phase : conn.phase = .head) :
    Turned parse conn reading (headTurn parse conn) := by
  have at_ : reading = ⟨conn.log, .head []⟩ := by
    have rest := follows.rest
    rw [phase] at rest
    cases reading
    simp only [Reading.mk.injEq]
    exact ⟨follows.log.symm, rest.symm⟩
  have fits := follows.fits
  rw [headTurn]
  by_cases empty : conn.buffer = []
  · rw [if_pos empty, follows.eof, if_neg Bool.false_ne_true]
    have none_ : conn.scanned = 0 := by
      have seen := follows.scanned
      rw [empty] at seen
      exact Nat.le_zero.1 seen
    refine .none_ _ (.waits [] ?_ follows.isOpen follows.eof ?_ phase empty none_ (by decide) quiet_nil)
    · rw [empty, Reading.bytes_nil, at_]
    · rw [empty, Reading.bytes_nil, at_]
  · rw [if_neg empty]
    dsimp only
    have scanned := parseHead_scanned correct follows.quiet follows.scanned fits
    -- What is no complete head ends the connection there.
    have failed (next : Conn) (events : List Event) (isOpen : next.readingHttp = false) (eof : next.eof = false)
        (log : next.log = conn.log ++ events) (why : Failed parse conn.buffer events)
        (other : ∀ head size, parsed parse conn.buffer ≠ .complete head size) :
        Turned parse conn reading (.again next) := by
      have open_ := @bytes_open parse correct conn.log _ other
      refine .ends next (.failed conn.buffer events ?_ isOpen eof ?_ why) isOpen
      · rw [at_, open_]
      · rw [at_, open_]
        exact log
    generalize parseHead parse conn.buffer conn.scanned = found at scanned ⊢
    cases scanned with
    | more short quiet =>
      dsimp only
      rw [follows.eof, if_neg Bool.false_ne_true]
      have open_ := @bytes_open parse correct conn.log _ (quiet.not_complete correct)
      refine .none_ _ (.waits conn.buffer ?_ follows.isOpen rfl ?_ phase rfl rfl short quiet)
      · rw [at_, open_]
      · rw [at_, open_]
    | full long quiet =>
      refine failed _ [.refused .headTooLarge] ?_ follows.eof rfl (.full long ?_ rfl) (quiet.not_complete correct)
      · simp [Conn.readingHttp, Conn.closeWith]
      · rw [List.take_of_length_le fits]
        exact quiet
    | decided found some_ same pair =>
      have decided (events : List Event) (other : ∀ head size, found ≠ .complete head size) (told : events = found.events) :
          Failed parse conn.buffer events :=
        .decided conn.buffer [] (List.append_nil _).symm fits (same ▸ some_) (same ▸ other) pair (same ▸ told)
      cases found with
      | more => exact absurd rfl some_
      | badLine =>
        exact failed _ [.closed] (by simp [Conn.readingHttp, Conn.close]) follows.eof rfl
          (decided _ (fun _ _ no => by cases no) rfl) (by rw [same]; exact fun _ _ no => by cases no)
      | invalid =>
        exact failed _ [.refused .badRequest] (by simp [Conn.readingHttp, Conn.closeWith]) follows.eof rfl
          (decided _ (fun _ _ no => by cases no) rfl) (by rw [same]; exact fun _ _ no => by cases no)
      | tooLarge =>
        exact failed _ [.refused .headTooLarge] (by simp [Conn.readingHttp, Conn.closeWith]) follows.eof rfl
          (decided _ (fun _ _ no => by cases no) rfl) (by rw [same]; exact fun _ _ no => by cases no)
      | complete head size =>
        obtain ⟨small, own, _, before, line⟩ := parsed_complete correct same
        have two : 2 ≤ size := by
          have length : (conn.buffer.take size).length = size := by
            rw [List.length_take]
            omega
          obtain ends | ends := line
          · rw [← length, ends]
            simp
          · rw [← length, ends]
            simp
        have length : (conn.buffer.take size).length = size := by
          rw [List.length_take]
          omega
        have complete := @Reading.bytes_complete parse conn.log correct (conn.buffer.take size) head
          (by omega) (by rw [length]; exact own)
        refine framed_turned conn _ follows.isOpen follows.eof phase rfl ?_ ?_ ?_
        · simp only [List.length_drop]
          omega
        · simp only [List.length_drop]
          omega
        · conv_lhs => rw [← List.take_append_drop size conn.buffer, Reading.bytes_append, at_, complete]

theorem turn_turned (correct : Correct parse) (follows : Follows parse conn reading) : Turned parse conn reading (turn parse conn) := by
  rw [turn]
  cases phase : conn.phase with
  | head => exact headTurn_turned correct follows phase
  | body head body length => exact bodyTurn_turned follows phase
  | oversized head seen length => exact oversizedTurn_turned follows phase
  | closing =>
    have sound := follows.sound
    rw [phase] at sound
    exact sound.elim

end Turns

theorem nextRequest_ended {conn : Conn} (ended : conn.readingHttp = false) (eof : conn.eof = false) (turns : Nat) :
    nextRequest parse turns conn = (none, conn) := by
  cases turns with
  | zero => rfl
  | succ turns =>
    rw [nextRequest]
    by_cases isOpen : conn.isOpen = true
    · rw [if_pos isOpen, turn]
      cases phase : conn.phase with
      | closing => rfl
      | head => simp [Conn.readingHttp, isOpen, eof, phase] at ended
      | body head body length => simp [Conn.readingHttp, isOpen, eof, phase] at ended
      | oversized head seen length => simp [Conn.readingHttp, isOpen, eof, phase] at ended
    · rw [if_neg isOpen]

-- What `next_request` gives: a request, with the connection still behind the reading, or none and all of the buffer taken.
theorem nextRequest_spec (correct : Correct parse) {turns : Nat} {conn : Conn} {reading : Reading} (follows : Follows parse conn reading)
    (enough : conn.weight < turns) :
    (∃ next, nextRequest parse turns conn = (none, next) ∧ Done parse next (reading.bytes parse conn.buffer)) ∨
    ∃ request next after, nextRequest parse turns conn = (some request, next) ∧
      Follows parse { next with log := next.log ++ [.request request] } after ∧ next.weight < conn.weight ∧
      after.bytes parse next.buffer = reading.bytes parse conn.buffer := by
  induction turns generalizing conn reading with
  | zero => cases enough
  | succ turns ih =>
    have turned := turn_turned correct follows
    rw [nextRequest, if_pos follows.isOpen]
    generalize turn parse conn = taken at turned
    cases turned with
    | again next after follows less same =>
      dsimp only
      rw [← same]
      obtain none_ | ⟨request, last, final, result, behind, fewer, equal⟩ := ih follows (by omega)
      · exact .inl none_
      · exact .inr ⟨request, last, final, result, behind, by omega, equal⟩
    | ends next done ended =>
      have eof : next.eof = false := by
        cases done with
        | waits _ _ _ eof => exact eof
        | inside _ eof => exact eof
        | stopped _ eof => exact eof
        | failed _ _ _ _ eof => exact eof
      exact .inl ⟨next, nextRequest_ended ended eof turns, done⟩
    | request request next after follows less same => exact .inr ⟨request, next, after, rfl, follows, less, same⟩
    | none_ next done => exact .inl ⟨next, rfl, done⟩

theorem weight_lt_turns (conn : Conn) : conn.weight < conn.turns := by
  rw [Conn.weight, Conn.turns]
  cases phase : conn.phase with
  | head => rw [Phase.weight]; omega
  | closing => rw [Phase.weight]; omega
  | body head body length => rw [Phase.weight]; omega
  | oversized head seen length => cases head <;> rw [Phase.weight] <;> omega

theorem serve_done (correct : Correct parse) {calls : Nat} {conn : Conn} {reading : Reading} (follows : Follows parse conn reading)
    (enough : conn.weight < calls) : Done parse (conn.serve parse calls) (reading.bytes parse conn.buffer) := by
  induction calls generalizing conn reading with
  | zero => cases enough
  | succ calls ih =>
    rw [Conn.serve]
    obtain ⟨next, result, done⟩ | ⟨request, next, after, result, behind, fewer, same⟩ :=
      nextRequest_spec correct follows (weight_lt_turns conn)
    · rw [result]
      exact done
    · rw [result, ← same]
      have weight : Conn.weight { next with log := next.log ++ [.request request] } = next.weight := rfl
      exact ih behind (by omega)

end Kido.Requesting
