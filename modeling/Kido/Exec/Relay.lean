import Kido.Exec.Wire
import Kido.Shared.Outcome

set_option autoImplicit false

namespace Kido.Relaying

open Kido.Shared

theorem ofBe_toBe {value : Nat} (small : value < 2 ^ 32) : ofBe (toBe value) = value := by
  rw [ofBe, toBe, List.reverse_reverse]
  exact ofLe_leBytes (by omega)

theorem toBe_four (value : Nat) : ∃ a b c d, toBe value = [a, b, c, d] := ⟨_, _, _, _, rfl⟩

theorem Raw.bytes_length (raw : Raw) : raw.bytes.length = header + raw.payload.length := by
  simp [Raw.bytes, toBe, header]
  omega

theorem Raw.bytes_header (raw : Raw) (rest : Bytes) :
    ∃ a b c d, (raw.bytes ++ rest).take header = [raw.kind, a, b, c, d] ∧
      (raw.payload.length < 2 ^ 32 → ofBe [a, b, c, d] = raw.payload.length) ∧
      (2 ^ 32 ≤ raw.payload.length → ofBe [a, b, c, d] = 0) := by
  obtain ⟨a, b, c, d, four⟩ := toBe_four (if raw.payload.length < 2 ^ 32 then raw.payload.length else 0)
  refine ⟨a, b, c, d, by rw [Raw.bytes, four]; rfl, ?_, ?_⟩
  · intro small
    rw [← four, if_pos small, ofBe_toBe small]
  · intro large
    rw [← four, if_neg (by omega), ofBe_toBe (by decide)]

theorem Raw.bytes_drop (raw : Raw) (rest : Bytes) {within : Nat} (inside : within ≤ raw.payload.length) :
    (raw.bytes ++ rest).drop (header + within) = raw.payload.drop within ++ rest := by
  obtain ⟨a, b, c, d, four⟩ := toBe_four (if raw.payload.length < 2 ^ 32 then raw.payload.length else 0)
  rw [Raw.bytes, four, ← List.drop_drop]
  exact List.drop_append_of_le_length inside

theorem chunks_flatten (bytes : Bytes) : (chunks bytes).flatten = bytes := by
  fun_induction chunks bytes with
  | case1 => rfl
  | case2 bytes some_ ih => rw [List.flatten_cons, ih, List.take_append_drop]

theorem chunks_length (bytes : Bytes) : ∀ part ∈ chunks bytes, part.length ≤ maxPayload := by
  fun_induction chunks bytes with
  | case1 => simp
  | case2 bytes some_ ih =>
    intro part member
    rcases List.mem_cons.1 member with rfl | later
    · exact List.length_take_le _ _
    · exact ih part later

variable {Message : Type}

-- The messages that a frame stands for, with data a byte at a time.
def Direction.atoms (direction : Direction Message) (raw : Raw) : List Message :=
  if raw.kind ∈ direction.data then raw.payload.flatMap fun byte => (direction.read raw.kind [byte]).toOption.toList
  else (direction.read raw.kind raw.payload).toOption.toList

-- A frame of the direction, of data or of a message that stays whole.
structure Direction.Framed (direction : Direction Message) (spread : Message → List Message) (part : Message → Bytes)
    (raw : Raw) : Prop where
  known : raw.kind ∈ direction.data ∨ raw.kind ∈ direction.control
  cut : raw.kind ∈ direction.data → raw.payload.length ≤ maxPayload
  whole : raw.kind ∉ direction.data → ∃ message, direction.read raw.kind raw.payload = .ok message ∧ part message = [] ∧
    spread message = direction.atoms raw
  refused : maxPayload < raw.payload.length → ∃ invalid, direction.read raw.kind [] = .error invalid

-- A frame that the reader takes: a data frame in parts, another one whole.
structure Direction.Takes (direction : Direction Message) (spread : Message → List Message) (part : Message → Bytes)
    (raw : Raw) : Prop extends direction.Framed spread part raw where
  small : raw.payload.length ≤ maxPayload

structure Direction.Parts (direction : Direction Message) (spread : Message → List Message) (part : Message → Bytes) : Prop where
  reads : ∀ kind ∈ direction.data, ∀ bytes, ∃ message, direction.read kind bytes = .ok message ∧ part message = bytes ∧
    spread message = direction.atoms ⟨kind, bytes⟩

-- What is left of the frames, where some bytes of the first one are taken.
def Direction.left (direction : Direction Message) (within : Nat) : List Raw → List Message
  | [] => []
  | raw :: later => direction.atoms ⟨raw.kind, raw.payload.drop within⟩ ++ later.flatMap direction.atoms

theorem Direction.left_zero (direction : Direction Message) (raws : List Raw) :
    direction.left 0 raws = raws.flatMap direction.atoms := by
  cases raws <;> rfl

-- The buffer holds the first bytes of the frames, and the others are still to come.
structure Stands (direction : Direction Message) (raws : List Raw) (more : Bytes) (frames : Frames) : Prop where
  inside : frames.place ≤ frames.buffer.length
  stream : frames.rest ++ more = raws.flatMap Raw.bytes
  none_ : raws = [] → frames.within = 0
  within : ∀ raw later, raws = raw :: later →
    frames.within = 0 ∨ (raw.kind ∈ direction.data ∧ frames.within < raw.payload.length)

namespace Frames

theorem rest_length (frames : Frames) : frames.rest.length = frames.buffer.length - frames.place := List.length_drop

theorem next_short {frames : Frames} {room : Nat} {data control : List UInt8} (short : frames.rest.length < header) :
    frames.next room data control = .ok none := by
  unfold next
  split
  next kind a b c d same =>
    have length := congrArg List.length same
    rw [List.length_take] at length
    simp [header] at length short
    omega
  next => rfl

theorem next_known {frames : Frames} {room : Nat} {data control : List UInt8} {kind a b c d : UInt8}
    (head : frames.rest.take header = [kind, a, b, c, d]) (known : kind ∈ data ∨ kind ∈ control)
    (small : ofBe [a, b, c, d] ≤ maxPayload) :
    frames.next room data control =
      (let start := frames.place + header
      let stop := start + ofBe [a, b, c, d]
      if frames.buffer.length < stop then .ok none
      else if kind ∉ data then .ok (some ((kind, start, stop), { frames with place := stop }))
      else
        let begins := start + frames.within
        let upto := min (begins + room) stop
        if upto ≤ begins ∧ begins < stop then .ok none
        else if upto = stop then .ok (some ((kind, begins, upto), ⟨frames.buffer, stop, 0⟩))
        else .ok (some ((kind, begins, upto), { frames with within := upto - start }))) := by
  unfold next
  rw [head]
  simp only
  rw [if_neg (by tauto), if_neg (by omega)]

theorem part_eq (frames : Frames) (skip count : Nat) :
    frames.part (frames.place + skip) (frames.place + skip + count) = (frames.rest.drop skip).take count := by
  rw [part, rest, List.drop_take, List.drop_drop, Nat.add_sub_cancel_left]

end Frames

section Take

variable {direction : Direction Message} {spread : Message → List Message} {part : Message → Bytes} {raws : List Raw}
  {more : Bytes} {frames : Frames}

theorem Direction.atoms_append {kind : UInt8} (data : kind ∈ direction.data) (first second : Bytes) :
    direction.atoms ⟨kind, first ++ second⟩ = direction.atoms ⟨kind, first⟩ ++ direction.atoms ⟨kind, second⟩ := by
  simp [Direction.atoms, data]

theorem Stands.whole {raw : Raw} {later : List Raw} (stands : Stands direction (raw :: later) more frames)
    (enough : raw.bytes.length ≤ frames.rest.length) :
    ∃ tail, frames.rest = raw.bytes ++ tail ∧ tail ++ more = later.flatMap Raw.bytes := by
  have stream := stands.stream
  rw [List.flatMap_cons] at stream
  obtain ⟨tail, whole⟩ := List.prefix_of_prefix_length_le (List.prefix_append _ _)
    (stream ▸ List.prefix_append frames.rest more) enough
  refine ⟨tail, whole.symm, ?_⟩
  rw [← whole, List.append_assoc] at stream
  exact List.append_cancel_left stream

theorem Stands.length {raw : Raw} {later : List Raw} (stands : Stands direction (raw :: later) more frames)
    (enough : header ≤ frames.rest.length) :
    ∃ a b c d, frames.rest.take header = [raw.kind, a, b, c, d] ∧
      (raw.payload.length < 2 ^ 32 → ofBe [a, b, c, d] = raw.payload.length) ∧
      (2 ^ 32 ≤ raw.payload.length → ofBe [a, b, c, d] = 0) := by
  obtain ⟨a, b, c, d, head, rest⟩ := raw.bytes_header (later.flatMap Raw.bytes)
  refine ⟨a, b, c, d, ?_, rest⟩
  rw [← head, ← List.flatMap_cons, ← stands.stream, List.take_append_of_le_length enough]

theorem Stands.waits {raw : Raw} {later : List Raw} (stands : Stands direction (raw :: later) more frames)
    (takes : direction.Takes spread part raw) (short : frames.rest.length < raw.bytes.length) (room : Nat) :
    frames.next room direction.data direction.control = .ok none := by
  by_cases enough : header ≤ frames.rest.length
  · obtain ⟨a, b, c, d, head, length, -⟩ := stands.length enough
    have small := takes.small
    have limit : maxPayload < 2 ^ 32 := by decide
    have size := length (by omega)
    have inside := stands.inside
    rw [Frames.next_known head takes.known (by omega)]
    simp only [size]
    rw [Raw.bytes_length, Frames.rest_length] at short
    rw [if_pos (by omega)]
  · exact Frames.next_short (by omega)

structure Took (direction : Direction Message) (spread : Message → List Message) (part : Message → Bytes) (raws : List Raw)
    (more : Bytes) (frames : Frames) (room : Nat) (message : Message) (after : Frames) (left : List Raw) : Prop where
  fits : (part message).length ≤ room
  spread : spread message ++ direction.left after.within left = direction.left frames.within raws
  stands : Stands direction left more after
  suffix : left <:+ raws

theorem Stands.passed {raw : Raw} {later : List Raw} (stands : Stands direction (raw :: later) more frames)
    (enough : raw.bytes.length ≤ frames.rest.length) :
    Stands direction later more ⟨frames.buffer, frames.place + header + raw.payload.length, 0⟩ := by
  obtain ⟨tail, whole, stream⟩ := stands.whole enough
  have rest : Frames.rest ⟨frames.buffer, frames.place + header + raw.payload.length, 0⟩ = tail := by
    have drop := raw.bytes_drop tail (Nat.le_refl raw.payload.length)
    rw [← whole, List.drop_length, List.nil_append, Frames.rest, List.drop_drop] at drop
    rw [Frames.rest, Nat.add_assoc]
    exact drop
  have inside := stands.inside
  rw [Frames.rest_length, Raw.bytes_length] at enough
  exact ⟨by simp only; omega, by rw [rest]; exact stream, fun _ => rfl, fun _ _ _ => .inl rfl⟩

theorem Stands.part_eq {raw : Raw} {later : List Raw} (stands : Stands direction (raw :: later) more frames)
    (enough : raw.bytes.length ≤ frames.rest.length) {within count : Nat} (inside : within + count ≤ raw.payload.length) :
    frames.part (frames.place + header + within) (frames.place + header + within + count) =
      (raw.payload.drop within).take count := by
  obtain ⟨tail, whole, -⟩ := stands.whole enough
  rw [Nat.add_assoc frames.place header within, Frames.part_eq, whole, raw.bytes_drop tail (by omega),
    List.take_append_of_le_length (by rw [List.length_drop]; omega)]

theorem Stands.takes_control {raw : Raw} {later : List Raw} {room : Nat} (stands : Stands direction (raw :: later) more frames)
    (takes : direction.Takes spread part raw) (control : raw.kind ∉ direction.data)
    (enough : raw.bytes.length ≤ frames.rest.length) :
    ∃ message, frames.take direction room =
        .ok (some message, ⟨frames.buffer, frames.place + header + raw.payload.length, 0⟩) ∧
      Took direction spread part (raw :: later) more frames room message
        ⟨frames.buffer, frames.place + header + raw.payload.length, 0⟩ later := by
  obtain ⟨message, read, none_, spreads⟩ := takes.whole control
  have none' : frames.within = 0 := (stands.within raw later rfl).resolve_right fun data => control data.1
  have passed := stands.passed enough
  have bytes := stands.part_eq enough (Nat.le_of_eq (Nat.zero_add raw.payload.length))
  rw [List.drop_zero, List.take_length, Nat.add_zero] at bytes
  have long := raw.bytes_length
  obtain ⟨a, b, c, d, head, length, -⟩ := stands.length (by omega)
  have small := takes.small
  have limit : maxPayload < 2 ^ 32 := by decide
  have size := length (by omega)
  have inside := stands.inside
  rw [Frames.rest_length] at enough
  have next : frames.next room direction.data direction.control =
      .ok (some ((raw.kind, frames.place + header, frames.place + header + raw.payload.length),
        ⟨frames.buffer, frames.place + header + raw.payload.length, 0⟩)) := by
    rw [Frames.next_known head takes.known (by omega)]
    simp only [size]
    rw [if_neg (by omega), if_pos control, none']
  refine ⟨message, ?_, by rw [none_]; exact Nat.zero_le _, ?_, passed, List.suffix_cons raw later⟩
  · have same : Frames.part ⟨frames.buffer, frames.place + header + raw.payload.length, 0⟩ (frames.place + header)
      (frames.place + header + raw.payload.length) = raw.payload := bytes
    unfold Frames.take
    rw [next]
    simp only [same, read]
  · change spread message ++ direction.left 0 later = _
    rw [spreads, none', direction.left_zero, direction.left_zero, List.flatMap_cons]

theorem Stands.knows {raw : Raw} {later : List Raw} (stands : Stands direction (raw :: later) more frames)
    (takes : direction.Takes spread part raw) (data : raw.kind ∈ direction.data)
    (enough : raw.bytes.length ≤ frames.rest.length) (room : Nat) :
    frames.within ≤ raw.payload.length ∧
    frames.next room direction.data direction.control =
      (let begins := frames.place + header + frames.within
      let stop := frames.place + header + raw.payload.length
      let upto := min (begins + room) stop
      if upto ≤ begins ∧ begins < stop then .ok none
      else if upto = stop then .ok (some ((raw.kind, begins, upto), ⟨frames.buffer, stop, 0⟩))
      else .ok (some ((raw.kind, begins, upto), { frames with within := upto - (frames.place + header) }))) := by
  have within : frames.within ≤ raw.payload.length := by
    rcases stands.within raw later rfl with none_ | some_
    · omega
    · exact Nat.le_of_lt some_.2
  have long := raw.bytes_length
  obtain ⟨a, b, c, d, head, length, -⟩ := stands.length (by omega)
  have small := takes.small
  have limit : maxPayload < 2 ^ 32 := by decide
  have size := length (by omega)
  have inside := stands.inside
  rw [Frames.rest_length] at enough
  have known := @Frames.next_known frames room direction.data direction.control _ _ _ _ _ head takes.known (by omega)
  simp only [size] at known
  rw [if_neg (by omega), if_neg (by tauto)] at known
  exact ⟨within, known⟩

theorem Stands.takes_rest {raw : Raw} {later : List Raw} {room : Nat} (stands : Stands direction (raw :: later) more frames)
    (takes : direction.Takes spread part raw) (parts : direction.Parts spread part) (data : raw.kind ∈ direction.data)
    (enough : raw.bytes.length ≤ frames.rest.length) (last : raw.payload.length ≤ frames.within + room) :
    ∃ message, frames.take direction room =
        .ok (some message, ⟨frames.buffer, frames.place + header + raw.payload.length, 0⟩) ∧
      Took direction spread part (raw :: later) more frames room message
        ⟨frames.buffer, frames.place + header + raw.payload.length, 0⟩ later := by
  have passed := stands.passed enough
  obtain ⟨within, known⟩ := stands.knows takes data enough room
  have upto : min (frames.place + header + frames.within + room) (frames.place + header + raw.payload.length) =
      frames.place + header + raw.payload.length := by omega
  simp only [upto] at known
  rw [if_neg (by omega)] at known
  simp only [if_true] at known
  obtain ⟨message, read, whole, spreads⟩ := parts.reads raw.kind data (raw.payload.drop frames.within)
  have count : frames.within + (raw.payload.length - frames.within) = raw.payload.length := by omega
  have bytes := stands.part_eq enough (Nat.le_of_eq count)
  have stop : frames.place + header + frames.within + (raw.payload.length - frames.within) =
      frames.place + header + raw.payload.length := by omega
  rw [stop, List.take_of_length_le (by rw [List.length_drop])] at bytes
  refine ⟨message, ?_, ?_, ?_, passed, List.suffix_cons raw later⟩
  · have same : Frames.part ⟨frames.buffer, frames.place + header + raw.payload.length, 0⟩
        (frames.place + header + frames.within) (frames.place + header + raw.payload.length) =
          raw.payload.drop frames.within := bytes
    unfold Frames.take
    rw [known]
    simp only [same, read]
  · rw [whole, List.length_drop]
    omega
  · change spread message ++ direction.left 0 later = _
    rw [spreads, direction.left_zero]
    rfl

theorem Stands.takes_part {raw : Raw} {later : List Raw} {room : Nat} (stands : Stands direction (raw :: later) more frames)
    (takes : direction.Takes spread part raw) (parts : direction.Parts spread part) (data : raw.kind ∈ direction.data)
    (positive : 0 < room) (enough : raw.bytes.length ≤ frames.rest.length)
    (more_ : frames.within + room < raw.payload.length) :
    ∃ message, frames.take direction room = .ok (some message, ⟨frames.buffer, frames.place, frames.within + room⟩) ∧
      Took direction spread part (raw :: later) more frames room message
        ⟨frames.buffer, frames.place, frames.within + room⟩ (raw :: later) := by
  obtain ⟨within, known⟩ := stands.knows takes data enough room
  have upto : min (frames.place + header + frames.within + room) (frames.place + header + raw.payload.length) =
      frames.place + header + frames.within + room := by omega
  simp only [upto] at known
  rw [if_neg (by omega), if_neg (by omega)] at known
  obtain ⟨message, read, whole, spreads⟩ := parts.reads raw.kind data ((raw.payload.drop frames.within).take room)
  have bytes := stands.part_eq enough (Nat.le_of_lt more_)
  have after : frames.place + header + frames.within + room - (frames.place + header) = frames.within + room := by omega
  rw [after] at known
  refine ⟨message, ?_, ?_, ?_, ?_, List.suffix_refl _⟩
  · have same : Frames.part ⟨frames.buffer, frames.place, frames.within + room⟩
        (frames.place + header + frames.within) (frames.place + header + frames.within + room) =
          (raw.payload.drop frames.within).take room := bytes
    unfold Frames.take
    rw [known]
    simp only [same, read]
  · rw [whole]
    exact List.length_take_le _ _
  · change spread message ++ direction.left (frames.within + room) (raw :: later) = _
    rw [spreads, Direction.left, Direction.left, ← List.append_assoc, ← List.drop_drop, ← direction.atoms_append data,
      List.take_append_drop]
  · refine ⟨stands.inside, stands.stream, nofun, fun other rest same => .inr ?_⟩
    cases same
    exact ⟨data, more_⟩

-- A call takes the next message out, or the part of it that fits the room, or finds that the next frame is not whole.
theorem Stands.take_cases {room : Nat} (stands : Stands direction raws more frames)
    (takes : ∀ raw later, raws = raw :: later → direction.Takes spread part raw) (parts : direction.Parts spread part)
    (positive : 0 < room) :
    (frames.take direction room = .ok (none, frames) ∧
      (raws = [] ∨ ∃ raw later, raws = raw :: later ∧ frames.rest.length < raw.bytes.length)) ∨
    ∃ message after left, frames.take direction room = .ok (some message, after) ∧
      Took direction spread part raws more frames room message after left := by
  have none_ (next : frames.next room direction.data direction.control = .ok none) :
      frames.take direction room = .ok (none, frames) := by
    unfold Frames.take
    rw [next]
  cases raws with
  | nil =>
    have empty : frames.rest = [] := (List.append_eq_nil_iff.1 stands.stream).1
    exact .inl ⟨none_ (Frames.next_short (by rw [empty]; decide)), .inl rfl⟩
  | cons raw later =>
    have first := takes raw later rfl
    by_cases enough : raw.bytes.length ≤ frames.rest.length
    · right
      by_cases data : raw.kind ∈ direction.data
      · by_cases last : raw.payload.length ≤ frames.within + room
        · obtain ⟨message, taken, took⟩ := stands.takes_rest first parts data enough last
          exact ⟨message, _, later, taken, took⟩
        · obtain ⟨message, taken, took⟩ := stands.takes_part first parts data positive enough (by omega)
          exact ⟨message, _, raw :: later, taken, took⟩
      · obtain ⟨message, taken, took⟩ := @Stands.takes_control _ _ _ _ _ _ _ _ room stands first data enough
        exact ⟨message, _, later, taken, took⟩
    · exact .inl ⟨none_ (stands.waits first (by omega) room), .inr ⟨raw, later, rfl, by omega⟩⟩

theorem Stands.fill {bytes : Bytes} (fits : bytes.length ≤ readLen) (stands : Stands direction raws (bytes ++ more) frames) :
    Stands direction raws more (frames.fill bytes) := by
  have inside := stands.inside
  have rest : (frames.fill bytes).rest = frames.rest ++ bytes := by
    rw [Frames.rest, Frames.rest, Frames.fill, List.drop_zero, Nat.min_eq_left inside, List.take_of_length_le fits]
  refine ⟨Nat.zero_le _, ?_, stands.none_, stands.within⟩
  rw [rest, List.append_assoc]
  exact stands.stream

end Take

inductive Call
  | fill (bytes : { bytes : Bytes // bytes.length ≤ readLen })
  | take (room : { room : Nat // 0 < room })

def Call.come : Call → Bytes
  | .fill bytes => bytes.val
  | .take _ => []

namespace Frames

def call (direction : Direction Message) (frames : Frames) : Call → Except Invalid (List (Nat × Message) × Frames)
  | .fill bytes => .ok ([], frames.fill bytes)
  | .take room => do
    let (message, after) ← frames.take direction room
    return (message.toList.map (room.val, ·), after)

def run (direction : Direction Message) (frames : Frames) : List Call → Except Invalid (List (Nat × Message) × Frames)
  | [] => .ok ([], frames)
  | call :: calls => do
    let (got, after) ← frames.call direction call
    let (later, last) ← run direction after calls
    return (got ++ later, last)

end Frames

section Run

variable {direction : Direction Message} {spread : Message → List Message} {part : Message → Bytes}

structure Ran (direction : Direction Message) (spread : Message → List Message) (part : Message → Bytes) (raws : List Raw)
    (more : Bytes) (frames : Frames) (got : List (Nat × Message)) (last : Frames) (left : List Raw) : Prop where
  fits : ∀ taken ∈ got, (part taken.2).length ≤ taken.1
  spread : got.flatMap (fun taken => spread taken.2) ++ direction.left last.within left = direction.left frames.within raws
  stands : Stands direction left more last
  suffix : left <:+ raws

theorem call_ran {raws : List Raw} {call : Call} {more : Bytes} {frames : Frames}
    (stands : Stands direction raws (call.come ++ more) frames)
    (takes : ∀ raw ∈ raws, direction.Takes spread part raw) (parts : direction.Parts spread part) :
    ∃ got after left, frames.call direction call = .ok (got, after) ∧
      Ran direction spread part raws more frames got after left := by
  cases call with
  | fill bytes => exact ⟨[], _, raws, rfl, by simp, rfl, stands.fill bytes.property, List.suffix_refl _⟩
  | take room =>
    have first : ∀ raw later, raws = raw :: later → direction.Takes spread part raw :=
      fun raw later same => takes raw (same ▸ List.mem_cons_self)
    rcases stands.take_cases first parts room.property with ⟨taken, -⟩ | ⟨message, after, left, taken, took⟩
    · exact ⟨[], frames, raws, by simp [Frames.call, taken], by simp, rfl, stands, List.suffix_refl _⟩
    · refine ⟨[(room.val, message)], after, left, by simp [Frames.call, taken], ?_, ?_, took.stands, took.suffix⟩
      · simpa using took.fits
      · simpa using took.spread

theorem run_ran {raws : List Raw} {calls : List Call} {more : Bytes} {frames : Frames}
    (stands : Stands direction raws (calls.flatMap Call.come ++ more) frames)
    (takes : ∀ raw ∈ raws, direction.Takes spread part raw) (parts : direction.Parts spread part) :
    ∃ got last left, frames.run direction calls = .ok (got, last) ∧
      Ran direction spread part raws more frames got last left := by
  induction calls generalizing frames raws with
  | nil => exact ⟨[], frames, raws, rfl, by simp, rfl, stands, List.suffix_refl _⟩
  | cons call calls ih =>
    rw [List.flatMap_cons, List.append_assoc] at stands
    obtain ⟨got, after, left, done, ran⟩ := call_ran stands takes parts
    obtain ⟨later, last, rest, done', ran'⟩ := ih ran.stands fun raw member => takes raw (ran.suffix.subset member)
    refine ⟨got ++ later, last, rest, ?_, ?_, ?_, ran'.stands, ran'.suffix.trans ran.suffix⟩
    · rw [Frames.run, done, bind_ok_iff]
      exact ⟨_, rfl, bind_ok_iff.2 ⟨_, done', rfl⟩⟩
    · intro taken member
      rcases List.mem_append.1 member with first | second
      · exact ran.fits taken first
      · exact ran'.fits taken second
    · rw [List.flatMap_append, List.append_assoc, ran'.spread, ran.spread]

end Run

end Kido.Relaying
