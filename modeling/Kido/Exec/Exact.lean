import Kido.Exec.Relay

set_option autoImplicit false

namespace Kido.Relaying

open Kido.Shared

def ToKo.spread : ToKo → List ToKo
  | .stdin bytes => bytes.map fun byte => .stdin [byte]
  | message => [message]

def FromKo.spread : FromKo → List FromKo
  | .stdout bytes => bytes.map fun byte => .stdout [byte]
  | .stderr bytes => bytes.map fun byte => .stderr [byte]
  | message => [message]

def ToKo.part : ToKo → Bytes
  | .stdin bytes => bytes
  | _ => []

def FromKo.part : FromKo → Bytes
  | .stdout bytes => bytes
  | .stderr bytes => bytes
  | _ => []

def ToKo.json (codecs : Codecs) : ToKo → Bytes
  | .start setup => codecs.start.toVec setup
  | .signal sent => codecs.signal.toVec sent
  | _ => []

def FromKo.json (codecs : Codecs) : FromKo → Bytes
  | .exit ended => codecs.ended.toVec ended
  | _ => []

def ToKo.Reads (codecs : Codecs) : ToKo → Prop
  | .start setup => codecs.start.Reads setup
  | .signal sent => codecs.signal.Reads sent
  | _ => True

def FromKo.Reads (codecs : Codecs) : FromKo → Prop
  | .exit ended => codecs.ended.Reads ended
  | _ => True

-- However the stream is cut into fills and whatever rooms the calls have: what is taken out is what went in, as far as it
-- has come, in parts that fit their rooms. When everything has come and there is no more to take, all of it is out and the
-- buffer is empty.
def Exact {Message : Type} (direction : Direction Message) (spread : Message → List Message) (part : Message → Bytes)
    (stream : Bytes) (messages : List Message) : Prop :=
  ∀ calls : List Call, calls.flatMap Call.come <+: stream →
    ∃ got last, Frames.default.run direction calls = .ok (got, last) ∧
      (∀ taken ∈ got, (part taken.2).length ≤ taken.1) ∧
      got.flatMap (fun taken => spread taken.2) <+: messages.flatMap spread ∧
      (calls.flatMap Call.come = stream → (∀ room, 0 < room → last.take direction room = .ok (none, last)) →
        got.flatMap (fun taken => spread taken.2) = messages.flatMap spread ∧ last.isEmpty)

variable {Message : Type} {direction : Direction Message} {spread : Message → List Message} {part : Message → Bytes}

structure Direction.Written (direction : Direction Message) (spread : Message → List Message) (part : Message → Bytes)
    (message : Message) : Prop where
  spreads : (direction.raws message).flatMap direction.atoms = spread message
  framed : ∀ raw ∈ direction.raws message, direction.Framed spread part raw

theorem stream_eq (raws : Message → List Raw) (messages : List Message) (out : Bytes) :
    messages.foldl (fun out message => encoded out (raws message)) out = out ++ (messages.flatMap raws).flatMap Raw.bytes := by
  induction messages generalizing out with
  | nil => simp
  | cons message messages ih =>
    rw [List.foldl_cons, ih, encoded, List.flatMap_cons, List.flatMap_append, List.append_assoc]

theorem Stands.first (raws : List Raw) : Stands direction raws (raws.flatMap Raw.bytes) Frames.default :=
  ⟨Nat.le_refl 0, rfl, fun _ => rfl, fun _ _ _ => .inl rfl⟩

section Small

variable {messages : List Message}

theorem exact_of_small (written : ∀ message ∈ messages, direction.Written spread part message)
    (parts : direction.Parts spread part)
    (small : ∀ raw ∈ messages.flatMap direction.raws, raw.payload.length ≤ maxPayload) :
    Exact direction spread part ((messages.flatMap direction.raws).flatMap Raw.bytes) messages := by
  intro calls come
  obtain ⟨more, whole⟩ := come
  have takes : ∀ raw ∈ messages.flatMap direction.raws, direction.Takes spread part raw := by
    intro raw member
    obtain ⟨message, sent, of⟩ := List.mem_flatMap.1 member
    exact ⟨(written message sent).framed raw of, small raw member⟩
  have stands : Stands direction (messages.flatMap direction.raws) (calls.flatMap Call.come ++ more) Frames.default := by
    rw [whole]
    exact Stands.first _
  obtain ⟨got, last, left, done, ran⟩ := run_ran stands takes parts
  have all : direction.left 0 (messages.flatMap direction.raws) = messages.flatMap spread := by
    rw [direction.left_zero, List.flatMap_assoc]
    exact List.flatMap_congr fun message sent => (written message sent).spreads
  have spreads := ran.spread
  rw [show Frames.default.within = 0 from rfl, all] at spreads
  refine ⟨got, last, done, ran.fits, ⟨_, spreads⟩, fun every waits => ?_⟩
  have nothing : more = [] := by
    rw [← every] at whole
    exact List.append_right_eq_self.1 whole
  have stream := ran.stands.stream
  rw [nothing, List.append_nil] at stream
  have stops := waits 1 Nat.one_pos
  rcases ran.stands.take_cases (fun raw later same => takes raw (ran.suffix.subset (same ▸ List.mem_cons_self))) parts
    Nat.one_pos with ⟨-, gone | ⟨raw, later, same, short⟩⟩ | ⟨message, after, later, taken, -⟩
  · rw [gone] at spreads stream
    have empty := congrArg List.length stream
    rw [Frames.rest_length, List.flatMap_nil, List.length_nil] at empty
    rw [Direction.left, List.append_nil] at spreads
    exact ⟨spreads, decide_eq_true (by omega)⟩
  · rw [stream, same, List.flatMap_cons, List.length_append] at short
    omega
  · rw [stops] at taken
    cases taken

def fills (bytes : Bytes) : List Call := bytes.map fun byte => .fill ⟨[byte], Nat.succ_le_of_lt (by decide : 0 < readLen)⟩

theorem fills_come (bytes : Bytes) : (fills bytes).flatMap Call.come = bytes := by
  induction bytes with
  | nil => rfl
  | cons byte bytes ih => exact congrArg (byte :: ·) ih

theorem fills_run {raws : List Raw} {bytes more : Bytes} {frames : Frames}
    (stands : Stands direction raws (bytes ++ more) frames) :
    ∃ last, frames.run direction (fills bytes) = .ok ([], last) ∧ Stands direction raws more last ∧
      last.within = frames.within := by
  induction bytes generalizing frames with
  | nil => exact ⟨frames, rfl, stands, rfl⟩
  | cons byte bytes ih =>
    have one : [byte].length ≤ readLen := Nat.succ_le_of_lt (by decide : 0 < readLen)
    obtain ⟨last, done, rest, within⟩ := ih (@Stands.fill _ _ _ _ _ [byte] one stands)
    refine ⟨last, ?_, rest, within⟩
    change frames.run direction (.fill ⟨[byte], one⟩ :: fills bytes) = _
    rw [Frames.run, Frames.call, bind_ok_iff]
    exact ⟨_, rfl, bind_ok_iff.2 ⟨_, done, rfl⟩⟩

theorem run_append_refused {frames mid : Frames} {first second : List Call} {got : List (Nat × Message)}
    (done : frames.run direction first = .ok (got, mid)) (refused : ∀ result, mid.run direction second ≠ .ok result) :
    ∀ result, frames.run direction (first ++ second) ≠ .ok result := by
  induction first generalizing frames got with
  | nil =>
    cases done
    exact refused
  | cons call calls ih =>
    intro result whole
    rw [Frames.run] at done
    obtain ⟨⟨here, after⟩, called, done⟩ := bind_ok_iff.1 done
    obtain ⟨⟨later, last⟩, rest, same⟩ := bind_ok_iff.1 done
    cases same
    rw [List.cons_append, Frames.run] at whole
    obtain ⟨⟨here', after'⟩, called', whole⟩ := bind_ok_iff.1 whole
    rw [called] at called'
    cases called'
    obtain ⟨result', rest', -⟩ := bind_ok_iff.1 whole
    exact ih rest result' rest'

def wide : Call := .take ⟨maxPayload, by decide⟩

theorem takes_all {before later : List Raw} {frames : Frames} (stands : Stands direction (before ++ later) [] frames)
    (none_ : frames.within = 0) (takes : ∀ raw ∈ before, direction.Takes spread part raw)
    (parts : direction.Parts spread part) :
    ∃ got after, frames.run direction (before.map fun _ => wide) = .ok (got, after) ∧ Stands direction later [] after ∧
      after.within = 0 := by
  induction before generalizing frames with
  | nil => exact ⟨[], frames, rfl, stands, none_⟩
  | cons raw before ih =>
    have first := takes raw List.mem_cons_self
    have enough : raw.bytes.length ≤ frames.rest.length := by
      have stream := congrArg List.length stands.stream
      rw [List.append_nil, List.cons_append, List.flatMap_cons, List.length_append] at stream
      omega
    have taken : ∃ message, frames.take direction maxPayload =
        .ok (some message, ⟨frames.buffer, frames.place + header + raw.payload.length, 0⟩) := by
      by_cases data : raw.kind ∈ direction.data
      · have small := first.small
        obtain ⟨message, taken, -⟩ := @Stands.takes_rest _ _ _ _ _ _ _ _ maxPayload stands first parts data enough (by omega)
        exact ⟨message, taken⟩
      · obtain ⟨message, taken, -⟩ := @Stands.takes_control _ _ _ _ _ _ _ _ maxPayload stands first data enough
        exact ⟨message, taken⟩
    obtain ⟨message, taken⟩ := taken
    obtain ⟨got, after, done, rest, zero⟩ :=
      ih (stands.passed enough) rfl fun other member => takes other (List.mem_cons_of_mem raw member)
    refine ⟨(maxPayload, message) :: got, after, ?_, rest, zero⟩
    rw [List.map_cons, Frames.run]
    refine bind_ok_iff.2 ⟨([(maxPayload, message)], _), ?_, bind_ok_iff.2 ⟨_, done, rfl⟩⟩
    exact bind_ok_iff.2 ⟨_, taken, rfl⟩

theorem large_refused {raw : Raw} {later : List Raw} {frames : Frames} (stands : Stands direction (raw :: later) [] frames)
    (framed : direction.Framed spread part raw) (large : maxPayload < raw.payload.length) (room : Nat) :
    ∃ invalid, frames.take direction room = .error invalid := by
  have control : raw.kind ∉ direction.data := fun data => absurd (framed.cut data) (by omega)
  have enough : raw.bytes.length ≤ frames.rest.length := by
    have stream := congrArg List.length stands.stream
    rw [List.append_nil, List.flatMap_cons, List.length_append] at stream
    omega
  have long := raw.bytes_length
  obtain ⟨a, b, c, d, head, fits, beyond⟩ := stands.length (by omega)
  by_cases short : raw.payload.length < 2 ^ 32
  · have refused : frames.next room direction.data direction.control = .error (.size raw.payload.length) := by
      have known := framed.known
      unfold Frames.next
      rw [head]
      simp only [fits short]
      rw [if_neg (by tauto), if_pos large]
    exact ⟨_, by unfold Frames.take; rw [refused]⟩
  · have zero := beyond (by omega)
    obtain ⟨invalid, refused⟩ := framed.refused large
    have inside := stands.inside
    rw [Frames.rest_length] at enough
    have next : frames.next room direction.data direction.control =
        .ok (some ((raw.kind, frames.place + header, frames.place + header),
          { frames with place := frames.place + header })) := by
      rw [Frames.next_known head framed.known (by omega)]
      simp only [zero, Nat.add_zero]
      rw [if_neg (by omega), if_pos control]
    have nothing : Frames.part { frames with place := frames.place + header } (frames.place + header)
        (frames.place + header) = [] := by
      rw [Frames.part]
      exact List.drop_eq_nil_of_le (List.length_take_le _ _)
    refine ⟨invalid, ?_⟩
    unfold Frames.take
    rw [next]
    simp only [nothing, refused]

theorem first_large (raws : List Raw) : (∀ raw ∈ raws, raw.payload.length ≤ maxPayload) ∨
    ∃ before raw later, raws = before ++ raw :: later ∧ (∀ raw ∈ before, raw.payload.length ≤ maxPayload) ∧
      maxPayload < raw.payload.length := by
  induction raws with
  | nil => exact .inl nofun
  | cons raw raws ih =>
    by_cases small : raw.payload.length ≤ maxPayload
    · rcases ih with all | ⟨before, large, later, same, all, beyond⟩
      · exact .inl (List.forall_mem_cons.2 ⟨small, all⟩)
      · exact .inr ⟨raw :: before, large, later, by rw [same]; rfl, List.forall_mem_cons.2 ⟨small, all⟩, beyond⟩
    · exact .inr ⟨[], raw, raws, rfl, nofun, by omega⟩

theorem small_of_exact (written : ∀ message ∈ messages, direction.Written spread part message)
    (parts : direction.Parts spread part)
    (exact_ : Exact direction spread part ((messages.flatMap direction.raws).flatMap Raw.bytes) messages) :
    ∀ raw ∈ messages.flatMap direction.raws, raw.payload.length ≤ maxPayload := by
  have framed : ∀ raw ∈ messages.flatMap direction.raws, direction.Framed spread part raw := by
    intro raw member
    obtain ⟨message, sent, of⟩ := List.mem_flatMap.1 member
    exact (written message sent).framed raw of
  rcases first_large (messages.flatMap direction.raws) with small | ⟨before, raw, later, same, small, large⟩
  · exact small
  · exfalso
    have come : ((messages.flatMap direction.raws).flatMap Raw.bytes) ++ [] = _ := List.append_nil _
    obtain ⟨filled, fills_done, stands, none_⟩ := @fills_run _ direction _ _ [] _
      (come.symm ▸ Stands.first (messages.flatMap direction.raws))
    rw [same] at stands framed
    obtain ⟨got, mid, taken, at_, -⟩ := takes_all stands none_
      (fun other member => ⟨framed other (List.mem_append_left _ member), small other member⟩) parts
    obtain ⟨invalid, refused⟩ := large_refused at_ (framed raw (by simp)) large maxPayload
    have stops : ∀ result, mid.run direction [wide] ≠ .ok result := by
      intro result done
      rw [Frames.run] at done
      obtain ⟨_, called, -⟩ := bind_ok_iff.1 done
      obtain ⟨_, taken, -⟩ := bind_ok_iff.1 called
      rw [refused] at taken
      cases taken
    have whole := run_append_refused fills_done (run_append_refused taken stops)
    have nothing : (before.map (fun _ => wide) ++ [wide]).flatMap Call.come = [] := by
      simp [wide, Call.come]
    have every : (fills ((messages.flatMap direction.raws).flatMap Raw.bytes) ++
        (before.map (fun _ => wide) ++ [wide])).flatMap Call.come = (messages.flatMap direction.raws).flatMap Raw.bytes := by
      rw [List.flatMap_append, fills_come, nothing, List.append_nil]
    obtain ⟨result, last, done, -⟩ := exact_ (fills ((messages.flatMap direction.raws).flatMap Raw.bytes) ++
      (before.map (fun _ => wide) ++ [wide])) ⟨[], by rw [every, List.append_nil]⟩
    exact whole _ done

theorem exact_iff (written : ∀ message ∈ messages, direction.Written spread part message)
    (parts : direction.Parts spread part) :
    Exact direction spread part (messages.foldl (fun out message => encoded out (direction.raws message)) []) messages ↔
      ∀ message ∈ messages, ∀ raw ∈ direction.raws message, raw.payload.length ≤ maxPayload := by
  rw [stream_eq, List.nil_append]
  constructor
  · intro exact_ message sent raw of
    exact small_of_exact written parts exact_ raw (List.mem_flatMap.2 ⟨message, sent, of⟩)
  · intro small
    refine exact_of_small written parts fun raw member => ?_
    obtain ⟨message, sent, of⟩ := List.mem_flatMap.1 member
    exact small message sent raw of

end Small

theorem data_written {kind : UInt8} (one : Bytes → Message) (data_ : kind ∈ direction.data)
    (read : ∀ bytes, direction.read kind bytes = .ok (one bytes)) (bytes : Bytes) :
    (data kind bytes).flatMap direction.atoms = bytes.map (fun byte => one [byte]) ∧
      ∀ raw ∈ data kind bytes, raw.kind = kind ∧ raw.payload.length ≤ maxPayload := by
  constructor
  · have cut : (data kind bytes).flatMap direction.atoms =
        (chunks bytes).flatten.flatMap fun byte => [one [byte]] := by
      rw [data, List.flatMap_map, ← List.flatMap_id, List.flatMap_assoc]
      refine List.flatMap_congr fun part _ => ?_
      simp [Direction.atoms, data_, read, Except.toOption]
    rw [cut, chunks_flatten, List.map_eq_flatMap]
  · intro raw member
    obtain ⟨part, of, rfl⟩ := List.mem_map.1 member
    exact ⟨rfl, chunks_length bytes part of⟩

theorem json_written {α : Type} {json : Json α} {kind : UInt8} (make : α → Message) {value : α} (reads : json.Reads value)
    (raws : direction.raws (make value) = [⟨kind, json.toVec value⟩]) (control : kind ∈ direction.control)
    (other : kind ∉ direction.data) (read : ∀ bytes, direction.read kind bytes = (payload json kind bytes).map make)
    (one : spread (make value) = [make value]) (none_ : part (make value) = []) :
    direction.Written spread part (make value) := by
  have back : direction.read kind (json.toVec value) = .ok (make value) := by
    rw [read, payload, reads.back]
    rfl
  have atoms : direction.atoms ⟨kind, json.toVec value⟩ = [make value] := by
    simp [Direction.atoms, other, back, Except.toOption]
  constructor
  · rw [raws, List.flatMap_singleton, atoms, one]
  · intro raw member
    rw [raws] at member
    obtain rfl := List.mem_singleton.1 member
    refine ⟨.inr control, fun data_ => absurd data_ other, fun _ => ⟨make value, back, none_, by rw [one, atoms]⟩, ?_⟩
    intro _
    refine ⟨.payload kind, ?_⟩
    rw [read, payload, reads.none_]
    rfl

section Directions

variable (codecs : Codecs)

theorem toKo_parts : (toKo codecs).Parts ToKo.spread ToKo.part := by
  constructor
  intro kind data_ bytes
  obtain rfl := List.mem_singleton.1 data_
  refine ⟨.stdin bytes, rfl, rfl, ?_⟩
  simp [Direction.atoms, toKo, ToKo.spread, ToKo.read, Except.toOption, List.map_eq_flatMap]

theorem fromKo_parts : (fromKo codecs).Parts FromKo.spread FromKo.part := by
  constructor
  intro kind data_ bytes
  rcases List.mem_cons.1 data_ with rfl | second
  · refine ⟨.stdout bytes, rfl, rfl, ?_⟩
    simp [Direction.atoms, fromKo, FromKo.spread, FromKo.read, Except.toOption, List.map_eq_flatMap]
  · obtain rfl := List.mem_singleton.1 second
    refine ⟨.stderr bytes, rfl, rfl, ?_⟩
    simp [Direction.atoms, fromKo, FromKo.spread, FromKo.read, Except.toOption, List.map_eq_flatMap, FromKind.stdout,
      FromKind.stderr]

variable {codecs}

theorem data_framed {kind : UInt8} (one : Bytes → Message) (data_ : kind ∈ direction.data)
    (read : ∀ bytes, direction.read kind bytes = .ok (one bytes)) {bytes : Bytes} :
    ∀ raw ∈ data kind bytes, direction.Framed spread part raw := by
  intro raw member
  obtain ⟨same, small⟩ := (data_written one data_ read bytes).2 raw member
  have of : raw.kind ∈ direction.data := same ▸ data_
  exact ⟨.inl of, fun _ => small, fun other => absurd of other, fun large => absurd small (by omega)⟩

theorem ToKo.written {message : ToKo} (reads : message.Reads codecs) :
    (toKo codecs).Written ToKo.spread ToKo.part message := by
  cases message with
  | start setup => exact @json_written _ (toKo codecs) _ _ _ _ _ ToKo.start _ reads rfl (by simp [toKo]) (by simp [toKo]; decide) (fun _ => rfl) rfl rfl
  | stdin bytes =>
    have member : ToKind.stdin ∈ (toKo codecs).data := List.mem_singleton_self _
    exact ⟨(data_written ToKo.stdin member (fun _ => rfl) bytes).1, data_framed ToKo.stdin member fun _ => rfl⟩
  | eof =>
    refine ⟨rfl, fun raw member => ?_⟩
    obtain rfl := List.mem_singleton.1 member
    exact ⟨.inr (by simp [toKo]), fun data_ => absurd data_ (by simp [toKo]; decide), fun _ => ⟨.eof, rfl, rfl, rfl⟩, nofun⟩
  | signal sent => exact @json_written _ (toKo codecs) _ _ _ _ _ ToKo.signal _ reads rfl (by simp [toKo]) (by simp [toKo]; decide) (fun _ => rfl) rfl rfl

theorem FromKo.written {message : FromKo} (reads : message.Reads codecs) :
    (fromKo codecs).Written FromKo.spread FromKo.part message := by
  cases message with
  | stdout bytes =>
    have member : FromKind.stdout ∈ (fromKo codecs).data := by simp [fromKo]
    exact ⟨(data_written FromKo.stdout member (fun _ => rfl) bytes).1, data_framed FromKo.stdout member fun _ => rfl⟩
  | stderr bytes =>
    have member : FromKind.stderr ∈ (fromKo codecs).data := by simp [fromKo]
    exact ⟨(data_written FromKo.stderr member (fun _ => rfl) bytes).1, data_framed FromKo.stderr member fun _ => rfl⟩
  | exit ended => exact @json_written _ (fromKo codecs) _ _ _ _ _ FromKo.exit _ reads rfl (by simp [fromKo]) (by simp [fromKo]; decide) (fun _ => rfl) rfl rfl

theorem ToKo.small_iff {message : ToKo} :
    (∀ raw ∈ message.raws codecs, raw.payload.length ≤ maxPayload) ↔ (message.json codecs).length ≤ maxPayload := by
  cases message with
  | start setup => exact List.forall_mem_singleton
  | stdin bytes =>
    have member : ToKind.stdin ∈ (toKo codecs).data := List.mem_singleton_self _
    have small := (data_written ToKo.stdin member (fun _ => rfl) bytes).2
    exact ⟨fun _ => Nat.zero_le _, fun _ raw of => (small raw of).2⟩
  | eof => exact List.forall_mem_singleton
  | signal sent => exact List.forall_mem_singleton

theorem FromKo.small_iff {message : FromKo} :
    (∀ raw ∈ message.raws codecs, raw.payload.length ≤ maxPayload) ↔ (message.json codecs).length ≤ maxPayload := by
  cases message with
  | stdout bytes =>
    have member : FromKind.stdout ∈ (fromKo codecs).data := by simp [fromKo]
    have small := (data_written FromKo.stdout member (fun _ => rfl) bytes).2
    exact ⟨fun _ => Nat.zero_le _, fun _ raw of => (small raw of).2⟩
  | stderr bytes =>
    have member : FromKind.stderr ∈ (fromKo codecs).data := by simp [fromKo]
    have small := (data_written FromKo.stderr member (fun _ => rfl) bytes).2
    exact ⟨fun _ => Nat.zero_le _, fun _ raw of => (small raw of).2⟩
  | exit ended => exact List.forall_mem_singleton

-- The streams of the two directions are exact as long as the JSON of every control message fits a frame.
theorem relay_exact_iff (codecs : Codecs) :
    (∀ messages : List ToKo, (∀ message ∈ messages, message.Reads codecs) →
      (Exact (toKo codecs) ToKo.spread ToKo.part (messages.foldl (fun out message => message.encode codecs out) []) messages ↔
        ∀ message ∈ messages, (message.json codecs).length ≤ maxPayload)) ∧
    ∀ messages : List FromKo, (∀ message ∈ messages, message.Reads codecs) →
      (Exact (fromKo codecs) FromKo.spread FromKo.part (messages.foldl (fun out message => message.encode codecs out) [])
        messages ↔ ∀ message ∈ messages, (message.json codecs).length ≤ maxPayload) := by
  constructor
  · intro messages reads
    refine (exact_iff (fun message sent => ToKo.written (reads message sent)) (toKo_parts codecs)).trans ?_
    exact forall₂_congr fun _ _ => ToKo.small_iff
  · intro messages reads
    refine (exact_iff (fun message sent => FromKo.written (reads message sent)) (fromKo_parts codecs)).trans ?_
    exact forall₂_congr fun _ _ => FromKo.small_iff

end Directions

def Json.only {α : Type} [DecidableEq α] (value : α) (bytes : Bytes) : Json α :=
  ⟨fun other => if other = value then bytes else [], fun read => if read = bytes then some value else none⟩

theorem Json.only_reads {α : Type} [DecidableEq α] (value : α) {bytes : Bytes} (some_ : bytes ≠ []) :
    (Json.only value bytes).Reads value :=
  ⟨by simp [Json.only], if_neg some_.symm⟩

def text (words : List Char) : Bytes := words.flatMap String.utf8EncodeChar

-- The JSON of a `Start` of one word, and that of a signal and an end.
def plainCodecs (word : List Char) : Codecs :=
  ⟨.only ⟨[String.ofList word], none, [], 2500⟩
      (text "\x7b\"argv\":[\"".toList ++ text word ++ text "\"],\"env\":[],\"escalation_ms\":2500\x7d".toList),
    .only .term (text "\"term\"".toList), .only (.status 0) (text "\x7b\"status\":0\x7d".toList)⟩

def oneWord (word : List Char) : ToKo := .start ⟨[String.ofList word], none, [], 2500⟩

theorem oneWord_reads (word : List Char) : (oneWord word).Reads (plainCodecs word) := by
  refine Json.only_reads _ fun none_ => ?_
  have some_ : text "\x7b\"argv\":[\"".toList ≠ [] := by decide
  exact some_ (List.append_eq_nil_iff.1 (List.append_eq_nil_iff.1 none_).1).1

theorem oneWord_json (word : List Char) : ((oneWord word).json (plainCodecs word)).length = 43 + (text word).length := by
  have first : (text "\x7b\"argv\":[\"".toList).length = 10 := by decide
  have last : (text "\"],\"env\":[],\"escalation_ms\":2500\x7d".toList).length = 33 := by decide
  simp only [oneWord, ToKo.json, plainCodecs, Json.only, if_true, List.length_append, first, last]
  omega

theorem text_replicate (count : Nat) : (text (List.replicate count 'a')).length = count := by
  have one : (String.utf8EncodeChar 'a').length = 1 := by decide
  rw [text, List.length_flatMap, List.map_replicate, one, List.sum_replicate_nat, Nat.mul_one]

-- A short command with its input.
theorem ls_exact :
    Exact (toKo (plainCodecs ['l', 's'])) ToKo.spread ToKo.part
        ([oneWord ['l', 's'], .stdin [1, 2, 3], .eof].foldl (fun out message => message.encode (plainCodecs ['l', 's']) out) [])
        [oneWord ['l', 's'], .stdin [1, 2, 3], .eof] ∧
      Exact (fromKo (plainCodecs ['l', 's'])) FromKo.spread FromKo.part
        ([.stdout [1, 2], .stderr [3], .exit (.status 0)].foldl
          (fun out message => FromKo.encode (plainCodecs ['l', 's']) message out) [])
        [.stdout [1, 2], .stderr [3], .exit (.status 0)] := by
  obtain ⟨there, back⟩ := relay_exact_iff (plainCodecs ['l', 's'])
  constructor
  · refine (there _ ?_).2 ?_
    · exact List.forall_mem_cons.2 ⟨oneWord_reads _, List.forall_mem_cons.2 ⟨trivial, List.forall_mem_singleton.2 trivial⟩⟩
    · have short : ((oneWord ['l', 's']).json (plainCodecs ['l', 's'])).length ≤ maxPayload := by
        rw [oneWord_json]
        decide
      exact List.forall_mem_cons.2 ⟨short, List.forall_mem_cons.2 ⟨by decide, List.forall_mem_singleton.2 (by decide)⟩⟩
  · refine (back _ ?_).2 ?_
    · have reads : (FromKo.exit (.status 0)).Reads (plainCodecs ['l', 's']) := Json.only_reads _ (by decide)
      exact List.forall_mem_cons.2 ⟨trivial, List.forall_mem_cons.2 ⟨trivial, List.forall_mem_singleton.2 reads⟩⟩
    · exact List.forall_mem_cons.2 ⟨by decide, List.forall_mem_cons.2 ⟨by decide, List.forall_mem_singleton.2 (by decide)⟩⟩

def longWord : List Char := List.replicate 70000 'a'

-- The `Start` of a long command is refused.
theorem long_start_refused :
    (oneWord longWord).Reads (plainCodecs longWord) ∧
      ¬Exact (toKo (plainCodecs longWord)) ToKo.spread ToKo.part ((oneWord longWord).encode (plainCodecs longWord) [])
        [oneWord longWord] := by
  refine ⟨oneWord_reads longWord, fun exact_ => ?_⟩
  have written : ∀ message ∈ [oneWord longWord], (toKo (plainCodecs longWord)).Written ToKo.spread ToKo.part message := by
    intro message member
    obtain rfl := List.mem_singleton.1 member
    exact ToKo.written (oneWord_reads longWord)
  have small := (exact_iff written (toKo_parts _)).1 exact_ (oneWord longWord) List.mem_cons_self
  have short : ((oneWord longWord).json (plainCodecs longWord)).length ≤ maxPayload := ToKo.small_iff.1 small
  rw [oneWord_json, longWord, text_replicate] at short
  exact absurd short (by decide)

end Kido.Relaying
