import Kido.Wire.Encode
import Mathlib.Data.List.Infix
import Mathlib.Algebra.Order.Ring.Nat

set_option autoImplicit false

namespace Kido.Framing

open Kido.Shared

def IsFrame (frame : Bytes) : Prop := ∀ rest, frameSize (frame ++ rest) = .ok (some frame.length)

theorem frameSize_some {input : Bytes} {size : Nat} (found : frameSize input = .ok (some size)) :
    4 ≤ input.length ∧ size = ofLe (input.take 4) + 4 ∧ 1 ≤ ofLe (input.take 4) ∧ ofLe (input.take 4) ≤ maxFrame ∧
      size ≤ input.length := by
  unfold frameSize at found
  split at found
  next => cases found
  next long =>
    simp only at found
    split at found
    next valid =>
      split at found
      next whole =>
        cases found
        exact ⟨by omega, rfl, valid.1, valid.2, whole⟩
      next => cases found
    next => cases found

theorem frameSize_isFrame {input : Bytes} {size : Nat} (found : frameSize input = .ok (some size)) :
    IsFrame (input.take size) := by
  obtain ⟨long, rfl, low, high, whole⟩ := frameSize_some found
  intro rest
  have length : (input.take (ofLe (input.take 4) + 4)).length = ofLe (input.take 4) + 4 := by
    rw [List.length_take, Nat.min_eq_left whole]
  have front : (input.take (ofLe (input.take 4) + 4) ++ rest).take 4 = input.take 4 := by
    rw [List.take_append_of_le_length (by omega), List.take_take, Nat.min_eq_left (by omega)]
  unfold frameSize
  rw [if_neg (by rw [List.length_append]; omega), front]
  simp only [if_pos (And.intro low high)]
  rw [if_pos (by rw [List.length_append]; omega), length]

theorem isFrame_of_size {frame : Bytes} (found : frameSize frame = .ok (some frame.length)) : IsFrame frame := by
  have isFrame := frameSize_isFrame found
  rwa [List.take_length] at isFrame

theorem IsFrame.bounds {frame : Bytes} (isFrame : IsFrame frame) : 5 ≤ frame.length ∧ frame.length ≤ maxFrameBytes := by
  obtain ⟨-, size, low, high, -⟩ := frameSize_some (isFrame [])
  unfold maxFrameBytes
  omega

theorem IsFrame.part {frame part : Bytes} (isFrame : IsFrame frame) (begun : part <+: frame)
    (short : part.length < frame.length) : frameSize part = .ok none := by
  obtain ⟨rest, rfl⟩ := begun
  have found := isFrame []
  rw [List.append_nil] at found
  obtain ⟨-, size, low, high, -⟩ := frameSize_some found
  unfold frameSize
  split
  next => rfl
  next long =>
    have same : (part ++ rest).take 4 = part.take 4 := List.take_append_of_le_length (by omega)
    rw [same] at size low high
    simp only [if_pos (And.intro low high)]
    rw [if_neg (by omega)]

-- The frames that are whole among the first bytes of a stream of frames, and the bytes of the next one.
def wholeFrames : List Bytes → Bytes → List Bytes
  | [], _ => []
  | frame :: frames, bytes =>
    if frame.length ≤ bytes.length then frame :: wholeFrames frames (bytes.drop frame.length) else []

def leftOver : List Bytes → Bytes → Bytes
  | [], bytes => bytes
  | frame :: frames, bytes => if frame.length ≤ bytes.length then leftOver frames (bytes.drop frame.length) else bytes

theorem wholeFrames_begins (frames : List Bytes) (bytes : Bytes) : wholeFrames frames bytes <+: frames := by
  induction frames generalizing bytes with
  | nil => exact List.nil_prefix
  | cons frame frames ih =>
    unfold wholeFrames
    split
    · exact (List.prefix_cons_inj frame).2 (ih _)
    · exact List.nil_prefix

theorem first_frame {frame bytes : Bytes} {frames : List Bytes} (cut : bytes <+: (frame :: frames).flatten)
    (enough : frame.length ≤ bytes.length) : ∃ rest, bytes = frame ++ rest ∧ rest <+: frames.flatten := by
  rw [List.flatten_cons] at cut
  obtain ⟨rest, rfl⟩ := List.prefix_of_prefix_length_le (List.prefix_append _ _) cut enough
  exact ⟨rest, rfl, (List.prefix_append_right_inj frame).1 cut⟩

theorem stream_next {frames : List Bytes} (isFrame : ∀ frame ∈ frames, IsFrame frame) {bytes : Bytes}
    (cut : bytes <+: frames.flatten) {size : Nat} (found : frameSize bytes = .ok (some size)) :
    ∃ later, frames = bytes.take size :: later ∧ bytes.drop size <+: later.flatten := by
  cases frames with
  | nil =>
    obtain rfl := List.prefix_nil.1 cut
    cases found
  | cons frame later =>
    have first := isFrame frame List.mem_cons_self
    by_cases enough : frame.length ≤ bytes.length
    · obtain ⟨rest, rfl, cut'⟩ := first_frame cut enough
      rw [first rest] at found
      cases found
      exact ⟨later, by rw [List.take_left], by rwa [List.drop_left]⟩
    · have begun : bytes <+: frame := by
        rw [List.flatten_cons] at cut
        exact List.prefix_of_prefix_length_le cut (List.prefix_append _ _) (by omega)
      rw [first.part begun (by omega)] at found
      cases found

theorem wholeFrames_leftOver {frames : List Bytes} {bytes : Bytes} (cut : bytes <+: frames.flatten) :
    (wholeFrames frames bytes).flatten ++ leftOver frames bytes = bytes := by
  induction frames generalizing bytes with
  | nil => rfl
  | cons frame frames ih =>
    unfold wholeFrames leftOver
    split
    next enough =>
      obtain ⟨rest, rfl, later⟩ := first_frame cut enough
      rw [List.drop_left, List.flatten_cons, List.append_assoc, ih later]
    next => rfl

theorem leftOver_begins {frames : List Bytes} {bytes more : Bytes} (cut : bytes ++ more <+: frames.flatten) :
    leftOver frames bytes ++ more <+: (frames.drop (wholeFrames frames bytes).length).flatten := by
  have whole := wholeFrames_leftOver ((List.prefix_append bytes more).trans cut)
  have split := List.prefix_iff_eq_append.1 (wholeFrames_begins frames bytes)
  have flat : (wholeFrames frames bytes).flatten ++ (frames.drop (wholeFrames frames bytes).length).flatten =
      frames.flatten := by
    rw [← List.flatten_append, split]
  refine (List.prefix_append_right_inj (wholeFrames frames bytes).flatten).1 ?_
  rwa [flat, ← List.append_assoc, whole]

theorem leftOver_size {frames : List Bytes} (isFrame : ∀ frame ∈ frames, IsFrame frame) {bytes : Bytes}
    (cut : bytes <+: frames.flatten) :
    frameSize (leftOver frames bytes) = .ok none ∧ (leftOver frames bytes).length < maxFrameBytes := by
  induction frames generalizing bytes with
  | nil =>
    obtain rfl := List.prefix_nil.1 cut
    exact ⟨rfl, by decide⟩
  | cons frame frames ih =>
    unfold leftOver
    split
    next enough =>
      obtain ⟨rest, rfl, later⟩ := first_frame cut enough
      rw [List.drop_left]
      exact ih (fun other member => isFrame other (List.mem_cons_of_mem _ member)) later
    next short =>
      have first := isFrame frame List.mem_cons_self
      have begun : bytes <+: frame := by
        rw [List.flatten_cons] at cut
        exact List.prefix_of_prefix_length_le cut (List.prefix_append _ _) (by omega)
      exact ⟨first.part begun (by omega), by have := first.bounds.2; omega⟩

theorem wholeFrames_append {frames : List Bytes} {bytes : Bytes} (more : Bytes) (cut : bytes <+: frames.flatten) :
    wholeFrames frames (bytes ++ more) = wholeFrames frames bytes ++
        wholeFrames (frames.drop (wholeFrames frames bytes).length) (leftOver frames bytes ++ more) ∧
      leftOver frames (bytes ++ more) =
        leftOver (frames.drop (wholeFrames frames bytes).length) (leftOver frames bytes ++ more) := by
  induction frames generalizing bytes with
  | nil => exact ⟨rfl, rfl⟩
  | cons frame frames ih =>
    by_cases enough : frame.length ≤ bytes.length
    · obtain ⟨rest, rfl, later⟩ := first_frame cut enough
      obtain ⟨whole, left⟩ := ih later
      have enough' : frame.length ≤ (frame ++ (rest ++ more)).length := by simp
      simp only [wholeFrames, leftOver, if_pos enough, if_pos enough', List.append_assoc, List.drop_left]
      exact ⟨by rw [whole]; rfl, left⟩
    · simp only [wholeFrames, leftOver, if_neg enough]
      exact ⟨rfl, rfl⟩

theorem wholeFrames_taken (taken frames : List Bytes) (bytes : Bytes) :
    wholeFrames (taken ++ frames) (taken.flatten ++ bytes) = taken ++ wholeFrames frames bytes := by
  induction taken with
  | nil => rfl
  | cons frame taken ih =>
    rw [List.cons_append, List.flatten_cons, List.append_assoc, wholeFrames, if_pos (by simp), List.drop_left, ih]
    rfl

theorem wholeFrames_none {frames : List Bytes} (isFrame : ∀ frame ∈ frames, IsFrame frame) {bytes : Bytes}
    (cut : bytes <+: frames.flatten) (part : frameSize bytes = .ok none) : wholeFrames frames bytes = [] := by
  cases frames with
  | nil => rfl
  | cons frame frames =>
    by_cases enough : frame.length ≤ bytes.length
    · obtain ⟨rest, rfl, -⟩ := first_frame cut enough
      rw [isFrame frame List.mem_cons_self rest] at part
      cases part
    · exact if_neg enough

theorem wholeFrames_all (frames : List Bytes) : wholeFrames frames frames.flatten = frames := by
  induction frames with
  | nil => rfl
  | cons frame frames ih =>
    rw [List.flatten_cons, wholeFrames, if_pos (by simp), List.drop_left, ih]

-- What is appended for the bodies, one after the other: a body that is too large leaves nothing.
def streamOf (bodies : List (Body Kind)) : Bytes := bodies.foldl (fun out body => (framed out body).2) []

def frame? (body : Body Kind) : Option Bytes :=
  match framed [] body with
  | (.ok (), frame) => some frame
  | (.error _, _) => none

def framesOf (bodies : List (Body Kind)) : List Bytes := bodies.filterMap frame?

theorem framed_frame? (out : Bytes) (body : Body Kind) : (framed out body).2 = out ++ (frame? body).getD [] := by
  rcases framed_cases out body with ⟨error, failed, large⟩ | ⟨kind, done, fits, appended⟩
  · rcases framed_cases [] body with ⟨other, failed', -⟩ | ⟨kind, done, fits, -⟩
    · rw [failed, frame?, failed']
      simp
    · have long := large kind done
      omega
  · rcases framed_cases [] body with ⟨other, -, large⟩ | ⟨other, done', -, appended'⟩
    · have long := large kind done
      omega
    · rw [done] at done'
      cases done'
      rw [appended, frame?, appended']
      rfl

theorem frame?_isFrame {body : Body Kind} {frame : Bytes} (framed : frame? body = some frame) : IsFrame frame := by
  unfold frame? at framed
  rcases framed_cases [] body with ⟨error, failed, -⟩ | ⟨kind, -, fits, appended⟩
  · rw [failed] at framed
    cases framed
  · rw [appended] at framed
    cases framed
    exact fun rest => frameSize_frameOf fits rest

theorem framesOf_isFrame (bodies : List (Body Kind)) : ∀ frame ∈ framesOf bodies, IsFrame frame := by
  intro frame member
  obtain ⟨body, -, framed⟩ := List.mem_filterMap.1 member
  exact frame?_isFrame framed

theorem streamOf_eq (bodies : List (Body Kind)) : streamOf bodies = (framesOf bodies).flatten := by
  have from_ : ∀ out : Bytes, bodies.foldl (fun out body => (framed out body).2) out =
      out ++ (framesOf bodies).flatten := by
    induction bodies with
    | nil => simp [framesOf]
    | cons body bodies ih =>
      intro out
      rw [List.foldl_cons, ih, framed_frame?]
      unfold framesOf
      rw [List.filterMap_cons]
      cases frame? body with
      | none => simp
      | some frame => simp
  exact from_ []

end Kido.Framing

namespace Kido.Framing

open Kido.Shared

def chunk : Nat := 65536
def shrink : Nat := 2 ^ 20

abbrev Piece := { bytes : Bytes // bytes ≠ [] }

def bytesOf (pieces : List Piece) : Bytes := (pieces.map Subtype.val).flatten

theorem bytesOf_cons (piece : Piece) (pieces : List Piece) : bytesOf (piece :: pieces) = piece.val ++ bytesOf pieces := rfl

theorem piece_length (piece : Piece) : 0 < piece.val.length := List.length_pos_iff.2 piece.property

def Piece.behind (piece : Piece) (room : Nat) (fits : ¬piece.val.length ≤ room) : Piece :=
  ⟨piece.val.drop room, by rwa [ne_eq, List.drop_eq_nil_iff]⟩

def resize (buf : Bytes) (len : Nat) : Bytes := buf.take len ++ List.replicate (len - buf.length) 0

theorem resize_length (buf : Bytes) (len : Nat) : (resize buf len).length = len := by
  simp only [resize, List.length_append, List.length_take, List.length_replicate]
  omega

theorem resize_take {buf : Bytes} {len stop : Nat} (inside : stop ≤ buf.length) (enough : stop ≤ len) :
    (resize buf len).take stop = buf.take stop := by
  rw [resize, List.take_append_of_le_length (by simp; omega), List.take_take, Nat.min_eq_left enough]

def getRange (buf : Bytes) (start stop : Nat) : Option Bytes :=
  if start ≤ stop ∧ stop ≤ buf.length then some ((buf.take stop).drop start) else none

theorem overwrite_length {buf bytes : Bytes} {place : Nat} (inside : place + bytes.length ≤ buf.length) :
    (overwrite buf place bytes).length = buf.length := by
  simp only [overwrite, List.length_append, List.length_take, List.length_drop]
  omega

theorem overwrite_take {buf bytes : Bytes} {place : Nat} (inside : place + bytes.length ≤ buf.length) :
    (overwrite buf place bytes).take (place + bytes.length) = buf.take place ++ bytes := by
  have length : (buf.take place ++ bytes).length = place + bytes.length := by
    rw [List.length_append, List.length_take]
    omega
  rw [overwrite, ← length, List.take_left]

structure Frames where
  buf : Bytes
  start : Nat
  stop : Nat
  ordered : start ≤ stop
  inside : stop ≤ buf.length

namespace Frames

def default : Frames := ⟨[], 0, 0, Nat.le_refl 0, Nat.le_refl 0⟩

def rest (frames : Frames) : Bytes := (getRange frames.buf frames.start frames.stop).getD []

theorem rest_eq (frames : Frames) : frames.rest = (frames.buf.take frames.stop).drop frames.start := by
  unfold rest getRange
  rw [if_pos ⟨frames.ordered, frames.inside⟩]
  rfl

theorem rest_length (frames : Frames) : frames.rest.length = frames.stop - frames.start := by
  have := frames.inside
  rw [rest_eq, List.length_drop, List.length_take]
  omega

def isEmpty (frames : Frames) : Bool := decide (frames.stop ≤ frames.start)

theorem isEmpty_iff (frames : Frames) : frames.isEmpty = true ↔ frames.rest = [] := by
  rw [isEmpty, decide_eq_true_iff, ← List.length_eq_zero_iff, rest_length]
  omega

def push (frames : Frames) (frame : Bytes) : Frames :=
  let stop := frames.stop + frame.length
  let buf := if frames.buf.length < stop then resize frames.buf stop else frames.buf
  have long : stop ≤ buf.length := by
    unfold buf
    split
    · rw [resize_length]
    · omega
  ⟨overwrite buf frames.stop frame, frames.start, stop, Nat.le_add_right_of_le frames.ordered, by
    rwa [overwrite_length long]⟩

theorem push_rest (frames : Frames) (frame : Bytes) : (frames.push frame).rest = frames.rest ++ frame := by
  have inside := frames.inside
  rw [rest_eq, rest_eq]
  simp only [push]
  split
  next short =>
    rw [overwrite_take (by rw [resize_length]), resize_take inside (by omega),
      List.drop_append_of_le_length (by have := frames.ordered; simp; omega)]
  next long =>
    rw [overwrite_take (by omega), List.drop_append_of_le_length (by have := frames.ordered; simp; omega)]

def compact (frames : Frames) : Frames :=
  if frames.start = frames.stop ∧ shrink < frames.buf.length then default
  else
    ⟨overwrite frames.buf 0 frames.rest, 0, frames.stop - frames.start, Nat.zero_le _, by
      have inside := frames.inside
      rw [overwrite_length (by rw [rest_length]; omega)]
      omega⟩

theorem compact_rest (frames : Frames) : frames.compact.rest = frames.rest := by
  unfold compact
  split
  next empty =>
    have none_ : frames.rest = [] := List.length_eq_zero_iff.1 (by rw [rest_length]; omega)
    rw [none_]
    rfl
  next =>
    have inside := frames.inside
    have length := frames.rest_length
    have fits : 0 + frames.rest.length ≤ frames.buf.length := by omega
    conv_lhs => rw [rest_eq]
    simp only [← length]
    rw [← Nat.zero_add frames.rest.length, overwrite_take fits]
    rfl

def room (frames : Frames) : Nat := frames.buf.length - frames.stop

def grow (frames : Frames) : Frames :=
  if frames.room < chunk then
    let compacted := frames.compact
    let grown := max (compacted.buf.length * 2) (compacted.stop + chunk)
    ⟨resize compacted.buf grown, compacted.start, compacted.stop, compacted.ordered, by
      rw [resize_length]
      omega⟩
  else frames

theorem grow_room (frames : Frames) : chunk ≤ frames.grow.room := by
  unfold grow
  split
  next =>
    simp only [room, resize_length]
    omega
  next enough => omega

theorem grow_rest (frames : Frames) : frames.grow.rest = frames.rest := by
  unfold grow
  split
  next =>
    rw [← frames.compact_rest, rest_eq, rest_eq]
    simp only
    rw [resize_take frames.compact.inside (by omega)]
  next => rfl

def took (frames : Frames) (bytes : Bytes) (fits : bytes.length ≤ frames.room) : Frames :=
  ⟨overwrite frames.buf frames.stop bytes, frames.start, frames.stop + bytes.length, Nat.le_add_right_of_le frames.ordered, by
    have inside := frames.inside
    unfold room at fits
    rw [overwrite_length (by omega)]
    omega⟩

theorem took_rest (frames : Frames) (bytes : Bytes) (fits : bytes.length ≤ frames.room) :
    (frames.took bytes fits).rest = frames.rest ++ bytes := by
  have inside := frames.inside
  unfold room at fits
  rw [rest_eq, rest_eq]
  simp only [took]
  rw [overwrite_take (by omega), List.drop_append_of_le_length (by have := frames.ordered; simp; omega)]

-- Reads until the socket has no more bytes: the pieces are what it has, and `closed` is what it says then.
def fill (frames : Frames) (pieces : List Piece) (closed : Bool) : Option (Bool × Frames) :=
  if maxFrameBytes ≤ frames.stop - frames.start then none
  else
    match pieces with
    | [] => some (closed, frames.grow)
    | piece :: later =>
      if fits : piece.val.length ≤ frames.grow.room then fill (frames.grow.took piece.val fits) later closed
      else
        fill (frames.grow.took (piece.val.take frames.grow.room) (List.length_take_le _ _))
          (piece.behind _ fits :: later) closed
termination_by (pieces.map fun piece => piece.val.length).sum
decreasing_by
  · have some_ := piece_length piece
    simp only [List.map_cons, List.sum_cons]
    omega
  · have enough := frames.grow_room
    have positive : 0 < chunk := by decide
    simp only [List.map_cons, List.sum_cons, Piece.behind, List.length_drop]
    omega

-- The check stands before each read, the one that finds no more bytes too: the bytes that are in when the socket has
-- no more have to be fewer than a frame may have.
theorem fill_cases (frames : Frames) (pieces : List Piece) (closed : Bool) :
    (frames.fill pieces closed = none ∧ maxFrameBytes ≤ frames.rest.length + (bytesOf pieces).length) ∨
    ∃ filled, frames.fill pieces closed = some (closed, filled) ∧ filled.rest = frames.rest ++ bytesOf pieces ∧
      filled.rest.length < maxFrameBytes := by
  fun_induction fill frames pieces closed with
  | case1 frames pieces large =>
    left
    rw [rest_length]
    exact ⟨rfl, by omega⟩
  | case2 frames small =>
    right
    refine ⟨frames.grow, rfl, ?_, ?_⟩
    · rw [grow_rest]
      exact (List.append_nil _).symm
    · rw [grow_rest, rest_length]
      omega
  | case3 frames small piece later fits ih =>
    simpa only [took_rest, grow_rest, bytesOf_cons, List.append_assoc, List.length_append, Nat.add_assoc] using ih
  | case4 frames small piece later fits ih =>
    have whole : piece.val.take frames.grow.room ++ (piece.val.drop frames.grow.room ++ bytesOf later) =
        piece.val ++ bytesOf later := by
      rw [← List.append_assoc, List.take_append_drop]
    have lengths : (piece.val.take frames.grow.room).length +
        ((piece.val.drop frames.grow.room).length + (bytesOf later).length) =
          piece.val.length + (bytesOf later).length := by
      have := congrArg List.length whole
      simpa only [List.length_append] using this
    simpa only [took_rest, grow_rest, bytesOf_cons, Piece.behind, List.append_assoc, List.length_append, Nat.add_assoc,
      whole, lengths] using ih

def skip (frames : Frames) (size : Nat) (fits : size ≤ frames.rest.length) : Frames :=
  ⟨frames.buf, frames.start + size, frames.stop, by
    have ordered := frames.ordered
    rw [rest_length] at fits
    omega, frames.inside⟩

theorem skip_rest (frames : Frames) (size : Nat) (fits : size ≤ frames.rest.length) :
    (frames.skip size fits).rest = frames.rest.drop size := by
  conv_rhs => rw [rest_eq, List.drop_drop]
  rw [rest_eq]
  rfl

def frame (frames : Frames) (range : Nat × Nat) : Bytes := (getRange frames.buf range.1 range.2).getD []

theorem skip_frame (frames : Frames) (size : Nat) (fits : size ≤ frames.rest.length) :
    (frames.skip size fits).frame (frames.start, frames.start + size) = frames.rest.take size := by
  have ordered := frames.ordered
  have inside := frames.inside
  have small := fits
  rw [rest_length] at small
  have bounds : frames.start ≤ frames.start + size ∧ frames.start + size ≤ frames.buf.length := by omega
  conv_rhs => rw [rest_eq, List.take_drop, List.take_take, Nat.min_eq_left (by omega)]
  exact congrArg (Option.getD · []) (if_pos bounds)

def next (frames : Frames) : Except Malformed (Option ((Nat × Nat) × Frames)) :=
  match sized : frameSize frames.rest with
  | .error malformed => .error malformed
  | .ok none => .ok none
  | .ok (some size) =>
    .ok (some ((frames.start, frames.start + size), frames.skip size (frameSize_some sized).2.2.2.2))

theorem next_none {frames : Frames} : frames.next = .ok none ↔ frameSize frames.rest = .ok none := by
  unfold next
  split
  next failed => simp [failed]
  next none_ => simp [none_]
  next some_ => simp [some_]

theorem next_some {frames : Frames} {size : Nat} (sized : frameSize frames.rest = .ok (some size)) :
    ∃ range after, frames.next = .ok (some (range, after)) ∧ after.frame range = frames.rest.take size ∧
      after.rest = frames.rest.drop size := by
  unfold next
  split
  next failed => rw [failed] at sized; cases sized
  next none_ => rw [none_] at sized; cases sized
  next found same =>
    rw [same] at sized
    cases sized
    have fits := (frameSize_some same).2.2.2.2
    exact ⟨_, _, rfl, skip_frame frames size fits, skip_rest frames size fits⟩

theorem next_found {frames after : Frames} {range : Nat × Nat} (found : frames.next = .ok (some (range, after))) :
    ∃ size, frameSize frames.rest = .ok (some size) ∧ after.frame range = frames.rest.take size ∧
      after.rest = frames.rest.drop size := by
  cases sized : frameSize frames.rest with
  | error malformed =>
    unfold next at found
    split at found
    next => cases found
    next same => rw [sized] at same; cases same
    next same => rw [sized] at same; cases same
  | ok size? =>
    cases size? with
    | none =>
      rw [next_none.2 sized] at found
      cases found
    | some size =>
      obtain ⟨range', after', found', frame, rest⟩ := next_some sized
      rw [found'] at found
      cases found
      exact ⟨size, rfl, frame, rest⟩

theorem next_shorter {frames after : Frames} {range : Nat × Nat} (found : frames.next = .ok (some (range, after))) :
    after.rest.length < frames.rest.length := by
  obtain ⟨size, sized, -, rest⟩ := next_found found
  have small := frameSize_some sized
  rw [rest, List.length_drop]
  omega

end Frames

end Kido.Framing
