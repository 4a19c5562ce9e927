import Kido.Wire.Frames
import Kido.Wire.Consume

set_option autoImplicit false

namespace Kido.Framing

open Kido.Shared

inductive Call
  | fill (pieces : List Piece) (closed : Bool)
  | next
  | compact

def Call.come : Call → Bytes
  | .fill pieces _ => bytesOf pieces
  | .next | .compact => []

namespace Frames

def call (frames : Frames) : Call → Option (List Bytes × Frames)
  | .fill pieces closed => (frames.fill pieces closed).map fun (_, filled) => ([], filled)
  | .next =>
    match frames.next with
    | .error _ => none
    | .ok none => some ([], frames)
    | .ok (some (range, after)) => some ([after.frame range], after)
  | .compact => some ([], frames.compact)

def run (frames : Frames) : List Call → Option (List Bytes × Frames)
  | [] => some ([], frames)
  | call :: calls => do
    let (got, after) ← frames.call call
    let (later, last) ← after.run calls
    return (got ++ later, last)

end Frames

-- A stream for its reader: the frames that are not taken out, and the bytes that have come of them.
structure Feed where
  frames : List Bytes
  come : Bytes

namespace Feed

def call (feed : Feed) : Call → List Bytes × Feed
  | .fill pieces _ => ([], ⟨feed.frames, feed.come ++ bytesOf pieces⟩)
  | .next =>
    match feed.frames with
    | [] => ([], feed)
    | frame :: later =>
      if frame.length ≤ feed.come.length then ([frame], ⟨later, feed.come.drop frame.length⟩) else ([], feed)
  | .compact => ([], feed)

def run (feed : Feed) : List Call → List Bytes × Feed
  | [] => ([], feed)
  | call :: calls => ((feed.call call).1 ++ ((feed.call call).2.run calls).1, ((feed.call call).2.run calls).2)

-- The bytes that are in when the socket has no more are fewer than a frame may have.
def Fits (feed : Feed) : Call → Prop
  | .fill pieces _ => feed.come.length + (bytesOf pieces).length < maxFrameBytes
  | .next | .compact => True

def Roomy (feed : Feed) : List Call → Prop
  | [] => True
  | call :: calls => feed.Fits call ∧ (feed.call call).2.Roomy calls

structure Sound (feed : Feed) (more : Bytes) : Prop where
  isFrame : ∀ frame ∈ feed.frames, IsFrame frame
  cut : feed.come ++ more <+: feed.frames.flatten

theorem Sound.come {feed : Feed} {more : Bytes} (sound : feed.Sound more) : feed.come <+: feed.frames.flatten :=
  (List.prefix_append _ _).trans sound.cut

theorem call_next (feed : Feed) :
    (feed.call .next = ([], feed) ∧ wholeFrames feed.frames feed.come = [] ∧ leftOver feed.frames feed.come = feed.come) ∨
    ∃ frame later, feed.frames = frame :: later ∧ frame.length ≤ feed.come.length ∧
      feed.call .next = ([frame], ⟨later, feed.come.drop frame.length⟩) := by
  obtain ⟨frames, come⟩ := feed
  cases frames with
  | nil => exact .inl ⟨rfl, rfl, rfl⟩
  | cons frame later =>
    by_cases enough : frame.length ≤ come.length
    · exact .inr ⟨frame, later, rfl, enough, if_pos enough⟩
    · exact .inl ⟨if_neg enough, if_neg enough, if_neg enough⟩

theorem call_split {feed : Feed} {call : Call} {more : Bytes} (sound : feed.Sound (call.come ++ more)) :
    (feed.call call).1 ++ (feed.call call).2.frames = feed.frames ∧
      (feed.call call).1.flatten ++ (feed.call call).2.come = feed.come ++ call.come ∧
      (feed.call call).2.Sound more := by
  cases call with
  | fill pieces closed => exact ⟨rfl, rfl, sound.isFrame, by simpa [Feed.call, Call.come] using sound.cut⟩
  | compact => exact ⟨rfl, (List.append_nil _).symm, sound⟩
  | next =>
    rcases feed.call_next with ⟨none_, -, -⟩ | ⟨frame, later, frames, enough, some_⟩
    · rw [none_]
      exact ⟨rfl, (List.append_nil _).symm, sound⟩
    · have come := sound.come
      have cut := sound.cut
      rw [frames] at come cut
      obtain ⟨rest, whole, -⟩ := first_frame come enough
      rw [some_]
      simp only [whole, List.drop_left, Call.come, List.append_nil, List.flatten_cons, List.flatten_nil]
      rw [whole, List.flatten_cons, List.append_assoc] at cut
      exact ⟨frames.symm, trivial, fun other member => sound.isFrame other (by simp [frames, member]),
        (List.prefix_append_right_inj frame).1 cut⟩

theorem run_split {feed : Feed} {calls : List Call} (sound : feed.Sound (calls.map Call.come).flatten) :
    (feed.run calls).1 ++ (feed.run calls).2.frames = feed.frames ∧
      (feed.run calls).1.flatten ++ (feed.run calls).2.come = feed.come ++ (calls.map Call.come).flatten ∧
      (feed.run calls).2.Sound [] := by
  induction calls generalizing feed with
  | nil => exact ⟨rfl, (List.append_nil _).symm, sound⟩
  | cons call calls ih =>
    obtain ⟨frames, come, sound'⟩ := call_split sound
    obtain ⟨frames', come', last⟩ := ih sound'
    refine ⟨?_, ?_, last⟩
    · rw [run, List.append_assoc, frames', frames]
    · rw [run, List.flatten_append, List.append_assoc, come', ← List.append_assoc, come, List.append_assoc]
      rfl

theorem run_whole {feed : Feed} {calls : List Call} (sound : feed.Sound (calls.map Call.come).flatten)
    (part : frameSize (feed.run calls).2.come = .ok none) :
    (feed.run calls).1 = wholeFrames feed.frames (feed.come ++ (calls.map Call.come).flatten) := by
  obtain ⟨frames, bytes, sound'⟩ := run_split sound
  have whole := wholeFrames_taken (feed.run calls).1 (feed.run calls).2.frames (feed.run calls).2.come
  rw [frames, bytes, wholeFrames_none sound'.isFrame sound'.come part, List.append_nil] at whole
  exact whole.symm

end Feed

namespace Frames

theorem call_cases {frames : Frames} {feed : Feed} (same : frames.rest = feed.come) {call : Call} {more : Bytes}
    (sound : feed.Sound (call.come ++ more)) :
    (frames.call call = none ∧ ¬feed.Fits call) ∨
    (feed.Fits call ∧ ∃ after, frames.call call = some ((feed.call call).1, after) ∧
      after.rest = (feed.call call).2.come) := by
  cases call with
  | fill pieces closed =>
    rcases frames.fill_cases pieces closed with ⟨failed, large⟩ | ⟨filled, done, rest, small⟩
    · left
      rw [same] at large
      exact ⟨by simp [Frames.call, failed], by unfold Feed.Fits; omega⟩
    · right
      rw [rest, same, List.length_append] at small
      exact ⟨small, filled, by simp [Frames.call, done, Feed.call], by rw [rest, same]; rfl⟩
  | compact => exact .inr ⟨trivial, frames.compact, rfl, frames.compact_rest.trans same⟩
  | next =>
    right
    refine ⟨trivial, ?_⟩
    rcases feed.call_next with ⟨none_, -, left⟩ | ⟨frame, later, frames_, enough, some_⟩
    · have part := (leftOver_size sound.isFrame sound.come).1
      rw [left, ← same] at part
      rw [none_]
      exact ⟨frames, by simp [Frames.call, next_none.2 part], same⟩
    · have come := sound.come
      rw [frames_] at come
      obtain ⟨rest, whole, -⟩ := first_frame come enough
      have sized : frameSize frames.rest = .ok (some frame.length) := by
        rw [same, whole]
        exact sound.isFrame frame (by simp [frames_]) rest
      obtain ⟨range, after, found, taken, rest'⟩ := next_some sized
      rw [same, whole, List.take_left] at taken
      rw [some_]
      exact ⟨after, by simp [Frames.call, found, taken], by rw [rest', same]⟩

theorem run_cases {frames : Frames} {feed : Feed} (same : frames.rest = feed.come) {calls : List Call}
    (sound : feed.Sound (calls.map Call.come).flatten) :
    (frames.run calls = none ∧ ¬feed.Roomy calls) ∨
    (feed.Roomy calls ∧ ∃ last, frames.run calls = some ((feed.run calls).1, last) ∧
      last.rest = (feed.run calls).2.come) := by
  induction calls generalizing frames feed with
  | nil => exact .inr ⟨trivial, frames, rfl, same⟩
  | cons call calls ih =>
    rcases call_cases same sound with ⟨failed, large⟩ | ⟨fits, after, done, same'⟩
    · exact .inl ⟨by simp [run, failed], fun roomy => large roomy.1⟩
    · rcases ih same' (Feed.call_split sound).2.2 with ⟨failed, large⟩ | ⟨roomy, last, done', same''⟩
      · exact .inl ⟨by simp [run, done, failed], fun roomy => large roomy.2⟩
      · exact .inr ⟨⟨fits, roomy⟩, last, by simp [run, done, done', Feed.run], same''⟩

end Frames

end Kido.Framing

namespace Kido.Framing

open Kido.Shared

-- The reader of the pane takes out the frames that were written: those it has are the first ones, in their order, and
-- when it finds no more it has all that have come whole.
def TakesOut (bodies : List (Body Kind)) (calls : List Call) : Prop :=
  ∃ got last, Frames.default.run calls = some (got, last) ∧ got <+: framesOf bodies ∧
    (last.next = .ok none → got = wholeFrames (framesOf bodies) (calls.map Call.come).flatten)

theorem takesOut_iff {bodies : List (Body Kind)} {calls : List Call}
    (come : (calls.map Call.come).flatten <+: streamOf bodies) :
    TakesOut bodies calls ↔ Feed.Roomy ⟨framesOf bodies, []⟩ calls := by
  rw [streamOf_eq] at come
  have sound : Feed.Sound ⟨framesOf bodies, []⟩ (calls.map Call.come).flatten := ⟨framesOf_isFrame bodies, come⟩
  have empty : Frames.default.rest = (⟨framesOf bodies, []⟩ : Feed).come := rfl
  rcases Frames.run_cases empty sound with ⟨failed, large⟩ | ⟨roomy, last, done, rest⟩
  · refine ⟨fun ⟨got, last, done, _⟩ => ?_, fun roomy => absurd roomy large⟩
    rw [failed] at done
    cases done
  · refine ⟨fun _ => roomy, fun _ => ⟨_, last, done, ?_, fun none_ => ?_⟩⟩
    · exact ⟨_, (Feed.run_split sound).1⟩
    · have part := Frames.next_none.1 none_
      rw [rest] at part
      exact Feed.run_whole sound part

-- What one frame more does to a stream, and what its two readers make of a stream of frames that comes in any pieces:
-- the server takes out exactly the frames, and the pane does exactly where each time it reads it has room for what is in.
theorem framing_exact {State Fault : Type} (handler : Handler State Fault) (first : State) (bodies : List (Body Kind))
    (batches : List (List Piece)) (served : (batches.map bytesOf).flatten <+: streamOf bodies)
    (calls : List Call) (come : (calls.map Call.come).flatten <+: streamOf bodies) :
    (∀ (body : Body Kind) (out : Bytes),
      (∃ error, framed out body = (.error error, out) ∧
        ∀ kind, body.result = .ok kind → maxFrame < body.written.length + 1) ∨
      ∃ kind frame, body.result = .ok kind ∧ body.written.length + 1 ≤ maxFrame ∧
        framed out body = (.ok (), out ++ frame) ∧ ∀ rest, frameSize (frame ++ rest) = .ok (some frame.length)) ∧
    (PaneProc.reads handler ⟨.new, first⟩ batches).state =
      handler.serve (wholeFrames (framesOf bodies) (batches.map bytesOf).flatten) first ∧
    wholeFrames (framesOf bodies) (streamOf bodies) = framesOf bodies ∧
    (TakesOut bodies calls ↔ Feed.Roomy ⟨framesOf bodies, []⟩ calls) := by
  refine ⟨fun body out => ?_, ?_, ?_, takesOut_iff come⟩
  · rcases framed_cases out body with large | ⟨kind, done, fits, appended⟩
    · exact .inl large
    · exact .inr ⟨kind, _, done, fits, appended, frameSize_frameOf fits⟩
  · rw [streamOf_eq] at served
    have isFrame := framesOf_isFrame bodies
    exact ((PaneProc.Fed.start handler _ first isFrame).reads isFrame served).state
  · rw [streamOf_eq, wholeFrames_all]

def keeper : Handler (List Bytes) Unit where
  isOpen _ := true
  onFrame frame frames := (.ok (), frames ++ [frame])
  failure _ frames := frames
  tooLarge := ()
  closed := ()
  malformed _ := ()

-- A key that comes in two pieces.
theorem key_taken_out :
    (PaneProc.reads keeper ⟨.new, []⟩ [[⟨[2, 0, 0], by decide⟩], [⟨[0, 4, 104], by decide⟩]]).state = [[2, 0, 0, 0, 4, 104]] ∧
      TakesOut [Body.frame (.text [104])]
        [.fill [⟨[2, 0, 0], by decide⟩] false, .next, .compact, .fill [⟨[0, 4, 104], by decide⟩] false, .next, .next] := by
  obtain ⟨-, state, -, takesOut⟩ := framing_exact keeper [] [Body.frame (.text [104])]
    [[⟨[2, 0, 0], by decide⟩], [⟨[0, 4, 104], by decide⟩]] (by decide)
    [.fill [⟨[2, 0, 0], by decide⟩] false, .next, .compact, .fill [⟨[0, 4, 104], by decide⟩] false, .next, .next]
    (by decide)
  exact ⟨state.trans (by decide), takesOut.2 (by simp only [Feed.Roomy, Feed.Fits]; decide)⟩

theorem large_text_refused {text : Bytes} (length : text.length = maxFrame - 1) :
    ∃ frame : Piece, encode (.text text) [] = (.ok (), frame.val) ∧
      ¬TakesOut [Body.frame (.text text)] [.fill [frame] false, .next, .compact] := by
  have written : (Body.frame (.text text)).written = text := List.append_nil text
  have positive : 1 ≤ maxFrame := by decide
  rcases framed_cases [] (Body.frame (.text text)) with ⟨error, -, large⟩ | ⟨kind, -, fits, appended⟩
  · have long := large .text rfl
    rw [written] at long
    omega
  · have whole := frameOf_length kind (Body.frame (.text text)).written
    rw [written, length] at whole
    have some_ : frameOf kind (Body.frame (.text text)).written ≠ [] := by
      intro none_
      rw [written] at none_
      rw [none_, List.length_nil] at whole
      omega
    refine ⟨⟨_, some_⟩, appended, fun ⟨got, last, done, _⟩ => ?_⟩
    rcases Frames.default.fill_cases [⟨_, some_⟩] false with ⟨failed, -⟩ | ⟨filled, -, rest, small⟩
    · simp [Frames.run, Frames.call, failed] at done
    · have come : filled.rest.length = maxFrame - 1 + 5 := by
        rw [rest, ← whole]
        exact congrArg List.length (by simp [bytesOf, written, Frames.default, Frames.rest, getRange])
      unfold maxFrameBytes at small
      omega

-- The pane refuses the largest frame, which the server makes: all of it is in before the socket has no more.
theorem largest_frame_refused :
    ∃ frame : Piece, encode (.text (List.replicate (maxFrame - 1) 0)) [] = (.ok (), frame.val) ∧
      ¬TakesOut [Body.frame (.text (List.replicate (maxFrame - 1) 0))] [.fill [frame] false, .next, .compact] :=
  large_text_refused List.length_replicate

end Kido.Framing
