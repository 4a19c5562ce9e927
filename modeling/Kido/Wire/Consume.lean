import Kido.Wire.Frames

set_option autoImplicit false

namespace Kido.Framing

open Kido.Shared

variable {State Fault : Type}

-- What the server does with a frame of a pane, and with a stream that goes wrong.
structure Handler (State Fault : Type) where
  isOpen : State → Bool
  onFrame : Bytes → State → Except Fault Unit × State
  failure : Fault → State → State
  tooLarge : Fault
  closed : Fault
  malformed : Malformed → Fault

namespace Handler

def handle (handler : Handler State Fault) (frame : Bytes) (state : State) : State :=
  match handler.onFrame frame state with
  | (.ok (), after) => after
  | (.error fault, after) => handler.failure fault after

-- What should become of a pane whose frames come one after the other.
def serve (handler : Handler State Fault) : List Bytes → State → State
  | [], state => state
  | frame :: frames, state =>
    if handler.isOpen state then serve handler frames (handler.handle frame state) else state

theorem serve_closed {handler : Handler State Fault} {state : State} (closed : handler.isOpen state = false)
    (frames : List Bytes) : handler.serve frames state = state := by
  cases frames with
  | nil => rfl
  | cons frame frames =>
    unfold serve
    rw [closed]
    rfl

theorem serve_append (handler : Handler State Fault) (frames later : List Bytes) (state : State) :
    handler.serve (frames ++ later) state = handler.serve later (handler.serve frames state) := by
  induction frames generalizing state with
  | nil => rfl
  | cons frame frames ih =>
    rw [List.cons_append, serve, serve]
    split
    next => exact ih _
    next closed => rw [serve_closed (Bool.eq_false_iff.2 closed)]

-- The loop of `consume`: how many bytes it takes, and the pane after them.
def takeOut (handler : Handler State Fault) (rest : Bytes) (state : State) : Nat × State :=
  if handler.isOpen state then
    match _ : frameSize rest with
    | .ok none => (0, state)
    | .ok (some size) =>
      let (more, last) := takeOut handler (rest.drop size) (handler.handle (rest.take size) state)
      (size + more, last)
    -- A failure closes the pane, so that the loop ends with it.
    | .error malformed => (0, handler.failure (handler.malformed malformed) state)
  else (0, state)
termination_by rest.length
decreasing_by
  have := frameSize_some ‹_›
  rw [List.length_drop]
  omega

theorem takeOut_le (handler : Handler State Fault) (rest : Bytes) (state : State) :
    (handler.takeOut rest state).1 ≤ rest.length := by
  fun_induction takeOut handler rest state with
  | case1 | case3 | case4 => exact Nat.zero_le _
  | case2 rest state isOpen size sized more last taken ih =>
    have small := (frameSize_some sized).2.2.2.2
    simp only [taken, List.length_drop] at ih
    omega

theorem takeOut_frame {handler : Handler State Fault} {frame : Bytes} {state : State} (isFrame : IsFrame frame)
    (isOpen : handler.isOpen state = true) (rest : Bytes) :
    handler.takeOut (frame ++ rest) state =
      (frame.length + (handler.takeOut rest (handler.handle frame state)).1,
        (handler.takeOut rest (handler.handle frame state)).2) := by
  conv_lhs => unfold takeOut
  rw [if_pos isOpen]
  split
  next none_ => rw [isFrame rest] at none_; cases none_
  next found same =>
    rw [isFrame rest] at same
    cases same
    rw [List.drop_left, List.take_left]
  next failed => rw [isFrame rest] at failed; cases failed

theorem takeOut_stop {handler : Handler State Fault} {rest : Bytes} {state : State}
    (stop : handler.isOpen state = false ∨ frameSize rest = .ok none) : handler.takeOut rest state = (0, state) := by
  unfold takeOut
  split
  next isOpen =>
    have part := stop.resolve_left (by simp [isOpen])
    split
    next => rfl
    next same => rw [part] at same; cases same
    next failed => rw [part] at failed; cases failed
  next => rfl

theorem takeOut_stream (handler : Handler State Fault) {frames : List Bytes} (isFrame : ∀ frame ∈ frames, IsFrame frame)
    {rest : Bytes} (cut : rest <+: frames.flatten) (state : State) :
    (handler.takeOut rest state).2 = handler.serve (wholeFrames frames rest) state ∧
      (handler.isOpen (handler.takeOut rest state).2 = true →
        rest.drop (handler.takeOut rest state).1 = leftOver frames rest) ∧
      ((handler.takeOut rest state).1 = 0 → (handler.takeOut rest state).2 = state) := by
  induction frames generalizing rest state with
  | nil =>
    obtain rfl := List.prefix_nil.1 cut
    rw [takeOut_stop (.inr rfl)]
    exact ⟨rfl, fun _ => rfl, fun _ => rfl⟩
  | cons frame frames ih =>
    have first := isFrame frame List.mem_cons_self
    by_cases isOpen : handler.isOpen state = true
    · by_cases enough : frame.length ≤ rest.length
      · obtain ⟨later, rfl, cut'⟩ := first_frame cut enough
        have positive := first.bounds.1
        obtain ⟨served, left, -⟩ := ih (fun other member => isFrame other (List.mem_cons_of_mem _ member)) cut'
          (handler.handle frame state)
        rw [takeOut_frame first isOpen, wholeFrames, leftOver, if_pos enough, if_pos enough, List.drop_left, serve,
          if_pos isOpen]
        refine ⟨served, fun stays => ?_, fun none_ => by simp only at none_; omega⟩
        rw [← left stays, ← List.drop_drop, List.drop_left]
      · have begun : rest <+: frame := by
          rw [List.flatten_cons] at cut
          exact List.prefix_of_prefix_length_le cut (List.prefix_append _ _) (by omega)
        rw [takeOut_stop (.inr (first.part begun (by omega))), wholeFrames, leftOver, if_neg enough, if_neg enough]
        exact ⟨rfl, fun _ => rfl, fun _ => rfl⟩
    · have closed := Bool.eq_false_iff.2 isOpen
      rw [takeOut_stop (.inl closed), serve_closed closed]
      exact ⟨rfl, fun stays => absurd stays isOpen, fun _ => rfl⟩

end Handler

def inputLen : Nat := 65536
def maxInput : Nat := maxFrameBytes

structure Input where
  buf : Bytes
  filled : Nat
  inside : filled ≤ buf.length
  least : inputLen ≤ buf.length
  most : buf.length ≤ maxInput

namespace Input

def new : Input := ⟨List.replicate inputLen 0, 0, Nat.zero_le _, by simp, by simp; decide⟩

def rest (input : Input) : Bytes := input.buf.take input.filled

theorem rest_length (input : Input) : input.rest.length = input.filled := by
  have inside := input.inside
  rw [rest, List.length_take]
  omega

def grow (input : Input) : Input :=
  if input.filled = input.buf.length then
    let grown := min (input.buf.length * 2) maxInput
    ⟨resize input.buf grown, input.filled, by
      have := input.inside
      have := input.most
      rw [resize_length]
      omega, by
      have := input.least
      have small : inputLen ≤ maxInput := by decide
      rw [resize_length]
      omega, by
      rw [resize_length]
      omega⟩
  else input

def room (input : Input) : Nat := input.buf.length - input.filled

theorem grow_rest (input : Input) : input.grow.rest = input.rest := by
  have inside := input.inside
  have most := input.most
  unfold grow
  split
  next =>
    have enough : input.filled ≤ min (input.buf.length * 2) maxInput := by omega
    exact resize_take inside enough
  next => rfl

theorem grow_filled (input : Input) : input.grow.filled = input.filled := by
  unfold grow
  split <;> rfl

theorem grow_room {input : Input} (small : ¬(input.filled = input.buf.length ∧ maxInput ≤ input.buf.length)) :
    0 < input.grow.room := by
  have inside := input.inside
  unfold grow
  split
  next full =>
    have least := input.least
    have positive : 0 < inputLen := by decide
    simp only [room, resize_length]
    omega
  next =>
    unfold room
    omega

def took (input : Input) (bytes : Bytes) (fits : bytes.length ≤ input.room) : Input :=
  have inside : input.filled + bytes.length ≤ input.buf.length := by
    have inside := input.inside
    unfold room at fits
    omega
  ⟨overwrite input.buf input.filled bytes, input.filled + bytes.length, by rwa [overwrite_length inside], by
    rw [overwrite_length inside]
    exact input.least, by
    rw [overwrite_length inside]
    exact input.most⟩

theorem took_rest (input : Input) (bytes : Bytes) (fits : bytes.length ≤ input.room) :
    (input.took bytes fits).rest = input.rest ++ bytes := by
  have inside := input.inside
  unfold room at fits
  exact overwrite_take (by omega)

def cut (input : Input) (taken : Nat) (fits : taken ≤ input.filled) : Input :=
  have inside := input.inside
  have length : (input.rest.drop taken).length = input.filled - taken := by rw [List.length_drop, rest_length]
  ⟨overwrite input.buf 0 (input.rest.drop taken), input.filled - taken, by
    rw [overwrite_length (by omega)]
    omega, by
    rw [overwrite_length (by omega)]
    exact input.least, by
    rw [overwrite_length (by omega)]
    exact input.most⟩

theorem cut_rest (input : Input) (taken : Nat) (fits : taken ≤ input.filled) :
    (input.cut taken fits).rest = input.rest.drop taken := by
  have inside := input.inside
  have length : (input.rest.drop taken).length = input.filled - taken := by rw [List.length_drop, rest_length]
  have whole := overwrite_take (show 0 + (input.rest.drop taken).length ≤ input.buf.length by omega)
  rw [Nat.zero_add, length] at whole
  exact whole

def shrunk (input : Input) : Input :=
  if small : inputLen < input.buf.length ∧ input.filled ≤ inputLen then
    ⟨input.buf.take inputLen, input.filled, by
      rw [List.length_take]
      omega, by
      rw [List.length_take]
      omega, by
      have := input.most
      rw [List.length_take]
      omega⟩
  else input

theorem shrunk_rest (input : Input) : input.shrunk.rest = input.rest := by
  unfold shrunk
  split
  next small => exact (List.take_take ..).trans (by rw [Nat.min_eq_left small.2]; rfl)
  next => rfl

end Input

-- A pane of the server: the bytes that are not consumed, and all else.
structure PaneProc (State : Type) where
  input : Input
  state : State

namespace PaneProc

def consume (handler : Handler State Fault) (proc : PaneProc State) : PaneProc State :=
  let (taken, state) := handler.takeOut proc.input.rest proc.state
  let input := if fits : 0 < taken ∧ taken ≤ proc.input.filled then proc.input.cut taken fits.2 else proc.input
  ⟨input.shrunk, state⟩

-- Reads until the socket has no more bytes: the pieces are what it has, and it may be at its end then.
def read (handler : Handler State Fault) (proc : PaneProc State) (pieces : List Piece) (ended : Bool) : PaneProc State :=
  if _ : proc.input.filled = proc.input.buf.length ∧ maxInput ≤ proc.input.buf.length then
    { proc with state := handler.failure handler.tooLarge proc.state }
  else if handler.isOpen proc.state then
    match pieces with
    | [] => ⟨proc.input.grow, if ended then handler.failure handler.closed proc.state else proc.state⟩
    | piece :: later =>
      if fits : piece.val.length ≤ proc.input.grow.room then
        read handler (consume handler ⟨proc.input.grow.took piece.val fits, proc.state⟩) later ended
      else
        let bytes := piece.val.take proc.input.grow.room
        read handler (consume handler ⟨proc.input.grow.took bytes (List.length_take_le _ _), proc.state⟩)
          (piece.behind _ fits :: later) ended
  else { proc with input := proc.input.grow }
termination_by (pieces.map fun piece => piece.val.length).sum
decreasing_by
  · have some_ := piece_length piece
    simp only [List.map_cons, List.sum_cons]
    omega
  · have enough := Input.grow_room ‹_›
    simp only [List.map_cons, List.sum_cons, Piece.behind, List.length_drop]
    omega

theorem consume_input (handler : Handler State Fault) (proc : PaneProc State) :
    (consume handler proc).input.rest = proc.input.rest.drop (handler.takeOut proc.input.rest proc.state).1 := by
  have fits := handler.takeOut_le proc.input.rest proc.state
  rw [Input.rest_length] at fits
  simp only [consume, Input.shrunk_rest]
  split
  next => exact Input.cut_rest ..
  next none_ =>
    have none_ : (handler.takeOut proc.input.rest proc.state).1 = 0 := by omega
    rw [none_, List.drop_zero]

-- A pane after some of the bytes of a stream of frames.
structure Fed (handler : Handler State Fault) (frames : List Bytes) (first : State) (come : Bytes) (proc : PaneProc State) :
    Prop where
  state : proc.state = handler.serve (wholeFrames frames come) first
  input : handler.isOpen proc.state = true → proc.input.rest = leftOver frames come
  room : proc.input.filled < maxInput

variable {handler : Handler State Fault} {frames : List Bytes} {first : State}

theorem Fed.start (handler : Handler State Fault) (frames : List Bytes) (first : State) (isFrame : ∀ frame ∈ frames, IsFrame frame) :
    Fed handler frames first [] ⟨.new, first⟩ := by
  have none_ : wholeFrames frames [] = [] ∧ leftOver frames [] = [] := by
    cases frames with
    | nil => exact ⟨rfl, rfl⟩
    | cons frame frames =>
      have positive := (isFrame frame List.mem_cons_self).bounds.1
      have short : ¬frame.length ≤ ([] : Bytes).length := by
        rw [List.length_nil]
        omega
      exact ⟨if_neg short, if_neg short⟩
  exact ⟨by rw [none_.1]; rfl, fun _ => by rw [none_.2]; rfl, show 0 < maxInput by decide⟩

theorem Fed.grow {come : Bytes} {proc : PaneProc State} (fed : Fed handler frames first come proc) :
    Fed handler frames first come ⟨proc.input.grow, proc.state⟩ :=
  ⟨fed.state, fun isOpen => proc.input.grow_rest.trans (fed.input isOpen), by
    rw [proc.input.grow_filled]
    exact fed.room⟩

theorem Fed.consume {come bytes : Bytes} {proc : PaneProc State} (fed : Fed handler frames first come proc)
    (isFrame : ∀ frame ∈ frames, IsFrame frame) (isOpen : handler.isOpen proc.state = true)
    (cut : come ++ bytes <+: frames.flatten) (fits : bytes.length ≤ proc.input.room) :
    Fed handler frames first (come ++ bytes) (consume handler ⟨proc.input.took bytes fits, proc.state⟩) := by
  have held : (proc.input.took bytes fits).rest = leftOver frames come ++ bytes := by
    rw [Input.took_rest, fed.input isOpen]
  obtain ⟨whole, left⟩ := wholeFrames_append bytes ((List.prefix_append come bytes).trans cut)
  have remaining : ∀ frame ∈ frames.drop (wholeFrames frames come).length, IsFrame frame :=
    fun frame member => isFrame frame (List.mem_of_mem_drop member)
  obtain ⟨served, stays, none_⟩ := handler.takeOut_stream remaining (leftOver_begins cut) proc.state
  rw [← left, ← held] at stays
  rw [← held] at served none_
  have state : (handler.takeOut (proc.input.took bytes fits).rest proc.state).2 =
      handler.serve (wholeFrames frames (come ++ bytes)) first := by
    rw [served, whole, Handler.serve_append, ← fed.state, held]
  have input := consume_input handler ⟨proc.input.took bytes fits, proc.state⟩
  refine ⟨state, fun isOpen' => input.trans (stays isOpen'), ?_⟩
  rw [← Input.rest_length, input]
  by_cases isOpen' : handler.isOpen (handler.takeOut (proc.input.took bytes fits).rest proc.state).2 = true
  · rw [stays isOpen']
    exact (leftOver_size isFrame cut).2
  · -- A pane that closed here closed at a frame, so some bytes are taken out of a buffer that is full at most.
    have some_ : (handler.takeOut (proc.input.took bytes fits).rest proc.state).1 ≠ 0 := by
      intro none_'
      rw [none_ none_'] at isOpen'
      exact isOpen' isOpen
    have inside := (proc.input.took bytes fits).inside
    have most := (proc.input.took bytes fits).most
    have positive : 0 < maxInput := by decide
    rw [List.length_drop, Input.rest_length]
    simp only
    omega

theorem Fed.read {come : Bytes} {proc : PaneProc State} (fed : Fed handler frames first come proc)
    (isFrame : ∀ frame ∈ frames, IsFrame frame) {pieces : List Piece} (cut : come ++ bytesOf pieces <+: frames.flatten) :
    Fed handler frames first (come ++ bytesOf pieces) (read handler proc pieces false) := by
  generalize notEnded : false = ended
  fun_induction PaneProc.read handler proc pieces ended generalizing come with
  | case1 proc pieces full =>
    have room := fed.room
    omega
  | case2 proc full isOpen =>
    subst notEnded
    have same : come ++ bytesOf [] = come := List.append_nil come
    rw [same]
    exact fed.grow
  | case3 proc full isOpen piece later fits ih =>
    rw [bytesOf_cons, ← List.append_assoc] at cut ⊢
    have first_ : come ++ piece.val <+: frames.flatten := (List.prefix_append _ _).trans cut
    exact ih (fed.grow.consume isFrame isOpen first_ fits) cut
  | case4 proc full isOpen piece later fits bytes =>
    rename_i ih
    have split : come ++ bytesOf (piece :: later) = come ++ bytes ++ bytesOf (piece.behind _ fits :: later) := by
      rw [bytesOf_cons, bytesOf_cons, List.append_assoc, ← List.append_assoc bytes]
      simp only [bytes, Piece.behind, List.take_append_drop]
    rw [split] at cut ⊢
    have first_ : come ++ bytes <+: frames.flatten := (List.prefix_append _ _).trans cut
    exact ih (fed.grow.consume isFrame isOpen first_ (List.length_take_le _ _)) cut
  | case5 proc pieces full closed =>
    have isClosed := Bool.eq_false_iff.2 closed
    have whole := (wholeFrames_append (bytesOf pieces) ((List.prefix_append come _).trans cut)).1
    refine ⟨?_, fun isOpen => absurd isOpen closed, fed.grow.room⟩
    rw [whole, Handler.serve_append, ← fed.state, Handler.serve_closed isClosed]

def reads (handler : Handler State Fault) (proc : PaneProc State) (batches : List (List Piece)) : PaneProc State :=
  batches.foldl (fun proc pieces => read handler proc pieces false) proc

theorem Fed.reads {come : Bytes} {proc : PaneProc State} (fed : Fed handler frames first come proc)
    (isFrame : ∀ frame ∈ frames, IsFrame frame) {batches : List (List Piece)}
    (cut : come ++ (batches.map bytesOf).flatten <+: frames.flatten) :
    Fed handler frames first (come ++ (batches.map bytesOf).flatten) (reads handler proc batches) := by
  induction batches generalizing come proc with
  | nil => simpa [PaneProc.reads] using fed
  | cons pieces batches ih =>
    rw [List.map_cons, List.flatten_cons, ← List.append_assoc] at cut ⊢
    exact ih (fed.read isFrame ((List.prefix_append _ _).trans cut)) cut

end PaneProc

end Kido.Framing
