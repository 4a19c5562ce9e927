import Kido.Ring.Room

set_option autoImplicit false

namespace Kido.Streaming

open Kido.Shared

namespace Ends

variable {ring : Ring}

-- The reader stored `read` at the end of an advance, then loaded the head and found it there, and has gone to wait.
structure Waits (ends : Ends ring) (upper : Nat) : Prop where
  rests : ends.one.running = none
  heard : Reader.heard ends.one.answers = (upper, false)
  seen : ends.one.state.seen = upper

end Ends

-- The frames that wake a writer: a pane process that lacks room sends `full`, and the server answers with `tail`.
inductive FromPane where
  | full
  | other
deriving DecidableEq

inductive ToPane where
  | tail
  | other
deriving DecidableEq

-- A pane process and the server at the control socket: the room that the published tail leaves, what the pane waits for,
-- the frames on their way, and those that the pane has read off the socket but not taken.
structure Handshake where
  room : Nat
  full : Bool
  waiting : Option Nat
  toServer : List FromPane
  answering : Bool
  toPane : List ToPane
  input : List ToPane
  closed : Bool

namespace Handshake

def fresh : Handshake := ⟨0, false, none, [], false, [], [], false⟩

def announceFull (socket : Handshake) : Handshake :=
  if socket.full then socket else { socket with full := true, toServer := socket.toServer ++ [.full] }

inductive Event where
  | room (room : Nat)
  | waitSpace (minimum : Nat)
  | readPty
  | fill (count : Nat)
  | route
  | nestedControl (count : Nat)
  | frame
  | receive
  | answer
  | request
  | close

def step (socket : Handshake) : Event → Handshake
  | .room room => { socket with room := room }
  -- One turn of the loop of `wait_space`: the next step of the pane process is to poll, or to go on.
  | .waitSpace minimum =>
    if socket.room < minimum then { socket.announceFull with waiting := some minimum } else { socket with waiting := none }
  | .readPty => if socket.room = 0 then socket.announceFull else socket
  | .fill count =>
    if socket.waiting = none then
      { socket with input := socket.input ++ socket.toPane.take count, toPane := socket.toPane.drop count }
    else socket
  | .route =>
    if socket.waiting = none then
      { socket with full := socket.full && !decide (socket.input.head? = some .tail), input := socket.input.drop 1 }
    else socket
  -- In a wait, the frames of the socket are read and taken behind those that were read before.
  | .nestedControl count =>
    if socket.waiting = none then socket
    else
      { socket with
        full := socket.full && !decide (.tail ∈ socket.input ++ socket.toPane.take count)
        waiting := none
        toPane := socket.toPane.drop count
        input := [] }
  | .frame => { socket with toServer := socket.toServer ++ [.other] }
  -- The server takes no other frame before it has scanned the ring and sent `tail`.
  | .receive =>
    if socket.answering then socket
    else { socket with answering := decide (socket.toServer.head? = some .full), toServer := socket.toServer.drop 1 }
  | .answer =>
    if socket.answering then { socket with answering := false, toPane := socket.toPane ++ [.tail] } else socket
  | .request => { socket with toPane := socket.toPane ++ [.other] }
  | .close => { socket with closed := true }

def run (events : List Event) : Handshake := Shared.run step fresh events

-- The server has yet to answer a `full`, or a frame or the end of the connection is there to be read.
def Owed (socket : Handshake) : Prop :=
  .full ∈ socket.toServer ∨ socket.answering = true ∨ socket.toPane ≠ [] ∨ socket.closed = true

-- Where a wait begins, no `tail` lies in the input that was read, unless there is more to be read.
def Careful (socket : Handshake) : Event → Prop
  | .waitSpace minimum => socket.room < minimum → .tail ∈ socket.input → socket.toPane ≠ [] ∨ socket.closed = true
  | _ => True

instance (socket : Handshake) (event : Event) : Decidable (socket.Careful event) := by
  cases event <;> unfold Careful <;> infer_instance

def answers (socket : Handshake) : Nat :=
  socket.toServer.count .full + socket.answering.toNat + socket.toPane.count .tail + socket.input.count .tail

def Balanced (socket : Handshake) : Prop := socket.answers = socket.full.toNat

variable {socket : Handshake}

theorem announceFull_balanced (balanced : socket.Balanced) : socket.announceFull.Balanced := by
  rw [announceFull]
  cases full : socket.full with
  | true => simpa [full] using balanced
  | false =>
    simp only [Balanced, answers, full, Bool.false_eq_true, if_false, List.count_append, List.count_singleton_self, Bool.toNat_false,
      Bool.toNat_true] at balanced ⊢
    omega

theorem step_balanced (balanced : socket.Balanced) (event : Event) : (socket.step event).Balanced := by
  cases event with
  | room room => exact balanced
  | waitSpace minimum =>
    rw [step]
    split_ifs
    · exact announceFull_balanced balanced
    · exact balanced
  | readPty =>
    rw [step]
    split_ifs
    · exact announceFull_balanced balanced
    · exact balanced
  | fill count =>
    rw [step]
    split_ifs
    · have whole := congrArg (List.count ToPane.tail) (List.take_append_drop count socket.toPane)
      simp only [Balanced, answers, List.count_append] at balanced whole ⊢
      omega
    · exact balanced
  | route =>
    rw [step]
    split_ifs
    · simp only [Balanced, answers] at balanced ⊢
      have one := Bool.toNat_le socket.full
      cases input : socket.input with
      | nil => simpa [input] using balanced
      | cons first rest =>
        cases first with
        | tail =>
          simp only [input, List.count_cons_self, List.head?_cons, decide_true, Bool.not_true, Bool.and_false, Bool.toNat_false,
            List.drop_one, List.tail_cons] at balanced ⊢
          omega
        | other => simpa [input] using balanced
    · exact balanced
  | nestedControl count =>
    rw [step]
    split_ifs
    · exact balanced
    · have whole := congrArg (List.count ToPane.tail) (List.take_append_drop count socket.toPane)
      have one := Bool.toNat_le socket.full
      simp only [Balanced, answers, List.count_append, List.count_nil] at balanced whole ⊢
      by_cases read : ToPane.tail ∈ socket.input ++ socket.toPane.take count
      · have some_ := List.count_pos_iff.mpr read
        rw [List.count_append] at some_
        simp only [read, decide_true, Bool.not_true, Bool.and_false, Bool.toNat_false]
        omega
      · have none_ := List.count_eq_zero.mpr read
        rw [List.count_append] at none_
        simp only [read, decide_false, Bool.not_false, Bool.and_true]
        omega
  | frame => simpa [Balanced, answers, step, List.count_append] using balanced
  | receive =>
    rw [step]
    split_ifs with busy
    · exact balanced
    · simp only [Balanced, answers] at balanced ⊢
      cases sent : socket.toServer with
      | nil => simpa [sent, busy] using balanced
      | cons first rest =>
        cases first with
        | full =>
          simp only [sent, busy, List.count_cons_self, List.head?_cons, decide_true, Bool.toNat_true, Bool.toNat_false, List.drop_one,
            List.tail_cons] at balanced ⊢
          omega
        | other => simpa [sent, busy] using balanced
  | answer =>
    rw [step]
    split_ifs with busy
    · simp only [Balanced, answers, busy, List.count_append, List.count_singleton_self, Bool.toNat_true, Bool.toNat_false] at balanced ⊢
      omega
    · exact balanced
  | request => simpa [Balanced, answers, step, List.count_append] using balanced
  | close => exact balanced

theorem fresh_balanced : fresh.Balanced := rfl

theorem run_balanced (events : List Event) : (run events).Balanced :=
  run_invariant fresh_balanced (fun _ event balanced => step_balanced balanced event) events

theorem wait_owed_iff (balanced : socket.Balanced) {minimum : Nat} (short : socket.room < minimum) :
    (socket.step (.waitSpace minimum)).Owed ↔ (.tail ∈ socket.input → socket.toPane ≠ [] ∨ socket.closed = true) := by
  rw [step, if_pos short]
  simp only [Balanced, answers] at balanced
  simp only [Owed, announceFull]
  have one := Bool.toNat_le socket.full
  by_cases read : ToPane.tail ∈ socket.input
  · have some_ := List.count_pos_iff.mpr read
    have full : socket.full = true := Bool.eq_true_of_not_eq_false fun empty => by
      rw [empty, Bool.toNat_false] at balanced
      omega
    have said : FromPane.full ∉ socket.toServer := List.count_eq_zero.mp (by omega)
    have answering : socket.answering ≠ true := fun busy => by
      rw [busy, Bool.toNat_true] at balanced
      omega
    simp [full, said, answering, read]
  · refine iff_of_true ?_ fun member => absurd member read
    have none_ := List.count_eq_zero.mpr read
    cases full : socket.full with
    | false => exact .inl (by simp)
    | true =>
      rw [full, Bool.toNat_true] at balanced
      by_cases said : FromPane.full ∈ socket.toServer
      · exact .inl said
      · have unsaid := List.count_eq_zero.mpr said
        cases busy : socket.answering with
        | true => exact .inr (.inl busy)
        | false =>
          rw [busy, Bool.toNat_false] at balanced
          refine .inr (.inr (.inl fun empty => ?_))
          rw [show socket.toPane = [] from empty, List.count_nil] at balanced
          omega

theorem run_wait_owed_iff (events : List Event) {minimum : Nat} (short : (run events).room < minimum) :
    ((run events).step (.waitSpace minimum)).Owed ↔
      (.tail ∈ (run events).input → (run events).toPane ≠ [] ∨ (run events).closed = true) :=
  wait_owed_iff (run_balanced events) short

end Handshake

namespace Handshake

end Handshake

end Kido.Streaming
