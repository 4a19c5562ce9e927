import Kido.Layout.Ids
import Kido.Shared.Cells
import Mathlib.Algebra.BigOperators.Group.List.Basic
import Mathlib.Algebra.Order.Ring.Nat

set_option autoImplicit false

namespace Kido.Sending

open Kido.Shared
open Kido.Tiling (u64Max)

abbrev Bytes := List UInt8

-- A file has no byte past this offset: the offset of a write is an `off_t`.
def maxOffset : Nat := 2 ^ 63 - 1

-- How the disk takes a message: all of it, or so many bytes of it before the error.
structure Disk where
  creates : Bool
  writes : Option Nat

structure Spill where
  file : Nat → UInt8
  limit : Nat
  stop : Nat
  read : Nat
  lens : List Nat

namespace Spill

def create (limit : Nat) : Spill := ⟨fun _ => 0, limit, 0, 0, []⟩

def isEmpty (spill : Spill) : Bool := spill.lens.isEmpty

def push (spill : Spill) (parts : List Bytes) (disk : Disk) : Bool × Spill :=
  let len := (parts.map List.length).sum
  let total := min (spill.stop + len) u64Max
  if spill.limit < total then (false, spill)
  else
    match disk.writes with
    | some count => (false, { spill with file := patch spill.file spill.stop (parts.flatten.take count) })
    | none =>
      if maxOffset < spill.stop + len then (false, spill)
      else (true, { spill with
        file := patch spill.file spill.stop parts.flatten
        stop := total
        lens := spill.lens ++ [len] })

-- The loop of `take`: the messages it took, and where it stopped. `reads` is how many reads go well.
def takeFrom (file : Nat → UInt8) (budget : Nat) :
    List Nat → Nat → Nat → Option Nat → Option (List Bytes × Nat × List Nat)
  | [], read, _, _ => some ([], read, [])
  | len :: lens, read, taken, reads =>
    if 0 < taken ∧ budget < taken + len then some ([], read, len :: lens)
    else if reads = some 0 then none
    else
      (takeFrom file budget lens (min (read + len) u64Max) (taken + len) (reads.map (· - 1))).map fun rest =>
        (slice file read len :: rest.1, rest.2)

def take (spill : Spill) (budget : Nat) (reads : Option Nat) : Option (List Bytes × Spill) :=
  (takeFrom spill.file budget spill.lens spill.read 0 reads).map fun taken =>
    (taken.1, { spill with read := taken.2.1, lens := taken.2.2 })

-- The messages that are in the file, in the order they were stored.
def stored (file : Nat → UInt8) : Nat → List Nat → List Bytes
  | _, [] => []
  | read, len :: lens => slice file read len :: stored file (read + len) lens

def messages (spill : Spill) : List Bytes := stored spill.file spill.read spill.lens

structure Sound (spill : Spill) : Prop where
  stop : spill.stop = spill.read + spill.lens.sum
  bound : spill.stop ≤ maxOffset

end Spill

namespace Spill

theorem stored_append (file : Nat → UInt8) (read : Nat) (first second : List Nat) :
    stored file read (first ++ second) = stored file read first ++ stored file (read + first.sum) second := by
  induction first generalizing read with
  | nil => rfl
  | cons len lens ih => simp [stored, ih, Nat.add_assoc]

theorem stored_patch (file : Nat → UInt8) {place : Nat} (bytes : Bytes) (lens : List Nat) (read : Nat)
    (before : read + lens.sum ≤ place) : stored (patch file place bytes) read lens = stored file read lens := by
  induction lens generalizing read with
  | nil => rfl
  | cons len lens ih =>
    rw [List.sum_cons] at before
    simp only [stored]
    rw [slice_patch_before file bytes (by omega), ih (read + len) (by omega)]

theorem create_sound (limit : Nat) : (create limit).Sound := ⟨rfl, Nat.zero_le _⟩

theorem push_correct {spill after : Spill} {parts : List Bytes} {disk : Disk} (own : spill.Sound)
    (pushed : spill.push parts disk = (true, after)) :
    after.Sound ∧ after.messages = spill.messages ++ [parts.flatten] := by
  have wide : maxOffset ≤ u64Max := by decide
  obtain ⟨stop, bound⟩ := own
  simp only [push] at pushed
  split_ifs at pushed
  · cases pushed
  · split at pushed <;> cases pushed
  · split at pushed <;> cases pushed
    have length : parts.flatten.length = (parts.map List.length).sum := List.length_flatten
    refine ⟨⟨?_, ?_⟩, ?_⟩
    · simp only [List.sum_append, List.sum_singleton]
      omega
    · simp only
      omega
    · simp only [messages, stored_append, stored_patch _ _ _ _ stop.ge, stored, ← stop, ← length, slice_patch]

theorem takeFrom_correct {file : Nat → UInt8} {budget : Nat} (lens : List Nat) {read taken : Nat}
    {reads : Option Nat} {result : List Bytes × Nat × List Nat} (bound : read + lens.sum ≤ u64Max)
    (took : takeFrom file budget lens read taken reads = some result) :
    result.2.1 + result.2.2.sum = read + lens.sum ∧
      stored file read lens = result.1 ++ stored file result.2.1 result.2.2 := by
  induction lens generalizing read taken reads result with
  | nil =>
    cases took
    exact ⟨rfl, rfl⟩
  | cons len lens ih =>
    rw [takeFrom] at took
    split_ifs at took
    · cases took
      exact ⟨rfl, rfl⟩
    · obtain ⟨rest, later, rfl⟩ := Option.map_eq_some_iff.mp took
      rw [List.sum_cons] at bound ⊢
      rw [show min (read + len) u64Max = read + len by omega] at later
      obtain ⟨same, kept⟩ := ih (by omega) later
      exact ⟨by simp only; omega, by simp [stored, kept]⟩

theorem take_correct {spill after : Spill} {budget : Nat} {reads : Option Nat} {taken : List Bytes}
    (own : spill.Sound) (took : spill.take budget reads = some (taken, after)) :
    after.Sound ∧ spill.messages = taken ++ after.messages := by
  have wide : maxOffset ≤ u64Max := by decide
  obtain ⟨stop, bound⟩ := own
  obtain ⟨result, from_, same⟩ := Option.map_eq_some_iff.mp took
  cases same
  obtain ⟨rest, kept⟩ := takeFrom_correct spill.lens (by omega) from_
  exact ⟨⟨by simp only; omega, bound⟩, kept⟩

end Spill

end Kido.Sending

namespace Kido.Sending

structure Chunk where
  bytes : Bytes
  tail : Bool

inductive Fit where
  | cap
  | spill
deriving DecidableEq

structure Overflow where
  limit : Nat
  farewell : Bytes
  spill : Option Spill

def Overflow.store (overflow : Overflow) (parts : List Bytes) (disk : Disk) : Bool × Overflow :=
  let opened := match overflow.spill with
    | some spill => some spill
    | none => if disk.creates then some (Spill.create overflow.limit) else none
  match opened with
  | none => (false, overflow)
  | some spill =>
    let (stored, spill) := spill.push parts disk
    (stored, { overflow with spill := some spill })

inductive Policy where
  | plain
  | view (overflow : Overflow)
  | draining (spill : Spill) (tail : Bytes)
  | sealed

namespace Policy

-- The messages that come after the chunks: those of the spill, and then what `finish` left.
def later : Policy → List Bytes
  | .view overflow => overflow.spill.elim [] Spill.messages
  | .draining spill tail => spill.messages ++ if tail = [] then [] else [tail]
  | _ => []

def spill? : Policy → Option Spill
  | .view overflow => overflow.spill
  | .draining spill _ => some spill
  | _ => none

end Policy

-- The chunks are all in memory, so `bytes` never comes near the end of a `usize`.
structure Queue where
  chunks : List Chunk
  sent : Nat
  bytes : Nat
  cap : Nat
  policy : Policy

def slices : Nat := 64
def piece : Nat := 2 ^ 20
def flushBytes : Nat := 4 * 2 ^ 20

namespace Queue

def new (cap : Nat) : Queue := ⟨[], 0, 0, cap, .plain⟩

def spilling (queue : Queue) : Bool :=
  match queue.policy with
  | .view overflow => overflow.spill.isSome
  | .draining _ _ => true
  | _ => false

def fits (queue : Queue) (len : Nat) : Bool := !queue.spilling && decide (queue.bytes + len ≤ queue.cap)

def isSealed (queue : Queue) : Bool :=
  match queue.policy with
  | .sealed => true
  | .draining _ _ => true
  | _ => false

def isEmpty (queue : Queue) : Bool := queue.chunks.isEmpty && !queue.spilling

def lengths (chunks : List Chunk) : Nat := (chunks.map fun chunk => chunk.bytes.length).sum

def append (queue : Queue) (chunks : List Chunk) : Queue :=
  { queue with
    chunks := queue.chunks ++ chunks
    bytes := queue.bytes + lengths chunks }

def pushTail (queue : Queue) (parts : List Bytes) : Queue := queue.append [⟨parts.flatten, true⟩]

def farewell (queue : Queue) : Option Bytes :=
  match queue.policy with
  | .view overflow => some overflow.farewell
  | _ => none

def inFlight (queue : Queue) : Bool :=
  queue.chunks.head?.any fun front => decide (0 < queue.sent) || front.tail

def overflow (queue : Queue) : Queue :=
  let keep := queue.farewell.isSome && queue.inFlight
  let chunks := queue.chunks.take keep.toNat
  let kept := { queue with
    chunks := chunks
    bytes := chunks.head?.elim 0 fun front => front.bytes.length - queue.sent
    policy := .sealed }
  match queue.farewell with
  | some bytes => kept.append [⟨bytes, false⟩]
  | none => kept

def push (queue : Queue) (parts : List Bytes) (fit : Fit) (disk : Disk) : Bool × Queue :=
  let len := (parts.map List.length).sum
  if queue.isSealed = true ∨ len = 0 then (!queue.isSealed, queue)
  else if queue.fits len then (true, queue.append [⟨parts.flatten, false⟩])
  else
    match queue.policy with
    | .view overflow =>
      if queue.spilling = true ∨ fit = .spill then
        match overflow.store parts disk with
        | (true, overflow) => (true, { queue with policy := .view overflow })
        | (false, overflow) => (false, Queue.overflow { queue with policy := .view overflow })
      else (false, queue.overflow)
    | _ => (false, queue.overflow)

def pushVec (queue : Queue) (bytes : Bytes) (disk : Disk) : Bool × Queue :=
  if queue.isSealed = true ∨ bytes = [] then (!queue.isSealed, queue)
  else if queue.fits bytes.length then (true, queue.append [⟨bytes, false⟩])
  else queue.push [bytes] .cap disk

def finish (queue : Queue) (tail : Bytes) : Queue :=
  if queue.isSealed then queue
  else
    let ended : Queue := { queue with policy := .sealed }
    let closed := if tail = [] then ended else ended.pushTail [tail]
    match queue.policy with
    | .view overflow =>
      match overflow.spill with
      | some spill => { queue with policy := .draining spill tail }
      | none => closed
    | _ => closed

-- The loop of `written`: what is left of the chunks, and how much of the first of them is sent.
def popped : List Chunk → Nat → Nat → List Chunk × Nat
  | [], sent, _ => ([], sent)
  | front :: rest, sent, count =>
    let left := front.bytes.length - sent
    if count < left then (front :: rest, sent + count) else popped rest 0 (count - left)

def written (queue : Queue) (count : Nat) : Queue :=
  let (chunks, sent) := popped queue.chunks queue.sent count
  { queue with bytes := queue.bytes - count, chunks := chunks, sent := sent }

-- `none` is the error of a read. The messages read before it are lost with the spill, which `overflow` drops.
def fill (queue : Queue) (reads : Option Nat) : Option Queue :=
  let budget := min queue.cap piece
  let whole := fun messages : List Bytes => messages.map fun bytes => Chunk.mk bytes false
  match queue.policy with
  | .draining spill tail =>
    (spill.take budget reads).map fun taken =>
      let filled := queue.append (whole taken.1)
      if taken.2.isEmpty then
        let ended : Queue := { filled with policy := .sealed }
        if tail = [] then ended else ended.pushTail [tail]
      else { filled with policy := .draining taken.2 tail }
  | .view overflow =>
    match overflow.spill with
    | none => some queue
    | some file =>
      (file.take budget reads).map fun taken =>
        { queue.append (whole taken.1) with
          policy := .view { overflow with spill := if taken.2.isEmpty then none else some taken.2 } }
  | _ => some queue

def offered (queue : Queue) : Bytes :=
  match queue.chunks.take slices with
  | [] => []
  | front :: rest => front.bytes.drop queue.sent ++ rest.flatMap Chunk.bytes

def body (queue : Queue) : Bytes :=
  match queue.chunks with
  | [] => []
  | front :: rest => front.bytes.drop queue.sent ++ rest.flatMap Chunk.bytes

def later (queue : Queue) : List Bytes := queue.policy.later

def pending (queue : Queue) : Bytes := queue.body ++ queue.later.flatten

def flight (queue : Queue) : Bytes :=
  if queue.inFlight then (queue.chunks.head?.elim [] Chunk.bytes).drop queue.sent else []

-- The byte count is the sum of the chunks less what is sent of the first of them.
structure Counted (queue : Queue) : Prop where
  sent : ∀ front ∈ queue.chunks.head?, queue.sent ≤ front.bytes.length
  total : queue.chunks ≠ [] → queue.bytes + queue.sent = lengths queue.chunks
  empty : queue.chunks = [] → queue.bytes = 0

end Queue

-- What is left of a list of chunks: the rest of the first one once it has begun, and the chunks that have not.
inductive Left (chunks : List Chunk) (sent : Nat) : Bytes → List Bytes → Prop where
  | between (zero : sent = 0) : Left chunks sent [] (chunks.map Chunk.bytes)
  | within (front : Chunk) (rest : List Chunk) (first : chunks = front :: rest)
      (flight : 0 < sent ∨ front.tail = true) : Left chunks sent (front.bytes.drop sent) (rest.map Chunk.bytes)

-- The wire and the queue hold the messages in their order: those that have begun, and then the others.
def Serves (wire : Bytes) (messages : List Bytes) (queue : Queue) : Prop :=
  ∃ begun flight waiting, Left queue.chunks queue.sent flight waiting ∧
    messages = begun ++ (waiting ++ queue.later) ∧ wire ++ flight = begun.flatten

namespace Left

theorem idle {chunks : List Chunk} {sent : Nat} {flight : Bytes} {waiting : List Bytes}
    (left : Left chunks sent flight waiting) (empty : chunks = []) : sent = 0 ∧ flight = [] ∧ waiting = [] := by
  cases left with
  | between zero => exact ⟨zero, rfl, by simp [empty]⟩
  | within front rest first => simp [empty] at first

theorem append {chunks : List Chunk} {sent : Nat} {flight : Bytes} {waiting : List Bytes}
    (left : Left chunks sent flight waiting) (more : List Chunk) :
    Left (chunks ++ more) sent flight (waiting ++ more.map Chunk.bytes) := by
  cases left with
  | between zero =>
    rw [← List.map_append]
    exact .between zero
  | within front rest first begun =>
    rw [← List.map_append]
    exact .within front (rest ++ more) (by simp [first]) begun

theorem cons {front : Chunk} {rest : List Chunk} {sent : Nat} {flight : Bytes} {waiting : List Bytes}
    (left : Left (front :: rest) sent flight waiting) :
    ∃ begun, waiting = begun ++ rest.map Chunk.bytes ∧ flight ++ begun.flatten = front.bytes.drop sent := by
  cases left with
  | between zero => exact ⟨[front.bytes], by simp, by simp [zero]⟩
  | within other others first =>
    cases first
    exact ⟨[], rfl, by simp⟩

theorem body {chunks : List Chunk} {sent : Nat} {flight : Bytes} {waiting : List Bytes}
    (left : Left chunks sent flight waiting) (bytes cap : Nat) (policy : Policy) :
    Queue.body ⟨chunks, sent, bytes, cap, policy⟩ = flight ++ waiting.flatten := by
  cases chunks with
  | nil =>
    obtain ⟨_, rfl, rfl⟩ := left.idle rfl
    rfl
  | cons front rest =>
    obtain ⟨begun, rfl, same⟩ := left.cons
    simp [Queue.body, ← same, List.flatMap]

theorem popped {chunks : List Chunk} {sent count : Nat} {flight : Bytes} {waiting : List Bytes}
    (left : Left chunks sent flight waiting) (bound : count ≤ (flight ++ waiting.flatten).length) :
    ∃ begun flight' waiting', Left (Queue.popped chunks sent count).1 (Queue.popped chunks sent count).2 flight' waiting' ∧
      waiting = begun ++ waiting' ∧
      flight ++ begun.flatten = (flight ++ waiting.flatten).take count ++ flight' := by
  induction chunks generalizing sent count flight waiting with
  | nil =>
    obtain ⟨_, rfl, rfl⟩ := left.idle rfl
    exact ⟨[], [], [], left, rfl, by simp⟩
  | cons front rest ih =>
    obtain ⟨begun, rfl, same⟩ := left.cons
    have all : flight ++ (begun ++ rest.map Chunk.bytes).flatten =
        front.bytes.drop sent ++ (rest.map Chunk.bytes).flatten := by simp [← same]
    rw [all] at bound ⊢
    have length : (front.bytes.drop sent).length = front.bytes.length - sent := List.length_drop
    rw [Queue.popped]
    split_ifs with short
    · by_cases none_ : count = 0
      · subst none_
        exact ⟨[], flight, _, left, rfl, by simp⟩
      · refine ⟨begun, _, _, .within front rest rfl (.inl (by simp only; omega)), rfl, ?_⟩
        rw [same, List.take_append_of_le_length (by omega), ← List.drop_drop, List.take_append_drop]
    · have later : Left rest 0 [] (rest.map Chunk.bytes) := .between rfl
      obtain ⟨more, flight', waiting', next, split, reached⟩ := @ih 0 (count - (front.bytes.length - sent)) _ _ later (by
        rw [List.nil_append]
        rw [List.length_append] at bound
        omega)
      refine ⟨begun ++ more, flight', waiting', next, by rw [split, List.append_assoc], ?_⟩
      have taken : (front.bytes.drop sent).take count = front.bytes.drop sent := List.take_of_length_le (by omega)
      rw [List.flatten_append, ← List.append_assoc, same, List.take_append, taken, length, List.append_assoc,
        ← List.nil_append more.flatten, reached, List.nil_append]

end Left

namespace Queue

@[simp]
theorem lengths_nil : lengths [] = 0 := rfl

@[simp]
theorem lengths_cons (chunk : Chunk) (chunks : List Chunk) :
    lengths (chunk :: chunks) = chunk.bytes.length + lengths chunks := rfl

@[simp]
theorem lengths_append (first second : List Chunk) : lengths (first ++ second) = lengths first + lengths second := by
  simp [lengths]

theorem le_lengths {chunks : List Chunk} {front : Chunk} (member : front ∈ chunks.head?) :
    front.bytes.length ≤ lengths chunks := by
  cases chunks <;> cases member
  exact Nat.le_add_right _ _

theorem Counted.append {queue : Queue} (own : queue.Counted) (idle : queue.chunks = [] → queue.sent = 0)
    (chunks : List Chunk) : (queue.append chunks).Counted := by
  obtain ⟨fit, total, none_⟩ := own
  cases first : queue.chunks with
  | nil =>
    have sent := idle first
    have empty := none_ first
    refine ⟨fun front _ => by simp [Queue.append, sent], ?_, ?_⟩ <;> simp [Queue.append, first, sent, empty]
    intro absent
    simp [absent]
  | cons front rest =>
    have sum := total (by simp [first])
    rw [first] at fit sum
    refine ⟨?_, fun _ => ?_, fun absent => by simp [Queue.append, first] at absent⟩
    · simpa [Queue.append, first] using fit
    · simp only [Queue.append, first, lengths_append]
      omega

theorem Counted.withPolicy {queue : Queue} (own : queue.Counted) (policy : Policy) :
    Counted { queue with policy := policy } := ⟨own.sent, own.total, own.empty⟩

theorem popped_lengths (chunks : List Chunk) (sent count : Nat)
    (inside : ∀ front ∈ chunks.head?, sent ≤ front.bytes.length) :
    let left := popped chunks sent count
    (∀ front ∈ left.1.head?, left.2 ≤ front.bytes.length) ∧
      (left.1 ≠ [] → lengths left.1 + sent + count = lengths chunks + left.2) ∧
      (left.1 = [] → lengths chunks ≤ sent + count) := by
  induction chunks generalizing sent count with
  | nil => simp [popped]
  | cons front rest ih =>
    have own := inside front rfl
    rw [popped]
    split_ifs with short
    · simp only [List.head?_cons, Option.mem_some_iff, forall_eq']
      exact ⟨by omega, fun _ => by omega, fun absent => by simp at absent⟩
    · obtain ⟨fit, sum, all⟩ := ih 0 (count - (front.bytes.length - sent)) (fun _ _ => Nat.zero_le _)
      refine ⟨fit, fun some_ => ?_, fun none_ => ?_⟩
      · have total := sum some_
        simp only [lengths_cons]
        omega
      · have total := all none_
        simp only [lengths_cons]
        omega

theorem Counted.written {queue : Queue} (own : queue.Counted) (count : Nat) : (queue.written count).Counted := by
  obtain ⟨fit, sum, all⟩ := popped_lengths queue.chunks queue.sent count own.sent
  refine ⟨fit, fun some_ => ?_, fun none_ => ?_⟩
  · have total := sum some_
    have before : queue.chunks ≠ [] := by
      intro absent
      simp [Queue.written, absent, popped] at some_
    have counted := own.total before
    obtain ⟨front, rest, same⟩ := List.exists_cons_of_ne_nil some_
    have inside : front ∈ (queue.written count).chunks.head? := by simp [same]
    have least : front.bytes.length ≤ lengths (popped queue.chunks queue.sent count).1 := le_lengths inside
    have most := fit front inside
    simp only [Queue.written]
    omega
  · have total := all none_
    simp only [Queue.written]
    by_cases absent : queue.chunks = []
    · have empty := own.empty absent
      omega
    · have counted := own.total absent
      omega

theorem Counted.overflow {queue : Queue} (own : queue.Counted) (idle : queue.chunks = [] → queue.sent = 0) :
    queue.overflow.Counted := by
  cases farewell : queue.farewell with
  | none =>
    refine ⟨?_, ?_, ?_⟩ <;> simp [Queue.overflow, farewell]
  | some bytes =>
    cases flying : queue.inFlight with
    | false =>
      have sent : queue.sent = 0 := by
        cases first : queue.chunks with
        | nil => exact idle first
        | cons front rest => simp_all [Queue.inFlight]
      refine ⟨?_, ?_, ?_⟩ <;> simp [Queue.overflow, farewell, flying, Queue.append, sent]
    | true =>
      cases first : queue.chunks with
      | nil => simp [Queue.inFlight, first] at flying
      | cons front rest =>
        have fit : queue.sent ≤ front.bytes.length := own.sent front (by simp [first])
        refine ⟨?_, ?_, ?_⟩ <;> simp [Queue.overflow, farewell, flying, Queue.append, first]
        · exact fit
        · omega

end Queue

namespace Serves

variable {wire : Bytes} {messages : List Bytes} {queue : Queue}

theorem idle (serves : Serves wire messages queue) (empty : queue.chunks = []) : queue.sent = 0 := by
  obtain ⟨_, _, _, left, _, _⟩ := serves
  exact (left.idle empty).1

theorem pending (serves : Serves wire messages queue) : wire ++ queue.pending = messages.flatten := by
  obtain ⟨begun, flight, waiting, left, rfl, reached⟩ := serves
  rw [Queue.pending, left.body, List.flatten_append, List.flatten_append, ← reached]
  simp only [List.append_assoc]

theorem append (serves : Serves wire messages queue) (direct : queue.later = []) (message : Bytes) (tail : Bool) :
    Serves wire (messages ++ [message]) (queue.append [⟨message, tail⟩]) := by
  obtain ⟨begun, flight, waiting, left, rfl, reached⟩ := serves
  refine ⟨begun, flight, _, left.append [⟨message, tail⟩], ?_, reached⟩
  have same : (queue.append [⟨message, tail⟩]).later = [] := direct
  simp [direct, same]

theorem tail (chunks : queue.chunks = []) (sent : queue.sent = 0) (direct : queue.later = []) {message : Bytes}
    {count : Nat} (reached : wire = messages.flatten ++ message.take count) :
    Serves wire (messages ++ [message]) (queue.append [⟨message.drop count, true⟩]) := by
  have left : Left [⟨message.drop count, true⟩] 0 (message.drop count) [] :=
    .within ⟨message.drop count, true⟩ [] rfl (.inr rfl)
  have same : (queue.append [⟨message.drop count, true⟩]).later = [] := direct
  refine ⟨messages ++ [message], message.drop count, [], ?_, by simp [same], by simp [reached]⟩
  simpa [Queue.append, chunks, sent] using left

theorem withPolicy (serves : Serves wire messages queue) {policy : Policy} {more : List Bytes}
    (later : policy.later = queue.later ++ more) :
    Serves wire (messages ++ more) { queue with policy := policy } := by
  obtain ⟨begun, flight, waiting, left, rfl, reached⟩ := serves
  refine ⟨begun, flight, waiting, left, ?_, reached⟩
  simp only [Queue.later, later, List.append_assoc]

theorem finish (serves : Serves wire messages queue) (opened : queue.isSealed = false) (tail : Bytes) :
    Serves wire (messages ++ if tail = [] then [] else [tail]) (queue.finish tail) := by
  have closed (direct : queue.later = []) :
      Serves wire (messages ++ if tail = [] then [] else [tail])
        (if tail = [] then { queue with policy := .sealed }
          else Queue.pushTail { queue with policy := .sealed } [tail]) := by
    have ended : Serves wire (messages ++ []) { queue with policy := .sealed } :=
      @Serves.withPolicy _ _ _ serves .sealed _ (by rw [direct]; rfl)
    rw [List.append_nil] at ended
    split_ifs
    · simpa using ended
    · simpa [Queue.pushTail] using ended.append rfl tail true
  cases policy : queue.policy with
  | plain =>
    simp only [Queue.finish, opened, policy, Bool.false_eq_true, if_false]
    exact closed (by simp [Queue.later, policy, Policy.later])
  | view overflow =>
    cases stored : overflow.spill with
    | none =>
      simp only [Queue.finish, opened, policy, stored, Bool.false_eq_true, if_false]
      exact closed (by simp [Queue.later, policy, Policy.later, stored])
    | some spill =>
      simp only [Queue.finish, opened, policy, stored, Bool.false_eq_true, if_false]
      exact serves.withPolicy (by simp [Queue.later, policy, Policy.later, stored])
  | draining spill tail => simp [Queue.isSealed, policy] at opened
  | «sealed» => simp [Queue.isSealed, policy] at opened

theorem written (serves : Serves wire messages queue) {count : Nat} (bound : count ≤ queue.body.length) :
    Serves (wire ++ queue.body.take count) messages (queue.written count) := by
  obtain ⟨begun, flight, waiting, left, rfl, reached⟩ := serves
  have body := left.body queue.bytes queue.cap queue.policy
  rw [body] at bound ⊢
  obtain ⟨more, flight', waiting', next, rfl, moved⟩ := left.popped bound
  refine ⟨begun ++ more, flight', waiting', next, ?_, ?_⟩
  · simp only [List.append_assoc]
    rfl
  · rw [List.append_assoc, ← moved, ← List.append_assoc, reached, List.flatten_append]

theorem filled (serves : Serves wire messages queue) (empty : queue.chunks = []) {after : Queue}
    (sent : after.sent = queue.sent) (same : after.chunks.map Chunk.bytes ++ after.later = queue.later) :
    Serves wire messages after := by
  obtain ⟨begun, flight, waiting, left, rfl, reached⟩ := serves
  obtain ⟨zero, rfl, rfl⟩ := left.idle empty
  exact ⟨begun, [], _, .between (sent.trans zero), by rw [same, List.nil_append], reached⟩

theorem overflow (serves : Serves wire messages queue) {farewell : Bytes} (view : queue.farewell = some farewell) :
    ∃ k, wire ++ queue.flight = (messages.take k).flatten ∧
      Serves wire (messages.take k ++ [farewell]) queue.overflow := by
  obtain ⟨begun, flight, waiting, left, rfl, reached⟩ := serves
  have sealed (kept : List Chunk) (keep : queue.chunks.take queue.inFlight.toNat = kept) :
      queue.overflow.chunks = kept ++ [⟨farewell, false⟩] ∧ queue.overflow.sent = queue.sent ∧
        queue.overflow.later = [] := by
    simp [Queue.overflow, view, keep, Queue.append, Queue.later, Policy.later]
  cases left with
  | between zero =>
    rw [List.append_nil] at reached
    cases flying : queue.inFlight with
    | false =>
      obtain ⟨chunks, sent, later⟩ := sealed [] (by simp [flying])
      refine ⟨begun.length, by simp [Queue.flight, flying, reached], begun, [], _, .between (sent.trans zero), ?_, ?_⟩
      · simp [chunks, later]
      · simpa using reached
    | true =>
      cases first : queue.chunks with
      | nil => simp [Queue.inFlight, first] at flying
      | cons front rest =>
        obtain ⟨chunks, sent, later⟩ := sealed [front] (by simp [flying, first])
        have kept : (begun ++ (front.bytes :: (rest.map Chunk.bytes ++ queue.later))).take (begun.length + 1) =
            begun ++ [front.bytes] := by simp [List.take_append]
        refine ⟨begun.length + 1, ?_, begun, [], _, .between (sent.trans zero), ?_, ?_⟩
        · simp [Queue.flight, flying, first, zero, kept, reached]
        · simp [chunks, later, kept]
        · simpa using reached
  | within front rest first begins =>
    have flying : queue.inFlight = true := by
      rcases begins with sent | tail
      · simp [Queue.inFlight, first, sent]
      · simp [Queue.inFlight, first, tail]
    obtain ⟨chunks, sent, later⟩ := sealed [front] (by simp [flying, first])
    refine ⟨begun.length, by simp [Queue.flight, flying, first, reached], begun, _, _,
      .within front [⟨farewell, false⟩] chunks (sent ▸ begins), ?_, by rw [sent, reached]⟩
    simp [later]

end Serves

namespace Queue

-- `push` takes the message to the end of the queue or of the spill, or the queue overflows.
inductive Pushed (queue : Queue) (message : Bytes) : Bool × Queue → Prop where
  | none (empty : message = []) : Pushed queue message (true, queue)
  | chunk (some_ : message ≠ []) (direct : queue.later = []) :
    Pushed queue message (true, queue.append [⟨message, false⟩])
  | stored (some_ : message ≠ []) (policy : Policy) (later : policy.later = queue.later ++ [message])
      (sound : ∀ spill ∈ policy.spill?, spill.Sound) : Pushed queue message (true, { queue with policy := policy })
  | overflow : Pushed queue message (false, queue.overflow)

theorem later_direct {queue : Queue} (opened : queue.isSealed = false) (direct : queue.spilling = false) :
    queue.later = [] := by
  cases policy : queue.policy with
  | view overflow => simp_all [later, Policy.later, spilling]
  | draining spill tail => simp [isSealed, policy] at opened
  | plain => simp [later, policy, Policy.later]
  | «sealed» => simp [later, policy, Policy.later]

theorem store_correct {overflow after : Overflow} {parts : List Bytes} {disk : Disk}
    (sound : ∀ spill ∈ overflow.spill, spill.Sound) (stored : overflow.store parts disk = (true, after)) :
    (∀ spill ∈ after.spill, spill.Sound) ∧
      (Policy.view after).later = (Policy.view overflow).later ++ [parts.flatten] := by
  have pushes (spill : Spill) (own : spill.Sound) (same : overflow.spill.elim [] Spill.messages = spill.messages)
      (pushed : ((spill.push parts disk).1, { overflow with spill := some (spill.push parts disk).2 }) = (true, after)) :
      (∀ spill ∈ after.spill, spill.Sound) ∧
        (Policy.view after).later = (Policy.view overflow).later ++ [parts.flatten] := by
    obtain ⟨ok, rfl⟩ := Prod.mk.inj pushed
    obtain ⟨kept, messages⟩ := Spill.push_correct own (Prod.ext ok rfl)
    simp only [Option.mem_some_iff, forall_eq', Policy.later, Option.elim_some]
    exact ⟨kept, by rw [messages, same]⟩
  rw [Overflow.store] at stored
  cases spill : overflow.spill with
  | some found =>
    rw [spill] at stored
    exact pushes found (sound found spill) (by simp [spill]) stored
  | none =>
    rw [spill] at stored
    by_cases creates : disk.creates = true
    · simp only [creates, if_true] at stored
      exact pushes (Spill.create overflow.limit) (Spill.create_sound _) (by simp [spill]; rfl) stored
    · simp [creates] at stored

theorem store_farewell {overflow after : Overflow} {parts : List Bytes} {disk : Disk} {stored : Bool}
    (result : overflow.store parts disk = (stored, after)) : after.farewell = overflow.farewell := by
  rw [Overflow.store] at result
  split at result
  · cases result
    rfl
  · cases result
    rfl

theorem push_correct {queue : Queue} (opened : queue.isSealed = false)
    (sound : ∀ spill ∈ queue.policy.spill?, spill.Sound) (parts : List Bytes) (fit : Fit) (disk : Disk) :
    Pushed queue parts.flatten (queue.push parts fit disk) := by
  simp only [push, opened, Bool.false_eq_true, false_or, Bool.not_false]
  by_cases empty : (parts.map List.length).sum = 0
  · have none_ : parts.flatten = [] := by
      rw [← List.length_eq_zero_iff, List.length_flatten]
      exact empty
    rw [if_pos empty]
    exact .none none_
  have some_ : parts.flatten ≠ [] := by
    rw [← List.length_pos_iff, List.length_flatten]
    omega
  rw [if_neg empty]
  by_cases room : queue.fits (parts.map List.length).sum = true
  · have direct : queue.spilling = false := by
      simp only [fits, Bool.and_eq_true, Bool.not_eq_true'] at room
      exact room.1
    rw [if_pos room]
    exact .chunk some_ (later_direct opened direct)
  rw [if_neg room]
  cases policy : queue.policy with
  | view overflow =>
    by_cases stores : queue.spilling = true ∨ fit = .spill
    · simp only [if_pos stores]
      cases result : overflow.store parts disk with
      | mk stored after =>
        cases stored with
        | true =>
          obtain ⟨kept, later⟩ := store_correct (by simpa [policy, Policy.spill?] using sound) result
          refine .stored some_ (.view after) ?_ kept
          rw [later, Queue.later, policy]
        | false =>
          have same : Queue.overflow { queue with policy := .view after } = queue.overflow := by
            simp [Queue.overflow, farewell, policy, store_farewell result, inFlight]
          simp only [same]
          exact .overflow
    · simp only [if_neg stores]
      exact .overflow
  | _ => exact .overflow

theorem counted_pushed {queue : Queue} {message : Bytes} {result : Bool × Queue} (own : queue.Counted)
    (idle : queue.chunks = [] → queue.sent = 0) (pushed : Pushed queue message result) : result.2.Counted := by
  cases pushed with
  | none => exact own
  | chunk => exact own.append idle _
  | stored _ policy => exact own.withPolicy policy
  | overflow => exact own.overflow idle

theorem pushVec_eq (queue : Queue) (bytes : Bytes) (disk : Disk) :
    queue.pushVec bytes disk = queue.push [bytes] .cap disk := by
  simp only [pushVec, push, List.map_cons, List.map_nil, List.sum_cons, List.sum_nil, Nat.add_zero,
    List.length_eq_zero_iff, List.flatten_cons, List.flatten_nil, List.append_nil]
  split_ifs <;> rfl

theorem offered_prefix (queue : Queue) : queue.offered <+: queue.body := by
  rw [offered, body]
  cases queue.chunks with
  | nil => exact List.prefix_rfl
  | cons front rest =>
    have fewer : (rest.take (slices - 1)).flatMap Chunk.bytes <+: rest.flatMap Chunk.bytes := by
      conv_rhs => rw [← List.take_append_drop (slices - 1) rest, List.flatMap_append]
      exact List.prefix_append _ _
    exact (List.prefix_append_right_inj _).mpr fewer

@[simp]
theorem map_whole (messages : List Bytes) :
    messages.map (Chunk.bytes ∘ fun bytes => Chunk.mk bytes false) = messages := List.map_id _

theorem fill_correct {queue after : Queue} {reads : Option Nat} (empty : queue.chunks = [])
    (idle : queue.sent = 0) (counted : queue.Counted) (sound : ∀ spill ∈ queue.policy.spill?, spill.Sound)
    (filled : queue.fill reads = some after) :
    after.Counted ∧ (∀ spill ∈ after.policy.spill?, spill.Sound) ∧ after.sent = queue.sent ∧
      after.chunks.map Chunk.bytes ++ after.later = queue.later := by
  cases policy : queue.policy with
  | plain | «sealed» =>
    simp only [fill, policy, Option.some.injEq] at filled
    subst filled
    exact ⟨counted, sound, rfl, by simp [empty]⟩
  | view overflow =>
    rw [policy] at sound
    cases spill : overflow.spill with
    | none =>
      simp only [fill, policy, spill, Option.some.injEq] at filled
      subst filled
      exact ⟨counted, by simpa [policy] using sound, rfl, by simp [empty]⟩
    | some file =>
      simp only [fill, policy, spill] at filled
      obtain ⟨⟨taken, rest⟩, took, rfl⟩ := Option.map_eq_some_iff.mp filled
      obtain ⟨kept, messages⟩ := Spill.take_correct (sound file spill) took
      have later : queue.later = taken ++ rest.messages := by simp [Queue.later, policy, Policy.later, spill, messages]
      refine ⟨(counted.append (fun _ => idle) _).withPolicy _, ?_, rfl, ?_⟩
      · cases done : rest.isEmpty <;> simp [Policy.spill?, kept]
      · rw [later]
        cases done : rest.isEmpty with
        | false => simp [append, Queue.later, Policy.later, empty]
        | true =>
          have none_ : rest.lens = [] := by simpa [Spill.isEmpty] using done
          simp [append, Queue.later, Policy.later, empty, Spill.messages, none_, Spill.stored]
  | draining spill tail =>
    rw [policy] at sound
    simp only [fill, policy] at filled
    obtain ⟨⟨taken, rest⟩, took, rfl⟩ := Option.map_eq_some_iff.mp filled
    obtain ⟨kept, messages⟩ := Spill.take_correct (sound spill rfl) took
    have later : queue.later = taken ++ rest.messages ++ if tail = [] then [] else [tail] := by
      simp [Queue.later, policy, Policy.later, messages]
    have whole := counted.append (fun _ => idle) (taken.map fun bytes => Chunk.mk bytes false)
    rw [later]
    cases done : rest.isEmpty with
    | false =>
      simp only [Bool.false_eq_true, if_false]
      refine ⟨whole.withPolicy _, ?_, rfl, ?_⟩
      · simpa [Policy.spill?] using kept
      · simp [append, Queue.later, Policy.later, empty]
    | true =>
      have none_ : rest.lens = [] := by simpa [Spill.isEmpty] using done
      have gone : rest.messages = [] := by simp [Spill.messages, none_, Spill.stored]
      simp only [if_true]
      split_ifs with last
      · refine ⟨whole.withPolicy _, by simp [Policy.spill?], rfl, ?_⟩
        simp [append, Queue.later, Policy.later, empty, gone]
      · refine ⟨Counted.append (whole.withPolicy _) (fun _ => idle) _, by simp [Policy.spill?, pushTail, append], rfl, ?_⟩
        simp [append, pushTail, Queue.later, Policy.later, empty, gone]

theorem counted_finish {queue : Queue} (own : queue.Counted) (idle : queue.chunks = [] → queue.sent = 0)
    (tail : Bytes) : (queue.finish tail).Counted := by
  have closed : (if tail = [] then { queue with policy := .sealed }
      else Queue.pushTail { queue with policy := .sealed } [tail]).Counted := by
    split_ifs
    · exact own.withPolicy _
    · exact (own.withPolicy .sealed).append idle _
  rw [finish]
  split_ifs
  · exact own
  all_goals
    split
    · split
      · exact own.withPolicy _
      · simpa [*] using closed
    · simpa [*] using closed

theorem finish_spill {queue : Queue} (sound : ∀ spill ∈ queue.policy.spill?, spill.Sound) (tail : Bytes) :
    ∀ spill ∈ (queue.finish tail).policy.spill?, spill.Sound := by
  rw [finish]
  split_ifs
  · exact sound
  all_goals
    split
    · rename_i policy
      split
      · rename_i spill stored
        simpa [policy, Policy.spill?, stored] using sound
      · simp [Policy.spill?, pushTail, append]
    · simp [Policy.spill?, pushTail, append]

end Queue

end Kido.Sending
