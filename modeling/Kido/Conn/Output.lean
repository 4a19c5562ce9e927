import Kido.Conn.Queue
import Kido.Shared.Frames
import Kido.Shared.Run

set_option autoImplicit false

namespace Kido.Sending

open Kido.Shared
open Kido.Tiling (u64Max)

inductive Written where
  | accepted
  | queued
  | blocked
  | closed

structure Output where
  queue : Queue
  shut : Bool
  refused : Bool
  accepted : Nat

-- Where the stream ends once the queue overflowed: what the wire had then, what was left of the chunk in flight, and
-- the farewell. A queue without a farewell cuts the wire off.
inductive Ending where
  | running
  | farewell (sent rest farewell : Bytes)
  | cut (sent : Bytes)

-- An output, and what can be seen of it: the bytes that the socket took and the messages that were accepted.
structure World where
  output : Output
  wire : Bytes
  messages : List Bytes
  ending : Ending

-- One turn of the loop of `flush`: the reads of the spill that go well, all of them where it is `none`, and the room
-- in the socket, which fails where it is `none`.
structure Turn where
  reads : Option Nat
  takes : Option Nat

def batchLimit : Nat := 64

namespace World

def start (cap : Nat) : World := ⟨⟨.new cap, false, false, 0⟩, [], [], .running⟩

def queue (world : World) : Queue := world.output.queue

def withQueue (world : World) (queue : Queue) : World := { world with output := { world.output with queue := queue } }

def isOpen (world : World) : Bool := !world.output.shut && !world.queue.isSealed

def waiting (world : World) : Bool := world.output.refused || !world.queue.isEmpty

def available (world : World) : Bool := world.isOpen && !world.waiting

def accept (world : World) (message : Bytes) : World :=
  if message = [] then world else { world with messages := world.messages ++ [message] }

def atOverflow (world : World) : Ending :=
  match world.queue.farewell with
  | some farewell => .farewell world.wire world.queue.flight farewell
  | none => .cut world.wire

def overflowed (world : World) : World := { world.withQueue world.queue.overflow with ending := world.atOverflow }

def closeDown (world : World) : World := { world with output := { world.output with shut := true } }

def close (world : World) : World :=
  if !world.queue.isSealed || world.queue.isEmpty then world.closeDown else world

def refill (world : World) (reads : Option Nat) : World :=
  if world.queue.chunks.isEmpty then
    match world.queue.fill reads with
    | some filled => world.withQueue filled
    | none => world.overflowed
  else world

def wrote (world : World) (taken : Bytes) : World :=
  { world.withQueue (world.queue.written taken.length) with wire := world.wire ++ taken }

-- The loop of `Queue::flush`, with the bytes that it took, or `none` where the socket failed. At the end of the
-- turns the socket takes no more.
def flushFrom (world : World) (total : Nat) : List Turn → World × Option Nat
  | [] => (if total < flushBytes then world.refill none else world, some total)
  | turn :: turns =>
    if total < flushBytes then
      let filled := world.refill turn.reads
      if filled.queue.chunks.isEmpty then (filled, some total)
      else
        match turn.takes with
        | none => (filled, none)
        | some room =>
          let taken := filled.queue.offered.take room
          if taken = [] then (filled, some total) else flushFrom (filled.wrote taken) (total + taken.length) turns
    else (world, some total)

def flush (world : World) (turns : List Turn) : World :=
  if world.output.shut then world
  else
    match world.flushFrom 0 turns with
    | (world, none) => world.closeDown
    | (world, some count) =>
      let counted : World := { world with output :=
          { world.output with accepted := min (world.output.accepted + count) u64Max } }
      if counted.queue.isSealed && counted.queue.isEmpty then counted.closeDown else counted

-- The output once its queue was offered a message: a queue that is open and refuses it has overflowed.
def pushed (world : World) (message : Bytes) : Bool × Queue → World
  | (true, queue) => (world.withQueue queue).accept message
  | (false, queue) => { world.withQueue queue with
      ending := if world.queue.isSealed then world.ending else world.atOverflow }

def send (world : World) (bytes : Bytes) (disk : Disk) (turns : List Turn) : World :=
  if world.isOpen then (world.pushed bytes (world.queue.pushVec bytes disk)).flush turns else world

-- The write that `record` and `send_batch` try first: `none` where the socket failed.
def direct (world : World) (bytes : Bytes) (takes : Option Nat) : Option (Nat × World) :=
  if world.available then
    takes.map fun room =>
      let taken := bytes.take room
      (taken.length, { world with
        output := { world.output with
          refused := taken.isEmpty
          accepted := min (world.output.accepted + taken.length) u64Max }
        wire := world.wire ++ taken })
  else some (0, world)

def queueTail (world : World) (header : Bytes) (written : Nat) (payload : Bytes) : World :=
  world.withQueue (world.queue.pushTail [header.drop written, payload.drop (written - header.length)])

def record (world : World) (fit : Fit) (header payload : Bytes) (takes : Option Nat) (disk : Disk)
    (turns : List Turn) : World × Written :=
  if world.isOpen then
    match world.direct (header ++ payload) takes with
    | none => (world.closeDown, .closed)
    | some (written, world) =>
      if written = header.length + payload.length then (world.accept (header ++ payload), .accepted)
      else if 0 < written then ((world.queueTail header written payload).accept (header ++ payload), .queued)
      else if fit = .cap then (world, .blocked)
      else
        let pushed := world.queue.push [header, payload] fit disk
        let after := world.pushed (header ++ payload) pushed
        if pushed.1 then (after, .queued) else (after.flush turns, .closed)
  else (world, .closed)

def batchFrom (world : World) : List (Bytes × Bytes) → Nat → World × Nat
  | [], _ => (world, 0)
  | (header, payload) :: rest, remaining =>
    let total := header.length + payload.length
    if total ≤ remaining then
      let after := (world.accept (header ++ payload)).batchFrom rest (remaining - total)
      (after.1, after.2 + 1)
    else if 0 < remaining then ((world.queueTail header remaining payload).accept (header ++ payload), 1)
    else (world, 0)

-- Each entry is its header, and its payload where the ring still has it.
def sendBatch (world : World) (entries : List (Bytes × Option Bytes)) (takes : Option Nat) : World × Option Nat :=
  if world.isOpen then
    match (entries.take batchLimit).mapM fun entry => entry.2.map fun payload => (entry.1, payload) with
    | none => (world.close, none)
    | some pairs =>
      let slices := if entries.length ≤ batchLimit then pairs.flatMap fun pair => pair.1 ++ pair.2 else []
      match world.direct slices takes with
      | none => (world.closeDown, none)
      | some (written, world) =>
        let after := world.batchFrom pairs written
        (after.1, some after.2)
  else (world, none)

def finish (world : World) (tail : Bytes) (turns : List Turn) : World :=
  if world.isOpen then ((world.withQueue (world.queue.finish tail)).accept tail).flush turns else world

def writable (world : World) (turns : List Turn) : World :=
  World.flush { world with output := { world.output with refused := false } } turns

def view (world : World) (limit : Nat) (farewell : Bytes) : World :=
  match world.queue.policy with
  | .plain => world.withQueue { world.queue with policy := .view ⟨limit, farewell, none⟩ }
  | _ => world

end World

-- What is done with an output, and how the socket and the disk answer. `write` is what a websocket writes to the
-- queue, without a flush.
inductive Op where
  | view (limit : Nat) (farewell : Bytes)
  | write (bytes : Bytes) (disk : Disk)
  | send (bytes : Bytes) (disk : Disk) (turns : List Turn)
  | record (fit : Fit) (header payload : Bytes) (takes : Option Nat) (disk : Disk) (turns : List Turn)
  | sendBatch (entries : List (Bytes × Option Bytes)) (takes : Option Nat)
  | finish (tail : Bytes) (turns : List Turn)
  | writable (turns : List Turn)
  | flush (turns : List Turn)
  | close
  | shut

namespace World

def step (world : World) : Op → World
  | .view limit farewell => world.view limit farewell
  | .write bytes disk => world.pushed bytes (world.queue.push [bytes] .cap disk)
  | .send bytes disk turns => world.send bytes disk turns
  | .record fit header payload takes disk turns => (world.record fit header payload takes disk turns).1
  | .sendBatch entries takes => (world.sendBatch entries takes).1
  | .finish tail turns => world.finish tail turns
  | .writable turns => world.writable turns
  | .flush turns => world.flush turns
  | .close => world.close
  | .shut => world.closeDown

def run (cap : Nat) (ops : List Op) : World := Shared.run step (start cap) ops

end World

-- How the wire and the queue stand to the messages: they hold all of them, or the queue has overflowed.
def Ending.Holds (wire : Bytes) (messages : List Bytes) (queue : Queue) : Ending → Prop
  | .running => Serves wire messages queue
  | .farewell sent rest last => queue.policy = .sealed ∧ ∃ k, sent ++ rest = (messages.take k).flatten ∧
      Serves wire (messages.take k ++ [last]) queue
  | .cut sent => queue.policy = .sealed ∧ queue.chunks = [] ∧ wire = sent ∧ sent <+: messages.flatten

structure Stands (wire : Bytes) (messages : List Bytes) (ending : Ending) (queue : Queue) : Prop where
  counted : queue.Counted
  spills : ∀ spill ∈ queue.policy.spill?, spill.Sound
  holds : ending.Holds wire messages queue

def World.Sound (world : World) : Prop := Stands world.wire world.messages world.ending world.queue

theorem overflow_sealed (queue : Queue) : queue.overflow.policy = .sealed := by
  simp only [Queue.overflow]
  split <;> rfl

theorem overflow_cut {queue : Queue} (none_ : queue.farewell = none) : queue.overflow.chunks = [] := by
  simp [Queue.overflow, none_]

namespace Stands

variable {wire : Bytes} {messages : List Bytes} {ending : Ending} {queue : Queue}

theorem running (own : Stands wire messages ending queue) (opened : queue.policy ≠ .sealed) :
    ending = .running ∧ Serves wire messages queue := by
  have holds := own.holds
  cases ending with
  | running => exact ⟨rfl, holds⟩
  | farewell sent rest last => exact absurd holds.1 opened
  | cut sent => exact absurd holds.1 opened

theorem accept {message : Bytes} (counted : queue.Counted) (spills : ∀ spill ∈ queue.policy.spill?, spill.Sound)
    (serves : Serves wire (messages ++ if message = [] then [] else [message]) queue) :
    Stands wire (if message = [] then messages else messages ++ [message]) .running queue := by
  split_ifs at serves ⊢
  · rw [List.append_nil] at serves
    exact ⟨counted, spills, serves⟩
  · exact ⟨counted, spills, serves⟩

theorem overflow (counted : queue.Counted) (serves : Serves wire messages queue) :
    Stands wire messages (match queue.farewell with
      | some farewell => .farewell wire queue.flight farewell
      | none => .cut wire) queue.overflow := by
  have policy := overflow_sealed queue
  refine ⟨counted.overflow serves.idle, by simp [policy, Policy.spill?], ?_⟩
  cases view : queue.farewell with
  | none =>
    refine ⟨policy, overflow_cut view, rfl, ?_⟩
    rw [← serves.pending]
    exact List.prefix_append _ _
  | some farewell =>
    obtain ⟨k, reached, kept⟩ := serves.overflow view
    exact ⟨policy, k, reached, kept⟩

theorem fill {filled : Queue} {reads : Option Nat} (own : Stands wire messages ending queue)
    (empty : queue.chunks = []) (fills : queue.fill reads = some filled) : Stands wire messages ending filled := by
  by_cases policy : queue.policy = .sealed
  · have same : queue = filled := by simpa [Queue.fill, policy] using fills
    exact same ▸ own
  · obtain ⟨rfl, serves⟩ := own.running policy
    obtain ⟨counted, spills, sent, same⟩ := Queue.fill_correct empty (serves.idle empty) own.counted own.spills fills
    exact ⟨counted, spills, serves.filled empty sent same⟩

theorem written (own : Stands wire messages ending queue) {taken : Bytes} (some_ : taken ≠ [])
    (front : taken <+: queue.body) : Stands (wire ++ taken) messages ending (queue.written taken.length) := by
  have bound := front.length_le
  have same : queue.body.take taken.length = taken := (List.prefix_iff_eq_take.mp front).symm
  refine ⟨own.counted.written _, own.spills, ?_⟩
  have holds := own.holds
  cases ending with
  | running =>
    have serves := Serves.written holds bound
    rw [same] at serves
    exact serves
  | farewell sent rest last =>
    obtain ⟨policy, k, reached, serves⟩ := holds
    exact ⟨policy, k, reached, by simpa [same] using serves.written bound⟩
  | cut sent =>
    obtain ⟨_, chunks, _⟩ := holds
    simp only [Queue.body, chunks, List.prefix_nil] at front
    exact absurd front some_

end Stands

theorem accept_sound {world : World} {message : Bytes} (running : world.ending = .running)
    (counted : world.queue.Counted) (spills : ∀ spill ∈ world.queue.policy.spill?, spill.Sound)
    (serves : Serves world.wire (world.messages ++ if message = [] then [] else [message]) world.queue) :
    (world.accept message).Sound := by
  have stands := Stands.accept counted spills serves
  rw [← running] at stands
  rw [World.accept]
  split_ifs at stands ⊢ <;> exact stands

theorem open_running {world : World} (own : world.Sound) (opened : world.queue.isSealed = false) :
    world.ending = .running ∧ Serves world.wire world.messages world.queue := by
  refine Stands.running own ?_
  intro policy
  simp [Queue.isSealed, policy] at opened

theorem pushed_sound {world : World} (own : world.Sound) {message : Bytes} {result : Bool × Queue}
    (opened : world.queue.isSealed = false) (pushed : Queue.Pushed world.queue message result) :
    (world.pushed message result).Sound := by
  obtain ⟨running, serves⟩ := open_running own opened
  have counted := Queue.counted_pushed own.counted serves.idle pushed
  cases pushed with
  | none empty =>
    subst empty
    exact @accept_sound world _ running counted own.spills (by simpa using serves)
  | chunk some_ direct =>
    refine @accept_sound (world.withQueue _) _ running counted own.spills ?_
    rw [if_neg some_]
    exact serves.append direct message false
  | stored some_ policy later sound =>
    refine @accept_sound (world.withQueue _) _ running counted sound ?_
    rw [if_neg some_]
    exact serves.withPolicy later
  | overflow =>
    have ends : (world.pushed message (false, world.queue.overflow)).ending = world.atOverflow := by
      simp [World.pushed, opened]
    rw [World.Sound, ends]
    exact Stands.overflow own.counted serves

theorem write_sound {world : World} (own : world.Sound) (message : Bytes) (parts : List Bytes) (fit : Fit)
    (disk : Disk) (same : parts.flatten = message) :
    (world.pushed message (world.queue.push parts fit disk)).Sound := by
  cases opened : world.queue.isSealed with
  | false => exact pushed_sound own opened (same ▸ Queue.push_correct opened own.spills parts fit disk)
  | true =>
    have refused : world.queue.push parts fit disk = (false, world.queue) := by simp [Queue.push, opened]
    have stays : world.pushed message (false, world.queue) = world := by simp [World.pushed, World.withQueue, opened]; rfl
    rw [refused, stays]
    exact own

theorem refill_sound {world : World} (own : world.Sound) (reads : Option Nat) : (world.refill reads).Sound := by
  rw [World.refill]
  split_ifs with none_
  · have empty : world.queue.chunks = [] := by simpa using none_
    cases fills : world.queue.fill reads with
    | some filled => exact Stands.fill own empty fills
    | none =>
      have policy : world.queue.policy ≠ .sealed := by
        intro policy
        simp [Queue.fill, policy] at fills
      exact Stands.overflow own.counted (Stands.running own policy).2
  · exact own

theorem flushFrom_sound (turns : List Turn) {world : World} (own : world.Sound) (total : Nat) :
    (world.flushFrom total turns).1.Sound := by
  induction turns generalizing world total with
  | nil =>
    rw [World.flushFrom]
    split_ifs
    · exact refill_sound own none
    · exact own
  | cons turn turns ih =>
    rw [World.flushFrom]
    split_ifs with more
    · have filled := refill_sound own turn.reads
      simp only
      split_ifs
      · exact filled
      · cases turn.takes with
        | none => exact filled
        | some room =>
          simp only
          split_ifs with none_
          · exact filled
          · have front := (List.take_prefix room _).trans (Queue.offered_prefix (world.refill turn.reads).queue)
            exact @ih ((world.refill turn.reads).wrote _) (Stands.written filled none_ front) _
    · exact own

theorem flush_sound {world : World} (own : world.Sound) (turns : List Turn) : (world.flush turns).Sound := by
  have flushed := flushFrom_sound turns own 0
  rw [World.flush]
  split_ifs
  · exact own
  · split
    · rename_i result
      rw [result] at flushed
      exact flushed
    · rename_i result
      rw [result] at flushed
      simp only
      split_ifs <;> exact flushed

theorem available_idle {world : World} (own : world.Sound) (available : world.available = true) :
    world.ending = .running ∧ world.queue.chunks = [] ∧ world.queue.sent = 0 ∧ world.queue.later = [] ∧
      world.wire = world.messages.flatten := by
  simp only [World.available, World.isOpen, World.waiting, Queue.isEmpty, Bool.and_eq_true, Bool.not_eq_true',
    Bool.or_eq_false_iff, Bool.not_eq_false'] at available
  obtain ⟨⟨_, opened⟩, _, empty, direct⟩ := available
  obtain ⟨running, serves⟩ := open_running own opened
  have none_ : world.queue.chunks = [] := by simpa using empty
  have later := Queue.later_direct opened direct
  refine ⟨running, none_, serves.idle none_, later, ?_⟩
  have all := serves.pending
  simpa [Queue.pending, Queue.body, none_, later] using all

-- An output whose queue is idle, with a message of which the socket took the front.
structure Direct (world : World) (rest : Bytes) : Prop where
  running : world.ending = .running
  counted : world.queue.Counted
  spills : ∀ spill ∈ world.queue.policy.spill?, spill.Sound
  chunks : world.queue.chunks = []
  sent : world.queue.sent = 0
  later : world.queue.later = []
  wire : world.wire = world.messages.flatten ++ rest

namespace Direct

variable {world : World}

theorem sound (own : Direct world []) : world.Sound := by
  have serves : Serves world.wire world.messages world.queue := by
    refine ⟨world.messages, [], _, .between own.sent, ?_, ?_⟩
    · simp [own.chunks, own.later]
    · simpa using own.wire
  have running := own.running
  rw [World.Sound, running]
  exact ⟨own.counted, own.spills, serves⟩

theorem accept {message rest : Bytes} (own : Direct world (message ++ rest)) : Direct (world.accept message) rest := by
  have wire := own.wire
  rw [World.accept]
  split_ifs with empty
  · exact { own with wire := by simpa [empty] using wire }
  · exact { own with wire := by simpa using wire }

theorem tail {header payload : Bytes} {written : Nat} (own : Direct world ((header ++ payload).take written))
    (short : written < header.length + payload.length) :
    ((world.queueTail header written payload).accept (header ++ payload)).Sound := by
  have rest : [header.drop written, payload.drop (written - header.length)].flatten =
      (header ++ payload).drop written := by simp [List.drop_append]
  have some_ : header ++ payload ≠ [] := by
    intro none_
    have length := congrArg List.length none_
    simp only [List.length_append, List.length_nil] at length
    omega
  have idle : world.queue.chunks = [] → world.queue.sent = 0 := fun _ => own.sent
  refine @accept_sound (world.queueTail header written payload) _ own.running ?_ own.spills ?_
  · exact own.counted.append idle _
  · rw [if_neg some_]
    have serves := Serves.tail own.chunks own.sent own.later own.wire
    rw [← rest] at serves
    exact serves

theorem batch (entries : List (Bytes × Bytes)) {remaining : Nat}
    (own : Direct world ((entries.flatMap fun entry => entry.1 ++ entry.2).take remaining))
    (bound : remaining ≤ (entries.flatMap fun entry => entry.1 ++ entry.2).length) :
    (world.batchFrom entries remaining).1.Sound := by
  induction entries generalizing world remaining with
  | nil =>
    have none_ : Direct world [] := by simpa using own
    exact none_.sound
  | cons entry rest ih =>
    obtain ⟨header, payload⟩ := entry
    have length : (header ++ payload).length = header.length + payload.length := List.length_append
    simp only [List.flatMap_cons] at own bound
    rw [List.length_append, length] at bound
    rw [World.batchFrom]
    simp only
    split_ifs with whole begun
    · rw [List.take_append, List.take_of_length_le (by omega), length] at own
      exact ih own.accept (by omega)
    · rw [List.take_append_of_le_length (by omega)] at own
      exact own.tail (by omega)
    · have none_ : remaining = 0 := by omega
      rw [none_, List.take_zero] at own
      exact own.sound

end Direct

theorem direct_correct {world after : World} (own : world.Sound) (opened : world.isOpen = true) {bytes : Bytes}
    {takes : Option Nat} {written : Nat} (wrote : world.direct bytes takes = some (written, after)) :
    written ≤ bytes.length ∧ (Direct after (bytes.take written) ∨
      written = 0 ∧ after.Sound ∧ after.isOpen = true) := by
  rw [World.direct] at wrote
  split_ifs at wrote with available
  · obtain ⟨room, _, same⟩ := Option.map_eq_some_iff.mp wrote
    cases same
    obtain ⟨running, chunks, sent, later, wire⟩ := available_idle own available
    refine ⟨by simp, .inl ⟨running, own.counted, own.spills, chunks, sent, later, ?_⟩⟩
    have front : bytes.take (bytes.take room).length = bytes.take room := by simp
    rw [front, ← wire]
  · cases wrote
    exact ⟨Nat.zero_le _, .inr ⟨rfl, own, opened⟩⟩

theorem close_sound {world : World} (own : world.Sound) : world.close.Sound := by
  rw [World.close]
  split_ifs <;> exact own

theorem batchFrom_none (world : World) (entries : List (Bytes × Bytes)) : (world.batchFrom entries 0).1 = world := by
  induction entries with
  | nil => rfl
  | cons entry rest ih =>
    obtain ⟨header, payload⟩ := entry
    simp only [World.batchFrom, Nat.le_zero_eq, Nat.lt_irrefl, if_false, Nat.zero_sub]
    split_ifs with none_
    · have empty : header ++ payload = [] := by
        rw [← List.length_eq_zero_iff, List.length_append]
        exact none_
      simpa [World.accept, empty] using ih
    · rfl

theorem sendBatch_sound {world : World} (own : world.Sound) (entries : List (Bytes × Option Bytes))
    (takes : Option Nat) : (world.sendBatch entries takes).1.Sound := by
  rw [World.sendBatch]
  by_cases opened : world.isOpen = true
  · rw [if_pos opened]
    cases (entries.take batchLimit).mapM fun entry => entry.2.map fun payload => (entry.1, payload) with
    | none => exact close_sound own
    | some pairs =>
      simp only
      generalize offered : (if entries.length ≤ batchLimit then pairs.flatMap fun pair => pair.1 ++ pair.2 else []) =
        slices
      cases wrote : world.direct slices takes with
      | none => exact own
      | some result =>
        obtain ⟨written, after⟩ := result
        obtain ⟨bound, direct⟩ := direct_correct own opened wrote
        rcases direct with direct | ⟨rfl, sound, _⟩
        · subst offered
          split_ifs at bound direct
          · exact direct.batch pairs bound
          · have none_ : written = 0 := by simpa using bound
            subst none_
            simp only [batchFrom_none]
            exact direct.sound
        · simp only [batchFrom_none]
          exact sound
  · rw [if_neg opened]
    exact own

theorem record_sound {world : World} (own : world.Sound) (fit : Fit) (header payload : Bytes) (takes : Option Nat)
    (disk : Disk) (turns : List Turn) : (world.record fit header payload takes disk turns).1.Sound := by
  have length : (header ++ payload).length = header.length + payload.length := List.length_append
  rw [World.record]
  by_cases opened : world.isOpen = true
  · rw [if_pos opened]
    cases wrote : world.direct (header ++ payload) takes with
    | none => exact own
    | some result =>
      obtain ⟨written, after⟩ := result
      obtain ⟨bound, direct⟩ := direct_correct own opened wrote
      simp only
      by_cases whole : written = header.length + payload.length
      · rw [if_pos whole]
        rcases direct with direct | ⟨zero, sound, _⟩
        · rw [List.take_of_length_le (by omega), ← List.append_nil (header ++ payload)] at direct
          exact direct.accept.sound
        · have empty : header ++ payload = [] := by
            rw [← List.length_eq_zero_iff]
            omega
          simpa [World.accept, empty] using sound
      rw [if_neg whole]
      by_cases begun : 0 < written
      · rw [if_pos begun]
        rcases direct with direct | ⟨zero, _⟩
        · exact direct.tail (by omega)
        · omega
      rw [if_neg begun]
      have sound : after.Sound := by
        rcases direct with direct | ⟨_, sound, _⟩
        · have none_ : written = 0 := by omega
          subst none_
          exact direct.sound
        · exact sound
      have pushes : (after.pushed (header ++ payload) (after.queue.push [header, payload] fit disk)).Sound :=
        write_sound sound _ _ fit disk (by simp)
      split_ifs
      · exact sound
      · exact pushes
      · exact flush_sound pushes turns
  · rw [if_neg opened]
    exact own

theorem finish_sound {world : World} (own : world.Sound) (tail : Bytes) (turns : List Turn) :
    (world.finish tail turns).Sound := by
  rw [World.finish]
  split_ifs with opened
  · have unsealed : world.queue.isSealed = false := by
      simp only [World.isOpen, Bool.and_eq_true, Bool.not_eq_true'] at opened
      exact opened.2
    obtain ⟨running, serves⟩ := open_running own unsealed
    let left := world.withQueue (world.queue.finish tail)
    refine flush_sound (@accept_sound left _ running ?_ ?_ (serves.finish unsealed tail)) turns
    · exact Queue.counted_finish own.counted serves.idle tail
    · exact Queue.finish_spill own.spills tail
  · exact own

theorem view_sound {world : World} (own : world.Sound) (limit : Nat) (farewell : Bytes) :
    (world.view limit farewell).Sound := by
  rw [World.view]
  split
  · rename_i plain
    obtain ⟨running, serves⟩ := Stands.running own (by simp [plain])
    have later : (Policy.view ⟨limit, farewell, none⟩).later = world.queue.later ++ [] := by
      simp [Queue.later, plain, Policy.later]
    have same := serves.withPolicy later
    rw [List.append_nil] at same
    have stands : Stands world.wire world.messages .running
        { world.queue with policy := .view ⟨limit, farewell, none⟩ } :=
      ⟨own.counted.withPolicy _, by simp [Policy.spill?], same⟩
    rw [← running] at stands
    exact stands
  · exact own

theorem step_sound {world : World} (own : world.Sound) (op : Op) : (world.step op).Sound := by
  cases op with
  | view limit farewell => exact view_sound own limit farewell
  | write bytes disk => exact write_sound own bytes [bytes] .cap disk (by simp)
  | send bytes disk turns =>
    rw [World.step, World.send]
    split_ifs
    · rw [Queue.pushVec_eq]
      exact flush_sound (write_sound own bytes [bytes] .cap disk (by simp)) turns
    · exact own
  | record fit header payload takes disk turns => exact record_sound own fit header payload takes disk turns
  | sendBatch entries takes => exact sendBatch_sound own entries takes
  | finish tail turns => exact finish_sound own tail turns
  | writable turns =>
    exact @flush_sound { world with output := { world.output with refused := false } } own turns
  | flush turns => exact flush_sound own turns
  | close => exact close_sound own
  | shut => exact own

theorem run_sound (cap : Nat) (ops : List Op) : (World.run cap ops).Sound := by
  refine run_invariant (P := World.Sound) ?_ (fun _ op own => step_sound own op) ops
  refine ⟨⟨?_, ?_, ?_⟩, ?_, [], [], [], .between rfl, rfl, rfl⟩ <;>
    simp [World.start, World.queue, Queue.new, Policy.spill?]

theorem wire_carries_messages (cap : Nat) (ops : List Op) :
    let world := World.run cap ops
    world.queue.Counted ∧
      match world.ending with
      | .running => Serves world.wire world.messages world.queue ∧ Framed world.wire world.messages
      | .farewell sent rest farewell => ∃ k, sent ++ rest = (world.messages.take k).flatten ∧
          world.wire ++ world.queue.pending = sent ++ rest ++ farewell ∧
          Framed world.wire (world.messages.take k ++ [farewell])
      | .cut sent => world.wire = sent ∧ Framed world.wire world.messages := by
  have own := run_sound cap ops
  refine ⟨own.counted, ?_⟩
  have holds := own.holds
  cases ending : (World.run cap ops).ending with
  | running =>
    rw [ending] at holds
    exact ⟨holds, framed_of_prefix ⟨_, Serves.pending holds⟩⟩
  | farewell sent rest farewell =>
    rw [ending] at holds
    obtain ⟨_, k, reached, serves⟩ := holds
    have all := serves.pending
    exact ⟨k, reached, by simpa [reached] using all, framed_of_prefix ⟨_, all⟩⟩
  | cut sent =>
    rw [ending] at holds
    obtain ⟨_, _, same, front⟩ := holds
    exact ⟨same, framed_of_prefix (same ▸ front)⟩

end Kido.Sending
