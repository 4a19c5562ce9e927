import Kido.Conn.Output

set_option autoImplicit false

namespace Kido.Sending

open Kido.Shared
open Kido.Tiling (u64Max)

-- No chunk that begins is sent already, and a queue that spills has something to come.
structure Brisk (queue : Queue) : Prop where
  front : ∀ front ∈ queue.chunks.head?, queue.sent < front.bytes.length
  spills : queue.spilling = true → queue.later ≠ []

-- What holds of an output until it overflows.
def World.Lively (world : World) : Prop := world.ending = .running → Brisk world.queue ∧ ∀ message ∈ world.messages, message ≠ []

-- An output that has not overflowed had not, and has accepted more messages at most.
def World.Grows (world after : World) : Prop :=
  after.ending = .running → world.ending = .running ∧ world.messages <+: after.messages

-- What each operation does.
structure World.Moves (world after : World) : Prop where
  grows : world.Grows after
  lively : world.Lively → after.Lively

namespace World.Moves

variable {world after last : World}

theorem refl : world.Moves world := ⟨fun running => ⟨running, List.prefix_rfl⟩, id⟩

theorem trans (first : world.Moves after) (second : after.Moves last) : world.Moves last := by
  constructor
  case grows =>
    intro running
    obtain ⟨middle, later⟩ := second.grows running
    obtain ⟨start, sooner⟩ := first.grows middle
    exact ⟨start, sooner.trans later⟩
  case lively =>
    intro lively
    exact second.lively (first.lively lively)

-- An output that has overflowed by now.
theorem past (past : after.ending ≠ .running) : world.Moves after :=
  ⟨fun running => absurd running past, fun _ running => absurd running past⟩

-- Nothing that counts is changed.
theorem still (queue : after.queue = world.queue) (ending : after.ending = world.ending) (messages : after.messages = world.messages) :
    world.Moves after := by
  constructor
  case grows =>
    intro running
    exact ⟨ending ▸ running, messages ▸ List.prefix_rfl⟩
  case lively =>
    intro lively running
    rw [queue, messages]
    exact lively (ending ▸ running)

end World.Moves

theorem atOverflow_running (world : World) : world.atOverflow ≠ .running := by
  unfold World.atOverflow
  split <;> exact nofun

theorem accept_queue (world : World) (message : Bytes) : (world.accept message).queue = world.queue := by
  unfold World.accept
  split_ifs <;> rfl

theorem accept_moves (world : World) (message : Bytes) : world.Moves (world.accept message) := by
  unfold World.accept
  split_ifs with empty
  · exact .refl
  · constructor
    case grows =>
      intro running
      exact ⟨running, List.prefix_append _ _⟩
    case lively =>
      intro lively running
      obtain ⟨brisk, messages⟩ := lively running
      refine ⟨brisk, ?_⟩
      intro other member
      obtain old | new := List.mem_append.mp member
      · exact messages other old
      · cases List.mem_singleton.mp new
        exact empty

-- A queue takes the place of another one.
theorem withQueue_moves {world : World} {queue : Queue} (brisk : world.ending = .running → Brisk world.queue →
    (∀ message ∈ world.messages, message ≠ []) → Brisk queue) : world.Moves (world.withQueue queue) := by
  constructor
  case grows =>
    intro running
    exact ⟨running, List.prefix_rfl⟩
  case lively =>
    intro lively running
    obtain ⟨before, messages⟩ := lively running
    exact ⟨brisk running before messages, messages⟩

-- A message that is not empty comes behind the chunks.
theorem Brisk.append {queue : Queue} (brisk : Brisk queue) (idle : queue.chunks = [] → queue.sent = 0) {chunk : Chunk}
    (some_ : chunk.bytes ≠ []) : Brisk (queue.append [chunk]) := by
  constructor
  case front =>
    intro front member
    cases chunks : queue.chunks with
    | nil =>
      simp only [Queue.append, chunks, List.nil_append, List.head?_cons, Option.mem_some_iff] at member
      subst member
      have sent := idle chunks
      simp only [Queue.append, sent]
      exact List.length_pos_iff.mpr some_
    | cons first rest =>
      simp only [Queue.append, chunks, List.cons_append, List.head?_cons, Option.mem_some_iff] at member
      subst member
      exact brisk.front first (by rw [chunks]; rfl)
  case spills => exact brisk.spills

theorem popped_front (chunks : List Chunk) (sent count : Nat) :
    ∀ front ∈ (Queue.popped chunks sent count).1.head?, (Queue.popped chunks sent count).2 < front.bytes.length := by
  induction chunks generalizing sent count with
  | nil => exact nofun
  | cons front rest ih =>
    rw [Queue.popped]
    split_ifs with short
    · simp only [List.head?_cons, Option.mem_some_iff, forall_eq']
      omega
    · exact ih 0 _

theorem Brisk.written {queue : Queue} (brisk : Brisk queue) (count : Nat) : Brisk (queue.written count) :=
  ⟨popped_front queue.chunks queue.sent count, brisk.spills⟩

-- The messages that are still to come have been accepted.
theorem Serves.later_mem {wire : Bytes} {messages : List Bytes} {queue : Queue} (serves : Serves wire messages queue) :
    ∀ message ∈ queue.later, message ∈ messages := by
  obtain ⟨begun, _, waiting, _, rfl, _⟩ := serves
  intro message member
  exact List.mem_append_right _ (List.mem_append_right _ member)

theorem messages_some {spill : Spill} (some_ : spill.isEmpty = false) : spill.messages ≠ [] := by
  unfold Spill.messages
  cases lens : spill.lens with
  | nil => simp [Spill.isEmpty, lens] at some_
  | cons len lens => exact List.cons_ne_nil _ _

-- A spill that is left has something in it.
theorem fill_spills {queue after : Queue} {reads : Option Nat} (filled : queue.fill reads = some after) (spilling : after.spilling = true) :
    after.later ≠ [] := by
  cases policy : queue.policy with
  | plain | «sealed» =>
    simp only [Queue.fill, policy, Option.some.injEq] at filled
    subst filled
    simp [Queue.spilling, policy] at spilling
  | view overflow =>
    cases stored : overflow.spill with
    | none =>
      simp only [Queue.fill, policy, stored, Option.some.injEq] at filled
      subst filled
      simp [Queue.spilling, policy, stored] at spilling
    | some file =>
      simp only [Queue.fill, policy, stored] at filled
      obtain ⟨⟨taken, rest⟩, _, rfl⟩ := Option.map_eq_some_iff.mp filled
      cases done : rest.isEmpty with
      | true => simp [Queue.spilling, done] at spilling
      | false =>
        have some_ := messages_some done
        simpa [Queue.later, Policy.later, done] using some_
  | draining spill tail =>
    simp only [Queue.fill, policy] at filled
    obtain ⟨⟨taken, rest⟩, _, rfl⟩ := Option.map_eq_some_iff.mp filled
    cases done : rest.isEmpty with
    | true =>
      by_cases last : tail = []
      · simp [Queue.spilling, done, last] at spilling
      · simp [Queue.spilling, Queue.pushTail, Queue.append, done, last] at spilling
    | false =>
      have some_ := messages_some done
      simp only [Queue.later, Policy.later, Bool.false_eq_true, if_false]
      simp [some_]

theorem fill_brisk {world : World} {filled : Queue} {reads : Option Nat} (own : world.Sound) (running : world.ending = .running)
    (empty : world.queue.chunks = []) (fills : world.queue.fill reads = some filled)
    (messages : ∀ message ∈ world.messages, message ≠ []) : Brisk filled := by
  have holds := own.holds
  rw [running] at holds
  have serves : Serves world.wire world.messages world.queue := holds
  obtain ⟨_, _, sent, same⟩ := Queue.fill_correct empty (serves.idle empty) own.counted own.spills fills
  constructor
  case front =>
    intro front member
    have later : front.bytes ∈ world.queue.later := by
      rw [← same]
      exact List.mem_append_left _ (List.mem_map.mpr ⟨front, List.mem_of_mem_head? member, rfl⟩)
    rw [sent, serves.idle empty]
    exact List.length_pos_iff.mpr (messages _ (serves.later_mem _ later))
  case spills => exact fill_spills fills

theorem refill_moves {world : World} (own : world.Sound) (reads : Option Nat) : world.Moves (world.refill reads) := by
  unfold World.refill
  split_ifs with none_
  · have empty : world.queue.chunks = [] := by simpa using none_
    cases fills : world.queue.fill reads with
    | some filled => exact withQueue_moves fun running _ messages => fill_brisk own running empty fills messages
    | none => exact .past (atOverflow_running world)
  · exact .refl

theorem wrote_moves (world : World) (taken : Bytes) : world.Moves (world.wrote taken) := by
  have queue : world.Moves (world.withQueue (world.queue.written taken.length)) :=
    withQueue_moves fun _ brisk _ => brisk.written taken.length
  exact queue.trans (.still rfl rfl rfl)

theorem flushFrom_moves (turns : List Turn) {world : World} (own : world.Sound) (total : Nat) :
    world.Moves (world.flushFrom total turns).1 := by
  induction turns generalizing world total with
  | nil =>
    rw [World.flushFrom]
    split_ifs
    · exact refill_moves own none
    · exact .refl
  | cons turn turns ih =>
    rw [World.flushFrom]
    split_ifs with more
    · have filled := refill_sound own turn.reads
      have moves := refill_moves own turn.reads
      simp only
      split_ifs
      · exact moves
      · cases turn.takes with
        | none => exact moves
        | some room =>
          simp only
          split_ifs with none_
          · exact moves
          · have front := (List.take_prefix room _).trans (Queue.offered_prefix (world.refill turn.reads).queue)
            have sound : ((world.refill turn.reads).wrote ((world.refill turn.reads).queue.offered.take room)).Sound :=
              Stands.written filled none_ front
            exact moves.trans ((wrote_moves _ _).trans (ih sound _))
    · exact .refl

theorem flush_moves {world : World} (own : world.Sound) (turns : List Turn) : world.Moves (world.flush turns) := by
  have moves := flushFrom_moves turns own 0
  unfold World.flush
  split_ifs
  · exact .refl
  · split
    next after result =>
      rw [result] at moves
      exact moves.trans (.still rfl rfl rfl)
    next after count result =>
      rw [result] at moves
      dsimp only
      split_ifs
      · exact moves.trans (.still rfl rfl rfl)
      · exact moves.trans (.still rfl rfl rfl)

theorem pushed_moves {world : World} (own : world.Sound) {message : Bytes} {result : Bool × Queue} (opened : world.queue.isSealed = false)
    (pushed : Queue.Pushed world.queue message result) : world.Moves (world.pushed message result) := by
  obtain ⟨_, serves⟩ := open_running own opened
  cases pushed with
  | none empty => exact (World.Moves.still rfl rfl rfl).trans (accept_moves (world.withQueue world.queue) message)
  | chunk some_ direct =>
    have queue : world.Moves (world.withQueue (world.queue.append [⟨message, false⟩])) :=
      withQueue_moves fun _ brisk _ => brisk.append serves.idle some_
    exact queue.trans (accept_moves _ message)
  | stored some_ policy later sound =>
    have queue : world.Moves (world.withQueue { world.queue with policy := policy }) := by
      apply withQueue_moves
      intro _ brisk _
      refine ⟨brisk.front, fun _ => ?_⟩
      unfold Queue.later
      rw [later]
      simp
    exact queue.trans (accept_moves _ message)
  | overflow =>
    apply World.Moves.past
    simp [World.pushed, opened, atOverflow_running]

theorem write_moves {world : World} (own : world.Sound) (message : Bytes) (parts : List Bytes) (fit : Fit) (disk : Disk)
    (same : parts.flatten = message) : world.Moves (world.pushed message (world.queue.push parts fit disk)) := by
  cases opened : world.queue.isSealed with
  | false => exact pushed_moves own opened (same ▸ Queue.push_correct opened own.spills parts fit disk)
  | true =>
    have refused : world.queue.push parts fit disk = (false, world.queue) := by simp [Queue.push, opened]
    rw [refused]
    exact .still rfl (by simp [World.pushed, opened]) rfl

theorem queueTail_moves {world : World} (idle : world.queue.chunks = [] → world.queue.sent = 0) {header payload : Bytes} {written : Nat}
    (short : written < header.length + payload.length) :
    world.Moves ((world.queueTail header written payload).accept (header ++ payload)) := by
  have rest : [header.drop written, payload.drop (written - header.length)].flatten = (header ++ payload).drop written := by
    simp [List.drop_append]
  have some_ : (header ++ payload).drop written ≠ [] := by
    apply List.ne_nil_of_length_pos
    rw [List.length_drop, List.length_append]
    omega
  have queue : world.Moves (world.queueTail header written payload) :=
    withQueue_moves fun _ brisk _ => brisk.append idle (rest ▸ some_)
  exact queue.trans (accept_moves _ _)

theorem batch_moves (entries : List (Bytes × Bytes)) {world : World} (idle : world.queue.chunks = [] → world.queue.sent = 0) (remaining : Nat) :
    world.Moves (world.batchFrom entries remaining).1 := by
  induction entries generalizing world remaining with
  | nil => exact .refl
  | cons entry rest ih =>
    obtain ⟨header, payload⟩ := entry
    rw [World.batchFrom]
    dsimp only
    split_ifs with whole begun
    · have kept : (world.accept (header ++ payload)).queue = world.queue := accept_queue world _
      exact (accept_moves world _).trans (ih (kept ▸ idle) _)
    · exact queueTail_moves idle (by omega)
    · exact .refl

theorem direct_moves {world after : World} {bytes : Bytes} {takes : Option Nat} {written : Nat}
    (wrote : world.direct bytes takes = some (written, after)) : world.Moves after ∧ after.queue = world.queue := by
  unfold World.direct at wrote
  split_ifs at wrote
  · obtain ⟨room, _, same⟩ := Option.map_eq_some_iff.mp wrote
    cases same
    exact ⟨.still rfl rfl rfl, rfl⟩
  · cases wrote
    exact ⟨.refl, rfl⟩

theorem close_moves (world : World) : world.Moves world.close := by
  unfold World.close
  split_ifs
  · exact .still rfl rfl rfl
  · exact .refl

theorem open_idle {world : World} (own : world.Sound) (opened : world.isOpen = true) : world.queue.chunks = [] → world.queue.sent = 0 := by
  have unsealed : world.queue.isSealed = false := by
    simp only [World.isOpen, Bool.and_eq_true, Bool.not_eq_true'] at opened
    exact opened.2
  exact (open_running own unsealed).2.idle

theorem sendBatch_moves {world : World} (own : world.Sound) (entries : List (Bytes × Option Bytes)) (takes : Option Nat) :
    world.Moves (world.sendBatch entries takes).1 := by
  rw [World.sendBatch]
  by_cases opened : world.isOpen = true
  · rw [if_pos opened]
    have idle := open_idle own opened
    cases (entries.take batchLimit).mapM fun entry => entry.2.map fun payload => (entry.1, payload) with
    | none => exact close_moves world
    | some pairs =>
      dsimp only
      generalize (if entries.length ≤ batchLimit then pairs.flatMap fun pair => pair.1 ++ pair.2 else []) = slices
      cases wrote : world.direct slices takes with
      | none => exact .still rfl rfl rfl
      | some result =>
        obtain ⟨written, after⟩ := result
        obtain ⟨moves, queue⟩ := direct_moves wrote
        exact moves.trans (batch_moves pairs (queue ▸ idle) written)
  · rw [if_neg opened]
    exact .refl

theorem record_moves {world : World} (own : world.Sound) (fit : Fit) (header payload : Bytes) (takes : Option Nat) (disk : Disk)
    (turns : List Turn) : world.Moves (world.record fit header payload takes disk turns).1 := by
  rw [World.record]
  by_cases opened : world.isOpen = true
  · rw [if_pos opened]
    have idle := open_idle own opened
    cases wrote : world.direct (header ++ payload) takes with
    | none => exact .still rfl rfl rfl
    | some result =>
      obtain ⟨written, after⟩ := result
      obtain ⟨moves, queue⟩ := direct_moves wrote
      obtain ⟨bound, direct⟩ := direct_correct own opened wrote
      rw [List.length_append] at bound
      dsimp only
      by_cases whole : written = header.length + payload.length
      · rw [if_pos whole]
        exact moves.trans (accept_moves after _)
      rw [if_neg whole]
      by_cases begun : 0 < written
      · rw [if_pos begun]
        exact moves.trans (queueTail_moves (queue ▸ idle) (by omega))
      rw [if_neg begun]
      have sound : after.Sound := by
        obtain direct | ⟨_, sound, _⟩ := direct
        · have none_ : written = 0 := by omega
          subst none_
          exact direct.sound
        · exact sound
      have same : [header, payload].flatten = header ++ payload := by simp
      have pushes := write_moves sound (header ++ payload) [header, payload] fit disk same
      split_ifs
      · exact moves
      · exact moves.trans pushes
      · exact moves.trans (pushes.trans (flush_moves (write_sound sound _ _ fit disk same) turns))
  · rw [if_neg opened]
    exact .refl

theorem finish_moves {world : World} (own : world.Sound) (tail : Bytes) (turns : List Turn) : world.Moves (world.finish tail turns) := by
  unfold World.finish
  split_ifs with opened
  · have unsealed : world.queue.isSealed = false := by
      simp only [World.isOpen, Bool.and_eq_true, Bool.not_eq_true'] at opened
      exact opened.2
    obtain ⟨running, serves⟩ := open_running own unsealed
    have brisk (before : Brisk world.queue) : Brisk (world.queue.finish tail) := by
      have closed : Brisk (if tail = [] then { world.queue with policy := .sealed }
          else Queue.pushTail { world.queue with policy := .sealed } [tail]) := by
        have ended : Brisk { world.queue with policy := .sealed } := ⟨before.front, by simp [Queue.spilling]⟩
        split_ifs with none_
        · exact ended
        · have some_ : [tail].flatten ≠ [] := by simpa using none_
          exact ended.append serves.idle some_
      cases policy : world.queue.policy with
      | plain => simpa [Queue.finish, unsealed, policy] using closed
      | view overflow =>
        cases stored : overflow.spill with
        | none => simpa [Queue.finish, unsealed, policy, stored] using closed
        | some spill =>
          have some_ : world.queue.later ≠ [] := before.spills (by simp [Queue.spilling, policy, stored])
          have later : spill.messages ≠ [] := by simpa [Queue.later, Policy.later, policy, stored] using some_
          simp only [Queue.finish, unsealed, policy, stored, Bool.false_eq_true, if_false]
          refine ⟨before.front, fun _ => ?_⟩
          simp [Queue.later, Policy.later, later]
      | draining spill other => simp [Queue.isSealed, policy] at unsealed
      | «sealed» => simp [Queue.isSealed, policy] at unsealed
    have queue : world.Moves (world.withQueue (world.queue.finish tail)) := withQueue_moves fun _ before _ => brisk before
    have accepted := queue.trans (accept_moves _ tail)
    let left := world.withQueue (world.queue.finish tail)
    have sound : (left.accept tail).Sound :=
      @accept_sound left _ running (Queue.counted_finish own.counted serves.idle tail) (Queue.finish_spill own.spills tail)
        (serves.finish unsealed tail)
    exact accepted.trans (flush_moves sound turns)
  · exact .refl

theorem view_moves (world : World) (limit : Nat) (farewell : Bytes) : world.Moves (world.view limit farewell) := by
  unfold World.view
  split
  next => exact withQueue_moves fun _ brisk _ => ⟨brisk.front, nofun⟩
  next => exact .refl

theorem step_moves {world : World} (own : world.Sound) (op : Op) : world.Moves (world.step op) := by
  cases op with
  | view limit farewell => exact view_moves world limit farewell
  | write bytes disk => exact write_moves own bytes [bytes] .cap disk (by simp)
  | send bytes disk turns =>
    rw [World.step, World.send]
    split_ifs
    · rw [Queue.pushVec_eq]
      have same : [bytes].flatten = bytes := by simp
      exact (write_moves own bytes [bytes] .cap disk same).trans (flush_moves (write_sound own bytes [bytes] .cap disk same) turns)
    · exact .refl
  | record fit header payload takes disk turns => exact record_moves own fit header payload takes disk turns
  | sendBatch entries takes => exact sendBatch_moves own entries takes
  | finish tail turns => exact finish_moves own tail turns
  | writable turns =>
    have told : world.Moves { world with output := { world.output with refused := false } } := .still rfl rfl rfl
    exact told.trans (@flush_moves { world with output := { world.output with refused := false } } own turns)
  | flush turns => exact flush_moves own turns
  | close => exact close_moves world
  | shut => exact .still rfl rfl rfl

-- What the socket took is counted, as far as the counter goes, until the output is shut.
def World.Counts (world : World) : Prop := world.output.shut = true ∨ world.output.accepted = min world.wire.length u64Max

structure World.Extends (world after : World) : Prop where
  wire : world.wire <+: after.wire
  counts : world.Counts → after.Counts
  shut : world.output.shut = true → after.output.shut = true

namespace World.Extends

variable {world after last : World}

theorem refl : world.Extends world := ⟨List.prefix_rfl, id, id⟩

theorem trans (first : world.Extends after) (second : after.Extends last) : world.Extends last :=
  ⟨first.wire.trans second.wire, fun counts => second.counts (first.counts counts), fun shut => second.shut (first.shut shut)⟩

-- The socket took nothing.
theorem still (wire : after.wire = world.wire) (accepted : after.output.accepted = world.output.accepted)
    (shut : after.output.shut = world.output.shut) : world.Extends after := by
  constructor
  case wire => exact wire ▸ List.prefix_rfl
  case counts =>
    intro counts
    unfold World.Counts
    rw [wire, accepted, shut]
    exact counts
  case shut =>
    intro before
    rw [shut]
    exact before

theorem closed (wire : world.wire <+: after.wire) (shut : after.output.shut = true) : world.Extends after :=
  ⟨wire, fun _ => .inl shut, fun _ => shut⟩

end World.Extends

theorem accept_extends (world : World) (message : Bytes) : world.Extends (world.accept message) := by
  unfold World.accept
  split_ifs
  · exact .refl
  · exact .still rfl rfl rfl

theorem withQueue_extends (world : World) (queue : Queue) : world.Extends (world.withQueue queue) := .still rfl rfl rfl

theorem pushed_extends (world : World) (message : Bytes) (result : Bool × Queue) : world.Extends (world.pushed message result) := by
  obtain ⟨taken, queue⟩ := result
  cases taken with
  | true => exact (withQueue_extends world queue).trans (accept_extends _ message)
  | false => exact .still rfl rfl rfl

theorem refill_output (world : World) (reads : Option Nat) :
    (world.refill reads).wire = world.wire ∧ (world.refill reads).output.accepted = world.output.accepted ∧
      (world.refill reads).output.shut = world.output.shut ∧ (world.refill reads).output.refused = world.output.refused := by
  unfold World.refill
  split_ifs
  · split
    · exact ⟨rfl, rfl, rfl, rfl⟩
    · exact ⟨rfl, rfl, rfl, rfl⟩
  · exact ⟨rfl, rfl, rfl, rfl⟩

-- The loop takes bytes to the wire, and tells how many unless the socket failed.
theorem flushFrom_output (turns : List Turn) (world : World) (total : Nat) :
    (world.flushFrom total turns).1.output.accepted = world.output.accepted ∧
      (world.flushFrom total turns).1.output.shut = world.output.shut ∧
      (world.flushFrom total turns).1.output.refused = world.output.refused ∧
      ∃ taken, (world.flushFrom total turns).1.wire = world.wire ++ taken ∧
        ∀ count, (world.flushFrom total turns).2 = some count → count = total + taken.length := by
  induction turns generalizing world total with
  | nil =>
    rw [World.flushFrom]
    obtain ⟨wire, accepted, shut, refused⟩ := refill_output world none
    split_ifs
    · exact ⟨accepted, shut, refused, [], by simp [wire], by simp⟩
    · exact ⟨rfl, rfl, rfl, [], by simp, by simp⟩
  | cons turn turns ih =>
    obtain ⟨wire, accepted, shut, refused⟩ := refill_output world turn.reads
    rw [World.flushFrom]
    split_ifs with more
    · simp only
      split_ifs
      · exact ⟨accepted, shut, refused, [], by simp [wire], by simp⟩
      · cases turn.takes with
        | none => exact ⟨accepted, shut, refused, [], by simp [wire], by simp⟩
        | some room =>
          simp only
          split_ifs with none_
          · exact ⟨accepted, shut, refused, [], by simp [wire], by simp⟩
          · generalize (world.refill turn.reads).queue.offered.take room = taken at none_
            obtain ⟨accepted', shut', refused', rest, wire', counted⟩ :=
              ih ((world.refill turn.reads).wrote taken) (total + taken.length)
            refine ⟨accepted'.trans accepted, shut'.trans shut, refused'.trans refused, taken ++ rest, ?_, ?_⟩
            · rw [wire']
              simp [World.wrote, World.withQueue, wire]
            · intro count is
              rw [counted count is, List.length_append]
              omega
    · exact ⟨rfl, rfl, rfl, [], by simp, by simp⟩

theorem flush_refused (world : World) (turns : List Turn) : (world.flush turns).output.refused = world.output.refused := by
  obtain ⟨_, _, refused, _⟩ := flushFrom_output turns world 0
  unfold World.flush
  split_ifs
  · rfl
  · split
    next after result =>
      rw [result] at refused
      exact refused
    next after count result =>
      rw [result] at refused
      dsimp only
      split_ifs
      · exact refused
      · exact refused

theorem flush_extends (world : World) (turns : List Turn) : world.Extends (world.flush turns) := by
  obtain ⟨accepted, shut, _, taken, wire, counted⟩ := flushFrom_output turns world 0
  unfold World.flush
  split_ifs with closed
  · exact .refl
  · split
    next after result =>
      rw [result] at wire
      refine .closed ?_ rfl
      rw [show after.closeDown.wire = after.wire from rfl, show after.wire = world.wire ++ taken from wire]
      exact List.prefix_append _ _
    next after count result =>
      rw [result] at accepted shut wire counted
      have front : world.wire <+: after.wire := by
        rw [show after.wire = world.wire ++ taken from wire]
        exact List.prefix_append _ _
      have all : count = 0 + taken.length := counted count rfl
      dsimp only
      split_ifs
      · exact .closed front rfl
      · refine ⟨front, ?_, fun is => absurd is closed⟩
        rintro (is | same)
        · exact absurd is closed
        · refine .inr ?_
          change min (after.output.accepted + count) u64Max = min after.wire.length u64Max
          rw [show after.wire = world.wire ++ taken from wire, List.length_append,
            show after.output.accepted = world.output.accepted from accepted]
          omega

theorem direct_extends {world after : World} {bytes : Bytes} {takes : Option Nat} {written : Nat}
    (wrote : world.direct bytes takes = some (written, after)) : world.Extends after := by
  unfold World.direct at wrote
  split_ifs at wrote
  · obtain ⟨room, _, same⟩ := Option.map_eq_some_iff.mp wrote
    cases same
    refine ⟨List.prefix_append _ _, ?_, id⟩
    rintro (shut | accepted)
    · exact .inl shut
    · refine .inr ?_
      simp only [List.length_append, accepted]
      omega
  · cases wrote
    exact .refl

theorem batch_extends (entries : List (Bytes × Bytes)) (world : World) (remaining : Nat) :
    world.Extends (world.batchFrom entries remaining).1 := by
  induction entries generalizing world remaining with
  | nil => exact .refl
  | cons entry rest ih =>
    obtain ⟨header, payload⟩ := entry
    rw [World.batchFrom]
    dsimp only
    split_ifs
    · exact (accept_extends world _).trans (ih _ _)
    · exact (withQueue_extends world _).trans (accept_extends (world.queueTail header remaining payload) _)
    · exact .refl

theorem close_extends (world : World) : world.Extends world.close := by
  unfold World.close
  split_ifs
  · exact .closed List.prefix_rfl rfl
  · exact .refl

theorem step_extends (world : World) (op : Op) : world.Extends (world.step op) := by
  cases op with
  | view limit farewell =>
    rw [World.step, World.view]
    split
    · exact .still rfl rfl rfl
    · exact .refl
  | write bytes disk => exact pushed_extends world bytes _
  | send bytes disk turns =>
    rw [World.step, World.send]
    split_ifs
    · exact (pushed_extends world bytes _).trans (flush_extends _ turns)
    · exact .refl
  | record fit header payload takes disk turns =>
    rw [World.step, World.record]
    by_cases opened : world.isOpen = true
    · rw [if_pos opened]
      cases wrote : world.direct (header ++ payload) takes with
      | none => exact .closed List.prefix_rfl rfl
      | some result =>
        obtain ⟨written, after⟩ := result
        have extends_ := direct_extends wrote
        dsimp only
        by_cases whole : written = header.length + payload.length
        · rw [if_pos whole]
          exact extends_.trans (accept_extends after _)
        rw [if_neg whole]
        by_cases begun : 0 < written
        · rw [if_pos begun]
          exact extends_.trans ((withQueue_extends after _).trans (accept_extends (after.queueTail header written payload) _))
        rw [if_neg begun]
        split_ifs
        · exact extends_
        · exact extends_.trans (pushed_extends after _ _)
        · exact extends_.trans ((pushed_extends after _ _).trans (flush_extends _ turns))
    · rw [if_neg opened]
      exact .refl
  | sendBatch entries takes =>
    rw [World.step, World.sendBatch]
    by_cases opened : world.isOpen = true
    · rw [if_pos opened]
      cases (entries.take batchLimit).mapM fun entry => entry.2.map fun payload => (entry.1, payload) with
      | none => exact close_extends world
      | some pairs =>
        dsimp only
        generalize (if entries.length ≤ batchLimit then pairs.flatMap fun pair => pair.1 ++ pair.2 else []) = slices
        cases wrote : world.direct slices takes with
        | none => exact .closed List.prefix_rfl rfl
        | some result =>
          obtain ⟨written, after⟩ := result
          exact (direct_extends wrote).trans (batch_extends pairs after written)
    · rw [if_neg opened]
      exact .refl
  | finish tail turns =>
    rw [World.step, World.finish]
    split_ifs
    · exact (withQueue_extends world _).trans ((accept_extends (world.withQueue (world.queue.finish tail)) tail).trans (flush_extends _ turns))
    · exact .refl
  | writable turns =>
    have told : world.Extends { world with output := { world.output with refused := false } } := .still rfl rfl rfl
    exact told.trans (flush_extends { world with output := { world.output with refused := false } } turns)
  | flush turns => exact flush_extends world turns
  | close => exact close_extends world
  | shut => exact .closed List.prefix_rfl rfl

-- An output that never waits again.
structure World.Over (world : World) : Prop where
  policy : world.queue.policy = .sealed
  chunks : world.queue.chunks = []
  refused : world.output.refused = false

theorem Over.waiting {world : World} (past : world.Over) : world.waiting = false := by
  simp [World.waiting, Queue.isEmpty, Queue.spilling, past.policy, past.chunks, past.refused]

theorem Over.flush {world : World} (past : world.Over) (turns : List Turn) : (world.flush turns).Over := by
  have still (reads : Option Nat) : world.refill reads = world := by
    have same : world.queue.fill reads = some world.queue := by simp [Queue.fill, past.policy]
    simp only [World.refill, past.chunks, List.isEmpty_nil, if_true, same]
    rfl
  have stays : world.flushFrom 0 turns = (world, some 0) := by
    cases turns with
    | nil =>
      simp only [World.flushFrom, still, ite_self]
    | cons turn rest =>
      have some_ : 0 < flushBytes := by decide
      simp only [World.flushFrom, if_pos some_, still, past.chunks, List.isEmpty_nil, if_true]
  unfold World.flush
  split_ifs
  · exact past
  · rw [stays]
    dsimp only
    split_ifs
    · exact ⟨past.policy, past.chunks, past.refused⟩
    · exact ⟨past.policy, past.chunks, past.refused⟩

theorem Over.step {world : World} (past : world.Over) (op : Op) : (world.step op).Over := by
  have sealed_ : world.queue.isSealed = true := by simp [Queue.isSealed, past.policy]
  have shut : world.isOpen = false := by simp [World.isOpen, sealed_]
  cases op with
  | view limit farewell =>
    rw [World.step, World.view, past.policy]
    exact past
  | write bytes disk =>
    have refuses : world.queue.push [bytes] .cap disk = (false, world.queue) := by simp [Queue.push, sealed_]
    rw [World.step, refuses]
    exact ⟨past.policy, past.chunks, past.refused⟩
  | send bytes disk turns =>
    rw [World.step, World.send, shut]
    exact past
  | record fit header payload takes disk turns =>
    rw [World.step, World.record, shut]
    exact past
  | sendBatch entries takes =>
    rw [World.step, World.sendBatch, shut]
    exact past
  | finish tail turns =>
    rw [World.step, World.finish, shut]
    exact past
  | writable turns =>
    have told : World.Over { world with output := { world.output with refused := false } } := ⟨past.policy, past.chunks, rfl⟩
    exact Over.flush told turns
  | flush turns => exact Over.flush past turns
  | close =>
    rw [World.step, World.close]
    split_ifs
    · exact ⟨past.policy, past.chunks, past.refused⟩
    · exact past
  | shut => exact ⟨past.policy, past.chunks, past.refused⟩

-- An output that has overflowed and does not wait is over.
theorem over_of_overflow {world : World} (own : world.Sound) (past : world.ending ≠ .running) (idle : world.waiting = false) : world.Over := by
  have policy : world.queue.policy = .sealed := by
    have holds := own.holds
    cases ending : world.ending with
    | running => exact absurd ending past
    | farewell sent rest last =>
      rw [ending] at holds
      exact holds.1
    | cut sent =>
      rw [ending] at holds
      exact holds.1
  simp only [World.waiting, Queue.isEmpty, Queue.spilling, policy, Bool.or_eq_false_iff, Bool.not_eq_false', Bool.and_eq_true] at idle
  exact ⟨policy, List.isEmpty_iff.mp idle.2.1, idle.1⟩

theorem pending_of_waiting {world : World} (own : world.Sound) (lively : world.Lively) (running : world.ending = .running)
    (some_ : world.queue.isEmpty = false) : world.queue.pending ≠ [] := by
  obtain ⟨brisk, messages⟩ := lively running
  have holds := own.holds
  rw [running] at holds
  have serves : Serves world.wire world.messages world.queue := holds
  cases chunks : world.queue.chunks with
  | cons front rest =>
    have first := brisk.front front (by rw [chunks]; rfl)
    have some_ : front.bytes.drop world.queue.sent ≠ [] := by
      apply List.ne_nil_of_length_pos
      rw [List.length_drop]
      omega
    simp [Queue.pending, Queue.body, chunks, some_]
  | nil =>
    have spilling : world.queue.spilling = true := by simpa [Queue.isEmpty, chunks] using some_
    have later := brisk.spills spilling
    obtain ⟨message, rest, same⟩ := List.exists_cons_of_ne_nil later
    have there : message ∈ world.queue.later := by simp [same]
    have full := messages message (serves.later_mem message there)
    simp [Queue.pending, same, full]

theorem waiting_of_pending {queue : Queue} (some_ : queue.pending ≠ []) : queue.isEmpty = false := by
  apply Bool.eq_false_of_not_eq_true
  intro empty
  simp only [Queue.isEmpty, Bool.and_eq_true, List.isEmpty_iff, Bool.not_eq_true'] at empty
  apply some_
  have later : queue.later = [] := by
    have direct := empty.2
    unfold Queue.spilling at direct
    unfold Queue.later Policy.later
    split at direct <;> simp_all
  simp [Queue.pending, Queue.body, empty.1, later]

theorem batch_refused (entries : List (Bytes × Bytes)) (world : World) (remaining : Nat) :
    (world.batchFrom entries remaining).1.output.refused = world.output.refused := by
  have accepts (world : World) (message : Bytes) : (world.accept message).output = world.output := by
    unfold World.accept
    split_ifs <;> rfl
  induction entries generalizing world remaining with
  | nil => rfl
  | cons entry rest ih =>
    obtain ⟨header, payload⟩ := entry
    rw [World.batchFrom]
    dsimp only
    split_ifs
    · rw [ih, accepts]
    · rw [accepts]
      rfl
    · rfl

theorem pushed_refused (world : World) (message : Bytes) (result : Bool × Queue) :
    (world.pushed message result).output.refused = world.output.refused := by
  obtain ⟨taken, queue⟩ := result
  cases taken with
  | true =>
    unfold World.pushed World.accept
    dsimp only
    split_ifs <;> rfl
  | false => rfl

-- Only a writable event clears what a write that was refused has left.
theorem step_refused {world : World} {op : Op} (refused : world.output.refused = true) (other : ∀ turns, op ≠ .writable turns) :
    (world.step op).output.refused = true := by
  have idle : world.available = false := by simp [World.available, World.waiting, refused]
  have direct (bytes : Bytes) (takes : Option Nat) : world.direct bytes takes = some (0, world) := by
    rw [World.direct, idle]
    rfl
  cases op with
  | writable turns => exact absurd rfl (other turns)
  | view limit farewell =>
    rw [World.step, World.view]
    split
    · exact refused
    · exact refused
  | write bytes disk => exact (pushed_refused world bytes _).trans refused
  | send bytes disk turns =>
    rw [World.step, World.send]
    split_ifs
    · rw [flush_refused, pushed_refused]
      exact refused
    · exact refused
  | record fit header payload takes disk turns =>
    rw [World.step, World.record]
    by_cases opened : world.isOpen = true
    · rw [if_pos opened, direct]
      dsimp only
      rw [if_neg (Nat.lt_irrefl 0)]
      split_ifs
      · rw [World.accept]
        split_ifs <;> exact refused
      · exact refused
      · rw [pushed_refused]
        exact refused
      · rw [flush_refused, pushed_refused]
        exact refused
    · rw [if_neg opened]
      exact refused
  | sendBatch entries takes =>
    rw [World.step, World.sendBatch]
    by_cases opened : world.isOpen = true
    · rw [if_pos opened]
      cases (entries.take batchLimit).mapM fun entry => entry.2.map fun payload => (entry.1, payload) with
      | none =>
        simp only [World.close]
        split_ifs <;> exact refused
      | some pairs =>
        dsimp only
        rw [direct]
        dsimp only
        rw [batch_refused]
        exact refused
    · rw [if_neg opened]
      exact refused
  | finish tail turns =>
    rw [World.step, World.finish]
    split_ifs
    · rw [flush_refused, World.accept]
      split_ifs <;> exact refused
    · exact refused
  | flush turns => exact (flush_refused world turns).trans refused
  | close =>
    rw [World.step, World.close]
    split_ifs
    · exact refused
    · exact refused
  | shut => exact refused

-- An output that has something to send, and whose socket takes nothing, still has it, or is over.
theorem step_pending {world : World} (own : world.Sound) (lively : world.Lively) (op : Op) (same : (world.step op).wire = world.wire)
    (some_ : world.queue.isEmpty = false) : (world.step op).queue.isEmpty = false ∨ (world.step op).ending ≠ .running := by
  by_cases running : (world.step op).ending = .running
  · left
    obtain ⟨before, front⟩ := (step_moves own op).grows running
    have pending := pending_of_waiting own lively before some_
    have sound := step_sound own op
    have holds := own.holds
    have holds' := sound.holds
    rw [before] at holds
    rw [running] at holds'
    have all : world.wire ++ world.queue.pending = world.messages.flatten := Serves.pending holds
    have all' : (world.step op).wire ++ (world.step op).queue.pending = (world.step op).messages.flatten := Serves.pending holds'
    obtain ⟨more, later⟩ := front
    apply waiting_of_pending
    intro none_
    rw [same, none_, List.append_nil, ← later, List.flatten_append, ← all, List.append_assoc] at all'
    have empty := List.self_eq_append_right.mp all'
    exact pending (List.append_eq_nil_iff.mp empty).1
  · exact .inr running

-- What waits goes on waiting while the socket takes nothing.
theorem step_waits {world : World} (own : world.Sound) (lively : world.Lively) (op : Op) (same : (world.step op).wire = world.wire)
    (waits : world.waiting = true) :
    (world.step op).waiting = true ∨ (world.step op).Over ∨ ∃ turns, op = .writable turns := by
  by_cases told : ∃ turns, op = .writable turns
  · exact .inr (.inr told)
  · have other : ∀ turns, op ≠ .writable turns := fun turns is => told ⟨turns, is⟩
    cases refused : world.output.refused with
    | true => exact .inl (by simp [World.waiting, step_refused refused other])
    | false =>
      have some_ : world.queue.isEmpty = false := by simpa [World.waiting, refused] using waits
      obtain later | past := step_pending own lively op same some_
      · exact .inl (by simp [World.waiting, later])
      · cases waiting : (world.step op).waiting with
        | true => exact .inl rfl
        | false => exact .inr (.inl (over_of_overflow (step_sound own op) past waiting))

end Kido.Sending
