import Kido.Conn.Link

set_option autoImplicit false

namespace Kido.Sending

open Kido.Shared
open Kido.Tiling (u64Max)

-- From a moment before `since` on, all that there was had it.
def Throughout (past : List Moment) (since : Nat) (has : Moment → Prop) : Prop :=
  ∃ recent first older, past = recent ++ first :: older ∧ first.time ≤ since ∧ ∀ moment ∈ recent ++ [first], has moment

-- The output waited and the socket took nothing.
def Stuck (wire : Bytes) (moment : Moment) : Prop := moment.world.waiting = true ∧ moment.world.wire = wire

-- Reads were on and the socket took nothing.
def Silent (wire : Bytes) (moment : Moment) : Prop := moment.reads = true ∧ moment.world.wire = wire

-- A ping was sent that no pong has answered.
def Outstanding (past : List Moment) : Prop :=
  ∃ later asked earlier, past = later ++ asked :: earlier ∧ asked.note = .asked ∧ ∀ moment ∈ later, moment.note ≠ .answered

namespace Throughout

variable {past : List Moment} {since : Nat} {has : Moment → Prop} {moment : Moment}

theorem start (time : moment.time ≤ since) (now : has moment) : Throughout (moment :: past) since has := by
  refine ⟨[], moment, past, rfl, time, ?_⟩
  intro other member
  cases List.mem_singleton.mp member
  exact now

theorem cons (before : Throughout past since has) (now : has moment) : Throughout (moment :: past) since has := by
  obtain ⟨recent, first, older, rfl, time, all⟩ := before
  refine ⟨moment :: recent, first, older, rfl, time, ?_⟩
  intro other member
  obtain rfl | member := List.mem_cons.mp member
  · exact now
  · exact all other member

end Throughout

theorem Outstanding.cons {past : List Moment} {moment : Moment} (before : Outstanding past) (now : moment.note ≠ .answered) :
    Outstanding (moment :: past) := by
  obtain ⟨later, asked, earlier, rfl, note, all⟩ := before
  refine ⟨moment :: later, asked, earlier, rfl, note, ?_⟩
  intro other member
  obtain rfl | member := List.mem_cons.mp member
  · exact now
  · exact all other member

-- What holds of the output of a link.
structure Fed (world : World) : Prop where
  sound : world.Sound
  lively : world.Lively
  counts : world.Counts

theorem Fed.step {world : World} (fed : Fed world) (op : Op) : Fed (world.step op) :=
  ⟨step_sound fed.sound op, (step_moves fed.sound op).lively fed.lively, (step_extends world op).counts fed.counts⟩

theorem fed_run (cap : Nat) (ops : List Op) : Fed (World.run cap ops) := by
  refine run_invariant (P := Fed) ?_ (fun _ op fed => fed.step op) ops
  refine ⟨run_sound cap [], ?_, .inr rfl⟩
  intro _
  refine ⟨⟨nofun, nofun⟩, nofun⟩

-- What operations that follow each other do.
theorem steps_extend (ops : List Op) (world : World) : world.Extends (ops.foldl World.step world) := by
  induction ops generalizing world with
  | nil => exact .refl
  | cons op ops ih => exact (step_extends world op).trans (ih _)

theorem Fed.steps {world : World} (fed : Fed world) (ops : List Op) : Fed (ops.foldl World.step world) := by
  induction ops generalizing world with
  | nil => exact fed
  | cons op ops ih => exact ih (fed.step op)

theorem same_between {world middle after : World} (first : world.Extends middle) (second : middle.Extends after)
    (same : after.wire = world.wire) : middle.wire = world.wire := by
  obtain ⟨more, wire⟩ := first.wire
  obtain ⟨rest, wire'⟩ := second.wire
  rw [← wire', ← wire, List.append_assoc] at same
  have none_ := List.self_eq_append_right.mp same.symm
  rw [← wire, (List.append_eq_nil_iff.mp none_).1, List.append_nil]

-- What waits goes on waiting over operations of which none is a writable event.
theorem steps_wait {ops : List Op} {world : World} (fed : Fed world) (events : ∀ op ∈ ops, ∀ turns, op ≠ .writable turns)
    (same : (ops.foldl World.step world).wire = world.wire) (waits : world.waiting = true ∨ world.Over) :
    (ops.foldl World.step world).waiting = true ∨ (ops.foldl World.step world).Over := by
  induction ops generalizing world with
  | nil => exact waits
  | cons op ops ih =>
    have first : (world.step op).wire = world.wire := same_between (step_extends world op) (steps_extend ops _) same
    apply ih (fed.step op)
    · intro other member
      exact events other (List.mem_cons_of_mem _ member)
    · exact same.trans first.symm
    · obtain waits | gone := waits
      · obtain waits | gone | ⟨turns, is⟩ := step_waits fed.sound fed.lively op first waits
        · exact .inl waits
        · exact .inr gone
        · exact absurd is (events op List.mem_cons_self turns)
      · exact .inr (Over.step gone op)

-- The flush of a ping takes nothing to the socket while it is measured how long the socket takes nothing.
def Counted (link : Link) (time : Nat) (after : Link) : Prop :=
  after.world.output.shut = true ∨ after.world.wire = link.world.wire ∨
    (link.ws.stall link.world time).2.blocked = none ∧
      ∀ sent, (link.ws.stall link.world time).2.ping = some (.pong sent) → sent = time

-- Times do not fall, fewer bytes are sent than can be counted, and a socket that is told to have room takes something
-- of what it is given next. The link hears of reads in pings as it was told, and counts what its pings take.
structure Meets (link : Link) (time : Nat) (deed : Deed) : Prop where
  later : link.now ≤ time
  small : (link.step time deed).world.wire.length < u64Max
  room : link.vacant = true → (∀ reads answers, deed ≠ .ping reads answers) → (link.step time deed).world.output.shut = false →
    (link.step time deed).world.waiting = true → (link.step time deed).world.wire ≠ link.world.wire
  deed : match deed with
    | .output op => ∀ bytes disk, op ≠ .write bytes disk
    | .ping reads _ => reads = link.reads ∧ Counted link time (link.step time deed)
    | _ => True

-- The invariant of a link.
structure Watched (link : Link) : Prop where
  fed : Fed link.world
  small : link.world.wire.length < u64Max
  present : ∃ note rest, link.past = ⟨link.now, link.world, link.reads, note⟩ :: rest
  recorded : link.world.output.shut = false → link.ws.accepted ≤ link.world.output.accepted
  told : ∀ sent, link.ws.ping = some (.pong sent) → link.reads = true
  stuck : link.world.output.shut = false → link.world.output.accepted = link.ws.accepted → ∀ since, link.ws.blocked = some since →
    Throughout link.past since (Stuck link.world.wire) ∨ link.world.Over ∨ link.vacant = true ∧ link.world.waiting = false
  silent : link.world.output.shut = false → link.world.output.accepted = link.ws.accepted → ∀ sent, link.ws.ping = some (.pong sent) →
    Throughout link.past sent (Silent link.world.wire)
  asked : link.ws.ping ≠ none → Outstanding link.past

inductive Reached : Link → Prop where
  | begun (now cap : Nat) (ops : List Op) (small : (World.run cap ops).wire.length < u64Max) : Reached (.begin_ now (World.run cap ops))
  | stepped {link : Link} (time : Nat) (deed : Deed) (before : Reached link) (meets : Meets link time deed) : Reached (link.step time deed)

variable {link : Link} {time : Nat}

theorem Fed.accepted {world : World} (fed : Fed world) (small : world.wire.length < u64Max) (opened : world.output.shut = false) :
    world.output.accepted = world.wire.length := by
  obtain shut | counts := fed.counts
  · rw [opened] at shut
    cases shut
  · rw [counts]
    omega

-- An output of which no more is counted has taken nothing.
theorem Watched.same {after : World} (watched : Watched link) (fed : Fed after) (small : after.wire.length < u64Max)
    (extends_ : link.world.Extends after) (opened : after.output.shut = false) (same : after.output.accepted = link.ws.accepted) :
    after.wire = link.world.wire ∧ link.world.output.shut = false ∧ link.world.output.accepted = link.ws.accepted := by
  have before : link.world.output.shut = false := by
    apply Bool.eq_false_of_not_eq_true
    intro shut
    rw [extends_.shut shut] at opened
    cases opened
  have recorded := watched.recorded before
  rw [watched.fed.accepted watched.small before] at recorded
  rw [fed.accepted small opened] at same
  have length := extends_.wire.length_le
  have wire : link.world.wire = after.wire := extends_.wire.eq_of_length (by omega)
  refine ⟨wire.symm, before, ?_⟩
  rw [watched.fed.accepted watched.small before, wire, same]

-- The present moment is the last one.
theorem Watched.now_has {since : Nat} {has : Moment → Prop} (watched : Watched link) (all : Throughout link.past since has) :
    ∃ note, has ⟨link.now, link.world, link.reads, note⟩ := by
  obtain ⟨note, rest, past⟩ := watched.present
  obtain ⟨recent, first, older, same, _, all⟩ := all
  refine ⟨note, all _ ?_⟩
  rw [past] at same
  cases recent with
  | nil =>
    cases same
    exact List.mem_cons_self
  | cons moment recent =>
    cases same
    exact List.mem_cons_self

theorem step_past (link : Link) (time : Nat) (deed : Deed) :
    (link.step time deed).past = ⟨time, (link.step time deed).world, (link.step time deed).reads, (link.did time deed).2.2.2⟩ :: link.past := rfl

theorem step_vacant (link : Link) (time : Nat) (deed : Deed) :
    (link.step time deed).vacant = (decide ((link.step time deed).world.wire.length = link.world.wire.length) &&
      (link.vacant || link.wasTold (link.step time deed).world deed)) := rfl

-- The operations between two pings.
structure Between (link : Link) (time : Nat) (deed : Deed) (ops : List Op) : Prop where
  world : (link.step time deed).world = ops.foldl World.step link.world
  blocked : (link.step time deed).ws.blocked = link.ws.blocked
  accepted : (link.step time deed).ws.accepted = link.ws.accepted
  other : ∀ reads answers, deed ≠ .ping reads answers
  events : (∀ op ∈ ops, ∀ turns, op ≠ .writable turns) ∨ ∃ turns, deed = .output (.writable turns) ∧ ops = [.writable turns]

variable {deed : Deed} {ops : List Op}

theorem Between.extends (between : Between link time deed ops) : link.world.Extends (link.step time deed).world := by
  rw [between.world]
  exact steps_extend ops link.world

theorem Between.fed (between : Between link time deed ops) (fed : Fed link.world) : Fed (link.step time deed).world := by
  rw [between.world]
  exact fed.steps ops

theorem Between.stuck (between : Between link time deed ops) (watched : Watched link) (meets : Meets link time deed)
    (opened : (link.step time deed).world.output.shut = false)
    (same : (link.step time deed).world.output.accepted = (link.step time deed).ws.accepted) (since : Nat)
    (blocked : (link.step time deed).ws.blocked = some since) :
    Throughout (link.step time deed).past since (Stuck (link.step time deed).world.wire) ∨ (link.step time deed).world.Over ∨
      (link.step time deed).vacant = true ∧ (link.step time deed).world.waiting = false := by
  obtain ⟨wire, before, still⟩ :=
    watched.same (between.fed watched.fed) meets.small between.extends opened (same.trans between.accepted)
  have length : decide ((link.step time deed).world.wire.length = link.world.wire.length) = true := by simp [wire]
  obtain stuck | gone | ⟨vacant, idle⟩ := watched.stuck before still since (between.blocked ▸ blocked)
  · obtain ⟨_, waits, _⟩ := watched.now_has stuck
    have goes (waits : (link.step time deed).world.waiting = true) :
        Throughout (link.step time deed).past since (Stuck (link.step time deed).world.wire) := by
      rw [step_past, wire]
      exact stuck.cons ⟨waits, wire⟩
    obtain quiet | ⟨turns, rfl, rfl⟩ := between.events
    · have later := steps_wait watched.fed quiet (by rw [← between.world, wire]) (.inl waits)
      rw [← between.world] at later
      obtain waits | gone := later
      · exact .inl (goes waits)
      · exact .inr (.inl gone)
    · cases waiting : (link.step time (.output (.writable turns))).world.waiting with
      | true => exact .inl (goes waiting)
      | false =>
        refine .inr (.inr ⟨?_, rfl⟩)
        rw [step_vacant, length]
        simp [Link.wasTold, waiting]
  · refine .inr (.inl ?_)
    rw [between.world]
    exact ops.foldlRecOn World.step gone fun world gone op _ => Over.step gone op
  · -- The socket had room: what waits now was given to it.
    refine .inr (.inr ⟨?_, ?_⟩)
    · rw [step_vacant, length, vacant]
      rfl
    · apply Bool.eq_false_of_not_eq_true
      intro waits
      exact meets.room vacant between.other opened waits wire

-- The deeds that are no pings.
theorem between_output {op : Op} : Between link time (.output op) [op] := by
  refine ⟨rfl, rfl, rfl, nofun, ?_⟩
  by_cases told : ∃ turns, op = .writable turns
  · obtain ⟨turns, rfl⟩ := told
    exact .inr ⟨turns, rfl, rfl⟩
  · left
    intro other member turns is
    cases List.mem_singleton.mp member
    exact told ⟨turns, is⟩

theorem between_reads {on : Bool} : Between link time (.reads on) [] := ⟨rfl, rfl, rfl, nofun, .inl nofun⟩

theorem between_exchange (link : Link) (time : Nat) (writes : List (Bytes × Disk)) (pong close : Bool) (turns : List Turn) :
    ∃ ops, Between link time (.exchange writes pong close turns) ops := by
  cases opened : link.world.isOpen with
  | false =>
    refine ⟨[], ?_, ?_, ?_, nofun, .inl nofun⟩
    · simp [Link.step, Link.did, exchange, opened]
    · simp [Link.step, Link.did, exchange, opened]
    · simp [Link.step, Link.did, exchange, opened]
  | true =>
    refine ⟨writes.map (fun write => .write write.1 write.2) ++ [.flush turns] ++ if close then [.close] else [], ?_, ?_, ?_, nofun, .inl ?_⟩
    · cases close <;> simp [Link.step, Link.did, exchange, opened, List.foldl_append, List.foldl_map]
    · simp [Link.step, Link.did, exchange, opened]
    · simp [Link.step, Link.did, exchange, opened]
    · intro op member turns' is
      subst is
      cases close <;> simp at member

-- A ping that is awaited as before stays silent when the socket takes nothing.
theorem Between.silent (between : Between link time deed ops) (watched : Watched link) (meets : Meets link time deed)
    (reads : (link.step time deed).reads = true) (opened : (link.step time deed).world.output.shut = false)
    (same : (link.step time deed).world.output.accepted = (link.step time deed).ws.accepted) {sent : Nat}
    (awaited : link.ws.ping = some (.pong sent)) :
    Throughout (link.step time deed).past sent (Silent (link.step time deed).world.wire) := by
  obtain ⟨wire, before, still⟩ :=
    watched.same (between.fed watched.fed) meets.small between.extends opened (same.trans between.accepted)
  rw [step_past, wire]
  exact (watched.silent before still sent awaited).cons ⟨reads, wire⟩

theorem Between.watched (between : Between link time deed ops) (watched : Watched link) (meets : Meets link time deed)
    (told : ∀ sent, (link.step time deed).ws.ping = some (.pong sent) → (link.step time deed).reads = true)
    (silent : (link.step time deed).world.output.shut = false →
      (link.step time deed).world.output.accepted = (link.step time deed).ws.accepted →
        ∀ sent, (link.step time deed).ws.ping = some (.pong sent) →
          Throughout (link.step time deed).past sent (Silent (link.step time deed).world.wire))
    (asked : (link.step time deed).ws.ping ≠ none → Outstanding (link.step time deed).past) : Watched (link.step time deed) := by
  refine ⟨between.fed watched.fed, meets.small, ⟨_, _, rfl⟩, ?_, told, between.stuck watched meets, silent, asked⟩
  intro opened
  have before : link.world.output.shut = false := by
    apply Bool.eq_false_of_not_eq_true
    intro shut
    rw [between.extends.shut shut] at opened
    cases opened
  have recorded := watched.recorded before
  rw [watched.fed.accepted watched.small before] at recorded
  rw [between.accepted, (between.fed watched.fed).accepted meets.small opened]
  exact recorded.trans between.extends.wire.length_le

theorem Watched.output (watched : Watched link) {op : Op} (meets : Meets link time (.output op)) : Watched (link.step time (.output op)) := by
  apply between_output.watched watched meets
  · exact watched.told
  · intro opened same sent awaited
    exact between_output.silent watched meets (watched.told sent awaited) opened same awaited
  · intro awaited
    exact (watched.asked awaited).cons nofun

theorem Watched.exchange (watched : Watched link) {writes : List (Bytes × Disk)} {pong close : Bool} {turns : List Turn}
    (meets : Meets link time (.exchange writes pong close turns)) : Watched (link.step time (.exchange writes pong close turns)) := by
  obtain ⟨ops, between⟩ := between_exchange link time writes pong close turns
  -- A pong is not awaited any more, and otherwise all stays.
  have pings : (link.step time (.exchange writes pong close turns)).ws.ping = none ∧ (link.world.isOpen && pong) = true ∨
      (link.step time (.exchange writes pong close turns)).ws.ping = link.ws.ping ∧ (link.world.isOpen && pong) = false := by
    cases opened : link.world.isOpen with
    | false => exact .inr ⟨by simp [Link.step, Link.did, Sending.exchange, opened], rfl⟩
    | true =>
      cases pong with
      | true => exact .inl ⟨by simp [Link.step, Link.did, Sending.exchange, opened], rfl⟩
      | false => exact .inr ⟨by simp [Link.step, Link.did, Sending.exchange, opened], rfl⟩
  apply between.watched watched meets
  · intro sent awaited
    obtain ⟨none_, _⟩ | ⟨same, _⟩ := pings
    · rw [none_] at awaited
      cases awaited
    · exact watched.told sent (same ▸ awaited)
  · intro opened same' sent awaited
    obtain ⟨none_, _⟩ | ⟨same, _⟩ := pings
    · rw [none_] at awaited
      cases awaited
    · have before := same ▸ awaited
      exact between.silent watched meets (watched.told sent before) opened same' before
  · intro awaited
    obtain ⟨none_, _⟩ | ⟨same, note⟩ := pings
    · exact absurd none_ awaited
    · apply (watched.asked (same ▸ awaited)).cons
      simp [note]

theorem Watched.reads (watched : Watched link) {on : Bool} (meets : Meets link time (.reads on)) : Watched (link.step time (.reads on)) := by
  have ping : (link.step time (.reads on)).ws.ping = (link.ws.readsChanged on time).ping := rfl
  simp only [Ws.readsChanged] at ping
  apply between_reads.watched watched meets
  · intro sent awaited
    rw [ping] at awaited
    cases on with
    | true => rfl
    | false => cases before : link.ws.ping <;> simp [before] at awaited
  · intro opened same sent awaited
    rw [ping] at awaited
    cases on with
    | false => cases before : link.ws.ping <;> simp [before] at awaited
    | true =>
      cases before : link.ws.ping with
      | none => simp [before] at awaited
      | some waits =>
        cases waits with
        | reads =>
          simp only [before, Option.some.injEq, Awaiting.pong.injEq] at awaited
          rw [step_past]
          exact .start awaited.le ⟨rfl, rfl⟩
        | pong earlier =>
          simp only [before, Option.some.injEq, Awaiting.pong.injEq] at awaited
          subst awaited
          exact between_reads.silent watched meets rfl opened same before
  · intro awaited
    have before : link.ws.ping ≠ none := by
      intro none_
      apply awaited
      rw [ping, none_]
    exact (watched.asked before).cons nofun

-- A look that goes on waits, and has counted nothing.
theorem stall_some {ws : Ws} {world : World} {now since : Nat} (blocked : (ws.stall world now).2.blocked = some since) :
    world.waiting = true ∧ world.output.accepted = ws.accepted ∧ (ws.blocked = some since ∨ since = now) := by
  unfold Ws.stall at blocked
  dsimp only at blocked
  by_cases moves : (decide (world.output.accepted ≠ ws.accepted) || !world.waiting) = true
  · rw [if_pos moves] at blocked
    cases blocked
  · rw [if_neg moves] at blocked
    simp only [Bool.or_eq_true, decide_eq_true_eq, Bool.not_eq_true', not_or, Decidable.not_not, Bool.not_eq_false] at moves
    refine ⟨moves.2, moves.1, ?_⟩
    cases before : ws.blocked with
    | none =>
      simp only [before, Option.getD_none, Option.some.injEq] at blocked
      exact .inr blocked.symm
    | some earlier =>
      simp only [before, Option.getD_some, Option.some.injEq] at blocked
      exact .inl (by rw [blocked])

theorem stall_accepted (ws : Ws) (world : World) (now : Nat) : (ws.stall world now).2.accepted = world.output.accepted := by
  unfold Ws.stall
  dsimp only
  split_ifs <;> rfl

theorem stall_ping (ws : Ws) (world : World) (now : Nat) : (ws.stall world now).2.ping =
    match ws.ping with
    | some (.pong sent) => some (.pong (if world.output.accepted ≠ ws.accepted then now else sent))
    | other => other := by
  unfold Ws.stall
  dsimp only
  simp only [decide_eq_true_eq]
  split_ifs <;> rfl

theorem stall_nextPing (ws : Ws) (world : World) (now : Nat) : (ws.stall world now).2.nextPing = ws.nextPing := by
  unfold Ws.stall
  dsimp only
  split_ifs <;> rfl

-- A ping does nothing else to the link than to look, or it is sent.
def Looks (ws : Ws) (world : World) (now : Nat) (reads : Bool) (after : Ws × World × Ping) : Prop :=
  ∃ ops : List Op, (∀ op ∈ ops, ∀ turns, op ≠ .writable turns) ∧ after.2.1 = ops.foldl World.step world ∧
    (after.1 = (ws.stall world now).2 ∨
      ws.nextPing ≤ now ∧ after.1 = { (ws.stall world now).2 with
        nextPing := now + pingInterval
        ping := (ws.stall world now).2.ping.or (some (if reads then .pong now else .reads))
        accepted := after.2.1.output.accepted })

theorem ping_looks (ws : Ws) (world : World) (now : Nat) (reads : Bool) (answers : Answers) :
    Looks ws world now reads (ping ws world now reads answers) := by
  unfold ping
  dsimp only
  by_cases stalls : (ws.stall world now).1 = some 0
  · rw [if_pos stalls]
    exact ⟨[.shut], by simp, rfl, .inl rfl⟩
  rw [if_neg stalls]
  split
  · exact ⟨[], nofun, rfl, .inl rfl⟩
  · exact ⟨[], nofun, rfl, .inl rfl⟩
  split_ifs with late due
  · exact ⟨[.finish answers.close answers.closeTurns, .shut], by simp, rfl, .inl rfl⟩
  · rw [stall_nextPing] at due
    unfold sendPing
    split
    · exact ⟨[.shut], by simp, rfl, .inl rfl⟩
    next bytes disk _ =>
      dsimp only
      by_cases queued : (world.queue.push [bytes] .cap disk).1 = true
      · rw [if_pos queued]
        by_cases shut : ((world.step (.write bytes disk)).step (.flush answers.turns)).output.shut = true
        · rw [if_pos shut]
          exact ⟨[.write bytes disk, .flush answers.turns], by simp, rfl, .inr ⟨due, rfl⟩⟩
        · rw [if_neg shut]
          exact ⟨[.write bytes disk, .flush answers.turns], by simp, rfl, .inr ⟨due, rfl⟩⟩
      · rw [if_neg queued]
        split_ifs
        · exact ⟨[.write bytes disk], by simp, rfl, .inl rfl⟩
        · exact ⟨[.write bytes disk, .shut], by simp, rfl, .inl rfl⟩
  · exact ⟨[], nofun, rfl, .inl rfl⟩

-- What is measured at a look has been so.
theorem Watched.looked {since : Nat} (watched : Watched link) (later : link.now ≤ time) (opened : link.world.output.shut = false)
    (blocked : (link.ws.stall link.world time).2.blocked = some since) : Throughout link.past since (Stuck link.world.wire) := by
  obtain ⟨waits, still, before | rfl⟩ := stall_some blocked
  · obtain stuck | gone | ⟨_, idle⟩ := watched.stuck opened still since before
    · exact stuck
    · rw [Over.waiting gone] at waits
      cases waits
    · rw [idle] at waits
      cases waits
  · obtain ⟨note, rest, past⟩ := watched.present
    rw [past]
    exact .start later ⟨waits, rfl⟩

theorem Watched.awaits {sent : Nat} (watched : Watched link) (opened : link.world.output.shut = false)
    (awaited : (link.ws.stall link.world time).2.ping = some (.pong sent)) :
    link.reads = true ∧ link.ws.ping ≠ none ∧ (sent = time ∨ Throughout link.past sent (Silent link.world.wire)) := by
  rw [stall_ping] at awaited
  cases before : link.ws.ping with
  | none => simp [before] at awaited
  | some waits =>
    cases waits with
    | reads => simp [before] at awaited
    | pong earlier =>
      refine ⟨watched.told earlier before, nofun, ?_⟩
      simp only [before, Option.some.injEq, Awaiting.pong.injEq] at awaited
      by_cases moved : link.world.output.accepted = link.ws.accepted
      · rw [if_neg (fun other => other moved)] at awaited
        subst awaited
        exact .inr (watched.silent opened moved earlier before)
      · rw [if_pos moved] at awaited
        exact .inl awaited.symm

theorem Watched.ping {reads : Bool} {answers : Answers} (watched : Watched link) (meets : Meets link time (.ping reads answers)) :
    Watched (link.step time (.ping reads answers)) := by
  obtain ⟨same, counted⟩ : reads = link.reads ∧ Counted link time (link.step time (.ping reads answers)) := meets.deed
  obtain ⟨ops, quiet, world, looks⟩ := ping_looks link.ws link.world time reads answers
  have world_ : (link.step time (.ping reads answers)).world = ops.foldl World.step link.world := world
  have fed : Fed (link.step time (.ping reads answers)).world := world_ ▸ watched.fed.steps ops
  have extends_ : link.world.Extends (link.step time (.ping reads answers)).world := world_ ▸ steps_extend ops link.world
  have past := step_past link time (.ping reads answers)
  have before (opened : (link.step time (.ping reads answers)).world.output.shut = false) : link.world.output.shut = false := by
    apply Bool.eq_false_of_not_eq_true
    intro shut
    rw [extends_.shut shut] at opened
    cases opened
  -- A pong is awaited since before, or from now on.
  have awaited {waits : Awaiting} (pending : (link.step time (.ping reads answers)).ws.ping = some waits) :
      (link.ws.stall link.world time).2.ping = some waits ∨
        (link.did time (.ping reads answers)).2.2.2 = .asked ∧ waits = if reads then .pong time else .reads := by
    obtain kept | ⟨due, sent⟩ := looks
    · exact .inl (by rw [← kept]; exact pending)
    · have asked : (link.did time (.ping reads answers)).2.2.2 = .asked := by
        have other : time + pingInterval ≠ link.ws.nextPing := by
          unfold pingInterval
          omega
        simp [Link.did, sent, other]
      have is : (link.step time (.ping reads answers)).ws.ping =
          (link.ws.stall link.world time).2.ping.or (some (if reads then .pong time else .reads)) := congrArg Ws.ping sent
      rw [is] at pending
      cases pings : (link.ws.stall link.world time).2.ping with
      | some other =>
        rw [pings, Option.some_or, Option.some.injEq] at pending
        exact .inl (by rw [pending])
      | none =>
        rw [pings, Option.none_or, Option.some.injEq] at pending
        exact .inr ⟨asked, pending.symm⟩
  have blocked_ : (link.step time (.ping reads answers)).ws.blocked = (link.ws.stall link.world time).2.blocked := by
    obtain kept | ⟨_, sent⟩ := looks
    · exact congrArg Ws.blocked kept
    · have is : (link.step time (.ping reads answers)).ws = _ := sent
      rw [is]
  refine ⟨fed, meets.small, ⟨_, _, rfl⟩, ?_, ?_, ?_, ?_, ?_⟩
  · intro opened
    obtain kept | ⟨_, sent⟩ := looks
    · have accepted : (link.step time (.ping reads answers)).ws.accepted = link.world.output.accepted := by
        rw [← stall_accepted link.ws link.world time]
        exact congrArg Ws.accepted kept
      rw [accepted, watched.fed.accepted watched.small (before opened), fed.accepted meets.small opened]
      exact extends_.wire.length_le
    · exact (congrArg Ws.accepted sent).le
  · intro sent pending
    obtain kept | ⟨_, now⟩ := awaited pending
    · rw [stall_ping] at kept
      cases pings : link.ws.ping with
      | none => simp [pings] at kept
      | some waits =>
        cases waits with
        | reads => simp [pings] at kept
        | pong earlier => exact watched.told earlier pings
    · cases on : reads with
      | true => exact same.symm.trans on
      | false => simp [on] at now
  · intro opened _ since blocked
    rw [blocked_] at blocked
    have stuck := watched.looked meets.later (before opened) blocked
    obtain ⟨_, waits, _⟩ := watched.now_has stuck
    have wire : (link.step time (.ping reads answers)).world.wire = link.world.wire := by
      obtain shut | wire | ⟨none_, _⟩ := counted
      · rw [opened] at shut
        cases shut
      · exact wire
      · rw [none_] at blocked
        cases blocked
    have later := steps_wait watched.fed quiet (by rw [← world_, wire]) (.inl waits)
    rw [← world_] at later
    obtain waits | gone := later
    · rw [past, wire]
      exact .inl (stuck.cons ⟨waits, wire⟩)
    · exact .inr (.inl gone)
  · intro opened _ sent pending
    rw [past]
    obtain kept | ⟨_, now⟩ := awaited pending
    · obtain ⟨on, _, now | silent⟩ := watched.awaits (before opened) kept
      · exact .start now.symm.le ⟨on, rfl⟩
      · obtain shut | wire | ⟨_, now⟩ := counted
        · rw [opened] at shut
          cases shut
        · rw [wire]
          exact silent.cons ⟨on, wire⟩
        · exact .start (now sent kept).symm.le ⟨on, rfl⟩
    · cases on : reads with
      | true =>
        simp only [on, if_true, Awaiting.pong.injEq] at now
        exact .start now.symm.le ⟨same.symm.trans on, rfl⟩
      | false => simp [on] at now
  · intro pending
    obtain ⟨waits, is⟩ := Option.ne_none_iff_exists'.mp pending
    rw [past]
    obtain kept | ⟨note, _⟩ := awaited is
    · have some_ : link.ws.ping ≠ none := by
        intro none_
        rw [stall_ping, none_] at kept
        cases kept
      apply (watched.asked some_).cons
      simp only [Link.did]
      split_ifs <;> exact nofun
    · exact ⟨[], _, _, rfl, note, nofun⟩

theorem reached_watched (reached : Reached link) : Watched link := by
  induction reached with
  | begun now cap ops small =>
    refine ⟨fed_run cap ops, small, ⟨_, _, rfl⟩, fun _ => Nat.zero_le _, nofun, nofun, nofun, ?_⟩
    exact fun none_ => absurd rfl none_
  | stepped time deed _ meets ih =>
    cases deed with
    | output op => exact ih.output meets
    | exchange writes pong close turns => exact ih.exchange meets
    | reads on => exact ih.reads meets
    | ping reads answers => exact ih.ping meets

theorem stall_left {ws : Ws} {world : World} {now left : Nat} (stalls : (ws.stall world now).1 = some left) :
    ∃ since, (ws.stall world now).2.blocked = some since ∧ left = since + stallWithin - now := by
  unfold Ws.stall at stalls ⊢
  dsimp only at stalls ⊢
  by_cases moves : (decide (world.output.accepted ≠ ws.accepted) || !world.waiting) = true
  · rw [if_pos moves] at stalls
    cases stalls
  · rw [if_neg moves] at stalls ⊢
    simp only [Option.some.injEq] at stalls
    exact ⟨_, rfl, stalls.symm⟩

theorem stall_none {ws : Ws} {world : World} {now : Nat} (stalls : (ws.stall world now).1 = none) :
    (ws.stall world now).2.blocked = none := by
  unfold Ws.stall at stalls ⊢
  dsimp only at stalls ⊢
  by_cases moves : (decide (world.output.accepted ≠ ws.accepted) || !world.waiting) = true
  · rw [if_pos moves]
  · rw [if_neg moves] at stalls
    cases stalls

-- What the result of a ping tells.
def Tells (ws : Ws) (world : World) (now : Nat) (reads : Bool) (after : Ws × World × Ping) : Prop :=
  match after.2.2 with
  | .expired (some .stalled) => (ws.stall world now).1 = some 0
  | .expired (some .pingTimeout) => world.output.shut = false ∧ reads = true ∧ (ws.stall world now).2.overdue now = true
  | .expired _ => True
  | .after left =>
    (∀ since, after.1.blocked = some since → now + left ≤ since + stallWithin) ∧
      (after.2.1.life = .opened → now + left ≤ after.1.nextPing ∧
        (reads = true → ∀ sent, after.1.ping = some (.pong sent) → now + left ≤ sent + pongWithin))

theorem blocked_left {ws : Ws} {world : World} {now since : Nat} (open_ : (ws.stall world now).1 ≠ some 0)
    (blocked : (ws.stall world now).2.blocked = some since) : ∃ left, (ws.stall world now).1 = some left ∧ now + left = since + stallWithin := by
  cases stalls : (ws.stall world now).1 with
  | none =>
    rw [stall_none stalls] at blocked
    cases blocked
  | some left =>
    obtain ⟨other, is, same⟩ := stall_left stalls
    rw [blocked] at is
    cases is
    refine ⟨left, rfl, ?_⟩
    have some_ : left ≠ 0 := fun zero => open_ (by rw [stalls, zero])
    omega

-- The next look comes before what is measured is over, and before the next ping.
theorem left_tells {ws : Ws} (stall : Option Nat) {now : Nat} {reads : Bool} (later : now ≤ ws.nextPing)
    (early : (reads && ws.overdue now) = false) :
    (∀ left, stall = some left → ws.left stall now reads ≤ left) ∧ now + ws.left stall now reads ≤ ws.nextPing ∧
      (reads = true → ∀ sent, ws.ping = some (.pong sent) → now + ws.left stall now reads ≤ sent + pongWithin) := by
  unfold Ws.left
  refine ⟨?_, ?_, ?_⟩
  · rintro left rfl
    exact Nat.min_le_right _ _
  · cases ping : ws.ping with
    | none => cases stall <;> dsimp only <;> omega
    | some waits =>
      cases waits with
      | reads => cases stall <;> dsimp only <;> omega
      | pong sent => cases stall <;> dsimp only <;> split_ifs <;> omega
  · rintro rfl sent awaited
    have soon : now - sent < pongWithin := by simpa [Ws.overdue, awaited] using early
    rw [awaited]
    cases stall <;> dsimp only <;> rw [if_pos rfl] <;> omega

theorem ping_tells (ws : Ws) (world : World) (now : Nat) (reads : Bool) (answers : Answers) :
    Tells ws world now reads (ping ws world now reads answers) := by
  unfold ping
  dsimp only
  by_cases stalls : (ws.stall world now).1 = some 0
  · rw [if_pos stalls]
    exact stalls
  rw [if_neg stalls]
  -- What a draining output waits for.
  have drains {ws' : Ws} (blocked : ws'.blocked = (ws.stall world now).2.blocked) :
      ∀ since, ws'.blocked = some since → now + (ws.stall world now).1.getD stallWithin ≤ since + stallWithin := by
    intro since is
    obtain ⟨left, same, sum⟩ := blocked_left stalls (blocked ▸ is)
    rw [same, Option.getD_some]
    omega
  -- What an output that is open waits for.
  have waits {ws' : Ws} (blocked : ws'.blocked = (ws.stall world now).2.blocked) (least : ∀ left, (ws.stall world now).1 = some left →
      ws'.left (ws.stall world now).1 now reads ≤ left) :
      ∀ since, ws'.blocked = some since → now + ws'.left (ws.stall world now).1 now reads ≤ since + stallWithin := by
    intro since is
    obtain ⟨left, same, sum⟩ := blocked_left stalls (blocked ▸ is)
    have := least left same
    omega
  split
  next => trivial
  next life =>
    refine ⟨drains rfl, fun opened => ?_⟩
    rw [show world.life = .opened from opened] at life
    cases life
  next life =>
    have open_ : world.output.shut = false := by
      cases shut : world.output.shut with
      | false => rfl
      | true => simp [World.life, shut] at life
    by_cases late : (reads && (ws.stall world now).2.overdue now) = true
    · rw [if_pos late]
      simp only [Bool.and_eq_true] at late
      exact ⟨open_, late.1, late.2⟩
    rw [if_neg late]
    have early : (reads && (ws.stall world now).2.overdue now) = false := by simpa using late
    by_cases due : (ws.stall world now).2.nextPing ≤ now
    · rw [if_pos due]
      unfold sendPing
      split
      next => trivial
      next bytes disk _ =>
        dsimp only
        by_cases queued : (world.queue.push [bytes] .cap disk).1 = true
        · rw [if_pos queued]
          by_cases shut : ((world.step (.write bytes disk)).step (.flush answers.turns)).output.shut = true
          · rw [if_pos shut]
            trivial
          · rw [if_neg shut]
            generalize ((world.step (.write bytes disk)).step (.flush answers.turns)) = flushed
            have soon : (reads && Ws.overdue { (ws.stall world now).2 with
                nextPing := now + pingInterval
                ping := (ws.stall world now).2.ping.or (some (if reads then .pong now else .reads))
                accepted := flushed.output.accepted } now) = false := by
              cases pings : (ws.stall world now).2.ping with
              | some other => simpa [Ws.overdue, pings] using early
              | none => cases reads <;> simp [Ws.overdue, pongWithin]
            obtain ⟨least, next, pong⟩ := left_tells (ws.stall world now).1 (Nat.le_add_right now pingInterval) soon
            exact ⟨waits rfl least, fun _ => ⟨next, pong⟩⟩
        · rw [if_neg queued]
          by_cases drain : (world.step (.write bytes disk)).life = .draining
          · rw [if_pos drain]
            refine ⟨drains rfl, fun opened => ?_⟩
            rw [show (world.step (.write bytes disk)).life = .opened from opened] at drain
            cases drain
          · rw [if_neg drain]
            trivial
    · rw [if_neg due]
      obtain ⟨least, next, pong⟩ := left_tells (ws.stall world now).1 (Nat.le_of_not_le due) early
      exact ⟨waits rfl least, fun _ => ⟨next, pong⟩⟩

-- What a link is closed for has been so for as long as it takes, and it looks again before that can be.
theorem link_closed (reached : Reached link) (later : link.now ≤ time) (opened : link.world.output.shut = false) (reads : Bool)
    (answers : Answers) :
    ((ping link.ws link.world time reads answers).2.2 = .expired (some .stalled) →
      ∃ since, since + stallWithin ≤ time ∧ Throughout link.past since (Stuck link.world.wire)) ∧
    ((ping link.ws link.world time reads answers).2.2 = .expired (some .pingTimeout) →
      reads = true ∧ Outstanding link.past ∧
        ∃ sent, sent + pongWithin ≤ time ∧ Throughout link.past sent (Silent link.world.wire)) ∧
    (∀ left, (ping link.ws link.world time reads answers).2.2 = .after left →
      (∀ since, (ping link.ws link.world time reads answers).1.blocked = some since → time + left ≤ since + stallWithin) ∧
        ((ping link.ws link.world time reads answers).2.1.life = .opened →
          time + left ≤ (ping link.ws link.world time reads answers).1.nextPing ∧
            (reads = true → ∀ sent, (ping link.ws link.world time reads answers).1.ping = some (.pong sent) →
              time + left ≤ sent + pongWithin))) := by
  have watched := reached_watched reached
  have tells := ping_tells link.ws link.world time reads answers
  unfold Tells at tells
  refine ⟨?_, ?_, ?_⟩
  · intro stalled
    rw [stalled] at tells
    obtain ⟨since, blocked, zero⟩ := stall_left tells
    exact ⟨since, by omega, watched.looked later opened blocked⟩
  · intro timeout
    rw [timeout] at tells
    obtain ⟨_, on, overdue⟩ := tells
    unfold Ws.overdue at overdue
    split at overdue
    next sent awaited =>
      have late : pongWithin ≤ time - sent := of_decide_eq_true overdue
      obtain ⟨_, some_, now | silent⟩ := watched.awaits opened awaited
      · subst now
        simp [pongWithin] at late
      · refine ⟨on, watched.asked some_, sent, ?_, silent⟩
        have positive : 0 < pongWithin := by decide
        omega
    next => cases overdue
  · intro left after
    rw [after] at tells
    exact tells

-- A link whose output waits: three bytes are sent to a socket that takes none.
def waitingLink : Link := (Link.begin_ 0 (World.run 8 [])).step 25000 (.output (.send [1, 2, 3] ⟨true, none⟩ [⟨none, some 0⟩]))

def looking : Answers := ⟨some ([0x89, 0], ⟨true, none⟩), [⟨none, some 1⟩], [], []⟩

theorem waitingLink_after :
    (ping waitingLink.ws waitingLink.world 25000 true looking).1.blocked = some 25000 ∧ 25000 + 5000 ≤ 25000 + stallWithin := by
  have reached : Reached waitingLink := by
    refine .stepped 25000 _ (.begun 0 8 [] (by decide)) ⟨by decide, by decide, nofun, nofun⟩
  have waits : (ping waitingLink.ws waitingLink.world 25000 true looking).1.blocked = some 25000 := by decide
  exact ⟨waits, ((link_closed reached (Nat.le_refl 25000) rfl true looking).2.2 5000 (by decide)).1 25000 waits⟩

-- The socket takes a byte of what waits when a ping is sent, five seconds before the link is closed as stalled.
theorem flushed_stalled :
    let link := (waitingLink.step 25000 (.ping true looking)).step 30000 (.ping true looking)
    (ping link.ws link.world 35000 true looking).2.2 = .expired (some .stalled) ∧
      ¬ ∃ since, since + stallWithin ≤ 35000 ∧ Throughout link.past since (Stuck link.world.wire) := by
  intro link
  refine ⟨by decide, ?_⟩
  rintro ⟨since, ago, recent, first, older, past, early, stuck⟩
  have late : ∀ moment ∈ link.past, moment.world.wire = link.world.wire → moment.time = 30000 := by decide
  have there : first ∈ link.past := by simp [past]
  have time := late first there (stuck first (by simp)).2
  simp only [stallWithin] at ago
  omega

end Kido.Sending
