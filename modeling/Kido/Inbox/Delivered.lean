import Kido.Inbox.Books

set_option autoImplicit false

namespace Kido.Mailing

open Kido.Tiling Kido.Shared

-- An inbox with the operations that were made on it, the last one first.
structure Life (Id Token : Type) where
  inbox : Inbox Id Token
  events : List (Event Id Token)

def Event.isNew {Id Token : Type} : Event Id Token → Bool
  | .admitted _ _ _ _ (.new _) => true
  | _ => false

structure Inbox.Invariant {Id Token : Type} (inbox : Inbox Id Token) : Prop where
  ordered : inbox.fifo.Pairwise fun first second => first.seq < second.seq
  outPrefix : inbox.fifo.Pairwise fun first second => second.place = .out → first.place = .out
  outs : (inbox.fifo.filter Entry.isOut).length ≤ window
  streaming : inbox.stream = none → ∀ entry ∈ inbox.fifo, entry.place ≠ .out
  bytes : inbox.bytes = (inbox.fifo.map Entry.size).sum
  bytesCap : inbox.bytes ≤ capBytes
  countCap : inbox.fifo.length ≤ capMessages
  pending : ∀ id seq, inbox.known id = some (.pending seq) ↔
    ∃ entry ∈ inbox.fifo, entry.seq = seq ∧ entry.frame.id = id
  pendingOnce : (inbox.fifo.map fun entry => entry.frame.id).Nodup
  settledCap : inbox.settled.length ≤ settledCap
  settledOnce : inbox.settled.Nodup
  settledKnown : ∀ id ∈ inbox.settled, ∃ outcome seq, inbox.known id = some (.settled outcome seq)

theorem Inbox.Books.invariant {Id Token : Type} {inbox : Inbox Id Token} (books : inbox.Books)
    (places : inbox.Places) (length : inbox.settled.length ≤ Mailing.settledCap) : inbox.Invariant where
  ordered := by
    have ordered := List.pairwise_map.1 books.ordered
    refine ordered.imp_of_mem ?_
    intro first second one two less
    rw [(books.framed first one).1, (books.framed second two).1]
    exact less
  outPrefix := places.outFirst.imp fun first out => of_decide_eq_true (first (decide_eq_true out))
  outs := by
    rw [← List.countP_eq_length_filter]
    exact places.outs
  streaming := fun closed entry member => of_decide_eq_false (places.streaming closed entry member)
  bytes := by
    rw [books.bytes, Inbox.queued, List.map_map]
    congr 1
    exact List.map_congr_left fun entry member => ((books.framed entry member).2).symm
  bytesCap := books.bytesCap
  countCap := by
    have count := books.countCap
    rwa [Inbox.queued, List.length_map] at count
  pending := by
    intro id seq
    rw [books.pending, Inbox.queued]
    simp only [List.mem_map, exists_exists_and_eq_and]
    apply exists_congr
    intro entry
    exact and_congr_right fun member => by rw [(books.framed entry member).1]
  pendingOnce := by
    have once : (inbox.queued.map Message.id).Nodup := by
      refine List.Nodup.map_on (fun first one second two => books.id_inj one two) ?_
      exact books.ordered.imp fun less same => absurd (congrArg Message.seq same) (Nat.ne_of_lt less)
    rwa [Inbox.queued, List.map_map] at once
  settledCap := length
  settledOnce := books.settledOnce
  settledKnown := fun id => (books.settledKnown id).1

namespace Life

variable {Id Token : Type}

def start : Life Id Token := ⟨.default, []⟩

def admissions (life : Life Id Token) : Nat := life.events.countP Event.isNew

variable [DecidableEq Id] [DecidableEq Token]

def step (life : Life Id Token) (op : Op Id Token) : Life Id Token :=
  ⟨(life.inbox.perform op).2, (life.inbox.perform op).1 :: life.events⟩

def run (ops : List (Op Id Token)) : Life Id Token := Shared.run step start ops

-- What holds of a life as long as its numbers have not run out.
structure Kept (life : Life Id Token) : Prop where
  books : life.inbox.Books
  places : life.inbox.Places
  settled : life.inbox.settled.length ≤ settledCap
  numbered : life.inbox.last.value = life.admissions

omit [DecidableEq Id] [DecidableEq Token] in
theorem start_kept : (start : Life Id Token).Kept :=
  ⟨Inbox.default_books, Inbox.default_places, Nat.zero_le _, rfl⟩

theorem admissions_step (life : Life Id Token) (op : Op Id Token) :
    (life.step op).admissions = life.admissions + (life.inbox.perform op).1.isNew.toNat := by
  unfold admissions step
  rw [List.countP_cons]
  cases (life.inbox.perform op).1.isNew <;> rfl

theorem Kept.quiet {life : Life Id Token} (kept : life.Kept) {op : Op Id Token}
    (quiet : (life.inbox.perform op).1.isNew = false) (books : (life.step op).inbox.Books)
    (places : (life.step op).inbox.Places)
    (counts : (life.step op).inbox.last = life.inbox.last ∧ (life.step op).inbox.settled = life.inbox.settled) :
    (life.step op).Kept := by
  refine ⟨books, places, ?_, ?_⟩
  · rw [counts.2]
    exact kept.settled
  · rw [counts.1, admissions_step, quiet]
    exact kept.numbered

theorem Kept.step {life : Life Id Token} (kept : life.Kept) (op : Op Id Token)
    (few : (life.step op).admissions ≤ u64Max) : (life.step op).Kept := by
  have numbered := kept.numbered
  cases op with
  | openStream stream =>
    exact kept.quiet rfl (Inbox.openStream_books kept.books stream) (Inbox.openStream_places kept.places stream)
      (life.inbox.openStream_counts stream)
  | close stream =>
    exact kept.quiet rfl (Inbox.close_books kept.books stream) (Inbox.close_places kept.places stream)
      (life.inbox.close_counts stream)
  | clear => exact ⟨life.inbox.clear_books, life.inbox.clear_places, Nat.zero_le _, numbered⟩
  | nextWrite =>
    exact kept.quiet rfl (Inbox.nextWrite_books kept.books) (Inbox.nextWrite_places kept.places)
      life.inbox.nextWrite_counts
  | settle id outcome =>
    refine ⟨Inbox.settle_books kept.books id outcome, Inbox.settle_places kept.books kept.places id outcome,
      Inbox.settle_settled_length kept.settled id outcome, ?_⟩
    change (life.inbox.settle id outcome).2.last.value = _
    rw [Inbox.settle_last, numbered]
    rfl
  | admitMessage id sender relation content =>
    rw [admissions_step] at few
    have count : (life.step (.admitMessage id sender relation content)).admissions = _ := admissions_step life _
    have inbox : (life.step (.admitMessage id sender relation content)).inbox =
        (life.inbox.admitMessage id sender relation content).2 := rfl
    have answer : (life.inbox.perform (.admitMessage id sender relation content)).1 =
        .admitted id sender relation content (life.inbox.admitMessage id sender relation content).1 := rfl
    rw [answer] at few count
    have room : ∀ seq, (life.inbox.admitMessage id sender relation content).1 = .new seq →
        life.inbox.last.value < u64Max := by
      intro seq new
      rw [new] at few
      change life.admissions + 1 ≤ u64Max at few
      omega
    refine ⟨Inbox.admit_books kept.books id sender relation content room,
      Inbox.admit_places kept.places id sender relation content, ?_, ?_⟩
    all_goals rw [inbox]
    · rcases life.inbox.admit_cases id sender relation content with ⟨seen, -, same⟩ | ⟨-, same⟩ | ⟨-, -, -, same⟩
      all_goals
        rw [same]
        exact kept.settled
    · rw [count]
      rcases life.inbox.admit_cases id sender relation content with ⟨seen, -, same⟩ | ⟨-, same⟩ | ⟨-, -, -, same⟩
      all_goals rw [same] at room ⊢
      · exact numbered
      · exact numbered
      · have below := room _ rfl
        change life.inbox.last.bump.value = life.admissions + 1
        rw [Counter.bump_value]
        omega

theorem run_keeps (ops : List (Op Id Token)) (few : (run ops).admissions ≤ u64Max) : (run ops).Kept := by
  induction ops using List.reverseRecOn with
  | nil => exact start_kept
  | append_singleton ops op ih =>
    have last : run (ops ++ [op]) = (run ops).step op := Shared.run_snoc step start ops op
    rw [last] at few ⊢
    refine (ih ?_).step op few
    rw [admissions_step] at few
    omega

end Life

-- The inbox is in order after every run that takes in fewer than 2^64 messages.
theorem inbox_in_order {Id Token : Type} [DecidableEq Id] [DecidableEq Token] (ops : List (Op Id Token)) (few : (Life.run ops).admissions ≤ u64Max) :
    (Life.run ops).inbox.Invariant :=
  have kept := Life.run_keeps ops few
  kept.books.invariant kept.places kept.settled

def letter (id : String) : Op String Nat := .admitMessage id .user none (.message ⟨"x", none⟩)

def letters : List (Op String Nat) :=
  [letter "message-1", .openStream 1, .nextWrite, .settle "message-1" .acked, letter "message-2"]

theorem letters_in_order : (Life.run letters).inbox.Invariant := inbox_in_order letters (by decide)

def spent (count : Nat) : List (Op String Nat) := (List.replicate count [letter "message-1", .clear]).flatten

theorem run_inbox (ops : List (Op String Nat)) (op : Op String Nat) :
    (Life.run (ops ++ [op])).inbox = ((Life.run ops).inbox.perform op).2 := by
  rw [Life.run, Shared.run_snoc]
  rfl

theorem perform_letter (inbox : Inbox String Nat) (id : String) :
    (inbox.perform (letter id)).2 = (inbox.admitMessage id .user none (.message ⟨"x", none⟩)).2 := rfl

theorem admit_cleared (last : Counter) (name : String) :
    let inbox : Inbox String Nat := ⟨none, last, [], 0, fun _ => none, []⟩
    inbox.admitMessage name .user none (.message ⟨"x", none⟩) =
      (.new last.bump.value, inbox.taken (inbox.admitted name .user none (.message ⟨"x", none⟩))) :=
  Inbox.admit_new rfl _ _ (show 0 < capMessages by decide)
    (show saturatingAdd 0 (size (.message ⟨"x", none⟩)) ≤ capBytes by decide)

theorem spent_inbox (count : Nat) :
    (Life.run (spent count)).inbox =
      ⟨none, ⟨min count u64Max, Nat.min_le_right _ _⟩, [], 0, fun _ => none, []⟩ := by
  induction count with
  | zero => rfl
  | succ count ih =>
    have last : spent (count + 1) = (spent count ++ [letter "message-1"]) ++ [.clear] := by
      rw [spent, List.replicate_succ', List.flatten_append]
      simp [spent]
    rw [last, run_inbox, run_inbox, ih, perform_letter, admit_cleared]
    have next : min (min count u64Max + 1) u64Max = min (count + 1) u64Max := by omega
    simp only [Inbox.perform, Inbox.clear, Inbox.taken, Counter.bump, next, Prod.map, id]

def overspent : List (Op String Nat) := (spent (u64Max - 1) ++ [letter "message-1"]) ++ [letter "message-2"]

theorem overspent_seqs : (Life.run overspent).inbox.fifo.map Entry.seq = [u64Max, u64Max] := by
  rw [overspent, run_inbox, run_inbox, spent_inbox, perform_letter, perform_letter, admit_cleared,
    Inbox.admit_new (by decide) _ _ (by decide) (by decide)]
  have first : min (u64Max - 1) u64Max + 1 = u64Max := by decide
  simp only [Inbox.taken, Inbox.admitted, Counter.bump, first]
  simp

theorem numbers_run_out : ¬(Life.run overspent).inbox.Invariant := by
  intro inorder
  have ordered := List.pairwise_map.2 inorder.ordered
  rw [overspent_seqs] at ordered
  simp at ordered

end Kido.Mailing

namespace Kido.Mailing

open Kido.Tiling Kido.Shared

section History

variable {Id Token : Type}

-- The messages that were taken in and neither settled nor cleared since.
def standing : List (Event Id Token) → List (Message Id)
  | [] => []
  | .admitted id sender relation content (.new seq) :: past =>
    standing past ++ [⟨seq, id, sender, relation, content⟩]
  | .settled _ _ (some seq) :: past => (standing past).filter fun message => decide (message.seq ≠ seq)
  | .cleared _ :: _ => []
  | _ :: past => standing past

def streamOf : List (Event Id Token) → Option Token
  | [] => none
  | .opened stream true :: _ => some stream
  | .closed _ true :: _ => none
  | .cleared _ :: _ => none
  | _ :: past => streamOf past

-- The numbers of the messages that were written to the stream that is open.
@[grind =]
def written : List (Event Id Token) → List Nat
  | [] => []
  | .wrote (some message) :: past => message.seq :: written past
  | .opened _ true :: _ => []
  | .closed _ true :: _ => []
  | .cleared _ :: _ => []
  | _ :: past => written past

-- The ids that were settled since the inbox was last cleared, the last one first.
def settledIds : List (Event Id Token) → List Id
  | [] => []
  | .settled id _ (some _) :: past => id :: settledIds past
  | .cleared _ :: _ => []
  | _ :: past => settledIds past

def recent (events : List (Event Id Token)) : List Id := (settledIds events).take settledCap

def numbers : List (Event Id Token) → List Nat
  | [] => []
  | .admitted _ _ _ _ (.new seq) :: past => seq :: numbers past
  | _ :: past => numbers past

def settledNumbers : List (Event Id Token) → List Nat
  | [] => []
  | .settled _ _ (some seq) :: past => seq :: settledNumbers past
  | _ :: past => settledNumbers past

def Fits : Event Id Token → List (Event Id Token) → Prop
  | .admitted id _ _ _ (.new seq), past =>
    (∀ earlier ∈ numbers past, earlier < seq) ∧ (∀ message ∈ standing past, message.id ≠ id) ∧ id ∉ recent past
  | .admitted id _ _ _ (.repeated seen), past =>
    (∃ message ∈ standing past, message.id = id ∧ message.seq = seen.seq) ∨ id ∈ recent past
  | .wrote (some message), past =>
    streamOf past ≠ none ∧ message ∈ standing past ∧ message.seq ∉ written past ∧
      ∀ earlier ∈ standing past, earlier.seq < message.seq → earlier.seq ∈ written past
  | .wrote none, past =>
    streamOf past = none ∨ (∀ message ∈ standing past, message.seq ∈ written past) ∨
      window ≤ ((standing past).filter fun message => decide (message.seq ∈ written past)).length
  | .settled id _ (some seq), past => ∃ message ∈ standing past, message.id = id ∧ message.seq = seq
  | _, _ => True

def Legal : List (Event Id Token) → Prop
  | [] => True
  | event :: past => Fits event past ∧ Legal past

end History

variable {Id Token : Type}

namespace Life

-- How the inbox reflects the operations that were made on it.
structure Mirrors (life : Life Id Token) : Prop where
  queue : life.inbox.queued = standing life.events
  stream : life.inbox.stream = streamOf life.events
  out : ∀ entry ∈ life.inbox.fifo, entry.isOut = true ↔ entry.seq ∈ written life.events
  settled : life.inbox.settled = (recent life.events).reverse
  writtenBelow : ∀ number ∈ written life.events, number ≤ life.inbox.last.value
  numbersBelow : ∀ number ∈ numbers life.events, number ≤ life.inbox.last.value
  settledBelow : ∀ number ∈ settledNumbers life.events, number ≤ life.inbox.last.value
  apart : ∀ message ∈ standing life.events, message.seq ∉ settledNumbers life.events

def Silent (event : Event Id Token) : Prop :=
  ∀ past : List (Event Id Token), standing (event :: past) = standing past ∧ streamOf (event :: past) = streamOf past ∧
    written (event :: past) = written past ∧ settledIds (event :: past) = settledIds past ∧
    numbers (event :: past) = numbers past ∧ settledNumbers (event :: past) = settledNumbers past

theorem start_mirrors : (start : Life Id Token).Mirrors where
  queue := rfl
  stream := rfl
  out := fun _ member => by cases member
  settled := rfl
  writtenBelow := fun _ member => by cases member
  numbersBelow := fun _ member => by cases member
  settledBelow := fun _ member => by cases member
  apart := fun _ member => by cases member

theorem Mirrors.silent {life : Life Id Token} (mirrors : life.Mirrors) {event : Event Id Token}
    (silent : Silent event) : (⟨life.inbox, event :: life.events⟩ : Life Id Token).Mirrors := by
  obtain ⟨standing, stream, written, ids, numbers, settled⟩ := silent life.events
  constructor
  all_goals simp only [recent, standing, stream, written, ids, numbers, settled]
  · exact mirrors.queue
  · exact mirrors.stream
  · exact mirrors.out
  · exact mirrors.settled
  · exact mirrors.writtenBelow
  · exact mirrors.numbersBelow
  · exact mirrors.settledBelow
  · exact mirrors.apart

theorem Mirrors.opened {life : Life Id Token} (mirrors : life.Mirrors) (kept : life.Kept) (stream : Token)
    (free : life.inbox.stream = none) :
    (⟨{ life.inbox with stream := some stream }, .opened stream true :: life.events⟩ : Life Id Token).Mirrors where
  queue := mirrors.queue
  stream := rfl
  out := fun entry member => by simp [kept.places.streaming free entry member, written]
  settled := mirrors.settled
  writtenBelow := fun _ member => by cases member
  numbersBelow := mirrors.numbersBelow
  settledBelow := mirrors.settledBelow
  apart := mirrors.apart

theorem Mirrors.closed {life : Life Id Token} (mirrors : life.Mirrors) (stream : Token) {fifo : List (Entry Id)}
    (frames : fifo.map Entry.frame = life.inbox.queued) (back : ∀ entry ∈ fifo, entry.isOut = false) :
    (⟨{ life.inbox with stream := none, fifo := fifo }, .closed stream true :: life.events⟩ :
      Life Id Token).Mirrors where
  queue := frames.trans mirrors.queue
  stream := rfl
  out := fun entry member => by simp [back entry member, written]
  settled := mirrors.settled
  writtenBelow := fun _ member => by cases member
  numbersBelow := mirrors.numbersBelow
  settledBelow := mirrors.settledBelow
  apart := mirrors.apart

theorem Mirrors.cleared {life : Life Id Token} (mirrors : life.Mirrors) :
    (⟨life.inbox.clear.2, .cleared life.inbox.clear.1 :: life.events⟩ : Life Id Token).Mirrors where
  queue := rfl
  stream := rfl
  out := fun _ member => by cases member
  settled := rfl
  writtenBelow := fun _ member => by cases member
  numbersBelow := mirrors.numbersBelow
  settledBelow := mirrors.settledBelow
  apart := fun _ member => by cases member

theorem filter_middle {before after : List (Message Id)} {message : Message Id}
    (ordered : (before ++ message :: after).Pairwise fun first second => first.seq < second.seq) :
    (before ++ message :: after).filter (fun other => decide (other.seq ≠ message.seq)) = before ++ after := by
  rw [List.pairwise_append, List.pairwise_cons] at ordered
  have early : before.filter (fun other => decide (other.seq ≠ message.seq)) = before := by
    refine List.filter_eq_self.2 fun other member => decide_eq_true (Nat.ne_of_lt ?_)
    exact ordered.2.2 other member message List.mem_cons_self
  have late : after.filter (fun other => decide (other.seq ≠ message.seq)) = after :=
    List.filter_eq_self.2 fun other member => decide_eq_true (Nat.ne_of_gt (ordered.2.1.1 other member))
  rw [List.filter_append, List.filter_cons_of_neg (by simp), early, late]

theorem Mirrors.wrote {life : Life Id Token} (mirrors : life.Mirrors) (kept : life.Kept)
    {before after : List (Entry Id)} {entry : Entry Id} (split : life.inbox.fifo = before ++ entry :: after) :
    (⟨{ life.inbox with fifo := before ++ { entry with place := .out } :: after },
      .wrote (some entry.frame) :: life.events⟩ : Life Id Token).Mirrors := by
  have here : entry ∈ life.inbox.fifo := by simp [split]
  have numbered := (kept.books.framed entry here).1
  constructor
  case queue =>
    rw [show standing (.wrote (some entry.frame) :: life.events) = _ from mirrors.queue.symm,
      Inbox.queued_middle split, Inbox.queued]
    simp
  case stream => exact mirrors.stream
  case out =>
    intro other member
    change _ ↔ other.seq ∈ entry.frame.seq :: written life.events
    rw [← numbered, List.mem_cons]
    have old : other ∈ life.inbox.fifo → other.seq ≠ entry.seq →
        (other.isOut = true ↔ other.seq = entry.seq ∨ other.seq ∈ written life.events) := fun queued apart => by
      rw [mirrors.out other queued]
      simp [apart]
    -- the numbers before and after the entry are not its own
    have ordered := (kept.books.invariant kept.places kept.settled).ordered
    rw [split, List.pairwise_append, List.pairwise_cons] at ordered
    rcases List.mem_append.1 member with member | member
    · exact old (by simp [split, member]) (Nat.ne_of_lt (ordered.2.2 other member entry List.mem_cons_self))
    · rcases List.mem_cons.1 member with rfl | member
      · exact iff_of_true rfl (.inl rfl)
      · exact old (by simp [split, member]) (Nat.ne_of_gt (ordered.2.1.1 other member))
  case settled => exact mirrors.settled
  case writtenBelow =>
    intro number member
    rcases List.mem_cons.1 member with rfl | member
    · exact kept.books.below entry.frame (List.mem_map_of_mem here)
    · exact mirrors.writtenBelow number member
  case numbersBelow => exact mirrors.numbersBelow
  case settledBelow => exact mirrors.settledBelow
  case apart => exact mirrors.apart

theorem Mirrors.known_of {life : Life Id Token} (mirrors : life.Mirrors) (kept : life.Kept) {id : Id}
    (met : (∃ message ∈ standing life.events, message.id = id) ∨ id ∈ recent life.events) :
    life.inbox.known id ≠ none := by
  rcases met with ⟨message, member, named⟩ | settled
  · rw [← mirrors.queue] at member
    rw [(kept.books.pending id message.seq).2 ⟨message, member, rfl, named⟩]
    simp
  · have member : id ∈ life.inbox.settled := by
      rw [mirrors.settled]
      exact List.mem_reverse.2 settled
    obtain ⟨outcome, seq, known⟩ := (kept.books.settledKnown id).1 member
    rw [known]
    simp

theorem Mirrors.seen {life : Life Id Token} (mirrors : life.Mirrors) (kept : life.Kept) {id : Id} {seen : Seen}
    (found : life.inbox.seen id = some seen) :
    (∃ message ∈ standing life.events, message.id = id ∧ message.seq = seen.seq) ∨ id ∈ recent life.events := by
  unfold Inbox.seen at found
  split at found
  next => cases found
  next seq known =>
    obtain ⟨entry, -, rfl⟩ := Option.map_eq_some_iff.1 found
    obtain ⟨message, member, numbered, named⟩ := (kept.books.pending id seq).1 known
    exact .inl ⟨message, mirrors.queue ▸ member, named, numbered⟩
  next outcome seq known =>
    have member := (kept.books.settledKnown id).2 ⟨outcome, seq, known⟩
    rw [mirrors.settled] at member
    exact .inr (List.mem_reverse.1 member)

theorem settledOnce_step {life : Life Id Token} (mirrors : life.Mirrors) {event : Event Id Token}
    (fits : Fits event life.events) (once : (settledNumbers life.events).Nodup) :
    (settledNumbers (event :: life.events)).Nodup := by
  cases event with
  | settled id outcome answer =>
    cases answer with
    | none => exact once
    | some seq =>
      obtain ⟨message, member, -, rfl⟩ := fits
      exact List.nodup_cons.2 ⟨mirrors.apart message member, once⟩
  | _ => exact once

theorem increasing_step {event : Event Id Token} {past : List (Event Id Token)} (fits : Fits event past)
    (increasing : (numbers past).Pairwise fun later earlier => earlier < later) :
    (numbers (event :: past)).Pairwise fun later earlier => earlier < later := by
  cases event with
  | admitted id sender relation content answer =>
    cases answer with
    | new seq => exact List.pairwise_cons.2 ⟨fits.1, increasing⟩
    | _ => exact increasing
  | _ => exact increasing

section Ids

variable [DecidableEq Id]

theorem Mirrors.taken {life : Life Id Token} (mirrors : life.Mirrors) (room : life.inbox.last.value < u64Max)
    (id : Id) (sender : Sender) (relation : Option Relation) (content : Content) :
    (⟨life.inbox.taken (life.inbox.admitted id sender relation content),
      .admitted id sender relation content (.new life.inbox.last.bump.value) :: life.events⟩ :
      Life Id Token).Mirrors := by
  have next : life.inbox.last.bump.value = life.inbox.last.value + 1 := by
    rw [Counter.bump_value]
    omega
  have above : ∀ number, number ≤ life.inbox.last.value → number ≤ life.inbox.last.bump.value := by omega
  constructor
  case queue =>
    rw [Inbox.taken_queued, mirrors.queue]
    rfl
  case stream => exact mirrors.stream
  case out =>
    intro entry member
    rcases List.mem_append.1 member with member | member
    · exact mirrors.out entry member
    · cases List.mem_singleton.1 member
      have unwritten : life.inbox.last.bump.value ∉ written life.events := fun old => by
        have below := mirrors.writtenBelow _ old
        omega
      exact iff_of_false (by simp [Entry.isOut]) unwritten
  case settled => exact mirrors.settled
  case writtenBelow => exact fun number member => above _ (mirrors.writtenBelow number member)
  case numbersBelow =>
    intro number member
    rcases List.mem_cons.1 member with rfl | member
    · exact Nat.le_refl _
    · exact above _ (mirrors.numbersBelow number member)
  case settledBelow => exact fun number member => above _ (mirrors.settledBelow number member)
  case apart =>
    intro message member settled
    rcases List.mem_append.1 member with member | member
    · exact mirrors.apart message member settled
    · cases List.mem_singleton.1 member
      have below := mirrors.settledBelow _ settled
      change life.inbox.last.bump.value ≤ _ at below
      omega

theorem forget_settled {inbox : Inbox Id Token} {id : Id} {ids : List Id}
    (settled : inbox.settled = (ids.take settledCap).reverse ++ [id]) :
    inbox.forget.settled = ((id :: ids).take settledCap).reverse := by
  have cap : settledCap = 4095 + 1 := rfl
  rw [← List.reverse_cons] at settled
  rcases inbox.forget_cases with ⟨same, within⟩ | ⟨oldest, rest, split, same, beyond⟩
  · rw [settled, List.length_reverse, List.length_cons, List.length_take] at within
    rw [same, settled, cap, List.take_succ_cons, List.take_of_length_le (by omega), List.take_of_length_le (by omega)]
  · rw [settled, List.length_reverse, List.length_cons, List.length_take] at beyond
    have full : (id :: ids.take settledCap).length - 1 = settledCap := by
      rw [List.length_cons, List.length_take]
      omega
    calc inbox.forget.settled = inbox.settled.tail := by
          rw [same, split]
          rfl
      _ = (id :: ids.take settledCap).dropLast.reverse := by rw [settled, List.tail_reverse]
      _ = ((id :: ids).take settledCap).reverse := by
          rw [List.dropLast_eq_take, full, cap, List.take_succ_cons, List.take_succ_cons, List.take_take]
          rfl

theorem Mirrors.withdrew {life : Life Id Token} (mirrors : life.Mirrors) (kept : life.Kept)
    {before after : List (Entry Id)} {entry : Entry Id} (split : life.inbox.fifo = before ++ entry :: after)
    (outcome : Outcome) :
    (⟨(life.inbox.withdrawn before after entry outcome).forget,
      .settled entry.frame.id outcome (some entry.seq) :: life.events⟩ : Life Id Token).Mirrors := by
  have here : entry ∈ life.inbox.fifo := by simp [split]
  have numbered := (kept.books.framed entry here).1
  obtain ⟨fifo, stream⟩ := (life.inbox.withdrawn before after entry outcome).forget_fifo
  have last := (life.inbox.withdrawn before after entry outcome).forget_last
  have rest : standing (.settled entry.frame.id outcome (some entry.seq) :: life.events) =
      (before ++ after).map Entry.frame := by
    have ordered := kept.books.ordered
    have queue := mirrors.queue
    rw [Inbox.queued_middle split] at ordered queue
    rw [standing, ← queue, numbered, filter_middle ordered, List.map_append]
  constructor
  case queue =>
    rw [rest, Inbox.queued, fifo]
    rfl
  case stream => exact stream.trans mirrors.stream
  case out =>
    rw [fifo]
    intro other member
    refine mirrors.out other ?_
    rw [split]
    exact ((List.sublist_cons_self _ _).append_left _).subset member
  case settled =>
    apply forget_settled
    change life.inbox.settled ++ [entry.frame.id] = _
    rw [mirrors.settled]
    rfl
  case writtenBelow =>
    rw [last]
    exact mirrors.writtenBelow
  case numbersBelow =>
    rw [last]
    exact mirrors.numbersBelow
  case settledBelow =>
    rw [last]
    intro number member
    rcases List.mem_cons.1 member with rfl | member
    · rw [numbered]
      exact kept.books.below entry.frame (List.mem_map_of_mem here)
    · exact mirrors.settledBelow number member
  case apart =>
    rw [rest]
    intro message member settled
    obtain ⟨queued, other⟩ := (kept.books.mem_rest split message).1 member
    rcases List.mem_cons.1 settled with same | settled
    · exact other (kept.books.seq_inj queued (List.mem_map_of_mem here) (same.trans numbered))
    · exact mirrors.apart message (mirrors.queue ▸ queued) settled

structure Delivers (life : Life Id Token) : Prop where
  queue : life.inbox.fifo.map Entry.frame = standing life.events
  legal : Legal life.events
  settledOnce : (settledNumbers life.events).Nodup
  increasing : (numbers life.events).Pairwise fun later earlier => earlier < later
  noSecond : ∀ id sender relation content,
    ((∃ message ∈ standing life.events, message.id = id) ∨ id ∈ recent life.events) →
      ∃ seen, life.inbox.admitMessage id sender relation content = (.repeated seen, life.inbox)

variable [DecidableEq Token]

-- What one operation adds to the history fits, and the inbox reflects it.
structure Advances (life : Life Id Token) (op : Op Id Token) : Prop where
  fits : Fits (life.inbox.perform op).1 life.events
  mirrors : (life.step op).Mirrors

theorem Advances.of {life : Life Id Token} {op : Op Id Token} {event : Event Id Token} {inbox : Inbox Id Token}
    (performed : life.inbox.perform op = (event, inbox)) (fits : Fits event life.events)
    (mirrors : (⟨inbox, event :: life.events⟩ : Life Id Token).Mirrors) : life.Advances op := by
  constructor
  · rw [performed]
    exact fits
  · rw [step, performed]
    exact mirrors

theorem openStream_advances {life : Life Id Token} (mirrors : life.Mirrors) (kept : life.Kept) (stream : Token) :
    life.Advances (.openStream stream) := by
  cases free : life.inbox.stream with
  | none =>
    have performed : life.inbox.perform (.openStream stream) =
        (.opened stream true, { life.inbox with stream := some stream }) := by
      simp [Inbox.perform, Inbox.openStream, free]
    exact .of performed trivial (mirrors.opened kept stream free)
  | some other =>
    have performed : life.inbox.perform (.openStream stream) = (.opened stream false, life.inbox) := by
      simp [Inbox.perform, Inbox.openStream, free]
    exact .of performed trivial (mirrors.silent fun _ => ⟨rfl, rfl, rfl, rfl, rfl, rfl⟩)

theorem close_advances {life : Life Id Token} (mirrors : life.Mirrors) (kept : life.Kept) (stream : Token) :
    life.Advances (.close stream) := by
  rcases life.inbox.close_cases stream with same | ⟨fifo, -, closed, frames, -, back⟩
  · have performed : life.inbox.perform (.close stream) = (.closed stream false, life.inbox) := by
      simp [Inbox.perform, same]
    exact .of performed trivial (mirrors.silent fun _ => ⟨rfl, rfl, rfl, rfl, rfl, rfl⟩)
  · have performed : life.inbox.perform (.close stream) =
        (.closed stream true, { life.inbox with stream := none, fifo := fifo }) := by
      simp [Inbox.perform, closed]
    exact .of performed trivial (mirrors.closed stream frames (back kept.places))

theorem admit_advances {life : Life Id Token} (mirrors : life.Mirrors) (kept : life.Kept) (id : Id) (sender : Sender)
    (relation : Option Relation) (content : Content)
    (few : (life.step (.admitMessage id sender relation content)).admissions ≤ u64Max) :
    life.Advances (.admitMessage id sender relation content) := by
  rcases life.inbox.admit_cases id sender relation content with
    ⟨seen, found, same⟩ | ⟨-, same⟩ | ⟨unseen, -, -, same⟩
  · have performed : life.inbox.perform (.admitMessage id sender relation content) =
        (.admitted id sender relation content (.repeated seen), life.inbox) := by
      simp [Inbox.perform, same]
    exact .of performed (mirrors.seen kept found) (mirrors.silent fun _ => ⟨rfl, rfl, rfl, rfl, rfl, rfl⟩)
  · have performed : life.inbox.perform (.admitMessage id sender relation content) =
        (.admitted id sender relation content .full, life.inbox) := by
      simp [Inbox.perform, same]
    exact .of performed trivial (mirrors.silent fun _ => ⟨rfl, rfl, rfl, rfl, rfl, rfl⟩)
  · have performed : life.inbox.perform (.admitMessage id sender relation content) =
        (.admitted id sender relation content (.new life.inbox.last.bump.value),
          life.inbox.taken (life.inbox.admitted id sender relation content)) := by
      simp [Inbox.perform, same]
    have room : life.inbox.last.value < u64Max := by
      rw [admissions_step, performed] at few
      change life.admissions + 1 ≤ u64Max at few
      rw [kept.numbered]
      omega
    have unknown := kept.books.seen_none unseen
    refine .of performed ⟨?_, ?_, ?_⟩ (mirrors.taken room id sender relation content)
    · intro earlier member
      have below := mirrors.numbersBelow earlier member
      rw [Counter.bump_value]
      omega
    · exact fun message member named => mirrors.known_of kept (.inl ⟨message, member, named⟩) unknown
    · exact fun settled => mirrors.known_of kept (.inr settled) unknown

theorem nextWrite_advances {life : Life Id Token} (mirrors : life.Mirrors) (kept : life.Kept) :
    life.Advances .nextWrite := by
  have queue := mirrors.queue
  have numbered := kept.books.framed
  have outs : ∀ entry ∈ life.inbox.fifo, entry.isOut = true ↔ entry.frame.seq ∈ written life.events := by
    intro entry member
    rw [mirrors.out entry member, (numbered entry member).1]
  rcases life.inbox.nextWrite_cases with
    ⟨same, reason⟩ | ⟨before, entry, after, streams, split, -, back, first, wrote⟩
  · have performed : life.inbox.perform .nextWrite = (.wrote none, life.inbox) := by
      simp [Inbox.perform, same]
    refine .of performed ?_ (mirrors.silent fun _ => ⟨rfl, rfl, rfl, rfl, rfl, rfl⟩)
    rcases reason with closed | all | ⟨before, after, split, full, first⟩
    · exact .inl (mirrors.stream ▸ closed)
    · refine .inr (.inl ?_)
      intro message member
      rw [← queue] at member
      obtain ⟨entry, queued, rfl⟩ := List.mem_map.1 member
      exact (outs entry queued).1 (all entry queued)
    · refine .inr (.inr ?_)
      have sent : (before.map Entry.frame).filter (fun message => decide (message.seq ∈ written life.events)) =
          before.map Entry.frame := by
        refine List.filter_eq_self.2 fun message member => decide_eq_true ?_
        obtain ⟨entry, early, rfl⟩ := List.mem_map.1 member
        exact (outs entry (by simp [split, early])).1 (first entry early)
      rw [← queue, Inbox.queued, split, List.map_append, List.filter_append, sent, List.length_append, List.length_map]
      omega
  · have here : entry ∈ life.inbox.fifo := by simp [split]
    have performed : life.inbox.perform .nextWrite = (.wrote (some entry.frame),
        { life.inbox with fifo := before ++ { entry with place := .out } :: after }) := by
      simp [Inbox.perform, wrote]
    refine .of performed ⟨mirrors.stream ▸ streams, ?_, ?_, ?_⟩ (mirrors.wrote kept split)
    · exact queue ▸ List.mem_map_of_mem here
    · rw [← outs entry here, back]
      simp
    · intro earlier member less
      rw [← queue] at member
      obtain ⟨other, queued, rfl⟩ := List.mem_map.1 member
      refine (outs other queued).1 ?_
      -- what has a lower number stands before the entry
      have ordered := kept.books.ordered
      rw [Inbox.queued_middle split, List.pairwise_append, List.pairwise_cons] at ordered
      rw [split] at queued
      rcases List.mem_append.1 queued with early | late
      · exact first other early
      · rcases List.mem_cons.1 late with rfl | late
        · omega
        · have later := ordered.2.1.1 other.frame (List.mem_map_of_mem late)
          omega

theorem settle_advances {life : Life Id Token} (mirrors : life.Mirrors) (kept : life.Kept) (id : Id)
    (outcome : Outcome) : life.Advances (.settle id outcome) := by
  rcases kept.books.settle_cases id outcome with same | ⟨before, entry, after, split, rfl, -, settled⟩
  · have performed : life.inbox.perform (.settle id outcome) = (.settled id outcome none, life.inbox) := by
      simp [Inbox.perform, same]
    exact .of performed trivial (mirrors.silent fun _ => ⟨rfl, rfl, rfl, rfl, rfl, rfl⟩)
  · have here : entry ∈ life.inbox.fifo := by simp [split]
    have performed : life.inbox.perform (.settle entry.frame.id outcome) =
        (.settled entry.frame.id outcome (some entry.seq),
          (life.inbox.withdrawn before after entry outcome).forget) := by
      simp [Inbox.perform, settled]
    refine .of performed ⟨entry.frame, ?_, rfl, (kept.books.framed entry here).1.symm⟩
      (mirrors.withdrew kept split outcome)
    exact mirrors.queue ▸ List.mem_map_of_mem here

theorem Mirrors.advances {life : Life Id Token} (mirrors : life.Mirrors) (kept : life.Kept) (op : Op Id Token)
    (few : (life.step op).admissions ≤ u64Max) : life.Advances op := by
  cases op with
  | openStream stream => exact openStream_advances mirrors kept stream
  | close stream => exact close_advances mirrors kept stream
  | clear => exact .of rfl trivial mirrors.cleared
  | admitMessage id sender relation content => exact admit_advances mirrors kept id sender relation content few
  | nextWrite => exact nextWrite_advances mirrors kept
  | settle id outcome => exact settle_advances mirrors kept id outcome

theorem run_mirrors (ops : List (Op Id Token)) (few : (run ops).admissions ≤ u64Max) :
    (run ops).Mirrors ∧ Legal (run ops).events ∧ (settledNumbers (run ops).events).Nodup ∧
      (numbers (run ops).events).Pairwise fun later earlier => earlier < later := by
  induction ops using List.reverseRecOn with
  | nil => exact ⟨start_mirrors, trivial, List.nodup_nil, List.Pairwise.nil⟩
  | append_singleton ops op ih =>
    have last : run (ops ++ [op]) = (run ops).step op := Shared.run_snoc step start ops op
    rw [last] at few ⊢
    have before : (run ops).admissions ≤ u64Max := by
      rw [admissions_step] at few
      omega
    obtain ⟨mirrors, legal, once, increasing⟩ := ih before
    obtain ⟨fits, after⟩ := mirrors.advances (run_keeps ops before) op few
    exact ⟨after, ⟨fits, legal⟩, settledOnce_step mirrors fits once, increasing_step fits increasing⟩

end Ids

end Life

-- Every message is delivered over and over until it is settled, and there is one message of an id.
theorem messages_delivered {Id Token : Type} [DecidableEq Id] [DecidableEq Token] (ops : List (Op Id Token))
    (few : (Life.run ops).admissions ≤ u64Max) : (Life.run ops).Delivers := by
  obtain ⟨mirrors, legal, once, increasing⟩ := Life.run_mirrors ops few
  have kept := Life.run_keeps ops few
  refine ⟨mirrors.queue, legal, once, increasing, ?_⟩
  intro id sender relation content met
  rcases (Life.run ops).inbox.admit_cases id sender relation content with
    ⟨seen, -, same⟩ | ⟨unseen, -⟩ | ⟨unseen, -⟩
  · exact ⟨seen, same⟩
  all_goals exact absurd (kept.books.seen_none unseen) (mirrors.known_of kept met)

theorem letters_delivered : (Life.run letters).Delivers := messages_delivered letters (by decide)

-- A message that is settled, cleared with its inbox and sent again.
def resent : List (Op String Nat) :=
  [letter "message-1", .openStream 1, .nextWrite, .settle "message-1" .acked, .clear, letter "message-1"]

def lettered : Content := .message ⟨"x", none⟩

theorem delivered_twice :
    (Life.run resent).events =
      [.admitted "message-1" .user none lettered (.new 2), .cleared (some 1),
        .settled "message-1" .acked (some 1), .wrote (some ⟨1, "message-1", .user, none, lettered⟩),
        .opened 1 true, .admitted "message-1" .user none lettered (.new 1)] ∧
      (Life.run overspent).inbox.fifo.map Entry.seq = [u64Max, u64Max] := ⟨rfl, overspent_seqs⟩

end Kido.Mailing
