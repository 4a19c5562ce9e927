import Kido.Inbox.Queue
import Kido.Shared.Run
import Mathlib.Data.List.Nodup
import Mathlib.Algebra.BigOperators.Group.List.Basic
import Mathlib.Algebra.Order.Ring.Nat

set_option autoImplicit false

namespace Kido.Mailing

open Kido.Tiling Kido.Shared

section Splits

variable {α : Type}

theorem split_of_findIdx? {pick : α → Bool} {items : List α} {index : Nat}
    (found : items.findIdx? pick = some index) :
    ∃ before item after, items = before ++ item :: after ∧ before.length = index ∧ pick item = true ∧
      ∀ earlier ∈ before, pick earlier = false := by
  induction items generalizing index with
  | nil => cases found
  | cons first rest ih =>
    rw [List.findIdx?_cons] at found
    by_cases here : pick first = true
    · rw [if_pos here] at found
      cases found
      exact ⟨[], first, rest, rfl, rfl, here, fun _ member => by cases member⟩
    · rw [if_neg here] at found
      obtain ⟨later, foundLater, rfl⟩ := Option.map_eq_some_iff.1 found
      obtain ⟨before, item, after, rfl, rfl, picked, earlier⟩ := ih foundLater
      refine ⟨first :: before, item, after, rfl, rfl, picked, ?_⟩
      intro other member
      rcases List.mem_cons.1 member with rfl | member
      · simpa using here
      · exact earlier other member

theorem getElem?_middle (before after : List α) (item : α) :
    (before ++ item :: after)[before.length]? = some item := by simp

theorem set_middle (before after : List α) (item other : α) :
    (before ++ item :: after).set before.length other = before ++ other :: after := by simp

theorem eraseIdx_middle (before after : List α) (item : α) :
    (before ++ item :: after).eraseIdx before.length = before ++ after := by
  rw [List.eraseIdx_append_of_length_le (Nat.le_refl _)]
  simp

end Splits

variable {Id Token : Type}

namespace Inbox

def queued (inbox : Inbox Id Token) : List (Message Id) := inbox.fifo.map Entry.frame

theorem nextWrite_cases (inbox : Inbox Id Token) :
    (inbox.nextWrite = (none, inbox) ∧ (inbox.stream = none ∨ (∀ entry ∈ inbox.fifo, entry.isOut = true) ∨
      ∃ before after, inbox.fifo = before ++ after ∧ window ≤ before.length ∧
        ∀ entry ∈ before, entry.isOut = true)) ∨
    ∃ before entry after, inbox.stream ≠ none ∧ inbox.fifo = before ++ entry :: after ∧ before.length < window ∧
      entry.isOut = false ∧ (∀ earlier ∈ before, earlier.isOut = true) ∧
      inbox.nextWrite =
        (some entry.frame, { inbox with fifo := before ++ { entry with place := .out } :: after }) := by
  unfold nextWrite
  cases stream : inbox.stream with
  | none => exact .inl ⟨rfl, .inl rfl⟩
  | some token =>
    cases found : inbox.fifo.findIdx? fun entry => !entry.isOut with
    | none =>
      rw [List.findIdx?_eq_none_iff] at found
      exact .inl ⟨rfl, .inr (.inl fun entry member => by simpa using found entry member)⟩
    | some head =>
      obtain ⟨before, entry, after, split, rfl, fresh, outs⟩ := split_of_findIdx? found
      have outs : ∀ earlier ∈ before, earlier.isOut = true := fun earlier member => by
        simpa using outs earlier member
      by_cases full : window ≤ before.length
      · exact .inl ⟨if_pos full, .inr (.inr ⟨before, _, split, full, outs⟩)⟩
      · refine .inr ⟨before, entry, after, by simp, split, by omega, by simpa using fresh, outs, ?_⟩
        simp only [if_neg full, split, getElem?_middle, set_middle]

theorem settle_cases [DecidableEq Id] (inbox : Inbox Id Token) (id : Id) (outcome : Outcome) :
    inbox.settle id outcome = (none, inbox) ∨
    ∃ before entry after, inbox.fifo = before ++ entry :: after ∧ inbox.known id = some (.pending entry.seq) ∧
      entry.place ≠ .fresh ∧
      inbox.settle id outcome = (some entry.seq, forget { inbox with
        fifo := before ++ after
        bytes := inbox.bytes - entry.size
        known := Function.update inbox.known id (some (.settled outcome entry.seq))
        settled := inbox.settled ++ [id] }) := by
  unfold settle atSeq
  split
  next seq pending =>
    cases found : inbox.fifo.findIdx? fun entry => decide (entry.seq = seq) with
    | none => exact .inl rfl
    | some index =>
      obtain ⟨before, entry, after, split, rfl, numbered, -⟩ := split_of_findIdx? found
      obtain rfl : entry.seq = seq := of_decide_eq_true numbered
      by_cases fresh : entry.place = .fresh
      · left
        simp only [split, getElem?_middle, if_pos fresh]
      · refine .inr ⟨before, entry, after, split, pending, fresh, ?_⟩
        simp only [split, getElem?_middle, if_neg fresh, eraseIdx_middle]
  next => exact .inl rfl

-- What does not depend on the places of the entries.
structure Books (inbox : Inbox Id Token) : Prop where
  framed : ∀ entry ∈ inbox.fifo, entry.seq = entry.frame.seq ∧ entry.size = size entry.frame.content
  ordered : inbox.queued.Pairwise fun first second => first.seq < second.seq
  below : ∀ message ∈ inbox.queued, message.seq ≤ inbox.last.value
  bytes : inbox.bytes = (inbox.queued.map fun message => size message.content).sum
  bytesCap : inbox.bytes ≤ capBytes
  countCap : inbox.queued.length ≤ capMessages
  pending : ∀ id seq, inbox.known id = some (.pending seq) ↔
    ∃ message ∈ inbox.queued, message.seq = seq ∧ message.id = id
  settledOnce : inbox.settled.Nodup
  settledKnown : ∀ id, id ∈ inbox.settled ↔ ∃ outcome seq, inbox.known id = some (.settled outcome seq)

-- The written entries come first, and only an open stream has any.
structure Places (inbox : Inbox Id Token) : Prop where
  outFirst : inbox.fifo.Pairwise fun first second => second.isOut = true → first.isOut = true
  outs : inbox.fifo.countP Entry.isOut ≤ window
  streaming : inbox.stream = none → ∀ entry ∈ inbox.fifo, entry.isOut = false

theorem default_books : (default : Inbox Id Token).Books where
  framed := fun _ member => by cases member
  ordered := List.Pairwise.nil
  below := fun _ member => by cases member
  bytes := rfl
  bytesCap := Nat.zero_le _
  countCap := Nat.zero_le _
  pending := by simp [default, queued]
  settledOnce := List.nodup_nil
  settledKnown := by simp [default]

theorem default_places : (default : Inbox Id Token).Places where
  outFirst := List.Pairwise.nil
  outs := Nat.zero_le _
  streaming := fun _ _ member => by cases member

theorem clear_books (inbox : Inbox Id Token) : inbox.clear.2.Books :=
  { (default_books : (default : Inbox Id Token).Books) with below := fun _ member => by cases member }

theorem clear_places (inbox : Inbox Id Token) : inbox.clear.2.Places :=
  { (default_places : (default : Inbox Id Token).Places) with }

theorem openStream_books {inbox : Inbox Id Token} (books : inbox.Books) (stream : Token) :
    (inbox.openStream stream).2.Books := by
  unfold openStream
  split
  · exact { books with }
  · exact books

theorem openStream_places {inbox : Inbox Id Token} (places : inbox.Places) (stream : Token) :
    (inbox.openStream stream).2.Places := by
  unfold openStream
  split
  · exact { places with streaming := fun closed => by cases closed }
  · exact places

theorem Places.rest_back {inbox : Inbox Id Token} (places : inbox.Places) :
    ∀ entry ∈ inbox.fifo.dropWhile Entry.isOut, entry.isOut = false := by
  have first := places.outFirst
  revert first
  induction inbox.fifo with
  | nil => simp
  | cons front rest ih =>
    intro ordered entry member
    obtain ⟨front_first, rest_ordered⟩ := List.pairwise_cons.1 ordered
    by_cases out : front.isOut = true
    · rw [List.dropWhile_cons_of_pos out] at member
      exact ih rest_ordered entry member
    · rw [List.dropWhile_cons_of_neg out] at member
      rcases List.mem_cons.1 member with rfl | member
      · simpa using out
      · exact Bool.eq_false_iff.2 fun other => out (front_first entry member other)

theorem openStream_counts (inbox : Inbox Id Token) (stream : Token) :
    (inbox.openStream stream).2.last = inbox.last ∧ (inbox.openStream stream).2.settled = inbox.settled := by
  unfold openStream
  cases inbox.stream <;> exact ⟨rfl, rfl⟩

section Close

variable [DecidableEq Token]

theorem close_cases (inbox : Inbox Id Token) (stream : Token) :
    inbox.close stream = (false, inbox) ∨ ∃ fifo, inbox.stream = some stream ∧
      inbox.close stream = (true, { inbox with stream := none, fifo := fifo }) ∧
      fifo.map Entry.frame = inbox.queued ∧
      (∀ entry ∈ fifo, ∃ before ∈ inbox.fifo, entry.seq = before.seq ∧ entry.frame = before.frame ∧
        entry.size = before.size) ∧
      (inbox.Places → ∀ entry ∈ fifo, entry.isOut = false) := by
  by_cases ours : inbox.stream = some stream
  · right
    refine ⟨_, ours, if_pos ours, ?_, ?_, ?_⟩
    · calc _ = (inbox.fifo.takeWhile Entry.isOut ++ inbox.fifo.dropWhile Entry.isOut).map Entry.frame := by
            rw [List.map_append, List.map_append, List.map_map]
            rfl
        _ = inbox.queued := by rw [List.takeWhile_append_dropWhile, queued]
    · intro entry member
      rcases List.mem_append.1 member with member | member
      · obtain ⟨before, taken, rfl⟩ := List.mem_map.1 member
        exact ⟨before, (List.takeWhile_sublist _).subset taken, rfl, rfl, rfl⟩
      · exact ⟨entry, (List.dropWhile_sublist _).subset member, rfl, rfl, rfl⟩
    · intro places entry member
      rcases List.mem_append.1 member with member | member
      · obtain ⟨before, taken, rfl⟩ := List.mem_map.1 member
        rfl
      · exact places.rest_back entry member
  · exact .inl (if_neg ours)

theorem close_counts (inbox : Inbox Id Token) (stream : Token) :
    (inbox.close stream).2.last = inbox.last ∧ (inbox.close stream).2.settled = inbox.settled := by
  unfold close
  split <;> exact ⟨rfl, rfl⟩

theorem close_books {inbox : Inbox Id Token} (books : inbox.Books) (stream : Token) :
    (inbox.close stream).2.Books := by
  rcases inbox.close_cases stream with same | ⟨fifo, -, closed, frames, entries, -⟩
  · rw [same]
    exact books
  · rw [closed]
    have queue : ({ inbox with stream := none, fifo := fifo } : Inbox Id Token).queued = inbox.queued := frames
    refine { books with framed := ?_, ordered := ?_, below := ?_, bytes := ?_, countCap := ?_, pending := ?_ }
    · intro entry member
      obtain ⟨before, old, seq, frame, size⟩ := entries entry member
      rw [seq, frame, size]
      exact books.framed before old
    all_goals rw [queue]
    · exact books.ordered
    · exact books.below
    · exact books.bytes
    · exact books.countCap
    · exact books.pending

theorem close_places {inbox : Inbox Id Token} (places : inbox.Places) (stream : Token) :
    (inbox.close stream).2.Places := by
  rcases inbox.close_cases stream with same | ⟨fifo, -, closed, -, -, back⟩
  · rw [same]
    exact places
  · rw [closed]
    have back := back places
    refine ⟨?_, ?_, fun _ => back⟩
    · exact List.pairwise_of_forall_mem_list fun _ _ second member out => by simp [back second member] at out
    · have none_out : fifo.countP Entry.isOut = 0 :=
        List.countP_eq_zero.2 fun entry member => by simp [back entry member]
      exact none_out.trans_le (Nat.zero_le _)

end Close

theorem queued_middle {inbox : Inbox Id Token} {before after : List (Entry Id)} {entry : Entry Id}
    (split : inbox.fifo = before ++ entry :: after) :
    inbox.queued = before.map Entry.frame ++ entry.frame :: after.map Entry.frame := by
  rw [queued, split]
  simp

theorem nextWrite_counts (inbox : Inbox Id Token) :
    inbox.nextWrite.2.last = inbox.last ∧ inbox.nextWrite.2.settled = inbox.settled := by
  rcases inbox.nextWrite_cases with ⟨same, -⟩ | ⟨before, entry, after, -, -, -, -, -, wrote⟩
  · rw [same]
    exact ⟨rfl, rfl⟩
  · rw [wrote]
    exact ⟨rfl, rfl⟩

theorem nextWrite_books {inbox : Inbox Id Token} (books : inbox.Books) : inbox.nextWrite.2.Books := by
  rcases inbox.nextWrite_cases with ⟨same, -⟩ | ⟨before, entry, after, -, split, -, -, -, wrote⟩
  · rw [same]
    exact books
  · rw [wrote]
    have queue : ({ inbox with fifo := before ++ { entry with place := .out } :: after } : Inbox Id Token).queued =
        inbox.queued := by
      rw [queued_middle split, queued]
      simp
    refine { books with framed := ?_, ordered := ?_, below := ?_, bytes := ?_, countCap := ?_, pending := ?_ }
    · intro other member
      have framed := books.framed
      rw [split] at framed
      rcases List.mem_append.1 member with member | member
      · exact framed other (List.mem_append_left _ member)
      · rcases List.mem_cons.1 member with rfl | member
        · exact framed entry (by simp)
        · exact framed other (List.mem_append_right _ (List.mem_cons_of_mem _ member))
    all_goals rw [queue]
    · exact books.ordered
    · exact books.below
    · exact books.bytes
    · exact books.countCap
    · exact books.pending

theorem nextWrite_places {inbox : Inbox Id Token} (places : inbox.Places) : inbox.nextWrite.2.Places := by
  rcases inbox.nextWrite_cases with ⟨same, -⟩ | ⟨before, entry, after, streams, split, room, back, outs, wrote⟩
  · rw [same]
    exact places
  · rw [wrote]
    have first := places.outFirst
    rw [split, List.pairwise_append, List.pairwise_cons] at first
    obtain ⟨-, ⟨entry_first, -⟩, -⟩ := first
    -- nothing behind an entry that is not out is out
    have rest : ∀ later ∈ after, later.isOut = false := fun later member =>
      Bool.eq_false_iff.2 fun out => by simp [entry_first later member out] at back
    refine ⟨?_, ?_, fun closed => absurd closed streams⟩
    · refine List.pairwise_append.2 ⟨?_, List.pairwise_cons.2 ⟨fun _ _ _ => rfl, ?_⟩, fun early member _ _ _ => outs early member⟩
      · exact List.pairwise_of_forall_mem_list fun early member _ _ _ => outs early member
      · exact List.pairwise_of_forall_mem_list fun _ _ later member out => by simp [rest later member] at out
    · have all_before : before.countP Entry.isOut = before.length := List.countP_eq_length.2 outs
      have none_after : after.countP Entry.isOut = 0 := List.countP_eq_zero.2 fun later member => by simp [rest later member]
      have written : ({ entry with place := .out } : Entry Id).isOut = true := rfl
      simp only [List.countP_append, List.countP_cons, all_before, none_after, written]
      simp only [↓reduceIte]
      omega

theorem Books.seen_none {inbox : Inbox Id Token} (books : inbox.Books) {id : Id} (unseen : inbox.seen id = none) :
    inbox.known id = none := by
  unfold seen at unseen
  cases known : inbox.known id with
  | none => rfl
  | some kind =>
    rw [known] at unseen
    cases kind with
    | settled outcome seq => cases unseen
    | pending seq =>
      exfalso
      -- the entry of a pending id is in the queue, so the search finds it
      obtain ⟨message, member, numbered, -⟩ := (books.pending id seq).1 known
      obtain ⟨entry, queued, rfl⟩ := List.mem_map.1 member
      have missing : inbox.atSeq seq = none := by
        cases found : inbox.atSeq seq with
        | none => rfl
        | some index =>
          obtain ⟨before, other, after, split, rfl, -, -⟩ := split_of_findIdx? found
          simp [found, split] at unseen
      have other := List.findIdx?_eq_none_iff.1 missing entry queued
      simp [(books.framed entry queued).1, numbered] at other

theorem Books.seq_inj {inbox : Inbox Id Token} (books : inbox.Books) {first second : Message Id}
    (one : first ∈ inbox.queued) (two : second ∈ inbox.queued) (same : first.seq = second.seq) : first = second := by
  have once : (inbox.queued.map Message.seq).Nodup :=
    List.pairwise_map.2 (books.ordered.imp fun less => Nat.ne_of_lt less)
  exact List.inj_on_of_nodup_map once one two same

theorem Books.id_inj {inbox : Inbox Id Token} (books : inbox.Books) {first second : Message Id}
    (one : first ∈ inbox.queued) (two : second ∈ inbox.queued) (same : first.id = second.id) : first = second := by
  have known_first := (books.pending _ _).2 ⟨first, one, rfl, rfl⟩
  have known_second := (books.pending _ _).2 ⟨second, two, rfl, rfl⟩
  rw [same, known_second] at known_first
  exact books.seq_inj one two (Known.pending.inj (Option.some.inj known_first)).symm

theorem Books.mem_rest {inbox : Inbox Id Token} (books : inbox.Books) {before after : List (Entry Id)}
    {entry : Entry Id} (split : inbox.fifo = before ++ entry :: after) (message : Message Id) :
    message ∈ (before ++ after).map Entry.frame ↔ message ∈ inbox.queued ∧ message ≠ entry.frame := by
  have once : inbox.queued.Nodup := books.ordered.imp fun less same => absurd (congrArg Message.seq same) (Nat.ne_of_lt less)
  rw [queued_middle split] at once ⊢
  have apart := List.nodup_middle.1 once
  rw [List.nodup_cons, ← List.map_append] at apart
  rw [List.mem_append, List.mem_cons, List.map_append, List.mem_append]
  constructor
  · intro member
    refine ⟨member.imp_right .inr, ?_⟩
    rintro rfl
    rw [List.map_append, List.mem_append] at apart
    exact apart.1 member
  · rintro ⟨member, other⟩
    exact member.imp_right fun member => member.resolve_left other

section Ids

variable [DecidableEq Id]

def admitted (inbox : Inbox Id Token) (id : Id) (sender : Sender) (relation : Option Relation) (content : Content) :
    Message Id := ⟨inbox.last.bump.value, id, sender, relation, content⟩

def taken (inbox : Inbox Id Token) (message : Message Id) : Inbox Id Token :=
  { inbox with
    last := inbox.last.bump
    bytes := saturatingAdd inbox.bytes (size message.content)
    known := Function.update inbox.known message.id (some (.pending message.seq))
    fifo := inbox.fifo ++ [⟨message.seq, message, size message.content, .fresh⟩] }

theorem admit_cases (inbox : Inbox Id Token) (id : Id) (sender : Sender) (relation : Option Relation)
    (content : Content) :
    (∃ seen, inbox.seen id = some seen ∧ inbox.admitMessage id sender relation content = (.repeated seen, inbox)) ∨
    inbox.seen id = none ∧ inbox.admitMessage id sender relation content = (.full, inbox) ∨
    inbox.seen id = none ∧ inbox.fifo.length < capMessages ∧
      saturatingAdd inbox.bytes (size content) ≤ capBytes ∧
      inbox.admitMessage id sender relation content =
        (.new inbox.last.bump.value, inbox.taken (inbox.admitted id sender relation content)) := by
  unfold admitMessage
  cases seen : inbox.seen id with
  | some status => exact .inl ⟨status, rfl, rfl⟩
  | none =>
    right
    by_cases beyond : capMessages ≤ inbox.fifo.length ∨ capBytes < saturatingAdd inbox.bytes (size content)
    · exact .inl ⟨rfl, if_pos beyond⟩
    · have within := not_or.1 beyond
      exact .inr ⟨rfl, by omega, by omega, if_neg beyond⟩

theorem admit_new {inbox : Inbox Id Token} {id : Id} (unknown : inbox.known id = none) (sender : Sender)
    (relation : Option Relation) {content : Content} (count : inbox.fifo.length < capMessages)
    (cap : saturatingAdd inbox.bytes (size content) ≤ capBytes) :
    inbox.admitMessage id sender relation content =
      (.new inbox.last.bump.value, inbox.taken (inbox.admitted id sender relation content)) := by
  have unseen : inbox.seen id = none := by
    unfold seen
    rw [unknown]
  unfold admitMessage
  rw [unseen]
  exact if_neg (by omega)

theorem taken_queued (inbox : Inbox Id Token) (message : Message Id) :
    (inbox.taken message).queued = inbox.queued ++ [message] := by
  simp [queued, taken]

theorem taken_books {inbox : Inbox Id Token} (books : inbox.Books) {message : Message Id}
    (room : inbox.last.value < u64Max) (numbered : message.seq = inbox.last.bump.value)
    (unknown : inbox.known message.id = none) (count : inbox.fifo.length < capMessages)
    (cap : saturatingAdd inbox.bytes (size message.content) ≤ capBytes) : (inbox.taken message).Books := by
  have next : message.seq = inbox.last.value + 1 := by
    rw [numbered, Counter.bump_value]
    omega
  have largest : capBytes < u64Max := by decide
  have sum : saturatingAdd inbox.bytes (size message.content) = inbox.bytes + size message.content := by
    unfold saturatingAdd at cap ⊢
    omega
  have queue := inbox.taken_queued message
  constructor
  case framed =>
    intro entry member
    rcases List.mem_append.1 member with member | member
    · exact books.framed entry member
    · cases List.mem_singleton.1 member
      exact ⟨rfl, rfl⟩
  case ordered =>
    rw [queue, List.pairwise_append]
    refine ⟨books.ordered, List.pairwise_singleton _ _, ?_⟩
    intro earlier member last final
    cases List.mem_singleton.1 final
    have below := books.below earlier member
    omega
  case below =>
    intro other member
    rw [queue] at member
    change other.seq ≤ inbox.last.bump.value
    rcases List.mem_append.1 member with member | member
    · exact (books.below other member).trans inbox.last.le_bump
    · cases List.mem_singleton.1 member
      exact numbered.le
  case bytes =>
    rw [queue, List.map_append, List.sum_append, ← books.bytes]
    change saturatingAdd inbox.bytes (size message.content) = _
    rw [sum]
    simp
  case bytesCap => exact cap
  case countCap =>
    rw [queue, List.length_append]
    have same : inbox.queued.length = inbox.fifo.length := List.length_map _
    simp only [List.length_singleton]
    omega
  case pending =>
    intro id seq
    rw [queue]
    change Function.update inbox.known message.id (some (.pending message.seq)) id = _ ↔ _
    by_cases same : id = message.id
    · subst same
      have before : ¬∃ other ∈ inbox.queued, other.seq = seq ∧ other.id = message.id := by
        rw [← books.pending, unknown]
        simp
      simp only [Function.update_self, Option.some.injEq, Known.pending.injEq, List.mem_append, List.mem_singleton]
      constructor
      · rintro rfl
        exact ⟨message, .inr rfl, rfl, rfl⟩
      · rintro ⟨other, member | rfl, numbers, names⟩
        · exact absurd ⟨other, member, numbers, names⟩ before
        · exact numbers
    · rw [Function.update_of_ne same, books.pending]
      simp only [List.mem_append, List.mem_singleton, or_and_right, exists_or, exists_eq_left]
      exact ⟨.inl, fun found => found.resolve_right fun last => same last.2.symm⟩
  case settledOnce => exact books.settledOnce
  case settledKnown =>
    intro id
    rw [show (inbox.taken message).settled = inbox.settled from rfl, books.settledKnown]
    change _ ↔ ∃ outcome seq, Function.update inbox.known message.id (some (.pending message.seq)) id = _
    by_cases same : id = message.id
    · subst same
      simp [unknown]
    · rw [Function.update_of_ne same]

theorem admit_books {inbox : Inbox Id Token} (books : inbox.Books) (id : Id) (sender : Sender)
    (relation : Option Relation) (content : Content)
    (room : ∀ seq, (inbox.admitMessage id sender relation content).1 = .new seq → inbox.last.value < u64Max) :
    (inbox.admitMessage id sender relation content).2.Books := by
  rcases inbox.admit_cases id sender relation content with
    ⟨seen, -, same⟩ | ⟨-, same⟩ | ⟨unseen, count, cap, same⟩
  all_goals rw [same] at room ⊢
  · exact books
  · exact books
  · exact taken_books books (room _ rfl) rfl (books.seen_none unseen) count cap

theorem admit_places {inbox : Inbox Id Token} (places : inbox.Places) (id : Id) (sender : Sender)
    (relation : Option Relation) (content : Content) : (inbox.admitMessage id sender relation content).2.Places := by
  rcases inbox.admit_cases id sender relation content with ⟨seen, -, same⟩ | ⟨-, same⟩ | ⟨-, -, -, same⟩
  all_goals rw [same]
  · exact places
  · exact places
  · have fresh : ∀ entry : Entry Id, entry.place = .fresh → entry.isOut = false := by
      intro entry place
      simp [Entry.isOut, place]
    refine ⟨?_, ?_, ?_⟩
    · refine List.pairwise_append.2 ⟨places.outFirst, List.pairwise_singleton _ _, ?_⟩
      intro earlier _ last final out
      cases List.mem_singleton.1 final
      simp [fresh] at out
    · have outs := places.outs
      change (inbox.fifo ++ [_]).countP Entry.isOut ≤ window
      simpa [List.countP_append, fresh] using outs
    · intro closed entry member
      rcases List.mem_append.1 member with member | member
      · exact places.streaming closed entry member
      · cases List.mem_singleton.1 member
        exact fresh _ rfl

theorem forget_cases (inbox : Inbox Id Token) :
    inbox.forget = inbox ∧ inbox.settled.length ≤ settledCap ∨
    ∃ oldest settled, inbox.settled = oldest :: settled ∧
      inbox.forget = { inbox with known := Function.update inbox.known oldest none, settled := settled } ∧
      settledCap < inbox.settled.length := by
  unfold forget
  split
  next beyond =>
    cases ids : inbox.settled with
    | nil => simp [ids] at beyond
    | cons oldest settled => exact .inr ⟨oldest, settled, rfl, rfl, ids ▸ beyond⟩
  next within => exact .inl ⟨rfl, by omega⟩

theorem forget_fifo (inbox : Inbox Id Token) : inbox.forget.fifo = inbox.fifo ∧ inbox.forget.stream = inbox.stream := by
  rcases inbox.forget_cases with ⟨same, -⟩ | ⟨oldest, settled, -, same, -⟩
  all_goals
    rw [same]
    exact ⟨rfl, rfl⟩

theorem forget_last (inbox : Inbox Id Token) : inbox.forget.last = inbox.last := by
  rcases inbox.forget_cases with ⟨same, -⟩ | ⟨oldest, settled, -, same, -⟩
  all_goals rw [same]

theorem forget_books {inbox : Inbox Id Token} (books : inbox.Books) : inbox.forget.Books := by
  rcases inbox.forget_cases with ⟨same, -⟩ | ⟨oldest, settled, ids, same, -⟩
  · rw [same]
    exact books
  · rw [same]
    have once := books.settledOnce
    rw [ids, List.nodup_cons] at once
    obtain ⟨outcome, number, known⟩ := (books.settledKnown oldest).1 (by simp [ids])
    refine { books with pending := ?_, settledOnce := once.2, settledKnown := ?_ }
    · intro id seq
      change Function.update inbox.known oldest none id = _ ↔ ∃ message ∈ inbox.queued, _
      by_cases forgotten : id = oldest
      · rw [← books.pending, forgotten, known]
        simp
      · rw [Function.update_of_ne forgotten, books.pending]
    · intro id
      change id ∈ settled ↔ ∃ outcome seq, Function.update inbox.known oldest none id = _
      by_cases forgotten : id = oldest
      · simp [forgotten, once.1]
      · rw [Function.update_of_ne forgotten, ← books.settledKnown, ids, List.mem_cons]
        exact ⟨.inr, fun member => member.resolve_left forgotten⟩

theorem forget_settled_length {inbox : Inbox Id Token} (length : inbox.settled.length ≤ settledCap + 1) :
    inbox.forget.settled.length ≤ settledCap := by
  rcases inbox.forget_cases with ⟨same, within⟩ | ⟨oldest, settled, ids, same, -⟩
  · rw [same]
    exact within
  · rw [same]
    rw [ids, List.length_cons] at length
    exact Nat.le_of_succ_le_succ length

-- The inbox that has settled the message between the two parts of its queue, before it forgets.
def withdrawn (inbox : Inbox Id Token) (before after : List (Entry Id)) (entry : Entry Id) (outcome : Outcome) :
    Inbox Id Token :=
  { inbox with
    fifo := before ++ after
    bytes := inbox.bytes - entry.size
    known := Function.update inbox.known entry.frame.id (some (.settled outcome entry.seq))
    settled := inbox.settled ++ [entry.frame.id] }

theorem withdrawn_books {inbox : Inbox Id Token} (books : inbox.Books) {before after : List (Entry Id)}
    {entry : Entry Id} (split : inbox.fifo = before ++ entry :: after) (outcome : Outcome) :
    (inbox.withdrawn before after entry outcome).Books := by
  have here : entry ∈ inbox.fifo := by simp [split]
  have queuedHere : entry.frame ∈ inbox.queued := List.mem_map_of_mem here
  have numbered := books.framed entry here
  have known : inbox.known entry.frame.id = some (.pending entry.seq) :=
    (books.pending _ _).2 ⟨entry.frame, queuedHere, numbered.1.symm, rfl⟩
  have rest : ∀ message, message ∈ (inbox.withdrawn before after entry outcome).queued ↔ _ := books.mem_rest split
  have shorter : (inbox.withdrawn before after entry outcome).queued.Sublist inbox.queued := by
    rw [queued_middle split]
    change List.Sublist ((before ++ after).map Entry.frame) _
    rw [List.map_append]
    exact (List.sublist_cons_self _ _).append_left _
  have sum : (inbox.queued.map fun message => size message.content).sum =
      ((inbox.withdrawn before after entry outcome).queued.map fun message => size message.content).sum + entry.size := by
    rw [queued_middle split, numbered.2]
    change _ = (((before ++ after).map Entry.frame).map _).sum + _
    simp only [List.map_append, List.map_cons, List.sum_append, List.sum_cons]
    omega
  have bytes : (inbox.withdrawn before after entry outcome).bytes = inbox.bytes - entry.size := rfl
  constructor
  case framed =>
    intro other member
    refine books.framed other ?_
    rw [split]
    exact ((List.sublist_cons_self _ _).append_left _).subset member
  case ordered => exact books.ordered.sublist shorter
  case below => exact fun message member => books.below message (shorter.subset member)
  case bytes =>
    rw [bytes, books.bytes, sum]
    omega
  case bytesCap =>
    rw [bytes]
    exact (Nat.sub_le _ _).trans books.bytesCap
  case countCap => exact shorter.length_le.trans books.countCap
  case pending =>
    intro id seq
    change Function.update inbox.known entry.frame.id (some (.settled outcome entry.seq)) id = _ ↔ _
    by_cases same : id = entry.frame.id
    · subst same
      simp only [Function.update_self, Option.some.injEq, reduceCtorEq, false_iff]
      rintro ⟨message, member, -, names⟩
      obtain ⟨queued, other⟩ := (rest message).1 member
      exact other (books.id_inj queued queuedHere names)
    · rw [Function.update_of_ne same, books.pending]
      apply exists_congr
      intro message
      rw [rest message]
      constructor
      · rintro ⟨queued, numbers, rfl⟩
        exact ⟨⟨queued, fun one => same (congrArg Message.id one)⟩, numbers, rfl⟩
      · rintro ⟨⟨queued, -⟩, names⟩
        exact ⟨queued, names⟩
  case settledOnce =>
    refine List.nodup_append'.2 ⟨books.settledOnce, List.nodup_singleton _, ?_⟩
    intro id member last
    cases List.mem_singleton.1 last
    obtain ⟨outcome, seq, settled⟩ := (books.settledKnown _).1 member
    rw [known] at settled
    cases settled
  case settledKnown =>
    intro id
    change id ∈ inbox.settled ++ [entry.frame.id] ↔
      ∃ result seq, Function.update inbox.known entry.frame.id (some (.settled outcome entry.seq)) id = _
    rw [List.mem_append, List.mem_singleton, books.settledKnown]
    by_cases same : id = entry.frame.id
    · subst same
      simp
    · rw [Function.update_of_ne same]
      simp [same]

theorem withdrawn_places {inbox : Inbox Id Token} (places : inbox.Places) {before after : List (Entry Id)}
    {entry : Entry Id} (split : inbox.fifo = before ++ entry :: after) (outcome : Outcome) :
    (inbox.withdrawn before after entry outcome).Places := by
  have shorter : (before ++ after).Sublist inbox.fifo := by
    rw [split]
    exact (List.sublist_cons_self _ _).append_left _
  exact ⟨places.outFirst.sublist shorter, (shorter.countP_le).trans places.outs,
    fun closed other member => places.streaming closed other (shorter.subset member)⟩

theorem Books.settle_cases {inbox : Inbox Id Token} (books : inbox.Books) (id : Id) (outcome : Outcome) :
    inbox.settle id outcome = (none, inbox) ∨
    ∃ before entry after, inbox.fifo = before ++ entry :: after ∧ entry.frame.id = id ∧ entry.place ≠ .fresh ∧
      inbox.settle id outcome = (some entry.seq, (inbox.withdrawn before after entry outcome).forget) := by
  rcases inbox.settle_cases id outcome with same | ⟨before, entry, after, split, pending, written, settled⟩
  · exact .inl same
  · have here : entry ∈ inbox.fifo := by simp [split]
    obtain ⟨message, queued, numbers, rfl⟩ := (books.pending id entry.seq).1 pending
    have named : entry.frame = message :=
      books.seq_inj (List.mem_map_of_mem here) queued ((books.framed entry here).1.symm.trans numbers.symm)
    subst named
    exact .inr ⟨before, entry, after, split, rfl, written, settled⟩

theorem settle_books {inbox : Inbox Id Token} (books : inbox.Books) (id : Id) (outcome : Outcome) :
    (inbox.settle id outcome).2.Books := by
  rcases books.settle_cases id outcome with same | ⟨before, entry, after, split, -, -, settled⟩
  · rw [same]
    exact books
  · rw [settled]
    exact forget_books (withdrawn_books books split outcome)

theorem settle_places {inbox : Inbox Id Token} (books : inbox.Books) (places : inbox.Places) (id : Id)
    (outcome : Outcome) : (inbox.settle id outcome).2.Places := by
  rcases books.settle_cases id outcome with same | ⟨before, entry, after, split, -, -, settled⟩
  · rw [same]
    exact places
  · rw [settled]
    have rest := withdrawn_places places split outcome
    obtain ⟨fifo, stream⟩ := (inbox.withdrawn before after entry outcome).forget_fifo
    constructor
    all_goals rw [fifo]
    · exact rest.outFirst
    · exact rest.outs
    · rw [stream]
      exact rest.streaming

theorem settle_last (inbox : Inbox Id Token) (id : Id) (outcome : Outcome) :
    (inbox.settle id outcome).2.last = inbox.last := by
  rcases inbox.settle_cases id outcome with same | ⟨before, entry, after, -, -, -, settled⟩
  · rw [same]
  · rw [settled]
    exact forget_last _

theorem settle_settled_length {inbox : Inbox Id Token} (length : inbox.settled.length ≤ settledCap) (id : Id)
    (outcome : Outcome) : (inbox.settle id outcome).2.settled.length ≤ settledCap := by
  rcases inbox.settle_cases id outcome with same | ⟨before, entry, after, -, -, -, settled⟩
  · rw [same]
    exact length
  · rw [settled]
    apply forget_settled_length
    simpa using length

end Ids

end Inbox

end Kido.Mailing
