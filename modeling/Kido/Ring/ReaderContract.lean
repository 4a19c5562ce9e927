import Kido.Ring.Reads

set_option autoImplicit false

namespace Kido.Streaming

open Kido.Shared

namespace Reader

variable {ring : Ring} {reader : Reader} {known : Known}

-- The first boundary that lies neither before `pos` nor before `upto`.
structure First (log : Log) (pos upto next : Nat) : Prop where
  boundary : Boundary Rec.size log next
  after : pos ≤ next
  reached : upto ≤ next
  first : ∀ other, Boundary Rec.size log other → pos ≤ other → upto ≤ other → next ≤ other

theorem First.here {log : Log} {pos upto : Nat} (boundary : Boundary Rec.size log pos) (reached : upto ≤ pos) :
    First log pos upto pos := ⟨boundary, Nat.le_refl _, reached, fun _ _ after _ => after⟩

theorem First.step {log : Log} {pos upto next : Nat} {before : Log} {rec : Rec} (here : At Rec.size log pos before rec)
    (short : pos < upto) (rest : First log (pos + rec.size) upto next) : First log pos upto next where
  boundary := rest.boundary
  after := Nat.le_trans (Nat.le_add_right _ _) rest.after
  reached := rest.reached
  first other boundary after reached := rest.first other boundary (here.apart boundary (by omega)) reached

-- The head was loaded: the reader sees more of the log, and the words and the tail are as before.
def Refreshed (ring : Ring) (reader : Reader) (known : Known) (later : Reader) (memory : Memory) : Prop :=
  ∃ log, known.log <+: log ∧ later.tail = reader.tail ∧ View ring later ⟨log, known.read, false⟩ memory

theorem refreshed_stable {later : Reader} : Stable (Wrote ring) (Refreshed ring reader known later) := by
  rintro memory next wrote ⟨log, grown, tail, view⟩
  exact ⟨log, grown, tail, view_stable _ _ wrote view⟩

theorem head_meets : Reads ring (View ring reader known) reader.head (Refreshed ring reader known) := by
  refine Meets.bind Wrote.refl (fun seen => Refreshed ring reader known { reader with seen := seen }) ?_
    fun seen => Meets.ret refreshed_stable fun memory holds => holds
  refine Meets.perform view_stable (fun _ => refreshed_stable) fun memory view => ?_
  have sound : Memory.Sound ring { memory with seen := memory.head, stored := false } :=
    ⟨view.sound.head, view.sound.tail, view.sound.window, view.sound.whole, view.sound.room, view.sound.bound,
      view.sound.holds⟩
  refine ⟨⟨fun _ => sound, rfl, rfl, rfl, Nat.le_refl _, .inr (.inl rfl)⟩, memory.log, view.begun, rfl, ?_⟩
  exact ⟨sound, view.tail, List.prefix_rfl, view.sound.head, view.tail ▸ view.sound.tail, rfl, view.read, rfl⟩

theorem sweep_finds (upto fuel : Nat) (swept : Swept) (after : reader.tail ≤ swept.tail)
    (boundary : Boundary Rec.size known.log swept.tail) (limit : upto ≤ known.log.head)
    (enough : upto - swept.tail ≤ fuel) :
    Finds ring reader known (reader.sweep ring upto fuel swept) fun result =>
      ∃ next, result = some next ∧ First known.log swept.tail upto next.tail := by
  induction fuel generalizing swept with
  | zero => exact .pure ⟨swept, rfl, .here boundary (by omega)⟩
  | succ fuel ih =>
    rw [sweep]
    by_cases short : swept.tail < upto
    · rw [if_pos short]
      obtain ⟨before, rec, here⟩ := boundary.here (Nat.lt_of_lt_of_le short limit)
      refine .bind (header_finds swept.tail) fun header found => ?_
      cases found before rec here after
      have some_ := rec.size_pos
      refine Yields.mono ?_ (ih _ (by simp only [headerOf]; omega) here.next (by simp only [headerOf]; omega))
      rintro _ ⟨next, rfl, first⟩
      exact ⟨next, rfl, .step here short first⟩
    · rw [if_neg short]
      exact .pure ⟨swept, rfl, .here boundary (by omega)⟩

theorem settle_finds (swept : Swept) (after : reader.tail ≤ swept.tail)
    (boundary : Boundary Rec.size known.log swept.tail) :
    Finds ring reader known (reader.settle ring known.log.head swept) fun result =>
      ∃ later, result = some later ∧ later.tail = reader.tail ∧ later.seen = reader.seen := by
  rw [settle]
  by_cases old : reader.settled < swept.tail
  · rw [if_pos old]
    by_cases inside : swept.tail < known.log.head
    · rw [if_pos inside]
      obtain ⟨before, rec, here⟩ := boundary.here inside
      refine .bind (header_finds swept.tail) fun header found => ?_
      cases found before rec here after
      exact .pure ⟨_, rfl, rfl, rfl⟩
    · rw [if_neg inside]
      exact .pure ⟨_, rfl, rfl, rfl⟩
  · rw [if_neg old]
    exact .pure ⟨_, rfl, rfl, rfl⟩

theorem View.of_fields {memory : Memory} {other : Reader} (view : View ring reader known memory)
    (tail : other.tail = reader.tail) (seen : other.seen = reader.seen) : View ring other known memory :=
  ⟨view.sound, view.tail.trans tail.symm, view.begun, seen.trans view.seen, tail ▸ view.boundary,
    view.marked.trans seen.symm, view.read, view.stored⟩

theorem storeTail_meets {later : Reader} {tail : Nat} (after : later.tail ≤ tail)
    (boundary : Boundary Rec.size known.log tail) (evicted : Nat) :
    Reads ring (View ring later known) (Prog.perform (ReaderOp.storeTail tail)) fun _ memory =>
      View ring { later with tail := tail, evicted := evicted } known memory := by
  refine Meets.perform view_stable (fun _ => view_stable) fun memory view => ?_
  have grown := boundary.grow view.begun
  have order : memory.tail ≤ tail := view.tail ▸ after
  refine ⟨⟨fun sound => sound.release grown order, rfl, rfl, rfl, order, .inr (.inr ⟨rfl, rfl, rfl⟩)⟩, ?_⟩
  exact ⟨view.sound.release grown order, rfl, view.begun, view.seen, boundary, view.marked, view.read, view.stored⟩

theorem storeRead_meets (value : Nat) :
    Reads ring (View ring reader known) (Prog.perform (ReaderOp.storeRead value)) fun _ memory =>
      View ring reader ⟨known.log, value, true⟩ memory := by
  refine Meets.perform view_stable (fun _ => view_stable) fun memory view => ?_
  have keeps (sound : memory.Sound ring) : Memory.Sound ring { memory with read := value, stored := true } :=
    ⟨sound.head, sound.tail, sound.window, sound.whole, sound.room, sound.bound, sound.holds⟩
  refine ⟨⟨keeps, rfl, rfl, rfl, Nat.le_refl _, .inl rfl⟩, ?_⟩
  exact ⟨keeps view.sound, view.tail, view.begun, view.seen, view.boundary, view.marked, rfl, rfl⟩

theorem release_meets (swept : Swept) (after : reader.tail ≤ swept.tail)
    (boundary : Boundary Rec.size known.log swept.tail) :
    Reads ring (View ring reader known) (reader.release ring known.log.head swept) fun result memory =>
      ∃ later, result = some later ∧ later.tail = swept.tail ∧ later.seen = reader.seen ∧ View ring later known memory := by
  have keeps (result : Option Reader) : Stable (Wrote ring) fun memory =>
      ∃ later, result = some later ∧ later.tail = swept.tail ∧ later.seen = reader.seen ∧ View ring later known memory := by
    rintro memory next wrote ⟨later, rfl, tail, seen, view⟩
    exact ⟨later, rfl, tail, seen, view_stable _ _ wrote view⟩
  rw [release]
  by_cases moved : reader.tail < swept.tail
  · rw [if_pos moved]
    refine Meets.bind Wrote.refl _ (settle_finds swept after boundary) fun settled => ?_
    rintro memory ⟨view, later, rfl, tail, seen⟩
    refine Meets.bind Wrote.refl _ (storeTail_meets (tail ▸ after) boundary swept.evicted) (fun _ => ?_) memory
      (view.of_fields tail seen)
    exact Meets.ret view_stable fun memory view => ⟨_, rfl, rfl, seen, view⟩
  · rw [if_neg moved]
    refine Meets.ret view_stable fun memory view => ⟨reader, rfl, by omega, rfl, view⟩

theorem retain_le (upper keep : Nat) : retain ring upper keep ≤ upper := by
  simp only [retain, checkedSub]
  split <;> rename_i same
  · exact Nat.zero_le _
  · have above := (Option.ite_none_right_eq_some.mp same).2
    have same := Option.some.inj above
    split <;> omega

-- What an advance to the head that was seen comes to.
structure Advanced (ring : Ring) (reader : Reader) (known : Known) (upper keep : Nat) (later : Reader)
    (memory : Memory) : Prop where
  tail : First known.log reader.tail (retain ring upper keep) later.tail
  seen : later.seen = reader.seen
  view : View ring later ⟨known.log, upper, true⟩ memory

theorem advance_meets (upper keep : Nat) :
    Reads ring (View ring reader known) (reader.advance ring upper keep) fun result memory =>
      (upper ≠ reader.seen → result = (.error .head, reader) ∧ View ring reader known memory) ∧
        (upper = reader.seen → ∃ later, result = (.ok (), later) ∧
          Advanced ring reader known upper keep later memory) := by
  intro start view
  rw [advance]
  by_cases other : upper ≠ reader.seen
  · rw [if_pos other]
    exact Meets.ret view_stable (fun memory view => ⟨fun _ => ⟨rfl, view⟩, fun same => absurd same other⟩) start view
  · rw [if_neg other]
    have same : upper = reader.seen := not_not.mp other
    have head : upper = known.log.head := same.trans view.seen
    have limit : retain ring upper keep ≤ known.log.head := head ▸ retain_le upper keep
    refine Meets.bind Wrote.refl _ (sweep_finds _ _ ⟨reader.tail, 0, reader.evicted⟩ (Nat.le_refl _) view.boundary limit
      (Nat.le_refl _)) (fun swept => ?_) start view
    rintro memory ⟨view, next, rfl, first⟩
    rw [head]
    refine Meets.bind Wrote.refl _ (release_meets next first.after first.boundary) (fun released => ?_) memory view
    rintro memory ⟨later, rfl, tail, seen, view⟩
    refine Meets.bind Wrote.refl _ (storeRead_meets known.log.head) (fun _ => ?_) memory view
    refine Meets.ret view_stable fun memory view => ⟨fun apart => absurd (head ▸ same) apart, fun _ => ?_⟩
    exact ⟨later, rfl, head ▸ tail ▸ first, seen, view⟩

theorem walk_finds (upper fuel settled offset : Nat) :
    Finds ring reader known (reader.walk ring upper fuel settled offset) fun _ => True := by
  induction fuel generalizing settled offset with
  | zero => exact .pure trivial
  | succ fuel ih =>
    rw [walk]
    split
    · refine .bind (header_finds settled) fun header _ => ?_
      cases header with
      | none => exact .pure trivial
      | some header => exact ih _ _
    · exact .pure trivial

theorem seek_finds (target upper fuel pos : Nat) :
    Finds ring reader known (reader.seek ring target upper fuel pos) fun _ => True := by
  induction fuel generalizing pos with
  | zero => exact .pure trivial
  | succ fuel ih =>
    rw [seek]
    split
    · refine .bind (header_finds pos) fun header _ => ?_
      cases header with
      | none => exact .pure trivial
      | some header =>
        by_cases old : header.replayed target
        · simpa only [if_pos old] using ih header.next
        · simpa only [if_neg old] using Finds.pure trivial
    · exact .pure trivial

section Refreshed

variable {later : Reader} {memory : Memory}

theorem refreshed_bind {α β : Type} {prog : Reading α} {rest : α → Reading (β × Reader)}
    (refreshed : Refreshed ring reader known later memory)
    (finds : ∀ log, Finds ring later ⟨log, known.read, false⟩ prog fun _ => True)
    (returns : ∀ value, ∃ reply other, rest value = pure (reply, other) ∧ other.tail = later.tail ∧
      other.seen = later.seen) :
    Safe ReaderOp.exec (Wrote ring) (Consumed ring) (prog >>= rest) (fun value => Refreshed ring reader known value.2)
      memory := by
  obtain ⟨log, grown, same, view⟩ := refreshed
  refine Meets.bind Wrote.refl _ (finds log) (fun value => ?_) memory view
  obtain ⟨reply, other, returned, tail, seen⟩ := returns value
  rw [returned]
  refine Meets.ret (view_stable.and (.const _)) ?_
  rintro memory ⟨view, -⟩
  exact ⟨log, grown, tail.trans same, view.of_fields tail seen⟩

theorem endOffset_meets : Reads ring (View ring reader known) (reader.endOffset ring) fun value =>
    Refreshed ring reader known value.2 := by
  refine Meets.bind Wrote.refl _ head_meets fun later memory refreshed => ?_
  refine refreshed_bind refreshed (fun log => walk_finds _ _ _ _) fun found => ?_
  cases found with
  | none => exact ⟨_, later, rfl, rfl, rfl⟩
  | some found => exact ⟨_, _, rfl, rfl, rfl⟩

theorem resume_meets (target : Nat) : Reads ring (View ring reader known) (reader.resume ring target) fun value =>
    Refreshed ring reader known value.2 := by
  refine Meets.bind Wrote.refl _ head_meets fun later memory refreshed => ?_
  refine refreshed_bind refreshed (fun log => seek_finds _ _ _ _) fun found => ?_
  cases found with
  | none => exact ⟨_, later, rfl, rfl, rfl⟩
  | some found => exact ⟨_, _, rfl, rfl, rfl⟩

theorem oldestOffset_meets : Reads ring (View ring reader known) (reader.oldestOffset ring) fun value =>
    Refreshed ring reader known value.2 := by
  refine Meets.bind Wrote.refl _ head_meets fun later memory refreshed => ?_
  by_cases some_ : later.tail < later.seen
  · rw [if_pos some_]
    refine refreshed_bind refreshed (fun log => Yields.mono (fun _ _ => trivial) (record_finds _)) fun found => ?_
    cases found with
    | error invalid => exact ⟨_, later, rfl, rfl, rfl⟩
    | ok record => exact ⟨_, later, rfl, rfl, rfl⟩
  · rw [if_neg some_]
    -- `end_offset` loads the head once more.
    obtain ⟨log, grown, tail, view⟩ := refreshed
    refine (endOffset_meets memory view).mono ?_
    rintro value next ⟨more, grown', tail', view⟩
    exact ⟨more, grown.trans grown', tail'.trans tail, view⟩

end Refreshed

end Reader

end Kido.Streaming

namespace Kido.Streaming

open Kido.Shared

namespace Reader

variable {ring : Ring}

-- What an answer says of the log: it decodes the record that was committed at the position.
def Exact (log : Log) (answer : ring.reader.Answer) : Prop :=
  match answer.call with
  | .head => answer.reply = .head answer.after.seen ∧ Boundary Rec.size log answer.after.seen
  | .record pos => ∀ before rec, At Rec.size log pos before rec → answer.before.tail ≤ pos → pos < answer.before.seen →
      answer.reply = .record (.ok ⟨rec.kind, rec.payload.length, Log.offset before, pos + rec.size⟩)
  | .payload pos => ∀ before rec, At Rec.size log pos before rec → answer.before.tail ≤ pos → pos < answer.before.seen →
      answer.reply = .payload (.ok rec.payload)
  | .prefixOf pos room => ∀ before rec, At Rec.size log pos before rec → answer.before.tail ≤ pos →
      pos < answer.before.seen → answer.reply = .prefixOf (.ok (rec.payload.length, rec.payload.take room))
  | .slice pos => ∀ before rec, At Rec.size log pos before rec → answer.before.tail ≤ pos → pos < answer.before.seen →
      answer.reply = .slice (sliceOf rec.payload.length (rec.payload.take 2))
  | .advance upper keep => upper = answer.before.seen →
      answer.reply = .advance (.ok ()) ∧
        First log answer.before.tail (retain ring upper keep) answer.after.tail
  | _ => True

structure Faithful (log : Log) (answer : ring.reader.Answer) : Prop where
  order : answer.before.seen ≤ answer.after.seen
  seen : answer.after.seen ≤ log.head
  stays : (∀ upper keep, answer.call ≠ .advance upper keep) → answer.after.tail = answer.before.tail
  decodes : Exact log answer

-- What `read` is after an answer, and whether it was stored after the head was loaded last.
def hear (answer : ring.reader.Answer) (words : Nat × Bool) : Nat × Bool :=
  match answer.call, answer.reply with
  | .advance upper _, .advance (.ok ()) => (upper, true)
  | .head, _ | .endOffset, _ | .oldestOffset, _ | .resume _, _ => (words.1, false)
  | _, _ => words

def heard (answers : List ring.reader.Answer) : Nat × Bool := answers.foldr hear (0, false)

theorem First.grow {log more : Log} {pos upto next : Nat} (first : First log pos upto next) (grown : log <+: more) :
    First more pos upto next where
  boundary := first.boundary.grow grown
  after := first.after
  reached := first.reached
  first other := by
    rintro ⟨before, cut, place⟩ after reached
    rcases List.prefix_or_prefix_of_prefix cut grown with inside | outside
    · exact first.first other ⟨before, inside, place⟩ after reached
    · exact Nat.le_trans first.boundary.le (place ▸ total_le outside)

theorem Faithful.grow {log more : Log} {answer : ring.reader.Answer} (faithful : Faithful log answer)
    (grown : log <+: more) : Faithful more answer where
  order := faithful.order
  seen := Nat.le_trans faithful.seen (total_le grown)
  stays := faithful.stays
  decodes := by
    have decodes := faithful.decodes
    have old {pos : Nat} {before : Log} {rec : Rec} (here : At Rec.size more pos before rec)
        (inside : pos < answer.before.seen) : At Rec.size log pos before rec :=
      here.restrict grown (Nat.lt_of_lt_of_le inside (Nat.le_trans faithful.order faithful.seen))
    obtain ⟨start, call, reply, after⟩ := answer
    cases call with
    | head => exact ⟨decodes.1, decodes.2.grow grown⟩
    | record | payload | prefixOf | slice =>
      exact fun before rec here after inside => decodes before rec (old here inside) after inside
    | advance upper keep => exact fun same => ⟨(decodes same).1, (decodes same).2.grow grown⟩
    | reachable | endOffset | oldestOffset | resume => trivial

-- After a call the reader may know more of the log, and the answer is faithful to it.
def Responded (known : Known) (answer : ring.reader.Answer) (memory : Memory) : Prop :=
  ∃ log, known.log <+: log ∧ Faithful log answer ∧
    View ring answer.after
      ⟨log, (hear answer (known.read, known.stored)).1, (hear answer (known.read, known.stored)).2⟩ memory

variable {reader : Reader} {known : Known}

theorem find_meets {α : Type} {call : Call} {prog : Reading α} {reply : α → Reply} {Q : α → Prop}
    (finds : Finds ring reader known prog Q)
    (words : ∀ value words, hear (⟨reader, call, reply value, reader⟩ : ring.reader.Answer) words = words)
    (decodes : ∀ value, Q value → Exact known.log (⟨reader, call, reply value, reader⟩ : ring.reader.Answer)) :
    Reads ring (View ring reader known) (prog >>= fun value => pure (reply value, reader)) fun value =>
      Responded known (⟨reader, call, value.1, value.2⟩ : ring.reader.Answer) := by
  refine Meets.bind Wrote.refl _ finds fun value => Meets.ret ?_ ?_
  · exact view_stable.and (.const _)
  · rintro memory ⟨view, found⟩
    refine ⟨known.log, List.prefix_rfl, ⟨Nat.le_refl _, view.seen.le, fun _ => rfl, decodes value found⟩, ?_⟩
    rw [words]
    exact view

theorem refreshed_meets {α : Type} (call : Call) {prog : Reading (α × Reader)} (reply : α → Reply)
    (meets : Reads ring (View ring reader known) prog fun value => Refreshed ring reader known value.2)
    (words : ∀ value later words, hear (⟨reader, call, reply value, later⟩ : ring.reader.Answer) words =
      (words.1, false))
    (decodes : ∀ value later log, Exact log (⟨reader, call, reply value, later⟩ : ring.reader.Answer)) :
    Reads ring (View ring reader known) (prog >>= fun value => pure (reply value.1, value.2)) fun value =>
      Responded known (⟨reader, call, value.1, value.2⟩ : ring.reader.Answer) := by
  intro start before
  refine Meets.bind Wrote.refl _ meets (fun value => Meets.ret refreshed_stable ?_) start before
  rintro memory ⟨log, grown, tail, view⟩
  refine ⟨log, grown, ⟨?_, view.seen.le, fun _ => tail, decodes value.1 value.2 log⟩, ?_⟩
  · show reader.seen ≤ value.2.seen
    rw [view.seen, before.seen]
    exact total_le grown
  · rw [words]
    exact view

theorem answer_meets (call : Call) : Reads ring (View ring reader known) (answer ring call reader) fun value =>
    Responded known (⟨reader, call, value.1, value.2⟩ : ring.reader.Answer) := by
  cases call with
  | head =>
    intro start before
    refine Meets.bind Wrote.refl _ head_meets (fun later => Meets.ret refreshed_stable ?_) start before
    rintro memory ⟨log, grown, tail, view⟩
    refine ⟨log, grown, ⟨?_, view.seen.le, fun _ => tail, rfl, view.seen ▸ .end log⟩, view⟩
    show reader.seen ≤ later.seen
    rw [view.seen, before.seen]
    exact total_le grown
  | record pos =>
    refine find_meets (record_finds pos) (fun _ _ => rfl) fun record found before rec here after _ => ?_
    exact congrArg Reply.record (found before rec here after)
  | payload pos =>
    refine find_meets (payload_finds pos) (fun _ _ => rfl) fun bytes found before rec here after _ => ?_
    exact congrArg Reply.payload (found before rec here after)
  | prefixOf pos room =>
    refine find_meets (prefixOf_finds pos room) (fun _ _ => rfl) fun bytes found before rec here after _ => ?_
    exact congrArg Reply.prefixOf (found before rec here after)
  | slice pos =>
    refine find_meets (slice_finds pos) (fun _ _ => rfl) fun slice found before rec here after _ => ?_
    exact congrArg Reply.slice (found before rec here after)
  | advance upper keep =>
    intro start before
    refine Meets.bind Wrote.refl _ (advance_meets upper keep) (fun value => ?_) start before
    rintro memory ⟨other, same⟩
    by_cases current : upper = reader.seen
    · obtain ⟨later, rfl, advanced⟩ := same current
      refine Meets.ret view_stable (fun memory view => ?_) memory advanced.view
      refine ⟨known.log, List.prefix_rfl, ⟨advanced.seen.ge, view.seen.le, fun apart => absurd rfl (apart upper keep), ?_⟩,
        view⟩
      exact fun _ => ⟨rfl, advanced.tail⟩
    · obtain ⟨rfl, view⟩ := other current
      refine Meets.ret view_stable (fun memory view => ?_) memory view
      refine ⟨known.log, List.prefix_rfl, ⟨Nat.le_refl _, view.seen.le, fun _ => rfl, fun same => absurd same current⟩, view⟩
  | reachable pos =>
    refine Meets.ret view_stable fun memory view => ⟨known.log, List.prefix_rfl, ?_, view⟩
    exact ⟨Nat.le_refl _, view.seen.le, fun _ => rfl, trivial⟩
  | endOffset =>
    exact refreshed_meets .endOffset Reply.offset endOffset_meets (fun _ _ _ => rfl) fun _ _ _ => trivial
  | oldestOffset =>
    exact refreshed_meets .oldestOffset Reply.offset oldestOffset_meets (fun _ _ _ => rfl) fun _ _ _ => trivial
  | resume target =>
    exact refreshed_meets (.resume target) Reply.resume (resume_meets target) (fun _ _ _ => rfl) fun _ _ _ => trivial

-- Between two calls the reader sees the log, and it remembers what it told `read`.
def Rest (ring : Ring) (reader : Reader) (answers : List ring.reader.Answer) (memory : Memory) : Prop :=
  ∃ log, (∀ answer ∈ answers, Faithful log answer) ∧
    View ring reader ⟨log, (heard answers).1, (heard answers).2⟩ memory

structure Told (ring : Ring) (answers : List ring.reader.Answer) (memory : Memory) : Prop where
  sound : memory.Sound ring
  faithful : ∀ answer ∈ answers, Faithful memory.log answer

def contract (ring : Ring) : Machine.Contract ring.reader (Wrote ring) (Consumed ring) where
  rest := Rest ring
  told := Told ring
  refl := Wrote.refl
  trans := Wrote.trans
  own := Consumed.refl
  rest_stable := by
    rintro reader answers memory later wrote ⟨log, faithful, view⟩
    exact ⟨log, faithful, view_stable _ _ wrote view⟩
  told_stable := fun answers memory later wrote told =>
    ⟨wrote.sound told.sound, fun answer member => (told.faithful answer member).grow wrote.log⟩
  told_kept := fun answers memory later consumed told =>
    ⟨consumed.sound told.sound, fun answer member => consumed.log ▸ told.faithful answer member⟩
  rest_told := by
    rintro reader answers memory ⟨log, faithful, view⟩
    exact ⟨view.sound, fun answer member => (faithful answer member).grow view.begun⟩
  answers_call := by
    rintro reader answers call memory ⟨log, faithful, view⟩
    refine (answer_meets call memory view).mono ?_
    rintro value later ⟨more, grown, new, view⟩
    refine ⟨more, fun answer member => ?_, view⟩
    rcases List.mem_cons.mp member with rfl | old
    · exact new
    · exact (faithful answer old).grow grown

end Reader

end Kido.Streaming
