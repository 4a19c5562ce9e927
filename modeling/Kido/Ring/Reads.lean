import Kido.Ring.Reader

set_option autoImplicit false

namespace Kido.Streaming

open Kido.Shared

namespace Reader

-- What a reader knows besides its fields: the log up to the head it saw, and what it stored in `read`.
structure Known where
  log : Log
  read : Nat
  stored : Bool

-- What the fields of the reader say about the log that it knows.
structure Fits (ring : Ring) (reader : Reader) (log : Log) : Prop where
  seen : reader.seen = log.head
  boundary : Boundary Rec.size log reader.tail
  window : reader.seen ≤ reader.tail + ring.capacity
  bound : reader.seen ≤ maxPos
  whole : ∀ pos before rec, At Rec.size log pos before rec → ring.Whole pos rec.size

-- The memory as the reader sees it: the writer changes nothing of this.
structure View (ring : Ring) (reader : Reader) (known : Known) (memory : Memory) : Prop where
  sound : memory.Sound ring
  tail : memory.tail = reader.tail
  begun : known.log <+: memory.log
  seen : reader.seen = known.log.head
  boundary : Boundary Rec.size known.log reader.tail
  marked : memory.seen = reader.seen
  read : memory.read = known.read
  stored : memory.stored = known.stored

abbrev Reads (ring : Ring) {α : Type} := @Meets Memory ReaderOp ReaderOp.Result α ReaderOp.exec (Wrote ring) (Consumed ring)

-- The program changes nothing that the reader sees, and its value has `Q`.
def Finds (ring : Ring) (reader : Reader) (known : Known) {α : Type} (prog : Reading α) (Q : α → Prop) : Prop :=
  Yields ReaderOp.exec (Wrote ring) (Consumed ring) (View ring reader known) prog Q

variable {ring : Ring} {reader : Reader} {known : Known}

theorem View.fits {memory : Memory} (view : View ring reader known memory) : Fits ring reader known.log where
  seen := view.seen
  boundary := view.boundary
  window := by
    have window := view.sound.window
    rw [view.sound.head, view.tail] at window
    have grown : known.log.head ≤ memory.log.head := total_le view.begun
    rw [view.seen]
    omega
  bound := by
    have bound := view.sound.bound
    rw [view.sound.head] at bound
    rw [view.seen]
    exact Nat.le_trans (total_le view.begun) bound
  whole pos before rec here := view.sound.whole pos before rec (here.grow view.begun)

theorem View.holds {memory : Memory} (view : View ring reader known memory) {pos : Nat} {before : Log} {rec : Rec}
    (here : At Rec.size known.log pos before rec) (inside : reader.tail ≤ pos) :
    Shared.slice memory.data (pos % ring.capacity) rec.size = rec.encode (Log.offset before) :=
  view.sound.holds pos before rec (here.grow view.begun) (view.tail ▸ inside)

theorem view_stable : Stable (Wrote ring) (View ring reader known) := by
  intro memory later wrote view
  exact ⟨wrote.sound view.sound, wrote.tail.trans view.tail, view.begun.trans wrote.log, view.seen, view.boundary,
    wrote.seen.trans view.marked, wrote.read.trans view.read, wrote.stored.trans view.stored⟩

section Bounds

variable {log : Log} {pos : Nat} {before : Log} {rec : Rec}

theorem Fits.end_le (fits : Fits ring reader log) (here : At Rec.size log pos before rec) :
    pos + rec.size ≤ reader.seen := fits.seen ▸ here.end_le

theorem Fits.offset_le (fits : Fits ring reader log) (here : At Rec.size log pos before rec) :
    Log.offset before ≤ pos ∧ pos + rec.size ≤ maxPos :=
  ⟨here.place ▸ Log.offset_le before, Nat.le_trans (fits.end_le here) fits.bound⟩

theorem Fits.len_lt (fits : Fits ring reader log) (here : At Rec.size log pos before rec) :
    rec.payload.length < 256 ^ 4 := by
  have whole := fits.whole pos before rec here
  have most := ring.most
  simp only [Ring.Whole, Rec.size] at whole
  have small : (0x4000_0000 : Nat) < 256 ^ 4 := by decide
  omega

end Bounds

theorem maxPos_lt : maxPos < u64 := by decide

theorem Finds.pure {α : Type} {value : α} {Q : α → Prop} (holds : Q value) :
    Finds ring reader known (Pure.pure value) Q := Yields.pure view_stable holds

theorem Finds.bind {α β : Type} {prog : Reading α} {rest : α → Reading β} {Q : α → Prop} {R : β → Prop}
    (first : Finds ring reader known prog Q) (second : ∀ value, Q value → Finds ring reader known (rest value) R) :
    Finds ring reader known (prog >>= rest) R := Yields.bind Wrote.refl first second

theorem Finds.given {α : Type} {prog : Reading α} {Q : α → Prop}
    (finds : ∀ memory, View ring reader known memory → Finds ring reader known prog Q) : Finds ring reader known prog Q :=
  Yields.given finds

theorem get_finds (index : Nat) : Finds ring reader known (Prog.perform (ReaderOp.get index)) fun byte =>
    ∀ expected, (∀ memory, View ring reader known memory → memory.data index = expected) → byte = expected := by
  refine Meets.perform view_stable (fun byte => view_stable.and (.const _)) fun memory view => ?_
  exact ⟨.refl memory, view, fun expected held => held memory view⟩

theorem fetch_finds (index len : Nat) : Finds ring reader known (fetch index len) fun bytes =>
    ∀ expected, (∀ memory, View ring reader known memory → Shared.slice memory.data index len = expected) →
      bytes = expected := by
  refine .given fun start view => ?_
  induction len generalizing index with
  | zero => exact .pure fun expected held => held start view
  | succ len ih =>
    refine .bind (get_finds index) fun byte first => .bind (ih (index + 1)) fun rest later => .pure ?_
    intro expected held
    have here := held start view
    rw [slice_succ] at here
    -- The bytes read are those that every memory has there, so they are those of the first one.
    have both memory (view : View ring reader known memory) :
        memory.data index = start.data index ∧
          Shared.slice memory.data (index + 1) len = Shared.slice start.data (index + 1) len := by
      have same := held memory view
      rw [slice_succ, ← here] at same
      exact List.cons.inj same
    rw [first _ fun memory view => (both memory view).1, later _ fun memory view => (both memory view).2, here]

theorem copy_finds (pos len : Nat) : Finds ring reader known (reader.copy ring pos len) fun bytes =>
    ∀ expected, reader.tail ≤ pos → pos + len ≤ reader.seen → ring.Whole pos len →
      (∀ memory, View ring reader known memory → Shared.slice memory.data (pos % ring.capacity) len = expected) →
      bytes = some expected := by
  refine .given fun start view => ?_
  have fits := view.fits
  rw [copy]
  cases place : ring.readable reader.tail reader.seen pos len with
  | none =>
    refine .pure fun expected after before whole held => ?_
    have bound := Nat.lt_of_le_of_lt fits.bound maxPos_lt
    rw [Ring.readable_some bound fits.window after before whole] at place
    cases place
  | some index =>
    refine .bind (fetch_finds index len) fun bytes found => .pure ?_
    intro expected after before whole held
    have bound := Nat.lt_of_le_of_lt fits.bound maxPos_lt
    rw [Ring.readable_some bound fits.window after before whole] at place
    rw [found expected (Option.some.inj place ▸ held)]

-- The header that the reader makes out of the bytes of a record.
def headerOf (pos : Nat) (before : Log) (rec : Rec) : Header :=
  ⟨rec.kind.tag, rec.payload.length, Log.offset before, pos + rec.size⟩

theorem parse_header {log : Log} {pos : Nat} {before : Log} {rec : Rec} (fits : Fits ring reader log)
    (here : At Rec.size log pos before rec) :
    reader.parse ring pos (headerBytes rec.kind rec.payload.length (Log.offset before)) =
      some (headerOf pos before rec) := by
  obtain ⟨offset, stop⟩ := fits.offset_le here
  have whole := fits.whole pos before rec here
  have seen := fits.end_le here
  have small := maxPos_lt
  have most := ring.most
  have len : ofLe (leBytes 4 rec.payload.length) = rec.payload.length := ofLe_leBytes (fits.len_lt here)
  have off : ofLe (leBytes 8 (Log.offset before)) = Log.offset before := by
    refine ofLe_leBytes ?_
    have wide : u64 = 256 ^ 8 := by decide
    omega
  have next : (checkedAdd pos headerSize).bind (checkedAdd · rec.payload.length) = some (pos + rec.size) := by
    simp only [Rec.size] at stop
    rw [checkedAdd_some (by omega), Option.bind_some, checkedAdd_some (by omega), Rec.size, Nat.add_assoc]
  have index : (checkedAdd (pos % ring.capacity) headerSize).bind (checkedAdd · rec.payload.length) =
      some (pos % ring.capacity + rec.size) := by
    have wide : (0x4000_0000 : Nat) < u64 := by decide
    simp only [Ring.Whole, Rec.size] at whole
    rw [checkedAdd_some (by omega), Option.bind_some, checkedAdd_some (by omega), Rec.size, Nat.add_assoc]
  have front : ((headerBytes rec.kind rec.payload.length (Log.offset before)).drop 1).take 4 =
      leBytes 4 rec.payload.length := by
    simp [headerBytes, List.take_left']
  have back : (headerBytes rec.kind rec.payload.length (Log.offset before)).drop 5 = leBytes 8 (Log.offset before) := by
    have split : headerBytes rec.kind rec.payload.length (Log.offset before) =
        (rec.kind.tag :: leBytes 4 rec.payload.length) ++ leBytes 8 (Log.offset before) := rfl
    rw [split, List.drop_left' (by simp)]
  have first : (headerBytes rec.kind rec.payload.length (Log.offset before)).headD 0 = rec.kind.tag := rfl
  simp only [parse, front, back, first, len, off, next, index, Option.bind_eq_bind, Option.bind_some]
  rw [if_pos ⟨rec.kind.tag_bounds, whole, seen, offset⟩]
  rfl

theorem header_finds (pos : Nat) : Finds ring reader known (reader.header ring pos) fun header =>
    ∀ before rec, At Rec.size known.log pos before rec → reader.tail ≤ pos →
      header = some (headerOf pos before rec) := by
  refine .given fun start view => ?_
  refine .bind (copy_finds pos headerSize) fun bytes found => .pure ?_
  intro before rec here inside
  have fits := view.fits
  have stop := fits.end_le here
  have whole := fits.whole pos before rec here
  simp only [Ring.Whole, Rec.size] at stop whole
  have held memory (view : View ring reader known memory) :
      Shared.slice memory.data (pos % ring.capacity) headerSize =
        headerBytes rec.kind rec.payload.length (Log.offset before) := by
    have front : Shared.slice memory.data (pos % ring.capacity + 0) headerSize =
        ((rec.encode (Log.offset before)).drop 0).take headerSize := slice_sub (view.holds here inside) (by simp [Rec.size])
    rwa [Nat.add_zero, List.drop_zero, Rec.encode_header] at front
  rw [found _ inside (by omega) (by simp only [Ring.Whole]; omega) held]
  exact parse_header fits here

theorem record_finds (pos : Nat) : Finds ring reader known (reader.record ring pos) fun record =>
    ∀ before rec, At Rec.size known.log pos before rec → reader.tail ≤ pos →
      record = .ok ⟨rec.kind, rec.payload.length, Log.offset before, pos + rec.size⟩ := by
  refine .bind (header_finds pos) fun header found => ?_
  cases header with
  | none =>
    refine .pure fun before rec here inside => ?_
    cases found before rec here inside
  | some header =>
    refine .pure fun before rec here inside => ?_
    cases found before rec here inside
    simp [headerOf]

theorem payload_whole {log : Log} {pos : Nat} {before : Log} {rec : Rec} (fits : Fits ring reader log)
    (here : At Rec.size log pos before rec) {count : Nat} (short : count ≤ rec.payload.length) :
    ring.Whole (pos + headerSize) count := by
  have whole := fits.whole pos before rec here
  rcases Nat.eq_zero_or_pos count with rfl | some_
  · have inside := Nat.mod_lt (pos + headerSize) ring.capacity_pos
    simp only [Ring.Whole]
    omega
  · have place : (pos + headerSize) % ring.capacity = pos % ring.capacity + headerSize :=
      whole.index (by simp only [Rec.size]; omega)
    simp only [Ring.Whole, Rec.size] at whole ⊢
    omega

theorem payload_held {memory : Memory} (view : View ring reader known memory) {pos : Nat} {before : Log} {rec : Rec}
    (here : At Rec.size known.log pos before rec) (inside : reader.tail ≤ pos) {count : Nat}
    (short : count ≤ rec.payload.length) :
    Shared.slice memory.data ((pos + headerSize) % ring.capacity) count = rec.payload.take count := by
  rcases Nat.eq_zero_or_pos count with rfl | some_
  · simp
  · have whole := view.fits.whole pos before rec here
    rw [whole.index (by simp only [Rec.size]; omega),
      slice_sub (view.holds here inside) (by simp only [Rec.size]; omega), Rec.encode_payload]

theorem part_finds (pos : Nat) (count : Nat → Nat) : Finds ring reader known (reader.part ring pos count) fun bytes =>
    ∀ before rec, At Rec.size known.log pos before rec → reader.tail ≤ pos →
      count rec.payload.length ≤ rec.payload.length →
      bytes = .ok (rec.payload.length, rec.payload.take (count rec.payload.length)) := by
  refine .given fun start view => .bind (header_finds pos) fun header found => ?_
  cases header with
  | none =>
    refine .pure fun before rec here inside short => ?_
    cases found before rec here inside
  | some header =>
    cases place : checkedAdd pos headerSize with
    | none =>
      refine .pure fun before rec here inside short => ?_
      have bound := (view.fits.offset_le here).2
      have small := maxPos_lt
      simp only [Rec.size] at bound
      rw [checkedAdd_some (by omega)] at place
      cases place
    | some place_ =>
      obtain ⟨_, rfl⟩ := checkedAdd_eq_some.mp place
      refine .bind (copy_finds _ _) fun bytes copied => ?_
      have same before rec (here : At Rec.size known.log pos before rec) (inside : reader.tail ≤ pos)
          (short : count rec.payload.length ≤ rec.payload.length) :
          header.len = rec.payload.length ∧ bytes = some (rec.payload.take (count rec.payload.length)) := by
        cases found before rec here inside
        have stop := view.fits.end_le here
        simp only [Rec.size] at stop
        refine ⟨rfl, copied _ (by omega) (by simp only [headerOf]; omega) (payload_whole view.fits here short) ?_⟩
        exact fun memory view => payload_held view here inside short
      cases bytes with
      | none =>
        refine .pure fun before rec here inside short => ?_
        cases (same before rec here inside short).2
      | some bytes =>
        refine .pure fun before rec here inside short => ?_
        obtain ⟨len, bytes⟩ := same before rec here inside short
        rw [len, Option.some.inj bytes]

theorem payload_finds (pos : Nat) : Finds ring reader known (reader.payload ring pos) fun bytes =>
    ∀ before rec, At Rec.size known.log pos before rec → reader.tail ≤ pos → bytes = .ok rec.payload := by
  refine .bind (part_finds pos _) fun bytes found => .pure fun before rec here inside => ?_
  rw [found before rec here inside (Nat.le_refl _), List.take_length]
  rfl

theorem prefixOf_finds (pos room : Nat) : Finds ring reader known (reader.prefixOf ring pos room) fun bytes =>
    ∀ before rec, At Rec.size known.log pos before rec → reader.tail ≤ pos →
      bytes = .ok (rec.payload.length, rec.payload.take room) := by
  refine Yields.mono (fun bytes found before rec here inside => ?_) (part_finds pos _)
  have short : (if rec.payload.length < room then rec.payload.length else room) = min rec.payload.length room := by
    split <;> omega
  rw [found before rec here inside (by rw [short]; omega), short]
  simp [List.take_eq_take_iff, Nat.min_comm]

theorem slice_finds (pos : Nat) : Finds ring reader known (reader.slice ring pos) fun slice =>
    ∀ before rec, At Rec.size known.log pos before rec → reader.tail ≤ pos →
      slice = sliceOf rec.payload.length (rec.payload.take 2) := by
  refine .bind (prefixOf_finds pos 2) fun bytes found => ?_
  rcases bytes with invalid | ⟨len, bytes⟩
  · refine .pure fun before rec here inside => ?_
    cases found before rec here inside
  · refine .pure fun before rec here inside => ?_
    cases found before rec here inside
    rfl

end Reader

end Kido.Streaming
