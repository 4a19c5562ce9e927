import Kido.Ring.ReaderContract
import Kido.Ring.WriterContract

set_option autoImplicit false

namespace Kido.Streaming

open Kido.Shared

abbrev Ends (ring : Ring) := Pair ring.reader ring.writer

abbrev Event (ring : Ring) := Pair.Event ring.reader ring.writer

namespace Ends

variable (ring : Ring)

def start : Ends ring := ⟨.fresh, ⟨.fresh, none, []⟩, ⟨.fresh, none, []⟩⟩

def run (events : List (Event ring)) : Ends ring := Shared.run Pair.step (start ring) events

variable {ring}

theorem start_view : Reader.View ring .fresh ⟨[], 0, false⟩ .fresh :=
  ⟨.fresh, rfl, List.prefix_rfl, rfl, .zero [], rfl, rfl, rfl⟩

theorem start_holds : Writer.Holds ring .fresh [] .fresh :=
  ⟨fun _ => 0, ⟨.fresh, rfl, rfl, rfl, rfl, Nat.le_refl _, Nat.le_refl _, Nat.zero_le _⟩, rfl,
    fun some_ => absurd some_ (Nat.lt_irrefl 0), rfl⟩

theorem run_holds (events : List (Event ring)) :
    (Reader.contract ring).Holds (run ring events).one (run ring events).memory ∧
      (Writer.contract ring).Holds (run ring events).two (run ring events).memory := by
  have reader : (Reader.contract ring).Holds (start ring).one (start ring).memory :=
    ⟨⟨.fresh, fun _ => List.not_mem_nil.elim⟩, fun _ => ⟨[], fun _ => List.not_mem_nil.elim, start_view⟩,
      fun _ _ running => by cases running⟩
  have told : Writer.Told ring [] Memory.fresh := ⟨.fresh, List.prefix_rfl, by simp, by simp⟩
  have writer : (Writer.contract ring).Holds (start ring).two (start ring).memory :=
    ⟨told, fun _ => ⟨start_holds, told⟩, fun _ _ running => by cases running⟩
  exact Pair.run_holds ⟨reader, writer⟩ events

theorem reader_told (events : List (Event ring)) :
    Reader.Told ring (run ring events).one.answers (run ring events).memory := (run_holds events).1.told

theorem writer_told (events : List (Event ring)) :
    Writer.Told ring (run ring events).two.answers (run ring events).memory := (run_holds events).2.told

theorem writer_rest (events : List (Event ring)) (rests : (run ring events).two.running = none) :
    Writer.Rest ring (run ring events).two.state (run ring events).two.answers (run ring events).memory :=
  (run_holds events).2.rest rests

-- The ring carries the records of the writer to the reader.
structure Carried (ends : Ends ring) : Prop where
  head : ends.memory.head = Log.head ends.memory.log
  tail : Boundary Rec.size ends.memory.log ends.memory.tail
  window : ends.memory.head ≤ ends.memory.tail + ring.capacity
  -- The memory holds every record from the tail on as it was committed, in one piece.
  intact : ∀ pos before rec, At Rec.size ends.memory.log pos before rec → ends.memory.tail ≤ pos →
    pos % ring.capacity + rec.size ≤ ring.capacity ∧
      Shared.slice ends.memory.data (pos % ring.capacity) rec.size = rec.encode (Log.offset before)
  -- The log is what the calls of the writer committed, one after another.
  log : Writer.published ends.two.answers <+: ends.memory.log
  whole : ends.two.running = none → Writer.published ends.two.answers = ends.memory.log
  placed : ∀ answer ∈ ends.two.answers, ∀ rec ∈ Writer.committed answer,
    ∃ before, At Rec.size ends.memory.log answer.before.head before rec
  -- What the reader decodes at a position is the record that was committed there.
  decoded : ∀ answer ∈ ends.one.answers, Reader.Faithful ends.memory.log answer

-- Whatever the reader and the writer do in between each other's steps.
theorem ring_carries_records (ring : Ring) (events : List (Event ring)) : Carried (run ring events) where
  head := (writer_told events).sound.head
  tail := (writer_told events).sound.tail
  window := (writer_told events).sound.window
  intact pos before rec here inside :=
    ⟨(writer_told events).sound.whole pos before rec here, (writer_told events).sound.holds pos before rec here inside⟩
  log := (writer_told events).log
  whole rests := by
    obtain ⟨⟨data, owns, staged⟩, told⟩ := writer_rest events rests
    exact owns.log.symm
  placed := (writer_told events).placed
  decoded := (reader_told events).faithful

end Ends

end Kido.Streaming

namespace Kido.Streaming

open Kido.Shared

namespace Writer

variable (ring : Ring)

def availableAlone (writer : Writer) (memory : Memory) : (Available × Writer) × Memory :=
  (writer.available ring).alone WriterOp.exec memory

def roomAfter : Nat → Writer → Memory → Nat
  | 0, writer, memory => (writer.availableAlone ring memory).1.1.room
  | count + 1, writer, memory =>
    roomAfter count (writer.availableAlone ring memory).1.2 (writer.availableAlone ring memory).2

def restAt (pos : Nat) : Nat := ring.capacity - pos % ring.capacity

-- The room comes: there is enough of it in front of the end of the data, or the end is so near that a pad is put, and
-- there is enough behind it.
def RoomComes (pos minimum : Nat) : Prop :=
  (padRoom < restAt ring pos ∧ pos < maxHead ∧ minimum + padRoom ≤ restAt ring pos) ∨
    (restAt ring pos ≤ padRoom ∧ pos + restAt ring pos ≤ maxHead ∧ minimum + padRoom + restAt ring pos ≤ ring.capacity)

instance (pos minimum : Nat) : Decidable (RoomComes ring pos minimum) :=
  inferInstanceAs (Decidable (_ ∨ _))

variable {ring} {writer : Writer} {log : Log} {memory : Memory}

def steadyRoom (ring : Ring) (writer : Writer) : Nat :=
  if writer.head < maxHead ∧ padRoom < rest ring writer then min (free ring writer) (rest ring writer) - padRoom else 0

theorem available_alone (holds : Holds ring writer log memory) :
    ∃ room, (writer.availableAlone ring memory).1.1 = Option.getD room ⟨0, false⟩ ∧
      RoomEnds ring { writer with tail := memory.tail } log (room, (writer.availableAlone ring memory).1.2)
        (writer.availableAlone ring memory).2 ∧
      (writer.availableAlone ring memory).2.tail = memory.tail := by
  obtain ⟨ends, kept⟩ := (available_meets memory.tail memory ⟨holds, Nat.le_refl _⟩).alone Consumed.refl Wrote.refl
    Wrote.trans
  obtain ⟨tail, room, after, -, -, found, ends⟩ := ends
  have before : tail ≤ memory.tail := by
    rw [← kept.tail]
    rcases ends with ⟨stays, ⟨data, owns, staged⟩, same⟩ | ⟨pads, commit, committed, same⟩
    · exact owns.tail
    · obtain ⟨data, owns⟩ := committed.owns
      have loaded : _ = tail := committed.tail
      exact loaded ▸ owns.tail
  have same : tail = memory.tail := Nat.le_antisymm before after
  subst same
  exact ⟨room, found, ends, kept.tail⟩

theorem roomAfter_steady (count : Nat) (holds : Holds ring writer log memory)
    (stays : ¬Pads ring { writer with tail := memory.tail }) :
    roomAfter ring count writer memory = steadyRoom ring { writer with tail := memory.tail } := by
  induction count generalizing writer memory with
  | zero =>
    obtain ⟨room, found, ⟨-, later, same⟩ | ⟨pads, -⟩, kept⟩ := available_alone holds
    · obtain ⟨rfl, -⟩ := Prod.mk.inj same
      rw [roomAfter, found, steadyRoom]
      split <;> rfl
    · exact absurd pads stays
  | succ count ih =>
    obtain ⟨room, found, ⟨-, later, same⟩ | ⟨pads, -⟩, kept⟩ := available_alone holds
    · obtain ⟨rfl, moved⟩ := Prod.mk.inj same
      rw [roomAfter, moved, ih later (kept ▸ stays), kept]
    · exact absurd pads stays

theorem roomAfter_padded (count : Nat) (holds : Holds ring writer log memory) (caught : memory.tail = writer.head)
    (pads : Pads ring { writer with tail := memory.tail }) :
    (writer.availableAlone ring memory).1.1.room = ring.capacity - restAt ring writer.head - padRoom ∧
      roomAfter ring count (writer.availableAlone ring memory).1.2 (writer.availableAlone ring memory).2 ≤
        ring.capacity - restAt ring writer.head - padRoom := by
  obtain ⟨room, found, ⟨stays, -⟩ | ⟨-, commit, committed, same⟩, kept⟩ := available_alone holds
  · exact absurd pads stays
  · have least := ring.least
    have twice : padRoom = 26 := rfl
    have header : headerSize = 13 := rfl
    have index := Nat.mod_lt writer.head ring.capacity_pos
    obtain ⟨-, near, fitting⟩ := pads
    have lies := fitting.whole
    simp only [rest, Ring.Whole] at near lies
    have first : min (free ring { writer with tail := memory.tail } - rest ring { writer with tail := memory.tail })
        ring.capacity = ring.capacity - restAt ring writer.head := by
      simp only [free, rest, restAt]
      omega
    have moved : (writer.availableAlone ring memory).1.2.head = writer.head + restAt ring writer.head := by
      have head : (writer.availableAlone ring memory).1.2.head = writer.head + Rec.size _ := committed.head
      rw [head, Rec.size, padding, List.length_replicate]
      simp only [rest, restAt]
      omega
    have start : (writer.head + restAt ring writer.head) % ring.capacity = 0 := by
      rw [restAt, ← Nat.mod_add_mod, Nat.add_sub_cancel' index.le, Nat.mod_self]
    rw [first] at same
    refine ⟨by rw [found, show room = some _ from same]; rfl, ?_⟩
    generalize (writer.availableAlone ring memory).1.2 = later at committed moved
    generalize (writer.availableAlone ring memory).2 = after at committed kept
    rw [roomAfter_steady count committed.holds]
    · simp only [steadyRoom, rest, free, moved, start, kept, caught]
      split
      · omega
      · exact Nat.zero_le _
    · rintro ⟨-, short, -⟩
      simp only [rest, moved, start] at short
      omega

theorem roomAfter_reaches {minimum : Nat} (positive : 0 < minimum) (holds : Holds ring writer log memory)
    (caught : memory.tail = writer.head) :
    (∃ count, minimum ≤ roomAfter ring count writer memory) ↔ RoomComes ring writer.head minimum := by
  have twice : padRoom = 26 := rfl
  have header : headerSize = 13 := rfl
  have index := Nat.mod_lt writer.head ring.capacity_pos
  have ⟨data, owns, staged⟩ := holds
  have behind := owns.room
  simp only [Ring.Whole] at behind
  by_cases pads : Pads ring { writer with tail := memory.tail }
  · have padded := fun count => roomAfter_padded count holds caught pads
    obtain ⟨low, near, fitting⟩ := pads
    have bound := fitting.bound
    simp only [rest] at near bound low
    simp only [RoomComes, restAt] at padded ⊢
    constructor
    · rintro ⟨count, enough⟩
      refine .inr ⟨near, by omega, ?_⟩
      cases count with
      | zero =>
        rw [roomAfter, (padded 0).1] at enough
        omega
      | succ count =>
        rw [roomAfter] at enough
        have most := (padded count).2
        omega
    · rintro (⟨far, -⟩ | ⟨-, -, enough⟩)
      · exact absurd near (Nat.not_le.mpr far)
      · refine ⟨0, ?_⟩
        rw [roomAfter, (padded 0).1]
        omega
  · have steady := fun count => roomAfter_steady count holds pads
    have value : steadyRoom ring { writer with tail := memory.tail } =
        if writer.head < maxHead ∧ padRoom < restAt ring writer.head then restAt ring writer.head - padRoom else 0 := by
      simp only [steadyRoom, rest, free, restAt, caught]
      congr 1
      omega
    simp only [steady, value, exists_const]
    constructor
    · intro enough
      split at enough
      · rename_i both
        exact .inl ⟨both.2, both.1, by omega⟩
      · omega
    · rintro (⟨far, low, enough⟩ | ⟨near, bound, enough⟩)
      · rw [if_pos ⟨low, far⟩]
        omega
      · simp only [restAt] at near bound enough
        have fitting : Fitting ring { writer with tail := memory.tail }
            (rest ring { writer with tail := memory.tail } - headerSize) := by
          refine ⟨⟨?_, ?_⟩, .inl ?_, ?_⟩
          all_goals simp only [Ring.Whole, rest]
          all_goals omega
        exact absurd ⟨by simp only; omega, near, fitting⟩ pads

end Writer

namespace Ends

theorem state_holds {ring : Ring} (events : List (Event ring)) (rests : (run ring events).two.running = none) :
    ∃ log, Writer.Holds ring (run ring events).two.state log (run ring events).memory ∧
      (run ring events).memory.head = (run ring events).two.state.head := by
  obtain ⟨⟨data, owns, staged⟩, told⟩ := writer_rest events rests
  exact ⟨_, ⟨data, owns, staged⟩, owns.head_eq⟩

-- In front of a reader that has consumed everything, the room that a pane process waits for comes exactly where
-- `RoomComes` says so.
theorem room_comes_iff (ring : Ring) (events : List (Event ring)) {minimum : Nat} (positive : 0 < minimum)
    (rests : (run ring events).two.running = none)
    (caught : (run ring events).memory.tail = (run ring events).memory.head) :
    (∃ count, minimum ≤ Writer.roomAfter ring count (run ring events).two.state (run ring events).memory) ↔
      Writer.RoomComes ring (run ring events).memory.head minimum := by
  obtain ⟨log, holds, head⟩ := state_holds events rests
  rw [head]
  exact Writer.roomAfter_reaches positive holds (caught.trans head)

def smallest : Ring := ⟨64, by decide, by decide⟩

-- One record of 34 bytes: the reader has seen it and moved the tail behind it.
def caughtUp : List (Event smallest) :=
  .two (.call (.put .bytes (List.replicate 21 0))) :: List.replicate 40 (.two .step) ++
    .one (.call .head) :: List.replicate 2 (.one .step) ++
    .one (.call (.advance 34 34)) :: List.replicate 20 (.one .step)

-- 30 bytes are left in front of the end, which is enough for a slice.
theorem slice_comes :
    ∃ count, 3 ≤ Writer.roomAfter smallest count (run smallest caughtUp).two.state (run smallest caughtUp).memory :=
  (room_comes_iff smallest caughtUp (by decide) (Option.isNone_iff_eq_none.mp (by decide +kernel)) (by decide +kernel)).mpr
    (by decide +kernel)

-- 30 bytes are left in front of the end: too many for a pad, and too few for a marker.
theorem resize_waits_forever :
    (run smallest caughtUp).two.running = none ∧ (run smallest caughtUp).memory.tail = (run smallest caughtUp).memory.head ∧
      ∀ count, Writer.roomAfter smallest count (run smallest caughtUp).two.state (run smallest caughtUp).memory < 9 := by
  have rests : (run smallest caughtUp).two.running = none := Option.isNone_iff_eq_none.mp (by decide +kernel)
  have head : (run smallest caughtUp).memory.head = 34 := by decide +kernel
  have tail : (run smallest caughtUp).memory.tail = 34 := by decide +kernel
  obtain ⟨log, holds, same⟩ := state_holds caughtUp rests
  refine ⟨rests, tail.trans head.symm, fun count => Nat.lt_of_not_le fun enough => ?_⟩
  have comes := (Writer.roomAfter_reaches (by decide) holds (tail.trans (head.symm.trans same))).mp ⟨count, enough⟩
  have rest : Writer.restAt smallest 34 = 30 := rfl
  rw [← same, head] at comes
  simp [Writer.RoomComes, rest, padRoom, headerSize] at comes

end Ends

end Kido.Streaming
