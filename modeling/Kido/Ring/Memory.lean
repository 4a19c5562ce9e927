import Kido.Shared.Placed
import Kido.Shared.Words
import Kido.Shared.Cells
import Mathlib.Data.Nat.ModEq

set_option autoImplicit false

namespace Kido.Streaming

open Kido.Shared

def headerSize : Nat := 13

def padRoom : Nat := 2 * headerSize

def maxHead : Nat := 0x3fff_ffff_0000_0000

def maxOffset : Nat := 0x4000_0000_0000_0000

def maxLength : Nat := 0x1_0000_0000

def maxPos : Nat := 0x3fff_ffff_ffff_ffff

inductive RecordKind where
  | bytes
  | marker
  | slice
  | pad
deriving DecidableEq

namespace RecordKind

def tag : RecordKind → UInt8
  | .bytes => 1
  | .marker => 2
  | .slice => 3
  | .pad => 4

def ofTag (tag : UInt8) : RecordKind :=
  if tag = 1 then .bytes else if tag = 2 then .marker else if tag = 3 then .slice else .pad

@[simp]
theorem ofTag_tag (kind : RecordKind) : ofTag kind.tag = kind := by cases kind <;> decide

theorem tag_bounds (kind : RecordKind) : 1 ≤ kind.tag ∧ kind.tag ≤ 4 := by cases kind <;> decide

end RecordKind

structure Rec where
  kind : RecordKind
  payload : List UInt8

namespace Rec

def size (rec : Rec) : Nat := headerSize + rec.payload.length

def streamed (rec : Rec) : Nat := if rec.kind = .bytes then rec.payload.length else 0

theorem size_pos (rec : Rec) : 0 < rec.size := by
  simp only [size, headerSize]
  omega

theorem streamed_le (rec : Rec) : rec.streamed ≤ rec.size := by
  simp only [streamed, size]
  split
  · exact Nat.le_add_left _ _
  · exact Nat.zero_le _

end Rec

abbrev Log := List Rec

namespace Log

def head (log : Log) : Nat := total Rec.size log

def offset (log : Log) : Nat := total Rec.streamed log

theorem offset_le (log : Log) : log.offset ≤ log.head := total_le_total Rec.streamed_le log

end Log

def headerBytes (kind : RecordKind) (len offset : Nat) : List UInt8 := kind.tag :: leBytes 4 len ++ leBytes 8 offset

def Rec.encode (rec : Rec) (offset : Nat) : List UInt8 := headerBytes rec.kind rec.payload.length offset ++ rec.payload

@[simp]
theorem headerBytes_length (kind : RecordKind) (len offset : Nat) : (headerBytes kind len offset).length = headerSize := by
  simp [headerBytes, headerSize]

@[simp]
theorem Rec.encode_length (rec : Rec) (offset : Nat) : (rec.encode offset).length = rec.size := by
  simp [Rec.encode, Rec.size]

theorem Rec.encode_header (rec : Rec) (offset : Nat) :
    (rec.encode offset).take headerSize = headerBytes rec.kind rec.payload.length offset :=
  List.take_left' (headerBytes_length _ _ _)

theorem Rec.encode_payload (rec : Rec) (offset : Nat) : (rec.encode offset).drop headerSize = rec.payload :=
  List.drop_left' (headerBytes_length _ _ _)

end Kido.Streaming

namespace Kido.Streaming

open Kido.Shared

structure Ring where
  capacity : Nat
  least : 64 ≤ capacity
  most : capacity ≤ 0x4000_0000

-- The mapping: three words and the data. `log`, `seen` and `stored` are in no word of it: they say what the writer
-- committed, which head the reader loaded last, and whether it stored `read` after that.
structure Memory where
  head : Nat
  tail : Nat
  read : Nat
  data : Nat → UInt8
  log : Log
  seen : Nat
  stored : Bool

namespace Memory

def fresh : Memory := ⟨0, 0, 0, fun _ => 0, [], 0, false⟩

end Memory

inductive ReaderOp where
  | loadHead
  | storeTail (value : Nat)
  | storeRead (value : Nat)
  | get (index : Nat)

namespace ReaderOp

abbrev Result : ReaderOp → Type
  | .loadHead => Nat
  | .get _ => UInt8
  | _ => Unit

def exec : (op : ReaderOp) → Memory → op.Result × Memory
  | .loadHead, memory => (memory.head, { memory with seen := memory.head, stored := false })
  | .storeTail value, memory => ((), { memory with tail := value })
  | .storeRead value, memory => ((), { memory with read := value, stored := true })
  | .get index, memory => (memory.data index, memory)

end ReaderOp

inductive WriterOp where
  | loadTail
  | loadRead
  | get (index : Nat)
  | set (index : Nat) (byte : UInt8)
  | storeHead (value : Nat) (rec : Rec)

namespace WriterOp

abbrev Result : WriterOp → Type
  | .loadTail => Nat
  | .loadRead => Nat
  | .get _ => UInt8
  | _ => Unit

def exec : (op : WriterOp) → Memory → op.Result × Memory
  | .loadTail, memory => (memory.tail, memory)
  | .loadRead, memory => (memory.read, memory)
  | .get index, memory => (memory.data index, memory)
  | .set index byte, memory => ((), { memory with data := Function.update memory.data index byte })
  | .storeHead value rec, memory => ((), { memory with head := value, log := memory.log ++ [rec] })

end WriterOp

variable (ring : Ring)

theorem Ring.capacity_pos : 0 < ring.capacity := by
  have least := ring.least
  omega

def Ring.Whole (pos len : Nat) : Prop := pos % ring.capacity + len ≤ ring.capacity

def Ring.data (pos len : Nat) : Option Nat :=
  if ring.capacity < pos % ring.capacity + len then none else some (pos % ring.capacity)

-- The index of data that lies in the range from `start` to `stop` too.
def Ring.readable (start stop pos len : Nat) : Option Nat := do
  let last ← checkedAdd pos len
  if pos < start ∨ stop < last then none
  else
    let width ← checkedSub stop start
    if ring.capacity < width then none else ring.data pos len

-- The memory holds the records of the log from the tail on, and the words say where they are.
structure Memory.Sound (memory : Memory) : Prop where
  head : memory.head = memory.log.head
  tail : Boundary Rec.size memory.log memory.tail
  window : memory.head ≤ memory.tail + ring.capacity
  whole : ∀ pos before rec, At Rec.size memory.log pos before rec → ring.Whole pos rec.size
  room : ring.Whole memory.head headerSize
  bound : memory.head ≤ maxPos
  holds : ∀ pos before rec, At Rec.size memory.log pos before rec → memory.tail ≤ pos →
    slice memory.data (pos % ring.capacity) rec.size = rec.encode (Log.offset before)

structure Wrote (memory later : Memory) : Prop where
  sound : memory.Sound ring → later.Sound ring
  tail : later.tail = memory.tail
  read : later.read = memory.read
  seen : later.seen = memory.seen
  stored : later.stored = memory.stored
  log : memory.log <+: later.log

structure Consumed (memory later : Memory) : Prop where
  sound : memory.Sound ring → later.Sound ring
  head : later.head = memory.head
  log : later.log = memory.log
  data : later.data = memory.data
  tail : memory.tail ≤ later.tail
  told : later.stored = true ∨ later.seen = later.head ∨
    later.read = memory.read ∧ later.seen = memory.seen ∧ later.stored = memory.stored

variable {ring}

theorem Wrote.refl (memory : Memory) : Wrote ring memory memory := ⟨id, rfl, rfl, rfl, rfl, List.prefix_rfl⟩

theorem Wrote.trans {first second third : Memory} (one : Wrote ring first second) (two : Wrote ring second third) :
    Wrote ring first third where
  sound own := two.sound (one.sound own)
  tail := two.tail.trans one.tail
  read := two.read.trans one.read
  seen := two.seen.trans one.seen
  stored := two.stored.trans one.stored
  log := one.log.trans two.log

theorem Consumed.refl (memory : Memory) : Consumed ring memory memory :=
  ⟨id, rfl, rfl, rfl, Nat.le_refl _, .inr (.inr ⟨rfl, rfl, rfl⟩)⟩

theorem Consumed.trans {first second third : Memory} (one : Consumed ring first second)
    (two : Consumed ring second third) : Consumed ring first third where
  sound own := two.sound (one.sound own)
  head := two.head.trans one.head
  log := two.log.trans one.log
  data := two.data.trans one.data
  tail := Nat.le_trans one.tail two.tail
  told := by
    rcases two.told with stored | seen | ⟨read, seen, stored⟩
    · exact .inl stored
    · exact .inr (.inl seen)
    · rw [read, seen, stored, two.head]
      exact one.told

theorem Ring.index_ne {first second : Nat} (before : first < second) (near : second < first + ring.capacity) :
    first % ring.capacity ≠ second % ring.capacity := by
  intro same
  have multiple : ring.capacity ∣ second - first := (Nat.modEq_iff_dvd' before.le).mp same
  have far := Nat.le_of_dvd (by omega) multiple
  omega

theorem Ring.Whole.index {pos len : Nat} (whole : ring.Whole pos len) {index : Nat} (inside : index < len) :
    (pos + index) % ring.capacity = pos % ring.capacity + index := by
  have small : pos % ring.capacity + index < ring.capacity := Nat.lt_of_lt_of_le (by omega) whole
  rw [Nat.add_mod, Nat.mod_eq_of_lt (show index < ring.capacity by omega), Nat.mod_eq_of_lt small]

theorem Ring.data_some {pos len : Nat} (whole : ring.Whole pos len) : ring.data pos len = some (pos % ring.capacity) :=
  if_neg (Nat.not_lt.mpr whole)

theorem Ring.readable_some {start stop pos len : Nat} (bound : stop < u64) (width : stop ≤ start + ring.capacity)
    (after : start ≤ pos) (before : pos + len ≤ stop) (whole : ring.Whole pos len) :
    ring.readable start stop pos len = some (pos % ring.capacity) := by
  have inside : ¬(pos < start ∨ stop < pos + len) := by omega
  have narrow : ¬ring.capacity < stop - start := by omega
  simp only [Ring.readable, checkedAdd_some (show pos + len < u64 by omega), Option.bind_eq_bind, Option.bind_some,
    if_neg inside, checkedSub_some (show start ≤ stop by omega), if_neg narrow, Ring.data_some whole]

namespace Memory.Sound

variable {memory : Memory}

theorem fresh : Memory.fresh.Sound ring where
  head := rfl
  tail := .zero []
  window := Nat.zero_le _
  whole pos before rec here := absurd here.begins (by simp [Memory.fresh])
  room := by
    have least := ring.least
    simp only [Ring.Whole, Memory.fresh, Nat.zero_mod, headerSize]
    omega
  bound := Nat.zero_le _
  holds pos before rec here := absurd here.begins (by simp [Memory.fresh])

theorem tail_le (own : memory.Sound ring) : memory.tail ≤ memory.head := own.head ▸ own.tail.le

theorem write (own : memory.Sound ring) {index : Nat} (after : ring.Whole memory.head (index + 1))
    (free : memory.head + index < memory.tail + ring.capacity) (byte : UInt8) :
    Sound ring { memory with data := Function.update memory.data (memory.head % ring.capacity + index) byte } where
  head := own.head
  tail := own.tail
  window := own.window
  whole := own.whole
  room := own.room
  bound := own.bound
  holds := by
    intro pos before rec here inside
    have inside : memory.tail ≤ pos := inside
    have here : At Rec.size memory.log pos before rec := here
    rw [← own.holds pos before rec here inside]
    refine slice_congr fun place short => ?_
    have stop : pos + rec.size ≤ memory.head := own.head ▸ here.end_le
    have there : (pos + place) % ring.capacity ≠ (memory.head + index) % ring.capacity :=
      Ring.index_ne (by omega) (by omega)
    rw [(own.whole pos before rec here).index short, after.index (Nat.lt_succ_self index)] at there
    exact Function.update_of_ne there _ _

theorem publish (own : memory.Sound ring) {rec : Rec} (whole : ring.Whole memory.head rec.size)
    (room : ring.Whole (memory.head + rec.size) headerSize) (free : memory.head + rec.size ≤ memory.tail + ring.capacity)
    (bound : memory.head + rec.size ≤ maxPos)
    (holds : slice memory.data (memory.head % ring.capacity) rec.size = rec.encode memory.log.offset) :
    Sound ring { memory with head := memory.head + rec.size, log := memory.log ++ [rec] } where
  head := by simp [Log.head, own.head]
  tail := own.tail.grow (List.prefix_append _ _)
  window := free
  whole := by
    intro pos before other here
    rcases here.of_snoc with old | ⟨place, _, same⟩
    · exact own.whole pos before other old
    · have start : memory.head = pos := own.head.trans place.symm
      rw [same, ← start]
      exact whole
  room := room
  bound := bound
  holds := by
    intro pos before other here inside
    rcases here.of_snoc with old | ⟨place, log, same⟩
    · exact own.holds pos before other old inside
    · have start : memory.head = pos := own.head.trans place.symm
      rw [same, log, ← start]
      exact holds

theorem release (own : memory.Sound ring) {tail : Nat} (boundary : Boundary Rec.size memory.log tail)
    (after : memory.tail ≤ tail) : Sound ring { memory with tail := tail } where
  head := own.head
  tail := boundary
  window := Nat.le_trans own.window (Nat.add_le_add_right after _)
  whole := own.whole
  room := own.room
  bound := own.bound
  holds pos before rec here inside := own.holds pos before rec here (Nat.le_trans after inside)

end Memory.Sound

end Kido.Streaming
