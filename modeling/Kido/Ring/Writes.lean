import Kido.Ring.Writer

set_option autoImplicit false

namespace Kido.Streaming

open Kido.Shared

namespace Writer

-- The memory as the writer sees it: the reader changes nothing of this.
structure Owns (ring : Ring) (writer : Writer) (log : Log) (data : Nat → UInt8) (memory : Memory) : Prop where
  sound : memory.Sound ring
  head : writer.head = log.head
  woff : writer.woff = log.offset
  log : memory.log = log
  data : memory.data = data
  tail : writer.tail ≤ memory.tail
  order : writer.tail ≤ writer.head
  window : writer.head ≤ writer.tail + ring.capacity

-- The data that is free lies behind the head in one piece, as far as `len` bytes of a record.
structure Inside (ring : Ring) (writer : Writer) (len : Nat) : Prop where
  whole : ring.Whole writer.head len
  free : writer.head + len ≤ writer.tail + ring.capacity

-- The bytes that are staged lie where the payload of the next record goes.
structure Staged (ring : Ring) (writer : Writer) (data : Nat → UInt8) : Prop where
  filled : writer.filled = writer.staged.length
  inside : 0 < writer.filled → Inside ring writer (headerSize + writer.filled)
  held : Shared.slice data (writer.head % ring.capacity + headerSize) writer.filled = writer.staged

-- A record with so many bytes of payload fits, and leaves room for the header of the next one.
structure Fitting (ring : Ring) (writer : Writer) (len : Nat) : Prop extends Inside ring writer (headerSize + len) where
  padded : writer.head % ring.capacity + headerSize + len = ring.capacity ∨
    writer.head % ring.capacity + headerSize + len + headerSize ≤ ring.capacity
  bound : writer.head + headerSize + len ≤ maxHead

abbrev Writes (ring : Ring) {α : Type} := @Meets Memory WriterOp WriterOp.Result α WriterOp.exec (Consumed ring) (Wrote ring)

variable {ring : Ring} {writer : Writer} {log : Log} {data : Nat → UInt8}

theorem owns_stable : Stable (Consumed ring) (Owns ring writer log data) := by
  intro memory later consumed owns
  exact ⟨consumed.sound owns.sound, owns.head, owns.woff, consumed.log.trans owns.log,
    consumed.data.trans owns.data, Nat.le_trans owns.tail consumed.tail, owns.order, owns.window⟩

theorem Owns.head_eq {memory : Memory} (owns : Owns ring writer log data memory) : memory.head = writer.head := by
  rw [owns.sound.head, owns.log, owns.head]

theorem Owns.head_le {memory : Memory} (owns : Owns ring writer log data memory) : writer.head ≤ maxPos :=
  owns.head_eq ▸ owns.sound.bound

theorem Owns.room {memory : Memory} (owns : Owns ring writer log data memory) : ring.Whole writer.head headerSize :=
  owns.head_eq ▸ owns.sound.room

theorem maxHead_lt : maxHead ≤ maxPos ∧ maxPos + maxPos + 2 * ring.capacity + 64 < u64 := by
  have most := ring.most
  have first : maxHead ≤ maxPos := by decide
  have second : maxPos + maxPos + 2 * 0x4000_0000 + 64 < u64 := by decide
  omega

theorem fits_eq_some (head : writer.head ≤ maxPos) (order : writer.tail ≤ writer.head) (len next : Nat) :
    writer.fits ring len = some next ↔ Fitting ring writer len ∧ next = writer.head + headerSize + len := by
  obtain ⟨small, wide⟩ := @maxHead_lt ring
  have index := Nat.mod_lt writer.head ring.capacity_pos
  have header : headerSize = 13 := rfl
  have tailed : checkedAdd writer.tail ring.capacity = some (writer.tail + ring.capacity) :=
    checkedAdd_some (by omega)
  by_cases near : writer.head + headerSize + len < u64
  · have next_ : (checkedAdd writer.head headerSize).bind (checkedAdd · len) = some (writer.head + headerSize + len) := by
      rw [checkedAdd_some (by omega), Option.bind_some, checkedAdd_some near]
    have lower := Nat.mod_le writer.head ring.capacity
    have stop : (checkedAdd (writer.head % ring.capacity) headerSize).bind (checkedAdd · len) =
        some (writer.head % ring.capacity + headerSize + len) := by
      rw [checkedAdd_some (by omega), Option.bind_some, checkedAdd_some (by omega)]
    simp only [fits, next_, stop, tailed]
    by_cases long : ring.capacity < len ∨ ring.capacity < writer.head % ring.capacity + headerSize + len
    · rw [if_pos long]
      refine ⟨nofun, fun fitting => ?_⟩
      have whole := fitting.1.whole
      simp only [Ring.Whole] at whole
      omega
    · rw [if_neg long]
      have padded : checkedAdd (writer.head % ring.capacity + headerSize + len) headerSize =
          some (writer.head % ring.capacity + headerSize + len + headerSize) := checkedAdd_some (by omega)
      simp only [padded, Option.all_some, decide_eq_true_eq]
      by_cases short : writer.head % ring.capacity + headerSize + len ≠ ring.capacity ∧
          ring.capacity < writer.head % ring.capacity + headerSize + len + headerSize
      · rw [if_pos short]
        refine ⟨nofun, fun fitting => ?_⟩
        have padded := fitting.1.padded
        omega
      · rw [if_neg short]
        by_cases far : writer.tail + ring.capacity < writer.head + headerSize + len ∨
            maxHead < writer.head + headerSize + len
        · rw [if_pos far]
          refine ⟨nofun, fun fitting => ?_⟩
          have free := fitting.1.free
          have bound := fitting.1.bound
          omega
        · rw [if_neg far, Option.some.injEq]
          refine ⟨fun same => ⟨⟨⟨?_, by omega⟩, by omega, by omega⟩, same.symm⟩, fun fitting => fitting.2.symm⟩
          simp only [Ring.Whole]
          omega
  · have next_ : (checkedAdd writer.head headerSize).bind (checkedAdd · len) = none := by
      rw [checkedAdd_some (by omega), Option.bind_some, checkedAdd, if_neg near]
    have unfit : writer.fits ring len = none := by
      simp only [fits, next_]
      cases (checkedAdd (writer.head % ring.capacity) headerSize).bind (checkedAdd · len) <;> rfl
    rw [unfit]
    refine ⟨nofun, fun fitting => ?_⟩
    have bound := fitting.1.bound
    omega

theorem fits_eq_none (head : writer.head ≤ maxPos) (order : writer.tail ≤ writer.head) {len : Nat} :
    writer.fits ring len = none ↔ ¬Fitting ring writer len := by
  constructor
  · intro none_ fitting
    rw [(fits_eq_some head order len _).mpr ⟨fitting, rfl⟩] at none_
    cases none_
  · intro unfit
    cases fits : writer.fits ring len with
    | none => rfl
    | some next => exact absurd ((fits_eq_some head order len next).mp fits).1 unfit

theorem window_eq_some (head : writer.head ≤ maxPos) (order : writer.tail ≤ writer.head) (offset len place : Nat) :
    writer.window ring offset len = some place ↔
      Fitting ring writer (offset + len) ∧ place = writer.head + headerSize + offset := by
  obtain ⟨small, wide⟩ := @maxHead_lt ring
  simp only [window, Option.bind_eq_bind, Option.bind_eq_some_iff, checkedAdd_eq_some]
  constructor
  · rintro ⟨_, ⟨_, rfl⟩, next, fits, _, ⟨_, rfl⟩, _, rfl⟩
    exact ⟨((fits_eq_some head order _ _).mp fits).1, rfl⟩
  · rintro ⟨fitting, rfl⟩
    have bound := fitting.bound
    exact ⟨_, ⟨by omega, rfl⟩, _, (fits_eq_some head order _ _).mpr ⟨fitting, rfl⟩, _, ⟨by omega, rfl⟩, by omega, rfl⟩

theorem set_meets {offset : Nat} (inside : Inside ring writer (offset + 1)) (byte : UInt8) :
    Writes ring (Owns ring writer log data)
      (Prog.perform (WriterOp.set (writer.head % ring.capacity + offset) byte)) fun _ =>
      Owns ring writer log (Function.update data (writer.head % ring.capacity + offset) byte) := by
  refine Meets.perform owns_stable (fun _ => owns_stable) fun memory owns => ?_
  have same := owns.head_eq
  have free := inside.free
  have tail := owns.tail
  have keeps (sound : memory.Sound ring) : Memory.Sound ring
      { memory with data := Function.update memory.data (writer.head % ring.capacity + offset) byte } :=
    same ▸ sound.write (same ▸ inside.whole) (by omega) byte
  refine ⟨⟨keeps, rfl, rfl, rfl, rfl, List.prefix_rfl⟩, ?_⟩
  exact ⟨keeps owns.sound, owns.head, owns.woff, owns.log, owns.data ▸ rfl, owns.tail, owns.order, owns.window⟩

theorem store_meets (bytes : List UInt8) (offset : Nat) (inside : Inside ring writer (offset + bytes.length)) :
    Writes ring (Owns ring writer log data) (store (writer.head % ring.capacity + offset) bytes) fun _ =>
      Owns ring writer log (patch data (writer.head % ring.capacity + offset) bytes) := by
  induction bytes generalizing offset data with
  | nil => exact Meets.ret owns_stable fun memory owns => (patch_nil data _).symm ▸ owns
  | cons byte bytes ih =>
    obtain ⟨whole, free⟩ := inside
    rw [List.length_cons] at whole free
    simp only [Ring.Whole] at whole
    have first : Inside ring writer (offset + 1) := ⟨by simp only [Ring.Whole]; omega, by omega⟩
    have rest : Inside ring writer (offset + 1 + bytes.length) := ⟨by simp only [Ring.Whole]; omega, by omega⟩
    rw [patch_cons]
    exact Meets.bind Consumed.refl _ (set_meets first byte) fun _ => ih (offset + 1) rest

theorem store_at_meets (bytes : List UInt8) (offset : Nat) (inside : Inside ring writer (offset + bytes.length)) :
    Writes ring (Owns ring writer log data) (store ((writer.head + offset) % ring.capacity) bytes) fun _ =>
      Owns ring writer log (patch data (writer.head % ring.capacity + offset) bytes) := by
  cases bytes with
  | nil => exact Meets.ret owns_stable fun memory owns => (patch_nil data _).symm ▸ owns
  | cons byte bytes =>
    rw [inside.whole.index (by simp)]
    exact store_meets (byte :: bytes) offset inside

theorem inside_whole {offset len : Nat} (inside : Inside ring writer (offset + len)) :
    ring.Whole (writer.head + offset) len := by
  rcases Nat.eq_zero_or_pos len with rfl | some_
  · have index := Nat.mod_lt (writer.head + offset) ring.capacity_pos
    simp only [Ring.Whole]
    omega
  · have place : (writer.head + offset) % ring.capacity = writer.head % ring.capacity + offset :=
      inside.whole.index (by omega)
    have whole := inside.whole
    simp only [Ring.Whole] at whole ⊢
    omega

theorem write_meets (bytes : List UInt8) (offset : Nat) (inside : Inside ring writer (offset + bytes.length)) :
    Writes ring (Owns ring writer log data) (ring.write (writer.head + offset) bytes) fun done memory =>
      done = some () ∧ Owns ring writer log (patch data (writer.head % ring.capacity + offset) bytes) memory := by
  rw [Ring.write, Ring.data_some (inside_whole inside)]
  refine Meets.bind Consumed.refl _ (store_at_meets bytes offset inside) fun _ => ?_
  exact Meets.ret owns_stable fun memory owns => ⟨rfl, owns⟩

-- A reader that stored `read` and then loaded the same head again is told that the writer saw it idle.
def Woken (memory : Memory) (pos : Nat) (idle : Bool) : Prop :=
  memory.stored = false → memory.read = memory.seen → memory.seen = pos → idle = true

structure Committed (ring : Ring) (writer : Writer) (log : Log) (rec : Rec) (commit : Commit) (later : Writer)
    (memory : Memory) : Prop where
  accepted : commit ≠ .refused
  fitting : Fitting ring writer rec.payload.length
  head : later.head = writer.head + rec.size
  tail : later.tail = writer.tail
  filled : later.filled = 0
  staged : later.staged = []
  owns : ∃ data, Owns ring later (log ++ [rec]) data memory
  woken : Woken memory writer.head (decide (commit = .idle))

theorem woken_kept {memory later : Memory} {pos : Nat} {idle : Bool} (consumed : Consumed ring memory later)
    (before : pos < memory.head) (woken : Woken memory pos idle) : Woken later pos idle := by
  intro stored read seen
  rcases consumed.told with told | head | ⟨read', seen', stored'⟩
  · rw [told] at stored
    cases stored
  · rw [← consumed.head] at before
    omega
  · exact woken (stored' ▸ stored) (by rw [← read', ← seen', read]) (seen' ▸ seen)

theorem committed_stable {rec : Rec} {commit : Commit} {later : Writer} :
    Stable (Consumed ring) (Committed ring writer log rec commit later) := by
  rintro memory next consumed ⟨refused, fitting, head, tail, filled, staged, ⟨data, owns⟩, woken⟩
  have some_ := rec.size_pos
  refine ⟨refused, fitting, head, tail, filled, staged, ⟨data, owns_stable _ _ consumed owns⟩, ?_⟩
  exact woken_kept consumed (by rw [owns.head_eq]; omega) woken

theorem publish_meets {rec : Rec} {next : Writer} (fitting : Fitting ring writer rec.payload.length)
    (held : Shared.slice data (writer.head % ring.capacity) rec.size = rec.encode log.offset)
    (same : next = ⟨writer.head + rec.size, writer.woff + rec.streamed, writer.tail, 0, []⟩) :
    Writes ring (Owns ring writer log data) (Prog.perform (WriterOp.storeHead (writer.head + rec.size) rec)) fun _ =>
      Owns ring next (log ++ [rec]) data := by
  refine Meets.perform owns_stable (fun _ => owns_stable) fun memory owns => ?_
  obtain ⟨⟨whole, free⟩, padded, bound⟩ := fitting
  have least := ring.least
  have head := owns.head_eq
  have tail := owns.tail
  have order := owns.order
  have small := (@maxHead_lt ring).1
  have size : rec.size = headerSize + rec.payload.length := rfl
  have header : headerSize = 13 := rfl
  have room : ring.Whole (writer.head + rec.size) headerSize := by
    simp only [Ring.Whole] at whole ⊢
    rcases padded with last | more
    · have start : (writer.head + rec.size) % ring.capacity = 0 := by
        rw [Nat.add_mod, ← Nat.add_mod, ← Nat.mod_add_mod, size, ← Nat.add_assoc, last, Nat.mod_self]
      omega
    · have place : (writer.head + rec.size) % ring.capacity = writer.head % ring.capacity + rec.size := by
        rw [← Nat.mod_add_mod, Nat.mod_eq_of_lt (by omega)]
      omega
  have keeps (sound : memory.Sound ring) : Memory.Sound ring
      { memory with head := writer.head + rec.size, log := memory.log ++ [rec] } :=
    head ▸ sound.publish (head ▸ whole) (head ▸ room) (by omega) (by omega) (by rw [head, owns.data, owns.log, held])
  refine ⟨⟨keeps, rfl, rfl, rfl, rfl, List.prefix_append _ _⟩, ?_⟩
  subst same
  refine ⟨keeps owns.sound, ?_, ?_, by rw [← owns.log]; rfl, owns.data, owns.tail, by simp only; omega, by simp only; omega⟩
  · simp [Log.head, owns.head]
  · simp [Log.offset, owns.woff]

-- What `commit` comes to: it refuses and changes nothing, or it commits the bytes that are staged.
def CommitEnds (ring : Ring) (writer : Writer) (log : Log) (data : Nat → UInt8) (kind : RecordKind) (len : Nat)
    (value : Commit × Writer) (memory : Memory) : Prop :=
  (value = (.refused, writer) ∧ ¬(Fitting ring writer len ∧ len ≤ writer.filled) ∧ Owns ring writer log data memory) ∨
    (len ≤ writer.filled ∧
      Committed ring writer log ⟨kind, writer.staged.take len⟩ value.1 value.2 memory)

theorem commit_meets (staged : Staged ring writer data) (kind : RecordKind) (len : Nat) :
    Writes ring (Owns ring writer log data) (writer.commit ring kind len)
      (CommitEnds ring writer log data kind len) := by
  intro start owns
  have head := owns.head_le
  have order := owns.order
  obtain ⟨small, wide⟩ := @maxHead_lt ring
  rw [commit]
  cases fits : writer.fits ring len with
  | none =>
    have unfit := (fits_eq_none head order).mp fits
    exact Meets.ret owns_stable (fun memory owns => .inl ⟨rfl, fun both => unfit both.1, owns⟩) start owns
  | some next =>
    obtain ⟨fitting, rfl⟩ := (fits_eq_some head order len next).mp fits
    by_cases short : writer.filled < len
    · simp only [if_pos short]
      exact Meets.ret owns_stable (fun memory owns => .inl ⟨rfl, fun both => by omega, owns⟩) start owns
    · simp only [if_neg short]
      have count : (writer.staged.take len).length = len := by
        rw [List.length_take, ← staged.filled]
        omega
      have size : (Rec.mk kind (writer.staged.take len)).size = headerSize + len := by rw [Rec.size, count]
      have bound := fitting.bound
      have woff : writer.woff ≤ writer.head := by
        rw [owns.woff, owns.head]
        exact Log.offset_le log
      have counted : (if kind = .bytes then checkedAdd writer.woff len else some writer.woff) =
          some (writer.woff + (Rec.mk kind (writer.staged.take len)).streamed) := by
        by_cases bytes : kind = .bytes
        · rw [if_pos bytes, checkedAdd_some (by omega)]
          simp [Rec.streamed, bytes, count]
        · simp [Rec.streamed, bytes]
      simp only [counted]
      have front : Inside ring writer (0 + (headerBytes kind len writer.woff).length) := by
        obtain ⟨whole, free⟩ := fitting.toInside
        simp only [Ring.Whole] at whole
        rw [headerBytes_length]
        exact ⟨by simp only [Ring.Whole]; omega, by omega⟩
      refine Meets.bind Consumed.refl _ (write_meets _ 0 front) (fun done => ?_) start owns
      rintro memory ⟨rfl, owns⟩
      -- The header is in front of the bytes that are staged, so that both make the record.
      have held : Shared.slice (patch data (writer.head % ring.capacity + 0) (headerBytes kind len writer.woff))
          (writer.head % ring.capacity) (Rec.mk kind (writer.staged.take len)).size =
          (Rec.mk kind (writer.staged.take len)).encode log.offset := by
        have first := slice_patch data (writer.head % ring.capacity) (headerBytes kind len writer.woff)
        have second : Shared.slice data (writer.head % ring.capacity + headerSize + 0) len =
            (writer.staged.drop 0).take len := slice_sub staged.held (by omega)
        rw [headerBytes_length] at first
        rw [Nat.add_zero, List.drop_zero] at second
        rw [size, slice_add, Nat.add_zero, first, slice_patch_after _ _ (by simp), second, Rec.encode, count, owns.woff]
      have fitted : Fitting ring writer (Rec.mk kind (writer.staged.take len)).payload.length := by rwa [count]
      have next : writer.head + headerSize + len = writer.head + (Rec.mk kind (writer.staged.take len)).size := by
        rw [size, Nat.add_assoc]
      rw [next]
      refine Meets.bind Consumed.refl _ (publish_meets fitted held rfl) (fun _ => ?_) memory owns
      -- The load of `read` comes after the store of the head: only then does the answer say that the reader is idle.
      refine Meets.bind Consumed.refl (fun read memory => Committed ring writer log ⟨kind, writer.staged.take len⟩
        (if read = writer.head then .idle else .published)
        ⟨writer.head + (Rec.mk kind (writer.staged.take len)).size,
          writer.woff + (Rec.mk kind (writer.staged.take len)).streamed, writer.tail, 0, []⟩ memory) ?_ fun read => ?_
      · refine Meets.perform owns_stable (fun _ => committed_stable) fun memory owns => ⟨.refl memory, ?_⟩
        refine ⟨by split <;> simp, fitted, rfl, rfl, rfl, rfl, ⟨_, owns⟩, ?_⟩
        intro stored read seen
        have idle : memory.read = writer.head := read.trans seen
        simp [WriterOp.exec, idle]
      · exact Meets.ret committed_stable fun memory committed => .inr ⟨by omega, committed⟩

theorem Owns.of_fields {memory : Memory} (owns : Owns ring writer log data memory) (filled : Nat)
    (staged : List UInt8) : Owns ring { writer with filled := filled, staged := staged } log data memory :=
  ⟨owns.sound, owns.head, owns.woff, owns.log, owns.data, owns.tail, owns.order, owns.window⟩

def Holds (ring : Ring) (writer : Writer) (log : Log) (memory : Memory) : Prop :=
  ∃ data, Owns ring writer log data memory ∧ Staged ring writer data

theorem holds_stable : Stable (Consumed ring) (Holds ring writer log) := by
  rintro memory later consumed ⟨data, owns, staged⟩
  exact ⟨data, owns_stable _ _ consumed owns, staged⟩

theorem Holds.facts {memory : Memory} (holds : Holds ring writer log memory) :
    writer.head ≤ maxPos ∧ writer.tail ≤ writer.head := by
  obtain ⟨data, owns, staged⟩ := holds
  exact ⟨owns.head_le, owns.order⟩

theorem overlay_length {staged bytes : List UInt8} {offset : Nat} (near : offset ≤ staged.length) :
    (overlay staged offset bytes).length = max staged.length (offset + bytes.length) := by
  rw [overlay, if_pos near]
  simp only [List.length_append, List.length_take, List.length_drop]
  omega

def wrote (writer : Writer) (offset : Nat) (bytes : List UInt8) : Writer :=
  { writer with
    filled := if offset ≤ writer.filled ∧ writer.filled < offset + bytes.length then offset + bytes.length
      else writer.filled
    staged := overlay writer.staged offset bytes }

theorem wrote_staged (staged : Staged ring writer data) {offset : Nat} {bytes : List UInt8}
    (fitting : Fitting ring writer (offset + bytes.length)) :
    Staged ring (wrote writer offset bytes)
      (patch data (writer.head % ring.capacity + (headerSize + offset)) bytes) := by
  have filled := staged.filled
  rw [← Nat.add_assoc]
  by_cases near : offset ≤ writer.filled
  · have length : (if offset ≤ writer.filled ∧ writer.filled < offset + bytes.length then offset + bytes.length
        else writer.filled) = max writer.filled (offset + bytes.length) := by
      split <;> omega
    refine ⟨?_, fun some_ => ?_, ?_⟩
    · simp only [wrote, length]
      rw [overlay_length (filled ▸ near), filled]
    · simp only [wrote, length]
      rcases Nat.le_total writer.filled (offset + bytes.length) with more | less
      · rw [Nat.max_eq_right more]
        exact ⟨fitting.whole, fitting.free⟩
      · rw [Nat.max_eq_left less]
        simp only [wrote, length, Nat.max_eq_left less] at some_
        exact ⟨(staged.inside some_).whole, (staged.inside some_).free⟩
    · simp only [wrote, length]
      rw [slice_overlay staged.held bytes near, overlay, if_pos (filled ▸ near)]
  · have length : (if offset ≤ writer.filled ∧ writer.filled < offset + bytes.length then offset + bytes.length
        else writer.filled) = writer.filled := if_neg (by omega)
    have same : overlay writer.staged offset bytes = writer.staged := if_neg (by omega)
    refine ⟨?_, ?_, ?_⟩
    · simp only [wrote, length, same]
      exact filled
    · simp only [wrote, length]
      exact fun some_ => ⟨(staged.inside some_).whole, (staged.inside some_).free⟩
    · simp only [wrote, length, same]
      rw [slice_patch_before _ _ (by omega)]
      exact staged.held

def WriteEnds (ring : Ring) (writer : Writer) (log : Log) (offset : Nat) (bytes : List UInt8)
    (value : Option Unit × Writer) (memory : Memory) : Prop :=
  (value = (none, writer) ∧ ¬Fitting ring writer (offset + bytes.length) ∧ Holds ring writer log memory) ∨
    (value = (some (), wrote writer offset bytes) ∧ Fitting ring writer (offset + bytes.length) ∧
      Holds ring (wrote writer offset bytes) log memory)

theorem writeAt_meets (offset : Nat) (bytes : List UInt8) :
    Writes ring (Holds ring writer log) (writer.writeAt ring offset bytes) (WriteEnds ring writer log offset bytes) := by
  intro start holds
  obtain ⟨head, order⟩ := holds.facts
  rw [writeAt]
  cases place : writer.window ring offset bytes.length with
  | none =>
    have unfit : ¬Fitting ring writer (offset + bytes.length) := fun fitting => by
      rw [(window_eq_some head order _ _ _).mpr ⟨fitting, rfl⟩] at place
      cases place
    exact Meets.ret holds_stable (fun memory holds => .inl ⟨rfl, unfit, holds⟩) start holds
  | some place_ =>
    obtain ⟨fitting, rfl⟩ := (window_eq_some head order _ _ _).mp place
    obtain ⟨data, owns, staged⟩ := holds
    obtain ⟨small, wide⟩ := @maxHead_lt ring
    have bound := fitting.bound
    have inside : Inside ring writer (headerSize + offset + bytes.length) := by
      rw [Nat.add_assoc]
      exact fitting.toInside
    rw [Nat.add_assoc]
    refine Meets.bind Consumed.refl _ (write_meets bytes (headerSize + offset) inside) (fun done => ?_) start owns
    rintro memory ⟨rfl, owns⟩
    simp only [checkedAdd_some (show offset + bytes.length < u64 by omega)]
    refine Meets.ret owns_stable (fun memory owns => .inr ⟨rfl, fitting, ?_⟩) memory owns
    exact ⟨_, owns.of_fields _ _, wrote_staged staged fitting⟩

theorem take_staged (staged : Staged ring writer data) {len : Nat} (bytes : List UInt8)
    (fitting : Fitting ring writer (writer.filled + len)) :
    Staged ring { writer with
        filled := writer.filled + (bytes.take len).length, staged := writer.staged ++ bytes.take len }
      (patch data (writer.head % ring.capacity + (headerSize + writer.filled)) (bytes.take len)) := by
  refine ⟨by simp [staged.filled], fun some_ => ?_, ?_⟩
  · obtain ⟨whole, free⟩ := fitting.toInside
    have short : (bytes.take len).length ≤ len := List.length_take_le _ _
    simp only [Ring.Whole] at whole
    exact ⟨by simp only [Ring.Whole]; omega, by simp only; omega⟩
  · simp only [← Nat.add_assoc]
    rw [slice_add, slice_patch_before _ _ (Nat.le_refl _), slice_patch, staged.held]

-- What `fill` comes to: it stages some bytes of the source, or nothing.
def FillEnds (ring : Ring) (writer : Writer) (log : Log) (len : Nat) (source : Option (List UInt8))
    (value : Option (Except Unit Nat) × Writer) (memory : Memory) : Prop :=
  Holds ring value.2 log memory ∧
    (value.2 = writer ∨ ∃ bytes, source = some bytes ∧ value.2 =
      { writer with filled := writer.filled + (bytes.take len).length, staged := writer.staged ++ bytes.take len })

theorem fill_meets (len : Nat) (source : Option (List UInt8)) :
    Writes ring (Holds ring writer log) (writer.fill ring len source) (FillEnds ring writer log len source) := by
  intro start holds
  obtain ⟨head, order⟩ := holds.facts
  have stays : ∀ memory, Holds ring writer log memory → ∀ reply : Option (Except Unit Nat),
      FillEnds ring writer log len source (reply, writer) memory := fun memory holds reply => ⟨holds, .inl rfl⟩
  rw [fill]
  cases place : writer.window ring writer.filled len with
  | none => exact Meets.ret holds_stable (fun memory holds => stays memory holds _) start holds
  | some place_ =>
    obtain ⟨fitting, rfl⟩ := (window_eq_some head order _ _ _).mp place
    have whole := fitting.toInside
    rw [← Nat.add_assoc] at whole
    have index := Ring.data_some (inside_whole whole)
    rw [← Nat.add_assoc] at index
    simp only [index]
    cases source with
    | none => exact Meets.ret holds_stable (fun memory holds => stays memory holds _) start holds
    | some bytes =>
      obtain ⟨data, owns, staged⟩ := holds
      obtain ⟨small, wide⟩ := @maxHead_lt ring
      have bound := fitting.bound
      have short : (bytes.take len).length ≤ len := List.length_take_le _ _
      have inside : Inside ring writer (headerSize + writer.filled + (bytes.take len).length) := by
        obtain ⟨whole, free⟩ := whole
        simp only [Ring.Whole] at whole
        exact ⟨by simp only [Ring.Whole]; omega, by omega⟩
      have after := checkedAdd_some (show writer.filled + (bytes.take len).length < u64 by omega)
      rw [Nat.add_assoc]
      refine Meets.bind Consumed.refl _ (store_at_meets (bytes.take len) _ inside) (fun _ => ?_) start owns
      simp only [after]
      refine Meets.ret owns_stable fun memory owns => ⟨⟨_, owns.of_fields _ _, take_staged staged bytes fitting⟩, ?_⟩
      exact .inr ⟨bytes, rfl, rfl⟩

-- What is left of the data behind the head, in one piece, and how much of it and of the rest is free.
def rest (ring : Ring) (writer : Writer) : Nat := ring.capacity - writer.head % ring.capacity

def free (ring : Ring) (writer : Writer) : Nat := ring.capacity - (writer.head - writer.tail)

def Pads (ring : Ring) (writer : Writer) : Prop :=
  writer.head < maxHead ∧ rest ring writer ≤ padRoom ∧ Fitting ring writer (rest ring writer - headerSize)

def padding (ring : Ring) (writer : Writer) : Rec := ⟨.pad, List.replicate (rest ring writer - headerSize) 0⟩

def RoomEnds (ring : Ring) (writer : Writer) (log : Log) (value : Option Available × Writer) (memory : Memory) : Prop :=
  (¬Pads ring writer ∧ Holds ring writer log memory ∧
      value = (if writer.head < maxHead ∧ padRoom < rest ring writer then
        some ⟨min (free ring writer) (rest ring writer) - padRoom, false⟩ else none, writer)) ∨
    (Pads ring writer ∧ ∃ commit, Committed ring writer log (padding ring writer) commit value.2 memory ∧
      value.1 = some ⟨min (free ring writer - rest ring writer) ring.capacity - padRoom, decide (commit = .idle)⟩)

theorem Committed.holds {memory : Memory} {rec : Rec} {commit : Commit} {later : Writer}
    (committed : Committed ring writer log rec commit later memory) : Holds ring later (log ++ [rec]) memory := by
  obtain ⟨data, owns⟩ := committed.owns
  have staged := committed.staged
  have filled := committed.filled
  refine ⟨data, owns, by rw [filled, staged]; rfl, fun some_ => ?_, by rw [filled, staged]; rfl⟩
  rw [filled] at some_
  cases some_

theorem overlay_take (staged bytes : List UInt8) : (overlay staged 0 bytes).take bytes.length = bytes := by
  simp [overlay]

theorem wrote_filled (writer : Writer) {bytes : List UInt8} {len : Nat} (short : len ≤ bytes.length) :
    len ≤ (wrote writer 0 bytes).filled := by
  simp only [wrote]
  split <;> omega

theorem Committed.of_wrote {memory : Memory} {rec : Rec} {commit : Commit} {later : Writer} {filled : Nat}
    {staged : List UInt8}
    (committed : Committed ring { writer with filled := filled, staged := staged } log rec commit later memory) :
    Committed ring writer log rec commit later memory where
  accepted := committed.accepted
  fitting := ⟨⟨committed.fitting.whole, committed.fitting.free⟩, committed.fitting.padded, committed.fitting.bound⟩
  head := committed.head
  tail := committed.tail
  filled := committed.filled
  staged := committed.staged
  owns := committed.owns
  woken := committed.woken

theorem ite_lt_eq_min (first second : Nat) : (if first < second then first else second) = min first second := by
  split <;> omega

theorem room_meets :
    Writes ring (Holds ring writer log) (writer.room ring) (RoomEnds ring writer log) := by
  intro start holds
  obtain ⟨head, order⟩ := holds.facts
  have ⟨data, owns, staged⟩ := holds
  have window := owns.window
  have behind := owns.room
  have lower := Nat.mod_lt writer.head ring.capacity_pos
  have header : headerSize = 13 := rfl
  have twice : padRoom = 26 := rfl
  rw [room]
  by_cases last : maxHead ≤ writer.head
  · rw [if_pos last]
    refine Meets.ret holds_stable (fun memory holds => .inl ⟨fun pads => ?_, holds, ?_⟩) start holds
    · exact absurd pads.1 (by omega)
    · rw [if_neg (by omega)]
  · rw [if_neg last]
    simp only [checkedSub_some order, Option.bind_some, checkedSub_some (show writer.head - writer.tail ≤ ring.capacity by omega),
      checkedSub_some lower.le]
    by_cases far : padRoom < ring.capacity - writer.head % ring.capacity
    · simp only [if_pos far]
      refine Meets.ret holds_stable (fun memory holds => .inl ⟨fun pads => ?_, holds, ?_⟩) start holds
      · exact absurd pads.2.1 (Nat.not_le.mpr far)
      · have both : writer.head < maxHead ∧ padRoom < rest ring writer := ⟨Nat.lt_of_not_le last, far⟩
        rw [if_pos both, ite_lt_eq_min]
        rfl
    · simp only [if_neg far]
      have none_ : (if writer.head < maxHead ∧ padRoom < rest ring writer then
          some (Available.mk (min (free ring writer) (rest ring writer) - padRoom) false) else none) = none :=
        if_neg fun both => far both.2
      simp only [Ring.Whole] at behind
      by_cases tight : ring.capacity - (writer.head - writer.tail) < ring.capacity - writer.head % ring.capacity
      · simp only [if_pos tight]
        refine Meets.ret holds_stable (fun memory holds => .inl ⟨fun pads => ?_, holds, by rw [none_]⟩) start holds
        have free := pads.2.2.free
        simp only [rest] at free
        omega
      · simp only [if_neg tight, checkedSub_some (show headerSize ≤ ring.capacity - writer.head % ring.capacity by omega)]
        refine Meets.bind Consumed.refl _ (writeAt_meets 0 _) (fun value => ?_) start holds
        rintro memory (⟨rfl, unfit, holds⟩ | ⟨rfl, fitting, holds⟩)
        · refine Meets.ret holds_stable (fun memory holds => .inl ⟨fun pads => ?_, holds, by rw [none_]⟩) memory holds
          rw [List.length_replicate, Nat.zero_add] at unfit
          exact unfit pads.2.2
        · rw [List.length_replicate, Nat.zero_add] at fitting
          obtain ⟨data, owns, staged⟩ := holds
          have fitted : Fitting ring (wrote writer 0 (List.replicate (ring.capacity - writer.head % ring.capacity - headerSize) 0))
              (ring.capacity - writer.head % ring.capacity - headerSize) :=
            ⟨⟨fitting.whole, fitting.free⟩, fitting.padded, fitting.bound⟩
          refine Meets.bind Consumed.refl _ (commit_meets staged .pad _) (fun value => ?_) memory owns
          rintro memory (⟨rfl, unfit, owns⟩ | ⟨enough, committed⟩)
          · have filled : ring.capacity - writer.head % ring.capacity - headerSize ≤ (wrote writer 0 (List.replicate
                (ring.capacity - writer.head % ring.capacity - headerSize) 0)).filled := wrote_filled _ (by simp)
            exact absurd ⟨fitted, filled⟩ unfit
          · have pads : Pads ring writer := ⟨Nat.lt_of_not_le last, Nat.le_of_not_lt far, fitting⟩
            obtain ⟨commit, later⟩ := value
            have zeros := overlay_take writer.staged
              (List.replicate (ring.capacity - writer.head % ring.capacity - headerSize) 0)
            rw [List.length_replicate] at zeros
            have committed : Committed ring writer log (padding ring writer) commit later memory := by
              simp only [wrote, zeros] at committed
              exact committed.of_wrote
            cases commit with
            | refused => exact absurd rfl committed.accepted
            | published | idle =>
              refine Meets.ret committed_stable (fun memory committed => .inr ⟨pads, _, committed, ?_⟩) memory committed
              rw [ite_lt_eq_min]
              rfl

def AvailableEnds (ring : Ring) (writer : Writer) (log : Log) (from_ : Nat) (value : Available × Writer)
    (memory : Memory) : Prop :=
  ∃ tail room, from_ ≤ tail ∧ writer.tail ≤ tail ∧ tail ≤ writer.head ∧ value.1 = Option.getD room ⟨0, false⟩ ∧
    RoomEnds ring { writer with tail := tail } log (room, value.2) memory

theorem roomEnds_stable {value : Option Available × Writer} :
    Stable (Consumed ring) (RoomEnds ring writer log value) := by
  rintro memory later consumed (⟨stays, holds, same⟩ | ⟨pads, commit, committed, same⟩)
  · exact .inl ⟨stays, holds_stable _ _ consumed holds, same⟩
  · exact .inr ⟨pads, commit, committed_stable _ _ consumed committed, same⟩

theorem available_meets (from_ : Nat) :
    Writes ring (fun memory => Holds ring writer log memory ∧ from_ ≤ memory.tail) (writer.available ring)
      (AvailableEnds ring writer log from_) := by
  have stable : Stable (Consumed ring) fun memory => Holds ring writer log memory ∧ from_ ≤ memory.tail :=
    fun memory later consumed both => ⟨holds_stable _ _ consumed both.1, Nat.le_trans both.2 consumed.tail⟩
  refine Meets.bind Consumed.refl (fun tail memory => (from_ ≤ tail ∧ writer.tail ≤ tail ∧ tail ≤ writer.head) ∧
    Holds ring { writer with tail := tail } log memory) ?_ fun tail => ?_
  · refine Meets.perform stable (fun tail => Stable.and (.const _) holds_stable) fun memory both => ⟨.refl memory, ?_⟩
    obtain ⟨⟨data, owns, staged⟩, after⟩ := both
    have order := owns.head_eq ▸ owns.sound.tail_le
    have window := owns.head_eq ▸ owns.sound.window
    refine ⟨⟨after, owns.tail, order⟩, data, ?_, staged.filled, fun some_ => ?_, staged.held⟩
    · exact ⟨owns.sound, owns.head, owns.woff, owns.log, owns.data, Nat.le_refl _, order, window⟩
    · have inside := staged.inside some_
      exact ⟨inside.whole, Nat.le_trans inside.free (Nat.add_le_add_right owns.tail _)⟩
  · rintro memory ⟨⟨after, grown, order⟩, holds⟩
    refine Meets.bind Consumed.refl _ room_meets (fun value => ?_) memory holds
    exact Meets.ret roomEnds_stable fun memory ends => ⟨tail, value.1, after, grown, order, rfl, ends⟩

theorem load_meets (index len : Nat) : Writes ring (Owns ring writer log data) (load index len) fun bytes memory =>
    Owns ring writer log data memory ∧ bytes = Shared.slice data index len := by
  induction len generalizing index with
  | zero => exact Meets.ret owns_stable fun memory owns => ⟨owns, rfl⟩
  | succ len ih =>
    refine Meets.bind Consumed.refl
      (fun byte memory => Owns ring writer log data memory ∧ byte = data index) ?_ fun byte => ?_
    · refine Meets.perform owns_stable (fun _ => owns_stable.and (.const _)) fun memory owns => ⟨.refl memory, owns, ?_⟩
      exact congrFun owns.data index
    · rintro memory ⟨owns, rfl⟩
      refine Meets.bind Consumed.refl _ (ih (index + 1)) (fun bytes => ?_) memory owns
      rintro memory ⟨owns, rfl⟩
      exact Meets.ret owns_stable (fun memory owns => ⟨owns, (slice_succ data index len).symm⟩) memory owns

theorem pending_meets (len : Nat) : Writes ring (Holds ring writer log) (writer.pending ring len) fun bytes memory =>
    Holds ring writer log memory ∧
      bytes = if len = 0 ∨ writer.filled < len then none else some (writer.staged.take len) := by
  intro start holds
  obtain ⟨head, order⟩ := holds.facts
  rw [pending]
  by_cases none_ : len = 0 ∨ writer.filled < len
  · rw [if_pos none_]
    exact Meets.ret holds_stable (fun memory holds => ⟨holds, by rw [if_pos none_]⟩) start holds
  · rw [if_neg none_]
    obtain ⟨data, owns, staged⟩ := holds
    obtain ⟨small, wide⟩ := @maxHead_lt ring
    have inside := staged.inside (by omega)
    have free := inside.free
    have part : Inside ring writer (headerSize + len) := by
      have whole := inside.whole
      simp only [Ring.Whole] at whole
      exact ⟨by simp only [Ring.Whole]; omega, by omega⟩
    have header : headerSize = 13 := rfl
    have place : (writer.head + headerSize) % ring.capacity = writer.head % ring.capacity + headerSize :=
      part.whole.index (by omega)
    have readable : ring.readable writer.head (writer.head + headerSize + writer.filled) (writer.head + headerSize) len =
        some (writer.head % ring.capacity + headerSize) := by
      rw [Ring.readable_some (by omega) (by have := inside.whole; simp only [Ring.Whole] at this; omega) (by omega)
        (by omega) (inside_whole part), place]
    simp only [checkedAdd_some (show writer.head + headerSize < u64 by omega),
      checkedAdd_some (show writer.head + headerSize + writer.filled < u64 by omega), readable]
    refine Meets.bind Consumed.refl _ (load_meets _ len) (fun bytes => ?_) start owns
    rintro memory ⟨owns, rfl⟩
    refine Meets.ret owns_stable (fun memory owns => ⟨⟨data, owns, staged⟩, ?_⟩) memory owns
    have held := slice_sub staged.held (show 0 + len ≤ writer.filled by omega)
    rw [Nat.add_zero, List.drop_zero] at held
    rw [if_neg none_, held]

theorem put_meets (kind : RecordKind) (payload : List UInt8) :
    Writes ring (Holds ring writer log) (writer.put ring kind payload) fun value memory =>
      (value.1 = .refused ∧ Holds ring value.2 log memory ∧ value.2.head = writer.head) ∨
        Committed ring writer log ⟨kind, payload⟩ value.1 value.2 memory := by
  refine Meets.bind Consumed.refl _ (writeAt_meets 0 payload) fun value => ?_
  rintro memory (⟨rfl, unfit, holds⟩ | ⟨rfl, fitting, holds⟩)
  · exact Meets.ret holds_stable (fun memory holds => .inl ⟨rfl, holds, rfl⟩) memory holds
  · obtain ⟨data, owns, staged⟩ := holds
    refine (commit_meets staged kind payload.length memory owns).mono ?_
    rintro ⟨commit, later⟩ memory (⟨same, unfit, owns⟩ | ⟨enough, committed⟩)
    · cases same
      exact .inl ⟨rfl, ⟨data, owns, staged⟩, rfl⟩
    · simp only [wrote, overlay_take] at committed
      exact .inr committed.of_wrote

end Writer

end Kido.Streaming
