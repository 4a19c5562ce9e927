import Kido.Ring.Memory
import Kido.Shared.Threads

set_option autoImplicit false

namespace Kido.Streaming

open Kido.Shared

inductive Invalid where
  | record
  | head
  | slice
deriving DecidableEq

structure Record where
  kind : RecordKind
  len : Nat
  offset : Nat
  next : Nat

structure Slice where
  first : Bool
  last : Bool
  screen : Bool
deriving DecidableEq

inductive Reach where
  | behind
  | at (pos : Nat)

structure Header where
  tag : UInt8
  len : Nat
  off : Nat
  next : Nat

namespace Header

def bytesEnd (header : Header) : Option Nat :=
  if header.tag = RecordKind.bytes.tag ∧ header.off < maxOffset ∧ header.len < maxLength then
    checkedAdd header.off header.len
  else none

def endOffset (header : Header) : Nat := header.bytesEnd.getD header.off

-- A reader that resumes at the target has no use for the record.
def replayed (header : Header) (target : Nat) : Bool :=
  if header.tag = RecordKind.bytes.tag then
    match header.bytesEnd with
    | some stop => decide (stop ≤ target)
    | none => false
  else header.tag = RecordKind.pad.tag || decide (header.off < target)

end Header

structure Reader where
  tail : Nat
  seen : Nat
  settled : Nat
  settledOffset : Nat
  evicted : Nat

structure Swept where
  tail : Nat
  last : Nat
  evicted : Nat

abbrev Reading := Prog ReaderOp ReaderOp.Result

def fetch : Nat → Nat → Reading (List UInt8)
  | _, 0 => pure []
  | index, len + 1 => do
    let byte ← Prog.perform (ReaderOp.get index)
    let rest ← fetch (index + 1) len
    pure (byte :: rest)

namespace Reader

def fresh : Reader := ⟨0, 0, 0, 0, 0⟩

variable (ring : Ring) (reader : Reader)

def copy (pos len : Nat) : Reading (Option (List UInt8)) :=
  match ring.readable reader.tail reader.seen pos len with
  | none => pure none
  | some index => do
    let bytes ← fetch index len
    pure (some bytes)

def parse (pos : Nat) (bytes : List UInt8) : Option Header := do
  let tag := bytes.headD 0
  let len := ofLe ((bytes.drop 1).take 4)
  let off := ofLe (bytes.drop 5)
  let next ← (checkedAdd pos headerSize).bind (checkedAdd · len)
  let indexEnd ← (checkedAdd (pos % ring.capacity) headerSize).bind (checkedAdd · len)
  if (1 ≤ tag ∧ tag ≤ 4) ∧ indexEnd ≤ ring.capacity ∧ next ≤ reader.seen ∧ off ≤ pos then some ⟨tag, len, off, next⟩
  else none

def header (pos : Nat) : Reading (Option Header) := do
  let bytes ← reader.copy ring pos headerSize
  pure (bytes.bind (reader.parse ring pos))

def record (pos : Nat) : Reading (Except Invalid Record) := do
  match ← reader.header ring pos with
  | none => pure (.error .record)
  | some header => pure (.ok ⟨.ofTag header.tag, header.len, header.off, header.next⟩)

-- The length of a payload and its first bytes: `count` says how many of them to take for the length.
def part (pos : Nat) (count : Nat → Nat) : Reading (Except Invalid (Nat × List UInt8)) := do
  match ← reader.header ring pos with
  | none => pure (.error .record)
  | some header =>
    match checkedAdd pos headerSize with
    | none => pure (.error .record)
    | some place => do
      match ← reader.copy ring place (count header.len) with
      | some bytes => pure (.ok (header.len, bytes))
      | none => pure (.error .record)

def payload (pos : Nat) : Reading (Except Invalid (List UInt8)) := do
  let whole ← reader.part ring pos fun len => len
  pure (whole.map Prod.snd)

def prefixOf (pos room : Nat) : Reading (Except Invalid (Nat × List UInt8)) :=
  reader.part ring pos fun len => if len < room then len else room

def sliceOf (len : Nat) (bytes : List UInt8) : Except Invalid Slice :=
  if len < 2 then .error .slice
  else
    let flags := bytes.getD 0 0
    .ok ⟨flags &&& 1 ≠ 0, flags &&& 2 ≠ 0, bytes.getD 1 0 = 1⟩

def slice (pos : Nat) : Reading (Except Invalid Slice) := do
  match ← reader.prefixOf ring pos 2 with
  | .error invalid => pure (.error invalid)
  | .ok (len, bytes) => pure (sliceOf len bytes)

def head : Reading Reader := do
  let seen ← Prog.perform ReaderOp.loadHead
  pure { reader with seen := seen }

def retain (upper keep : Nat) : Nat :=
  match checkedSub upper (ring.capacity / 2) with
  | none => 0
  | some above => if above < keep then above else keep

-- The loop of `advance`. A header is longer than a byte, so the way to `upto` bounds the number of turns.
def sweep (upto : Nat) : Nat → Swept → Reading (Option Swept)
  | 0, swept => pure (some swept)
  | fuel + 1, swept =>
    if swept.tail < upto then do
      match ← reader.header ring swept.tail with
      | none => pure none
      | some header =>
        sweep upto fuel ⟨header.next, header.endOffset,
          if header.tag ≤ RecordKind.marker.tag then header.next else swept.evicted⟩
    else pure (some swept)

def settle (upper : Nat) (swept : Swept) : Reading (Option Reader) :=
  if reader.settled < swept.tail then
    if swept.tail < upper then do
      match ← reader.header ring swept.tail with
      | some header => pure (some { reader with settled := swept.tail, settledOffset := header.off })
      | none => pure none
    else pure (some { reader with settled := swept.tail, settledOffset := swept.last })
  else pure (some reader)

def release (upper : Nat) (swept : Swept) : Reading (Option Reader) :=
  if reader.tail < swept.tail then do
    match ← reader.settle ring upper swept with
    | none => pure none
    | some reader => do
      let _ ← Prog.perform (ReaderOp.storeTail swept.tail)
      pure (some { reader with tail := swept.tail, evicted := swept.evicted })
  else pure (some reader)

def advance (upper keep : Nat) : Reading (Except Invalid Unit × Reader) :=
  if upper ≠ reader.seen then pure (.error .head, reader)
  else do
    let upto := retain ring upper keep
    match ← reader.sweep ring upto (upto - reader.tail) ⟨reader.tail, 0, reader.evicted⟩ with
    | none => pure (.error .head, reader)
    | some swept => do
      match ← reader.release ring upper swept with
      | none => pure (.error .head, reader)
      | some reader => do
        let _ ← Prog.perform (ReaderOp.storeRead upper)
        pure (.ok (), reader)

def reachable (pos : Nat) : Reach :=
  if pos < reader.evicted then .behind else .at (if reader.tail < pos then pos else reader.tail)

def walk (upper : Nat) : Nat → Nat → Nat → Reading (Option (Nat × Nat))
  | 0, settled, offset => pure (some (settled, offset))
  | fuel + 1, settled, offset =>
    if settled < upper then do
      match ← reader.header ring settled with
      | none => pure none
      | some header => walk upper fuel header.next header.endOffset
    else pure (some (settled, offset))

def endOffset : Reading (Except Invalid Nat × Reader) := do
  let reader ← reader.head
  match ← reader.walk ring reader.seen (reader.seen - reader.settled) reader.settled reader.settledOffset with
  | none => pure (.error .record, reader)
  | some (settled, offset) => pure (.ok offset, { reader with settled := settled, settledOffset := offset })

def oldestOffset : Reading (Except Invalid Nat × Reader) := do
  let reader ← reader.head
  if reader.tail < reader.seen then do
    match ← reader.record ring reader.tail with
    | .ok record => pure (.ok record.offset, reader)
    | .error invalid => pure (.error invalid, reader)
  else reader.endOffset ring

def seek (target upper : Nat) : Nat → Nat → Reading (Option Nat)
  | 0, pos => pure (some pos)
  | fuel + 1, pos =>
    if pos < upper then do
      match ← reader.header ring pos with
      | none => pure none
      | some header => if header.replayed target then seek target upper fuel header.next else pure (some pos)
    else pure (some pos)

def resume (target : Nat) : Reading (Except Invalid Nat × Reader) := do
  let reader ← reader.head
  match ← reader.seek ring target reader.seen (reader.seen - reader.tail) reader.tail with
  | none => pure (.error .record, reader)
  | some pos => pure (.ok pos, reader)

inductive Call where
  | head
  | record (pos : Nat)
  | payload (pos : Nat)
  | prefixOf (pos room : Nat)
  | slice (pos : Nat)
  | advance (upper keep : Nat)
  | reachable (pos : Nat)
  | endOffset
  | oldestOffset
  | resume (target : Nat)

inductive Reply where
  | head (pos : Nat)
  | record (record : Except Invalid Record)
  | payload (bytes : Except Invalid (List UInt8))
  | prefixOf (bytes : Except Invalid (Nat × List UInt8))
  | slice (slice : Except Invalid Slice)
  | advance (done : Except Invalid Unit)
  | reachable (reach : Reach)
  | offset (offset : Except Invalid Nat)
  | resume (pos : Except Invalid Nat)

def answer (ring : Ring) (call : Call) (reader : Reader) : Reading (Reply × Reader) :=
  match call with
  | .head => do
    let reader ← reader.head
    pure (.head reader.seen, reader)
  | .record pos => do
    let record ← reader.record ring pos
    pure (.record record, reader)
  | .payload pos => do
    let bytes ← reader.payload ring pos
    pure (.payload bytes, reader)
  | .prefixOf pos room => do
    let bytes ← reader.prefixOf ring pos room
    pure (.prefixOf bytes, reader)
  | .slice pos => do
    let slice ← reader.slice ring pos
    pure (.slice slice, reader)
  | .advance upper keep => do
    let (done, reader) ← reader.advance ring upper keep
    pure (.advance done, reader)
  | .reachable pos => pure (.reachable (reader.reachable pos), reader)
  | .endOffset => do
    let (offset, reader) ← reader.endOffset ring
    pure (.offset offset, reader)
  | .oldestOffset => do
    let (offset, reader) ← reader.oldestOffset ring
    pure (.offset offset, reader)
  | .resume target => do
    let (pos, reader) ← reader.resume ring target
    pure (.resume pos, reader)

end Reader

abbrev Ring.reader (ring : Ring) : Machine Memory where
  Op := ReaderOp
  Result := ReaderOp.Result
  exec := ReaderOp.exec
  State := Reader
  Call := Reader.Call
  Reply := Reader.Reply
  body := Reader.answer ring

end Kido.Streaming
