import Kido.Ring.Memory
import Kido.Shared.Threads

set_option autoImplicit false

namespace Kido.Streaming

open Kido.Shared

inductive Commit where
  | refused
  | published
  | idle
deriving DecidableEq

structure Available where
  room : Nat
  idle : Bool

-- `staged` is in no field of the source: it is what the `filled` bytes are.
structure Writer where
  head : Nat
  woff : Nat
  tail : Nat
  filled : Nat
  staged : List UInt8

abbrev Writing := Prog WriterOp WriterOp.Result

def store : Nat → List UInt8 → Writing Unit
  | _, [] => pure ()
  | index, byte :: bytes => do
    let _ ← Prog.perform (WriterOp.set index byte)
    store (index + 1) bytes

def load : Nat → Nat → Writing (List UInt8)
  | _, 0 => pure []
  | index, len + 1 => do
    let byte ← Prog.perform (WriterOp.get index)
    let rest ← load (index + 1) len
    pure (byte :: rest)

-- `Backend::write`: the bytes are written when they lie in one piece.
def Ring.write (ring : Ring) (pos : Nat) (bytes : List UInt8) : Writing (Option Unit) :=
  match ring.data pos bytes.length with
  | none => pure none
  | some index => do
    store index bytes
    pure (some ())

namespace Writer

def fresh : Writer := ⟨0, 0, 0, 0, []⟩

variable (ring : Ring) (writer : Writer)

def fits (len : Nat) : Option Nat :=
  match (checkedAdd (writer.head % ring.capacity) headerSize).bind (checkedAdd · len),
    (checkedAdd writer.head headerSize).bind (checkedAdd · len), checkedAdd writer.tail ring.capacity with
  | some stop, some next, some limit =>
    if ring.capacity < len ∨ ring.capacity < stop then none
    else if stop ≠ ring.capacity ∧ (checkedAdd stop headerSize).all (ring.capacity < ·) then none
    else if limit < next ∨ maxHead < next then none
    else some next
  | _, _, _ => none

def commit (kind : RecordKind) (len : Nat) : Writing (Commit × Writer) :=
  match writer.fits ring len with
  | none => pure (.refused, writer)
  | some next =>
    if writer.filled < len then pure (.refused, writer)
    else
      match if kind = .bytes then checkedAdd writer.woff len else some writer.woff with
      | none => pure (.refused, writer)
      | some woff => do
        match ← ring.write writer.head (headerBytes kind len writer.woff) with
        | none => pure (.refused, writer)
        | some _ => do
          let _ ← Prog.perform (WriterOp.storeHead next ⟨kind, writer.staged.take len⟩)
          let read ← Prog.perform WriterOp.loadRead
          pure (if read = writer.head then .idle else .published, ⟨next, woff, writer.tail, 0, []⟩)

def window (offset len : Nat) : Option Nat := do
  let sum ← checkedAdd offset len
  let _ ← writer.fits ring sum
  (checkedAdd writer.head headerSize).bind (checkedAdd · offset)

def overlay (staged : List UInt8) (offset : Nat) (bytes : List UInt8) : List UInt8 :=
  if offset ≤ staged.length then staged.take offset ++ bytes ++ staged.drop (offset + bytes.length) else staged

def writeAt (offset : Nat) (bytes : List UInt8) : Writing (Option Unit × Writer) :=
  match writer.window ring offset bytes.length with
  | none => pure (none, writer)
  | some place => do
    match ← ring.write place bytes with
    | none => pure (none, writer)
    | some _ =>
      match checkedAdd offset bytes.length with
      | none => pure (none, writer)
      | some sum =>
        pure (some (), { writer with
          filled := if offset ≤ writer.filled ∧ writer.filled < sum then sum else writer.filled
          staged := overlay writer.staged offset bytes })

-- A read of at most `len` bytes from a descriptor: `source` is what it has, or nothing where the read fails.
def fill (len : Nat) (source : Option (List UInt8)) : Writing (Option (Except Unit Nat) × Writer) :=
  match writer.window ring writer.filled len with
  | none => pure (none, writer)
  | some place =>
    match ring.data place len with
    | none => pure (some (.error ()), writer)
    | some index =>
      match source with
      | none => pure (some (.error ()), writer)
      | some bytes => do
        let bytes := bytes.take len
        store index bytes
        match checkedAdd writer.filled bytes.length with
        | none => pure (none, writer)
        | some filled =>
          pure (some (.ok bytes.length), { writer with filled := filled, staged := writer.staged ++ bytes })

def room : Writing (Option Available × Writer) :=
  if maxHead ≤ writer.head then pure (none, writer)
  else
    match (checkedSub writer.head writer.tail).bind (checkedSub ring.capacity ·),
      checkedSub ring.capacity (writer.head % ring.capacity) with
    | some free, some rest =>
      if padRoom < rest then pure (some ⟨(if free < rest then free else rest) - padRoom, false⟩, writer)
      else if free < rest then pure (none, writer)
      else
        match checkedSub rest headerSize with
        | none => pure (none, writer)
        | some pad => do
          -- A pad fills the data up to its end, so that the next record starts at its beginning.
          match ← writer.writeAt ring 0 (List.replicate pad 0) with
          | (none, writer) => pure (none, writer)
          | (some _, writer) => do
            match ← writer.commit ring .pad pad with
            | (.refused, writer) => pure (none, writer)
            | (committed, writer) =>
              let remaining := free - rest
              pure (some ⟨(if remaining < ring.capacity then remaining else ring.capacity) - padRoom,
                decide (committed = .idle)⟩, writer)
    | _, _ => pure (none, writer)

def available : Writing (Available × Writer) := do
  let tail ← Prog.perform WriterOp.loadTail
  let (room, writer) ← { writer with tail := tail }.room ring
  pure (room.getD ⟨0, false⟩, writer)

def pending (len : Nat) : Writing (Option (List UInt8)) :=
  if len = 0 ∨ writer.filled < len then pure none
  else
    match checkedAdd writer.head headerSize with
    | none => pure none
    | some place =>
      match checkedAdd place writer.filled with
      | none => pure none
      | some seen =>
        match ring.readable writer.head seen place len with
        | none => pure none
        | some index => do
          let bytes ← load index len
          pure (some bytes)

def put (kind : RecordKind) (payload : List UInt8) : Writing (Commit × Writer) := do
  match ← writer.writeAt ring 0 payload with
  | (none, writer) => pure (.refused, writer)
  | (some _, writer) => writer.commit ring kind payload.length

inductive Call where
  | available
  | writeAt (offset : Nat) (bytes : List UInt8)
  | fill (len : Nat) (source : Option (List UInt8))
  | pending (len : Nat)
  | publish (kind : RecordKind) (len : Nat)
  | put (kind : RecordKind) (payload : List UInt8)

inductive Reply where
  | available (available : Available)
  | writeAt (done : Option Unit)
  | fill (count : Option (Except Unit Nat))
  | pending (bytes : Option (List UInt8))
  | commit (commit : Commit)

def answer (ring : Ring) (call : Call) (writer : Writer) : Writing (Reply × Writer) :=
  match call with
  | .available => do
    let (available, writer) ← writer.available ring
    pure (.available available, writer)
  | .writeAt offset bytes => do
    let (done, writer) ← writer.writeAt ring offset bytes
    pure (.writeAt done, writer)
  | .fill len source => do
    let (count, writer) ← writer.fill ring len source
    pure (.fill count, writer)
  | .pending len => do
    let bytes ← writer.pending ring len
    pure (.pending bytes, writer)
  | .publish kind len => do
    let (commit, writer) ← writer.commit ring kind len
    pure (.commit commit, writer)
  | .put kind payload => do
    let (commit, writer) ← writer.put ring kind payload
    pure (.commit commit, writer)

end Writer

abbrev Ring.writer (ring : Ring) : Machine Memory where
  Op := WriterOp
  Result := WriterOp.Result
  exec := WriterOp.exec
  State := Writer
  Call := Writer.Call
  Reply := Writer.Reply
  body := Writer.answer ring

end Kido.Streaming
