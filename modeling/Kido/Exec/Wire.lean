import Kido.Shared.Words
import Mathlib.Data.List.Infix
import Mathlib.Algebra.Order.Ring.Nat

set_option autoImplicit false

namespace Kido.Relaying

open Kido.Shared

abbrev Bytes := List UInt8

def header : Nat := 5
def maxPayload : Nat := 65536
def readLen : Nat := maxPayload + header

namespace ToKind

def start : UInt8 := 1
def stdin : UInt8 := 2
def eof : UInt8 := 3
def signal : UInt8 := 4

end ToKind

namespace FromKind

def stdout : UInt8 := 1
def stderr : UInt8 := 2
def exit : UInt8 := 3

end FromKind

inductive KillSignal
  | term
  | kill
  | int
  deriving DecidableEq

inductive ExitSignal
  | hup
  | int
  | quit
  | ill
  | trap
  | abrt
  | bus
  | fpe
  | kill
  | usr1
  | segv
  | usr2
  | pipe
  | alrm
  | term
  | other
  deriving DecidableEq

inductive Ended
  | status (status : Int32)
  | signal (signal : ExitSignal)
  deriving DecidableEq

structure Start where
  argv : List String
  cwd : Option String
  env : List (String × String)
  escalationMs : UInt64
  deriving DecidableEq

inductive ToKo
  | start (start : Start)
  | stdin (bytes : Bytes)
  | eof
  | signal (signal : KillSignal)

inductive FromKo
  | stdout (bytes : Bytes)
  | stderr (bytes : Bytes)
  | exit (ended : Ended)

inductive Invalid
  | kind (kind : UInt8)
  | size (size : Nat)
  | payload (kind : UInt8)
  deriving DecidableEq

-- The JSON of a type: `serde_json::to_vec`, and `protocol::decode`.
structure Json (α : Type) where
  toVec : α → Bytes
  decode : Bytes → Option α

-- The JSON of this value is read as it was written, and no bytes are no JSON.
structure Json.Reads {α : Type} (json : Json α) (value : α) : Prop where
  back : json.decode (json.toVec value) = some value
  none_ : json.decode [] = none

structure Codecs where
  start : Json Start
  signal : Json KillSignal
  ended : Json Ended

structure Raw where
  kind : UInt8
  payload : Bytes
  deriving DecidableEq

def toBe (value : Nat) : Bytes := (leBytes 4 value).reverse
def ofBe (bytes : Bytes) : Nat := ofLe bytes.reverse

-- `frame` of the source: a length that needs more than 32 bits is 0.
def Raw.bytes (raw : Raw) : Bytes :=
  raw.kind :: toBe (if raw.payload.length < 2 ^ 32 then raw.payload.length else 0) ++ raw.payload

def chunks (bytes : Bytes) : List Bytes :=
  if bytes = [] then [] else bytes.take maxPayload :: chunks (bytes.drop maxPayload)
termination_by bytes.length
decreasing_by
  have some_ := List.length_pos_iff.2 ‹_›
  have positive : 0 < maxPayload := by decide
  rw [List.length_drop]
  omega

def data (kind : UInt8) (bytes : Bytes) : List Raw := (chunks bytes).map (Raw.mk kind)

def ToKo.raws (codecs : Codecs) : ToKo → List Raw
  | .start setup => [⟨ToKind.start, codecs.start.toVec setup⟩]
  | .stdin bytes => data ToKind.stdin bytes
  | .eof => [⟨ToKind.eof, []⟩]
  | .signal sent => [⟨ToKind.signal, codecs.signal.toVec sent⟩]

def FromKo.raws (codecs : Codecs) : FromKo → List Raw
  | .stdout bytes => data FromKind.stdout bytes
  | .stderr bytes => data FromKind.stderr bytes
  | .exit ended => [⟨FromKind.exit, codecs.ended.toVec ended⟩]

def encoded (out : Bytes) (raws : List Raw) : Bytes := out ++ raws.flatMap Raw.bytes

def ToKo.encode (codecs : Codecs) (message : ToKo) (out : Bytes) : Bytes := encoded out (message.raws codecs)
def FromKo.encode (codecs : Codecs) (message : FromKo) (out : Bytes) : Bytes := encoded out (message.raws codecs)

structure Frames where
  buffer : Bytes
  place : Nat
  within : Nat
  deriving DecidableEq

namespace Frames

def default : Frames := ⟨[], 0, 0⟩

def isEmpty (frames : Frames) : Bool := decide (frames.buffer.length ≤ frames.place)

-- One read into the buffer: it has room for `readLen` bytes. No bytes are the end of the stream, or a read that
-- failed.
def fill (frames : Frames) (read : Bytes) : Frames :=
  ⟨frames.buffer.drop (min frames.place frames.buffer.length) ++ read.take readLen, 0, frames.within⟩

def rest (frames : Frames) : Bytes := frames.buffer.drop frames.place

def next (frames : Frames) (room : Nat) (data control : List UInt8) :
    Except Invalid (Option ((UInt8 × Nat × Nat) × Frames)) :=
  match frames.rest.take header with
  | [kind, a, b, c, d] =>
    if kind ∉ data ∧ kind ∉ control then .error (.kind kind)
    else
      let length := ofBe [a, b, c, d]
      if maxPayload < length then .error (.size length)
      else
        let start := frames.place + header
        let stop := start + length
        if frames.buffer.length < stop then .ok none
        else if kind ∉ data then .ok (some ((kind, start, stop), { frames with place := stop }))
        else
          let begins := start + frames.within
          let upto := min (begins + room) stop
          if upto ≤ begins ∧ begins < stop then .ok none
          else if upto = stop then .ok (some ((kind, begins, upto), ⟨frames.buffer, stop, 0⟩))
          else .ok (some ((kind, begins, upto), { frames with within := upto - start }))
  | _ => .ok none

def part (frames : Frames) (begins upto : Nat) : Bytes := (frames.buffer.take upto).drop begins

end Frames

def payload {α : Type} (json : Json α) (kind : UInt8) (bytes : Bytes) : Except Invalid α :=
  match json.decode bytes with
  | some value => .ok value
  | none => .error (.payload kind)

def ToKo.read (codecs : Codecs) (kind : UInt8) (bytes : Bytes) : Except Invalid ToKo :=
  if kind = ToKind.stdin then .ok (.stdin bytes)
  else if kind = ToKind.start then (payload codecs.start kind bytes).map .start
  else if kind = ToKind.signal then (payload codecs.signal kind bytes).map .signal
  else if bytes = [] then .ok .eof
  else .error (.payload kind)

def FromKo.read (codecs : Codecs) (kind : UInt8) (bytes : Bytes) : Except Invalid FromKo :=
  if kind = FromKind.stdout then .ok (.stdout bytes)
  else if kind = FromKind.stderr then .ok (.stderr bytes)
  else (payload codecs.ended kind bytes).map .exit

structure Direction (Message : Type) where
  data : List UInt8
  control : List UInt8
  raws : Message → List Raw
  read : UInt8 → Bytes → Except Invalid Message

def toKo (codecs : Codecs) : Direction ToKo :=
  ⟨[ToKind.stdin], [ToKind.start, ToKind.eof, ToKind.signal], ToKo.raws codecs, ToKo.read codecs⟩

def fromKo (codecs : Codecs) : Direction FromKo :=
  ⟨[FromKind.stdout, FromKind.stderr], [FromKind.exit], FromKo.raws codecs, FromKo.read codecs⟩

def Frames.take {Message : Type} (direction : Direction Message) (frames : Frames) (room : Nat) :
    Except Invalid (Option Message × Frames) :=
  match frames.next room direction.data direction.control with
  | .error invalid => .error invalid
  | .ok none => .ok (none, frames)
  | .ok (some ((kind, begins, upto), after)) =>
    match direction.read kind (after.part begins upto) with
    | .error invalid => .error invalid
    | .ok message => .ok (some message, after)

end Kido.Relaying
