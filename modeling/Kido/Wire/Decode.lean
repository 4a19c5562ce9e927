import Kido.Wire.Encode

set_option autoImplicit false

namespace Kido.Framing

open Kido.Shared

def fromUtf8 (bytes : Bytes) : Option String := String.fromUTF8? ⟨bytes.toArray⟩

def isContinuation (byte : UInt8) : Bool := 0x80 ≤ byte && byte ≤ 0xbf

-- Whether the byte may be the second of a character that begins with `first`.
def isSecond (first byte : UInt8) : Bool :=
  if first = 0xe0 then 0xa0 ≤ byte && byte ≤ 0xbf
  else if first = 0xed then 0x80 ≤ byte && byte ≤ 0x9f
  else if first = 0xf0 then 0x90 ≤ byte && byte ≤ 0xbf
  else if first = 0xf4 then 0x80 ≤ byte && byte ≤ 0x8f
  else isContinuation byte

-- The length of the longest beginning of a character, of bytes that begin with no whole one.
def brokenPart : Bytes → Nat
  | first :: second :: third :: _ =>
    if 0xe0 ≤ first && first ≤ 0xf4 && isSecond first second then
      if 0xf0 ≤ first && isContinuation third then 3 else 2
    else 1
  | [first, second] => if 0xe0 ≤ first && first ≤ 0xf4 && isSecond first second then 2 else 1
  | _ => 1

def lossyChars : Nat → Bytes → List Char
  | 0, _ => []
  | _, [] => []
  | fuel + 1, bytes =>
    match ByteArray.utf8DecodeChar? ⟨bytes.toArray⟩ 0 with
    | some char => char :: lossyChars fuel (bytes.drop char.utf8Size)
    | none => '\ufffd' :: lossyChars fuel (bytes.drop (brokenPart bytes))

def fromUtf8Lossy (bytes : Bytes) : String :=
  match fromUtf8 bytes with
  | some text => text
  | none => String.ofList (lossyChars bytes.length bytes)

def arrayAt (count : Nat) (body : Bytes) (place : Nat) : Option Bytes :=
  if place + count ≤ body.length then some ((body.drop place).take count) else none

def u16At (body : Bytes) (place : Nat) : Option UInt16 := (arrayAt 2 body place).map fun raw => UInt16.ofNat (ofLe raw)

def u32At (body : Bytes) (place : Nat) : Option UInt32 := (arrayAt 4 body place).map fun raw => UInt32.ofNat (ofLe raw)

def i32At (body : Bytes) (place : Nat) : Option Int32 := (u32At body place).map UInt32.toInt32

def u64At (body : Bytes) (place : Nat) : Option UInt64 := (arrayAt 8 body place).map fun raw => UInt64.ofNat (ofLe raw)

def need (body : Bytes) (size : Nat) : Except Malformed Unit := if body.length < size then .error .short else .ok ()

def orElse {α : Type} (value : Option α) (malformed : Malformed) : Except Malformed α :=
  match value with
  | some value => .ok value
  | none => .error malformed

def stringAt (body : Bytes) (place : Nat) : Except Malformed Bytes := do
  let length ← orElse (i32At body place) .short
  if length.toInt < 0 then throw .string
  let start := place + 4
  if start + length.toInt.toNat ≤ body.length then return (body.drop start).take length.toInt.toNat
  throw .string

def Failed.new (step : Step) (errno : Int32) : Option Failed :=
  if positive : 0 < errno then some ⟨step, errno, positive⟩ else none

def causeOf (front : Bytes) (value : Int32) : Option DeathCause :=
  match front with
  | [tag, step, 0, 0] =>
    if tag = 0 ∧ step = 0 then some (.exit (.exited value))
    else if tag = 1 ∧ step = 0 then some (.exit (.signaled value))
    else if tag = 2 then (Step.ofCode step).bind fun step => (Failed.new step value).map .failed
    else none
  | _ => none

def decodeDead (body : Bytes) : Option Dead := do
  if body.length ≠ 16 then none
  let value ← i32At body 4
  let cause ← causeOf (body.take 4) value
  return ⟨← u64At body 8, cause⟩

def Dim.new (value : UInt16) : Option Dim := if bound : 1 ≤ value ∧ value ≤ maxDimension then some ⟨value, bound⟩ else none

def nonZeroU16 (value : UInt16) : Option NonZeroU16 := if positive : value ≠ 0 then some ⟨value, positive⟩ else none

def nonZeroUsize (value : UInt64) : Option NonZeroUsize := if positive : value ≠ 0 then some ⟨value, positive⟩ else none

def cellOf (width height : UInt16) : Option (Option CellPx) :=
  if width = 0 ∧ height = 0 then some none
  else do return some ⟨← nonZeroU16 width, ← nonZeroU16 height⟩

def decodeSize (body : Bytes) : Option Size := do
  if body.length ≠ 8 then none
  let width ← u16At body 4
  let height ← u16At body 6
  let cellPx ← cellOf width height
  let cols ← Dim.new (← u16At body 0)
  let rows ← Dim.new (← u16At body 2)
  return ⟨cols, rows, cellPx⟩

def position (body : Bytes) : Except Malformed Pos := orElse (u64At body 0) .short

def KeyCode.new (code : UInt16) : Option KeyCode := if bound : code ≤ maxKey then some ⟨code, bound⟩ else none

def charOf (value : UInt32) : Option Char := if valid : value.isValidChar then some ⟨value, valid⟩ else none

namespace Fields

def limit : Fields (Option UInt64) := do
  let present ← flag
  let value ← sizeOf
  return if present then some value else none

def size : Fields Size := do
  let taken ← take 8
  Reader.orFail (decodeSize taken) .field

def mimes : Fields Mimes := fun body =>
  match found : walkStrings body with
  | .error malformed => .error malformed
  | .ok (count, rest) => .ok (⟨body.take (body.length - rest.length), count, stringsOf_front found⟩, rest)

def location : Fields ClipboardLocation := pick ClipboardLocation.ofCode

def init : Fields Init := do
  if (← u16) ≠ initVersion then Reader.fail .field
  let size ← size
  let bytes ← limit
  let lines ← limit
  let scrollback :=
    if bytes = some 0 ∨ lines = some 0 then .disabled
    else .bounded (bytes.bind nonZeroUsize) (lines.bind nonZeroUsize)
  let apcMaxBytes ← sizeOf
  let kittyImagesMaxBytes ← u64
  let media ← u8
  let continuationMaxBytes ← sizeOf
  let cwd ← text
  let argv ← texts
  let env ← texts
  let id ← text
  if (argv.head?.bind List.head?) ≠ some 47 then Reader.fail .field
  return {
    size := size
    limits := ⟨scrollback, apcMaxBytes, kittyImagesMaxBytes, continuationMaxBytes⟩
    media := [.file, .tempFile, .sharedMem].filter fun medium => media &&& medium.bit ≠ 0
    cwd := cwd
    argv := argv
    env := env
    id := fromUtf8Lossy id }

def key : Fields Key := do
  let action ← pick KeyAction.ofCode
  let key ← Reader.orFail (KeyCode.new (← u16)) .field
  let mods ← u16
  let unshifted ← Reader.orFail (charOf (← u32)) .field
  let text ← Reader.orFail (fromUtf8 (← bytes)) .field
  let composing ← flag
  return ⟨action, key, mods, unshifted, text, composing⟩

def mouse : Fields Mouse := do
  let action ← pick MouseAction.ofCode
  let button ← pick MouseButton.ofCode
  let col ← u16
  let row ← u16
  let mods ← u16
  return ⟨action, button, col, row, mods⟩

def object : Fields ImageObject := do
  let name ← bytes
  let len ← u64
  let width ← u32
  let height ← u32
  let format ← pick PixelFormat.ofCode
  let generation ← u64
  let gapMs ← u32
  let frames ← u32
  return ⟨name, len, width, height, format, generation, gapMs, frames⟩

def prompt : Fields Prompt := do
  let step ← pick PromptStep.ofCode
  let hasExit ← flag
  let exit ← i32
  let moment ← u64
  let command ← bytes
  return ⟨step, if hasExit then some exit else none, moment, command⟩

def record : Fields Record := do
  let state ← pick ProgramState.ofCode
  let kind ← pick ProgramKind.ofCode
  let progress ← percent
  let id ← bytes
  let app ← bytes
  let title ← bytes
  let msg ← bytes
  return ⟨state, kind, progress, id, app, title, msg⟩

end Fields

def whole {α : Type} (read : Fields α) (body : Bytes) : Except Malformed α := do
  let (value, rest) ← read body
  let _ ← Fields.done rest
  return value

def readReport (state : UInt8) (progress : Option UInt8) : Except Malformed (Option ProgressReport) :=
  match state.toNat with
  | 0 => .ok none
  | 1 => .ok (some ⟨.set, progress⟩)
  | 2 => .ok (some ⟨.error, progress⟩)
  | 3 => .ok (some ⟨.indeterminate, progress⟩)
  | 4 => .ok (some ⟨.pause, progress⟩)
  | _ => .error .field

def split (frame : Bytes) : Except Malformed (UInt8 × Bytes) :=
  match frame.drop 4 with
  | code :: body => .ok (code, body)
  | [] => .error .length

def byteIsOne (body : Bytes) (place : Nat) : Bool := body[place]? == some 1

-- Decodes the body of a frame of a pane; `none` is a frame that only the server sends.
def decodeBody (kind : Kind) (body : Bytes) : Except Malformed (Option FromPane) := do
  match kind with
  | .ready =>
    match body with
    | [a, b, c, d] => return some (.ready (UInt32.ofNat (ofLe [a, b, c, d])).toInt32.toInt64)
    | _ => throw .ready
  | .title => return some (.title (← stringAt body 0))
  | .pwd => return some (.pwd (← stringAt body 0))
  | .head => return some (.head (← position body))
  | .dead => return some (.dead (← orElse (decodeDead body) .dead))
  | .full => return some (.full (← position body))
  | .snapshotDone => return some (.snapshotDone ⟨← orElse (u32At body 0) .short⟩)
  | .pasteDone =>
    need body 6
    return some (.pasteDone ⟨← orElse (u32At body 0) .short⟩ (byteIsOne body 4) (byteIsOne body 5))
  | .screen =>
    need body 9
    return some (.screen ⟨← orElse (u32At body 0) .short⟩ (byteIsOne body 4) (← stringAt body 5))
  | .error => return some (.error (← stringAt body 0))
  | .prompt => return some (.prompt (← whole Fields.prompt body))
  | .record => return some (.record (← whole Fields.record body))
  | .foreground =>
    let (pid, name) ← whole (do return (← Fields.u32, ← Fields.bytes)) body
    return some (.foreground ⟨pid, name⟩)
  | .alternate => return some (.alternate (← whole Fields.flag body))
  | .bell =>
    whole (pure ()) body
    return some .bell
  | .notify =>
    let (title, text) ← whole (do return (← Fields.bytes, ← Fields.bytes)) body
    return some (.notify title text)
  | .progress =>
    let (state, progress) ← whole (do return (← Fields.u8, ← Fields.percent)) body
    return some (.progress (← readReport state progress))
  | .imageReply =>
    let (req, object) ← whole (do
      let req ← Fields.u32
      if (← Fields.flag) then return (req, some (← Fields.object)) else return (req, none)) body
    return some (.image ⟨req⟩ object)
  | .imageGone => return some (.imageGone (← whole Fields.bytes body))
  | .clipboardWrite =>
    let (location, rest) ← (do return (← Fields.location, ← Fields.rest) : Fields _).run' body
    return some (.clipboardWrite location (← Contents.of rest))
  | .clipboardRead =>
    let (req, location, list, rest) ←
      (do return (← Fields.u32, ← Fields.location, ← Fields.flag, ← Fields.rest) : Fields _).run' body
    return some (.clipboardRead ⟨req⟩ location list (← Mimes.of rest))
  | .matches =>
    let (req, rest) ← (do return (← Fields.u32, ← Fields.rest) : Fields _).run' body
    return some (.matches ⟨req⟩ (← orElse (Matches.of rest) .field))
  | .searchDone => return some (.searchDone ⟨← whole Fields.u32 body⟩)
  | _ => return none

def decode (frame : Bytes) : Except Malformed (Option FromPane) := do
  let (code, body) ← split frame
  let kind ← orElse (Kind.ofCode code) .unknown
  decodeBody kind body

def ScreenRows.ofCount (rows : UInt32) : ScreenRows :=
  if rows = 0 then .visible else if rows = 0xffff_ffff then .full else .last rows

namespace Fields

-- Reads the body of a request after its kind; the kinds that the server sends the pane.
def request : Kind → Option (Fields Request)
  | .init => some do return .init (← init)
  | .tail => some do
    let _ ← take 8
    return .tail
  | .resize => some do return .resize (← size)
  | .snapshot => some do
    let req ← u32
    let screen ← u8
    if (← u8) ≠ 0 then fail
    if (← text) ≠ [] then fail
    return .snapshot ⟨req⟩ (if screen ≠ 0 then .none else .all)
  | .key => some do return .key (← key)
  | .mouse => some do return .mouse (← mouse)
  | .paste => some do
    let req ← u32
    let text ← Reader.orFail (fromUtf8 (← bytes)) .field
    let checkSafe ← flag
    return .paste ⟨req⟩ text checkSafe
  | .focus => some do return .focus (← flag)
  | .screen => some do
    let req ← u32
    let format ← u8
    let rows ← u32
    return .screen ⟨req⟩ (if format = 0 then .plain else .ansi) (ScreenRows.ofCount rows)
  | .image => some do
    let req ← u32
    let image ← u32
    let frame ← u32
    let generation ← u64
    let name ← bytes
    return .image ⟨req⟩ ⟨image, frame, generation⟩ name
  | .clipboardAnswer => some do
    let req ← u32
    if (← flag) then
      let available ← mimes
      let contents ← Contents.of (← rest)
      return .clipboardAnswer ⟨req⟩ (some ⟨available, contents⟩)
    else return .clipboardAnswer ⟨req⟩ none
  | .search => some do
    let req ← u32
    let needle ← bytes
    return .search ⟨req⟩ needle
  | .searchCancel => some do return .searchCancel ⟨← u32⟩
  | _ => none
where
  fail : Fields Unit := Reader.fail .field

end Fields

def decodeRequest (frame : Bytes) : Except Malformed Request := do
  let (code, body) ← split frame
  let kind ← orElse (Kind.ofCode code) .unknown
  match kind with
  | .text => return .text body
  | .exit => return .exit
  | .clearHistory => return .clearHistory
  | _ =>
    match Fields.request kind with
    | some read => whole read body
    | none => throw .unknown

end Kido.Framing
