import Kido.Wire.Messages

set_option autoImplicit false

namespace Kido.Framing

open Kido.Shared

def initVersion : UInt16 := 3

def asBytes (text : String) : Bytes := text.toByteArray.data.toList

def Size.cellPixels (size : Size) : UInt16 × UInt16 :=
  match size.cellPx with
  | some cell => (cell.width, cell.height)
  | none => (0, 0)

def sizeBytes (size : Size) : Bytes :=
  leBytes 2 size.cols.value.toNat ++ leBytes 2 size.rows.value.toNat ++
    leBytes 2 size.cellPixels.1.toNat ++ leBytes 2 size.cellPixels.2.toNat

def deadBytes (dead : Dead) : Bytes :=
  let (tag, step, value) : UInt8 × UInt8 × Int32 :=
    match dead.cause with
    | .exit (.exited code) => (0, 0, code)
    | .exit (.signaled signal) => (1, 0, signal)
    | .failed failed => (2, failed.step.code, failed.errno)
  [tag, step, 0, 0] ++ leBytes 4 value.toUInt32.toNat ++ leBytes 8 dead.moment.toNat

def Medium.bit : Medium → UInt8
  | .file => 1
  | .tempFile => 2
  | .sharedMem => 4

namespace Body

def prompt (prompt : Prompt) : Body Unit := do
  u8 prompt.step.code
  bool prompt.exit.isSome
  i32 (prompt.exit.getD 0)
  u64 prompt.moment
  string prompt.command

def record (record : Record) : Body Unit := do
  u8 record.state.code
  u8 record.kind.code
  u8 (record.progress.getD 255)
  string record.id
  string record.app
  string record.title
  string record.msg

def progress (report : Option ProgressReport) : Body Unit := do
  match report with
  | none => do
    u8 0
    u8 255
  | some report => do
    u8 report.state.code
    u8 (report.progress.getD 255)

def size (size : Size) : Body Unit := bytes (sizeBytes size)

def limit (limit : Option UInt64) : Body Unit := do
  bool limit.isSome
  u64 (limit.getD 0)

def init (init : Init) : Body Unit := do
  u16 initVersion
  size init.size
  let (maxBytes, maxLines) : Option UInt64 × Option UInt64 :=
    match init.limits.scrollback with
    | .disabled => (some 0, none)
    | .bounded maxBytes maxLines => (maxBytes.map Subtype.val, maxLines.map Subtype.val)
  limit maxBytes
  limit maxLines
  u64 init.limits.apcMaxBytes
  u64 init.limits.kittyImagesMaxBytes
  u8 (init.media.foldl (fun bits medium => bits ||| medium.bit) 0)
  u64 init.limits.continuationMaxBytes
  string init.cwd
  strings init.argv
  strings init.env
  string (asBytes init.id)

def key (key : Key) : Body Unit := do
  u8 key.action.code
  u16 key.key.value
  u16 key.mods
  u32 key.unshifted.val
  string (asBytes key.text)
  bool key.composing

def mouse (mouse : Mouse) : Body Unit := do
  u8 mouse.action.code
  u8 mouse.button.code
  u16 mouse.col
  u16 mouse.row
  u16 mouse.mods

def location (location : ClipboardLocation) : Body Unit := u8 location.code

def pid (pid : Int64) : Body Unit :=
  if -2 ^ 31 ≤ pid.toInt ∧ pid.toInt < 2 ^ 31 then i32 pid.toInt32 else Shared.Writer.fail .oversize

def object (object : ImageObject) : Body Unit := do
  string object.name
  u64 object.len
  u32 object.width
  u32 object.height
  u8 object.format.code
  u64 object.generation
  u32 object.gapMs
  u32 object.frames

def paneFrame : FromPane → Body Kind
  | .ready pid => do
    Body.pid pid
    return .ready
  | .head pos => do
    u64 pos
    return .head
  | .title title => do
    string title
    return .title
  | .pwd cwd => do
    string cwd
    return .pwd
  | .dead dead => do
    bytes (deadBytes dead)
    return .dead
  | .snapshotDone req => do
    u32 req.low
    return .snapshotDone
  | .pasteDone req pasted unsafePaste => do
    u32 req.low
    bool pasted
    bool unsafePaste
    return .pasteDone
  | .screen req last text => do
    u32 req.low
    bool last
    string text
    return .screen
  | .error message => do
    string message
    return .error
  | .full pos => do
    u64 pos
    return .full
  | .prompt prompt => do
    Body.prompt prompt
    return .prompt
  | .record record => do
    Body.record record
    return .record
  | .foreground foreground => do
    u32 foreground.pid
    string foreground.name
    return .foreground
  | .alternate on => do
    bool on
    return .alternate
  | .bell => return .bell
  | .notify title body => do
    string title
    string body
    return .notify
  | .progress report => do
    Body.progress report
    return .progress
  | .image req none => do
    u32 req.low
    bool false
    return .imageReply
  | .image req (some object) => do
    u32 req.low
    bool true
    Body.object object
    return .imageReply
  | .imageGone name => do
    string name
    return .imageGone
  | .clipboardWrite location contents => do
    Body.location location
    bytes contents.bytes
    return .clipboardWrite
  | .clipboardRead req location list mimes => do
    u32 req.low
    Body.location location
    bool list
    bytes mimes.bytes
    return .clipboardRead
  | .matches req found => do
    u32 req.low
    bytes found.bytes
    return .matches
  | .searchDone req => do
    u32 req.low
    return .searchDone

def frame : ToPane → Body Kind
  | .init init => do
    Body.init init
    return .init
  | .tail tail => do
    u64 tail
    return .tail
  | .resize size => do
    Body.size size
    return .resize
  | .text text => do
    bytes text
    return .text
  | .snapshot req history => do
    u32 req.low
    bool (history = .none)
    u8 0
    string []
    return .snapshot
  | .exit => return .exit
  | .clearHistory => return .clearHistory
  | .key key => do
    Body.key key
    return .key
  | .mouse mouse => do
    Body.mouse mouse
    return .mouse
  | .paste req text checkSafe => do
    u32 req.low
    string (asBytes text)
    bool checkSafe
    return .paste
  | .focus focused => do
    bool focused
    return .focus
  | .screen req format rows => do
    u32 req.low
    bool (format = .ansi)
    u32 rows.count
    return .screen
  | .image req key name => do
    u32 req.low
    u32 key.image
    u32 key.frame
    u64 key.generation
    string name
    return .image
  | .clipboardAnswer req none => do
    u32 req.low
    bool false
    return .clipboardAnswer
  | .clipboardAnswer req (some served) => do
    u32 req.low
    bool true
    bytes served.available.bytes
    bytes served.contents.bytes
    return .clipboardAnswer
  | .search req needle => do
    u32 req.low
    string needle
    return .search
  | .searchCancel req => do
    u32 req.low
    return .searchCancel

end Body

def overwrite (out : Bytes) (start : Nat) (bytes : Bytes) : Bytes :=
  out.take start ++ bytes ++ out.drop (start + bytes.length)

def framed (out : Bytes) (body : Body Kind) : Except Oversize Unit × Bytes :=
  let start := out.length
  let written := out ++ List.replicate header 0 ++ body.written
  let head : Except Oversize Bytes :=
    match body.result with
    | .error error => .error error
    | .ok kind =>
      let length := written.length - start - 4
      if length < 2 ^ 32 ∧ length ≤ maxFrame then .ok (leBytes 4 length ++ [kind.code]) else .error .oversize
  match head with
  | .ok head => (.ok (), overwrite written start head)
  | .error error => (.error error, written.take start)

def encode (frame : ToPane) (out : Bytes) : Except Oversize Unit × Bytes := framed out (Body.frame frame)

def encodeFrom (frame : FromPane) (out : Bytes) : Except Oversize Unit × Bytes := framed out (Body.paneFrame frame)

def frameSize (input : Bytes) : Except Malformed (Option Nat) :=
  if input.length < 4 then .ok none
  else
    let length := ofLe (input.take 4)
    if 1 ≤ length ∧ length ≤ maxFrame then .ok (if length + 4 ≤ input.length then some (length + 4) else none)
    else .error .length

def frameOf (kind : Kind) (written : Bytes) : Bytes := leBytes 4 (written.length + 1) ++ kind.code :: written

theorem framed_cases (out : Bytes) (body : Body Kind) :
    (∃ error, framed out body = (.error error, out) ∧
      ∀ kind, body.result = .ok kind → maxFrame < body.written.length + 1) ∨
    ∃ kind, body.result = .ok kind ∧ body.written.length + 1 ≤ maxFrame ∧
      framed out body = (.ok (), out ++ frameOf kind body.written) := by
  have length : (out ++ List.replicate header 0 ++ body.written).length - out.length - 4 = body.written.length + 1 := by
    simp only [List.length_append, List.length_replicate, header]
    omega
  have restore : (out ++ List.replicate header 0 ++ body.written).take out.length = out := by simp
  unfold framed
  cases ended : body.result with
  | error error => exact .inl ⟨error, congrArg (Prod.mk _) restore, fun _ other => by cases other⟩
  | ok kind =>
    simp only [length]
    by_cases fits : body.written.length + 1 < 2 ^ 32 ∧ body.written.length + 1 ≤ maxFrame
    · refine .inr ⟨kind, rfl, fits.2, ?_⟩
      rw [if_pos fits]
      have patched : (leBytes 4 (body.written.length + 1) ++ [kind.code]).length = header := by simp [header]
      have behind : (out ++ List.replicate header 0 ++ body.written).drop (out.length + header) = body.written := by
        rw [List.append_assoc, List.drop_append]
        simp
      simp only [overwrite, patched, behind, restore, frameOf]
      simp
    · left
      rw [if_neg fits]
      refine ⟨.oversize, congrArg (Prod.mk _) restore, fun other same => ?_⟩
      have small : maxFrame < 2 ^ 32 := by decide
      omega

theorem frameOf_length (kind : Kind) (written : Bytes) : (frameOf kind written).length = written.length + 5 := by
  simp [frameOf]
  omega

theorem frameSize_frameOf {kind : Kind} {written : Bytes} (fits : written.length + 1 ≤ maxFrame) (rest : Bytes) :
    frameSize (frameOf kind written ++ rest) = .ok (some (frameOf kind written).length) := by
  have long : ¬(frameOf kind written ++ rest).length < 4 := by
    rw [List.length_append, frameOf_length]
    omega
  have front : (frameOf kind written ++ rest).take 4 = leBytes 4 (written.length + 1) := by
    have four : (leBytes 4 (written.length + 1)).length = 4 := leBytes_length _ _
    rw [frameOf, List.append_assoc, List.take_append_of_le_length (by omega), List.take_of_length_le (by omega)]
  have value : ofLe (leBytes 4 (written.length + 1)) = written.length + 1 := by
    refine ofLe_leBytes ?_
    have small : maxFrame < 256 ^ 4 := by decide
    omega
  have whole : written.length + 1 + 4 ≤ (frameOf kind written ++ rest).length := by
    rw [List.length_append, frameOf_length]
    omega
  unfold frameSize
  rw [if_neg long, front, value]
  simp only [if_pos (show 1 ≤ written.length + 1 ∧ written.length + 1 ≤ maxFrame by omega), if_pos whole, frameOf_length]

end Kido.Framing
