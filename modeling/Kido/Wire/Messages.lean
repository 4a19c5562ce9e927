import Kido.Wire.Fields

set_option autoImplicit false

namespace Kido.Framing

open Kido.Shared

inductive Kind where
  | init
  | tail
  | resize
  | text
  | snapshot
  | exit
  | ready
  | head
  | title
  | pwd
  | dead
  | snapshotDone
  | error
  | full
  | key
  | paste
  | pasteDone
  | mouse
  | focus
  | screen
  | prompt
  | record
  | foreground
  | alternate
  | bell
  | notify
  | progress
  | clearHistory
  | image
  | imageReply
  | imageGone
  | clipboardWrite
  | clipboardRead
  | clipboardAnswer
  | search
  | searchCancel
  | matches
  | searchDone
deriving DecidableEq

namespace Kind

def code : Kind → UInt8
  | .init => 1
  | .tail => 2
  | .resize => 3
  | .text => 4
  | .snapshot => 5
  | .exit => 6
  | .ready => 7
  | .head => 8
  | .title => 9
  | .pwd => 10
  | .dead => 13
  | .snapshotDone => 14
  | .error => 15
  | .full => 16
  | .key => 17
  | .paste => 18
  | .pasteDone => 19
  | .mouse => 20
  | .focus => 21
  | .screen => 22
  | .prompt => 11
  | .record => 12
  | .foreground => 23
  | .alternate => 24
  | .bell => 25
  | .notify => 26
  | .progress => 27
  | .clearHistory => 28
  | .image => 29
  | .imageReply => 30
  | .imageGone => 31
  | .clipboardWrite => 32
  | .clipboardRead => 33
  | .clipboardAnswer => 34
  | .search => 35
  | .searchCancel => 36
  | .matches => 37
  | .searchDone => 38

def ofCode (code : UInt8) : Option Kind :=
  match code.toNat with
  | 1 => some .init
  | 2 => some .tail
  | 3 => some .resize
  | 4 => some .text
  | 5 => some .snapshot
  | 6 => some .exit
  | 7 => some .ready
  | 8 => some .head
  | 9 => some .title
  | 10 => some .pwd
  | 13 => some .dead
  | 14 => some .snapshotDone
  | 15 => some .error
  | 16 => some .full
  | 17 => some .key
  | 18 => some .paste
  | 19 => some .pasteDone
  | 20 => some .mouse
  | 21 => some .focus
  | 22 => some .screen
  | 11 => some .prompt
  | 12 => some .record
  | 23 => some .foreground
  | 24 => some .alternate
  | 25 => some .bell
  | 26 => some .notify
  | 27 => some .progress
  | 28 => some .clearHistory
  | 29 => some .image
  | 30 => some .imageReply
  | 31 => some .imageGone
  | 32 => some .clipboardWrite
  | 33 => some .clipboardRead
  | 34 => some .clipboardAnswer
  | 35 => some .search
  | 36 => some .searchCancel
  | 37 => some .matches
  | 38 => some .searchDone
  | _ => none

theorem ofCode_code (kind : Kind) : ofCode kind.code = some kind := by cases kind <;> rfl

end Kind

def maxDimension : UInt16 := 4096
def maxKey : UInt16 := 175

structure Dim where
  value : UInt16
  bound : 1 ≤ value ∧ value ≤ maxDimension
deriving DecidableEq

abbrev NonZeroU16 := { value : UInt16 // value ≠ 0 }
abbrev NonZeroUsize := { value : UInt64 // value ≠ 0 }

structure CellPx where
  width : NonZeroU16
  height : NonZeroU16
deriving DecidableEq

structure Size where
  cols : Dim
  rows : Dim
  cellPx : Option CellPx
deriving DecidableEq

structure Req where
  low : UInt32
deriving DecidableEq

abbrev Pos := UInt64
abbrev Mono := UInt64

inductive Exit where
  | exited (code : Int32)
  | signaled (signal : Int32)
deriving DecidableEq

inductive Step where
  | sigmask
  | setsid
  | tiocsctty
  | dup2
  | chdir
  | exec
deriving DecidableEq

namespace Step

def code : Step → UInt8
  | .sigmask => 1
  | .setsid => 2
  | .tiocsctty => 3
  | .dup2 => 4
  | .chdir => 5
  | .exec => 6

def ofCode (code : UInt8) : Option Step :=
  match code.toNat with
  | 1 => some .sigmask
  | 2 => some .setsid
  | 3 => some .tiocsctty
  | 4 => some .dup2
  | 5 => some .chdir
  | 6 => some .exec
  | _ => none

theorem ofCode_code (step : Step) : ofCode step.code = some step := by cases step <;> rfl

end Step

structure Failed where
  step : Step
  errno : Int32
  positive : 0 < errno
deriving DecidableEq

inductive DeathCause where
  | exit (exit : Exit)
  | failed (failed : Failed)
deriving DecidableEq

structure Dead where
  moment : Mono
  cause : DeathCause
deriving DecidableEq

inductive Scrollback where
  | disabled
  | bounded (maxBytes maxLines : Option NonZeroUsize)
deriving DecidableEq

structure Limits where
  scrollback : Scrollback
  apcMaxBytes : UInt64
  kittyImagesMaxBytes : UInt64
  continuationMaxBytes : UInt64
deriving DecidableEq

inductive Medium where
  | file
  | tempFile
  | sharedMem
deriving DecidableEq

inductive PromptStep where
  | start
  | outputStart
  | stop
deriving DecidableEq

namespace PromptStep

def code : PromptStep → UInt8
  | .start => 1
  | .outputStart => 2
  | .stop => 3

def ofCode (code : UInt8) : Option PromptStep :=
  match code.toNat with
  | 1 => some .start
  | 2 => some .outputStart
  | 3 => some .stop
  | _ => none

theorem ofCode_code (step : PromptStep) : ofCode step.code = some step := by cases step <;> rfl

end PromptStep

structure Prompt where
  step : PromptStep
  exit : Option Int32
  moment : Mono
  command : Bytes
deriving DecidableEq

inductive ProgramState where
  | idle
  | working
  | done
  | blocked
  | error
  | clear
deriving DecidableEq

namespace ProgramState

def code : ProgramState → UInt8
  | .idle => 0
  | .working => 1
  | .done => 2
  | .blocked => 3
  | .error => 4
  | .clear => 5

def ofCode (code : UInt8) : Option ProgramState :=
  match code.toNat with
  | 0 => some .idle
  | 1 => some .working
  | 2 => some .done
  | 3 => some .blocked
  | 4 => some .error
  | 5 => some .clear
  | _ => none

theorem ofCode_code (state : ProgramState) : ofCode state.code = some state := by cases state <;> rfl

end ProgramState

inductive ProgramKind where
  | none
  | permission
  | question
  | auth
deriving DecidableEq

namespace ProgramKind

def code : ProgramKind → UInt8
  | .none => 0
  | .permission => 1
  | .question => 2
  | .auth => 3

def ofCode (code : UInt8) : Option ProgramKind :=
  match code.toNat with
  | 0 => some .none
  | 1 => some .permission
  | 2 => some .question
  | 3 => some .auth
  | _ => Option.none

theorem ofCode_code (kind : ProgramKind) : ofCode kind.code = some kind := by cases kind <;> rfl

end ProgramKind

structure Record where
  state : ProgramState
  kind : ProgramKind
  progress : Option UInt8
  id : Bytes
  app : Bytes
  title : Bytes
  msg : Bytes
deriving DecidableEq

structure Foreground where
  pid : UInt32
  name : Bytes
deriving DecidableEq

inductive ProgressState where
  | set
  | error
  | indeterminate
  | pause
deriving DecidableEq

namespace ProgressState

def code : ProgressState → UInt8
  | .set => 1
  | .error => 2
  | .indeterminate => 3
  | .pause => 4

end ProgressState

structure ProgressReport where
  state : ProgressState
  progress : Option UInt8
deriving DecidableEq

inductive PixelFormat where
  | rgb
  | rgba
  | grayAlpha
  | gray
deriving DecidableEq

namespace PixelFormat

def code : PixelFormat → UInt8
  | .rgb => 0
  | .rgba => 1
  | .grayAlpha => 2
  | .gray => 3

def ofCode (code : UInt8) : Option PixelFormat :=
  match code.toNat with
  | 0 => some .rgb
  | 1 => some .rgba
  | 2 => some .grayAlpha
  | 3 => some .gray
  | _ => none

theorem ofCode_code (format : PixelFormat) : ofCode format.code = some format := by cases format <;> rfl

end PixelFormat

structure ImageKey where
  image : UInt32
  frame : UInt32
  generation : UInt64
deriving DecidableEq

structure ImageObject where
  name : Bytes
  len : UInt64
  width : UInt32
  height : UInt32
  format : PixelFormat
  generation : UInt64
  gapMs : UInt32
  frames : UInt32
deriving DecidableEq

inductive ClipboardLocation where
  | standard
  | selection
  | primary
deriving DecidableEq

namespace ClipboardLocation

def code : ClipboardLocation → UInt8
  | .standard => 0
  | .selection => 1
  | .primary => 2

def ofCode (code : UInt8) : Option ClipboardLocation :=
  match code.toNat with
  | 0 => some .standard
  | 1 => some .selection
  | 2 => some .primary
  | _ => none

theorem ofCode_code (location : ClipboardLocation) : ofCode location.code = some location := by
  cases location <;> rfl

end ClipboardLocation

-- The number of strings in bytes that are a list of strings and nothing more.
def stringsOf (bytes : Bytes) : Except Malformed Nat := do
  let (count, rest) ← Fields.walkStrings bytes
  let _ ← Fields.done rest
  return count

theorem stringsOf_front {body rest : Bytes} {count : Nat} (found : Fields.walkStrings body = .ok (count, rest)) :
    stringsOf (body.take (body.length - rest.length)) = .ok count := by
  obtain ⟨front, rfl, same⟩ := walkStrings_local body count rest found
  have alone := same []
  rw [List.append_nil] at alone
  have front_ : (front ++ rest).take ((front ++ rest).length - rest.length) = front := by simp
  rw [front_, stringsOf, alone]
  rfl

structure Mimes where
  bytes : Bytes
  whole : ∃ count, stringsOf bytes = .ok count

def Mimes.of (bytes : Bytes) : Except Malformed Mimes :=
  match found : stringsOf bytes with
  | .ok count => .ok ⟨bytes, count, found⟩
  | .error malformed => .error malformed

structure Contents where
  bytes : Bytes
  whole : ∃ count, stringsOf bytes = .ok count ∧ count % 2 = 0

def Contents.of (bytes : Bytes) : Except Malformed Contents :=
  match found : stringsOf bytes with
  | .ok count => if even : count % 2 = 0 then .ok ⟨bytes, count, found, even⟩ else .error .field
  | .error malformed => .error malformed

structure Served where
  available : Mimes
  contents : Contents

def matchSize : Nat := 12

structure Matches where
  bytes : Bytes
  aligned : bytes.length % matchSize = 0

def Matches.of (bytes : Bytes) : Option Matches :=
  if aligned : bytes.length % matchSize = 0 then some ⟨bytes, aligned⟩ else none

inductive History where
  | none
  | all
deriving DecidableEq

inductive ScreenFormat where
  | plain
  | ansi
deriving DecidableEq

inductive ScreenRows where
  | visible
  | full
  | last (rows : UInt32)
deriving DecidableEq

def ScreenRows.count : ScreenRows → UInt32
  | .visible => 0
  | .full => 0xffff_ffff
  | .last rows => rows

inductive KeyAction where
  | release
  | press
  | again
deriving DecidableEq

namespace KeyAction

def code : KeyAction → UInt8
  | .release => 0
  | .press => 1
  | .again => 2

def ofCode (code : UInt8) : Option KeyAction :=
  match code.toNat with
  | 0 => some .release
  | 1 => some .press
  | 2 => some .again
  | _ => none

theorem ofCode_code (action : KeyAction) : ofCode action.code = some action := by cases action <;> rfl

end KeyAction

structure KeyCode where
  value : UInt16
  bound : value ≤ maxKey
deriving DecidableEq

structure Key where
  action : KeyAction
  key : KeyCode
  mods : UInt16
  unshifted : Char
  text : String
  composing : Bool
deriving DecidableEq

inductive MouseAction where
  | press
  | release
  | motion
deriving DecidableEq

namespace MouseAction

def code : MouseAction → UInt8
  | .press => 0
  | .release => 1
  | .motion => 2

def ofCode (code : UInt8) : Option MouseAction :=
  match code.toNat with
  | 0 => some .press
  | 1 => some .release
  | 2 => some .motion
  | _ => none

theorem ofCode_code (action : MouseAction) : ofCode action.code = some action := by cases action <;> rfl

end MouseAction

inductive MouseButton where
  | unknown
  | left
  | right
  | middle
  | four
  | five
  | six
  | seven
  | eight
  | nine
  | ten
  | eleven
deriving DecidableEq

namespace MouseButton

def code : MouseButton → UInt8
  | .unknown => 0
  | .left => 1
  | .right => 2
  | .middle => 3
  | .four => 4
  | .five => 5
  | .six => 6
  | .seven => 7
  | .eight => 8
  | .nine => 9
  | .ten => 10
  | .eleven => 11

def ofCode (code : UInt8) : Option MouseButton :=
  match code.toNat with
  | 0 => some .unknown
  | 1 => some .left
  | 2 => some .right
  | 3 => some .middle
  | 4 => some .four
  | 5 => some .five
  | 6 => some .six
  | 7 => some .seven
  | 8 => some .eight
  | 9 => some .nine
  | 10 => some .ten
  | 11 => some .eleven
  | _ => none

theorem ofCode_code (button : MouseButton) : ofCode button.code = some button := by cases button <;> rfl

end MouseButton

structure Mouse where
  action : MouseAction
  button : MouseButton
  col : UInt16
  row : UInt16
  mods : UInt16
deriving DecidableEq

structure Init where
  size : Size
  limits : Limits
  media : List Medium
  cwd : Bytes
  argv : List Bytes
  env : List Bytes
  id : String

inductive ToPane where
  | init (init : Init)
  | tail (tail : Pos)
  | resize (size : Size)
  | text (text : Bytes)
  | snapshot (req : Req) (history : History)
  | exit
  | key (key : Key)
  | mouse (mouse : Mouse)
  | paste (req : Req) (text : String) (checkSafe : Bool)
  | focus (focused : Bool)
  | screen (req : Req) (format : ScreenFormat) (rows : ScreenRows)
  | clearHistory
  | image (req : Req) (key : ImageKey) (name : Bytes)
  | clipboardAnswer (req : Req) (served : Option Served)
  | search (req : Req) (needle : Bytes)
  | searchCancel (req : Req)

-- What the pane reads of a frame of the server: the position of a `tail` is in the ring itself.
inductive Request where
  | init (init : Init)
  | tail
  | resize (size : Size)
  | text (text : Bytes)
  | snapshot (req : Req) (history : History)
  | exit
  | key (key : Key)
  | mouse (mouse : Mouse)
  | paste (req : Req) (text : String) (checkSafe : Bool)
  | focus (focused : Bool)
  | screen (req : Req) (format : ScreenFormat) (rows : ScreenRows)
  | clearHistory
  | image (req : Req) (key : ImageKey) (name : Bytes)
  | clipboardAnswer (req : Req) (served : Option Served)
  | search (req : Req) (needle : Bytes)
  | searchCancel (req : Req)

inductive FromPane where
  | ready (pid : Int64)
  | head (pos : Pos)
  | title (title : Bytes)
  | pwd (cwd : Bytes)
  | dead (dead : Dead)
  | snapshotDone (req : Req)
  | pasteDone (req : Req) (pasted unsafePaste : Bool)
  | screen (req : Req) (last : Bool) (text : Bytes)
  | error (message : Bytes)
  | full (pos : Pos)
  | prompt (prompt : Prompt)
  | record (record : Record)
  | foreground (foreground : Foreground)
  | alternate (on : Bool)
  | bell
  | notify (title body : Bytes)
  | progress (report : Option ProgressReport)
  | image (req : Req) (object : Option ImageObject)
  | imageGone (name : Bytes)
  | clipboardWrite (location : ClipboardLocation) (contents : Contents)
  | clipboardRead (req : Req) (location : ClipboardLocation) (list : Bool) (mimes : Mimes)
  | matches (req : Req) (found : Matches)
  | searchDone (req : Req)

end Kido.Framing
