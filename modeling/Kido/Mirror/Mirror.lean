import Kido.Mirror.Terminal

set_option autoImplicit false

namespace Kido.Mirrors

variable {C V : Type}

inductive Failure where
  | vt
  | event
  | link
  | told (message : String)
deriving DecidableEq

-- What the view of a pane shows: a screen without its history is shown until the user scrolls, and `loading` keeps how far.
inductive Surface (C V : Type) where
  | empty
  | full (screen : Terminal C V)
  | partly (screen : Terminal C V)
  | loading (screen : Terminal C V) (delta : Int)

inductive Following where
  | bytes (data : List UInt8)
  | marker (marker : Marker)
deriving DecidableEq

inductive Shape where
  | screen
  | full (ready : Bool)
deriving DecidableEq

def Shape.isFull : Shape → Bool
  | .screen => false
  | .full _ => true

structure Assembly where
  stop : Nat
  buffer : List UInt8
  kind : Shape
  following : List Following

-- Copy mode: the row that it stands at, and whether anything came meanwhile.
structure Frozen where
  offset : Nat
  dirty : Bool

structure Mirror (C V : Type) where
  surface : Surface C V
  assembly : Option Assembly
  dead : Option Nat
  resume : Option Nat
  frozen : Option Frozen
  awaitingSnapshot : Bool

namespace Surface

def screen : Surface C V → Option (Terminal C V)
  | .empty => none
  | .full screen | .partly screen | .loading screen _ => some screen

def change (act : Terminal C V → Terminal C V) : Surface C V → Surface C V
  | .empty => .empty
  | .full screen => .full (act screen)
  | .partly screen => .partly (act screen)
  | .loading screen delta => .loading (act screen) delta

def pending : Surface C V → Option Int
  | .loading _ delta => some delta
  | _ => none

def scrollBottom (engine : Engine C V) : Surface C V → Surface C V × Option Bool
  | .empty => (.empty, some false)
  | .full screen => (.full (engine.bottom screen).1, (engine.bottom screen).2)
  | .partly screen => (.partly (engine.bottom screen).1, (engine.bottom screen).2)
  | .loading screen delta =>
    match engine.bottom screen with
    | (screen, none) => (.loading screen delta, none)
    | (screen, some moved) => (.loading screen 0, some (decide (delta ≠ 0) || moved))

end Surface

namespace Mirror

def start : Mirror C V := ⟨.empty, none, none, none, none, false⟩

variable (engine : Engine C V) (mirror : Mirror C V)

def note (marker : Marker) (dead : Option Nat) : Option Nat :=
  match marker with
  | .dead at_ => some at_
  | .resize _ => dead

def marker (event : Option ViewEvent) : Mirror C V × Except Failure Unit :=
  match mirror.frozen with
  | some frozen => ({ mirror with frozen := some { frozen with dirty := true } }, .ok ())
  | none =>
    if mirror.awaitingSnapshot then (mirror, .ok ())
    else
      match event with
      | none => (mirror, .error .event)
      | some (.marked _ marker) =>
        match mirror.assembly with
        | some assembly =>
          ({ mirror with assembly := some { assembly with following := assembly.following ++ [.marker marker] } }, .ok ())
        | none =>
          let noted := { mirror with dead := note marker mirror.dead }
          match mirror.surface with
          | .full screen =>
            match engine.apply screen marker with
            | none => (noted, .error .vt)
            | some screen => ({ noted with surface := .full screen }, .ok ())
          | _ => (noted, .ok ())
      | some _ => (mirror, .ok ())

def output (record : List UInt8) (offset : Nat) (data : List UInt8) : Mirror C V × Except Failure Unit :=
  match mirror.surface.scrollBottom engine with
  | (surface, none) => ({ mirror with surface := surface }, .error .vt)
  | (surface, some _) =>
    let stop := min (offset + data.length) (Shared.u64 - 1)
    match mirror.assembly with
    | some assembly =>
      let start := record.length - data.length
      ({ mirror with
          surface := surface,
          assembly := some { assembly with following := assembly.following ++ [.bytes (record.drop start)], stop := stop } },
        .ok ())
    | none =>
      match surface.screen with
      | none => ({ mirror with surface := surface }, .ok ())
      | some _ =>
        ({ mirror with
            surface := surface.change fun screen => engine.write screen data,
            resume := mirror.resume.map fun _ => stop },
          .ok ())

-- What queued behind a snapshot is applied to it; the deaths among it are noted whatever comes after them.
def replay (full : Bool) : List Following → Option Nat → Terminal C V → Option Nat × Option (Terminal C V)
  | [], dead, vt => (dead, some vt)
  | .marker marker :: rest, dead, vt =>
    if full then
      match engine.apply vt marker with
      | none => (note marker dead, none)
      | some vt => replay full rest (note marker dead) vt
    else replay full rest (note marker dead) vt
  | .bytes data :: rest, dead, vt =>
    match engine.bottom vt with
    | (_, none) => (dead, none)
    | (vt, some _) => replay full rest dead (engine.write vt data)

def restored (buffer : List UInt8) (full : Bool) : Option (Terminal C V) := do
  let vt ← engine.decode buffer (if full then .full else .screen)
  let content ← engine.configure vt.content
  if engine.watch content then some ⟨content, vt.viewport⟩ else none

def finish : Mirror C V × Except Failure Unit :=
  match mirror.assembly with
  | none => (mirror, .ok ())
  | some assembly =>
    let full := assembly.kind.isFull
    let taken := { mirror with assembly := none, resume := if full then some assembly.stop else mirror.resume }
    match restored engine assembly.buffer full with
    | none => (taken, .error .vt)
    | some vt =>
      match replay engine full assembly.following mirror.dead vt with
      | (dead, none) => ({ taken with dead := dead }, .error .vt)
      | (dead, some vt) =>
        let surface :=
          match full, mirror.surface.pending with
          | true, some delta => .full (engine.scroll vt delta)
          | true, none => .full vt
          | false, some delta => .loading vt delta
          | false, none => .partly vt
        ({ taken with dead := dead, surface := surface }, .ok ())

-- The screen at the head of a full snapshot is shown as soon as it is there.
def readied (assembly : Assembly) : Mirror C V × Except Failure Unit :=
  if assembly.kind = .full true ∧ engine.ready assembly.buffer then
    let waiting := { mirror with assembly := some { assembly with kind := .full false } }
    match engine.decode assembly.buffer .screen with
    | none => (waiting, .error .vt)
    | some early =>
      if engine.watch early.content then
        ({ waiting with surface := .loading early (mirror.surface.pending.getD 0) }, .ok ())
      else (waiting, .error .vt)
  else ({ mirror with assembly := some assembly }, .ok ())

-- A first slice begins a new snapshot, whatever was assembled before.
def begun (offset : Nat) (slice : Slice) : Mirror C V :=
  if slice.first then
    { mirror with
      resume := none,
      assembly := some ⟨offset, [], if !slice.screen then .full true else .screen, []⟩ }
  else mirror

-- A slice joins the snapshot that is being assembled; the value says whether it is the last one.
def joined (offset : Nat) (data : List UInt8) : Mirror C V × Except Failure Bool :=
  match Slice.decode data with
  | none => (mirror, .error (.told "short snapshot slice"))
  | some (slice, body) =>
    let begun := begun mirror offset slice
    match begun.assembly with
    | none => (begun, .error (.told "snapshot missing first slice"))
    | some assembly =>
      match readied engine begun { assembly with buffer := assembly.buffer ++ body } with
      | (mirror, .error failure) => (mirror, .error failure)
      | (mirror, .ok ()) => (mirror, .ok slice.last)

def snapshot (offset : Nat) (data : List UInt8) : Mirror C V × Except Failure Unit :=
  match joined engine mirror offset data with
  | (mirror, .error failure) => (mirror, .error failure)
  | (mirror, .ok last) => if last then finish engine mirror else (mirror, .ok ())

def startsSnapshot : Except BadRecord Parsed → Bool
  | .ok (.snapshot _ slice) => (Slice.decode slice).any fun decoded => decoded.1.first
  | _ => false

def took (record : List UInt8) : Except BadRecord Parsed → Mirror C V × Except Failure Unit
  | .ok (.output offset data) => output engine mirror record offset data
  | .ok (.snapshot offset slice) => snapshot engine mirror offset slice
  | .error .short => (mirror, .error (.told "short record"))
  | .error (.kind _) => (mirror, .error (.told "invalid record kind"))
  | .error .inflate => (mirror, .error (.told "corrupt snapshot slice"))

def record (record : List UInt8) : Mirror C V × Except Failure Unit :=
  match mirror.frozen with
  | some frozen => ({ mirror with frozen := some { frozen with dirty := true } }, .ok ())
  | none =>
    let parsed := parseRecord engine.inflate record
    if mirror.awaitingSnapshot then
      if startsSnapshot parsed then took engine { mirror with awaitingSnapshot := false } record parsed
      else
        match parsed with
        | .ok _ => (mirror, .ok ())
        | .error _ => took engine mirror record parsed
    else took engine mirror record parsed

-- Copy mode begins on a screen with its history; `opened` is the row that copy mode starts at, if it opens.
def freeze (opened : Option Nat) : Mirror C V × Except Failure Bool :=
  if mirror.assembly.isSome || mirror.awaitingSnapshot then (mirror, .ok false)
  else
    match mirror.surface with
    | .full screen =>
      if engine.hold screen.content then (mirror, .ok false)
      else
        match engine.rows screen.content, engine.offset screen.content screen.viewport, opened with
        | some _, some offset, some row =>
          let surface := if row ≠ offset then .full (engine.scrollTo screen row) else mirror.surface
          ({ mirror with surface := surface, frozen := some ⟨row, false⟩ }, .ok true)
        | _, _, _ => (mirror, .error .vt)
    | _ => (mirror, .ok false)

-- A key or the mouse takes copy mode to a row, unless it fails there.
def copyChange (row : Nat) (failed : Bool) : Mirror C V × Except Failure Unit :=
  match mirror.frozen, mirror.surface.screen with
  | none, _ => (mirror, .error (.told "copy mode is not active"))
  | some _, none => (mirror, .error (.told "copy screen is not ready"))
  | some frozen, some _ =>
    let moved := { mirror with frozen := some { frozen with offset := row } }
    if failed then (moved, .error .vt)
    else if row ≠ frozen.offset then
      ({ moved with surface := mirror.surface.change fun screen => engine.scrollTo screen row }, .ok ())
    else (moved, .ok ())

-- A new snapshot is asked for; `sent` says whether the request left.
def resync (sent : Bool) : Mirror C V × Except Failure Unit :=
  ({ mirror with resume := none, assembly := none, awaitingSnapshot := true },
    if sent then .ok () else .error .link)

def bottom : Mirror C V × Except Failure Unit :=
  if mirror.frozen.isSome then (mirror, .ok ())
  else
    match mirror.surface.scrollBottom engine with
    | (surface, none) => ({ mirror with surface := surface }, .error .vt)
    | (surface, some _) => ({ mirror with surface := surface }, .ok ())

def thaw (sent : Bool) : Mirror C V × Except Failure Unit :=
  match mirror.frozen with
  | none => (mirror, .ok ())
  | some frozen =>
    match bottom engine { mirror with frozen := none } with
    | (mirror, .error failure) => (mirror, .error failure)
    | (mirror, .ok ()) => if frozen.dirty then resync mirror sent else (mirror, .ok ())

def scroll (delta : Int) (sent : Bool) : Mirror C V × Except Failure Unit :=
  match mirror.surface with
  | .empty => (mirror, .ok ())
  | .full screen => ({ mirror with surface := .full (engine.scroll screen delta) }, .ok ())
  | .partly screen => resync { mirror with surface := .loading screen delta } sent
  | .loading screen pending => ({ mirror with surface := .loading screen (pending + delta) }, .ok ())

def unwatch : Mirror C V :=
  match mirror.frozen with
  | some _ => { mirror with frozen := none, resume := none }
  | none => mirror

end Mirror

end Kido.Mirrors
