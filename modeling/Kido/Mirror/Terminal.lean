import Kido.Shared.Words
import Kido.Wire.Messages

set_option autoImplicit false

namespace Kido.Mirrors

open Kido.Shared Kido.Framing

inductive BadRecord where
  | short
  | kind (byte : UInt8)
  | inflate
deriving DecidableEq

inductive Parsed where
  | output (offset : Nat) (data : List UInt8)
  | snapshot (offset : Nat) (slice : List UInt8)
deriving DecidableEq

def recordHeader : Nat := 9

def sliceHeader : Nat := 2

-- The parser of a record; `inflate` is the decompressor, which keeps a header in front of what it makes.
def parseRecord (inflate : List UInt8 → List UInt8 → Option (List UInt8)) (payload : List UInt8) :
    Except BadRecord Parsed :=
  if payload.length < recordHeader then .error .short
  else
    let offset := ofLe ((payload.drop 1).take 8)
    let body := payload.drop recordHeader
    let kind := payload.headD 0
    if kind = 1 then .ok (.output offset body)
    else if kind = 2 then
      if body.length < sliceHeader then .error .short
      else
        match inflate (body.take sliceHeader) (body.drop sliceHeader) with
        | none => .error .inflate
        | some slice => .ok (.snapshot offset slice)
    else .error (.kind kind)

structure Slice where
  first : Bool
  last : Bool
  screen : Bool
deriving DecidableEq

def Slice.decode : List UInt8 → Option (Slice × List UInt8)
  | flags :: screen :: body => some (⟨flags &&& 1 ≠ 0, flags &&& 2 ≠ 0, screen ≠ 0⟩, body)
  | _ => none

theorem parseRecord_output {inflate : List UInt8 → List UInt8 → Option (List UInt8)} {payload data : List UInt8} {offset : Nat}
    (parsed : parseRecord inflate payload = .ok (.output offset data)) : data = payload.drop recordHeader := by
  unfold parseRecord at parsed
  by_cases short : payload.length < recordHeader
  · rw [if_pos short] at parsed
    cases parsed
  · rw [if_neg short] at parsed
    dsimp only at parsed
    by_cases output : payload.headD 0 = 1
    · rw [if_pos output] at parsed
      cases parsed
      rfl
    · rw [if_neg output] at parsed
      by_cases snapshot : payload.headD 0 = 2
      · rw [if_pos snapshot] at parsed
        by_cases body : (payload.drop recordHeader).length < sliceHeader
        · rw [if_pos body] at parsed
          cases parsed
        · rw [if_neg body] at parsed
          split at parsed <;> cases parsed
      · rw [if_neg snapshot] at parsed
        cases parsed

inductive Marker where
  | resize (size : Size)
  | dead (at_ : Nat)
deriving DecidableEq

inductive ViewEvent where
  | marked (offset : Nat) (marker : Marker)
  | skipped (offset start stop : Nat)
  | pasted
deriving DecidableEq

inductive Extent where
  | full
  | screen
deriving DecidableEq

-- A terminal: what the bytes have made of it, and where its viewport stands.
structure Terminal (C V : Type) where
  content : C
  viewport : V

-- The terminal library, as far as a mirror uses it, with the decompressor of the records. A write goes byte by byte, and
-- nothing that moves the viewport touches the content.
structure Engine (C V : Type) where
  inflate : List UInt8 → List UInt8 → Option (List UInt8)
  decode : List UInt8 → Extent → Option (Terminal C V)
  ready : List UInt8 → Bool
  configure : C → Option C
  watch : C → Bool
  put : C → UInt8 → C
  resize : C → Size → Option C
  follow : C → C → V → V
  offset : C → V → Option Nat
  rows : C → Option Nat
  lowest : C → V → V
  topmost : C → V → V
  moved : C → V → Int → V
  hold : C → Bool

namespace Engine

variable {C V : Type} (engine : Engine C V)

def become (vt : Terminal C V) (content : C) : Terminal C V := ⟨content, engine.follow vt.content content vt.viewport⟩

def write (vt : Terminal C V) (data : List UInt8) : Terminal C V := engine.become vt (data.foldl engine.put vt.content)

def bottom (vt : Terminal C V) : Terminal C V × Option Bool :=
  match engine.offset vt.content vt.viewport with
  | none => (vt, none)
  | some before =>
    let low := engine.lowest vt.content vt.viewport
    (⟨vt.content, low⟩, (engine.offset vt.content low).map fun after => decide (before ≠ after))

def scroll (vt : Terminal C V) (delta : Int) : Terminal C V := ⟨vt.content, engine.moved vt.content vt.viewport delta⟩

def scrollTo (vt : Terminal C V) (row : Nat) : Terminal C V :=
  engine.scroll ⟨vt.content, engine.topmost vt.content vt.viewport⟩ row

def apply (vt : Terminal C V) : Marker → Option (Terminal C V)
  | .resize size => (engine.resize vt.content size).map (engine.become vt)
  | .dead _ => some vt

@[simp]
theorem write_content (vt : Terminal C V) (data : List UInt8) : (engine.write vt data).content = data.foldl engine.put vt.content :=
  rfl

@[simp]
theorem scroll_content (vt : Terminal C V) (delta : Int) : (engine.scroll vt delta).content = vt.content := rfl

@[simp]
theorem scrollTo_content (vt : Terminal C V) (row : Nat) : (engine.scrollTo vt row).content = vt.content := rfl

@[simp]
theorem bottom_content (vt : Terminal C V) : (engine.bottom vt).1.content = vt.content := by
  unfold bottom
  split <;> rfl

end Engine

end Kido.Mirrors
