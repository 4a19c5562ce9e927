import Kido.Shared.Chars
import Mathlib.Data.String.Basic
import Mathlib.Order.Basic

set_option autoImplicit false

namespace Kido.Tiling

open Kido.Shared (isControl)

def u64Max : Nat := 2 ^ 64 - 1

structure Counter where
  value : Nat
  bound : value ≤ u64Max
deriving DecidableEq

namespace Counter

def one : Counter := ⟨1, by decide⟩

def bump (counter : Counter) : Counter := ⟨min (counter.value + 1) u64Max, Nat.min_le_right _ _⟩

theorem bump_value (counter : Counter) : counter.bump.value = min (counter.value + 1) u64Max := rfl

theorem le_bump (counter : Counter) : counter.value ≤ counter.bump.value := by
  have bound := counter.bound
  rw [bump_value]
  omega

end Counter

structure PaneId where
  number : Nat
deriving DecidableEq, Repr

structure WindowId where
  number : Nat
deriving DecidableEq, Repr

structure SessionId where
  number : Nat
deriving DecidableEq, Repr

def PaneId.text (id : PaneId) : String := s!"pane_{id.number}"

def WindowId.text (id : WindowId) : String := s!"window_{id.number}"

def SessionId.text (id : SessionId) : String := s!"session_{id.number}"

def maxName : Nat := 256

def plain (text : String) : Bool :=
  text.utf8ByteSize ≤ maxName && !text.toList.any isControl

structure Name where
  text : String
  plain : plain text = true
deriving DecidableEq

def Name.ofString? (text : String) : Option Name :=
  if valid : Tiling.plain text = true then some ⟨text, valid⟩ else none

structure VarName where
  text : String
  nonempty : text.isEmpty = false
  plain : plain text = true

namespace VarName

def new (text : String) : Except String VarName :=
  if empty : text.isEmpty = false then
    if valid : Tiling.plain text = true then .ok ⟨text, empty, valid⟩ else .error "invalid variable name"
  else .error "invalid variable name"

theorem text_injective : Function.Injective VarName.text := by
  intro left right same
  cases left
  cases right
  simpa using same

instance : LinearOrder VarName := LinearOrder.lift' VarName.text text_injective

theorem lt_iff (left right : VarName) : left < right ↔ left.text < right.text := Iff.rfl

@[simp]
theorem new_text (name : VarName) : new name.text = .ok name := by
  simp [new, name.nonempty, name.plain]

end VarName

structure Ids where
  pane : Counter
  session : Counter
  window : Counter
deriving DecidableEq

namespace Ids

def mintPane (ids : Ids) : PaneId × Ids := (⟨ids.pane.value⟩, { ids with pane := ids.pane.bump })

def mintSession (ids : Ids) : SessionId × Ids :=
  (⟨ids.session.value⟩, { ids with session := ids.session.bump })

def mintWindow (ids : Ids) : WindowId × Ids := (⟨ids.window.value⟩, { ids with window := ids.window.bump })

end Ids

structure Revision where
  number : Nat
deriving DecidableEq, Repr

namespace Revision

def first : Revision := ⟨0⟩

def next (revision : Revision) : Revision := ⟨min (revision.number + 1) u64Max⟩

end Revision

end Kido.Tiling
