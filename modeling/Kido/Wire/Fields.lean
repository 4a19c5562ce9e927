import Kido.Shared.Codec
import Mathlib.Algebra.Order.Ring.Nat

set_option autoImplicit false

namespace Kido.Framing

open Kido.Shared

abbrev Bytes := List UInt8

inductive Oversize where
  | oversize
deriving DecidableEq

inductive Malformed where
  | length
  | unknown
  | short
  | string
  | ready
  | dead
  | field
  | trailing
deriving DecidableEq

def maxFrame : Nat := 16 * 1024 * 1024
def maxFrameBytes : Nat := maxFrame + 4
def header : Nat := 5
def maxStrings : Nat := 4096

abbrev Body := Shared.Writer Oversize

abbrev Fields := Reader Malformed

namespace Body

def bytes (value : Bytes) : Body Unit := Shared.Writer.append value

def u8 (value : UInt8) : Body Unit := bytes [value]

def bool (value : Bool) : Body Unit := u8 (if value then 1 else 0)

def u16 (value : UInt16) : Body Unit := bytes (leBytes 2 value.toNat)

def u32 (value : UInt32) : Body Unit := bytes (leBytes 4 value.toNat)

def i32 (value : Int32) : Body Unit := bytes (leBytes 4 value.toUInt32.toNat)

def u64 (value : UInt64) : Body Unit := bytes (leBytes 8 value.toNat)

def length (value : Nat) : Body Unit := if value < 2 ^ 32 then u32 (UInt32.ofNat value) else Shared.Writer.fail .oversize

def string (value : Bytes) : Body Unit := do
  length value.length
  bytes value

def each : List Bytes → Body Unit
  | [] => pure ()
  | value :: rest => do
    string value
    each rest

def strings (values : List Bytes) : Body Unit := do
  length values.length
  each values

end Body

namespace Fields

def take (count : Nat) : Fields Bytes := fun body =>
  if count ≤ body.length then .ok (body.take count, body.drop count) else .error .short

def u8 : Fields UInt8 := do
  let taken ← take 1
  Reader.orFail taken.head? .short

def flag : Fields Bool := do
  match (← u8) with
  | 0 => pure false
  | 1 => pure true
  | _ => Reader.fail .field

def u16 : Fields UInt16 := do return UInt16.ofNat (ofLe (← take 2))

def u32 : Fields UInt32 := do return UInt32.ofNat (ofLe (← take 4))

def i32 : Fields Int32 := do return (UInt32.ofNat (ofLe (← take 4))).toInt32

def u64 : Fields UInt64 := do return UInt64.ofNat (ofLe (← take 8))

def sizeOf : Fields UInt64 := u64

def percent : Fields (Option UInt8) := do
  let value ← u8
  if value = 255 then return none
  if value ≤ 100 then return some value
  Reader.fail .field

def bytes : Fields Bytes := do
  let length ← u32
  fun body => if length.toNat ≤ body.length then .ok (body.take length.toNat, body.drop length.toNat) else .error .string

def text : Fields Bytes := do
  let value ← bytes
  if value.contains 0 then Reader.fail .field
  return value

def textsLoop : Nat → Fields (List Bytes)
  | 0 => pure []
  | count + 1 => do
    let value ← text
    return value :: (← textsLoop count)

def texts : Fields (List Bytes) := do
  let count ← u32
  if maxStrings < count.toNat then Reader.fail .field
  textsLoop count.toNat

def walk : Nat → Fields Unit
  | 0 => pure ()
  | count + 1 => do
    let _ ← bytes
    walk count

def walkStrings : Fields Nat := do
  let count ← u32
  walk count.toNat
  return count.toNat

def rest : Fields Bytes := fun body => .ok (body, [])

def done : Fields Unit := fun body => if body = [] then .ok ((), []) else .error .trailing

def pick {α : Type} (ofCode : UInt8 → Option α) : Fields α := do
  Reader.orFail (ofCode (← u8)) .field

end Fields

section Local

open Reader

theorem take_local (count : Nat) : Local (Fields.take count) := by
  intro body value rest run
  unfold Fields.take at run
  split at run
  next enough =>
    cases run
    refine ⟨body.take count, (List.take_append_drop _ _).symm, fun other => ?_⟩
    have length : (body.take count).length = count := List.length_take_of_le enough
    unfold Fields.take
    rw [if_pos (by simp [length]), List.take_append_of_le_length (by omega), List.take_of_length_le (by omega),
      List.drop_append_of_le_length (by omega), List.drop_eq_nil_of_le (by omega), List.nil_append]
  next => cases run

theorem u32_local : Local Fields.u32 := (take_local 4).bind fun _ => .pure _

theorem bytes_local : Local Fields.bytes := by
  refine u32_local.bind fun length body value rest run => ?_
  split at run
  next enough =>
    cases run
    refine ⟨body.take length.toNat, (List.take_append_drop _ _).symm, fun other => ?_⟩
    have same : (body.take length.toNat).length = length.toNat := List.length_take_of_le enough
    rw [if_pos (by simp [same]), List.take_append_of_le_length (by omega), List.take_of_length_le (by omega),
      List.drop_append_of_le_length (by omega), List.drop_eq_nil_of_le (by omega), List.nil_append]
  next => cases run

theorem walk_local (count : Nat) : Local (Fields.walk count) := by
  induction count with
  | zero => exact .pure ()
  | succ count ih => exact bytes_local.bind fun _ => ih

theorem walkStrings_local : Local Fields.walkStrings := u32_local.bind fun _ => (walk_local _).bind fun _ => .pure _

end Local

section Undoes

theorem take_front (front rest : Bytes) : Fields.take front.length (front ++ rest) = .ok (front, rest) := by
  unfold Fields.take
  rw [if_pos (by simp)]
  simp

theorem take_undoes (value : Bytes) : Undoes (Fields.take value.length) value (Body.bytes value) () :=
  .append fun rest => take_front value rest

theorem u8_undoes (value : UInt8) : Undoes Fields.u8 value (Body.u8 value) () :=
  (take_undoes [value]).check fun _ => rfl

theorem flag_undoes (value : Bool) : Undoes Fields.flag value (Body.bool value) () :=
  (u8_undoes _).check fun _ => by cases value <;> rfl

theorem word_undoes {α : Type} (count value : Nat) (ofNat : Nat → α) (bound : value < 256 ^ count) :
    Undoes (do return ofNat (ofLe (← Fields.take count)) : Fields α) (ofNat value)
      (Body.bytes (leBytes count value)) () := by
  have taken := take_undoes (leBytes count value)
  rw [leBytes_length] at taken
  refine taken.check fun rest => ?_
  rw [ofLe_leBytes bound]
  rfl

theorem u16_undoes (value : UInt16) : Undoes Fields.u16 value (Body.u16 value) () := by
  have word := word_undoes 2 value.toNat UInt16.ofNat value.toNat_lt
  rwa [UInt16.ofNat_toNat] at word

theorem u32_undoes (value : UInt32) : Undoes Fields.u32 value (Body.u32 value) () := by
  have word := word_undoes 4 value.toNat UInt32.ofNat value.toNat_lt
  rwa [UInt32.ofNat_toNat] at word

theorem i32_undoes (value : Int32) : Undoes Fields.i32 value (Body.i32 value) () := by
  have word := word_undoes 4 value.toUInt32.toNat (fun raw => (UInt32.ofNat raw).toInt32) value.toUInt32.toNat_lt
  rwa [UInt32.ofNat_toNat, Int32.toInt32_toUInt32] at word

theorem u64_undoes (value : UInt64) : Undoes Fields.u64 value (Body.u64 value) () := by
  have word := word_undoes 8 value.toNat UInt64.ofNat value.toNat_lt
  rwa [UInt64.ofNat_toNat] at word

theorem length_undoes {value : Nat} :
    Undoes Fields.u32 (UInt32.ofNat value) (Body.length value) () := by
  unfold Body.length
  split
  · exact u32_undoes _
  · intro ended done
    cases done

theorem length_ok {value : Nat} (done : (Body.length value).result = .ok ()) : value < 2 ^ 32 := by
  unfold Body.length at done
  split at done
  next bound => exact bound
  next => cases done

theorem string_undoes (value : Bytes) : Undoes Fields.bytes value (Body.string value) () := by
  refine length_undoes.stepWith fun ended => .append fun rest => ?_
  have bound : value.length % 2 ^ 32 = value.length := Nat.mod_eq_of_lt (length_ok ended)
  rw [UInt32.toNat_ofNat', bound, if_pos (by simp)]
  simp

theorem text_undoes {value : Bytes} (plain : (0 : UInt8) ∉ value) :
    Undoes Fields.text value (Body.string value) () := by
  refine (string_undoes value).check fun rest => ?_
  have absent : value.contains 0 = false := by simpa using plain
  rw [absent]
  rfl

theorem textsLoop_undoes {values : List Bytes} (plain : ∀ value ∈ values, (0 : UInt8) ∉ value) :
    Undoes (Fields.textsLoop values.length) values (Body.each values) () := by
  induction values with
  | nil => exact .pure () []
  | cons value values ih =>
    refine (text_undoes (plain value List.mem_cons_self)).step ?_
    exact (ih fun other member => plain other (List.mem_cons_of_mem _ member)).check fun _ => rfl

theorem texts_undoes {values : List Bytes} (few : values.length ≤ maxStrings)
    (plain : ∀ value ∈ values, (0 : UInt8) ∉ value) : Undoes Fields.texts values (Body.strings values) () := by
  refine length_undoes.stepWith fun ended => ?_
  have bound : values.length % 2 ^ 32 = values.length := Nat.mod_eq_of_lt (length_ok ended)
  rw [UInt32.toNat_ofNat', bound, if_neg (by omega)]
  exact textsLoop_undoes plain

theorem percent_undoes {value : Option UInt8} (percent : ∀ some ∈ value, some ≤ 100) :
    Undoes Fields.percent value (Body.u8 (value.getD 255)) () := by
  refine (u8_undoes _).check fun rest => ?_
  cases value with
  | none => rfl
  | some value =>
    have small : value ≤ 100 := percent value rfl
    have other : value ≠ 255 := by
      rintro rfl
      exact absurd small (by decide)
    simp only [Option.getD_some, if_neg other, if_pos small]
    rfl

theorem pick_undoes {α : Type} {code : α → UInt8} {ofCode : UInt8 → Option α} {value : α}
    (same : ofCode (code value) = some value) : Undoes (Fields.pick ofCode) value (Body.u8 (code value)) () := by
  refine (u8_undoes _).check fun rest => ?_
  rw [same]
  rfl

end Undoes

end Kido.Framing
