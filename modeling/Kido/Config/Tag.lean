import Kido.Route.Params
import Kido.Runtime.Container

set_option autoImplicit false

namespace Kido.Tags

open Kido.Routing (Number u64Max parseU64 stripFront toList_toString isDigit_toDigits all_isDigit_toDigits toDigits_head
  parseU64_toString stripFront_append)

def maxRuntimeName : Nat := 32

def nameChar (char : Char) : Bool := ('a' ≤ char && char ≤ 'z') || ('0' ≤ char && char ≤ '9') || char = '-'

def isName (text : String) : Bool :=
  1 ≤ text.utf8ByteSize && text.utf8ByteSize ≤ maxRuntimeName && text.toList.all nameChar && text ≠ "host"

structure RuntimeName where
  text : String
  valid : isName text = true
deriving DecidableEq

def RuntimeName.tryFrom (text : String) : Except String RuntimeName :=
  if valid : isName text = true then .ok ⟨text, valid⟩ else .error "invalid runtime name"

structure RuntimeTag where
  name : RuntimeName
  session : Option (Number 0 u64Max)
deriving DecidableEq

def splitOnce (separator : Char) (text : String) : Option (String × String) :=
  match text.toList.dropWhile (· ≠ separator) with
  | [] => none
  | _ :: rest => some (String.ofList (text.toList.takeWhile (· ≠ separator)), String.ofList rest)

def invalid {α : Type} : Except String α := .error "invalid runtime tag"

def validDigits (digits : String) : Bool :=
  digits.toList ≠ [] && digits.toList.all Char.isDigit && (digits.toList.length = 1 || digits.toList.head? ≠ some '0')

-- The name, and the session where the text begins as that of one.
@[grind =]
def parts (text : String) : Except String (String × Option (Number 0 u64Max)) :=
  match stripFront "session_" text with
  | none => .ok (text, none)
  | some rest =>
    match splitOnce '-' rest with
    | none => invalid
    | some (digits, name) =>
      if !validDigits digits then invalid
      else
        match (parseU64 digits).bind (Number.new 0 u64Max) with
        | some id => .ok (name, some id)
        | none => invalid

@[grind =]
def shown (name : String) : Option (Number 0 u64Max) → String
  | some id => "session_" ++ (toString id.value ++ ("-" ++ name))
  | none => name

def RuntimeTag.display (tag : RuntimeTag) : String := shown tag.name.text tag.session

section Digits

theorem stripFront_some {front text rest : String} (found : stripFront front text = some rest) : text = front ++ rest := by
  rw [stripFront] at found
  split at found
  next begins =>
    obtain ⟨later, same⟩ := List.isPrefixOf_iff_prefix.1 begins
    rw [← Option.some.inj found, ← same, List.drop_left, ← String.toList_inj, String.toList_append, String.toList_ofList, same]
  next => cases found

end Digits

section Tags

variable (name : RuntimeName)

theorem RuntimeName.chars : ∀ char ∈ name.text.toList, nameChar char = true := by
  have valid := name.valid
  simp only [isName, Bool.and_eq_true] at valid
  exact List.all_eq_true.1 valid.1.2

theorem RuntimeName.any : name.text.toList ≠ [] := by
  intro none_
  have valid := name.valid
  rw [← String.ofList_toList (s := name.text), none_] at valid
  exact absurd valid (by decide)

theorem tryFrom_ok {text : String} {name : RuntimeName} (found : RuntimeName.tryFrom text = .ok name) : name.text = text := by
  rw [RuntimeName.tryFrom] at found
  split at found
  next => rw [← Except.ok.inj found]
  next => cases found

-- No name begins as the tag of a session: an underscore stands in none.
theorem RuntimeName.bare : stripFront "session_" name.text = none := by
  cases found : stripFront "session_" name.text with
  | none => rfl
  | some rest =>
    have among : '_' ∈ name.text.toList := by
      rw [stripFront_some found, String.toList_append]
      exact List.mem_append_left _ (by decide)
    exact absurd (name.chars '_' among) (by decide)

-- The directory of a runtime under the root.
def directory (root : String) (tag : RuntimeTag) : String := Runtimes.join root tag.display

def RuntimeTag.key (tag : RuntimeTag) : Runtimes.RuntimeKey := ⟨tag.name.text, tag.session.map fun id => id.value⟩

end Tags

end Kido.Tags
