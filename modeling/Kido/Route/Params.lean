import Kido.Route.Percent
import Kido.Shared.Chars
import Mathlib.Algebra.Order.Ring.Nat

set_option autoImplicit false

namespace Kido.Routing

open Kido.Framing (asBytes)
open Kido.Shared (isControl)

inductive Invalid where
  | noRoute
  | message (text : String)
deriving DecidableEq

def u32Max : Nat := 2 ^ 32 - 1

def u64Max : Nat := 2 ^ 64 - 1

def stripFront (front text : String) : Option String :=
  if front.toList.isPrefixOf text.toList then some (String.ofList (text.toList.drop front.toList.length)) else none

def unsigned : List Char → List Char
  | '+' :: rest => rest
  | chars => chars

def parseU64 (text : String) : Option Nat :=
  let digits := unsigned text.toList
  if digits = [] ∨ !digits.all Char.isDigit then none
  else if Nat.ofDigitChars 10 digits 0 ≤ u64Max then some (Nat.ofDigitChars 10 digits 0) else none

structure Number (low high : Nat) where
  value : Nat
  least : low ≤ value
  most : value ≤ high
deriving DecidableEq

def Number.new (low high value : Nat) : Option (Number low high) :=
  if bound : low ≤ value ∧ value ≤ high then some ⟨value, bound.1, bound.2⟩ else none

def natural (value : String) (max : Nat) : Except Invalid (Number 0 max) :=
  if value.toList = [] ∨ !value.toList.all Char.isDigit then .error (.message "invalid number")
  else
    match (parseU64 value).bind (Number.new 0 max) with
    | some number => .ok number
    | none => .error (.message "invalid number")

def positive (value : String) (max : Nat) : Except Invalid (Number 1 max) := do
  let number ← natural value max
  match Number.new 1 max number.value with
  | some number => .ok number
  | none => .error (.message "invalid number")

-- An id: what stands before its number says what it names.
structure Id (front : String) where
  number : Nat
  fits : number ≤ u64Max
deriving DecidableEq

def Id.parse (front text : String) : Option (Id front) := do
  let digits ← stripFront front text
  if digits.toList.all Char.isDigit && (digits.toList.length = 1 || digits.toList.head? ≠ some '0') then
    let number ← parseU64 digits
    if fits : number ≤ u64Max then some ⟨number, fits⟩ else none
  else none

def Id.render {front : String} (id : Id front) : String := front ++ toString id.number

abbrev PaneId := Id "pane_"
abbrev SessionId := Id "session_"
abbrev WindowId := Id "window_"

def maxName : Nat := 256

def plain (text : String) : Bool := (asBytes text).length ≤ maxName && !text.toList.any isControl

structure VarName where
  text : String
  valid : text ≠ "" ∧ plain text = true
deriving DecidableEq

def VarName.new (text : String) : Option VarName := if valid : text ≠ "" ∧ plain text = true then some ⟨text, valid⟩ else none

def maxRuntimeName : Nat := 32

def runtimeLetter (char : Char) : Bool := ('a' ≤ char && char ≤ 'z') || ('0' ≤ char && char ≤ '9') || char = '-'

def runtimeValid (text : String) : Bool :=
  1 ≤ (asBytes text).length && (asBytes text).length ≤ maxRuntimeName && text.toList.all runtimeLetter && text ≠ "host"

structure RuntimeName where
  text : String
  valid : runtimeValid text = true
deriving DecidableEq

def RuntimeName.new (text : String) : Option RuntimeName := if valid : runtimeValid text = true then some ⟨text, valid⟩ else none

def maxNeedle : Nat := 4096

structure Needle where
  text : String
  valid : text ≠ "" ∧ (asBytes text).length ≤ maxNeedle
deriving DecidableEq

def Needle.new (text : String) : Option Needle :=
  if valid : text ≠ "" ∧ (asBytes text).length ≤ maxNeedle then some ⟨text, valid⟩ else none

abbrev WaitMs := Number 0 3600000
abbrev Offset := Number 0 (2 ^ 62 - 1)
abbrev ImageId := Number 1 u32Max
abbrev FrameNumber := Number 1 u32Max
abbrev Generation := Number 1 u64Max

def WaitMs.default : WaitMs := ⟨30000, by decide, by decide⟩

inductive WindowOnly where
  | windowOnly
deriving DecidableEq

inductive ScreenFormat where
  | plain
  | ansi
deriving DecidableEq

inductive ScreenRows where
  | visible
  | full
  | last (rows : Number 0 u32Max)
deriving DecidableEq

inductive History where
  | none
  | all
deriving DecidableEq

inductive Images where
  | none
deriving DecidableEq

structure Param (α : Type) where
  parse : String → Except Invalid α
  render : α → String
  absent : Option α := none

def orInvalid {α : Type} (value : Option α) (invalid : Invalid) : Except Invalid α :=
  match value with
  | some value => .ok value
  | none => .error invalid

namespace Param

def id (front : String) : Param (Id front) where
  parse value := orInvalid (Id.parse front value) .noRoute
  render := Id.render

def varName : Param VarName where
  parse value := orInvalid ((percentDecode value).bind VarName.new) (.message "invalid variable name")
  render name := percentEncode name.text

def runtimeName : Param RuntimeName where
  parse value := orInvalid (RuntimeName.new value) (.message "invalid runtime name")
  render := RuntimeName.text

def natural (max : Nat) : Param (Number 0 max) where
  parse value := Routing.natural value max
  render number := toString number.value

def positive (max : Nat) : Param (Number 1 max) where
  parse value := Routing.positive value max
  render number := toString number.value

def needle : Param Needle where
  parse value := orInvalid ((percentDecode value).bind Needle.new) (.message "invalid needle")
  render needle := percentEncode needle.text

def windowOnly : Param WindowOnly where
  parse value := if value = "true" then .ok .windowOnly else .error (.message "invalid window")
  render _ := "true"

def screenFormat : Param ScreenFormat where
  parse value :=
    if value = "plain" then .ok .plain else if value = "ansi" then .ok .ansi else .error (.message "invalid format")
  render
    | .plain => "plain"
    | .ansi => "ansi"

def screenRows : Param ScreenRows where
  parse value :=
    if value = "none" then .ok .visible
    else if value = "all" then .ok .full
    else (Routing.natural value u32Max).map .last
  render
    | .visible => "none"
    | .full => "all"
    | .last rows => toString rows.value

def history : Param History where
  parse value := if value = "none" then .ok .none else if value = "all" then .ok .all else .error (.message "invalid history")
  render
    | .none => "none"
    | .all => "all"

def images : Param Images where
  parse value := if value = "none" then .ok .none else .error (.message "P1 supports images=none only")
  render
    | .none => "none"

def option {α : Type} (param : Param α) : Param (Option α) where
  parse value := (param.parse value).map some
  render value := (value.map param.render).getD ""
  absent := some none

end Param

-- The types of the parameters, and of an optional one.
inductive Base where
  | paneId
  | sessionId
  | windowId
  | varName
  | runtimeName
  | waitMs
  | offset
  | imageId
  | frameNumber
  | generation
  | needle
  | windowOnly
  | screenFormat
  | screenRows
  | history
  | images
deriving DecidableEq

inductive Kind where
  | one (base : Base)
  | optional (base : Base)
deriving DecidableEq

@[reducible]
def Base.Value : Base → Type
  | .paneId => PaneId
  | .sessionId => SessionId
  | .windowId => WindowId
  | .varName => VarName
  | .runtimeName => RuntimeName
  | .waitMs => WaitMs
  | .offset => Offset
  | .imageId => ImageId
  | .frameNumber => FrameNumber
  | .generation => Generation
  | .needle => Needle
  | .windowOnly => WindowOnly
  | .screenFormat => ScreenFormat
  | .screenRows => ScreenRows
  | .history => History
  | .images => Images

@[reducible]
def Kind.Value : Kind → Type
  | .one base => base.Value
  | .optional base => Option base.Value

instance : (base : Base) → DecidableEq base.Value
  | .paneId | .sessionId | .windowId => inferInstanceAs (DecidableEq (Id _))
  | .varName => inferInstanceAs (DecidableEq VarName)
  | .runtimeName => inferInstanceAs (DecidableEq RuntimeName)
  | .waitMs | .offset | .imageId | .frameNumber | .generation => inferInstanceAs (DecidableEq (Number _ _))
  | .needle => inferInstanceAs (DecidableEq Needle)
  | .windowOnly => inferInstanceAs (DecidableEq WindowOnly)
  | .screenFormat => inferInstanceAs (DecidableEq ScreenFormat)
  | .screenRows => inferInstanceAs (DecidableEq ScreenRows)
  | .history => inferInstanceAs (DecidableEq History)
  | .images => inferInstanceAs (DecidableEq Images)

instance : (kind : Kind) → DecidableEq kind.Value
  | .one base => inferInstanceAs (DecidableEq base.Value)
  | .optional base => inferInstanceAs (DecidableEq (Option base.Value))

def Base.param : (base : Base) → Param base.Value
  | .paneId => .id "pane_"
  | .sessionId => .id "session_"
  | .windowId => .id "window_"
  | .varName => .varName
  | .runtimeName => .runtimeName
  | .waitMs => .natural 3600000
  | .offset => .natural (2 ^ 62 - 1)
  | .imageId => .positive u32Max
  | .frameNumber => .positive u32Max
  | .generation => .positive u64Max
  | .needle => .needle
  | .windowOnly => .windowOnly
  | .screenFormat => .screenFormat
  | .screenRows => .screenRows
  | .history => .history
  | .images => .images

def Kind.param : (kind : Kind) → Param kind.Value
  | .one base => base.param
  | .optional base => base.param.option

end Kido.Routing

namespace Kido.Routing

def separators : List Char := ['/', '?', '&', '=']

-- What is rendered is parsed back, and can stand in a target.
structure Lawful {α : Type} (param : Param α) : Prop where
  inverse : ∀ value, param.parse (param.render value) = .ok value
  apart : ∀ value, ∀ char ∈ (param.render value).toList, char ∉ separators

section Numbers

theorem toList_toString (number : Nat) : (toString number).toList = Nat.toDigits 10 number := by
  rw [Nat.toString_eq_ofList_toDigits, String.toList_ofList]

theorem isDigit_toDigits {number : Nat} {char : Char} (here : char ∈ Nat.toDigits 10 number) : char.isDigit = true :=
  Nat.isDigit_of_mem_toDigits (by decide) (by decide) here

theorem all_isDigit_toDigits (number : Nat) : (Nat.toDigits 10 number).all Char.isDigit = true :=
  List.all_eq_true.2 fun _ here => isDigit_toDigits here

theorem isDigit_apart {char : Char} (digit : char.isDigit = true) : char ∉ separators := by
  intro here
  simp only [separators, List.mem_cons, List.not_mem_nil, or_false] at here
  obtain rfl | rfl | rfl | rfl := here <;> exact absurd digit (by decide)

theorem unsigned_toDigits (number : Nat) : unsigned (Nat.toDigits 10 number) = Nat.toDigits 10 number := by
  rw [unsigned.eq_def]
  split
  next rest same =>
    have digit := @isDigit_toDigits number '+' (by rw [same]; exact List.mem_cons_self)
    exact absurd digit (by decide)
  next => rfl

theorem parseU64_toString {number : Nat} (fits : number ≤ u64Max) : parseU64 (toString number) = some number := by
  rw [parseU64, toList_toString, unsigned_toDigits]
  rw [if_neg, Nat.ofDigitChars_ten_toDigits, if_pos fits]
  rw [all_isDigit_toDigits]
  simp

theorem Number.new_value {low high : Nat} (number : Number low high) : Number.new low high number.value = some number :=
  dif_pos ⟨number.least, number.most⟩

theorem natural_toString {max : Nat} (fits : max ≤ u64Max) (number : Number 0 max) : natural (toString number.value) max = .ok number := by
  have digits : ¬((toString number.value).toList = [] ∨ (!(toString number.value).toList.all Char.isDigit) = true) := by
    rw [toList_toString, all_isDigit_toDigits]
    simp
  rw [natural, if_neg digits, parseU64_toString (Nat.le_trans number.most fits), Option.bind_some, number.new_value]

theorem positive_toString {max : Nat} (fits : max ≤ u64Max) (number : Number 1 max) : positive (toString number.value) max = .ok number := by
  have whole := natural_toString fits ⟨number.value, Nat.zero_le _, number.most⟩
  simp only [positive, whole, bind, Except.bind, number.new_value]

theorem toString_apart (number : Nat) : ∀ char ∈ (toString number).toList, char ∉ separators := by
  intro char here
  rw [toList_toString] at here
  exact isDigit_apart (isDigit_toDigits here)

theorem natural_lawful {max : Nat} (fits : max ≤ u64Max) : Lawful (.natural max) where
  inverse := natural_toString fits
  apart number := toString_apart number.value

theorem positive_lawful {max : Nat} (fits : max ≤ u64Max) : Lawful (.positive max) where
  inverse := positive_toString fits
  apart number := toString_apart number.value

theorem toDigits_head (number : Nat) : (Nat.toDigits 10 number).length = 1 ∨ (Nat.toDigits 10 number).head? ≠ some '0' := by
  induction number using Nat.strong_induction_on with
  | _ number ih =>
    by_cases small : number < 10
    · rw [Nat.toDigits_of_lt_base small]
      exact .inl rfl
    · right
      have some_ : Nat.toDigits 10 (number / 10) ≠ [] := Nat.toDigits_ne_nil
      rw [Nat.toDigits_of_base_le (by decide) (by omega), List.head?_append_of_ne_nil _ some_]
      obtain one | other := ih (number / 10) (by omega)
      · by_cases less : number / 10 < 10
        · rw [Nat.toDigits_of_lt_base less]
          intro zero
          have all : ∀ digit < 10, digit.digitChar = '0' → digit = 0 := by decide
          have none_ := all _ less (Option.some.inj zero)
          omega
        · have long := Nat.length_toDigits_le_iff (n := number / 10) (b := 10) (k := 1) (by decide) (by decide)
          have short := long.1 (Nat.le_of_eq one)
          omega
      · exact other

theorem stripFront_append (front text : String) : stripFront front (front ++ text) = some text := by
  rw [stripFront, String.toList_append, if_pos (by simp), List.drop_left, String.ofList_toList]

theorem Id.parse_render {front : String} (id : Id front) : Id.parse front id.render = some id := by
  have digits : ((toString id.number).toList.all Char.isDigit &&
      ((toString id.number).toList.length = 1 || (toString id.number).toList.head? ≠ some '0')) = true := by
    rw [toList_toString, all_isDigit_toDigits]
    simpa using toDigits_head id.number
  rw [Id.parse, Id.render, stripFront_append]
  dsimp only [Option.bind_eq_bind, Option.bind_some]
  rw [if_pos digits, parseU64_toString id.fits, Option.bind_some, dif_pos id.fits]

theorem id_lawful {front : String} (letters : ∀ char ∈ front.toList, char ∉ separators) : Lawful (.id front) where
  inverse id := by
    show orInvalid (Id.parse front id.render) .noRoute = .ok id
    rw [Id.parse_render]
    rfl
  apart id char here := by
    have whole : char ∈ front.toList ++ (toString id.number).toList := by
      rw [← String.toList_append]
      exact here
    obtain before | after := List.mem_append.1 whole
    · exact letters char before
    · exact toString_apart id.number char after

end Numbers

section Texts

theorem escape_apart : ∀ byte : UInt8, ∀ other ∈ escape byte, Char.ofNat other.toNat ∉ separators := by
  have all : ∀ byte : UInt8, (escape byte).all (fun other => decide (Char.ofNat other.toNat ∉ separators)) = true :=
    forall_byte (by decide +kernel)
  intro byte other here
  exact of_decide_eq_true (List.all_eq_true.1 (all byte) other here)

theorem percentEncode_apart (text : String) : ∀ char ∈ (percentEncode text).toList, char ∉ separators := by
  intro char here
  rw [percentEncode, ofAscii, String.toList_ofList] at here
  obtain ⟨other, found, rfl⟩ := List.mem_map.1 here
  obtain ⟨byte, -, escaped⟩ := List.mem_flatMap.1 found
  exact escape_apart byte other escaped

theorem varName_lawful : Lawful .varName where
  inverse name := by
    show orInvalid ((percentDecode (percentEncode name.text)).bind VarName.new) _ = .ok name
    rw [percentDecode_percentEncode, Option.bind_some, VarName.new, dif_pos name.valid]
    rfl
  apart name := percentEncode_apart name.text

theorem needle_lawful : Lawful .needle where
  inverse needle := by
    show orInvalid ((percentDecode (percentEncode needle.text)).bind Needle.new) _ = .ok needle
    rw [percentDecode_percentEncode, Option.bind_some, Needle.new, dif_pos needle.valid]
    rfl
  apart needle := percentEncode_apart needle.text

theorem runtimeName_lawful : Lawful .runtimeName where
  inverse name := by
    show orInvalid (RuntimeName.new name.text) _ = .ok name
    rw [RuntimeName.new, dif_pos name.valid]
    rfl
  apart name char here := by
    have valid := name.valid
    simp only [runtimeValid, Bool.and_eq_true] at valid
    have letter := List.all_eq_true.1 valid.1.2 char here
    intro separator
    simp only [separators, List.mem_cons, List.not_mem_nil, or_false] at separator
    obtain rfl | rfl | rfl | rfl := separator <;> exact absurd letter (by decide)

end Texts

section Words

-- A word is searched letter by letter: a quantifier over every character would be decided character by character.
theorem apart_of_all {text : String} (all : text.toList.all (fun char => decide (char ∉ separators)) = true) :
    ∀ char ∈ text.toList, char ∉ separators := by
  intro char here
  exact of_decide_eq_true (List.all_eq_true.1 all char here)

theorem windowOnly_lawful : Lawful .windowOnly where
  inverse value := by
    cases value
    rfl
  apart value := by
    cases value
    exact apart_of_all (by decide)

theorem screenFormat_lawful : Lawful .screenFormat where
  inverse value := by cases value <;> rfl
  apart value := by cases value <;> exact apart_of_all (by decide)

theorem screenRows_lawful : Lawful .screenRows where
  inverse value := by
    cases value with
    | visible => rfl
    | full => rfl
    | last rows =>
      have digits {word : String} (letters : word.toList.all Char.isDigit = false) : toString rows.value ≠ word := by
        rintro rfl
        rw [toList_toString, all_isDigit_toDigits] at letters
        cases letters
      show (if toString rows.value = "none" then .ok .visible
        else if toString rows.value = "all" then .ok .full
        else (natural (toString rows.value) u32Max).map ScreenRows.last) = Except.ok (ScreenRows.last rows)
      rw [if_neg (digits (by decide)), if_neg (digits (by decide)), natural_toString (by decide)]
      rfl
  apart value := by
    cases value with
    | visible => exact apart_of_all (by decide)
    | full => exact apart_of_all (by decide)
    | last rows => exact toString_apart rows.value

theorem history_lawful : Lawful .history where
  inverse value := by cases value <;> rfl
  apart value := by cases value <;> exact apart_of_all (by decide)

theorem images_lawful : Lawful .images where
  inverse value := by
    cases value
    rfl
  apart value := by
    cases value
    exact apart_of_all (by decide)

end Words

theorem Base.lawful (base : Base) : Lawful base.param := by
  cases base with
  | paneId => exact id_lawful (apart_of_all (by decide))
  | sessionId => exact id_lawful (apart_of_all (by decide))
  | windowId => exact id_lawful (apart_of_all (by decide))
  | varName => exact varName_lawful
  | runtimeName => exact runtimeName_lawful
  | waitMs => exact natural_lawful (by decide)
  | offset => exact natural_lawful (by decide)
  | imageId => exact positive_lawful (by decide)
  | frameNumber => exact positive_lawful (by decide)
  | generation => exact positive_lawful (by decide)
  | needle => exact needle_lawful
  | windowOnly => exact windowOnly_lawful
  | screenFormat => exact screenFormat_lawful
  | screenRows => exact screenRows_lawful
  | history => exact history_lawful
  | images => exact images_lawful

end Kido.Routing
