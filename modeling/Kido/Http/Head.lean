import Kido.Layout.Claims
import Kido.Wire.Decode

set_option autoImplicit false

namespace Kido.Requesting

open Kido.Framing (fromUtf8Lossy)
open Kido.Shared (isWhitespace)

abbrev Bytes := List UInt8

def maxHead : Nat := 16384

def maxBody : Nat := 2 ^ 20

def stackHeaders : Nat := 128

def heapHeaders : Nat := 4096

def usizeMax : Nat := 2 ^ 64 - 1

structure Head where
  method : String
  target : String
  headers : List (String × String)
deriving DecidableEq

inductive Parsed where
  | complete (head : Head) (size : Nat)
  | more
  | badLine
  | invalid
  | tooLarge
deriving DecidableEq

inductive Framing where
  | length (length : Nat)
  | oversized (length : Nat)
  | chunked
  | invalid
deriving DecidableEq

-- What the library says of the bytes of a head, with room for a number of headers.
inductive Status where
  | complete (method path : Option String) (headers : List (String × Bytes)) (size : Nat)
  | more
  | tooManyHeaders
  | token
  | other
deriving DecidableEq

abbrev Library := Nat → Bytes → Status

def fields (headers : List (String × Bytes)) : List (String × String) :=
  headers.map fun header => (header.1.map Char.toLower, fromUtf8Lossy header.2)

def parseWith (parse : Library) (bytes : Bytes) (headers : Nat) : Option Parsed :=
  match parse headers bytes with
  | .more => some .more
  | .complete method path found size => some (.complete ⟨method.getD "", path.getD "", fields found⟩ size)
  | .tooManyHeaders => none
  | .token => some .badLine
  | .other => some .invalid

-- Two bytes that end an empty line, but for the last byte that it may have.
def ended : Bytes → Bool
  | first :: second :: rest => (first = 10 && (second = 10 || second = 13)) || ended (second :: rest)
  | _ => false

def parsed (parse : Library) (bytes : Bytes) : Parsed :=
  ((parseWith parse bytes stackHeaders).or (parseWith parse bytes heapHeaders)).getD .tooLarge

def parseHead (parse : Library) (bytes : Bytes) (scanned : Nat) : Parsed :=
  let found := if ended (bytes.drop (scanned - 2)) then parsed parse bytes else .more
  match found with
  | .complete head size => if maxHead < size then .tooLarge else .complete head size
  | .more => if maxHead ≤ bytes.length then .tooLarge else .more
  | found => found

namespace Head

def header (head : Head) (name : String) : Option String :=
  (head.headers.find? fun header => header.1 = name).map Prod.snd

def trim (text : String) : String :=
  String.ofList (((text.toList.dropWhile isWhitespace).reverse.dropWhile isWhitespace).reverse)

def number (digits : List Char) : Nat := digits.foldl (fun value digit => value * 10 + (digit.toNat - 48)) 0

def framing (head : Head) : Framing :=
  if (head.header "transfer-encoding").isSome then .chunked
  else
    match (head.headers.filter fun header => header.1 = "content-length").map fun header => trim header.2 with
    | [] => .length 0
    | first :: lengths =>
      if lengths.any (fun other => other ≠ first) || first.isEmpty || !first.toList.all Char.isDigit then .invalid
      else if number first.toList ≤ maxBody then .length (number first.toList)
      else if number first.toList ≤ usizeMax then .oversized (number first.toList)
      else .invalid

theorem oversized_length {head : Head} {length : Nat} (framed : head.framing = .oversized length) : maxBody < length := by
  unfold framing at framed
  split at framed
  · cases framed
  · split at framed
    · cases framed
    · split at framed
      · cases framed
      · split at framed
        · cases framed
        · split at framed
          · cases framed
            omega
          · cases framed

end Head

-- What the library keeps to: what it makes of some bytes it makes of them with more behind them, unless it asked for more; the
-- room for headers matters for nothing but that there are too many; a head that is complete is so by its own bytes, all parts of it
-- ask for more, and an empty line ends it.
structure Correct (parse : Library) : Prop where
  steady : ∀ headers bytes more, parse headers bytes ≠ .more → parse headers (bytes ++ more) = parse headers bytes
  room : ∀ few many bytes, few ≤ many → parse few bytes ≠ .tooManyHeaders → parse few bytes = parse many bytes
  part : ∀ headers bytes method path found size, parse headers bytes = .complete method path found size →
    size ≤ bytes.length ∧ parse headers (bytes.take size) = .complete method path found size ∧
      ∀ shorter < size, parse headers (bytes.take shorter) = .more
  blank : ∀ headers bytes method path found size, parse headers bytes = .complete method path found size →
    ∃ before, bytes.take size = before ++ [10, 10] ∨ bytes.take size = before ++ [10, 13, 10]

section Parsed

variable {parse : Library}

theorem parseWith_none_iff {bytes : Bytes} {headers : Nat} :
    parseWith parse bytes headers = none ↔ parse headers bytes = .tooManyHeaders := by
  unfold parseWith
  split <;> simp_all

theorem parseWith_more_iff {bytes : Bytes} {headers : Nat} :
    parseWith parse bytes headers = some .more ↔ parse headers bytes = .more := by
  unfold parseWith
  split <;> simp_all

theorem parseWith_complete {bytes : Bytes} {headers : Nat} {head : Head} {size : Nat}
    (complete : parseWith parse bytes headers = some (.complete head size)) :
    ∃ method path found, parse headers bytes = .complete method path found size := by
  unfold parseWith at complete
  split at complete <;> simp_all

theorem parsed_stack_more {bytes : Bytes} (undecided : parse stackHeaders bytes = .more) : parsed parse bytes = .more := by
  rw [parsed, parseWith_more_iff.2 undecided]
  rfl

theorem parsed_heap_more {bytes : Bytes} (full : parse stackHeaders bytes = .tooManyHeaders)
    (undecided : parse heapHeaders bytes = .more) : parsed parse bytes = .more := by
  rw [parsed, parseWith_none_iff.2 full, parseWith_more_iff.2 undecided]
  rfl

theorem parsed_cases (parse : Library) (bytes : Bytes) :
    (parse stackHeaders bytes ≠ .tooManyHeaders ∧ parseWith parse bytes stackHeaders = some (parsed parse bytes)) ∨
    (parse stackHeaders bytes = .tooManyHeaders ∧ parse heapHeaders bytes ≠ .tooManyHeaders ∧
      parseWith parse bytes heapHeaders = some (parsed parse bytes)) ∨
    (parse stackHeaders bytes = .tooManyHeaders ∧ parse heapHeaders bytes = .tooManyHeaders ∧ parsed parse bytes = .tooLarge) := by
  unfold parsed
  cases stack : parseWith parse bytes stackHeaders with
  | some found => exact .inl ⟨fun full => (by rw [parseWith_none_iff.2 full] at stack; cases stack), rfl⟩
  | none =>
    have full := parseWith_none_iff.1 stack
    cases heap : parseWith parse bytes heapHeaders with
    | some found => exact .inr (.inl ⟨full, fun more => (by rw [parseWith_none_iff.2 more] at heap; cases heap), rfl⟩)
    | none => exact .inr (.inr ⟨full, parseWith_none_iff.1 heap, rfl⟩)

variable (correct : Correct parse)

include correct

theorem parseWith_steady {bytes : Bytes} {headers : Nat} (decided : parse headers bytes ≠ .more) (more : Bytes) :
    parseWith parse (bytes ++ more) headers = parseWith parse bytes headers := by
  unfold parseWith
  rw [correct.steady headers bytes more decided]

theorem parsed_steady {bytes : Bytes} (decided : parsed parse bytes ≠ .more) (more : Bytes) :
    parsed parse (bytes ++ more) = parsed parse bytes := by
  have stackDecided : parse stackHeaders bytes ≠ .more := by
    intro undecided
    obtain ⟨-, found⟩ | ⟨full, -⟩ | ⟨full, -⟩ := parsed_cases parse bytes
    · rw [parseWith_more_iff.2 undecided] at found
      exact decided (Option.some.inj found).symm
    · rw [undecided] at full
      cases full
    · rw [undecided] at full
      cases full
  have stack := parseWith_steady correct stackDecided more
  unfold parsed
  rw [stack]
  cases found : parseWith parse bytes stackHeaders with
  | some other => rfl
  | none =>
    have heapDecided : parse heapHeaders bytes ≠ .more := by
      intro undecided
      apply decided
      unfold parsed
      rw [found, parseWith_more_iff.2 undecided]
      rfl
    rw [parseWith_steady correct heapDecided more]

theorem parsed_take_more {bytes : Bytes} {size shorter : Nat} (undecided : parsed parse (bytes.take size) = .more)
    (less : shorter ≤ size) : parsed parse (bytes.take shorter) = .more := by
  by_contra decided
  have same := parsed_steady correct decided ((bytes.take size).drop shorter)
  have whole : bytes.take shorter ++ (bytes.take size).drop shorter = bytes.take size := by
    have front : (bytes.take size).take shorter = bytes.take shorter := by rw [List.take_take, Nat.min_eq_left less]
    rw [← front, List.take_append_drop]
  rw [whole, undecided] at same
  exact decided same.symm

theorem parsed_complete {bytes : Bytes} {head : Head} {size : Nat} (complete : parsed parse bytes = .complete head size) :
    size ≤ bytes.length ∧ parsed parse (bytes.take size) = .complete head size ∧
      (∀ shorter < size, parsed parse (bytes.take shorter) = .more) ∧
      ∃ before, bytes.take size = before ++ [10, 10] ∨ bytes.take size = before ++ [10, 13, 10] := by
  obtain ⟨-, found⟩ | ⟨full, -, found⟩ | ⟨-, -, found⟩ := parsed_cases parse bytes
  · rw [complete] at found
    obtain ⟨method, path, fields, decided⟩ := parseWith_complete found
    obtain ⟨fits, own, parts⟩ := correct.part _ _ _ _ _ _ decided
    refine ⟨fits, ?_, fun shorter less => parsed_stack_more (parts shorter less), correct.blank _ _ _ _ _ _ decided⟩
    rw [parsed, parseWith, own, ← decided, ← parseWith, found]
    rfl
  · rw [complete] at found
    obtain ⟨method, path, fields, decided⟩ := parseWith_complete found
    obtain ⟨fits, own, parts⟩ := correct.part _ _ _ _ _ _ decided
    -- The call with less room decides nothing but that there are too many headers.
    have stack {shorter : Nat} (undecided : parse stackHeaders (bytes.take shorter) ≠ .more) :
        parse stackHeaders (bytes.take shorter) = .tooManyHeaders := by
      have same := correct.steady _ _ (bytes.drop shorter) undecided
      rw [List.take_append_drop] at same
      exact same.symm.trans full
    refine ⟨fits, ?_, fun shorter less => ?_, correct.blank _ _ _ _ _ _ decided⟩
    · have whole : parse stackHeaders (bytes.take size) = .tooManyHeaders := by
        apply stack
        intro undecided
        have same := correct.room stackHeaders heapHeaders (bytes.take size) (by decide) (by rw [undecided]; exact fun no => by cases no)
        rw [undecided, own] at same
        cases same
      rw [parsed, parseWith_none_iff.2 whole, Option.none_or, parseWith, own, ← decided, ← parseWith, found]
      rfl
    · by_cases undecided : parse stackHeaders (bytes.take shorter) = .more
      · exact parsed_stack_more undecided
      · exact parsed_heap_more (stack undecided) (parts shorter less)
  · rw [complete] at found
    cases found

end Parsed

section Scan

def Pair (bytes : Bytes) (place : Nat) : Prop :=
  bytes[place]? = some 10 ∧ (bytes[place + 1]? = some 10 ∨ bytes[place + 1]? = some 13)

instance (bytes : Bytes) (place : Nat) : Decidable (Pair bytes place) := inferInstanceAs (Decidable (_ ∧ _))

theorem Pair.fits {bytes : Bytes} {place : Nat} (pair : Pair bytes place) : place + 2 ≤ bytes.length := by
  obtain ⟨-, second⟩ := pair
  obtain found | found := second
  · exact (List.getElem?_eq_some_iff.1 found).1
  · exact (List.getElem?_eq_some_iff.1 found).1

theorem pair_take {bytes : Bytes} {place size : Nat} (inside : place + 2 ≤ size) :
    Pair (bytes.take size) place ↔ Pair bytes place := by
  unfold Pair
  rw [List.getElem?_take_of_lt (by omega), List.getElem?_take_of_lt (by omega)]

theorem pair_append {bytes : Bytes} {place : Nat} (more : Bytes) (pair : Pair bytes place) : Pair (bytes ++ more) place := by
  have fits := pair.fits
  unfold Pair at pair ⊢
  rwa [List.getElem?_append_left (by omega), List.getElem?_append_left (by omega)]

theorem ended_iff (bytes : Bytes) : ended bytes = true ↔ ∃ place, Pair bytes place := by
  induction bytes with
  | nil => exact ⟨fun none_ => (by cases none_), fun ⟨place, pair⟩ => by simp [Pair] at pair⟩
  | cons first rest ih =>
    have later (place : Nat) : Pair (first :: rest) (place + 1) ↔ Pair rest place := by
      simp only [Pair, List.getElem?_cons_succ]
    cases rest with
    | nil =>
      constructor
      · intro none_
        cases none_
      · rintro ⟨place, pair⟩
        have fits := pair.fits
        simp at fits
    | cons second rest =>
      have here : Pair (first :: second :: rest) 0 ↔ first = 10 ∧ (second = 10 ∨ second = 13) := by
        simp [Pair]
      rw [ended, Bool.or_eq_true, ih]
      constructor
      · rintro (first | ⟨place, pair⟩)
        · exact ⟨0, here.2 (by simpa using first)⟩
        · exact ⟨place + 1, (later place).2 pair⟩
      · rintro ⟨place, pair⟩
        cases place with
        | zero => exact .inl (by simpa using here.1 pair)
        | succ place => exact .inr ⟨place, (later place).1 pair⟩

theorem ended_drop_iff (bytes : Bytes) (scanned : Nat) :
    ended (bytes.drop (scanned - 2)) = true ↔ ∃ place, scanned ≤ place + 2 ∧ Pair bytes place := by
  have moved (place : Nat) : Pair (bytes.drop (scanned - 2)) place ↔ Pair bytes (scanned - 2 + place) := by
    simp only [Pair, List.getElem?_drop, Nat.add_assoc]
  rw [ended_iff]
  constructor
  · rintro ⟨place, pair⟩
    exact ⟨scanned - 2 + place, by omega, (moved place).1 pair⟩
  · rintro ⟨place, unseen, pair⟩
    refine ⟨place - (scanned - 2), (moved _).2 ?_⟩
    rwa [Nat.add_sub_cancel' (by omega)]

-- Nothing that the bytes decide was missed, but for what came after every pair in them and is not next to one.
def Quiet (parse : Library) (seen : Bytes) : Prop :=
  ∀ place, Pair seen place → parsed parse seen ≠ .more →
    place + 3 ≤ seen.length ∧ parsed parse (seen.take (place + 3)) = .more

variable {parse : Library} (correct : Correct parse)

include correct

theorem Quiet.next {bytes : Bytes} {scanned : Nat} (quiet : Quiet parse (bytes.take scanned)) (fits : scanned ≤ bytes.length)
    (passed : (∀ place, scanned ≤ place + 2 → ¬Pair bytes place) ∨ parsed parse bytes = .more) : Quiet parse bytes := by
  intro place pair decided
  obtain unseen | undecided := passed
  · have before : place + 2 < scanned := by
      by_contra after
      exact unseen place (by omega) pair
    have length : (bytes.take scanned).length = scanned := by
      rw [List.length_take]
      omega
    refine ⟨by omega, ?_⟩
    by_cases early : parsed parse (bytes.take scanned) = .more
    · exact parsed_take_more correct early (by omega)
    · have late := (quiet place ((pair_take (by omega)).2 pair) early).2
      rwa [List.take_take, Nat.min_eq_left (by omega)] at late
  · exact absurd undecided decided

theorem Quiet.not_complete {seen : Bytes} (quiet : Quiet parse seen) (head : Head) (size : Nat) :
    parsed parse seen ≠ .complete head size := by
  intro complete
  obtain ⟨fits, own, -, before, line⟩ := parsed_complete correct complete
  have decided : parsed parse seen ≠ .more := by
    rw [complete]
    exact fun same => by cases same
  have length : (seen.take size).length = size := by
    rw [List.length_take]
    omega
  obtain two | three := line
  · have count := congrArg List.length two
    simp only [length, List.length_append, List.length_cons, List.length_nil] at count
    have pair : Pair seen before.length := by
      apply (@pair_take _ _ size (by omega)).1
      rw [two]
      simp [Pair]
    obtain ⟨_, late⟩ := quiet _ pair decided
    have own_ : parsed parse (seen.take size) ≠ .more := by
      rw [own]
      exact fun same => by cases same
    exact own_ (parsed_take_more correct late (by omega))
  · have count := congrArg List.length three
    simp only [length, List.length_append, List.length_cons, List.length_nil] at count
    have pair : Pair seen before.length := by
      apply (@pair_take _ _ size (by omega)).1
      rw [three]
      simp [Pair]
    obtain ⟨_, late⟩ := quiet _ pair decided
    rw [← count, own] at late
    cases late

end Scan

end Kido.Requesting
