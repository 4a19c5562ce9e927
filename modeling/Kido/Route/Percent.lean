import Kido.Wire.Requests

set_option autoImplicit false

namespace Kido.Routing

open Kido.Framing (Bytes asBytes fromUtf8 fromUtf8_asBytes isContinuation)

def percent : UInt8 := 37

def plus : UInt8 := 43

def hexDigit (byte : UInt8) : Option Nat :=
  if 48 ≤ byte ∧ byte ≤ 57 then some (byte.toNat - 48)
  else if 65 ≤ byte ∧ byte ≤ 70 then some (byte.toNat - 55)
  else if 97 ≤ byte ∧ byte ≤ 102 then some (byte.toNat - 87)
  else none

-- The digits of `u8::from_str_radix`, which fail when the number is too large.
def fromDigits : Bytes → Nat → Option UInt8
  | [], value => some (UInt8.ofNat value)
  | byte :: rest, value =>
    match hexDigit byte with
    | some digit => if value * 16 + digit < 256 then fromDigits rest (value * 16 + digit) else none
    | none => none

-- `u8::from_str_radix` in base 16: one sign may stand before the digits.
@[grind =]
def fromStrRadix : Bytes → Option UInt8
  | [] => none
  | [byte] => fromDigits [byte] 0
  | byte :: rest => fromDigits (if byte = plus then rest else byte :: rest) 0

def isBoundary : Bytes → Bool
  | [] => true
  | byte :: _ => !isContinuation byte

@[grind =]
def unescape : Bytes → Option Bytes
  | [] => some []
  | byte :: rest =>
    if byte = percent then
      match rest with
      | high :: low :: later =>
        -- A slice of a string is none where it would cut a character.
        if isBoundary (high :: low :: later) && isBoundary later then
          match fromStrRadix [high, low] with
          | some value => (unescape later).map (value :: ·)
          | none => none
        else none
      | _ => none
    else (unescape rest).map (byte :: ·)

def percentDecode (value : String) : Option String := (unescape (asBytes value)).bind fromUtf8

def isUnreserved (byte : UInt8) : Bool :=
  (48 ≤ byte && byte ≤ 57) || (65 ≤ byte && byte ≤ 90) || (97 ≤ byte && byte ≤ 122) || byte = 45 || byte = 46 || byte = 95 || byte = 126

def hexChar (digit : Nat) : UInt8 := UInt8.ofNat (if digit < 10 then 48 + digit else 55 + digit)

def escape (byte : UInt8) : Bytes :=
  if isUnreserved byte then [byte] else [percent, hexChar (byte.toNat / 16), hexChar (byte.toNat % 16)]

def ofAscii (bytes : Bytes) : String := String.ofList (bytes.map fun byte => Char.ofNat byte.toNat)

def percentEncode (value : String) : String := ofAscii ((asBytes value).flatMap escape)

section Escape

theorem forall_byte {P : UInt8 → Prop} (all : ∀ number < 256, P (UInt8.ofNat number)) (byte : UInt8) : P byte := by
  have here := all byte.toNat byte.toNat_lt
  rwa [UInt8.ofNat_toNat] at here

theorem escape_ascii : ∀ byte : UInt8, ∀ other ∈ escape byte, other < 128 := by
  -- As one test of the list: a quantifier over every byte would be decided byte by byte.
  have all : ∀ byte : UInt8, (escape byte).all (fun other => decide (other < 128)) = true := forall_byte (by decide +kernel)
  intro byte other here
  exact of_decide_eq_true (List.all_eq_true.1 (all byte) other here)

theorem fromStrRadix_escape : ∀ byte : UInt8, fromStrRadix [hexChar (byte.toNat / 16), hexChar (byte.toNat % 16)] = some byte :=
  forall_byte (by decide +kernel)

theorem isBoundary_ascii {bytes : Bytes} (ascii : ∀ byte ∈ bytes, byte < 128) : isBoundary bytes = true := by
  cases bytes with
  | nil => rfl
  | cons byte rest =>
    have small := ascii byte List.mem_cons_self
    rw [isBoundary, isContinuation, Bool.not_eq_true', Bool.and_eq_false_iff]
    left
    rw [decide_eq_false_iff_not]
    exact fun large => absurd (Nat.lt_of_lt_of_le (UInt8.lt_iff_toNat_lt.1 small) (UInt8.le_iff_toNat_le.1 large)) (Nat.lt_irrefl _)

theorem unescape_plain {byte : UInt8} (plain : byte ≠ percent) (rest : Bytes) :
    unescape (byte :: rest) = (unescape rest).map (byte :: ·) := by
  rw [unescape.eq_def]
  simp [plain]

theorem unescape_percent {high low value : UInt8} {later : Bytes} (front : isBoundary (high :: low :: later) = true)
    (back : isBoundary later = true) (hex : fromStrRadix [high, low] = some value) :
    unescape (percent :: high :: low :: later) = (unescape later).map (value :: ·) := by
  rw [unescape.eq_def]
  simp [front, back, hex]

theorem unescape_escape (byte : UInt8) {rest : Bytes} (ascii : ∀ other ∈ rest, other < 128) :
    unescape (escape byte ++ rest) = (unescape rest).map (byte :: ·) := by
  have small := escape_ascii byte
  rw [escape] at small ⊢
  by_cases plain : isUnreserved byte = true
  · rw [if_pos plain, List.singleton_append]
    refine unescape_plain ?_ rest
    rintro rfl
    cases plain
  · rw [if_neg plain] at small ⊢
    refine unescape_percent (isBoundary_ascii ?_) (isBoundary_ascii ascii) (fromStrRadix_escape byte)
    intro other here
    obtain front | back := List.mem_append.1 (show other ∈ [_, _] ++ rest from here)
    · exact small other (List.mem_cons_of_mem _ front)
    · exact ascii other back

theorem escaped_ascii (bytes : Bytes) : ∀ other ∈ bytes.flatMap escape, other < 128 := by
  intro other here
  obtain ⟨byte, _, found⟩ := List.mem_flatMap.1 here
  exact escape_ascii byte other found

theorem asBytes_ofAscii {bytes : Bytes} (ascii : ∀ byte ∈ bytes, byte < 128) : asBytes (ofAscii bytes) = bytes := by
  have encoded : ∀ byte : UInt8, byte < 128 → String.utf8EncodeChar (Char.ofNat byte.toNat) = [byte] := forall_byte (by decide +kernel)
  have whole : asBytes (ofAscii bytes) = (bytes.map fun byte => Char.ofNat byte.toNat).flatMap String.utf8EncodeChar := by
    simp [asBytes, ofAscii, List.utf8Encode]
  rw [whole]
  clear whole
  induction bytes with
  | nil => rfl
  | cons byte rest ih =>
    rw [List.map_cons, List.flatMap_cons, encoded byte (ascii byte List.mem_cons_self),
      ih fun other here => ascii other (List.mem_cons_of_mem byte here), List.singleton_append]

theorem unescape_escaped (bytes : Bytes) : unescape (bytes.flatMap escape) = some bytes := by
  induction bytes with
  | nil => rfl
  | cons byte rest ih => rw [List.flatMap_cons, unescape_escape byte (escaped_ascii rest), ih, Option.map_some]

theorem percentDecode_percentEncode (value : String) : percentDecode (percentEncode value) = some value := by
  rw [percentDecode, percentEncode, asBytes_ofAscii (escaped_ascii _), unescape_escaped, Option.bind_some, fromUtf8_asBytes]

end Escape

section Decode

-- What bytes mean in which each percent sign has two hexadecimal digits behind it.
inductive Means : Bytes → Bytes → Prop where
  | nil : Means [] []
  | plain (byte : UInt8) (rest out : Bytes) (other : byte ≠ percent) (means : Means rest out) : Means (byte :: rest) (byte :: out)
  | hex (high low : UInt8) (rest out : Bytes) (first second : Nat) (isHigh : hexDigit high = some first)
      (isLow : hexDigit low = some second) (means : Means rest out) :
      Means (percent :: high :: low :: rest) (UInt8.ofNat (first * 16 + second) :: out)

def Escaped (bytes : Bytes) : Prop :=
  ∀ place, bytes[place]? = some percent → ∃ high low, bytes[place + 1]? = some high ∧ bytes[place + 2]? = some low ∧
    (hexDigit high).isSome = true ∧ (hexDigit low).isSome = true

-- Some percent sign has neither two hexadecimal digits behind it nor a sign and a digit.
def Broken (bytes : Bytes) : Prop :=
  ∃ place, bytes[place]? = some percent ∧ ∀ high low, bytes[place + 1]? = some high → bytes[place + 2]? = some low →
    hexDigit low = none ∨ (hexDigit high = none ∧ high ≠ plus)

theorem hexDigit_lt : ∀ (byte : UInt8) (digit : Nat), hexDigit byte = some digit → digit < 16 := by
  intro byte digit here
  have all : ∀ byte : UInt8, ∀ found ∈ hexDigit byte, found < 16 := forall_byte (by decide +kernel)
  exact all byte digit here

theorem hexDigit_percent : hexDigit percent = none := by decide

theorem hexDigit_plus : hexDigit plus = none := by decide

theorem Escaped.means {bytes : Bytes} (escaped : Escaped bytes) : ∃ out, Means bytes out := by
  induction length : bytes.length using Nat.strong_induction_on generalizing bytes with
  | _ count ih =>
    cases bytes with
    | nil => exact ⟨[], .nil⟩
    | cons byte rest =>
      by_cases here : byte = percent
      · subst here
        obtain ⟨high, low, second, third, isHigh, isLow⟩ := escaped 0 rfl
        match rest, second, third with
        | high' :: low' :: later, second, third =>
          cases second
          cases third
          obtain ⟨first, isHigh⟩ := Option.isSome_iff_exists.1 isHigh
          obtain ⟨second, isLow⟩ := Option.isSome_iff_exists.1 isLow
          have after : Escaped later := fun place found => escaped (place + 3) found
          obtain ⟨out, means⟩ := ih later.length (by simp only [List.length_cons] at length; omega) after rfl
          exact ⟨_, .hex high low later out first second isHigh isLow means⟩
      · have after : Escaped rest := fun place found => escaped (place + 1) found
        obtain ⟨out, means⟩ := ih rest.length (by simp only [List.length_cons] at length; omega) after rfl
        exact ⟨_, .plain byte rest out here means⟩

-- A byte that continues a character stands behind no ASCII byte.
def Joined : Bytes → Prop
  | [] => True
  | byte :: rest => (byte < 128 → isBoundary rest = true) ∧ Joined rest

theorem encodeChar_cases (char : Char) : (∃ byte, String.utf8EncodeChar char = [byte] ∧ byte < 128) ∨
    ∃ first rest, String.utf8EncodeChar char = first :: rest ∧ isContinuation first = false ∧
      ∀ byte ∈ first :: rest, ¬byte < 128 := by
  have one : ∀ number ≤ 0x7f, UInt8.ofNat number < 128 := by decide +kernel
  have two : ∀ number < 0x20, isContinuation (UInt8.ofNat (number + 0xc0)) = false ∧ ¬UInt8.ofNat (number + 0xc0) < 128 := by
    decide +kernel
  have three : ∀ number < 0x10, isContinuation (UInt8.ofNat (number + 0xe0)) = false ∧ ¬UInt8.ofNat (number + 0xe0) < 128 := by
    decide +kernel
  have four : ∀ number < 0x08, isContinuation (UInt8.ofNat (number + 0xf0)) = false ∧ ¬UInt8.ofNat (number + 0xf0) < 128 := by
    decide +kernel
  have later : ∀ number < 0x40, ¬UInt8.ofNat (number + 0x80) < 128 := by decide +kernel
  have low (number : Nat) : ¬UInt8.ofNat (number % 0x40 + 0x80) < 128 := later _ (Nat.mod_lt _ (by decide))
  unfold String.utf8EncodeChar
  dsimp only
  split
  case isTrue small => exact .inl ⟨_, rfl, one _ small⟩
  case isFalse =>
    split
    case isTrue =>
      obtain ⟨lead, large⟩ := two (char.val.toNat / 64 % 0x20) (Nat.mod_lt _ (by decide))
      refine .inr ⟨_, _, rfl, lead, ?_⟩
      simp only [List.forall_mem_cons]
      exact ⟨large, low _, fun _ none_ => nomatch none_⟩
    case isFalse =>
      split
      case isTrue =>
        obtain ⟨lead, large⟩ := three (char.val.toNat / 4096 % 0x10) (Nat.mod_lt _ (by decide))
        refine .inr ⟨_, _, rfl, lead, ?_⟩
        simp only [List.forall_mem_cons]
        exact ⟨large, low _, low _, fun _ none_ => nomatch none_⟩
      case isFalse =>
        obtain ⟨lead, large⟩ := four (char.val.toNat / 262144 % 0x08) (Nat.mod_lt _ (by decide))
        refine .inr ⟨_, _, rfl, lead, ?_⟩
        simp only [List.forall_mem_cons]
        exact ⟨large, low _, low _, low _, fun _ none_ => nomatch none_⟩

theorem joined_large {bytes : Bytes} (large : ∀ byte ∈ bytes, ¬byte < 128) {rest : Bytes} (joined : Joined rest) :
    Joined (bytes ++ rest) := by
  induction bytes with
  | nil => exact joined
  | cons byte bytes ih =>
    exact ⟨fun small => absurd small (large byte List.mem_cons_self), ih fun other here => large other (List.mem_cons_of_mem byte here)⟩

theorem asBytes_joined (value : String) : Joined (asBytes value) ∧ isBoundary (asBytes value) = true := by
  have encoded (chars : List Char) : asBytes (String.ofList chars) = chars.flatMap String.utf8EncodeChar := by
    simp [asBytes, List.utf8Encode]
  rw [← String.ofList_toList (s := value), encoded]
  induction value.toList with
  | nil => exact ⟨trivial, rfl⟩
  | cons char chars ih =>
    obtain ⟨joined, boundary⟩ := ih
    rw [List.flatMap_cons]
    obtain ⟨byte, encoded, small⟩ | ⟨first, rest, encoded, lead, large⟩ := encodeChar_cases char
    · rw [encoded]
      exact ⟨⟨fun _ => boundary, joined⟩, @isBoundary_ascii [byte] fun other here => List.mem_singleton.1 here ▸ small⟩
    · rw [encoded]
      refine ⟨joined_large large joined, ?_⟩
      show (!isContinuation first) = true
      rw [lead]
      rfl

theorem hexDigit_ascii {byte : UInt8} {digit : Nat} (hex : hexDigit byte = some digit) : byte < 128 := by
  have all : ∀ byte : UInt8, (hexDigit byte).isSome = true → byte < 128 := forall_byte (by decide +kernel)
  exact all byte (by rw [hex]; rfl)

theorem fromStrRadix_hex {high low : UInt8} {first second : Nat} (isHigh : hexDigit high = some first)
    (isLow : hexDigit low = some second) : fromStrRadix [high, low] = some (UInt8.ofNat (first * 16 + second)) := by
  have small := hexDigit_lt high first isHigh
  have small' := hexDigit_lt low second isLow
  have other : high ≠ plus := by
    rintro rfl
    rw [hexDigit_plus] at isHigh
    cases isHigh
  simp only [fromStrRadix, if_neg other, fromDigits, isHigh, isLow]
  rw [if_pos (by omega), if_pos (by omega), Nat.zero_mul, Nat.zero_add]

theorem unescape_means {bytes out : Bytes} (means : Means bytes out) (joined : Joined bytes) : unescape bytes = some out := by
  induction means with
  | nil => rfl
  | plain byte rest out other _ ih => rw [unescape_plain other, ih joined.2, Option.map_some]
  | hex high low rest out first second isHigh isLow _ ih =>
    obtain ⟨-, -, after, joined⟩ := joined
    have boundary : isBoundary (high :: low :: rest) = true :=
      @isBoundary_ascii [high] fun other here => List.mem_singleton.1 here ▸ hexDigit_ascii isHigh
    rw [unescape_percent boundary (after (hexDigit_ascii isLow)) (fromStrRadix_hex isHigh isLow), ih joined, Option.map_some]

theorem percentDecode_means {value : String} {out : Bytes} (means : Means (asBytes value) out) : percentDecode value = fromUtf8 out := by
  rw [percentDecode, unescape_means means (asBytes_joined value).1, Option.bind_some]

theorem fromStrRadix_digits {high low value : UInt8} (hex : fromStrRadix [high, low] = some value) :
    hexDigit low ≠ none ∧ (hexDigit high ≠ none ∨ high = plus) := by
  simp only [fromStrRadix] at hex
  by_cases sign : high = plus
  · rw [if_pos sign] at hex
    refine ⟨?_, .inr sign⟩
    intro none_
    simp only [fromDigits, none_] at hex
    cases hex
  · rw [if_neg sign] at hex
    refine ⟨?_, .inl ?_⟩
    · intro none_
      simp only [fromDigits, none_] at hex
      split at hex
      · split at hex <;> cases hex
      · cases hex
    · intro none_
      simp only [fromDigits, none_] at hex
      cases hex

theorem unescape_some {bytes out : Bytes} (decoded : unescape bytes = some out) : ¬Broken bytes := by
  rintro ⟨place, here, none_⟩
  induction length : bytes.length using Nat.strong_induction_on generalizing bytes out place with
  | _ count ih =>
    cases bytes with
    | nil => cases here
    | cons byte rest =>
      by_cases sign : byte = percent
      · subst sign
        rw [unescape.eq_def] at decoded
        dsimp only at decoded
        rw [if_pos rfl] at decoded
        match rest with
        | [] => cases decoded
        | [_] => cases decoded
        | high :: low :: later =>
          dsimp only at decoded
          split at decoded
          case isFalse => cases decoded
          case isTrue =>
            cases hex : fromStrRadix [high, low] with
            | none =>
              rw [hex] at decoded
              cases decoded
            | some value =>
              rw [hex] at decoded
              obtain ⟨isLow, isHigh⟩ := fromStrRadix_digits hex
              match place with
              | 0 =>
                obtain missing | ⟨missing, unsigned⟩ := none_ high low rfl rfl
                · exact isLow missing
                · obtain digit | sign := isHigh
                  · exact digit missing
                  · exact unsigned sign
              | 1 =>
                cases here
                obtain digit | sign := isHigh
                · exact digit hexDigit_percent
                · exact absurd sign (by decide)
              | 2 =>
                cases here
                exact isLow hexDigit_percent
              | place + 3 =>
                obtain ⟨inner, found, -⟩ := Option.map_eq_some_iff.1 decoded
                exact ih later.length (by simp only [List.length_cons] at length; omega) found place here none_ rfl
      · rw [unescape_plain sign] at decoded
        obtain ⟨inner, found, -⟩ := Option.map_eq_some_iff.1 decoded
        cases place with
        | zero => exact sign (Option.some.inj here)
        | succ place => exact ih rest.length (by simp only [List.length_cons] at length; omega) found place here none_ rfl

theorem percentDecode_broken {value : String} (broken : Broken (asBytes value)) : percentDecode value = none := by
  cases decoded : unescape (asBytes value) with
  | none => rw [percentDecode, decoded, Option.bind_none]
  | some out => exact absurd broken (unescape_some decoded)

end Decode

end Kido.Routing
