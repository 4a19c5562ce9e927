import Mathlib.Data.List.TakeWhile
import Kido.Route.Percent
import Mathlib.Algebra.Order.Ring.Nat

set_option autoImplicit false

namespace Kido.Base64

open Kido.Framing (Bytes asBytes)
open Kido.Routing (forall_byte ofAscii asBytes_ofAscii)

def base64 : Bytes :=
  "ABCDEFGHIJKLMNOPQRSTUVWXYZabcdefghijklmnopqrstuvwxyz0123456789+/".toList.map fun symbol => UInt8.ofNat symbol.toNat

@[grind =]
def sextet (byte : UInt8) : Option UInt32 := (base64.idxOf? byte).map UInt32.ofNat

def pad : UInt8 := 61

def paddingOf (quad : Bytes) : Nat := (quad.reverse.takeWhile (· == pad)).length

def toBeBytes (word : UInt32) : Bytes :=
  [(word >>> 24).toUInt8, (word >>> 16).toUInt8, (word >>> 8).toUInt8, word.toUInt8]

def fromBeBytes (first second third fourth : UInt8) : UInt32 :=
  first.toUInt32 <<< 24 ||| second.toUInt32 <<< 16 ||| third.toUInt32 <<< 8 ||| fourth.toUInt32

-- The word that some symbols make, and nothing where one of them is none.
def wordOf : UInt32 → Bytes → Option UInt32
  | word, [] => some word
  | word, byte :: rest => (sextet byte).bind fun value => wordOf (word <<< 6 ||| value) rest

-- One turn of the loop of `decode`.
def decodeQuad (quad : Bytes) (ends : Bool) : Option Bytes :=
  let padding := paddingOf quad
  if 2 < padding ∨ (0 < padding ∧ ends = false) then none
  else (wordOf 0 (quad.take (4 - padding))).map fun word =>
    ((toBeBytes (word <<< UInt32.ofNat (6 * padding))).drop 1).take (3 - padding)

@[grind =]
def decodeFrom (last : Nat) : Nat → Bytes → Option Bytes
  | index, a :: b :: c :: d :: rest =>
    (decodeQuad [a, b, c, d] (decide (index + 1 = last))).bind fun out => (decodeFrom last (index + 1) rest).map (out ++ ·)
  | _, _ => some []

def decode (text : String) : Option Bytes :=
  let bytes := asBytes text
  if bytes.length % 4 ≠ 0 then none else decodeFrom (bytes.length / 4) 0 bytes

@[grind =]
def symbolOf (index : Nat) : UInt8 := base64.getD index 0

@[grind =]
def encodeGroup (group : Bytes) : Bytes :=
  let word := fromBeBytes 0 (group.getD 0 0) (group.getD 1 0) (group.getD 2 0)
  (List.range 4).map fun index =>
    if index ≤ group.length then symbolOf ((word >>> UInt32.ofNat (18 - 6 * index)) &&& 63).toNat else pad

@[grind =]
def encodeBytes : Bytes → Bytes
  | a :: b :: c :: rest => encodeGroup [a, b, c] ++ encodeBytes rest
  | [] => []
  | group => encodeGroup group

def encode (bytes : Bytes) : String := ofAscii (encodeBytes bytes)

section Symbols

-- The table as its bytes: a kernel is slow to take the characters of a text apart.
theorem base64_bytes : base64 =
    [65, 66, 67, 68, 69, 70, 71, 72, 73, 74, 75, 76, 77, 78, 79, 80, 81, 82, 83, 84, 85, 86, 87, 88, 89, 90, 97, 98, 99, 100, 101,
      102, 103, 104, 105, 106, 107, 108, 109, 110, 111, 112, 113, 114, 115, 116, 117, 118, 119, 120, 121, 122, 48, 49, 50, 51, 52,
      53, 54, 55, 56, 57, 43, 47] :=
  (congrArg (List.map _) String.toList_ofList).trans (by decide +kernel)

theorem sextet_symbolOf : ∀ index < 64, sextet (symbolOf index) = some (UInt32.ofNat index) := by
  simp only [sextet, symbolOf, base64_bytes]
  decide +kernel

theorem symbolOf_ascii : ∀ index < 64, symbolOf index < 128 := by
  simp only [symbolOf, base64_bytes]
  decide +kernel

theorem symbolOf_pad : ∀ index < 64, symbolOf index ≠ pad := by
  simp only [symbolOf, base64_bytes]
  decide +kernel

theorem sextet_some {byte : UInt8} {value : UInt32} (found : sextet byte = some value) :
    value.toNat < 64 ∧ symbolOf value.toNat = byte := by
  obtain ⟨index, placed, rfl⟩ := Option.map_eq_some_iff.1 found
  obtain ⟨inside, same, _⟩ := List.idxOf?_eq_some_iff.1 placed
  have short : index < 64 := by rwa [base64_bytes] at inside
  rw [UInt32.toNat_ofNat', Nat.mod_eq_of_lt (by omega)]
  exact ⟨short, by rw [symbolOf, List.getD_eq_getElem?_getD, List.getElem?_eq_getElem inside, Option.getD_some, same]⟩

theorem sextet_isSome (byte : UInt8) : (sextet byte).isSome = true ↔ byte ∈ base64 := by
  rw [sextet, Option.isSome_map, List.isSome_idxOf?]

theorem symbol_of {byte : UInt8} (known : byte ∈ base64) : ∃ value < 64, symbolOf value = byte := by
  obtain ⟨value, found⟩ := Option.isSome_iff_exists.1 ((sextet_isSome byte).2 known)
  exact ⟨value.toNat, sextet_some found⟩

theorem symbolOf_known {value : Nat} (small : value < 64) : symbolOf value ∈ base64 := by
  rw [← sextet_isSome, sextet_symbolOf value small]
  rfl

theorem symbols_of {symbols : Bytes} (known : ∀ symbol ∈ symbols, symbol ∈ base64) :
    ∃ values : List Nat, (∀ value ∈ values, value < 64) ∧ values.map symbolOf = symbols := by
  induction symbols with
  | nil => exact ⟨[], by simp, rfl⟩
  | cons symbol rest ih =>
    obtain ⟨value, small, here⟩ := symbol_of (known symbol List.mem_cons_self)
    obtain ⟨values, smalls, there⟩ := ih fun other among => known other (List.mem_cons_of_mem symbol among)
    exact ⟨value :: values, by simpa using ⟨small, smalls⟩, by rw [List.map_cons, here, there]⟩

end Symbols

section Words

-- The number that some values of six bits make, the highest first.
def number (values : List Nat) (start : Nat) : Nat := values.foldl (fun sum value => sum * 64 + value) start

def bytesOf (number : Nat) : Bytes := [UInt8.ofNat (number / 65536), UInt8.ofNat (number / 256), UInt8.ofNat number]

theorem shifted (word value : UInt32) (narrow : word.toNat < 2 ^ 26) (small : value.toNat < 64) :
    (word <<< 6 ||| value).toNat = word.toNat * 64 + value.toNat := by
  rw [UInt32.toNat_or, UInt32.toNat_shiftLeft]
  have kept : word.toNat <<< 6 % 2 ^ 32 = word.toNat <<< 6 := by
    rw [Nat.shiftLeft_eq]
    exact Nat.mod_eq_of_lt (by omega)
  change word.toNat <<< 6 % 2 ^ 32 ||| value.toNat = _
  rw [kept, ← Nat.shiftLeft_add_eq_or_of_lt (show value.toNat < 2 ^ 6 from small), Nat.shiftLeft_eq]

theorem wordOf_values {values : List Nat} (small : ∀ value ∈ values, value < 64) {count : Nat} (short : count + values.length ≤ 4)
    (word : UInt32) (bound : word.toNat < 64 ^ count) :
    ∃ last, wordOf word (values.map symbolOf) = some last ∧ last.toNat = number values word.toNat ∧
      last.toNat < 64 ^ (count + values.length) := by
  induction values generalizing word count with
  | nil => exact ⟨word, rfl, rfl, bound⟩
  | cons value rest ih =>
    have here := small value List.mem_cons_self
    rw [List.length_cons] at short ⊢
    have narrow : (64 : Nat) ^ count ≤ 64 ^ 3 := Nat.pow_le_pow_right (by decide) (by omega)
    have same : (UInt32.ofNat value).toNat = value := by
      rw [UInt32.toNat_ofNat']
      exact Nat.mod_eq_of_lt (by omega)
    have joined := shifted word (UInt32.ofNat value) (by omega) (by omega)
    rw [same] at joined
    have grown : (word <<< 6 ||| UInt32.ofNat value).toNat < 64 ^ (count + 1) := by
      rw [joined, Nat.pow_succ]
      omega
    obtain ⟨last, found, total, least⟩ :=
      ih (fun other among => small other (List.mem_cons_of_mem value among)) (by omega) _ grown
    refine ⟨last, ?_, ?_, by rwa [show count + (rest.length + 1) = count + 1 + rest.length by omega]⟩
    · rw [List.map_cons, wordOf, sextet_symbolOf value here, Option.bind_some, found]
    · rw [total, joined]
      rfl

theorem bytesOf_word (word : UInt32) : (toBeBytes word).drop 1 = bytesOf word.toNat := by
  have part (count : UInt32) (low : count.toNat < 32) : (word >>> count).toUInt8 = UInt8.ofNat (word.toNat / 2 ^ count.toNat) := by
    apply UInt8.toNat_inj.1
    rw [UInt32.toNat_toUInt8, UInt32.toNat_shiftRight, Nat.mod_eq_of_lt low, Nat.shiftRight_eq_div_pow, UInt8.toNat_ofNat']
  have high := part 16 (by decide)
  have middle := part 8 (by decide)
  have least : word.toUInt8 = UInt8.ofNat word.toNat := by
    apply UInt8.toNat_inj.1
    rw [UInt32.toNat_toUInt8, UInt8.toNat_ofNat']
  rw [toBeBytes, bytesOf, List.drop_one, List.tail_cons, high, middle, least]
  rfl

theorem group_word (first second third : UInt8) :
    (fromBeBytes 0 first second third).toNat = first.toNat * 65536 + second.toNat * 256 + third.toNat := by
  have one := first.toNat_lt
  have two := second.toNat_lt
  have three := third.toNat_lt
  rw [fromBeBytes, UInt32.toNat_or, UInt32.toNat_or, UInt32.toNat_or]
  simp only [UInt32.toNat_shiftLeft, UInt8.toNat_toUInt32]
  have wide : first.toNat <<< 16 % 2 ^ 32 = first.toNat <<< 16 := by
    rw [Nat.shiftLeft_eq]
    exact Nat.mod_eq_of_lt (by omega)
  have narrow : second.toNat <<< 8 % 2 ^ 32 = second.toNat <<< 8 := by
    rw [Nat.shiftLeft_eq]
    exact Nat.mod_eq_of_lt (by omega)
  change 0 ||| first.toNat <<< 16 % 2 ^ 32 ||| second.toNat <<< 8 % 2 ^ 32 ||| third.toNat = _
  rw [wide, narrow, Nat.zero_or]
  have low : second.toNat <<< 8 < 2 ^ 16 := by
    rw [Nat.shiftLeft_eq]
    omega
  rw [← Nat.shiftLeft_add_eq_or_of_lt low, Nat.shiftLeft_eq, Nat.shiftLeft_eq]
  have whole : first.toNat * 2 ^ 16 + second.toNat * 2 ^ 8 = (first.toNat * 256 + second.toNat) <<< 8 := by
    rw [Nat.shiftLeft_eq]
    omega
  have spread : (first.toNat * 256 + second.toNat) <<< 8 + third.toNat = first.toNat * 65536 + second.toNat * 256 + third.toNat := by
    have scaled := Nat.shiftLeft_eq (first.toNat * 256 + second.toNat) 8
    omega
  exact (congrArg (· ||| third.toNat) whole).trans ((Nat.shiftLeft_add_eq_or_of_lt three _).symm.trans spread)

theorem masked (word : UInt32) {shift : Nat} (low : shift < 32) :
    ((word >>> UInt32.ofNat shift) &&& 63).toNat = word.toNat / 2 ^ shift % 64 := by
  rw [UInt32.toNat_and, UInt32.toNat_shiftRight, UInt32.toNat_ofNat', Nat.mod_eq_of_lt (show shift < 2 ^ 32 by omega),
    Nat.mod_eq_of_lt low, Nat.shiftRight_eq_div_pow]
  exact Nat.and_two_pow_sub_one_eq_mod _ 6

end Words

section Quads

-- The number of the bytes of a group, filled with zeros.
def groupNumber (group : Bytes) : Nat :=
  (group.getD 0 0).toNat * 65536 + (group.getD 1 0).toNat * 256 + (group.getD 2 0).toNat

def digitsOf (number : Nat) : List Nat := [number / 262144 % 64, number / 4096 % 64, number / 64 % 64, number % 64]

theorem digitsOf_small (number : Nat) : ∀ value ∈ digitsOf number, value < 64 := by
  simp only [digitsOf, List.forall_mem_cons]
  refine ⟨?_, ?_, ?_, ?_, nofun⟩ <;> exact Nat.mod_lt _ (by decide)

theorem encodeGroup_digits {group : Bytes} (short : group.length ≤ 3) :
    encodeGroup group =
      ((digitsOf (groupNumber group)).map symbolOf).take (group.length + 1) ++ List.replicate (3 - group.length) pad := by
  have symbols : encodeGroup group = (List.range 4).map fun index =>
      if index ≤ group.length then symbolOf (groupNumber group / 2 ^ (18 - 6 * index) % 64) else pad := by
    refine List.map_congr_left fun index among => ?_
    have shift : 18 - 6 * index < 32 := by omega
    rw [masked _ shift, group_word]
    rfl
  have range : List.range 4 = [0, 1, 2, 3] := rfl
  rw [symbols, range]
  simp only [List.map_cons, List.map_nil, digitsOf, Nat.reduceMul, Nat.reduceSub, Nat.reducePow, Nat.div_one]
  -- Only the length of the group says where its symbols end.
  generalize symbolOf (groupNumber group / 262144 % 64) = first
  generalize symbolOf (groupNumber group / 4096 % 64) = second
  generalize symbolOf (groupNumber group / 64 % 64) = third
  generalize symbolOf (groupNumber group % 64) = fourth
  generalize group.length = length at short
  obtain rfl | rfl | rfl | rfl : length = 0 ∨ length = 1 ∨ length = 2 ∨ length = 3 := by omega
  all_goals rfl

theorem paddingOf_values {values : List Nat} (small : ∀ value ∈ values, value < 64) (count : Nat) :
    paddingOf (values.map symbolOf ++ List.replicate count pad) = count := by
  have stops : ((values.map symbolOf).reverse.takeWhile (· == pad)) = [] := by
    rw [← List.map_reverse]
    cases back : values.reverse with
    | nil => rfl
    | cons value rest =>
      have among : value ∈ values := List.mem_reverse.1 (back ▸ List.mem_cons_self)
      exact List.takeWhile_cons_of_neg (by simpa using symbolOf_pad value (small value among))
  rw [paddingOf, List.reverse_append, List.reverse_replicate, List.takeWhile_append_of_pos (by simp), stops, List.append_nil,
    List.length_replicate]

theorem decodeQuad_values {values : List Nat} (small : ∀ value ∈ values, value < 64) {count : Nat} (few : count ≤ 2)
    (full : values.length + count = 4) {ends : Bool} (last : count = 0 ∨ ends = true) :
    decodeQuad (values.map symbolOf ++ List.replicate count pad) ends =
      some ((bytesOf (number values 0 * 64 ^ count)).take (3 - count)) := by
  have taken : (values.map symbolOf ++ List.replicate count pad).take (4 - count) = values.map symbolOf := by
    rw [List.take_append_of_le_length (by rw [List.length_map]; omega), List.take_of_length_le (by rw [List.length_map]; omega)]
  obtain ⟨word, found, total, bound⟩ := wordOf_values small (show 0 + values.length ≤ 4 by omega) 0 (by decide)
  have refused : ¬(2 < count ∨ (0 < count ∧ ends = false)) := by
    rintro (many | ⟨some_, not_⟩)
    · omega
    · obtain none_ | last := last
      · omega
      · rw [last] at not_
        cases not_
  have shifted : (word <<< UInt32.ofNat (6 * count)).toNat = number values 0 * 64 ^ count := by
    rw [UInt32.toNat_shiftLeft, UInt32.toNat_ofNat', Nat.mod_eq_of_lt (show 6 * count < 2 ^ 32 by omega),
      Nat.mod_eq_of_lt (show 6 * count < 32 by omega), Nat.shiftLeft_eq, Nat.pow_mul, total]
    rw [total, Nat.zero_add] at bound
    have top : number values 0 * 64 ^ count < 64 ^ 4 := by
      rw [← full, Nat.pow_add]
      exact Nat.mul_lt_mul_of_pos_right bound (Nat.pow_pos (by decide))
    exact Nat.mod_eq_of_lt (Nat.lt_trans top (by decide))
  simp only [decodeQuad, paddingOf_values small, if_neg refused, taken, found, Option.map_some, bytesOf_word, shifted]

theorem wordOf_known {bytes : Bytes} {start word : UInt32} (found : wordOf start bytes = some word) :
    ∀ byte ∈ bytes, byte ∈ base64 := by
  induction bytes generalizing start with
  | nil => exact nofun
  | cons byte rest ih =>
    obtain ⟨value, here, later⟩ := Option.bind_eq_some_iff.1 found
    rw [List.forall_mem_cons]
    exact ⟨(sextet_isSome byte).1 (Option.isSome_iff_exists.2 ⟨value, here⟩), ih later⟩

theorem padding_splits (quad : Bytes) :
    quad = quad.take (quad.length - paddingOf quad) ++ List.replicate (paddingOf quad) pad ∧ paddingOf quad ≤ quad.length := by
  have pads : quad.reverse.takeWhile (· == pad) = List.replicate (paddingOf quad) pad := by
    rw [List.eq_replicate_iff]
    exact ⟨rfl, fun byte among => by simpa using List.mem_takeWhile_imp among⟩
  have split : quad = (quad.reverse.dropWhile (· == pad)).reverse ++ List.replicate (paddingOf quad) pad := by
    rw [← List.reverse_replicate, ← pads, ← List.reverse_append, List.takeWhile_append_dropWhile, List.reverse_reverse]
  have length := congrArg List.length split
  rw [List.length_append, List.length_replicate] at length
  refine ⟨?_, by omega⟩
  have taken : quad.take (quad.length - paddingOf quad) = (quad.reverse.dropWhile (· == pad)).reverse := by
    have whole := @List.take_left _ (quad.reverse.dropWhile (· == pad)).reverse (List.replicate (paddingOf quad) pad)
    rwa [← split, show (quad.reverse.dropWhile (· == pad)).reverse.length = quad.length - paddingOf quad by omega] at whole
  rw [taken]
  exact split

theorem decodeQuad_some {quad out : Bytes} (full : quad.length = 4) {ends : Bool} (found : decodeQuad quad ends = some out) :
    ∃ (values : List Nat) (count : Nat), (∀ value ∈ values, value < 64) ∧ count ≤ 2 ∧ (count = 0 ∨ ends = true) ∧
      quad = values.map symbolOf ++ List.replicate count pad := by
  simp only [decodeQuad] at found
  split at found
  next => cases found
  next kept =>
    obtain ⟨word, made, _⟩ := Option.map_eq_some_iff.1 found
    obtain ⟨values, small, same⟩ := symbols_of (wordOf_known made)
    refine ⟨values, paddingOf quad, small, by omega, ?_, ?_⟩
    · cases ends <;> simp at kept ⊢
      omega
    · rw [same, ← full]
      exact (padding_splits quad).1

end Quads

section Groups

-- Some values with the bits of the last one cleared that no byte takes.
def tidyValues (values : List Nat) (count : Nat) : List Nat :=
  values.dropLast ++ values.getLast?.toList.map fun value => value / 4 ^ count * 4 ^ count

theorem groupNumber_bytesOf {number : Nat} (bound : number < 2 ^ 24) {count : Nat} (few : count ≤ 2) :
    groupNumber ((bytesOf number).take (3 - count)) = number / 256 ^ count * 256 ^ count := by
  obtain rfl | rfl | rfl : count = 0 ∨ count = 1 ∨ count = 2 := by omega
  all_goals
    simp [groupNumber, bytesOf]
    omega

theorem digitsOf_values {p q r s : Nat} (first : p < 64) (second : q < 64) (third : r < 64) (fourth : s < 64) :
    digitsOf (((p * 64 + q) * 64 + r) * 64 + s) = [p, q, r, s] := by
  rw [digitsOf, List.cons.injEq, List.cons.injEq, List.cons.injEq, List.cons.injEq]
  refine ⟨?_, ?_, ?_, ?_, rfl⟩ <;> omega

-- A group of bytes that values were read to is written with them again, less the bits that no byte takes.
theorem encodeGroup_values {values : List Nat} (small : ∀ value ∈ values, value < 64) {count : Nat} (few : count ≤ 2)
    (full : values.length + count = 4) :
    encodeGroup ((bytesOf (number values 0 * 64 ^ count)).take (3 - count)) =
      (tidyValues values count).map symbolOf ++ List.replicate count pad := by
  obtain rfl | rfl | rfl : count = 0 ∨ count = 1 ∨ count = 2 := by omega
  · match values, full with
    | [p, q, r, s], _ =>
      obtain ⟨first, second, third, fourth, _⟩ : p < 64 ∧ q < 64 ∧ r < 64 ∧ s < 64 ∧ True := by simpa using small
      have digits := digitsOf_values first second third fourth
      have whole : number [p, q, r, s] 0 * 64 ^ 0 / 256 ^ 0 * 256 ^ 0 = ((p * 64 + q) * 64 + r) * 64 + s := by
        simp [number]
      rw [encodeGroup_digits (by simp [bytesOf]), groupNumber_bytesOf (by simp [number]; omega) (by decide), whole, digits]
      simp [bytesOf, tidyValues]
  · match values, full with
    | [p, q, r], _ =>
      obtain ⟨first, second, third, _⟩ : p < 64 ∧ q < 64 ∧ r < 64 ∧ True := by simpa using small
      have digits := digitsOf_values first second (show r / 4 * 4 < 64 by omega) (show 0 < 64 by decide)
      have whole : number [p, q, r] 0 * 64 ^ 1 / 256 ^ 1 * 256 ^ 1 = ((p * 64 + q) * 64 + r / 4 * 4) * 64 + 0 := by
        simp [number]
        omega
      rw [encodeGroup_digits (by simp [bytesOf]), groupNumber_bytesOf (by simp [number]; omega) (by decide), whole, digits]
      simp [bytesOf, tidyValues]
  · match values, full with
    | [p, q], _ =>
      obtain ⟨first, second, _⟩ : p < 64 ∧ q < 64 ∧ True := by simpa using small
      have digits := digitsOf_values first (show q / 16 * 16 < 64 by omega) (show 0 < 64 by decide) (show 0 < 64 by decide)
      have whole : number [p, q] 0 * 64 ^ 2 / 256 ^ 2 * 256 ^ 2 = ((p * 64 + q / 16 * 16) * 64 + 0) * 64 + 0 := by
        simp [number]
        omega
      rw [encodeGroup_digits (by simp [bytesOf]), groupNumber_bytesOf (by simp [number]; omega) (by decide), whole, digits]
      simp [bytesOf, tidyValues]

theorem bytesOf_groupNumber {group : Bytes} (short : group.length ≤ 3) : (bytesOf (groupNumber group)).take group.length = group := by
  have byte (value : Nat) (one : UInt8) (same : value % 256 = one.toNat) : UInt8.ofNat value = one := by
    apply UInt8.toNat_inj.1
    rw [UInt8.toNat_ofNat', ← same]
  match group, short with
  | [], _ => rfl
  | [a], _ =>
    have first := byte (groupNumber [a] / 65536) a (by simp [groupNumber])
    simp [bytesOf, first]
  | [a, b], _ =>
    have first := byte (groupNumber [a, b] / 65536) a (by have := a.toNat_lt; have := b.toNat_lt; simp [groupNumber]; omega)
    have second := byte (groupNumber [a, b] / 256) b (by have := b.toNat_lt; simp [groupNumber]; omega)
    simp [bytesOf, first, second]
  | [a, b, c], _ =>
    have first := byte (groupNumber [a, b, c] / 65536) a
      (by have := a.toNat_lt; have := b.toNat_lt; have := c.toNat_lt; simp [groupNumber]; omega)
    have second := byte (groupNumber [a, b, c] / 256) b (by have := b.toNat_lt; have := c.toNat_lt; simp [groupNumber]; omega)
    have third := byte (groupNumber [a, b, c]) c (by have := c.toNat_lt; simp [groupNumber]; omega)
    simp [bytesOf, first, second, third]

-- The symbols that a group is written with make its number again.
theorem number_digits {group : Bytes} (short : group.length ≤ 3) :
    number ((digitsOf (groupNumber group)).take (group.length + 1)) 0 * 64 ^ (3 - group.length) = groupNumber group := by
  match group, short with
  | [], _ => simp [digitsOf, number, groupNumber]
  | [a], _ =>
    have := a.toNat_lt
    simp [digitsOf, number, groupNumber]
    omega
  | [a, b], _ =>
    have := a.toNat_lt
    have := b.toNat_lt
    simp [digitsOf, number, groupNumber]
    omega
  | [a, b, c], _ =>
    have := a.toNat_lt
    have := b.toNat_lt
    have := c.toNat_lt
    simp [digitsOf, number, groupNumber]
    omega

-- A group of bytes is read again from what it is written with.
theorem decodeQuad_encodeGroup {group : Bytes} (short : group.length ≤ 3) (any : group ≠ []) {ends : Bool}
    (last : group.length = 3 ∨ ends = true) : decodeQuad (encodeGroup group) ends = some group := by
  have one := List.length_pos_iff.2 any
  have length : ((digitsOf (groupNumber group)).take (group.length + 1)).length = group.length + 1 := by
    rw [List.length_take, Nat.min_eq_left (by simp only [digitsOf, List.length_cons, List.length_nil]; omega)]
  rw [encodeGroup_digits short, ← List.map_take,
    decodeQuad_values (fun value among => digitsOf_small _ value (List.mem_of_mem_take among)) (by omega)
      (by omega) (last.imp (by omega) id), number_digits short,
    show 3 - (3 - group.length) = group.length by omega, bytesOf_groupNumber short]

theorem encodeBytes_group {group : Bytes} (short : group.length ≤ 3) (any : group ≠ []) : encodeBytes group = encodeGroup group := by
  match group, short, any with
  | [a], _, _ => rfl
  | [a, b], _, _ => rfl
  | [a, b, c], _, _ => rw [encodeBytes, encodeBytes, List.append_nil]

theorem encodeBytes_append {group : Bytes} (full : group.length = 3) (rest : Bytes) :
    encodeBytes (group ++ rest) = encodeGroup group ++ encodeBytes rest := by
  match group, full with
  | [a, b, c], _ => rw [List.cons_append, List.cons_append, List.cons_append, List.nil_append, encodeBytes]

theorem tidyValues_append (front : List Nat) {rest : List Nat} (any : rest ≠ []) (count : Nat) :
    tidyValues (front ++ rest) count = front ++ tidyValues rest count := by
  rw [tidyValues, tidyValues, List.dropLast_append_of_ne_nil any, List.getLast?_append_of_ne_nil front any, List.append_assoc]

theorem tidyValues_full (values : List Nat) : tidyValues values 0 = values := by
  cases values using List.reverseRecOn with
  | nil => rfl
  | append_singleton front value => simp [tidyValues]

theorem decodeFrom_encodeBytes {last index : Nat} (bytes : Bytes) (place : index + (encodeBytes bytes).length / 4 = last) :
    decodeFrom last index (encodeBytes bytes) = some bytes := by
  have group (some_ : Bytes) : ∃ a b c d, encodeGroup some_ = [a, b, c, d] := by
    rw [encodeGroup]
    exact ⟨_, _, _, _, rfl⟩
  induction bytes using encodeBytes.induct generalizing index with
  | case1 a b c rest ih =>
    obtain ⟨p, q, r, s, written⟩ := group [a, b, c]
    rw [encodeBytes, written] at place ⊢
    simp only [List.cons_append, List.nil_append, List.length_cons] at place ⊢
    rw [decodeFrom, ← written, decodeQuad_encodeGroup (by simp) (by simp) (.inl rfl), Option.bind_some, ih (by omega)]
    rfl
  | case2 => rfl
  | case3 short whole any =>
    have length : short.length ≤ 2 := by
      match short, whole, any with
      | [a], _, _ => simp
      | [a, b], _, _ => simp
      | a :: b :: c :: rest, whole, _ => exact absurd rfl (whole a b c rest)
    have written := encodeBytes.eq_3 short whole any
    obtain ⟨p, q, r, s, four⟩ := group short
    rw [written, four] at place ⊢
    simp only [List.length_cons, List.length_nil] at place
    rw [decodeFrom, ← four, decodeQuad_encodeGroup (by omega) any (.inr (by simpa using place))]
    simp [decodeFrom]

-- What a text of symbols and padding is read to, and what is written for that.
theorem decodeFrom_values {last index : Nat} {values : List Nat} (small : ∀ value ∈ values, value < 64) {count : Nat}
    (few : count ≤ 2) (full : (values.length + count) % 4 = 0) (place : index + (values.length + count) / 4 = last) :
    ∃ out, decodeFrom last index (values.map symbolOf ++ List.replicate count pad) = some out ∧
      encodeBytes out = (tidyValues values count).map symbolOf ++ List.replicate count pad := by
  induction length : values.length using Nat.strong_induction_on generalizing values index with
  | _ most ih =>
    by_cases any : values = []
    · subst any
      obtain rfl : count = 0 := by
        rw [List.length_nil, Nat.zero_add] at full
        omega
      exact ⟨[], rfl, rfl⟩
    · have some_ := List.length_pos_iff.2 any
      by_cases ends : values.length + count = 4
      · have taken : ((bytesOf (number values 0 * 64 ^ count)).take (3 - count)).length = 3 - count := by
          rw [List.length_take, Nat.min_eq_left (by simp [bytesOf])]
        have read := decodeQuad_values small few ends (.inr (show true = true from rfl))
        have quad : (values.map symbolOf ++ List.replicate count pad).length = 4 := by simpa using ends
        obtain ⟨p, q, r, s, four⟩ := List.length_eq_four.1 quad
        refine ⟨(bytesOf (number values 0 * 64 ^ count)).take (3 - count), ?_, ?_⟩
        · rw [four] at read ⊢
          rw [decodeFrom, show decide (index + 1 = last) = true by rw [decide_eq_true_eq]; omega, read]
          simp [decodeFrom]
        · rw [encodeBytes_group (by omega) fun none_ => by rw [none_, List.length_nil] at taken; omega]
          exact encodeGroup_values small few ends
      · obtain ⟨p, q, r, s, rest, rfl⟩ : ∃ p q r s rest, values = [p, q, r, s] ++ rest := by
          match values, show 4 ≤ values.length by omega with
          | p :: q :: r :: s :: rest, _ => exact ⟨p, q, r, s, rest, rfl⟩
        rw [List.length_append] at full place ends length
        simp only [List.length_cons, List.length_nil] at full place ends length
        have front : ∀ value ∈ [p, q, r, s], value < 64 := fun value among => small value (List.mem_append_left rest among)
        have later : ∀ value ∈ rest, value < 64 := fun value among => small value (List.mem_append_right _ among)
        obtain ⟨out, read, written⟩ := @ih rest.length (by omega) (index + 1) rest later (by omega) (by omega) rfl
        have more : rest ≠ [] := by
          rintro rfl
          rw [List.length_nil] at full ends
          omega
        refine ⟨(bytesOf (number [p, q, r, s] 0 * 64 ^ 0)).take (3 - 0) ++ out, ?_, ?_⟩
        · have first := @decodeQuad_values _ front 0 (by decide) rfl (decide (index + 1 = last)) (.inl rfl)
          rw [List.map_append, List.append_assoc]
          simp only [List.map_cons, List.map_nil, List.replicate_zero, List.append_nil] at first
          simp only [List.map_cons, List.map_nil, List.cons_append, List.nil_append]
          rw [decodeFrom, first, Option.bind_some, read, Option.map_some]
        · rw [encodeBytes_append (by simp [bytesOf]), encodeGroup_values front (by decide) rfl, written, tidyValues_full,
            tidyValues_append _ more, List.map_append, List.replicate_zero, List.append_nil, List.append_assoc]

theorem decodeFrom_some {last index : Nat} {text out : Bytes} (full : text.length % 4 = 0) (place : index + text.length / 4 = last)
    (found : decodeFrom last index text = some out) :
    ∃ (values : List Nat) (count : Nat), (∀ value ∈ values, value < 64) ∧ count ≤ 2 ∧
      text = values.map symbolOf ++ List.replicate count pad := by
  induction length : text.length using Nat.strong_induction_on generalizing text index out with
  | _ most ih =>
    match text, full with
    | [], _ => exact ⟨[], 0, nofun, by decide, rfl⟩
    | a :: b :: c :: d :: rest, full =>
      rw [decodeFrom] at found
      obtain ⟨group, first, found⟩ := Option.bind_eq_some_iff.1 found
      obtain ⟨later, read, _⟩ := Option.map_eq_some_iff.1 found
      obtain ⟨values, count, small, few, ends, same⟩ := decodeQuad_some rfl first
      simp only [List.length_cons] at full place length
      obtain ⟨values', count', small', few', same'⟩ := ih rest.length (by omega) (by omega) (by omega) read rfl
      rw [show a :: b :: c :: d :: rest = [a, b, c, d] ++ rest from rfl]
      obtain rfl | ends := ends
      · refine ⟨values ++ values', count', ?_, few', ?_⟩
        · rw [List.forall_mem_append]
          exact ⟨small, small'⟩
        · rw [same, same', List.map_append, List.replicate_zero, List.append_nil, List.append_assoc]
      · -- Padding ends the text.
        have none_ : rest = [] := by
          rw [decide_eq_true_eq] at ends
          rw [← List.length_eq_zero_iff]
          omega
        exact ⟨values, count, small, few, by rw [none_, List.append_nil, same]⟩

end Groups

-- Symbols of the alphabet, and as many padding signs as fill the last group.
structure Padded (text symbols : Bytes) (padding : Nat) : Prop where
  whole : text.length % 4 = 0
  few : padding ≤ 2
  known : ∀ symbol ∈ symbols, symbol ∈ base64
  spelled : text = symbols ++ List.replicate padding pad

-- The last symbol before the padding has two bits for each padding sign that no byte takes.
def cleared (padding : Nat) (symbol : UInt8) : UInt8 :=
  symbolOf (((sextet symbol).getD 0).toNat / 4 ^ padding * 4 ^ padding)

def tidy (symbols : Bytes) (padding : Nat) : Bytes := symbols.dropLast ++ symbols.getLast?.toList.map (cleared padding)

theorem tidy_values {values : List Nat} (small : ∀ value ∈ values, value < 64) (padding : Nat) :
    tidy (values.map symbolOf) padding = (tidyValues values padding).map symbolOf := by
  cases values using List.reverseRecOn with
  | nil => rfl
  | append_singleton front value =>
    have here := small value (by simp)
    have same : (UInt32.ofNat value).toNat = value := by
      rw [UInt32.toNat_ofNat']
      exact Nat.mod_eq_of_lt (by omega)
    simp [tidy, tidyValues, cleared, sextet_symbolOf value here, same]

theorem asBytes_encode (bytes : Bytes) : asBytes (encode bytes) = encodeBytes bytes := by
  refine asBytes_ofAscii ?_
  have symbols (group : Bytes) : ∀ byte ∈ encodeGroup group, byte < 128 := by
    intro byte among
    obtain ⟨index, _, rfl⟩ := List.mem_map.1 among
    split
    · rw [masked _ (by omega)]
      exact symbolOf_ascii _ (Nat.mod_lt _ (by decide))
    · decide
  induction bytes using encodeBytes.induct with
  | case1 a b c rest ih =>
    rw [encodeBytes, List.forall_mem_append]
    exact ⟨symbols _, ih⟩
  | case2 => exact nofun
  | case3 short whole any =>
    rw [encodeBytes.eq_3 short whole any]
    exact symbols short

theorem encodeBytes_whole (bytes : Bytes) : (encodeBytes bytes).length % 4 = 0 := by
  have four (group : Bytes) : (encodeGroup group).length = 4 := by rw [encodeGroup, List.length_map, List.length_range]
  induction bytes using encodeBytes.induct with
  | case1 a b c rest ih =>
    rw [encodeBytes, List.length_append, four]
    omega
  | case2 => rfl
  | case3 short whole any => rw [encodeBytes.eq_3 short whole any, four]

theorem decode_encode (bytes : Bytes) : decode (encode bytes) = some bytes := by
  rw [decode, asBytes_encode]
  simp only [encodeBytes_whole, ne_eq, not_true_eq_false, if_false]
  exact decodeFrom_encodeBytes bytes (by rw [Nat.zero_add])

theorem decode_padded {text : String} {symbols : Bytes} {padding : Nat} (padded : Padded (asBytes text) symbols padding) :
    ∃ bytes, decode text = some bytes ∧ asBytes (encode bytes) = tidy symbols padding ++ List.replicate padding pad := by
  obtain ⟨values, small, rfl⟩ := symbols_of padded.known
  have length : (asBytes text).length = values.length + padding := by simp [padded.spelled]
  have whole := padded.whole
  obtain ⟨bytes, read, written⟩ :=
    @decodeFrom_values ((asBytes text).length / 4) 0 values small padding padded.few (by omega) (by omega)
  refine ⟨bytes, ?_, ?_⟩
  · rw [decode]
    simp only [whole, ne_eq, not_true_eq_false, if_false]
    rwa [padded.spelled] at read ⊢
  · rw [asBytes_encode, written, tidy_values small]

theorem padded_of_decode {text : String} {bytes : Bytes} (read : decode text = some bytes) :
    ∃ symbols padding, Padded (asBytes text) symbols padding := by
  rw [decode] at read
  split at read
  next => cases read
  next whole =>
    obtain ⟨values, count, small, few, spelled⟩ := decodeFrom_some (by omega) (by omega) read
    refine ⟨values.map symbolOf, count, ⟨by omega, few, ?_, spelled⟩⟩
    intro symbol among
    obtain ⟨value, there, rfl⟩ := List.mem_map.1 among
    exact symbolOf_known (small value there)

-- Bytes that are written are read again, exactly the padded texts are read, and what is read of one is written as it
-- was but for the bits that no byte takes.
theorem round_trip :
    (∀ bytes, decode (encode bytes) = some bytes) ∧
    ∀ text, ((decode text).isSome = true ↔ ∃ symbols padding, Padded (asBytes text) symbols padding) ∧
      ∀ symbols padding bytes, Padded (asBytes text) symbols padding → decode text = some bytes →
        asBytes (encode bytes) = tidy symbols padding ++ List.replicate padding pad := by
  refine ⟨decode_encode, fun text => ⟨⟨?_, ?_⟩, ?_⟩⟩
  · intro read
    obtain ⟨bytes, read⟩ := Option.isSome_iff_exists.1 read
    exact padded_of_decode read
  · rintro ⟨symbols, padding, padded⟩
    obtain ⟨bytes, read, _⟩ := decode_padded padded
    rw [read, Option.isSome_some]
  · intro symbols padding bytes padded read
    obtain ⟨bytes', read', written⟩ := decode_padded padded
    rwa [Option.some.inj (read.symm.trans read')]

example : (decode "Zm9vYg==").map encode = some "Zm9vYg==" := by decide +kernel

example : (decode "Zm9vYh==").map encode = some "Zm9vYg==" := by decide +kernel

end Kido.Base64
