import Kido.Wire.Requests
import Mathlib.Algebra.Order.BigOperators.Group.List
import Mathlib.Algebra.Order.Ring.Nat

set_option autoImplicit false

namespace Kido.Clipboards

open Kido.Shared Kido.Framing

def maxClipboard : Nat := 512 * 1024

def maxMessage : Nat := 1024 * 1024

def total (strings : List Bytes) : Nat := (strings.map List.length).sum

def pack (strings : List Bytes) : Except Oversize Bytes :=
  if maxClipboard < total strings then .error .oversize
  else
    match (Body.strings strings).result with
    | .ok () => .ok (Body.strings strings).written
    | .error why => .error why

theorem walk_each (values : List Bytes) : Undoes (Fields.walk values.length) () (Body.each values) () := by
  induction values with
  | nil => exact .pure () ()
  | cons value rest ih => exact (string_undoes value).step ih

theorem walkStrings_strings (values : List Bytes) :
    Undoes Fields.walkStrings values.length (Body.strings values) () := by
  refine length_undoes.stepWith fun fits => ?_
  have bound : values.length % 2 ^ 32 = values.length := Nat.mod_eq_of_lt (length_ok fits)
  rw [UInt32.toNat_ofNat', bound]
  exact (walk_each values).check fun _ => rfl

theorem pack_strings {strings : List Bytes} {bytes : Bytes} (packed : pack strings = .ok bytes) :
    stringsOf bytes = .ok strings.length := by
  unfold pack at packed
  split at packed
  next => cases packed
  next =>
    split at packed
    next done =>
      cases packed
      obtain ⟨-, reads⟩ := walkStrings_strings strings () done
      have walked := reads []
      rw [List.append_nil] at walked
      rw [stringsOf, walked]
      rfl
    next => cases packed

def MimesBuf.new (mimes : List Bytes) : Except Oversize Mimes :=
  match found : pack mimes with
  | .ok bytes => .ok ⟨bytes, mimes.length, pack_strings found⟩
  | .error why => .error why

def pairStrings (pairs : List (Bytes × Bytes)) : List Bytes := pairs.flatMap fun pair => [pair.1, pair.2]

theorem pairStrings_length (pairs : List (Bytes × Bytes)) : (pairStrings pairs).length = 2 * pairs.length := by
  induction pairs with
  | nil => rfl
  | cons pair rest ih =>
    have front : pairStrings (pair :: rest) = pair.1 :: pair.2 :: pairStrings rest := rfl
    rw [front, List.length_cons, List.length_cons, ih, List.length_cons]
    omega

def ContentsBuf.new (pairs : List (Bytes × Bytes)) : Except Oversize Contents :=
  match found : pack (pairStrings pairs) with
  | .ok bytes =>
    .ok ⟨bytes, (pairStrings pairs).length, pack_strings found, by rw [pairStrings_length, Nat.mul_mod_right]⟩
  | .error why => .error why

def ServedBuf.new (pairs : List (Bytes × Bytes)) (available : List Bytes) : Except Oversize Served :=
  if maxClipboard < total (pairStrings pairs ++ available) then .error .oversize
  else do return ⟨← MimesBuf.new available, ← ContentsBuf.new pairs⟩

-- What a client answers with: a message that has more strings does not fit, as each string takes its quotes.
structure ClipboardServed where
  contents : List (Bytes × Bytes)
  available : List Bytes
  fits : 2 * (pairStrings contents ++ available).length ≤ maxMessage

def ClipboardServed.packed (served : ClipboardServed) : Option Served :=
  (ServedBuf.new served.contents served.available).toOption

theorem each_writes {values : List Bytes} (short : ∀ value ∈ values, value.length < 2 ^ 32) :
    (Body.each values).Writes (total values + 4 * values.length) () := by
  induction values with
  | nil => exact .ret ()
  | cons value rest ih =>
    have first := string_writes (short value (.head rest))
    have both : (Body.each (value :: rest)).Writes (4 + value.length + (total rest + 4 * rest.length)) () :=
      first.bind (ih fun other member => short other (.tail value member))
    have count : total (value :: rest) + 4 * (value :: rest).length =
        4 + value.length + (total rest + 4 * rest.length) := by
      simp only [total, List.map_cons, List.sum_cons, List.length_cons]
      omega
    rwa [count]

theorem length_le_total {values : List Bytes} {value : Bytes} (member : value ∈ values) : value.length ≤ total values :=
  List.le_sum_of_mem (List.mem_map_of_mem member)

theorem pack_length {strings : List Bytes} (small : total strings ≤ maxClipboard) (few : strings.length < 2 ^ 32) :
    ∃ bytes, pack strings = .ok bytes ∧ bytes.length = 4 + (total strings + 4 * strings.length) := by
  have bound : maxClipboard < 2 ^ 32 := by decide
  have count : (Body.length strings.length).Writes 4 () := by
    rw [Body.length, if_pos few]
    exact ⟨rfl, leBytes_length 4 _⟩
  have each : (Body.each strings).Writes (total strings + 4 * strings.length) () :=
    each_writes fun value member => by
      have least := length_le_total member
      omega
  obtain ⟨done, length⟩ : (Body.strings strings).Writes (4 + (total strings + 4 * strings.length)) () := count.bind each
  refine ⟨_, ?_, length⟩
  rw [pack, if_neg (Nat.not_lt.2 small), done]

theorem total_append (first second : List Bytes) : total (first ++ second) = total first + total second := by
  simp [total]

theorem mimes_length {mimes : List Bytes} {packed : Mimes} (few : mimes.length < 2 ^ 32)
    (small : total mimes ≤ maxClipboard) (made : MimesBuf.new mimes = .ok packed) :
    packed.bytes.length = 4 + (total mimes + 4 * mimes.length) := by
  obtain ⟨bytes, good, length⟩ := pack_length small few
  unfold MimesBuf.new at made
  split at made
  next other found =>
    cases made
    cases good.symm.trans found
    exact length
  next => cases made

theorem contents_length {pairs : List (Bytes × Bytes)} {packed : Contents} (few : (pairStrings pairs).length < 2 ^ 32)
    (small : total (pairStrings pairs) ≤ maxClipboard) (made : ContentsBuf.new pairs = .ok packed) :
    packed.bytes.length = 4 + (total (pairStrings pairs) + 4 * (pairStrings pairs).length) := by
  obtain ⟨bytes, good, length⟩ := pack_length small few
  unfold ContentsBuf.new at made
  split at made
  next other found =>
    cases made
    cases good.symm.trans found
    exact length
  next => cases made

theorem served_length {pairs : List (Bytes × Bytes)} {available : List Bytes} {served : Served}
    (few : (pairStrings pairs ++ available).length < 2 ^ 32) (made : ServedBuf.new pairs available = .ok served) :
    served.available.bytes.length + served.contents.bytes.length ≤
      8 + (maxClipboard + 4 * (pairStrings pairs ++ available).length) := by
  unfold ServedBuf.new at made
  split at made
  next => cases made
  next small =>
    rw [total_append] at small
    rw [List.length_append] at few
    cases named : MimesBuf.new available with
    | error why => rw [named] at made; cases made
    | ok mimes =>
      cases filled : ContentsBuf.new pairs with
      | error why => rw [named, filled] at made; cases made
      | ok contents =>
        rw [named, filled] at made
        cases made
        have first := mimes_length (by omega) (by omega) named
        have second := contents_length (by omega) (by omega) filled
        simp only [List.length_append]
        omega

theorem ClipboardServed.packed_made {served : ClipboardServed} {frame : Served} (packed : served.packed = some frame) :
    ServedBuf.new served.contents served.available = .ok frame := by
  unfold ClipboardServed.packed at packed
  cases made : ServedBuf.new served.contents served.available <;> rw [made] at packed <;> cases packed
  rfl

theorem answer_encodes (req : Req) (served : Option ClipboardServed) (out : Bytes) :
    (encode (.clipboardAnswer req (served.bind ClipboardServed.packed)) out).1 = .ok () := by
  have room : 4 + 1 + (8 + (maxClipboard + 2 * maxMessage)) + 1 ≤ maxFrame := by decide
  rcases framed_cases out (Body.frame (.clipboardAnswer req (served.bind ClipboardServed.packed))) with
    ⟨_, -, large⟩ | ⟨_, -, -, appended⟩
  · cases packed : served.bind ClipboardServed.packed with
    | none =>
      rw [packed] at large
      have length : (Body.frame (.clipboardAnswer req none)).written.length = 4 + 1 := rfl
      have tooLarge := large .clipboardAnswer rfl
      omega
    | some frame =>
      rw [packed] at large
      have length : (Body.frame (.clipboardAnswer req (some frame))).written.length =
          4 + (1 + (frame.available.bytes.length + (frame.contents.bytes.length + 0))) := by
        change ((Body.u32 req.low).written ++ ((Body.bool true).written ++ (frame.available.bytes ++
          (frame.contents.bytes ++ [])))).length = _
        simp only [List.length_append, List.length_nil]
        rfl
      have tooLarge := large .clipboardAnswer rfl
      obtain ⟨answer, -, made⟩ := Option.bind_eq_some_iff.1 packed
      have bound := answer.fits
      have few : maxMessage < 2 ^ 32 := by decide
      have fits := served_length (by omega) (ClipboardServed.packed_made made)
      omega
  · exact congrArg Prod.fst appended

theorem answer_back (req : Req) (served : Option ClipboardServed) :
    decodeRequest (encode (.clipboardAnswer req (served.bind ClipboardServed.packed)) []).2 =
      .ok (.clipboardAnswer req (served.bind ClipboardServed.packed)) :=
  have encoded : encode (.clipboardAnswer req (served.bind ClipboardServed.packed)) [] = (.ok (), _) :=
    Prod.ext (answer_encodes req served []) rfl
  answer_decoded encoded

end Kido.Clipboards
