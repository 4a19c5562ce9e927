import Mathlib.Data.List.Range

set_option autoImplicit false

namespace Kido.Shared

def patch (cells : Nat → UInt8) (place : Nat) (bytes : List UInt8) : Nat → UInt8 :=
  fun index => if place ≤ index then (bytes[index - place]?).getD (cells index) else cells index

def slice (cells : Nat → UInt8) (place len : Nat) : List UInt8 := (List.range len).map fun index => cells (place + index)

@[simp]
theorem slice_length (cells : Nat → UInt8) (place len : Nat) : (slice cells place len).length = len := by simp [slice]

@[simp]
theorem slice_zero (cells : Nat → UInt8) (place : Nat) : slice cells place 0 = [] := rfl

theorem slice_congr {cells other : Nat → UInt8} {place len : Nat}
    (same : ∀ index < len, cells (place + index) = other (place + index)) : slice cells place len = slice other place len :=
  List.map_congr_left fun index member => same index (List.mem_range.mp member)

theorem slice_add (cells : Nat → UInt8) (place first second : Nat) :
    slice cells place (first + second) = slice cells place first ++ slice cells (place + first) second := by
  simp [slice, List.range_add, Nat.add_assoc]

theorem slice_succ (cells : Nat → UInt8) (place len : Nat) :
    slice cells place (len + 1) = cells place :: slice cells (place + 1) len := by
  rw [Nat.add_comm, slice_add]
  rfl

@[simp]
theorem patch_nil (cells : Nat → UInt8) (place : Nat) : patch cells place [] = cells := by
  funext index
  simp [patch]

theorem patch_cons (cells : Nat → UInt8) (place : Nat) (byte : UInt8) (bytes : List UInt8) :
    patch cells place (byte :: bytes) = patch (Function.update cells place byte) (place + 1) bytes := by
  funext index
  rcases Nat.lt_trichotomy index place with before | rfl | after
  · have apart : ¬place ≤ index := by omega
    have apart' : ¬place + 1 ≤ index := by omega
    simp [patch, apart, apart', Function.update, Nat.ne_of_lt before]
  · simp [patch]
  · have shift : index - place = (index - (place + 1)) + 1 := by omega
    have inside : place ≤ index := by omega
    have inside' : place + 1 ≤ index := by omega
    simp only [patch, if_pos inside, if_pos inside', shift, List.getElem?_cons_succ]
    rw [Function.update_of_ne (Nat.ne_of_gt after)]

theorem patch_outside (cells : Nat → UInt8) {place index : Nat} (bytes : List UInt8)
    (outside : index < place ∨ place + bytes.length ≤ index) : patch cells place bytes index = cells index := by
  rcases outside with before | after
  · simp [patch, Nat.not_le.mpr before]
  · have none_ : bytes[index - place]? = none := List.getElem?_eq_none (by omega)
    simp [patch, none_]

theorem slice_patch (cells : Nat → UInt8) (place : Nat) (bytes : List UInt8) :
    slice (patch cells place bytes) place bytes.length = bytes := by
  refine List.ext_getElem (by simp [slice]) fun index short inside => ?_
  have there : bytes[index]? = some bytes[index] := List.getElem?_eq_getElem inside
  simp [slice, patch, there]

theorem slice_patch_before (cells : Nat → UInt8) {place start len : Nat} (bytes : List UInt8)
    (before : start + len ≤ place) : slice (patch cells place bytes) start len = slice cells start len :=
  slice_congr fun index short => patch_outside cells bytes (.inl (by omega))

theorem slice_patch_after (cells : Nat → UInt8) {place start len : Nat} (bytes : List UInt8)
    (after : place + bytes.length ≤ start) : slice (patch cells place bytes) start len = slice cells start len :=
  slice_congr fun index short => patch_outside cells bytes (.inr (by omega))

theorem slice_sub {cells : Nat → UInt8} {place len : Nat} {bytes : List UInt8} (held : slice cells place len = bytes)
    {start count : Nat} (inside : start + count ≤ len) :
    slice cells (place + start) count = (bytes.drop start).take count := by
  subst held
  obtain ⟨rest, rfl⟩ := Nat.exists_eq_add_of_le inside
  rw [slice_add, slice_add, List.append_assoc]
  simp

theorem slice_overlay {cells : Nat → UInt8} {place len : Nat} {held : List UInt8} (same : slice cells place len = held)
    (bytes : List UInt8) {start : Nat} (near : start ≤ len) :
    slice (patch cells (place + start) bytes) place (max len (start + bytes.length)) =
      held.take start ++ bytes ++ held.drop (start + bytes.length) := by
  have split : max len (start + bytes.length) = start + bytes.length + (len - (start + bytes.length)) := by omega
  rw [split, slice_add, slice_add, slice_patch, slice_patch_before cells bytes (by omega),
    slice_patch_after cells bytes (by omega)]
  have front : slice cells (place + 0) start = (held.drop 0).take start := slice_sub same (by omega)
  rw [Nat.add_zero, List.drop_zero] at front
  have back : slice cells (place + (start + bytes.length)) (len - (start + bytes.length)) =
      held.drop (start + bytes.length) := by
    by_cases inside : start + bytes.length ≤ len
    · rw [slice_sub same (by omega)]
      refine List.take_of_length_le ?_
      rw [← same]
      simp
    · have none_ : len - (start + bytes.length) = 0 := by omega
      rw [none_, slice_zero, List.drop_eq_nil_of_le (by rw [← same, slice_length]; omega)]
  rw [front, back]

end Kido.Shared
