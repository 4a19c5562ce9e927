import Mathlib.Data.List.Basic
import Mathlib.Algebra.Order.Ring.Nat

set_option autoImplicit false

namespace Kido.Shared

def u64 : Nat := 2 ^ 64

def checkedAdd (first second : Nat) : Option Nat := if first + second < u64 then some (first + second) else none

def checkedSub (first second : Nat) : Option Nat := if second ≤ first then some (first - second) else none

theorem checkedAdd_some {first second : Nat} (bound : first + second < u64) :
    checkedAdd first second = some (first + second) := if_pos bound

theorem checkedAdd_eq_some {first second sum : Nat} :
    checkedAdd first second = some sum ↔ first + second < u64 ∧ first + second = sum := by
  by_cases bound : first + second < u64 <;> simp [checkedAdd, bound]

theorem checkedSub_some {first second : Nat} (order : second ≤ first) :
    checkedSub first second = some (first - second) := if_pos order

def leBytes : Nat → Nat → List UInt8
  | 0, _ => []
  | count + 1, value => UInt8.ofNat value :: leBytes count (value / 256)

def ofLe : List UInt8 → Nat
  | [] => 0
  | byte :: rest => byte.toNat + 256 * ofLe rest

@[simp]
theorem leBytes_length (count value : Nat) : (leBytes count value).length = count := by
  induction count generalizing value with
  | zero => rfl
  | succ count ih => simp [leBytes, ih]

theorem ofLe_leBytes {count value : Nat} (bound : value < 256 ^ count) : ofLe (leBytes count value) = value := by
  induction count generalizing value with
  | zero =>
    rw [Nat.pow_zero] at bound
    rw [leBytes, ofLe]
    omega
  | succ count ih =>
    have rest : value / 256 < 256 ^ count := Nat.div_lt_of_lt_mul (by rwa [Nat.pow_succ, Nat.mul_comm] at bound)
    have byte : (UInt8.ofNat value).toNat = value % 256 := by simp
    rw [leBytes, ofLe, ih rest, byte]
    omega

end Kido.Shared
