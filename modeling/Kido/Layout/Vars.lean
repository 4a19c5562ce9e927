import Kido.Layout.Ids
import Kido.Shared.SortedMap
import Mathlib.Algebra.Order.BigOperators.Group.List
import Mathlib.Algebra.Group.Action.Defs
import Mathlib.Algebra.Order.Ring.Nat

set_option autoImplicit false

namespace Kido.Tiling

open Kido.Shared

structure Value where
  text : String
deriving DecidableEq

def Value.size (value : Value) : Nat := value.text.utf8ByteSize

abbrev Loose := SortedMap String Value

inductive Refusal where
  | valueTooLarge
  | totalTooLarge
  | tooManyNames
  | serverTotalTooLarge
deriving DecidableEq, Repr

def Refusal.text : Refusal → String
  | .valueTooLarge => "variable too large"
  | .totalTooLarge => "variables too large"
  | .tooManyNames => "too many variables"
  | .serverTotalTooLarge => "variables of the server too large"

def maxValue : Nat := 2 ^ 20 - 4096

def maxTotal : Nat := 8 * 2 ^ 20

def maxNames : Nat := 1024

def weightOf (name : VarName) (value : Value) : Nat := name.text.utf8ByteSize + value.size

structure Vars where
  map : SortedMap VarName (Value × Nat)
  bytes : Nat
  weights : ∀ entry ∈ map.entries, entry.2.2 = weightOf entry.1 entry.2.1 ∧ entry.2.1.size ≤ maxValue
  total : bytes = (map.entries.map fun entry => entry.2.2).sum
  names : map.size ≤ maxNames
  bound : bytes ≤ maxTotal

namespace Vars

@[ext]
theorem ext {left right : Vars} (same : left.map = right.map) : left = right := by
  have bytes : left.bytes = right.bytes := by rw [left.total, right.total, same]
  cases left
  cases right
  simp_all

instance : DecidableEq Vars := fun left right =>
  decidable_of_iff (left.map = right.map) ⟨ext, fun same => same ▸ rfl⟩

def empty : Vars where
  map := .empty
  bytes := 0
  weights := by simp
  total := by simp
  names := by simp [SortedMap.size]
  bound := Nat.zero_le _

section Insert

variable (vars : Vars) (name : VarName) (value : Value)

def oldWeight : Nat := ((vars.map.find? name).map Prod.snd).getD 0

theorem oldWeight_le : vars.oldWeight name ≤ vars.bytes := by
  rw [oldWeight, vars.total]
  cases found : vars.map.find? name with
  | none => simp
  | some old =>
    have member := vars.map.find?_mem name old found
    exact List.single_le_sum (fun _ _ => Nat.zero_le _) _
      (List.mem_map_of_mem (f := fun entry : VarName × Value × Nat => entry.2.2) member)

theorem total_insert :
    ((vars.map.insert name (value, weightOf name value)).entries.map fun entry => entry.2.2).sum =
      vars.bytes - vars.oldWeight name + weightOf name value := by
  have moved := vars.map.sum_insert (fun entry => entry.2.2) name (value, weightOf name value)
  have old : ((vars.map.find? name).map fun old => old.2).getD 0 = vars.oldWeight name := rfl
  have within := vars.oldWeight_le name
  rw [old, ← vars.total] at moved
  simp only at moved
  omega

theorem size_insert (room : vars.map.find? name ≠ none ∨ vars.map.size < maxNames) :
    (vars.map.insert name (value, weightOf name value)).size ≤ maxNames := by
  have counted := vars.map.sum_insert (fun _ => 1) name (value, weightOf name value)
  have names := vars.names
  simp only [List.map_const', List.sum_replicate, smul_eq_mul, mul_one] at counted
  cases found : vars.map.find? name with
  | none =>
    simp only [found, Option.map_none, Option.getD_none] at counted
    simp only [found, ne_eq, not_true, false_or, SortedMap.size] at room ⊢
    omega
  | some old =>
    simp only [found, Option.map_some, Option.getD_some] at counted
    simp only [SortedMap.size] at names ⊢
    omega

def inserted (small : value.size ≤ maxValue) (room : vars.map.find? name ≠ none ∨ vars.map.size < maxNames)
    (light : vars.bytes - vars.oldWeight name + weightOf name value ≤ maxTotal) : Vars where
  map := vars.map.insert name (value, weightOf name value)
  bytes := vars.bytes - vars.oldWeight name + weightOf name value
  weights := by
    intro entry member
    rcases mem_insertEntry _ _ _ _ member with new | old
    · rw [new]
      exact ⟨rfl, small⟩
    · exact vars.weights entry old
  total := (vars.total_insert name value).symm
  names := vars.size_insert name value room
  bound := light

end Insert

-- `set_within`, with no limit on the growth where `spare` is none.
def setWithin (vars : Vars) (name : VarName) (value : Value) (spare : Option Nat) :
    Except Refusal (Bool × Vars) :=
  if (vars.map.find? name).map Prod.fst = some value then .ok (false, vars)
  else if small : value.size ≤ maxValue then
    if room : vars.map.find? name ≠ none ∨ vars.map.size < maxNames then
      if light : vars.bytes - vars.oldWeight name + weightOf name value ≤ maxTotal then
        if spare.all fun spare =>
            decide (vars.bytes - vars.oldWeight name + weightOf name value - vars.bytes ≤ spare) then
          .ok (true, vars.inserted name value small room light)
        else .error .serverTotalTooLarge
      else .error .totalTooLarge
    else .error .tooManyNames
  else .error .valueTooLarge

def set (vars : Vars) (name : VarName) (value : Value) : Except Refusal (Bool × Vars) :=
  vars.setWithin name value none

theorem total_erase (vars : Vars) (name : VarName) :
    vars.bytes - vars.oldWeight name = ((vars.map.erase name).entries.map fun entry => entry.2.2).sum := by
  have left := vars.map.sum_erase (fun entry => entry.2.2) name
  have old : ((vars.map.find? name).map fun old => old.2).getD 0 = vars.oldWeight name := rfl
  rw [old, ← vars.total] at left
  omega

def removed (vars : Vars) (name : VarName) : Vars where
  map := vars.map.erase name
  bytes := vars.bytes - vars.oldWeight name
  weights := fun entry member => vars.weights entry (List.mem_of_mem_filter member)
  total := vars.total_erase name
  names := Nat.le_trans (List.length_filter_le _ _) vars.names
  bound := Nat.le_trans (Nat.sub_le _ _) vars.bound

def remove (vars : Vars) (name : VarName) : Bool × Vars :=
  match vars.map.find? name with
  | some _ => (true, vars.removed name)
  | none => (false, vars)

def setAll : List (VarName × Value) → Vars → Except Refusal Vars
  | [], vars => .ok vars
  | (name, value) :: rest, vars => do
    let (_, vars) ← vars.set name value
    setAll rest vars

def ofMap (map : SortedMap VarName Value) : Except Refusal Vars := setAll map.entries empty

def checkNames : List (String × Value) → SortedMap VarName Value → Except String (SortedMap VarName Value)
  | [], map => .ok map
  | (text, value) :: rest, map => do
    let name ← VarName.new text
    checkNames rest (map.insert name value)

def checked (loose : Loose) : Except String Vars := do
  let map ← checkNames loose.entries .empty
  (ofMap map).mapError Refusal.text

def loose (vars : Vars) : Loose where
  entries := vars.map.entries.map fun entry => (entry.1.text, entry.2.1)
  sorted := by
    have sorted := vars.map.sorted
    rw [List.pairwise_map] at sorted ⊢
    rw [List.pairwise_map]
    exact sorted

theorem checkNames_sorted (entries : List (VarName × Value)) (map : SortedMap VarName Value)
    (sorted : ((map.entries ++ entries).map Prod.fst).Pairwise (· < ·)) :
    ∃ result, checkNames (entries.map fun entry => (entry.1.text, entry.2)) map = .ok result ∧
      result.entries = map.entries ++ entries := by
  induction entries generalizing map with
  | nil => exact ⟨map, rfl, by simp⟩
  | cons entry rest ih =>
    have above : ∀ other ∈ map.entries.map Prod.fst, other < entry.1 := by
      rw [List.map_append, List.pairwise_append] at sorted
      intro other member
      exact sorted.2.2 other member entry.1 (by simp)
    have last := map.insert_last entry.1 entry.2 above
    obtain ⟨result, same, entries⟩ := ih (map.insert entry.1 entry.2) (by simpa [last] using sorted)
    refine ⟨result, ?_, by simpa [last] using entries⟩
    simp only [List.map_cons, checkNames, VarName.new_text]
    exact same

theorem set_last (vars : Vars) (name : VarName) (value : Value)
    (above : ∀ other ∈ vars.map.entries.map Prod.fst, other < name) (small : value.size ≤ maxValue)
    (room : vars.map.size < maxNames) (light : vars.bytes + weightOf name value ≤ maxTotal) :
    ∃ result, vars.set name value = .ok (true, result) ∧
      result.map.entries = vars.map.entries ++ [(name, (value, weightOf name value))] := by
  have missing := vars.map.find?_above name above
  have old : vars.oldWeight name = 0 := by simp [oldWeight, missing]
  refine ⟨vars.inserted name value small (.inr room) (by omega), ?_, ?_⟩
  · simp [set, setWithin, missing, old, small, room, light]
  · exact vars.map.insert_last name _ above

theorem setAll_sorted (target : Vars) (entries : List (VarName × (Value × Nat))) (vars : Vars)
    (same : target.map.entries = vars.map.entries ++ entries) :
    setAll (entries.map fun entry => (entry.1, entry.2.1)) vars = .ok target := by
  induction entries generalizing vars with
  | nil =>
    have equal : vars = target := by
      ext : 1
      exact SortedMap.ext (by simpa using same.symm)
    rw [List.map_nil, setAll, equal]
  | cons entry rest ih =>
    have sorted := target.map.sorted
    rw [same, List.map_append, List.pairwise_append] at sorted
    obtain ⟨weight, small⟩ := target.weights entry (by simp [same])
    have total := target.total
    have names := target.names
    have bound := target.bound
    rw [SortedMap.size, same] at names
    rw [same, List.map_append, List.sum_append, ← vars.total] at total
    simp only [List.map_cons, List.sum_cons, List.length_append, List.length_cons] at total names
    obtain ⟨result, step, entries⟩ := vars.set_last entry.1 entry.2.1
      (fun other member => sorted.2.2 other member entry.1 (by simp)) small
      (by rw [SortedMap.size]; omega) (by omega)
    have pair : (entry.1, (entry.2.1, weightOf entry.1 entry.2.1)) = entry := by rw [← weight]
    have next := ih result (by rw [same, entries, pair]; simp)
    simp only [List.map_cons, setAll, step]
    exact next

theorem checked_loose (vars : Vars) : checked vars.loose = .ok vars := by
  obtain ⟨map, names, entries⟩ := checkNames_sorted (vars.map.entries.map fun entry => (entry.1, entry.2.1)) .empty
    (by simpa [Function.comp_def] using vars.map.sorted)
  have same : (vars.map.entries.map fun entry => (entry.1, entry.2.1)).map (fun entry => (entry.1.text, entry.2)) =
      vars.loose.entries := by
    simp [loose, Function.comp_def]
  have set := setAll_sorted vars vars.map.entries empty rfl
  have plain : map.entries = vars.map.entries.map fun entry => (entry.1, entry.2.1) := by simpa using entries
  rw [checked, ← same, names]
  change (ofMap map).mapError Refusal.text = .ok vars
  rw [ofMap, plain, set]
  rfl

end Vars

end Kido.Tiling
