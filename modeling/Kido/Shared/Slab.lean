import Mathlib.Data.List.Nodup
import Mathlib.Data.UInt

set_option autoImplicit false

namespace Kido.Shared

structure Key where
  index : UInt32
  generation : UInt32
deriving DecidableEq

structure Slab (α : Type) where
  entries : List (UInt32 × Option α)
  -- The last freed is the first.
  free : List UInt32

namespace Slab

variable {α : Type}

def empty : Slab α := ⟨[], []⟩

def generationAt (slab : Slab α) (index : UInt32) : UInt32 := (slab.entries[index.toNat]?.map Prod.fst).getD 0

def key (slab : Slab α) (index : UInt32) : Key := ⟨index, slab.generationAt index⟩

def insert (slab : Slab α) (value : α) : Slab α × Key :=
  match slab.free with
  | index :: free => (⟨slab.entries.modify index.toNat fun entry => (entry.1, some value), free⟩, slab.key index)
  | [] =>
    -- The index of an entry behind all that can be named is the last one.
    let index := UInt32.ofNat (min slab.entries.length (2 ^ 32 - 1))
    (⟨slab.entries ++ [(0, some value)], []⟩, ⟨index, 0⟩)

def get (slab : Slab α) (key : Key) : Option α :=
  match slab.entries[key.index.toNat]? with
  | some (generation, some value) => if generation = key.generation then some value else none
  | _ => none

def update (slab : Slab α) (key : Key) (change : α → α) : Slab α :=
  match slab.get key with
  | some _ => { slab with entries := slab.entries.modify key.index.toNat fun entry => (entry.1, entry.2.map change) }
  | none => slab

def remove (slab : Slab α) (key : Key) : Slab α :=
  match slab.get key with
  | some _ => ⟨slab.entries.modify key.index.toNat fun entry => (entry.1 + 1, none), key.index :: slab.free⟩
  | none => slab

-- The free slots are those that hold nothing, each once.
structure Whole (slab : Slab α) : Prop where
  once : slab.free.Nodup
  vacant : ∀ index : UInt32, index ∈ slab.free ↔ ∃ generation, slab.entries[index.toNat]? = some (generation, none)

theorem whole_empty : (empty : Slab α).Whole := ⟨List.nodup_nil, fun index => by simp [empty]⟩

theorem get_some {slab : Slab α} {key : Key} {value : α} :
    slab.get key = some value ↔ slab.entries[key.index.toNat]? = some (key.generation, some value) := by
  unfold get
  split
  next generation other found =>
    rw [found]
    split
    next same => simp [same]
    next other => simp [other]
  next none_ =>
    constructor
    · intro found
      cases found
    · intro found
      exact absurd found (none_ _ _)

theorem get_none {slab : Slab α} {key : Key} :
    slab.get key = none ↔ ∀ value, slab.entries[key.index.toNat]? ≠ some (key.generation, some value) := by
  simp only [← get_some, ne_eq, Option.eq_none_iff_forall_ne_some]

theorem generation_get {slab : Slab α} {key : Key} {value : α} (found : slab.get key = some value) :
    slab.generationAt key.index = key.generation := by
  rw [generationAt, get_some.1 found]
  rfl

-- A key that names a value is the key of its slot.
theorem key_get {slab : Slab α} {key : Key} {value : α} (found : slab.get key = some value) : slab.key key.index = key := by
  rw [Slab.key, generation_get found]

theorem get_same_index {slab : Slab α} {first second : Key} {one other : α} (found : slab.get first = some one)
    (also_ : slab.get second = some other) (same : first.index = second.index) : first = second := by
  rw [← key_get found, ← key_get also_, same]

-- Whether there is a slot for one more value that a key can name.
def Room (slab : Slab α) : Prop := slab.free ≠ [] ∨ slab.entries.length < 2 ^ 32

theorem insert_fresh {slab : Slab α} (whole : slab.Whole) (room : slab.Room) (value : α) :
    slab.get (slab.insert value).2 = none := by
  rw [get_none]
  intro other
  unfold insert
  split
  next index free is =>
    obtain ⟨generation, vacant⟩ := (whole.vacant index).1 (is ▸ .head _)
    simp [Slab.key, vacant]
  next is =>
    have small := room.resolve_left (not_not.2 is)
    simp only
    rw [UInt32.toNat_ofNat', Nat.mod_eq_of_lt (by omega), List.getElem?_eq_none (by omega)]
    exact nofun

-- What stands in a slot after one slot was changed.
theorem modify_entry (entries : List (UInt32 × Option α)) (at_ index : UInt32) (change : UInt32 × Option α → UInt32 × Option α) :
    (entries.modify at_.toNat change)[index.toNat]? = if at_ = index then entries[index.toNat]?.map change else entries[index.toNat]? := by
  rw [List.getElem?_modify]
  by_cases same : at_ = index
  · simp [same]
  · have apart : at_.toNat ≠ index.toNat := fun equal => same (UInt32.toNat_inj.1 equal)
    simp [same, apart]

theorem get_insert {slab : Slab α} (whole : slab.Whole) (room : slab.Room) (value : α) (key : Key) :
    (slab.insert value).1.get key = if key = (slab.insert value).2 then some value else slab.get key := by
  apply Option.ext
  intro other
  rw [get_some]
  unfold insert
  split
  next index free is =>
    obtain ⟨generation, vacant⟩ := (whole.vacant index).1 (is ▸ .head _)
    have own : slab.generationAt index = generation := by simp [generationAt, vacant]
    simp only [modify_entry]
    by_cases same : index = key.index
    · subst same
      rw [if_pos rfl, vacant, Option.map_some]
      by_cases current : key = slab.key key.index
      · rw [if_pos current]
        have generations : key.generation = generation := by rw [current, Slab.key, own]
        simp [generations]
      · rw [if_neg current, get_some, vacant]
        have apart : generation ≠ key.generation := fun equal => current (by rw [Slab.key, own, equal])
        simp [apart]
    · rw [if_neg same, if_neg (fun equal => same (by rw [equal]; rfl)), get_some]
  next is =>
    have small := room.resolve_left (not_not.2 is)
    have index : (UInt32.ofNat (min slab.entries.length (2 ^ 32 - 1))).toNat = slab.entries.length := by
      rw [UInt32.toNat_ofNat', Nat.mod_eq_of_lt (by omega)]
      omega
    by_cases new : key.index = UInt32.ofNat (min slab.entries.length (2 ^ 32 - 1))
    · have behind : key.index.toNat = slab.entries.length := by rw [new, index]
      have nothing : slab.get key = none := by
        rw [get_none, behind, List.getElem?_eq_none (Nat.le_refl _)]
        exact fun _ => nofun
      rw [nothing, behind, List.getElem?_concat_length]
      by_cases zero : key.generation = 0
      · rw [if_pos (by cases key; simp_all), zero]
        simp
      · rw [if_neg (fun equal => zero (by rw [equal]))]
        simp [Ne.symm zero]
    · rw [if_neg (fun equal => new (by rw [equal])), get_some]
      have apart : key.index.toNat ≠ slab.entries.length := fun equal => new (UInt32.toNat_inj.1 (equal.trans index.symm))
      by_cases inside : key.index.toNat < slab.entries.length
      · rw [List.getElem?_append_left inside]
      · rw [List.getElem?_eq_none (by simp; omega), List.getElem?_eq_none (by omega)]

theorem insert_full {slab : Slab α} (full : ¬ slab.Room) (value : α) (key : Key) :
    (slab.insert value).1.get key = slab.get key := by
  rw [Room, not_or, not_not, not_lt] at full
  have inside : key.index.toNat < slab.entries.length := Nat.lt_of_lt_of_le key.index.toNat_lt full.2
  apply Option.ext
  intro other
  rw [get_some, get_some]
  unfold insert
  rw [full.1]
  simp only
  rw [List.getElem?_append_left inside]

theorem get_update (slab : Slab α) (at_ : Key) (change : α → α) (key : Key) :
    (slab.update at_ change).get key = if key = at_ then (slab.get key).map change else slab.get key := by
  unfold update
  split
  next value found =>
    apply Option.ext
    intro other
    rw [get_some, modify_entry]
    by_cases same : at_.index = key.index
    · have entry := get_some.1 found
      rw [same] at entry
      rw [if_pos same, entry, Option.map_some]
      by_cases equal : key = at_
      · subst equal
        rw [if_pos rfl, found]
        simp
      · have apart : at_.generation ≠ key.generation := fun generations => equal (by cases key; cases at_; simp_all)
        rw [if_neg equal, get_some, entry]
        simp [apart]
    · rw [if_neg same, if_neg (fun equal => same (by rw [equal])), get_some]
  next found =>
    by_cases equal : key = at_
    · rw [if_pos equal, equal, found]
      rfl
    · rw [if_neg equal]

theorem get_remove (slab : Slab α) (at_ key : Key) : (slab.remove at_).get key = if key = at_ then none else slab.get key := by
  unfold remove
  split
  next value found =>
    apply Option.ext
    intro other
    rw [get_some, modify_entry]
    by_cases same : at_.index = key.index
    · have entry := get_some.1 found
      rw [same] at entry
      rw [if_pos same, entry, Option.map_some]
      by_cases equal : key = at_
      · rw [if_pos equal]
        simp
      · have apart : at_.generation ≠ key.generation := fun generations => equal (by cases key; cases at_; simp_all)
        rw [if_neg equal, get_some, entry]
        simp [apart]
    · rw [if_neg same, if_neg (fun equal => same (by rw [equal])), get_some]
  next found =>
    by_cases equal : key = at_
    · rw [if_pos equal, equal, found]
    · rw [if_neg equal]

theorem insert_whole {slab : Slab α} (whole : slab.Whole) (value : α) : (slab.insert value).1.Whole := by
  unfold insert
  split
  next index free is =>
    have once := is ▸ whole.once
    obtain ⟨fresh, rest⟩ := List.nodup_cons.1 once
    refine ⟨rest, fun other => ?_⟩
    have vacant := whole.vacant other
    rw [is, List.mem_cons] at vacant
    rw [modify_entry]
    by_cases same : index = other
    · subst same
      rw [if_pos rfl]
      constructor
      · intro member
        exact absurd member fresh
      · rintro ⟨generation, found⟩
        simp at found
    · rw [if_neg same, ← vacant]
      simp [Ne.symm same]
  next is =>
    refine ⟨List.nodup_nil, fun other => ?_⟩
    have vacant := whole.vacant other
    rw [is] at vacant
    simp only [List.not_mem_nil, false_iff, not_exists] at vacant ⊢
    intro generation found
    by_cases inside : other.toNat < slab.entries.length
    · rw [List.getElem?_append_left inside] at found
      exact vacant generation found
    · rw [List.getElem?_append_right (by omega)] at found
      by_cases last : other.toNat - slab.entries.length = 0
      · rw [last] at found
        simp at found
      · rw [List.getElem?_eq_none (by simp; omega)] at found
        cases found

theorem update_whole {slab : Slab α} (whole : slab.Whole) (at_ : Key) (change : α → α) : (slab.update at_ change).Whole := by
  unfold update
  split
  next value found =>
    refine ⟨whole.once, fun other => ?_⟩
    rw [modify_entry]
    by_cases same : at_.index = other
    · have entry := get_some.1 found
      rw [same] at entry
      rw [if_pos same, whole.vacant, entry]
      simp
    · rw [if_neg same, whole.vacant]
  next => exact whole

theorem remove_whole {slab : Slab α} (whole : slab.Whole) (at_ : Key) : (slab.remove at_).Whole := by
  unfold remove
  split
  next value found =>
    have entry := get_some.1 found
    have taken : at_.index ∉ slab.free := by
      rw [whole.vacant, entry]
      simp
    refine ⟨List.nodup_cons.2 ⟨taken, whole.once⟩, fun other => ?_⟩
    rw [List.mem_cons, modify_entry, whole.vacant]
    by_cases same : at_.index = other
    · subst same
      simp [entry]
    · simp [same, Ne.symm same]
  next => exact whole

section Generation

-- A slot keeps its generation until its value is removed.
theorem generation_insert {slab : Slab α} (value : α) {index : UInt32} (inside : index.toNat < slab.entries.length) :
    (slab.insert value).1.generationAt index = slab.generationAt index ∧ slab.entries.length ≤ (slab.insert value).1.entries.length := by
  unfold insert
  split
  next at_ free is =>
    unfold generationAt
    rw [modify_entry, List.length_modify]
    refine ⟨?_, Nat.le_refl _⟩
    split
    · rw [Option.map_map]
      rfl
    · rfl
  next is =>
    unfold generationAt
    simp only
    rw [List.getElem?_append_left inside, List.length_append]
    exact ⟨rfl, Nat.le_add_right _ _⟩

theorem generation_update (slab : Slab α) (at_ : Key) (change : α → α) (index : UInt32) :
    (slab.update at_ change).generationAt index = slab.generationAt index ∧
      (slab.update at_ change).entries.length = slab.entries.length := by
  unfold update
  split
  next =>
    unfold generationAt
    rw [modify_entry, List.length_modify]
    refine ⟨?_, rfl⟩
    split
    · rw [Option.map_map]
      rfl
    · rfl
  next => exact ⟨rfl, rfl⟩

theorem generation_remove (slab : Slab α) (at_ : Key) (index : UInt32) :
    (slab.remove at_).generationAt index =
        slab.generationAt index + (if at_.index = index ∧ (slab.get at_).isSome then 1 else 0) ∧
      (slab.remove at_).entries.length = slab.entries.length := by
  unfold remove
  split
  next value found =>
    unfold generationAt
    rw [modify_entry, List.length_modify, found]
    refine ⟨?_, rfl⟩
    by_cases same : at_.index = index
    · subst same
      rw [if_pos rfl, if_pos ⟨rfl, rfl⟩, get_some.1 found]
      rfl
    · rw [if_neg same, if_neg (fun both => same both.1), UInt32.add_zero]
  next found =>
    refine ⟨?_, rfl⟩
    rw [found, if_neg (fun both => by cases both.2), UInt32.add_zero]

theorem get_inside {slab : Slab α} {key : Key} {value : α} (found : slab.get key = some value) :
    key.index.toNat < slab.entries.length := (List.getElem?_eq_some_iff.1 (get_some.1 found)).1

end Generation

end Slab

end Kido.Shared
