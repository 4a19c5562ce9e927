import Mathlib.Order.Basic
import Mathlib.Data.List.Basic
import Mathlib.Data.List.Pairwise
import Mathlib.Algebra.Order.Ring.Nat

set_option autoImplicit false

namespace Kido.Shared

universe u v w

variable {κ : Type u} {β : Type v} [LinearOrder κ]

@[grind =]
def insertEntry (key : κ) (value : β) : List (κ × β) → List (κ × β)
  | [] => [(key, value)]
  | entry :: rest =>
    if key < entry.1 then (key, value) :: entry :: rest
    else if key = entry.1 then (key, value) :: rest
    else entry :: insertEntry key value rest

theorem mem_insertEntry_key (key : κ) (value : β) (entries : List (κ × β)) (found : κ)
    (member : found ∈ (insertEntry key value entries).map Prod.fst) :
    found = key ∨ found ∈ entries.map Prod.fst := by
  induction entries with
  | nil => simpa [insertEntry] using member
  | cons entry rest ih =>
    by_cases below : key < entry.1
    · simpa [insertEntry, below] using member
    · by_cases same : key = entry.1
      · right
        simpa [insertEntry, same] using member
      · simp only [insertEntry, below, same, if_false, List.map_cons, List.mem_cons] at member ⊢
        rcases member with head | tail
        · exact .inr (.inl head)
        · rcases ih tail with equal | old
          · exact .inl equal
          · exact .inr (.inr old)

theorem insertEntry_sorted (key : κ) (value : β) (entries : List (κ × β))
    (sorted : (entries.map Prod.fst).Pairwise (· < ·)) :
    ((insertEntry key value entries).map Prod.fst).Pairwise (· < ·) := by
  induction entries with
  | nil => simp [insertEntry]
  | cons entry rest ih =>
    have split := List.pairwise_cons.mp sorted
    by_cases below : key < entry.1
    · simp only [insertEntry, below, if_true, List.map_cons, List.pairwise_cons]
      refine ⟨?_, by simpa using sorted⟩
      intro other member
      rcases List.mem_cons.mp member with head | tail
      · rwa [head]
      · exact below.trans (split.1 other tail)
    · by_cases same : key = entry.1
      · simpa [insertEntry, below, same] using sorted
      · simp only [insertEntry, below, same, if_false, List.map_cons, List.pairwise_cons]
        refine ⟨?_, ih split.2⟩
        intro other member
        rcases mem_insertEntry_key key value rest other member with equal | old
        · rw [equal]
          exact lt_of_le_of_ne (not_lt.mp below) (Ne.symm same)
        · exact split.1 other old

theorem insertEntry_last (key : κ) (value : β) (entries : List (κ × β))
    (above : ∀ other ∈ entries.map Prod.fst, other < key) :
    insertEntry key value entries = entries ++ [(key, value)] := by
  induction entries with
  | nil => rfl
  | cons entry rest ih =>
    have head := above entry.1 (by simp)
    have tail := ih fun other member => above other (by simp [member])
    simp [insertEntry, not_lt.mpr head.le, head.ne', tail]

theorem mem_insertEntry (key : κ) (value : β) (entries : List (κ × β)) (found : κ × β)
    (member : found ∈ insertEntry key value entries) : found = (key, value) ∨ found ∈ entries := by
  induction entries with
  | nil => simpa [insertEntry] using member
  | cons entry rest ih =>
    by_cases below : key < entry.1
    · simpa [insertEntry, below] using member
    · by_cases same : key = entry.1
      · rw [insertEntry, if_neg below, if_pos same, List.mem_cons] at member
        rcases member with head | tail
        · exact .inl head
        · exact .inr (by simp [tail])
      · rw [insertEntry, if_neg below, if_neg same, List.mem_cons] at member
        rcases member with head | tail
        · exact .inr (by simp [head])
        · rcases ih tail with new | old
          · exact .inl new
          · exact .inr (by simp [old])

theorem find?_insertEntry (key : κ) (value : β) (entries : List (κ × β)) (other : κ)
    (sorted : (entries.map Prod.fst).Pairwise (· < ·)) :
    (insertEntry key value entries).find? (fun entry => decide (entry.1 = other)) =
      if key = other then some (key, value) else entries.find? fun entry => decide (entry.1 = other) := by
  induction entries with
  | nil => by_cases same : key = other <;> simp [insertEntry, same]
  | cons entry rest ih =>
    have split := List.pairwise_cons.mp sorted
    by_cases below : key < entry.1
    · rw [insertEntry, if_pos below]
      by_cases same : key = other <;> simp [same]
    · by_cases equal : key = entry.1
      · rw [insertEntry, if_neg below, if_pos equal]
        by_cases same : key = other
        · simp [same]
        · rw [if_neg same, List.find?_cons_of_neg (by simpa using same),
            List.find?_cons_of_neg (by simpa using equal ▸ same)]
      · rw [insertEntry, if_neg below, if_neg equal]
        by_cases here : entry.1 = other
        · rw [List.find?_cons_of_pos (by simpa using here), List.find?_cons_of_pos (by simpa using here),
            if_neg (by rw [← here]; exact equal)]
        · rw [List.find?_cons_of_neg (by simpa using here), List.find?_cons_of_neg (by simpa using here), ih split.2]

theorem insertEntry_sum (weight : κ × β → Nat) (key : κ) (value : β) (entries : List (κ × β))
    (sorted : (entries.map Prod.fst).Pairwise (· < ·)) :
    ((insertEntry key value entries).map weight).sum +
        ((entries.find? fun entry => decide (entry.1 = key)).map weight).getD 0 =
      (entries.map weight).sum + weight (key, value) := by
  induction entries with
  | nil => simp [insertEntry]
  | cons entry rest ih =>
    have split := List.pairwise_cons.mp sorted
    by_cases below : key < entry.1
    · have missing : rest.find? (fun entry => decide (entry.1 = key)) = none := by
        rw [List.find?_eq_none]
        intro other member
        have above := split.1 other.1 (List.mem_map_of_mem member)
        simpa using (below.trans above).ne'
      simp only [insertEntry, below, if_true, List.map_cons, List.sum_cons, List.find?_cons, below.ne',
        decide_false, missing, Option.map_none, Option.getD_none]
      omega
    · by_cases same : key = entry.1
      · subst key
        simp only [insertEntry, lt_self_iff_false, if_false, if_true, List.map_cons, List.sum_cons,
          List.find?_cons, decide_true, Option.map_some, Option.getD_some]
        omega
      · have tail := ih split.2
        simp only [insertEntry, below, same, if_false, List.map_cons, List.sum_cons, List.find?_cons,
          Ne.symm same, decide_false]
        omega

structure SortedMap (κ : Type u) (β : Type v) [LinearOrder κ] where
  entries : List (κ × β)
  sorted : (entries.map Prod.fst).Pairwise (· < ·)

namespace SortedMap

@[ext]
theorem ext {left right : SortedMap κ β} (same : left.entries = right.entries) : left = right := by
  cases left
  cases right
  simpa using same

instance [DecidableEq β] : DecidableEq (SortedMap κ β) := fun left right =>
  decidable_of_iff (left.entries = right.entries) ⟨ext, fun same => same ▸ rfl⟩

def empty : SortedMap κ β := ⟨[], List.Pairwise.nil⟩

def insert (map : SortedMap κ β) (key : κ) (value : β) : SortedMap κ β :=
  ⟨insertEntry key value map.entries, insertEntry_sorted key value map.entries map.sorted⟩

def find? (map : SortedMap κ β) (key : κ) : Option β :=
  (map.entries.find? fun entry => decide (entry.1 = key)).map Prod.snd

def erase (map : SortedMap κ β) (key : κ) : SortedMap κ β where
  entries := map.entries.filter fun entry => decide (entry.1 ≠ key)
  sorted := map.sorted.sublist (List.filter_sublist.map Prod.fst)

def size (map : SortedMap κ β) : Nat := map.entries.length

theorem find?_mem (map : SortedMap κ β) (key : κ) (value : β) (found : map.find? key = some value) :
    (key, value) ∈ map.entries := by
  obtain ⟨entry, first, rfl⟩ := Option.map_eq_some_iff.mp found
  have same : entry.1 = key := by simpa using List.find?_some first
  exact same ▸ List.mem_of_find?_eq_some first

theorem sum_insert (map : SortedMap κ β) (weight : κ × β → Nat) (key : κ) (value : β) :
    ((map.insert key value).entries.map weight).sum +
        ((map.find? key).map fun old => weight (key, old)).getD 0 =
      (map.entries.map weight).sum + weight (key, value) := by
  have moved := insertEntry_sum weight key value map.entries map.sorted
  have old : (map.find? key).map (fun old => weight (key, old)) =
      (map.entries.find? fun entry => decide (entry.1 = key)).map weight := by
    cases first : map.entries.find? fun entry => decide (entry.1 = key) with
    | none => simp [find?, first]
    | some entry =>
      have same : entry.1 = key := by simpa using List.find?_some first
      rw [find?, first]
      simp [← same]
  rw [old]
  exact moved

theorem find?_insert (map : SortedMap κ β) (key : κ) (value : β) (other : κ) :
    (map.insert key value).find? other = if key = other then some value else map.find? other := by
  rw [find?, insert, find?_insertEntry key value map.entries other map.sorted]
  split <;> rfl

theorem find?_erase (map : SortedMap κ β) (key other : κ) :
    (map.erase key).find? other = if key = other then none else map.find? other := by
  rw [find?, erase, List.find?_filter]
  by_cases same : key = other
  · subst same
    rw [if_pos rfl, Option.map_eq_none_iff, List.find?_eq_none]
    intro entry member
    simp
  · rw [if_neg same, find?]
    congr 1
    refine congrArg (List.find? · map.entries) (funext fun entry => ?_)
    by_cases here : entry.1 = other
    · simp [here, Ne.symm same]
    · simp [here]

@[simp]
theorem find?_empty (key : κ) : (empty : SortedMap κ β).find? key = none := rfl

theorem filter_key (map : SortedMap κ β) (key : κ) :
    map.entries.filter (fun entry => decide (entry.1 = key)) = (map.find? key).toList.map fun value => (key, value) := by
  have sorted := map.sorted
  simp only [find?]
  generalize map.entries = entries at sorted
  induction entries with
  | nil => rfl
  | cons entry rest ih =>
    have split := List.pairwise_cons.mp sorted
    by_cases same : entry.1 = key
    · have others : rest.filter (fun entry => decide (entry.1 = key)) = [] := by
        rw [List.filter_eq_nil_iff]
        intro other member
        have above := split.1 other.1 (List.mem_map_of_mem member)
        rw [same] at above
        simpa using above.ne'
      rw [List.filter_cons_of_pos (by simpa using same), others, List.find?_cons_of_pos (by simpa using same)]
      simp [← same]
    · rw [List.filter_cons_of_neg (by simpa using same), List.find?_cons_of_neg (by simpa using same)]
      exact ih split.2

theorem mem_iff (map : SortedMap κ β) {key : κ} {value : β} : (key, value) ∈ map.entries ↔ map.find? key = some value := by
  refine ⟨fun inside => ?_, map.find?_mem key value⟩
  have here : (key, value) ∈ map.entries.filter fun entry => decide (entry.1 = key) := List.mem_filter.2 ⟨inside, decide_eq_true rfl⟩
  rw [map.filter_key key] at here
  obtain ⟨held, found, same⟩ := List.mem_map.1 here
  rw [Option.mem_toList] at found
  cases same
  exact found

theorem sum_erase (map : SortedMap κ β) (weight : κ × β → Nat) (key : κ) :
    ((map.erase key).entries.map weight).sum + ((map.find? key).map fun old => weight (key, old)).getD 0 =
      (map.entries.map weight).sum := by
  have sorted := map.sorted
  simp only [erase, find?]
  generalize map.entries = entries at sorted
  induction entries with
  | nil => rfl
  | cons entry rest ih =>
    have split := List.pairwise_cons.mp sorted
    by_cases same : entry.1 = key
    · have others : rest.filter (fun entry => decide (entry.1 ≠ key)) = rest := by
        rw [List.filter_eq_self]
        intro other member
        have above := split.1 other.1 (List.mem_map_of_mem member)
        rw [same] at above
        simpa using above.ne'
      rw [List.filter_cons_of_neg (by simpa using same), others, List.find?_cons_of_pos (by simpa using same)]
      simp only [Option.map_some, Option.getD_some, List.map_cons, List.sum_cons, ← same]
      exact Nat.add_comm _ _
    · have rest := ih split.2
      rw [List.filter_cons_of_pos (by simpa using same), List.find?_cons_of_neg (by simpa using same), List.map_cons,
        List.sum_cons, List.map_cons, List.sum_cons]
      omega

@[simp]
theorem entries_empty : (empty : SortedMap κ β).entries = [] := rfl

theorem insert_last (map : SortedMap κ β) (key : κ) (value : β)
    (above : ∀ other ∈ map.entries.map Prod.fst, other < key) :
    (map.insert key value).entries = map.entries ++ [(key, value)] :=
  insertEntry_last key value map.entries above

theorem find?_above (map : SortedMap κ β) (key : κ)
    (above : ∀ other ∈ map.entries.map Prod.fst, other < key) : map.find? key = none := by
  have missing : map.entries.find? (fun entry => decide (entry.1 = key)) = none := by
    rw [List.find?_eq_none]
    intro entry member
    have below := above entry.1 (List.mem_map_of_mem member)
    simpa using below.ne
  rw [find?, missing]
  rfl

end SortedMap

end Kido.Shared
