import Kido.Shared.Recency
import Kido.Shared.SwapRemove
import Kido.Status.Records

set_option autoImplicit false

namespace Kido.Statuses

open Shared
open Kido.Tiling (u64Max)

inductive Change where
  | apply (report : Report) (now : Nat)
  | promptStart
  | clear
deriving DecidableEq

namespace ProgramSet

def ids (set : ProgramSet) : List String := set.records.map ProgramRecord.id

def call (set : ProgramSet) : Change → ProgramSet × Bool
  | .apply report now => set.apply report now
  | .promptStart => set.promptStart
  | .clear => set.clear

-- Each id is there once, the records are few, and all but the root have a start.
structure Formed (set : ProgramSet) : Prop where
  unique : set.ids.Nodup
  few : set.records.length ≤ maxRecords
  starts : ∀ record ∈ set.records, record.started = none ↔ record.id = ""

theorem new_formed : new.Formed := ⟨List.nodup_nil, Nat.zero_le _, fun _ here => by cases here⟩

variable {set : ProgramSet}

theorem stamped_id (report : Record) (stored : Option ProgramRecord) (now : Nat) : (stamped report stored now).id = report.id := rfl

theorem stamped_starts (report : Record) (stored : Option ProgramRecord) (now : Nat) :
    (stamped report stored now).started = none ↔ (stamped report stored now).id = "" := by
  by_cases isRoot : report.id = "" <;> simp [stamped, isRoot]

theorem remove_cases (set : ProgramSet) (keep : ProgramRecord → Bool) :
    (set.remove keep = (set, false) ∧ set.records.filter keep = set.records) ∨
      (set.remove keep = set.changed (set.records.filter keep) ∧ (set.records.filter keep).length < set.records.length) := by
  rw [remove]
  by_cases shorter : (set.records.filter keep).length ≠ set.records.length
  · have bound := List.length_filter_le keep set.records
    rw [if_pos shorter]
    exact .inr ⟨rfl, by omega⟩
  · have same := List.Sublist.eq_of_length (List.filter_sublist (p := keep)) (not_not.1 shorter)
    rw [if_neg shorter]
    exact .inl ⟨by rw [same], same⟩

-- What `store` does: the report is stored as it is, or it takes the place of the stored record, or its id is new.
theorem store_cases (formed : set.Formed) (report : Record) (now : Nat) :
    (∃ record ∈ set.records, record = stamped report (some record) now ∧ set.store report now = (set, false)) ∨
    (∃ front record back, set.records = front ++ record :: back ∧ record.id = report.id ∧ record ≠ stamped report (some record) now ∧
      set.store report now = set.changed (front ++ back ++ [stamped report (some record) now])) ∨
    (report.id ∉ set.ids ∧ set.store report now =
      set.changed ((if maxRecords ≤ set.records.length then set.records.drop 1 else set.records) ++ [stamped report none now])) := by
  rw [store]
  cases stored : set.records.findIdx? fun record => record.id = report.id with
  | none =>
    have new : report.id ∉ set.ids := by
      intro here
      obtain ⟨record, inside, same⟩ := List.mem_map.1 here
      have other := List.findIdx?_eq_none_iff.1 stored record inside
      exact absurd same (by simpa using other)
    exact .inr (.inr ⟨new, rfl⟩)
  | some index =>
    obtain ⟨inside, holds, -⟩ := List.findIdx?_eq_some_iff_getElem.1 stored
    obtain ⟨front, back, split, place⟩ := getElem?_split (List.getElem?_eq_getElem inside)
    have here := List.getElem?_eq_getElem inside
    generalize set.records[index] = record at *
    simp only [Option.bind_some, here]
    by_cases same : record = stamped report (some record) now
    · rw [if_pos (congrArg some same)]
      exact .inl ⟨record, List.mem_of_getElem? here, same, rfl⟩
    · rw [if_neg fun equal => same (Option.some.inj equal)]
      have rest : set.records.eraseIdx index = front ++ back := by
        rw [split, ← place, List.eraseIdx_append_of_length_le le_rfl, Nat.sub_self, List.eraseIdx_cons_zero]
      have room : ¬maxRecords ≤ (front ++ back).length := by
        have few := formed.few
        rw [split] at few
        simp only [List.length_append, List.length_cons] at few ⊢
        omega
      refine .inr (.inl ⟨front, record, back, split, of_decide_eq_true holds, same, ?_⟩)
      rw [rest, if_neg room]

theorem call_cases (set : ProgramSet) (change : Change) :
    (∃ report now, change = .apply (.set report) now) ∨
      ((∀ report now, change ≠ .apply (.set report) now) ∧ ∃ keep, set.call change = set.remove keep) := by
  match change with
  | .apply (.set report) now => exact .inl ⟨report, now, rfl⟩
  | .apply (.clear id) now =>
    refine .inr ⟨fun _ _ other => (by cases other), ?_⟩
    rw [call, apply]
    by_cases all : id = ""
    · exact ⟨fun _ => false, if_pos all⟩
    · exact ⟨_, if_neg all⟩
  | .promptStart => exact .inr ⟨fun _ _ other => (by cases other), finalState, rfl⟩
  | .clear => exact .inr ⟨fun _ _ other => (by cases other), fun _ => false, rfl⟩

theorem Formed.push (formed : set.Formed) {kept : List ProgramRecord} (sub : kept.Sublist set.records) (room : kept.length < maxRecords)
    {record : ProgramRecord} (other : record.id ∉ kept.map ProgramRecord.id) (starts : record.started = none ↔ record.id = "") :
    (set.changed (kept ++ [record])).1.Formed where
  unique := by
    show ((kept ++ [record]).map ProgramRecord.id).Nodup
    rw [List.map_append, List.map_singleton]
    refine List.Nodup.append ((sub.map _).nodup formed.unique) (List.nodup_singleton _) ?_
    intro id first second
    rw [List.mem_singleton.1 second] at first
    exact other first
  few := by
    show (kept ++ [record]).length ≤ maxRecords
    rw [List.length_append, List.length_singleton]
    omega
  starts := by
    intro stored here
    rcases List.mem_append.1 here with kept_ | last
    · exact formed.starts stored (sub.subset kept_)
    · rw [List.mem_singleton.1 last]
      exact starts

theorem Formed.remove (formed : set.Formed) (keep : ProgramRecord → Bool) : (set.remove keep).1.Formed := by
  rcases remove_cases set keep with ⟨same, -⟩ | ⟨same, -⟩
  · rw [same]
    exact formed
  · rw [same]
    exact {
      unique := (List.filter_sublist.map _).nodup formed.unique
      few := List.filter_sublist.length_le.trans formed.few
      starts := fun record here => formed.starts record (List.mem_of_mem_filter here) }

theorem Formed.store (formed : set.Formed) (report : Record) (now : Nat) : (set.store report now).1.Formed := by
  rcases store_cases formed report now with ⟨record, -, -, same⟩ | ⟨front, record, back, split, isId, -, same⟩ | ⟨new, same⟩
  · rw [same]
    exact formed
  · rw [same]
    have sub : (front ++ back).Sublist set.records := by
      rw [split]
      exact (List.Sublist.refl front).append (List.sublist_cons_self record back)
    have few := formed.few
    have unique := formed.unique
    rw [ids, split, List.map_append, List.map_cons] at unique
    refine formed.push sub ?_ ?_ (stamped_starts report _ now)
    · rw [split] at few
      simp only [List.length_append, List.length_cons] at few ⊢
      omega
    · rw [stamped_id, ← isId, List.map_append]
      exact (List.nodup_middle.1 unique).notMem
  · rw [same]
    have few := formed.few
    refine formed.push ?_ ?_ ?_ (stamped_starts report none now)
    · split_ifs
      · exact List.drop_sublist 1 _
      · exact .refl _
    · split_ifs with full
      · rw [List.length_drop]
        have positive : 0 < maxRecords := by decide
        omega
      · omega
    · intro here
      refine new (List.Sublist.subset (List.Sublist.map ProgramRecord.id ?_) here)
      split_ifs
      · exact List.drop_sublist 1 _
      · exact .refl _

theorem Formed.called (formed : set.Formed) (change : Change) : (set.call change).1.Formed := by
  rcases call_cases set change with ⟨report, now, rfl⟩ | ⟨-, keep, same⟩
  · exact formed.store report now
  · rw [same]
    exact formed.remove keep

-- A call that returns false changes nothing, and one that returns true changes the records and counts the serial up.
theorem Formed.told (formed : set.Formed) (change : Change) :
    set.call change = (set, false) ∨ ((set.call change).2 = true ∧ (set.call change).1.records ≠ set.records ∧
      (set.call change).1.serial = min (set.serial + 1) u64Max) := by
  rcases call_cases set change with ⟨report, now, rfl⟩ | ⟨-, keep, same⟩
  · rcases store_cases formed report now with ⟨-, -, -, same⟩ | ⟨front, record, back, split, isId, differs, same⟩ | ⟨new, same⟩
    · exact .inl same
    · refine .inr ?_
      rw [call, apply, same]
      refine ⟨rfl, ?_, rfl⟩
      intro equal
      have here : stamped report (some record) now ∈ set.records := by
        rw [← equal]
        exact List.mem_append_right _ (List.mem_singleton_self _)
      have known : record ∈ set.records := by
        rw [split]
        exact List.mem_append_right _ List.mem_cons_self
      exact differs (List.inj_on_of_nodup_map formed.unique known here isId)
    · refine .inr ?_
      rw [call, apply, same]
      refine ⟨rfl, ?_, rfl⟩
      intro equal
      refine new (List.mem_map.2 ⟨stamped report none now, ?_, rfl⟩)
      rw [← equal]
      exact List.mem_append_right _ (List.mem_singleton_self _)
  · rw [same]
    rcases remove_cases set keep with ⟨same, -⟩ | ⟨same, shorter⟩
    · exact .inl same
    · refine .inr ?_
      rw [same]
      refine ⟨rfl, ?_, rfl⟩
      intro equal
      have short := congrArg List.length equal
      simp only [changed] at short
      omega

end ProgramSet

end Kido.Statuses
