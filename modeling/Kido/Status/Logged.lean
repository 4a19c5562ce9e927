import Kido.Status.Records
import Mathlib.Data.List.TakeWhile
import Kido.Status.Stored

set_option autoImplicit false

namespace Kido.Statuses

-- An id is its own ancestor, and so is what stands before one of its slashes, and the root.
def Ancestor (ancestor id : String) : Prop :=
  ancestor = id ∨ ancestor = "" ∨ (ancestor.toList ++ ['/']) <+: id.toList

def IsApp (records : List ProgramRecord) (id : String) : Option String → Prop
  | none => ∀ ancestor, Ancestor ancestor id → (records.find? fun found => found.id = ancestor).bind ProgramRecord.app = none
  | some app => ∃ ancestor, Ancestor ancestor id ∧ (records.find? fun found => found.id = ancestor).bind ProgramRecord.app = some app ∧
    ∀ nearer, Ancestor nearer id → ancestor.length < nearer.length →
      (records.find? fun found => found.id = nearer).bind ProgramRecord.app = none

theorem parentId_cases (id : String) : ('/' ∉ id.toList ∧ parentId id = "") ∨
    ∃ tail, id.toList = (parentId id).toList ++ '/' :: tail ∧ '/' ∉ tail := by
  have split := List.takeWhile_append_dropWhile (p := (· ≠ '/')) (l := id.toList.reverse)
  have plain : '/' ∉ id.toList.reverse.takeWhile (· ≠ '/') := by
    intro here
    simpa using List.mem_takeWhile_imp here
  cases rest : id.toList.reverse.dropWhile (· ≠ '/') with
  | nil =>
    rw [rest, List.append_nil] at split
    rw [split, List.mem_reverse] at plain
    refine .inl ⟨plain, ?_⟩
    rw [parentId, rest]
    rfl
  | cons first front =>
    have slash : first = '/' := by
      have head := List.head?_dropWhile_not (· ≠ '/') id.toList.reverse
      rw [rest] at head
      simpa using head
    subst slash
    refine .inr ⟨(id.toList.reverse.takeWhile (· ≠ '/')).reverse, ?_, by rwa [List.mem_reverse]⟩
    rw [parentId, rest, String.toList_ofList, List.drop_one, List.tail_cons]
    have whole := congrArg List.reverse split
    rw [rest, List.reverse_append, List.reverse_cons, List.reverse_reverse, List.append_assoc] at whole
    exact whole.symm

theorem Ancestor.length_le {ancestor id : String} (isAncestor : Ancestor ancestor id) : ancestor.length ≤ id.length := by
  rcases isAncestor with rfl | rfl | before
  · exact le_rfl
  · exact Nat.zero_le _
  · have shorter := before.length_le
    rw [List.length_append, String.length_toList, String.length_toList] at shorter
    omega

theorem ancestor_iff {ancestor id : String} (some_ : id ≠ "") :
    Ancestor ancestor id ↔ ancestor = id ∨ Ancestor ancestor (parentId id) := by
  constructor
  · rintro (rfl | rfl | before)
    · exact .inl rfl
    · exact .inr (.inr (.inl rfl))
    · rcases parentId_cases id with ⟨plain, -⟩ | ⟨tail, split, plain⟩
      · exact absurd (before.subset (List.mem_append_right _ (List.mem_singleton_self _))) plain
      · right
        rw [split] at before
        rcases Nat.lt_trichotomy ancestor.toList.length (parentId id).toList.length with shorter | same | longer
        · refine .inr (.inr (List.prefix_of_prefix_length_le before (List.prefix_append _ _) ?_))
          rw [List.length_append, List.length_singleton]
          omega
        · have front := (List.prefix_append ancestor.toList ['/']).trans before
          have equal := List.prefix_of_prefix_length_le front (List.prefix_append (parentId id).toList ('/' :: tail)) same.le
          exact .inl (String.toList_inj.1 (equal.eq_of_length same))
        · exfalso
          -- The slash behind the ancestor would stand in the tail.
          obtain ⟨rest, whole⟩ := before
          have at_ := congrArg (fun chars => chars[ancestor.toList.length]?) whole
          simp only [List.append_assoc] at at_
          rw [List.getElem?_append_right le_rfl, Nat.sub_self, List.getElem?_append_right longer.le] at at_
          obtain ⟨gap, far⟩ : ∃ gap, ancestor.toList.length - (parentId id).toList.length = gap + 1 :=
            ⟨ancestor.toList.length - (parentId id).toList.length - 1, by omega⟩
          rw [far, List.getElem?_cons_succ] at at_
          exact plain (List.mem_of_getElem? at_.symm)
  · rintro (rfl | same | rfl | before)
    · exact .inl rfl
    · rcases parentId_cases id with ⟨-, empty⟩ | ⟨tail, split, -⟩
      · exact .inr (.inl (same.trans empty))
      · exact .inr (.inr ⟨tail, by rw [same, List.append_assoc, split]; rfl⟩)
    · exact .inr (.inl rfl)
    · rcases parentId_cases id with ⟨-, empty⟩ | ⟨tail, split, -⟩
      · rw [empty] at before
        exact absurd (List.prefix_nil.1 before) (by simp)
      · exact .inr (.inr (before.trans ⟨'/' :: tail, split.symm⟩))

theorem appFrom_isApp (records : List ProgramRecord) (id : String) : IsApp records id (appFrom records id) := by
  fun_induction appFrom records id with
  | case1 id app found => exact ⟨id, .inl rfl, found, fun nearer isAncestor longer => absurd isAncestor.length_le (by omega)⟩
  | case2 missing =>
    rintro ancestor (rfl | rfl | before)
    · exact missing
    · exact missing
    · exact absurd (List.prefix_nil.1 before) (by simp)
  | case3 id missing some_ ih =>
    cases result : appFrom records (parentId id) with
    | none =>
      rw [result] at ih
      intro ancestor isAncestor
      rcases (ancestor_iff some_).1 isAncestor with rfl | above
      · exact missing
      · exact ih ancestor above
    | some app =>
      rw [result] at ih
      obtain ⟨ancestor, above, found, nearest⟩ := ih
      refine ⟨ancestor, (ancestor_iff some_).2 (.inr above), found, ?_⟩
      intro nearer isAncestor longer
      rcases (ancestor_iff some_).1 isAncestor with rfl | below
      · exact missing
      · exact nearest nearer below longer

end Kido.Statuses

namespace Kido.Statuses

open Shared
open Kido.Tiling (u64Max)

namespace ProgramSet

variable {set : ProgramSet}

def Repeats (report : Record) (record : ProgramRecord) : Prop :=
  report.id = record.id ∧ report.state = record.state ∧ report.app = record.app ∧ report.title = record.title ∧ report.msg = record.msg

theorem Formed.repeats (formed : set.Formed) {report : Record} {record : ProgramRecord} (inside : record ∈ set.records)
    (repeats : Repeats report record) (now : Nat) : stamped report (some record) now = record := by
  obtain ⟨id, started, state, app, title, msg⟩ := record
  obtain ⟨rfl, rfl, rfl, rfl, rfl⟩ := repeats
  have starts := formed.starts _ inside
  by_cases isRoot : report.id = ""
  · have none_ := starts.2 isRoot
    simp only at none_
    simp [stamped, isRoot, none_]
  · obtain ⟨start, some_⟩ := Option.ne_none_iff_exists'.1 fun none_ => isRoot (starts.1 none_)
    simp only at some_
    simp [stamped, isRoot, some_]

theorem Formed.same (formed : set.Formed) {first second : ProgramRecord} (one : first ∈ set.records) (two : second ∈ set.records)
    (same : first.id = second.id) : first = second :=
  List.inj_on_of_nodup_map formed.unique one two same

theorem mem_ids {record : ProgramRecord} (inside : record ∈ set.records) : record.id ∈ set.ids := List.mem_map_of_mem inside

theorem Formed.unchanged (formed : set.Formed) {report : Record} {record : ProgramRecord} (inside : record ∈ set.records)
    (repeats : Repeats report record) (now : Nat) : set.store report now = (set, false) := by
  rcases store_cases formed report now with ⟨-, -, -, same⟩ | ⟨front, other, back, split, isId, differs, -⟩ | ⟨new, -⟩
  · exact same
  · have there : other ∈ set.records := by
      rw [split]
      exact List.mem_append_right _ List.mem_cons_self
    obtain rfl := formed.same there inside (isId.trans repeats.1)
    exact absurd (formed.repeats there repeats now).symm differs
  · exact absurd (repeats.1 ▸ mem_ids inside) new

theorem Formed.evicts (formed : set.Formed) {report : Record} (now : Nat) (full : set.records.length = maxRecords)
    (new : report.id ∉ set.ids) : ∃ evicted rest, set.records = evicted :: rest ∧
      (set.store report now).1.records = rest ++ [stamped report none now] := by
  rcases store_cases formed report now with ⟨record, inside, is, -⟩ | ⟨front, other, back, split, isId, -, -⟩ | ⟨-, same⟩
  · have here := mem_ids inside
    rw [is] at here
    exact absurd here new
  · refine absurd ?_ new
    rw [← isId, ids, split]
    exact List.mem_map_of_mem (List.mem_append_right _ List.mem_cons_self)
  · cases records : set.records with
    | nil =>
      rw [records] at full
      cases full
    | cons evicted rest =>
      refine ⟨evicted, rest, rfl, ?_⟩
      rw [same, changed, if_pos full.ge, records]
      rfl

theorem Formed.left (formed : set.Formed) (change : Change) {record : ProgramRecord} (inside : record ∈ (set.call change).1.records) :
    record ∈ set.records ∨ ∃ report now, change = .apply (.set report) now ∧ report.id = record.id ∧
      ((∃ stored ∈ set.records, stored.id = record.id ∧ record = stamped report (some stored) now) ∨
        (record.id ∉ set.ids ∧ record = stamped report none now)) := by
  rcases call_cases set change with ⟨report, now, rfl⟩ | ⟨-, keep, same⟩
  · rw [call, apply] at inside
    rcases store_cases formed report now with ⟨-, -, -, same⟩ | ⟨front, stored, back, split, isId, -, same⟩ | ⟨new, same⟩
    · rw [same] at inside
      exact .inl inside
    · rw [same] at inside
      have there : stored ∈ set.records := by
        rw [split]
        exact List.mem_append_right _ List.mem_cons_self
      rcases List.mem_append.1 inside with kept | last
      · left
        rw [split]
        exact ((List.Sublist.refl front).append (List.sublist_cons_self stored back)).subset kept
      · have is := List.mem_singleton.1 last
        exact .inr ⟨report, now, rfl, (congrArg ProgramRecord.id is).symm, .inl ⟨stored, there, isId.trans (congrArg ProgramRecord.id is).symm, is⟩⟩
    · rw [same] at inside
      rcases List.mem_append.1 inside with kept | last
      · left
        split_ifs at kept
        · exact List.mem_of_mem_drop kept
        · exact kept
      · have is := List.mem_singleton.1 last
        refine .inr ⟨report, now, rfl, (congrArg ProgramRecord.id is).symm, .inr ⟨?_, is⟩⟩
        rw [is]
        exact new
  · left
    rw [same] at inside
    rcases remove_cases set keep with ⟨same, -⟩ | ⟨same, -⟩
    · rw [same] at inside
      exact inside
    · rw [same] at inside
      exact List.mem_of_mem_filter inside

theorem Formed.started_kept (formed : set.Formed) (change : Change) {record after : ProgramRecord} (inside : record ∈ set.records)
    (left : after ∈ (set.call change).1.records) (same : after.id = record.id) : after.started = record.started := by
  rcases formed.left change left with kept | ⟨report, now, -, isId, ⟨stored, there, storedId, rfl⟩ | ⟨new, -⟩⟩
  · rw [formed.same kept inside same]
  · obtain rfl := formed.same there inside (storedId.trans same)
    have starts := formed.starts stored there
    by_cases isRoot : report.id = ""
    · rw [starts.2 (same.symm.trans isRoot)]
      simp [stamped, isRoot]
    · obtain ⟨start, some_⟩ := Option.ne_none_iff_exists'.1 fun none_ => isRoot (same.trans (starts.1 none_))
      simp [stamped, isRoot, some_]
  · exact absurd (same ▸ mem_ids inside) new

theorem Formed.started_new (formed : set.Formed) (change : Change) {after : ProgramRecord}
    (left : after ∈ (set.call change).1.records) (new : after.id ∉ set.ids) :
    ∃ report now, change = .apply (.set report) now ∧ report.id = after.id ∧
      after.started = if after.id = "" then none else some now := by
  rcases formed.left change left with kept | ⟨report, now, is, isId, ⟨stored, there, storedId, -⟩ | ⟨-, rfl⟩⟩
  · exact absurd (mem_ids kept) new
  · exact absurd (storedId ▸ mem_ids there) new
  · exact ⟨report, now, is, isId, by simp [stamped]⟩

end ProgramSet

-- The set, and the ids in the order in which their records were stored or changed.
structure Logged where
  set : ProgramSet
  used : List String

namespace Logged

def step (logged : Logged) (change : Change) : Logged where
  set := (logged.set.call change).1
  used := logged.used ++
    match change with
    | .apply (.set report) _ => bif (logged.set.call change).2 then [report.id] else []
    | .apply (.clear _) _ | .promptStart | .clear => []

def run (changes : List Change) : Logged := Shared.run step ⟨.new, []⟩ changes

structure Ordered (logged : Logged) : Prop where
  formed : logged.set.Formed
  ordered : logged.set.ids.Sublist logged.used.dedup

theorem Ordered.step {logged : Logged} (holds : logged.Ordered) (change : Change) : (logged.step change).Ordered := by
  refine ⟨holds.formed.called change, ?_⟩
  rcases ProgramSet.call_cases logged.set change with ⟨report, now, rfl⟩ | ⟨removes, keep, same⟩
  · simp only [Logged.step, ProgramSet.call, ProgramSet.apply]
    have used := used_last holds.ordered report.id
    rcases ProgramSet.store_cases holds.formed report now with ⟨-, -, -, same⟩ | ⟨front, stored, back, split, isId, -, same⟩ | ⟨new, same⟩
    · rw [same, cond_false, List.append_nil]
      exact holds.ordered
    · have unique := holds.formed.unique
      rw [ProgramSet.ids, split, List.map_append, List.map_cons, isId] at unique used
      have fresh := (List.nodup_middle.1 unique).notMem
      rw [← List.map_append] at fresh
      rw [same]
      simp only [ProgramSet.changed, cond_true, ProgramSet.ids, List.map_append, List.map_singleton, ProgramSet.stamped_id]
      rw [List.filter_append, List.filter_cons_of_neg (by simp), ← List.filter_append, ← List.map_append, List.filter_eq_self.2] at used
      · rwa [List.map_append] at used
      · intro id here
        rw [decide_eq_true_eq]
        rintro rfl
        exact fresh here
    · rw [List.filter_eq_self.2 (by
        intro id here
        rw [decide_eq_true_eq]
        rintro rfl
        exact new here)] at used
      rw [same]
      simp only [ProgramSet.changed, cond_true, ProgramSet.ids, List.map_append, List.map_singleton, ProgramSet.stamped_id]
      refine (List.Sublist.append ?_ (.refl _)).trans used
      split_ifs
      · exact (List.drop_sublist 1 _).map _
      · exact .refl _
  · have sub : (logged.set.call change).1.ids.Sublist logged.set.ids := by
      rw [same]
      rcases ProgramSet.remove_cases logged.set keep with ⟨same, -⟩ | ⟨same, -⟩
      · rw [same]
      · rw [same]
        exact List.filter_sublist.map _
    have unused : (logged.step change).used = logged.used := by
      cases change with
      | apply request now =>
        cases request with
        | set report => exact absurd rfl (removes report now)
        | clear _ => exact List.append_nil _
      | promptStart => exact List.append_nil _
      | clear => exact List.append_nil _
    rw [unused]
    exact sub.trans holds.ordered

theorem run_ordered (changes : List Change) : (run changes).Ordered :=
  run_invariant ⟨ProgramSet.new_formed, List.nil_sublist _⟩ (fun _ change holds => holds.step change) changes

theorem run_snoc (changes : List Change) (change : Change) : run (changes ++ [change]) = (run changes).step change :=
  Shared.run_snoc _ _ _ _

theorem started_stays (changes more : List Change) {record after : ProgramRecord} (inside : record ∈ (run changes).set.records)
    (stays : ∀ count ≤ more.length, record.id ∈ (run (changes ++ more.take count)).set.ids)
    (left : after ∈ (run (changes ++ more)).set.records) (same : after.id = record.id) : after.started = record.started := by
  induction more using List.reverseRecOn generalizing after with
  | nil =>
    rw [List.append_nil] at left
    rw [(run_ordered changes).formed.same left inside same]
  | append_singleton more change ih =>
    have earlier (count : Nat) (small : count ≤ more.length) : record.id ∈ (run (changes ++ more.take count)).set.ids := by
      have here := stays count (by rw [List.length_append]; omega)
      rwa [List.take_append_of_le_length small] at here
    have there := earlier more.length le_rfl
    rw [List.take_length] at there
    obtain ⟨before, was, isId⟩ := List.mem_map.1 there
    rw [← List.append_assoc, run_snoc] at left
    rw [(run_ordered _).formed.started_kept change was left (same.trans isId.symm)]
    exact ih earlier was isId

end Logged

-- What the set of records keeps over all calls.
theorem records_kept (changes : List Change) :
    let set := (Logged.run changes).set
    let used := (Logged.run changes).used
    (set.ids.Nodup ∧ set.records.length ≤ maxRecords) ∧
    (∀ change, ((set.call change).2 = true ↔ (set.call change).1.records ≠ set.records) ∧
      ((set.call change).2 = true → (set.call change).1.serial = min (set.serial + 1) u64Max) ∧
      ((set.call change).2 = false → (set.call change).1 = set)) ∧
    (∀ report now, ∀ record ∈ set.records, ProgramSet.Repeats report record → set.call (.apply (.set report) now) = (set, false)) ∧
    (∀ report now, set.records.length = maxRecords → report.id ∉ set.ids → ∃ evicted rest, set.records = evicted :: rest ∧
      (set.call (.apply (.set report) now)).1.records = rest ++ [ProgramSet.stamped report none now] ∧
      ∃ before later, used = before ++ evicted.id :: later ∧ evicted.id ∉ later ∧ ∀ other ∈ rest, other.id ∈ later) ∧
    (∀ change, ∀ after ∈ (set.call change).1.records, after.id ∉ set.ids → ∃ report now, change = .apply (.set report) now ∧
      report.id = after.id ∧ after.started = if after.id = "" then none else some now) ∧
    (∀ more, ∀ record ∈ set.records, (∀ count ≤ more.length, record.id ∈ (Logged.run (changes ++ more.take count)).set.ids) →
      ∀ after ∈ (Logged.run (changes ++ more)).set.records, after.id = record.id → after.started = record.started) ∧
    ∀ records record, IsApp records record.id (app records record) := by
  intro set used
  have ordered := Logged.run_ordered changes
  have formed : set.Formed := ordered.formed
  refine ⟨⟨formed.unique, formed.few⟩, ?_, fun report now record inside repeats => formed.unchanged inside repeats now, ?_,
    fun change after left new => formed.started_new change left new,
    fun more record inside stays after left same => Logged.started_stays changes more inside stays left same,
    fun records record => appFrom_isApp records record.id⟩
  · intro change
    rcases formed.told change with same | ⟨told, differs, serial⟩
    · simp [same]
    · simp [told, differs, serial]
  · intro report now full new
    obtain ⟨evicted, rest, records, after⟩ := formed.evicts now full new
    have recent : set.ids.Sublist used.dedup := ordered.ordered
    rw [ProgramSet.ids, records, List.map_cons] at recent
    obtain ⟨before, later, log, last, others⟩ := first_used recent
    exact ⟨evicted, rest, records, after, before, later, log, last, fun other here => others other.id (List.mem_map_of_mem here)⟩

def barely (id : String) : Change := .apply (.set ⟨id, .working (some 0), none, none, none⟩) 1

def blinks (count : Nat) : List Change := (List.replicate count [barely "job", .clear]).flatten

theorem blinks_set (count : Nat) : (Logged.run (blinks count)).set = ⟨min (2 * count) u64Max, []⟩ := by
  induction count with
  | zero => rfl
  | succ count ih =>
    have more : blinks (count + 1) = blinks count ++ [barely "job"] ++ [.clear] := by
      rw [blinks, List.replicate_succ', List.flatten_append, List.append_assoc]
      rfl
    rw [more, Logged.run_snoc, Logged.run_snoc]
    simp only [Logged.step, ih]
    show (⟨min (min (min (2 * count) u64Max + 1) u64Max + 1) u64Max, []⟩ : ProgramSet) = _
    congr 1
    omega

def many : List Change := (List.range 64).map fun index => barely (String.ofList (List.replicate (index + 1) 'a'))

-- A report of progress 0 alone counts as a change, and nothing that is published changes; the serial stays at the largest
-- number; and a record that made room for another starts again.
theorem calls_differ :
    ((ProgramSet.new.call (barely "job")).2 = true ∧
      (ProgramSet.new.call (barely "job")).1.published.records = ProgramSet.new.published.records) ∧
    (((Logged.run (blinks (2 ^ 63))).set.call (barely "job")).2 = true ∧
      ((Logged.run (blinks (2 ^ 63))).set.call (barely "job")).1.serial = (Logged.run (blinks (2 ^ 63))).set.serial) ∧
    ((Logged.run (many ++ [barely "job", .apply (.set ⟨"a", .idle, none, none, none⟩) 2])).set.records.find?
      fun record => record.id = "a").map ProgramRecord.started = some (some 2) := by
  refine ⟨⟨by decide, ?_⟩, ?_, by decide +kernel⟩
  · have kept : ((ProgramSet.new.call (barely "job")).1.records.filter fun record => !ProgramSet.hidden record) = [] := by decide
    simp only [ProgramSet.published, kept]
    rfl
  · rw [blinks_set, show min (2 * 2 ^ 63) u64Max = u64Max by decide]
    exact ⟨rfl, rfl⟩

end Kido.Statuses
