import Kido.Shared.Run
import Kido.Sweep.Housed

set_option autoImplicit false

namespace Kido.Sweeping

open Kido.Shared Kido.Tiling Kido.Selecting
open Kido.Editing (Removed Verdict removed_ids)

def Frame.Quiet : Frame → Prop
  | .changed _ _ => True
  | .refocus => True
  | _ => False

-- A sweep is due by the time that the frame is done.
def Frame.Sweeps (layout : Layout) : Frame → Prop
  | .stopping _ _ _ => True
  | .retract panes _ => panes ≠ []
  | .sweep panes _ => ∃ id ∈ panes, id ∈ layout.panes
  | _ => False

def Handed (ids : Ids) (id : PaneId) : Prop := id.number < ids.pane.value ∨ ids.pane.value = u64Max

theorem Handed.grown {ids later : Ids} {id : PaneId} (handed : Handed ids id) (grown : ids.pane.value ≤ later.pane.value) : Handed later id := by
  have bound := later.pane.bound
  obtain low | last := handed
  · exact .inl (by omega)
  · exact .inr (by omega)

namespace World

variable (linger : Nat)

-- The pane is dead with the close mode `exit`; or no focused client shows it, and it is an orphan or its grace is over.
def Past (world : World) (pane : Pane) : Prop :=
  pane.exited = true ∨
    pane.id ∉ focusedPanes world.state ∧ (pane.orphan world.panes = true ∨ pane.lingered world.now linger = true)

-- The pane that a sweep is to delete next.
def turn (world : World) : Option PaneId :=
  match world.frames with
  | .sweep (id :: _) _ :: _ => if id ∈ world.state.document.layout.panes then some id else none
  | _ => none

def Fits (world : World) : Act → Prop
  | .next => ∀ id ∈ world.turn, id ∈ world.panes.map Pane.id → ∃ pane ∈ world.panes, pane.id = id ∧ world.Past linger pane
  | _ => True

def NoneLeft (world : World) : Prop :=
  world.frames = [] → world.due = false → (∀ time, world.timer = some time → world.now < time) →
    ∀ pane ∈ world.panes, pane.id ∈ world.state.document.layout.panes → ¬ world.Past linger pane

-- What a sweep deletes is not shown by a focused client, unless it is dead with the close mode `exit`.
def Careful (world : World) : Act → Prop
  | .put _ _ _ _ _ => world.state.document.ids.pane.value ≠ u64Max
  | .next => ∀ id ∈ world.turn, id ∈ focusedPanes world.state → ∃ pane ∈ world.panes, pane.id = id ∧ pane.exited = true
  | _ => True

instance (world : World) (act : Act) : Decidable (world.Careful act) := by
  cases act <;> unfold Careful <;> infer_instance

instance (world : World) (act : Act) : Decidable (world.Fits linger act) := by
  cases act <;> unfold Fits Past <;> infer_instance

-- No pane is left but for those that a client shows, and those whose grace ends at the timer or later.
def Calm (world : World) : Prop :=
  ∀ pane ∈ world.panes, pane.id ∈ world.state.document.layout.panes →
    pane.exited = false ∧ (pane.id ∉ world.shown → pane.orphan world.panes = false ∧
      ∀ since, pane.since = some since → pane.close = .onExit → ∃ time, world.timer = some time ∧ time ≤ since + linger)

def Over (world : World) (pane : Pane) : Prop :=
  pane.exited = true ∨ pane.orphan world.panes = true ∨ pane.lingered world.now linger = true

def Listed (world : World) (id : PaneId) : Prop :=
  Handed world.state.document.ids id ∧ (id ∈ world.panes.map Pane.id → ∃ pane ∈ world.panes, pane.id = id ∧ world.Over linger pane)

structure Safe (world : World) : Prop where
  formed : world.state.document.layout.WellFormed
  backs : ∀ panes before, .retract panes before ∈ world.frames → before.layout.WellFormed ∧ (panes = [] → world.due = true)
  told : .refocus ∈ world.frames ∨ ∀ id, id ∈ world.shown ↔ id ∈ focusedPanes world.state
  past : ∀ pane ∈ world.panes, ∀ since, pane.since = some since → since ≤ world.now
  known : ∀ pane ∈ world.panes, Handed world.state.document.ids pane.id ∧ ∀ parent ∈ pane.parent, Handed world.state.document.ids parent
  listed : ∀ panes next, .sweep panes next ∈ world.frames → ∀ id ∈ panes, world.Listed linger id

def Settled (world : World) : Prop :=
  world.due = true ∨ (∃ frame ∈ world.frames, frame.Sweeps world.state.document.layout) ∨
    ((∀ frame ∈ world.frames, frame.Quiet) ∧ world.Calm linger)

structure Sound (world : World) : Prop extends world.Safe linger where
  settled : world.Settled linger

variable {linger} {world : World}

theorem seen_panes : world.seen.map Seen.toPane = world.panes := by
  rw [World.seen, List.map_map]
  exact List.map_id _

theorem removable_iff {pane : Pane} : Seen.removable world.panes world.now linger ⟨pane, decide (pane.id ∈ focusedPanes world.state)⟩ = true ↔
    world.Past linger pane := by
  simp [Seen.removable, Past]

theorem swept_removed : (Sweeping.sweep world.seen world.now linger).removed =
    (world.panes.filter fun pane => Seen.removable world.panes world.now linger ⟨pane, decide (pane.id ∈ focusedPanes world.state)⟩).map Pane.id := by
  rw [Sweeping.sweep, seen_panes, World.seen, List.filter_map, List.map_map]
  rfl

theorem mem_swept {id : PaneId} : id ∈ (Sweeping.sweep world.seen world.now linger).removed ↔
    ∃ pane ∈ world.panes, pane.id = id ∧ world.Past linger pane := by
  rw [swept_removed, List.mem_map]
  constructor
  · rintro ⟨pane, member, same⟩
    obtain ⟨member, past⟩ := List.mem_filter.mp member
    exact ⟨pane, member, same, removable_iff.mp past⟩
  · rintro ⟨pane, member, same, past⟩
    exact ⟨pane, List.mem_filter.mpr ⟨member, removable_iff.mpr past⟩, same⟩

theorem age_some {pane : Pane} {since : Nat} (is : pane.since = some since) (close : pane.close = .onExit) (now : Nat) :
    pane.age now = some (now - since) := by
  simp [Pane.age, is, close, Option.filter]

theorem swept_next {pane : Pane} (member : pane ∈ world.panes) {since : Nat} (is : pane.since = some since) (close : pane.close = .onExit)
    (young : world.now - since < linger) :
    ∃ left, (Sweeping.sweep world.seen world.now linger).next = some left ∧ left ≤ linger - (world.now - since) := by
  have left : pane.left world.now linger = some (linger - (world.now - since)) := by
    simp [Pane.left, age_some is close, Option.filter, young]
  have among : linger - (world.now - since) ∈ world.seen.filterMap fun seen => seen.left world.now linger :=
    List.mem_filterMap.mpr ⟨_, List.mem_map_of_mem member, left⟩
  rw [Sweeping.sweep]
  cases least : (world.seen.filterMap fun seen => seen.left world.now linger).min? with
  | none =>
    rw [List.min?_eq_none_iff.mp least] at among
    cases among
  | some next => exact ⟨next, rfl, (List.min?_eq_some_iff.mp least).2 _ among⟩

-- A sweep that finds nothing in the layout leaves everything calm.
theorem sweep_calm (told : ∀ id, id ∈ world.shown ↔ id ∈ focusedPanes world.state)
    (none_ : ∀ id ∈ (Sweeping.sweep world.seen world.now linger).removed, id ∉ world.state.document.layout.panes)
    (past : ∀ pane ∈ world.panes, ∀ since, pane.since = some since → since ≤ world.now) :
    Calm linger { world with timer := (Sweeping.sweep world.seen world.now linger).next.map (world.now + ·) } := by
  intro pane member inside
  change pane ∈ world.panes at member
  have kept : ¬ world.Past linger pane := fun over_ => none_ _ ((@mem_swept linger world _).mpr ⟨pane, member, rfl, over_⟩) inside
  rw [Past, not_or, not_and_or, Bool.not_eq_true] at kept
  refine ⟨kept.1, fun hidden => ?_⟩
  have rest := kept.2.resolve_left (not_not.mpr fun shown => hidden ((told _).mpr shown))
  rw [not_or, Bool.not_eq_true] at rest
  refine ⟨rest.1, fun since is close => ?_⟩
  have young : world.now - since < linger := by
    have lingered := rest.2
    rw [Pane.lingered, age_some is close] at lingered
    simpa using lingered
  obtain ⟨left, next, bound⟩ := swept_next member is close young
  have before := past pane member since is
  have ends : world.now + left ≤ since + linger := by omega
  exact ⟨world.now + left, by rw [next]; rfl, ends⟩

theorem Calm.none_past (calm : world.Calm linger) (told : ∀ id, id ∈ world.shown ↔ id ∈ focusedPanes world.state)
    (past : ∀ pane ∈ world.panes, ∀ since, pane.since = some since → since ≤ world.now)
    (early : ∀ time, world.timer = some time → world.now < time) :
    ∀ pane ∈ world.panes, pane.id ∈ world.state.document.layout.panes → ¬ world.Past linger pane := by
  rintro pane member inside (exited | ⟨hidden, over_⟩)
  · rw [(calm pane member inside).1] at exited
    cases exited
  · obtain ⟨orphan, later⟩ := (calm pane member inside).2 fun shown => hidden ((told _).mp shown)
    obtain is | lingered := over_
    · rw [orphan] at is
      cases is
    · cases since : pane.since with
      | none => simp [Pane.lingered, Pane.age, since] at lingered
      | some since_ =>
        by_cases close : pane.close = .onExit
        · obtain ⟨time, timer, bound⟩ := later since_ since close
          have wait := early time timer
          have before := past pane member since_ since
          rw [Pane.lingered, age_some since close] at lingered
          have : linger ≤ world.now - since_ := by simpa using lingered
          omega
        · simp [Pane.lingered, Pane.age, since, Option.filter, close] at lingered

theorem standing_append {panes more : List Pane} {id : PaneId} (known : standing panes id ≠ .gone) :
    standing (panes ++ more) id = standing panes id := by
  rw [standing] at known
  rw [standing, standing, List.find?_append]
  cases found : panes.find? fun pane => decide (pane.id = id) with
  | none => simp [found] at known
  | some pane => rfl

theorem standing_same {panes : List Pane} {f : Pane → Pane} (ids : ∀ pane, (f pane).id = pane.id)
    (conditions : ∀ pane, (f pane).condition = pane.condition) (id : PaneId) : standing (panes.map f) id = standing panes id := by
  have same : ((fun pane : Pane => decide (pane.id = id)) ∘ f) = fun pane => decide (pane.id = id) := by
    funext pane
    rw [Function.comp_apply, ids]
  rw [standing, standing, List.find?_map, same]
  cases panes.find? fun pane => decide (pane.id = id) with
  | none => rfl
  | some pane => simp [conditions]

-- A change of panes that keeps their ids, and what is dead.
theorem standing_map {panes : List Pane} {f : Pane → Pane} (ids : ∀ pane, (f pane).id = pane.id)
    (dead : ∀ pane, pane.condition ≠ .live → (f pane).condition ≠ .live) {id : PaneId} (gone : standing panes id ≠ .live) :
    standing (panes.map f) id ≠ .live := by
  rw [standing] at gone ⊢
  rw [List.find?_map]
  have same : ((fun pane : Pane => decide (pane.id = id)) ∘ f) = fun pane => decide (pane.id = id) := by
    funext pane
    rw [Function.comp_apply, ids]
  rw [same]
  cases found : panes.find? fun pane => decide (pane.id = id) with
  | none => simp
  | some pane =>
    simp only [found] at gone
    have ended : pane.condition ≠ .live := fun live => gone (if_pos live)
    simp [dead pane ended]

theorem standing_filter {panes : List Pane} {removed id : PaneId} (gone : standing panes id ≠ .live) :
    standing (panes.filter fun pane => decide (pane.id ≠ removed)) id ≠ .live := by
  by_cases is : id = removed
  · have none_ : ((panes.filter fun pane => decide (pane.id ≠ removed)).find? fun pane => decide (pane.id = id)) = none := by
      refine List.find?_eq_none.mpr fun pane member same => ?_
      exact of_decide_eq_true (List.mem_filter.mp member).2 ((of_decide_eq_true same).trans is)
    rw [standing, none_]
    exact nofun
  · have same : (fun pane : Pane => decide (decide (pane.id ≠ removed) = true ∧ decide (pane.id = id) = true)) =
        fun pane => decide (pane.id = id) := by
      funext pane
      by_cases here : pane.id = id <;> simp [here, is]
    rw [standing, List.find?_filter, same]
    exact gone

theorem standing_known {panes : List Pane} {id : PaneId} (known : standing panes id ≠ .gone) : ∃ pane ∈ panes, pane.id = id := by
  rw [standing] at known
  cases found : panes.find? fun pane => decide (pane.id = id) with
  | none => simp [found] at known
  | some pane => exact ⟨pane, List.mem_of_find?_eq_some found, by simpa using List.find?_some found⟩

theorem standing_old {panes more : List Pane} {id : PaneId} (new : id ∉ more.map Pane.id) : standing (panes ++ more) id = standing panes id := by
  have none_ : (more.find? fun pane => decide (pane.id = id)) = none :=
    List.find?_eq_none.mpr fun pane member same => new (of_decide_eq_true same ▸ List.mem_map_of_mem member)
  rw [standing, standing, List.find?_append, none_, Option.or_none]

theorem patched_same (id : PaneId) (close : Close) (pane : Pane) :
    (patched id close pane).id = pane.id ∧ (patched id close pane).condition = pane.condition ∧ (patched id close pane).parent = pane.parent ∧
      (pane.condition ≠ .live → patched id close pane = pane) := by
  rw [patched]
  split_ifs with same
  · exact ⟨rfl, rfl, rfl, fun ended => absurd same.2 ended⟩
  · exact ⟨rfl, rfl, rfl, fun _ => rfl⟩

theorem died_same (id : PaneId) (since : Nat) (death : Death) (pane : Pane) :
    (died id since death pane).id = pane.id ∧ (died id since death pane).parent = pane.parent ∧
      (pane.condition ≠ .live → died id since death pane = pane) ∧
      ((died id since death pane).since = some since ∨ died id since death pane = pane) := by
  rw [died]
  split_ifs with same failed
  · exact ⟨rfl, rfl, fun ended => absurd same.2 ended, .inl rfl⟩
  · exact ⟨rfl, rfl, fun ended => absurd same.2 ended, .inl rfl⟩
  · exact ⟨rfl, rfl, fun _ => rfl, .inr rfl⟩

theorem orphan_map {f : Pane → Pane} (ids : ∀ pane, (f pane).id = pane.id) (dead : ∀ pane, pane.condition ≠ .live → (f pane).condition ≠ .live)
    {pane other : Pane} (parent : other.parent = pane.parent) (orphan : pane.orphan world.panes = true) : other.orphan (world.panes.map f) = true := by
  obtain ⟨id, is, gone⟩ := (Option.any_eq_true _ _).mp orphan
  exact (Option.any_eq_true _ _).mpr ⟨id, parent.trans is, decide_eq_true (standing_map ids dead (of_decide_eq_true gone))⟩

section Safe

variable (safe : world.Safe linger)
include safe

theorem Safe.under {frames : List Frame} (backs : ∀ panes before, .retract panes before ∈ frames → before.layout.WellFormed ∧ (panes = [] → world.due = true))
    (told : .refocus ∈ frames ∨ ∀ id, id ∈ world.shown ↔ id ∈ focusedPanes world.state)
    (sweeps : ∀ panes next, .sweep panes next ∈ frames → ∃ all later, .sweep all later ∈ world.frames ∧ panes ⊆ all) :
    (world.under frames).Safe linger where
  formed := safe.formed
  backs := backs
  told := told
  past := safe.past
  known := safe.known
  listed panes next member id among := by
    obtain ⟨all, later, inside, fewer⟩ := sweeps panes next member
    exact safe.listed all later inside id (fewer among)

-- The frame on top gives way to one that is neither a retraction nor the loop of a sweep.
theorem Safe.turned {top next : Frame} {frames : List Frame} (is : world.frames = top :: frames) (other : top = .refocus → next = .refocus)
    (plain : (∀ panes before, next ≠ .retract panes before) ∧ ∀ panes later, next ≠ .sweep panes later) :
    (world.under (next :: frames)).Safe linger := by
  refine safe.under (fun panes before member => ?_) (safe.told.imp_left fun member => ?_) fun panes later member => ?_
  · have below := (List.mem_cons.mp member).resolve_left fun same => plain.1 panes before same.symm
    exact safe.backs panes before (is ▸ List.mem_cons_of_mem _ below)
  · obtain same | below := List.mem_cons.mp (is ▸ member)
    · exact other same.symm ▸ List.mem_cons_self
    · exact List.mem_cons_of_mem _ below
  · have below := (List.mem_cons.mp member).resolve_left fun same => plain.2 panes later same.symm
    exact ⟨panes, later, is ▸ List.mem_cons_of_mem _ below, List.Subset.refl _⟩

theorem Safe.pushed {frame : Frame} (plain : (∀ panes before, frame ≠ .retract panes before) ∧ ∀ panes later, frame ≠ .sweep panes later) :
    (world.push frame).Safe linger := by
  refine safe.under (fun panes before member => ?_) (safe.told.imp_left (List.mem_cons_of_mem _)) fun panes later member => ?_
  · exact safe.backs panes before ((List.mem_cons.mp member).resolve_left fun same => plain.1 panes before same.symm)
  · exact ⟨panes, later, (List.mem_cons.mp member).resolve_left fun same => plain.2 panes later same.symm, List.Subset.refl _⟩

theorem Safe.hastened : Safe linger { world with due := true } := { safe with backs := fun panes before member => ⟨(safe.backs panes before member).1, fun _ => rfl⟩ }

theorem Safe.served {state : State} (ids : world.state.document.ids.pane.value ≤ state.document.ids.pane.value)
    (formed : state.document.layout.WellFormed) (told : .refocus ∈ world.frames ∨ focusedPanes state = focusedPanes world.state) :
    Safe linger { world with state := state } where
  formed := formed
  backs := safe.backs
  told := told.elim .inl fun same => safe.told.imp_right fun told id => (told id).trans (by rw [same])
  past := safe.past
  known pane member := by
    obtain ⟨own, parent⟩ := safe.known pane member
    exact ⟨own.grown ids, fun id is => (parent id is).grown ids⟩
  listed panes next member id among := by
    obtain ⟨own, rest⟩ := safe.listed panes next member id among
    exact ⟨own.grown ids, rest⟩

theorem Safe.dropped (id : PaneId) : (world.drop id).Safe linger where
  formed := safe.formed
  backs := safe.backs
  told := safe.told
  past pane member := safe.past pane (List.mem_filter.mp member).1
  known pane member := safe.known pane (List.mem_filter.mp member).1
  listed panes next member other among := by
    obtain ⟨own, rest⟩ := safe.listed panes next member other among
    refine ⟨own, fun left => ?_⟩
    obtain ⟨found, inside, same⟩ := List.mem_map.mp left
    obtain ⟨here, stays⟩ := List.mem_filter.mp inside
    obtain ⟨pane, there, rfl, over_⟩ := rest (same ▸ List.mem_map_of_mem here)
    refine ⟨pane, List.mem_filter.mpr ⟨there, same ▸ stays⟩, rfl, over_.imp_right (Or.imp_left fun orphan => ?_)⟩
    obtain ⟨parent, is, gone⟩ := (Option.any_eq_true _ _).mp orphan
    exact (Option.any_eq_true _ _).mpr ⟨parent, is, decide_eq_true (standing_filter (of_decide_eq_true gone))⟩

-- A change of panes that keeps their ids and their parents, and what is dead.
theorem Safe.mapped {f : Pane → Pane} (ids : ∀ pane, (f pane).id = pane.id) (parents : ∀ pane, (f pane).parent = pane.parent)
    (dead : ∀ pane, pane.condition ≠ .live → f pane = pane)
    (past : ∀ pane, ∀ since, (f pane).since = some since → pane.since = some since ∨ since ≤ world.now) :
    Safe linger { world with panes := world.panes.map f } where
  formed := safe.formed
  backs := safe.backs
  told := safe.told
  past pane member since is := by
    obtain ⟨old, there, rfl⟩ := List.mem_map.mp member
    exact (past old since is).elim (safe.past old there since) id
  known pane member := by
    obtain ⟨old, there, rfl⟩ := List.mem_map.mp member
    rw [ids, parents]
    exact safe.known old there
  listed panes next member id among := by
    obtain ⟨own, rest⟩ := safe.listed panes next member id among
    refine ⟨own, fun left => ?_⟩
    have before : id ∈ world.panes.map Pane.id := by simpa [ids] using left
    obtain ⟨pane, there, rfl, over_⟩ := rest before
    refine ⟨f pane, List.mem_map_of_mem there, ids pane, ?_⟩
    obtain exited | orphan | lingered := over_
    · have over_ : pane.condition ≠ .live := fun live => by simp [Pane.exited, live] at exited
      exact .inl ((dead pane over_).symm ▸ exited)
    · exact .inr (.inl (orphan_map ids (fun pane over_ => (dead pane over_).symm ▸ over_) (parents pane) orphan))
    · have over_ : pane.condition ≠ .live := fun live => by simp [Pane.lingered, Pane.age, Pane.since, live] at lingered
      exact .inr (.inr ((dead pane over_).symm ▸ lingered))

theorem Safe.later (time : Nat) : Safe linger { world with now := world.now + time } where
  formed := safe.formed
  backs := safe.backs
  told := safe.told
  past pane member since is := Nat.le_add_right_of_le (safe.past pane member since is)
  known := safe.known
  listed panes next member id among := by
    obtain ⟨own, rest⟩ := safe.listed panes next member id among
    refine ⟨own, fun left => ?_⟩
    obtain ⟨pane, there, same, over_⟩ := rest left
    refine ⟨pane, there, same, over_.imp_right (Or.imp_right fun lingered => ?_)⟩
    rw [Pane.lingered, Pane.age] at lingered ⊢
    cases ended : pane.since.filter fun _ => decide (pane.close = .onExit) with
    | none => simp [ended] at lingered
    | some since =>
      have age : linger ≤ world.now - since := by simpa [ended] using lingered
      have more : linger ≤ world.now + time - since := by omega
      change ((Option.map (fun since => world.now + time - since) _).any fun age => decide (linger ≤ age)) = true
      simpa using more

-- The panes that a put creates are new, and their parents live.
theorem Safe.grown {document : Document} {close : PaneId → Close} {created : List (PaneId × CreatePane × Vars)}
    (formed : document.layout.WellFormed) (admitted : world.admits created = true)
    (ids : world.state.document.ids.pane.value ≤ document.ids.pane.value) (short : world.state.document.ids.pane.value ≠ u64Max)
    (fresh : ∀ made ∈ created, world.state.document.ids.pane.value ≤ made.1.number ∧ Handed document.ids made.1) :
    (world.grown document close created).Safe linger := by
  have new {id : PaneId} (handed : Handed world.state.document.ids id) : id ∉ (created.map (born close)).map Pane.id := by
    intro member
    obtain ⟨_, inside, rfl⟩ := List.mem_map.mp member
    obtain ⟨made, among, rfl⟩ := List.mem_map.mp inside
    have least := (fresh made among).1
    have most := handed.resolve_right short
    change made.1.number < _ at most
    omega
  refine ⟨formed, safe.backs, safe.told, fun pane member => ?_, fun pane member => ?_, fun panes next member id among => ?_⟩
  · obtain old | new := List.mem_append.mp member
    · exact safe.past pane old
    · obtain ⟨made, among, rfl⟩ := List.mem_map.mp new
      exact nofun
  · obtain old | new := List.mem_append.mp member
    · obtain ⟨own, parent⟩ := safe.known pane old
      exact ⟨own.grown ids, fun id is => (parent id is).grown ids⟩
    · obtain ⟨made, among, rfl⟩ := List.mem_map.mp new
      refine ⟨(fresh made among).2, fun parent is => ?_⟩
      have admits := List.all_eq_true.mp admitted made among
      have live : standing world.panes parent = .live := by
        change made.2.1.parent = some parent at is
        simpa [is] using admits
      obtain ⟨found, there, rfl⟩ := standing_known (by rw [live]; exact nofun : standing world.panes parent ≠ .gone)
      exact (safe.known found there).1.grown ids
  · obtain ⟨own, rest⟩ := safe.listed panes next member id among
    refine ⟨own.grown ids, fun left => ?_⟩
    have before : id ∈ world.panes.map Pane.id := by
      rw [World.grown, List.map_append, List.mem_append] at left
      exact left.resolve_right (new own)
    obtain ⟨pane, there, same, over_⟩ := rest before
    refine ⟨pane, List.mem_append_left _ there, same, over_.imp_right (Or.imp_left fun orphan => ?_)⟩
    obtain ⟨parent, is, gone⟩ := (Option.any_eq_true _ _).mp orphan
    refine (Option.any_eq_true _ _).mpr ⟨parent, is, decide_eq_true ?_⟩
    rw [World.grown, standing_old (new ((safe.known pane there).2 parent is))]
    exact of_decide_eq_true gone

theorem delete_safe (what : Removed) : (world.delete what).Safe linger := by
  have formed := removed_wellFormed safe.formed what
  have ids := removed_ids world.state.document what
  rw [World.delete]
  split
  · exact safe
  · next removal document applied =>
    rw [applied] at formed ids
    have served : Safe linger { world with state := { world.state with document := document } } := safe.served (by rw [ids]) formed (.inr rfl)
    exact served.pushed ⟨nofun, nofun⟩

theorem dies_safe (id : PaneId) {since : Nat} (past : since ≤ world.now) (death : Death) : (world.dies id since death).Safe linger := by
  have dead : Safe linger { world with panes := world.panes.map (died id since death) } := by
    refine safe.mapped (fun pane => (died_same id since death pane).1) (fun pane => (died_same id since death pane).2.1)
      (fun pane => (died_same id since death pane).2.2.1) fun pane time is => ?_
    obtain same | same := (died_same id since death pane).2.2.2
    · exact .inr (Option.some.inj (same.symm.trans is) ▸ past)
    · exact .inl (same ▸ is)
  have due : Safe linger { world with panes := world.panes.map (died id since death), due := true } := dead.hastened
  rw [World.dies]
  split_ifs
  · exact delete_safe due _
  · exact due

end Safe

theorem Settled.pushed {frame : Frame} (settled : world.Settled linger) (quiet : frame.Quiet) : (world.push frame).Settled linger := by
  obtain due | ⟨found, member, sweeps⟩ | ⟨all, calm⟩ := settled
  · exact .inl due
  · exact .inr (.inl ⟨found, List.mem_cons_of_mem _ member, sweeps⟩)
  · refine .inr (.inr ⟨fun other member => ?_, calm⟩)
    obtain rfl | old := List.mem_cons.mp member
    · exact quiet
    · exact all other old

-- A quiet frame on top leaves, or gives way to another.
theorem Settled.under {top : Frame} {frames next : List Frame} (settled : world.Settled linger) (is : world.frames = top :: frames)
    (quiet : top.Quiet) (same : next = frames ∨ ∃ other : Frame, other.Quiet ∧ next = other :: frames) : (world.under next).Settled linger := by
  have below : (world.under frames).Settled linger := by
    obtain due | ⟨found, member, sweeps⟩ | ⟨all, calm⟩ := settled
    · exact .inl due
    · rw [is] at member
      obtain rfl | below := List.mem_cons.mp member
      · cases found <;> first | exact quiet.elim | exact sweeps.elim
      · exact .inr (.inl ⟨found, below, sweeps⟩)
    · exact .inr (.inr ⟨fun other member => all other (is ▸ List.mem_cons_of_mem _ member), calm⟩)
  obtain rfl | ⟨other, still, rfl⟩ := same
  · exact below
  · exact below.pushed still

theorem sweeps_grown {before after : Layout} {frame : Frame} (more : before.panes ⊆ after.panes) (sweeps : frame.Sweeps before) :
    frame.Sweeps after := by
  cases frame with
  | sweep panes next =>
    obtain ⟨id, among, inside⟩ := sweeps
    exact ⟨id, among, more inside⟩
  | _ => exact sweeps

theorem Settled.served {state : State} (settled : world.Settled linger)
    (panes : ∀ pane, pane ∈ state.document.layout.panes ↔ pane ∈ world.state.document.layout.panes) :
    Settled linger { world with state := state } := by
  obtain due | ⟨found, member, sweeps⟩ | ⟨all, calm⟩ := settled
  · exact .inl due
  · exact .inr (.inl ⟨found, member, sweeps_grown (fun pane => (panes pane).mpr) sweeps⟩)
  · exact .inr (.inr ⟨all, fun pane member inside => calm pane member ((panes pane.id).mp inside)⟩)

theorem delete_settled (settled : world.Settled linger) (what : Removed) : (world.delete what).Settled linger := by
  rw [World.delete]
  split
  · exact settled
  · exact .inr (.inl ⟨_, List.mem_cons_self, trivial⟩)

theorem dies_settled (id : PaneId) (since : Nat) (death : Death) : (world.dies id since death).Settled linger := by
  rw [World.dies]
  split_ifs
  · exact delete_settled (.inl rfl) _
  · exact .inl rfl

theorem patch_settled (settled : world.Settled linger) (id : PaneId) (close : Close) : (world.patch id close).Settled linger := by
  refine settled.imp_right (Or.imp_right fun ⟨quiet, calm⟩ => ⟨quiet, fun pane member inside => ?_⟩)
  obtain ⟨old, known, rfl⟩ := List.mem_map.mp member
  obtain ⟨ids, condition, parent, dead⟩ := patched_same id close old
  obtain ⟨exited, rest⟩ := calm old known (ids ▸ inside)
  have orphan (other : Pane) : other.orphan (world.panes.map (patched id close)) = other.orphan world.panes := by
    have stands := @standing_same world.panes (patched id close) (fun pane => (patched_same id close pane).1)
      fun pane => (patched_same id close pane).2.1
    simp only [Pane.orphan, stands]
  by_cases live : old.condition = .live
  · have none_ : (patched id close old).since = none := by rw [Pane.since, condition, live]
    refine ⟨by rw [Pane.exited, condition, live], fun hidden => ⟨?_, fun since is => ?_⟩⟩
    · have before := (rest fun shown => hidden (ids ▸ shown)).1
      rw [Pane.orphan, parent]
      exact (orphan old).trans before
    · rw [none_] at is
      cases is
  · rw [dead live] at ids ⊢
    exact ⟨exited, fun hidden => (rest hidden).imp_left (orphan old).trans⟩

theorem grown_settled (safe : world.Safe linger) (settled : world.Settled linger) {document : Document} {close : PaneId → Close}
    {created : List (PaneId × CreatePane × Vars)} (admitted : world.admits created = true)
    (panes : ∀ pane, pane ∈ document.layout.panes ↔ pane ∈ world.state.document.layout.panes ∨ pane ∈ created.map Prod.fst)
    (short : world.state.document.ids.pane.value ≠ u64Max) (fresh : ∀ made ∈ created, world.state.document.ids.pane.value ≤ made.1.number) :
    (world.grown document close created).Settled linger := by
  obtain due | ⟨found, member, sweeps⟩ | ⟨quiet, calm⟩ := settled
  · exact .inl due
  · exact .inr (.inl ⟨found, member, sweeps_grown (fun pane inside => (panes pane).mpr (.inl inside)) sweeps⟩)
  · have kept {pane : Pane} (orphan : pane.orphan world.panes = false) : pane.orphan (world.panes ++ created.map (born close)) = false := by
      rw [Pane.orphan] at orphan ⊢
      cases parent : pane.parent with
      | none => rfl
      | some id =>
        have live : standing world.panes id = .live := by simpa [parent] using orphan
        have same := @standing_append world.panes (created.map (born close)) id (by rw [live]; exact nofun)
        simp [same, live]
    refine .inr (.inr ⟨quiet, fun pane member inside => ?_⟩)
    obtain old | new := List.mem_append.mp member
    · have before : pane.id ∈ world.state.document.layout.panes := by
        refine ((panes pane.id).mp inside).resolve_right fun new => ?_
        obtain ⟨made, among, same⟩ := List.mem_map.mp new
        have least := fresh made among
        have most := (safe.known pane old).1.resolve_right short
        rw [← same] at most
        omega
      obtain ⟨exited, rest⟩ := calm pane old before
      exact ⟨exited, fun hidden => (rest hidden).imp_left kept⟩
    · obtain ⟨made, among, rfl⟩ := List.mem_map.mp new
      refine ⟨rfl, fun _ => ⟨kept ?_, nofun⟩⟩
      have admits := List.all_eq_true.mp admitted made among
      rw [Pane.orphan]
      cases parent : made.2.1.parent with
      | none => simp [born, parent]
      | some id =>
        have live : standing world.panes id = .live := by simpa [parent] using admits
        simp [born, parent, live]

section Sound

variable (sound : world.Sound linger)
include sound

theorem put_sound (request : PutLayout) (shell : Option Name) (verdict : Verdict) (close : PaneId → Close) (started : Nat)
    (short : world.state.document.ids.pane.value ≠ u64Max) : (world.put request shell verdict close started).Sound linger := by
  have safe := sound.toSafe
  simp only [World.put]
  split
  · exact sound
  · next created document applied =>
    have formed : document.layout.WellFormed := by
      have all := putWithShell_wellFormed sound.formed request (newWindowSizer (world.state.actives.map Prod.snd)) shell
      rwa [applied] at all
    obtain ⟨handed, ids, fresh, _⟩ := created_fresh applied
    have new (made : PaneId × CreatePane × Vars) (among : made ∈ created) :
        world.state.document.ids.pane.value ≤ made.1.number ∧ Handed document.ids made.1 :=
      ⟨fresh short _ (List.mem_map_of_mem among), handed _ (List.mem_map_of_mem among)⟩
    have back : (world.rollback document world.state.document).Sound linger :=
      ⟨show Safe linger { world with state := { world.state with document := document.rollback world.state.document } } from
          safe.served ids sound.formed (.inr rfl),
        sound.settled.served fun _ => Iff.rfl⟩
    split
    · exact back
    · next admitted =>
      have grown : (world.grown document close created).Sound linger :=
        ⟨safe.grown formed admitted ids short new,
          grown_settled safe sound.settled admitted (putWithShell_panes applied).2.2 short fun made among => (new made among).1⟩
      split_ifs
      · exact ⟨grown.toSafe.pushed ⟨nofun, nofun⟩, grown.settled.pushed trivial⟩
      · exact grown
    · next admitted =>
      split
      · exact back
      · next list some_ =>
        have fewer := List.take_subset started created
        have grown : (world.grown document close (created.take started)).Safe linger :=
          safe.grown formed (List.all_eq_true.mpr fun made among => List.all_eq_true.mp admitted made (fewer among)) ids short
            fun made among => new made (fewer among)
        refine ⟨grown.under (fun panes before member => ?_) (grown.told.imp_left (List.mem_cons_of_mem _)) fun panes next member => ?_,
          .inr (.inl ⟨_, List.mem_cons_self, ?_⟩)⟩
        · obtain same | old := List.mem_cons.mp member
          · cases same
            exact ⟨sound.formed, fun none_ => absurd (List.map_eq_nil_iff.mp none_) some_⟩
          · exact grown.backs panes before old
        · exact ⟨panes, next, (List.mem_cons.mp member).resolve_left nofun, List.Subset.refl _⟩
        · change (created.take started).map Prod.fst ≠ []
          simpa using some_

theorem request_sound (index : Nat) (request : ClientRequest) : (world.request index request).Sound linger := by
  rw [World.request]
  split
  · exact sound
  · next conn found =>
    obtain ⟨houses, focus⟩ := serve_kept found request
    have settled := sound.settled.served (houses.panes sound.formed)
    have ids : world.state.document.ids.pane.value ≤ (world.state.serve index conn request).document.ids.pane.value := by rw [houses.ids]
    simp only
    split_ifs with refocused
    · have pushed : (world.push .refocus).Safe linger := sound.toSafe.pushed ⟨nofun, nofun⟩
      exact ⟨pushed.served ids (houses.formed sound.formed) (.inl List.mem_cons_self), settled.pushed trivial⟩
    · exact ⟨sound.toSafe.served ids (houses.formed sound.formed) (.inr (focus (Bool.eq_false_iff.mpr refocused))), settled⟩

end Sound

theorem refocus_sound (formed : world.state.document.layout.WellFormed)
    (backs : ∀ panes before, .retract panes before ∈ world.frames → before.layout.WellFormed ∧ (panes = [] → world.due = true))
    (past : ∀ pane ∈ world.panes, ∀ since, pane.since = some since → since ≤ world.now)
    (known : ∀ pane ∈ world.panes, Handed world.state.document.ids pane.id ∧ ∀ parent ∈ pane.parent, Handed world.state.document.ids parent)
    (listed : ∀ panes next, .sweep panes next ∈ world.frames → ∀ id ∈ panes, world.Listed linger id)
    (settled : world.Settled linger) : world.refocus.Sound linger := by
  rw [refocus]
  split_ifs with same
  · exact ⟨⟨formed, backs, .inr fun id => ⟨fun member => same.1 member, fun member => same.2 member⟩, past, known, listed⟩, settled⟩
  · exact ⟨⟨formed, fun panes before member => ⟨(backs panes before member).1, fun _ => rfl⟩, .inr fun _ => Iff.rfl, past, known, listed⟩,
      .inl rfl⟩

theorem sweep_sound (safe : world.Safe linger) (idle : world.frames = []) : (world.sweep linger).Sound linger := by
  have told := safe.told.resolve_left (by rw [idle]; exact List.not_mem_nil)
  simp only [World.sweep]
  split_ifs with none_
  · have quiet : ∀ frame ∈ world.frames, frame.Quiet := by
      rw [idle]
      exact nofun
    refine ⟨{ safe with }, .inr (.inr ⟨quiet, sweep_calm told (fun id member => ?_) safe.past⟩)⟩
    exact of_decide_eq_true (List.all_eq_true.mp none_ id member)
  · obtain ⟨id, member, inside⟩ : ∃ id ∈ (Sweeping.sweep world.seen world.now linger).removed, id ∈ world.state.document.layout.panes := by
      simpa using none_
    refine ⟨⟨safe.formed, fun panes before there => ?_, .inr told, safe.past, safe.known, fun panes next there other among => ?_⟩,
      .inr (.inl ⟨_, List.mem_cons_self, id, member, inside⟩)⟩
    · rw [World.push, idle] at there
      cases List.mem_singleton.mp there
    · rw [World.push, idle] at there
      obtain ⟨rfl, rfl⟩ := Frame.sweep.inj (List.mem_singleton.mp there)
      obtain ⟨pane, known, rfl, past⟩ := mem_swept.mp among
      exact ⟨(safe.known pane known).1, fun _ => ⟨pane, known, rfl, past.imp_right And.right⟩⟩

theorem mem_below {top frame : Frame} {frames all : List Frame} (is : all = top :: frames) (other : frame ≠ top) (member : frame ∈ all) :
    frame ∈ frames := by
  rw [is] at member
  exact (List.mem_cons.mp member).resolve_left other

theorem resume_sound (sound : world.Sound linger) : world.resume.Sound linger := by
  have safe := sound.toSafe
  have lower {top : Frame} {frames : List Frame} (is : world.frames = top :: frames) {frame : Frame} (member : frame ∈ frames) :
      frame ∈ world.frames := is ▸ List.mem_cons_of_mem _ member
  rw [resume]
  split
  · exact sound
  · next pane panes before parents frames is =>
    exact ⟨(safe.dropped pane).turned is nofun ⟨nofun, nofun⟩, .inr (.inl ⟨_, List.mem_cons_self, trivial⟩)⟩
  · next before parents frames is =>
    have turned : (world.under (.changed before parents :: frames)).Safe linger := safe.turned is nofun ⟨nofun, nofun⟩
    exact ⟨turned.hastened, .inl rfl⟩
  · next before parents frames is =>
    have houses := changed_houses world.state before parents
    have turned : (world.under (.refocus :: frames)).Safe linger := safe.turned is nofun ⟨nofun, nofun⟩
    have settled : (world.under (.refocus :: frames)).Settled linger := sound.settled.under is trivial (.inr ⟨.refocus, trivial, rfl⟩)
    exact ⟨turned.served (by rw [houses.ids]; rfl) (houses.formed sound.formed) (.inl List.mem_cons_self),
      settled.served (houses.panes sound.formed)⟩
  · next frames is =>
    exact refocus_sound safe.formed (fun panes before member => safe.backs panes before (lower is member)) safe.past safe.known
      (fun panes next member => safe.listed panes next (lower is member)) (sound.settled.under is trivial (.inl rfl))
  · next pane panes before frames is =>
    have dropped := (safe.dropped pane).hastened
    refine ⟨dropped.under (fun others back member => ?_) (dropped.told.imp_left fun member => ?_) fun others later member => ?_, .inl rfl⟩
    · obtain same | below := List.mem_cons.mp member
      · cases same
        have top : .retract (pane :: panes) before ∈ world.frames := is ▸ List.mem_cons_self
        exact ⟨(safe.backs _ _ top).1, fun _ => rfl⟩
      · exact dropped.backs others back (lower is below)
    · exact List.mem_cons_of_mem _ (mem_below is nofun member)
    · exact ⟨others, later, lower is ((List.mem_cons.mp member).resolve_left nofun), List.Subset.refl _⟩
  · next before frames is =>
    have below : (world.under frames).Safe linger := by
      exact safe.under (fun panes back member => safe.backs panes back (lower is member)) (safe.told.imp_left (mem_below is nofun))
        fun panes next member => ⟨panes, next, lower is member, List.Subset.refl _⟩
    obtain ⟨formed, due⟩ := safe.backs _ _ (is ▸ List.mem_cons_self)
    exact ⟨show Safe linger { world.under frames with state := { world.state with document := world.state.document.rollback before } } from
        below.served (Nat.le_refl _) formed (.inr rfl),
      .inl (due rfl)⟩
  · next pane panes next frames is =>
    have turned : (world.under (.sweep panes next :: frames)).Safe linger := by
      refine safe.under (fun others before member => ?_) (safe.told.imp_left fun member => ?_) fun others later member => ?_
      · exact safe.backs others before (lower is ((List.mem_cons.mp member).resolve_left nofun))
      · exact List.mem_cons_of_mem _ (mem_below is nofun member)
      · obtain same | below := List.mem_cons.mp member
        · cases same
          exact ⟨_, _, is ▸ List.mem_cons_self, List.subset_cons_self _ _⟩
        · exact ⟨others, later, lower is below, List.Subset.refl _⟩
    refine ⟨delete_safe turned _, ?_⟩
    by_cases inside : pane ∈ world.state.document.layout.panes
    · obtain ⟨removal, document, applied⟩ := remove_there inside
      rw [World.delete]
      simp only [World.under, applied]
      exact .inr (.inl ⟨_, List.mem_cons_self, trivial⟩)
    · rw [World.delete]
      simp only [World.under, remove_gone inside]
      obtain due | ⟨found, member, sweeps⟩ | ⟨quiet, _⟩ := sound.settled
      · exact .inl due
      · obtain rfl | below := List.mem_cons.mp (is ▸ member)
        · obtain ⟨id, among, there⟩ := sweeps
          have other : id ∈ panes := (List.mem_cons.mp among).resolve_left fun same => inside (same ▸ there)
          exact .inr (.inl ⟨_, List.mem_cons_self, id, other, there⟩)
        · exact .inr (.inl ⟨found, List.mem_cons_of_mem _ below, sweeps⟩)
      · exact absurd (quiet (.sweep (pane :: panes) next) (is ▸ List.mem_cons_self)) id
  · next next frames is =>
    have below : (world.under frames).Safe linger := by
      exact safe.under (fun panes before member => safe.backs panes before (lower is member)) (safe.told.imp_left (mem_below is nofun))
        fun panes later member => ⟨panes, later, lower is member, List.Subset.refl _⟩
    refine ⟨{ below with }, ?_⟩
    obtain due | ⟨found, member, sweeps⟩ | ⟨quiet, _⟩ := sound.settled
    · exact .inl due
    · obtain rfl | below := List.mem_cons.mp (is ▸ member)
      · obtain ⟨_, none_, _⟩ := sweeps
        cases none_
      · exact .inr (.inl ⟨found, below, sweeps⟩)
    · exact absurd (quiet (.sweep [] next) (is ▸ List.mem_cons_self)) id

theorem step_sound (sound : world.Sound linger) (act : Act) (careful : world.Careful act) : (world.step linger act).Sound linger := by
  have safe := sound.toSafe
  cases act with
  | attach =>
    have same : focusedPanes (world.state.act .attach) = focusedPanes world.state := by
      simp [focusedPanes, State.act, focusedPane, Client.new, List.filterMap_append]
    exact ⟨safe.served (Nat.le_refl _) sound.formed (.inr same), sound.settled.served fun _ => Iff.rfl⟩
  | request index request => exact request_sound sound index request
  | leave index =>
    rw [step]
    split_ifs with idle
    · have same : (world.state.act (.leave index)).document = world.state.document := by
        rw [State.act]
        split <;> rfl
      have settled : Settled linger { world with state := world.state.act (.leave index) } :=
        sound.settled.served fun pane => by rw [same]
      refine refocus_sound ?_ safe.backs safe.past ?_ ?_ settled
      · rw [same]
        exact sound.formed
      · rw [same]
        exact safe.known
      · intro panes next member
        rw [show _ = [] from idle] at member
        cases member
    · exact sound
  | put request shell verdict close started => exact put_sound sound request shell verdict close started careful
  | patch pane close =>
    refine ⟨safe.mapped (fun pane' => (patched_same pane close pane').1) (fun pane' => (patched_same pane close pane').2.2.1)
      (fun pane' => (patched_same pane close pane').2.2.2) fun pane' since is => .inl ?_, patch_settled sound.settled pane close⟩
    rwa [Pane.since, (patched_same pane close pane').2.1] at is
  | delete what => exact ⟨delete_safe safe what, delete_settled sound.settled what⟩
  | dies pane since death =>
    rw [step]
    split_ifs with past
    · exact ⟨dies_safe safe pane past death, dies_settled pane since death⟩
    · exact sound
  | next => exact resume_sound sound
  | tick =>
    rw [step]
    split_ifs with ready
    · refine @sweep_sound linger { world with due := false } { safe with backs := fun panes before member => ?_ } ready.1
      rw [show world.frames = [] from ready.1] at member
      cases member
    · exact sound
  | timeout =>
    rw [step]
    split
    · next idle _ =>
      split_ifs
      · exact @sweep_sound linger { world with timer := none } { safe with } idle
      · exact sound
    · exact sound
  | wait time => exact ⟨safe.later time, sound.settled⟩

theorem Sound.fits (sound : world.Sound linger) (act : Act) (careful : world.Careful act) : world.Fits linger act := by
  cases act with
  | next =>
    intro id turn known
    have top : ∃ rest next frames, world.frames = .sweep (id :: rest) next :: frames := by
      rw [World.turn] at turn
      split at turn
      · next head rest next frames is =>
        split_ifs at turn
        · cases turn
          exact ⟨rest, next, frames, is⟩
        · cases turn
      · cases turn
    obtain ⟨rest, next, frames, is⟩ := top
    obtain ⟨pane, member, rfl, over_⟩ := (sound.listed _ _ (is ▸ List.mem_cons_self) id List.mem_cons_self).2 known
    by_cases shown : pane.id ∈ focusedPanes world.state
    · obtain ⟨other, there, same, exited⟩ := careful pane.id turn shown
      exact ⟨other, there, same, .inl exited⟩
    · exact ⟨pane, member, rfl, over_.imp_right fun rest => ⟨shown, rest⟩⟩
  | _ => trivial

theorem Sound.noneLeft (sound : world.Sound linger) : world.NoneLeft linger := by
  intro idle due early pane member
  obtain due' | ⟨_, found, _⟩ | ⟨_, calm⟩ := sound.settled
  · rw [due] at due'
    cases due'
  · rw [idle] at found
    cases found
  · have told := sound.told.resolve_left (by rw [idle]; exact List.not_mem_nil)
    exact calm.none_past told sound.past early pane member

theorem start_sound : start.Sound linger where
  formed := start_wellFormed
  backs := nofun
  told := .inr fun _ => Iff.rfl
  past := nofun
  known := nofun
  listed := nofun
  settled := .inr (.inr ⟨nofun, nofun⟩)

theorem run_fits {acts : List Act} (sound : world.Sound linger) (careful : AllAllowed (step linger) Careful world acts) :
    AllAllowed (step linger) (Fits linger) world acts := by
  induction acts generalizing world with
  | nil => trivial
  | cons act acts ih => exact ⟨sound.fits act careful.1, ih (step_sound sound act careful.1) careful.2⟩

-- In every run in which no focused client shows what a sweep comes to, the sweep takes out what it should throughout.
theorem sweeps_exact (linger : Nat) (acts : List Act) (careful : AllAllowed (step linger) Careful start acts) :
    AllAllowed (step linger) (Fits linger) start acts ∧ (run (step linger) start acts).NoneLeft linger := by
  have sound : (run (step linger) start acts).Sound linger :=
    run_allowed (P := fun world => world.Sound linger) (fun _ act sound careful => step_sound sound act careful) start_sound careful
  exact ⟨run_fits start_sound careful, sound.noneLeft⟩

-- Three windows of one pane each: with the close modes `exit`, `onExit` and `keep`.
def threeDraft : DraftLayout := ⟨[⟨none, singleName, .empty, [singleWindow, singleWindow, singleWindow]⟩]⟩

def threePut : Act :=
  .put ⟨.first, threeDraft⟩ none .accepted (fun id => if id = ⟨1⟩ then .exit else if id = ⟨2⟩ then .onExit else .keep) 0

-- A focused client shows a pane; the second pane dies, and five seconds later the first: both are on the list of one sweep.
def listed (pane : PaneId) : List Act :=
  [threePut, .next, .next, .attach, .request 0 (.hello ⟨none, none, some pane⟩ unsizedWindow true false), .next, .tick, .dies ⟨2⟩ 0 .exit,
    .tick, .wait 5, .dies ⟨1⟩ 5 .exit, .tick]

-- A stop of the first pane is answered once that pane is deleted, and what its connection sent behind the stop is served: a focused client.
def joined (pane : PaneId) : List Act :=
  [.next, .next, .next, .attach, .request 1 (.hello ⟨none, none, some pane⟩ unsizedWindow true false)]

theorem joined_swept :
    AllAllowed (step 5) (Fits 5) start (listed ⟨3⟩ ++ joined ⟨3⟩ ++ List.replicate 9 .next ++ [.tick]) ∧
      (run (step 5) start (listed ⟨3⟩ ++ joined ⟨3⟩ ++ List.replicate 9 .next ++ [.tick])).NoneLeft 5 :=
  sweeps_exact 5 _ (by decide +kernel)

-- The sweep deletes the second pane though a client shows it by then: one that it moved there, or one that came meanwhile.
theorem moved_swept :
    ¬ AllAllowed (step 5) (Fits 5) start (listed ⟨1⟩ ++ List.replicate 6 .next) ∧
      ¬ AllAllowed (step 5) (Fits 5) start (listed ⟨3⟩ ++ joined ⟨2⟩ ++ List.replicate 4 .next) := by
  decide +kernel

end World

end Kido.Sweeping
