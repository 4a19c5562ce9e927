import Kido.State.Quota
import Mathlib

set_option autoImplicit false

namespace Kido.Quotas

open Kido.Shared Kido.Tiling Kido.Editing

def Frame.panes : Frame → List PaneId
  | .retract panes _ _ => panes
  | .stopping panes _ => panes

def Frame.before? : Frame → Option Document
  | .retract _ before _ => some before
  | .stopping _ _ => none

-- So many bytes more fit beside the variables of each document that is to be restored and of the panes that stay till then.
def HasRoom (growth : Nat) : List Frame → List Pane → Prop
  | [], _ => True
  | frame :: frames, panes =>
    let left := frame.panes.foldl removePane panes
    (∀ before ∈ frame.before?, bytesOf (inLayout before.layout) + bytesOf (left.map ofPane) + growth ≤ serverMaxTotal) ∧
      HasRoom growth frames left

instance hasRoom_decidable (growth : Nat) : (frames : List Frame) → (panes : List Pane) → Decidable (HasRoom growth frames panes)
  | [], _ => .isTrue trivial
  | frame :: frames, panes =>
    haveI := hasRoom_decidable growth frames (frame.panes.foldl removePane panes)
    inferInstanceAs (Decidable (_ ∧ _))

def growth (vars : Vars) (name : VarName) (value : Value) : Nat := weightOf name value - vars.oldWeight name

def added (created : List (PaneId × CreatePane × Vars)) : Nat := (created.map fun (_, _, vars) => vars.bytes).sum

-- The variables of sessions and windows: the order of these and those without variables do not matter.
def held (layout : Layout) : List (Owner × Vars) := (inLayout layout).filter fun set => decide (set.2 ≠ .empty)

def Keeps (before after : Layout) : Prop := (held after).Perm (held before)

instance (before after : Layout) : Decidable (Keeps before after) := inferInstanceAs (Decidable (List.Perm _ _))

theorem Keeps.of_same {before after : Layout} (same : inLayout after = inLayout before) : Keeps before after := by
  rw [Keeps, held, same, held]

theorem Keeps.trans {first second third : Layout} (keeps : Keeps first second) (next : Keeps second third) : Keeps first third :=
  List.Perm.trans next keeps

namespace State

def retracting (state : State) : Bool := state.frames.any fun frame => frame.before?.isSome

-- A put that is taken changes no variable of a session or a window while another is taken back, and its panes' fit.
def FitsTaken (state : State) (met : Met) (created : List (PaneId × CreatePane × Vars)) (document : Document) : Prop :=
  met.runtimeLayout = none → met.choice = none → (∀ id ∈ created.map Prod.fst, met.birth id = none) →
    (state.withDocument document).varsUsed + added created ≤ serverMaxTotal →
      (state.retracting = true → Keeps state.document.layout document.layout) ∧
        HasRoom (added created) state.frames state.panes

-- While a put takes back the panes it had started, what is served changes no variable of a session or a window, and what it
-- adds to those of the panes fits beside what is restored. What the limit or a check refuses may be asked.
def Fits (state : State) : Op → Prop
  | .put request met =>
    ∀ created ∈ (state.document.putWithShell request met.newWindow met.shell).1.toOption,
      state.FitsTaken met created (state.document.putWithShell request met.newWindow met.shell).2
  | .setVar id name value =>
    ∀ pane ∈ state.find? id, state.varsUsed + growth pane.vars name value ≤ serverMaxTotal →
      HasRoom (growth pane.vars name value) state.frames state.panes
  | .delete what _ => state.retracting = true → Keeps state.document.layout (what.apply state.document).2.layout
  | _ => True

instance (state : State) (met : Met) (created : List (PaneId × CreatePane × Vars)) (document : Document) :
    Decidable (state.FitsTaken met created document) := by
  unfold FitsTaken
  infer_instance

instance (state : State) (op : Op) : Decidable (state.Fits op) := by
  cases op <;> unfold Fits <;> infer_instance

end State

section Room

variable {panes : List Pane}

theorem taken_sublist {fewer : List Pane} (sublist : fewer.Sublist panes) (ids : List PaneId) :
    (ids.foldl removePane fewer).Sublist (ids.foldl removePane panes) := by
  induction ids generalizing fewer panes with
  | nil => exact sublist
  | cons id ids ih => exact ih sublist.eraseP

theorem taken_append (new : List Pane) (ids : List PaneId) :
    ∃ left, ids.foldl removePane (panes ++ new) = ids.foldl removePane panes ++ left ∧ left.Sublist new := by
  induction ids generalizing panes new with
  | nil => exact ⟨new, rfl, List.Sublist.refl _⟩
  | cons id ids ih =>
    by_cases here : id ∈ panes.map Pane.id
    · simp only [List.foldl_cons, removePane_left here]
      exact ih new
    · obtain ⟨left, same, fewer⟩ := @ih panes (removePane new id)
      have gone : removePane panes id = panes := List.eraseP_of_forall_not fun _ member own =>
        here (List.mem_map.mpr ⟨_, member, of_decide_eq_true own⟩)
      exact ⟨left, by rw [List.foldl_cons, removePane_right here, same, List.foldl_cons, gone], fewer.trans List.eraseP_sublist⟩

def Grew (growth : Nat) (before after : List Pane) : Prop :=
  ∀ ids : List PaneId, bytesOf ((ids.foldl removePane after).map ofPane) ≤ bytesOf ((ids.foldl removePane before).map ofPane) + growth

theorem Grew.fewer {fewer : List Pane} (sublist : fewer.Sublist panes) : Grew 0 panes fewer :=
  fun ids => bytesOf_sublist ((taken_sublist sublist ids).map _)

theorem Grew.more (new : List Pane) : Grew (bytesOf (new.map ofPane)) panes (panes ++ new) := by
  intro ids
  obtain ⟨left, same, fewer⟩ := @taken_append panes new ids
  rw [same, List.map_append, bytesOf_append]
  exact Nat.add_le_add_left (bytesOf_sublist (fewer.map _)) _

theorem Grew.replaced {pane : Pane} {vars : Vars} {growth : Nat} (grown : vars.bytes ≤ pane.vars.bytes + growth)
    (before after : List Pane) : Grew growth (before ++ pane :: after) (before ++ { pane with vars := vars } :: after) := by
  intro ids
  induction ids generalizing before after with
  | nil =>
    simp only [List.foldl_nil, List.map_append, List.map_cons, bytesOf, List.sum_append, List.sum_cons, ofPane]
    omega
  | cons id ids ih =>
    simp only [List.foldl_cons]
    by_cases here : id ∈ before.map Pane.id
    · rw [removePane_left here, removePane_left here]
      exact ih _ after
    · rw [removePane_right here, removePane_right here]
      simp only [removePane, List.eraseP_cons]
      by_cases own : pane.id = id
      · simp [own]
      · simp only [own, decide_false]
        exact ih before _

theorem HasRoom.grown {growth : Nat} {frames : List Frame} {after : List Pane} (room : HasRoom growth frames panes)
    (grew : Grew growth panes after) : HasRoom 0 frames after := by
  induction frames generalizing panes after with
  | nil => trivial
  | cons frame frames ih =>
    have below : Grew growth (frame.panes.foldl removePane panes) (frame.panes.foldl removePane after) := fun ids => by
      rw [← List.foldl_append, ← List.foldl_append]
      exact grew (frame.panes ++ ids)
    refine ⟨fun before member => ?_, ih room.2 below⟩
    have fits := room.1 before member
    have more := grew frame.panes
    omega

end Room

theorem setWithin_bytes {vars after : Vars} {name : VarName} {value : Value} {spare : Nat} {changed : Bool}
    (set : vars.setWithin name value (some spare) = .ok (changed, after)) :
    after = vars ∨ growth vars name value ≤ spare ∧ after.bytes ≤ vars.bytes + growth vars name value := by
  have old := vars.oldWeight_le name
  simp only [Vars.setWithin] at set
  split_ifs at set with same small room light within
  · cases set
    exact .inl rfl
  · cases set
    have limit := of_decide_eq_true within
    right
    simp only [Vars.inserted, growth]
    omega

theorem remove_bytes (vars : Vars) (name : VarName) : (vars.remove name).2.bytes ≤ vars.bytes := by
  simp only [Vars.remove]
  split
  · exact Nat.sub_le _ _
  · exact Nat.le_refl _

-- The total is within its limit and stays so once the open puts are taken back, and the counter is past the panes of the
-- table, or at its end.
structure State.Sound (state : State) : Prop where
  within : state.varsUsed ≤ serverMaxTotal
  below : ∀ id ∈ state.panes.map Pane.id,
    id.number < state.document.ids.pane.value ∨ state.document.ids.pane.value = u64Max
  room : HasRoom 0 state.frames state.panes

namespace State

variable {state : State}

@[simp]
theorem withDocument_panes (document : Document) : (state.withDocument document).panes = state.panes := rfl

@[simp]
theorem withDocument_frames (document : Document) : (state.withDocument document).frames = state.frames := rfl

@[simp]
theorem withDocument_document (document : Document) : (state.withDocument document).document = document := rfl

theorem varSets_of {after : State} (layout : inLayout after.document.layout = inLayout state.document.layout)
    (panes : after.panes = state.panes) : after.varSets = state.varSets := by
  rw [varSets, varSets, layout, panes]

theorem Sound.documented (sound : state.Sound) {document : Document}
    (sets : (inLayout document.layout).Sublist (inLayout state.document.layout))
    (ids : state.document.ids.pane.value ≤ document.ids.pane.value) : (state.withDocument document).Sound where
  within := by
    have within := sound.within
    have fewer := bytesOf_sublist sets
    simp only [varsUsed_eq, varSets, bytesOf_append, withDocument_document, withDocument_panes] at within ⊢
    omega
  below := by
    intro id member
    have bound := document.ids.pane.bound
    have old := sound.below id member
    simp only [withDocument_document]
    omega
  room := sound.room

theorem withVars_sound (sound : state.Sound) {id : PaneId} {pane : Pane} (found : state.find? id = some pane) {vars : Vars}
    {growth : Nat} (grown : vars.bytes ≤ pane.vars.bytes + growth) (fits : state.varsUsed + growth ≤ serverMaxTotal)
    (room : HasRoom growth state.frames state.panes) : (state.withVars id vars).Sound where
  within := by
    have moved := withVars_varsUsed found vars
    omega
  below := by
    rw [withVars_ids found]
    exact sound.below
  room := by
    obtain ⟨before, after, split, same⟩ := withVars_panes found vars
    rw [split] at room
    rw [same]
    exact room.grown (Grew.replaced grown before after)

theorem withVars_same {id : PaneId} {pane : Pane} (found : state.find? id = some pane) :
    state.withVars id pane.vars = state := by
  obtain ⟨before, after, split, same⟩ := withVars_panes found pane.vars
  cases state
  simp_all [withVars]

theorem setVar_sound (sound : state.Sound) (id : PaneId) (name : VarName) (value : Value) (fits : state.Fits (.setVar id name value)) :
    (state.setVar id name value).2.Sound := by
  simp only [setVar]
  cases found : state.find? id with
  | none => exact sound
  | some pane =>
    simp only
    cases set : pane.vars.setWithin name value (some (serverMaxTotal - state.varsUsed)) with
    | error refusal => exact sound
    | ok result =>
      obtain ⟨changed, vars⟩ := result
      have within := sound.within
      obtain rfl | ⟨limit, grown⟩ := setWithin_bytes set
      · simp only [withVars_same found]
        exact sound
      · have total : state.varsUsed + growth pane.vars name value ≤ serverMaxTotal := by omega
        exact withVars_sound sound found grown total (fits pane found total)

theorem deleteVar_sound (sound : state.Sound) (id : PaneId) (name : VarName) : (state.deleteVar id name).Sound := by
  simp only [deleteVar]
  cases found : state.find? id with
  | none => exact sound
  | some pane => exact withVars_sound sound found (remove_bytes pane.vars name) sound.within sound.room

theorem deleteVars_sound (sound : state.Sound) (id : PaneId) (names : List VarName)
    (condition : Option (VarName × Value)) : (state.deleteVars id names condition).2.Sound := by
  simp only [deleteVars]
  split_ifs
  · clear * - sound
    induction names generalizing state with
    | nil => exact sound
    | cons name names ih => exact ih (deleteVar_sound sound id name)
  · exact sound

theorem delete_sound (sound : state.Sound) (what : Removed) (touches : List Touch) : (state.delete what touches).2.Sound := by
  have fewer := inLayout_removed state.document what
  have ids := removed_ids state.document what
  rcases applied : what.apply state.document with ⟨_ | removal, document⟩
  all_goals
    rw [applied] at fewer ids
    have after := sound.documented fewer (congrArg (fun ids => ids.pane.value) ids).ge
    simp only [delete, applied]
  · exact after
  · refine ⟨after.within, after.below, fun before => nofun, ?_⟩
    exact sound.room.grown (Grew.fewer (removePane_sublist _ _))

-- What `putLayoutIn` leaves: the document rolled back, the panes of a failed put to be taken out, or the put document.
inductive Put (state : State) (request : PutLayout) (met : Met) : Option (Except PutFailure Snapshot) → State → Prop where
  | refused (failure : PutFailure) (document : Document) (layout : document.layout = state.document.layout)
      (ids : state.document.ids.pane.value ≤ document.ids.pane.value) : Put state request met (some (.error failure)) (state.withDocument document)
  | failed (failure : PutFailure) (document : Document) (created done : List (PaneId × CreatePane × Vars))
      (put : state.document.putWithShell request met.newWindow met.shell = (.ok created, document))
      (fits : (state.withDocument document).varsUsed + added created ≤ serverMaxTotal)
      (part : ∃ left, left ≠ [] ∧ created = done ++ left) :
      Put state request met none ⟨document, state.panes ++ done.map made, .retract (done.map Prod.fst) state.document failure :: state.frames⟩
  | taken (created : List (PaneId × CreatePane × Vars)) (document : Document)
      (put : state.document.putWithShell request met.newWindow met.shell = (.ok created, document))
      (checks : met.runtimeLayout = none ∧ met.choice = none ∧ ∀ id ∈ created.map Prod.fst, met.birth id = none)
      (fits : (state.withDocument document).varsUsed + added created ≤ serverMaxTotal) :
      Put state request met (some (.ok (snapshotOf (conclude state.document document .accepted met.touches))))
        ⟨conclude state.document document .accepted met.touches, state.panes ++ created.map made, state.frames⟩

theorem putLayoutIn_put (state : State) (request : PutLayout) (met : Met) :
    Put state request met (state.putLayoutIn request met).1 (state.putLayoutIn request met).2 := by
  rcases put : state.document.putWithShell request met.newWindow met.shell with ⟨error | created, document⟩
  · have same := putWithShell_error put
    subst same
    cases error with
    | stale =>
      simp only [putLayoutIn, put]
      exact .refused _ state.document rfl (Nat.le_refl _)
    | invalid message =>
      simp only [putLayoutIn, put]
      exact .refused _ state.document rfl (Nat.le_refl _)
  · obtain ⟨_, grown, _, _⟩ := created_fresh put
    have back (failure : PutFailure) :
        Put state request met (some (.error failure)) (state.withDocument (document.rollback state.document)) :=
      .refused failure _ rfl grown
    simp only [putLayoutIn, put]
    split
    · exact back _
    · next layout =>
      split
      · exact back _
      · next choice =>
        split_ifs with beyond
        · exact back _
        · have fits := Nat.not_lt.mp beyond
          obtain ⟨done, left, split, after, whole⟩ := addPanes_cases met.birth created [] state.panes
          have births := addPanes_none met.birth created [] state.panes
          rcases births' : addPanes met.birth created [] state.panes with ⟨_ | error, started, panes⟩
          · rw [births'] at after whole births
            have every : done = created := by rw [split, whole.mp rfl, List.append_nil]
            obtain rfl : panes = state.panes ++ created.map made := every ▸ congrArg Prod.snd after
            exact .taken created document put ⟨layout, choice, births rfl⟩ fits
          · rw [births'] at after whole
            obtain rfl : started = done.map Prod.fst := congrArg Prod.fst after
            obtain rfl : panes = state.panes ++ done.map made := congrArg Prod.snd after
            cases done with
            | nil => exact back _
            | cons first done =>
              exact .failed _ document created (first :: done) put fits ⟨left, (fun none_ => nomatch whole.mpr none_), split⟩

theorem bytesOf_made (created : List (PaneId × CreatePane × Vars)) : bytesOf ((created.map made).map ofPane) = added created := by
  rw [bytesOf, List.map_map, List.map_map]
  rfl

theorem retracted (sound : state.Sound) {request : PutLayout} {met : Met} {created done left : List (PaneId × CreatePane × Vars)}
    {document : Document} (put : state.document.putWithShell request met.newWindow met.shell = (.ok created, document))
    (part : created = done ++ left) (some_ : left ≠ []) :
    (done.map Prod.fst).foldl removePane (state.panes ++ done.map made) = state.panes := by
  obtain ⟨_, _, fresh, full⟩ := created_fresh put
  refine removePane_made fun pane member new => ?_
  have inside : pane.id ∈ created.map Prod.fst := by
    rw [part, List.map_append]
    exact List.mem_append_left _ new
  by_cases last : state.document.ids.pane.value = u64Max
  · -- The last number is handed out for one pane only, and that one did not start.
    have few := (full last).1
    have one := List.length_pos_of_mem new
    have other := List.length_pos_iff.mpr some_
    rw [List.length_map] at one
    rw [part, List.length_append] at few
    omega
  · have old := (sound.below pane.id (List.mem_map_of_mem member)).resolve_right last
    have new' := fresh last pane.id inside
    omega

theorem created_below (sound : state.Sound) {request : PutLayout} {met : Met} {created done : List (PaneId × CreatePane × Vars)}
    {document : Document} (put : state.document.putWithShell request met.newWindow met.shell = (.ok created, document))
    (part : done.Sublist created) :
    ∀ id ∈ (state.panes ++ done.map made).map Pane.id, id.number < document.ids.pane.value ∨ document.ids.pane.value = u64Max := by
  obtain ⟨below, grown, _, full⟩ := created_fresh put
  intro id member
  simp only [List.map_append, List.mem_append] at member
  obtain old | new := member
  · obtain low | high := sound.below id old
    · exact .inl (by omega)
    · exact .inr (full high).2
  · refine below id ((part.map _).subset ?_)
    simpa [made, Function.comp_def] using new

theorem putLayoutIn_sound (sound : state.Sound) (request : PutLayout) (met : Met) (fits : state.Fits (.put request met)) :
    (state.putLayoutIn request met).2.Sound := by
  have within {document : Document} {created done : List (PaneId × CreatePane × Vars)} (part : done.Sublist created)
      (room : (state.withDocument document).varsUsed + added created ≤ serverMaxTotal) :
      bytesOf (inLayout document.layout) + bytesOf (state.panes.map ofPane) + added done ≤ serverMaxTotal := by
    have fewer := bytesOf_sublist ((part.map made).map ofPane)
    rw [bytesOf_made, bytesOf_made] at fewer
    simp only [varsUsed_eq, varSets, bytesOf_append, withDocument_document, withDocument_panes] at room
    omega
  generalize result : state.putLayoutIn request met = answered
  have put := putLayoutIn_put state request met
  rw [result] at put
  obtain ⟨answer, after⟩ := answered
  cases put with
  | refused failure document layout ids => exact sound.documented (by rw [layout]) ids
  | failed failure document created done put room part =>
    obtain ⟨left, some_, part⟩ := part
    have fewer : done.Sublist created := part ▸ List.sublist_append_left _ _
    have back := retracted sound put part some_
    have before := sound.within
    rw [varsUsed_eq, varSets, bytesOf_append] at before
    refine ⟨?_, created_below sound put fewer, ?_, ?_⟩
    · have total := within fewer room
      simp only [varsUsed_eq, varSets, bytesOf_append, List.map_append, bytesOf_made]
      omega
    · rintro _ ⟨⟩
      simp only [Frame.panes, back]
      exact before
    · simp only [Frame.panes, back]
      exact sound.room
  | taken created document put checks room =>
    have allowed := fits created (by rw [put]; rfl)
    rw [put] at allowed
    refine ⟨?_, ?_, ?_⟩
    · have total := within (List.Sublist.refl created) room
      simp only [varsUsed_eq, varSets, bytesOf_append, List.map_append, bytesOf_made, inLayout_conclude]
      omega
    · simp only [conclude_ids]
      exact created_below sound put (List.Sublist.refl _)
    · refine (allowed checks.1 checks.2.1 checks.2.2 room).2.grown ?_
      rw [← bytesOf_made]
      exact Grew.more _

theorem resume_sound (sound : state.Sound) : state.resume.2.Sound := by
  obtain ⟨document, panes, frames⟩ := state
  have taken (id : PaneId) (later : List Frame) (room : HasRoom 0 later (removePane panes id)) :
      Sound ⟨document, removePane panes id, later⟩ := by
    have fewer : (removePane panes id).Sublist panes := List.eraseP_sublist
    refine ⟨?_, fun other member => sound.below other ((fewer.map _).subset member), room⟩
    have within := sound.within
    have less := bytesOf_sublist (fewer.map ofPane)
    simp only [varsUsed_eq, varSets, bytesOf_append] at within ⊢
    omega
  cases frames with
  | nil => exact sound
  | cons frame frames =>
    obtain ⟨here, room⟩ := sound.room
    cases frame with
    | retract ids before failure =>
      cases ids with
      | nil =>
        refine ⟨?_, sound.below, room⟩
        have total := here before rfl
        simp only [varsUsed_eq, varSets, bytesOf_append]
        exact total
      | cons id ids => exact taken id _ ⟨here, room⟩
    | stopping ids touches =>
      cases ids with
      | nil =>
        refine @Sound.documented ⟨document, panes, frames⟩ ⟨sound.within, sound.below, room⟩ _ ?_ ?_
        · rw [publish_layout, inLayout_touched]
        · rw [publish_ids, touched_ids]
      | cons id ids => exact taken id _ ⟨here, room⟩

theorem step_sound (sound : state.Sound) (op : Op) (fits : state.Fits op) : (state.step op).Sound := by
  cases op with
  | put request met => exact putLayoutIn_sound sound request met fits
  | setVar id name value => exact setVar_sound sound id name value fits
  | deleteVar id name => exact deleteVar_sound sound id name
  | deleteVars id names condition => exact deleteVars_sound sound id names condition
  | delete what touches => exact delete_sound sound what touches
  | touch one => exact sound.documented (by rw [inLayout_touch]) (by rw [touch_ids])
  | publish => exact sound.documented (by rw [publish_layout]) (by rw [publish_ids])
  | next => exact resume_sound sound

theorem start_sound : start.Sound where
  within := Nat.zero_le _
  below := nofun
  room := trivial

theorem run_sound {ops : List Op} (fits : AllAllowed step Fits start ops) : (run ops).Sound :=
  run_allowed (P := Sound) (fun _ op sound fits => step_sound sound op fits) start_sound fits

theorem deleteVar_frame (id : PaneId) (name : VarName) :
    (state.deleteVar id name).document = state.document ∧ (state.deleteVar id name).frames = state.frames := by
  rw [deleteVar]
  split <;> exact ⟨rfl, rfl⟩

theorem deleteVars_frame (id : PaneId) (names : List VarName) (condition : Option (VarName × Value)) :
    (state.deleteVars id names condition).2.document = state.document ∧ (state.deleteVars id names condition).2.frames = state.frames := by
  rw [deleteVars]
  split_ifs with holds
  · clear holds
    induction names generalizing state with
    | nil => exact ⟨rfl, rfl⟩
    | cons name names ih =>
      obtain ⟨document, frames⟩ := @deleteVar_frame state id name
      exact ⟨(@ih (state.deleteVar id name)).1.trans document, (@ih (state.deleteVar id name)).2.trans frames⟩
  · exact ⟨rfl, rfl⟩

theorem deleteVars_refused {id : PaneId} {names : List VarName} {condition : Option (VarName × Value)}
    (refused : (state.deleteVars id names condition).1 = false) : (state.deleteVars id names condition).2 = state := by
  rw [deleteVars] at refused ⊢
  split_ifs at refused ⊢
  rfl

theorem delete_unknown {what : Removed} {touches : List Touch} (unknown : (state.delete what touches).1 = false) :
    (state.delete what touches).2 = state := by
  have same := removed_unknown what state.document
  rw [delete] at unknown ⊢
  generalize what.apply state.document = applied at same unknown ⊢
  obtain ⟨_ | removal, document⟩ := applied
  · rw [show document = state.document from same rfl]
    rfl
  · cases unknown

-- What is refused when it is asked changes no variable.
theorem refused_same (op : Op) (asked : op ≠ .next) (refused : (state.take op).1 = .refused) :
    (state.step op).varSets = state.varSets := by
  cases op with
  | put request met =>
    have put := putLayoutIn_put state request met
    simp only [step, take] at refused ⊢
    generalize state.putLayoutIn request met = answered at put refused ⊢
    obtain ⟨answer, after⟩ := answered
    cases put with
    | refused failure document layout ids => exact varSets_of (congrArg inLayout layout) rfl
    | failed => cases refused
    | taken => cases refused
  | setVar id name value =>
    simp only [step, take, setVar] at refused ⊢
    cases found : state.find? id with
    | none => rfl
    | some pane =>
      rw [found] at refused
      simp only at refused ⊢
      cases set : pane.vars.setWithin name value (some (serverMaxTotal - state.varsUsed)) with
      | error refusal => rfl
      | ok result =>
        rw [set] at refused
        cases refused
  | deleteVar id name => cases refused
  | deleteVars id names condition =>
    simp only [step, take] at refused ⊢
    split_ifs at refused with holds
    rw [deleteVars_refused (Bool.eq_false_iff.mpr holds)]
  | delete what touches =>
    simp only [step, take] at refused ⊢
    split_ifs at refused with found
    rw [delete_unknown (Bool.eq_false_iff.mpr found)]
  | touch one => cases refused
  | publish => cases refused
  | next => exact absurd rfl asked

-- The layout once the puts among the frames are taken back.
def settled (frames : List Frame) (layout : Layout) : Layout :=
  frames.foldl (fun layout frame => (frame.before?.map Document.layout).getD layout) layout

theorem settled_keeps (frames : List Frame) {before after : Layout} (keeps : Keeps before after) :
    Keeps (settled frames before) (settled frames after) := by
  induction frames generalizing before after with
  | nil => exact keeps
  | cons frame frames ih =>
    cases frame with
    | retract ids document failure => exact Keeps.of_same rfl
    | stopping ids touches => exact ih keeps

theorem asked_settled (op : Op) (asked : op ≠ .next) (retracting : state.retracting = true) (fits : state.Fits op) :
    ∃ pushed, (state.step op).frames = pushed ++ state.frames ∧
      Keeps state.document.layout (settled pushed (state.step op).document.layout) := by
  have plain {after : State} (frames : after.frames = state.frames)
      (layout : inLayout after.document.layout = inLayout state.document.layout) :
      ∃ pushed, after.frames = pushed ++ state.frames ∧ Keeps state.document.layout (settled pushed after.document.layout) :=
    ⟨[], frames, Keeps.of_same layout⟩
  cases op with
  | put request met =>
    have put := putLayoutIn_put state request met
    simp only [step, take]
    generalize state.putLayoutIn request met = answered at put
    obtain ⟨answer, after⟩ := answered
    cases put with
    | refused failure document layout ids => exact plain rfl (congrArg inLayout layout)
    | failed failure document created done put room part =>
      exact ⟨[.retract (done.map Prod.fst) state.document failure], rfl, Keeps.of_same rfl⟩
    | taken created document put checks room =>
      have allowed := fits created (by rw [put]; rfl)
      rw [put] at allowed
      have keeps := (allowed checks.1 checks.2.1 checks.2.2 room).1 retracting
      exact ⟨[], rfl, keeps.trans (Keeps.of_same (inLayout_conclude state.document document met.touches))⟩
  | setVar id name value =>
    simp only [step, take, setVar]
    cases state.find? id with
    | none => exact plain rfl rfl
    | some pane =>
      simp only
      cases pane.vars.setWithin name value (some (serverMaxTotal - state.varsUsed)) <;> exact plain rfl rfl
  | deleteVar id name =>
    obtain ⟨document, frames⟩ := @deleteVar_frame state id name
    exact plain frames (congrArg (fun document => inLayout document.layout) document)
  | deleteVars id names condition =>
    obtain ⟨document, frames⟩ := @deleteVars_frame state id names condition
    exact plain frames (congrArg (fun document => inLayout document.layout) document)
  | delete what touches =>
    have same := fits retracting
    simp only [step, take, delete]
    generalize what.apply state.document = applied at same
    obtain ⟨_ | removal, document⟩ := applied
    · exact ⟨[], rfl, same⟩
    · exact ⟨[.stopping removal.panes touches], rfl, same⟩
  | touch one => exact plain rfl (inLayout_touch _ one)
  | publish => exact plain rfl (congrArg inLayout (publish_layout _))
  | next => exact absurd rfl asked

section TakingBack

variable {base : State} {layout : Layout}

-- The put that came at `base` and put `layout` is not answered yet, and once it is on top it finds the sets that it put.
def Open (base : State) (layout : Layout) (state : State) : Prop :=
  ∃ upper ids failure, state.frames = upper ++ .retract ids base.document failure :: base.frames ∧
    Keeps layout (settled upper state.document.layout)

def Closed (base state : State) : Prop :=
  state.frames = base.frames ∧ inLayout state.document.layout = inLayout base.document.layout

theorem Open.step (own : Open base layout state) (op : Op) (fits : state.Fits op) :
    Open base layout (state.step op) ∨ Closed base (state.step op) := by
  obtain ⟨upper, ids, failure, frames, same⟩ := own
  by_cases asked : op = .next
  · subst asked
    obtain ⟨document, panes, frames'⟩ := state
    simp only at frames same
    subst frames
    cases upper with
    | nil =>
      cases ids with
      | nil => exact .inr ⟨rfl, rfl⟩
      | cons id ids => exact .inl ⟨[], ids, failure, rfl, same⟩
    | cons frame upper =>
      left
      cases frame with
      | retract others before failure' =>
        cases others with
        | nil => exact ⟨upper, ids, failure, rfl, same⟩
        | cons id others => exact ⟨.retract others before failure' :: upper, ids, failure, rfl, same⟩
      | stopping others touches =>
        cases others with
        | nil =>
          refine ⟨upper, ids, failure, rfl, same.trans (settled_keeps upper (Keeps.of_same ?_))⟩
          exact (congrArg inLayout (publish_layout _)).trans (inLayout_touched touches document)
        | cons id others => exact ⟨.stopping others touches :: upper, ids, failure, rfl, same⟩
  · have retracting : state.retracting = true := by
      rw [retracting, frames]
      simp [Frame.before?]
    obtain ⟨pushed, more, kept⟩ := asked_settled op asked retracting fits
    refine .inl ⟨pushed ++ upper, ids, failure, by rw [more, frames, List.append_assoc], ?_⟩
    rw [settled, List.foldl_append]
    exact same.trans (settled_keeps upper kept)

theorem Open.run {ops : List Op} (own : Open base layout state) (fits : AllAllowed State.step Fits state ops)
    (longer : AllAllowed State.step (fun state _ => base.frames.length < state.frames.length) state ops) :
    Open base layout (Shared.run State.step state ops) ∨ Closed base (Shared.run State.step state ops) := by
  induction ops generalizing state with
  | nil => exact .inl own
  | cons op ops ih =>
    obtain next | closed := own.step op fits.1
    · exact ih next fits.2 longer.2
    · cases ops with
      | nil => exact .inr closed
      | cons other ops => exact absurd longer.2.1 (Nat.not_lt.mpr (congrArg List.length closed.1).le)

theorem nexts_restore {ids : List PaneId} {failure : PutFailure} {ops : List Op}
    (frames : state.frames = .retract ids base.document failure :: base.frames) (panes : ids.foldl removePane state.panes = base.panes)
    (nexts : ∀ op ∈ ops, op = .next)
    (longer : AllAllowed State.step (fun state _ => base.frames.length < state.frames.length) state ops)
    (closed : (Shared.run State.step state ops).frames.length = base.frames.length) :
    (Shared.run State.step state ops).varSets = base.varSets := by
  induction ops generalizing state ids with
  | nil =>
    rw [Shared.run_nil, frames, List.length_cons] at closed
    omega
  | cons op ops ih =>
    obtain rfl := nexts op List.mem_cons_self
    have rest : ∀ op ∈ ops, op = .next := fun op member => nexts op (List.mem_cons_of_mem _ member)
    obtain ⟨document, table, _⟩ := state
    simp only at frames panes
    subst frames
    cases ids with
    | cons id ids => exact ih rfl panes rest longer.2 closed
    | nil =>
      cases ops with
      | nil => exact varSets_of rfl panes
      | cons other ops => exact absurd longer.2.1 (Nat.lt_irrefl _)

end TakingBack

-- A put that fails once it has started panes, with all that is served till it is answered. Until then nothing but the put has
-- changed the variables of sessions and windows, then they are as before it; and all variables are where nothing was served.
def TakesBack (ops : List Op) : Prop :=
  ∀ first request met between, ops = first ++ .put request met :: between →
    ((run first).take (.put request met)).1 = .later →
    AllAllowed step (fun state _ => (run first).frames.length < state.frames.length) ((run first).step (.put request met)) between →
      ((run ops).frames.length = (run first).frames.length + 1 →
        Keeps ((run first).step (.put request met)).document.layout (run ops).document.layout) ∧
      ((run ops).frames.length = (run first).frames.length →
        inLayout (run ops).document.layout = inLayout (run first).document.layout ∧
          ((∀ op ∈ between, op = .next) → (run ops).varSets = (run first).varSets))

theorem takesBack {ops : List Op} (fits : AllAllowed step Fits start ops) : TakesBack ops := by
  rintro first request met between rfl later longer
  obtain ⟨before, after⟩ := allAllowed_append.mp fits
  have sound : (run first).Sound := run_sound before
  have same : run (first ++ .put request met :: between) = Shared.run step ((run first).step (.put request met)) between :=
    Shared.run_append _ _ _ _
  rw [same]
  have put := putLayoutIn_put (run first) request met
  have own : ∃ document ids failure panes, (run first).step (.put request met) =
      ⟨document, panes, .retract ids (run first).document failure :: (run first).frames⟩ ∧ ids.foldl removePane panes = (run first).panes := by
    simp only [step, take] at later ⊢
    generalize (run first).putLayoutIn request met = answered at put later ⊢
    obtain ⟨answer, after⟩ := answered
    cases put with
    | refused => cases later
    | failed failure document created done put room part =>
      obtain ⟨left, some_, part⟩ := part
      exact ⟨_, _, _, _, rfl, retracted sound put part some_⟩
    | taken => cases later
  obtain ⟨document, ids, failure, panes, is, back⟩ := own
  have first' : Open (run first) document.layout ((run first).step (.put request met)) := by
    rw [is]
    exact ⟨[], ids, failure, rfl, Keeps.of_same rfl⟩
  have ends := first'.run after.2 longer
  constructor
  · intro length
    obtain ⟨upper, ids, failure, frames, kept⟩ | closed := ends
    · rw [frames, List.length_append, List.length_cons] at length
      obtain rfl := List.length_eq_zero_iff.mp (show upper.length = 0 by omega)
      rw [show ((run first).step (.put request met)).document = document by rw [is]]
      exact kept
    · have short := congrArg List.length closed.1
      omega
  · intro length
    refine ⟨?_, fun nexts => nexts_restore (by rw [is]) (by rw [is]; exact back) nexts longer length⟩
    obtain ⟨upper, ids, failure, frames, kept⟩ | closed := ends
    · rw [frames, List.length_append, List.length_cons] at length
      omega
    · exact closed.2

-- In every run in which what is served while a put takes its panes back fits, each set counts its bytes right and keeps its
-- limits, all of them together keep the limit of the server, and what is refused, at once or later, changes no variable.
theorem quotas_hold (ops : List Op) (fits : AllAllowed step Fits start ops) :
    (∀ set ∈ (run ops).varSets,
      set.2.bytes = (set.2.map.entries.map fun entry => weightOf entry.1 entry.2.1).sum ∧
        (∀ entry ∈ set.2.map.entries, entry.2.2 = weightOf entry.1 entry.2.1) ∧
        set.2.bytes ≤ maxTotal ∧ set.2.map.size ≤ maxNames) ∧
      ((run ops).varSets.map fun set => set.2.bytes).sum ≤ serverMaxTotal ∧
      (run ops).varsUsed = ((run ops).varSets.map fun set => set.2.bytes).sum ∧
      (∀ op, op ≠ .next → ((run ops).take op).1 = .refused → ((run ops).step op).varSets = (run ops).varSets) ∧
      TakesBack ops := by
  have within := (run_sound fits).within
  rw [varsUsed_eq] at within
  refine ⟨fun set _ => ⟨?_, fun entry member => (set.2.weights entry member).1, set.2.bound, set.2.names⟩, within,
    varsUsed_eq _, fun op asked => refused_same op asked, takesBack fits⟩
  rw [set.2.total]
  exact congrArg List.sum (List.map_congr_left fun entry member => (set.2.weights entry member).1)

def meets (fails : Option PaneId) : Met where
  newWindow := none
  shell := none
  runtimeLayout := none
  choice := none
  birth id := if some id = fails then some (.io "no such directory") else none
  touches := []

def note : VarName := ⟨"note", by decide, by decide⟩

def pairWindow : DraftWindow := { singleWindow with tree := .split .horizontal [.leaf freshLeaf, .leaf freshLeaf] }

-- A session with a window of two panes; the session and the window have these variables.
def opened (vars : Loose) : Op := .put ⟨.first, ⟨[⟨none, singleName, vars, [{ pairWindow with vars := vars }]⟩]⟩⟩ (meets none)

def oldWindow : DraftWindow :=
  { singleWindow with
    id := some ⟨1⟩
    tree := .split .horizontal [.leaf ⟨.existing ⟨1⟩, none, none⟩, .leaf ⟨.existing ⟨2⟩, none, none⟩] }

-- It takes the variables away and opens two more panes, of which the second does not start.
def failing : Op := .put ⟨⟨1⟩, ⟨[⟨some ⟨1⟩, singleName, .empty, [oldWindow, pairWindow]⟩]⟩⟩ (meets (some ⟨4⟩))

-- Taking out the pane that did start settles a stop of the second pane, which is dead; behind the stop came a `set_var`.
def settles : List Op := [.next, .delete (.pane ⟨2⟩) [], .next, .next, .setVar ⟨1⟩ note ⟨"1"⟩, .next]

def noted : Loose := SortedMap.empty.insert note.text ⟨"1"⟩

theorem noted_hold :
    ((run (opened noted :: failing :: settles)).varSets.map fun set => set.2.bytes).sum ≤ serverMaxTotal ∧
      TakesBack (opened noted :: failing :: settles) :=
  have hold := quotas_hold (opened noted :: failing :: settles) (by decide +kernel)
  ⟨hold.2.1, hold.2.2.2.2⟩

def long (size : Nat) : Value := ⟨String.ofList (List.replicate size 'a')⟩

theorem long_size (size : Nat) : (long size).size = size := by
  have length : String.utf8Len (List.replicate size 'a') = size := by
    induction size with
    | zero => rfl
    | succ size ih =>
      rw [List.replicate_succ, String.utf8Len_cons, ih]
      rfl
  rw [long, Value.size, String.utf8ByteSize_ofList, length]

def letters : List VarName :=
  [⟨"a", by decide, by decide⟩, ⟨"b", by decide, by decide⟩, ⟨"c", by decide, by decide⟩, ⟨"d", by decide, by decide⟩,
    ⟨"e", by decide, by decide⟩, ⟨"f", by decide, by decide⟩, ⟨"g", by decide, by decide⟩, ⟨"h", by decide, by decide⟩]

theorem letters_sorted : (letters ++ [note]).Pairwise (· < ·) := by decide +kernel

theorem letter_size : ∀ name ∈ letters, name.text.utf8ByteSize = 1 := by decide

theorem note_size : note.text.utf8ByteSize = 4 := by decide

def weighed (size rest : Nat) : List (VarName × Value × Nat) :=
  (letters.map fun name => (name, long size, size + 1)) ++ [(note, long rest, rest + 4)]

theorem weighed_sorted (size rest : Nat) : ((weighed size rest).map Prod.fst).Pairwise (· < ·) := by
  rw [weighed, List.map_append, List.map_map]
  exact letters_sorted

theorem weighed_weights {size rest : Nat} (small : size ≤ maxValue ∧ rest ≤ maxValue) :
    ∀ entry ∈ weighed size rest, entry.2.2 = weightOf entry.1 entry.2.1 ∧ entry.2.1.size ≤ maxValue := by
  intro entry member
  obtain letter | last := List.mem_append.mp member
  · obtain ⟨name, inside, rfl⟩ := List.mem_map.mp letter
    simp only [weightOf, long_size, letter_size name inside]
    exact ⟨Nat.add_comm _ _, small.1⟩
  · obtain rfl := List.mem_singleton.mp last
    simp only [weightOf, long_size, note_size]
    exact ⟨Nat.add_comm _ _, small.2⟩

theorem weighed_total (size rest : Nat) : 8 * (size + 1) + (rest + 4) = ((weighed size rest).map fun entry => entry.2.2).sum := by
  simp only [weighed, letters, List.map_cons, List.map_nil, List.cons_append, List.nil_append, List.sum_cons, List.sum_nil]
  omega

theorem weighed_names (size rest : Nat) : (weighed size rest).length ≤ maxNames := by simp [weighed, letters, maxNames]

-- Eight values of one size, and a ninth.
def filled (size rest : Nat) (small : size ≤ maxValue ∧ rest ≤ maxValue) (bound : 8 * (size + 1) + (rest + 4) ≤ maxTotal) : Vars :=
  ⟨⟨weighed size rest, weighed_sorted size rest⟩, 8 * (size + 1) + (rest + 4), weighed_weights small, weighed_total size rest,
    weighed_names size rest, bound⟩

-- As many bytes as a set may have.
def full : Vars := filled maxValue 32756 (by decide) (by decide)

def openedLayout (vars : Vars) : Layout :=
  ⟨[{
    id := ⟨1⟩
    name := singleName
    vars := vars
    windows := [{
      id := ⟨1⟩
      name := singleWindowName
      vars := vars
      cols := unsizedWindow.cols
      rows := unsizedWindow.rows
      cellPx := none
      zoom := none
      focus := ⟨1⟩
      tree := .split .horizontal
        [.leaf ⟨⟨1⟩, Cells.clamped 40, unsizedWindow.rows⟩, .leaf ⟨⟨2⟩, Cells.clamped 39, unsizedWindow.rows⟩]
      floats := [] }] }]⟩

def openedIds : Ids := ⟨⟨3, by decide⟩, ⟨2, by decide⟩, ⟨2, by decide⟩⟩

theorem opened_put (vars : Vars) :
    Document.new.putWithShell ⟨.first, ⟨[⟨none, singleName, vars.loose, [{ pairWindow with vars := vars.loose }]⟩]⟩⟩ none none =
      (.ok [(⟨1⟩, freshPane, .empty), (⟨2⟩, freshPane, .empty)], ⟨.first, true, openedLayout vars, openedIds⟩) := by
  have checked := Vars.checked_loose vars
  simp only [Document.putWithShell, Kido.Tiling.normalize, List.map_cons, List.map_nil, Claims.draftSession, runAll, Claims.draftWindow,
    Claims.window, checked, bind, Except.bind]
  cbv

theorem opened_step (vars : Vars) :
    start.step (opened vars.loose) =
      ⟨⟨⟨1⟩, false, openedLayout vars, openedIds⟩, [⟨⟨1⟩, .empty⟩, ⟨⟨2⟩, .empty⟩], []⟩ := by
  have put := opened_put vars
  have bound := vars.bound
  have room : ¬serverMaxTotal < vars.bytes + (vars.bytes + 0) + 0 + 0 + 0 := by
    simp only [serverMaxTotal, maxTotal] at bound ⊢
    omega
  simp only [step, take, putLayoutIn, opened]
  rw [show start.document = .new from rfl, show (meets none).newWindow = none from rfl, show (meets none).shell = none from rfl, put]
  exact congrArg (fun result : Option (Except PutFailure Snapshot) × State => result.2) (if_neg room)

-- The session and the window have 8 MiB each. While they are taken away a `set_var` is let in, and then they are put back.
theorem restored_over :
    serverMaxTotal < ((run (opened full.loose :: failing :: settles)).varSets.map fun set => set.2.bytes).sum := by
  rw [run, Shared.run, List.foldl_cons, opened_step]
  decide +kernel

end State

end Kido.Quotas
