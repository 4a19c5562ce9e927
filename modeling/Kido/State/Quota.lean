import Kido.Client.Edit

set_option autoImplicit false

namespace Kido.Quotas

open Kido.Tiling Kido.Editing

def serverMaxTotal : Nat := 16 * 2 ^ 20

structure Pane where
  id : PaneId
  vars : Vars

inductive AddError where
  | invalid (message : String)
  | io (error : String)

inductive PutFailure where
  | stale (snapshot : Snapshot)
  | invalid (message : String)
  | rejected (error : String)
  | io (error : String)

-- A put that takes its panes out again before it rolls back, and a deletion that stops its panes. Each pane that is taken
-- out can settle stops, and what their connections sent behind them is served before the rest.
inductive Frame where
  | retract (panes : List PaneId) (before : Document) (failure : PutFailure)
  | stopping (panes : List PaneId) (touches : List Touch)

structure State where
  document : Document
  panes : List Pane
  frames : List Frame

-- What a put meets on its way: the sizes and the shell it is given, the first refusal of each check that does not look
-- at variables, and how the birth of each pane goes.
structure Met where
  newWindow : Option Size
  shell : Option Name
  runtimeLayout : Option String
  choice : Option String
  birth : PaneId → Option AddError
  touches : List Touch

-- `birth` and `add_pane` for one pane after another, up to the first that fails: the panes started, and the table.
def addPanes (birth : PaneId → Option AddError) :
    List (PaneId × CreatePane × Vars) → List PaneId → List Pane → Option AddError × List PaneId × List Pane
  | [], started, panes => (none, started, panes)
  | (id, _, vars) :: rest, started, panes =>
    match birth id with
    | some error => (some error, started, panes)
    | none => addPanes birth rest (started ++ [id]) (panes ++ [⟨id, vars⟩])

def removePane (panes : List Pane) (id : PaneId) : List Pane := panes.eraseP fun pane => decide (pane.id = id)

def AddError.failure : AddError → PutFailure
  | .invalid message => .invalid message
  | .io error => .io error

namespace State

def varsUsed (state : State) : Nat :=
  let inLayout := (state.document.layout.sessions.map fun session =>
    session.vars.bytes + (session.windows.map fun window => window.vars.bytes).sum).sum
  inLayout + (state.panes.map fun pane => pane.vars.bytes).sum

def withDocument (state : State) (document : Document) : State := { state with document := document }

def putLayoutIn (state : State) (request : PutLayout) (met : Met) : Option (Except PutFailure Snapshot) × State :=
  let before := state.document
  match before.putWithShell request met.newWindow met.shell with
  | (.error .stale, document) => (some (.error (.stale (snapshotOf document))), state.withDocument document)
  | (.error (.invalid message), document) => (some (.error (.invalid message)), state.withDocument document)
  | (.ok created, document) =>
    match met.runtimeLayout with
    | some error => (some (.error (.rejected error)), state.withDocument (document.rollback before))
    | none =>
      match met.choice with
      | some error => (some (.error (.rejected error)), state.withDocument (document.rollback before))
      | none =>
        let added := (created.map fun (_, _, vars) => vars.bytes).sum
        if serverMaxTotal < (state.withDocument document).varsUsed + added then
          (some (.error (.invalid Refusal.serverTotalTooLarge.text)), state.withDocument (document.rollback before))
        else
          match addPanes met.birth created [] state.panes with
          | (some error, [], _) => (some (.error error.failure), state.withDocument (document.rollback before))
          | (some error, started, panes) => (none, ⟨document, panes, .retract started before error.failure :: state.frames⟩)
          | (none, _, panes) =>
            let document := conclude before document .accepted met.touches
            (some (.ok (snapshotOf document)), ⟨document, panes, state.frames⟩)

def find? (state : State) (id : PaneId) : Option Pane := state.panes.find? fun pane => decide (pane.id = id)

def withVars (state : State) (id : PaneId) (vars : Vars) : State :=
  { state with
    panes := replaceFirst (fun pane => decide (pane.id = id)) (fun pane => [{ pane with vars := vars }]) state.panes }

def setVar (state : State) (id : PaneId) (name : VarName) (value : Value) : Except Refusal Unit × State :=
  let spare := serverMaxTotal - state.varsUsed
  match state.find? id with
  | none => (.ok (), state)
  | some pane =>
    match pane.vars.setWithin name value (some spare) with
    | .error refusal => (.error refusal, state)
    | .ok (_, vars) => (.ok (), state.withVars id vars)

def deleteVar (state : State) (id : PaneId) (name : VarName) : State :=
  match state.find? id with
  | none => state
  | some pane => state.withVars id (pane.vars.remove name).2

-- A condition that does not hold, where the pane is not there too, refuses.
def deleteVars (state : State) (id : PaneId) (names : List VarName) (condition : Option (VarName × Value)) :
    Bool × State :=
  let holds := condition.all fun (name, value) =>
    decide (((state.find? id).bind fun pane => (pane.vars.map.find? name).map Prod.fst) = some value)
  if holds then (true, names.foldl (fun state name => state.deleteVar id name) state) else (false, state)

def delete (state : State) (what : Removed) (touches : List Touch) : Bool × State :=
  match what.apply state.document with
  | (none, document) => (false, state.withDocument document)
  | (some removal, document) => (true, ⟨document, state.panes, .stopping removal.panes touches :: state.frames⟩)

end State

inductive Op where
  | put (request : PutLayout) (met : Met)
  | setVar (id : PaneId) (name : VarName) (value : Value)
  | deleteVar (id : PaneId) (name : VarName)
  | deleteVars (id : PaneId) (names : List VarName) (condition : Option (VarName × Value))
  | delete (what : Removed) (touches : List Touch)
  | touch (touch : Touch)
  | publish
  | next

inductive Answer where
  | done
  | refused
  -- What was asked goes on: its answer comes with a later `next`.
  | later
deriving DecidableEq

def Answer.of {ε α : Type} : Except ε α → Answer
  | .ok _ => .done
  | .error _ => .refused

namespace State

def start : State := ⟨.new, [], []⟩

def resume (state : State) : Answer × State :=
  match state.frames with
  | [] => (.done, state)
  | .retract (id :: panes) before failure :: frames =>
    (.later, ⟨state.document, removePane state.panes id, .retract panes before failure :: frames⟩)
  | .retract [] before failure :: frames =>
    (.of (.error failure : Except PutFailure Snapshot), ⟨state.document.rollback before, state.panes, frames⟩)
  | .stopping (id :: panes) touches :: frames =>
    (.later, ⟨state.document, removePane state.panes id, .stopping panes touches :: frames⟩)
  | .stopping [] touches :: frames => (.done, ⟨(touched touches state.document).publish, state.panes, frames⟩)

def take (state : State) : Op → Answer × State
  | .put request met =>
    let (result, state) := state.putLayoutIn request met
    (result.elim .later .of, state)
  | .setVar id name value =>
    let (result, state) := state.setVar id name value
    (.of result, state)
  | .deleteVar id name => (.done, state.deleteVar id name)
  | .deleteVars id names condition =>
    let (done, state) := state.deleteVars id names condition
    (if done then .done else .refused, state)
  | .delete what touches =>
    let (found, state) := state.delete what touches
    (if found then .later else .refused, state)
  | .touch touch => (.done, state.withDocument (Editing.touch state.document touch))
  | .publish => (.done, state.withDocument state.document.publish)
  | .next => state.resume

def step (state : State) (op : Op) : State := (state.take op).2

def run (ops : List Op) : State := Shared.run step start ops

end State

end Kido.Quotas

namespace Kido.Quotas

open Kido.Shared Kido.Tiling Kido.Editing

inductive Owner where
  | session (id : SessionId)
  | window (id : WindowId)
  | pane (id : PaneId)
deriving DecidableEq

def ofSession (session : Session) : Owner × Vars := (.session session.id, session.vars)

def ofWindow (window : Window) : Owner × Vars := (.window window.id, window.vars)

def ofPane (pane : Pane) : Owner × Vars := (.pane pane.id, pane.vars)

def inLayout (layout : Layout) : List (Owner × Vars) := layout.sessions.map ofSession ++ layout.windowList.map ofWindow

def State.varSets (state : State) : List (Owner × Vars) := inLayout state.document.layout ++ state.panes.map ofPane

def bytesOf (sets : List (Owner × Vars)) : Nat := (sets.map fun set => set.2.bytes).sum

theorem bytesOf_append (first second : List (Owner × Vars)) :
    bytesOf (first ++ second) = bytesOf first + bytesOf second := by
  rw [bytesOf, List.map_append, List.sum_append]
  rfl

theorem bytesOf_sublist {first second : List (Owner × Vars)} (fewer : first.Sublist second) :
    bytesOf first ≤ bytesOf second := (fewer.map _).sum_le_sum fun _ _ => Nat.zero_le _

theorem bytesOf_inLayout (layout : Layout) :
    bytesOf (inLayout layout) = (layout.sessions.map fun session =>
      session.vars.bytes + (session.windows.map fun window => window.vars.bytes).sum).sum := by
  rw [inLayout, bytesOf_append, Layout.windowList]
  simp only [bytesOf, List.map_map]
  induction layout.sessions with
  | nil => rfl
  | cons session sessions ih =>
    simp only [List.map_cons, List.sum_cons, List.flatMap_cons, List.map_append, List.sum_append, ← ih]
    simp only [Function.comp_def, ofSession, ofWindow]
    omega

theorem State.varsUsed_eq (state : State) : state.varsUsed = bytesOf state.varSets := by
  rw [State.varsUsed, State.varSets, bytesOf_append, bytesOf_inLayout]
  simp only [bytesOf, List.map_map]
  rfl

section Documents

variable (layout : Layout)

theorem inLayout_settle (before : Layout) : inLayout (settle before layout) = inLayout layout := by
  have keeps (window : Window) : ofWindow (settleWindow before window) = ofWindow window := by
    simp only [settleWindow]
    split <;> rfl
  rw [inLayout, settle, mapWindows_windowList, List.map_map, inLayout]
  simp only [Layout.mapWindows, List.map_map, Function.comp_def, keeps]
  rfl

theorem inLayout_prune : (inLayout (prune layout)).Sublist (inLayout layout) := by
  rw [inLayout, prune_windowList]
  exact (List.filter_sublist.map _).append (List.Sublist.refl _)

theorem inLayout_replaceFirst {layout : Layout} {fits : Window → Bool} {window : Window}
    (found : layout.windowList.find? fits = some window) (f : Window → List Window) :
    ∃ before after, inLayout layout = before ++ ofWindow window :: after ∧
      inLayout (layout.replaceFirst fits f) = before ++ ((f window).map ofWindow ++ after) := by
  obtain ⟨before, after, split, same⟩ := Layout.replaceFirst_windowList f found
  have sessions : (layout.replaceFirst fits f).sessions.map ofSession = layout.sessions.map ofSession :=
    replaceFirst_map ofSession _ _ (fun _ => rfl) layout.sessions
  refine ⟨layout.sessions.map ofSession ++ before.map ofWindow, after.map ofWindow, ?_, ?_⟩
  · rw [inLayout, split, List.map_append, List.append_assoc, List.map_cons]
  · rw [inLayout, sessions, same, List.map_append, List.map_append, List.append_assoc]

theorem inLayout_replaced {layout : Layout} {fits : Window → Bool} {window : Window}
    (found : layout.windowList.find? fits = some window) (f : Window → Window) (same : ofWindow (f window) = ofWindow window) :
    inLayout (layout.replaceFirst fits fun window => [f window]) = inLayout layout := by
  obtain ⟨before, after, split, replaced⟩ := inLayout_replaceFirst found fun window => [f window]
  rw [split, replaced, List.map_singleton, same, List.singleton_append]

theorem without_ofWindow {pane : PaneId} {window left : Window} (without : window.without pane = some left) :
    ofWindow left = ofWindow window := by
  obtain ⟨rest, removed, rfl⟩ := Option.map_eq_some_iff.mp without
  simp only [Window.removed] at removed
  split at removed
  · cases removed
    rfl
  · split at removed <;> cases removed <;> rfl

theorem inLayout_removePane (pane : PaneId) : (inLayout (Tiling.removePane pane layout)).Sublist (inLayout layout) := by
  rw [Tiling.removePane]
  cases located : layout.locate pane with
  | none => exact List.Sublist.refl _
  | some found =>
    have own : layout.windowList.find? (fun window => window.has pane) = some found.2 := by
      rw [windowList_find?]
      exact congrArg (Option.map Prod.snd) located
    cases without : found.2.without pane with
    | none =>
      obtain ⟨before, after, split, replaced⟩ := inLayout_replaceFirst own fun _ => []
      simp only [Option.map_some, without]
      refine (inLayout_prune _).trans ?_
      rw [replaced, split]
      exact (List.sublist_cons_self _ _).append_left before
    | some left =>
      simp only [Option.map_some, without]
      rw [inLayout_replaced own (fun _ => left) (without_ofWindow without)]

theorem inLayout_removed (document : Document) (what : Removed) :
    (inLayout (what.apply document).2.layout).Sublist (inLayout document.layout) := by
  cases what with
  | pane id =>
    simp only [Removed.apply, Document.removePane]
    split
    · exact List.Sublist.refl _
    · simp only [Document.removal, inLayout_settle]
      exact inLayout_removePane _ id
  | window id =>
    simp only [Removed.apply, Document.removeWindow]
    split
    · exact List.Sublist.refl _
    · simp only [Document.removal, inLayout_settle]
      refine (inLayout_prune _).trans ?_
      rw [inLayout, filterWindows_windowList, List.map_map]
      exact (List.Sublist.refl _).append (List.filter_sublist.map _)
  | session id =>
    simp only [Removed.apply, Document.removeSession]
    split
    · exact List.Sublist.refl _
    · simp only [Document.removal, inLayout_settle]
      exact (List.filter_sublist.map _).append ((List.filter_sublist.flatMap _).map _)

theorem removed_unknown (what : Removed) (document : Document) (unknown : (what.apply document).1 = none) :
    (what.apply document).2 = document := by
  cases what with
  | pane id =>
    simp only [Removed.apply, Document.removePane] at unknown ⊢
    split at unknown <;> simp_all
  | window id =>
    simp only [Removed.apply, Document.removeWindow] at unknown ⊢
    split at unknown <;> simp_all
  | session id =>
    simp only [Removed.apply, Document.removeSession] at unknown ⊢
    split at unknown <;> simp_all

theorem inLayout_touch (document : Document) (one : Touch) :
    inLayout (touch document one).layout = inLayout document.layout := by
  cases one with
  | focus id pane =>
    have same := window_window document.layout id
    simp only [touch, Document.focus]
    split
    · rfl
    · rename_i found own
      rw [own] at same
      split_ifs
      · exact inLayout_replaced same.symm (fun window => { window with focus := pane }) rfl
      · rfl
  | resize id cols rows cellPx =>
    have same := window_window document.layout id
    simp only [touch, Document.resizeWindow]
    split
    · rfl
    · rename_i found own
      rw [own] at same
      split_ifs
      · refine inLayout_replaced same.symm (fun _ => (resize found (cols.get, rows.get) cellPx).2) ?_
        simp only [resize]
        split_ifs <;> rfl
      · rfl

theorem inLayout_touched (touches : List Touch) (document : Document) :
    inLayout (touched touches document).layout = inLayout document.layout := by
  induction touches generalizing document with
  | nil => rfl
  | cons one touches ih => exact (ih _).trans (inLayout_touch document one)

theorem touch_ids (document : Document) (one : Touch) : (touch document one).ids = document.ids := by
  cases one with
  | focus id pane => exact after_ids [] document (.focus id pane) (fun _ _ _ => nofun)
  | resize id cols rows cellPx => exact after_ids [] document (.resizeWindow id cols rows cellPx) (fun _ _ _ => nofun)

theorem touched_ids (touches : List Touch) (document : Document) : (touched touches document).ids = document.ids := by
  induction touches generalizing document with
  | nil => rfl
  | cons one touches ih => exact (ih _).trans (touch_ids document one)

theorem inLayout_conclude (before after : Document) (touches : List Touch) :
    inLayout (conclude before after .accepted touches).layout = inLayout after.layout := by
  simp only [conclude]
  split_ifs
  · rw [publish_layout, inLayout_touched]
  · rfl

theorem conclude_ids (before after : Document) (touches : List Touch) :
    (conclude before after .accepted touches).ids = after.ids := by
  simp only [conclude]
  split_ifs
  · rw [publish_ids, touched_ids]
  · rfl

end Documents

section Panes

variable {state : State}

def made (created : PaneId × CreatePane × Vars) : Pane := ⟨created.1, created.2.2⟩

theorem addPanes_cases (birth : PaneId → Option AddError) (created : List (PaneId × CreatePane × Vars))
    (started : List PaneId) (panes : List Pane) :
    ∃ done left, created = done ++ left ∧
      (addPanes birth created started panes).2 = (started ++ done.map Prod.fst, panes ++ done.map made) ∧
      ((addPanes birth created started panes).1 = none ↔ left = []) := by
  induction created generalizing started panes with
  | nil => exact ⟨[], [], rfl, by simp [addPanes], by simp [addPanes]⟩
  | cons first rest ih =>
    obtain ⟨id, request, vars⟩ := first
    cases born : birth id with
    | some error => exact ⟨[], _, rfl, by simp [addPanes, born], by simp [addPanes, born]⟩
    | none =>
      obtain ⟨done, left, same, after, none_⟩ := ih (started ++ [id]) (panes ++ [⟨id, vars⟩])
      refine ⟨(id, request, vars) :: done, left, by rw [same]; rfl, ?_, ?_⟩
      · simp only [addPanes, born, after, List.append_assoc]
        rfl
      · simpa only [addPanes, born] using none_

theorem addPanes_none (birth : PaneId → Option AddError) (created : List (PaneId × CreatePane × Vars))
    (started : List PaneId) (panes : List Pane) (whole : (addPanes birth created started panes).1 = none) :
    ∀ id ∈ created.map Prod.fst, birth id = none := by
  induction created generalizing started panes with
  | nil => nofun
  | cons first rest ih =>
    obtain ⟨id, request, vars⟩ := first
    cases born : birth id with
    | some error => simp [addPanes, born] at whole
    | none =>
      simp only [addPanes, born] at whole
      simpa [born] using ih _ _ whole

theorem removePane_left {front : List Pane} {id : PaneId} (here : id ∈ front.map Pane.id) (back : List Pane) :
    removePane (front ++ back) id = removePane front id ++ back := by
  obtain ⟨pane, member, same⟩ := List.mem_map.mp here
  exact List.eraseP_append_left (by simpa using same) _ member

theorem removePane_right {front : List Pane} {id : PaneId} (absent : id ∉ front.map Pane.id) (back : List Pane) :
    removePane (front ++ back) id = front ++ removePane back id :=
  List.eraseP_append_right _ fun _ member same => absent (List.mem_map.mpr ⟨_, member, of_decide_eq_true same⟩)

theorem removePane_made {panes : List Pane} {done : List (PaneId × CreatePane × Vars)}
    (other : ∀ pane ∈ panes, pane.id ∉ done.map Prod.fst) :
    (done.map Prod.fst).foldl removePane (panes ++ done.map made) = panes := by
  induction done with
  | nil => exact List.append_nil panes
  | cons first rest ih =>
    have gone : removePane (panes ++ (first :: rest).map made) first.1 = panes ++ rest.map made := by
      have absent : first.1 ∉ panes.map Pane.id := fun member => by
        obtain ⟨pane, inside, same⟩ := List.mem_map.mp member
        exact other pane inside (same ▸ List.mem_cons_self)
      rw [removePane_right absent, List.map_cons, removePane, List.eraseP_cons_of_pos]
      exact decide_eq_true rfl
    change (rest.map Prod.fst).foldl removePane (removePane (panes ++ (first :: rest).map made) first.1) = panes
    rw [gone]
    exact ih fun pane member inside => other pane member (List.mem_cons_of_mem _ inside)

theorem removePane_sublist (ids : List PaneId) (panes : List Pane) : (ids.foldl removePane panes).Sublist panes := by
  induction ids generalizing panes with
  | nil => exact List.Sublist.refl _
  | cons id ids ih => exact (ih _).trans List.eraseP_sublist

theorem withVars_panes {id : PaneId} {pane : Pane} (found : state.find? id = some pane) (vars : Vars) :
    ∃ before after, state.panes = before ++ pane :: after ∧
      (state.withVars id vars).panes = before ++ { pane with vars := vars } :: after :=
  replaceFirst_eq (fun pane : Pane => [{ pane with vars := vars }]) found

theorem withVars_varsUsed {id : PaneId} {pane : Pane} (found : state.find? id = some pane) (vars : Vars) :
    (state.withVars id vars).varsUsed + pane.vars.bytes = state.varsUsed + vars.bytes := by
  obtain ⟨before, after, split, same⟩ := withVars_panes found vars
  simp only [State.varsUsed, same, split, List.map_append, List.map_cons, List.sum_append, List.sum_cons]
  simp only [State.withVars]
  omega

theorem withVars_ids {id : PaneId} {pane : Pane} (found : state.find? id = some pane) (vars : Vars) :
    (state.withVars id vars).panes.map Pane.id = state.panes.map Pane.id := by
  obtain ⟨before, after, split, same⟩ := withVars_panes found vars
  simp only [same, split, List.map_append, List.map_cons]

end Panes

end Kido.Quotas
