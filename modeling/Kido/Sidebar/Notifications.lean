import Kido.Shared.Firsts
import Kido.Shared.Found
import Kido.Shared.SortedMap
import Kido.Sidebar.Items
import Mathlib.Data.String.Basic
import Mathlib.Order.Lattice

set_option autoImplicit false

namespace Kido.Notifying

open Kido.Shared
open Kido.Statuses (Mark)

instance : LinearOrder PaneId where
  toLE := ⟨fun left right => left.number ≤ right.number⟩
  toLT := ⟨fun left right => left.number < right.number⟩
  le_refl pane := Nat.le_refl pane.number
  le_trans _ _ _ := Nat.le_trans
  le_antisymm left right first second := by
    cases left
    cases right
    exact congrArg _ (Nat.le_antisymm first second)
  lt_iff_le_not_ge _ _ := Nat.lt_iff_le_and_not_ge
  le_total left right := Nat.le_total left.number right.number
  toDecidableLE left right := Nat.decLe left.number right.number
  toDecidableLT left right := Nat.decLt left.number right.number
  toDecidableEq := inferInstance

structure NoticeKey where
  owner : String
  pane : PaneId
deriving DecidableEq

structure NoticeTarget where
  host : String
  server : String
  position : Position
deriving DecidableEq

inductive Kind where
  | waiting
  | failed
deriving DecidableEq

structure Notice where
  kind : Kind
  key : NoticeKey
  target : NoticeTarget
  title : String
  subtitle : String
  body : String
deriving DecidableEq

structure NotifierEffects where
  post : List Notice := []
  withdraw : List NoticeKey := []

inductive Reason where
  | waiting
  | failed
deriving DecidableEq

inductive Entry where
  | posted (reason : Reason)
  | acknowledged (reason : Reason)
deriving DecidableEq

def Entry.reason : Entry → Reason
  | .posted reason | .acknowledged reason => reason

def Entry.isPosted : Option Entry → Bool
  | some (.posted _) => true
  | _ => false

structure WindowState where
  host : String
  server : String
  entries : SortedMap PaneId Entry

structure NotifierState where
  owners : SortedMap String WindowState

namespace NotifierState

def new : NotifierState := ⟨.empty⟩

def postedCount (state : NotifierState) : Nat :=
  (state.owners.entries.map fun (_, window) => (window.entries.entries.filter fun entry => Entry.isPosted (some entry.2)).length).sum

def forget (state : NotifierState) (owner : String) : NotifierState × NotifierEffects :=
  match state.owners.find? owner with
  | none => (state, {})
  | some window =>
    (⟨state.owners.erase owner⟩,
      { withdraw := (window.entries.entries.filter fun entry => Entry.isPosted (some entry.2)).map fun entry => ⟨owner, entry.1⟩ })

end NotifierState

-- What makes a pane ask for attention. An interrupted command is no failure.
def reasonOf (item : Item) : Option Reason :=
  match item.lifecycle, item.pane.mark with
  | .live _, .waiting => some .waiting
  | .live _, .failed => if item.lastCommand.map (·.code) = some 130 then none else some .failed
  | _, _ => none

structure Walk where
  entries : SortedMap PaneId Entry
  present : List PaneId
  effects : NotifierEffects

structure Step where
  owner : String
  host : String
  identity : Option String
  snapshot : Snapshot
  fresh : Bool
  shown : List WindowId
  appActive : Bool

-- The client's session comes first, so that a linked pane gets its target and subtitle.
def Snapshot.ordered (snapshot : Snapshot) : List SessionNodes :=
  (snapshot.sessions.filter fun session => decide (session.id = snapshot.client.session)) ++
    snapshot.sessions.filter fun session => decide (session.id ≠ snapshot.client.session)

namespace Step

variable (clusters : String → List String) (step : Step)

def body (item : Item) (reason : Reason) : String :=
  match reason, item.lastCommand with
  | .waiting, _ => if item.caption = "" then "Waiting" else "Waiting: " ++ item.caption
  | .failed, some exit => "Exit " ++ toString exit.code ++ ": " ++ exit.command
  | .failed, none => if item.caption = "" then "Failed" else "Failed: " ++ item.caption

def subtitle (session : SessionNodes) (item : Item) : String :=
  if step.host ≠ "local" then
    step.identity.getD (String.join ((clusters step.host).drop 4)) ++ " · " ++ session.name
  else
    match item.lifecycle with
    | .live (.ssh destination (.agent ..)) => session.name ++ " · " ++ destination
    | _ => session.name

def notice (session : SessionNodes) (item : Item) (reason : Reason) : Notice where
  kind := if item.indicator.1 = .waiting then .waiting else .failed
  key := ⟨step.owner, item.id⟩
  target := ⟨step.host, step.snapshot.serverInstance, ⟨session.id, item.window, item.id⟩⟩
  title := item.rowTitle clusters
  subtitle := step.subtitle clusters session item
  body := body item reason

-- Whether a reason is taken as it is, with no notice.
def hushes (baseline : Bool) (item : Item) (previous : Option Entry) (reason : Reason) : Bool :=
  baseline || decide (item.window ∈ step.shown) || (step.appActive && decide (previous.map Entry.reason ≠ some reason))

def withdrawn (effects : NotifierEffects) (previous : Option Entry) (key : NoticeKey) : NotifierEffects :=
  if Entry.isPosted previous then { effects with withdraw := effects.withdraw ++ [key] } else effects

def meetNew (baseline : Bool) (session : SessionNodes) (walk : Walk) (item : Item) : Walk :=
  let walk := { walk with present := item.id :: walk.present }
  let key : NoticeKey := ⟨step.owner, item.id⟩
  let previous := walk.entries.find? item.id
  match reasonOf item with
  | none => { walk with entries := walk.entries.erase item.id, effects := withdrawn walk.effects previous key }
  | some reason =>
    if step.hushes baseline item previous reason then
      { walk with entries := walk.entries.insert item.id (.acknowledged reason), effects := withdrawn walk.effects previous key }
    else if previous.map Entry.reason = some reason then walk
    else
      { walk with
        entries := walk.entries.insert item.id (.posted reason)
        effects := { walk.effects with post := walk.effects.post ++ [step.notice clusters session item reason] } }

def meet (baseline : Bool) (session : SessionNodes) (walk : Walk) (item : Item) : Walk :=
  if item.id ∈ walk.present then walk else step.meetNew clusters baseline session walk item

-- The panes that the snapshot no longer has.
def vanish (walk : Walk) : Walk :=
  let gone := walk.entries.entries.filter fun entry => decide (entry.1 ∉ walk.present)
  { walk with
    entries := gone.foldl (fun entries entry => entries.erase entry.1) walk.entries
    effects := { walk.effects with
      withdraw := walk.effects.withdraw ++
        (gone.filter fun entry => Entry.isPosted (some entry.2)).map fun entry => ⟨step.owner, entry.1⟩ } }

def changed (state : NotifierState) : Bool :=
  decide ((state.owners.find? step.owner).map WindowState.server ≠ some step.snapshot.serverInstance) ||
    decide ((state.owners.find? step.owner).map WindowState.host ≠ some step.host)

def start (state : NotifierState) : NotifierState × NotifierEffects :=
  if step.changed state then state.forget step.owner else (state, {})

def window (state : NotifierState) : WindowState :=
  ((step.start state).1.owners.find? step.owner).getD ⟨step.host, step.snapshot.serverInstance, .empty⟩

def walk (state : NotifierState) : Walk :=
  step.snapshot.ordered.foldl
    (fun walk session => visitAll (step.meet clusters (step.fresh || step.changed state) session) walk session.nodes)
    ⟨(step.window state).entries, [], (step.start state).2⟩

def run (state : NotifierState) : NotifierState × NotifierEffects :=
  let walk := step.vanish (step.walk clusters state)
  (⟨(step.start state).1.owners.insert step.owner { step.window state with entries := walk.entries }⟩, walk.effects)

end Step

inductive Call where
  | step (step : Step)
  | forget (owner : String)

def NotifierState.take (clusters : String → List String) (state : NotifierState) : Call → NotifierState × NotifierEffects
  | .step step => step.run clusters state
  | .forget owner => state.forget owner

def Reason.kind : Reason → Kind
  | .waiting => .waiting
  | .failed => .failed

def Kind.mark : Kind → Mark
  | .waiting => .waiting
  | .failed => .failed

-- The items in the order in which they are met, each with its session.
def Snapshot.visited (snapshot : Snapshot) : List (SessionNodes × Item) :=
  snapshot.ordered.flatMap fun session => (items session.nodes).map fun item => (session, item)

def paneOf (entry : SessionNodes × Item) : PaneId := entry.2.id

def Snapshot.first (snapshot : Snapshot) (pane : PaneId) : Option (SessionNodes × Item) :=
  snapshot.visited.find? fun entry => decide (paneOf entry = pane)

def NotifierState.entry (state : NotifierState) (key : NoticeKey) : Option Entry :=
  (state.owners.find? key.owner).bind fun window => window.entries.find? key.pane

section Reasons

variable {clusters : String → List String} {step : Step} {item : Item} {reason : Reason}

theorem reason_live (asks : reasonOf item = some reason) :
    (∃ kind, item.lifecycle = .live kind) ∧ item.pane.mark = reason.kind.mark := by
  rw [reasonOf] at asks
  split at asks
  · next kind live mark =>
    cases asks
    exact ⟨⟨kind, live⟩, mark⟩
  · next kind live mark =>
    split_ifs at asks
    cases asks
    exact ⟨⟨kind, live⟩, mark⟩
  · cases asks

theorem notice_kind (session : SessionNodes) (asks : reasonOf item = some reason) :
    (step.notice clusters session item reason).kind = reason.kind := by
  obtain ⟨⟨kind, live⟩, mark⟩ := reason_live asks
  have waits := item.indicator_live live
  rw [mark] at waits
  cases reason with
  | waiting => exact if_pos (waits.2 rfl)
  | failed => exact if_neg fun here => nomatch waits.1 here

end Reasons

namespace Step

variable {clusters : String → List String} {step : Step} {baseline : Bool} {session : SessionNodes} {item : Item}

-- The entry of a pane once its item was met.
def next (step : Step) (baseline : Bool) (item : Item) (previous : Option Entry) : Option Entry :=
  match reasonOf item with
  | none => none
  | some reason =>
    if step.hushes baseline item previous reason then some (.acknowledged reason)
    else if previous.map Entry.reason = some reason then previous
    else some (.posted reason)

theorem next_reason (previous : Option Entry) : (step.next baseline item previous).map Entry.reason = reasonOf item := by
  rw [next]
  cases asks : reasonOf item with
  | none => rfl
  | some reason =>
    dsimp only
    split_ifs with hushed same
    · rfl
    · exact same
    · rfl

-- What one item adds: a withdrawn key where its notice goes, and a notice where its reason is new.
def takes (step : Step) (baseline : Bool) (item : Item) (previous : Option Entry) : List NoticeKey :=
  if Entry.isPosted previous && !Entry.isPosted (step.next baseline item previous) then [⟨step.owner, item.id⟩] else []

def adds (clusters : String → List String) (step : Step) (baseline : Bool) (session : SessionNodes) (item : Item)
    (previous : Option Entry) : List Notice :=
  match step.next baseline item previous with
  | some (.posted reason) => if previous.map Entry.reason = some reason then [] else [step.notice clusters session item reason]
  | _ => []

theorem withdrawn_eq (effects : NotifierEffects) (previous : Option Entry) (key : NoticeKey) :
    withdrawn effects previous key = ⟨effects.post, effects.withdraw ++ if Entry.isPosted previous then [key] else []⟩ := by
  rw [withdrawn]
  split_ifs
  · rfl
  · rw [List.append_nil]

theorem meetNew_spec (walk : Walk) :
    (∀ pane, (step.meetNew clusters baseline session walk item).entries.find? pane =
        if item.id = pane then step.next baseline item (walk.entries.find? pane) else walk.entries.find? pane) ∧
      (step.meetNew clusters baseline session walk item).present = item.id :: walk.present ∧
      (step.meetNew clusters baseline session walk item).effects.withdraw =
        walk.effects.withdraw ++ step.takes baseline item (walk.entries.find? item.id) ∧
      (step.meetNew clusters baseline session walk item).effects.post =
        walk.effects.post ++ step.adds clusters baseline session item (walk.entries.find? item.id) := by
  rw [meetNew, takes, adds]
  cases asks : reasonOf item with
  | none =>
    have then_ (previous : Option Entry) : step.next baseline item previous = none := by rw [next, asks]
    refine ⟨fun pane => ?_, rfl, ?_, ?_⟩
    · rw [then_]
      exact SortedMap.find?_erase walk.entries item.id pane
    · dsimp only
      rw [withdrawn_eq, then_]
      cases Entry.isPosted (walk.entries.find? item.id) <;> rfl
    · dsimp only
      rw [withdrawn_eq, then_]
      exact (List.append_nil _).symm
  | some reason =>
    dsimp only
    by_cases hushed : step.hushes baseline item (walk.entries.find? item.id) reason = true
    · have then_ : step.next baseline item (walk.entries.find? item.id) = some (.acknowledged reason) := by
        rw [next, asks]
        exact if_pos hushed
      rw [if_pos hushed, then_, withdrawn_eq]
      refine ⟨fun pane => ?_, rfl, ?_, (List.append_nil _).symm⟩
      · refine (SortedMap.find?_insert walk.entries item.id _ pane).trans ?_
        by_cases here : item.id = pane
        · rw [if_pos here, if_pos here, ← here, then_]
        · rw [if_neg here, if_neg here]
      · cases Entry.isPosted (walk.entries.find? item.id) <;> rfl
    · rw [if_neg hushed]
      by_cases same : (walk.entries.find? item.id).map Entry.reason = some reason
      · have then_ : step.next baseline item (walk.entries.find? item.id) = walk.entries.find? item.id := by
          rw [next, asks]
          exact (if_neg hushed).trans (if_pos same)
        rw [if_pos same, then_, Bool.and_not_self]
        refine ⟨fun pane => ?_, rfl, (List.append_nil _).symm, ?_⟩
        · split_ifs with here
          · rw [← here, then_]
          · rfl
        · split
          · next other posted =>
            have one : other = reason := by
              rw [posted] at same
              exact Option.some.inj same
            rw [if_pos (one ▸ same), List.append_nil]
          · rw [List.append_nil]
      · have then_ : step.next baseline item (walk.entries.find? item.id) = some (.posted reason) := by
          rw [next, asks]
          exact (if_neg hushed).trans (if_neg same)
        rw [if_neg same, then_]
        refine ⟨fun pane => ?_, rfl, ?_, ?_⟩
        · refine (SortedMap.find?_insert walk.entries item.id _ pane).trans ?_
          by_cases here : item.id = pane
          · rw [if_pos here, if_pos here, ← here, then_]
          · rw [if_neg here, if_neg here]
        · cases Entry.isPosted (walk.entries.find? item.id) <;> exact (List.append_nil _).symm
        · exact congrArg (walk.effects.post ++ ·) (if_neg same).symm

variable {walk : Walk}

theorem walk_visited (sessions : List SessionNodes) :
    sessions.foldl (fun walk session => visitAll (step.meet clusters baseline session) walk session.nodes) walk =
      (sessions.flatMap fun session => (items session.nodes).map fun item => (session, item)).foldl
        (fun walk entry => step.meet clusters baseline entry.1 walk entry.2) walk := by
  induction sessions generalizing walk with
  | nil => rfl
  | cons session rest ih => rw [List.foldl_cons, List.flatMap_cons, List.foldl_append, ih, visitAll_items, List.foldl_map]

theorem walk_firsts (entries : List (SessionNodes × Item)) (nothing : walk.present = []) :
    entries.foldl (fun walk entry => step.meet clusters baseline entry.1 walk entry.2) walk =
      (firsts paneOf entries).foldl (fun walk entry => step.meetNew clusters baseline entry.1 walk entry.2) walk := by
  refine (foldl_firsts (fun _ _ old => if_pos old) (fun _ _ new => if_neg new) (fun walk entry pane => ?_) entries walk).trans ?_
  · rw [(meetNew_spec walk).2.1, List.mem_cons]
  · simp only [nothing, List.not_mem_nil, not_false_eq_true, decide_true, List.filter_true]
    rfl

theorem present_new (entries : List (SessionNodes × Item)) (pane : PaneId) :
    pane ∈ (entries.foldl (fun walk entry => step.meetNew clusters baseline entry.1 walk entry.2) walk).present ↔
      pane ∈ entries.map paneOf ∨ pane ∈ walk.present := by
  induction entries generalizing walk with
  | nil => simp
  | cons entry rest ih =>
    rw [List.foldl_cons, ih, (meetNew_spec walk).2.1, List.map_cons, List.mem_cons, List.mem_cons, paneOf]
    tauto

structure Walked (clusters : String → List String) (step : Step) (baseline : Bool) (before after : Walk) : Prop where
  present : ∀ pane, pane ∈ after.present ↔ (step.snapshot.first pane).isSome = true
  entry : ∀ pane, after.entries.find? pane =
    ((step.snapshot.first pane).map fun entry => step.next baseline entry.2 (before.entries.find? pane)).getD (before.entries.find? pane)
  withdraw : after.effects.withdraw = before.effects.withdraw ++
    (firsts paneOf step.snapshot.visited).flatMap fun entry => step.takes baseline entry.2 (before.entries.find? entry.2.id)
  post : after.effects.post = before.effects.post ++
    (firsts paneOf step.snapshot.visited).flatMap fun entry =>
      step.adds clusters baseline entry.1 entry.2 (before.entries.find? entry.2.id)

theorem walked (nothing : walk.present = []) :
    Walked clusters step baseline walk
      (step.snapshot.ordered.foldl (fun walk session => visitAll (step.meet clusters baseline session) walk session.nodes) walk) := by
  have all := @walk_visited clusters step baseline walk step.snapshot.ordered
  rw [all]
  change Walked clusters step baseline walk (step.snapshot.visited.foldl _ walk)
  rw [walk_firsts step.snapshot.visited nothing]
  have distinct := firsts_distinct paneOf step.snapshot.visited
  have found (pane : PaneId) := find?_firsts paneOf step.snapshot.visited pane
  have changes (walk : Walk) (entry : SessionNodes × Item) := (@meetNew_spec clusters step baseline entry.1 entry.2 walk).1
  have withdraw := foldl_touches (fun walk pane => walk.entries.find? pane) (fun entry => step.next baseline entry.2)
    (fun walk => walk.effects.withdraw) (fun entry => step.takes baseline entry.2) changes
    (fun walk entry => (@meetNew_spec clusters step baseline entry.1 entry.2 walk).2.2.1) distinct walk
  have post := foldl_touches (fun walk pane => walk.entries.find? pane) (fun entry => step.next baseline entry.2)
    (fun walk => walk.effects.post) (fun entry => step.adds clusters baseline entry.1 entry.2) changes
    (fun walk entry => (@meetNew_spec clusters step baseline entry.1 entry.2 walk).2.2.2) distinct walk
  refine ⟨fun pane => ?_, fun pane => ?_, withdraw.2, post.2⟩
  · rw [present_new, nothing, mem_keys_firsts]
    simp only [Snapshot.first, List.find?_isSome, List.mem_map, decide_eq_true_eq, List.not_mem_nil, or_false]
  · refine (withdraw.1 pane).trans ?_
    rw [found pane]
    rfl

end Step

section Vanish

variable {step : Step} {walk : Walk}

theorem find?_erased (gone : List (PaneId × Entry)) (entries : SortedMap PaneId Entry) (pane : PaneId) :
    (gone.foldl (fun entries entry => entries.erase entry.1) entries).find? pane =
      if pane ∈ gone.map Prod.fst then none else entries.find? pane := by
  induction gone generalizing entries with
  | nil => rfl
  | cons entry rest ih =>
    rw [List.foldl_cons, ih, SortedMap.find?_erase, List.map_cons]
    by_cases later : pane ∈ rest.map Prod.fst
    · rw [if_pos later, if_pos (List.mem_cons_of_mem _ later)]
    · by_cases here : entry.1 = pane
      · rw [if_neg later, if_pos here, if_pos (by rw [here]; exact List.mem_cons_self)]
      · rw [if_neg later, if_neg here, if_neg fun inside => (List.mem_cons.1 inside).elim (fun same => here same.symm) later]

theorem vanish_entry (pane : PaneId) :
    (step.vanish walk).entries.find? pane = if pane ∈ walk.present then walk.entries.find? pane else none := by
  rw [Step.vanish]
  dsimp only
  rw [find?_erased]
  by_cases here : pane ∈ walk.present
  · rw [if_pos here, if_neg]
    intro gone
    obtain ⟨entry, inside, rfl⟩ := List.mem_map.1 gone
    exact of_decide_eq_true (List.mem_filter.1 inside).2 here
  · rw [if_neg here]
    split_ifs with gone
    · rfl
    · by_contra held
      obtain ⟨entry, found⟩ := Option.ne_none_iff_exists'.1 held
      exact gone (List.mem_map.2 ⟨(pane, entry), List.mem_filter.2 ⟨(SortedMap.mem_iff _).2 found, decide_eq_true here⟩, rfl⟩)

end Vanish

-- What effects say of the entries before and after them.
structure Turns (before after : NoticeKey → Option Entry) (effects : NotifierEffects) : Prop where
  withdraws : ∀ key, key ∈ effects.withdraw ↔ Entry.isPosted (before key) = true ∧ Entry.isPosted (after key) = false
  once : effects.withdraw.Nodup
  posts : ∀ notice ∈ effects.post, ∃ reason, after notice.key = some (.posted reason) ∧ reason.kind = notice.kind
  single : (effects.post.map Notice.key).Nodup
  kept : ∀ key reason, after key = some (.posted reason) → key ∉ effects.post.map Notice.key → before key = some (.posted reason)

theorem posted_keys_distinct (owner : String) (entries : SortedMap PaneId Entry) (among : PaneId × Entry → Bool) :
    ((entries.entries.filter among).map fun entry => (⟨owner, entry.1⟩ : NoticeKey)).Nodup := by
  have sorted := entries.sorted.sublist (List.filter_sublist.map Prod.fst : ((entries.entries.filter among).map Prod.fst).Sublist _)
  have same : (entries.entries.filter among).map (fun entry => (⟨owner, entry.1⟩ : NoticeKey)) =
      ((entries.entries.filter among).map Prod.fst).map fun pane => ⟨owner, pane⟩ := by rw [List.map_map]; rfl
  rw [same]
  exact List.Nodup.map (fun _ _ equal => (NoticeKey.mk.inj equal).2) (sorted.imp fun less => less.ne)

section Forget

variable (state : NotifierState) (owner : String)

theorem forget_owner (other : String) :
    (state.forget owner).1.owners.find? other = if owner = other then none else state.owners.find? other := by
  rw [NotifierState.forget]
  cases found : state.owners.find? owner with
  | none =>
    split_ifs with same
    · exact same ▸ found
    · rfl
  | some window => exact SortedMap.find?_erase state.owners owner other

theorem forget_entry (key : NoticeKey) : (state.forget owner).1.entry key = if owner = key.owner then none else state.entry key := by
  rw [NotifierState.entry, forget_owner]
  split_ifs <;> rfl

theorem forget_withdraw (key : NoticeKey) :
    key ∈ (state.forget owner).2.withdraw ↔ owner = key.owner ∧ Entry.isPosted (state.entry key) = true := by
  rw [NotifierState.forget]
  cases found : state.owners.find? owner with
  | none =>
    refine iff_of_false List.not_mem_nil fun ⟨same, posted⟩ => ?_
    rw [NotifierState.entry, ← same, found] at posted
    cases posted
  | some window =>
    simp only [List.mem_map, List.mem_filter]
    constructor
    · rintro ⟨⟨pane, entry⟩, ⟨inside, posted⟩, rfl⟩
      refine ⟨rfl, ?_⟩
      have held := (SortedMap.mem_iff _).1 inside
      rw [NotifierState.entry, found, Option.bind_some]
      exact (congrArg Entry.isPosted held).trans posted
    · rintro ⟨rfl, posted⟩
      rw [NotifierState.entry, found, Option.bind_some] at posted
      cases held : window.entries.find? key.pane with
      | none => rw [held] at posted; cases posted
      | some entry => exact ⟨(key.pane, entry), ⟨(SortedMap.mem_iff _).2 held, held ▸ posted⟩, rfl⟩

theorem forget_post : (state.forget owner).2.post = [] := by
  rw [NotifierState.forget]
  cases state.owners.find? owner <;> rfl

theorem forget_once : (state.forget owner).2.withdraw.Nodup := by
  rw [NotifierState.forget]
  cases state.owners.find? owner with
  | none => exact List.nodup_nil
  | some window => exact posted_keys_distinct owner window.entries _

theorem forget_turns : Turns state.entry (state.forget owner).1.entry (state.forget owner).2 where
  withdraws key := by
    rw [forget_withdraw, forget_entry]
    split_ifs with same
    · exact ⟨fun here => ⟨here.2, rfl⟩, fun here => ⟨same, here.1⟩⟩
    · refine iff_of_false (fun here => same here.1) fun here => ?_
      rw [here.1] at here
      cases here.2
  once := forget_once state owner
  posts notice posted := by
    rw [forget_post] at posted
    cases posted
  single := by
    rw [forget_post]
    exact List.nodup_nil
  kept key reason posted _ := by
    rw [forget_entry] at posted
    split_ifs at posted
    exact posted

end Forget

namespace Step

section Start

variable (step : Step) (state : NotifierState)

def baseline (step : Step) (state : NotifierState) : Bool := step.fresh || step.changed state

-- The entry from which the pane starts.
def base (step : Step) (state : NotifierState) (pane : PaneId) : Option Entry :=
  if step.changed state = true then none else state.entry ⟨step.owner, pane⟩

theorem start_owner (other : String) :
    (step.start state).1.owners.find? other =
      if step.changed state = true ∧ step.owner = other then none else state.owners.find? other := by
  rw [start]
  by_cases moved : step.changed state = true
  · rw [if_pos moved, forget_owner]
    exact if_congr ⟨fun same => ⟨moved, same⟩, fun both => both.2⟩ rfl rfl
  · rw [if_neg moved, if_neg fun both => moved both.1]

theorem window_entry (pane : PaneId) : (step.window state).entries.find? pane = step.base state pane := by
  rw [window, start_owner, base]
  by_cases moved : step.changed state = true
  · rw [if_pos ⟨moved, rfl⟩, if_pos moved]
    rfl
  · rw [if_neg fun both => moved both.1, if_neg moved, NotifierState.entry]
    cases state.owners.find? step.owner <;> rfl

theorem start_withdraw (key : NoticeKey) :
    key ∈ (step.start state).2.withdraw ↔
      step.changed state = true ∧ step.owner = key.owner ∧ Entry.isPosted (state.entry key) = true := by
  rw [start]
  split_ifs with moved
  · rw [forget_withdraw]
    exact ⟨fun here => ⟨moved, here⟩, fun here => here.2⟩
  · exact iff_of_false List.not_mem_nil fun here => moved here.1

theorem start_once : (step.start state).2.withdraw.Nodup := by
  rw [start]
  split_ifs
  · exact forget_once state step.owner
  · exact List.nodup_nil

theorem start_post : (step.start state).2.post = [] := by
  rw [start]
  split_ifs
  · exact forget_post state step.owner
  · rfl

end Start

section Run

variable {clusters : String → List String} {step : Step} {state : NotifierState}

theorem walk_spec : Walked clusters step (step.baseline state) ⟨(step.window state).entries, [], (step.start state).2⟩ (step.walk clusters state) :=
  walked rfl

-- The entry of a pane after the step.
def after (step : Step) (state : NotifierState) (pane : PaneId) : Option Entry :=
  (step.snapshot.first pane).bind fun entry => step.next (step.baseline state) entry.2 (step.base state pane)

theorem run_entry (key : NoticeKey) :
    (step.run clusters state).1.entry key = if step.owner = key.owner then step.after state key.pane else state.entry key := by
  have spec := @walk_spec clusters step state
  rw [run, NotifierState.entry]
  dsimp only
  rw [SortedMap.find?_insert]
  by_cases own : step.owner = key.owner
  · rw [if_pos own, if_pos own, Option.bind_some, after, vanish_entry, spec.entry]
    dsimp only
    rw [window_entry]
    have there := spec.present key.pane
    cases found : step.snapshot.first key.pane with
    | none =>
      rw [found] at there
      exact if_neg fun inside => nomatch there.1 inside
    | some entry =>
      rw [found] at there
      exact if_pos (there.2 rfl)
  · rw [if_neg own, if_neg own, start_owner, if_neg fun both => own both.2]
    rfl

theorem first_of_mem {entry : SessionNodes × Item} (inside : entry ∈ firsts paneOf step.snapshot.visited) :
    step.snapshot.first entry.2.id = some entry := by
  rw [Snapshot.first, ← find?_firsts paneOf]
  exact (found_iff (firsts_distinct paneOf step.snapshot.visited)).2 ⟨inside, rfl⟩

theorem mem_of_first {pane : PaneId} {entry : SessionNodes × Item} (found : step.snapshot.first pane = some entry) :
    entry ∈ firsts paneOf step.snapshot.visited ∧ entry.2.id = pane := by
  rw [Snapshot.first, ← find?_firsts paneOf] at found
  exact found_mem found

theorem mem_takes {item : Item} {previous : Option Entry} {baseline : Bool} {key : NoticeKey} :
    key ∈ step.takes baseline item previous ↔
      key = ⟨step.owner, item.id⟩ ∧ Entry.isPosted previous = true ∧ Entry.isPosted (step.next baseline item previous) = false := by
  rw [takes]
  split_ifs with gone
  · rw [Bool.and_eq_true, Bool.not_eq_true'] at gone
    simp [gone]
  · rw [Bool.and_eq_true, Bool.not_eq_true'] at gone
    simp [gone]

-- The keys that the walk and the panes that vanish add.
theorem run_withdraw (key : NoticeKey) :
    key ∈ (step.run clusters state).2.withdraw ↔
      key ∈ (step.start state).2.withdraw ∨
        (step.owner = key.owner ∧ Entry.isPosted (step.base state key.pane) = true ∧ Entry.isPosted (step.after state key.pane) = false) := by
  have spec := @walk_spec clusters step state
  rw [run, vanish]
  dsimp only
  rw [List.mem_append, spec.withdraw, List.mem_append, or_assoc]
  refine or_congr_right ?_
  constructor
  · rintro (taken | gone)
    · obtain ⟨entry, inside, told⟩ := List.mem_flatMap.1 taken
      obtain ⟨rfl, held, left_⟩ := mem_takes.1 told
      dsimp only at held left_
      rw [window_entry] at held left_
      refine ⟨rfl, held, ?_⟩
      rw [after, first_of_mem inside]
      exact left_
    · obtain ⟨⟨pane, entry⟩, inside, rfl⟩ := List.mem_map.1 gone
      obtain ⟨inside, posted⟩ := List.mem_filter.1 inside
      obtain ⟨inside, absent⟩ := List.mem_filter.1 inside
      have missing : step.snapshot.first pane = none := by
        rw [← Option.not_isSome_iff_eq_none, ← spec.present]
        exact of_decide_eq_true absent
      have held := (SortedMap.mem_iff _).1 inside
      rw [spec.entry, missing] at held
      dsimp only [Option.map_none, Option.getD_none] at held
      rw [window_entry] at held
      refine ⟨rfl, ?_, ?_⟩
      · exact (congrArg Entry.isPosted held).trans posted
      · rw [after, missing]
        rfl
  · rintro ⟨own, held, left_⟩
    have here : key = ⟨step.owner, key.pane⟩ := by rw [own]
    cases found : step.snapshot.first key.pane with
    | some entry =>
      obtain ⟨inside, same⟩ := mem_of_first found
      rw [after, found] at left_
      refine .inl (List.mem_flatMap.2 ⟨entry, inside, mem_takes.2 ?_⟩)
      dsimp only
      rw [same, window_entry]
      exact ⟨here, held, left_⟩
    | none =>
      have missing : key.pane ∉ (step.walk clusters state).present := by
        rw [spec.present, found]
        exact nofun
      cases was : step.base state key.pane with
      | none => rw [was] at held; cases held
      | some entry =>
        have still : (step.walk clusters state).entries.find? key.pane = some entry := by
          rw [spec.entry, found]
          exact (window_entry step state key.pane).trans was
        refine .inr (List.mem_map.2 ⟨(key.pane, entry), List.mem_filter.2 ⟨List.mem_filter.2 ⟨(SortedMap.mem_iff _).2 still, decide_eq_true missing⟩, ?_⟩, here.symm⟩)
        rw [was] at held
        exact held

-- A baseline posts nothing.
theorem next_baseline (item : Item) (previous : Option Entry) : Entry.isPosted (step.next true item previous) = false := by
  rw [next]
  cases reasonOf item with
  | none => rfl
  | some reason => rfl

theorem after_changed (moved : step.changed state = true) (pane : PaneId) : Entry.isPosted (step.after state pane) = false := by
  rw [after, baseline, moved, Bool.or_true]
  cases step.snapshot.first pane with
  | none => rfl
  | some entry => exact next_baseline entry.2 _

theorem next_posted {baseline : Bool} {item : Item} {previous : Option Entry} {reason : Reason}
    (posted : step.next baseline item previous = some (.posted reason)) :
    reasonOf item = some reason ∧ (previous.map Entry.reason = some reason → previous = some (.posted reason)) := by
  have same : (step.next baseline item previous).map Entry.reason = reasonOf item := next_reason previous
  rw [posted] at same
  refine ⟨same.symm, fun old => ?_⟩
  rw [next, ← same] at posted
  dsimp only [Option.map_some, Entry.reason] at posted
  split_ifs at posted with hushed
  · cases posted
  · exact posted

theorem mem_adds {session : SessionNodes} {item : Item} {previous : Option Entry} {baseline : Bool} {notice : Notice} :
    notice ∈ step.adds clusters baseline session item previous ↔
      ∃ reason, step.next baseline item previous = some (.posted reason) ∧ previous.map Entry.reason ≠ some reason ∧
        notice = step.notice clusters session item reason := by
  rw [adds]
  generalize step.next baseline item previous = then_
  split
  · next reason =>
    split_ifs with same
    · refine iff_of_false List.not_mem_nil ?_
      rintro ⟨other, there, new, _⟩
      cases there
      exact new same
    · constructor
      · intro inside
        exact ⟨reason, rfl, same, List.mem_singleton.1 inside⟩
      · rintro ⟨other, there, _, rfl⟩
        cases there
        exact List.mem_singleton_self _
  · next other =>
    refine iff_of_false List.not_mem_nil ?_
    rintro ⟨reason, there, _⟩
    exact other reason there

theorem run_post (notice : Notice) :
    notice ∈ (step.run clusters state).2.post ↔
      ∃ session item reason, step.snapshot.first item.id = some (session, item) ∧ step.after state item.id = some (.posted reason) ∧
        (step.base state item.id).map Entry.reason ≠ some reason ∧ notice = step.notice clusters session item reason := by
  have spec := @walk_spec clusters step state
  rw [run, vanish]
  dsimp only
  rw [spec.post]
  dsimp only
  rw [start_post, List.nil_append]
  constructor
  · intro told
    obtain ⟨entry, inside, told_⟩ := List.mem_flatMap.1 told
    obtain ⟨reason, posted, new, same⟩ := mem_adds.1 told_
    subst same
    rw [window_entry] at posted new
    refine ⟨entry.1, entry.2, reason, first_of_mem inside, ?_, new, rfl⟩
    rw [after, first_of_mem inside]
    exact posted
  · rintro ⟨session, item, reason, found, posted, new, rfl⟩
    obtain ⟨inside, same⟩ := mem_of_first found
    rw [after, found] at posted
    refine List.mem_flatMap.2 ⟨(session, item), inside, mem_adds.2 ⟨reason, ?_, ?_, rfl⟩⟩
    · rw [window_entry]
      exact posted
    · rw [window_entry]
      exact new

theorem apart_flat {α ω : Type} {items : List (SessionNodes × Item)} {tell : SessionNodes × Item → List ω} (pane : ω → α)
    (id : SessionNodes × Item → α) (distinct : (items.map id).Nodup) (own : ∀ entry ∈ items, ∀ told ∈ tell entry, pane told = id entry)
    (single : ∀ entry, (tell entry).Nodup) : (items.flatMap tell).Nodup := by
  refine List.nodup_flatMap.2 ⟨fun entry _ => single entry, ?_⟩
  have ids := List.pairwise_map.1 distinct
  refine ids.imp_of_mem fun {first second} one two differ => ?_
  intro told here there
  exact differ ((own first one told here).symm.trans (own second two told there))

theorem run_once : (step.run clusters state).2.withdraw.Nodup := by
  have spec := @walk_spec clusters step state
  rw [run, vanish]
  dsimp only
  rw [spec.withdraw]
  dsimp only
  have loop : ((firsts paneOf step.snapshot.visited).flatMap fun entry =>
      step.takes (step.baseline state) entry.2 ((step.window state).entries.find? entry.2.id)).Nodup := by
    refine apart_flat NoticeKey.pane paneOf (firsts_distinct paneOf _) (fun entry _ key told => ?_) fun entry => ?_
    · rw [(mem_takes.1 told).1]
      rfl
    · rw [takes]
      split_ifs
      · exact List.nodup_singleton _
      · exact List.nodup_nil
  rw [List.filter_filter]
  refine (List.Nodup.append (start_once step state) loop fun key forgotten taken => ?_).append (posted_keys_distinct step.owner _ _)
    fun key taken gone => ?_
  · obtain ⟨entry, _, told⟩ := List.mem_flatMap.1 taken
    obtain ⟨rfl, held, _⟩ := mem_takes.1 told
    rw [window_entry, base, if_pos ((start_withdraw step state _).1 forgotten).1] at held
    cases held
  · obtain ⟨⟨pane, entry⟩, inside, rfl⟩ := List.mem_map.1 gone
    obtain ⟨inside, both⟩ := List.mem_filter.1 inside
    rw [Bool.and_eq_true, decide_eq_true_eq, spec.present] at both
    rcases List.mem_append.1 taken with forgotten | taken
    · have held := (SortedMap.mem_iff _).1 inside
      rw [spec.entry] at held
      dsimp only at held
      have moved := ((start_withdraw step state _).1 forgotten).1
      rw [Option.not_isSome_iff_eq_none.1 both.2, window_entry, base, if_pos moved] at held
      cases held
    · obtain ⟨entry, inside, told⟩ := List.mem_flatMap.1 taken
      obtain ⟨same, _⟩ := mem_takes.1 told
      refine both.2 ?_
      rw [(NoticeKey.mk.inj same).2, first_of_mem inside]
      rfl

theorem run_turns : Turns state.entry (step.run clusters state).1.entry (step.run clusters state).2 where
  withdraws key := by
    rw [run_withdraw, start_withdraw, run_entry]
    by_cases own : step.owner = key.owner
    · have here : (⟨step.owner, key.pane⟩ : NoticeKey) = key := by rw [own]
      rw [if_pos own, base, here]
      by_cases moved : step.changed state = true
      · rw [if_pos moved]
        constructor
        · rintro (⟨_, _, held⟩ | ⟨_, held, _⟩)
          · exact ⟨held, after_changed moved key.pane⟩
          · cases held
        · exact fun both => .inl ⟨moved, own, both.1⟩
      · rw [if_neg moved]
        exact ⟨fun either => either.elim (fun forgotten => absurd forgotten.1 moved) fun taken => taken.2, fun both => .inr ⟨own, both⟩⟩
    · rw [if_neg own]
      refine iff_of_false (fun either => either.elim (fun forgotten => own forgotten.2.1) fun taken => own taken.1) fun both => ?_
      rw [both.1] at both
      cases both.2
  once := run_once
  posts notice posted := by
    obtain ⟨session, item, reason, found, after_, _, rfl⟩ := (run_post notice).1 posted
    have own : (step.notice clusters session item reason).key = ⟨step.owner, item.id⟩ := rfl
    refine ⟨reason, ?_, ?_⟩
    · rw [own, run_entry, if_pos rfl]
      exact after_
    · rw [after, found] at after_
      exact (notice_kind session (next_posted after_).1).symm
  single := by
    have spec := @walk_spec clusters step state
    rw [run, vanish]
    dsimp only
    rw [spec.post]
    dsimp only
    rw [start_post, List.nil_append, List.map_flatMap]
    refine apart_flat NoticeKey.pane paneOf (firsts_distinct paneOf _) (fun entry _ key told => ?_) fun entry => ?_
    · obtain ⟨notice, added, named⟩ := List.mem_map.1 told
      obtain ⟨reason, _, _, same⟩ := mem_adds.1 added
      rw [← named, same]
      rfl
    · rw [adds]
      split
      · split_ifs
        · exact List.nodup_nil
        · exact List.nodup_singleton _
      · exact List.nodup_nil
  kept key reason posted silent := by
    rw [run_entry] at posted
    split_ifs at posted with own
    · cases found : step.snapshot.first key.pane with
      | none =>
        rw [after, found] at posted
        cases posted
      | some entry =>
        obtain ⟨_, same⟩ := mem_of_first found
        by_cases old : (step.base state key.pane).map Entry.reason = some reason
        · have here : (⟨step.owner, key.pane⟩ : NoticeKey) = key := by rw [own]
          rw [after, found] at posted
          have held := (next_posted posted).2 old
          rw [base, here] at held
          split_ifs at held
          exact held
        · refine absurd (List.mem_map.2 ⟨step.notice clusters entry.1 entry.2 reason, (run_post _).2 ?_, ?_⟩) silent
          · exact ⟨entry.1, entry.2, reason, by rw [same]; exact found, by rw [same]; exact posted, by rw [same]; exact old, rfl⟩
          · change (⟨step.owner, entry.2.id⟩ : NoticeKey) = key
            rw [same, own]
    · exact posted

end Run

end Step

end Kido.Notifying
