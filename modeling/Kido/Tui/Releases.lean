import Kido.Shared.Run
import Kido.Tui.Keys

set_option autoImplicit false

namespace Kido.Tui

open Kido.Shared
open Kido.Tiling (PaneId)

-- A key event that was fed, and whether it was passed to the pane.
structure Fed where
  name : Name
  kind : Kind
  passed : Bool
deriving DecidableEq

inductive KeyOp where
  | feed (event : KeyEvent) (context : Context) (now : Nat)
  | leave
  | stop
  | focusSidebar (pane : PaneId)
  | choose (pane : PaneId)
  | paste (text : List Char)

def KeyStep.passed : KeyStep → Bool
  | .pane _ => true
  | _ => false

-- The keys, and what was fed to them, the latest first.
structure Keyboard where
  keys : Keys
  log : List Fed

namespace Keyboard

def start : Keyboard := ⟨Keys.new, []⟩

def step (keyboard : Keyboard) : KeyOp → Keyboard
  | .feed event context now =>
    let (keys, result) := keyboard.keys.feed event context now
    ⟨keys, ⟨event.name, event.kind, result.passed⟩ :: keyboard.log⟩
  | .leave => { keyboard with keys := keyboard.keys.leave }
  | .stop => { keyboard with keys := keyboard.keys.stop }
  | .focusSidebar pane => { keyboard with keys := keyboard.keys.focusSidebar pane }
  | .choose pane => { keyboard with keys := keyboard.keys.choose pane }
  | .paste text => { keyboard with keys := (keyboard.keys.paste text).1 }

end Keyboard

-- Whether the latest press or repeat of the key was passed, if it was ever pressed.
def latest (log : List Fed) (name : Name) : Option Bool :=
  (log.find? fun fed => decide (fed.name = name ∧ fed.kind ≠ .release)).map Fed.passed

def held (log : List Fed) (name : Name) : Bool :=
  (log.find? fun fed => decide (fed.name = name)).any fun fed => decide (fed.kind ≠ .release)

-- Each release of a key that was ever pressed was passed exactly when the latest press or repeat of the key was.
def Follows : List Fed → Prop
  | [] => True
  | fed :: before => (fed.kind = .release → ∀ passed ∈ latest before fed.name, fed.passed = passed) ∧ Follows before

instance Follows.decidable : ∀ log, Decidable (Follows log)
  | [] => .isTrue trivial
  | fed :: before =>
    have := Follows.decidable before
    inferInstanceAs (Decidable ((fed.kind = .release → ∀ passed ∈ latest before fed.name, fed.passed = passed) ∧ Follows before))

def Keys.Passes (keys : Keys) (context : Context) : Prop := keys.state = .normal ∧ keys.mode = .pane ∧ context ≠ .copying

-- A key that is held and not recorded as consumed is released while keys go to the pane. A key that was released already is
-- released again while keys go to the pane exactly if its latest press was passed.
def Timely (keyboard : Keyboard) : KeyOp → Prop
  | .feed event context now =>
    event.kind = .release →
      if held keyboard.log event.name = true then event.name ∉ keyboard.keys.consumed → (keyboard.keys.expire now).Passes context
      else ∀ passed ∈ latest keyboard.log event.name, (keyboard.keys.expire now).Passes context ↔ passed = true
  | _ => True

-- The keys that are recorded as consumed are those that are held and whose latest press was not passed.
structure Kept (keyboard : Keyboard) : Prop where
  distinct : keyboard.keys.consumed.Nodup
  consumed : ∀ name, name ∈ keyboard.keys.consumed ↔ held keyboard.log name = true ∧ latest keyboard.log name = some false

section Consumed

variable (keys : Keys) (event : KeyEvent) (dead : Bool) (now : Nat)

@[simp]
theorem Keys.expire_consumed : (keys.expire now).consumed = keys.consumed := by
  rw [Keys.expire]
  split
  · split_ifs <;> rfl
  · rfl

@[simp]
theorem Keys.normal_consumed : (keys.normal event dead).1.consumed = keys.consumed := by
  unfold Keys.normal
  repeat' split
  all_goals rfl

@[simp]
theorem Keys.again_consumed (command : PaneCommand) : (keys.again command now).1.consumed = keys.consumed := by
  unfold Keys.again
  dsimp only
  repeat' split
  all_goals rfl

@[simp]
theorem Keys.command_consumed (key : Char) : (keys.command key).1.consumed = keys.consumed := by
  unfold Keys.command
  repeat' split
  all_goals rfl

@[simp]
theorem Keys.prefixed_consumed : (keys.prefixed event now).1.consumed = keys.consumed := by
  unfold Keys.prefixed
  repeat' split
  all_goals simp

@[simp]
theorem Keys.resize_consumed : (keys.resize event).1.consumed = keys.consumed := by
  unfold Keys.resize
  dsimp only
  repeat' split
  all_goals rfl

@[simp]
theorem Keys.renaming_consumed (of : Rename) (text : List Char) : (keys.«renaming» of text event).1.consumed = keys.consumed := by
  unfold Keys.«renaming»
  repeat' split
  all_goals rfl

@[simp]
theorem Keys.choosing_consumed (pane : PaneId) : (keys.choosing pane event dead).1.consumed = keys.consumed := by
  unfold Keys.choosing
  repeat' split
  all_goals simp

theorem Keys.pressed_consumed (state : KeyState) (context : Context) :
    (keys.pressed state event context now).1.consumed = keys.consumed := by
  cases state with
  | normal =>
    simp only [Keys.pressed]
    split_ifs
    · rfl
    · rfl
    · split <;> simp
  | prefixed => simp [Keys.pressed]
  | «repeat» until_ =>
    simp only [Keys.pressed]
    split <;> simp
  | help => rfl
  | rename of text => simp [Keys.pressed]
  | confirm kill => rfl
  | chooser pane => simp [Keys.pressed]

end Consumed

section Log

variable {log : List Fed} {name : Name} (fed : Fed)

theorem latest_of_held (down : held log name = true) : ∃ passed, latest log name = some passed := by
  rw [held, Option.any_eq_true] at down
  obtain ⟨last, found, pressed⟩ := down
  have same : last.name = name := by simpa using List.find?_some found
  have some : (log.find? fun fed => decide (fed.name = name ∧ fed.kind ≠ .release)).isSome = true :=
    List.find?_isSome.mpr ⟨last, List.mem_of_find?_eq_some found, decide_eq_true ⟨same, of_decide_eq_true pressed⟩⟩
  obtain ⟨press, at_press⟩ := Option.isSome_iff_exists.mp some
  exact ⟨press.passed, by rw [latest, at_press, Option.map_some]⟩

@[simp]
theorem held_other (other : fed.name ≠ name) : held (fed :: log) name = held log name := by
  simp [held, other]

@[simp]
theorem latest_other (other : fed.name ≠ name) : latest (fed :: log) name = latest log name := by
  simp [latest, other]

theorem held_press (press : fed.kind ≠ .release) : held (fed :: log) fed.name = true := by
  simp [held, press]

theorem latest_press (press : fed.kind ≠ .release) : latest (fed :: log) fed.name = some fed.passed := by
  simp [latest, press]

theorem held_release (release : fed.kind = .release) : held (fed :: log) fed.name = false := by
  simp [held, release]

end Log

namespace Keys

variable (keys : Keys) (event : KeyEvent) (context : Context) (now : Nat)

-- A release is passed when its press is not recorded as consumed and keys go to the pane; it is no longer recorded.
theorem feed_release (release : event.kind = .release) :
    (keys.feed event context now).1.consumed = keys.consumed.erase event.name ∧
      ((keys.feed event context now).2.passed = true ↔ event.name ∉ keys.consumed ∧ (keys.expire now).Passes context) := by
  simp only [feed, release, if_true, expire_consumed]
  by_cases recorded : event.name ∈ keys.consumed
  · rw [if_pos recorded]
    exact ⟨rfl, by simp [KeyStep.passed, recorded]⟩
  · rw [if_neg recorded, List.erase_of_not_mem recorded]
    by_cases open_ : (keys.expire now).Passes context
    · rw [Keys.Passes] at open_
      rw [if_pos open_]
      exact ⟨expire_consumed keys now, by simp [KeyStep.passed, recorded, Keys.Passes, open_]⟩
    · rw [Keys.Passes] at open_
      rw [if_neg open_]
      exact ⟨expire_consumed keys now, by simp [KeyStep.passed, Keys.Passes, open_]⟩

def recordedAfter (consumed : List Name) (name : Name) (passed : Bool) : List Name :=
  if passed = true then consumed.erase name else if name ∈ consumed then consumed else consumed ++ [name]

theorem recordedAfter_spec {consumed : List Name} (distinct : consumed.Nodup) (name : Name) (passed : Bool) :
    (recordedAfter consumed name passed).Nodup ∧
      ∀ other, other ∈ recordedAfter consumed name passed ↔ if other = name then passed = false else other ∈ consumed := by
  unfold recordedAfter
  split_ifs with forwarded known
  · refine ⟨distinct.erase name, fun other => ?_⟩
    rw [distinct.mem_erase_iff]
    split_ifs with same
    · simp [same, forwarded]
    · simp [same]
  · refine ⟨distinct, fun other => ?_⟩
    split_ifs with same
    · simpa [same, known] using forwarded
    · rfl
  · refine ⟨List.nodup_append.mpr ⟨distinct, List.nodup_singleton name, ?_⟩, fun other => ?_⟩
    · rintro other member _ (_ | ⟨_, ⟨⟩⟩) rfl
      exact known member
    · split_ifs with same
      · simpa [same] using forwarded
      · simp [same]

theorem feed_press (press : event.kind ≠ .release) :
    (keys.feed event context now).1.consumed = recordedAfter keys.consumed event.name (keys.feed event context now).2.passed := by
  have consumed := pressed_consumed { keys.expire now with state := .normal } event now (keys.expire now).state context
  simp only [feed, if_neg press]
  generalize pressed { keys.expire now with state := .normal } (keys.expire now).state event context now = result at consumed
  obtain ⟨after, outcome⟩ := result
  have same : after.consumed = keys.consumed := consumed.trans (expire_consumed keys now)
  cases outcome with
  | pane passed => simp [recordedAfter, KeyStep.passed, same]
  | act action => by_cases known : event.name ∈ keys.consumed <;> simp [recordedAfter, KeyStep.passed, same, known]
  | swallow => by_cases known : event.name ∈ keys.consumed <;> simp [recordedAfter, KeyStep.passed, same, known]

end Keys

@[simp]
theorem Keys.choose_consumed (keys : Keys) (pane : PaneId) : (keys.choose pane).consumed = keys.consumed := by
  unfold Keys.choose
  split <;> rfl

@[simp]
theorem Keys.paste_consumed (keys : Keys) (text : List Char) : (keys.paste text).1.consumed = keys.consumed := by
  unfold Keys.paste
  split <;> rfl

theorem start_kept : Kept Keyboard.start := ⟨List.nodup_nil, by simp [Keyboard.start, Keys.new, held]⟩

section Step

variable {keyboard : Keyboard} (kept : Kept keyboard) (event : KeyEvent) (context : Context) (now : Nat)

include kept

theorem press_kept (press : event.kind ≠ .release) : Kept (keyboard.step (.feed event context now)) := by
  have after := Keys.feed_press keyboard.keys event context now press
  have spec := Keys.recordedAfter_spec kept.distinct event.name (keyboard.keys.feed event context now).2.passed
  refine ⟨?_, fun name => ?_⟩
  · rw [Keyboard.step, after]
    exact spec.1
  · rw [Keyboard.step, after, spec.2]
    split_ifs with same
    · subst same
      rw [held_press ⟨event.name, event.kind, _⟩ press, latest_press ⟨event.name, event.kind, _⟩ press]
      simp
    · rw [held_other _ (Ne.symm same), latest_other _ (Ne.symm same)]
      exact kept.consumed name

theorem release_kept (release : event.kind = .release) : Kept (keyboard.step (.feed event context now)) := by
  have after := (Keys.feed_release keyboard.keys event context now release).1
  refine ⟨?_, fun name => ?_⟩
  · rw [Keyboard.step, after]
    exact kept.distinct.erase event.name
  · rw [Keyboard.step, after, kept.distinct.mem_erase_iff]
    by_cases same : name = event.name
    · subst same
      rw [held_release ⟨event.name, event.kind, _⟩ release]
      simp
    · rw [held_other _ (Ne.symm same), latest_other _ (Ne.symm same), kept.consumed name]
      simp [same]

theorem same_kept {keys : Keys} (same : keys.consumed = keyboard.keys.consumed) : Kept { keyboard with keys := keys } :=
  ⟨same ▸ kept.distinct, fun name => same ▸ kept.consumed name⟩

theorem step_kept (op : KeyOp) : Kept (keyboard.step op) := by
  cases op with
  | feed event context now =>
    by_cases release : event.kind = .release
    · exact release_kept kept event context now release
    · exact press_kept kept event context now release
  | leave => exact same_kept kept rfl
  | stop => exact same_kept kept rfl
  | focusSidebar pane => exact same_kept kept rfl
  | choose pane => exact same_kept kept (Keys.choose_consumed keyboard.keys pane)
  | paste text => exact same_kept kept (Keys.paste_consumed keyboard.keys text)

theorem release_timely (release : event.kind = .release) :
    (∀ passed ∈ latest keyboard.log event.name, (keyboard.keys.feed event context now).2.passed = passed) ↔
      Timely keyboard (.feed event context now) := by
  have result := (Keys.feed_release keyboard.keys event context now release).2
  have recorded := kept.consumed event.name
  simp only [Timely, release, true_implies]
  split_ifs with down
  · obtain ⟨passed, pressed⟩ := latest_of_held down
    cases passed with
    | true =>
      -- the press reached the pane: the release does when keys go there
      have absent : event.name ∉ keyboard.keys.consumed := by
        rw [recorded, pressed]
        simp
      simp [pressed, absent, result]
    | false =>
      -- the press was consumed: the release is swallowed, whatever is open
      have known : event.name ∈ keyboard.keys.consumed := recorded.mpr ⟨down, pressed⟩
      simp [pressed, known, ← Bool.not_eq_true, result]
  · have absent : event.name ∉ keyboard.keys.consumed := fun known => down (recorded.mp known).1
    refine forall₂_congr fun passed _ => ?_
    rw [Bool.eq_iff_iff, result]
    simp [absent]

theorem step_follows (op : KeyOp) : Follows (keyboard.step op).log ↔ Timely keyboard op ∧ Follows keyboard.log := by
  cases op with
  | feed event context now =>
    by_cases release : event.kind = .release
    · rw [← release_timely kept event context now release]
      simp only [Keyboard.step, Follows, release, true_implies]
    · simp [Keyboard.step, Follows, Timely, release]
  | leave => exact (iff_of_eq (true_and _)).symm
  | stop => exact (iff_of_eq (true_and _)).symm
  | focusSidebar pane => exact (iff_of_eq (true_and _)).symm
  | choose pane => exact (iff_of_eq (true_and _)).symm
  | paste text => exact (iff_of_eq (true_and _)).symm

theorem run_follows (ops : List KeyOp) :
    Follows (run Keyboard.step keyboard ops).log ↔ AllAllowed Keyboard.step Timely keyboard ops ∧ Follows keyboard.log := by
  induction ops generalizing keyboard with
  | nil => exact (iff_of_eq (true_and _)).symm
  | cons op rest ih =>
    rw [run, List.foldl_cons, ← run, ih (step_kept kept op), step_follows kept op, AllAllowed]
    tauto

end Step

-- In any run, the releases follow their presses exactly when each of them is timely.
theorem releases_follow (ops : List KeyOp) :
    Follows (run Keyboard.step Keyboard.start ops).log ↔ AllAllowed Keyboard.step Timely Keyboard.start ops := by
  rw [run_follows start_kept]
  exact and_iff_left trivial

-- A key whose press reached the pane is released behind the prefix key.
def typed : List KeyOp :=
  [.feed ⟨.char 'x', Mods.none, .press, "x"⟩ .live 0, .feed ⟨.char 'a', ⟨Mods.CTRL⟩, .press, ""⟩ .live 1,
    .feed ⟨.char 'x', Mods.none, .release, ""⟩ .live 2]

theorem releases_stray : ¬ ∀ ops, Follows (run Keyboard.step Keyboard.start ops).log := fun every =>
  absurd (every typed) (by decide)

end Kido.Tui
