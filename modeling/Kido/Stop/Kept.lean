import Kido.Stop.Doomed
import Mathlib.Data.List.Nodup

set_option autoImplicit false

namespace Kido.Stopping

open Kido.Shared

-- Notes that neither a stop nor a kill is about.
def Note.plain : Note → Bool
  | .answered _ | .closed _ | .reaped _ => true
  | _ => false

-- A kill is of a pane that was taken out, was not reaped, and whose time was up.
def Rightly : List Note → Prop
  | [] => True
  | .killed pane time :: log =>
    ((∃ lives, .left pane lives ∈ log) ∧ .reaped pane ∉ log ∧ ∃ due ≤ time, .doomed pane due ∈ log) ∧ Rightly log
  | _ :: log => Rightly log

namespace World

-- A stop was held for the pane.
def Asked (world : World) (pane : Nat) : Prop := ∃ stop, .held stop ∈ world.log ∧ stop.pane = pane

-- The timer runs out at the earliest time, or it has run out.
def Armed (world : World) : Prop :=
  world.doomed ≠ [] → ∃ time, world.armed = some time ∧
    ((time ∈ world.doomed.map Prod.snd ∧ ∀ entry ∈ world.doomed, time ≤ entry.2) ∨ (time ≤ world.now ∧ ∃ entry ∈ world.doomed, entry.2 ≤ time))

-- No pane for which a stop was held is taken out while it lives, unless it is being killed.
def Careful (world : World) : Act → Prop
  | .next => ∀ pane panes frames, world.frames = .remove (pane :: panes) :: frames → (pane, true) ∈ world.panes → world.Asked pane → world.Killing pane
  | _ => True

structure Kept (world : World) : Prop where
  numbered : (holdings world.log).map Stop.serial = (List.range world.serial).reverse
  once : (world.waits ++ framed world.frames ++ endings world.log).Perm (holdings world.log)
  timed : ∀ stop ∈ world.waits, world.timers stop.conn = some stop.due
  answered : ∀ stop, .answered stop ∈ world.log → stop.pane ∉ world.layout
  out : world.frames = [] → ∀ stop ∈ endings world.log, stop.pane ∉ world.layout ∧ ¬ world.Housed stop.pane
  doomed : world.frames = [] → ∀ stop ∈ endings world.log, .left stop.pane true ∈ world.log → ∃ due, .doomed stop.pane due ∈ world.log
  kept : ∀ pane due, .doomed pane due ∈ world.log →
    (pane, due) ∈ world.doomed ∨ .reaped pane ∈ world.log ∨ ∃ time ≥ due, .killed pane time ∈ world.log
  rightly : Rightly world.log
  armed : world.Armed

structure Tracked (world : World) : Prop where
  killing : ∀ pane, .left pane true ∈ world.log → world.Asked pane → world.Killing pane
  listed : ∀ entry ∈ world.doomed, .doomed entry.1 entry.2 ∈ world.log
  kept : ∀ pane due, .doomed pane due ∈ world.log →
    (pane, due) ∈ world.doomed ∨ .reaped pane ∈ world.log ∨ ∃ time ≥ due, .killed pane time ∈ world.log
  rightly : Rightly world.log
  armed : world.Armed

variable {world : World}

def Fits (world : World) : Note → Prop
  | .left pane true => world.Asked pane → world.Killing pane
  | .left _ false => True
  | .held stop => ¬ world.Gone stop.pane
  | _ => False

-- What every step does but one that dooms a pane or kills.
structure Extends (before after : World) : Prop where
  doomed : after.doomed = before.doomed
  armed : after.armed = before.armed
  now : before.now ≤ after.now
  kills : ∀ pane, .kill pane true ∈ before.frames → .kill pane true ∈ after.frames
  log : ∃ notes, after.log = notes ++ before.log ∧ ((∀ note ∈ notes, note.plain = true) ∨ ∃ note, notes = [note] ∧ before.Fits note)

theorem rightly_append {notes log : List Note} (other : ∀ note ∈ notes, ∀ pane time, note ≠ .killed pane time) (rightly : Rightly log) :
    Rightly (notes ++ log) := by
  induction notes with
  | nil => exact rightly
  | cons note notes ih =>
    have rest := ih fun note member => other note (List.mem_cons_of_mem _ member)
    cases note with
    | killed pane time => exact absurd rfl (other _ List.mem_cons_self pane time)
    | _ => exact rest

theorem Armed.later {after : World} (armed : world.Armed) (doomed : after.doomed = world.doomed) (same : after.armed = world.armed)
    (now : world.now ≤ after.now) : after.Armed := by
  rw [Armed, doomed, same]
  intro some_
  obtain ⟨time, is, earliest | ⟨past, due⟩⟩ := armed some_
  · exact ⟨time, is, .inl earliest⟩
  · exact ⟨time, is, .inr ⟨Nat.le_trans past now, due⟩⟩

theorem Extends.note {before after : World} (extends_ : Extends before after) {note : Note} (member : note ∈ after.log) :
    note ∈ before.log ∨ note.plain = true ∨ (after.log = note :: before.log ∧ before.Fits note) := by
  obtain ⟨notes, log, plain | ⟨other, rfl, fits⟩⟩ := extends_.log
  · rw [log] at member
    exact (List.mem_append.mp member).symm.imp_right fun new => .inl (plain note new)
  · rw [log] at member ⊢
    obtain new | old := List.mem_append.mp member
    · obtain rfl := List.mem_singleton.mp new
      exact .inr (.inr ⟨rfl, fits⟩)
    · exact .inl old

theorem Extends.old {before after : World} (extends_ : Extends before after) {note : Note} (member : note ∈ before.log) : note ∈ after.log := by
  obtain ⟨notes, log, _⟩ := extends_.log
  exact log ▸ List.mem_append_right _ member

theorem Extends.tracked {before after : World} (extends_ : Extends before after) (tracked : before.Tracked) : after.Tracked := by
  have killing {pane : Nat} (killed : before.Killing pane) : after.Killing pane :=
    killed.imp (extends_.kills pane) fun ⟨due, member⟩ => ⟨due, extends_.old member⟩
  refine ⟨fun pane left asked => ?_, fun entry member => ?_, fun pane due doomed => ?_, ?_, tracked.armed.later extends_.doomed extends_.armed extends_.now⟩
  · obtain ⟨stop, held, rfl⟩ := asked
    obtain left | plain | ⟨log, fits⟩ := extends_.note left
    · obtain held | plain | ⟨_, fits⟩ := extends_.note held
      · exact killing (tracked.killing _ left ⟨stop, held, rfl⟩)
      · cases plain
      · exact absurd ⟨true, left⟩ fits
    · cases plain
    · rw [log] at held
      have old := (List.mem_cons.mp held).resolve_left nofun
      exact killing (fits ⟨stop, old, rfl⟩)
  · rw [extends_.doomed] at member
    exact extends_.old (tracked.listed entry member)
  · have old : .doomed pane due ∈ before.log := by
      obtain old | plain | ⟨_, fits⟩ := extends_.note doomed
      · exact old
      · cases plain
      · exact fits.elim
    rw [extends_.doomed]
    refine (tracked.kept pane due old).imp_right (Or.imp extends_.old ?_)
    exact fun ⟨time, late, killed⟩ => ⟨time, late, extends_.old killed⟩
  · obtain ⟨notes, log, kind⟩ := extends_.log
    rw [log]
    refine rightly_append (fun note member pane time same => ?_) tracked.rightly
    obtain plain | ⟨other, rfl, fits⟩ := kind
    · exact absurd (same ▸ plain note member) nofun
    · obtain rfl := List.mem_singleton.mp member
      exact (same ▸ fits).elim

theorem quiet {after : World} (doomed : after.doomed = world.doomed) (armed : after.armed = world.armed) (now : world.now ≤ after.now)
    (kills : ∀ pane, .kill pane true ∈ world.frames → .kill pane true ∈ after.frames) (log : after.log = world.log) : Extends world after :=
  ⟨doomed, armed, now, kills, [], log, .inl nofun⟩

theorem ended_held (booked : world.Booked) {stop : Stop} (ended : stop ∈ endings world.log) : .held stop ∈ world.log := by
  obtain ⟨note, member, is⟩ := List.mem_filterMap.mp (booked.once.subset (List.mem_append_right _ ended))
  cases note with
  | held other => exact Option.some.inj is ▸ member
  | _ => cases is

theorem ended_done (booked : world.Booked) {stop : Stop} (ended : stop ∈ endings world.log) : stop ∉ world.waits := by
  have apart : (world.waits ++ framed world.frames ++ endings world.log).Nodup := by
    rw [booked.once.nodup_iff]
    refine List.Nodup.of_map Stop.serial ?_
    rw [booked.numbered]
    exact List.nodup_reverse.mpr List.nodup_range
  exact fun waits => List.disjoint_of_nodup_append apart (List.mem_append_left _ waits) ended

theorem kept (booked : world.Booked) (places : world.Places []) (tracked : world.Tracked) : world.Kept where
  numbered := booked.numbered
  once := booked.once
  timed := booked.timed
  answered stop answered := (places.answered stop (.inr answered)).2
  out idle stop ended := by
    have outside : stop.pane ∉ world.layout := by
      obtain waits | target | out := (places.ended stop (ended_held booked ended)).2
      · exact absurd waits (ended_done booked ended)
      · rw [World.targets, idle] at target
        exact absurd target List.not_mem_nil
      · exact out
    refine ⟨outside, fun housed => ?_⟩
    obtain member | removing := places.located _ housed
    · exact outside member
    · rw [World.removing, idle] at removing
      exact absurd removing List.not_mem_nil
  doomed idle stop ended left := by
    obtain framed | doomed := tracked.killing _ left ⟨stop, ended_held booked ended, rfl⟩
    · rw [idle] at framed
      exact absurd framed List.not_mem_nil
    · exact doomed
  kept := tracked.kept
  rightly := tracked.rightly
  armed := tracked.armed

end World

end Kido.Stopping
