import Kido.Stop.Answered

set_option autoImplicit false

namespace Kido.Stopping

open Kido.Shared

def Frame.removing : Frame → List Nat
  | .remove panes => panes
  | _ => []

-- The panes that a loop goes on to kill.
def Frame.targets : Frame → List Nat
  | .answers stops => stops.map Stop.pane
  | .kills panes => panes
  | _ => []

namespace World

def removing (world : World) : List Nat := world.frames.flatMap Frame.removing

def targets (world : World) : List Nat := world.frames.flatMap Frame.targets

def Housed (world : World) (pane : Nat) : Prop := ∃ lives, (pane, lives) ∈ world.panes

def Gone (world : World) (pane : Nat) : Prop := ∃ lives, .left pane lives ∈ world.log

-- The pane was killed while it lived.
def Killing (world : World) (pane : Nat) : Prop := .kill pane true ∈ world.frames ∨ ∃ due, .doomed pane due ∈ world.log

def Answering (world : World) (stop : Stop) : Prop := .answer stop ∈ world.frames ∨ .answered stop ∈ world.log

-- `pending` are the panes that are about to be deleted.
structure Places (world : World) (pending : List Nat) : Prop where
  below : ∀ pane ∈ world.layout, pane < world.next
  known : ∀ pane, world.Housed pane → pane < world.next ∧ ¬ world.Gone pane
  left : ∀ pane, world.Gone pane → pane < world.next
  located : ∀ pane, world.Housed pane → pane ∈ world.layout ∨ pane ∈ world.removing
  removed : ∀ pane, pane ∈ world.removed ↔ world.Gone pane ∧ .reaped pane ∉ world.log
  reaps : ∀ pane, .reaped pane ∈ world.log → world.Gone pane
  ended : ∀ stop, .held stop ∈ world.log →
    stop.pane < world.next ∧ (stop ∈ world.waits ∨ stop.pane ∈ world.targets ∨ stop.pane ∉ world.layout)
  answered : ∀ stop, world.Answering stop → stop.pane < world.next ∧ stop.pane ∉ world.layout
  killing : ∀ pane, world.Killing pane → pane < world.next ∧ (pane ∈ world.layout → pane ∈ pending) ∧ (world.Housed pane ∨ world.Gone pane)

variable {world : World}

theorem Places.mono {pending : List Nat} (places : world.Places []) : world.Places pending :=
  { places with killing := fun pane killed => (places.killing pane killed).imp_right fun rest =>
      rest.imp_left fun out member => absurd (out member) List.not_mem_nil }

-- A step that leaves the panes, the layout and what was taken out as they are.
structure Shifts (before after : World) : Prop where
  next : after.next = before.next
  layout : after.layout = before.layout
  housed : ∀ pane, after.Housed pane ↔ before.Housed pane
  removed : after.removed = before.removed
  removing : ∀ pane ∈ before.removing, pane ∈ after.removing
  gone : ∀ pane, after.Gone pane ↔ before.Gone pane
  reaped : ∀ pane, .reaped pane ∈ after.log ↔ .reaped pane ∈ before.log
  killing : ∀ pane, after.Killing pane → before.Killing pane
  held : ∀ stop, .held stop ∈ after.log → .held stop ∈ before.log
  kept : ∀ stop, stop ∈ before.waits ∨ stop.pane ∈ before.targets → stop ∈ after.waits ∨ stop.pane ∈ after.targets ∨ stop.pane ∉ before.layout
  answering : ∀ stop, after.Answering stop → before.Answering stop ∨ stop.pane < before.next ∧ stop.pane ∉ before.layout

theorem Shifts.places {before after : World} (shifts : Shifts before after) {pending : List Nat} (places : before.Places pending) :
    after.Places pending := by
  obtain ⟨below, known, left, located, removed, reaps, ended, answered, killing⟩ := places
  constructor
  · rwa [shifts.layout, shifts.next]
  · intro pane housed
    rw [shifts.next, shifts.gone]
    exact known pane ((shifts.housed pane).mp housed)
  · intro pane gone
    rw [shifts.next]
    exact left pane ((shifts.gone pane).mp gone)
  · intro pane housed
    rw [shifts.layout]
    exact (located pane ((shifts.housed pane).mp housed)).imp_right (shifts.removing _)
  · intro pane
    rw [shifts.removed, shifts.gone, shifts.reaped]
    exact removed pane
  · intro pane reaped
    exact (shifts.gone pane).mpr (reaps pane ((shifts.reaped pane).mp reaped))
  · intro stop held
    rw [shifts.next, shifts.layout]
    obtain ⟨less, waits | target | out⟩ := ended stop (shifts.held stop held)
    · exact ⟨less, shifts.kept stop (.inl waits)⟩
    · exact ⟨less, shifts.kept stop (.inr target)⟩
    · exact ⟨less, .inr (.inr out)⟩
  · intro stop answering
    rw [shifts.next, shifts.layout]
    exact (shifts.answering stop answering).elim (answered stop) id
  · intro pane killed
    rw [shifts.next, shifts.layout, shifts.housed, shifts.gone]
    exact killing pane (shifts.killing pane killed)

end World

end Kido.Stopping
