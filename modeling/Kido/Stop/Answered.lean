import Kido.Stop.World

set_option autoImplicit false

namespace Kido.Stopping

open Kido.Shared

def Frame.stops : Frame → List Stop
  | .answers stops => stops
  | .answer stop => [stop]
  | _ => []

def Note.holding : Note → Option Stop
  | .held stop => some stop
  | _ => none

def Note.ending : Note → Option Stop
  | .answered stop => some stop
  | .closed stop => some stop
  | _ => none

def holdings (log : List Note) : List Stop := log.filterMap Note.holding

def endings (log : List Note) : List Stop := log.filterMap Note.ending

def framed (frames : List Frame) : List Stop := frames.flatMap Frame.stops

structure Ledger (serial : Nat) (held waits framed endings : List Stop) (conns handling : List Nat) (timers : Nat → Option Nat) : Prop where
  numbered : held.map Stop.serial = (List.range serial).reverse
  once : (waits ++ framed ++ endings).Perm held
  apart : ((waits ++ framed).map Stop.conn).Nodup
  busy : ∀ stop ∈ waits ++ framed, stop.conn ∈ conns ∧ stop.conn ∈ handling
  timed : ∀ stop ∈ waits, timers stop.conn = some stop.due

namespace World

def Booked (world : World) : Prop :=
  Ledger world.serial (holdings world.log) world.waits (framed world.frames) (endings world.log) world.conns world.handling world.timers

end World

namespace Ledger

variable {serial : Nat} {held waits framed endings : List Stop} {conns handling : List Nat} {timers : Nat → Option Nat}

theorem hold (ledger : Ledger serial held waits framed endings conns handling timers) {conn : Nat} (open_ : conn ∈ conns)
    (free : conn ∉ handling) (pane due : Nat) :
    Ledger (serial + 1) (⟨serial, conn, pane, due⟩ :: held) (waits ++ [⟨serial, conn, pane, due⟩]) framed endings conns (conn :: handling)
      (Function.update timers conn (some due)) where
  numbered := by
    rw [List.map_cons, ledger.numbered, List.range_succ, List.reverse_append]
    rfl
  once := by
    refine List.Perm.trans ?_ (ledger.once.cons _)
    rw [List.append_assoc, List.append_assoc, List.append_assoc]
    exact List.perm_middle
  apart := by
    have perm : ((waits ++ [(⟨serial, conn, pane, due⟩ : Stop)]) ++ framed).Perm (⟨serial, conn, pane, due⟩ :: (waits ++ framed)) := by
      rw [List.append_assoc]
      exact List.perm_middle
    rw [(perm.map Stop.conn).nodup_iff, List.map_cons, List.nodup_cons]
    refine ⟨fun taken => ?_, ledger.apart⟩
    obtain ⟨stop, member, same⟩ := List.mem_map.mp taken
    exact free ((show stop.conn = conn from same) ▸ (ledger.busy stop member).2)
  busy stop member := by
    rw [List.append_assoc, List.mem_append, List.mem_append, List.mem_singleton] at member
    obtain member | rfl | member := member
    · exact (ledger.busy stop (List.mem_append_left _ member)).imp_right (List.mem_cons_of_mem _)
    · exact ⟨open_, List.mem_cons_self⟩
    · exact (ledger.busy stop (List.mem_append_right _ member)).imp_right (List.mem_cons_of_mem _)
  timed stop member := by
    obtain member | rfl := List.mem_append.mp member |>.imp_right List.mem_singleton.mp
    · have busy := (ledger.busy stop (List.mem_append_left _ member)).2
      rw [Function.update_of_ne, ledger.timed stop member]
      exact fun same => free (same ▸ busy)
    · exact Function.update_self _ _ _

-- Stops go from the list into a call.
theorem move (ledger : Ledger serial held waits framed endings conns handling timers) {kept taken : List Stop} (split : waits.Perm (kept ++ taken))
    {later : Nat → Option Nat} (same : ∀ stop ∈ kept, later stop.conn = timers stop.conn) :
    Ledger serial held kept (taken ++ framed) endings conns handling later := by
  have perm : (kept ++ (taken ++ framed)).Perm (waits ++ framed) := by
    rw [← List.append_assoc]
    exact (split.append_right framed).symm
  refine ⟨ledger.numbered, (perm.append_right _).trans ledger.once, (perm.map _).nodup_iff.mpr ledger.apart,
    fun stop member => ledger.busy stop (perm.mem_iff.mp member), fun stop member => ?_⟩
  rw [same stop member, ledger.timed stop (split.mem_iff.mpr (List.mem_append_left _ member))]

-- A stop of a call is answered.
theorem answer {stop : Stop} (ledger : Ledger serial held waits (stop :: framed) endings conns handling timers) :
    Ledger serial held waits framed (stop :: endings) conns (handling.filter fun other => decide (other ≠ stop.conn))
      (Function.update timers stop.conn none) := by
  have perm : (waits ++ stop :: framed).Perm (stop :: (waits ++ framed)) := List.perm_middle
  have apart := (perm.map Stop.conn).nodup_iff.mp ledger.apart
  rw [List.map_cons, List.nodup_cons] at apart
  have others : ∀ other ∈ waits ++ framed, other.conn ≠ stop.conn := fun other member same => apart.1 (same ▸ List.mem_map_of_mem member)
  refine ⟨ledger.numbered, ?_, apart.2, fun other member => ?_, fun other member => ?_⟩
  · refine List.Perm.trans ?_ ledger.once
    refine List.Perm.trans ?_ (perm.append_right endings).symm
    exact List.perm_middle
  · obtain ⟨open_, busy⟩ := ledger.busy other (perm.mem_iff.mpr (List.mem_cons_of_mem _ member))
    exact ⟨open_, List.mem_filter.mpr ⟨busy, decide_eq_true (others other member)⟩⟩
  · rw [Function.update_of_ne (others other (List.mem_append_left _ member)), ledger.timed other member]

-- The stops of a connection that closed are dropped.
theorem close (ledger : Ledger serial held waits [] endings conns handling timers) (conn : Nat) :
    Ledger serial held (waits.filter fun stop => decide (stop.conn ≠ conn)) []
      ((waits.filter fun stop => decide (stop.conn = conn)) ++ endings) (conns.filter fun other => decide (other ≠ conn))
      (handling.filter fun other => decide (other ≠ conn)) (Function.update timers conn none) := by
  have among : ∀ stop ∈ waits.filter fun stop => decide (stop.conn ≠ conn), stop ∈ waits ∧ stop.conn ≠ conn := by
    intro stop member
    simpa using member
  have once := ledger.once
  have apart := ledger.apart
  rw [List.append_nil] at once apart
  refine ⟨ledger.numbered, ?_, ?_, fun stop member => ?_, fun stop member => ?_⟩
  · rw [List.append_nil, ← List.append_assoc]
    refine List.Perm.trans (.append_right _ ?_) once
    have perm := List.filter_append_perm (fun stop : Stop => decide (stop.conn ≠ conn)) waits
    simpa using perm
  · rw [List.append_nil]
    exact apart.sublist (List.filter_sublist.map _)
  · rw [List.append_nil] at member
    obtain ⟨member, other⟩ := among stop member
    obtain ⟨open_, busy⟩ := ledger.busy stop (List.mem_append_left _ member)
    exact ⟨List.mem_filter.mpr ⟨open_, decide_eq_true other⟩, List.mem_filter.mpr ⟨busy, decide_eq_true other⟩⟩
  · obtain ⟨member, other⟩ := among stop member
    rw [Function.update_of_ne other, ledger.timed stop member]

end Ledger

namespace World

variable {world : World}

-- What a call that leaves the stops alone does not touch.
structure Beside (before after : World) : Prop where
  serial : after.serial = before.serial
  waits : after.waits = before.waits
  frames : framed after.frames = framed before.frames
  holdings : holdings after.log = holdings before.log
  endings : endings after.log = endings before.log
  conns : after.conns = before.conns
  handling : after.handling = before.handling
  timers : after.timers = before.timers

theorem Beside.booked {after : World} (beside : Beside world after) (booked : world.Booked) : after.Booked := by
  rw [Booked, beside.serial, beside.waits, beside.frames, beside.holdings, beside.endings, beside.conns, beside.handling, beside.timers]
  exact booked

-- Notes of another kind.
def Apart (notes : List Note) : Prop := ∀ note ∈ notes, note.holding = none ∧ note.ending = none

theorem Apart.holdings {notes : List Note} (apart : Apart notes) (log : List Note) : holdings (notes ++ log) = holdings log := by
  rw [Stopping.holdings, List.filterMap_append, List.filterMap_eq_nil_iff.mpr fun note member => (apart note member).1]
  rfl

theorem Apart.endings {notes : List Note} (apart : Apart notes) (log : List Note) : endings (notes ++ log) = endings log := by
  rw [Stopping.endings, List.filterMap_append, List.filterMap_eq_nil_iff.mpr fun note member => (apart note member).2]
  rfl

end World

end Kido.Stopping
