import Kido.Delivery.Outstanding
import Kido.Ring.Room

set_option autoImplicit false

namespace Kido.Delivering

open Kido.Shared Kido.Streaming

structure Placed (delivery : Delivery) : Prop where
  range : delivery.source.log.head ≤ maxPos
  seen : delivery.source.seen ≤ delivery.source.log.head
  tail : Boundary Rec.size delivery.source.log delivery.source.tail
  place : Boundary Rec.size delivery.source.log delivery.delivered
  holds : ∀ waiting ∈ delivery.finished, Boundary Rec.size delivery.source.log waiting.at_ ∧
    delivery.source.tail ≤ waiting.at_ ∧ waiting.at_ ≤ delivery.delivered
  sorted : delivery.finished.Pairwise fun first second => first.at_ ≤ second.at_
  kept : delivery.requests ≠ [] → delivery.source.tail ≤ delivery.delivered
  idle : delivery.requests = [] → delivery.slices = 0
  few : delivery.slices ≤ delivery.delivered

theorem Placed.moved {delivery : Delivery} {next : Nat} (placed : Placed delivery)
    (boundary : Boundary Rec.size delivery.source.log next) (after : delivery.delivered < next) :
    Placed { delivery with delivered := next } := by
  refine { placed with
    place := boundary
    holds := fun waiting member => ?_
    kept := fun some_ => Nat.le_trans (placed.kept some_) (Nat.le_of_lt after)
    few := Nat.le_trans placed.few (Nat.le_of_lt after) }
  obtain ⟨there, kept, early⟩ := placed.holds waiting member
  exact ⟨there, kept, Nat.le_trans early (Nat.le_of_lt after)⟩

theorem Placed.counted {delivery : Delivery} {front : Waiting} {rest : List Waiting} {next : Nat} (placed : Placed delivery)
    (requests : delivery.requests = front :: rest) (boundary : Boundary Rec.size delivery.source.log next)
    (after : delivery.delivered < next) :
    Placed { delivery with slices := delivery.slices + 1, delivered := next } := by
  refine { placed.moved boundary after with
    idle := fun none_ => ?_
    few := Nat.le_trans (Nat.succ_le_succ placed.few) after }
  rw [requests] at none_
  cases none_

theorem Placed.exact_count {delivery : Delivery} (placed : Placed delivery) :
    saturatingAdd delivery.slices 1 = delivery.slices + 1 := by
  have few := Nat.le_trans placed.few placed.place.le
  have range := placed.range
  have wide : maxPos + 1 ≤ u64 - 1 := by decide
  rw [Log.head] at range
  rw [saturatingAdd]
  omega

theorem Placed.ended {delivery : Delivery} {front : Waiting} {rest : List Waiting} {next count : Nat}
    (placed : Placed delivery) (here : delivery.delivered = next)
    (popped : delivery.source.tail ≤ next) :
    Placed { delivery.popQueue rest with finished := delivery.finished ++ [⟨front.serial, next, count⟩] } := by
  subst here
  refine { placed with
    holds := fun waiting member => ?_
    sorted := List.pairwise_append.2 ⟨placed.sorted, List.pairwise_singleton _ _, fun waiting member last new => ?_⟩
    kept := fun _ => popped
    idle := fun _ => rfl
    few := Nat.zero_le _ }
  · rcases List.mem_append.1 member with old | new
    · exact placed.holds waiting old
    · cases List.mem_singleton.1 new
      exact ⟨placed.place, popped, Nat.le_refl _⟩
  · cases List.mem_singleton.1 new
    exact (placed.holds waiting member).2.2

def serials (delivery : Delivery) : List Nat := delivery.outstanding.map Waiting.serial

namespace Turn

structure Sound (turn : Turn) : Prop where
  placed : Placed turn.delivery
  window : Window (serials turn.delivery) turn.delivery.next
  minted : (turn.events.filterMap Event.fresh).Pairwise (· < ·)
  fresh : ∀ serial ∈ turn.events.filterMap Event.fresh, serial < turn.delivery.next
  owes : Owes turn.events turn.delivery

theorem create_sound (ring : Ring) : Sound ⟨.create ring, []⟩ where
  placed := {
    range := Nat.zero_le _
    seen := Nat.le_refl _
    tail := .zero _
    place := .zero _
    holds := nofun
    sorted := .nil
    kept := fun some_ => absurd rfl some_
    idle := fun _ => rfl
    few := Nat.le_refl _ }
  window := ⟨.nil, nofun, nofun⟩
  minted := .nil
  fresh := nofun
  owes := ⟨[], .nil, .start⟩

variable {turn : Turn}

theorem Sound.sourced {source : Source} (sound : turn.Sound) (placed : Placed { turn.delivery with source := source }) :
    (turn.update { turn.delivery with source := source }).Sound :=
  ⟨placed, sound.window, sound.minted, sound.fresh, sound.owes⟩

theorem Sound.look (sound : turn.Sound) : (turn.update turn.delivery.look).Sound :=
  sound.sourced { sound.placed with seen := Nat.le_refl _ }

theorem Sound.commit {rec : Rec} (sound : turn.Sound)
    (room : (turn.delivery.source.log ++ [rec]).head ≤ maxPos) :
    (turn.update { turn.delivery with
      source := { turn.delivery.source with log := turn.delivery.source.log ++ [rec] } }).Sound := by
  have grown : turn.delivery.source.log <+: turn.delivery.source.log ++ [rec] := List.prefix_append _ _
  refine sound.sourced { sound.placed with
    range := room
    seen := Nat.le_trans sound.placed.seen (total_le grown)
    tail := sound.placed.tail.grow grown
    place := sound.placed.place.grow grown
    holds := fun waiting member => ?_ }
  obtain ⟨boundary, kept, early⟩ := sound.placed.holds waiting member
  exact ⟨boundary.grow grown, kept, early⟩

theorem Sound.passed {next : Nat} (sound : turn.Sound) (boundary : Boundary Rec.size turn.delivery.source.log next)
    (after : turn.delivery.delivered < next) : (turn.update { turn.delivery with delivered := next }).Sound :=
  ⟨sound.placed.moved boundary after, sound.window, sound.minted, sound.fresh, sound.owes⟩

theorem Sound.noted {event : Event} {delivery : Delivery} (sound : turn.Sound) (placed : Placed delivery)
    (same : serials delivery = serials turn.delivery ∨ (serials delivery).Sublist (serials turn.delivery))
    (next : delivery.next = turn.delivery.next) (none_ : event.fresh = none)
    (owes : Owes (turn.events ++ [event]) delivery) : ((turn.update delivery).note event).Sound := by
  have sub : (serials delivery).Sublist (serials turn.delivery) := same.elim (fun equal => equal ▸ .refl _) id
  have fresh : (turn.events ++ [event]).filterMap Event.fresh = turn.events.filterMap Event.fresh := by
    rw [List.filterMap_append, List.filterMap_cons, none_, List.filterMap_nil, List.append_nil]
  refine ⟨placed, ?_, ?_, ?_, owes⟩
  · change Window (serials delivery) delivery.next
    rw [next]
    exact sound.window.sublist sub
  · exact fresh ▸ sound.minted
  · change ∀ serial ∈ (turn.events ++ [event]).filterMap Event.fresh, serial < delivery.next
    rw [fresh, next]
    exact sound.fresh

theorem Sound.hand {front : Waiting} {rest : List Waiting} {next : Nat} (sound : turn.Sound)
    (requests : turn.delivery.requests = front :: rest) (late : front.at_ ≤ turn.delivery.delivered)
    (boundary : Boundary Rec.size turn.delivery.source.log next) (after : turn.delivery.delivered < next) :
    (turn.hand front rest next).2.Sound := by
  have counted := sound.placed.counted requests boundary after
  have kept := sound.placed.kept (by rw [requests]; exact List.cons_ne_nil _ _)
  have more (stop : Option Nat) := Owes.handed sound.owes requests turn.delivery.delivered late stop
  have part : ((turn.update { turn.delivery with slices := turn.delivery.slices + 1, delivered := next }).note
      (.handed front.serial turn.delivery.delivered none)).Sound := by
    refine sound.noted counted (.inl rfl) rfl rfl ?_
    obtain ⟨ended, all, serves⟩ := more none
    refine ⟨ended, all, ?_⟩
    change ServesAll _ (ended ++ opens turn.delivery.requests (turn.delivery.slices + 1))
    rw [requests]
    exact serves
  rw [Turn.hand, sound.placed.exact_count]
  split
  · exact part
  · split
    · refine sound.noted (counted.ended rfl (Nat.le_trans kept (Nat.le_of_lt after))) (.inl ?_) rfl rfl ?_
      · simp [serials, Delivery.outstanding, Delivery.popQueue, requests]
      · obtain ⟨ended, all, serves⟩ := more (some next)
        refine ⟨ended ++ [⟨front.serial, front.at_, turn.delivery.slices + 1, some next⟩],
          List.rel_append all (.cons ⟨rfl, rfl, rfl⟩ .nil), ?_⟩
        change ServesAll _ (_ ++ opens rest 0)
        rw [opens_zero, List.append_assoc]
        exact serves
    · exact part

theorem Sound.deliverOne (sound : turn.Sound) : turn.deliverOne.2.Sound := by
  rw [Turn.deliverOne]
  split
  · exact sound
  next kind next ok =>
    obtain ⟨_, after, _, boundary⟩ := Source.record_ok ok
    have passed := sound.passed boundary after
    split
    · split
      · exact passed
      next front rest requests =>
        split
        next late => exact sound.hand requests late boundary after
        next => exact sound
    · exact passed

theorem Sound.deliverFrom {upper fuel : Nat} (sound : turn.Sound) : (turn.deliverFrom upper fuel).2.Sound := by
  induction fuel generalizing turn with
  | zero => exact sound
  | succ fuel ih =>
    rw [Turn.deliverFrom]
    split
    · have one := sound.deliverOne
      rcases done : turn.deliverOne with ⟨_ | _, after⟩
      · rw [done] at one
        exact one
      · rw [done] at one
        exact ih one
    · exact sound

theorem Sound.deliver {upper : Nat} (sound : turn.Sound) : (turn.deliver upper).2.Sound := by
  rw [Turn.deliver]
  split
  · exact sound
  · exact sound.deliverFrom

@[simp]
theorem hand_source (front : Waiting) (rest : List Waiting) (next : Nat) :
    (turn.hand front rest next).2.delivery.source = turn.delivery.source := by
  rw [hand]
  split
  · rfl
  · split <;> rfl

@[simp]
theorem deliverOne_source : turn.deliverOne.2.delivery.source = turn.delivery.source := by
  rw [Turn.deliverOne]
  split
  · rfl
  · split
    · split
      · rfl
      · split
        · exact hand_source ..
        · rfl
    · rfl

theorem deliverFrom_source (upper fuel : Nat) : (turn.deliverFrom upper fuel).2.delivery.source = turn.delivery.source := by
  induction fuel generalizing turn with
  | zero => rfl
  | succ fuel ih =>
    rw [Turn.deliverFrom]
    split
    · have one := @deliverOne_source turn
      rcases done : turn.deliverOne with ⟨_ | _, after⟩
      · rw [done] at one
        exact one
      · rw [done] at one
        exact ih.trans one
    · rfl

theorem deliver_source (upper : Nat) : (turn.deliver upper).2.delivery.source = turn.delivery.source := by
  rw [Turn.deliver]
  split
  · rfl
  · exact deliverFrom_source ..

end Turn

structure Kept (delivery : Delivery) (pos : Nat) : Prop where
  boundary : Boundary Rec.size delivery.source.log pos
  after : delivery.source.tail ≤ pos
  holds : ∀ waiting ∈ delivery.finished, pos ≤ waiting.at_
  reads : delivery.requests ≠ [] → pos ≤ delivery.delivered

theorem Placed.reading {delivery : Delivery} (placed : Placed delivery)
    (seen : delivery.source.seen = delivery.source.log.head) :
    Boundary Rec.size delivery.source.log delivery.reading ∧ delivery.source.tail ≤ delivery.reading ∧
      (delivery.requests ≠ [] → delivery.reading = delivery.delivered) := by
  rw [Delivery.reading]
  split
  next none_ =>
    rw [seen]
    exact ⟨.end _, placed.tail.le, fun some_ => absurd none_ some_⟩
  next some_ => exact ⟨placed.place, placed.kept some_, fun _ => rfl⟩

theorem Placed.keep {delivery : Delivery} (placed : Placed delivery)
    (seen : delivery.source.seen = delivery.source.log.head) : Kept delivery delivery.keep := by
  obtain ⟨boundary, after, reads⟩ := placed.reading seen
  rw [Delivery.keep]
  cases finished : delivery.finished with
  | nil => exact ⟨boundary, after, by rw [finished]; exact nofun, fun some_ => Nat.le_of_eq (reads some_)⟩
  | cons first more =>
    obtain ⟨there, held, early⟩ := placed.holds first (finished ▸ List.mem_cons_self)
    have least (waiting : Waiting) (member : waiting ∈ delivery.finished) : first.at_ ≤ waiting.at_ := by
      have sorted := placed.sorted
      rw [finished] at sorted member
      rcases List.mem_cons.1 member with rfl | later
      · exact Nat.le_refl _
      · exact (List.pairwise_cons.1 sorted).1 waiting later
    simp only
    split
    next below => exact ⟨there, held, least, fun _ => early⟩
    next above =>
      have above := Nat.le_of_not_lt above
      exact ⟨boundary, after, fun waiting member => Nat.le_trans above (least waiting member),
        fun some_ => Nat.le_of_eq (reads some_)⟩

theorem retain_le_keep (ring : Ring) (upper keep : Nat) : Reader.retain ring upper keep ≤ keep := by
  rw [Reader.retain]
  split
  · exact Nat.zero_le _
  · split
    next below => exact Nat.le_of_lt below
    next => exact Nat.le_refl _

theorem Placed.advanced {delivery : Delivery} (placed : Placed delivery)
    (seen : delivery.source.seen = delivery.source.log.head) :
    (delivery.source.advance delivery.source.seen delivery.keep).1 = .ok () ∧
      Placed { delivery with source := (delivery.source.advance delivery.source.seen delivery.keep).2 } := by
  obtain ⟨ok, first, same⟩ := @Source.advance_source delivery.source delivery.source.seen delivery.keep rfl placed.seen placed.tail
  have kept := placed.keep seen
  have within := first.first delivery.keep kept.boundary kept.after (retain_le_keep _ _ _)
  refine ⟨ok, ?_⟩
  rw [same]
  exact { placed with
    tail := first.boundary
    holds := fun waiting member =>
      ⟨(placed.holds waiting member).1, Nat.le_trans within (kept.holds waiting member), (placed.holds waiting member).2.2⟩
    kept := fun some_ => Nat.le_trans within (kept.reads some_) }

namespace Turn

variable {turn : Turn}

theorem Sound.scanSeen (sound : turn.Sound) (seen : turn.delivery.source.seen = turn.delivery.source.log.head) :
    turn.scanSeen.2.Sound := by
  have delivered := @Sound.deliver _ turn.delivery.source.seen sound
  have source := @deliver_source turn turn.delivery.source.seen
  rw [Turn.scanSeen]
  rcases done : turn.deliver turn.delivery.source.seen with ⟨_ | _, after⟩
  · rw [done] at delivered
    exact delivered
  · rw [done] at delivered source
    have same : turn.delivery.source.seen = after.delivery.source.seen := by rw [source]
    obtain ⟨ok, placed⟩ := delivered.placed.advanced (by rw [source]; exact seen)
    simp only [same]
    rcases moved : after.delivery.source.advance after.delivery.source.seen after.delivery.keep with ⟨_ | _, later⟩
    · rw [moved] at ok
      cases ok
    · rw [moved] at placed
      exact delivered.sourced placed

theorem Sound.scan (sound : turn.Sound) : turn.scan.2.Sound := sound.look.scanSeen rfl

theorem serials_mint {delivery after : Delivery} {serial : Nat} (minted : mint delivery = some (serial, after)) :
    serial = delivery.next ∧ after = { delivery with next := delivery.next + 1 } ∧
      ∀ oldest, (serials delivery).head? = some oldest → Req.ofSerial oldest ≠ Req.ofSerial delivery.next := by
  rw [mint] at minted
  split at minted
  · cases minted
  next following more =>
    split at minted
    · cases minted
    next apart =>
      cases minted
      refine ⟨rfl, by rw [(checkedAdd_eq_some.1 more).2], fun oldest first same => apart ?_⟩
      have front : delivery.oldest = some oldest := by rw [Delivery.oldest, ← List.head?_map]; exact first
      rw [front]
      exact decide_eq_true same

theorem Sound.fresher {delivery : Delivery} {event : Event} (sound : turn.Sound) (placed : Placed delivery)
    (window : Window (serials delivery) delivery.next) (minted : event.fresh = some turn.delivery.next)
    (next : delivery.next = turn.delivery.next + 1) (owes : Owes (turn.events ++ [event]) delivery) :
    ((turn.update delivery).note event).Sound := by
  have fresh : (turn.events ++ [event]).filterMap Event.fresh =
      turn.events.filterMap Event.fresh ++ [turn.delivery.next] := by
    rw [List.filterMap_append, List.filterMap_cons, minted, List.filterMap_nil]
  refine ⟨placed, window, ?_, ?_, owes⟩
  · change ((turn.events ++ [event]).filterMap Event.fresh).Pairwise (· < ·)
    rw [fresh]
    refine List.pairwise_append.2 ⟨sound.minted, List.pairwise_singleton _ _, fun serial member last new => ?_⟩
    cases List.mem_singleton.1 new
    exact sound.fresh serial member
  · change ∀ serial ∈ (turn.events ++ [event]).filterMap Event.fresh, serial < delivery.next
    rw [fresh, next]
    intro serial member
    rcases List.mem_append.1 member with old | new
    · exact Nat.lt_succ_of_lt (sound.fresh serial old)
    · cases List.mem_singleton.1 new
      exact Nat.lt_succ_self _

theorem Sound.mintSerial (sound : turn.Sound) : turn.mintSerial.2.Sound := by
  rw [Turn.mintSerial]
  split
  · exact sound
  next serial delivery minted =>
    obtain ⟨rfl, rfl, apart⟩ := serials_mint minted
    obtain ⟨ended, all, serves⟩ := sound.owes
    exact sound.fresher { sound.placed with } (sound.window.mint apart).later rfl rfl ⟨ended, all, serves.step (.minted _ _)⟩

end Turn

theorem Placed.asked {delivery : Delivery} (placed : Placed delivery) (serial : Nat) :
    Placed (delivery.ask serial delivery.source.log.head) := by
  have some_ : delivery.requests ++ [⟨serial, delivery.source.log.head, 0⟩] ≠ [] := List.append_ne_nil_of_right_ne_nil _ nofun
  by_cases none_ : delivery.requests = []
  · rw [Delivery.ask, if_pos none_]
    refine { placed with
      place := ?_
      holds := fun waiting member => ?_
      kept := fun _ => ?_
      idle := fun nothing => absurd nothing some_
      few := ?_ }
    · exact .end _
    · obtain ⟨boundary, kept, _⟩ := placed.holds waiting member
      exact ⟨boundary, kept, boundary.le⟩
    · exact placed.tail.le
    · change delivery.slices ≤ _
      rw [placed.idle none_]
      exact Nat.zero_le _
  · rw [Delivery.ask, if_neg none_]
    exact { placed with
      kept := fun _ => placed.kept none_
      idle := fun nothing => absurd nothing some_ }

theorem ask_next (delivery : Delivery) (serial floor : Nat) : (delivery.ask serial floor).next = delivery.next := by
  by_cases none_ : delivery.requests = [] <;> simp [Delivery.ask, none_]

theorem asked_serials (delivery : Delivery) (serial floor : Nat) : serials (delivery.ask serial floor) = serials delivery ++ [serial] := by
  by_cases none_ : delivery.requests = [] <;> simp [serials, Delivery.outstanding, Delivery.ask, none_]

theorem Owes.asked {events : List Event} {delivery : Delivery} (owes : Owes events delivery)
    (idle : delivery.requests = [] → delivery.slices = 0) (serial floor : Nat) :
    Owes (events ++ [.asked serial floor]) (delivery.ask serial floor) := by
  obtain ⟨ended, all, serves⟩ := owes
  have finished : (delivery.ask serial floor).finished = delivery.finished := by
    by_cases none_ : delivery.requests = [] <;> simp [Delivery.ask, none_]
  have opened : opens (delivery.ask serial floor).requests (delivery.ask serial floor).slices =
      opens delivery.requests delivery.slices ++ [⟨serial, floor, 0, none⟩] := by
    rw [← opens_snoc delivery.requests ⟨serial, floor, 0⟩ idle]
    by_cases none_ : delivery.requests = [] <;> simp [Delivery.ask, none_]
  refine ⟨ended, by rw [finished]; exact all, ?_⟩
  rw [opened, ← List.append_assoc]
  exact serves.step (.asked _ _ _)

namespace Turn

variable {turn : Turn}

theorem Sound.request (sound : turn.Sound) : turn.request.2.Sound := by
  rw [Turn.request]
  split
  · exact sound.look
  next serial delivery minted =>
    obtain ⟨rfl, rfl, apart⟩ := serials_mint minted
    have looked := sound.look
    have next : Placed { turn.delivery.look with next := turn.delivery.next + 1 } := { looked.placed with }
    have owes : Owes turn.events { turn.delivery.look with next := turn.delivery.next + 1 } := sound.owes
    refine sound.fresher (next.asked turn.delivery.next) ?_ rfl (ask_next ..)
      (owes.asked sound.placed.idle turn.delivery.next turn.delivery.source.log.head)
    rw [asked_serials, ask_next]
    exact sound.window.mint apart

theorem Sound.snapshotDone {req : Req} (sound : turn.Sound) : (turn.snapshotDone req).2.Sound := by
  obtain ⟨ended, all, serves⟩ := sound.owes
  rw [Turn.snapshotDone]
  split
  next front rest finished =>
    split
    · have sub : serials { turn.delivery with finished := rest } = (serials turn.delivery).tail := by
        simp [serials, Delivery.outstanding, finished]
      have held := sound.placed.holds
      have sorted := sound.placed.sorted
      rw [finished] at held sorted
      refine sound.noted { sound.placed with
        holds := fun waiting member => held waiting (List.mem_cons_of_mem _ member)
        sorted := (List.pairwise_cons.1 sorted).2 } (.inr (sub ▸ List.tail_sublist _)) rfl rfl ?_
      rw [finished] at all
      cases all with
      | @cons owed _ ended _ one others =>
        refine ⟨ended, others, ?_⟩
        have done := Serves.held owed (ended ++ opens turn.delivery.requests turn.delivery.slices) front.at_ one.stop
        rw [one.serial, one.count] at done
        exact serves.step done
    · exact sound
  next front rest finished requests =>
    split
    · have sub : serials (turn.delivery.popQueue rest) = (serials turn.delivery).tail := by
        simp [serials, Delivery.outstanding, Delivery.popQueue, finished, requests]
      refine sound.noted { sound.placed with
        kept := fun _ => sound.placed.kept (by rw [requests]; exact List.cons_ne_nil _ _)
        idle := fun _ => rfl
        few := Nat.zero_le _ } (.inr (sub ▸ List.tail_sublist _)) rfl rfl ?_
      rw [finished] at all
      cases all
      rw [requests] at serves
      refine ⟨[], by rw [Delivery.popQueue, finished]; exact .nil, ?_⟩
      change ServesAll _ (opens rest 0)
      rw [opens_zero]
      exact serves.step (.failed _ _)
    · exact sound
  next => exact sound

theorem failAll_delivery (idle : turn.delivery.requests = [] → turn.delivery.slices = 0) :
    turn.failAll.2.delivery = { turn.delivery with finished := [], requests := [], slices := 0 } := by
  rw [Turn.failAll]
  by_cases none_ : turn.delivery.requests = []
  · simp [none_, idle none_]
  · simp [none_, Delivery.popQueue]

theorem Sound.failAll (sound : turn.Sound) : turn.failAll.2.Sound := by
  obtain ⟨ended, all, serves⟩ := sound.owes
  have delivery := failAll_delivery sound.placed.idle
  have events : turn.failAll.2.events =
      turn.events ++ turn.delivery.outstanding.map fun waiting => .done ⟨waiting.serial, none, 0⟩ := by
    rw [Turn.failAll, List.map_map]
    rfl
  have fresh : turn.failAll.2.events.filterMap Event.fresh = turn.events.filterMap Event.fresh := by
    have none_ : (turn.delivery.outstanding.map fun waiting => Event.done ⟨waiting.serial, none, 0⟩).filterMap Event.fresh = [] := by
      rw [List.filterMap_map]
      exact List.filterMap_eq_nil_iff.2 fun _ _ => rfl
    rw [events, List.filterMap_append, none_, List.append_nil]
  refine ⟨?_, ?_, fresh ▸ sound.minted, ?_, ?_⟩
  · rw [delivery]
    exact { sound.placed with
      holds := nofun
      sorted := .nil
      kept := fun some_ => absurd rfl some_
      idle := fun _ => rfl
      few := Nat.zero_le _ }
  · rw [delivery]
    exact ⟨.nil, nofun, nofun⟩
  · rw [fresh, delivery]
    exact sound.fresh
  · rw [delivery, events]
    refine ⟨[], .nil, serves.fail ?_⟩
    rw [List.map_append, ended_serials all, opens_serials, Delivery.outstanding, List.map_append]

theorem Sound.step {op : Op} (sound : turn.Sound) : (turn.step op).Sound := by
  cases op with
  | commit rec =>
    rw [Turn.step]
    simp only
    split
    next room => exact sound.commit room
    next => exact sound
  | look => exact sound.look
  | request => exact sound.request
  | mintSerial => exact sound.mintSerial
  | scan => exact sound.scan
  | deliverNow => exact sound.look.deliver
  | snapshotDone req => exact sound.snapshotDone
  | failAll => exact sound.failAll

-- What holds of the deliveries of a pane: numbers go up and the low halves of those in use differ, the slices and the ends
-- are those of the requests they are for, and the ring is held for the requests that are left.
structure Delivered (turn : Turn) : Prop where
  minted : (turn.events.filterMap Event.fresh).Pairwise (· < ·)
  distinct : (turn.delivery.outstanding.map fun waiting => Req.ofSerial waiting.serial).Nodup
  served : ∃ owed, ServesAll turn.events owed ∧
    owed.map Owed.serial = turn.delivery.outstanding.map Waiting.serial ∧
    owed.filterMap Owed.stop = turn.delivery.finished.map Waiting.at_
  counted : ∀ done, .done done ∈ turn.events → (done.hold ≠ none → done.slices = handedOut turn.events done.serial) ∧
    (done.hold = none → done.slices = 0)
  held : ∀ waiting ∈ turn.delivery.finished, turn.delivery.source.tail ≤ waiting.at_
  unread : turn.delivery.requests ≠ [] → turn.delivery.source.tail ≤ turn.delivery.delivered

theorem Sound.delivered (sound : turn.Sound) : turn.Delivered where
  minted := sound.minted
  distinct := by
    have distinct := sound.window.distinct
    rwa [serials, List.map_map] at distinct
  served := by
    obtain ⟨ended, all, serves⟩ := sound.owes
    refine ⟨_, serves, ?_, ?_⟩
    · rw [List.map_append, ended_serials all, opens_serials, Delivery.outstanding, List.map_append]
    · rw [List.filterMap_append, opens_stops, List.append_nil]
      exact ended_stops all
  counted done member := by
    obtain ⟨_, _, serves⟩ := sound.owes
    exact ((serves.tallied (sound.minted.imp fun less => Nat.ne_of_lt less)).done done member).2.2
  held waiting member := (sound.placed.holds waiting member).2.1
  unread := sound.placed.kept

end Turn

-- The deliveries of every run serve the requests in their order, each with its own slices.
theorem slices_served_in_order (ring : Ring) (ops : List Op) : (Turn.run ring ops).Delivered :=
  (run_invariant (Turn.create_sound ring) (fun _ _ sound => sound.step) ops).delivered

def smallRing : Ring := Ends.smallest

def cutShort : List Op := [.request, .commit ⟨.slice, [1, 0]⟩, .scan, .failAll]

theorem failed_request_counts_nothing : ¬∀ ring ops done, .done done ∈ (Turn.run ring ops).events →
    done.slices = handedOut (Turn.run ring ops).events done.serial := by
  intro counts
  cases counts smallRing cutShort ⟨1, none, 0⟩ (by decide)

end Kido.Delivering
