import Kido.Delivery.Deliver

set_option autoImplicit false

namespace Kido.Delivering

open Kido.Shared Kido.Streaming

-- A request that is not done: where it was made, the slices it got, and where the record after the last one starts.
structure Owed where
  serial : Nat
  start : Nat
  count : Nat
  stop : Option Nat

-- What requests and slices are for: slices go to the first request that lacks some, and the oldest request is done first,
-- with the number of its slices if it got them all.
inductive Serves : List Owed → Event → List Owed → Prop where
  | minted (owed : List Owed) (serial : Nat) : Serves owed (.minted serial) owed
  | asked (owed : List Owed) (serial start : Nat) : Serves owed (.asked serial start) (owed ++ [⟨serial, start, 0, none⟩])
  | handed (before after : List Owed) (front : Owed) (pos : Nat) (stop : Option Nat)
      (ended : ∀ other ∈ before, other.stop ≠ none) (lacks : front.stop = none) (late : front.start ≤ pos) :
      Serves (before ++ front :: after) (.handed front.serial pos stop)
        (before ++ { front with count := front.count + 1, stop := stop } :: after)
  | held (front : Owed) (rest : List Owed) (hold : Nat) (ended : front.stop = some hold) :
      Serves (front :: rest) (.done ⟨front.serial, some hold, front.count⟩) rest
  | failed (front : Owed) (rest : List Owed) : Serves (front :: rest) (.done ⟨front.serial, none, 0⟩) rest

inductive ServesAll : List Event → List Owed → Prop where
  | start : ServesAll [] []
  | step {events : List Event} {owed after : List Owed} {event : Event} (all : ServesAll events owed)
      (one : Serves owed event after) : ServesAll (events ++ [event]) after

def Event.fresh : Event → Option Nat
  | .minted serial | .asked serial _ => some serial
  | _ => none

def opens : List Waiting → Nat → List Owed
  | [], _ => []
  | front :: rest, slices =>
    ⟨front.serial, front.at_, slices, none⟩ :: rest.map fun waiting => ⟨waiting.serial, waiting.at_, 0, none⟩

theorem opens_zero (requests : List Waiting) :
    opens requests 0 = requests.map fun waiting => ⟨waiting.serial, waiting.at_, 0, none⟩ := by
  cases requests <;> rfl

theorem opens_snoc (requests : List Waiting) (waiting : Waiting) {slices : Nat} (none_ : requests = [] → slices = 0) :
    opens (requests ++ [waiting]) slices = opens requests slices ++ [⟨waiting.serial, waiting.at_, 0, none⟩] := by
  cases requests with
  | nil => simp [opens, none_]
  | cons front rest => simp [opens]

theorem opens_serials (requests : List Waiting) (slices : Nat) :
    (opens requests slices).map Owed.serial = requests.map Waiting.serial := by
  cases requests with
  | nil => rfl
  | cons front rest => simp [opens]

-- A finished request holds the ring where the record after its last slice starts.
structure Ended (owed : Owed) (waiting : Waiting) : Prop where
  serial : owed.serial = waiting.serial
  count : owed.count = waiting.slices
  stop : owed.stop = some waiting.at_

theorem ended_stop {ended : List Owed} {finished : List Waiting} (all : List.Forall₂ Ended ended finished) :
    ∀ owed ∈ ended, owed.stop ≠ none := by
  induction all with
  | nil => exact nofun
  | cons one rest ih =>
    refine List.forall_mem_cons.2 ⟨?_, ih⟩
    rw [one.stop]
    exact Option.some_ne_none _

theorem ended_serials {ended : List Owed} {finished : List Waiting} (all : List.Forall₂ Ended ended finished) :
    ended.map Owed.serial = finished.map Waiting.serial := by
  induction all with
  | nil => rfl
  | cons one rest ih => rw [List.map_cons, List.map_cons, one.serial, ih]

theorem ended_stops {ended : List Owed} {finished : List Waiting} (all : List.Forall₂ Ended ended finished) :
    ended.filterMap Owed.stop = finished.map Waiting.at_ := by
  induction all with
  | nil => rfl
  | cons one rest ih => rw [List.filterMap_cons, one.stop, List.map_cons, ih]

theorem opens_stops (requests : List Waiting) (slices : Nat) : (opens requests slices).filterMap Owed.stop = [] := by
  cases requests with
  | nil => rfl
  | cons front rest => simp [opens, List.filterMap_map]

def Owes (events : List Event) (delivery : Delivery) : Prop :=
  ∃ ended, List.Forall₂ Ended ended delivery.finished ∧
    ServesAll events (ended ++ opens delivery.requests delivery.slices)

theorem Owes.handed {events : List Event} {delivery : Delivery} {front : Waiting} {rest : List Waiting}
    (owes : Owes events delivery) (requests : delivery.requests = front :: rest) (pos : Nat) (late : front.at_ ≤ pos)
    (stop : Option Nat) : ∃ ended, List.Forall₂ Ended ended delivery.finished ∧
      ServesAll (events ++ [.handed front.serial pos stop])
        (ended ++ ⟨front.serial, front.at_, delivery.slices + 1, stop⟩ ::
          rest.map fun waiting => ⟨waiting.serial, waiting.at_, 0, none⟩) := by
  obtain ⟨ended, all, serves⟩ := owes
  rw [requests, opens] at serves
  exact ⟨ended, all, serves.step (.handed ended _ ⟨front.serial, front.at_, delivery.slices, none⟩ pos stop
    (ended_stop all) rfl late)⟩

theorem ServesAll.fail {events : List Event} {owed : List Owed} {waiting : List Waiting} (serves : ServesAll events owed)
    (same : owed.map Owed.serial = waiting.map Waiting.serial) :
    ServesAll (events ++ waiting.map fun waiting => .done ⟨waiting.serial, none, 0⟩) [] := by
  induction waiting generalizing events owed with
  | nil =>
    rw [List.map_nil, List.map_eq_nil_iff] at same
    rw [List.map_nil, List.append_nil]
    exact same ▸ serves
  | cons front rest ih =>
    cases owed with
    | nil => cases same
    | cons one others =>
      rw [List.map_cons, List.map_cons, List.cons.injEq] at same
      have later := ih (serves.step (.failed one others)) same.2
      rwa [same.1, List.append_assoc] at later

def Event.handedTo (serial : Nat) : Event → Bool
  | .handed of _ _ => decide (of = serial)
  | _ => false

def handedOut (events : List Event) (serial : Nat) : Nat := events.countP (Event.handedTo serial)

def freshOf (events : List Event) : List Nat := events.filterMap Event.fresh

theorem handedOut_snoc (events : List Event) (event : Event) (serial : Nat) :
    handedOut (events ++ [event]) serial = handedOut events serial + if event.handedTo serial then 1 else 0 := by
  rw [handedOut, List.countP_append, List.countP_singleton]
  rfl

theorem freshOf_snoc (events : List Event) (event : Event) :
    freshOf (events ++ [event]) = freshOf events ++ event.fresh.toList := by
  rw [freshOf, List.filterMap_append]
  cases event <;> rfl

-- The slices of the numbers that were handed out, and of no others.
structure Tallied (events : List Event) (owed : List Owed) : Prop where
  known : ∀ one ∈ owed, one.serial ∈ freshOf events
  count : ∀ one ∈ owed, one.count = handedOut events one.serial
  apart : (owed.map Owed.serial).Nodup
  unknown : ∀ serial, serial ∉ freshOf events → handedOut events serial = 0
  done : ∀ done, .done done ∈ events → done.serial ∈ freshOf events ∧ done.serial ∉ owed.map Owed.serial ∧
    (done.hold ≠ none → done.slices = handedOut events done.serial) ∧ (done.hold = none → done.slices = 0)

theorem Tallied.quiet {events : List Event} {owed : List Owed} {event : Event} (tallied : Tallied events owed)
    (none_ : ∀ serial, event.handedTo serial = false) (other : ∀ done, event ≠ .done done) :
    Tallied (events ++ [event]) owed := by
  have known {serial : Nat} (member : serial ∈ freshOf events) : serial ∈ freshOf (events ++ [event]) := by
    rw [freshOf_snoc]
    exact List.mem_append_left _ member
  have count (serial : Nat) : handedOut (events ++ [event]) serial = handedOut events serial := by
    rw [handedOut_snoc, none_]
    rfl
  refine ⟨fun one member => known (tallied.known one member), fun one member => ?_, tallied.apart, fun serial absent => ?_,
    fun done member => ?_⟩
  · rw [count]
    exact tallied.count one member
  · rw [count]
    exact tallied.unknown serial fun member => absent (known member)
  · rcases List.mem_append.1 member with old | last
    · obtain ⟨fresh, gone, held, failed⟩ := tallied.done done old
      exact ⟨known fresh, gone, fun some_ => (held some_).trans (count _).symm, failed⟩
    · exact absurd (List.mem_singleton.1 last).symm (other done)

theorem Tallied.asked {events : List Event} {owed : List Owed} {serial start : Nat} (tallied : Tallied events owed)
    (new : serial ∉ freshOf events) :
    Tallied (events ++ [.asked serial start]) (owed ++ [⟨serial, start, 0, none⟩]) := by
  obtain ⟨known, count, apart, unknown, done⟩ := @Tallied.quiet _ _ (.asked serial start) tallied (fun _ => rfl)
    fun _ => nofun
  have there : serial ∈ freshOf (events ++ [.asked serial start]) := by
    rw [freshOf_snoc]
    exact List.mem_append_right _ List.mem_cons_self
  have zero : handedOut (events ++ [.asked serial start]) serial = 0 := by
    rw [handedOut_snoc, tallied.unknown serial new]
    rfl
  refine ⟨fun one member => ?_, fun one member => ?_, ?_, unknown, fun ended member => ?_⟩
  · rcases List.mem_append.1 member with old | last
    · exact known one old
    · cases List.mem_singleton.1 last
      exact there
  · rcases List.mem_append.1 member with old | last
    · exact count one old
    · cases List.mem_singleton.1 last
      exact zero.symm
  · rw [List.map_append]
    refine List.nodup_append.2 ⟨apart, List.pairwise_singleton _ _, fun first member second last same => new ?_⟩
    cases List.mem_singleton.1 last
    obtain ⟨one, mine, rfl⟩ := List.mem_map.1 member
    have equal : one.serial = serial := same
    rw [← equal]
    exact tallied.known one mine
  · obtain ⟨fresh, gone, counted⟩ := done ended member
    refine ⟨fresh, fun mine => ?_, counted⟩
    rw [List.map_append] at mine
    rcases List.mem_append.1 mine with old | last
    · exact gone old
    · rcases List.mem_append.1 member with before | now
      · have equal : ended.serial = serial := List.mem_singleton.1 last
        rw [← equal] at new
        exact new (tallied.done ended before).1
      · cases List.mem_singleton.1 now

theorem Tallied.handed {events : List Event} {before after : List Owed} {front : Owed} {pos : Nat} {stop : Option Nat}
    (tallied : Tallied events (before ++ front :: after)) :
    Tallied (events ++ [.handed front.serial pos stop])
      (before ++ { front with count := front.count + 1, stop := stop } :: after) := by
  have fresh : freshOf (events ++ [.handed front.serial pos stop]) = freshOf events := by
    rw [freshOf_snoc]
    exact List.append_nil _
  have names : (before ++ { front with count := front.count + 1, stop := stop } :: after).map Owed.serial =
      (before ++ front :: after).map Owed.serial := by simp
  have other {serial : Nat} (different : front.serial ≠ serial) :
      handedOut (events ++ [.handed front.serial pos stop]) serial = handedOut events serial := by
    rw [handedOut_snoc, Event.handedTo, decide_eq_false different]
    rfl
  have mine : handedOut (events ++ [.handed front.serial pos stop]) front.serial = handedOut events front.serial + 1 := by
    rw [handedOut_snoc, Event.handedTo, decide_eq_true rfl]
    rfl
  have apart := tallied.apart
  rw [List.map_append, List.map_cons, List.nodup_append, List.nodup_cons] at apart
  have inside : front ∈ before ++ front :: after := List.mem_append_right _ List.mem_cons_self
  refine ⟨fun one member => ?_, fun one member => ?_, by rw [names]; exact tallied.apart, fun serial absent => ?_,
    fun done member => ?_⟩
  · rw [fresh]
    rcases List.mem_append.1 member with early | late
    · exact tallied.known one (List.mem_append_left _ early)
    · rcases List.mem_cons.1 late with rfl | late
      · exact tallied.known front inside
      · exact tallied.known one (List.mem_append_right _ (List.mem_cons_of_mem _ late))
  · rcases List.mem_append.1 member with early | late
    · have different : front.serial ≠ one.serial := fun same =>
        apart.2.2 one.serial (List.mem_map_of_mem early) front.serial List.mem_cons_self same.symm
      rw [other different]
      exact tallied.count one (List.mem_append_left _ early)
    · rcases List.mem_cons.1 late with rfl | late
      · change front.count + 1 = _
        rw [mine, tallied.count front inside]
      · have different : front.serial ≠ one.serial := fun same => apart.2.1.1 (same ▸ List.mem_map_of_mem late)
        rw [other different]
        exact tallied.count one (List.mem_append_right _ (List.mem_cons_of_mem _ late))
  · rw [fresh] at absent
    have different : front.serial ≠ serial := by
      rintro rfl
      exact absent (tallied.known front inside)
    rw [other different]
    exact tallied.unknown serial absent
  · rcases List.mem_append.1 member with old | last
    · obtain ⟨known, gone, held, failed⟩ := tallied.done done old
      have different : front.serial ≠ done.serial := fun same => gone (same ▸ List.mem_map_of_mem inside)
      rw [fresh, names, other different]
      exact ⟨known, gone, held, failed⟩
    · cases List.mem_singleton.1 last

theorem Tallied.done_ {events : List Event} {front : Owed} {rest : List Owed} {ended : Done}
    (tallied : Tallied events (front :: rest)) (serial : ended.serial = front.serial)
    (held : ended.hold ≠ none → ended.slices = front.count) (failed : ended.hold = none → ended.slices = 0) :
    Tallied (events ++ [.done ended]) rest := by
  have fresh : freshOf (events ++ [.done ended]) = freshOf events := by
    rw [freshOf_snoc]
    exact List.append_nil _
  have count (serial : Nat) : handedOut (events ++ [.done ended]) serial = handedOut events serial := by
    rw [handedOut_snoc]
    rfl
  have apart := List.nodup_cons.1 tallied.apart
  refine ⟨fun one member => ?_, fun one member => ?_, apart.2, fun serial absent => ?_, fun done member => ?_⟩
  · rw [fresh]
    exact tallied.known one (List.mem_cons_of_mem _ member)
  · rw [count]
    exact tallied.count one (List.mem_cons_of_mem _ member)
  · rw [count]
    exact tallied.unknown serial (fresh ▸ absent)
  · rw [fresh, count]
    rcases List.mem_append.1 member with old | last
    · obtain ⟨known, gone, counted⟩ := tallied.done done old
      exact ⟨known, fun mine => gone (List.mem_cons_of_mem _ mine), counted⟩
    · cases List.mem_singleton.1 last
      rw [serial]
      exact ⟨tallied.known front List.mem_cons_self, apart.1,
        fun some_ => (held some_).trans (tallied.count front List.mem_cons_self), failed⟩

theorem ServesAll.tallied {events : List Event} {owed : List Owed} (serves : ServesAll events owed)
    (fresh : (freshOf events).Nodup) : Tallied events owed := by
  induction serves with
  | start => exact ⟨nofun, nofun, .nil, fun _ _ => rfl, nofun⟩
  | @step events owed after event all one ih =>
    rw [freshOf_snoc, List.nodup_append] at fresh
    have tallied := ih fresh.1
    cases one with
    | minted _ serial =>
      exact tallied.quiet (fun _ => rfl) fun _ => nofun
    | asked _ serial start =>
      exact tallied.asked fun member => fresh.2.2 serial member serial List.mem_cons_self rfl
    | handed before after front pos stop ended lacks late => exact tallied.handed
    | held front rest hold ended => exact tallied.done_ rfl (fun _ => rfl) nofun
    | failed front rest => exact tallied.done_ rfl (fun some_ => absurd rfl some_) fun _ => rfl

-- Numbers in a window of 2^32 that ends where the next one is.
structure Window (serials : List Nat) (next : Nat) : Prop where
  sorted : serials.Pairwise (· < ·)
  below : ∀ serial ∈ serials, serial < next
  near : ∀ serial ∈ serials, next ≤ serial + 2 ^ 32

theorem Window.distinct {serials : List Nat} {next : Nat} (window : Window serials next) :
    (serials.map Req.ofSerial).Nodup := by
  rw [List.Nodup, List.pairwise_map]
  refine window.sorted.imp_of_mem fun {first second} one other less same => ?_
  have low : first % 2 ^ 32 = second % 2 ^ 32 := by
    have words := congrArg (fun req : Req => req.low.toNat) same
    simpa [Req.ofSerial] using words
  have near := window.near first one
  have below := window.below second other
  omega

theorem Window.sublist {serials fewer : List Nat} {next : Nat} (window : Window serials next) (sub : fewer.Sublist serials) :
    Window fewer next :=
  ⟨window.sorted.sublist sub, fun serial member => window.below serial (sub.subset member),
    fun serial member => window.near serial (sub.subset member)⟩

theorem Window.mint {serials : List Nat} {next : Nat} (window : Window serials next)
    (apart : ∀ oldest, serials.head? = some oldest → Req.ofSerial oldest ≠ Req.ofSerial next) :
    Window (serials ++ [next]) (next + 1) := by
  have near (serial : Nat) (member : serial ∈ serials) : next + 1 ≤ serial + 2 ^ 32 := by
    cases serials with
    | nil => cases member
    | cons oldest rest =>
      have different : oldest + 2 ^ 32 ≠ next := by
        intro same
        refine apart oldest rfl (congrArg Framing.Req.mk (UInt32.toNat_inj.1 ?_))
        rw [← same]
        simp [UInt32.toNat_ofNat']
      have bound := window.near oldest List.mem_cons_self
      rcases List.mem_cons.1 member with rfl | later
      · omega
      · have above := (List.pairwise_cons.1 window.sorted).1 serial later
        omega
  refine ⟨List.pairwise_append.2 ⟨window.sorted, List.pairwise_singleton _ _, ?_⟩, ?_, ?_⟩
  · rintro serial member last (_ | ⟨_, ⟨⟩⟩)
    exact window.below serial member
  · intro serial member
    rcases List.mem_append.1 member with old | new
    · exact Nat.lt_succ_of_lt (window.below serial old)
    · cases List.mem_singleton.1 new
      exact Nat.lt_succ_self next
  · intro serial member
    rcases List.mem_append.1 member with old | new
    · exact near serial old
    · cases List.mem_singleton.1 new
      omega

theorem Window.later {serials : List Nat} {next : Nat} (window : Window (serials ++ [next]) (next + 1)) :
    Window serials (next + 1) := window.sublist (List.sublist_append_left _ _)

end Kido.Delivering
