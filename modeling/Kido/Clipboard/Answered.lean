import Kido.Clipboard.Held

set_option autoImplicit false

namespace Kido.Clipboards

open Kido.Shared Kido.Framing

def Read.of (pane : PaneId) (read : Read) : Bool := decide (read.pane = pane)

-- Every pane has its tables in order, with what clients owe it among what they owe.
def PanesHold (panes : PaneId → Pane) (log : List Entry) (owed : List Read) : Prop :=
  ∀ pane, ∃ courses kept, (∀ handle, courseOf pane handle log = some (courses handle)) ∧
    PaneHolds courses (owed.filter (Read.of pane)) (panes pane) kept

theorem courses_note {pane : PaneId} {log : List Entry} {courses : Nat → Course}
    (same : ∀ handle, courseOf pane handle log = some (courses handle)) {own : Nat} {fact : Fact} {course : Course}
    (next : (courses own).next own fact = some course) (handle : Nat) :
    courseOf pane handle (log ++ [⟨pane, own, fact⟩]) = some (Function.update courses own course handle) := by
  rw [courseOf_note]
  by_cases here : own = handle
  · subst here
    rw [if_pos ⟨rfl, rfl⟩, same, Option.bind_some, next, Function.update_self]
  · rw [if_neg fun both => here both.2, same, Function.update_of_ne (Ne.symm here)]

theorem courseOf_elsewhere {pane other : PaneId} (apart : other ≠ pane) (handle own : Nat) (log : List Entry) (fact : Fact) :
    courseOf other handle (log ++ [⟨pane, own, fact⟩]) = courseOf other handle log := by
  rw [courseOf_note, if_neg fun both => apart both.1.symm]

namespace PanesHold

variable {panes : PaneId → Pane} {log : List Entry} {owed : List Read}

theorem start : PanesHold (fun _ => .new) [] [] := fun _ => ⟨_, _, fun _ => rfl, .start⟩

theorem perm (holds : PanesHold panes log owed) {others : List Read} (same : owed.Perm others) :
    PanesHold panes log others := fun pane => by
  obtain ⟨courses, kept, facts, here⟩ := holds pane
  exact ⟨courses, kept, facts, here.perm (same.filter _)⟩

theorem quiet (holds : PanesHold panes log owed) (pane : PaneId) {changed : Pane} {others : List Read}
    (elsewhere : ∀ other ≠ pane, others.filter (Read.of other) = owed.filter (Read.of other))
    (here : ∀ courses kept, PaneHolds courses (owed.filter (Read.of pane)) (panes pane) kept →
      ∃ kept, PaneHolds courses (others.filter (Read.of pane)) changed kept) :
    PanesHold (Function.update panes pane changed) log others := by
  intro other
  obtain ⟨courses, kept, facts, there⟩ := holds other
  by_cases same : other = pane
  · subst same
    obtain ⟨left, after⟩ := here courses kept there
    exact ⟨courses, left, facts, by rwa [Function.update_self]⟩
  · refine ⟨courses, kept, facts, ?_⟩
    rwa [Function.update_of_ne same, elsewhere other same]

theorem move (holds : PanesHold panes log owed) (pane : PaneId) (course : Course) {changed : Pane} {others : List Read}
    {own : Nat} {fact : Fact}
    (elsewhere : ∀ other ≠ pane, others.filter (Read.of other) = owed.filter (Read.of other))
    (here : ∀ courses kept, PaneHolds courses (owed.filter (Read.of pane)) (panes pane) kept →
      (courses own).next own fact = some course ∧
        ∃ kept, PaneHolds (Function.update courses own course) (others.filter (Read.of pane)) changed kept) :
    PanesHold (Function.update panes pane changed) (log ++ [⟨pane, own, fact⟩]) others := by
  intro other
  obtain ⟨courses, kept, facts, there⟩ := holds other
  by_cases same : other = pane
  · subst same
    obtain ⟨next, left, after⟩ := here courses kept there
    exact ⟨_, left, courses_note facts next, by rwa [Function.update_self]⟩
  · refine ⟨courses, kept, fun handle => ?_, ?_⟩
    · rw [courseOf_elsewhere same, facts]
    · rwa [Function.update_of_ne same, elsewhere other same]

theorem close (holds : PanesHold panes log owed) (pane : PaneId) {others : List Read}
    (elsewhere : ∀ other ≠ pane, others.filter (Read.of other) = owed.filter (Read.of other))
    (less : (others.filter (Read.of pane)).Sublist (owed.filter (Read.of pane))) :
    PanesHold (Function.update panes pane { panes pane with isOpen := false }) log others :=
  holds.quiet pane elsewhere fun _ _ here => ⟨_, here.closed less⟩

end PanesHold

theorem filter_cons_elsewhere {read : Read} {other : PaneId} (apart : other ≠ read.pane) (owed : List Read) :
    owed.filter (Read.of other) = (read :: owed).filter (Read.of other) := by
  rw [List.filter_cons_of_neg]
  simpa [Read.of] using apart.symm

theorem filter_cons_own (read : Read) (owed : List Read) :
    (read :: owed).filter (Read.of read.pane) = read :: owed.filter (Read.of read.pane) :=
  List.filter_cons_of_pos (by simp [Read.of])

namespace World

variable {world : World} {owed : List Read}

theorem clipboardAnswer_closed {pane : PaneId} (closed : (world.panes pane).isOpen = false) (req : Req) (handle : Nat)
    (source : Option (ClientId × Nat × Option ClipboardServed)) (fails : Bool) :
    world.clipboardAnswer pane req handle source fails = world := by
  rw [clipboardAnswer, if_neg (by rw [closed]; exact Bool.false_ne_true)]

theorem clipboardAnswer_open {pane : PaneId} (isOpen : (world.panes pane).isOpen = true) (req : Req) (handle : Nat)
    (source : Option (ClientId × Nat × Option ClipboardServed)) (fails : Bool) :
    ∃ bytes, decodeRequest bytes = .ok (.clipboardAnswer req (packed source)) ∧
      ∃ sent, sent = (world.sends pane ⟨bytes, handle⟩).note pane handle (.answered req source (packed source)) ∧
        world.clipboardAnswer pane req handle source fails = if fails then sent.close pane else sent := by
  have encoded : encode (.clipboardAnswer req (packed source)) [] = (.ok (), _) :=
    Prod.ext (answer_encodes req (source.bind fun source => source.2.2) []) rfl
  refine ⟨_, answer_back req (source.bind fun source => source.2.2), _, rfl, ?_⟩
  rw [clipboardAnswer, if_pos isOpen, encoded]
  rfl

theorem clipboardAnswer_tables (pane : PaneId) (req : Req) (handle : Nat)
    (source : Option (ClientId × Nat × Option ClipboardServed)) (fails : Bool) :
    (world.clipboardAnswer pane req handle source fails).clipboard = world.clipboard ∧
      (world.clipboardAnswer pane req handle source fails).timers = world.timers := by
  cases isOpen : (world.panes pane).isOpen with
  | false => rw [clipboardAnswer_closed isOpen]; exact ⟨rfl, rfl⟩
  | true =>
    obtain ⟨_, -, _, rfl, ran⟩ := clipboardAnswer_open isOpen req handle source fails
    rw [ran]
    cases fails <;> exact ⟨rfl, rfl⟩

abbrev Holds (world : World) (owed : List Read) : Prop := PanesHold world.panes world.log owed

theorem Holds.close (holds : world.Holds owed) (pane : PaneId) : (world.close pane).Holds owed :=
  PanesHold.close holds pane (fun _ _ => rfl) (.refl _)

theorem Holds.lost {read : Read} (holds : world.Holds (read :: owed)) (closed : (world.panes read.pane).isOpen = false) :
    world.Holds owed := by
  have less : (owed.filter (Read.of read.pane)).Sublist ((read :: owed).filter (Read.of read.pane)) :=
    (List.sublist_cons_self read owed).filter _
  have after := PanesHold.close holds read.pane (fun _ apart => filter_cons_elsewhere apart owed) less
  rwa [← closed, Function.update_eq_self] at after

theorem answered_holds {read : Read} (holds : world.Holds (read :: owed))
    (source : Option (ClientId × Nat × Option ClipboardServed))
    (from_ : ∀ answer ∈ source, answer.1 = read.client ∧ answer.2.1 = read.id) (fails : Bool) :
    (world.clipboardAnswer read.pane read.req read.handle source fails).Holds owed := by
  cases isOpen : (world.panes read.pane).isOpen with
  | false =>
    rw [clipboardAnswer_closed isOpen]
    exact holds.lost isOpen
  | true =>
    obtain ⟨bytes, decoded, sent, rfl, ran⟩ := clipboardAnswer_open isOpen read.req read.handle source fails
    have after : ((world.sends read.pane ⟨bytes, read.handle⟩).note read.pane read.handle
        (.answered read.req source (packed source))).Holds owed := by
      refine PanesHold.move holds read.pane (.answered read.req (packed source)) (fun _ apart => filter_cons_elsewhere apart owed) fun courses kept here => ?_
      rw [filter_cons_own] at here
      refine ⟨?_, kept, here.answered rfl decoded⟩
      have asked : courses read.handle = .asked read.req read.client read.id := here.owes.state read (.head _)
      rw [asked]
      cases source with
      | none => exact if_pos rfl
      | some answer =>
        obtain ⟨client, number⟩ := from_ answer rfl
        exact if_pos ⟨rfl, client, number, rfl⟩
    rw [ran]
    cases fails with
    | false => exact after
    | true => exact after.close read.pane

theorem withPane_twice (pane : PaneId) (first second : Pane) :
    (world.withPane pane first).withPane pane second = world.withPane pane second := by
  unfold withPane
  rw [Function.update_idem]

theorem refused_holds {pane : PaneId} {ask : Ask} {rest : List Ask} (holds : world.Holds owed)
    (first : (world.panes pane).events = ask :: rest) (fails : Bool) :
    ((world.withPane pane { world.panes pane with events := rest }).clipboardRefuse pane ask.req ask.handle fails).Holds
      owed := by
  have same : (world.withPane pane { world.panes pane with events := rest }).panes pane =
      { world.panes pane with events := rest } := Function.update_self ..
  cases isOpen : (world.panes pane).isOpen with
  | false =>
    have closed : ((world.withPane pane { world.panes pane with events := rest }).panes pane).isOpen = false := by
      rw [same]
      exact isOpen
    rw [clipboardRefuse, clipboardAnswer_closed closed]
    refine PanesHold.quiet holds pane (fun _ _ => rfl) fun courses kept here => ⟨kept, ?_⟩
    have events := here.events
    rw [first] at events
    exact { here with
      events := events.tail
      handled := fun other => by rw [isOpen] at other; cases other }
  | true =>
    have open_ : ((world.withPane pane { world.panes pane with events := rest }).panes pane).isOpen = true := by
      rw [same]
      exact isOpen
    obtain ⟨bytes, decoded, sent, rfl, ran⟩ := clipboardAnswer_open open_ ask.req ask.handle none fails
    have after : ((world.withPane pane { world.panes pane with
        events := rest, down := (world.panes pane).down ++ [⟨bytes, ask.handle⟩] }).note pane ask.handle
        (.answered ask.req none none)).Holds owed := by
      refine PanesHold.move holds pane (.answered ask.req none) (fun _ _ => rfl) fun courses kept here => ?_
      have events := here.events
      rw [first] at events
      have taken : courses ask.handle = .taken ask.req := events.state ask (.head rest)
      have own : (⟨bytes, ask.handle⟩ : Frame).handle = ask.handle := rfl
      exact ⟨by rw [taken]; exact if_pos rfl, kept, here.refused first own decoded⟩
    rw [sends, same, withPane_twice] at ran
    rw [clipboardRefuse, ran]
    cases fails with
    | false => exact after
    | true => exact after.close pane

-- No two reads that clients are asked for share a number or a timer.
structure Minted (world : World) : Prop where
  ids : (world.clipboard.open_.map Read.id).Nodup
  timers : (world.clipboard.open_.map Read.timer).Nodup
  minted : ∀ read ∈ world.clipboard.open_, read.timer < world.timers

theorem Minted.less (minted : world.Minted) {other : World} (dropped : List Read)
    (perm : world.clipboard.open_.Perm (dropped ++ other.clipboard.open_)) (timers : other.timers = world.timers) :
    other.Minted where
  ids := ((perm.map Read.id).nodup_iff.1 minted.ids).sublist ((List.sublist_append_right _ _).map _)
  timers := ((perm.map Read.timer).nodup_iff.1 minted.timers).sublist ((List.sublist_append_right _ _).map _)
  minted read member := timers ▸ minted.minted read (perm.mem_iff.2 (List.mem_append_right _ member))

structure Sound (world : World) : Prop where
  holds : world.Holds world.clipboard.open_
  minted : world.Minted

-- What is left to chance: the read that a program opens has a request number that no open read of its pane has, and the
-- read that a client is asked for a number that no such read has.
def Allowed (world : World) : Op → Prop
  | .programReads pane =>
    (world.panes pane).notes.reads.length < Notes.maxOpenReads →
      ∀ request ∈ (world.panes pane).requests.open_, request.1 ≠ Req.ofSerial (world.panes pane).requests.next
  | .dispatches pane viewers _ =>
    (world.panes pane).events ≠ [] → answerer viewers ≠ none → ∀ read ∈ world.clipboard.open_, read.id ≠ world.clipboard.next
  | _ => True

theorem sound_start : start.Sound :=
  ⟨.start, List.nodup_nil, List.nodup_nil, by simp [start]⟩

theorem programReads_sound (sound : world.Sound) (pane : PaneId) (allowed : world.Allowed (.programReads pane)) :
    (world.programReads pane).Sound := by
  unfold programReads
  dsimp only
  split
  next read notes deferred =>
    have room : (world.panes pane).notes.reads.length < Notes.maxOpenReads := by
      unfold Notes.clipboardRead at deferred
      split at deferred
      · cases deferred
      · omega
    have counted : notes.handles = (world.panes pane).notes.handles + 1 := by
      unfold Notes.clipboardRead at deferred
      rw [if_neg (Nat.not_le.2 room)] at deferred
      cases deferred
      rfl
    refine ⟨PanesHold.quiet sound.holds pane (fun _ _ => rfl) fun courses kept here => ?_, ?_⟩
    · exact here.programReads deferred counted (allowed room)
    · exact sound.minted.less [] (.refl _) rfl
  next => exact sound

theorem takes_sound (sound : world.Sound) (pane : PaneId) : (world.takes pane).Sound := by
  unfold takes
  dsimp only
  split
  next ask rest isOpen first =>
    refine ⟨PanesHold.move sound.holds pane (.taken ask.req) (fun _ _ => rfl) fun courses kept here => ?_, ?_⟩
    · have asks := here.asks
      rw [first] at asks
      have fresh : courses ask.handle = .fresh := asks.state ask (.head rest)
      exact ⟨by rw [fresh]; rfl, kept, here.takes first⟩
    · exact sound.minted.less [] (.refl _) rfl
  next => exact sound

theorem dispatches_sound (sound : world.Sound) (pane : PaneId) (viewers : List Viewer) (fails : Bool)
    (allowed : world.Allowed (.dispatches pane viewers fails)) : (world.dispatches pane viewers fails).Sound := by
  unfold dispatches
  dsimp only
  split
  next ask rest first =>
    unfold clipboardRead
    split
    next =>
      refine ⟨?_, ?_⟩
      · rw [clipboardRefuse, (clipboardAnswer_tables ..).1]
        exact refused_holds sound.holds first fails
      · refine sound.minted.less [] ?_ ?_
        · rw [clipboardRefuse, (clipboardAnswer_tables ..).1]
          exact .refl _
        · rw [clipboardRefuse, (clipboardAnswer_tables ..).2]
          rfl
    next client chosen =>
      have fresh := allowed (by rw [first]; exact List.cons_ne_nil _ _) (by rw [chosen]; exact Option.some_ne_none _)
      have owed : PanesHold (Function.update world.panes pane { world.panes pane with events := rest })
          (world.log ++ [⟨pane, ask.handle, .asked ask.req client world.clipboard.next⟩])
          (world.clipboard.open_ ++ [⟨world.clipboard.next, pane, ask.req, client, world.timers, ask.handle⟩]) := by
        refine PanesHold.move sound.holds pane (.asked ask.req client world.clipboard.next) (fun other apart => ?_)
          fun courses kept here => ?_
        · rw [List.filter_append, List.filter_cons_of_neg (by simpa [Read.of] using apart.symm)]
          exact List.append_nil _
        · have events := here.events
          rw [first] at events
          have taken : courses ask.handle = .taken ask.req := events.state ask (.head rest)
          refine ⟨by rw [taken]; exact if_pos rfl, kept, ?_⟩
          rw [List.filter_append, List.filter_cons_of_pos (by simp [Read.of])]
          exact @PaneHolds.asked _ _ _ _ here ask rest first ⟨world.clipboard.next, pane, ask.req, client, world.timers, ask.handle⟩
            rfl rfl
      refine ⟨owed, ?_⟩
      · constructor
        · refine (List.map_append).symm ▸ List.nodup_append.2 ⟨sound.minted.ids, List.nodup_singleton _, ?_⟩
          rintro id old other last rfl
          obtain ⟨read, member, rfl⟩ := List.mem_map.1 old
          exact fresh read member (List.mem_singleton.1 last)
        · refine (List.map_append).symm ▸ List.nodup_append.2 ⟨sound.minted.timers, List.nodup_singleton _, ?_⟩
          rintro timer old other last rfl
          obtain ⟨read, member, rfl⟩ := List.mem_map.1 old
          exact Nat.ne_of_lt (sound.minted.minted read member) (List.mem_singleton.1 last)
        · intro read member
          rcases List.mem_append.1 member with old | last
          · exact Nat.lt_succ_of_lt (sound.minted.minted read old)
          · obtain rfl := List.mem_singleton.1 last
            exact Nat.lt_succ_self _
  next => exact sound

theorem answer_sound (sound : world.Sound) {fits : Read → Bool} {read : Read} {rest : List Read}
    (picked : takeFirst fits world.clipboard.open_ = some (read, rest))
    {source : Option (ClientId × Nat × Option ClipboardServed)}
    (from_ : ∀ answer ∈ source, answer.1 = read.client ∧ answer.2.1 = read.id) (fails : Bool) :
    ({ world with clipboard := { world.clipboard with open_ := rest } }.clipboardAnswer read.pane read.req read.handle source
      fails).Sound := by
  have perm := (takeFirst_some picked).2
  have owed : ({ world with clipboard := { world.clipboard with open_ := rest } } : World).Holds (read :: rest) :=
    sound.holds.perm perm
  refine ⟨?_, sound.minted.less [read] ?_ ?_⟩
  · rw [(clipboardAnswer_tables ..).1]
    exact answered_holds owed source from_ fails
  · rw [(clipboardAnswer_tables ..).1]
    exact perm
  · rw [(clipboardAnswer_tables ..).2]

theorem clipboardAnswered_sound (sound : world.Sound) (client : ClientId) (id : Nat) (served : Option ClipboardServed)
    (fails : Bool) : (world.clipboardAnswered client id served fails).Sound := by
  unfold clipboardAnswered Reads.answered Reads.taken
  split
  next read reads found =>
    split at found
    next picked =>
      cases found
      have fits := of_decide_eq_true (takeFirst_some picked).1
      refine answer_sound sound picked (fun answer same => ?_) fails
      cases same
      exact ⟨fits.2.symm, fits.1.symm⟩
    next => cases found
  next => exact sound

theorem clipboardDue_sound (sound : world.Sound) (timer : Nat) (fails : Bool) : (world.clipboardDue timer fails).Sound := by
  unfold clipboardDue Reads.due Reads.taken
  split
  next read reads found =>
    split at found
    next picked =>
      cases found
      exact answer_sound sound picked (fun answer same => by cases same) fails
    next => cases found
  next => exact sound

theorem refuseEach_holds (fails : Read → Bool) {dropped : List Read} (holds : world.Holds (dropped ++ owed)) :
    (refuseEach fails dropped world).Holds owed ∧ (refuseEach fails dropped world).clipboard = world.clipboard ∧
      (refuseEach fails dropped world).timers = world.timers := by
  induction dropped generalizing world with
  | nil => exact ⟨holds, rfl, rfl⟩
  | cons read rest ih =>
    have after := answered_holds holds none (fun answer same => by cases same) (fails read)
    obtain ⟨clipboard, timers⟩ := @clipboardAnswer_tables world read.pane read.req read.handle none (fails read)
    obtain ⟨left, same, minted⟩ := ih after
    exact ⟨left, same.trans clipboard, minted.trans timers⟩

theorem clipboardForget_sound (sound : world.Sound) (matching fails : Read → Bool) :
    (world.clipboardForget matching fails).Sound := by
  have perm := takeEach_perm matching world.clipboard.open_
  have owed : ({ world with clipboard := (world.clipboard.dropWhere matching).2 } : World).Holds
      ((world.clipboard.dropWhere matching).1 ++ (world.clipboard.dropWhere matching).2.open_) := sound.holds.perm perm
  obtain ⟨holds, clipboard, timers⟩ := refuseEach_holds fails owed
  unfold clipboardForget
  refine ⟨by rw [clipboard]; exact holds, sound.minted.less (world.clipboard.dropWhere matching).1 ?_ timers⟩
  rw [clipboard]
  exact perm

theorem stopPane_sound (sound : world.Sound) (pane : PaneId) : (world.stopPane pane).Sound := by
  have perm := takeEach_perm (fun read => decide (read.pane = pane)) world.clipboard.open_
  refine ⟨PanesHold.close (sound.holds.perm perm) pane (fun other apart => ?_) ?_, sound.minted.less _ perm rfl⟩
  · have none_ : (takeEach (fun read => decide (read.pane = pane)) world.clipboard.open_).1.filter (Read.of other) = [] := by
      refine List.filter_eq_nil_iff.2 fun read member => ?_
      have own := of_decide_eq_true (takeEach_taken _ _ read member)
      simp [Read.of, own, apart.symm]
    rw [List.filter_append, none_]
    rfl
  · exact (List.sublist_append_right _ _).filter _

theorem close_sound (sound : world.Sound) (pane : PaneId) : (world.close pane).Sound :=
  ⟨Holds.close sound.holds pane, sound.minted.less [] (.refl _) rfl⟩

theorem delivers_sound (sound : world.Sound) (pane : PaneId) : (world.delivers pane).Sound := by
  unfold delivers
  dsimp only
  split
  next frame rest first =>
    obtain ⟨courses, kept, facts, here⟩ := sound.holds pane
    have frames := here.frames
    rw [first] at frames
    have answers := frames.state frame (.head rest)
    cases course : courses frame.handle with
    | answered req served =>
      rw [course] at answers
      obtain ⟨read, requests, notes, left, closed, completed, -⟩ := here.completed first course
      rw [show decodeRequest frame.bytes = _ from answers]
      dsimp only
      rw [closed]
      dsimp only
      rw [completed]
      refine ⟨PanesHold.move sound.holds pane .completed (fun _ _ => rfl) fun others kept here => ?_,
        sound.minted.less [] (.refl _) rfl⟩
      have frames := here.frames
      rw [first] at frames
      have again := frames.state frame (.head rest)
      cases course : others frame.handle with
      | answered other sent =>
        rw [course] at again
        cases answers.symm.trans again
        obtain ⟨_, _, _, less, same, undone, after⟩ := here.completed first course
        cases closed.symm.trans same
        cases completed.symm.trans undone
        exact ⟨if_pos ⟨rfl, rfl⟩, less, after⟩
      | _ => rw [course] at again; exact again.elim
    | _ => rw [course] at answers; exact answers.elim
  next => exact sound

theorem step_sound (sound : world.Sound) (op : Op) (allowed : world.Allowed op) : (world.step op).Sound := by
  cases op with
  | programReads pane => exact programReads_sound sound pane allowed
  | takes pane => exact takes_sound sound pane
  | dispatches pane viewers fails => exact dispatches_sound sound pane viewers fails allowed
  | answer client id served fails => exact clipboardAnswered_sound sound client id served fails
  | due timer fails => exact clipboardDue_sound sound timer fails
  | clientClosed client fails => exact clipboardForget_sound sound _ fails
  | stopPane pane => exact stopPane_sound sound pane
  | close pane => exact close_sound sound pane
  | delivers pane => exact delivers_sound sound pane

theorem run_sound {ops : List Op} (allowed : AllAllowed step Allowed start ops) : (run step start ops).Sound :=
  @run_allowed _ _ step start Sound Allowed (fun _ op sound met => step_sound sound op met) ops sound_start allowed

end World

end Kido.Clipboards
