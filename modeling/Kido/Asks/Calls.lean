import Kido.Asks.Ends

set_option autoImplicit false

namespace Kido.Asking

open Kido.Shared Kido.Framing

-- What comes of asking a pane: nothing is sent, or a request under the minted number.
inductive Sent (reply : Reply) (minted : Option Req) (turn : Turn) : Option Req × Turn → Prop where
  | nothing (after : Turn) (moves : Turn.Moves turn after) : Sent reply minted turn (none, after)
  | request (req : Req) (after : Turn) (fresh : minted = some req) (isOpen : turn.isOpen = true)
      (moves : Turn.Moves (turn.insert req reply) after) : Sent reply minted turn (some req, after)

namespace Turn

variable {turn : Turn}

theorem minted_cases (minted : Option Req) (turn : Turn) :
    (minted.filter fun _ => turn.isOpen) = none ∨
      ∃ req, minted = some req ∧ turn.isOpen = true ∧ (minted.filter fun _ => turn.isOpen) = some req := by
  cases minted with
  | none => exact .inl rfl
  | some req =>
    cases isOpen : turn.isOpen with
    | false => exact .inl (by simp)
    | true => exact .inr ⟨req, rfl, rfl, by simp⟩

theorem ask_sent (reply : Reply) (frame : Req → ToPane) (minted : Option Req) (fails : Bool) :
    Sent reply minted turn (turn.ask reply frame minted fails) := by
  unfold ask
  rcases minted_cases minted turn with none_ | ⟨req, fresh, isOpen, some_⟩
  · rw [none_]
    exact .nothing turn (.refl turn)
  · rw [some_]
    exact .request req _ fresh isOpen (send_moves _ _)

theorem insert_erase_moves {req : Req} {reply : Reply} (free : turn.pending? req = none) :
    Moves turn ((turn.insert req reply).erase req) := by
  have same (other : Req) : ((turn.insert req reply).erase req).pending? other = turn.pending? other := by
    rw [erase_pending?, insert_pending?]
    by_cases equal : req = other
    · rw [if_pos equal, ← equal, free]
    · rw [if_neg equal, if_neg equal]
  refine ⟨⟨[], (List.append_nil _).symm, fun other => ?_, fun other steps answers => ?_⟩, id, fun nothing closed other => ?_⟩
  · rw [same]
    exact .stays _
  · simpa [same] using answers
  · rw [same]
    exact nothing closed other

theorem send_cases (frame : ToPane) (fails : Bool) (isOpen : turn.isOpen = true) :
    (∃ why, turn.send frame fails = (.error why, turn)) ∨
      (encode frame []).1 = .ok () ∧ turn.send frame fails = (.ok (), turn.flush fails) := by
  rw [send, if_pos isOpen]
  cases (encode frame []).1 with
  | error why => exact .inl ⟨why, rfl⟩
  | ok _ => exact .inr ⟨rfl, rfl⟩

theorem askSized_cases (reply : Reply) (frame : Req → ToPane) (minted : Option Req) (fails : Bool)
    (free : ∀ req, minted = some req → turn.pending? req = none) :
    (∃ after, World.granted (turn.askSized reply frame minted fails) = (none, after) ∧ Moves turn after) ∨
      ∃ req, minted = some req ∧ turn.isOpen = true ∧ (encode (frame req) []).1 = .ok () ∧
        World.granted (turn.askSized reply frame minted fails) = (some req, (turn.insert req reply).flush fails) := by
  unfold askSized
  rcases minted_cases minted turn with none_ | ⟨req, fresh, isOpen, some_⟩
  · rw [none_]
    exact .inl ⟨turn, rfl, .refl turn⟩
  · rw [some_]
    rcases @send_cases (turn.insert req reply) (frame req) fails isOpen with ⟨why, failed⟩ | ⟨small, sent⟩
    · simp only [failed]
      exact .inl ⟨_, rfl, insert_erase_moves (free req fresh)⟩
    · simp only [sent]
      exact .inr ⟨req, fresh, isOpen, small, rfl⟩

theorem askSized_sent (reply : Reply) (frame : Req → ToPane) (minted : Option Req) (fails : Bool)
    (free : ∀ req, minted = some req → turn.pending? req = none) :
    Sent reply minted turn (World.granted (turn.askSized reply frame minted fails)) := by
  rcases askSized_cases reply frame minted fails free with ⟨after, given, moves⟩ | ⟨req, fresh, isOpen, small, given⟩
  · rw [given]
    exact .nothing after moves
  · rw [given]
    exact .request req _ fresh isOpen (flush_moves fails)

end Turn

namespace World

-- The number that a pane mints has no owner, and no connection holds it as its search.
def Free (world : World) (pane : PaneId) (minted : Option Req) : Prop :=
  (world.panes pane).isOpen = true → ∀ req, minted = some req → world.owners pane req = none ∧ (pane, req) ∉ world.searches

variable {world : World} {pane : PaneId}

theorem Sound.pending?_none {req : Req} (sound : world.Sound) (free : world.owners pane req = none) :
    world.pending? pane req = none := by
  have rests := sound.phase pane req
  rw [free] at rests
  exact rests.free.1

theorem here_of_open (isOpen : (world.panes pane).isOpen = true) :
    ∃ proc, world.panes pane = .here proc ∧ proc.stage = .open_ := by
  cases place : world.panes pane with
  | here proc =>
    rw [place] at isOpen
    exact ⟨proc, rfl, of_decide_eq_true isOpen⟩
  | unborn =>
    rw [place] at isOpen
    cases isOpen
  | gone =>
    rw [place] at isOpen
    cases isOpen

theorem Sound.unused {proc : PaneProc} {minted : Option Req} (sound : world.Sound) (here : world.panes pane = .here proc)
    (free : world.Free pane minted) : ∀ req, minted = some req → Turn.pending? ⟨proc, []⟩ req = none := by
  intro req fresh
  have same : Turn.pending? ⟨proc, []⟩ req = world.pending? pane req := by
    rw [World.pending?, here]
    rfl
  rw [same]
  cases isOpen : (world.panes pane).isOpen with
  | false => exact sound.shut pane isOpen req
  | true => exact sound.pending?_none (free isOpen req fresh).1

theorem call_here {α : Type} {proc : PaneProc} (here : world.panes pane = .here proc) (f : Turn → α × Turn) :
    world.call pane f = some ((f ⟨proc, []⟩).1, (f ⟨proc, []⟩).2.proc, (f ⟨proc, []⟩).2.events) := by
  rw [call, here]

theorem call_away {α : Type} (away : ∀ proc, world.panes pane ≠ .here proc) (f : Turn → α × Turn) :
    world.call pane f = none := by
  rw [call]
  split
  next proc here => exact absurd here (away proc)
  next => rfl

theorem Sound.sent {proc : PaneProc} {req : Req} {after : Turn} (sound : world.Sound)
    (here : world.panes pane = .here proc) (isOpen : proc.stage = .open_) (free : world.owners pane req = none)
    (unheld : (pane, req) ∉ world.searches) (owner : Owner)
    (moves : Turn.Moves (Turn.insert req owner.reply ⟨proc, []⟩) after) :
    (((world.withPane pane (.here after.proc)).asked pane req owner).dispatch pane after.events).Sound := by
  have first := sound.asked here isOpen free unheld owner
  have there : ((world.withPane pane (.here (Turn.insert req owner.reply ⟨proc, []⟩).proc)).asked pane req owner).panes pane =
      .here (Turn.insert req owner.reply ⟨proc, []⟩).proc := Function.update_self ..
  have second := first.dispatch there moves
  have same : ((world.withPane pane (.here (Turn.insert req owner.reply ⟨proc, []⟩).proc)).asked pane req owner).withPane pane
      (.here after.proc) = (world.withPane pane (.here after.proc)).asked pane req owner := by
    simp [World.asked, note, give, withOwner, withPane]
  rwa [same] at second

theorem Sound.request {owner : Owner} {minted : Option Req} {f : Turn → Option Req × Turn} (sound : world.Sound)
    (free : world.Free pane minted)
    (sent : ∀ proc, world.panes pane = .here proc → Sent owner.reply minted ⟨proc, []⟩ (f ⟨proc, []⟩)) :
    (world.request pane owner f).Sound := by
  by_cases away : ∀ proc, world.panes pane ≠ .here proc
  · rw [World.request, call_away away]
    exact sound
  · obtain ⟨proc, here⟩ := not_forall_not.1 away
    have sent := sent proc here
    rw [World.request, call_here here]
    generalize f ⟨proc, []⟩ = result at sent
    cases sent with
    | nothing after moves => exact sound.dispatch here moves
    | request req after fresh isOpen moves =>
      have opened : proc.stage = .open_ := of_decide_eq_true isOpen
      obtain ⟨unowned, unheld⟩ := free (by rw [here]; exact isOpen) req fresh
      exact sound.sent here opened unowned unheld owner moves

-- A search is broken off where the call that sends it fails the pane.
def Broken (world : World) (pane : PaneId) (needle : Bytes) (minted : Option Req) (fails : Bool) : Prop :=
  fails = true ∧ (world.panes pane).isOpen = true ∧ ∃ req, minted = some req ∧ (encode (.search req needle) []).1 = .ok ()

theorem Sound.held {req : Req} (sound : world.Sound) (search : ∀ owner, world.owners pane req = some owner → owner.reply = .search) :
    World.Sound { world with searches := (pane, req) :: world.searches } := by
  refine ⟨sound.phase, sound.answers, sound.shut, sound.plain, fun of other held => ?_⟩
  rcases List.mem_cons.1 held with same | old
  · cases same
    exact search
  · exact sound.searches of other old

theorem startSearch_resume {proc : PaneProc} {needle : Bytes} {conn : Token} {minted : Option Req} {fails : Bool} {req : Req}
    (sound : world.Sound) (here : world.panes pane = .here proc)
    (sent : granted (Turn.search needle minted fails ⟨proc, []⟩) = (some req, Turn.insert req .search ⟨proc, []⟩)) :
    (world.startSearch pane needle conn minted fails).resume =
      { (world.withPane pane (.here (Turn.insert req .search ⟨proc, []⟩).proc)).asked pane req (.search conn) with
        searches := (pane, req) :: world.searches } := by
  rw [startSearch, call_here here, sent]
  exact registered_plain _ sound.plain

theorem Sound.startSearch {needle : Bytes} {conn : Token} {minted : Option Req} {fails : Bool} (sound : world.Sound)
    (free : world.Free pane minted) (whole : ¬world.Broken pane needle minted fails) :
    (world.startSearch pane needle conn minted fails).resume.Sound := by
  by_cases away : ∀ proc, world.panes pane ≠ .here proc
  · rw [World.startSearch, call_away away, sound.resume]
    exact sound
  · obtain ⟨proc, here⟩ := not_forall_not.1 away
    have unused := sound.unused here free
    rcases Turn.askSized_cases .search (fun req => .search req needle) minted fails unused with
      ⟨after, given, moves⟩ | ⟨req, fresh, isOpen, small, given⟩
    · have stays := sound.dispatch here moves
      have refused : granted (Turn.search needle minted fails ⟨proc, []⟩) = (none, after) := given
      rw [World.startSearch, call_here here, refused]
      exact stays.resume ▸ stays
    · have isHere : (world.panes pane).isOpen = true := by rw [here]; exact isOpen
      obtain ⟨unowned, unheld⟩ := free isHere req fresh
      have fine : fails = false := Bool.eq_false_iff.2 fun fails => whole ⟨fails, isHere, req, fresh, small⟩
      rw [fine, Turn.flush, Bool.and_false, if_neg Bool.false_ne_true] at given
      rw [fine, startSearch_resume sound here given]
      refine (sound.asked here (of_decide_eq_true isOpen) unowned unheld (.search conn)).held fun owner owns => ?_
      have owners := @withOwner_owners (world.withPane pane (.here (Turn.insert req .search ⟨proc, []⟩).proc)) pane req (some (.search conn)) pane req
      rw [if_pos ⟨rfl, rfl⟩] at owners
      cases owners.symm.trans owns
      rfl

theorem Sound.placed {place : Place} (sound : world.Sound) (none_ : ∀ req, world.pending? pane req = none)
    (empty : ∀ req, (world.withPane pane place).pending? pane req = none) : (world.withPane pane place).Sound := by
  have pending (of : PaneId) (req : Req) : (world.withPane pane place).pending? of req = world.pending? of req := by
    by_cases same : of = pane
    · rw [same, empty, none_]
    · rw [pending?, withPane_other place same]
      rfl
  refine ⟨fun of req => ?_, fun of req => ?_, fun of closed req => ?_, sound.plain, sound.searches⟩
  · rw [pending]
    exact sound.phase of req
  · rw [pending]
    exact sound.answers of req
  · rw [pending]
    by_cases same : of = pane
    · rw [same]
      exact none_ req
    · refine sound.shut of ?_ req
      rwa [withPane_other place same] at closed

theorem Sound.birth {fails : Bool} (sound : world.Sound) (unborn : world.panes pane = .unborn) :
    ((world.withPane pane (.here (Turn.flush fails ⟨.new, []⟩).proc)).dispatch pane (Turn.flush fails ⟨.new, []⟩).events).Sound := by
  have placed : (world.withPane pane (.here .new)).Sound := by
    refine sound.placed (fun req => ?_) fun req => ?_
    · rw [pending?, unborn]
    · rw [withPane_pending?, if_pos rfl]
      rfl
  have there : (world.withPane pane (.here .new)).panes pane = .here .new := Function.update_self ..
  have flushed := placed.dispatch there (@Turn.flush_moves ⟨.new, []⟩ fails)
  have same : (world.withPane pane (.here .new)).withPane pane (.here (Turn.flush fails ⟨.new, []⟩).proc) =
      world.withPane pane (.here (Turn.flush fails ⟨.new, []⟩).proc) := by
    simp [withPane]
  rwa [same] at flushed

theorem Sound.remove {fails : Bool} (sound : world.Sound) : (world.remove pane fails).Sound := by
  by_cases away : ∀ proc, world.panes pane ≠ .here proc
  · rw [World.remove, call_away away]
    exact sound
  · obtain ⟨proc, here⟩ := not_forall_not.1 away
    rw [World.remove, call_here here]
    have shut := sound.dispatch here (@Turn.shutdown_moves ⟨proc, []⟩ fails)
    have closed : (((world.withPane pane (.here (Turn.shutdown fails ⟨proc, []⟩).proc)).dispatch pane
        (Turn.shutdown fails ⟨proc, []⟩).events).panes pane).isOpen = false := by
      have there : ((world.withPane pane (.here (Turn.shutdown fails ⟨proc, []⟩).proc)).dispatch pane
          (Turn.shutdown fails ⟨proc, []⟩).events).panes pane = .here (Turn.shutdown fails ⟨proc, []⟩).proc :=
        Function.update_self ..
      rw [there]
      exact Turn.shutdown_closed fails
    have gone := @Sound.placed _ pane .gone shut (shut.shut pane closed) fun req => by rw [pending?, withPane_same]
    have same : ((world.withPane pane (.here (Turn.shutdown fails ⟨proc, []⟩).proc)).dispatch pane
        (Turn.shutdown fails ⟨proc, []⟩).events).withPane pane .gone =
        (world.withPane pane .gone).dispatch pane (Turn.shutdown fails ⟨proc, []⟩).events := by
      simp [World.dispatch, give, withPane]
    rwa [same] at gone

theorem Sound.imageDue {req : Req} (sound : world.Sound) : (world.imageDue pane req).Sound := by
  rw [World.imageDue]
  split
  next conn shm key minted owns => exact sound.changed owns rfl
  next => exact sound

theorem idle_leaving (work : world.work = []) (held : world.held = []) (of : PaneId) (req : Req) : world.leaving of req = [] := by
  rw [leaving, work, held]
  rfl

theorem Sound.searching {req : Req} {owner : Owner} (sound : world.Sound) (work : world.work = []) (held : world.held = [])
    (owns : world.owners pane req = some owner) (reply : owner.reply = .search) :
    ∃ proc, world.panes pane = .here proc ∧ proc.stage = .open_ ∧ Turn.pending? ⟨proc, []⟩ req = some .search := by
  have waits := sound.phase pane req
  have nothing : world.leaving pane req = [] := idle_leaving work held pane req
  rw [owns, nothing] at waits
  generalize world.seen pane req = sighted at waits
  generalize pended : world.pending? pane req = pending at waits
  cases waits with
  | waits tolds owner told =>
    cases isOpen : (world.panes pane).isOpen with
    | false => cases (sound.shut pane isOpen req).symm.trans pended
    | true =>
      obtain ⟨proc, here, opened⟩ := here_of_open isOpen
      rw [pending?, here, reply] at pended
      exact ⟨proc, here, opened, pended⟩

-- A search that is taken back, in a pane that has no more of it.
def dropped (world : World) (pane : PaneId) (proc : PaneProc) (req : Req) : World :=
  (((world.withPane pane (.here proc)).withOwner pane req none).note (.told pane req true)).give [.taken pane req]

theorem Sound.dropped {proc : PaneProc} {req : Req} {owner : Owner} (sound : world.Sound) (work : world.work = []) (held : world.held = [])
    (here : world.panes pane = .here proc) (isOpen : proc.stage = .open_) (owns : world.owners pane req = some owner) :
    (world.dropped pane (Turn.erase req ⟨proc, []⟩).proc req).Sound := by
  have before (other : Req) : world.pending? pane other = proc.pending.find? other := by rw [pending?, here]
  have pending (of : PaneId) (other : Req) : (world.dropped pane (Turn.erase req ⟨proc, []⟩).proc req).pending? of other =
      if of = pane ∧ req = other then none else world.pending? of other := by
    refine (withPane_pending? _ of other).trans ?_
    by_cases same : of = pane
    · subst same
      rw [if_pos rfl, before]
      exact (Turn.erase_pending? req other).trans (by by_cases equal : req = other <;> simp [equal, Turn.pending?])
    · rw [if_neg same, if_neg (by tauto)]
  have owners (of : PaneId) (other : Req) : (world.dropped pane (Turn.erase req ⟨proc, []⟩).proc req).owners of other =
      if of = pane ∧ other = req then none else world.owners of other := withOwner_owners req none of other
  have seen (of : PaneId) (other : Req) : (world.dropped pane (Turn.erase req ⟨proc, []⟩).proc req).seen of other =
      world.seen of other ++ if (pane, req) = (of, other) then [.told pane req true] else [] := note_seen _ of other
  have answers (of : PaneId) (other : Req) : (world.dropped pane (Turn.erase req ⟨proc, []⟩).proc req).answers of other =
      world.answers of other ++ [Given.taken pane req].filterMap (Given.step of other) := give_answers _ of other
  have nothing : ∀ of other, world.leaving of other = [] := idle_leaving work held
  have waits := sound.phase pane req
  have earlier := sound.answers pane req
  rw [owns, nothing] at waits
  refine @Sound.but _ pane req _ sound ?_ ?_ (fun of other different => ?_) (fun of closed other => ?_) sound.plain
    (fun of other held found owned => ?_)
  · rw [pending, owners, seen, if_pos ⟨rfl, rfl⟩, if_pos ⟨rfl, rfl⟩, if_pos rfl]
    change Phase pane req none none _ (world.leaving pane req)
    rw [nothing]
    generalize world.seen pane req = sighted at waits ⊢
    generalize world.pending? pane req = pended at waits
    cases waits with
    | waits tolds owner told =>
      rw [courses_snoc]
      exact .rests (tolds ++ [told])
  · rw [pending, answers, if_pos ⟨rfl, rfl⟩]
    generalize world.seen pane req = sighted at waits
    generalize world.pending? pane req = pended at waits earlier
    cases waits with
    | waits tolds owner told => simpa [Given.step] using earlier.taken
  · have key : ¬(pane, req) = (of, other) := fun equal => different (by
      cases equal
      exact ⟨rfl, rfl⟩)
    have apart : ¬(pane = of ∧ req = other) := fun both => key (by rw [both.1, both.2])
    refine ⟨?_, ?_, ?_, rfl, ?_⟩
    · rw [pending, if_neg (by tauto)]
    · rw [owners, if_neg different]
    · rw [seen, if_neg key, List.append_nil]
    · rw [answers]
      simp [Given.step, apart]
  · rw [pending]
    by_cases same : of = pane
    · subst same
      have there : (world.dropped of (Turn.erase req ⟨proc, []⟩).proc req).panes of =
          .here (Turn.erase req ⟨proc, []⟩).proc := withPane_same _
      have opened : (Turn.erase req ⟨proc, []⟩).proc.stage = .open_ := isOpen
      rw [there, Place.isOpen, opened] at closed
      cases closed
    · rw [if_neg (by tauto)]
      have elsewhere : (world.dropped pane (Turn.erase req ⟨proc, []⟩).proc req).panes of = world.panes of :=
        withPane_other _ same
      exact sound.shut of (by rwa [elsewhere] at closed) other
  · rw [owners] at owned
    split at owned
    · cases owned
    · exact sound.searches of other held found owned

theorem Sound.unheld (sound : world.Sound) (fewer : List (PaneId × Req)) (sub : ∀ held ∈ fewer, held ∈ world.searches) :
    World.Sound { world with searches := fewer } :=
  ⟨sound.phase, sound.answers, sound.shut, sound.plain, fun of other held => sound.searches of other (sub _ held)⟩

theorem Sound.cancelSearch {req : Req} {fails : Bool} (sound : world.Sound) : (world.cancelSearch pane req fails).Sound := by
  rw [World.cancelSearch]
  split
  next mine =>
    obtain ⟨work, none_, held⟩ := mine
    have fewer := sound.unheld (world.searches.erase (pane, req)) fun _ => List.mem_of_mem_erase
    cases owns : world.owners pane req with
    | none =>
      simp only [owns]
      by_cases away : ∀ proc, world.panes pane ≠ .here proc
      · rw [@call_away { world with searches := world.searches.erase (pane, req) } _ _ away]
        exact fewer
      · obtain ⟨proc, here⟩ := not_forall_not.1 away
        have unasked : Turn.pending? ⟨proc, []⟩ req = none := by
          have none_ := sound.pending?_none owns
          rw [pending?, here] at none_
          exact none_
        have same : Turn.searchCancel req fails ⟨proc, []⟩ = ⟨proc, []⟩ :=
          Turn.searchCancel_moves fails (by simp [unasked])
        rw [@call_here { world with searches := world.searches.erase (pane, req) } _ _ _ here]
        simp only [same]
        exact fewer.dispatch here (.refl ⟨proc, []⟩)
    | some owner =>
      obtain ⟨proc, here, opened, waits⟩ := sound.searching work none_ owns (sound.searches pane req held owner owns)
      have there : ((((World.withOwner { world with searches := world.searches.erase (pane, req) } pane req none).note
          (.told pane req true)).give [.taken pane req])).panes pane = .here proc := here
      have dropped := fewer.dropped work none_ here opened owns
      have sent := dropped.dispatch (withPane_same _) (@Turn.send_moves (Turn.erase req ⟨proc, []⟩) (.searchCancel req) fails)
      have asks : Turn.searchCancel req fails ⟨proc, []⟩ =
          (Turn.send (.searchCancel req) fails (Turn.erase req ⟨proc, []⟩)).2 := if_pos waits
      have same (place : Place) : (World.dropped { world with searches := world.searches.erase (pane, req) } pane
          (Turn.erase req ⟨proc, []⟩).proc req).withPane pane place =
          (((World.withOwner { world with searches := world.searches.erase (pane, req) } pane req none).note
            (.told pane req true)).give [.taken pane req]).withPane pane place := by
        simp [World.dropped, give, note, withOwner, withPane]
      rw [same] at sent
      simp only [owns, call_here there, asks]
      exact sent
  next => exact sound

end World

end Kido.Asking
