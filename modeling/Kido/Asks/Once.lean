import Kido.Asks.Calls

set_option autoImplicit false

namespace Kido.Asking

open Kido.Shared Kido.Framing

namespace World

variable {world : World} {pane : PaneId}

theorem Sound.swap {first second rest : List Item} (sound : World.Sound { world with work := first ++ (second ++ rest) }) :
    World.Sound { world with work := second ++ (first ++ rest) } := by
  have leaving (of : PaneId) (req : Req) : World.leaving { world with work := second ++ (first ++ rest) } of req =
      World.leaving { world with work := first ++ (second ++ rest) } of req := by
    have short := (sound.phase of req).short
    simp only [World.leaving, List.filterMap_append, List.length_append] at short ⊢
    rw [← List.append_assoc (List.filterMap _ second), ← List.append_assoc (List.filterMap _ first)]
    refine congrArg (· ++ _) (congrArg (· ++ _) (append_comm_of_short ?_))
    rw [List.length_append]
    omega
  refine ⟨fun of req => ?_, sound.answers, sound.shut, fun of req owner member => sound.plain of req owner ?_, sound.searches⟩
  · rw [leaving]
    exact sound.phase of req
  · simp only [List.mem_append] at member ⊢
    tauto

def CleanRun : List (PaneId × List Act) → World → Prop
  | [], _ => True
  | (pane, acts) :: rest, world =>
    (∀ proc, world.panes pane = .here proc → Turn.CleanAll ⟨proc, []⟩ acts) ∧ CleanRun rest (world.runOne pane acts).1

theorem runOne_work (world : World) (pane : PaneId) (acts : List Act) : (world.runOne pane acts).1.work = world.work := by
  by_cases away : ∀ proc, world.panes pane ≠ .here proc
  · rw [runOne, call_away away]
  · obtain ⟨proc, here⟩ := not_forall_not.1 away
    rw [runOne, call_here here]
    rfl

theorem runAll_work (calls : List (PaneId × List Act)) (world : World) : (runAll calls world).1.work = world.work := by
  induction calls generalizing world with
  | nil => rfl
  | cons call rest ih => exact (ih _).trans (runOne_work world call.1 call.2)

theorem Sound.runOne {acts : List Act} {ahead : List Item}
    (sound : World.Sound { world with work := ahead ++ world.work })
    (clean : ∀ proc, world.panes pane = .here proc → Turn.CleanAll ⟨proc, []⟩ acts) :
    World.Sound { (world.runOne pane acts).1 with work := ahead ++ ((world.runOne pane acts).2 ++ world.work) } := by
  by_cases away : ∀ proc, world.panes pane ≠ .here proc
  · rw [World.runOne, call_away away]
    exact sound
  · obtain ⟨proc, here⟩ := not_forall_not.1 away
    rw [World.runOne, call_here here]
    exact (sound.dispatch here (Turn.acts_moves (clean proc here))).swap

theorem Sound.runAll {calls : List (PaneId × List Act)} {ahead : List Item}
    (sound : World.Sound { world with work := ahead ++ world.work }) (clean : CleanRun calls world) :
    World.Sound { (World.runAll calls world).1 with work := ahead ++ ((World.runAll calls world).2 ++ world.work) } := by
  induction calls generalizing world ahead with
  | nil => exact sound
  | cons call rest ih =>
    obtain ⟨pane, acts⟩ := call
    have one := sound.runOne (clean.1)
    rw [← List.append_assoc] at one
    have all := @ih (world.runOne pane acts).1 (ahead ++ (world.runOne pane acts).2) (by rw [runOne_work]; exact one) clean.2
    rw [runOne_work] at all
    rw [World.runAll]
    simpa only [List.append_assoc] using all

theorem Sound.shutdown {fails : PaneId → Bool} (sound : world.Sound)
    (idle : ∀ pane proc, world.panes pane = .here proc → proc.stage = .open_ → proc.pending = .empty) :
    (world.shutdown fails).Sound := by
  have pending (of : PaneId) (req : Req) : (world.shutdown fails).pending? of req = world.pending? of req := by
    simp only [pending?, World.shutdown]
    cases place : world.panes of with
    | unborn => rfl
    | gone => rfl
    | here proc =>
      by_cases isOpen : proc.stage = .open_
      · have empty := idle of proc place isOpen
        have closed := (@Turn.shutdown_moves ⟨proc, []⟩ (fails of)).none_
          (fun _ req => by rw [Turn.pending?, empty]; rfl) (Turn.shutdown_closed (fails of)) req
        simp only
        rw [empty]
        exact closed
      · have same : Turn.shutdown (fails of) ⟨proc, []⟩ = ⟨proc, []⟩ :=
          if_neg fun opened => isOpen (of_decide_eq_true opened)
        simp only [same]
  refine ⟨fun of req => ?_, fun of req => ?_, fun of closed req => ?_, sound.plain, sound.searches⟩
  · rw [pending]
    exact sound.phase of req
  · rw [pending]
    exact sound.answers of req
  · rw [pending]
    cases place : world.panes of with
    | unborn => rw [pending?, place]
    | gone => rw [pending?, place]
    | here proc =>
      by_cases isOpen : proc.stage = .open_
      · rw [pending?, place]
        simp only [idle of proc place isOpen]
        rfl
      · exact sound.shut of (by rw [place]; exact decide_eq_false isOpen) req

-- What a step needs for every request to end once. A minted number is free, the call that sends a search does not fail its
-- pane, no frame names a request of another kind with an image or the end of a search, no open pane with requests has lost its
-- child, the server does not end while requests wait, and no put that fails drops the end of a request.
def Fits (world : World) : Op → Prop
  | .run calls => CleanRun calls world
  | .screen pane _ _ _ minted _ => world.Free pane minted
  | .paste pane _ _ _ minted _ => world.Free pane minted
  | .fetchImage pane _ _ _ _ minted _ => world.Free pane minted
  | .startSearch pane needle _ minted fails => world.Free pane minted ∧ ¬world.Broken pane needle minted fails
  | .shutdown _ => ∀ pane proc, world.panes pane = .here proc → proc.stage = .open_ → proc.pending = .empty
  | .drop => ∀ found ∈ world.held, ∀ req, found.2.ends req = false
  | _ => True

theorem Sound.step {op : Op} (sound : world.Sound) (fits : world.Fits op) : (world.step op).Sound := by
  have settle {after : World} (good : after.Sound) : after.resume.Sound := by
    rw [good.resume]
    exact good
  cases op with
  | birth pane fails =>
    refine settle ?_
    rw [take]
    split
    next unborn => exact sound.birth unborn
    next => exact sound
  | run calls =>
    have all := @Sound.runAll _ _ [] sound fits
    rw [← runAll_work calls world] at all
    exact settle all
  | screen pane format rows conn minted fails =>
    exact settle (sound.request fits fun proc _ => Turn.ask_sent ..)
  | paste pane text checkSafe owner minted fails =>
    refine settle (sound.request fits fun proc here => ?_)
    rw [owner.property]
    exact Turn.askSized_sent _ _ _ _ (sound.unused here fits)
  | fetchImage pane key name shm conn minted fails =>
    exact settle (sound.request fits fun proc _ => Turn.ask_sent ..)
  | startSearch pane needle conn minted fails => exact sound.startSearch fits.1 fits.2
  | cancelSearch pane req fails => exact settle sound.cancelSearch
  | imageDue pane req => exact settle sound.imageDue
  | remove pane fails => exact settle sound.remove
  | withhold panes => exact settle ⟨sound.phase, sound.answers, sound.shut, sound.plain, sound.searches⟩
  | release => exact settle sound.release
  | drop => exact settle (sound.cleared fits)
  | next =>
    refine settle ?_
    rw [take]
    split
    next work => exact sound.next work
    next => exact sound
  | shutdown fails => exact settle (sound.shutdown fits)

def FitsAll (world : World) : List Op → Prop
  | [] => True
  | op :: ops => world.Fits op ∧ (world.step op).FitsAll ops

theorem Sound.run {ops : List Op} (sound : world.Sound) (fits : world.FitsAll ops) : (Shared.run World.step world ops).Sound := by
  induction ops generalizing world with
  | nil => exact sound
  | cons op ops ih => exact ih (sound.step fits.1) fits.2

-- The requests of a state: each has one end, that its pane tells before it is closed and that finds its owner, and nothing
-- is heard of it afterwards; a closed pane has no owner left once its events are handled.
structure Settled (world : World) : Prop where
  answers : ∀ pane req, Answers (world.pending? pane req).isSome (world.answers pane req)
  shut : ∀ pane, (world.panes pane).isOpen = false → ∀ req, world.pending? pane req = none
  found : ∀ pane req, .lost pane req ∉ world.log
  owned : ∀ pane req owner, world.owners pane req = some owner →
    (∃ tolds told, world.seen pane req = courses pane req tolds ++ course pane req told) ∧
    (world.pending? pane req = some owner.reply ∧ world.leaving pane req = [] ∨
      world.pending? pane req = none ∧ ∃ event, world.leaving pane req = [event] ∧ event.fits owner.reply = true)
  free : ∀ pane req, world.owners pane req = none → (∃ tolds, world.seen pane req = courses pane req tolds) ∧
    world.pending? pane req = none ∧ world.leaving pane req = []
  gone : ∀ pane, (world.panes pane).isOpen = false → world.work = [] → world.held = [] → ∀ req, world.owners pane req = none

theorem courses_found (pane : PaneId) (req : Req) (tolds : List Nat) (told : Nat) :
    Entry.lost pane req ∉ courses pane req tolds ++ course pane req told := by
  simp [courses, course]

theorem Sound.settled (sound : world.Sound) : world.Settled where
  answers := sound.answers
  shut := sound.shut
  found pane req member := by
    have seen : .lost pane req ∈ world.seen pane req := List.mem_filter.2 ⟨member, decide_eq_true rfl⟩
    have phase := sound.phase pane req
    generalize world.seen pane req = sighted at phase seen
    generalize world.pending? pane req = pending at phase
    generalize world.owners pane req = owned at phase
    generalize world.leaving pane req = leaving at phase
    cases phase with
    | rests tolds => exact courses_found pane req tolds 0 (List.mem_append_left _ seen)
    | waits tolds owner told => exact courses_found pane req tolds told seen
    | leaves tolds owner told event fits => exact courses_found pane req tolds told seen
  owned pane req owner owns := by
    have phase := sound.phase pane req
    rw [owns] at phase
    generalize world.seen pane req = sighted at phase ⊢
    generalize world.pending? pane req = pending at phase ⊢
    generalize world.leaving pane req = leaving at phase ⊢
    cases phase with
    | waits tolds owner told => exact ⟨⟨tolds, told, rfl⟩, .inl ⟨rfl, rfl⟩⟩
    | leaves tolds owner told event fits => exact ⟨⟨tolds, told, rfl⟩, .inr ⟨rfl, event, rfl, fits⟩⟩
  free pane req free := by
    have phase := sound.phase pane req
    rw [free] at phase
    obtain ⟨pending, leaving, seen⟩ := phase.free
    exact ⟨seen, pending, leaving⟩
  gone pane closed work held req := by
    by_contra owned
    obtain ⟨owner, owns⟩ := Option.ne_none_iff_exists'.1 owned
    have phase := sound.phase pane req
    rw [owns, idle_leaving work held, sound.shut pane closed req] at phase
    generalize world.seen pane req = sighted at phase
    cases phase

end World

-- In a run of fitting steps every request ends exactly once for its owner.
theorem requests_end_once (ops : List Op) (fits : World.start.FitsAll ops) : (World.run ops).Settled :=
  (World.start_sound.run fits).settled

-- A pane of a put is removed before the put is done: the end of its request is withheld, and told in the end.
def removedScreen : List Op :=
  [.withhold [⟨0⟩], .birth ⟨0⟩ false, .screen ⟨0⟩ .plain .visible 7 (some ⟨0⟩) false, .remove ⟨0⟩ false, .next, .release, .next]

theorem removed_screen_ends : (World.run removedScreen).log = [.asked ⟨0⟩ ⟨0⟩, .told ⟨0⟩ ⟨0⟩ true] ∧
    (World.run removedScreen).Settled :=
  ⟨rfl, requests_end_once removedScreen ⟨trivial, trivial, fun _ _ _ => ⟨rfl, nofun⟩, trivial, trivial, trivial, trivial, trivial⟩⟩

def brokenSearch : List Op := [.birth ⟨0⟩ false, .startSearch ⟨0⟩ [104] 7 (some ⟨0⟩) true, .next, .next]

theorem broken_search_stays : ¬∀ ops, (World.run ops).Settled := by
  intro settled
  cases (settled brokenSearch).gone ⟨0⟩ rfl rfl rfl ⟨0⟩

end Kido.Asking
