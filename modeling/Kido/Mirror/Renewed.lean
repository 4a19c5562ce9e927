import Kido.Mirror.Searches
import Kido.Mirror.World

set_option autoImplicit false

namespace Kido.Mirrors

open Kido.Shared

variable {C V : Type} {engine : Engine C V}

namespace Engine

@[simp]
theorem write_searches (vt : Terminal (Vt C) V) (data : List UInt8) :
    (engine.searching.write vt data).content.searches = vt.content.searches := by
  rw [write_content]
  induction data generalizing vt with
  | nil => rfl
  | cons byte rest ih => exact ih ⟨engine.searching.put vt.content byte, vt.viewport⟩

theorem decode_searches {buffer : List UInt8} {extent : Extent} {vt : Terminal (Vt C) V}
    (decoded : engine.searching.decode buffer extent = some vt) : vt.content.searches = .fresh := by
  obtain ⟨_, -, rfl⟩ := Option.map_eq_some_iff.1 decoded
  rfl

theorem configure_searches {before after : Vt C} (configured : engine.searching.configure before = some after) :
    after.searches = before.searches := by
  obtain ⟨_, -, rfl⟩ := Option.map_eq_some_iff.1 configured
  rfl

theorem apply_searches {vt after : Terminal (Vt C) V} {marker : Marker} (applied : engine.searching.apply vt marker = some after) :
    after.content.searches = vt.content.searches := by
  cases marker with
  | dead at_ =>
    cases applied
    rfl
  | resize size =>
    obtain ⟨content, resized, rfl⟩ := Option.map_eq_some_iff.1 applied
    obtain ⟨_, -, rfl⟩ := Option.map_eq_some_iff.1 resized
    rfl

end Engine

namespace Surface

variable {surface : Surface (Vt C) V}

theorem change_searches {act : Terminal (Vt C) V → Terminal (Vt C) V}
    (keeps : ∀ vt, (act vt).content.searches = vt.content.searches) : (surface.change act).searches = surface.searches := by
  cases surface <;> simp [change, searches, screen, keeps]

theorem searched (act : Searches → Searches) : (surface.change (searchWith act)).searches = surface.searches.map act := by
  cases surface <;> rfl

@[simp]
theorem scrollBottom_searches : (surface.scrollBottom engine.searching).1.searches = surface.searches := by
  cases surface with
  | empty => rfl
  | full vt | partly vt => simp [scrollBottom, searches, screen]
  | loading vt delta =>
    have same := engine.searching.bottom_content vt
    rcases low : engine.searching.bottom vt with ⟨after, _ | moved⟩ <;> rw [low] at same <;> dsimp only at same <;>
      simp [scrollBottom, searches, screen, low, same]

end Surface

namespace Mirror

variable {mirror after : Mirror (Vt C) V}

-- Only a terminal that was decoded takes the place of a terminal.
def Renews (before after : Mirror (Vt C) V) : Prop :=
  after.frozen = before.frozen ∧ (after.surface.searches = before.surface.searches ∨ after.surface.searches = some .fresh)

theorem Renews.refl : Renews mirror mirror := ⟨rfl, .inl rfl⟩

theorem Renews.trans {first second third : Mirror (Vt C) V} (before : Renews first second) (after : Renews second third) :
    Renews first third := by
  refine ⟨after.1.trans before.1, ?_⟩
  rcases after.2 with same | fresh
  · rw [same]
    exact before.2
  · exact .inr fresh

theorem output_renews (record : List UInt8) (offset : Nat) (data : List UInt8) :
    Renews mirror (mirror.output engine.searching record offset data).1 := by
  have same : (mirror.surface.scrollBottom engine.searching).1.searches = mirror.surface.searches := Surface.scrollBottom_searches
  unfold output
  rcases low : mirror.surface.scrollBottom engine.searching with ⟨surface, _ | moved⟩ <;> rw [low] at same
  · exact ⟨rfl, .inl same⟩
  · cases mirror.assembly with
    | some assembly => exact ⟨rfl, .inl same⟩
    | none =>
      dsimp only at same ⊢
      cases surface.screen with
      | none => exact ⟨rfl, .inl same⟩
      | some _ => exact ⟨rfl, .inl ((Surface.change_searches fun vt => Engine.write_searches vt data).trans same)⟩

theorem replay_searches {full : Bool} {items : List Following} {dead noted : Option Nat} {vt final : Terminal (Vt C) V}
    (replayed : replay engine.searching full items dead vt = (noted, some final)) :
    final.content.searches = vt.content.searches := by
  induction items generalizing dead vt with
  | nil =>
    cases replayed
    rfl
  | cons item rest ih =>
    cases item with
    | marker marker =>
      rw [replay] at replayed
      by_cases whole : full = true
      · rw [if_pos whole] at replayed
        cases applied : engine.searching.apply vt marker with
        | none =>
          rw [applied] at replayed
          cases replayed
        | some next =>
          rw [applied] at replayed
          exact (ih replayed).trans (Engine.apply_searches applied)
      · rw [if_neg whole] at replayed
        exact ih replayed
    | bytes data =>
      rw [replay] at replayed
      have same := engine.searching.bottom_content vt
      rcases low : engine.searching.bottom vt with ⟨next, _ | moved⟩
      · rw [low] at replayed
        cases replayed
      · rw [low] at replayed same
        rw [ih replayed, Engine.write_searches, same]

theorem restored_searches {buffer : List UInt8} {full : Bool} {vt : Terminal (Vt C) V}
    (restored : restored engine.searching buffer full = some vt) : vt.content.searches = .fresh := by
  simp only [Mirror.restored, Option.bind_eq_bind, Option.bind_eq_some_iff] at restored
  obtain ⟨decoded, decodes, base, configured, watched⟩ := restored
  by_cases watch : engine.searching.watch base = true
  · rw [if_pos watch] at watched
    cases watched
    exact (Engine.configure_searches configured).trans (Engine.decode_searches decodes)
  · rw [if_neg watch] at watched
    cases watched

theorem finish_renews : Renews mirror (mirror.finish engine.searching).1 := by
  unfold finish
  cases mirror.assembly with
  | none => exact .refl
  | some assembly =>
    cases restored : restored engine.searching assembly.buffer assembly.kind.isFull with
    | none =>
      simp only [restored]
      exact ⟨rfl, .inl rfl⟩
    | some vt =>
      simp only [restored]
      rcases replayed : replay engine.searching assembly.kind.isFull assembly.following mirror.dead vt with ⟨dead, _ | final⟩
      · exact ⟨rfl, .inl rfl⟩
      · have fresh := (replay_searches replayed).trans (restored_searches restored)
        refine ⟨rfl, .inr ?_⟩
        cases assembly.kind.isFull <;> cases mirror.surface.pending <;> simp [Surface.searches, Surface.screen, fresh]

theorem readied_renews (assembly : Assembly) : Renews mirror (mirror.readied engine.searching assembly).1 := by
  unfold readied
  by_cases ready : assembly.kind = .full true ∧ engine.searching.ready assembly.buffer
  · rw [if_pos ready]
    cases decoded : engine.searching.decode assembly.buffer .screen with
    | none => exact ⟨rfl, .inl rfl⟩
    | some early =>
      dsimp only
      by_cases watch : engine.searching.watch early.content = true
      · rw [if_pos watch]
        exact ⟨rfl, .inr (congrArg some (Engine.decode_searches decoded))⟩
      · rw [if_neg watch]
        exact ⟨rfl, .inl rfl⟩
  · rw [if_neg ready]
    exact ⟨rfl, .inl rfl⟩

theorem begun_renews (offset : Nat) (slice : Slice) : Renews mirror (begun mirror offset slice) := by
  unfold begun
  split
  · exact ⟨rfl, .inl rfl⟩
  · exact .refl

theorem joined_renews (offset : Nat) (data : List UInt8) : Renews mirror (joined engine.searching mirror offset data).1 := by
  unfold joined
  rcases Slice.decode data with _ | ⟨slice, body⟩
  · exact .refl
  · have begins : Renews mirror (begun mirror offset slice) := begun_renews offset slice
    dsimp only
    cases (begun mirror offset slice).assembly with
    | none => exact begins
    | some assembly =>
      have readies : Renews (begun mirror offset slice) (readied engine.searching (begun mirror offset slice)
          { assembly with buffer := assembly.buffer ++ body }).1 := readied_renews _
      dsimp only
      rcases become : readied engine.searching (begun mirror offset slice) _ with ⟨next, _ | _⟩ <;> rw [become] at readies <;>
        exact begins.trans readies

theorem snapshot_renews (offset : Nat) (data : List UInt8) : Renews mirror (mirror.snapshot engine.searching offset data).1 := by
  have joins : Renews mirror (joined engine.searching mirror offset data).1 := joined_renews offset data
  unfold snapshot
  rcases become : joined engine.searching mirror offset data with ⟨next, _ | last⟩ <;> rw [become] at joins
  · exact joins
  · cases last with
    | false => exact joins
    | true => exact joins.trans finish_renews

theorem took_renews (record : List UInt8) (parsed : Except BadRecord Parsed) :
    Renews mirror (mirror.took engine.searching record parsed).1 := by
  rcases parsed with (_ | _ | _) | (⟨offset, data⟩ | ⟨offset, slice⟩)
  · exact .refl
  · exact .refl
  · exact .refl
  · exact output_renews record offset data
  · exact snapshot_renews offset slice

theorem record_renews (thawed : mirror.frozen = none) (record : List UInt8) :
    Renews mirror (mirror.record engine.searching record).1 := by
  unfold Mirror.record
  rw [thawed]
  dsimp only
  by_cases waiting : mirror.awaitingSnapshot = true
  · rw [if_pos waiting]
    by_cases starts : startsSnapshot (parseRecord engine.searching.inflate record) = true
    · rw [if_pos starts]
      have heard : Renews mirror { mirror with awaitingSnapshot := false } := ⟨rfl, .inl rfl⟩
      rw [thawed] at heard
      exact heard.trans (took_renews record _)
    · rw [if_neg starts]
      cases parseRecord engine.searching.inflate record with
      | ok _ => exact .refl
      | error _ => exact took_renews record _
  · rw [if_neg waiting]
    exact took_renews record _

theorem marker_renews (thawed : mirror.frozen = none) (event : Option ViewEvent) :
    Renews mirror (mirror.marker engine.searching event).1 := by
  unfold Mirror.marker
  rw [thawed]
  dsimp only
  by_cases waiting : mirror.awaitingSnapshot = true
  · rw [if_pos waiting]
    exact .refl
  · rw [if_neg waiting]
    rcases event with _ | (⟨offset, marker⟩ | _ | _)
    · exact .refl
    · dsimp only
      cases mirror.assembly with
      | some assembly => exact ⟨thawed ▸ rfl, .inl rfl⟩
      | none =>
        dsimp only
        cases surface : mirror.surface with
        | full screen =>
          dsimp only
          cases applied : engine.searching.apply screen marker with
          | none => exact ⟨thawed ▸ rfl, .inl (surface ▸ rfl)⟩
          | some next =>
            refine ⟨thawed ▸ rfl, .inl ?_⟩
            rw [surface]
            exact congrArg some (Engine.apply_searches applied)
        | empty | partly _ | loading _ _ =>
          refine ⟨thawed ▸ rfl, .inl ?_⟩
          rw [surface]
    · exact .refl
    · exact .refl

-- The same terminal is shown, in copy mode or out of it as before.
structure Stays (before after : Mirror (Vt C) V) : Prop where
  frozen : after.frozen.isSome = before.frozen.isSome
  searches : after.surface.searches = before.surface.searches

theorem Stays.refl : Stays mirror mirror := ⟨rfl, rfl⟩

theorem record_stays {frozen : Frozen} (held : mirror.frozen = some frozen) (record : List UInt8) :
    Stays mirror (mirror.record engine.searching record).1 := by
  unfold Mirror.record
  rw [held]
  exact ⟨by rw [held]; rfl, rfl⟩

theorem marker_stays {frozen : Frozen} (held : mirror.frozen = some frozen) (event : Option ViewEvent) :
    Stays mirror (mirror.marker engine.searching event).1 := by
  unfold Mirror.marker
  rw [held]
  exact ⟨by rw [held]; rfl, rfl⟩

theorem copyChange_stays (row : Nat) (failed : Bool) : Stays mirror (mirror.copyChange engine.searching row failed).1 := by
  unfold Mirror.copyChange
  cases held : mirror.frozen with
  | none => exact ⟨by rw [held], rfl⟩
  | some frozen =>
    cases mirror.surface.screen with
    | none => exact ⟨by rw [held], rfl⟩
    | some vt =>
      dsimp only
      by_cases fails : failed = true
      · rw [if_pos fails]
        exact ⟨by rw [held]; rfl, rfl⟩
      · rw [if_neg fails]
        by_cases moves : row ≠ frozen.offset
        · rw [if_pos moves]
          exact ⟨by rw [held]; rfl, Surface.change_searches fun _ => rfl⟩
        · rw [if_neg moves]
          exact ⟨by rw [held]; rfl, rfl⟩

theorem bottom_stays : Stays mirror (mirror.bottom engine.searching).1 := by
  have same : (mirror.surface.scrollBottom engine.searching).1.searches = mirror.surface.searches := Surface.scrollBottom_searches
  unfold Mirror.bottom
  by_cases held : mirror.frozen.isSome = true
  · rw [if_pos held]
    exact .refl
  · rw [if_neg held]
    rcases low : mirror.surface.scrollBottom engine.searching with ⟨surface, _ | moved⟩ <;> rw [low] at same <;> exact ⟨rfl, same⟩

theorem scroll_stays (delta : Int) (sent : Bool) : Stays mirror (mirror.scroll engine.searching delta sent).1 := by
  unfold Mirror.scroll
  cases surface : mirror.surface with
  | empty => exact .refl
  | full vt | partly vt | loading vt pending =>
    refine ⟨rfl, ?_⟩
    rw [surface]
    rfl

theorem thaw_searches (sent : Bool) : (mirror.thaw engine.searching sent).1.frozen = none ∧
    (mirror.thaw engine.searching sent).1.surface.searches = mirror.surface.searches := by
  unfold Mirror.thaw
  cases held : mirror.frozen with
  | none => exact ⟨held, rfl⟩
  | some frozen =>
    have stays : Stays { mirror with frozen := none } (bottom engine.searching { mirror with frozen := none }).1 := bottom_stays
    have thawed : (bottom engine.searching { mirror with frozen := none }).1.frozen = none := by
      have kept := stays.frozen
      rwa [Option.isSome_none, Option.isSome_eq_false_iff, Option.isNone_iff_eq_none] at kept
    dsimp only
    rcases low : bottom engine.searching { mirror with frozen := none } with ⟨after, _ | _⟩ <;> rw [low] at stays thawed
    · exact ⟨thawed, stays.searches⟩
    · dsimp only
      by_cases dirty : frozen.dirty = true
      · rw [if_pos dirty]
        exact ⟨thawed, stays.searches⟩
      · rw [if_neg dirty]
        exact ⟨thawed, stays.searches⟩

-- Whether copy mode begins, given the row that it opens at.
def takes (engine : Engine C V) (mirror : Mirror C V) (opened : Option Nat) : Bool :=
  mirror.assembly.isNone && !mirror.awaitingSnapshot &&
    match mirror.surface with
    | .full screen =>
      !engine.hold screen.content && (engine.rows screen.content).isSome &&
        (engine.offset screen.content screen.viewport).isSome && opened.isSome
    | _ => false

theorem freeze_takes {opened : Option Nat} (taken : mirror.takes engine.searching opened = true) :
    ∃ surface frozen, mirror.freeze engine.searching opened = ({ mirror with surface := surface, frozen := some frozen }, .ok true) ∧
      surface.searches = mirror.surface.searches ∧ surface.searches.isSome = true ∧ opened.isSome = true := by
  unfold takes at taken
  cases surface : mirror.surface with
  | full vt =>
    rw [surface] at taken
    simp only [Bool.and_eq_true, Bool.not_eq_true', Option.isNone_iff_eq_none, Option.isSome_iff_exists] at taken
    obtain ⟨⟨bare, settled⟩, ⟨⟨live, rows, total⟩, offset, stands⟩, row, rfl⟩ := taken
    unfold Mirror.freeze
    rw [bare, settled, surface]
    simp only [Option.isSome_none, Bool.or_self, Bool.false_eq_true, if_false, live, total, stands]
    by_cases moves : row ≠ offset
    · rw [if_pos moves]
      exact ⟨_, _, rfl, rfl, rfl, rfl⟩
    · rw [if_neg moves]
      exact ⟨_, _, rfl, rfl, rfl, rfl⟩
  | empty | partly _ | loading _ _ =>
    rw [surface] at taken
    simp at taken

theorem freeze_refuses {opened : Option Nat} (refused : mirror.takes engine.searching opened = false) :
    (mirror.freeze engine.searching opened).1 = mirror ∧ (mirror.freeze engine.searching opened).2 ≠ .ok true := by
  unfold takes at refused
  unfold Mirror.freeze
  by_cases busy : (mirror.assembly.isSome || mirror.awaitingSnapshot) = true
  · rw [if_pos busy]
    exact ⟨rfl, by simp⟩
  · rw [if_neg busy]
    simp only [Bool.or_eq_true, not_or, Bool.not_eq_true, Option.isSome_eq_false_iff] at busy
    cases surface : mirror.surface with
    | full vt =>
      rw [surface, busy.1, busy.2] at refused
      by_cases held : engine.searching.hold vt.content = true
      · simp [held]
      · simp only [held]
        cases rows : engine.searching.rows vt.content <;> cases offset : engine.searching.offset vt.content vt.viewport <;>
          cases opened <;> simp_all
    | empty | partly _ | loading _ _ => exact ⟨rfl, by simp⟩

end Mirror

end Kido.Mirrors
