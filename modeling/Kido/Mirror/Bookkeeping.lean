import Kido.Mirror.Renewed
import Kido.Mirror.Shows
import Kido.Shared.Run

set_option autoImplicit false

namespace Kido.Mirrors

open Kido.Shared
open Kido.Tui (KeyEvent)
open Kido.Copy (Match Mode)

variable {C V : Type} {engine : Engine C V} {alphanumeric : Char → Bool}

-- The searches of a terminal are the one that is open, and what was ended there is all that was opened before it.
structure Searches.Ledger (searches : Searches) (current : Option Nat) (next : Nat) : Prop where
  list : searches.list = current.toList
  opened : searches.opened = searches.ended ++ current.toList
  once : searches.opened.Nodup
  below : ∀ id ∈ searches.opened, id < next

namespace Searches.Ledger

variable {searches : Searches} {current : Option Nat} {next : Nat}

theorem fresh (next : Nat) : Searches.fresh.Ledger none next := ⟨rfl, rfl, List.nodup_nil, fun _ member => nomatch member⟩

theorem push (ledger : searches.Ledger none next) {id : Nat} (later : next ≤ id) : (searches.push id).Ledger (some id) (id + 1) := by
  obtain ⟨list, opened, once, below⟩ := ledger
  constructor
  case list => simp [Searches.push, list]
  case opened => simp [Searches.push, opened]
  case once =>
    have new : id ∉ searches.opened := fun member => absurd (below id member) (by omega)
    exact List.nodup_append.2 ⟨once, List.nodup_singleton id, fun _ member _ same => by
      rintro rfl
      rw [List.mem_singleton.1 same] at member
      exact new member⟩
  case below =>
    intro other member
    rcases List.mem_append.1 member with old | new
    · have := below other old
      omega
    · have := List.mem_singleton.1 new
      omega

theorem «end» {id : Nat} (ledger : searches.Ledger (some id) next) : (searches.end id).Ledger none next := by
  obtain ⟨list, opened, once, below⟩ := ledger
  refine ⟨?_, ?_, once, below⟩
  · simp [Searches.end, list]
  · simp [Searches.end, opened]

theorem ended (ledger : searches.Ledger current next) {id : Nat} (member : id ∈ searches.opened) :
    searches.ended.count id = if current = some id then 0 else 1 := by
  have once := ledger.once
  rw [ledger.opened] at once member
  by_cases isCurrent : current = some id
  · rw [if_pos isCurrent, List.count_eq_zero]
    intro ended
    exact List.disjoint_of_nodup_append once ended (by simp [isCurrent])
  · rw [if_neg isCurrent]
    rcases List.mem_append.1 member with ended | still
    · exact List.count_eq_one_of_mem once.of_append_left ended
    · exact absurd (Option.mem_toList.1 still) isCurrent

end Searches.Ledger

namespace Searcher

variable {searcher : Searcher C V} {answers : Answers} {copy : Copying}

-- What holds of a searcher but for its flag.
structure Books (searcher : Searcher C V) : Prop where
  frozen : searcher.mirror.frozen.isSome = searcher.copy.isSome
  shown : searcher.copy.isSome = true → searcher.searches.isSome = true
  ledger : ∀ searches, searcher.searches = some searches → searches.Ledger searcher.search searcher.next
  awake : searcher.suspended = true → searcher.searching = true

def Flagged (searcher : Searcher C V) : Prop := searcher.searching = searcher.search.isSome

theorem search_some (copied : searcher.copy = some copy) : searcher.search = copy.search := by
  rw [search, copied]
  rfl

theorem search_none (bare : searcher.copy = none) : searcher.search = none := by
  rw [search, bare]
  rfl

theorem Books.shows (books : searcher.Books) (copied : searcher.copy = some copy) : ∃ vt, searcher.mirror.surface.screen = some vt := by
  have shown := books.shown (by rw [copied]; rfl)
  rwa [searches, Surface.searches, Option.isSome_map, Option.isSome_iff_exists] at shown

theorem Books.held (books : searcher.Books) (copied : searcher.copy = some copy) : ∃ frozen, searcher.mirror.frozen = some frozen := by
  rw [← Option.isSome_iff_exists, books.frozen, copied]
  rfl

theorem Books.thawed (books : searcher.Books) (bare : searcher.copy = none) : searcher.mirror.frozen = none := by
  rw [← Option.isNone_iff_eq_none, ← Option.isSome_eq_false_iff, books.frozen, bare]
  rfl

-- What leaves the terminal and copy mode alone keeps the books.
theorem Books.stays (books : searcher.Books) {mirror : Mirror (Vt C) V} (stays : searcher.mirror.Stays mirror) :
    Books { searcher with mirror := mirror } :=
  ⟨stays.frozen.trans books.frozen, fun copied => by
    rw [searches, stays.searches]
    exact books.shown copied,
    fun found same => books.ledger found (stays.searches.symm.trans same), books.awake⟩

theorem Books.renews (books : searcher.Books) (bare : searcher.copy = none) {mirror : Mirror (Vt C) V}
    (renews : searcher.mirror.Renews mirror) : Books { searcher with mirror := mirror } := by
  constructor
  case frozen => exact (congrArg Option.isSome renews.1).trans books.frozen
  case shown =>
    intro copied
    rw [bare] at copied
    cases copied
  case ledger =>
    intro found same
    rcases renews.2 with kept | fresh
    · exact books.ledger found (kept.symm.trans same)
    · have := Option.some.inj (fresh.symm.trans same)
      subst this
      have none_ : search { searcher with mirror := mirror } = none := search_none bare
      rw [none_]
      exact .fresh _
  case awake => exact books.awake

theorem Books.wake (books : searcher.Books) : searcher.wake.Books := ⟨books.frozen, books.shown, books.ledger, fun on => nomatch on⟩

theorem Books.compress (books : searcher.Books) : searcher.compress.Books := by
  refine ⟨books.frozen, books.shown, books.ledger, fun suspended => ?_⟩
  rcases (Bool.or_eq_true _ _).mp suspended with before | now
  · exact books.awake before
  · exact ((Bool.and_eq_true _ _).mp now).1

-- Another mode for the same search.
theorem Books.mode (books : searcher.Books) (copied : searcher.copy = some copy) (mode : Mode) :
    Books { searcher with copy := some { copy with mode := mode } } := by
  have same : searcher.search = copy.search := search_some copied
  refine ⟨?_, fun _ => books.shown (by rw [copied]; rfl), fun found shows => ?_, books.awake⟩
  · rw [books.frozen, copied]
    rfl
  · have ledger := books.ledger found shows
    rwa [same] at ledger

theorem Books.pushed (books : searcher.Books) (copied : searcher.copy = some copy) (bare : copy.search = none) {id : Nat}
    (later : searcher.next ≤ id) (mode : Mode) :
    Books { searcher.onTerminal (fun searches => searches.push id) with copy := some ⟨mode, some id⟩, next := id + 1 } := by
  refine ⟨?_, fun _ => ?_, fun found shows => ?_, books.awake⟩
  · exact books.frozen.trans (by rw [copied]; rfl)
  · exact (congrArg Option.isSome (Surface.searched _)).trans (by
      rw [Option.isSome_map]
      exact books.shown (by rw [copied]; rfl))
  · obtain ⟨before, was, rfl⟩ := Option.map_eq_some_iff.1 ((Surface.searched _).symm.trans shows)
    have ledger := books.ledger before was
    rw [search_some copied, bare] at ledger
    exact ledger.push later

theorem Books.ended (books : searcher.Books) {id : Nat} (current : searcher.search = some id) (mode : Mode) :
    Books { searcher.onTerminal (fun searches => searches.end id) with copy := some ⟨mode, none⟩ } := by
  obtain ⟨copy, copied, -⟩ := Option.bind_eq_some_iff.1 current
  refine ⟨?_, fun _ => ?_, fun found shows => ?_, books.awake⟩
  · exact books.frozen.trans (by rw [copied]; rfl)
  · exact (congrArg Option.isSome (Surface.searched _)).trans (by
      rw [Option.isSome_map]
      exact books.shown (by rw [copied]; rfl))
  · obtain ⟨before, was, rfl⟩ := Option.map_eq_some_iff.1 ((Surface.searched _).symm.trans shows)
    have ledger := books.ledger before was
    rw [current] at ledger
    exact ledger.end

-- Whether the terminal has a search once copy mode has changed: it goes on, or one can be made.
def opens (searcher : Searcher C V) (answers : Answers) (copy : Copying) (mode : Mode) : Bool :=
  mode.isSearching && (copy.search.isSome || (answers.searches && searcher.hasId answers.taken))

theorem follow_spec (books : searcher.Books) (copied : searcher.copy = some copy) (answers : Answers) (mode : Mode) :
    let followed := searcher.follow answers { copy with mode := mode }
    followed.1.Books ∧ followed.1.copy.isSome = true ∧ followed.1.search.isSome = searcher.opens answers copy mode ∧
      followed.1.searching = searcher.searching ∧ followed.1.suspended = searcher.suspended ∧
      (followed.2 = false → mode.isSearching = true ∧ copy.search = none ∧ searcher.opens answers copy mode = false) := by
  obtain ⟨before, current⟩ := copy
  have same : searcher.search = current := search_some copied
  have kept := books.mode copied mode
  unfold follow opens
  cases searches : mode.isSearching with
  | false =>
    cases current with
    | none => exact ⟨kept, rfl, rfl, rfl, rfl, fun gone => nomatch gone⟩
    | some id => exact ⟨books.ended same mode, rfl, rfl, rfl, rfl, fun gone => nomatch gone⟩
  | true =>
    cases current with
    | none =>
      dsimp only
      by_cases made : (answers.searches && searcher.hasId answers.taken) = true
      · rw [if_pos made]
        exact ⟨books.pushed copied rfl (Nat.le_add_right _ _) mode, rfl, by rw [made]; rfl, rfl, rfl, fun gone => nomatch gone⟩
      · rw [if_neg made]
        have refused := Bool.eq_false_iff.2 made
        have failed := books.mode copied mode.searchFailed
        exact ⟨failed, rfl, by rw [refused]; rfl, rfl, rfl, fun _ => ⟨rfl, rfl, by rw [refused]; rfl⟩⟩
    | some id => exact ⟨kept, rfl, rfl, rfl, rfl, fun gone => nomatch gone⟩

-- A change of copy mode: the terminal's search follows it, unless the rows cannot be read; the flag follows, unless the
-- terminal cannot be scrolled.
theorem copyChange_spec (books : searcher.Books) (copied : searcher.copy = some copy) (answers : Answers)
    (change : Mode → Except String Mode) :
    let after := searcher.copyChange engine answers change
    after.Books ∧ match change copy.mode with
      | .error _ => after.searching = searcher.searching ∧ after.search = copy.search
      | .ok mode => after.search.isSome = searcher.opens answers copy mode ∧
          (after.searching = searcher.opens answers copy mode ∨ after.searching = searcher.searching ∧
            (scrollFails answers copy.mode mode = true ∨
              mode.isSearching = true ∧ copy.search = none ∧ searcher.opens answers copy mode = false)) ∧
          (scrollFails answers copy.mode mode = true → after.searching = searcher.searching) := by
  obtain ⟨vt, screen⟩ := books.shows copied
  unfold copyChange
  rw [copied, screen]
  dsimp only
  cases changed : change copy.mode with
  | error _ => exact ⟨(books.mode copied answers.left).stays (Mirror.copyChange_stays _ _), rfl, rfl⟩
  | ok mode =>
    obtain ⟨kept, copies, current, searching, suspended, refused⟩ := follow_spec books copied answers mode
    dsimp only
    rcases follows : searcher.follow answers { copy with mode := mode } with ⟨followed, made⟩
    rw [follows] at kept copies current searching suspended refused
    have stays : followed.mirror.Stays
        (followed.mirror.copyChange engine.searching mode.offset (scrollFails answers copy.mode mode)).1 :=
      Mirror.copyChange_stays _ _
    have scrolled := kept.stays stays
    cases made with
    | false =>
      have gone := refused rfl
      exact ⟨kept.stays (Mirror.copyChange_stays _ _), current, .inr ⟨searching, .inr gone⟩, fun _ => searching⟩
    | true =>
      dsimp only
      by_cases fails : scrollFails answers copy.mode mode = true
      · rw [if_pos fails]
        exact ⟨scrolled, current, .inr ⟨searching, .inl fails⟩, fun _ => searching⟩
      · rw [if_neg fails]
        refine ⟨⟨scrolled.frozen, scrolled.shown, scrolled.ledger, fun awake => ?_⟩, current, .inl current,
          fun does => absurd does fails⟩
        obtain ⟨before, still⟩ := (Bool.and_eq_true _ _).mp awake
        have was := scrolled.awake before
        change followed.searching = true at was
        change (!(followed.searching && !followed.search.isSome)) = true at still
        change followed.search.isSome = true
        rw [was, Bool.true_and, Bool.not_not] at still
        exact still

theorem copyChange_bare (bare : searcher.copy = none) (answers : Answers) (change : Mode → Except String Mode) :
    searcher.copyChange engine answers change = searcher := by
  unfold copyChange
  rw [bare]

theorem copyChange_books (books : searcher.Books) (answers : Answers) (change : Mode → Except String Mode) :
    (searcher.copyChange engine answers change).Books := by
  cases copied : searcher.copy with
  | none =>
    rw [copyChange_bare copied]
    exact books
  | some copy => exact (copyChange_spec books copied answers change).1

-- Where the terminal cannot be scrolled, it has a search as before.
def Steady (searcher : Searcher C V) (answers : Answers) (change : Mode → Except String Mode) : Prop :=
  ∀ copy mode, searcher.copy = some copy → change copy.mode = .ok mode → scrollFails answers copy.mode mode = true →
    searcher.opens answers copy mode = copy.search.isSome

theorem copyChange_flagged (books : searcher.Books) (flagged : searcher.Flagged) (answers : Answers)
    (change : Mode → Except String Mode) : (searcher.copyChange engine answers change).Flagged ↔ searcher.Steady answers change := by
  cases copied : searcher.copy with
  | none =>
    rw [copyChange_bare copied]
    exact ⟨fun _ copy mode copies => absurd (copied.symm.trans copies) nofun, fun _ => flagged⟩
  | some copy =>
    have was : searcher.searching = copy.search.isSome := flagged.trans (by rw [search_some copied])
    obtain ⟨-, spec⟩ := @copyChange_spec _ _ engine _ _ books copied answers change
    cases changed : change copy.mode with
    | error message =>
      rw [changed] at spec
      refine ⟨fun _ other mode copies fed => ?_, fun _ => ?_⟩
      · cases copied.symm.trans copies
        rw [changed] at fed
        cases fed
      · rw [Flagged, spec.1, spec.2, was]
    | ok mode =>
      rw [changed] at spec
      obtain ⟨current, flag, kept⟩ := spec
      rw [Flagged, current]
      constructor
      · intro same other after copies fed fails
        cases copied.symm.trans copies
        cases changed.symm.trans fed
        exact (kept fails).symm.trans same |>.symm.trans was
      · intro steady
        rcases flag with same | ⟨same, fails | ⟨-, bare, refused⟩⟩
        · exact same
        · exact same.trans (was.trans (steady copy mode copied changed fails).symm)
        · rw [same, was, bare, refused]
          rfl

theorem updateLines_search {mode after : Mode} {reads : Kido.Copy.Reads} (updated : mode.updateLines reads = .ok after) :
    after.search = mode.search := by
  unfold Mode.updateLines at updated
  split at updated
  · split at updated
    · cases updated
    · dsimp only at updated
      split at updated
      · cases updated
      · cases updated
        rfl
  · cases updated
    rfl

theorem searchJump_over {mode : Mode} (forward : Bool) (past : mode.isSearching = false) :
    (mode.searchJump forward).isSearching = false := by
  unfold Mode.searchJump
  split
  · exact past
  · split
    · rw [if_neg (by rw [past]; exact Bool.false_ne_true)]
      rfl
    · split
      · exact past
      · exact past

-- A search that is done is over.
theorem searchDone_over {mode after : Mode} {found : List Match} {reads : Kido.Copy.Reads}
    (done : mode.searchDone found reads = .ok after) : after.isSearching = false := by
  unfold Mode.searchDone at done
  split at done
  · rename_i direction text _
    have jumped : (Mode.searchJump { mode with search := .normal, last := some ⟨direction, text, found⟩ }
        (decide (direction = .forward))).isSearching = false := searchJump_over _ rfl
    unfold Mode.isSearching at jumped ⊢
    rw [updateLines_search done]
    exact jumped
  · cases done
    rfl

-- A search comes to its end with its matches, copy mode can read what it then needs, and the terminal shows where it leads.
def Ends (searcher : Searcher C V) (progress : Progress) (answers : Answers) : Prop :=
  ∀ copy, searcher.copy = some copy → copy.search.isSome = true →
    match progress with
    | .running => True
    | .failed => False
    | .complete found => ∃ mode, copy.mode.searchDone found answers.reads = .ok mode ∧ scrollFails answers copy.mode mode = false

theorem searchStep_spec (books : searcher.Books) (flagged : searcher.Flagged) (progress : Progress) (looked : Bool) (answers : Answers) :
    (searcher.searchStep engine progress looked answers).Books ∧
      ((searcher.searchStep engine progress looked answers).Flagged ↔ searcher.Ends progress answers) := by
  unfold searchStep
  cases copied : searcher.copy with
  | none => exact ⟨books, fun _ copy copies => absurd (copied.symm.trans copies) nofun, fun _ => flagged⟩
  | some copy =>
    have same := search_some copied
    cases current : searcher.search with
    | none =>
      refine ⟨books, fun _ other copies searches => ?_, fun _ => flagged⟩
      cases copied.symm.trans copies
      rw [← same, current] at searches
      cases searches
    | some id =>
      obtain ⟨vt, screen⟩ := books.shows copied
      have on : searcher.searching = true := by rw [flagged, current]; rfl
      have searched : copy.search.isSome = true := by rw [← same, current]; rfl
      have ended := books.ended current copy.mode
      rw [screen]
      dsimp only
      cases progress with
      | running => exact ⟨books, fun _ _ _ _ => trivial, fun _ => flagged⟩
      | failed =>
        refine ⟨ended, fun same => ?_, fun never => (never copy copied searched).elim⟩
        change searcher.searching = false at same
        rw [on] at same
        cases same
      | complete found =>
        dsimp only
        obtain ⟨between, entered, kept, copies, marked⟩ : ∃ between : Searcher C V,
            (if looked then compress _ else _) = between ∧ between.Books ∧ between.copy = some ⟨copy.mode, none⟩ ∧
              between.searching = true := by
          cases looked with
          | false => exact ⟨_, rfl, ended, rfl, on⟩
          | true => exact ⟨_, rfl, ended.compress, rfl, on⟩
        rw [entered]
        obtain ⟨after, spec⟩ :=
          @copyChange_spec _ _ engine _ _ kept copies answers fun mode => mode.searchDone found answers.reads
        refine ⟨after, ?_⟩
        cases done : copy.mode.searchDone found answers.reads with
        | error message =>
          rw [done] at spec
          refine ⟨fun same => ?_, fun ends => ?_⟩
          · rw [Flagged, spec.1, spec.2, marked] at same
            cases same
          · obtain ⟨mode, does, -⟩ := ends copy copied searched
            rw [done] at does
            cases does
        | ok mode =>
          rw [done] at spec
          obtain ⟨leaves, flag, keeps⟩ := spec
          have past : between.opens answers ⟨copy.mode, none⟩ mode = false := by rw [opens, searchDone_over done, Bool.false_and]
          rw [past] at leaves flag
          rw [Flagged, leaves]
          constructor
          · intro off other copies _
            cases copied.symm.trans copies
            refine ⟨mode, done, Bool.eq_false_iff.2 fun fails => ?_⟩
            have still := keeps fails
            rw [off, marked] at still
            cases still
          · intro ends
            obtain ⟨other, does, scrolls⟩ := ends copy copied searched
            cases done.symm.trans does
            rcases flag with off | ⟨-, fails | ⟨goes, -⟩⟩
            · exact off
            · exact absurd (scrolls.symm.trans fails) nofun
            · exact absurd ((searchDone_over done).symm.trans goes) nofun

theorem freeze_flagged (flagged : searcher.Flagged) (opened : Option Mode) : (searcher.freeze engine opened).Flagged ↔
    searcher.search = none ∨ searcher.mirror.takes engine.searching (opened.map Mode.offset) = false := by
  unfold freeze
  cases taken : searcher.mirror.takes engine.searching (opened.map Mode.offset) with
  | false =>
    have refused := (Mirror.freeze_refuses taken).2
    rcases freezes : searcher.mirror.freeze engine.searching (opened.map Mode.offset) with ⟨mirror, _ | _ | _⟩ <;>
      rw [freezes] at refused
    · exact ⟨fun _ => .inr rfl, fun _ => flagged⟩
    · exact ⟨fun _ => .inr rfl, fun _ => flagged⟩
    · exact absurd rfl refused
  | true =>
    obtain ⟨surface, frozen, freezes, -, -, mode⟩ := Mirror.freeze_takes taken
    rw [Option.isSome_map, Option.isSome_iff_exists] at mode
    obtain ⟨mode, rfl⟩ := mode
    rw [freezes]
    change searcher.searching = false ↔ _
    rw [flagged, Option.isSome_eq_false_iff, Option.isNone_iff_eq_none]
    simp

theorem freeze_books (books : searcher.Books) {opened : Option Mode}
    (careful : searcher.search = none ∨ searcher.mirror.takes engine.searching (opened.map Mode.offset) = false) :
    (searcher.freeze engine opened).Books := by
  unfold freeze
  cases taken : searcher.mirror.takes engine.searching (opened.map Mode.offset) with
  | false =>
    obtain ⟨same, refused⟩ := Mirror.freeze_refuses taken
    rcases freezes : searcher.mirror.freeze engine.searching (opened.map Mode.offset) with ⟨mirror, _ | _ | _⟩ <;>
      rw [freezes] at same refused
    · cases same
      exact books
    · cases same
      exact books
    · exact absurd rfl refused
  | true =>
    have bare := careful.resolve_right (by rw [taken]; exact nofun)
    obtain ⟨surface, frozen, freezes, same, shown, mode⟩ := Mirror.freeze_takes taken
    rw [Option.isSome_map, Option.isSome_iff_exists] at mode
    obtain ⟨mode, rfl⟩ := mode
    rw [freezes]
    refine ⟨rfl, fun _ => shown, fun found shows => ?_, books.awake⟩
    have ledger := books.ledger found (same.symm.trans shows)
    rwa [bare] at ledger

theorem handled_flagged {α : Type} {result : Mirror (Vt C) V × Except Failure α} :
    (searcher.handled result).Flagged ↔ searcher.Flagged := by
  unfold handled
  split <;> exact Iff.rfl

theorem handled_books {α : Type} {result : Mirror (Vt C) V × Except Failure α}
    (books : Books { searcher with mirror := result.1 }) : (searcher.handled result).Books := by
  unfold handled
  split
  · exact books.wake
  · exact books

theorem thaw_books (books : searcher.Books) (sent : Bool) : (searcher.thaw engine sent).Books := by
  unfold thaw
  dsimp only
  cases current : searcher.search with
  | none =>
    obtain ⟨thawed, same⟩ := @Mirror.thaw_searches _ _ engine searcher.mirror sent
    refine ⟨by rw [thawed]; rfl, nofun, fun found shows => ?_, nofun⟩
    have ledger := books.ledger found (same.symm.trans shows)
    rwa [current] at ledger
  | some id =>
    obtain ⟨copy, -, -⟩ := Option.bind_eq_some_iff.1 current
    have ended := books.ended current copy.mode
    obtain ⟨thawed, same⟩ :=
      @Mirror.thaw_searches _ _ engine (searcher.onTerminal fun searches => searches.end id).mirror sent
    refine ⟨by rw [thawed]; rfl, nofun, fun found shows => ?_, nofun⟩
    exact ended.ledger found (same.symm.trans shows)

-- No link is lost and copy mode does not begin again while a search is open, and the terminal fails neither at the end of a
-- search nor where one begins.
def Careful (engine : Engine C V) (alphanumeric : Char → Bool) (searcher : Searcher C V) : Act → Prop
  | .freeze opened => searcher.search = none ∨ searcher.mirror.takes engine.searching (opened.map Mode.offset) = false
  | .key event answers => searcher.Steady answers fun mode => (mode.feed alphanumeric event answers.reads).map Prod.snd
  | .mouse kind position clicks answers =>
    kind = .up ∨ kind = .move ∨
      searcher.Steady answers fun mode => mode.mouse alphanumeric kind position clicks answers.reads
  | .searchStep progress _ answers => searcher.Ends progress answers
  | .unwatch => searcher.search = none
  | _ => True

theorem step_flagged (books : searcher.Books) (flagged : searcher.Flagged) (act : Act) :
    (searcher.step engine alphanumeric act).Flagged ↔ searcher.Careful engine alphanumeric act := by
  cases act with
  | record record => exact handled_flagged.trans (iff_true_intro flagged)
  | event event => exact handled_flagged.trans (iff_true_intro flagged)
  | wake | compress | bottom | scroll delta sent => exact iff_true_intro flagged
  | freeze opened => exact freeze_flagged flagged opened
  | key event answers => exact copyChange_flagged books flagged answers _
  | paste text =>
    refine iff_true_intro (flagged.trans ?_)
    change _ = ((searcher.copy.map _).bind Copying.search).isSome
    cases copied : searcher.copy with
    | none => rw [search_none copied]; rfl
    | some copy => rw [search_some copied]; rfl
  | mouse kind position clicks answers =>
    change (if kind = .up ∨ kind = .move then searcher else _).Flagged ↔ _
    by_cases idle : kind = .up ∨ kind = .move
    · rw [if_pos idle]
      exact ⟨fun _ => idle.elim .inl fun move => .inr (.inl move), fun _ => flagged⟩
    · rw [if_neg idle]
      refine (copyChange_flagged books flagged answers _).trans ⟨fun steady => .inr (.inr steady), ?_⟩
      rintro (up | move | steady)
      · exact absurd (.inl up) idle
      · exact absurd (.inr move) idle
      · exact steady
  | searchStep progress looked answers => exact (searchStep_spec books flagged progress looked answers).2
  | thaw sent =>
    refine iff_true_intro ?_
    rfl
  | unwatch =>
    change searcher.searching = false ↔ searcher.search = none
    rw [flagged, Option.isSome_eq_false_iff, Option.isNone_iff_eq_none]
  | relink connected watched =>
    refine iff_true_intro ?_
    change (if (connected && watched) = true then _ else searcher).Flagged
    split <;> exact flagged

theorem step_books (books : searcher.Books) (flagged : searcher.Flagged) {act : Act}
    (careful : searcher.Careful engine alphanumeric act) : (searcher.step engine alphanumeric act).Books := by
  cases act with
  | record record =>
    apply handled_books
    cases copied : searcher.copy with
    | none =>
      rw [← copied]
      exact books.renews copied (Mirror.record_renews (books.thawed copied) record)
    | some copy =>
      obtain ⟨frozen, held⟩ := books.held copied
      rw [← copied]
      exact books.stays (Mirror.record_stays held record)
  | event event =>
    apply handled_books
    cases copied : searcher.copy with
    | none =>
      rw [← copied]
      exact books.renews copied (Mirror.marker_renews (books.thawed copied) event)
    | some copy =>
      obtain ⟨frozen, held⟩ := books.held copied
      rw [← copied]
      exact books.stays (Mirror.marker_stays held event)
  | wake => exact books.wake
  | compress => exact books.compress
  | freeze opened => exact freeze_books books careful
  | key event answers =>
    exact copyChange_books books answers fun mode => (mode.feed alphanumeric event answers.reads).map Prod.snd
  | paste text =>
    cases copied : searcher.copy with
    | none =>
      have same : searcher.step engine alphanumeric (.paste text) = searcher := by
        change { searcher with copy := searcher.copy.map _ } = searcher
        rw [copied, Option.map_none, ← copied]
      rw [same]
      exact books
    | some copy =>
      have kept := books.mode copied (copy.mode.paste text)
      change Books { searcher with copy := searcher.copy.map _ }
      rwa [copied]
  | mouse kind position clicks answers =>
    change (if kind = .up ∨ kind = .move then searcher else _).Books
    split
    · exact books
    · exact copyChange_books books answers _
  | searchStep progress looked answers => exact (searchStep_spec books flagged progress looked answers).1
  | thaw sent => exact thaw_books books sent
  | bottom => exact books.stays Mirror.bottom_stays
  | scroll delta sent => exact (books.stays (Mirror.scroll_stays delta sent)).wake
  | unwatch =>
    have thawed : searcher.mirror.unwatch.frozen = none ∧ searcher.mirror.unwatch.surface = searcher.mirror.surface := by
      unfold Mirror.unwatch
      cases held : searcher.mirror.frozen with
      | none => exact ⟨held, rfl⟩
      | some frozen => exact ⟨rfl, rfl⟩
    refine ⟨by rw [step, unwatch, thawed.1]; rfl, nofun, fun found shows => ?_, books.awake⟩
    have ledger := books.ledger found ((congrArg Surface.searches thawed.2).symm.trans shows)
    rwa [careful] at ledger
  | relink connected watched =>
    change (if (connected && watched) = true then _ else searcher).Books
    split
    · exact books.stays ⟨rfl, rfl⟩
    · exact books

-- The flag is set exactly while copy mode has a search open; every search that was opened on the terminal was ended there
-- once, but for the one that is open; and the compression is suspended only with a search.
structure Tidy (searcher : Searcher C V) : Prop where
  flag : searcher.searching = true ↔ ∃ copy, searcher.copy = some copy ∧ copy.search.isSome = true
  once : ∀ searches, searcher.searches = some searches → searches.opened.Nodup
  ended : ∀ searches, searcher.searches = some searches → ∀ id ∈ searches.opened,
    searches.ended.count id = if searcher.search = some id then 0 else 1
  awake : searcher.suspended = true → ∃ searches id, searcher.searches = some searches ∧ id ∈ searches.list

theorem search_isSome : searcher.search.isSome = true ↔ ∃ copy, searcher.copy = some copy ∧ copy.search.isSome = true := by
  cases copied : searcher.copy with
  | none => simp [search_none copied]
  | some copy => simp [search_some copied]

theorem Books.tidy (books : searcher.Books) (flagged : searcher.Flagged) : searcher.Tidy := by
  constructor
  case flag => rw [← search_isSome, flagged]
  case once => exact fun searches shows => (books.ledger searches shows).once
  case ended =>
    intro searches shows id member
    exact (books.ledger searches shows).ended member
  case awake =>
    intro suspended
    have current := books.awake suspended
    rw [flagged, Option.isSome_iff_exists] at current
    obtain ⟨id, current⟩ := current
    obtain ⟨copy, copied, -⟩ := Option.bind_eq_some_iff.1 current
    obtain ⟨searches, shows⟩ := Option.isSome_iff_exists.1 (books.shown (by rw [copied]; rfl))
    exact ⟨searches, id, shows, by simp [(books.ledger searches shows).list, current]⟩

theorem Tidy.flagged (tidy : searcher.Tidy) : searcher.Flagged := by
  rw [Flagged, Bool.eq_iff_iff, tidy.flag, search_isSome]

theorem run_tidy (acts : List Act) (books : searcher.Books) (flagged : searcher.Flagged) :
    (∀ count, (run (step engine alphanumeric) searcher (acts.take count)).Tidy) ↔
      AllAllowed (step engine alphanumeric) (Careful engine alphanumeric) searcher acts := by
  induction acts generalizing searcher with
  | nil =>
    refine iff_of_true (fun count => ?_) trivial
    rw [List.take_nil]
    exact books.tidy flagged
  | cons act rest ih =>
    constructor
    · intro tidy
      have now := tidy 1
      rw [List.take_succ_cons, List.take_zero] at now
      have careful := (step_flagged books flagged act).1 now.flagged
      refine ⟨careful, (ih (step_books books flagged careful) now.flagged).1 fun count => ?_⟩
      exact tidy (count + 1)
    · rintro ⟨careful, later⟩ (_ | count)
      · exact books.tidy flagged
      · exact (ih (step_books books flagged careful) ((step_flagged books flagged act).2 careful)).2 later count

theorem start_books (next : Nat) : (start next : Searcher C V).Books := ⟨rfl, nofun, nofun, nofun⟩

-- A mirror's books of its searches are tidy after every step of a run exactly when every step is careful.
theorem searches_tidy (engine : Engine C V) (alphanumeric : Char → Bool) (next : Nat) (acts : List Act) :
    (∀ count, (run (step engine alphanumeric) (start next) (acts.take count)).Tidy) ↔
      AllAllowed (step engine alphanumeric) (Careful engine alphanumeric) (start next) acts :=
  run_tidy acts (start_books next) rfl

section Lost

-- Copy mode on a screen of one row, a prompt with one character, and the link is lost while the search is open.
def typed (name : Kido.Tui.Name) : KeyEvent := ⟨name, .none, .press, ""⟩

def opened : Mode := ⟨80, 1, 1, 0, ⟨0, 0⟩, none, none, none, .normal, none⟩

def answered : Answers := ⟨⟨fun _ => .ok ⟨[], false⟩, fun _ => .ok false⟩, opened, true, true, 0⟩

def lost : List Act :=
  [.record [2, 4, 0, 0, 0, 0, 0, 0, 0, 3, 0, 9], .freeze (some opened), .key (typed (.char '/')) answered,
    .key (typed (.char 'a')) answered, .key (typed .enter) answered, .unwatch]

-- The flag stays, and the search is never ended.
theorem lost_untidy : ¬(run (step bytesEngine fun _ => true) (start 0) lost).Tidy := by
  intro tidy
  have on : (run (step bytesEngine fun _ => true) (start 0) lost).searching = true := by decide
  obtain ⟨copy, copied, -⟩ := tidy.flag.1 on
  cases copied

end Lost

end Searcher

end Kido.Mirrors
