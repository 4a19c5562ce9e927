import Kido.Event.Sources

set_option autoImplicit false

namespace Kido.Events

open Kido.Shared

namespace Poll

-- A change of interest removes nothing.
theorem interest_generation (poll : Poll) (token : Token) (wanted : Interest) (index : UInt32) :
    (poll.interest token wanted).sources.generationAt index = poll.sources.generationAt index ∧
      (poll.interest token wanted).sources.entries.length = poll.sources.entries.length := by
  unfold interest
  split
  next => exact ⟨rfl, rfl⟩
  next source found =>
    have first := Slab.generation_update poll.sources token (fun source => { source with interest := wanted }) index
    split
    · exact first
    · simp only
      have second := Slab.generation_update (poll.sources.update token fun source => { source with interest := .idle }) token
        (fun source => { source with slot := none }) index
      split
      · obtain ⟨generation, length⟩ := Slab.generation_update _ _ _ index
        exact ⟨generation.trans (second.1.trans first.1), length.trans (second.2.trans first.2)⟩
      · exact ⟨second.1.trans first.1, second.2.trans first.2⟩
    · exact first
    · obtain ⟨generation, length⟩ := Slab.generation_update _ _ _ index
      exact ⟨generation.trans first.1, length.trans first.2⟩

theorem interest_some (poll : Poll) (token : Token) (wanted : Interest) :
    ((poll.interest token wanted).sources.get token).isSome = (poll.sources.get token).isSome := by
  have kept (sources : Slab Source) (at_ : Token) (change : Source → Source) :
      ((sources.update at_ change).get token).isSome = (sources.get token).isSome := by
    rw [Slab.get_update]
    split
    · exact Option.isSome_map
    · rfl
  unfold interest
  split
  next => rfl
  next source found =>
    split
    · exact kept _ _ _
    · simp only
      split
      · rw [kept, kept, kept]
      · rw [kept, kept]
    · exact kept _ _ _
    · rw [kept, kept]

end Poll

namespace Watching

theorem step_generation (poll : Poll) (op : Watching) {index : UInt32} (inside : index.toNat < poll.sources.entries.length) :
    (op.step poll).sources.generationAt index = poll.sources.generationAt index + UInt32.ofNat (removal index poll op) ∧
      poll.sources.entries.length ≤ (op.step poll).sources.entries.length := by
  cases op with
  | watch fd hangup wanted =>
    obtain ⟨generation, longer⟩ := Slab.generation_insert (⟨fd, hangup, .idle, none⟩ : Source) inside
    obtain ⟨same, length⟩ := Poll.interest_generation
      { poll with sources := (poll.sources.insert (⟨fd, hangup, .idle, none⟩ : Source)).1 }
      (poll.sources.insert (⟨fd, hangup, .idle, none⟩ : Source)).2 wanted index
    exact ⟨same.trans (generation.trans (UInt32.add_zero _).symm), length ▸ longer⟩
  | interest token wanted =>
    obtain ⟨generation, length⟩ := poll.interest_generation token wanted index
    exact ⟨generation.trans (UInt32.add_zero _).symm, length.ge⟩
  | polled revents => exact ⟨(UInt32.add_zero _).symm, Nat.le_refl _⟩
  | read token fd window reads got =>
    have still : poll.sources.generationAt index = poll.sources.generationAt index + UInt32.ofNat 0 ∧
        poll.sources.entries.length ≤ poll.sources.entries.length := ⟨(UInt32.add_zero _).symm, Nat.le_refl _⟩
    rw [step, Poll.read]
    split
    next => exact still
    next source found =>
      split
      · exact still
      · split
        · exact still
        · split
          · exact still
          · cases got with
            | count bytes =>
              cases bytes with
              | zero =>
                obtain ⟨generation, length⟩ := poll.interest_generation token (.of false source.interest.writes) index
                exact ⟨generation.trans (UInt32.add_zero _).symm, length.ge⟩
              | succ count => exact still
            | wouldBlock => exact still
            | failed => exact still
  | unwatch token =>
    obtain ⟨generation, length⟩ := poll.interest_generation token .idle index
    obtain ⟨removed, same⟩ := Slab.generation_remove (poll.interest token .idle).sources token index
    refine ⟨?_, (same.trans length).ge⟩
    refine removed.trans ?_
    rw [generation, Poll.interest_some, removal]
    split <;> rfl

theorem run_generation (ops : List Watching) (poll : Poll) {index : UInt32} (inside : index.toNat < poll.sources.entries.length) :
    (run poll ops).sources.generationAt index = poll.sources.generationAt index + UInt32.ofNat (removals index poll ops) := by
  induction ops generalizing poll with
  | nil => exact (UInt32.add_zero _).symm
  | cons op rest ih =>
    obtain ⟨generation, longer⟩ := step_generation poll op inside
    have later := ih (op.step poll) (Nat.lt_of_lt_of_le inside longer)
    rw [removals, UInt32.ofNat_add, ← UInt32.add_assoc, ← generation]
    exact later

-- A token that names nothing does nothing.
structure Stale (poll : Poll) (token : Token) : Prop where
  reads : ∀ fd window reads got, poll.read token fd window reads got = (.ok none, poll, reads)
  interest : ∀ wanted, poll.interest token wanted = poll
  unwatch : poll.unwatch token = poll
  wants : ∀ read write, poll.wants ⟨token, read, write⟩ = ⟨token, false, false⟩
  ready : ∀ found, ∀ ready ∈ poll.collect found, ready.token ≠ token

theorem stale {poll : Poll} (matched : poll.Matched) {token : Token} (none_ : poll.sources.get token = none) : Stale poll token where
  reads := fun fd window reads got => by rw [Poll.read, none_]
  interest := fun wanted => by rw [Poll.interest, none_]
  unwatch := by
    have still : poll.interest token .idle = poll := by rw [Poll.interest, none_]
    rw [Poll.unwatch, still, Slab.remove, none_]
  wants := fun read write => by
    rw [Poll.wants, Poll.interestOf, none_]
    simp [Interest.reads, Interest.writes]
  ready := fun found ready member => by
    obtain ⟨⟨entry, owner⟩, among, rfl⟩ := List.mem_map.1 member
    have pair := List.mem_of_mem_take among
    obtain ⟨slot, there⟩ := List.getElem?_of_mem (List.of_mem_zip (List.mem_filter.1 pair).1).2
    obtain ⟨key, source, rfl, get, -⟩ := matched.owned slot owner there
    rintro rfl
    have named : (poll.readyOf entry key.index).token = key := Slab.key_get get
    rw [named, get] at none_
    cases none_

section Round

-- One source in the first slot, of this generation.
def watched (generation : UInt32) (fd : Int32) : Poll :=
  ⟨⟨[(generation, some ⟨fd, 0, .read, some 0⟩)], []⟩, [⟨fd, pollin, 0⟩], [0]⟩

-- The source is unwatched and another is watched, so often.
def rounds : Nat → UInt32 → List Watching
  | 0, _ => []
  | count + 1, generation => .unwatch ⟨0, generation⟩ :: .watch 7 0 .read :: rounds count (generation + 1)

theorem watched_unwatch (generation : UInt32) (fd : Int32) :
    (watched generation fd).unwatch ⟨0, generation⟩ = ⟨⟨[(generation + 1, none)], [0]⟩, [], []⟩ := by
  simp [watched, Poll.unwatch, Poll.interest, Slab.get, Slab.update, Slab.remove, swapRemove]

theorem watched_again (generation : UInt32) : (Poll.watch ⟨⟨[(generation, none)], [0]⟩, [], []⟩ 7 0 .read).1 = watched generation 7 := by
  simp [watched, Poll.watch, Poll.interest, Slab.get, Slab.update, Slab.insert, Slab.key, Slab.generationAt, Interest.events]

theorem rounds_run (count : Nat) (generation : UInt32) :
    run (watched generation 7) (rounds count generation) = watched (generation + UInt32.ofNat count) 7 := by
  induction count generalizing generation with
  | zero =>
    have same : generation + UInt32.ofNat 0 = generation := UInt32.add_zero generation
    rw [rounds, run, List.foldl_nil, same]
  | succ count ih =>
    have next := ih (generation + 1)
    rw [UInt32.add_assoc, ← UInt32.ofNat_one, ← UInt32.ofNat_add, Nat.add_comm 1 count] at next
    rw [rounds]
    change run (((watched generation 7).unwatch ⟨0, generation⟩).watch 7 0 .read).1 _ = _
    rw [watched_unwatch, watched_again]
    exact next

theorem first_watched : run .new [.watch 5 0 .read] = watched 0 5 := rfl

theorem after_rounds (count : Nat) :
    run .new ([.watch 5 0 .read] ++ .unwatch ⟨0, 0⟩ :: .watch 7 0 .read :: rounds count 1) = watched (1 + UInt32.ofNat count) 7 := by
  have split_ : run .new ([.watch 5 0 .read] ++ .unwatch ⟨0, 0⟩ :: .watch 7 0 .read :: rounds count 1) =
      run (((run .new [.watch 5 0 .read]).unwatch ⟨0, 0⟩).watch 7 0 .read).1 (rounds count 1) := rfl
  rw [split_, first_watched, watched_unwatch, watched_again, UInt32.zero_add, rounds_run]

-- After 2 ^ 32 unwatches the first token reads from the source that was watched last.
theorem token_comes_round : ¬ ∀ before token since, (run .new before).sources.get token ≠ none →
    Stale (run .new (before ++ .unwatch token :: since)) token := by
  intro never
  have live : (run .new [.watch 5 0 .read]).sources.get ⟨0, 0⟩ ≠ none := by
    rw [first_watched]
    decide
  have stale := never [.watch 5 0 .read] ⟨0, 0⟩ (.watch 7 0 .read :: rounds (2 ^ 32 - 1) 1) live
  have last : (1 : UInt32) + UInt32.ofNat (2 ^ 32 - 1) = 0 := by decide
  rw [after_rounds, last] at stale
  have reads := congrArg Prod.fst (stale.reads 7 1 .new (.count 1))
  revert reads
  decide

end Round

-- The entries that are polled are always those of the sources that want something; and while the generation of its
-- slot does not come round, the token of an unwatched source does nothing to any other.
theorem sources_matched :
    (∀ ops, (run .new ops).Matched) ∧
    ∀ before token since, (run .new before).sources.get token ≠ none →
      removals token.index (run .new before) (.unwatch token :: since) < 2 ^ 32 →
        Stale (run .new (before ++ .unwatch token :: since)) token := by
  refine ⟨run_matched, fun before token since there few => ?_⟩
  refine stale (run_matched _) ?_
  obtain ⟨source, found⟩ := Option.ne_none_iff_exists'.1 there
  have inside := Slab.get_inside found
  have generation := run_generation (.unwatch token :: since) (run .new before) inside
  have own := Slab.generation_get found
  rw [own] at generation
  have some_ : 0 < removals token.index (run .new before) (.unwatch token :: since) := by
    rw [removals, removal, if_pos ⟨rfl, by rw [found]; rfl⟩]
    omega
  rw [run, List.foldl_append]
  cases later : ((.unwatch token :: since).foldl step (before.foldl step .new)).sources.get token with
  | none => rfl
  | some other =>
    have same := (Slab.generation_get later).symm.trans generation
    have zero : UInt32.ofNat (removals token.index (run .new before) (.unwatch token :: since)) = 0 := by
      have shifted : token.generation + UInt32.ofNat (removals token.index (run .new before) (.unwatch token :: since)) =
        token.generation + 0 := by rw [← same, UInt32.add_zero]
      exact UInt32.add_right_inj _ |>.1 shifted
    have count := congrArg UInt32.toNat zero
    rw [UInt32.toNat_ofNat', Nat.mod_eq_of_lt few] at count
    change _ = 0 at count
    omega

end Watching

end Kido.Events
