import Mathlib.Data.Finset.Insert
import Mathlib.Data.Finset.Lattice.Lemmas
import Mathlib.Data.List.Nodup
import Mathlib.Data.List.Perm.Subperm
import Mathlib.Logic.Relation
import Kido.Inbox.Queue
import Mathlib.Data.Finset.Card

set_option autoImplicit false

namespace Kido.Reaching

open Kido.Tiling Kido.Mailing

structure Edge where
  pane : PaneId
  parent : Option PaneId
  session : SessionId
deriving DecidableEq

def find? (edges : List Edge) (pane : PaneId) : Option Edge := edges.find? fun edge => edge.pane = pane

def children (edges : List Edge) (me : Edge) : List Edge :=
  edges.filter fun edge => edge.session = me.session ∧ edge.parent = some me.pane

-- The turns of the loop that climbs, one for each pane that there is.
def climb (edges : List Edge) : Nat → Edge → List Edge
  | 0, _ => []
  | turns + 1, at_ =>
    match at_.parent.bind (find? edges) with
    | none => []
    | some above => above :: climb edges turns above

def ancestors (edges : List Edge) (of : Edge) : List Edge := climb edges edges.length of

def siblings (edges : List Edge) (me of : Edge) : List PaneId :=
  ((edges.filter fun edge => edge.session = me.session ∧ edge.pane ≠ of.pane).filter fun edge => edge.parent = of.parent).map
    Edge.pane

def scope (edges : List Edge) (caller : PaneId) : Finset PaneId :=
  match find? edges caller with
  | none => ∅
  | some me =>
    ((ancestors edges me).filter fun above => above.session = me.session).foldl
      (fun reach above => insert above.pane reach ∪ (siblings edges me above).toFinset)
      ((children edges me).map Edge.pane ++ siblings edges me me).toFinset

def isDescendant (edges : List Edge) (caller target : PaneId) : Bool :=
  (find? edges target).any fun edge => (ancestors edges edge).any fun above => above.pane = caller

def relation (edges : List Edge) (sender receiver : PaneId) : Option Relation := do
  let source ← find? edges sender
  let target ← find? edges receiver
  if source.session ≠ target.session ∨ sender = receiver then none
  else
    let above := ancestors edges source
    if target.parent = some sender then some .parent
    else if source.parent = some receiver then some .child
    else if source.parent = target.parent then some .sibling
    else if above.any fun edge => edge.pane = receiver then some .descendant
    else if above.any fun edge => edge.session = source.session ∧ edge.parent = target.parent then some .siblingDescendant
    else none

-- A pane that is there names the other as its parent, be that there or gone.
def Parent (edges : List Edge) (upper lower : PaneId) : Prop :=
  ∃ edge ∈ edges, edge.pane = lower ∧ edge.parent = some upper

-- The one pane is above the other, whatever the sessions of the panes between them.
def Above (edges : List Edge) : PaneId → PaneId → Prop := Relation.TransGen (Parent edges)

def Acyclic (edges : List Edge) : Prop := ∀ pane, ¬Above edges pane pane

theorem acyclic_of_older {edges : List Edge} (age : PaneId → Nat)
    (older : ∀ edge ∈ edges, ∀ parent, edge.parent = some parent → age parent < age edge.pane) : Acyclic edges := by
  have rises {upper lower : PaneId} (above : Above edges upper lower) : age upper < age lower := by
    induction above with
    | single parent =>
      obtain ⟨edge, member, rfl, named⟩ := parent
      exact older edge member _ named
    | tail _ parent ih =>
      obtain ⟨edge, member, rfl, named⟩ := parent
      exact Nat.lt_trans ih (older edge member _ named)
  exact fun pane above => Nat.lt_irrefl _ (rises above)

variable {edges : List Edge}

theorem find?_some {pane : PaneId} {edge : Edge} (found : find? edges pane = some edge) : edge ∈ edges ∧ edge.pane = pane := by
  have test := List.find?_some (p := fun edge : Edge => decide (edge.pane = pane)) found
  exact ⟨List.mem_of_find?_eq_some found, of_decide_eq_true test⟩

theorem find?_mem (distinct : (edges.map Edge.pane).Nodup) {edge : Edge} (member : edge ∈ edges) :
    find? edges edge.pane = some edge := by
  cases found : find? edges edge.pane with
  | none =>
    have missing := List.find?_eq_none.1 found edge member
    simp only [decide_true, not_true_eq_false] at missing
  | some other =>
    obtain ⟨here, same⟩ := find?_some found
    rw [List.inj_on_of_nodup_map distinct here member same]

theorem mem_climb {turns : Nat} {of above : Edge} (here : of ∈ edges) (found : above ∈ climb edges turns of) :
    above ∈ edges ∧ Above edges above.pane of.pane := by
  induction turns generalizing of with
  | zero => cases found
  | succ turns ih =>
    rw [climb] at found
    cases up : of.parent.bind (find? edges) with
    | none =>
      rw [up] at found
      cases found
    | some next =>
      rw [up] at found
      obtain ⟨parent, named, looked⟩ := Option.bind_eq_some_iff.1 up
      obtain ⟨member, rfl⟩ := find?_some looked
      have step : Parent edges next.pane of.pane := ⟨of, here, rfl, named⟩
      obtain rfl | later := List.mem_cons.1 found
      · exact ⟨member, .single step⟩
      · obtain ⟨there, higher⟩ := ih member later
        exact ⟨there, higher.tail step⟩

theorem mem_ancestors {of above : Edge} (here : of ∈ edges) (found : above ∈ ancestors edges of) :
    above ∈ edges ∧ Above edges above.pane of.pane := mem_climb here found

theorem parent_mem_ancestors {of parent : Edge} (here : of ∈ edges) (named : of.parent = some parent.pane)
    (found : find? edges parent.pane = some parent) : parent ∈ ancestors edges of := by
  obtain ⟨turns, count⟩ : ∃ turns, edges.length = turns + 1 := Nat.exists_eq_succ_of_ne_zero
    (Nat.ne_of_gt (List.length_pos_of_mem here))
  rw [ancestors, count, climb, named, Option.bind_some, found]
  exact List.mem_cons_self

theorem mem_siblings {me of : Edge} {pane : PaneId} :
    pane ∈ siblings edges me of ↔
      ∃ edge ∈ edges, edge.pane = pane ∧ edge.session = me.session ∧ pane ≠ of.pane ∧ edge.parent = of.parent := by
  simp only [siblings, List.mem_map, List.mem_filter, decide_eq_true_eq]
  constructor
  · rintro ⟨edge, ⟨⟨member, session, other⟩, parent⟩, rfl⟩
    exact ⟨edge, member, rfl, session, other, parent⟩
  · rintro ⟨edge, member, rfl, session, other, parent⟩
    exact ⟨edge, ⟨⟨member, session, other⟩, parent⟩, rfl⟩

theorem mem_foldl_scope {me : Edge} {pane : PaneId} (above : List Edge) (reach : Finset PaneId) :
    pane ∈ above.foldl (fun reach above => insert above.pane reach ∪ (siblings edges me above).toFinset) reach ↔
      pane ∈ reach ∨ ∃ higher ∈ above, higher.pane = pane ∨ pane ∈ siblings edges me higher := by
  induction above generalizing reach with
  | nil => simp only [List.foldl_nil, List.not_mem_nil, false_and, exists_false, or_false]
  | cons first above ih =>
    rw [List.foldl_cons, ih, Finset.mem_union, Finset.mem_insert, List.mem_toFinset, List.exists_mem_cons_iff]
    constructor
    · rintro (((rfl | old) | beside) | later)
      · exact .inr (.inl (.inl rfl))
      · exact .inl old
      · exact .inr (.inl (.inr beside))
      · exact .inr (.inr later)
    · rintro (old | (rfl | beside) | later)
      · exact .inl (.inl (.inr old))
      · exact .inl (.inl (.inl rfl))
      · exact .inl (.inr beside)
      · exact .inr later

end Kido.Reaching

namespace Kido.Reaching

open Kido.Tiling Kido.Mailing

variable {edges : List Edge}

inductive Reason (edges : List Edge) (source target : Edge) : Prop where
  | parent (named : target.parent = some source.pane)
  | sibling (beside : target.parent = source.parent) (other : target.pane ≠ source.pane)
  | ancestor (found : target ∈ ancestors edges source)
  | beside (higher : Edge) (found : higher ∈ ancestors edges source) (session : higher.session = source.session)
    (beside : target.parent = higher.parent) (other : target.pane ≠ higher.pane)

theorem mem_scope (distinct : (edges.map Edge.pane).Nodup) {source target : Edge} (from_ : source ∈ edges) (to_ : target ∈ edges) :
    target.pane ∈ scope edges source.pane ↔ target.session = source.session ∧ Reason edges source target := by
  have this_ {edge : Edge} (member : edge ∈ edges) (same : edge.pane = target.pane) : edge = target :=
    List.inj_on_of_nodup_map distinct member to_ same
  rw [scope, find?_mem distinct from_]
  simp only [mem_foldl_scope, List.mem_toFinset, List.mem_append, List.mem_map, mem_siblings, children, List.mem_filter,
    decide_eq_true_eq]
  constructor
  · rintro ((⟨edge, ⟨member, session, parent⟩, same⟩ | ⟨edge, member, same, session, other, beside⟩) |
      ⟨higher, ⟨found, session⟩, same | ⟨edge, member, same, session', other, beside⟩⟩)
    · obtain rfl := this_ member same
      exact ⟨session, .parent parent⟩
    · obtain rfl := this_ member same
      exact ⟨session, .sibling beside other⟩
    · obtain rfl := this_ (mem_ancestors from_ found).1 same
      exact ⟨session, .ancestor found⟩
    · obtain rfl := this_ member same
      exact ⟨session', .beside higher found session beside other⟩
  · rintro ⟨session, reason⟩
    cases reason with
    | parent named => exact .inl (.inl ⟨target, ⟨to_, session, named⟩, rfl⟩)
    | sibling beside other => exact .inl (.inr ⟨target, to_, rfl, session, other, beside⟩)
    | ancestor found => exact .inr ⟨target, ⟨found, session⟩, .inl rfl⟩
    | beside higher found session' beside other =>
      exact .inr ⟨higher, ⟨found, session'⟩, .inr ⟨target, to_, rfl, session, other, beside⟩⟩

theorem scope_mem {sender receiver : PaneId} (reached : receiver ∈ scope edges sender) :
    ∃ source ∈ edges, ∃ target ∈ edges, source.pane = sender ∧ target.pane = receiver := by
  rw [scope] at reached
  cases found : find? edges sender with
  | none =>
    rw [found] at reached
    cases reached
  | some me =>
    obtain ⟨from_, rfl⟩ := find?_some found
    rw [found] at reached
    simp only [mem_foldl_scope, List.mem_toFinset, List.mem_append, List.mem_map, mem_siblings, children, List.mem_filter] at reached
    obtain (⟨edge, ⟨member, _⟩, rfl⟩ | ⟨edge, member, rfl, _⟩) | ⟨higher, ⟨found, _⟩, rfl | ⟨edge, member, rfl, _⟩⟩ := reached
    · exact ⟨me, from_, edge, member, rfl, rfl⟩
    · exact ⟨me, from_, edge, member, rfl, rfl⟩
    · exact ⟨me, from_, higher, (mem_ancestors from_ found).1, rfl, rfl⟩
    · exact ⟨me, from_, edge, member, rfl, rfl⟩

theorem parent_ne_of_above (distinct : (edges.map Edge.pane).Nodup) (acyclic : Acyclic edges) {higher lower : Edge}
    (higher_ : higher ∈ edges) (lower_ : lower ∈ edges) (above : Above edges higher.pane lower.pane) :
    lower.parent ≠ higher.parent := by
  intro beside
  -- The parent of the lower one is the higher one or below it, and it is the parent of the higher one too.
  have parent_of {parent : PaneId} (link : Parent edges parent lower.pane) : Parent edges parent higher.pane := by
    obtain ⟨edge, member, same, named⟩ := link
    obtain rfl := List.inj_on_of_nodup_map distinct member lower_ same
    exact ⟨higher, higher_, rfl, beside ▸ named⟩
  cases above with
  | single link => exact acyclic _ (.single (parent_of link))
  | tail above link => exact acyclic _ (above.tail (parent_of link))

namespace Reason

variable {source target : Edge}

theorem other (distinct : (edges.map Edge.pane).Nodup) (acyclic : Acyclic edges) (from_ : source ∈ edges) (to_ : target ∈ edges)
    (reason : Reason edges source target) : source.pane ≠ target.pane := by
  intro same
  obtain rfl := List.inj_on_of_nodup_map distinct from_ to_ same
  cases reason with
  | parent named => exact acyclic _ (.single ⟨source, from_, rfl, named⟩)
  | sibling _ other => exact other rfl
  | ancestor found => exact acyclic _ (mem_ancestors from_ found).2
  | beside higher found _ beside _ =>
    obtain ⟨higher_, above⟩ := mem_ancestors from_ found
    exact parent_ne_of_above distinct acyclic higher_ from_ above beside

theorem child (distinct : (edges.map Edge.pane).Nodup) (acyclic : Acyclic edges) (from_ : source ∈ edges) (to_ : target ∈ edges)
    (reason : Reason edges source target) (below : Above edges source.pane target.pane) : target.parent = some source.pane := by
  cases reason with
  | parent named => exact named
  | sibling beside _ => exact absurd beside (parent_ne_of_above distinct acyclic from_ to_ below)
  | ancestor found => exact absurd ((mem_ancestors from_ found).2.trans below) (acyclic _)
  | beside higher found _ beside _ =>
    obtain ⟨higher_, above⟩ := mem_ancestors from_ found
    exact absurd beside (parent_ne_of_above distinct acyclic higher_ to_ (above.trans below))

theorem iff_tests (distinct : (edges.map Edge.pane).Nodup) (from_ : source ∈ edges) (to_ : target ∈ edges)
    (other : source.pane ≠ target.pane) :
    Reason edges source target ↔
      target.parent = some source.pane ∨ source.parent = some target.pane ∨ source.parent = target.parent ∨
        (∃ above ∈ ancestors edges source, above.pane = target.pane) ∨
        ∃ above ∈ ancestors edges source, above.session = source.session ∧ above.parent = target.parent := by
  constructor
  · intro reason
    cases reason with
    | parent named => exact .inl named
    | sibling beside _ => exact .inr (.inr (.inl beside.symm))
    | ancestor found => exact .inr (.inr (.inr (.inl ⟨target, found, rfl⟩)))
    | beside higher found session beside _ => exact .inr (.inr (.inr (.inr ⟨higher, found, session, beside.symm⟩)))
  · rintro (named | named | beside | ⟨above, found, same⟩ | ⟨above, found, session, beside⟩)
    · exact .parent named
    · exact .ancestor (parent_mem_ancestors from_ named (find?_mem distinct to_))
    · exact .sibling beside.symm (Ne.symm other)
    · obtain rfl := List.inj_on_of_nodup_map distinct (mem_ancestors from_ found).1 to_ same
      exact .ancestor found
    · by_cases same : target.pane = above.pane
      · obtain rfl := List.inj_on_of_nodup_map distinct (mem_ancestors from_ found).1 to_ same.symm
        exact .ancestor found
      · exact .beside above found session beside.symm same

end Reason

theorem relation_isSome (distinct : (edges.map Edge.pane).Nodup) {source target : Edge} (from_ : source ∈ edges) (to_ : target ∈ edges) :
    (relation edges source.pane target.pane).isSome ↔
      source.session = target.session ∧ source.pane ≠ target.pane ∧ Reason edges source target := by
  simp only [relation, find?_mem distinct from_, find?_mem distinct to_, Option.bind_eq_bind, Option.bind_some, List.any_eq_true,
    decide_eq_true_eq]
  by_cases apart : source.session ≠ target.session ∨ source.pane = target.pane
  · rw [if_pos apart]
    constructor
    · intro none_
      cases none_
    · rintro ⟨session, other, -⟩
      exact absurd apart (not_or.2 ⟨fun differs => differs session, other⟩)
  · rw [if_neg apart]
    obtain ⟨session, other⟩ := not_or.1 apart
    rw [Reason.iff_tests distinct from_ to_ other]
    simp only [ne_eq, not_not] at session
    simp only [session, other, ne_eq, not_false_eq_true, true_and]
    split_ifs <;> simp_all

theorem relation_mem {sender receiver : PaneId} (related : (relation edges sender receiver).isSome) :
    ∃ source ∈ edges, ∃ target ∈ edges, source.pane = sender ∧ target.pane = receiver := by
  cases source : find? edges sender with
  | none =>
    rw [relation, source] at related
    cases related
  | some from_ =>
    cases target : find? edges receiver with
    | none =>
      rw [relation, source, target] at related
      cases related
    | some to_ => exact ⟨from_, (find?_some source).1, to_, (find?_some target).1, (find?_some source).2, (find?_some target).2⟩

section Descendants

open Classical in
-- The panes above one: they grow fewer with each turn of the loop.
noncomputable def higher (edges : List Edge) (of : Edge) : Finset Edge :=
  edges.toFinset.filter fun edge => Above edges edge.pane of.pane

theorem mem_higher {of edge : Edge} : edge ∈ higher edges of ↔ edge ∈ edges ∧ Above edges edge.pane of.pane := by
  simp only [higher, Finset.mem_filter, List.mem_toFinset]

theorem mem_climb_of_above (distinct : (edges.map Edge.pane).Nodup) (acyclic : Acyclic edges) {turns : Nat} {of above : Edge}
    (here : of ∈ edges) (there : above ∈ edges) (link : Above edges above.pane of.pane) (enough : (higher edges of).card ≤ turns) :
    above ∈ climb edges turns of := by
  induction turns generalizing of with
  | zero =>
    have none_ := Finset.card_eq_zero.1 (Nat.le_zero.1 enough)
    have some_ := mem_higher.2 ⟨there, link⟩
    rw [none_] at some_
    exact absurd some_ (Finset.notMem_empty _)
  | succ turns ih =>
    obtain ⟨next, next_, named, rest⟩ :
        ∃ next ∈ edges, of.parent = some next.pane ∧ (above = next ∨ Above edges above.pane next.pane) := by
      cases link with
      | single parent =>
        obtain ⟨edge, member, same, named⟩ := parent
        obtain rfl := List.inj_on_of_nodup_map distinct member here same
        exact ⟨above, there, named, .inl rfl⟩
      | tail higher parent =>
        obtain ⟨edge, member, same, named⟩ := parent
        obtain rfl := List.inj_on_of_nodup_map distinct member here same
        obtain ⟨next, next_, same⟩ : ∃ next ∈ edges, next.pane = _ := by
          cases higher with
          | single parent => exact ⟨parent.choose, parent.choose_spec.1, parent.choose_spec.2.1⟩
          | tail _ parent => exact ⟨parent.choose, parent.choose_spec.1, parent.choose_spec.2.1⟩
        exact ⟨next, next_, same ▸ named, .inr (same ▸ higher)⟩
    have parent : Parent edges next.pane of.pane := ⟨of, here, rfl, named⟩
    rw [climb, named, Option.bind_some, find?_mem distinct next_]
    obtain rfl | further := rest
    · exact List.mem_cons_self
    · apply List.mem_cons_of_mem
      apply ih next_ further
      have fewer : higher edges next ⊂ higher edges of := by
        rw [Finset.ssubset_iff_of_subset]
        · refine ⟨next, mem_higher.2 ⟨next_, .single parent⟩, fun self => ?_⟩
          exact acyclic _ (mem_higher.1 self).2
        · intro edge member
          obtain ⟨there, link⟩ := mem_higher.1 member
          exact mem_higher.2 ⟨there, link.tail parent⟩
      exact Nat.le_of_lt_succ (Nat.lt_of_lt_of_le (Finset.card_lt_card fewer) enough)

theorem isDescendant_iff (distinct : (edges.map Edge.pane).Nodup) (acyclic : Acyclic edges) {caller target : Edge}
    (caller_ : caller ∈ edges) (target_ : target ∈ edges) :
    isDescendant edges caller.pane target.pane = true ↔ Above edges caller.pane target.pane := by
  rw [isDescendant, find?_mem distinct target_]
  simp only [Option.any_some, List.any_eq_true, decide_eq_true_eq]
  constructor
  · rintro ⟨above, found, same⟩
    exact same ▸ (mem_ancestors target_ found).2
  · intro link
    have enough : (higher edges target).card ≤ edges.length := by
      apply Nat.le_trans _ (List.toFinset_card_le edges)
      exact Finset.card_le_card fun edge member => List.mem_toFinset.2 (mem_higher.1 member).1
    exact ⟨caller, mem_climb_of_above distinct acyclic target_ caller_ link enough, rfl⟩

end Descendants

-- The two agree on every pair of panes; they hold for two panes of one session only, and of the panes below it a pane
-- reaches its own children alone.
theorem relation_agrees_with_scope (edges : List Edge) (distinct : (edges.map Edge.pane).Nodup) (acyclic : Acyclic edges)
    (sender receiver : PaneId) :
    ((relation edges sender receiver).isSome ↔ receiver ∈ scope edges sender) ∧
    (receiver ∈ scope edges sender → sender ≠ receiver ∧
      ∃ source ∈ edges, ∃ target ∈ edges, source.pane = sender ∧ target.pane = receiver ∧ source.session = target.session) ∧
    (receiver ∈ scope edges sender → Above edges sender receiver → Parent edges sender receiver) := by
  refine ⟨⟨fun related => ?_, fun reached => ?_⟩, fun reached => ?_, fun reached below => ?_⟩
  · obtain ⟨source, from_, target, to_, rfl, rfl⟩ := relation_mem related
    obtain ⟨session, _, reason⟩ := (relation_isSome distinct from_ to_).1 related
    exact (mem_scope distinct from_ to_).2 ⟨session.symm, reason⟩
  · obtain ⟨source, from_, target, to_, rfl, rfl⟩ := scope_mem reached
    obtain ⟨session, reason⟩ := (mem_scope distinct from_ to_).1 reached
    exact (relation_isSome distinct from_ to_).2 ⟨session.symm, reason.other distinct acyclic from_ to_, reason⟩
  · obtain ⟨source, from_, target, to_, rfl, rfl⟩ := scope_mem reached
    obtain ⟨session, reason⟩ := (mem_scope distinct from_ to_).1 reached
    exact ⟨reason.other distinct acyclic from_ to_, source, from_, target, to_, rfl, rfl, session.symm⟩
  · obtain ⟨source, from_, target, to_, rfl, rfl⟩ := scope_mem reached
    obtain ⟨_, reason⟩ := (mem_scope distinct from_ to_).1 reached
    exact ⟨target, to_, rfl, reason.child distinct acyclic from_ to_ below⟩

-- A pane of another session between two, and a parent that is gone.
theorem relation_agrees_with_scope_far :
    let edges : List Edge := [⟨⟨1⟩, none, ⟨1⟩⟩, ⟨⟨2⟩, some ⟨1⟩, ⟨2⟩⟩, ⟨⟨4⟩, some ⟨2⟩, ⟨1⟩⟩, ⟨⟨5⟩, some ⟨3⟩, ⟨1⟩⟩]
    ((relation edges ⟨4⟩ ⟨1⟩).isSome ↔ (⟨1⟩ : PaneId) ∈ scope edges ⟨4⟩) ∧
    ((⟨1⟩ : PaneId) ∈ scope edges ⟨4⟩ → (⟨4⟩ : PaneId) ≠ ⟨1⟩ ∧
      ∃ source ∈ edges, ∃ target ∈ edges, source.pane = ⟨4⟩ ∧ target.pane = ⟨1⟩ ∧ source.session = target.session) ∧
    ((⟨1⟩ : PaneId) ∈ scope edges ⟨4⟩ → Above edges ⟨4⟩ ⟨1⟩ → Parent edges ⟨4⟩ ⟨1⟩) :=
  relation_agrees_with_scope _ (by decide) (acyclic_of_older PaneId.number (by decide)) ⟨4⟩ ⟨1⟩

end Kido.Reaching
