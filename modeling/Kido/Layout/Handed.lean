import Kido.Layout.Reachable

set_option autoImplicit false

namespace Kido.Tiling

open Kido.Shared

theorem putWithShell_ids {document after : Document} {request : PutLayout} {newWindow : Option Size}
    {shell : Option Name} {created : List (PaneId × CreatePane × Vars)}
    (put : document.putWithShell request newWindow shell = (.ok created, after)) :
    (document.ids.pane.value ≤ after.ids.pane.value ∧
        ∀ id ∈ created.map Prod.fst, document.ids.pane.value ≤ id.number ∧
          (id.number < after.ids.pane.value ∨ id.number = u64Max)) ∧
      (document.ids.window.value ≤ after.ids.window.value ∧
        ∀ id ∈ after.layout.windowIds, id ∈ document.layout.windowIds ∨
          (document.ids.window.value ≤ id.number ∧ (id.number < after.ids.window.value ∨ id.number = u64Max))) ∧
      document.ids.session.value ≤ after.ids.session.value ∧
        ∀ id ∈ after.layout.sessionIds, id ∈ document.layout.sessionIds ∨
          (document.ids.session.value ≤ id.number ∧ (id.number < after.ids.session.value ∨ id.number = u64Max)) := by
  obtain ⟨claims, same, ids, _, grows⟩ := putWithShell_grows put
  obtain ⟨news, list, panes⟩ := grows.panes
  obtain ⟨_, windows⟩ := grows.windows
  obtain ⟨_, sessions⟩ := grows.sessions
  have all : created = news := same.symm.trans (by simpa [startClaims] using list)
  subst all
  rw [ids] at panes windows sessions
  refine ⟨⟨panes.grows, panes.fresh⟩, ⟨windows.grows, ?_⟩, sessions.grows, ?_⟩
  · intro id member
    rcases windows.origin id member with known | minted
    · obtain ⟨⟨session, window⟩, found⟩ := Option.isSome_iff_exists.mp known
      obtain ⟨inside, own, same⟩ := Layout.window?_mem _ _ _ _ found
      left
      exact List.mem_map.mpr ⟨window, (Layout.mem_windowList_iff _ _).mpr ⟨session, inside, own⟩, same⟩
    · exact .inr (windows.fresh id minted)
  · intro id member
    rcases sessions.origin id member with known | minted
    · obtain ⟨session, found⟩ := Option.isSome_iff_exists.mp known
      left
      exact List.mem_map.mpr ⟨session, List.mem_of_find?_eq_some found, by simpa using List.find?_some found⟩
    · exact .inr (sessions.fresh id minted)

theorem created_fresh {document after : Document} {request : PutLayout} {newWindow : Option Size} {shell : Option Name}
    {created : List (PaneId × CreatePane × Vars)}
    (put : document.putWithShell request newWindow shell = (.ok created, after)) :
    (∀ id ∈ created.map Prod.fst, id.number < after.ids.pane.value ∨ after.ids.pane.value = u64Max) ∧
      document.ids.pane.value ≤ after.ids.pane.value ∧
      (document.ids.pane.value ≠ u64Max → ∀ id ∈ created.map Prod.fst, document.ids.pane.value ≤ id.number) ∧
      (document.ids.pane.value = u64Max → created.length ≤ 1 ∧ after.ids.pane.value = u64Max) := by
  obtain ⟨claims, same, ids, _, grows⟩ := putWithShell_grows put
  obtain ⟨news, list, panes⟩ := grows.panes
  have all : created = news := same.symm.trans (by simpa [startClaims] using list)
  subst all
  rw [ids] at panes
  have bound := panes.bound
  have grown := panes.grows
  refine ⟨?_, grown, fun _ id member => (panes.fresh id member).1, ?_⟩
  · intro id member
    rcases (panes.fresh id member).2 with below | last
    · exact .inl below
    · exact .inr (panes.reached id member last)
  · intro full
    have start : (startClaims document.layout document.ids shell).ids.pane.value = u64Max := full
    rw [start] at grown
    refine ⟨?_, by omega⟩
    have distinct := (putWithShell_panes put).2.1
    have one : ∀ id ∈ created.map Prod.fst, id = ⟨u64Max⟩ := by
      intro id member
      obtain ⟨least, most⟩ := panes.fresh id member
      rw [start] at least
      have equal : id.number = u64Max := by omega
      cases id
      exact congrArg PaneId.mk equal
    rwa [List.eq_replicate_of_mem one, List.nodup_replicate, List.length_map] at distinct

theorem after_ids (past : List Document) (document : Document) (op : Op)
    (other : ∀ request newWindow shell, op ≠ .put request newWindow shell) :
    (document.after past op).ids = document.ids := by
  cases op with
  | put request newWindow shell => exact absurd rfl (other request newWindow shell)
  | removePane pane =>
    simp only [Document.after, Document.removePane]
    split <;> rfl
  | removeWindow id =>
    simp only [Document.after, Document.removeWindow]
    split <;> rfl
  | removeSession id =>
    simp only [Document.after, Document.removeSession]
    split <;> rfl
  | focus id pane =>
    simp only [Document.after, Document.focus]
    split
    · rfl
    · split_ifs <;> rfl
  | resizeWindow id cols rows cellPx =>
    simp only [Document.after, Document.resizeWindow]
    split
    · rfl
    · split_ifs <;> rfl
  | publish =>
    simp only [Document.after, Document.publish]
    split_ifs <;> rfl
  | rollback back =>
    simp only [Document.after]
    split <;> rfl

theorem publish_ids (document : Document) : document.publish.ids = document.ids :=
  after_ids [] document .publish fun _ _ _ => nofun

theorem hands_other (document : Document) (op : Op)
    (other : ∀ request newWindow shell, op ≠ .put request newWindow shell) :
    document.hands op = ⟨[], [], []⟩ := by
  cases op with
  | put request newWindow shell => exact absurd rfl (other request newWindow shell)
  | _ => rfl

theorem Handed.Below.mono {handed : Handed} {ids ids' : Ids} (below : handed.Below ids)
    (pane : ids.pane.value ≤ ids'.pane.value) (window : ids.window.value ≤ ids'.window.value)
    (session : ids.session.value ≤ ids'.session.value) : handed.Below ids' := by
  refine ⟨fun id member => ?_, fun id member => ?_, fun id member => ?_⟩
  · have old := below.1 id member
    omega
  · have old := below.2.1 id member
    omega
  · have old := below.2.2 id member
    omega

theorem hands_below (document : Document) (request : PutLayout) (newWindow : Option Size) (shell : Option Name) :
    (document.hands (.put request newWindow shell)).Below (document.putWithShell request newWindow shell).2.ids ∧
      document.ids.pane.value ≤ (document.putWithShell request newWindow shell).2.ids.pane.value ∧
      document.ids.window.value ≤ (document.putWithShell request newWindow shell).2.ids.window.value ∧
      document.ids.session.value ≤ (document.putWithShell request newWindow shell).2.ids.session.value := by
  rcases put : document.putWithShell request newWindow shell with ⟨error | created, after⟩
  · rw [putWithShell_error put]
    simp [Document.hands, put, Handed.Below]
  · obtain ⟨⟨pane, panes⟩, ⟨window, windows⟩, session, sessions⟩ := putWithShell_ids put
    refine ⟨⟨?_, ?_, ?_⟩, pane, window, session⟩
    · intro id member
      simp only [Document.hands, put] at member
      exact (panes id member).2
    · intro id member
      simp only [Document.hands, put, List.mem_filter, decide_eq_true_eq] at member
      rcases windows id member.1 with old | fresh
      · exact absurd old member.2
      · exact fresh.2
    · intro id member
      simp only [Document.hands, put, List.mem_filter, decide_eq_true_eq] at member
      rcases sessions id member.1 with old | fresh
      · exact absurd old member.2
      · exact fresh.2

theorem run_below (ops : List Op) : (World.run ops).handed.Below (World.run ops).document.ids := by
  refine run_invariant (P := fun world : World => world.handed.Below world.document.ids) ?_ ?_ ops
  · simp [World.start, Handed.Below]
  · intro world op below
    by_cases put : ∃ request newWindow shell, op = .put request newWindow shell
    · obtain ⟨request, newWindow, shell, rfl⟩ := put
      obtain ⟨hands, pane, window, session⟩ := hands_below world.document request newWindow shell
      have old := below.mono pane window session
      refine ⟨?_, ?_, ?_⟩
      · intro id member
        rcases List.mem_append.mp member with new | before
        · exact hands.1 id new
        · exact old.1 id before
      · intro id member
        rcases List.mem_append.mp member with new | before
        · exact hands.2.1 id new
        · exact old.2.1 id before
      · intro id member
        rcases List.mem_append.mp member with new | before
        · exact hands.2.2 id new
        · exact old.2.2 id before
    · have other : ∀ request newWindow shell, op ≠ .put request newWindow shell :=
        fun request newWindow shell same => put ⟨request, newWindow, shell, same⟩
      simpa [World.step, hands_other world.document op other, after_ids world.past world.document op other] using
        below

-- A put changes nothing when it fails. When it succeeds, the panes are the live ones and the created
-- ones, each once, and nothing that it created, short of the last number of a saturated counter, was handed out
-- before.
theorem putWithShell_all_or_fresh :
    (∀ (document : Document) (request : PutLayout) (newWindow : Option Size) (shell : Option Name),
      match document.putWithShell request newWindow shell with
      | (.error _, after) => after = document
      | (.ok created, after) =>
        after.layout.panes.Nodup ∧ (created.map Prod.fst).Nodup ∧
          ∀ pane, pane ∈ after.layout.panes ↔ pane ∈ document.layout.panes ∨ pane ∈ created.map Prod.fst) ∧
    ∀ (ops : List Op) (request : PutLayout) (newWindow : Option Size) (shell : Option Name),
      let world := World.run ops
      let hands := world.document.hands (.put request newWindow shell)
      (∀ id ∈ hands.panes, id.number ≠ u64Max → id ∉ world.handed.panes) ∧
        (∀ id ∈ hands.windows, id.number ≠ u64Max → id ∉ world.handed.windows) ∧
        ∀ id ∈ hands.sessions, id.number ≠ u64Max → id ∉ world.handed.sessions := by
  constructor
  · intro document request newWindow shell
    rcases put : document.putWithShell request newWindow shell with ⟨error | created, after⟩
    · exact putWithShell_error put
    · exact putWithShell_panes put
  · intro ops request newWindow shell
    obtain ⟨panes, windows, sessions⟩ := run_below ops
    rcases put : (World.run ops).document.putWithShell request newWindow shell with ⟨error | created, after⟩
    · simp [Document.hands, put]
    · obtain ⟨⟨_, newPanes⟩, ⟨_, newWindows⟩, _, newSessions⟩ := putWithShell_ids put
      simp only [Document.hands, put, List.mem_filter, decide_eq_true_eq]
      refine ⟨?_, ?_, ?_⟩
      · intro id member low before
        have fresh := newPanes id member
        have old := panes id before
        omega
      · rintro id ⟨member, new⟩ low before
        have old := windows id before
        rcases newWindows id member with known | fresh
        · exact new known
        · omega
      · rintro id ⟨member, new⟩ low before
        have old := sessions id before
        rcases newSessions id member with known | fresh
        · exact new known
        · omega

def freshPane : CreatePane := ⟨none, .empty, none⟩

def singleName : Name := ⟨"s", by decide⟩

def singleWindowName : Name := ⟨"w", by decide⟩

def singleWindow : DraftWindow where
  id := none
  name := some singleWindowName
  vars := .empty
  cols := none
  rows := none
  cellPx := none
  zoom := none
  tree := .leaf ⟨.new freshPane, none, none⟩
  floats := []

def singleDraft : DraftLayout := ⟨[⟨none, singleName, .empty, [singleWindow]⟩]⟩

def singlePut : Op := .put ⟨.first, singleDraft⟩ none none

def freshLeaf : DraftLeaf := ⟨.new freshPane, none, none⟩

def freshFloat : DraftFloat := ⟨.new freshPane, some 4, some 2, none, none, none, true, "notes"⟩

def nestedWindow : DraftWindow :=
  { singleWindow with
    tree := .split .horizontal [.leaf freshLeaf, .split .vertical [.leaf freshLeaf, .leaf freshLeaf]]
    floats := [freshFloat] }

-- Three panes in nested splits under a float, and a window of one pane.
def nestedPut : Op := .put ⟨.first, ⟨[⟨none, singleName, .empty, [nestedWindow, singleWindow]⟩]⟩⟩ none none

def singleSession (ids : Ids) : Session where
  id := ⟨ids.session.value⟩
  name := singleName
  vars := .empty
  windows := [{
    id := ⟨ids.window.value⟩
    name := singleWindowName
    vars := .empty
    cols := unsizedWindow.cols
    rows := unsizedWindow.rows
    cellPx := none
    zoom := none
    focus := ⟨ids.pane.value⟩
    tree := .leaf ⟨⟨ids.pane.value⟩, unsizedWindow.cols, unsizedWindow.rows⟩
    floats := [] }]

theorem single_put (ids : Ids) (unpublished : Bool) :
    (Document.mk .first unpublished ⟨[]⟩ ids).putWithShell ⟨.first, singleDraft⟩ none none =
      (.ok [(⟨ids.pane.value⟩, freshPane, .empty)],
        ⟨.first, true, ⟨[singleSession ids]⟩, ⟨ids.pane.bump, ids.session.bump, ids.window.bump⟩⟩) := by
  rfl

theorem single_removed (ids later : Ids) (unpublished : Bool) :
    ((Document.mk .first unpublished ⟨[singleSession ids]⟩ later).removeSession ⟨ids.session.value⟩).2 =
      ⟨.first, true, ⟨[]⟩, later⟩ := by
  simp [Document.removeSession, Layout.session?, singleSession, Document.removal, settle, Layout.mapWindows]

-- A pane opened in a session of its own and the session removed, `n` times over.
def rounds (n : Nat) : List Op :=
  (List.range n).flatMap fun k => [singlePut, .removeSession ⟨min (k + 1) u64Max⟩]

def counterAfter (n : Nat) : Counter := ⟨min (n + 1) u64Max, Nat.min_le_right _ _⟩

theorem counterAfter_bump (n : Nat) : (counterAfter n).bump = counterAfter (n + 1) := by
  simp only [counterAfter, Counter.bump, Counter.mk.injEq]
  omega

theorem rounds_correct (n : Nat) :
    (∃ unpublished, (World.run (rounds n)).document =
      ⟨.first, unpublished, ⟨[]⟩, ⟨counterAfter n, counterAfter n, counterAfter n⟩⟩) ∧
      ∀ k < n, (⟨min (k + 1) u64Max⟩ : PaneId) ∈ (World.run (rounds n)).handed.panes := by
  induction n with
  | zero => exact ⟨⟨false, rfl⟩, by simp⟩
  | succ n ih =>
    obtain ⟨⟨unpublished, document⟩, handed⟩ := ih
    have more : World.run (rounds (n + 1)) =
        ((World.run (rounds n)).step singlePut).step (.removeSession ⟨min (n + 1) u64Max⟩) := by
      simp [rounds, World.run, List.range_succ, Shared.run]
    have put := single_put ⟨counterAfter n, counterAfter n, counterAfter n⟩ unpublished
    have removed := single_removed ⟨counterAfter n, counterAfter n, counterAfter n⟩
      ⟨counterAfter (n + 1), counterAfter (n + 1), counterAfter (n + 1)⟩ true
    rw [more]
    constructor
    · refine ⟨true, ?_⟩
      simp only [World.step, document, singlePut, Document.after, put, counterAfter_bump]
      exact removed
    · intro k below
      simp only [World.step, document, singlePut, Document.hands, put, List.nil_append, List.mem_append]
      rcases Nat.lt_succ_iff_lt_or_eq.mp below with before | last
      · exact .inr (handed k before)
      · left
        simp [last, counterAfter]

theorem handed_twice (n : Nat) (full : u64Max ≤ n) :
    (⟨u64Max⟩ : PaneId) ∈ ((World.run (rounds n)).document.hands singlePut).panes ∧
      (⟨u64Max⟩ : PaneId) ∈ (World.run (rounds n)).handed.panes := by
  obtain ⟨⟨unpublished, document⟩, handed⟩ := rounds_correct n
  have put := single_put ⟨counterAfter n, counterAfter n, counterAfter n⟩ unpublished
  have last : (counterAfter n).value = u64Max := by
    simp only [counterAfter]
    omega
  have positive : 1 ≤ u64Max := by decide
  constructor
  · simp only [document, singlePut, Document.hands, put, last]
    simp
  · have again := handed (u64Max - 1) (by omega)
    have same : min (u64Max - 1 + 1) u64Max = u64Max := by omega
    rwa [same] at again

-- A saturated counter hands its last number out again.
theorem saturated_pane_handed_twice :
    (⟨u64Max⟩ : PaneId) ∈ ((World.run (rounds u64Max)).document.hands singlePut).panes ∧
      (⟨u64Max⟩ : PaneId) ∈ (World.run (rounds u64Max)).handed.panes :=
  handed_twice u64Max (Nat.le_refl u64Max)

end Kido.Tiling
