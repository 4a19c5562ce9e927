import Kido.Client.Edit
import Kido.Client.Select

set_option autoImplicit false

namespace Kido.Selecting

open Kido.Shared Kido.Tiling
open Kido.Editing (Removed Verdict)

-- A client's connection. `selected` is of the run, not of the server: the client has had a selection since the
-- layout was last empty.
structure Conn where
  client : Client
  selected : Bool

structure State where
  document : Document
  sizers : WindowId → Option ClientId
  nextClient : Counter
  conns : List Conn

inductive Op where
  | attach
  | request (index : Nat) (request : ClientRequest)
  | leave (index : Nat)
  | removed (what : Removed) (parent : PaneId → Option PaneId)
  | put (request : PutLayout) (shell : Option Name) (verdict : Verdict)

namespace State

def start : State := ⟨.new, fun _ => none, .one, []⟩

def actives (state : State) : List (ClientId × Active) :=
  state.conns.filterMap fun conn => conn.client.active.map fun active => (conn.client.id, active)

def active (state : State) (index : Nat) : Option (ClientId × Active) :=
  (state.conns[index]?).bind fun conn => conn.client.active.map fun active => (conn.client.id, active)

def sizeWindow (state : State) (window : WindowId) (size : Size) : Bool × State :=
  let (resized, document) := state.document.resizeWindow window size.cols size.rows size.cellPx
  (decide (resized = .changed), { state with document := document })

def noteFocus (state : State) (index : Nat) : State :=
  match ((state.active index).filter fun found => found.2.focused).bind fun found => found.2.current with
  | some current => { state with document := (state.document.focus current.window current.pane).2 }
  | none => state

def claim (state : State) (index : Nat) : State :=
  match state.active index with
  | none => state
  | some (id, active) =>
    match active.current with
    | none => state
    | some current =>
      if claims id active state.actives then
        (State.sizeWindow { state with sizers := Function.update state.sizers current.window (some id) }
          current.window active.size).2
      else state

def publish (state : State) : State := { state with document := state.document.publish }

def arrive (state : State) (index : Nat) : State := ((state.noteFocus index).claim index).publish

def enter (state : State) (index : Nat) (current : Option Current) : State :=
  State.arrive { state with conns := state.conns.modify index fun conn =>
    { conn with client := conn.client.setCurrent current } } index

-- What `changed` does with one connection, and whether its client moved.
def settleConn (before layout : Layout) (parents : List (PaneId × PaneId)) (conn : Conn) : Conn × Bool :=
  match conn.client.active with
  | none => (conn, false)
  | some _ =>
    let client := conn.client.forget layout
    let after := client.reconcile before layout parents
    if after ≠ client.current then ({ conn with client := client.setCurrent after }, true)
    else ({ conn with client := client }, false)

def changed (state : State) (before : Layout) (parents : List (PaneId × PaneId)) : State :=
  let layout := state.document.layout
  let settled := state.conns.map (settleConn before layout parents)
  let moved := (settled.zipIdx.filter fun place => place.1.2).map Prod.snd
  let state := { state with
    sizers := fun window => if (layout.window? window).isSome then state.sizers window else none
    conns := settled.map Prod.fst }
  (moved.foldl (fun state index => (state.noteFocus index).claim index) state).publish

def serve (state : State) (index : Nat) (conn : Conn) (request : ClientRequest) : State :=
  let (change, client) := conn.client.receive request
  let state := { state with conns := state.conns.set index { conn with client := client } }
  let layout := state.document.layout
  match change with
  | .error _ => state
  | .ok (.hello selection) =>
    state.enter index ((client.select layout selection).or (client.select layout { selection with pane := none }))
  | .ok (.select selection) =>
    match client.select layout selection with
    | some current => state.enter index (some current)
    | none => state
  | .ok (.switch switch) =>
    match client.switch layout switch with
    | some current => state.enter index (some current)
    | none => state
  | .ok .claim => state.arrive index
  | .ok .resize =>
    match client.active.bind fun active => active.current.map fun current => (active.size, current.window) with
    | some (size, window) =>
      if state.sizers window = some client.id then
        let (resized, state) := state.sizeWindow window size
        if resized then state.publish else state
      else state
    | none => state
  | .ok .nothing => state
  | .ok .answer => state

def remove (state : State) (what : Removed) (parent : PaneId → Option PaneId) : State :=
  match what.apply state.document with
  | (none, _) => state
  | (some removal, document) =>
    let parents := removal.panes.filterMap fun pane => (parent pane).map fun parent => (pane, parent)
    State.changed { state with document := document } removal.before parents

-- `put_layout_in`, with the outcome of its own checks and of starting the panes as the verdict.
def putLayout (state : State) (request : PutLayout) (shell : Option Name) (verdict : Verdict) : State :=
  match state.document.putWithShell request (newWindowSizer (state.actives.map Prod.snd)) shell, verdict with
  | (.error _, _), _ => state
  | (.ok _, document), .rejected => { state with document := document.rollback state.document }
  | (.ok _, document), .accepted =>
    if document.unpublished then State.changed { state with document := document } state.document.layout []
    else { state with document := document }

def act (state : State) : Op → State
  | .attach => { state with
      nextClient := state.nextClient.bump
      conns := state.conns ++ [⟨.new ⟨state.nextClient.value⟩, false⟩] }
  | .request index request =>
    match state.conns[index]? with
    | some conn => state.serve index conn request
    | none => state
  | .leave index =>
    match state.conns[index]? with
    | some conn => { state with
        sizers := fun window => (state.sizers window).filter fun sizer => decide (sizer ≠ conn.client.id)
        conns := state.conns.eraseIdx index }
    | none => state
  | .removed what parent => state.remove what parent
  | .put request shell verdict => state.putLayout request shell verdict

def note (layout : Layout) (conn : Conn) : Conn :=
  { conn with selected := !layout.sessions.isEmpty && (conn.selected || conn.client.current.isSome) }

def step (state : State) (op : Op) : State :=
  let after := state.act op
  { after with conns := after.conns.map (note after.document.layout) }

def run (ops : List Op) : State := Shared.run step start ops

end State

def Grown (window found : Window) : Prop := found.id = window.id ∧ window.panes ⊆ found.panes

theorem Grown.refl (window : Window) : Grown window window := ⟨rfl, List.Subset.refl _⟩

def Widened (session there : Session) : Prop :=
  there.id = session.id ∧ ∀ window ∈ session.windows, ∃ found ∈ there.windows, Grown window found

theorem Widened.refl (session : Session) : Widened session session :=
  ⟨rfl, fun window inside => ⟨window, inside, .refl window⟩⟩

-- Every place of the first layout is one of the second, which is empty where the first is.
structure Carries (before after : Layout) : Prop where
  places : ∀ session ∈ before.sessions, ∃ there ∈ after.sessions, Widened session there
  empty : before.sessions = [] → after.sessions = []

namespace Carries

theorem refl (layout : Layout) : Carries layout layout where
  places := fun session member => ⟨session, member, .refl session⟩
  empty := id

variable {before after : Layout} (carries : Carries before after)
include carries

theorem named {current : Current} (named : current.Named before) : current.Named after := by
  obtain ⟨session, member, id, window, inside, same, own⟩ := named
  obtain ⟨there, held, sameId, windows⟩ := carries.places session member
  obtain ⟨found, left, sameWindow, panes⟩ := windows window inside
  exact ⟨there, held, sameId.trans id, found, left, sameWindow.trans same, panes own⟩

theorem holds {id : SessionId} {window : WindowId} (holds : Holds before id window) : Holds after id window := by
  obtain ⟨session, member, own, found, inside, same⟩ := holds
  obtain ⟨there, held, sameId, windows⟩ := carries.places session member
  obtain ⟨left, kept, sameWindow, _⟩ := windows found inside
  exact ⟨there, held, sameId.trans own, left, kept, sameWindow.trans same⟩

end Carries

theorem replaceFirst_image {α : Type} {fits : α → Bool} {f : α → List α} {R : α → α → Prop} {list : List α}
    {item : α} (member : item ∈ list) (own : fits item = true → ∃ image ∈ f item, R item image)
    (refl : R item item) : ∃ image ∈ replaceFirst fits f list, R item image := by
  induction list with
  | nil => cases member
  | cons first rest ih =>
    by_cases here : fits first = true
    · rw [replaceFirst_pos fits f here]
      rcases List.mem_cons.mp member with head | tail
      · subst head
        obtain ⟨image, inside, related⟩ := own here
        exact ⟨image, List.mem_append_left _ inside, related⟩
      · exact ⟨item, List.mem_append_right _ tail, refl⟩
    · rw [replaceFirst_neg fits f here]
      rcases List.mem_cons.mp member with head | tail
      · exact ⟨item, by simp [head], refl⟩
      · obtain ⟨image, inside, related⟩ := ih tail
        exact ⟨image, by simp [inside], related⟩

theorem replaceFirst_carries (layout : Layout) (fits : Window → Bool) (f : Window → List Window)
    (own : ∀ window ∈ layout.windowList, fits window = true → ∃ found ∈ f window, Grown window found) :
    Carries layout (layout.replaceFirst fits f) where
  places := by
    intro session member
    refine replaceFirst_image (R := Widened) member (fun _ => ⟨_, List.mem_singleton_self _, rfl, ?_⟩) (.refl session)
    intro window inside
    exact replaceFirst_image inside
      (own window ((layout.mem_windowList_iff window).mpr ⟨session, member, inside⟩)) (.refl window)
  empty := by
    intro empty
    simp [Layout.replaceFirst, empty, replaceFirst]

theorem focus_carries (document : Document) (id : WindowId) (pane : PaneId) :
    Carries document.layout (document.focus id pane).2.layout := by
  simp only [Document.focus]
  split
  · exact .refl _
  · split_ifs
    · exact replaceFirst_carries _ _ _ fun window _ _ => ⟨_, List.mem_singleton_self _, rfl, List.Subset.refl _⟩
    · exact .refl _

theorem resizeWindow_carries {document : Document} (own : document.layout.WellFormed) (id : WindowId)
    (cols rows : Cells) (cellPx : Option CellPixels) :
    Carries document.layout (document.resizeWindow id cols rows cellPx).2.layout := by
  have same := window_window document.layout id
  simp only [Document.resizeWindow]
  split
  · exact .refl _
  · rename_i window found
    rw [found] at same
    have inside := List.mem_of_find?_eq_some same.symm
    obtain ⟨_, sameId, panes⟩ := resize_wellFormed (own.windows window inside) (cols.get, rows.get) cols.bound
      rows.bound cellPx
    split_ifs
    · refine replaceFirst_carries _ _ _ fun other member fits => ⟨_, List.mem_singleton_self _, ?_⟩
      have unique : other = window := by
        have first : window.id = id := by simpa using List.find?_some same.symm
        exact unique_of_nodup_map Window.id _ own.windowIds member inside (by simpa [first] using fits)
      subst unique
      exact ⟨sameId, fun pane => panes.mem_iff.mpr⟩
    · exact .refl _

-- What holds of a client's connection under the layout.
structure Conn.Sound (layout : Layout) (conn : Conn) : Prop where
  named : ∀ current, conn.client.current = some current → current.Named layout
  bare : conn.client.current = none → conn.selected = true → layout.sessions = []
  history : ∀ id, ∀ window ∈ conn.client.windowHistory id, Holds layout id window
  fresh : conn.client.active = none → ∀ id, conn.client.windowHistory id = []

structure State.Sound (state : State) : Prop where
  layout : state.document.layout.WellFormed
  conns : ∀ conn ∈ state.conns, conn.Sound state.document.layout

theorem Conn.Sound.carried {before after : Layout} {conn : Conn} (own : conn.Sound before)
    (carries : Carries before after) : conn.Sound after where
  named := fun current found => carries.named (own.named current found)
  bare := fun none_ selected => carries.empty (own.bare none_ selected)
  history := fun id window member => carries.holds (own.history id window member)
  fresh := own.fresh

theorem State.Sound.carried {state after : State} (own : state.Sound) (same : after.conns = state.conns)
    (wellFormed : after.document.layout.WellFormed) (carries : Carries state.document.layout after.document.layout) :
    after.Sound where
  layout := wellFormed
  conns := fun conn member => (own.conns conn (same ▸ member)).carried carries

section Steps

variable {state : State} (own : state.Sound)
include own

theorem publish_sound : state.publish.Sound :=
  own.carried rfl (by simpa [State.publish, publish_layout] using own.layout)
    (by simpa [State.publish, publish_layout] using Carries.refl _)

theorem noteFocus_sound (index : Nat) : (state.noteFocus index).Sound := by
  rw [State.noteFocus]
  split
  · exact own.carried rfl (focus_wellFormed own.layout _ _) (focus_carries _ _ _)
  · exact own

theorem sizeWindow_sound (window : WindowId) (size : Size) : (state.sizeWindow window size).2.Sound :=
  own.carried rfl (resizeWindow_wellFormed own.layout _ _ _ _) (resizeWindow_carries own.layout _ _ _ _)

theorem sizers_sound (sizers : WindowId → Option ClientId) : State.Sound { state with sizers := sizers } :=
  own.carried rfl own.layout (.refl _)

theorem claim_sound (index : Nat) : (state.claim index).Sound := by
  rw [State.claim]
  split
  · exact own
  · split
    · exact own
    · split_ifs
      · exact sizeWindow_sound (sizers_sound own _) _ _
      · exact own

theorem arrive_sound (index : Nat) : (state.arrive index).Sound :=
  publish_sound (claim_sound (noteFocus_sound own index) index)

end Steps

theorem Client.setCurrent_current (client : Client) (current : Option Current) :
    (client.setCurrent current).current = client.active.bind fun _ => current := by
  cases current <;> cases active : client.active <;>
    simp [Client.setCurrent, Client.visited, Client.current, active]

theorem setCurrent_sound {layout : Layout} {conn : Conn}
    (history : ∀ id, ∀ window ∈ conn.client.windowHistory id, Holds layout id window)
    (active : conn.client.active.isSome = true) {current : Option Current}
    (named : ∀ found, current = some found → found.Named layout)
    (bare : current = none → conn.selected = true → layout.sessions = []) :
    Conn.Sound layout { conn with client := conn.client.setCurrent current } := by
  obtain ⟨here, present⟩ := Option.isSome_iff_exists.mp active
  have moved : (conn.client.setCurrent current).current = current := by
    rw [Client.setCurrent_current, present]
    rfl
  constructor
  · exact fun found same => named found (moved ▸ same)
  · exact fun none_ selected => bare (moved ▸ none_) selected
  · cases current with
    | none => exact history
    | some found => exact Client.visited_holds history (named found rfl)
  · intro absent
    cases current <;> simp [Client.setCurrent, Client.visited, present] at absent

theorem enter_sound {state : State} (own : state.Sound) (index : Nat) (current : Option Current)
    (named : ∀ found, current = some found → found.Named state.document.layout)
    (here : ∀ conn, state.conns[index]? = some conn →
      conn.client.active.isSome = true ∧ (current = none → conn.client.current = none)) :
    (state.enter index current).Sound := by
  let entered : State := { state with conns := state.conns.modify index fun conn =>
    { conn with client := conn.client.setCurrent current } }
  suffices sound : ∀ conn ∈ entered.conns, conn.Sound state.document.layout from
    @arrive_sound entered ⟨own.layout, sound⟩ index
  intro conn member
  obtain ⟨place, found⟩ := List.mem_iff_getElem?.mp member
  rw [List.getElem?_modify, Option.map_eq_map, Option.map_eq_some_iff] at found
  obtain ⟨old, there, rfl⟩ := found
  have sound := own.conns old (List.mem_of_getElem? there)
  split_ifs with same
  · subst same
    obtain ⟨active, none_⟩ := here old there
    exact setCurrent_sound sound.history active named fun lost => sound.bare (none_ lost)
  · exact sound

theorem Client.receive_correct (client : Client) (request : ClientRequest) :
    (client.receive request).2.current = client.current ∧
      (client.receive request).2.windowHistory = client.windowHistory ∧
      ((client.receive request).2.active = none → client.active = none) ∧
      ∀ change, (client.receive request).1 = .ok change → (client.receive request).2.active.isSome = true ∧
        ∀ selection, change = .hello selection → client.current = none := by
  cases active : client.active <;> cases request <;>
    simp [Client.receive, Client.current, active] <;> split_ifs <;> simp [active]

theorem receive_sound {layout : Layout} {conn : Conn} (own : conn.Sound layout) (request : ClientRequest) :
    Conn.Sound layout { conn with client := (conn.client.receive request).2 } := by
  obtain ⟨current, history, active, _⟩ := conn.client.receive_correct request
  constructor
  · exact fun found same => own.named found (current ▸ same)
  · exact fun none_ selected => own.bare (current ▸ none_) selected
  · exact fun id window member => own.history id window (history ▸ member)
  · exact fun absent id => history ▸ own.fresh (active absent) id

theorem serve_sound {state : State} (own : state.Sound) (index : Nat) {conn : Conn}
    (found : state.conns[index]? = some conn) (request : ClientRequest) : (state.serve index conn request).Sound := by
  have sound := own.conns conn (List.mem_of_getElem? found)
  have received := conn.client.receive_correct request
  rw [State.serve]
  generalize answered : conn.client.receive request = answer at received
  obtain ⟨change, client⟩ := answer
  have placed : Conn.Sound state.document.layout { conn with client := client } := by
    have all := receive_sound sound request
    rwa [answered] at all
  let served : State := { state with conns := state.conns.set index { conn with client := client } }
  have servedSound : served.Sound := by
    refine ⟨own.layout, fun other member => ?_⟩
    rcases List.mem_or_eq_of_mem_set member with old | same
    · exact own.conns other old
    · exact same ▸ placed
  have own_ : ∀ other, served.conns[index]? = some other → other = { conn with client := client } := by
    intro other there
    have short : index < state.conns.length := (List.getElem?_eq_some_iff.mp found).1
    simpa [served, List.getElem?_set, short, eq_comm] using there
  obtain ⟨_, _, _, accepted⟩ := received
  cases change with
  | error _ => exact servedSound
  | ok change =>
    obtain ⟨active, idle⟩ := accepted change rfl
    have enters (current : Current) (named : current.Named state.document.layout) :
        (served.enter index (some current)).Sound := by
      refine enter_sound servedSound index _ (fun _ same => Option.some.inj same ▸ named) ?_
      rintro other there
      rw [own_ other there]
      exact ⟨active, by simp⟩
    cases change with
    | hello selection =>
      refine enter_sound servedSound index _ ?_ ?_
      · intro current chosen
        rcases Option.or_eq_some_iff.mp chosen with first | ⟨_, second⟩
        · exact client.select_named own.layout first
        · exact client.select_named own.layout second
      · intro other there
        rw [own_ other there]
        refine ⟨active, fun _ => ?_⟩
        have same := (conn.client.receive_correct request).1
        rw [answered] at same
        exact same.trans (idle selection rfl)
    | select selection =>
      cases chosen : client.select state.document.layout selection with
      | none => simpa [chosen] using servedSound
      | some current => simpa [chosen] using enters current (client.select_named own.layout chosen)
    | switch switch =>
      cases chosen : client.switch state.document.layout switch with
      | none => simpa [chosen] using servedSound
      | some current => simpa [chosen] using enters current (client.switch_named own.layout chosen)
    | claim => exact arrive_sound servedSound index
    | resize =>
      simp only
      split
      · split_ifs
        · exact publish_sound (sizeWindow_sound servedSound _ _)
        · exact sizeWindow_sound servedSound _ _
        · exact servedSound
      · exact servedSound
    | nothing => exact servedSound
    | answer => exact servedSound

theorem settleConn_sound {before layout : Layout} {conn : Conn} (wellFormed : layout.WellFormed)
    (follows : Follows before layout) (parents : List (PaneId × PaneId)) (own : conn.Sound before)
    (idle : conn.client.current = none → conn.selected = false) :
    Conn.Sound layout (State.settleConn before layout parents conn).1 := by
  cases active : conn.client.active with
  | none =>
    have nowhere : conn.client.current = none := by simp [Client.current, active]
    rw [State.settleConn, active]
    exact {
      named := fun current found => by simp [nowhere] at found
      bare := fun none_ selected => by simp [idle none_] at selected
      history := fun id window member => by simp [own.fresh active id] at member
      fresh := own.fresh }
  | some here =>
    let forgotten : Conn := { conn with client := conn.client.forget layout }
    have history := conn.client.forget_holds layout
    have named (current : Current) (found : forgotten.client.reconcile before layout parents = some current) :
        current.Named layout := forgotten.client.reconcile_named wellFormed found
    have lost (none_ : forgotten.client.reconcile before layout parents = none) (selected : conn.selected = true) :
        layout.sessions = [] := by
      cases current : conn.client.current with
      | none => simp [idle current] at selected
      | some found =>
        exact forgotten.client.reconcile_none wellFormed follows current (own.named found current) none_
    rw [State.settleConn, active]
    simp only
    split_ifs with moved
    · exact @setCurrent_sound _ forgotten history (by simp [forgotten, Client.forget, active]) _ named lost
    · have stays : forgotten.client.reconcile before layout parents = conn.client.current := not_not.mp moved
      exact {
        named := fun current found => named current (stays.trans found)
        bare := fun none_ selected => lost (stays.trans none_) selected
        history := history
        fresh := fun absent => by simp [Client.forget, active] at absent }

-- A state at rest: a client without a selection has had none since the layout was last empty.
structure State.Settled (state : State) : Prop extends state.Sound where
  idle : ∀ conn ∈ state.conns, conn.client.current = none → conn.selected = false

theorem changed_sound {state : State} (own : state.Settled) {document : Document}
    (wellFormed : document.layout.WellFormed) (follows : Follows state.document.layout document.layout)
    (parents : List (PaneId × PaneId)) :
    (State.changed { state with document := document } state.document.layout parents).Sound := by
  have touched (indices : List Nat) (start : State) (sound : start.Sound) :
      (indices.foldl (fun state index => (state.noteFocus index).claim index) start).Sound := by
    induction indices generalizing start with
    | nil => exact sound
    | cons index rest ih => exact ih _ (claim_sound (noteFocus_sound sound index) index)
  refine publish_sound (touched _ _ ⟨wellFormed, ?_⟩)
  intro conn member
  obtain ⟨_, settled, rfl⟩ := List.mem_map.mp member
  obtain ⟨old, there, rfl⟩ := List.mem_map.mp settled
  exact settleConn_sound wellFormed follows parents (own.conns old there) (own.idle old there)

theorem without_id {pane : PaneId} {window left : Window} (rest : window.without pane = some left) :
    left.id = window.id := by
  obtain ⟨bare, removed, rfl⟩ := Option.map_eq_some_iff.mp rest
  rw [Window.removed] at removed
  split at removed
  · cases removed
    rfl
  · split at removed <;> cases removed <;> rfl

theorem removePane_windowIds (pane : PaneId) (layout : Layout) :
    (removePane pane layout).windowIds ⊆ layout.windowIds := by
  rw [removePane]
  cases located : layout.locate pane with
  | none => exact List.Subset.refl _
  | some place =>
    have found : layout.windowList.find? (fun window => window.has pane) = some place.2 := by
      rw [← locate_window, located]
      rfl
    cases left : place.2.without pane with
    | none =>
      obtain ⟨before, after, split, same⟩ := Layout.replaceFirst_windowList (fun _ => []) found
      simp only [Option.map_some, left, Layout.windowIds, prune_windowList, same, split]
      exact List.map_subset _ (by simp)
    | some window =>
      obtain ⟨before, after, split, same⟩ := Layout.replaceFirst_windowList (fun _ => [window]) found
      simp [Layout.windowIds, left, same, split, without_id left]

-- What a removal does to the layout, before the focus of the windows is settled.
def Removed.change : Removed → Layout → Layout
  | .pane id => removePane id
  | .window id => fun layout => prune ⟨layout.sessions.map fun session =>
      { session with windows := session.windows.filter fun found => decide (found.id ≠ id) }⟩
  | .session id => fun layout => ⟨layout.sessions.filter fun found => decide (found.id ≠ id)⟩

theorem change_windowIds (what : Removed) (layout : Layout) :
    (Removed.change what layout).windowIds ⊆ layout.windowIds := by
  cases what with
  | pane id => exact removePane_windowIds id layout
  | window id =>
    simp only [Removed.change, Layout.windowIds, prune_windowList, filterWindows_windowList]
    exact List.map_subset _ List.filter_sublist.subset
  | session id => exact ((List.filter_sublist.flatMap _).map _).subset

theorem removed_correct {document after : Document} {what : Removed} {removal : Removal}
    (applied : what.apply document = (some removal, after)) :
    removal.before = document.layout ∧
      after.layout = settle document.layout (Removed.change what document.layout) := by
  cases what <;> simp only [Removed.apply, Document.removePane, Document.removeWindow, Document.removeSession] at applied <;>
    split at applied <;> cases applied <;> exact ⟨rfl, rfl⟩

theorem removed_wellFormed {document : Document} (own : document.layout.WellFormed) (what : Removed) :
    (what.apply document).2.layout.WellFormed := by
  cases what with
  | pane id => exact removePane_wellFormed own id
  | window id => exact removeWindow_wellFormed own id
  | session id => exact removeSession_wellFormed own id

theorem putWithShell_published {document after : Document} {request : PutLayout} {newWindow : Option Size}
    {shell : Option Name} {created : List (PaneId × CreatePane × Vars)}
    (put : document.putWithShell request newWindow shell = (.ok created, after))
    (published : after.unpublished = false) : after.layout = document.layout := by
  simp only [Document.putWithShell] at put
  split_ifs at put
  · cases put
  · split at put <;> cases put
    simp only [Document.replace] at published ⊢
    split_ifs at published ⊢
    rfl

theorem put_follows {document after : Document} {request : PutLayout} {newWindow : Option Size}
    {shell : Option Name} {created : List (PaneId × CreatePane × Vars)} (own : document.layout.WellFormed)
    (put : document.putWithShell request newWindow shell = (.ok created, after)) :
    after.layout.WellFormed ∧ Follows document.layout after.layout := by
  have formed := putWithShell_wellFormed own request newWindow shell
  rw [put] at formed
  exact ⟨formed, .inl fun pane member => ((putWithShell_panes put).2.2 pane).mpr (.inl member)⟩

theorem act_sound {state : State} (own : state.Settled) (op : Op) : (state.act op).Sound := by
  cases op with
  | attach =>
    refine ⟨own.layout, fun conn member => ?_⟩
    rcases List.mem_append.mp member with old | new
    · exact own.conns conn old
    · rw [List.mem_singleton.mp new]
      exact ⟨fun _ found => (by cases found), fun _ selected => (by cases selected), fun _ _ inside => (by cases inside),
        fun _ _ => rfl⟩
  | request index request =>
    simp only [State.act]
    split
    · exact serve_sound own.toSound index ‹_› request
    · exact own.toSound
  | leave index =>
    simp only [State.act]
    split
    · exact ⟨own.layout, fun conn member => own.conns conn (List.mem_of_mem_eraseIdx member)⟩
    · exact own.toSound
  | removed what parent =>
    simp only [State.act, State.remove]
    split
    · exact own.toSound
    · rename_i removal document applied
      obtain ⟨before, layout⟩ := removed_correct applied
      have formed := removed_wellFormed own.layout what
      have fewer : document.layout.windowIds ⊆ state.document.layout.windowIds := by
        rw [layout, settle_windowIds]
        exact change_windowIds what state.document.layout
      rw [applied] at formed
      rw [before]
      exact changed_sound own formed (.inr fewer) _
  | put request shell verdict =>
    simp only [State.act, State.putLayout]
    split
    · exact own.toSound
    · exact own.toSound.carried rfl own.layout (.refl _)
    · rename_i document put
      obtain ⟨formed, follows⟩ := put_follows own.layout put
      split_ifs with unpublished
      · exact changed_sound own formed follows []
      · have same := putWithShell_published put (by simpa using unpublished)
        exact own.toSound.carried rfl formed (same ▸ .refl _)

theorem settled_step {state : State} (own : state.Settled) (op : Op) : (state.step op).Settled := by
  have sound := act_sound own op
  refine ⟨⟨sound.layout, ?_⟩, ?_⟩
  · intro conn member
    obtain ⟨old, there, rfl⟩ := List.mem_map.mp member
    have before := sound.conns old there
    refine ⟨before.named, fun none_ selected => ?_, before.history, before.fresh⟩
    simp only [State.note, Bool.and_eq_true, Bool.or_eq_true] at none_ selected
    rw [none_] at selected
    exact before.bare none_ (by simpa using selected.2)
  · intro conn member none_
    obtain ⟨old, there, rfl⟩ := List.mem_map.mp member
    have before := sound.conns old there
    have nowhere : old.client.current = none := none_
    by_contra selected
    simp only [State.note, nowhere, Bool.not_eq_false, Bool.and_eq_true] at selected
    have empty := before.bare nowhere (by simpa using selected.2)
    simp [empty] at selected

theorem run_settled (ops : List Op) : (State.run ops).Settled :=
  run_invariant (P := State.Settled) ⟨⟨start_wellFormed, by simp [State.start]⟩, by simp [State.start]⟩
    (fun _ op own => settled_step own op) ops

theorem selections_name_the_layout (ops : List Op) :
    let layout := (State.run ops).document.layout
    layout.WellFormed ∧ ∀ conn ∈ (State.run ops).conns,
      (match conn.client.current with
        | some current => current.Named layout
        | none => conn.selected = false) ∧
      ∀ id, ∀ window ∈ conn.client.windowHistory id, Holds layout id window := by
  have settled := run_settled ops
  refine ⟨settled.layout, fun conn member => ⟨?_, (settled.conns conn member).history⟩⟩
  split
  · exact (settled.conns conn member).named _ ‹_›
  · exact settled.idle conn member ‹_›

-- A client selects the only session and the session goes; then another session comes.
def emptied : List Op :=
  [.attach, .put ⟨.first, singleDraft⟩ none .accepted,
    .request 0 (.hello ⟨some ⟨1⟩, none, none⟩ unsizedWindow false true),
    .removed (.session ⟨1⟩) fun _ => none, .put ⟨Revision.first.next.next, singleDraft⟩ none .accepted]

-- The selection of a client is not taken up again when the layout stops being empty.
theorem selection_stays_lost :
    ((State.run (emptied.take 3)).conns.map fun conn => (conn.client.id, conn.client.current)) =
        [(⟨1⟩, some ⟨⟨1⟩, ⟨1⟩, ⟨1⟩⟩)] ∧
      ((State.run emptied).conns.map fun conn => (conn.client.id, conn.client.current)) = [(⟨1⟩, none)] ∧
      (State.run emptied).document.layout.sessions ≠ [] := by
  have one : (State.run emptied).document.layout.sessions.length = 1 := by rfl
  exact ⟨by rfl, by rfl, List.ne_nil_of_length_pos (by omega)⟩

end Kido.Selecting
