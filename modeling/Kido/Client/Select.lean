import Kido.Layout.Reachable

set_option autoImplicit false

namespace Kido.Selecting

open Kido.Tiling

structure ClientId where
  number : Nat
deriving DecidableEq

structure Current where
  session : SessionId
  window : WindowId
  pane : PaneId
deriving DecidableEq

structure Selection where
  session : Option SessionId
  window : Option WindowId
  pane : Option PaneId
deriving DecidableEq

def Selection.default : Selection := ⟨none, none, none⟩

inductive Over where
  | window
  | session

inductive Direction where
  | next
  | previous

structure Switch where
  over_ : Over
  direction : Direction

structure Active where
  current : Option Current
  size : Size
  focused : Bool
  ignoreSize : Bool

-- A session without an entry in `window_history` has the empty history here.
structure Client where
  id : ClientId
  active : Option Active
  windowHistory : SessionId → List WindowId

inductive ClientRequest where
  | hello (selection : Selection) (size : Size) (focused ignoreSize : Bool)
  | select (selection : Selection)
  | switch (switch : Switch)
  | size (size : Size)
  | focused (focused : Bool)
  | clipboardAnswer

inductive Change where
  | hello (selection : Selection)
  | select (selection : Selection)
  | switch (switch : Switch)
  | claim
  | resize
  | nothing
  | answer

def newWindowSizer (actives : List Active) : Option Size :=
  let sizing := actives.filter fun active => !active.ignoreSize
  ((sizing.find? Active.focused).or sizing.head?).map Active.size

def claims (client : ClientId) (active : Active) (others : List (ClientId × Active)) : Bool :=
  let window := active.current.map Current.window
  let focusedElsewhere := others.any fun other =>
    decide (other.1 ≠ client) && other.2.focused && !other.2.ignoreSize &&
      decide (other.2.current.map Current.window = window)
  window.isSome && !active.ignoreSize && (active.focused || !focusedElsewhere)

def stepTo (count : Nat) (start : Option Nat) : Direction → Nat
  | .next => match start with
    | some at_ => (at_ + 1) % count
    | none => 0
  | .previous => match start with
    | some at_ => (at_ + count - 1) % count
    | none => count - 1

namespace Client

def new (id : ClientId) : Client := ⟨id, none, fun _ => []⟩

def receive (client : Client) (request : ClientRequest) : Except String Change × Client :=
  match client.active, request with
  | none, .hello selection size focused ignoreSize =>
    (.ok (.hello selection), { client with active := some ⟨none, size, focused, ignoreSize⟩ })
  | none, _ => (.error "hello must be first", client)
  | some _, .select selection =>
    if selection = .default then (.error "nothing to select", client) else (.ok (.select selection), client)
  | some _, .switch switch => (.ok (.switch switch), client)
  | some active, .size size => (.ok .resize, { client with active := some { active with size := size } })
  | some active, .focused focused =>
    (.ok (if focused then .claim else .nothing), { client with active := some { active with focused := focused } })
  | some _, .clipboardAnswer => (.ok .answer, client)
  | some _, .hello .. => (.error "hello already received", client)

def current (client : Client) : Option Current := client.active.bind Active.current

def visited (client : Client) (current : Current) : Client :=
  let others := (client.windowHistory current.session).filter fun window => decide (window ≠ current.window)
  { client with windowHistory := Function.update client.windowHistory current.session (others ++ [current.window]) }

def setCurrent (client : Client) (current : Option Current) : Client :=
  let client := { client with active := client.active.map fun active => { active with current := current } }
  match current with
  | some current => client.visited current
  | none => client

-- The window that `select` takes a session to: the last one visited there, else the first one.
def returning (client : Client) (session : Session) : Option Window :=
  (((client.windowHistory session.id).getLast?).bind fun last =>
    session.windows.find? fun window => decide (window.id = last)).or session.windows.head?

def select (client : Client) (layout : Layout) (selection : Selection) : Option Current :=
  match selection.pane with
  | some pane => (layout.locate pane).map fun found => ⟨found.1.id, found.2.id, pane⟩
  | none =>
    let found := match selection.window, selection.session with
      | some window, _ => layout.window? window
      | none, some session => (layout.session? session).bind fun session =>
          (client.returning session).map fun window => (session, window)
      | none, none => none
    found.map fun found => ⟨found.1.id, found.2.id, found.2.focus⟩

def switch (client : Client) (layout : Layout) (switch : Switch) : Option Current :=
  match switch.over_ with
  | .window =>
    let windows := layout.windowIds
    let start := client.current.bind fun current => windows.findIdx? fun window => decide (window = current.window)
    (windows[stepTo windows.length start switch.direction]?).bind fun window =>
      client.select layout { Selection.default with window := some window }
  | .session =>
    let start := client.current.bind fun current =>
      layout.sessions.findIdx? fun session => decide (session.id = current.session)
    (layout.sessions[stepTo layout.sessions.length start switch.direction]?).bind fun session =>
      client.select layout { Selection.default with session := some session.id }

def forget (client : Client) (layout : Layout) : Client :=
  { client with windowHistory := fun session => (client.windowHistory session).filter fun window =>
      (layout.window? window).any fun found => decide (found.1.id = session) }

-- The window of `before` nearest to the one that is gone, the left one first.
def survivor (before layout : Layout) (current : Current) : Option WindowId :=
  (before.windowIds.findIdx? fun window => decide (window = current.window)).bind fun at_ =>
    nearest before.windowIds.reverse (before.windowIds.length - 1 - at_) fun window => (layout.window? window).isSome

def reconcile (client : Client) (before layout : Layout) (parents : List (PaneId × PaneId)) : Option Current :=
  client.current.bind fun current =>
    let named := client.select layout
    let parent := (parents.find? fun pair => decide (pair.1 = current.pane)).map Prod.snd
    (named { Selection.default with pane := some current.pane }).or <|
      (named { Selection.default with window := some current.window }).or <|
        (parent.bind fun pane => named { Selection.default with pane := some pane }).or <|
          (named { Selection.default with window := (client.windowHistory current.session).getLast? }).or <|
            (survivor before layout current).bind fun window =>
              named { Selection.default with window := some window }

end Client

-- The session is one of the layout, the window one of the session and the pane one of the window.
def Current.Named (layout : Layout) (current : Current) : Prop :=
  ∃ session ∈ layout.sessions, session.id = current.session ∧
    ∃ window ∈ session.windows, window.id = current.window ∧ current.pane ∈ window.panes

def Holds (layout : Layout) (id : SessionId) (window : WindowId) : Prop :=
  ∃ session ∈ layout.sessions, session.id = id ∧ ∃ found ∈ session.windows, found.id = window

theorem Current.Named.holds {layout : Layout} {current : Current} (named : current.Named layout) :
    Holds layout current.session current.window := by
  obtain ⟨session, member, id, window, inside, same, _⟩ := named
  exact ⟨session, member, id, window, inside, same⟩

theorem named_of_mem {layout : Layout} {session : Session} {window : Window} {pane : PaneId}
    (member : (session, window) ∈ layout.windows) (inside : pane ∈ window.panes) :
    Current.Named layout ⟨session.id, window.id, pane⟩ := by
  obtain ⟨own, held⟩ := (layout.mem_windows_iff session window).mp member
  exact ⟨session, own, rfl, window, held, rfl, inside⟩

section Layouts

variable {layout : Layout} (wellFormed : layout.WellFormed) (client : Client)

theorem Client.returning_mem {session : Session} {window : Window} (found : client.returning session = some window) :
    window ∈ session.windows := by
  rcases Option.or_eq_some_iff.mp found with last | ⟨_, first⟩
  · obtain ⟨_, _, held⟩ := Option.bind_eq_some_iff.mp last
    exact List.mem_of_find?_eq_some held
  · exact List.mem_of_mem_head? first

theorem focus_mem {session : Session} {window : Window} (wellFormed : layout.WellFormed)
    (member : (session, window) ∈ layout.windows) : window.focus ∈ window.panes := by
  have inside := List.mem_map_of_mem (f := Prod.snd) member
  rw [Layout.windows_map_snd] at inside
  exact (wellFormed.windows window inside).focus

include wellFormed

theorem Client.select_named {selection : Selection} {current : Current}
    (found : client.select layout selection = some current) : current.Named layout := by
  rw [Client.select] at found
  cases wanted : selection.pane with
  | some pane =>
    rw [wanted] at found
    obtain ⟨place, located, rfl⟩ := Option.map_eq_some_iff.mp found
    have own := List.find?_some (p := fun found : Session × Window => found.2.has pane) located
    exact named_of_mem (List.mem_of_find?_eq_some located) ((place.2.has_iff pane).mp own)
  | none =>
    rw [wanted] at found
    obtain ⟨place, located, rfl⟩ := Option.map_eq_some_iff.mp found
    have member : place ∈ layout.windows := by
      split at located
      · exact List.mem_of_find?_eq_some located
      · obtain ⟨session, held, later⟩ := Option.bind_eq_some_iff.mp located
        obtain ⟨window, chosen, rfl⟩ := Option.map_eq_some_iff.mp later
        exact (layout.mem_windows_iff _ _).mpr ⟨List.mem_of_find?_eq_some held, client.returning_mem chosen⟩
      · cases located
    exact named_of_mem member (focus_mem wellFormed member)

theorem Client.switch_named {switch : Switch} {current : Current}
    (found : client.switch layout switch = some current) : current.Named layout := by
  rw [Client.switch] at found
  cases kind : switch.over_ <;> rw [kind] at found <;>
    obtain ⟨_, _, selected⟩ := Option.bind_eq_some_iff.mp found <;>
    exact client.select_named wellFormed selected

theorem Client.reconcile_named {before : Layout} {parents : List (PaneId × PaneId)} {current : Current}
    (found : client.reconcile before layout parents = some current) : current.Named layout := by
  obtain ⟨_, _, found⟩ := Option.bind_eq_some_iff.mp found
  rcases Option.or_eq_some_iff.mp found with pane | ⟨_, found⟩
  · exact client.select_named wellFormed pane
  rcases Option.or_eq_some_iff.mp found with window | ⟨_, found⟩
  · exact client.select_named wellFormed window
  rcases Option.or_eq_some_iff.mp found with parent | ⟨_, found⟩
  · obtain ⟨_, _, named⟩ := Option.bind_eq_some_iff.mp parent
    exact client.select_named wellFormed named
  rcases Option.or_eq_some_iff.mp found with last | ⟨_, found⟩
  · exact client.select_named wellFormed last
  · obtain ⟨_, _, named⟩ := Option.bind_eq_some_iff.mp found
    exact client.select_named wellFormed named

end Layouts

theorem Client.select_pane (client : Client) {layout : Layout} {pane : PaneId} (member : pane ∈ layout.panes) :
    (client.select layout { Selection.default with pane := some pane }).isSome = true := by
  simpa [Client.select] using (layout.locate_some_iff pane).mpr member

theorem Client.select_window (client : Client) {layout : Layout} {window : WindowId}
    (found : (layout.window? window).isSome = true) :
    (client.select layout { Selection.default with window := some window }).isSome = true := by
  simpa [Client.select, Selection.default] using found

theorem window?_isSome_iff (layout : Layout) (id : WindowId) :
    (layout.window? id).isSome = true ↔ id ∈ layout.windowIds := by
  have same := window_window layout id
  have left : (layout.window? id).isSome = ((layout.window? id).map Prod.snd).isSome := by simp
  rw [left, same, List.find?_isSome, Layout.windowIds, List.mem_map]
  simp

theorem Current.Named.window_mem {layout : Layout} {current : Current} (named : current.Named layout) :
    current.window ∈ layout.windowIds := by
  obtain ⟨session, member, _, window, inside, same, _⟩ := named
  exact List.mem_map.mpr ⟨window, (layout.mem_windowList_iff window).mpr ⟨session, member, inside⟩, same⟩

theorem Current.Named.pane_mem {layout : Layout} {current : Current} (named : current.Named layout) :
    current.pane ∈ layout.panes := by
  obtain ⟨session, member, _, window, inside, _, own⟩ := named
  exact List.mem_flatMap.mpr ⟨window, (layout.mem_windowList_iff window).mpr ⟨session, member, inside⟩, own⟩

-- A change that keeps every pane, or one that only takes windows away.
def Follows (before after : Layout) : Prop :=
  (∀ pane ∈ before.panes, pane ∈ after.panes) ∨ after.windowIds ⊆ before.windowIds

theorem Client.reconcile_none {client : Client} {before layout : Layout} {parents : List (PaneId × PaneId)}
    {current : Current} (wellFormed : layout.WellFormed) (follows : Follows before layout)
    (own : client.current = some current) (named : current.Named before)
    (lost : client.reconcile before layout parents = none) : layout.sessions = [] := by
  simp only [Client.reconcile, own, Option.bind_some, Option.or_eq_none_iff] at lost
  obtain ⟨pane, _, _, _, left⟩ := lost
  rcases follows with keeps | fewer
  · have there := client.select_pane (keeps _ named.pane_mem)
    rw [pane] at there
    cases there
  · by_contra some_
    obtain ⟨session, member⟩ := List.exists_mem_of_ne_nil _ some_
    obtain ⟨window, inside⟩ := List.exists_mem_of_ne_nil _ (wellFormed.nonempty session member)
    have kept : window.id ∈ layout.windowIds :=
      List.mem_map_of_mem ((layout.mem_windowList_iff window).mpr ⟨session, member, inside⟩)
    -- The window was there before, so the walk over the old order meets one that is still there.
    cases place : before.windowIds.findIdx? fun window => decide (window = current.window) with
    | none => simpa using List.findIdx?_eq_none_iff.mp place _ named.window_mem
    | some at_ =>
      obtain ⟨found, near⟩ := nearest_some before.windowIds.reverse (before.windowIds.length - 1 - at_)
        (fun window => (layout.window? window).isSome) window.id (List.mem_reverse.mpr (fewer kept))
        ((window?_isSome_iff layout _).mpr kept)
      have there := client.select_window (nearest_mem near).2
      rw [survivor, place, Option.bind_some, near, Option.bind_some] at left
      rw [left] at there
      cases there

theorem Client.forget_holds (client : Client) (layout : Layout) (id : SessionId) (window : WindowId)
    (member : window ∈ (client.forget layout).windowHistory id) : Holds layout id window := by
  obtain ⟨_, kept⟩ := List.mem_filter.mp member
  cases found : layout.window? window with
  | none => simp [found] at kept
  | some place =>
    obtain ⟨session, inside, same⟩ := layout.window?_mem window _ _ found
    rw [found] at kept
    exact ⟨place.1, session, by simpa using kept, place.2, inside, same⟩

theorem Client.visited_holds {client : Client} {layout : Layout} {current : Current}
    (history : ∀ id, ∀ window ∈ client.windowHistory id, Holds layout id window)
    (named : current.Named layout) :
    ∀ id, ∀ window ∈ (client.visited current).windowHistory id, Holds layout id window := by
  intro id window member
  simp only [Client.visited] at member
  by_cases own : id = current.session
  · subst own
    rw [Function.update_self] at member
    rcases List.mem_append.mp member with old | last
    · exact history _ window (List.mem_of_mem_filter old)
    · rw [List.mem_singleton.mp last]
      exact named.holds
  · rw [Function.update_of_ne own] at member
    exact history id window member

end Kido.Selecting
