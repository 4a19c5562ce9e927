import Kido.Sweep.World

set_option autoImplicit false

namespace Kido.Sweeping

open Kido.Tiling Kido.Selecting
open Kido.Editing (Removed Verdict)

structure Houses (before after : Document) : Prop where
  ids : after.ids = before.ids
  formed : before.layout.WellFormed → after.layout.WellFormed
  panes : before.layout.WellFormed → ∀ pane, pane ∈ after.layout.panes ↔ pane ∈ before.layout.panes

theorem Houses.refl (document : Document) : Houses document document := ⟨rfl, id, fun _ _ => Iff.rfl⟩

theorem Houses.trans {first second third : Document} (one : Houses first second) (two : Houses second third) : Houses first third where
  ids := two.ids.trans one.ids
  formed := two.formed ∘ one.formed
  panes formed pane := (two.panes (one.formed formed) pane).trans (one.panes formed pane)

theorem publish_houses (document : Document) : Houses document document.publish where
  ids := publish_ids document
  formed formed := (publish_layout document).symm ▸ formed
  panes _ pane := by rw [publish_layout]

theorem focus_houses (document : Document) (id : WindowId) (pane : PaneId) : Houses document (document.focus id pane).2 where
  ids := after_ids [] document (.focus id pane) fun _ _ _ => nofun
  formed formed := focus_wellFormed formed id pane
  panes _ other := by
    have same := window_window document.layout id
    rw [Document.focus]
    split
    · rfl
    · next found there =>
      rw [there] at same
      split_ifs
      · exact (Layout.replaceFirst_perm same.symm (fun window => { window with focus := pane }) (.refl _)).mem_iff
      · rfl

section State

variable (state : State)

theorem noteFocus_houses (index : Nat) : Houses state.document (state.noteFocus index).document := by
  rw [State.noteFocus]
  split
  · exact focus_houses _ _ _
  · exact .refl _

theorem sizeWindow_houses (window : WindowId) (size : Size) :
    Houses state.document (state.sizeWindow window size).2.document where
  ids := after_ids [] state.document (.resizeWindow window size.cols size.rows size.cellPx) fun _ _ _ => nofun
  formed formed := resizeWindow_wellFormed formed _ _ _ _
  panes formed pane := by
    have same := window_window state.document.layout window
    simp only [State.sizeWindow, Document.resizeWindow]
    split
    · rfl
    · next found there =>
      rw [there] at same
      obtain ⟨_, _, panes⟩ := resize_wellFormed (formed.windows found (List.mem_of_find?_eq_some same.symm)) (size.cols.get, size.rows.get)
        size.cols.bound size.rows.bound size.cellPx
      split_ifs
      · exact (Layout.replaceFirst_perm same.symm (fun _ => (resize found (size.cols.get, size.rows.get) size.cellPx).2) panes).mem_iff
      · rfl

theorem claim_houses (index : Nat) : Houses state.document (state.claim index).document := by
  rw [State.claim]
  split
  · exact .refl _
  · split
    · exact .refl _
    · split_ifs
      · exact sizeWindow_houses _ _ _
      · exact .refl _

theorem claimed_houses (index : Nat) : Houses state.document ((state.noteFocus index).claim index).document :=
  (noteFocus_houses state index).trans (claim_houses _ index)

theorem arrive_houses (index : Nat) : Houses state.document (state.arrive index).document :=
  (claimed_houses state index).trans (publish_houses _)

theorem enter_houses (index : Nat) (current : Option Current) : Houses state.document (state.enter index current).document :=
  arrive_houses { state with conns := state.conns.modify index fun conn => { conn with client := conn.client.setCurrent current } } index

theorem changed_houses (before : Layout) (parents : List (PaneId × PaneId)) : Houses state.document (state.changed before parents).document := by
  have claimed (indices : List Nat) (other : State) :
      Houses other.document (indices.foldl (fun state index => (state.noteFocus index).claim index) other).document := by
    induction indices generalizing other with
    | nil => exact .refl _
    | cons index rest ih => exact (claimed_houses other index).trans (ih _)
  let settled : State := { state with
    sizers := fun window => if (state.document.layout.window? window).isSome then state.sizers window else none
    conns := (state.conns.map (State.settleConn before state.document.layout parents)).map Prod.fst }
  exact (claimed _ settled).trans (publish_houses _)

end State

-- A client that a request does not let act keeps what it shows.
theorem receive_focus {conn : Conn} {request : ClientRequest} {change : Except String Change} {client : Client}
    (received : conn.client.receive request = (change, client))
    (other : ∀ selection, change ≠ .ok (.hello selection)) (quiet : change ≠ .ok .claim ∧ change ≠ .ok .nothing) :
    focusedPane { conn with client := client } = focusedPane conn := by
  revert received
  cases active : conn.client.active <;> cases request <;> simp only [Client.receive, active]
  all_goals intro received
  case none.hello selection size focused ignoreSize => exact absurd (congrArg Prod.fst received).symm (other selection)
  case some.focused here focused =>
    cases focused with
    | true => exact absurd (congrArg Prod.fst received).symm quiet.1
    | false => exact absurd (congrArg Prod.fst received).symm quiet.2
  case some.size here size =>
    obtain rfl := congrArg Prod.snd received
    simp only [focusedPane, active]
    cases focused : here.focused <;> simp [Option.filter, focused]
  case some.select here selection =>
    split_ifs at received
    · obtain rfl := congrArg Prod.snd received
      rfl
    · obtain rfl := congrArg Prod.snd received
      rfl
  all_goals
    obtain rfl := congrArg Prod.snd received
    rfl

theorem set_focused {state : State} {index : Nat} {conn changed : Conn} (found : state.conns[index]? = some conn)
    (same : focusedPane changed = focusedPane conn) : (state.conns.set index changed).filterMap focusedPane = focusedPanes state := by
  obtain ⟨short, is⟩ := List.getElem?_eq_some_iff.mp found
  have kept : (state.conns.map focusedPane).set index (focusedPane conn) = state.conns.map focusedPane := by
    rw [← is, ← List.getElem_map focusedPane (h := by simpa using short)]
    exact List.set_getElem_self _
  have all (conns : List Conn) : conns.filterMap focusedPane = (conns.map focusedPane).filterMap id := by
    rw [List.filterMap_map]
    rfl
  rw [focusedPanes, all, all, List.map_set, same, kept]

theorem serve_kept {state : State} {index : Nat} {conn : Conn} (found : state.conns[index]? = some conn) (request : ClientRequest) :
    Houses state.document (state.serve index conn request).document ∧
      (refocuses state conn request = false → focusedPanes (state.serve index conn request) = focusedPanes state) := by
  rw [State.serve, refocuses]
  generalize answered : conn.client.receive request = answer
  obtain ⟨change, client⟩ := answer
  let served : State := { state with conns := state.conns.set index { conn with client := client } }
  have quiet (other : ∀ selection, change ≠ .ok (.hello selection)) (still : change ≠ .ok .claim ∧ change ≠ .ok .nothing) :
      focusedPanes served = focusedPanes state := set_focused found (receive_focus answered other still)
  cases change with
  | error _ => exact ⟨.refl _, fun _ => quiet (by simp) (by simp)⟩
  | ok change =>
    cases change with
    | hello selection => exact ⟨enter_houses served index _, by simp⟩
    | select selection =>
      cases chosen : client.select state.document.layout selection with
      | none => simpa [chosen] using ⟨.refl _, quiet (by simp) (by simp)⟩
      | some current =>
        simp only [chosen, Option.isSome_some]
        exact ⟨enter_houses served index (some current), by simp⟩
    | switch switch =>
      cases chosen : client.switch state.document.layout switch with
      | none => simpa [chosen] using ⟨.refl _, quiet (by simp) (by simp)⟩
      | some current =>
        simp only [chosen, Option.isSome_some]
        exact ⟨enter_houses served index (some current), by simp⟩
    | claim => exact ⟨arrive_houses served index, by simp⟩
    | resize =>
      have still := quiet (by simp) (by simp)
      simp only
      split
      · split_ifs
        · exact ⟨(sizeWindow_houses served _ _).trans (publish_houses _), fun _ => still⟩
        · exact ⟨sizeWindow_houses served _ _, fun _ => still⟩
        · exact ⟨.refl _, fun _ => still⟩
      · exact ⟨.refl _, fun _ => still⟩
    | nothing => exact ⟨.refl _, by simp⟩
    | answer => exact ⟨.refl _, fun _ => quiet (by simp) (by simp)⟩

theorem remove_there {document : Document} {id : PaneId} (there : id ∈ document.layout.panes) :
    ∃ removal after, (Removed.pane id).apply document = (some removal, after) := by
  obtain ⟨found, located⟩ := Option.isSome_iff_exists.mp ((document.layout.locate_some_iff id).mpr there)
  exact ⟨_, _, by simp only [Removed.apply, Document.removePane, located]; rfl⟩

theorem remove_gone {document : Document} {id : PaneId} (gone : id ∉ document.layout.panes) :
    (Removed.pane id).apply document = (none, document) := by
  have none_ : document.layout.locate id = none :=
    Option.not_isSome_iff_eq_none.mp fun found => gone ((document.layout.locate_some_iff id).mp found)
  simp only [Removed.apply, Document.removePane, none_]

end Kido.Sweeping
