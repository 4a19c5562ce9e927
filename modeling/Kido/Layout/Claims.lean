import Kido.Layout.Place
import Kido.Shared.Outcome
import Kido.Shared.Register

set_option autoImplicit false

namespace Kido.Tiling

open Kido.Shared

-- What `normalize` carries while it walks a draft: `Claims` and the two sets of ids it has met.
structure Claims where
  current : Layout
  shell : Option Name
  seen : List PaneId
  ids : Ids
  created : List (PaneId × CreatePane × Vars)
  sessionIds : List SessionId
  windowIds : List WindowId

def firstWord (command : String) : Option String :=
  match (command.toList.dropWhile isWhitespace).takeWhile fun char => !isWhitespace char with
  | [] => none
  | word => some (String.ofList word)

def fileName (path : String) : Option String :=
  match ((path.splitOn "/").filter fun part => part ≠ "" && part ≠ ".").getLast? with
  | some ".." => none
  | found => found

def baseName (word : String) : Option Name := (fileName word).bind Name.ofString?

namespace Claims

def defaultName (claims : Claims) : PaneRef → Option Name
  | .existing pane =>
    match claims.current.locate pane with
    | some (_, window) => some window.name
    | none => claims.shell
  | .new request =>
    match request.command with
    | none => claims.shell
    | some (.argv argv) => (argv.head?.bind baseName).or claims.shell
    | some (.shell command) => ((firstWord command).bind baseName).or claims.shell

def see (claims : Claims) (pane : PaneId) : Except String (PaneId × Claims) :=
  if pane ∈ claims.seen then .error s!"{pane.text} is in the layout twice"
  else .ok (pane, { claims with seen := claims.seen ++ [pane] })

def minted (claims : Claims) (request : CreatePane) (vars : Vars) : Claims :=
  { claims with
    ids := claims.ids.mintPane.2
    created := claims.created ++ [(claims.ids.mintPane.1, { request with vars := .empty }, vars)] }

def pane (reference : PaneRef) (claims : Claims) : Except String (PaneId × Claims) :=
  match reference with
  | .existing pane =>
    if pane ∈ claims.current.panes then claims.see pane else .error s!"{pane.text} is not a live pane"
  | .new request => do
    let vars ← Vars.checked request.vars
    (claims.minted request vars).see claims.ids.mintPane.1

def leaf (leaf : DraftLeaf) (claims : Claims) : Except String (Node Raw × Claims) := do
  let (pane, claims) ← claims.pane leaf.pane
  .ok (.leaf ⟨pane, leaf.cols.map Cells.get, leaf.rows.map Cells.get⟩, claims)

def split (split : Axis) (children : List (Claims → Except String (Node Raw × Claims))) (claims : Claims) :
    Except String (Node Raw × Claims) := do
  let (children, claims) ← runAll children claims
  match children with
  | [] => .error "a split needs a child"
  | [only] => .ok (only, claims)
  | children => .ok (.split split children, claims)

def node : Node DraftLeaf → Claims → Except String (Node Raw × Claims) := Node.fold leaf split

def float (float : DraftFloat) (claims : Claims) : Except String (FloatIn × Claims) := do
  let (pane, claims) ← claims.pane float.pane
  .ok ({
    pane := pane
    x := float.x
    y := float.y
    cols := float.cols.map Cells.get
    rows := float.rows.map Cells.get
    z := float.z
    border := float.border
    title := float.title }, claims)

end Claims

-- The register laws of all three kinds of ids, for the panes, windows and sessions that a part of the walk
-- took in.
structure Grows (before : Claims) (panes : List PaneId) (windows : List WindowId) (sessions : List SessionId)
    (after : Claims) : Prop where
  current : after.current = before.current
  shell : after.shell = before.shell
  panes : ∃ created, after.created = before.created ++ created ∧
    Registers PaneId.number u64Max (· ∈ before.current.panes) before.ids.pane.value after.ids.pane.value
      before.seen panes (created.map Prod.fst) after.seen
  windows : ∃ minted, Registers WindowId.number u64Max (fun id => (before.current.window? id).isSome)
    before.ids.window.value after.ids.window.value before.windowIds windows minted after.windowIds
  sessions : ∃ minted, Registers SessionId.number u64Max (fun id => (before.current.session? id).isSome)
    before.ids.session.value after.ids.session.value before.sessionIds sessions minted after.sessionIds

namespace Grows

theorem refl (claims : Claims) : Grows claims [] [] [] claims where
  current := rfl
  shell := rfl
  panes := ⟨[], by simp, .refl claims.ids.pane.bound claims.seen⟩
  windows := ⟨[], .refl claims.ids.window.bound claims.windowIds⟩
  sessions := ⟨[], .refl claims.ids.session.bound claims.sessionIds⟩

theorem trans {before middle after : Claims} {panes panes' : List PaneId} {windows windows' : List WindowId}
    {sessions sessions' : List SessionId} (first : Grows before panes windows sessions middle)
    (second : Grows middle panes' windows' sessions' after) :
    Grows before (panes ++ panes') (windows ++ windows') (sessions ++ sessions') after := by
  have current := first.current
  have same := second.panes
  have same₁ := second.windows
  have same₂ := second.sessions
  rw [current] at same same₁ same₂
  obtain ⟨created, list, register⟩ := first.panes
  obtain ⟨created', list', register'⟩ := same
  obtain ⟨minted, windowRegister⟩ := first.windows
  obtain ⟨minted', windowRegister'⟩ := same₁
  obtain ⟨minted₂, sessionRegister⟩ := first.sessions
  obtain ⟨minted₃, sessionRegister'⟩ := same₂
  exact {
    current := second.current.trans current
    shell := second.shell.trans first.shell
    panes := ⟨created ++ created', by rw [list', list, List.append_assoc],
      by rw [List.map_append]; exact register.trans register'⟩
    windows := ⟨minted ++ minted', windowRegister.trans windowRegister'⟩
    sessions := ⟨minted₂ ++ minted₃, sessionRegister.trans sessionRegister'⟩ }

theorem perm {before after : Claims} {panes panes' : List PaneId} {windows : List WindowId}
    {sessions : List SessionId} (grows : Grows before panes windows sessions after) (same : panes.Perm panes') :
    Grows before panes' windows sessions after :=
  { grows with
    panes := by
      obtain ⟨created, list, register⟩ := grows.panes
      exact ⟨created, list, register.perm same⟩ }

end Grows

namespace Claims

theorem see_ok_iff {claims after : Claims} {pane found : PaneId} :
    claims.see pane = .ok (found, after) ↔
      pane ∉ claims.seen ∧ found = pane ∧ after = { claims with seen := claims.seen ++ [pane] } := by
  rw [see, guard_ok_iff, Except.ok.injEq, Prod.mk.injEq]
  constructor
  · rintro ⟨absent, rfl, rfl⟩
    exact ⟨absent, rfl, rfl⟩
  · rintro ⟨absent, rfl, rfl⟩
    exact ⟨absent, rfl, rfl⟩

theorem pane_grows {reference : PaneRef} {claims after : Claims} {pane : PaneId}
    (claimed : Claims.pane reference claims = .ok (pane, after)) : Grows claims [pane] [] [] after := by
  match reference with
  | .existing existing =>
    obtain ⟨live, seen⟩ := accept_ok_iff.mp claimed
    obtain ⟨absent, rfl, rfl⟩ := see_ok_iff.mp seen
    exact { Grows.refl claims with
      panes := ⟨[], by simp, .named claims.ids.pane.bound claims.seen pane live absent⟩ }
  | .new request =>
    obtain ⟨vars, checked, seen⟩ := bind_ok_iff.mp claimed
    obtain ⟨absent, rfl, rfl⟩ := see_ok_iff.mp seen
    exact { Grows.refl claims with
      panes := ⟨[(claims.ids.mintPane.1, { request with vars := .empty }, vars)], rfl,
        .mint claims.ids.pane.bound claims.seen claims.ids.mintPane.1 rfl absent⟩ }

theorem node_leaf (tile : DraftLeaf) : node (.leaf tile) = leaf tile := by
  simp [node]

theorem node_split (axis : Axis) (children : List (Node DraftLeaf)) :
    node (.split axis children) = split axis (children.map node) := by
  simp [node]

theorem node_grows (draft : Node DraftLeaf) {claims after : Claims} {raw : Node Raw}
    (claimed : node draft claims = .ok (raw, after)) :
    Branching raw ∧ Grows claims (raw.leaves.map Raw.pane) [] [] after := by
  induction draft generalizing claims after raw with
  | leaf tile =>
    rw [node_leaf, leaf, bind_ok_iff] at claimed
    obtain ⟨⟨pane, middle⟩, found, same⟩ := claimed
    cases same
    exact ⟨.leaf _, by simpa using pane_grows found⟩
  | split axis children ih =>
    rw [node_split, split, bind_ok_iff] at claimed
    obtain ⟨⟨raws, middle⟩, run, same⟩ := claimed
    have steps : ∀ step ∈ children.map node, ∀ state value next, step state = .ok (value, next) →
        Branching value ∧ Grows state (value.leaves.map Raw.pane) [] [] next := by
      intro step member state value next stepped
      obtain ⟨child, inside, rfl⟩ := List.mem_map.mp member
      exact ih child inside stepped
    have branching := runAll_values (fun step member state value next stepped =>
      (steps step member state value next stepped).1) run
    have grows : Grows claims (raws.flatMap fun value => value.leaves.map Raw.pane) [] [] middle := by
      refine runAll_related (R := fun state values next =>
        Grows state (values.flatMap fun value : Node Raw => value.leaves.map Raw.pane) [] [] next)
        Grows.refl ?_ ?_ run
      · intro state next last value values first rest
        simpa using first.trans rest
      · intro step member state value next stepped
        simpa using (steps step member state value next stepped).2
    rcases raws with _ | ⟨first, _ | ⟨second, rest⟩⟩
    · cases same
    · cases same
      exact ⟨branching raw (by simp), by simpa using grows⟩
    · cases same
      refine ⟨.split axis _ (by simp) branching, ?_⟩
      rw [Node.leaves_split, List.map_flatMap]
      exact grows

theorem float_grows {draft : DraftFloat} {claims after : Claims} {input : FloatIn}
    (claimed : float draft claims = .ok (input, after)) : Grows claims [input.pane] [] [] after := by
  obtain ⟨⟨pane, middle⟩, found, same⟩ := bind_ok_iff.mp claimed
  cases same
  exact pane_grows found

theorem floats_grow {drafts : List DraftFloat} {claims after : Claims} {inputs : List FloatIn}
    (claimed : runAll (drafts.map float) claims = .ok (inputs, after)) :
    Grows claims (inputs.map FloatIn.pane) [] [] after := by
  refine runAll_related (R := fun state values next => Grows state (values.map FloatIn.pane) [] [] next)
    Grows.refl ?_ ?_ claimed
  · intro state next last value values first rest
    simpa using first.trans rest
  · intro step member state value next stepped
    obtain ⟨draft, _, rfl⟩ := List.mem_map.mp member
    exact float_grows stepped

end Claims

end Kido.Tiling
