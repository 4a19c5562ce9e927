import Kido.Route.Target

set_option autoImplicit false

namespace Kido.Routing

def isPlain (text : String) : Bool := text.toList.all fun char => char ∉ separators

def Segment.ok : Segment → Bool
  | .lit text => isPlain text && !isHole text
  | .param name _ => isPlain name

def Field.ok (field : Field) : Bool := isPlain field.name && (field.default.isNone || field.kind.param.absent.isNone)

def Decl.ok (decl : Decl) : Bool :=
  !decl.path.isEmpty && decl.path.all Segment.ok && decl.query.all Field.ok && decide (decl.query.map Field.name).Nodup

def differ : List Segment → List Segment → Bool
  | [], [] => false
  | .lit first :: path, .lit second :: other => first ≠ second || differ path other
  | _ :: path, _ :: other => differ path other
  | _, _ => true

-- A declaration takes no request of another: their paths differ, or their methods.
def Apart (earlier later : Decl) : Bool :=
  differ earlier.path later.path || (earlier.path = later.path && earlier.method.http ≠ later.method.http)

theorem isPlain_iff {text : String} : isPlain text = true ↔ ∀ char ∈ text.toList, char ∉ separators := by
  simp [isPlain]

section Paths

variable {path : List Segment} (ok : path.all Segment.ok = true)

include ok

theorem shapes_plain : ∀ shape ∈ path.map Segment.shape, '/' ∉ shape.toList := by
  intro shape here
  obtain ⟨segment, isSegment, rfl⟩ := List.mem_map.1 here
  have segmentOk := List.all_eq_true.1 ok segment isSegment
  cases segment with
  | lit text =>
    rw [Segment.ok, Bool.and_eq_true] at segmentOk
    exact fun slash => isPlain_iff.1 segmentOk.1 '/' slash (by decide)
  | param name base =>
    rw [Segment.ok] at segmentOk
    rw [Segment.shape, String.toList_append, String.toList_append, List.mem_append, List.mem_append]
    rintro ((front | name) | back)
    · exact absurd front (by decide)
    · exact isPlain_iff.1 segmentOk '/' name (by decide)
    · exact absurd back (by decide)

theorem parts_plain (values : PathValues path) : ∀ part ∈ pathParts path values, ∀ char ∈ part.toList, char ∉ separators := by
  induction path with
  | nil =>
    intro part here
    cases here
  | cons segment path ih =>
    rw [List.all_cons, Bool.and_eq_true] at ok
    cases segment with
    | lit text =>
      rw [pathParts]
      intro part here
      obtain rfl | later := List.mem_cons.1 here
      · have segmentOk := ok.1
        rw [Segment.ok, Bool.and_eq_true] at segmentOk
        exact isPlain_iff.1 segmentOk.1
      · exact ih ok.2 values part later
    | param name base =>
      obtain ⟨value, values⟩ := values
      rw [pathParts]
      intro part here
      obtain rfl | later := List.mem_cons.1 here
      · exact base.lawful.apart value
      · exact ih ok.2 values part later

theorem fits_own (values : PathValues path) : fits (path.map Segment.shape) (pathParts path values) = true := by
  induction path with
  | nil => rfl
  | cons segment path ih =>
    rw [List.all_cons, Bool.and_eq_true] at ok
    cases segment with
    | lit text => simp [pathParts, fits, Segment.shape, ih ok.2 values]
    | param name base =>
      obtain ⟨value, values⟩ := values
      simp [pathParts, fits, Segment.shape, isHole, ih ok.2 values]

theorem readPath_own (values : PathValues path) :
    readPath path (((pathParts path values).zip (path.map Segment.shape)).filter (fun pair => isHole pair.2) |>.map Prod.fst) =
      .ok values := by
  induction path with
  | nil => rfl
  | cons segment path ih =>
    rw [List.all_cons, Bool.and_eq_true] at ok
    cases segment with
    | lit text =>
      have segmentOk := ok.1
      rw [Segment.ok, Bool.and_eq_true, Bool.not_eq_true'] at segmentOk
      have rest := ih ok.2 values
      simp only [pathParts, List.map_cons, List.zip_cons_cons, Segment.shape]
      rw [List.filter_cons_of_neg (by rw [segmentOk.2]; exact Bool.false_ne_true), readPath]
      exact rest
    | param name base =>
      obtain ⟨value, values⟩ := values
      have rest := ih ok.2 values
      have hole : isHole ("\x7b" ++ name ++ "\x7d") = true := by simp [isHole]
      simp only [pathParts, List.map_cons, List.zip_cons_cons, Segment.shape]
      rw [List.filter_cons_of_pos (by exact hole), List.map_cons, readPath, List.headD_cons, List.tail_cons, base.lawful.inverse, rest]
      rfl

end Paths

theorem readPath_same {path other : List Segment} (ok : path.all Segment.ok = true) (same : path = other) (values : PathValues other) :
    fits (path.map Segment.shape) (pathParts other values) = true ∧ ∃ read,
      readPath path (((pathParts other values).zip (path.map Segment.shape)).filter (fun pair => isHole pair.2) |>.map Prod.fst) =
        .ok read := by
  subst same
  exact ⟨fits_own ok values, values, readPath_own ok values⟩

theorem fits_differ {earlier later : List Segment} (ok : earlier.all Segment.ok = true) (apart : differ earlier later = true)
    (values : PathValues later) : fits (earlier.map Segment.shape) (pathParts later values) = false := by
  induction earlier generalizing later with
  | nil =>
    cases later with
    | nil => cases apart
    | cons segment later => cases segment <;> rfl
  | cons segment earlier ih =>
    rw [List.all_cons, Bool.and_eq_true] at ok
    cases later with
    | nil => cases segment <;> rfl
    | cons other later =>
      cases other with
      | param name base =>
        obtain ⟨value, values⟩ := values
        have rest : differ earlier later = true := by
          cases segment <;> exact apart
        rw [pathParts, List.map_cons, fits, ih ok.2 rest values, Bool.and_false]
      | lit text =>
        cases segment with
        | param name base =>
          have rest : differ earlier later = true := apart
          rw [pathParts, List.map_cons, fits, ih ok.2 rest values, Bool.and_false]
        | lit own =>
          have segmentOk := ok.1
          rw [Segment.ok, Bool.and_eq_true, Bool.not_eq_true'] at segmentOk
          rw [differ, Bool.or_eq_true, decide_eq_true_iff] at apart
          rw [pathParts, List.map_cons, fits, Segment.shape]
          obtain here | rest := apart
          · rw [segmentOk.2, Bool.false_or, decide_eq_false (fun same => here same.symm), Bool.false_and]
          · rw [ih ok.2 rest values, Bool.and_false]

section Queries

def queryArgs : (query : List Field) → QueryValues query → List (String × String)
  | [], _ => []
  | field :: query, (value, values) =>
    if field.standing = some value then queryArgs query values
    else (field.name, field.kind.param.render value) :: queryArgs query values

theorem pushFields_eq (target : String) (query : List Field) (values : QueryValues query) :
    pushFields target query values = (queryArgs query values).foldl push target := by
  induction query generalizing target with
  | nil => rfl
  | cons field query ih =>
    obtain ⟨value, values⟩ := values
    rw [pushFields, queryArgs, pushQuery]
    by_cases standing : field.standing = some value
    · rw [if_pos standing, if_pos standing, ih]
    · rw [if_neg standing, if_neg standing, ih, List.foldl_cons]

theorem Kind.apart (kind : Kind) (value : kind.Value) : ∀ char ∈ (kind.param.render value).toList, char ∉ separators := by
  cases kind with
  | one base => exact base.lawful.apart value
  | optional base =>
    cases value with
    | none =>
      intro char here
      exact absurd here (by simp [Kind.param, Param.option])
    | some value => exact base.lawful.apart value

theorem Field.inverse {field : Field} (ok : field.ok = true) {value : field.kind.Value} (other : field.standing ≠ some value) :
    field.kind.param.parse (field.kind.param.render value) = .ok value := by
  obtain ⟨name, kind, default⟩ := field
  cases kind with
  | one base => exact base.lawful.inverse value
  | optional base =>
    cases value with
    | none =>
      rw [Field.ok, Bool.and_eq_true, Bool.or_eq_true] at ok
      obtain none_ | absent := ok.2
      · rw [Option.isNone_iff_eq_none] at none_
        rw [Field.standing] at other
        dsimp only at none_ other
        rw [none_, Option.none_or] at other
        exact absurd rfl other
      · cases absent
    | some value =>
      show (base.param.parse (base.param.render value)).map some = .ok (some value)
      rw [base.lawful.inverse]
      rfl

theorem mem_queryArgs {query : List Field} {values : QueryValues query} {pair : String × String} (here : pair ∈ queryArgs query values) :
    ∃ field ∈ query, pair.1 = field.name ∧ ∃ value, pair.2 = field.kind.param.render value := by
  induction query with
  | nil => cases here
  | cons field query ih =>
    obtain ⟨value, values⟩ := values
    rw [queryArgs] at here
    split at here
    · obtain ⟨found, isField, rest⟩ := ih here
      exact ⟨found, List.mem_cons_of_mem field isField, rest⟩
    · obtain rfl | later := List.mem_cons.1 here
      · exact ⟨field, List.mem_cons_self, rfl, value, rfl⟩
      · obtain ⟨found, isField, rest⟩ := ih later
        exact ⟨found, List.mem_cons_of_mem field isField, rest⟩

theorem queryArgs_plain {query : List Field} (ok : query.all Field.ok = true) (values : QueryValues query) :
    ∀ pair ∈ queryArgs query values, Plain pair := by
  intro pair here
  obtain ⟨field, isField, name, value, rendered⟩ := mem_queryArgs here
  have fieldOk := List.all_eq_true.1 ok field isField
  rw [Field.ok, Bool.and_eq_true] at fieldOk
  constructor
  · rw [name]
    exact isPlain_iff.1 fieldOk.1
  · rw [rendered]
    exact field.kind.apart value

theorem arg_none {args : List (String × String)} {name : String} (other : ∀ pair ∈ args, pair.1 ≠ name) : arg args name = none := by
  rw [arg, List.find?_eq_none.2 fun pair here => by simpa using other pair here, Option.map_none]

theorem arg_middle {before after : List (String × String)} {name value : String} (other : ∀ pair ∈ before, pair.1 ≠ name) :
    arg (before ++ (name, value) :: after) name = some value := by
  rw [arg, List.find?_append, List.find?_eq_none.2 fun pair here => by simpa using other pair here, Option.none_or,
    List.find?_cons_of_pos (by simp), Option.map_some]

theorem readQuery_args {query : List Field} (ok : query.all Field.ok = true) (apart : (query.map Field.name).Nodup)
    (values : QueryValues query) (before : List (String × String)) (other : ∀ pair ∈ before, ∀ field ∈ query, pair.1 ≠ field.name) :
    readQuery (before ++ queryArgs query values) query = .ok values := by
  induction query generalizing before with
  | nil => rfl
  | cons field query ih =>
    obtain ⟨value, values⟩ := values
    rw [List.all_cons, Bool.and_eq_true] at ok
    rw [List.map_cons, List.nodup_cons] at apart
    have own (pair : String × String) (here : pair ∈ before) : pair.1 ≠ field.name := other pair here field List.mem_cons_self
    have later (pair : String × String) (here : pair ∈ before) (found : Field) (isField : found ∈ query) :=
      other pair here found (List.mem_cons_of_mem field isField)
    rw [queryArgs, readQuery]
    by_cases standing : field.standing = some value
    · have missing : arg (before ++ queryArgs query values) field.name = none := by
        refine arg_none fun pair here => ?_
        obtain front | back := List.mem_append.1 here
        · exact own pair front
        · obtain ⟨found, isField, name, -⟩ := mem_queryArgs back
          rw [name]
          intro same
          exact apart.1 (same ▸ List.mem_map_of_mem isField)
      rw [if_pos standing, missing, readField, standing, ih ok.2 apart.2 values before later]
      rfl
    · have rest := ih ok.2 apart.2 values (before ++ [(field.name, field.kind.param.render value)]) fun pair here found isField => by
        obtain front | back := List.mem_append.1 here
        · exact later pair front found isField
        · rw [List.mem_singleton.1 back]
          intro same
          have isName : field.name = found.name := same
          exact apart.1 (isName ▸ List.mem_map_of_mem isField)
      rw [List.append_assoc, List.singleton_append] at rest
      rw [if_neg standing, arg_middle own, readField, field.inverse ok.1 standing, rest]
      rfl

end Queries

section Table

variable {Name : Type} {table : Name → Decl}

theorem Decl.ok_iff {decl : Decl} : decl.ok = true ↔
    decl.path ≠ [] ∧ decl.path.all Segment.ok = true ∧ decl.query.all Field.ok = true ∧ (decl.query.map Field.name).Nodup := by
  simp only [Decl.ok, Bool.and_eq_true, Bool.not_eq_true', List.isEmpty_eq_false_iff, decide_eq_true_iff, and_assoc, ne_eq]

theorem pathParts_ne_nil {path : List Segment} (some_ : path ≠ []) (values : PathValues path) : pathParts path values ≠ [] := by
  cases path with
  | nil => exact absurd rfl some_
  | cons segment path => cases segment <;> exact List.cons_ne_nil _ _

theorem parse_skip {name : Name} {names : List Name} {route : Route table} {args : List (String × String)}
    (ok : (table name).ok = true) (own : (table route.name).ok = true) (apart : Apart (table name) (table route.name) = true) :
    parse table (table route.name).method.http (joined '/' (pathParts _ route.path)) args (name :: names) =
      parse table (table route.name).method.http (joined '/' (pathParts _ route.path)) args names := by
  obtain ⟨some_, segments, -⟩ := Decl.ok_iff.1 ok
  obtain ⟨part_, parts, -⟩ := Decl.ok_iff.1 own
  have captured := captures_joined (shapes_plain segments)
    (fun part here slash => parts_plain parts route.path part here '/' slash (by decide)) (by simpa using some_)
    (pathParts_ne_nil part_ route.path)
  rw [parse, template, captured]
  rw [Apart, Bool.or_eq_true, Bool.and_eq_true, decide_eq_true_iff, decide_eq_true_iff] at apart
  obtain differ | ⟨same, method⟩ := apart
  · rw [fits_differ segments differ]
    rfl
  · obtain ⟨whole, values, read⟩ := readPath_same segments same route.path
    rw [whole, if_pos rfl]
    dsimp only
    rw [read]
    dsimp only [bind, Except.bind]
    rw [if_neg (Ne.symm method)]

theorem parse_own {name : Name} {names : List Name} {path : PathValues (table name).path} {query : QueryValues (table name).query}
    {args : List (String × String)} (ok : (table name).ok = true) (read : readQuery args (table name).query = .ok query) :
    parse table (table name).method.http (joined '/' (pathParts _ path)) args (name :: names) = .ok ⟨name, path, query⟩ := by
  obtain ⟨some_, segments, -⟩ := Decl.ok_iff.1 ok
  have captured := captures_joined (shapes_plain segments)
    (fun part here slash => parts_plain segments path part here '/' slash (by decide)) (by simpa using some_)
    (pathParts_ne_nil some_ path)
  rw [parse, template, captured, fits_own segments, if_pos rfl]
  dsimp only
  rw [readPath_own segments]
  dsimp only [bind, Except.bind]
  rw [if_pos rfl, read]

theorem parse_found {names : List Name} (ok : ∀ name, (table name).ok = true)
    (apart : names.Pairwise fun earlier later => Apart (table earlier) (table later) = true) {route : Route table}
    (here : route.name ∈ names) {args : List (String × String)} (read : readQuery args (table route.name).query = .ok route.query) :
    parse table (table route.name).method.http (joined '/' (pathParts _ route.path)) args names = .ok route := by
  induction names with
  | nil => cases here
  | cons name names ih =>
    rw [List.pairwise_cons] at apart
    obtain same | later := List.mem_cons.1 here
    · obtain ⟨own, path, query⟩ := route
      cases same
      exact parse_own (ok own) read
    · rw [parse_skip (ok name) (ok route.name) (apart.1 route.name later)]
      exact ih apart.2 later

theorem ofRequest_toRequest {names : List Name} (ok : ∀ name, (table name).ok = true)
    (apart : names.Pairwise fun earlier later => Apart (table earlier) (table later) = true) (all : ∀ name, name ∈ names)
    (route : Route table) : ofRequest table names route.toRequest.1 route.toRequest.2 = .ok route := by
  obtain ⟨-, segments, fields, names_⟩ := Decl.ok_iff.1 (ok route.name)
  have unmarked : '?' ∉ (joined '/' (pathParts (table route.name).path route.path)).toList :=
    not_mem_joined (by decide) fun part here marked => parts_plain segments route.path part here '?' marked (by decide)
  have read := readQuery_args fields names_ route.query [] fun pair here => absurd here List.not_mem_nil
  rw [ofRequest, Route.toRequest, pushFields_eq, splitTarget_push unmarked (queryArgs_plain fields route.query)]
  exact parse_found ok apart (all route.name) read

end Table

end Kido.Routing

namespace Kido.Routing

open Kido.Framing (asBytes fromUtf8)

inductive Name where
  | version
  | listPanes
  | getPane
  | getLayout
  | putLayout
  | client
  | newPane
  | patchPane
  | stopPane
  | messages
  | postMessage
  | deletePane
  | deleteWindow
  | deleteSession
  | clearHistory
  | input
  | screen
  | view
  | image
  | search
  | setVar
  | deleteVar
  | deleteVars
  | listRuntimes
  | putRuntime
  | getRuntime
  | waitRuntime
  | visitRuntime
  | upRuntime
  | downRuntime
  | exec
  | deleteRuntime
  | promptResolve
  | sendPrompt
deriving DecidableEq

def routes : List Name :=
  [.version, .listPanes, .getPane, .getLayout, .putLayout, .client, .newPane, .patchPane, .stopPane, .messages, .postMessage,
    .deletePane, .deleteWindow, .deleteSession, .clearHistory, .input, .screen, .view, .image, .search, .setVar, .deleteVar,
    .deleteVars, .listRuntimes, .putRuntime, .getRuntime, .waitRuntime, .visitRuntime, .upRuntime, .downRuntime, .exec,
    .deleteRuntime, .promptResolve, .sendPrompt]

def Name.decl : Name → Decl
  | .version => { method := .get, path := [.lit "version"] }
  | .listPanes => { method := .get, path := [.lit "panes"] }
  | .getPane => { method := .get, path := [.lit "panes", .param "id" .paneId] }
  | .getLayout => { method := .get, path := [.lit "layout"] }
  | .putLayout => { method := .put, path := [.lit "layout"] }
  | .client => { method := .ws, path := [.lit "client"] }
  | .newPane => { method := .post, path := [.lit "panes"] }
  | .patchPane => { method := .patch, path := [.lit "panes", .param "id" .paneId] }
  | .stopPane => { method := .post, path := [.lit "panes", .param "id" .paneId, .lit "stop"] }
  | .messages => { method := .ws, path := [.lit "panes", .param "id" .paneId, .lit "messages"] }
  | .postMessage => { method := .post, path := [.lit "panes", .param "id" .paneId, .lit "messages"] }
  | .deletePane => { method := .delete, path := [.lit "panes", .param "id" .paneId] }
  | .deleteWindow => { method := .delete, path := [.lit "windows", .param "id" .windowId] }
  | .deleteSession => { method := .delete, path := [.lit "sessions", .param "id" .sessionId] }
  | .clearHistory => { method := .post, path := [.lit "panes", .param "id" .paneId, .lit "clear_history"] }
  | .input => { method := .post, path := [.lit "panes", .param "id" .paneId, .lit "input"] }
  | .screen =>
    { method := .get
      path := [.lit "panes", .param "id" .paneId, .lit "screen"]
      query := [⟨"format", .one .screenFormat, some ScreenFormat.plain⟩, ⟨"history", .one .screenRows, some ScreenRows.visible⟩] }
  | .view =>
    { method := .ws
      path := [.lit "panes", .param "id" .paneId, .lit "view"]
      query := [⟨"history", .one .history, some History.none⟩, ⟨"images", .one .images, some Images.none⟩,
        ⟨"offset", .optional .offset, none⟩] }
  | .image =>
    { method := .get
      path := [.lit "panes", .param "id" .paneId, .lit "images", .param "image" .imageId, .lit "frames", .param "frame" .frameNumber]
      query := [⟨"generation", .one .generation, none⟩] }
  | .search =>
    { method := .ws
      path := [.lit "panes", .param "id" .paneId, .lit "search"]
      query := [⟨"needle", .one .needle, none⟩] }
  | .setVar => { method := .put, path := [.lit "panes", .param "id" .paneId, .lit "vars", .param "name" .varName] }
  | .deleteVar => { method := .delete, path := [.lit "panes", .param "id" .paneId, .lit "vars", .param "name" .varName] }
  | .deleteVars => { method := .delete, path := [.lit "panes", .param "id" .paneId, .lit "vars"] }
  | .listRuntimes => { method := .get, path := [.lit "runtimes"] }
  | .putRuntime => { method := .put, path := [.lit "runtimes", .param "name" .runtimeName] }
  | .getRuntime =>
    { method := .get
      path := [.lit "runtimes", .param "name" .runtimeName]
      query := [⟨"session", .optional .sessionId, none⟩] }
  | .waitRuntime =>
    { method := .get
      path := [.lit "runtimes", .param "name" .runtimeName, .lit "wait"]
      query := [⟨"timeout_ms", .one .waitMs, some WaitMs.default⟩] }
  | .visitRuntime => { method := .ws, path := [.lit "runtimes", .param "name" .runtimeName, .lit "visit"] }
  | .upRuntime =>
    { method := .post
      path := [.lit "runtimes", .param "name" .runtimeName, .lit "up"]
      query := [⟨"session", .optional .sessionId, none⟩] }
  | .downRuntime =>
    { method := .post
      path := [.lit "runtimes", .param "name" .runtimeName, .lit "down"]
      query := [⟨"session", .optional .sessionId, none⟩] }
  | .exec =>
    { method := .ws
      path := [.lit "runtimes", .param "name" .runtimeName, .lit "exec"]
      query := [⟨"session", .optional .sessionId, none⟩] }
  | .deleteRuntime =>
    { method := .delete
      path := [.lit "runtimes", .param "name" .runtimeName]
      query := [⟨"session", .optional .sessionId, none⟩] }
  | .promptResolve =>
    { method := .get
      path := [.lit "prompt", .lit "resolve"]
      query := [⟨"from", .one .paneId, none⟩, ⟨"window", .optional .windowOnly, none⟩] }
  | .sendPrompt => { method := .post, path := [.lit "prompt"] }

theorem routes_apart : routes.Pairwise fun earlier later => Apart earlier.decl later.decl = true := by
  decide +kernel

theorem mem_routes (name : Name) : name ∈ routes := by
  cases name <;> decide

theorem decl_ok (name : Name) : name.decl.ok = true := by
  have all : routes.all (fun name => name.decl.ok) = true := by decide +kernel
  exact List.all_eq_true.1 all name (mem_routes name)

-- Routes and requests are inverse, and text that is escaped is what it is decoded to.
theorem routes_inverse :
    (∀ route : Route Name.decl, ofRequest Name.decl routes route.toRequest.1 route.toRequest.2 = .ok route) ∧
    (∀ value, percentDecode (percentEncode value) = some value) ∧
    (∀ value, Escaped (asBytes value) → ∃ out, Means (asBytes value) out ∧ percentDecode value = fromUtf8 out) ∧
    ∀ value, Broken (asBytes value) → percentDecode value = none := by
  refine ⟨ofRequest_toRequest decl_ok routes_apart mem_routes, percentDecode_percentEncode, ?_, fun _ => percentDecode_broken⟩
  intro value escaped
  obtain ⟨out, means⟩ := escaped.means
  exact ⟨out, means, percentDecode_means means⟩

theorem escaped_slash : Escaped (asBytes "%2F") := by
  have bytes : asBytes "%2F" = [37, 50, 70] := rfl
  rw [bytes]
  intro place here
  match place with
  | 0 => exact ⟨50, 70, rfl, rfl, by decide, by decide⟩
  | 1 => exact absurd here (by decide)
  | 2 => exact absurd here (by decide)
  | place + 3 => cases here

theorem slash_inverse : (∃ out, Means (asBytes "%2F") out ∧ percentDecode "%2F" = fromUtf8 out) ∧ percentDecode "%" = none :=
  ⟨routes_inverse.2.2.1 "%2F" escaped_slash, routes_inverse.2.2.2 "%" ⟨0, rfl, fun _ _ second _ => by
    have none_ : (asBytes "%")[0 + 1]? = none := rfl
    rw [none_] at second
    cases second⟩⟩

-- A string whose escaped bytes are no text is not decoded, and a sign is taken for a digit.
theorem percent_decode_differs :
    (Escaped (asBytes "%FF") ∧ percentDecode "%FF" = none) ∧ ¬Escaped (asBytes "%+A") ∧ percentDecode "%+A" = some "\n" := by
  have bytes : asBytes "%FF" = [37, 70, 70] := rfl
  have signed : asBytes "%+A" = [37, 43, 65] := rfl
  refine ⟨⟨?_, rfl⟩, ?_, rfl⟩
  · rw [bytes]
    intro place here
    match place with
    | 0 => exact ⟨70, 70, rfl, rfl, by decide, by decide⟩
    | 1 => exact absurd here (by decide)
    | 2 => exact absurd here (by decide)
    | place + 3 => cases here
  · rw [signed]
    intro escaped
    obtain ⟨high, low, isHigh, -, digit, -⟩ := escaped 0 rfl
    cases isHigh
    exact absurd digit (by decide)

end Kido.Routing
