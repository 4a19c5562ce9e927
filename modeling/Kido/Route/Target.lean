import Kido.Route.Params

set_option autoImplicit false

namespace Kido.Routing

def split (separator : Char) (text : String) : List String := (text.toList.splitOn separator).map String.ofList

def splitPair (pair : String) : Except Invalid (String × String) :=
  match split '=' pair with
  | [key, value] => .ok (key, value)
  | _ => .error (.message "invalid query")

def splitTarget (target : String) : Except Invalid (String × List (String × String)) :=
  match split '?' target with
  | [path] => .ok (path, [])
  | [path, query] => ((split '&' query).mapM splitPair).map fun args => (path, args)
  | _ => .error (.message "invalid target")

def arg (query : List (String × String)) (name : String) : Option String :=
  (query.find? fun pair => pair.1 = name).map Prod.snd

def isHole (shape : String) : Bool := shape.toList.head? = some '{'

def fits : List String → List String → Bool
  | [], parts => parts.isEmpty
  | _ :: _, [] => false
  | shape :: shapes, part :: parts => (isHole shape || part = shape) && fits shapes parts

def captures (template path : String) : Option (List String) :=
  match stripFront "/" path, stripFront "/" template with
  | some parts, some shapes =>
    if fits (split '/' shapes) (split '/' parts) then
      some ((((split '/' path).drop 1).zip ((split '/' template).drop 1)).filter (fun pair => isHole pair.2) |>.map Prod.fst)
    else none
  | _, _ => none

def joined (separator : Char) (parts : List String) : String :=
  parts.foldr (fun part rest => String.ofList [separator] ++ part ++ rest) ""

section Split

theorem split_single {separator : Char} {text : String} (none_ : separator ∉ text.toList) : split separator text = [text] := by
  rw [split, List.splitOn_eq_singleton none_, List.map_singleton, String.ofList_toList]

theorem split_cons {separator : Char} {text : String} (none_ : separator ∉ text.toList) (rest : String) :
    split separator (text ++ String.ofList [separator] ++ rest) = text :: split separator rest := by
  have list : (text ++ String.ofList [separator] ++ rest).toList = text.toList ++ separator :: rest.toList := by simp
  rw [split, list, List.splitOn_append_cons_self_of_not_mem none_, List.map_cons, String.ofList_toList]
  rfl

theorem splitPair_pair {key value : String} (plainKey : '=' ∉ key.toList) (plainValue : '=' ∉ value.toList) :
    splitPair (key ++ "=" ++ value) = .ok (key, value) := by
  have sides : split '=' (key ++ "=" ++ value) = [key, value] := by
    have rest := split_single plainValue
    rw [← rest]
    exact split_cons plainKey value
  rw [splitPair, sides]

theorem joined_cons (separator : Char) (part : String) (parts : List String) :
    joined separator (part :: parts) = String.ofList [separator] ++ part ++ joined separator parts := rfl

theorem not_mem_joined {char separator : Char} (other : char ≠ separator) {parts : List String}
    (none_ : ∀ part ∈ parts, char ∉ part.toList) : char ∉ (joined separator parts).toList := by
  induction parts with
  | nil => exact List.not_mem_nil
  | cons part parts ih =>
    rw [joined_cons, String.toList_append, String.toList_append, List.mem_append, List.mem_append, String.toList_ofList]
    rintro ((same | here) | later)
    · exact other (List.mem_singleton.1 same)
    · exact none_ part List.mem_cons_self here
    · exact ih (fun part here => none_ part (List.mem_cons_of_mem _ here)) later

theorem split_parts {separator : Char} {part : String} {parts : List String}
    (none_ : ∀ other ∈ part :: parts, separator ∉ other.toList) :
    split separator (part ++ joined separator parts) = part :: parts := by
  have plainPart := none_ part List.mem_cons_self
  induction parts generalizing part with
  | nil =>
    have whole : part ++ joined separator [] = part := by simp [joined]
    rw [whole, split_single plainPart]
  | cons next parts ih =>
    have rest (other : String) (here : other ∈ next :: parts) := none_ other (List.mem_cons_of_mem part here)
    have whole : part ++ joined separator (next :: parts) =
        part ++ String.ofList [separator] ++ (next ++ joined separator parts) := by
      simp only [joined_cons, String.append_assoc]
    rw [whole, split_cons plainPart, ih rest (rest next List.mem_cons_self)]

theorem split_joined {parts : List String} (none_ : ∀ part ∈ parts, '/' ∉ part.toList) :
    split '/' (joined '/' parts) = "" :: parts := by
  cases parts with
  | nil => rfl
  | cons part parts =>
    have whole : joined '/' (part :: parts) = "" ++ String.ofList ['/'] ++ (part ++ joined '/' parts) := by
      simp [joined_cons, String.append_assoc]
    rw [whole, split_cons (by decide), split_parts none_]

theorem stripFront_joined (part : String) (parts : List String) :
    stripFront "/" (joined '/' (part :: parts)) = some (part ++ joined '/' parts) := by
  have slash : String.ofList ['/'] = "/" := rfl
  rw [joined_cons, String.append_assoc, slash, stripFront_append]

end Split

section Captures

theorem captures_joined {shapes parts : List String} (noShape : ∀ shape ∈ shapes, '/' ∉ shape.toList)
    (noPart : ∀ part ∈ parts, '/' ∉ part.toList) (some_ : shapes ≠ []) (part_ : parts ≠ []) :
    captures (joined '/' shapes) (joined '/' parts) =
      if fits shapes parts then some ((parts.zip shapes).filter (fun pair => isHole pair.2) |>.map Prod.fst) else none := by
  cases shapes with
  | nil => exact absurd rfl some_
  | cons shape shapes =>
    cases parts with
    | nil => exact absurd rfl part_
    | cons part parts =>
      rw [captures, stripFront_joined, stripFront_joined]
      dsimp only
      rw [split_parts noShape, split_parts noPart, split_joined noShape, split_joined noPart]
      rfl

end Captures

section Args

def shown (pair : String × String) : String := pair.1 ++ "=" ++ pair.2

def push (target : String) (pair : String × String) : String :=
  target.push (if target.toList.contains '?' then '&' else '?') ++ pair.1 ++ "=" ++ pair.2

structure Plain (pair : String × String) : Prop where
  key : ∀ char ∈ pair.1.toList, char ∉ separators
  value : ∀ char ∈ pair.2.toList, char ∉ separators

theorem Plain.not_mem_shown {pair : String × String} (plain : Plain pair) {char : Char} (separator : char ∈ separators) (other : char ≠ '=') :
    char ∉ (shown pair).toList := by
  rw [shown, String.toList_append, String.toList_append, List.mem_append, List.mem_append]
  rintro ((key | equals) | value)
  · exact plain.key char key separator
  · exact other (List.mem_singleton.1 equals)
  · exact plain.value char value separator

theorem Plain.split_shown {pair : String × String} (plain : Plain pair) : splitPair (shown pair) = .ok pair :=
  splitPair_pair (fun here => plain.key '=' here (by decide)) (fun here => plain.value '=' here (by decide))

theorem push_more {target : String} (marked : '?' ∈ target.toList) (args : List (String × String)) :
    args.foldl push target = target ++ joined '&' (args.map shown) := by
  induction args generalizing target with
  | nil => simp [joined]
  | cons pair args ih =>
    have pushed : push target pair = target ++ (String.ofList ['&'] ++ shown pair) := by
      rw [push, if_pos (List.contains_iff_mem.2 marked), shown]
      simp [← String.toList_inj]
    rw [List.foldl_cons, ih (by rw [pushed, String.toList_append]; exact List.mem_append_left _ marked), pushed, List.map_cons, joined_cons]
    simp [String.append_assoc]

theorem push_first {target : String} (unmarked : '?' ∉ target.toList) (pair : String × String) (args : List (String × String)) :
    (pair :: args).foldl push target = target ++ String.ofList ['?'] ++ (shown pair ++ joined '&' (args.map shown)) := by
  have pushed : push target pair = target ++ String.ofList ['?'] ++ shown pair := by
    rw [push, if_neg (fun marked => unmarked (List.contains_iff_mem.1 marked)), shown]
    simp [← String.toList_inj]
  have marked : '?' ∈ (push target pair).toList := by
    rw [pushed]
    simp
  rw [List.foldl_cons, push_more marked, pushed, String.append_assoc]

theorem mapM_splitPair {args : List (String × String)} (plain : ∀ pair ∈ args, Plain pair) : (args.map shown).mapM splitPair = .ok args := by
  induction args with
  | nil => rfl
  | cons pair args ih =>
    rw [List.map_cons, List.mapM_cons, (plain pair List.mem_cons_self).split_shown,
      ih fun other here => plain other (List.mem_cons_of_mem pair here)]
    rfl

theorem splitTarget_push {path : String} {args : List (String × String)} (unmarked : '?' ∉ path.toList)
    (plain : ∀ pair ∈ args, Plain pair) : splitTarget (args.foldl push path) = .ok (path, args) := by
  cases args with
  | nil => rw [List.foldl_nil, splitTarget, split_single unmarked]
  | cons pair args =>
    have noPart {char : Char} (separator : char ∈ separators) (other : char ≠ '=') :
        ∀ part ∈ (pair :: args).map shown, char ∉ part.toList := by
      intro part here
      obtain ⟨found, isArg, rfl⟩ := List.mem_map.1 here
      exact (plain found isArg).not_mem_shown separator other
    have query : '?' ∉ (shown pair ++ joined '&' (args.map shown)).toList := by
      rw [String.toList_append, List.mem_append, not_or]
      have whole := @noPart '?' (by decide) (by decide)
      exact ⟨whole _ List.mem_cons_self, not_mem_joined (by decide) fun part here => whole part (List.mem_cons_of_mem _ here)⟩
    have pairs := mapM_splitPair plain
    rw [push_first unmarked, splitTarget, split_cons unmarked, split_single query]
    dsimp only
    rw [split_parts (noPart (by decide) (by decide)), ← List.map_cons, pairs]
    rfl

end Args

end Kido.Routing

namespace Kido.Routing

inductive Method where
  | get
  | put
  | post
  | patch
  | delete
deriving DecidableEq

def Method.ws : Method := .get

def Method.http : Method → String
  | .get => "GET"
  | .put => "PUT"
  | .post => "POST"
  | .patch => "PATCH"
  | .delete => "DELETE"

inductive Segment where
  | lit (text : String)
  | param (name : String) (base : Base)
deriving DecidableEq

structure Field where
  name : String
  kind : Kind
  default : Option kind.Value := none

structure Decl where
  method : Method
  path : List Segment
  query : List Field := []

@[reducible]
def PathValues : List Segment → Type
  | [] => Unit
  | .lit _ :: path => PathValues path
  | .param _ base :: path => base.Value × PathValues path

@[reducible]
def QueryValues : List Field → Type
  | [] => Unit
  | field :: query => field.kind.Value × QueryValues query

def Segment.shape : Segment → String
  | .lit text => text
  | .param name _ => "\x7b" ++ name ++ "\x7d"

def template (path : List Segment) : String := joined '/' (path.map Segment.shape)

def pathParts : (path : List Segment) → PathValues path → List String
  | [], _ => []
  | .lit text :: path, values => text :: pathParts path values
  | .param _ base :: path, (value, values) => base.param.render value :: pathParts path values

def Field.standing (field : Field) : Option field.kind.Value := field.default.or field.kind.param.absent

def pushQuery (target : String) (field : Field) (value : field.kind.Value) : String :=
  if field.standing = some value then target else push target (field.name, field.kind.param.render value)

def pushFields (target : String) : (query : List Field) → QueryValues query → String
  | [], _ => target
  | field :: query, (value, values) => pushFields (pushQuery target field value) query values

def readPath : (path : List Segment) → List String → Except Invalid (PathValues path)
  | [], _ => .ok ()
  | .lit _ :: path, captured => readPath path captured
  | .param _ base :: path, captured => do
    let value ← base.param.parse (captured.headD "")
    let values ← readPath path captured.tail
    .ok (value, values)

def readField (field : Field) (value : Option String) : Except Invalid field.kind.Value :=
  match value with
  | some value => field.kind.param.parse value
  | none => orInvalid field.standing (.message "missing parameter")

def readQuery (args : List (String × String)) : (query : List Field) → Except Invalid (QueryValues query)
  | [] => .ok ()
  | field :: query => do
    let value ← readField field (arg args field.name)
    let values ← readQuery args query
    .ok (value, values)

section Table

variable {Name : Type} (table : Name → Decl)

structure Route where
  name : Name
  path : PathValues (table name).path
  query : QueryValues (table name).query

variable {table}

def Route.toRequest (route : Route table) : String × String :=
  ((table route.name).method.http, pushFields (joined '/' (pathParts (table route.name).path route.path)) (table route.name).query route.query)

variable (table)

def parse (method path : String) (args : List (String × String)) : List Name → Except Invalid (Route table)
  | [] => .error .noRoute
  | name :: names =>
    match captures (template (table name).path) path with
    | none => parse method path args names
    | some captured => do
      let values ← readPath (table name).path captured
      if method = (table name).method.http then
        let query ← readQuery args (table name).query
        .ok ⟨name, values, query⟩
      else parse method path args names

def ofRequest (names : List Name) (method target : String) : Except Invalid (Route table) := do
  let (path, args) ← splitTarget target
  parse table method path args names

end Table

end Kido.Routing
