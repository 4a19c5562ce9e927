import Mathlib.Logic.Function.Basic

set_option autoImplicit false

namespace Kido.Config.Yaml

def maxDepth : Nat := 64

def maxNodes : Nat := 100000

-- A place in the text as the parser has it, with columns from zero on.
structure Marker where
  line : Nat
  col : Nat
deriving DecidableEq

structure Pos where
  line : Nat
  column : Nat
deriving DecidableEq

def Pos.of (mark : Marker) : Pos := ⟨mark.line, mark.col + 1⟩

structure Error where
  at_ : Option Pos
  path : List String
  message : String
deriving DecidableEq

def Error.here (at_ : Pos) (message : String) : Error := ⟨some at_, [], message⟩

mutual

inductive Node where
  | mk (at_ : Pos) (size depth : Nat) (value : Value)

inductive Value where
  | scalar (text : String) (plain : Bool)
  | list (items : List Node)
  | map (entries : List Entry)

inductive Entry where
  | mk (key : String) (at_ : Pos) (value : Node)

end

namespace Node

def at_ : Node → Pos
  | .mk at_ _ _ _ => at_

def size : Node → Nat
  | .mk _ size _ _ => size

def depth : Node → Nat
  | .mk _ _ depth _ => depth

def value : Node → Value
  | .mk _ _ _ value => value

end Node

namespace Entry

def key : Entry → String
  | .mk key _ _ => key

def value : Entry → Node
  | .mk _ _ value => value

end Entry

namespace Node

def new (at_ : Pos) (value : Value) : Node :=
  match value with
  | .scalar .. => .mk at_ 1 0 value
  | .list items => .mk at_ (items.foldl (fun sum item => sum + item.size) 1) (1 + (items.map Node.depth).max?.getD 0) value
  | .map entries =>
    .mk at_ (entries.foldl (fun sum entry => sum + 1 + entry.value.size) 1) (1 + (entries.map fun entry => entry.value.depth).max?.getD 0) value

def isNull (node : Node) : Bool :=
  match node.value with
  | .scalar text true => decide (text ∈ ["", "~", "null", "Null", "NULL"])
  | _ => false

end Node

inductive ScalarStyle where
  | plain
  | singleQuoted
  | doubleQuoted
  | literal
  | folded
deriving DecidableEq

-- The events of the parser; an anchor is zero where there is none.
inductive Event where
  | nothing
  | streamStart
  | streamEnd
  | documentStart (explicit : Bool)
  | documentEnd
  | alias_ (id : Nat)
  | scalar (text : String) (style : ScalarStyle) (anchor : Nat) (tag : Option String)
  | sequenceStart (anchor : Nat) (tag : Option String)
  | sequenceEnd
  | mappingStart (anchor : Nat) (tag : Option String)
  | mappingEnd
deriving DecidableEq

def Event.tagged : Event → Bool
  | .scalar _ _ _ tag => tag.isSome
  | .sequenceStart _ tag => tag.isSome
  | .mappingStart _ tag => tag.isSome
  | _ => false

inductive Frame where
  | list (at_ : Pos) (anchor : Nat) (items : List Node)
  | map (at_ : Pos) (anchor : Nat) (entries : List Entry) (seen : List String) (key : Option (String × Pos))

structure State where
  anchors : Nat → Option Node
  stack : List Frame
  root : Option Node
  documents : Nat
  nodes : Nat

def State.start : State := ⟨fun _ => none, [], none, 0, 0⟩

def deeper : String := s!"nesting is deeper than {maxDepth} levels"

-- An anchor that is not zero stands for the node from now on.
def bind (anchors : Nat → Option Node) (anchor : Nat) (node : Node) : Nat → Option Node :=
  if anchor = 0 then anchors else Function.update anchors anchor (some node)

section Load

-- How a text is written in a message.
variable (debug : String → String)

-- What is done with a node that is complete.
def finish (state : State) (at_ : Pos) (anchor : Nat) (node : Node) : Except Error State :=
  if maxNodes < state.nodes then .error (.here at_ s!"more than {maxNodes} nodes, aliases included")
  else
    let state := { state with anchors := bind state.anchors anchor node }
    match state.stack with
    | [] => .ok { state with root := some node }
    | .list start own items :: rest => .ok { state with stack := .list start own (items ++ [node]) :: rest }
    | .map start own entries seen none :: rest =>
      match node.value with
      | .scalar text _ => .ok { state with stack := .map start own entries seen (some (text, node.at_)) :: rest }
      | _ => .error (.here node.at_ "a map key must be a scalar")
    | .map start own entries seen (some (key, keyAt)) :: rest =>
      if key ∈ seen then .error (.here keyAt s!"duplicate key {debug key}")
      else .ok { state with stack := .map start own (entries ++ [.mk key keyAt node]) (key :: seen) none :: rest }

def on (state : State) (event : Event) (at_ : Pos) : Except Error State :=
  if event.tagged then .error (.here at_ "tags are not supported")
  else
    match event with
    | .documentStart _ =>
      let state := { state with documents := state.documents + 1 }
      if 1 < state.documents then .error (.here at_ "more than one document") else .ok state
    | .scalar text style anchor _ =>
      finish debug { state with nodes := state.nodes + 1 } at_ anchor (.new at_ (.scalar text (decide (style = .plain))))
    | .alias_ id =>
      match state.anchors id with
      | none => .error (.here at_ "unknown anchor")
      | some node =>
        if maxDepth < state.stack.length + node.depth then .error (.here at_ deeper)
        else finish debug { state with nodes := state.nodes + node.size } at_ 0 node
    | .sequenceStart anchor _ =>
      if maxDepth ≤ state.stack.length then .error (.here at_ deeper)
      else .ok { state with nodes := state.nodes + 1, stack := .list at_ anchor [] :: state.stack }
    | .mappingStart anchor _ =>
      if maxDepth ≤ state.stack.length then .error (.here at_ deeper)
      else .ok { state with nodes := state.nodes + 1, stack := .map at_ anchor [] [] none :: state.stack }
    | .sequenceEnd =>
      match state.stack with
      | .list start anchor items :: rest => finish debug { state with stack := rest } at_ anchor (.new start (.list items))
      | _ => .error (.here at_ "unbalanced sequence")
    | .mappingEnd =>
      match state.stack with
      | .map start anchor entries _ _ :: rest => finish debug { state with stack := rest } at_ anchor (.new start (.map entries))
      | _ => .error (.here at_ "unbalanced mapping")
    | .nothing => .ok state
    | .streamStart => .ok state
    | .streamEnd => .ok state
    | .documentEnd => .ok state

-- What the parser gives next: an event, or the error that ends it.
abbrev Item := Except (Marker × String) (Event × Marker)

def step (state : State) : Item → Except Error State
  | .error (mark, info) => .error (.here (.of mark) info)
  | .ok (event, mark) => on debug state event (.of mark)

def load (state : State) : List Item → Except Error State
  | [] => .ok state
  | item :: rest =>
    match step debug state item with
    | .error error => .error error
    | .ok next => load next rest

-- The root of a document, or an empty map where there is none.
def orEmpty (root : Option Node) : Node :=
  match root with
  | some root => if root.isNull then .new ⟨1, 1⟩ (.map []) else root
  | none => .new ⟨1, 1⟩ (.map [])

def tree (items : List Item) : Except Error Node :=
  match load debug .start items with
  | .error error => .error error
  | .ok state => .ok (orEmpty state.root)

end Load

end Kido.Config.Yaml
