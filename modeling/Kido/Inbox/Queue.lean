import Kido.Layout.Ids
import Mathlib.Logic.Function.Basic

set_option autoImplicit false

namespace Kido.Mailing

open Kido.Tiling

def maxData : Nat := 4096

structure Data where
  value : String
  short : value.utf8ByteSize ≤ maxData

structure Payload where
  text : String
  data : Option Data

inductive Sender where
  | pane (pane : PaneId) (session name : Option String)
  | user

inductive Relation where
  | parent
  | child
  | sibling
  | descendant
  | siblingDescendant

inductive Cause where
  | exited (code : Int)
  | signaled (signal : Int)
  | failed (message : String)

inductive End where
  | dead (position : Nat) (cause : Cause)
  | gone

inductive Content where
  | message (payload : Payload)
  | steer (payload : Payload)
  | interrupt (payload : Payload)
  | stop (payload : Payload)
  | notice (payload : Payload)
  | user (payload : Payload)
  | ended (reason : End)

structure Message (Id : Type) where
  seq : Nat
  id : Id
  sender : Sender
  relation : Option Relation
  content : Content

def window : Nat := 16
def capBytes : Nat := 64 * 2 ^ 20
def capMessages : Nat := 2 ^ 16
def settledCap : Nat := 4096

inductive Place where
  | fresh
  | out
  | back
deriving DecidableEq

-- The frame of an entry is the message of which it is the text.
structure Entry (Id : Type) where
  seq : Nat
  frame : Message Id
  size : Nat
  place : Place

inductive Outcome where
  | acked
  | refused
deriving DecidableEq

inductive Status where
  | queued
  | delivered
  | settled (outcome : Outcome)
deriving DecidableEq

structure Seen where
  seq : Nat
  status : Status
deriving DecidableEq

inductive Admit where
  | new (seq : Nat)
  | repeated (seen : Seen)
  | full
deriving DecidableEq

inductive Known where
  | pending (seq : Nat)
  | settled (outcome : Outcome) (seq : Nat)

structure Inbox (Id Token : Type) where
  stream : Option Token
  last : Counter
  fifo : List (Entry Id)
  bytes : Nat
  known : Id → Option Known
  settled : List Id

def saturatingAdd (first second : Nat) : Nat := min (first + second) u64Max

def size : Content → Nat
  | .message payload | .steer payload | .interrupt payload | .stop payload | .notice payload | .user payload =>
    saturatingAdd payload.text.utf8ByteSize (payload.data.elim 0 fun data => data.value.utf8ByteSize)
  | .ended _ => 0

def Entry.isOut {Id : Type} (entry : Entry Id) : Bool := decide (entry.place = .out)

namespace Inbox

variable {Id Token : Type}

def default : Inbox Id Token := ⟨none, ⟨0, Nat.zero_le _⟩, [], 0, fun _ => none, []⟩

def openStream (inbox : Inbox Id Token) (stream : Token) : Bool × Inbox Id Token :=
  match inbox.stream with
  | none => (true, { inbox with stream := some stream })
  | some _ => (false, inbox)

def close [DecidableEq Token] (inbox : Inbox Id Token) (stream : Token) : Bool × Inbox Id Token :=
  if inbox.stream = some stream then
    (true, { inbox with
      stream := none
      fifo := (inbox.fifo.takeWhile Entry.isOut).map (fun entry => { entry with place := .back }) ++
        inbox.fifo.dropWhile Entry.isOut })
  else (false, inbox)

def clear (inbox : Inbox Id Token) : Option Token × Inbox Id Token :=
  (inbox.stream, ⟨none, inbox.last, [], 0, fun _ => none, []⟩)

-- The binary search of a queue that is in order finds the entry of this number, if there is one.
def atSeq (inbox : Inbox Id Token) (seq : Nat) : Option Nat :=
  inbox.fifo.findIdx? fun entry => decide (entry.seq = seq)

def seen (inbox : Inbox Id Token) (id : Id) : Option Seen :=
  match inbox.known id with
  | none => none
  | some (.pending seq) =>
    ((inbox.atSeq seq).bind fun index => inbox.fifo[index]?).map fun entry =>
      ⟨seq, if entry.place = .out then .delivered else .queued⟩
  | some (.settled outcome seq) => some ⟨seq, .settled outcome⟩

def admitMessage [DecidableEq Id] (inbox : Inbox Id Token) (id : Id) (sender : Sender) (relation : Option Relation)
    (content : Content) : Admit × Inbox Id Token :=
  match inbox.seen id with
  | some seen => (.repeated seen, inbox)
  | none =>
    if capMessages ≤ inbox.fifo.length ∨ capBytes < saturatingAdd inbox.bytes (size content) then (.full, inbox)
    else
      let seq := inbox.last.bump.value
      (.new seq, { inbox with
        last := inbox.last.bump
        bytes := saturatingAdd inbox.bytes (size content)
        known := Function.update inbox.known id (some (.pending seq))
        fifo := inbox.fifo ++ [⟨seq, ⟨seq, id, sender, relation, content⟩, size content, .fresh⟩] })

def nextWrite (inbox : Inbox Id Token) : Option (Message Id) × Inbox Id Token :=
  match inbox.stream with
  | none => (none, inbox)
  | some _ =>
    match inbox.fifo.findIdx? fun entry => !entry.isOut with
    | none => (none, inbox)
    | some head =>
      if window ≤ head then (none, inbox)
      else
        match inbox.fifo[head]? with
        | none => (none, inbox)
        | some entry => (some entry.frame, { inbox with fifo := inbox.fifo.set head { entry with place := .out } })

-- Forgets the oldest of the settled ids when there is one too many.
def forget [DecidableEq Id] (inbox : Inbox Id Token) : Inbox Id Token :=
  if settledCap < inbox.settled.length then
    match inbox.settled with
    | [] => inbox
    | oldest :: settled => { inbox with known := Function.update inbox.known oldest none, settled := settled }
  else inbox

def settle [DecidableEq Id] (inbox : Inbox Id Token) (id : Id) (outcome : Outcome) : Option Nat × Inbox Id Token :=
  match inbox.known id with
  | some (.pending seq) =>
    match inbox.atSeq seq with
    | none => (none, inbox)
    | some index =>
      match inbox.fifo[index]? with
      | none => (none, inbox)
      | some entry =>
        if entry.place = .fresh then (none, inbox)
        else
          (some seq, forget { inbox with
            fifo := inbox.fifo.eraseIdx index
            bytes := inbox.bytes - entry.size
            known := Function.update inbox.known id (some (.settled outcome seq))
            settled := inbox.settled ++ [id] })
  | _ => (none, inbox)

end Inbox

inductive Op (Id Token : Type) where
  | openStream (stream : Token)
  | close (stream : Token)
  | clear
  | admitMessage (id : Id) (sender : Sender) (relation : Option Relation) (content : Content)
  | nextWrite
  | settle (id : Id) (outcome : Outcome)

inductive Event (Id Token : Type) where
  | opened (stream : Token) (free : Bool)
  | closed (stream : Token) (ours : Bool)
  | cleared (stream : Option Token)
  | admitted (id : Id) (sender : Sender) (relation : Option Relation) (content : Content) (answer : Admit)
  | wrote (answer : Option (Message Id))
  | settled (id : Id) (outcome : Outcome) (answer : Option Nat)

variable {Id Token : Type} [DecidableEq Id] [DecidableEq Token]

def Inbox.perform (inbox : Inbox Id Token) : Op Id Token → Event Id Token × Inbox Id Token
  | .openStream stream => (inbox.openStream stream).map (.opened stream) id
  | .close stream => (inbox.close stream).map (.closed stream) id
  | .clear => inbox.clear.map .cleared id
  | .admitMessage name sender relation content =>
    (inbox.admitMessage name sender relation content).map (.admitted name sender relation content) id
  | .nextWrite => inbox.nextWrite.map .wrote id
  | .settle name outcome => (inbox.settle name outcome).map (.settled name outcome) id

end Kido.Mailing
