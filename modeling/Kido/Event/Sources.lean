import Kido.Shared.Slab

set_option autoImplicit false

namespace Kido.Events

open Kido.Shared

abbrev Token := Key

def pollin : UInt16 := 1

def pollout : UInt16 := 4

def pollerr : UInt16 := 8

def pollhup : UInt16 := 16

def pollnval : UInt16 := 32

inductive Interest where
  | idle
  | hangup
  | read
  | write
  | readWrite
deriving DecidableEq

namespace Interest

def of : Bool → Bool → Interest
  | true, true => .readWrite
  | true, false => .read
  | false, true => .write
  | false, false => .idle

def reads : Interest → Bool
  | .read | .readWrite => true
  | _ => false

def writes : Interest → Bool
  | .write | .readWrite => true
  | _ => false

def events (hangup : UInt16) : Interest → UInt16
  | .idle => 0
  | .hangup => hangup
  | .read => pollin
  | .write => pollout
  | .readWrite => pollin ||| pollout

end Interest

structure Source where
  fd : Int32
  -- What a hangup alone is asked for with.
  hangup : UInt16
  interest : Interest
  slot : Option Nat
deriving DecidableEq

structure PollFd where
  fd : Int32
  events : UInt16
  revents : UInt16
deriving DecidableEq

structure Ready where
  token : Token
  read : Bool
  write : Bool
deriving DecidableEq

structure Poll where
  sources : Slab Source
  fds : List PollFd
  owners : List UInt32

-- The last takes the place of the one that is removed. The slots of sources are never out of range.
def swapRemove {α : Type} (values : List α) (place : Nat) : List α :=
  match values.getLast? with
  | some last => if place < values.length then (values.set place last).dropLast else values
  | none => values

inductive Read where
  | data (count : Nat)
  | end_
deriving DecidableEq

-- What a turn has left of its reads.
structure Reads where
  left : UInt8
  more : Bool

def maxReads : UInt8 := 16

def Reads.new : Reads := ⟨maxReads, true⟩

-- What the system answers a read with.
inductive Got where
  | count (bytes : Nat)
  | wouldBlock
  | failed

inductive ReadError where
  | otherDescriptor
  | fullWindow
  | failed
deriving DecidableEq

namespace Poll

def new : Poll := ⟨.empty, [], []⟩

def interestOf (poll : Poll) (token : Token) : Interest := ((poll.sources.get token).map Source.interest).getD .idle

def interest (poll : Poll) (token : Token) (interest : Interest) : Poll :=
  match poll.sources.get token with
  | none => poll
  | some source =>
    let sources := poll.sources.update token fun source => { source with interest := interest }
    match source.slot, interest with
    | none, .idle => { poll with sources := sources }
    | some slot, .idle =>
      let sources := sources.update token fun source => { source with slot := none }
      let fds := swapRemove poll.fds slot
      let owners := swapRemove poll.owners slot
      let sources :=
        match owners[slot]? with
        | some moved => sources.update (sources.key moved) fun source => { source with slot := some slot }
        | none => sources
      ⟨sources, fds, owners⟩
    | some slot, _ =>
      { poll with
        sources := sources
        fds := poll.fds.modify slot fun entry => { entry with events := interest.events source.hangup } }
    | none, _ =>
      { sources := sources.update token fun source => { source with slot := some poll.fds.length }
        fds := poll.fds ++ [⟨source.fd, interest.events source.hangup, 0⟩]
        owners := poll.owners ++ [token.index] }

def watch (poll : Poll) (fd : Int32) (hangup : UInt16) (interest : Interest) : Poll × Token :=
  let (sources, token) := poll.sources.insert ⟨fd, hangup, .idle, none⟩
  (Poll.interest { poll with sources := sources } token interest, token)

def unwatch (poll : Poll) (token : Token) : Poll :=
  let poll := poll.interest token .idle
  { poll with sources := poll.sources.remove token }

def wants (poll : Poll) (ready : Ready) : Ready :=
  let interest := poll.interestOf ready.token
  ⟨ready.token, ready.read && interest.reads, ready.write && interest.writes⟩

-- Reads of a descriptor into a window of this size; `got` is what the system answers, if it is asked.
def read (poll : Poll) (token : Token) (fd : Int32) (window : Nat) (reads : Reads) (got : Got) :
    Except ReadError (Option Read) × Poll × Reads :=
  match poll.sources.get token with
  | none => (.ok none, poll, reads)
  | some source =>
    if source.fd ≠ fd then (.error .otherDescriptor, poll, reads)
    else if !reads.more || reads.left = 0 || !source.interest.reads then (.ok none, poll, reads)
    else if window = 0 then (.error .fullWindow, poll, { reads with more := false })
    else
      let left := reads.left - 1
      match got with
      | .count 0 => (.ok (some .end_), poll.interest token (.of false source.interest.writes), ⟨left, false⟩)
      | .count count => (.ok (some (.data count)), poll, ⟨left, count == window⟩)
      | .wouldBlock => (.ok none, poll, ⟨left, false⟩)
      | .failed => (.error .failed, poll, ⟨left, false⟩)

-- The system says what happened to each entry.
def polled (poll : Poll) (revents : Nat → UInt16) : Poll :=
  { poll with fds := poll.fds.mapIdx fun slot entry => { entry with revents := revents slot } }

def readyOf (poll : Poll) (entry : PollFd) (owner : UInt32) : Ready :=
  let failed := pollerr ||| pollhup ||| pollnval
  ⟨poll.sources.key owner, entry.revents &&& (pollin ||| failed) ≠ 0, entry.revents &&& (pollout ||| failed) ≠ 0⟩

def collect (poll : Poll) (found : Nat) : List Ready :=
  (((poll.fds.zip poll.owners).filter fun entry => entry.1.revents ≠ 0).take found).map fun entry => poll.readyOf entry.1 entry.2

end Poll

inductive Watching where
  | watch (fd : Int32) (hangup : UInt16) (wanted : Interest)
  | interest (token : Token) (wanted : Interest)
  | read (token : Token) (fd : Int32) (window : Nat) (reads : Reads) (got : Got)
  | unwatch (token : Token)
  | polled (revents : Nat → UInt16)

namespace Watching

def step (poll : Poll) : Watching → Poll
  | .watch fd hangup wanted => (poll.watch fd hangup wanted).1
  | .interest token wanted => poll.interest token wanted
  | .read token fd window reads got => (poll.read token fd window reads got).2.1
  | .unwatch token => poll.unwatch token
  | .polled revents => poll.polled revents

def run (poll : Poll) (ops : List Watching) : Poll := ops.foldl step poll

-- How many sources of a slot the operation unwatches.
def removal (index : UInt32) (poll : Poll) : Watching → Nat
  | .unwatch token => if token.index = index ∧ (poll.sources.get token).isSome then 1 else 0
  | _ => 0

def removals (index : UInt32) (poll : Poll) : List Watching → Nat
  | [] => 0
  | op :: rest => removal index poll op + removals index (op.step poll) rest

end Watching

end Kido.Events

namespace Kido.Events

open Kido.Shared

theorem swapRemove_length {α : Type} {values : List α} {place : Nat} (inside : place < values.length) :
    (swapRemove values place).length + 1 = values.length := by
  have some_ : values ≠ [] := List.ne_nil_of_length_pos (by omega)
  unfold swapRemove
  rw [List.getLast?_eq_some_getLast some_]
  simp only [if_pos inside, List.length_dropLast, List.length_set]
  omega

-- All stay where they are but the last, which comes in the place of the removed.
theorem swapRemove_get {α : Type} {values : List α} {place : Nat} (inside : place < values.length) (slot : Nat) :
    (swapRemove values place)[slot]? =
      if slot + 1 < values.length then if slot = place then values[values.length - 1]? else values[slot]? else none := by
  have some_ : values ≠ [] := List.ne_nil_of_length_pos (by omega)
  have last := List.getLast?_eq_getElem? (l := values)
  unfold swapRemove
  rw [List.getLast?_eq_some_getLast some_] at last ⊢
  simp only [if_pos inside]
  rw [List.getElem?_dropLast, List.length_set, ← last]
  by_cases early : slot < values.length - 1
  · rw [if_pos early, if_pos (by omega), List.getElem?_set]
    by_cases same : place = slot
    · subst same
      rw [if_pos rfl, if_pos inside, if_pos rfl]
    · rw [if_neg same, if_neg (Ne.symm same)]
  · rw [if_neg early, if_neg (by omega)]

namespace Poll

-- A source that wants something has the entry in its slot, which is for it; the others have none.
def Placed (poll : Poll) (key : Token) (source : Source) : Prop :=
  source.interest = .idle ∧ source.slot = none ∨
    source.interest ≠ .idle ∧ ∃ slot entry, source.slot = some slot ∧ poll.fds[slot]? = some entry ∧ poll.owners[slot]? = some key.index ∧
      entry.fd = source.fd ∧ entry.events = source.interest.events source.hangup

structure Matched (poll : Poll) : Prop where
  whole : poll.sources.Whole
  length : poll.owners.length = poll.fds.length
  placed : ∀ key source, poll.sources.get key = some source → poll.Placed key source
  owned : ∀ slot owner, poll.owners[slot]? = some owner →
    ∃ key source, key.index = owner ∧ poll.sources.get key = some source ∧ source.slot = some slot

theorem new_matched : new.Matched where
  whole := Slab.whole_empty
  length := rfl
  placed := by simp [new, Slab.empty, Slab.get]
  owned := nofun

section Interest

variable {poll : Poll} (matched : poll.Matched) {token : Token} {source : Source} (found : poll.sources.get token = some source)

include matched found

-- A source has a slot of its own.
theorem slot_token {slot : Nat} (own : source.slot = some slot) :
    poll.owners[slot]? = some token.index ∧ slot < poll.owners.length ∧
      ∃ entry, poll.fds[slot]? = some entry ∧ entry.fd = source.fd ∧ entry.events = source.interest.events source.hangup := by
  rcases matched.placed token source found with ⟨-, none_⟩ | ⟨-, other, entry, slot_, there, owner, fd, events⟩
  · rw [own] at none_
    cases none_
  · rw [own] at slot_
    cases slot_
    have inside : slot < poll.owners.length := (List.getElem?_eq_some_iff.1 owner).1
    exact ⟨owner, inside, entry, there, fd, events⟩

theorem slot_other {slot : Nat} (own : source.slot = some slot) {key : Token} {other : Source} (also_ : poll.sources.get key = some other)
    (same : other.slot = some slot) : key = token := by
  obtain ⟨first, -, -⟩ := slot_token matched found own
  obtain ⟨second, -, -⟩ := slot_token matched also_ same
  rw [first] at second
  exact Slab.get_same_index also_ found (Option.some.inj second).symm

end Interest

section Changes

variable {poll : Poll} (matched : poll.Matched) {token : Token} {source : Source} (found : poll.sources.get token = some source)

include matched found

-- A source without a slot still wants nothing.
theorem rest_matched (none_ : source.slot = none) :
    { poll with sources := poll.sources.update token fun source => { source with interest := .idle } }.Matched where
  whole := Slab.update_whole matched.whole _ _
  length := matched.length
  placed := fun key other get => by
    rw [Slab.get_update] at get
    split at get
    next same =>
      subst same
      rw [found] at get
      cases get
      exact .inl ⟨rfl, none_⟩
    next => exact matched.placed key other get
  owned := fun slot owner there => by
    obtain ⟨key, other, index, get, own⟩ := matched.owned slot owner there
    have apart : key ≠ token := by
      rintro rfl
      rw [found] at get
      cases get
      rw [none_] at own
      cases own
    exact ⟨key, other, index, by rw [Slab.get_update, if_neg apart, get], own⟩

-- A source without a slot gets the one behind all others.
theorem added_matched (none_ : source.slot = none) {wanted : Interest} (some_ : wanted ≠ .idle) :
    Matched {
      sources := (poll.sources.update token fun source => { source with interest := wanted }).update token fun source =>
        { source with slot := some poll.fds.length }
      fds := poll.fds ++ [⟨source.fd, wanted.events source.hangup, 0⟩]
      owners := poll.owners ++ [token.index] } where
  whole := Slab.update_whole (Slab.update_whole matched.whole _ _) _ _
  length := by rw [List.length_append, List.length_append, matched.length]; rfl
  placed := fun key other get => by
    rw [Slab.get_update, Slab.get_update] at get
    split at get
    next same =>
      subst same
      rw [found] at get
      cases get
      refine .inr ⟨some_, poll.fds.length, _, rfl, List.getElem?_concat_length, ?_, rfl, rfl⟩
      rw [← matched.length]
      exact List.getElem?_concat_length
    next =>
      rcases matched.placed key other get with idle | ⟨wants, slot, entry, own, there, owner, fd, events⟩
      · exact .inl idle
      · refine .inr ⟨wants, slot, entry, own, ?_, ?_, fd, events⟩
        · rw [List.getElem?_append_left (List.getElem?_eq_some_iff.1 there).1, there]
        · rw [List.getElem?_append_left (List.getElem?_eq_some_iff.1 owner).1, owner]
  owned := fun slot owner there => by
    by_cases inside : slot < poll.owners.length
    · rw [List.getElem?_append_left inside] at there
      obtain ⟨key, other, index, get, own⟩ := matched.owned slot owner there
      have apart : key ≠ token := by
        rintro rfl
        rw [found] at get
        cases get
        rw [none_] at own
        cases own
      exact ⟨key, other, index, by rw [Slab.get_update, if_neg apart, Slab.get_update, if_neg apart, get], own⟩
    · have bound := (List.getElem?_eq_some_iff.1 there).1
      simp only [List.length_append, List.length_singleton] at bound
      obtain rfl : slot = poll.owners.length := by omega
      rw [List.getElem?_concat_length] at there
      cases there
      refine ⟨token, ⟨source.fd, source.hangup, wanted, some poll.fds.length⟩, rfl, ?_, congrArg some matched.length.symm⟩
      rw [Slab.get_update, if_pos rfl, Slab.get_update, if_pos rfl, found]
      rfl

-- The entry of a source asks for other events.
theorem changed_matched {slot : Nat} (own : source.slot = some slot) {wanted : Interest} (some_ : wanted ≠ .idle) :
    Matched {
      poll with
      sources := poll.sources.update token fun source => { source with interest := wanted }
      fds := poll.fds.modify slot fun entry => { entry with events := wanted.events source.hangup } } where
  whole := Slab.update_whole matched.whole _ _
  length := by rw [List.length_modify]; exact matched.length
  placed := fun key other get => by
    rw [Slab.get_update] at get
    split at get
    next same =>
      subst same
      rw [found] at get
      cases get
      obtain ⟨owner, -, entry, there, fd, -⟩ := slot_token matched found own
      refine .inr ⟨some_, slot, { entry with events := wanted.events source.hangup }, own, ?_, owner, fd, rfl⟩
      rw [List.getElem?_modify, there]
      simp
    next apart =>
      rcases matched.placed key other get with idle | ⟨wants, at_, entry, place, there, owner, fd, events⟩
      · exact .inl idle
      · have different : slot ≠ at_ := by
          rintro rfl
          exact apart (slot_other matched found own get place)
        refine .inr ⟨wants, at_, entry, place, ?_, owner, fd, events⟩
        rw [List.getElem?_modify, there]
        simp [different]
  owned := fun at_ owner there => by
    obtain ⟨key, other, index, get, place⟩ := matched.owned at_ owner there
    by_cases same : key = token
    · subst same
      rw [found] at get
      cases get
      exact ⟨key, { source with interest := wanted }, index, by rw [Slab.get_update, if_pos rfl, found]; rfl, place⟩
    · exact ⟨key, other, index, by rw [Slab.get_update, if_neg same, get], place⟩

-- The entry of a source is removed, and the last one comes in its place.
theorem removed_matched {slot : Nat} (own : source.slot = some slot) {sources : Slab Source}
    (is : sources = (poll.sources.update token fun source => { source with interest := .idle }).update token fun source =>
      { source with slot := none }) :
    Matched {
      sources :=
        match (swapRemove poll.owners slot)[slot]? with
        | some moved => sources.update (sources.key moved) fun source => { source with slot := some slot }
        | none => sources
      fds := swapRemove poll.fds slot
      owners := swapRemove poll.owners slot } := by
  obtain ⟨owner, inside, -, -, -, -⟩ := slot_token matched found own
  have insideFds : slot < poll.fds.length := matched.length ▸ inside
  have owners := swapRemove_get inside
  have fds := swapRemove_get insideFds
  have same : (swapRemove poll.owners slot).length = (swapRemove poll.fds slot).length := by
    have first := swapRemove_length inside
    have second := swapRemove_length insideFds
    have := matched.length
    omega
  have whole : sources.Whole := is ▸ Slab.update_whole (Slab.update_whole matched.whole _ _) _ _
  have get (key : Token) : sources.get key =
      if key = token then some { source with interest := .idle, slot := none } else poll.sources.get key := by
    rw [is, Slab.get_update, Slab.get_update]
    split
    next same =>
      rw [same, found]
      rfl
    next => rfl
  by_cases last : slot + 1 < poll.owners.length
  · -- The last entry is that of another source, whose slot is made right.
    obtain ⟨moved, end_⟩ : ∃ moved, poll.owners[poll.owners.length - 1]? = some moved := ⟨_, List.getElem?_eq_getElem (by omega)⟩
    obtain ⟨at_, last_, rfl, had, place⟩ := matched.owned _ _ end_
    have apart : at_ ≠ token := by
      rintro rfl
      rw [found] at had
      cases had
      rw [own] at place
      have := Option.some.inj place
      omega
    have there : (swapRemove poll.owners slot)[slot]? = some at_.index := by rw [owners, if_pos last, if_pos rfl, end_]
    have stays : sources.get at_ = some last_ := by rw [get, if_neg apart, had]
    rw [there]
    simp only [Slab.key_get stays]
    have now_ (key : Token) : (sources.update at_ fun source => { source with slot := some slot }).get key =
        if key = at_ then some { last_ with slot := some slot }
        else if key = token then some { source with interest := .idle, slot := none } else poll.sources.get key := by
      rw [Slab.get_update]
      split
      next same =>
        rw [same, stays]
        rfl
      next => exact get key
    constructor
    case whole => exact Slab.update_whole whole _ _
    case length => exact same
    case placed =>
      intro key other there_
      simp only at there_
      rw [now_] at there_
      split at there_
      next same =>
        cases there_
        subst same
        obtain ⟨-, -, entry, entry_, fd, events⟩ := slot_token matched had place
        refine .inr ⟨fun idle => ?_, slot, entry, rfl, ?_, there, fd, events⟩
        · rcases matched.placed key last_ had with ⟨-, none_⟩ | ⟨wants, -⟩
          · rw [place] at none_
            cases none_
          · exact wants idle
        · rw [fds, if_pos (by have := matched.length; omega), if_pos rfl, ← matched.length, entry_]
      next other_ =>
        split at there_
        next =>
          cases there_
          exact .inl ⟨rfl, rfl⟩
        next third =>
          rcases matched.placed key other there_ with idle | ⟨wants, slot_, entry, own_, entry_, owner_, rest⟩
          · exact .inl idle
          · have different : slot_ ≠ slot := by
              rintro rfl
              exact third (slot_other matched found own there_ own_)
            have not_last : slot_ ≠ poll.owners.length - 1 := by
              rintro rfl
              exact other_ (slot_other matched had place there_ own_)
            have bound := (List.getElem?_eq_some_iff.1 owner_).1
            have length := matched.length
            refine .inr ⟨wants, slot_, entry, own_, ?_, ?_, rest⟩
            · rw [fds, if_pos (by omega), if_neg different, entry_]
            · rw [owners, if_pos (by omega), if_neg different, owner_]
    case owned =>
      intro slot_ owner_ there_
      simp only at there_
      by_cases same : slot_ = slot
      · subst same
        rw [there] at there_
        cases there_
        exact ⟨at_, _, rfl, by simp only; rw [now_, if_pos rfl], rfl⟩
      · rw [owners, if_neg same] at there_
        split at there_
        next bound =>
          obtain ⟨key, other, index, had_, place_⟩ := matched.owned slot_ owner_ there_
          have third : key ≠ token := by
            rintro rfl
            rw [found] at had_
            cases had_
            rw [own] at place_
            exact same (Option.some.inj place_).symm
          have other_ : key ≠ at_ := by
            rintro rfl
            rw [had] at had_
            cases had_
            rw [place] at place_
            have := Option.some.inj place_
            omega
          exact ⟨key, other, index, by simp only; rw [now_, if_neg other_, if_neg third, had_], place_⟩
        next => cases there_
  · have gone : (swapRemove poll.owners slot)[slot]? = none := by rw [owners, if_neg last]
    rw [gone]
    constructor
    case whole => exact whole
    case length => exact same
    case placed =>
      intro key other there
      simp only at there
      rw [get] at there
      split at there
      next =>
        cases there
        exact .inl ⟨rfl, rfl⟩
      next apart =>
        rcases matched.placed key other there with idle | ⟨wants, at_, entry, place, entry_, owner_, rest⟩
        · exact .inl idle
        · have different : at_ ≠ slot := by
            rintro rfl
            exact apart (slot_other matched found own there place)
          have bound := (List.getElem?_eq_some_iff.1 owner_).1
          have length := matched.length
          refine .inr ⟨wants, at_, entry, place, ?_, ?_, rest⟩
          · rw [fds, if_pos (by omega), if_neg different, entry_]
          · rw [owners, if_pos (by omega), if_neg different, owner_]
    case owned =>
      intro at_ owner_ there
      rw [owners] at there
      split at there
      next bound =>
        rw [if_neg (by omega)] at there
        obtain ⟨key, other, index, had, place⟩ := matched.owned at_ owner_ there
        have apart : key ≠ token := by
          rintro rfl
          rw [found] at had
          cases had
          rw [own] at place
          cases place
          omega
        exact ⟨key, other, index, by simp only; rw [get, if_neg apart, had], place⟩
      next => cases there

end Changes

theorem interest_matched {poll : Poll} (matched : poll.Matched) (token : Token) (wanted : Interest) : (poll.interest token wanted).Matched := by
  unfold interest
  split
  next => exact matched
  next source found =>
    cases place : source.slot with
    | none =>
      by_cases idle : wanted = .idle
      · subst idle
        exact rest_matched matched found place
      · have added := added_matched matched found place idle
        cases wanted <;> first | exact absurd rfl idle | exact added
    | some slot =>
      by_cases idle : wanted = .idle
      · subst idle
        exact removed_matched matched found place rfl
      · have changed := changed_matched matched found place idle
        cases wanted <;> first | exact absurd rfl idle | exact changed

theorem inserted_matched {poll : Poll} (matched : poll.Matched) {source : Source} (idle : source.interest = .idle) (none_ : source.slot = none) :
    Matched { poll with sources := (poll.sources.insert source).1 } := by
  by_cases room : poll.sources.Room
  · have get := Slab.get_insert matched.whole room source
    have fresh := Slab.insert_fresh matched.whole room source
    constructor
    case whole => exact Slab.insert_whole matched.whole _
    case length => exact matched.length
    case placed =>
      intro key other found
      simp only at found
      rw [get] at found
      split at found
      next =>
        cases found
        exact .inl ⟨idle, none_⟩
      next => exact matched.placed key other found
    case owned =>
      intro slot owner there
      obtain ⟨key, other, index, found, own⟩ := matched.owned slot owner there
      have apart : key ≠ (poll.sources.insert source).2 := by
        rintro rfl
        rw [fresh] at found
        cases found
      exact ⟨key, other, index, by simp only; rw [get, if_neg apart, found], own⟩
  · have get := Slab.insert_full room source
    constructor
    case whole => exact Slab.insert_whole matched.whole _
    case length => exact matched.length
    case placed => exact fun key other found => matched.placed key other (get key ▸ found)
    case owned =>
      intro slot owner there
      obtain ⟨key, other, index, found, own⟩ := matched.owned slot owner there
      exact ⟨key, other, index, by simp only; rw [get, found], own⟩

theorem watch_matched {poll : Poll} (matched : poll.Matched) (fd : Int32) (hangup : UInt16) (wanted : Interest) :
    (poll.watch fd hangup wanted).1.Matched :=
  interest_matched (inserted_matched matched rfl rfl) _ _

theorem update_wanted {sources : Slab Source} {wanted : Interest} {token : Token}
    (is : ∀ source, sources.get token = some source → source.interest = wanted) {at_ : Token} {change : Source → Source}
    (same : ∀ source, (change source).interest = source.interest) :
    ∀ source, (sources.update at_ change).get token = some source → source.interest = wanted := by
  intro source found
  rw [Slab.get_update] at found
  split at found
  next =>
    obtain ⟨before, was, rfl⟩ := Option.map_eq_some_iff.1 found
    rw [same, is before was]
  next => exact is source found

theorem interest_wanted (poll : Poll) (token : Token) (wanted : Interest) :
    ∀ source, (poll.interest token wanted).sources.get token = some source → source.interest = wanted := by
  unfold interest
  split
  next none_ =>
    intro source found
    rw [none_] at found
    cases found
  next before was =>
    have first : ∀ source, (poll.sources.update token fun source => { source with interest := wanted }).get token = some source →
        source.interest = wanted := by
      intro source found
      rw [Slab.get_update, if_pos rfl, was] at found
      cases found
      rfl
    split
    · exact first
    · simp only
      split
      · apply update_wanted
        · apply update_wanted first
          exact fun _ => rfl
        · exact fun _ => rfl
      · apply update_wanted first
        exact fun _ => rfl
    · exact first
    · apply update_wanted first
      exact fun _ => rfl

-- A source that wants nothing can go.
theorem idle_get {poll : Poll} (matched : poll.Matched) (token : Token) :
    ∀ source, (poll.interest token .idle).sources.get token = some source → source.slot = none := by
  intro source found
  rcases (interest_matched matched token .idle).placed token source found with ⟨-, none_⟩ | ⟨wants, -⟩
  · exact none_
  · exact absurd (interest_wanted poll token .idle source found) wants

theorem unwatch_matched {poll : Poll} (matched : poll.Matched) (token : Token) : (poll.unwatch token).Matched := by
  have idle := interest_matched matched token .idle
  constructor
  case whole => exact Slab.remove_whole idle.whole _
  case length => exact idle.length
  case placed =>
    intro key source found
    simp only [unwatch, Slab.get_remove] at found
    split at found
    next => cases found
    next => exact idle.placed key source found
  case owned =>
    intro slot owner there
    obtain ⟨key, source, index, found, own⟩ := idle.owned slot owner there
    have apart : key ≠ token := by
      rintro rfl
      rw [idle_get matched key source found] at own
      cases own
    exact ⟨key, source, index, by simp only [unwatch, Slab.get_remove]; rw [if_neg apart, found], own⟩

theorem polled_matched {poll : Poll} (matched : poll.Matched) (revents : Nat → UInt16) : (poll.polled revents).Matched where
  whole := matched.whole
  length := by rw [polled, List.length_mapIdx, matched.length]
  placed := fun key source found => by
    rcases matched.placed key source found with idle | ⟨wants, slot, entry, own, there, owner, fd, events⟩
    · exact .inl idle
    · refine .inr ⟨wants, slot, { entry with revents := revents slot }, own, ?_, owner, fd, events⟩
      rw [polled, List.getElem?_mapIdx, there]
      rfl
  owned := matched.owned

end Poll

namespace Watching

theorem step_matched {poll : Poll} (matched : poll.Matched) (op : Watching) : (op.step poll).Matched := by
  cases op with
  | watch fd hangup wanted => exact Poll.watch_matched matched fd hangup wanted
  | interest token wanted => exact Poll.interest_matched matched token wanted
  | unwatch token => exact Poll.unwatch_matched matched token
  | polled revents => exact Poll.polled_matched matched revents
  | read token fd window reads got =>
    rw [step, Poll.read]
    split
    next => exact matched
    next source found =>
      split
      · exact matched
      · split
        · exact matched
        · split
          · exact matched
          · cases got with
            | count bytes =>
              cases bytes with
              | zero => exact Poll.interest_matched matched token _
              | succ count => exact matched
            | wouldBlock => exact matched
            | failed => exact matched

theorem run_matched (ops : List Watching) : (run .new ops).Matched := by
  induction ops using List.reverseRecOn with
  | nil => exact Poll.new_matched
  | append_singleton ops op ih =>
    rw [run, List.foldl_append]
    exact step_matched ih op

end Watching

end Kido.Events
