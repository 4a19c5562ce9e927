import Kido.Mirror.Mirror
import Kido.Shared.Run
import Mathlib.Algebra.Order.Ring.Nat

set_option autoImplicit false

namespace Kido.Mirrors

open Kido.Shared

variable {C V : Type}

-- A full snapshot: where the pane's output stood when it was taken, and its bytes.
structure Shot where
  offset : Nat
  body : List UInt8

structure Coming where
  shot : Shot
  full : Bool
  items : List Following

-- What a mirror has taken from its links: the full snapshot that its display began with, what came since, and the snapshot
-- that is on its way.
structure Taken where
  base : Option Shot
  since : List Following
  coming : Option Coming

namespace Taken

def item (taken : Taken) (item : Following) : Taken :=
  match taken.coming with
  | some coming => { taken with coming := some { coming with items := coming.items ++ [item] } }
  | none => { taken with since := taken.since ++ [item] }

def whole (coming : Coming) : Taken := if coming.full then ⟨some coming.shot, coming.items, none⟩ else ⟨none, [], none⟩

def grown (taken : Taken) (offset : Nat) (slice : Slice) (body : List UInt8) : Option Coming :=
  (if slice.first then some ⟨⟨offset, []⟩, !slice.screen, []⟩ else taken.coming).map fun coming =>
    { coming with shot := { coming.shot with body := coming.shot.body ++ body } }

def slice (taken : Taken) (offset : Nat) (slice : Slice) (body : List UInt8) : Taken :=
  match taken.grown offset slice body with
  | none => taken
  | some coming => if slice.last then whole coming else { taken with coming := some coming }

def record (taken : Taken) : Except BadRecord Parsed → Taken
  | .ok (.output _ data) => taken.item (.bytes data)
  | .ok (.snapshot offset data) =>
    match Slice.decode data with
    | none => taken
    | some (slice, body) => taken.slice offset slice body
  | .error _ => taken

def event (taken : Taken) : Option ViewEvent → Taken
  | some (.marked _ marker) => taken.item (.marker marker)
  | _ => taken

end Taken

-- Where the next output of a link begins, once the server has announced it.
def announcedAfter (announced : Option Nat) : Except BadRecord Parsed → Option Nat
  | .ok (.output offset data) => some (offset + data.length)
  | .ok (.snapshot offset data) => if (Slice.decode data).any fun decoded => decoded.1.first then some offset else announced
  | .error _ => announced

def maxOffset : Nat := 2 ^ 62 - 1

def Mirror.listens (mirror : Mirror C V) (parsed : Except BadRecord Parsed) : Bool :=
  mirror.frozen.isNone && (!mirror.awaitingSnapshot || Mirror.startsSnapshot parsed)

-- A mirror and its link: whether the link is read, and what the server has announced on it.
structure World (C V : Type) where
  mirror : Mirror C V
  up : Bool
  announced : Option Nat
  taken : Taken

inductive Op where
  | record (record : List UInt8)
  | event (event : Option ViewEvent)
  | closed
  | freeze (opened : Option Nat)
  | copyChange (row : Nat) (failed : Bool)
  | thaw (sent : Bool)
  | bottom
  | scroll (delta : Int) (sent : Bool)
  | unwatch
  | relink (connected watched : Bool)

namespace World

def start : World C V := ⟨.start, true, none, ⟨none, [], none⟩⟩

-- The mirror has been acted on; an error costs it its link, and a snapshot that is no longer assembled is not taken.
def acted {α : Type} (world : World C V) (result : Mirror C V × Except Failure α) : World C V :=
  { world with
    mirror := result.1,
    up := world.up && result.2.isOk,
    taken := if result.1.assembly.isSome then world.taken else { world.taken with coming := none } }

variable (engine : Engine C V) (world : World C V)

def record (record : List UInt8) : World C V :=
  if world.up then
    let parsed := parseRecord engine.inflate record
    let result := world.mirror.record engine record
    { mirror := result.1,
      up := result.2.isOk,
      announced := announcedAfter world.announced parsed,
      taken := if world.mirror.listens parsed && result.2.isOk then world.taken.record parsed else world.taken }
  else world

def event (event : Option ViewEvent) : World C V :=
  if world.up then
    let result := world.mirror.marker engine event
    { world with
      mirror := result.1,
      up := result.2.isOk,
      taken := if world.mirror.frozen.isNone && !world.mirror.awaitingSnapshot && result.2.isOk then world.taken.event event
        else world.taken }
  else world

-- A new link resumes where the mirror has come to, if that can be said; the mirror reads it when the poll watches it.
def relink (connected watched : Bool) : World C V :=
  if connected then
    let announced := world.mirror.resume.filter fun offset => offset ≤ maxOffset
    if watched then
      ⟨{ world.mirror with assembly := none }, true, announced, { world.taken with coming := none }⟩
    else { world with up := false, announced := announced }
  else world

def step (world : World C V) : Op → World C V
  | .record record => world.record engine record
  | .event event => world.event engine event
  | .closed => { world with up := false }
  | .freeze opened => world.acted (world.mirror.freeze engine opened)
  | .copyChange row failed => world.acted (world.mirror.copyChange engine row failed)
  | .thaw sent => world.acted (world.mirror.thaw engine sent)
  | .bottom => world.acted (world.mirror.bottom engine)
  | .scroll delta sent => world.acted (world.mirror.scroll engine delta sent)
  | .unwatch => { world with mirror := world.mirror.unwatch, up := false }
  | .relink connected watched => world.relink connected watched

end World

def between (stream : Nat → UInt8) (start count : Nat) : List UInt8 := (List.range count).map fun index => stream (start + index)

-- The server sends, on each link, contiguous output from where it announced or was resumed.
def Sends (engine : Engine C V) (stream : Nat → UInt8) (world : World C V) : Op → Prop
  | .record record => ∀ offset data, parseRecord engine.inflate record = .ok (.output offset data) →
      world.announced = some offset ∧ data = between stream offset data.length ∧ offset + data.length < u64
  | _ => True

def Mirror.completed (engine : Engine C V) (mirror : Mirror C V) (record : List UInt8) : Option Assembly :=
  match parseRecord engine.inflate record with
  | .ok (.snapshot offset data) =>
    match Mirror.joined engine { mirror with awaitingSnapshot := false } offset data with
    | (mirror, .ok true) => mirror.assembly
    | _ => none
  | _ => none

-- A snapshot decodes within the limits, and what queued behind it can be applied to it.
def Assembly.restores (engine : Engine C V) (assembly : Assembly) : Bool :=
  ((Mirror.restored engine assembly.buffer true).bind fun vt => (Mirror.replay engine true assembly.following none vt).2).isSome

-- Every full snapshot that a record completes can be restored, and copy mode begins only where it is not on.
def Restores (engine : Engine C V) (world : World C V) : Op → Prop
  | .record record => world.up = true → world.mirror.listens (parseRecord engine.inflate record) = true →
      ∀ assembly, world.mirror.completed engine record = some assembly → assembly.kind.isFull = true →
        assembly.restores engine = true
  | .freeze _ => world.mirror.frozen = none
  | _ => True

def bytesOf (items : List Following) : List UInt8 :=
  items.flatMap fun item => match item with
    | .bytes data => data
    | .marker _ => []

namespace Engine

variable (engine : Engine C V)

def taken (content : C) : Following → Option C
  | .bytes data => some (data.foldl engine.put content)
  | .marker (.resize size) => engine.resize content size
  | .marker (.dead _) => some content

-- The decoding of a full snapshot, followed by what came after it.
def rebuilt (shot : Shot) (items : List Following) : Option C := do
  let vt ← engine.decode shot.body .full
  let content ← engine.configure vt.content
  items.foldlM engine.taken content

end Engine

-- A terminal shows a snapshot and, after it, exactly the pane's output from the snapshot's end, with the markers between.
def Shown (engine : Engine C V) (stream : Nat → UInt8) (shot : Shot) (items : List Following) (vt : Terminal C V) : Prop :=
  engine.rebuilt shot items = some vt.content ∧ bytesOf items = between stream shot.offset (bytesOf items).length

end Kido.Mirrors

namespace Kido.Mirrors

open Kido.Shared

variable {C V : Type} {engine : Engine C V} {stream : Nat → UInt8}

theorem between_append (start first second : Nat) :
    between stream start (first + second) = between stream start first ++ between stream (start + first) second := by
  unfold between
  rw [List.range_add, List.map_append, List.map_map]
  congr 1
  apply List.map_congr_left
  intro index _
  rw [Function.comp_apply, Nat.add_assoc]

@[simp]
theorem between_length (start count : Nat) : (between stream start count).length = count := by simp [between]

theorem bytesOf_append (first second : List Following) : bytesOf (first ++ second) = bytesOf first ++ bytesOf second :=
  List.flatMap_append

@[simp]
theorem bytesOf_bytes (data : List UInt8) : bytesOf [.bytes data] = data := by simp [bytesOf]

@[simp]
theorem bytesOf_marker (marker : Marker) : bytesOf [.marker marker] = [] := rfl

theorem between_bytes {items : List Following} {start : Nat} {data : List UInt8}
    (bytes : bytesOf items = between stream start (bytesOf items).length)
    (next : data = between stream (start + (bytesOf items).length) data.length) :
    bytesOf (items ++ [.bytes data]) = between stream start (bytesOf (items ++ [.bytes data])).length := by
  rw [bytesOf_append, bytesOf_bytes, List.length_append, between_append, ← bytes, ← next]

theorem between_marker {items : List Following} {start : Nat} (marker : Marker)
    (bytes : bytesOf items = between stream start (bytesOf items).length) :
    bytesOf (items ++ [.marker marker]) = between stream start (bytesOf (items ++ [.marker marker])).length := by
  rw [bytesOf_append, bytesOf_marker, List.append_nil]
  exact bytes

namespace Engine

theorem rebuilt_eq {shot : Shot} {items : List Following} {content : C} :
    engine.rebuilt shot items = some content ↔ ∃ vt base, engine.decode shot.body .full = some vt ∧
      engine.configure vt.content = some base ∧ items.foldlM engine.taken base = some content := by
  simp only [rebuilt, Option.bind_eq_bind, Option.bind_eq_some_iff]
  constructor
  · rintro ⟨vt, decoded, base, configured, followed⟩
    exact ⟨vt, base, decoded, configured, followed⟩
  · rintro ⟨vt, base, decoded, configured, followed⟩
    exact ⟨vt, decoded, base, configured, followed⟩

theorem rebuilt_snoc {shot : Shot} {items : List Following} {item : Following} {content next : C}
    (before : engine.rebuilt shot items = some content) (taken : engine.taken content item = some next) :
    engine.rebuilt shot (items ++ [item]) = some next := by
  obtain ⟨vt, base, decoded, configured, followed⟩ := rebuilt_eq.1 before
  refine rebuilt_eq.2 ⟨vt, base, decoded, configured, ?_⟩
  rw [List.foldlM_append, followed]
  simp [taken]

theorem apply_taken {vt next : Terminal C V} {marker : Marker} (applied : engine.apply vt marker = some next) :
    engine.taken vt.content (.marker marker) = some next.content := by
  cases marker with
  | dead at_ =>
    cases applied
    rfl
  | resize size =>
    obtain ⟨content, resized, rfl⟩ := Option.map_eq_some_iff.1 applied
    exact resized

end Engine

theorem Shown.of_content {shot : Shot} {items : List Following} {vt other : Terminal C V}
    (shown : Shown engine stream shot items vt) (same : other.content = vt.content) : Shown engine stream shot items other :=
  ⟨same ▸ shown.1, shown.2⟩

theorem restored_rebuilt {buffer : List UInt8} {vt : Terminal C V} {items : List Following} {content : C} {offset : Nat}
    (restored : Mirror.restored engine buffer true = some vt) (followed : items.foldlM engine.taken vt.content = some content) :
    engine.rebuilt ⟨offset, buffer⟩ items = some content := by
  simp only [Mirror.restored, Option.bind_eq_bind, Option.bind_eq_some_iff, if_true] at restored
  obtain ⟨decoded, decodes, base, configured, watched⟩ := restored
  by_cases watch : engine.watch base = true
  · rw [if_pos watch] at watched
    cases watched
    exact Engine.rebuilt_eq.2 ⟨decoded, base, decodes, configured, followed⟩
  · rw [if_neg watch] at watched
    cases watched

theorem replay_taken {items : List Following} {dead after : Option Nat} {vt final : Terminal C V}
    (replayed : Mirror.replay engine true items dead vt = (after, some final)) :
    items.foldlM engine.taken vt.content = some final.content := by
  induction items generalizing dead vt with
  | nil =>
    cases replayed
    rfl
  | cons item rest ih =>
    cases item with
    | marker marker =>
      rw [Mirror.replay, if_pos rfl] at replayed
      cases applied : engine.apply vt marker with
      | none =>
        rw [applied] at replayed
        cases replayed
      | some next =>
        rw [applied] at replayed
        rw [List.foldlM_cons, Engine.apply_taken applied]
        exact ih replayed
    | bytes data =>
      rw [Mirror.replay] at replayed
      have same := engine.bottom_content vt
      rcases low : engine.bottom vt with ⟨next, moved⟩
      rw [low] at replayed same
      cases moved with
      | none => cases replayed
      | some moved =>
        rw [List.foldlM_cons]
        change (some (data.foldl engine.put vt.content) >>= _) = _
        rw [← same]
        exact ih replayed

theorem replay_dead (full : Bool) (items : List Following) (dead other : Option Nat) (vt : Terminal C V) :
    (Mirror.replay engine full items dead vt).2 = (Mirror.replay engine full items other vt).2 := by
  induction items generalizing dead other vt with
  | nil => rfl
  | cons item rest ih =>
    cases item with
    | marker marker =>
      rw [Mirror.replay, Mirror.replay]
      by_cases whole : full = true
      · rw [if_pos whole, if_pos whole]
        cases engine.apply vt marker with
        | none => rfl
        | some next => exact ih _ _ _
      · rw [if_neg whole, if_neg whole]
        exact ih _ _ _
    | bytes data =>
      rw [Mirror.replay, Mirror.replay]
      rcases engine.bottom vt with ⟨next, moved⟩
      cases moved with
      | none => rfl
      | some moved => exact ih _ _ _

namespace Surface

variable {surface : Surface C V} {vt : Terminal C V}

theorem scrollBottom_full (full : (surface.scrollBottom engine).1 = .full vt) :
    ∃ before, surface = .full before ∧ vt.content = before.content := by
  cases surface with
  | empty => cases full
  | full screen =>
    cases full
    exact ⟨screen, rfl, engine.bottom_content screen⟩
  | partly screen => cases full
  | loading screen delta =>
    rcases low : engine.bottom screen with ⟨after, _ | moved⟩ <;> simp [scrollBottom, low] at full

theorem scrollBottom_kind (full : surface = .full vt) : ∃ after, (surface.scrollBottom engine).1 = .full after := by
  subst full
  exact ⟨_, rfl⟩

theorem change_full {act : Terminal C V → Terminal C V} (full : surface.change act = .full vt) :
    ∃ before, surface = .full before ∧ vt = act before := by
  cases surface <;> cases full
  exact ⟨_, rfl, rfl⟩

end Surface

end Kido.Mirrors
