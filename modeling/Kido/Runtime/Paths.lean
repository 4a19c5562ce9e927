import Mathlib.Data.List.Basic
import Mathlib.Data.List.Infix
import Mathlib.Data.List.Pairwise
import Kido.Shared.Longest

set_option autoImplicit false

namespace Kido.Pathing

open Kido.Shared (lastMax lastMax_some lastMax_none)

inductive Component where
  | root
  | current
  | parent
  | normal (name : List Char)
deriving DecidableEq

-- An empty part and a dot say nothing inside a path.
def component : List Char → Option Component
  | [] => none
  | ['.'] => none
  | ['.', '.'] => some .parent
  | name => some (.normal name)

def parts (text : List Char) : List Component := (text.splitOn '/').filterMap component

def components (text : List Char) : List Component :=
  if text.head? = some '/' then .root :: parts text
  else if (text.splitOn '/').head? = some ['.'] then .current :: parts text
  else parts text

def stripPrefix (path source : List Component) : Option (List Component) :=
  if source.isPrefixOf path then some (path.drop source.length) else none

-- An absolute path takes the place of what it is joined to.
def join (path rest : List Component) : List Component := if rest.head? = some .root then rest else path ++ rest

structure Mapped where
  depth : Nat
  target : List Component
  rest : List Component

def mapped (path : List Component) (pair : List Component × List Component) : Option Mapped :=
  (stripPrefix path pair.1).map fun rest => ⟨pair.1.length, pair.2, rest⟩

def translate (pairs : List (List Component × List Component)) (path : List Component) : Option (List Component) :=
  if path.any (· = .parent) then none
  else (lastMax Mapped.depth (pairs.filterMap (mapped path))).map fun found => join found.target found.rest

structure AbsPath where
  text : List Char
  absolute : text.head? = some '/'
  whole : '\x00' ∉ text

structure PathMap where
  host : AbsPath
  runtime : AbsPath

def AbsPath.components (path : AbsPath) : List Component := Pathing.components path.text

def PathMap.inward (entry : PathMap) : List Component × List Component := (entry.host.components, entry.runtime.components)

def PathMap.outward (entry : PathMap) : List Component × List Component := (entry.runtime.components, entry.host.components)

def mapCwd (paths : List PathMap) (default : Option (List Component)) (hostCwd : List Component) : Option (List Component) :=
  (translate (paths.map PathMap.inward) hostCwd).or default

def hostCwd (paths : List PathMap) (runtimeCwd : List Component) : Option (List Component) :=
  translate (paths.map PathMap.outward) runtimeCwd

section Components

theorem parts_rootless (text : List Char) : .root ∉ parts text := by
  rw [parts, List.mem_filterMap]
  rintro ⟨part, _, same⟩
  rw [component.eq_def] at same
  split at same <;> cases same

theorem components_tail (text : List Char) : .root ∉ (components text).tail := by
  have rootless := parts_rootless text
  rw [components]
  split
  next => exact rootless
  next =>
    split
    next => exact rootless
    next => exact fun among => rootless (List.mem_of_mem_tail among)

theorem AbsPath.begins (path : AbsPath) : ∃ names, path.components = .root :: names :=
  ⟨parts path.text, if_pos path.absolute⟩

-- What is left of a path behind an absolute one is relative.
theorem rest_rootless {text : List Char} {source : AbsPath} {rest : List Component}
    (split : components text = source.components ++ rest) : .root ∉ rest := by
  obtain ⟨names, begins⟩ := source.begins
  have rootless := components_tail text
  rw [split, begins, List.cons_append, List.tail_cons] at rootless
  exact fun among => rootless (List.mem_append_right names among)

theorem join_relative {path rest : List Component} (relative : .root ∉ rest) : join path rest = path ++ rest := by
  rw [join, if_neg]
  exact fun root => relative (List.mem_of_head? root)

theorem stripPrefix_some {path source rest : List Component} : stripPrefix path source = some rest ↔ path = source ++ rest := by
  rw [stripPrefix]
  split
  next begins =>
    obtain ⟨later, rfl⟩ := List.isPrefixOf_iff_prefix.1 begins
    rw [List.drop_left, Option.some.injEq, List.append_cancel_left_eq]
  next other =>
    refine ⟨nofun, ?_⟩
    rintro rfl
    exact absurd (List.isPrefixOf_iff_prefix.2 (List.prefix_append source rest)) other

theorem mapped_some {path : List Component} {pair : List Component × List Component} {found : Mapped} :
    mapped path pair = some found ↔ found.depth = pair.1.length ∧ found.target = pair.2 ∧ path = pair.1 ++ found.rest := by
  rw [mapped, Option.map_eq_some_iff]
  constructor
  · rintro ⟨rest, stripped, rfl⟩
    exact ⟨rfl, rfl, stripPrefix_some.1 stripped⟩
  · rintro ⟨depth, target, split⟩
    refine ⟨found.rest, stripPrefix_some.2 split, ?_⟩
    rw [← depth, ← target]

end Components

section Translate

variable {pairs : List (List Component × List Component)} {path out : List Component}

theorem translate_none : translate pairs path = none ↔ .parent ∈ path ∨ ∀ pair ∈ pairs, ¬pair.1 <+: path := by
  rw [translate]
  split
  next parent =>
    have among : .parent ∈ path := by simpa using parent
    exact iff_of_true rfl (.inl among)
  next none_ =>
    have apart : .parent ∉ path := by simpa using none_
    rw [Option.map_eq_none_iff, lastMax_none, List.filterMap_eq_nil_iff, or_iff_right apart]
    refine forall₂_congr fun pair _ => ?_
    rw [mapped, Option.map_eq_none_iff, stripPrefix, ite_eq_right_iff, ← List.isPrefixOf_iff_prefix]
    exact forall_congr' fun _ => ⟨nofun, nofun⟩

theorem translate_some (made : translate pairs path = some out) :
    ∃ pair ∈ pairs, ∃ rest, path = pair.1 ++ rest ∧ out = join pair.2 rest ∧ .parent ∉ path ∧
      ∀ other ∈ pairs, other.1 <+: path → other.1.length ≤ pair.1.length := by
  rw [translate] at made
  split at made
  next => cases made
  next none_ =>
    obtain ⟨found, best, rfl⟩ := Option.map_eq_some_iff.1 made
    obtain ⟨among, most⟩ := lastMax_some best
    obtain ⟨pair, here, made⟩ := List.mem_filterMap.1 among
    obtain ⟨depth, target, split⟩ := mapped_some.1 made
    refine ⟨pair, here, found.rest, split, by rw [target], by simpa using none_, ?_⟩
    rintro other there ⟨later, whole⟩
    have bound := most ⟨other.1.length, other.2, later⟩ (List.mem_filterMap.2 ⟨other, there, mapped_some.2 ⟨rfl, rfl, whole.symm⟩⟩)
    rwa [depth] at bound

end Translate

section Maps

variable {paths : List PathMap} {entry : PathMap}

-- Neither path in the runtime is under the other.
def Clear (entry other : PathMap) : Prop :=
  ¬entry.runtime.components <+: other.runtime.components ∧ ¬other.runtime.components <+: entry.runtime.components

instance : Std.Symm Clear := ⟨fun _ _ both => ⟨both.2, both.1⟩⟩

def Apart (paths : List PathMap) : Prop := paths.Pairwise Clear

theorem Apart.same (apart : Apart paths) {other : PathMap} (here : entry ∈ paths) (there : other ∈ paths) {path : List Component}
    (first : entry.runtime.components <+: path) (second : other.runtime.components <+: path) : entry = other := by
  by_contra different
  have comparable := List.prefix_or_prefix_of_prefix first second
  obtain ⟨one, two⟩ := List.Pairwise.forall apart here there different
  exact comparable.elim one two

theorem mapCwd_some {text : List Char} {out : List Component} (made : mapCwd paths none (components text) = some out) :
    ∃ entry ∈ paths, ∃ rest, components text = entry.host.components ++ rest ∧ out = entry.runtime.components ++ rest ∧
      .root ∉ rest := by
  rw [mapCwd, Option.or_none] at made
  obtain ⟨pair, here, rest, split, same, _⟩ := translate_some made
  obtain ⟨entry, among, rfl⟩ := List.mem_map.1 here
  have relative := rest_rootless split
  exact ⟨entry, among, rest, split, by rw [same, join_relative relative]; rfl, relative⟩

-- A path that was mapped is mapped back by the map it was mapped with.
theorem hostCwd_mapCwd (apart : Apart paths) {text : List Char} {out : List Component}
    (made : mapCwd paths none (components text) = some out) (plain : .parent ∉ out) :
    hostCwd paths out = some (components text) := by
  obtain ⟨entry, here, rest, split, rfl, relative⟩ := mapCwd_some made
  have covers : entry.runtime.components <+: entry.runtime.components ++ rest := List.prefix_append _ _
  cases back : hostCwd paths (entry.runtime.components ++ rest) with
  | none =>
    obtain parent | others := translate_none.1 back
    · exact absurd parent plain
    · exact absurd covers (others entry.outward (List.mem_map_of_mem here))
  | some host =>
    obtain ⟨pair, among, later, parted, same, _⟩ := translate_some back
    obtain ⟨other, there, rfl⟩ := List.mem_map.1 among
    obtain rfl := apart.same there here ⟨later, parted.symm⟩ covers
    obtain rfl := List.append_cancel_left parted
    rw [same, join_relative relative, split]
    rfl

-- A path is mapped when it has no parent component and some map covers it, and then to the target of a map with the
-- longest source that covers it; what is mapped comes back when no map is under another in the runtime, unless the
-- path there has a parent component, which no direction takes.
theorem paths_mapped :
    (∀ (pairs : List (AbsPath × AbsPath)) (text : List Char),
      let translated := translate (pairs.map fun pair => (pair.1.components, pair.2.components)) (components text)
      (translated = none ↔ .parent ∈ components text ∨ ∀ pair ∈ pairs, ¬pair.1.components <+: components text) ∧
      ∀ out, translated = some out → ∃ pair ∈ pairs, ∃ rest,
        components text = pair.1.components ++ rest ∧ out = pair.2.components ++ rest ∧ .parent ∉ rest ∧
        ∀ other ∈ pairs, other.1.components <+: components text → other.1.components.length ≤ pair.1.components.length) ∧
    ∀ paths text, Apart paths → ∀ out, mapCwd paths none (components text) = some out →
      hostCwd paths out = if .parent ∈ out then none else some (components text) := by
  refine ⟨fun pairs text => ⟨?_, fun out made => ?_⟩, fun paths text apart out made => ?_⟩
  · rw [translate_none, List.forall_mem_map]
  · obtain ⟨pair, among, rest, split, same, plain, most⟩ := translate_some made
    obtain ⟨pair, here, rfl⟩ := List.mem_map.1 among
    rw [List.forall_mem_map] at most
    rw [join_relative (rest_rootless split)] at same
    rw [split] at plain
    exact ⟨pair, here, rest, split, same, fun parent => plain (List.mem_append_right _ parent), most⟩
  · split
    next parent => exact translate_none.2 (.inl parent)
    next plain => exact hostCwd_mapCwd apart made plain

-- A directory of the host and one in it, mapped apart.
def nested : List PathMap :=
  [⟨⟨"/h".toList, rfl, by decide⟩, ⟨"/c".toList, rfl, by decide⟩⟩, ⟨⟨"/h/k".toList, rfl, by decide⟩, ⟨"/d".toList, rfl, by decide⟩⟩]

theorem nested_mapped :
    mapCwd nested none (components "/h/k/x".toList) = some (components "/d/x".toList) ∧
      hostCwd nested (components "/d/x".toList) = some (components "/h/k/x".toList) := by
  have made : mapCwd nested none (components "/h/k/x".toList) = some (components "/d/x".toList) := by decide
  exact ⟨made, paths_mapped.2 nested _ (List.pairwise_pair.2 ⟨by decide, by decide⟩) _ made⟩

def climbing : PathMap := ⟨⟨"/h".toList, rfl, by decide⟩, ⟨"/a/../b".toList, rfl, by decide⟩⟩

theorem climbing_lost :
    ¬∀ paths text, Apart paths → .parent ∉ components text →
      (∃ entry ∈ paths, entry.host.components <+: components text) →
      (mapCwd paths none (components text)).bind (hostCwd paths) = some (components text) := by
  intro all
  have back := all [climbing] "/h/x".toList (List.pairwise_singleton _ _) (by decide)
    ⟨climbing, List.mem_singleton_self _, by decide⟩
  revert back
  decide

end Maps

end Kido.Pathing
