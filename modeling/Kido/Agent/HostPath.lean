import Kido.Runtime.Paths
import Mathlib.Algebra.Order.Ring.Nat

set_option autoImplicit false

namespace Kido.Pathing

open Kido.Shared (firstMax lastMax maxima keepFirst firstMax_eq lastMax_eq mem_maxima)

-- The length of a text in the code units of the extension's strings.
def units (text : List Char) : Nat := (text.map fun char => if char.toNat < 0x10000 then 1 else 2).sum

def sliceFrom : Nat → List Char → List Char
  | 0, text => text
  | _ + 1, [] => []
  | count + 1, char :: rest => sliceFrom (count + 1 - units [char]) rest

def trimSlashes (text : List Char) : List Char := (text.reverse.dropWhile (· = '/')).reverse

-- One segment in the loop of `posix.normalize`.
def resolve (above : Bool) (stack : List (List Char)) (segment : List Char) : List (List Char) :=
  if segment = [] ∨ segment = ['.'] then stack
  else if segment = ['.', '.'] then
    if stack ≠ [] ∧ stack.getLast? ≠ some ['.', '.'] then stack.dropLast
    else if above then stack ++ [segment] else stack
  else stack ++ [segment]

def normalize (text : List Char) : List Char :=
  let absolute := text.head? = some '/'
  let trailing := text.getLast? = some '/'
  let resolved := ['/'].intercalate ((text.splitOn '/').foldl (resolve (decide ¬absolute)) [])
  if text = [] then ['.']
  else if resolved = [] then (if absolute then ['/'] else if trailing then ['.', '/'] else ['.'])
  else (if absolute then ['/'] else []) ++ resolved ++ if trailing then ['/'] else []

def posixJoin (first second : List Char) : List Char :=
  let joined := ['/'].intercalate ([first, second].filter (· ≠ []))
  if joined = [] then ['.'] else normalize joined

structure Best where
  base : List Char
  runtime : List Char

def holds (path base : List Char) : Bool := path = base || (base ++ ['/']).isPrefixOf path

def better (path : List Char) (best : Option Best) (entry : PathMap) : Option Best :=
  let base := trimSlashes entry.host.text
  let longer :=
    match best with
    | none => true
    | some best => decide (units best.base < units base)
  if holds path base && longer then some ⟨base, entry.runtime.text⟩ else best

def mapHostPath (paths : List PathMap) (path : List Char) : Option (List Char) :=
  (paths.foldl (better path) none).map fun best => posixJoin best.runtime (sliceFrom (units best.base) path)

section Texts

-- A part of a path that names an entry of a directory.
def Plain (name : List Char) : Prop := component name = some (.normal name) ∧ '/' ∉ name

instance (name : List Char) : Decidable (Plain name) :=
  inferInstanceAs (Decidable (component name = some (.normal name) ∧ '/' ∉ name))

def flat (names : List (List Char)) : List Char := names.flatMap ('/' :: ·)

-- An absolute path without empty, dot and parent parts, with slashes behind it.
structure Spelled (text : List Char) (names : List (List Char)) (slashes : Nat) : Prop where
  plain : ∀ name ∈ names, Plain name
  whole : text = flat names ++ List.replicate slashes '/'
  some_ : text ≠ []

theorem parts_append (front back : List Char) : parts (front ++ '/' :: back) = parts front ++ parts back := by
  rw [parts, List.splitOn_append_cons_of_beq front back (BEq.rfl), List.filterMap_append]
  rfl

theorem parts_nil : parts [] = [] := rfl

theorem parts_plain {name : List Char} (plain : Plain name) : parts name = [.normal name] := by
  rw [parts, List.splitOn_eq_singleton plain.2, List.filterMap_cons_some plain.1, List.filterMap_nil]

theorem parts_flat {names : List (List Char)} (plain : ∀ name ∈ names, Plain name) (front : List Char) :
    parts (front ++ flat names) = parts front ++ names.map .normal := by
  induction names generalizing front with
  | nil => rw [flat, List.flatMap_nil, List.append_nil, List.map_nil, List.append_nil]
  | cons name rest ih =>
    have here := parts_plain (plain name List.mem_cons_self)
    have later := ih (fun other among => plain other (List.mem_cons_of_mem name among)) name
    rw [flat, List.flatMap_cons, List.cons_append, parts_append]
    rw [flat] at later
    rw [later, here, List.map_cons, List.singleton_append]

theorem parts_slashes (front : List Char) (count : Nat) : parts (front ++ List.replicate count '/') = parts front := by
  induction count generalizing front with
  | zero => rw [List.replicate_zero, List.append_nil]
  | succ count ih =>
    have rest := ih []
    rw [List.nil_append, parts_nil] at rest
    rw [List.replicate_succ, parts_append, rest, List.append_nil]

theorem flat_head {names : List (List Char)} (any : names ≠ []) : ∃ rest, flat names = '/' :: rest := by
  cases names with
  | nil => exact absurd rfl any
  | cons name rest => exact ⟨name ++ flat rest, by rw [flat, List.flatMap_cons]; rfl⟩

theorem Spelled.head {text : List Char} {names : List (List Char)} {slashes : Nat} (spelled : Spelled text names slashes) :
    text.head? = some '/' := by
  have any := spelled.some_
  rw [spelled.whole] at any ⊢
  cases names with
  | nil =>
    cases slashes with
    | zero => exact absurd rfl any
    | succ count => rfl
  | cons name rest => rfl

theorem Spelled.components {text : List Char} {names : List (List Char)} {slashes : Nat} (spelled : Spelled text names slashes) :
    components text = .root :: names.map .normal := by
  have split := parts_flat spelled.plain []
  rw [List.nil_append, parts_nil, List.nil_append] at split
  rw [Pathing.components, if_pos spelled.head, spelled.whole, parts_slashes, split]

theorem normal_injective : Function.Injective Component.normal := fun _ _ same => Component.normal.inj same

theorem Spelled.trimmed {text : List Char} {names : List (List Char)} {slashes : Nat} (spelled : Spelled text names slashes) :
    trimSlashes text = flat names := by
  have slashes_ : ∀ char ∈ List.replicate slashes '/', decide (char = '/') = true := by
    intro char among
    rw [List.eq_of_mem_replicate among]
    rfl
  rw [trimSlashes, spelled.whole, List.reverse_append, List.reverse_replicate, List.dropWhile_append_of_pos slashes_,
    ← List.reverse_reverse (flat names)]
  congr 1
  rw [List.reverse_reverse]
  have plain := spelled.plain
  cases names using List.reverseRecOn with
  | nil => rfl
  | append_singleton before last =>
    obtain ⟨some_, none_⟩ := plain last (by simp)
    cases last using List.reverseRecOn with
    | nil => cases some_
    | append_singleton front char =>
      have other : char ≠ '/' := by
        rintro rfl
        exact none_ (by simp)
      rw [flat, List.flatMap_append, List.flatMap_singleton, List.reverse_append, ← List.cons_append, List.reverse_append,
        List.reverse_singleton, List.append_assoc, List.singleton_append, List.dropWhile_cons_of_neg (by simpa using other)]

theorem units_cons (char : Char) (rest : List Char) : units (char :: rest) = units [char] + units rest := by simp [units]

theorem units_append (front back : List Char) : units (front ++ back) = units front + units back := by
  rw [units, List.map_append, List.sum_append]
  rfl

theorem units_pos (char : Char) : 0 < units [char] := by
  simp only [units, List.map_singleton, List.sum_singleton]
  split <;> decide

theorem sliceFrom_append (front back : List Char) : sliceFrom (units front) (front ++ back) = back := by
  induction front with
  | nil => cases back <;> rfl
  | cons char rest ih =>
    have some_ := units_pos char
    obtain ⟨count, same⟩ := Nat.exists_eq_succ_of_ne_zero (show units (char :: rest) ≠ 0 by rw [units_cons]; omega)
    have left : count + 1 - units [char] = units rest := by
      rw [units_cons] at same
      omega
    rw [same, List.cons_append, sliceFrom, left, ih]

theorem units_flat_lt {names more : List (List Char)} (any : more ≠ []) : units (flat names) < units (flat (names ++ more)) := by
  obtain ⟨rest, begins⟩ := flat_head any
  have some_ := units_pos '/'
  have split : flat (names ++ more) = flat names ++ flat more := List.flatMap_append
  rw [split, units_append, begins, units_cons]
  omega

-- Among directories that hold one path, the text is as much longer as the components are more.
theorem units_flat {names other path : List (List Char)} (first : names <+: path) (second : other <+: path) :
    units (flat names) ≤ units (flat other) ↔ names.length ≤ other.length := by
  have under {shorter longer : List (List Char)} (below : shorter <+: longer) :
      units (flat shorter) ≤ units (flat longer) ∧ (units (flat longer) ≤ units (flat shorter) → shorter = longer) := by
    obtain ⟨more, rfl⟩ := below
    by_cases none_ : more = []
    · rw [none_, List.append_nil]
      exact ⟨Nat.le_refl _, fun _ => rfl⟩
    · have less := @units_flat_lt shorter more none_
      exact ⟨by omega, fun bound => by omega⟩
  obtain below | above := List.prefix_or_prefix_of_prefix first second
  · exact iff_of_true (under below).1 below.length_le
  · constructor
    · intro bound
      rw [(under above).2 bound]
    · intro bound
      rw [above.eq_of_length_le bound]

-- A path has no slash behind it but the root.
def Bare (path : List Char) (names : List (List Char)) : Prop := Spelled path names (if names = [] then 1 else 0)

theorem Bare.holds {path : List Char} {names : List (List Char)} (bare : Bare path names) {base : List (List Char)}
    (plain : ∀ name ∈ base, Plain name) : holds path (flat base) = true ↔ base <+: names := by
  have whole := bare.whole
  have parted : parts path = names.map .normal := by
    rw [whole, parts_slashes]
    exact parts_flat bare.plain []
  have based : parts (flat base) = base.map .normal := parts_flat plain []
  rw [Pathing.holds, Bool.or_eq_true, decide_eq_true_eq, List.isPrefixOf_iff_prefix]
  constructor
  · rintro (rfl | ⟨tail, begins⟩)
    · rw [based] at parted
      rw [List.map_injective_iff.2 normal_injective parted]
    · rw [List.append_assoc, List.singleton_append] at begins
      rw [← begins, parts_append, based] at parted
      exact (List.prefix_map_iff_of_injective normal_injective).1 ⟨_, parted⟩
  · rintro ⟨more, rfl⟩
    by_cases none_ : more = []
    · subst none_
      rw [List.append_nil] at whole
      by_cases root : base = []
      · subst root
        rw [if_pos rfl] at whole
        exact .inr ⟨[], by rw [whole]; rfl⟩
      · rw [if_neg root, List.replicate_zero, List.append_nil] at whole
        exact .inl whole
    · obtain ⟨rest, begins⟩ := flat_head none_
      have split : flat (base ++ more) = flat base ++ flat more := List.flatMap_append
      rw [if_neg fun nothing => none_ (List.append_eq_nil_iff.1 nothing).2, List.replicate_zero, List.append_nil, split, begins] at whole
      exact .inr ⟨rest, by rw [whole, List.append_assoc, List.singleton_append]⟩

end Texts

section Normalize

theorem splitOn_apart {text part : List Char} (among : part ∈ text.splitOn '/') : '/' ∉ part := by
  induction text generalizing part with
  | nil =>
    rw [List.splitOn_nil, List.mem_singleton] at among
    rw [among]
    exact List.not_mem_nil
  | cons char rest ih =>
    rw [List.splitOn_cons_eq_if_modifyHead] at among
    split at among
    next =>
      obtain rfl | among := List.mem_cons.1 among
      · exact List.not_mem_nil
      · exact ih among
    next other =>
      cases split : rest.splitOn '/' with
      | nil => exact absurd split (List.splitOn_ne_nil '/' rest)
      | cons head tail =>
        rw [split, List.modifyHead_cons] at among
        obtain rfl | among := List.mem_cons.1 among
        · rintro here
          obtain rfl | inside := List.mem_cons.1 here
          · exact other BEq.rfl
          · exact ih (split ▸ List.mem_cons_self) inside
        · exact ih (split ▸ List.mem_cons_of_mem head among)

theorem component_cases (name : List Char) :
    (component name = none ∧ (name = [] ∨ name = ['.'])) ∨ (component name = some .parent ∧ name = ['.', '.']) ∨
      (component name = some (.normal name) ∧ ¬(name = [] ∨ name = ['.']) ∧ name ≠ ['.', '.']) := by
  rw [component.eq_def]
  split
  next => exact .inl ⟨rfl, .inl rfl⟩
  next => exact .inl ⟨rfl, .inr rfl⟩
  next => exact .inr (.inl ⟨rfl, rfl⟩)
  next first second third => exact .inr (.inr ⟨rfl, by rintro (same | same) <;> simp_all, third⟩)

-- Without parent parts, only empty parts and dots go.
theorem resolve_plain {segments : List (List Char)} (plain : .parent ∉ segments.filterMap component) (above : Bool)
    (stack : List (List Char)) : ∃ kept, segments.foldl (resolve above) stack = stack ++ kept ∧
      segments.filterMap component = kept.map .normal ∧ ∀ name ∈ kept, name ∈ segments ∧ component name = some (.normal name) := by
  induction segments generalizing stack with
  | nil => exact ⟨[], by rw [List.foldl_nil, List.append_nil], rfl, nofun⟩
  | cons segment rest ih =>
    rw [List.foldl_cons]
    obtain ⟨none_, skipped⟩ | ⟨parent, same⟩ | ⟨normal, other, up⟩ := component_cases segment
    · rw [List.filterMap_cons_none none_] at plain ⊢
      obtain ⟨kept, folded, made, all⟩ := ih plain stack
      rw [resolve, if_pos skipped]
      exact ⟨kept, folded, made, fun name among => ⟨List.mem_cons_of_mem _ (all name among).1, (all name among).2⟩⟩
    · rw [List.filterMap_cons_some parent] at plain
      exact absurd List.mem_cons_self plain
    · rw [List.filterMap_cons_some normal] at plain ⊢
      obtain ⟨kept, folded, made, all⟩ := ih (fun later => plain (List.mem_cons_of_mem _ later)) (stack ++ [segment])
      rw [resolve, if_neg other, if_neg up]
      refine ⟨segment :: kept, ?_, ?_, ?_⟩
      · rw [folded, List.append_assoc, List.singleton_append]
      · rw [made, List.map_cons]
      · rw [List.forall_mem_cons]
        exact ⟨⟨List.mem_cons_self, normal⟩, fun name among => ⟨List.mem_cons_of_mem _ (all name among).1, (all name among).2⟩⟩

theorem flat_intercalate {names : List (List Char)} (any : names ≠ []) : '/' :: ['/'].intercalate names = flat names := by
  induction names with
  | nil => exact absurd rfl any
  | cons name rest ih =>
    cases rest with
    | nil =>
      rw [List.intercalate_singleton, flat, List.flatMap_singleton]
    | cons next later =>
      have rest := ih (List.cons_ne_nil next later)
      rw [List.intercalate_cons_cons, List.append_assoc, List.singleton_append, rest]
      rfl

theorem components_normalize {text : List Char} (absolute : text.head? = some '/') (plain : .parent ∉ parts text) :
    components (normalize text) = components text := by
  obtain ⟨kept, folded, made, all⟩ := resolve_plain plain (decide ¬text.head? = some '/') []
  rw [List.nil_append] at folded
  have some_ : text ≠ [] := by
    rintro rfl
    cases absolute
  have same : components text = .root :: kept.map .normal := by rw [components, if_pos absolute, parts, made]
  simp only [normalize]
  rw [folded, if_neg some_, if_pos absolute, if_pos absolute, same]
  by_cases none_ : kept = []
  · subst none_
    rfl
  · have whole := flat_intercalate none_
    have any : ['/'].intercalate kept ≠ [] := by
      cases kept with
      | nil => exact absurd rfl none_
      | cons name rest =>
        have known := (all name List.mem_cons_self).2
        intro nothing
        have empty : name = [] := by
          cases rest with
          | nil => rwa [List.intercalate_singleton] at nothing
          | cons next later =>
            rw [List.intercalate_cons_cons] at nothing
            exact (List.append_eq_nil_iff.1 (List.append_eq_nil_iff.1 nothing).1).1
        rw [empty] at known
        cases known
    rw [if_neg any, List.singleton_append, whole]
    have spelled (count : Nat) : Spelled (flat kept ++ List.replicate count '/') kept count :=
      ⟨fun name among => ⟨(all name among).2, splitOn_apart (all name among).1⟩, rfl, by
        obtain ⟨rest, begins⟩ := flat_head none_
        rw [begins]
        exact List.cons_ne_nil _ _⟩
    split
    next => exact (spelled 1).components
    next => exact (spelled 0).components

-- Two absolute paths are joined part by part, also where the second is empty.
theorem components_posixJoin {first : List Char} (absolute : first.head? = some '/') (second : List Char)
    (plain : .parent ∉ parts first ++ parts second) :
    components (posixJoin first second) = .root :: (parts first ++ parts second) := by
  have any : first ≠ [] := by
    rintro rfl
    cases absolute
  by_cases none_ : second = []
  · subst none_
    have joined : ['/'].intercalate ([first, []].filter (· ≠ [])) = first := by simp [any]
    rw [parts_nil, List.append_nil] at plain ⊢
    rw [posixJoin, joined, if_neg any, components_normalize absolute plain, components, if_pos absolute]
  · have joined : ['/'].intercalate ([first, second].filter (· ≠ [])) = first ++ '/' :: second := by simp [any, none_]
    have begins : (first ++ '/' :: second).head? = some '/' := by rw [List.head?_append_of_ne_nil _ any, absolute]
    rw [← parts_append] at plain ⊢
    rw [posixJoin, joined, if_neg (by simp), components_normalize begins plain, components, if_pos begins]

end Normalize

section Alike

-- The directory of the host that a map has, and its base as the extension has it.
def base (entry : PathMap) : List Char := trimSlashes entry.host.text

def covering (paths : List PathMap) (path : List Component) : List PathMap :=
  paths.filter fun entry => entry.host.components.isPrefixOf path

-- The maps whose directory on the host is the longest that holds a path, in their order.
def longest (paths : List PathMap) (path : List Component) : List PathMap :=
  maxima (fun entry => entry.host.components.length) (covering paths path)

theorem lastMax_map {α β : Type} (key : β → Nat) (f : α → β) (items : List α) :
    lastMax key (items.map f) = (lastMax (fun item => key (f item)) items).map f := by
  induction items using List.reverseRecOn with
  | nil => rfl
  | append_singleton before item ih =>
    rw [List.map_append, List.map_singleton, Shared.lastMax_append, Shared.lastMax_append, ih]
    cases lastMax (fun item => key (f item)) before with
    | none => rfl
    | some best =>
      rw [Option.map_some, Shared.keepLast, Shared.keepLast]
      split <;> rfl

theorem mapCwd_longest (paths : List PathMap) {path : List Component} (plain : .parent ∉ path) :
    mapCwd paths none path =
      (longest paths path).getLast?.map fun entry => join entry.runtime.components (path.drop entry.host.components.length) := by
  have found : (paths.map PathMap.inward).filterMap (mapped path) = (covering paths path).map fun entry =>
      ⟨entry.host.components.length, entry.runtime.components, path.drop entry.host.components.length⟩ := by
    rw [List.filterMap_map, covering, ← List.filterMap_eq_map, ← List.filterMap_eq_filter, List.filterMap_filterMap]
    refine List.filterMap_congr fun entry _ => ?_
    by_cases here : entry.host.components.isPrefixOf path = true <;>
      simp [PathMap.inward, mapped, stripPrefix, Option.guard, here]
  have none_ : path.any (· = .parent) = false := by
    rw [List.any_eq_false]
    rintro part among same
    rw [decide_eq_true_eq] at same
    exact plain (same ▸ among)
  rw [mapCwd, Option.or_none, translate, none_, found, lastMax_map, longest, ← lastMax_eq, Option.map_map]
  rfl

def bestOf (entry : PathMap) : Best := ⟨base entry, entry.runtime.text⟩

theorem better_holds {path : List Char} {entry : PathMap} (here : holds path (base entry) = true) (best : Option PathMap) :
    better path (best.map bestOf) entry = (keepFirst (fun entry => units (base entry)) best entry).map bestOf := by
  cases best with
  | none =>
    rw [Option.map_none, better, if_pos (by rw [Bool.and_true]; exact here)]
    rfl
  | some best =>
    rw [Option.map_some, better, keepFirst]
    have longer (next : Bool) : (holds path (trimSlashes entry.host.text) && next) = next := by
      rw [show holds path (trimSlashes entry.host.text) = true from here, Bool.true_and]
    rw [longer]
    split
    next less =>
      have shorter : units (base best) < units (base entry) := of_decide_eq_true less
      rw [if_pos shorter]
      rfl
    next covers =>
      have longer : ¬units (base best) < units (base entry) := fun less => covers (decide_eq_true less)
      rw [if_neg longer]
      rfl

theorem better_other {path : List Char} {entry : PathMap} (other : ¬holds path (base entry) = true) (best : Option Best) :
    better path best entry = best := by
  rw [base] at other
  simp [better, other]

theorem mapHostPath_first (paths : List PathMap) (path : List Char) :
    mapHostPath paths path = (maxima (fun entry => units (base entry)) (paths.filter fun entry => holds path (base entry))).head?.map
      fun entry => posixJoin entry.runtime.text (sliceFrom (units (base entry)) path) := by
  have folded (best : Option PathMap) : paths.foldl (better path) (best.map bestOf) =
      ((paths.filter fun entry => holds path (base entry)).foldl (keepFirst fun entry => units (base entry)) best).map bestOf := by
    induction paths generalizing best with
    | nil => rfl
    | cons entry rest ih =>
      rw [List.foldl_cons, List.filter_cons]
      split
      next here => rw [better_holds here, ih, List.foldl_cons]
      next other => rw [better_other other, ih]
  have whole := folded none
  rw [Option.map_none] at whole
  rw [mapHostPath, whole, ← firstMax_eq, firstMax, Option.map_map]
  rfl

theorem maxima_congr {α : Type} {key other : α → Nat} {items : List α}
    (same : ∀ first ∈ items, ∀ second ∈ items, key first ≤ key second ↔ other first ≤ other second) :
    maxima key items = maxima other items := by
  refine List.filter_congr fun item here => ?_
  rw [Bool.eq_iff_iff, List.all_eq_true, List.all_eq_true]
  refine forall₂_congr fun second there => ?_
  rw [decide_eq_true_eq, decide_eq_true_eq]
  exact same second there item here

-- A directory without empty, dot and parent parts, with slashes behind it or not.
def Normalized (text : List Char) : Prop := ∃ names slashes, Spelled text names slashes

variable {paths : List PathMap} {path : List Char}

theorem first_longest {names : List (List Char)} (normalized : ∀ entry ∈ paths, Normalized entry.host.text)
    (bare : Bare path names) :
    maxima (fun entry => units (base entry)) (paths.filter fun entry => holds path (base entry)) =
      longest paths (components path) := by
  have spelled : ∀ entry ∈ paths, ∃ host, base entry = flat host ∧ entry.host.components = .root :: host.map .normal ∧
      (holds path (base entry) = true ↔ host <+: names) := by
    intro entry among
    obtain ⟨host, slashes, spelled⟩ := normalized entry among
    have trimmed : base entry = flat host := spelled.trimmed
    exact ⟨host, trimmed, spelled.components, by rw [trimmed, bare.holds spelled.plain]⟩
  have covers : (paths.filter fun entry => holds path (base entry)) = covering paths (components path) := by
    refine List.filter_congr fun entry among => ?_
    obtain ⟨host, _, shown, iff⟩ := spelled entry among
    rw [Bool.eq_iff_iff, iff, List.isPrefixOf_iff_prefix, shown, bare.components, List.cons_prefix_cons,
      List.prefix_map_iff_of_injective normal_injective]
    exact (and_iff_right rfl).symm
  rw [longest, ← covers]
  refine maxima_congr fun first here second there => ?_
  obtain ⟨here, one⟩ := List.mem_filter.1 here
  obtain ⟨there, two⟩ := List.mem_filter.1 there
  obtain ⟨host, trimmed, shown, iff⟩ := spelled first here
  obtain ⟨host', trimmed', shown', iff'⟩ := spelled second there
  rw [trimmed, trimmed', shown, shown', units_flat (iff.1 one) (iff'.1 two)]
  simp

-- What a map makes of a path on either side.
theorem joined_alike {names : List (List Char)} (bare : Bare path names) {entry : PathMap}
    (host : Normalized entry.host.text) (runtime : Normalized entry.runtime.text)
    (covers : entry.host.components <+: components path) :
    components (posixJoin entry.runtime.text (sliceFrom (units (base entry)) path)) =
      join entry.runtime.components ((components path).drop entry.host.components.length) := by
  obtain ⟨above, slashes, host⟩ := host
  obtain ⟨target, slashes', runtime⟩ := runtime
  have shown : entry.host.components = .root :: above.map .normal := host.components
  have shown' : entry.runtime.components = .root :: target.map .normal := runtime.components
  rw [shown, bare.components, List.cons_prefix_cons, List.prefix_map_iff_of_injective normal_injective] at covers
  obtain ⟨more, rfl⟩ := covers.2
  have plain : ∀ name ∈ more, Plain name := fun name among => bare.plain name (List.mem_append_right above among)
  have left : sliceFrom (units (base entry)) path = flat more ++ List.replicate (if above ++ more = [] then 1 else 0) '/' := by
    have trimmed : base entry = flat above := host.trimmed
    have split : flat (above ++ more) = flat above ++ flat more := List.flatMap_append
    rw [trimmed, bare.whole, split, List.append_assoc, sliceFrom_append]
  have rest : parts (sliceFrom (units (base entry)) path) = more.map .normal := by
    rw [left, parts_slashes]
    exact parts_flat plain []
  have front : parts entry.runtime.text = target.map .normal := by
    rw [runtime.whole, parts_slashes]
    exact parts_flat runtime.plain []
  have dropped : (components path).drop entry.host.components.length = more.map .normal := by
    rw [shown, bare.components, List.map_append, List.length_cons, List.drop_succ_cons, List.drop_left]
  have relative {names : List (List Char)} : Component.root ∉ names.map Component.normal := by simp
  rw [components_posixJoin runtime.head _ (by rw [front, rest]; simp), front, rest, dropped, join_relative relative, shown']
  rfl

-- The extension finds the path that the server finds where the first and the last of the maps with the longest
-- directory have the same directory in the runtime.
theorem paths_alike {names : List (List Char)}
    (normalized : ∀ entry ∈ paths, Normalized entry.host.text ∧ Normalized entry.runtime.text) (bare : Bare path names) :
    (mapHostPath paths path).map components = mapCwd paths none (components path) ↔
      ((longest paths (components path)).head?.map fun entry => entry.runtime.components) =
        (longest paths (components path)).getLast?.map fun entry => entry.runtime.components := by
  have plain : .parent ∉ components path := by
    rw [bare.components]
    simp
  have covers : ∀ entry ∈ longest paths (components path), entry ∈ paths ∧ entry.host.components <+: components path := by
    intro entry among
    obtain ⟨here, covers⟩ := List.mem_filter.1 (mem_maxima.1 among).1
    exact ⟨here, List.isPrefixOf_iff_prefix.1 covers⟩
  rw [mapHostPath_first, mapCwd_longest paths plain, first_longest (fun entry among => (normalized entry among).1) bare]
  cases first : (longest paths (components path)).head? with
  | none =>
    rw [List.head?_eq_none_iff] at first
    rw [first]
    exact iff_of_true rfl rfl
  | some one =>
    have some_ : longest paths (components path) ≠ [] := by
      intro nothing
      rw [nothing] at first
      cases first
    obtain ⟨two, last⟩ := Option.isSome_iff_exists.1 (List.getLast?_isSome.2 some_)
    obtain ⟨here, over_⟩ := covers one (List.mem_of_head? first)
    obtain ⟨there, over'⟩ := covers two (List.mem_of_getLast? last)
    have same : one.host.components.length = two.host.components.length := by
      have first := (mem_maxima.1 (List.mem_of_head? first))
      have last := (mem_maxima.1 (List.mem_of_getLast? last))
      exact Nat.le_antisymm (last.2 one first.1) (first.2 two last.1)
    have relative : .root ∉ (components path).drop two.host.components.length := by
      obtain ⟨rest, split⟩ := over'
      rw [← split, List.drop_left]
      exact rest_rootless split.symm
    rw [last]
    simp only [Option.map_some, Option.some.injEq]
    rw [joined_alike bare (normalized one here).1 (normalized one here).2 over_, same, join_relative relative, join_relative relative]
    exact List.append_left_inj _

def rebound : List PathMap :=
  [⟨climbing.host, ⟨"/a".toList, rfl, by decide⟩⟩, ⟨climbing.host, ⟨"/b".toList, rfl, by decide⟩⟩]

theorem plain_letters : ∀ letter ∈ ['h', 'k', 'x', 'a', 'b', 'c', 'd'], Plain [letter] := by
  simp only [List.forall_mem_cons]
  exact ⟨by decide, by decide, by decide, by decide, by decide, by decide, by decide, nofun⟩

theorem spelled_letters {letters : List Char} (among : letters ⊆ ['h', 'k', 'x', 'a', 'b', 'c', 'd']) (some_ : letters ≠ []) :
    Spelled (flat (letters.map fun letter => [letter])) (letters.map fun letter => [letter]) 0 where
  plain := List.forall_mem_map.2 fun letter member => plain_letters letter (among member)
  whole := (List.append_nil _).symm
  some_ := by
    obtain ⟨letter, rest, rfl⟩ := List.exists_cons_of_ne_nil some_
    nofun

theorem normalized_letters {letters : List Char} (among : letters ⊆ ['h', 'k', 'x', 'a', 'b', 'c', 'd']) (some_ : letters ≠ []) :
    Normalized (flat (letters.map fun letter => [letter])) :=
  ⟨_, _, spelled_letters among some_⟩

theorem rebound_normalized : ∀ entry ∈ rebound, Normalized entry.host.text ∧ Normalized entry.runtime.text := by
  simp only [rebound, List.forall_mem_cons]
  exact ⟨⟨@normalized_letters ['h'] (by decide) nofun, @normalized_letters ['a'] (by decide) nofun⟩,
    ⟨@normalized_letters ['h'] (by decide) nofun, @normalized_letters ['b'] (by decide) nofun⟩, nofun⟩

theorem nested_normalized : ∀ entry ∈ nested, Normalized entry.host.text ∧ Normalized entry.runtime.text := by
  simp only [nested, List.forall_mem_cons]
  exact ⟨⟨@normalized_letters ['h'] (by decide) nofun, @normalized_letters ['c'] (by decide) nofun⟩,
    ⟨@normalized_letters ['h', 'k'] (by decide) nofun, @normalized_letters ['d'] (by decide) nofun⟩, nofun⟩

theorem rebound_parts :
    ¬∀ (paths : List PathMap) (path : List Char) (names : List (List Char)),
      (∀ entry ∈ paths, Normalized entry.host.text ∧ Normalized entry.runtime.text) → Bare path names →
      (mapHostPath paths path).map components = mapCwd paths none (components path) := by
  intro all
  have same := all rebound "/h".toList [['h']] rebound_normalized (@spelled_letters ['h'] (by decide) nofun)
  revert same
  decide

-- The server and the extension both take the directory within.
theorem nested_alike :
    (mapHostPath nested "/h/k/x".toList).map components = mapCwd nested none (components "/h/k/x".toList) :=
  (paths_alike nested_normalized (@spelled_letters ['h', 'k', 'x'] (by decide) nofun)).2 (by decide)

end Alike

end Kido.Pathing
