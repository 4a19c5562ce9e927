import Mathlib.Data.List.Basic
import Mathlib.Data.List.Nodup

set_option autoImplicit false

namespace Kido.Mentions

-- A text in the code units of the extension's strings.
abbrev Text := List UInt16

def ascii (text : String) : Text := text.toList.map fun char => UInt16.ofNat char.toNat

def minIdPrefix : Nat := 8

-- What `.` does not match.
def endsLine (unit : UInt16) : Bool := [10, 13, 0x2028, 0x2029].contains unit

-- What `\s` matches.
def isSpace (unit : UInt16) : Bool :=
  (9 ≤ unit && unit ≤ 13) || [32, 0xa0, 0x1680, 0x2028, 0x2029, 0x202f, 0x205f, 0x3000, 0xfeff].contains unit ||
    (0x2000 ≤ unit && unit ≤ 0x200a)

def isParenthesis (unit : UInt16) : Bool := unit = 40 || unit = 41

def opening : Text := ascii "(session "

def closing : Text := ascii ")"

-- `\(session ([^\s()]+)\)` for the whole text.
def session (text : Text) : Option Text :=
  if opening.isPrefixOf text then
    let inside := text.drop opening.length
    let id := inside.dropLast
    if inside = id ++ closing ∧ id ≠ [] ∧ id.all (fun unit => !isSpace unit && !isParenthesis unit) then some id else none
  else none

-- `(?:.* )?` may take so much of the text.
def skips (text : Text) (count : Nat) : Bool :=
  count = 0 || ((text.take count).getLast? = some 32 && (text.take (count - 1)).all fun unit => !endsLine unit)

-- The pattern tries the longest front first.
def mentioned (text : Text) : Option Text :=
  (List.range (text.length + 1)).reverse.findSome? fun count => if skips text count then session (text.drop count) else none

structure Address where
  wanted : Text
  mention : Bool

def normalizeAddress (text : Text) : Address :=
  let raw := if text.head? = some 64 then text.drop 1 else text
  match mentioned raw with
  | some id => ⟨id, true⟩
  | none => ⟨raw, false⟩

structure Row where
  id : Text
  pane : Text
  name : Text
  named : Bool
  ended : Bool
deriving DecidableEq

def matchesId (row : Row) (wanted : Text) : Bool := row.id = wanted || (row.pane ≠ [] && row.pane = wanted)

def matchesPrefix (row : Row) (wanted : Text) : Bool := minIdPrefix ≤ wanted.length && wanted.isPrefixOf row.id

-- Some other row begins with so much of the id.
def shared (ids : List Row) (agent : Row) (count : Nat) : Bool :=
  ids.any fun other => other ≠ agent && (agent.id.take count).isPrefixOf other.id

-- The loop of `completionValue`, for so many turns at most.
def lengthen (ids : List Row) (agent : Row) : Nat → Nat → Nat
  | 0, count => count
  | turns + 1, count =>
    if count < agent.id.length ∧ shared ids agent count = true then lengthen ids agent turns (count + 1) else count

def shortId (ids : List Row) (agent : Row) : Text := agent.id.take (lengthen ids agent agent.id.length minIdPrefix)

def completionValue (ids : List Row) (agent : Row) : Text :=
  ascii "@" ++ agent.name ++ ascii " " ++ opening ++ shortId ids agent ++ closing

inductive Resolution where
  | agent (row : Row)
  | several (wanted by_ : Text) (candidates : List Row)
  | short
  | outside (wanted : Text) (row : Row)
  | severalOutside (wanted by_ : Text) (candidates : List Row)
  | unknown (wanted : Text)
deriving DecidableEq

def decided (candidates : List Row) (wanted by_ : Text) : Option Resolution :=
  match candidates with
  | [] => none
  | [only] => some (.agent only)
  | _ => some (.several wanted by_ candidates)

def either (rows : List Row) (find : List Row → Option Resolution) : Option Resolution :=
  (find (rows.filter fun row => !row.ended)).or (find rows)

-- The case of a name does not count.
def sameName (lower : Text → Text) (row : Row) (wanted : Text) : Bool :=
  row.named && row.name ≠ [] && lower row.name = lower wanted

def matchAddress (lower : Text → Text) (rows : List Row) (address : Address) : Option Resolution :=
  let wanted := address.wanted
  let named := either rows fun group => decided (group.filter fun row => sameName lower row wanted) wanted (ascii "name")
  if address.mention = false ∧ named.isSome then named
  else
    (either rows fun group => decided (group.filter fun row => matchesId row wanted) wanted (ascii "id")).or
      (either rows fun group => decided (group.filter fun row => matchesPrefix row wanted) wanted (ascii "id"))

def resolveIn (lower : Text → Text) (all elsewhere : List Row) (address : Address) : Resolution :=
  let wanted := address.wanted
  let known := all ++ elsewhere
  let isKnown := known.any fun row =>
    matchesId row wanted || (!address.mention && (row.named && lower row.name = lower wanted))
  if wanted.length < minIdPrefix && !isKnown && known.any (fun row => wanted.isPrefixOf row.id) then .short
  else
    match matchAddress lower all address with
    | some resolution => resolution
    | none =>
      match matchAddress lower elsewhere address with
      | some (.agent row) => .outside wanted row
      | some (.several wanted by_ candidates) => .severalOutside wanted by_ candidates
      | some resolution => resolution
      | none => .unknown wanted

def listed (rows : List Row) : Text :=
  let shown (row : Row) : Text := row.id ++ ascii " (" ++ (if row.name = [] then row.id else row.name) ++ ascii ")"
  (ascii ", ").intercalate ((rows.map shown).mergeSort fun first second => decide (first ≤ second))

-- The error that a resolution is.
def Resolution.error : Resolution → Option Text
  | .agent _ => none
  | .several wanted by_ candidates => some (ascii "\"" ++ wanted ++ ascii "\" matches several by " ++ by_ ++ ascii ": " ++ listed candidates)
  | .short => some (ascii "id prefixes need at least 8 characters")
  | .outside wanted row => some (wanted ++ ascii " (" ++ row.id ++ ascii ") is in another session, not this one")
  | .severalOutside wanted by_ candidates =>
    some (ascii "\"" ++ wanted ++ ascii "\" matches several by " ++ by_ ++ ascii ": " ++ listed candidates ++ ascii ", none in this session")
  | .unknown wanted => some (ascii "no agent session matches \"" ++ wanted ++ ascii "\"")

section Pattern

-- A text that can stand as an id in a mention.
def Clear (text : Text) : Prop := text ≠ [] ∧ ∀ unit ∈ text, isSpace unit = false ∧ isParenthesis unit = false

theorem session_some {text id : Text} (found : session text = some id) : text = opening ++ id ++ closing ∧ Clear id := by
  rw [session] at found
  split at found
  next begins =>
    obtain ⟨inside, rfl⟩ := List.isPrefixOf_iff_prefix.1 begins
    rw [List.drop_left] at found
    dsimp only at found
    split at found
    next good =>
      obtain ⟨whole, some_, all⟩ := good
      obtain rfl := Option.some.inj found
      refine ⟨by rw [List.append_assoc, ← whole], some_, fun unit among => ?_⟩
      have here := List.all_eq_true.1 all unit among
      simpa using here
    next => cases found
  next => cases found

theorem session_made {id : Text} (clear : Clear id) : session (opening ++ id ++ closing) = some id := by
  have all : id.all (fun unit => !isSpace unit && !isParenthesis unit) = true := by
    rw [List.all_eq_true]
    intro unit among
    obtain ⟨space, parenthesis⟩ := clear.2 unit among
    rw [space, parenthesis]
    rfl
  have dropped : (opening ++ id ++ closing).drop opening.length = id ++ closing := by rw [List.append_assoc, List.drop_left]
  have last : (id ++ closing).dropLast = id := List.dropLast_concat
  rw [session, if_pos (List.isPrefixOf_iff_prefix.2 ⟨id ++ closing, by rw [List.append_assoc]⟩), dropped]
  dsimp only
  rw [last, if_pos ⟨rfl, clear.1, all⟩]

-- Behind the last space of such a text stand its id and a parenthesis.
theorem last_space {front front' id id' : Text} (clear : Clear id) (clear' : Clear id')
    (same : front ++ opening ++ id ++ closing = front' ++ opening ++ id' ++ closing) : id = id' := by
  have split (front id : Text) (clear : Clear id) :
      (front ++ opening ++ id ++ closing).reverse.takeWhile (· ≠ 32) = (id ++ closing).reverse := by
    have behind : ∀ unit ∈ (id ++ closing).reverse, decide (unit ≠ 32) = true := by
      intro unit among
      rw [decide_eq_true_eq]
      rintro rfl
      obtain here | here := List.mem_append.1 (List.mem_reverse.1 among)
      · exact absurd (clear.2 32 here).1 (by decide)
      · exact absurd here (by decide)
    have before : opening.reverse = 32 :: (ascii "(session").reverse := by decide
    rw [List.append_assoc, List.reverse_append, List.takeWhile_append_of_pos behind, @List.reverse_append _ front, before,
      List.cons_append, List.takeWhile_cons_of_neg (by decide), List.append_nil]
  have ends := split front id clear
  rw [same, split front' id' clear', List.reverse_inj] at ends
  exact (List.append_cancel_right ends).symm

theorem findSome_only {α β : Type} {find : α → Option β} {value : β} {items : List α}
    (only : ∀ item ∈ items, ∀ found, find item = some found → found = value) {item : α} (here : item ∈ items)
    (found : find item = some value) : items.findSome? find = some value := by
  cases first : items.findSome? find with
  | none => rw [List.findSome?_eq_none_iff.1 first item here] at found; cases found
  | some other =>
    obtain ⟨found', there, same⟩ := List.exists_of_findSome?_eq_some first
    rw [only found' there other same]

theorem mentioned_made {name id : Text} (line : ∀ unit ∈ name, endsLine unit = false) (clear : Clear id) :
    mentioned (name ++ ascii " " ++ opening ++ id ++ closing) = some id := by
  rw [mentioned]
  refine findSome_only (fun count among found here => ?_) (show name.length + 1 ∈ _ from ?_) ?_
  · split at here
    next =>
      obtain ⟨same, clear'⟩ := session_some here
      refine last_space clear' clear (?_ : ((name ++ ascii " " ++ opening ++ id ++ closing).take count) ++ opening ++ found ++ closing =
        name ++ ascii " " ++ opening ++ id ++ closing)
      rw [List.append_assoc, List.append_assoc, ← List.append_assoc opening, ← same, List.take_append_drop]
    next => cases here
  · rw [List.mem_reverse, List.mem_range]
    simp only [List.length_append]
    have one : (ascii " ").length = 1 := by decide
    omega
  · have one : (ascii " ") = [32] := by decide
    have front : (name ++ ascii " ").length = name.length + 1 := by rw [one, List.length_append, List.length_singleton]
    have taken : (name ++ ascii " " ++ opening ++ id ++ closing).take (name.length + 1) = name ++ ascii " " := by
      rw [List.append_assoc, List.append_assoc, ← front, List.take_left]
    have shorter : (name ++ ascii " " ++ opening ++ id ++ closing).take (name.length + 1 - 1) = name := by
      rw [Nat.add_sub_cancel, List.append_assoc, List.append_assoc, List.append_assoc, List.take_left]
    have rest : (name ++ ascii " " ++ opening ++ id ++ closing).drop (name.length + 1) = opening ++ id ++ closing := by
      rw [List.append_assoc (name ++ ascii " "), List.append_assoc (name ++ ascii " "), ← front, List.drop_left]
    have skipped : skips (name ++ ascii " " ++ opening ++ id ++ closing) (name.length + 1) = true := by
      rw [skips, taken, shorter, one, List.getLast?_concat, Bool.or_eq_true]
      refine .inr ?_
      rw [Bool.and_eq_true, List.all_eq_true]
      exact ⟨rfl, fun unit among => by rw [line unit among]; rfl⟩
    rw [if_pos skipped, rest, session_made clear]

theorem normalizeAddress_made {name id : Text} (line : ∀ unit ∈ name, endsLine unit = false) (clear : Clear id) :
    normalizeAddress (ascii "@" ++ name ++ ascii " " ++ opening ++ id ++ closing) = ⟨id, true⟩ := by
  have at_ : ascii "@" = [64] := by decide
  have raw : (ascii "@" ++ name ++ ascii " " ++ opening ++ id ++ closing).drop 1 = name ++ ascii " " ++ opening ++ id ++ closing := by
    rw [at_]
    rfl
  have head : (ascii "@" ++ name ++ ascii " " ++ opening ++ id ++ closing).head? = some 64 := by
    rw [at_]
    rfl
  rw [normalizeAddress, if_pos head, raw, mentioned_made line clear]

end Pattern

section Short

variable {ids : List Row} {agent : Row}

-- The loop ends at a length that no other row shares, or with the whole id.
theorem lengthen_spec {turns count : Nat} (enough : agent.id.length ≤ count + turns) (bound : count ≤ agent.id.length) :
    count ≤ lengthen ids agent turns count ∧ lengthen ids agent turns count ≤ agent.id.length ∧
      (lengthen ids agent turns count = agent.id.length ∨ shared ids agent (lengthen ids agent turns count) = false) := by
  induction turns generalizing count with
  | zero =>
    rw [lengthen]
    exact ⟨Nat.le_refl _, bound, .inl (by omega)⟩
  | succ turns ih =>
    rw [lengthen]
    split
    next more =>
      obtain ⟨least, most, ends⟩ := @ih (count + 1) (by omega) more.1
      exact ⟨by omega, most, ends⟩
    next stops =>
      refine ⟨Nat.le_refl _, bound, ?_⟩
      by_cases less : count < agent.id.length
      · exact .inr (Bool.not_eq_true _ ▸ fun more => stops ⟨less, more⟩)
      · exact .inl (by omega)

-- A row that begins with the short id is the row it was made for, or the id stands whole.
theorem shortId_spec (long : minIdPrefix ≤ agent.id.length) :
    minIdPrefix ≤ (shortId ids agent).length ∧ shortId ids agent <+: agent.id ∧
      (shortId ids agent = agent.id ∨ ∀ other ∈ ids, shortId ids agent <+: other.id → other = agent) := by
  obtain ⟨least, most, ends⟩ := @lengthen_spec ids agent agent.id.length minIdPrefix (by omega) long
  refine ⟨?_, List.take_prefix _ _, ?_⟩
  · rw [shortId, List.length_take]
    omega
  · obtain whole | alone := ends
    · exact .inl (by rw [shortId, whole, List.take_length])
    · right
      intro other here begins
      rw [shared, List.any_eq_false] at alone
      have checked := alone other here
      rw [Bool.and_eq_true, not_and, decide_eq_true_eq] at checked
      by_contra different
      exact checked different (List.isPrefixOf_iff_prefix.2 begins)

theorem Clear.short (long : minIdPrefix ≤ agent.id.length) (clear : Clear agent.id) : Clear (shortId ids agent) := by
  obtain ⟨least, begins, _⟩ := @shortId_spec ids agent long
  refine ⟨?_, fun unit among => clear.2 unit (begins.subset among)⟩
  intro none_
  rw [none_] at least
  exact absurd least (by decide)

end Short

section Resolve

-- Rows with ids that can stand in a mention, each once, and none of them the pane of a row.
structure Listed (rows : List Row) : Prop where
  distinct : (rows.map Row.id).Nodup
  clear : ∀ row ∈ rows, Clear row.id
  long : ∀ row ∈ rows, minIdPrefix ≤ row.id.length
  apart : ∀ row ∈ rows, ∀ other ∈ rows, row.id ≠ other.pane

variable {rows : List Row} {agent : Row}

theorem Listed.same (listed : Listed rows) {other : Row} (here : agent ∈ rows) (there : other ∈ rows) (ids : agent.id = other.id) :
    agent = other := List.inj_on_of_nodup_map listed.distinct here there ids

-- The rows whose pane is the text.
def inPane (rows : List Row) (wanted : Text) : List Row := rows.filter fun row => row.pane ≠ [] && row.pane = wanted

def live (rows : List Row) : List Row := rows.filter fun row => !row.ended

-- No other row takes the text for its pane before the row is found by its id.
def Unclaimed (rows : List Row) (agent : Row) (wanted : Text) : Prop :=
  inPane (live rows) wanted = [agent] ∨ (inPane (live rows) wanted = [] ∧ (inPane rows wanted = [] ∨ inPane rows wanted = [agent]))

theorem decided_agent {candidates : List Row} {wanted by_ : Text} :
    decided candidates wanted by_ = some (.agent agent) ↔ candidates = [agent] := by
  match candidates with
  | [] => exact iff_of_false nofun nofun
  | [only] => simp [decided]
  | first :: second :: rest => exact iff_of_false nofun nofun

theorem decided_none {candidates : List Row} {wanted by_ : Text} : decided candidates wanted by_ = none ↔ candidates = [] := by
  match candidates with
  | [] => exact iff_of_true rfl rfl
  | [only] => exact iff_of_false nofun nofun
  | first :: second :: rest => exact iff_of_false nofun nofun

theorem filter_only {keep : Row → Bool} (once : rows.Nodup) (only : ∀ row ∈ rows, keep row = true → row = agent)
    (here : agent ∈ rows) (kept : keep agent = true) : rows.filter keep = [agent] := by
  have nodup := List.Nodup.filter keep once
  have all : ∀ row ∈ rows.filter keep, row = agent := fun row among => only row (List.mem_filter.1 among).1 (List.mem_filter.1 among).2
  have among : agent ∈ rows.filter keep := List.mem_filter.2 ⟨here, kept⟩
  match filtered : rows.filter keep with
  | [] => rw [filtered] at among; cases among
  | [one] => rw [filtered] at all; rw [all one List.mem_cons_self]
  | one :: two :: rest =>
    rw [filtered] at all nodup
    have first := all one List.mem_cons_self
    have second := all two (List.mem_cons_of_mem one List.mem_cons_self)
    rw [first, second] at nodup
    exact absurd List.mem_cons_self (List.nodup_cons.1 nodup).1

theorem either_only {keep : Row → Bool} {wanted by_ : Text} (once : rows.Nodup)
    (only : ∀ row ∈ rows, keep row = true → row = agent) (here : agent ∈ rows) (kept : keep agent = true) :
    either rows (fun group => decided (group.filter keep) wanted by_) = some (.agent agent) := by
  have whole := filter_only once only here kept
  rw [either, whole]
  by_cases ended : agent.ended = true
  · have none_ : (rows.filter fun row => !row.ended).filter keep = [] := by
      rw [List.filter_eq_nil_iff]
      intro row among keeps
      obtain ⟨there, running⟩ := List.mem_filter.1 among
      rw [only row there keeps, ended] at running
      cases running
    rw [none_]
    rfl
  · have running := filter_only (List.Nodup.filter (fun row : Row => !row.ended) once)
      (fun row among keeps => only row (List.mem_filter.1 among).1 keeps)
      (List.mem_filter.2 ⟨here, by rw [Bool.not_eq_true] at ended; rw [ended]; rfl⟩) kept
    rw [running]
    rfl

theorem or_agent {first second : Option Resolution} :
    (first.or second).or (some (.agent agent)) = some (.agent agent) ↔
      first = some (.agent agent) ∨ (first = none ∧ (second = none ∨ second = some (.agent agent))) := by
  cases first with
  | some found => simp
  | none =>
    cases second with
    | some found => simp
    | none => simp

theorem matchAddress_mention (lower : Text → Text) (rows : List Row) (wanted : Text) :
    matchAddress lower rows ⟨wanted, true⟩ =
      (either rows fun group => decided (group.filter fun row => matchesId row wanted) wanted (ascii "id")).or
        (either rows fun group => decided (group.filter fun row => matchesPrefix row wanted) wanted (ascii "id")) := by
  simp [matchAddress]

theorem matchAddress_short (lower : Text → Text) (listed : Listed rows) (here : agent ∈ rows) :
    matchAddress lower rows ⟨shortId rows agent, true⟩ = some (.agent agent) ↔
      shortId rows agent = agent.id ∨ Unclaimed rows agent (shortId rows agent) := by
  have once : rows.Nodup := List.Nodup.of_map Row.id listed.distinct
  obtain ⟨least, begins, ends⟩ := @shortId_spec rows agent (listed.long agent here)
  rw [matchAddress_mention]
  by_cases whole : shortId rows agent = agent.id
  · have only : ∀ row ∈ rows, matchesId row (shortId rows agent) = true → row = agent := by
      intro row among found
      rw [matchesId, whole, Bool.or_eq_true, Bool.and_eq_true, decide_eq_true_eq, decide_eq_true_eq, decide_eq_true_eq] at found
      obtain same | ⟨_, same⟩ := found
      · exact listed.same among here same
      · exact absurd same.symm (listed.apart agent here row among)
    have found := @either_only rows agent _ (shortId rows agent) (ascii "id") once only here (by simp [matchesId, whole])
    rw [found]
    exact iff_of_true rfl (.inl whole)
  · have alone := ends.resolve_left whole
    have panes : ∀ row ∈ rows, matchesId row (shortId rows agent) = (row.pane ≠ [] && row.pane = shortId rows agent) := by
      intro row among
      have other : row.id ≠ shortId rows agent := by
        intro same
        have equal := alone row among (same ▸ List.prefix_rfl)
        rw [equal] at same
        exact whole same.symm
      rw [matchesId, decide_eq_false other, Bool.false_or]
    have found := @either_only rows agent (fun row => matchesPrefix row (shortId rows agent)) (shortId rows agent) (ascii "id") once
      (fun row among found => by
        rw [matchesPrefix, Bool.and_eq_true, List.isPrefixOf_iff_prefix] at found
        exact alone row among found.2)
      here (by rw [matchesPrefix, Bool.and_eq_true, decide_eq_true_eq, List.isPrefixOf_iff_prefix]; exact ⟨least, begins⟩)
    have every : rows.filter (fun row => matchesId row (shortId rows agent)) = inPane rows (shortId rows agent) :=
      List.filter_congr panes
    have running : (rows.filter fun row => !row.ended).filter (fun row => matchesId row (shortId rows agent)) =
        inPane (live rows) (shortId rows agent) :=
      List.filter_congr fun row among => panes row (List.mem_filter.1 among).1
    rw [found, either, every, running, or_agent, decided_agent, decided_none, decided_none, decided_agent, or_iff_right whole]
    exact Iff.rfl

-- A mention resolves to its row where its id stands whole or is not taken for the pane of another row.
theorem mention_resolves (lower : Text → Text) (elsewhere : List Row) (listed : Listed rows) (here : agent ∈ rows)
    (line : ∀ unit ∈ agent.name, endsLine unit = false) :
    resolveIn lower rows elsewhere (normalizeAddress (completionValue rows agent)) = .agent agent ↔
      shortId rows agent = agent.id ∨ Unclaimed rows agent (shortId rows agent) := by
  obtain ⟨least, _⟩ := @shortId_spec rows agent (listed.long agent here)
  have clear : Clear (shortId rows agent) := Clear.short (listed.long agent here) (listed.clear agent here)
  rw [completionValue, normalizeAddress_made line clear, ← matchAddress_short lower listed here, resolveIn]
  have long : decide ((shortId rows agent).length < minIdPrefix) = false := decide_eq_false (Nat.not_lt.2 least)
  dsimp only
  rw [long, Bool.false_and, Bool.false_and, if_neg Bool.false_ne_true]
  cases found : matchAddress lower rows ⟨shortId rows agent, true⟩ with
  | some resolution => exact Option.some_inj.symm
  | none =>
    refine iff_of_false ?_ nofun
    cases outside : matchAddress lower elsewhere ⟨shortId rows agent, true⟩ with
    | none => exact nofun
    | some resolution => cases resolution <;> exact nofun

def claimed : List Row :=
  [⟨ascii "pane_1234", ascii "pane_7", ascii "impl", true, false⟩, ⟨ascii "9702ddd1", ascii "pane_123", ascii "peer", true, false⟩]

theorem claimed_listed : Listed claimed where
  distinct := by decide
  clear := by
    have all : claimed.all (fun row => decide (row.id ≠ []) && row.id.all fun unit => !isSpace unit && !isParenthesis unit) = true := by
      decide
    intro row among
    have here := List.all_eq_true.1 all row among
    rw [Bool.and_eq_true, decide_eq_true_eq, List.all_eq_true] at here
    exact ⟨here.1, fun unit inside => by simpa using here.2 unit inside⟩
  long := by decide
  apart := by decide

theorem claimed_line : ∀ row ∈ claimed, ∀ unit ∈ row.name, endsLine unit = false := by
  have all : claimed.all (fun row => row.name.all fun unit => !endsLine unit) = true := by decide
  intro row among unit inside
  exact Bool.not_eq_true' _ ▸ List.all_eq_true.1 (List.all_eq_true.1 all row among) unit inside

theorem claimed_elsewhere :
    ¬∀ (rows elsewhere : List Row) (agent : Row), Listed rows → agent ∈ rows → agent.named = true →
      (∀ unit ∈ agent.name, endsLine unit = false) →
      resolveIn id rows elsewhere (normalizeAddress (completionValue rows agent)) = .agent agent := by
  intro all
  have resolved := all claimed [] _ claimed_listed List.mem_cons_self rfl (claimed_line _ List.mem_cons_self)
  revert resolved
  decide

theorem mention_resolves_alone :
    resolveIn id claimed [] (normalizeAddress (completionValue claimed (claimed.get ⟨1, by decide⟩))) =
      .agent (claimed.get ⟨1, by decide⟩) :=
  (mention_resolves id [] claimed_listed (List.get_mem _ _) (claimed_line _ (List.get_mem _ _))).2 (.inl (by decide))

end Resolve

end Kido.Mentions
