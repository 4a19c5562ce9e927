import Kido.Shared.Chars
import Mathlib.Data.List.Induction
import Mathlib.Data.List.Nodup
import Mathlib.Logic.Function.Basic

set_option autoImplicit false

namespace Kido.Triggers

open Kido.Shared (isControl isWhitespace)

abbrev Text := List Char

inductive Modifier where
  | super
  | ctrl
  | alt
  | shift
deriving DecidableEq

def menuOwned : List Text :=
  ["super+1", "super+2", "super+3", "super+4", "super+5", "super+6", "super+7", "super+8", "super+9", "super+q",
   "super+n", "super+t", "super+shift+k", "super+s", "super+shift+s", "super+p", "super+shift+p", "super+f",
   "super+g", "super+shift+g", "super+z", "super+shift+z", "super+x", "super+c", "super+v", "super+alt+shift+v",
   "super+a", "super+o", "super+shift+c", "super+d", "super+shift+d", "super+w", "super+shift+enter",
   "super+alt+left", "super+alt+up", "super+alt+right", "super+alt+down", "super+h", "super+j", "super+k", "super+l",
   "super+[", "super+]", "super+alt+[", "super+alt+]", "super+shift+[", "super+shift+]", "super+\x7b", "super+\x7d"].map
    String.toList

def keys : List Text :=
  ["backquote", "backslash", "bracket_left", "bracket_right", "comma", "digit_0", "digit_1", "digit_2", "digit_3",
   "digit_4", "digit_5", "digit_6", "digit_7", "digit_8", "digit_9", "equal", "intl_backslash", "intl_ro",
   "intl_yen", "key_a", "key_b", "key_c", "key_d", "key_e", "key_f", "key_g", "key_h", "key_i", "key_j", "key_k",
   "key_l", "key_m", "key_n", "key_o", "key_p", "key_q", "key_r", "key_s", "key_t", "key_u", "key_v", "key_w",
   "key_x", "key_y", "key_z", "minus", "period", "quote", "semicolon", "slash", "alt_left", "alt_right", "backspace",
   "context_menu", "control_left", "control_right", "enter", "meta_left", "meta_right", "shift_left", "shift_right",
   "space", "tab", "convert", "kana_mode", "non_convert", "delete", "end", "help", "home", "insert", "page_down",
   "page_up", "arrow_down", "arrow_left", "arrow_right", "arrow_up", "numpad_0", "numpad_1", "numpad_2", "numpad_3",
   "numpad_4", "numpad_5", "numpad_6", "numpad_7", "numpad_8", "numpad_9", "numpad_add", "numpad_backspace",
   "numpad_clear", "numpad_clear_entry", "numpad_comma", "numpad_decimal", "numpad_divide", "numpad_enter",
   "numpad_equal", "numpad_memory_add", "numpad_memory_clear", "numpad_memory_recall", "numpad_memory_store",
   "numpad_memory_subtract", "numpad_multiply", "numpad_paren_left", "numpad_paren_right", "numpad_subtract",
   "numpad_separator", "numpad_up", "numpad_down", "numpad_right", "numpad_left", "numpad_begin", "numpad_home",
   "numpad_end", "numpad_insert", "numpad_delete", "numpad_page_up", "numpad_page_down", "escape", "f1", "f2", "f3",
   "f4", "f5", "f6", "f7", "f8", "f9", "f10", "f11", "f12", "f13", "f14", "f15", "f16", "f17", "f18", "f19", "f20",
   "f21", "f22", "f23", "f24", "f25", "fn", "fn_lock", "print_screen", "scroll_lock", "pause", "browser_back",
   "browser_favorites", "browser_forward", "browser_home", "browser_refresh", "browser_search", "browser_stop",
   "eject", "launch_app_1", "launch_app_2", "launch_mail", "media_play_pause", "media_select", "media_stop",
   "media_track_next", "media_track_previous", "power", "sleep", "audio_volume_down", "audio_volume_mute",
   "audio_volume_up", "wake_up", "copy", "cut", "paste", "up", "down", "left", "right"].map
    String.toList

def modifiers : List (Text × Modifier) :=
  [("super".toList, .super), ("cmd".toList, .super), ("command".toList, .super), ("ctrl".toList, .ctrl),
    ("control".toList, .ctrl), ("alt".toList, .alt), ("opt".toList, .alt), ("option".toList, .alt), ("shift".toList, .shift)]

def Modifier.name : Modifier → Text
  | .super => "super".toList
  | .ctrl => "ctrl".toList
  | .alt => "alt".toList
  | .shift => "shift".toList

def modifier (part : Text) : Option Modifier := (modifiers.find? fun named => named.1 = part).map (·.2)

def keyValid : Text → Bool
  | [only] => !isWhitespace only && !isControl only && !(['=', '>'].contains only)
  | key => keys.contains key

def stripFront (front text : Text) : Option Text := if front.isPrefixOf text then some (text.drop front.length) else none

def shortKey (key : Text) : Text :=
  let key := key.map Char.toLower
  if key = "bracket_left".toList then ['[']
  else if key = "bracket_right".toList then [']']
  else (((stripFront "arrow_".toList key).or (stripFront "key_".toList key)).or (stripFront "digit_".toList key)).getD key

inductive Refusal where
  | repeats (text : Text)
  | second (text : Text)
  | notKey (part : Text)
  | noKey (text : Text)
  | menu (canonical : Text)
deriving DecidableEq

-- The message of a refusal, with a text as `Debug` shows it.
def Refusal.message (quoted : Text → String) : Refusal → String
  | .repeats text => quoted text ++ " repeats a modifier"
  | .second text => quoted text ++ " has more than one key"
  | .notKey part => quoted part ++ " is not a key"
  | .noKey text => quoted text ++ " has no key"
  | .menu canonical => quoted canonical ++ " belongs to a menu of the app"

-- What `split_once` takes off the text until nothing is left: nothing stands behind a plus at its end.
def parts (text : Text) : List Text :=
  let pieces := text.splitOn '+'
  if pieces.getLast? = some [] then pieces.dropLast else pieces

structure Reading where
  mods : Modifier → Bool
  key : Option Text

def Reading.start : Reading := ⟨fun _ => false, none⟩

def take (text : Text) (reading : Reading) (part : Text) : Except Refusal Reading :=
  match modifier part with
  | some named =>
    if reading.mods named then .error (.repeats text) else .ok { reading with mods := Function.update reading.mods named true }
  | none =>
    if reading.key.isSome then .error (.second text)
    else if part = [] then .ok { reading with key := some ['+'] }
    else if keyValid part then .ok { reading with key := some part }
    else .error (.notKey part)

def held (mods : Modifier → Bool) : List Modifier := [.super, .ctrl, .alt, .shift].filter mods

def joined (mods : Modifier → Bool) (key : Text) : Text := ['+'].intercalate ((held mods).map Modifier.name ++ [key])

def tryFrom (text : Text) : Except Refusal Text :=
  match (parts text).foldlM (take text) .start with
  | .error refusal => .error refusal
  | .ok reading =>
    match reading.key with
    | none => .error (.noKey text)
    | some key =>
      let canonical := joined reading.mods key
      if menuOwned.contains (joined reading.mods (shortKey key)) then .error (.menu canonical) else .ok canonical

section Grammar

-- A text that names a combination: modifiers, each followed by a plus, and one valid key.
inductive Named : Text → (Modifier → Bool) → Text → Prop where
  | key (key : Text) (valid : keyValid key = true) : Named key (fun _ => false) key
  | modifier (name rest key : Text) (held : Modifier) (mods : Modifier → Bool) (known : modifier name = some held)
      (free : mods held = false) (later : Named rest mods key) : Named (name ++ '+' :: rest) (Function.update mods held true) key

-- A menu of the app has these modifiers and this key, however its key is spelled.
def Menu (mods : Modifier → Bool) (key : Text) : Prop :=
  ∃ owned ∈ menuOwned, ∃ other, Named owned mods other ∧ shortKey other = shortKey key

def Grammar (text : Text) : Prop := ∃ mods key, Named text mods key ∧ ¬Menu mods key

def named (pieces : List Text) : List Modifier := pieces.filterMap modifier

def keyParts (pieces : List Text) : List Text := pieces.filter fun part => (modifier part).isNone

def keyOf (part : Text) : Text := if part = [] then ['+'] else part

def modsOf (text : Text) : Modifier → Bool := fun held => decide (held ∈ named (parts text))

def isModifier (part : Text) : Bool := (modifier part).isSome

-- Only modifiers stand before the key, and nothing behind it.
def keyLast (text : Text) : Bool :=
  match (text.splitOn '+').dropWhile isModifier with
  | [] => true
  | [_] => true
  | [[], []] => true
  | _ => false

end Grammar

section Spelled

-- Texts beside their characters. A kernel is slow to take the characters of a text apart, so the tables are spelled once.
inductive Spelled : List String → List Text → Prop
  | nil : Spelled [] []
  | cons {text : Text} {names : List String} {rest : List Text} (more : Spelled names rest) :
    Spelled (String.ofList text :: names) (text :: rest)

theorem Spelled.map {names : List String} {texts : List Text} (spelled : Spelled names texts) : names.map String.toList = texts := by
  induction spelled with
  | nil => rfl
  | cons _ same => rw [List.map_cons, String.toList_ofList, same]

-- `keyValid` over a table of keys.
def validIn (known : List Text) : Text → Bool
  | [only] => !isWhitespace only && !isControl only && !(['=', '>'].contains only)
  | key => known.contains key

theorem keyValid_in (key : Text) : keyValid key = validIn keys key := rfl

theorem keyValid_known {key : Text} (among : key ∈ keys) (long : key.length ≠ 1) : keyValid key = true := by
  rw [keyValid.eq_def]
  split
  next => exact absurd rfl long
  next => exact List.contains_iff_mem.2 among

def keysTidy (known : List Text) : Bool :=
  (known.all fun key => !key.contains '+' && key ≠ [] &&
    ((shortKey key = key && key.length ≠ 1) || validIn known (shortKey key))) &&
    modifiers.all fun entry => !entry.1.contains '+' && entry.1 ≠ [] && !validIn known entry.1

theorem keys_tidy : keysTidy keys = true := by
  obtain ⟨known, same, tidy⟩ : ∃ known, keys = known ∧ keysTidy known = true :=
    ⟨_, Spelled.map (by repeat constructor), by decide +kernel⟩
  rw [same, tidy]

end Spelled

section Parts

theorem modifiers_apart : ∀ entry ∈ modifiers, '+' ∉ entry.1 ∧ entry.1 ≠ [] ∧ keyValid entry.1 = false := by
  intro entry among
  have tidy := List.all_eq_true.1 (Bool.and_eq_true_iff.1 keys_tidy).2 entry among
  simpa [keyValid_in, and_assoc] using tidy

theorem modifier_mem {part : Text} {found : Modifier} (known : modifier part = some found) : (part, found) ∈ modifiers := by
  obtain ⟨entry, here, same⟩ := Option.map_eq_some_iff.1 known
  have name := List.find?_some here
  rw [decide_eq_true_eq] at name
  rw [← name, ← same]
  exact List.mem_of_find?_eq_some here

theorem modifier_name (held : Modifier) : modifier held.name = some held := by cases held <;> decide +kernel

theorem keys_apart : ∀ key ∈ keys, '+' ∉ key ∧ key ≠ [] := by
  intro key among
  have tidy := List.all_eq_true.1 (Bool.and_eq_true_iff.1 keys_tidy).1 key among
  simpa using (Bool.and_eq_true_iff.1 tidy).1

theorem keyValid_modifier {key : Text} (valid : keyValid key = true) : modifier key = none := by
  cases known : modifier key with
  | none => rfl
  | some held =>
    rw [(modifiers_apart _ (modifier_mem known)).2.2] at valid
    cases valid

theorem keyValid_cases {key : Text} (valid : keyValid key = true) : key = ['+'] ∨ ('+' ∉ key ∧ key ≠ []) := by
  rw [keyValid.eq_def] at valid
  split at valid
  next only =>
    by_cases plus : only = '+'
    · rw [plus]
      exact .inl rfl
    · exact .inr ⟨by simpa using Ne.symm plus, nofun⟩
  next => exact .inr (keys_apart _ (List.contains_iff_mem.1 valid))

theorem parts_cons {name : Text} (apart : '+' ∉ name) (rest : Text) : parts (name ++ '+' :: rest) = name :: parts rest := by
  have pieces : (name ++ '+' :: rest).splitOn '+' = name :: rest.splitOn '+' := by
    rw [List.splitOn_append_cons_of_beq _ _ BEq.rfl, List.splitOn_eq_singleton apart, List.singleton_append]
  cases split : rest.splitOn '+' with
  | nil => exact absurd split (List.splitOn_ne_nil '+' rest)
  | cons head tail =>
    simp only [parts]
    rw [pieces, split, List.getLast?_cons_cons, List.dropLast_cons_cons]
    split <;> rfl

theorem parts_apart {key : Text} (apart : '+' ∉ key) (any : key ≠ []) : parts key = [key] := by
  simp only [parts]
  rw [List.splitOn_eq_singleton apart, if_neg (by simpa using any)]

theorem parts_plus : parts ['+'] = [[]] := by decide

def keyPart (key : Text) : Text := if key = ['+'] then [] else key

theorem parts_key {key : Text} (valid : keyValid key = true) : parts key = [keyPart key] := by
  obtain rfl | ⟨apart, any⟩ := keyValid_cases valid
  · exact parts_plus
  · have other : key ≠ ['+'] := by
      rintro rfl
      exact apart (List.mem_singleton_self _)
    rw [parts_apart apart any, keyPart, if_neg other]

theorem keyOf_keyPart {key : Text} (valid : keyValid key = true) : keyOf (keyPart key) = key := by
  obtain rfl | ⟨apart, any⟩ := keyValid_cases valid
  · rfl
  · have other : key ≠ ['+'] := by
      rintro rfl
      exact apart (List.mem_singleton_self _)
    rw [keyPart, if_neg other, keyOf, if_neg any]

theorem modifier_keyPart {key : Text} (valid : keyValid key = true) : modifier (keyPart key) = none := by
  rw [keyPart]
  split
  next => rfl
  next => exact keyValid_modifier valid

end Parts

section Take

theorem take_modifier {text part : Text} {held : Modifier} (known : modifier part = some held) (reading : Reading) :
    take text reading part = if reading.mods held then .error (.repeats text)
      else .ok { reading with mods := Function.update reading.mods held true } := by
  rw [take, known]

theorem take_key {text part : Text} (other : modifier part = none) (reading : Reading) :
    take text reading part = if reading.key.isSome then .error (.second text)
      else if keyValid (keyOf part) then .ok { reading with key := some (keyOf part) } else .error (.notKey part) := by
  rw [take, other]
  dsimp only
  by_cases empty : part = []
  · subst empty
    rfl
  · rw [if_neg empty, keyOf, if_neg empty]

theorem update_or (mods : Modifier → Bool) (held : Modifier) (rest : List Modifier) :
    (fun other => Function.update mods held true other || decide (other ∈ rest)) =
      fun other => mods other || decide (other ∈ held :: rest) := by
  funext other
  by_cases same : other = held
  · subst same
    simp
  · simp [same]

theorem update_free {mods : Modifier → Bool} {held : Modifier} {rest : List Modifier} :
    (∀ other ∈ rest, Function.update mods held true other = false) ↔ held ∉ rest ∧ ∀ other ∈ rest, mods other = false := by
  constructor
  · intro free
    have apart : held ∉ rest := fun among => by simpa using free held among
    refine ⟨apart, fun other among => ?_⟩
    have other_ : other ≠ held := fun same => apart (same ▸ among)
    simpa [Function.update_of_ne other_] using free other among
  · rintro ⟨apart, free⟩ other among
    have other_ : other ≠ held := fun same => apart (same ▸ among)
    rw [Function.update_of_ne other_]
    exact free other among

-- What the loop makes of some parts: the modifiers among them, none twice, and the key.
theorem take_iff {text : Text} {pieces : List Text} {reading last : Reading} :
    pieces.foldlM (take text) reading = .ok last ↔
      (named pieces).Nodup ∧ (∀ held ∈ named pieces, reading.mods held = false) ∧
      last.mods = (fun held => reading.mods held || decide (held ∈ named pieces)) ∧
      ((keyParts pieces = [] ∧ last.key = reading.key) ∨
        ∃ part, keyParts pieces = [part] ∧ reading.key = none ∧ keyValid (keyOf part) = true ∧ last.key = some (keyOf part)) := by
  induction pieces generalizing reading with
  | nil =>
    have ends : (fun held => reading.mods held || decide (held ∈ named [])) = reading.mods := by
      funext held
      simp [named]
    rw [ends]
    constructor
    · rintro ⟨⟩
      exact ⟨List.nodup_nil, nofun, rfl, .inl ⟨rfl, rfl⟩⟩
    · rintro ⟨_, _, mods, ⟨_, key⟩ | ⟨part, none_, _⟩⟩
      · cases last
        cases mods
        cases key
        rfl
      · cases none_
  | cons part rest ih =>
    rw [List.foldlM_cons]
    cases known : modifier part with
    | some held =>
      have names : named (part :: rest) = held :: named rest := List.filterMap_cons_some known
      have keys_ : keyParts (part :: rest) = keyParts rest := List.filter_cons_of_neg (by rw [known]; exact Bool.false_ne_true)
      rw [take_modifier known, names, keys_]
      split
      next twice =>
        refine ⟨nofun, fun both => ?_⟩
        rw [both.2.1 held List.mem_cons_self] at twice
        cases twice
      next once =>
        rw [Bool.not_eq_true] at once
        change rest.foldlM (take text) { reading with mods := Function.update reading.mods held true } = .ok last ↔ _
        rw [ih, update_or, update_free, List.nodup_cons, List.forall_mem_cons]
        constructor
        · rintro ⟨apart, ⟨other, free⟩, mods, key⟩
          exact ⟨⟨other, apart⟩, ⟨once, free⟩, mods, key⟩
        · rintro ⟨⟨other, apart⟩, ⟨_, free⟩, mods, key⟩
          exact ⟨apart, ⟨other, free⟩, mods, key⟩
    | none =>
      have names : named (part :: rest) = named rest := List.filterMap_cons_none known
      have keys_ : keyParts (part :: rest) = part :: keyParts rest := List.filter_cons_of_pos (by rw [known]; rfl)
      rw [take_key known, names, keys_]
      split
      next second =>
        refine ⟨nofun, ?_⟩
        rintro ⟨_, _, _, ⟨none_, _⟩ | ⟨_, _, free, _⟩⟩
        · cases none_
        · rw [free] at second
          cases second
      next first =>
        have free : reading.key = none := by simpa using first
        split
        next valid =>
          change rest.foldlM (take text) { reading with key := some (keyOf part) } = .ok last ↔ _
          rw [ih]
          constructor
          · rintro ⟨apart, others, mods, ⟨none_, key⟩ | ⟨_, _, none_, _⟩⟩
            · exact ⟨apart, others, mods, .inr ⟨part, by rw [none_], free, valid, key⟩⟩
            · cases none_
          · rintro ⟨apart, others, mods, ⟨none_, _⟩ | ⟨only, same, _, _, key⟩⟩
            · cases none_
            · obtain ⟨rfl, none_⟩ := List.cons.inj same
              exact ⟨apart, others, mods, .inl ⟨none_, key⟩⟩
        next invalid =>
          refine ⟨nofun, ?_⟩
          rintro ⟨_, _, _, ⟨none_, _⟩ | ⟨only, same, _, valid, _⟩⟩
          · cases none_
          · obtain ⟨rfl, _⟩ := List.cons.inj same
            exact absurd valid invalid

-- The parts of a text, in whatever order, make a combination that no menu has.
structure Sound (text : Text) (key : Text) : Prop where
  once : (named (parts text)).Nodup
  only : ∃ part, keyParts (parts text) = [part] ∧ keyOf part = key
  valid : keyValid key = true
  free : joined (modsOf text) (shortKey key) ∉ menuOwned

theorem tryFrom_ok {text out : Text} : tryFrom text = .ok out ↔ ∃ key, Sound text key ∧ out = joined (modsOf text) key := by
  have modded (last : Reading) : last.mods = (fun held => Reading.start.mods held || decide (held ∈ named (parts text))) ↔
      last.mods = modsOf text := by
    simp only [Reading.start, Bool.false_or]
    exact Iff.rfl
  rw [tryFrom]
  cases folded : (parts text).foldlM (take text) Reading.start with
  | error refusal =>
    refine ⟨nofun, ?_⟩
    rintro ⟨key, ⟨once, ⟨part, only, same⟩, valid, free⟩, _⟩
    have ok := (@take_iff text (parts text) Reading.start ⟨modsOf text, some key⟩).2
      ⟨once, fun _ _ => rfl, (modded _).2 rfl, .inr ⟨part, only, rfl, by rwa [same], by rw [same]⟩⟩
    rw [folded] at ok
    cases ok
  | ok last =>
    obtain ⟨once, _, mods, key⟩ := take_iff.1 folded
    rw [modded] at mods
    dsimp only
    rw [mods]
    obtain ⟨none_, key⟩ | ⟨part, only, _, valid, key⟩ := key
    · rw [key]
      refine ⟨nofun, ?_⟩
      rintro ⟨_, ⟨_, ⟨part, only, _⟩, _, _⟩, _⟩
      rw [none_] at only
      cases only
    · rw [key]
      dsimp only
      have alone {key : Text} (sound : Sound text key) : key = keyOf part := by
        obtain ⟨other, same, here⟩ := sound.only
        rw [only] at same
        rw [← here, (List.cons.inj same).1]
      split
      next menu =>
        refine ⟨nofun, ?_⟩
        rintro ⟨key, sound, _⟩
        have free := sound.free
        rw [alone sound] at free
        exact absurd (List.contains_iff_mem.1 menu) free
      next other =>
        rw [Except.ok.injEq]
        constructor
        · rintro rfl
          exact ⟨_, ⟨once, ⟨part, only, rfl⟩, valid, fun menu => other (List.contains_iff_mem.2 menu)⟩, rfl⟩
        · rintro ⟨key, sound, rfl⟩
          rw [alone sound]

end Take

section Joined

-- What one name and another text make.
def followed (names : List Text) (key : Text) : Text := names.foldr (fun name rest => name ++ '+' :: rest) key

theorem intercalate_followed (names : List Text) (key : Text) : ['+'].intercalate (names ++ [key]) = followed names key := by
  induction names with
  | nil => exact List.intercalate_singleton
  | cons name rest ih =>
    cases more : rest ++ [key] with
    | nil => exact absurd more (by simp)
    | cons next later =>
      rw [more] at ih
      rw [List.cons_append, more, List.intercalate_cons_cons, ih, List.append_assoc, List.singleton_append]
      rfl

theorem parts_followed {names : List Text} (apart : ∀ name ∈ names, '+' ∉ name) (key : Text) :
    parts (followed names key) = names ++ parts key := by
  induction names with
  | nil => rfl
  | cons name rest ih =>
    have later := ih fun other among => apart other (List.mem_cons_of_mem name among)
    rw [followed] at later
    rw [followed, List.foldr_cons, parts_cons (apart name List.mem_cons_self), later, List.cons_append]

theorem name_apart (held : Modifier) : '+' ∉ held.name := (modifiers_apart _ (modifier_mem (modifier_name held))).1

theorem parts_joined (mods : Modifier → Bool) (key : Text) : parts (joined mods key) = (held mods).map Modifier.name ++ parts key := by
  rw [joined, intercalate_followed, parts_followed]
  intro name among
  obtain ⟨held, _, rfl⟩ := List.mem_map.1 among
  exact name_apart held

theorem named_names (helds : List Modifier) : named (helds.map Modifier.name) = helds := by
  rw [named, List.filterMap_map]
  refine (List.filterMap_congr fun held _ => ?_).trans List.filterMap_some
  exact modifier_name held

theorem keyParts_names (helds : List Modifier) : keyParts (helds.map Modifier.name) = [] := by
  refine List.filter_eq_nil_iff.2 fun name among => ?_
  obtain ⟨held, _, rfl⟩ := List.mem_map.1 among
  rw [modifier_name]
  exact Bool.false_ne_true

theorem held_nodup (mods : Modifier → Bool) : (held mods).Nodup :=
  List.Nodup.filter mods (by decide)

theorem mem_held {mods : Modifier → Bool} {held : Modifier} : held ∈ Triggers.held mods ↔ mods held = true := by
  rw [Triggers.held, List.mem_filter]
  refine and_iff_right ?_
  cases held <;> decide

variable {mods : Modifier → Bool} {key : Text}

theorem named_joined (valid : keyValid key = true) : named (parts (joined mods key)) = held mods := by
  have none_ : named [keyPart key] = [] := List.filterMap_cons_none (modifier_keyPart valid)
  rw [parts_joined, parts_key valid, named, List.filterMap_append]
  rw [named] at none_
  rw [none_, List.append_nil]
  exact named_names (held mods)

theorem keyParts_joined (valid : keyValid key = true) : keyParts (parts (joined mods key)) = [keyPart key] := by
  have names := keyParts_names (held mods)
  rw [keyParts] at names
  rw [parts_joined, parts_key valid, keyParts, List.filter_append, names, List.nil_append]
  exact List.filter_cons_of_pos (by rw [modifier_keyPart valid]; rfl)

theorem modsOf_joined (valid : keyValid key = true) : modsOf (joined mods key) = mods := by
  funext held
  rw [modsOf, named_joined valid, Bool.eq_iff_iff, decide_eq_true_eq, mem_held]

theorem joined_injective {other : Modifier → Bool} {key' : Text} (valid : keyValid key = true) (valid' : keyValid key' = true)
    (same : joined mods key = joined other key') : mods = other ∧ key = key' := by
  constructor
  · have shown := @modsOf_joined mods key valid
    rw [same, modsOf_joined valid'] at shown
    exact shown.symm
  · have keyed := @keyParts_joined mods key valid
    rw [same, keyParts_joined valid'] at keyed
    rw [← keyOf_keyPart valid, ← keyOf_keyPart valid', (List.cons.inj keyed).1]

-- What is written for a text is read as the same combination.
theorem Sound.joined {text : Text} (sound : Sound text key) : Sound (joined (modsOf text) key) key where
  once := by
    rw [named_joined sound.valid]
    exact held_nodup _
  only := ⟨keyPart key, keyParts_joined sound.valid, keyOf_keyPart sound.valid⟩
  valid := sound.valid
  free := by
    rw [modsOf_joined sound.valid]
    exact sound.free

theorem tryFrom_again {text out : Text} (accepted : tryFrom text = .ok out) : tryFrom out = .ok out := by
  obtain ⟨key, sound, rfl⟩ := tryFrom_ok.1 accepted
  exact tryFrom_ok.2 ⟨key, sound.joined, by rw [modsOf_joined sound.valid]⟩

end Joined

section Last

theorem keyLast_cons {name : Text} {held : Modifier} (known : modifier name = some held) (rest : Text) :
    keyLast (name ++ '+' :: rest) = keyLast rest := by
  have apart : '+' ∉ name := (modifiers_apart _ (modifier_mem known)).1
  have dropped : isModifier name = true := by
    rw [isModifier, known]
    rfl
  rw [keyLast, keyLast, List.splitOn_append_cons_of_beq _ _ BEq.rfl, List.splitOn_eq_singleton apart, List.singleton_append,
    List.dropWhile_cons_of_pos dropped]

theorem keyLast_key {key : Text} (valid : keyValid key = true) : keyLast key = true := by
  obtain rfl | ⟨apart, any⟩ := keyValid_cases valid
  · decide
  · have kept : ¬isModifier key = true := by
      rw [isModifier, keyValid_modifier valid]
      exact Bool.false_ne_true
    rw [keyLast, List.splitOn_eq_singleton apart, List.dropWhile_cons_of_neg kept]

theorem keyLast_joined (mods : Modifier → Bool) {key : Text} (valid : keyValid key = true) : keyLast (joined mods key) = true := by
  rw [joined, intercalate_followed]
  induction held mods with
  | nil => exact keyLast_key valid
  | cons held rest ih =>
    rw [followed] at ih
    rw [List.map_cons, followed, List.foldr_cons, keyLast_cons (modifier_name held), ih]

-- The parts of a text that a combination has, in whatever order.
def Carries (text : Text) (key : Text) : Prop :=
  (named (parts text)).Nodup ∧ (∃ part, keyParts (parts text) = [part] ∧ keyOf part = key) ∧ keyValid key = true

theorem Named.carries {text key : Text} {mods : Modifier → Bool} (names : Named text mods key) :
    Carries text key ∧ mods = modsOf text ∧ keyLast text = true := by
  induction names with
  | key key valid =>
    have none_ : named (parts key) = [] := by
      rw [parts_key valid]
      exact List.filterMap_cons_none (modifier_keyPart valid)
    have only : keyParts (parts key) = [keyPart key] := by
      rw [parts_key valid]
      exact List.filter_cons_of_pos (by rw [modifier_keyPart valid]; rfl)
    refine ⟨⟨by rw [none_]; exact List.nodup_nil, ⟨_, only, keyOf_keyPart valid⟩, valid⟩, ?_, keyLast_key valid⟩
    funext held
    rw [modsOf, none_]
    rfl
  | modifier name rest key held mods known free later ih =>
    obtain ⟨⟨once, ⟨part, only, same⟩, valid⟩, rfl, last⟩ := ih
    have apart : '+' ∉ name := (modifiers_apart _ (modifier_mem known)).1
    have names : named (parts (name ++ '+' :: rest)) = held :: named (parts rest) := by
      rw [parts_cons apart]
      exact List.filterMap_cons_some known
    have keyed : keyParts (parts (name ++ '+' :: rest)) = keyParts (parts rest) := by
      rw [parts_cons apart]
      exact List.filter_cons_of_neg (by rw [known]; exact Bool.false_ne_true)
    refine ⟨⟨?_, ⟨part, by rw [keyed, only], same⟩, valid⟩, ?_, by rw [keyLast_cons known, last]⟩
    · rw [names, List.nodup_cons]
      exact ⟨by simpa [modsOf] using free, once⟩
    · funext other
      rw [modsOf, names]
      by_cases same : other = held
      · subst same
        simp
      · simp [modsOf, same]

theorem Carries.names {text key : Text} (carries : Carries text key) (last : keyLast text = true) :
    Named text (modsOf text) key := by
  induction split : text.splitOn '+' generalizing text with
  | nil => exact absurd split (List.splitOn_ne_nil '+' text)
  | cons part rest ih =>
    obtain ⟨once, ⟨only, alone, same⟩, valid⟩ := carries
    have whole := @List.intercalate_splitOn _ text _ _ '+'
    rw [split] at whole
    cases rest with
    | nil =>
      -- No plus stands in the text.
      rw [List.intercalate_singleton] at whole
      subst whole
      by_cases empty : part = []
      · subst empty
        cases alone
      · have pieces : parts part = [part] := by
          simp only [parts]
          rw [split, if_neg (by simpa using empty)]
        cases known : modifier part with
        | some held =>
          have none_ : keyParts [part] = [] := List.filter_cons_of_neg (by rw [known]; exact Bool.false_ne_true)
          rw [pieces, none_] at alone
          cases alone
        | none =>
          have one : keyParts [part] = [part] := List.filter_cons_of_pos (by rw [known]; rfl)
          have none_ : named [part] = [] := List.filterMap_cons_none known
          rw [pieces, one] at alone
          obtain rfl := (List.cons.inj alone).1
          rw [keyOf, if_neg empty] at same
          subst same
          have mods : modsOf part = fun _ => false := by
            funext held
            rw [modsOf, pieces, none_]
            rfl
          rw [mods]
          exact .key part valid
    | cons next later =>
      rw [List.intercalate_cons_cons, List.append_assoc, List.singleton_append] at whole
      cases known : modifier part with
      | some held =>
        have apart : '+' ∉ part := (modifiers_apart _ (modifier_mem known)).1
        have behind : (['+'].intercalate (next :: later)).splitOn '+' = next :: later := by
          rw [← whole, List.splitOn_append_cons_of_beq _ _ BEq.rfl, List.splitOn_eq_singleton apart, List.singleton_append] at split
          exact (List.cons.inj split).2
        generalize ['+'].intercalate (next :: later) = rest at whole behind
        subst whole
        rw [keyLast_cons known] at last
        have names : named (parts (part ++ '+' :: rest)) = held :: named (parts rest) := by
          rw [parts_cons apart]
          exact List.filterMap_cons_some known
        have keyed : keyParts (parts (part ++ '+' :: rest)) = keyParts (parts rest) := by
          rw [parts_cons apart]
          exact List.filter_cons_of_neg (by rw [known]; exact Bool.false_ne_true)
        rw [names, List.nodup_cons] at once
        rw [keyed] at alone
        have below := ih ⟨once.2, ⟨only, alone, same⟩, valid⟩ last behind
        have made := Named.modifier part rest key held (modsOf rest) known (by simpa [modsOf] using once.1) below
        rwa [made.carries.2.1] at made
      | none =>
        -- A key with a plus behind it is a plus.
        have kept : ¬isModifier part = true := by
          rw [isModifier, known]
          exact Bool.false_ne_true
        rw [keyLast, split, List.dropWhile_cons_of_neg kept] at last
        split at last
        next nothing => cases nothing
        next one => cases one
        next two =>
          cases two
          have plus : text = ['+'] := by rw [← whole]; rfl
          subst plus
          rw [parts_plus] at alone
          have one : keyParts [[]] = [[]] := rfl
          rw [one] at alone
          obtain rfl := (List.cons.inj alone).1
          subst same
          have mods : modsOf ['+'] = fun _ => false := by
            funext held
            rw [modsOf, parts_plus]
            rfl
          rw [mods]
          exact .key _ (by decide)
        next => cases last

theorem named_joined_text (mods : Modifier → Bool) {key : Text} (valid : keyValid key = true) : Named (joined mods key) mods key := by
  have carries : Carries (joined mods key) key :=
    ⟨by rw [named_joined valid]; exact held_nodup mods, ⟨_, keyParts_joined valid, keyOf_keyPart valid⟩, valid⟩
  have names := carries.names (keyLast_joined mods valid)
  rwa [modsOf_joined valid] at names

end Last

section Menus

-- A menu's combination is written canonically, with its key spelled shortly.
def short (owned : Text) : Bool :=
  match keyParts (parts owned) with
  | [part] => keyValid (keyOf part) && shortKey (keyOf part) = keyOf part && joined (modsOf owned) (keyOf part) = owned
  | _ => false

theorem menus_short : ∀ owned ∈ menuOwned, short owned = true := by
  obtain ⟨menus, same, all⟩ : ∃ menus, menuOwned = menus ∧ menus.all short = true :=
    ⟨_, Spelled.map (by repeat constructor), by decide +kernel⟩
  rw [same]
  exact List.all_eq_true.1 all

theorem menu_joined {owned : Text} (menu : owned ∈ menuOwned) :
    ∃ key, keyValid key = true ∧ shortKey key = key ∧ joined (modsOf owned) key = owned := by
  have checked := menus_short owned menu
  rw [short] at checked
  split at checked
  next part _ =>
    simp only [Bool.and_eq_true, decide_eq_true_eq] at checked
    exact ⟨keyOf part, checked.1.1, checked.1.2, checked.2⟩
  next => cases checked

theorem keys_short : ∀ key ∈ keys, keyValid (shortKey key) = true := by
  intro key among
  have tidy := List.all_eq_true.1 (Bool.and_eq_true_iff.1 keys_tidy).1 key among
  obtain plain | valid := Bool.or_eq_true_iff.1 (Bool.and_eq_true_iff.1 tidy).2
  · rw [Bool.and_eq_true, decide_eq_true_eq, decide_eq_true_eq] at plain
    rw [plain.1]
    exact keyValid_known among plain.2
  · exact valid

theorem shortKey_single (char : Char) : shortKey [char] = [char.toLower] := by
  have none_ (name : Text) (long : 2 ≤ name.length) : stripFront name [char.toLower] = none := by
    match name, long with
    | first :: second :: rest, _ =>
      rw [stripFront, if_neg]
      simp
  have arrow := none_ "arrow_".toList (by decide)
  have key := none_ "key_".toList (by decide)
  have digit := none_ "digit_".toList (by decide)
  have longer (name : Text) (long : 2 ≤ name.length) : [char.toLower] ≠ name := by
    rintro rfl
    exact absurd long (Nat.not_le.2 Nat.one_lt_two)
  have left := longer "bracket_left".toList (by decide)
  have right := longer "bracket_right".toList (by decide)
  rw [shortKey, List.map_singleton]
  rw [if_neg left, if_neg right, arrow, key, digit]
  rfl

theorem keyValid_lower {char : Char} (valid : keyValid [char] = true) : keyValid [char.toLower] = true := by
  by_cases upper : 'A' ≤ char ∧ char ≤ 'Z'
  · have range : 65 ≤ char.toNat ∧ char.toNat ≤ 90 := ⟨UInt32.le_iff_toNat_le.1 upper.1, UInt32.le_iff_toNat_le.1 upper.2⟩
    have all : ∀ code < 26, keyValid [(Char.ofNat (code + 65)).toLower] = true := by decide
    have made := all (char.toNat - 65) (by omega)
    rwa [show char.toNat - 65 + 65 = char.toNat by omega, Char.ofNat_toNat] at made
  · have same : char.toLower = char := dif_neg upper
    rwa [same]

theorem keyValid_short {key : Text} (valid : keyValid key = true) : keyValid (shortKey key) = true := by
  rw [keyValid.eq_def] at valid
  split at valid
  next only =>
    rw [shortKey_single]
    exact keyValid_lower valid
  next => exact keys_short key (List.contains_iff_mem.1 valid)

theorem menu_iff (mods : Modifier → Bool) {key : Text} (valid : keyValid key = true) :
    joined mods (shortKey key) ∈ menuOwned ↔ Menu mods key := by
  constructor
  · intro menu
    obtain ⟨other, valid', plain, same⟩ := menu_joined menu
    obtain ⟨_, rfl⟩ := joined_injective valid' (keyValid_short valid) same
    exact ⟨_, menu, shortKey key, named_joined_text mods (keyValid_short valid), plain⟩
  · rintro ⟨owned, menu, other, names, spelled⟩
    obtain ⟨key', valid', plain, same⟩ := menu_joined menu
    obtain ⟨⟨_, ⟨part, only, rfl⟩, _⟩, rfl, _⟩ := names.carries
    have keyed := @keyParts_joined (modsOf owned) key' valid'
    rw [same, only] at keyed
    have key_ : keyOf part = key' := by rw [(List.cons.inj keyed).1, keyOf_keyPart valid']
    rw [key_, plain] at spelled
    rwa [← spelled, same]

end Menus

section Accepted

theorem grammar_iff (text : Text) : Grammar text ↔ (∃ key, Sound text key) ∧ keyLast text = true := by
  constructor
  · rintro ⟨mods, key, names, other⟩
    obtain ⟨⟨once, only, valid⟩, rfl, last⟩ := names.carries
    exact ⟨⟨key, once, only, valid, fun menu => other ((menu_iff _ valid).1 menu)⟩, last⟩
  · rintro ⟨⟨key, once, only, valid, free⟩, last⟩
    exact ⟨modsOf text, key, Carries.names ⟨once, only, valid⟩ last, fun menu => free ((menu_iff _ valid).2 menu)⟩

-- Two texts that name the same modifiers and the same text of a key.
def Same (text other : Text) : Prop :=
  modsOf text = modsOf other ∧ (keyParts (parts text)).map keyOf = (keyParts (parts other)).map keyOf

theorem written_iff {text other out out' : Text} (accepted : tryFrom text = .ok out) (accepted' : tryFrom other = .ok out') :
    out = out' ↔ Same text other := by
  obtain ⟨key, sound, rfl⟩ := tryFrom_ok.1 accepted
  obtain ⟨key', sound', rfl⟩ := tryFrom_ok.1 accepted'
  obtain ⟨part, only, named_⟩ := sound.only
  obtain ⟨part', only', named'⟩ := sound'.only
  rw [Same, only, only', List.map_singleton, List.map_singleton, named_, named', List.cons.injEq]
  constructor
  · intro same
    obtain ⟨mods, keys⟩ := joined_injective sound.valid sound'.valid same
    exact ⟨mods, keys, rfl⟩
  · rintro ⟨mods, keys, _⟩
    rw [mods, keys]

-- A text is accepted as the grammar has it when its key comes last, or when its parts are refused in any order; and
-- what is written for an accepted text always reads as itself, and says its modifiers and its key.
theorem accepts_iff (text : Text) :
    (((∃ out, tryFrom text = .ok out) ↔ Grammar text) ∧
      ∀ out, tryFrom text = .ok out → tryFrom out = .ok out ∧
        ∀ other out', tryFrom other = .ok out' → (out = out' ↔ Same text other)) ↔
      keyLast text = true ∨ ¬∃ key, Sound text key := by
  have accepted : (∃ out, tryFrom text = .ok out) ↔ ∃ key, Sound text key := by
    constructor
    · rintro ⟨out, made⟩
      obtain ⟨key, sound, _⟩ := tryFrom_ok.1 made
      exact ⟨key, sound⟩
    · rintro ⟨key, sound⟩
      exact ⟨_, tryFrom_ok.2 ⟨key, sound, rfl⟩⟩
  have written : ∀ out, tryFrom text = .ok out → tryFrom out = .ok out ∧
      ∀ other out', tryFrom other = .ok out' → (out = out' ↔ Same text other) :=
    fun out made => ⟨tryFrom_again made, fun other out' made' => written_iff made made'⟩
  rw [and_iff_left written, accepted, grammar_iff]
  by_cases last : keyLast text = true
  · exact iff_of_true ⟨fun sound => ⟨sound, last⟩, And.left⟩ (.inl last)
  · rw [or_iff_right last]
    exact ⟨fun same sound => last (same.1 sound).2, fun none_ => ⟨fun sound => absurd sound none_, And.left⟩⟩

theorem trailing_accepted : ¬∀ text, (∃ out, tryFrom text = .ok out) ↔ Grammar text := by
  intro all
  have grammar := (all "a+ctrl".toList).1 ⟨"ctrl+a".toList, by decide +kernel⟩
  exact absurd ((grammar_iff _).1 grammar).2 (by decide +kernel)

end Accepted

example : tryFrom "cmd+opt+control+shift+key_e".toList = .ok "super+ctrl+alt+shift+key_e".toList := by decide +kernel

example : tryFrom "command+D".toList = .error (.menu "super+D".toList) := by decide +kernel

end Kido.Triggers
