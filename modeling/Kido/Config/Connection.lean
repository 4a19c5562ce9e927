import Kido.Layout.Claims
import Mathlib.Data.List.Basic

set_option autoImplicit false

namespace Kido.Config

open Kido.Shared (isWhitespace)

abbrev Word := List Char

inductive Class where
  | keep
  | drop
  | refuse
deriving DecidableEq

structure SshOption where
  letter : Char
  kind : Class
  value : Option Word
deriving DecidableEq

structure SshArgs where
  opts : List Word
  options : List SshOption
  dest : Word
  command : List Word
deriving DecidableEq

def takesValue (letter : Char) : Option Class :=
  if letter ∈ "BbcFIiJlmopPS".toList then some .keep
  else if letter ∈ "DEeLR".toList then some .drop
  else if letter ∈ "OQWw".toList then some .refuse
  else none

def flagClass (letter : Char) : Class :=
  if letter ∈ "46CKk".toList then .keep
  else if letter ∈ "AafgNnqTtvxXYy".toList then .drop
  else .refuse

-- The letters of one word, up to the first that takes a value: the options, the words that were used and their number.
@[grind =]
def cluster (arg : Word) (next : Option Word) : List Char → Option (List SshOption × List Word × Nat)
  | [] => some ([], [arg], 1)
  | letter :: attached =>
    match takesValue letter with
    | none => (cluster arg next attached).map fun found => (⟨letter, flagClass letter, none⟩ :: found.1, found.2)
    | some kind =>
      if attached = [] then next.map fun value => ([⟨letter, kind, some value⟩], [arg, value], 2)
      else some ([⟨letter, kind, some attached⟩], [arg], 1)

-- A destination that ssh would read as an option is none.
def finish (opts : List Word) (options : List SshOption) (dest : Option Word) (command : List Word) : Option SshArgs :=
  match dest with
  | none => none
  | some dest => if dest = [] ∨ dest.head? = some '-' then none else some ⟨opts, options, dest, command⟩

-- A word that is no option: a bare hyphen is one too.
def positional (arg : Word) : Bool := decide (arg = ['-'] ∨ arg.head? ≠ some '-')

@[grind =]
def parseFrom (opts : List Word) (options : List SshOption) (dest : Option Word) : List Word → Option SshArgs
  | [] => finish opts options dest []
  | arg :: rest =>
    if arg = ['-', '-'] then
      match dest, rest with
      | none, first :: command => finish opts options (some first) command
      | dest, rest => finish opts options dest rest
    else if positional arg = true then
      match dest with
      | some dest => finish opts options (some dest) (arg :: rest)
      | none => parseFrom opts options (some arg) rest
    else
      match cluster arg rest.head? arg.tail with
      | none => none
      | some (found, used, consumed) =>
        match consumed, rest with
        | 2, _ :: later => parseFrom (opts ++ used) (options ++ found) dest later
        | _, rest => parseFrom (opts ++ used) (options ++ found) dest rest

def parse (args : List Word) : Option SshArgs := parseFrom [] [] none args

-- The words of the options that a connection keeps; an option that ko cannot allow refuses them all.
def kept : List SshOption → Option (List Word)
  | [] => some []
  | option :: rest =>
    match option.kind with
    | .refuse => none
    | .drop => kept rest
    | .keep => (kept rest).map fun words => ['-', option.letter] :: (option.value.toList ++ words)

-- The part of a setting before the first separator, without the blanks in front of it, in lower case.
def settingKey (value : Word) : Word :=
  ((value.dropWhile isWhitespace).takeWhile fun char => decide (char ∉ ['=', ' ', '\t'])).map Char.toLower

def owned (option : SshOption) : Bool :=
  match option.letter, option.value with
  | 'S', _ => true
  | 'o', some value =>
    decide (settingKey value ∈ ["controlpath".toList, "controlmaster".toList, "controlpersist".toList])
  | _, _ => false

end Kido.Config

namespace Kido.Config

open Kido.Shared (isWhitespace)

def SshArgs.after (args : SshArgs) (opts : List Word) (options : List SshOption) : SshArgs :=
  { args with opts := opts ++ args.opts, options := options ++ args.options }

section Cluster

variable {arg : Word} {letters : List Char}

-- An option has the class of its letter, and a value when its letter takes one.
def SshOption.Lawful (option : SshOption) : Prop :=
  match option.value with
  | none => takesValue option.letter = none ∧ option.kind = flagClass option.letter
  | some _ => takesValue option.letter = some option.kind

end Cluster

-- A word that starts options.
def optional (arg : Word) : Bool := decide (arg ≠ ['-', '-']) && !positional arg

section Step

variable {arg : Word} (is_option : optional arg = true) (opts : List Word) (options : List SshOption) (dest : Option Word)

include is_option

end Step

-- The arguments are read option by option.
@[elab_as_elim]
theorem reading {motive : List Word → Prop} (nil : motive []) (dashes : ∀ rest, motive (['-', '-'] :: rest))
    (word : ∀ arg rest, positional arg = true → motive rest → motive (arg :: rest))
    (alone : ∀ arg rest found, optional arg = true → cluster arg none arg.tail = some found → motive rest → motive (arg :: rest))
    (last : ∀ arg, optional arg = true → cluster arg none arg.tail = none → motive [arg])
    (waits : ∀ arg value rest, optional arg = true → cluster arg none arg.tail = none → motive rest → motive (arg :: value :: rest)) :
    ∀ args, motive args
  | [] => nil
  | arg :: rest => by
    have behind := reading nil dashes word alone last waits rest
    by_cases dashed : arg = ['-', '-']
    · exact dashed ▸ dashes rest
    · by_cases named : positional arg = true
      · exact word arg rest named behind
      · have is_option : optional arg = true := by simp [optional, dashed, named]
        cases read : cluster arg none arg.tail with
        | some found => exact alone arg rest found is_option read behind
        | none =>
          match rest with
          | [] => exact last arg is_option read
          | value :: later => exact waits arg value later is_option read (reading nil dashes word alone last waits later)

-- What `parse` gives: lawful options, and a destination that is one.
structure SshArgs.Sound (args : SshArgs) : Prop where
  lawful : ∀ option ∈ args.options, option.Lawful
  dest : args.dest ≠ [] ∧ args.dest.head? ≠ some '-'

section Socket

-- The key of a setting is recognised in any case, behind any blanks and before any separator.
theorem settingKey_spaced {blanks key rest : Word} (spaced : ∀ char ∈ blanks, isWhitespace char = true)
    (plain : ∀ char ∈ key, isWhitespace char = false ∧ char ∉ ['=', ' ', '\t']) (filled : key ≠ [])
    (ended : ∀ char ∈ rest.head?, char ∈ ['=', ' ', '\t']) : settingKey (blanks ++ key ++ rest) = key.map Char.toLower := by
  obtain ⟨first, key, rfl⟩ := List.exists_cons_of_ne_nil filled
  have trimmed : (blanks ++ (first :: key ++ rest)).dropWhile isWhitespace = first :: key ++ rest := by
    rw [List.dropWhile_append_of_pos spaced, List.cons_append, List.dropWhile_cons_of_neg]
    simp [(plain first List.mem_cons_self).1]
  have cut : (first :: key ++ rest).takeWhile (fun char => decide (char ∉ ['=', ' ', '\t'])) = first :: key := by
    rw [List.takeWhile_append_of_pos fun char member => decide_eq_true (plain char member).2]
    cases rest with
    | nil => simp
    | cons char rest => rw [List.takeWhile_cons_of_neg (by simpa [or_iff_not_imp_left] using ended char rfl), List.append_nil]
  rw [settingKey, List.append_assoc, trimmed, cut]

def sockets : List Word := ["controlpath".toList, "controlmaster".toList, "controlpersist".toList]

-- A letter is no blank and no separator.
theorem alpha_plain {char : Char} (letter : char.isAlpha = true) : isWhitespace char = false ∧ char ∉ ['=', ' ', '\t'] := by
  have code : 65 ≤ char.toNat ∧ char.toNat ≤ 90 ∨ 97 ≤ char.toNat ∧ char.toNat ≤ 122 := by
    change (decide (char.val ≥ 'A'.val ∧ char.val ≤ 'Z'.val) || decide (char.val ≥ 'a'.val) && decide (char.val ≤ 'z'.val)) = true
      at letter
    simp only [Bool.or_eq_true, Bool.and_eq_true, decide_eq_true_eq] at letter
    have between {low high : Char} (within : char.val ≥ low.val ∧ char.val ≤ high.val) : low.toNat ≤ char.toNat ∧ char.toNat ≤ high.toNat :=
      ⟨UInt32.le_iff_toNat_le.mp within.1, UInt32.le_iff_toNat_le.mp within.2⟩
    exact letter.imp between between
  constructor
  · rw [Bool.eq_false_iff]
    intro blank
    simp only [isWhitespace, Bool.or_eq_true, Bool.and_eq_true, decide_eq_true_eq] at blank
    omega
  · simp only [List.mem_cons, List.not_mem_nil, or_false, not_or]
    refine ⟨?_, ?_, ?_⟩ <;> rintro rfl <;> exact absurd letter (by decide)

-- How ssh reads the value of `-o`: the setting that the value gives an argument to. The manual has the name of the setting, blanks or one
-- equals sign, and the argument.
structure Ssh where
  setting : Word → Option Word
  documented : ∀ {blanks name argument : Word} {separator : Char}, (∀ char ∈ blanks, char ∈ [' ', '\t']) → name ≠ [] →
    (∀ char ∈ name, char.isAlpha = true) → separator ∈ ['=', ' ', '\t'] → (∃ char ∈ argument.head?, char.isAlphanum = true) →
      setting (blanks ++ name ++ separator :: argument) = some name

-- A socket that ssh finds in the value of `-o` is found by its key too.
def Agrees (ssh : Ssh) (option : SshOption) : Prop :=
  option.letter = 'o' → ∀ value ∈ option.value, ∀ name ∈ ssh.setting value, name.map Char.toLower ∈ sockets →
    settingKey value = name.map Char.toLower

theorem documented_agrees (ssh : Ssh) {letter : Char} {kind : Class} {blanks name argument : Word} {separator : Char}
    (spaced : ∀ char ∈ blanks, char ∈ [' ', '\t']) (filled : name ≠ []) (letters : ∀ char ∈ name, char.isAlpha = true)
    (separated : separator ∈ ['=', ' ', '\t']) (starts : ∃ char ∈ argument.head?, char.isAlphanum = true) :
    Agrees ssh ⟨letter, kind, some (blanks ++ name ++ separator :: argument)⟩ := by
  intro _ value given found is _
  obtain rfl := Option.some.inj given
  obtain rfl : name = found := Option.some.inj ((ssh.documented spaced filled letters separated starts).symm.trans is)
  refine settingKey_spaced (fun char member => ?_) (fun char member => alpha_plain (letters char member)) filled fun char head => ?_
  · have blank := spaced char member
    simp only [List.mem_cons, List.not_mem_nil, or_false] at blank
    rcases blank with rfl | rfl <;> decide
  · obtain rfl := Option.some.inj head
    exact separated

end Socket

def blank (char : Char) : Bool := decide (char ∈ [' ', '\t', '\r', '\n'])

end Kido.Config
