import Kido.Runtime.Ssh
import Kido.Route.Percent
import Kido.Shared.Shell

set_option autoImplicit false

namespace Kido.Runtimes

open Kido.Framing (Bytes asBytes)
open Kido.Shared (Shell.read Shell.joined Shell.literal Shell.ReadsAs Shell.Piece)

namespace Remote

def quoteByte (byte : UInt8) : Bytes := if byte = 39 then [39, 92, 39, 39] else [byte]

def quoteBytes (word : Bytes) : Bytes := [39] ++ word.flatMap quoteByte ++ [39]

end Remote

-- What a kind of runtime puts into a pane's program before and after the shared words.
structure Entry where
  prefixWords : List Bytes
  ko : List Bytes
  location : List Bytes
  token : List Bytes
  quoted : Bool

-- The `Wrap` of a pane, with its cwd in the runtime and the variables of the runtime before those of the request.
structure Wrap where
  key : RuntimeKey
  pane : String
  cwd : Option Bytes
  env : List (String × String)
  inner : Option (List Bytes)

def enterWords (wrap : Wrap) (entry : Entry) : List Bytes :=
  let tag :=
    match wrap.key.tagArg with
    | some tag => [asBytes "--tag", asBytes tag]
    | none => []
  let cwd :=
    match wrap.cwd with
    | some cwd => [asBytes "--cwd", cwd]
    | none => []
  let env := wrap.env.flatMap fun entry => [asBytes "--env", asBytes s!"{entry.1}={entry.2}"]
  let inner :=
    match wrap.inner with
    | some inner => asBytes "--" :: inner
    | none => []
  entry.ko ++ [asBytes "enter"] ++ entry.location ++ [asBytes "--pane", asBytes wrap.pane] ++ entry.token ++
    [asBytes "--runtime", asBytes wrap.key.name] ++ tag ++ cwd ++ env ++ inner

def transport (wrap : Wrap) (entry : Entry) : List Bytes :=
  let enter := enterWords wrap entry
  entry.prefixWords ++ if entry.quoted then enter.map Remote.quoteBytes else enter

namespace Remote

def entry (ssh : Ssh) (cx : Ctx) : Entry where
  prefixWords := (["ssh", "-t"] ++ through cx.controlPath ++ ["--", ssh.destination]).map asBytes
  ko := [asBytes "exec", asBytes "ko"]
  location :=
    match ssh.dir with
    | some dir => [asBytes "--dir", asBytes dir]
    | none => []
  token := []
  quoted := true

section Quoted

open Kido.Shared.Shell (run run_append run_single)

theorem quoteByte_reads (byte : UInt8) (pieces : List Shell.Piece) (tokens : List Kido.Shared.Shell.Token) :
    run ⟨.single, some pieces, tokens⟩ (quoteByte byte) = ⟨.single, some (pieces ++ [.literal byte]), tokens⟩ := by
  rw [quoteByte]
  split
  next same =>
    subst same
    rfl
  next other =>
    rw [run_single]
    · rfl
    · rw [List.mem_singleton]
      exact Ne.symm other

-- Every quote of the word closes the quotes, stands escaped and opens them again.
theorem quoteBytes_reads (word : Bytes) : Shell.ReadsAs (quoteBytes word) (word.map .literal) := by
  intro tokens
  have inside (pieces : List Shell.Piece) :
      run ⟨.single, some pieces, tokens⟩ (word.flatMap quoteByte) = ⟨.single, some (pieces ++ word.map .literal), tokens⟩ := by
    induction word generalizing pieces with
    | nil => rw [List.map_nil, List.append_nil]; rfl
    | cons byte rest ih =>
      rw [List.flatMap_cons, run_append, quoteByte_reads, ih, List.append_assoc, List.map_cons, List.singleton_append]
  have opens : run ⟨.bare, none, tokens⟩ [39] = ⟨.single, some [], tokens⟩ := rfl
  rw [quoteBytes, run_append, run_append, opens, inside, List.nil_append]
  rfl

theorem quoteBytes_whole {word : Bytes} (whole : 0 ∉ word) : 0 ∉ quoteBytes word := by
  simp only [quoteBytes, List.mem_append, List.mem_flatMap]
  rintro ((among | ⟨byte, here, among⟩) | among)
  · exact absurd among (by decide)
  · rw [quoteByte] at among
    split at among
    next => exact absurd among (by decide)
    next =>
      rw [List.mem_singleton] at among
      exact whole (among ▸ here)
  · exact absurd among (by decide)

theorem read_quoted {words : List Bytes} (whole : ∀ word ∈ words, 0 ∉ word) :
    Shell.read (Shell.joined (words.map quoteBytes)) = some (words.map Shell.literal) :=
  Kido.Shared.Shell.read_joined (fun word _ => quoteBytes_reads word) fun word here => quoteBytes_whole (whole word here)

-- No byte of another character is a quote.
theorem encoded_other {char : Char} (other : char ≠ '\'') : 39 ∉ String.utf8EncodeChar char := by
  intro among
  obtain ⟨byte, only, small⟩ | ⟨first, rest, many, _, large⟩ := Routing.encodeChar_cases char
  · have one : char.utf8Size = 1 := by rw [← String.length_utf8EncodeChar, only, List.length_singleton]
    rw [String.utf8EncodeChar_eq_singleton one, List.mem_singleton] at among
    have ascii : char.val.toNat ≤ 127 := UInt32.le_iff_toNat_le.1 (Char.utf8Size_eq_one_iff.1 one)
    have value := congrArg UInt8.toNat among
    rw [UInt32.toNat_toUInt8, Nat.mod_eq_of_lt (by omega)] at value
    exact other (Char.ext (UInt32.toNat_inj.1 value.symm))
  · rw [many] at among
    exact large 39 among (by decide)

theorem quoteByte_encoded (char : Char) : (String.utf8EncodeChar char).flatMap quoteByte =
    (if char = '\'' then ['\'', '\\', '\'', '\''] else [char]).flatMap String.utf8EncodeChar := by
  split
  next same =>
    subst same
    rfl
  next other =>
    have same : (String.utf8EncodeChar char).flatMap quoteByte = (String.utf8EncodeChar char).flatMap fun byte => [byte] := by
      refine List.flatMap_congr fun byte among => ?_
      have differs : byte ≠ 39 := by
        rintro rfl
        exact encoded_other other among
      rw [quoteByte, if_neg differs]
    rw [same, List.flatMap_singleton', List.flatMap_singleton]

-- `quote` of a text is `quote_bytes` of its bytes.
theorem asBytes_quote (word : String) : asBytes (quote word) = quoteBytes (asBytes word) := by
  have encoded (chars : List Char) : asBytes (String.ofList chars) = chars.flatMap String.utf8EncodeChar := by
    simp [asBytes, List.utf8Encode]
  rw [← String.ofList_toList (s := word), quote, quoteBytes, encoded, encoded, String.toList_ofList, List.flatMap_append,
    List.flatMap_append]
  congr 1
  congr 1
  rw [List.flatMap_assoc, List.flatMap_assoc]
  refine List.flatMap_congr fun char _ => ?_
  rw [quoteByte_encoded]

theorem enter_quoted :
    (∀ words : List Bytes, (∀ word ∈ words, 0 ∉ word) →
      Shell.read (Shell.joined (words.map quoteBytes)) = some (words.map Shell.literal)) ∧
    (∀ words : List String, (∀ word ∈ words, 0 ∉ asBytes word) →
      Shell.read (Shell.joined (words.map fun word => asBytes (quote word))) = some (words.map fun word => Shell.literal (asBytes word))) ∧
    ∀ ssh cx wrap, (∀ word ∈ enterWords wrap (entry ssh cx), 0 ∉ word) →
      ∃ line, transport wrap (entry ssh cx) = (entry ssh cx).prefixWords ++ line ∧
        Shell.read (Shell.joined line) = some ((enterWords wrap (entry ssh cx)).map Shell.literal) := by
  refine ⟨fun words => read_quoted, fun words whole => ?_, fun ssh cx wrap whole => ?_⟩
  · have read := @read_quoted (words.map asBytes) (by simpa using whole)
    rw [List.map_map, List.map_map] at read
    simp only [asBytes_quote]
    exact read
  · exact ⟨(enterWords wrap (entry ssh cx)).map quoteBytes, rfl, read_quoted whole⟩

end Quoted

end Remote

end Kido.Runtimes
