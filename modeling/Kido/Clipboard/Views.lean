import Kido.Clipboard.Pack
import Kido.Shared.Outcome

set_option autoImplicit false

namespace Kido.Framing

open Kido.Shared

-- The strings that can be read one behind the other.
def stringsFrom : Nat → Bytes → List Bytes
  | 0, _ => []
  | fuel + 1, body =>
    match Fields.bytes body with
    | .ok (value, rest) => value :: stringsFrom fuel rest
    | .error _ => []

-- Each string takes its length at least, so that there are fewer than bytes.
def strings (bytes : Bytes) : List Bytes := stringsFrom bytes.length (bytes.drop 4)

def Mimes.iter (mimes : Mimes) : List Bytes := strings mimes.bytes

def pairsOf : List Bytes → List (Bytes × Bytes)
  | first :: second :: rest => (first, second) :: pairsOf rest
  | _ => []

def Contents.pairs (contents : Contents) : List (Bytes × Bytes) := pairsOf (strings contents.bytes)

structure Cell where
  row : UInt32
  col : UInt16
deriving DecidableEq

structure Match where
  start : Cell
  end_ : Cell
deriving DecidableEq

def Body.found (found : Match) : Body Unit := do
  Body.u32 found.start.row
  Body.u16 found.start.col
  Body.u32 found.end_.row
  Body.u16 found.end_.col

def MatchesBuf.set : List Match → Body Unit
  | [] => pure ()
  | found :: rest => do
    Body.found found
    MatchesBuf.set rest

theorem found_written (found : Match) : (Body.found found).written =
    leBytes 4 found.start.row.toNat ++ (leBytes 2 found.start.col.toNat ++ (leBytes 4 found.end_.row.toNat ++ leBytes 2 found.end_.col.toNat)) :=
  rfl

theorem found_length (found : Match) : (Body.found found).written.length = matchSize := by
  simp [found_written, matchSize]

theorem set_written (all : List Match) : (MatchesBuf.set all).written = all.flatMap fun found => (Body.found found).written := by
  induction all with
  | nil => rfl
  | cons found rest ih =>
    rw [List.flatMap_cons, ← ih]
    rfl

theorem set_length (all : List Match) : (MatchesBuf.set all).written.length = matchSize * all.length := by
  rw [set_written]
  induction all with
  | nil => rfl
  | cons found rest ih =>
    rw [List.flatMap_cons, List.length_append, found_length, ih, List.length_cons, Nat.mul_succ, Nat.add_comm]

def MatchesBuf.new (all : List Match) : Matches :=
  ⟨(MatchesBuf.set all).written, by rw [set_length, Nat.mul_mod_right]⟩

-- So many records of bytes, one behind the other.
def chunks : Nat → Bytes → List Bytes
  | 0, _ => []
  | count + 1, bytes => bytes.take matchSize :: chunks count (bytes.drop matchSize)

def readMatch (record : Bytes) : Option Match := do
  return ⟨⟨← u32At record 0, ← u16At record 4⟩, ⟨← u32At record 6, ← u16At record 10⟩⟩

def Matches.iter (found : Matches) : List Match := (chunks (found.bytes.length / matchSize) found.bytes).filterMap readMatch

section Read

theorem ofLe_lt (bytes : Bytes) : ofLe bytes < 256 ^ bytes.length := by
  induction bytes with
  | nil => simp [ofLe]
  | cons byte rest ih =>
    have low := byte.toNat_lt
    rw [ofLe, List.length_cons, Nat.pow_succ]
    omega

theorem leBytes_ofLe (bytes : Bytes) : leBytes bytes.length (ofLe bytes) = bytes := by
  induction bytes with
  | nil => rfl
  | cons byte rest ih =>
    have low := byte.toNat_lt
    have first : (byte.toNat + 256 * ofLe rest) / 256 = ofLe rest := by omega
    have last : UInt8.ofNat (byte.toNat + 256 * ofLe rest) = byte := by
      rw [← UInt8.toNat_inj, UInt8.toNat_ofNat']
      omega
    rw [ofLe, List.length_cons, leBytes, first, last, ih]

theorem take_reads {count : Nat} {body taken rest : Bytes} (read : Fields.take count body = .ok (taken, rest)) :
    body = taken ++ rest ∧ taken.length = count := by
  unfold Fields.take at read
  split at read
  next enough =>
    obtain ⟨rfl, rfl⟩ := Prod.mk.inj (Except.ok.inj read)
    exact ⟨(List.take_append_drop _ _).symm, List.length_take_of_le enough⟩
  next => cases read

theorem u32_reads {body rest : Bytes} {value : UInt32} (read : Fields.u32 body = .ok (value, rest)) :
    body = leBytes 4 value.toNat ++ rest := by
  obtain ⟨taken, left, first, last⟩ := Reader.bind_ok read
  obtain ⟨rfl, length⟩ := take_reads first
  obtain ⟨rfl, rfl⟩ := Prod.mk.inj (Except.ok.inj last)
  have bound : ofLe taken < 2 ^ 32 := by
    have small := ofLe_lt taken
    rw [length] at small
    exact small
  have same : (UInt32.ofNat (ofLe taken)).toNat = ofLe taken := by
    rw [UInt32.toNat_ofNat', Nat.mod_eq_of_lt bound]
  rw [same, ← length, leBytes_ofLe]

theorem length_written {value : Nat} (small : value < 2 ^ 32) :
    (Body.length value).result = .ok () ∧ (Body.length value).written = leBytes 4 value := by
  have same : (UInt32.ofNat value).toNat = value := by rw [UInt32.toNat_ofNat', Nat.mod_eq_of_lt small]
  rw [Body.length, if_pos small, Body.u32, same]
  exact ⟨rfl, rfl⟩

theorem then_written {ε : Type} {first : Shared.Writer ε Unit} (well : first.result = .ok ()) (second : Shared.Writer ε Unit) :
    (first >>= fun _ => second).written = first.written ++ second.written ∧ (first >>= fun _ => second).result = second.result := by
  change (first.andThen _).written = _ ∧ (first.andThen _).result = _
  unfold Writer.andThen
  rw [well]
  exact ⟨rfl, rfl⟩

-- A writer that ends well after a first one had that end well.
theorem first_well {ε : Type} {first second : Shared.Writer ε Unit} (well : (first >>= fun _ => second).result = .ok ()) : first.result = .ok () := by
  change (first.andThen _).result = _ at well
  unfold Writer.andThen at well
  split at well
  next => cases well
  next ended => exact ended

-- A string that can be read is one that was written.
theorem bytes_reads {body value rest : Bytes} (read : Fields.bytes body = .ok (value, rest)) :
    (Body.string value).result = .ok () ∧ body = (Body.string value).written ++ rest := by
  obtain ⟨length, left, first, last⟩ := Reader.bind_ok read
  rw [u32_reads first]
  split at last
  next enough =>
    obtain ⟨rfl, rfl⟩ := Prod.mk.inj (Except.ok.inj last)
    have is : (left.take length.toNat).length = length.toNat := List.length_take_of_le enough
    have small : (left.take length.toNat).length < 2 ^ 32 := by
      rw [is]
      exact length.toNat_lt
    obtain ⟨well, written⟩ := length_written small
    obtain ⟨whole, ended⟩ := then_written well (Body.bytes (left.take length.toNat))
    refine ⟨ended, ?_⟩
    rw [Body.string, whole, written, is, List.append_assoc]
    change _ = leBytes 4 length.toNat ++ (left.take length.toNat ++ left.drop length.toNat)
    rw [List.take_append_drop]
  next => cases last

-- Strings that can be walked over are a list that was written.
theorem walk_reads {count : Nat} {body rest : Bytes} (read : Fields.walk count body = .ok ((), rest)) :
    ∃ values, values.length = count ∧ (Body.each values).result = .ok () ∧ body = (Body.each values).written ++ rest := by
  induction count generalizing body with
  | zero =>
    obtain ⟨-, rfl⟩ := Prod.mk.inj (Except.ok.inj read)
    exact ⟨[], rfl, rfl, rfl⟩
  | succ count ih =>
    obtain ⟨value, left, first, last⟩ := Reader.bind_ok read
    obtain ⟨well, rfl⟩ := bytes_reads first
    obtain ⟨values, same, ended, rfl⟩ := ih last
    obtain ⟨whole, all⟩ := then_written well (Body.each values)
    refine ⟨value :: values, by rw [List.length_cons, same], ?_, ?_⟩
    · rw [Body.each, all, ended]
    · rw [Body.each, whole, List.append_assoc]

-- What is written of a list of strings: how many there are, and the strings.
theorem strings_written {values : List Bytes} (few : values.length < 2 ^ 32) :
    (Body.strings values).result = (Body.each values).result ∧
      (Body.strings values).written = leBytes 4 values.length ++ (Body.each values).written := by
  obtain ⟨well, written⟩ := length_written few
  obtain ⟨whole, ended⟩ := then_written well (Body.each values)
  exact ⟨ended, by rw [Body.strings, whole, written]⟩

-- Bytes that are a list of strings were written as one.
theorem strings_reads {bytes : Bytes} {count : Nat} (found : stringsOf bytes = .ok count) :
    ∃ values, values.length = count ∧ (Body.strings values).result = .ok () ∧ bytes = (Body.strings values).written := by
  obtain ⟨walked, rest, first, last⟩ : ∃ walked rest, Fields.walkStrings bytes = .ok (walked, rest) ∧
      (Fields.done rest >>= fun _ => pure walked) = .ok count := by
    unfold stringsOf at found
    cases ended : Fields.walkStrings bytes with
    | error malformed =>
      rw [ended] at found
      cases found
    | ok pair =>
      rw [ended] at found
      exact ⟨pair.1, pair.2, rfl, found⟩
  obtain ⟨number, left, counted, others⟩ := Reader.bind_ok first
  obtain ⟨nothing, final, walk, same⟩ := Reader.bind_ok others
  obtain ⟨rfl, rfl⟩ := Prod.mk.inj (Except.ok.inj same)
  obtain ⟨values, length, well, rfl⟩ := walk_reads walk
  have empty : final = [] := by
    by_contra more
    rw [Fields.done, if_neg more] at last
    cases last
  subst empty
  obtain rfl : number.toNat = count := Except.ok.inj last
  have few : values.length < 2 ^ 32 := by
    rw [length]
    exact number.toNat_lt
  obtain ⟨ended, written⟩ := strings_written few
  refine ⟨values, length, ended.trans well, ?_⟩
  rw [u32_reads counted, written, length, List.append_nil]

-- The strings that were written are those that are read.
theorem stringsFrom_each {values : List Bytes} (well : (Body.each values).result = .ok ()) {fuel : Nat} (enough : values.length ≤ fuel) :
    stringsFrom fuel (Body.each values).written = values := by
  induction values generalizing fuel with
  | nil =>
    cases fuel with
    | zero => rfl
    | succ fuel => rfl
  | cons value rest ih =>
    obtain ⟨fuel, rfl⟩ := Nat.exists_eq_succ_of_ne_zero (show fuel ≠ 0 by simp at enough; omega)
    have first : (Body.string value).result = .ok () := first_well well
    obtain ⟨whole, ended⟩ := then_written first (Body.each rest)
    have reads := (string_undoes value () first).2 (Body.each rest).written
    rw [Body.each] at well ⊢
    rw [whole, stringsFrom, reads]
    simp only [List.cons.injEq, true_and]
    exact ih (ended ▸ well) (by simpa using enough)

-- More steps than there are bytes read no other strings.
theorem stringsFrom_enough {fuel : Nat} {body : Bytes} (enough : body.length ≤ fuel) : stringsFrom fuel body = stringsFrom body.length body := by
  induction fuel using Nat.strong_induction_on generalizing body with
  | h fuel ih =>
    cases read : Fields.bytes body with
    | error malformed =>
      have none_ (steps : Nat) : stringsFrom steps body = [] := by
        cases steps with
        | zero => rfl
        | succ steps => rw [stringsFrom, read]
      rw [none_, none_]
    | ok pair =>
      obtain ⟨value, rest⟩ := pair
      obtain ⟨well, is⟩ := bytes_reads read
      have shorter : rest.length < body.length := by
        have own := congrArg List.length is
        have fits : (Body.length value.length).result = .ok () := first_well well
        rw [Body.string, (then_written fits (Body.bytes value)).1, (length_written (length_ok fits)).2] at own
        simp only [List.length_append, leBytes_length] at own
        omega
      obtain ⟨steps, rfl⟩ := Nat.exists_eq_succ_of_ne_zero (show fuel ≠ 0 by omega)
      obtain ⟨count, length⟩ := Nat.exists_eq_succ_of_ne_zero (show body.length ≠ 0 by omega)
      rw [length, stringsFrom, stringsFrom, read]
      simp only
      rw [ih steps (by omega) (by omega), ih count (by omega) (by omega)]

-- Each string takes a byte at least.
theorem each_long {values : List Bytes} (well : (Body.each values).result = .ok ()) : values.length ≤ (Body.each values).written.length := by
  induction values with
  | nil => exact Nat.zero_le _
  | cons value rest ih =>
    have first : (Body.string value).result = .ok () := first_well well
    have fits : (Body.length value.length).result = .ok () := first_well first
    obtain ⟨whole, ended⟩ := then_written first (Body.each rest)
    obtain ⟨own, -⟩ := then_written fits (Body.bytes value)
    have tail := ih (ended ▸ well)
    rw [Body.each, whole, Body.string, own, (length_written (length_ok fits)).2, List.length_append, List.length_append, leBytes_length, List.length_cons]
    omega

-- The view of a list of strings that was written reads it.
theorem strings_view {values : List Bytes} (well : (Body.strings values).result = .ok ()) : strings (Body.strings values).written = values := by
  have few := length_ok (first_well well)
  obtain ⟨ended, written⟩ := strings_written few
  rw [ended] at well
  have long := each_long well
  have dropped : (Body.strings values).written.drop 4 = (Body.each values).written := by
    rw [written, List.drop_left' (leBytes_length 4 _)]
  rw [strings, dropped]
  refine stringsFrom_each well ?_
  rw [written, List.length_append]
  omega

end Read

section Views

theorem pairsOf_strings (pairs : List (Bytes × Bytes)) : pairsOf (Clipboards.pairStrings pairs) = pairs := by
  induction pairs with
  | nil => rfl
  | cons pair rest ih =>
    change (pair.1, pair.2) :: pairsOf (Clipboards.pairStrings rest) = _
    rw [ih]

theorem strings_pairsOf {values : List Bytes} (even : values.length % 2 = 0) : Clipboards.pairStrings (pairsOf values) = values := by
  fun_induction pairsOf values with
  | case1 first second rest ih =>
    change first :: second :: Clipboards.pairStrings (pairsOf rest) = _
    rw [ih (by simp only [List.length_cons] at even; omega)]
  | case2 values other =>
    match values with
    | [] => rfl
    | [value] => simp at even
    | first :: second :: rest => exact absurd rfl (other first second rest)

-- The view reads all its bytes as the strings that it gives, and no more.
def Mimes.Exact (mimes : Mimes) : Prop := (Body.strings mimes.iter).result = .ok () ∧ mimes.bytes = (Body.strings mimes.iter).written

def Contents.Exact (contents : Contents) : Prop :=
  (Body.strings (Clipboards.pairStrings contents.pairs)).result = .ok () ∧
    contents.bytes = (Body.strings (Clipboards.pairStrings contents.pairs)).written

def Matches.Exact (found : Matches) : Prop := found.bytes = (MatchesBuf.set found.iter).written

theorem mimes_exact (mimes : Mimes) : mimes.Exact := by
  obtain ⟨count, found⟩ := mimes.whole
  obtain ⟨values, -, well, is⟩ := strings_reads found
  have same : mimes.iter = values := by rw [Mimes.iter, is, strings_view well]
  rw [Mimes.Exact, same]
  exact ⟨well, is⟩

theorem contents_exact (contents : Contents) : contents.Exact := by
  obtain ⟨count, found, even⟩ := contents.whole
  obtain ⟨values, length, well, is⟩ := strings_reads found
  have same : Clipboards.pairStrings contents.pairs = values := by
    rw [Contents.pairs, is, strings_view well, strings_pairsOf (by rw [length, even])]
  rw [Contents.Exact, same]
  exact ⟨well, is⟩

section Record

theorem u16_at {body : Bytes} {place : Nat} (inside : place + 2 ≤ body.length) :
    ∃ value, u16At body place = some value ∧ leBytes 2 value.toNat = (body.drop place).take 2 := by
  have length : ((body.drop place).take 2).length = 2 := by
    rw [List.length_take, List.length_drop]
    omega
  refine ⟨UInt16.ofNat (ofLe ((body.drop place).take 2)), by rw [u16At, arrayAt, if_pos inside, Option.map_some], ?_⟩
  have bound := ofLe_lt ((body.drop place).take 2)
  rw [length] at bound
  have same := leBytes_ofLe ((body.drop place).take 2)
  rw [length] at same
  rw [UInt16.toNat_ofNat', Nat.mod_eq_of_lt (show _ < 2 ^ 16 from bound), same]

theorem u32_at {body : Bytes} {place : Nat} (inside : place + 4 ≤ body.length) :
    ∃ value, u32At body place = some value ∧ leBytes 4 value.toNat = (body.drop place).take 4 := by
  have length : ((body.drop place).take 4).length = 4 := by
    rw [List.length_take, List.length_drop]
    omega
  refine ⟨UInt32.ofNat (ofLe ((body.drop place).take 4)), by rw [u32At, arrayAt, if_pos inside, Option.map_some], ?_⟩
  have bound := ofLe_lt ((body.drop place).take 4)
  rw [length] at bound
  have same := leBytes_ofLe ((body.drop place).take 4)
  rw [length] at same
  rw [UInt32.toNat_ofNat', Nat.mod_eq_of_lt (show _ < 2 ^ 32 from bound), same]

theorem drop_parts (bytes : Bytes) (place count : Nat) : (bytes.drop place).take count ++ bytes.drop (place + count) = bytes.drop place := by
  rw [← List.drop_drop, List.take_append_drop]

-- A record of bytes is one match.
theorem readMatch_reads {record : Bytes} (length : record.length = matchSize) :
    ∃ found, readMatch record = some found ∧ (Body.found found).written = record := by
  rw [matchSize] at length
  obtain ⟨row, rowAt, rowIs⟩ := u32_at (show 0 + 4 ≤ record.length by omega)
  obtain ⟨col, colAt, colIs⟩ := u16_at (show 4 + 2 ≤ record.length by omega)
  obtain ⟨lastRow, lastRowAt, lastRowIs⟩ := u32_at (show 6 + 4 ≤ record.length by omega)
  obtain ⟨lastCol, lastColAt, lastColIs⟩ := u16_at (show 10 + 2 ≤ record.length by omega)
  refine ⟨⟨⟨row, col⟩, ⟨lastRow, lastCol⟩⟩, by simp [readMatch, rowAt, colAt, lastRowAt, lastColAt], ?_⟩
  have last : (record.drop 10).take 2 = record.drop 10 := List.take_of_length_le (by rw [List.length_drop]; omega)
  rw [found_written, rowIs, colIs, lastRowIs, lastColIs, last, drop_parts record 6 4, drop_parts record 4 2, drop_parts record 0 4, List.drop_zero]

theorem readMatch_written (found : Match) : readMatch (Body.found found).written = some found := by
  have row : u32At (Body.found found).written 0 = some found.start.row := u32At_middle [] _ rfl rfl
  have col : u16At (Body.found found).written 4 = some found.start.col :=
    u16At_middle (leBytes 4 found.start.row.toNat) (leBytes 4 found.end_.row.toNat ++ leBytes 2 found.end_.col.toNat)
      (by simp [found_written]) (leBytes_length 4 _)
  have lastRow : u32At (Body.found found).written 6 = some found.end_.row :=
    u32At_middle (leBytes 4 found.start.row.toNat ++ leBytes 2 found.start.col.toNat) (leBytes 2 found.end_.col.toNat)
      (by simp [found_written]) (by simp)
  have lastCol : u16At (Body.found found).written 10 = some found.end_.col :=
    u16At_middle (leBytes 4 found.start.row.toNat ++ leBytes 2 found.start.col.toNat ++ leBytes 4 found.end_.row.toNat) []
      (by simp [found_written]) (by simp)
  simp [readMatch, row, col, lastRow, lastCol]

theorem chunks_set (all : List Match) : (chunks all.length (MatchesBuf.set all).written).filterMap readMatch = all := by
  rw [set_written]
  induction all with
  | nil => rfl
  | cons found rest ih =>
    have length := found_length found
    rw [List.flatMap_cons, List.length_cons, chunks, List.take_left' length, List.drop_left' length, List.filterMap_cons, readMatch_written]
    simp only [ih]

theorem matches_view (all : List Match) : (MatchesBuf.new all).iter = all := by
  have length : (MatchesBuf.set all).written.length / matchSize = all.length := by
    rw [set_length, Nat.mul_div_cancel_left _ (by decide)]
  rw [Matches.iter, MatchesBuf.new]
  simp only [length]
  exact chunks_set all

theorem chunks_reads {count : Nat} {bytes : Bytes} (length : bytes.length = matchSize * count) :
    bytes = ((chunks count bytes).filterMap readMatch).flatMap fun found => (Body.found found).written := by
  induction count generalizing bytes with
  | zero => simpa [chunks] using length
  | succ count ih =>
    rw [Nat.mul_succ] at length
    obtain ⟨found, read, written⟩ := readMatch_reads (show (bytes.take matchSize).length = matchSize by rw [List.length_take]; omega)
    have rest := ih (show (bytes.drop matchSize).length = matchSize * count by rw [List.length_drop]; omega)
    rw [chunks, List.filterMap_cons, read]
    simp only [List.flatMap_cons]
    rw [written, ← rest, List.take_append_drop]

theorem matches_exact (found : Matches) : found.Exact := by
  have length : found.bytes.length = matchSize * (found.bytes.length / matchSize) :=
    (Nat.mul_div_cancel' (Nat.dvd_of_mod_eq_zero found.aligned)).symm
  rw [Matches.Exact, set_written]
  exact chunks_reads length

end Record

-- The views of a message read all their bytes, which are a part of the frame.
def FromPane.Viewed (frame : Bytes) : FromPane → Prop
  | .clipboardWrite _ contents => contents.bytes <:+: frame ∧ contents.Exact
  | .clipboardRead _ _ _ mimes => mimes.bytes <:+: frame ∧ mimes.Exact
  | .matches _ found => found.bytes <:+: frame ∧ found.Exact
  | _ => True

def Request.Viewed (frame : Bytes) : Request → Prop
  | .clipboardAnswer _ (some served) =>
    (served.available.bytes <:+: frame ∧ served.available.Exact) ∧ served.contents.bytes <:+: frame ∧ served.contents.Exact
  | _ => True

section Decoded

-- What a reader leaves is the end of its bytes.
theorem left_behind {α : Type} {read : Fields α} (own : Reader.Local read) {bytes rest : Bytes} {value : α}
    (run : read bytes = .ok (value, rest)) : rest <:+ bytes := by
  obtain ⟨front, rfl, -⟩ := own bytes value rest run
  exact List.suffix_append front rest

theorem orFail_local {α : Type} (value : Option α) (malformed : Malformed) : Reader.Local (Reader.orFail value malformed : Fields α) := by
  cases value with
  | none => exact .fail malformed
  | some value => exact .pure value

theorem u8_local : Reader.Local Fields.u8 := (take_local 1).bind fun _ => orFail_local _ _

theorem flag_local : Reader.Local Fields.flag := by
  refine u8_local.bind fun value => ?_
  split
  · exact .pure _
  · exact .pure _
  · exact .fail _

theorem location_local : Reader.Local Fields.location := u8_local.bind fun _ => orFail_local _ _

theorem run_ok {α : Type} {read : Fields α} {body : Bytes} {value : α} (run : read.run' body = .ok value) :
    ∃ rest, read body = .ok (value, rest) := by
  obtain ⟨⟨value, rest⟩, ran, same⟩ := bind_ok_iff.1 run
  cases same
  exact ⟨rest, ran⟩

theorem contents_bytes {bytes : Bytes} {contents : Contents} (read : Contents.of bytes = .ok contents) : contents.bytes = bytes := by
  unfold Contents.of at read
  split at read
  next =>
    split at read
    next => cases read; rfl
    next => cases read
  next => cases read

theorem mimes_bytes {bytes : Bytes} {mimes : Mimes} (read : Mimes.of bytes = .ok mimes) : mimes.bytes = bytes := by
  unfold Mimes.of at read
  split at read
  next => cases read; rfl
  next => cases read

theorem matches_bytes {bytes : Bytes} {found : Matches} (read : Matches.of bytes = some found) : found.bytes = bytes := by
  unfold Matches.of at read
  split at read
  next => cases read; rfl
  next => cases read

theorem decodeBody_viewed {kind : Kind} {body : Bytes} {message : FromPane} (done : decodeBody kind body = .ok (some message)) :
    message.Viewed body := by
  cases kind with
  | clipboardWrite =>
    obtain ⟨⟨location, rest⟩, ran, next⟩ := bind_ok_iff.1 done
    obtain ⟨contents, read, made⟩ := bind_ok_iff.1 next
    cases made
    obtain ⟨_, fields⟩ := run_ok ran
    obtain ⟨_, behind, placed, ended⟩ := Reader.bind_ok fields
    cases ended
    refine ⟨?_, contents_exact contents⟩
    rw [contents_bytes read]
    exact (left_behind location_local placed).isInfix
  | clipboardRead =>
    obtain ⟨⟨req, location, list, rest⟩, ran, next⟩ := bind_ok_iff.1 done
    obtain ⟨mimes, read, made⟩ := bind_ok_iff.1 next
    cases made
    obtain ⟨_, fields⟩ := run_ok ran
    obtain ⟨_, first, asked, fields⟩ := Reader.bind_ok fields
    obtain ⟨_, second, placed, fields⟩ := Reader.bind_ok fields
    obtain ⟨_, third, flagged, ended⟩ := Reader.bind_ok fields
    cases ended
    refine ⟨?_, mimes_exact mimes⟩
    rw [mimes_bytes read]
    have behind := (left_behind flag_local flagged).trans (left_behind location_local placed)
    exact (behind.trans (left_behind u32_local asked)).isInfix
  | «matches» =>
    obtain ⟨⟨req, rest⟩, ran, next⟩ := bind_ok_iff.1 done
    obtain ⟨found, read, made⟩ := bind_ok_iff.1 next
    cases made
    obtain ⟨_, fields⟩ := run_ok ran
    obtain ⟨_, behind, asked, ended⟩ := Reader.bind_ok fields
    cases ended
    refine ⟨?_, matches_exact found⟩
    have same : found.bytes = rest := by
      cases is : Matches.of rest with
      | none =>
        rw [is] at read
        cases read
      | some other =>
        rw [is] at read
        cases read
        exact matches_bytes is
    rw [same]
    exact (left_behind u32_local asked).isInfix
  | init | tail | resize | text | snapshot | exit | key | paste | mouse | focus | clearHistory | image | clipboardAnswer | search |
    searchCancel => cases done
  | ready =>
    simp only [decodeBody] at done
    split at done
    · cases done
      trivial
    · cases done
  | head | title | pwd | dead | snapshotDone | error | full | prompt | record | alternate | bell | imageGone | searchDone =>
    obtain ⟨_, -, made⟩ := bind_ok_iff.1 done
    cases made
    trivial
  | foreground | notify => 
    obtain ⟨_, -, made⟩ := bind_ok_iff.1 done
    cases made
    trivial
  | pasteDone | progress =>
    obtain ⟨_, -, last⟩ := bind_ok_iff.1 done
    obtain ⟨_, -, made⟩ := bind_ok_iff.1 last
    cases made
    trivial
  | screen => 
    obtain ⟨_, -, last⟩ := bind_ok_iff.1 done
    obtain ⟨_, -, more⟩ := bind_ok_iff.1 last
    obtain ⟨_, -, made⟩ := bind_ok_iff.1 more
    cases made
    trivial
  | imageReply =>
    obtain ⟨_, -, made⟩ := bind_ok_iff.1 done
    cases made
    trivial

theorem split_behind {frame body : Bytes} {code : UInt8} (found : split frame = .ok (code, body)) : body <:+ frame := by
  unfold split at found
  split at found
  next other left behind =>
    cases found
    exact ((List.suffix_cons code body).trans (behind ▸ List.suffix_refl _)).trans (List.drop_suffix 4 frame)
  next => cases found

theorem FromPane.Viewed.part {body frame : Bytes} {message : FromPane} (viewed : message.Viewed body) (behind : body <:+ frame) :
    message.Viewed frame := by
  cases message
  case clipboardWrite => exact ⟨viewed.1.trans behind.isInfix, viewed.2⟩
  case clipboardRead => exact ⟨viewed.1.trans behind.isInfix, viewed.2⟩
  case «matches» => exact ⟨viewed.1.trans behind.isInfix, viewed.2⟩
  all_goals trivial

theorem decode_viewed {frame : Bytes} {message : FromPane} (done : decode frame = .ok (some message)) : message.Viewed frame := by
  obtain ⟨⟨code, body⟩, found, next⟩ := bind_ok_iff.1 done
  obtain ⟨kind, -, last⟩ := bind_ok_iff.1 next
  exact (decodeBody_viewed last).part (split_behind found)

-- Whatever the reader reads is so.
def Gives {α : Type} (P : α → Prop) (read : Fields α) : Prop := ∀ body value rest, read body = .ok (value, rest) → P value

section Gives

variable {α β : Type} {P : β → Prop}

theorem Gives.pure {value : β} (so : P value) : Gives P (Pure.pure value) := by
  intro body other rest run
  cases run
  exact so

theorem Gives.fail (malformed : Malformed) : Gives P (Reader.fail malformed) := fun _ _ _ run => by cases run

theorem Gives.bind {first : Fields α} {next : α → Fields β} (each : ∀ value, Gives P (next value)) : Gives P (first >>= next) := by
  intro body value rest run
  obtain ⟨middle, taken, -, last⟩ := Reader.bind_ok run
  exact each middle taken value rest last

theorem Gives.ite {condition : Prop} [Decidable condition] {first second : Fields β} (one : Gives P first) (two : Gives P second) :
    Gives P (if condition then first else second) := by
  split
  · exact one
  · exact two

end Gives

-- Only an answer has views.
def Request.Plain : Request → Prop
  | .clipboardAnswer _ (some _) => False
  | _ => True

theorem request_plain {kind : Kind} {read : Fields Request} (reads : Fields.request kind = some read) (other : kind ≠ .clipboardAnswer) :
    Gives Request.Plain read := by
  cases kind <;> cases reads
  case clipboardAnswer.refl => exact absurd rfl other
  case snapshot.refl =>
    refine .bind fun req => .bind fun screen => .bind fun zero => ?_
    have last : Gives Request.Plain (Fields.text >>= fun text =>
        if text ≠ [] then Fields.request.fail >>= fun _ => pure (Request.snapshot ⟨req⟩ (if screen ≠ 0 then .none else .all))
        else pure (Request.snapshot ⟨req⟩ (if screen ≠ 0 then .none else .all))) :=
      .bind fun text => .ite (.bind fun _ => .pure trivial) (.pure trivial)
    exact .ite (.bind fun _ => last) last
  case search.refl => exact .bind fun req => .bind fun needle => .pure trivial
  case screen.refl => exact .bind fun req => .bind fun format => .bind fun rows => .pure trivial
  case paste.refl => exact .bind fun req => .bind fun bytes => .bind fun text => .bind fun safe => .pure trivial
  case image.refl => exact .bind fun req => .bind fun image => .bind fun frame => .bind fun generation => .bind fun name => .pure trivial
  -- The others have one part.
  all_goals exact .bind fun value => .pure trivial

theorem mimes_reads {body rest : Bytes} {available : Mimes} (run : Fields.mimes body = .ok (available, rest)) :
    available.bytes ++ rest = body := by
  unfold Fields.mimes at run
  split at run
  next => cases run
  next count left found =>
    cases run
    obtain ⟨front, rfl, -⟩ := walkStrings_local body count rest found
    simp

theorem answer_viewed {body rest : Bytes} {read : Fields Request} {request : Request}
    (reads : Fields.request .clipboardAnswer = some read) (run : read body = .ok (request, rest)) : request.Viewed body := by
  cases reads
  obtain ⟨req, asked, first, flags⟩ := Reader.bind_ok run
  obtain ⟨given, flagged, second, views⟩ := Reader.bind_ok flags
  have behind := (left_behind flag_local second).trans (left_behind u32_local first)
  split at views
  · obtain ⟨available, named, third, rests⟩ := Reader.bind_ok views
    obtain ⟨left, nothing, fourth, ends⟩ := Reader.bind_ok rests
    cases fourth
    obtain ⟨contents, other, fifth, made⟩ := Reader.bind_ok ends
    obtain ⟨_, filled, same⟩ := bind_ok_iff.1 fifth
    cases same
    cases made
    have parts := mimes_reads third
    have front : available.bytes <:+: flagged := parts ▸ List.infix_append [] _ _
    have back : named <:+ flagged := parts ▸ List.suffix_append _ _
    refine ⟨⟨front.trans behind.isInfix, mimes_exact available⟩, ?_, contents_exact contents⟩
    rw [contents_bytes filled]
    exact (back.trans behind).isInfix
  · cases views
    trivial

theorem Request.Plain.viewed {request : Request} (plain : request.Plain) (frame : Bytes) : request.Viewed frame := by
  cases request
  case clipboardAnswer req served =>
    cases served with
    | none => trivial
    | some served => exact plain.elim
  all_goals trivial

theorem Request.Viewed.part {body frame : Bytes} {request : Request} (viewed : request.Viewed body) (behind : body <:+ frame) :
    request.Viewed frame := by
  cases request
  case clipboardAnswer req served =>
    cases served with
    | none => trivial
    | some served =>
      obtain ⟨⟨first, available⟩, second, contents⟩ := viewed
      exact ⟨⟨first.trans behind.isInfix, available⟩, second.trans behind.isInfix, contents⟩
  all_goals trivial

theorem whole_run {α : Type} {read : Fields α} {body : Bytes} {value : α} (run : whole read body = .ok value) :
    ∃ rest, read body = .ok (value, rest) := by
  obtain ⟨⟨value, rest⟩, ran, next⟩ := bind_ok_iff.1 run
  obtain ⟨_, -, same⟩ := bind_ok_iff.1 next
  cases same
  exact ⟨rest, ran⟩

theorem decodeRequest_viewed {frame : Bytes} {request : Request} (done : decodeRequest frame = .ok request) : request.Viewed frame := by
  obtain ⟨⟨code, body⟩, found, next⟩ := bind_ok_iff.1 done
  obtain ⟨kind, -, last⟩ := bind_ok_iff.1 next
  split at last
  next => cases last; trivial
  next => cases last; trivial
  next => cases last; trivial
  next =>
    split at last
    next read reads =>
      obtain ⟨rest, run⟩ := whole_run last
      by_cases answer : kind = .clipboardAnswer
      · subst answer
        exact (answer_viewed reads run).part (split_behind found)
      · exact (request_plain reads answer body request rest run).viewed frame
    next => cases last

end Decoded

section Packed

open Clipboards

-- What the packing takes: few strings, and few bytes in them.
def Packable (values : List Bytes) : Prop := total values ≤ maxClipboard ∧ values.length < 2 ^ 32

theorem pack_written {values : List Bytes} (packable : Packable values) :
    pack values = .ok (Body.strings values).written ∧ (Body.strings values).result = .ok () := by
  obtain ⟨bytes, packed, -⟩ := pack_length packable.1 packable.2
  rw [pack, if_neg (Nat.not_lt.2 packable.1)] at packed ⊢
  split at packed
  next well => exact ⟨rfl, well⟩
  next => cases packed

theorem mimes_view {mimes : List Bytes} (packable : Packable mimes) : ∃ packed, MimesBuf.new mimes = .ok packed ∧ packed.iter = mimes := by
  obtain ⟨packed, well⟩ := pack_written packable
  unfold MimesBuf.new
  split
  next bytes found =>
    cases packed.symm.trans found
    exact ⟨_, rfl, strings_view well⟩
  next why found => cases packed.symm.trans found

theorem contents_view {pairs : List (Bytes × Bytes)} (packable : Packable (pairStrings pairs)) :
    ∃ packed, ContentsBuf.new pairs = .ok packed ∧ packed.pairs = pairs := by
  obtain ⟨packed, well⟩ := pack_written packable
  unfold ContentsBuf.new
  split
  next bytes found =>
    cases packed.symm.trans found
    refine ⟨_, rfl, ?_⟩
    rw [Contents.pairs, strings_view well, pairsOf_strings]
  next why found => cases packed.symm.trans found

theorem served_view {pairs : List (Bytes × Bytes)} {available : List Bytes} (packable : Packable (pairStrings pairs ++ available)) :
    ∃ served, ServedBuf.new pairs available = .ok served ∧ served.available.iter = available ∧ served.contents.pairs = pairs := by
  obtain ⟨small, few⟩ := packable
  have both := total_append (pairStrings pairs) available
  rw [List.length_append] at few
  obtain ⟨mimes, named, first⟩ := mimes_view (show Packable available from ⟨by omega, by omega⟩)
  obtain ⟨contents, filled, second⟩ := contents_view (show Packable (pairStrings pairs) from ⟨by omega, by omega⟩)
  refine ⟨⟨mimes, contents⟩, ?_, first, second⟩
  rw [ServedBuf.new, if_neg (Nat.not_lt.2 small), named, filled]
  rfl

theorem views_exact :
    (∀ all, (MatchesBuf.new all).iter = all) ∧
    (∀ mimes, Packable mimes → ∃ packed, MimesBuf.new mimes = .ok packed ∧ packed.iter = mimes) ∧
    (∀ pairs, Packable (pairStrings pairs) → ∃ packed, ContentsBuf.new pairs = .ok packed ∧ packed.pairs = pairs) ∧
    (∀ pairs available, Packable (pairStrings pairs ++ available) →
      ∃ served, ServedBuf.new pairs available = .ok served ∧ served.available.iter = available ∧ served.contents.pairs = pairs ∧
        ∀ req out after, encode (.clipboardAnswer req (some served)) out = (.ok (), after) →
          decodeRequest (after.drop out.length) = .ok (.clipboardAnswer req (some served))) ∧
    (∀ frame message, decode frame = .ok (some message) → message.Viewed frame) ∧
    ∀ frame request, decodeRequest frame = .ok request → request.Viewed frame := by
  refine ⟨matches_view, fun _ => mimes_view, fun _ => contents_view, fun pairs available packable => ?_,
    fun _ _ => decode_viewed, fun _ _ => decodeRequest_viewed⟩
  obtain ⟨served, made, first, second⟩ := served_view packable
  exact ⟨served, made, first, second, fun req out after encoded => answer_decoded encoded⟩

end Packed

end Views

end Kido.Framing
