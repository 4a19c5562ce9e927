import Kido.Wire.Decode
import Mathlib.Data.List.Sublists

set_option autoImplicit false

namespace Kido.Framing

open Kido.Shared

theorem fromUtf8_asBytes (text : String) : fromUtf8 (asBytes text) = some text := by
  have same : (⟨(asBytes text).toArray⟩ : ByteArray) = text.toByteArray := by simp [asBytes]
  unfold fromUtf8
  rw [same, String.fromUTF8?, dif_pos text.isValidUTF8]
  rfl

theorem fromUtf8Lossy_asBytes (text : String) : fromUtf8Lossy (asBytes text) = text := by
  rw [fromUtf8Lossy, fromUtf8_asBytes]

theorem arrayAt_middle {count place : Nat} (before after : Bytes) {bytes body : Bytes} (split : body = before ++ bytes ++ after)
    (start : before.length = place) (length : bytes.length = count) : arrayAt count body place = some bytes := by
  subst split start length
  have inside : before.length + bytes.length ≤ (before ++ bytes ++ after).length := by simp
  rw [arrayAt, if_pos inside, List.append_assoc, List.drop_left, List.take_left]

theorem u16At_middle {place : Nat} (before after : Bytes) {body : Bytes} {value : UInt16}
    (split : body = before ++ leBytes 2 value.toNat ++ after) (start : before.length = place) :
    u16At body place = some value := by
  rw [u16At, arrayAt_middle before after split start (leBytes_length 2 _), Option.map_some, ofLe_leBytes value.toNat_lt,
    UInt16.ofNat_toNat]

theorem u32At_middle {place : Nat} (before after : Bytes) {body : Bytes} {value : UInt32}
    (split : body = before ++ leBytes 4 value.toNat ++ after) (start : before.length = place) :
    u32At body place = some value := by
  rw [u32At, arrayAt_middle before after split start (leBytes_length 4 _), Option.map_some, ofLe_leBytes value.toNat_lt,
    UInt32.ofNat_toNat]

theorem u64At_middle {place : Nat} (before after : Bytes) {body : Bytes} {value : UInt64}
    (split : body = before ++ leBytes 8 value.toNat ++ after) (start : before.length = place) :
    u64At body place = some value := by
  rw [u64At, arrayAt_middle before after split start (leBytes_length 8 _), Option.map_some, ofLe_leBytes value.toNat_lt,
    UInt64.ofNat_toNat]

theorem nonZeroU16_val (value : NonZeroU16) : nonZeroU16 value = some value := dif_pos value.property

theorem nonZeroUsize_val (value : NonZeroUsize) : nonZeroUsize value = some value := dif_pos value.property

theorem cellOf_cellPixels (size : Size) : cellOf size.cellPixels.1 size.cellPixels.2 = some size.cellPx := by
  unfold Size.cellPixels cellOf
  cases size.cellPx with
  | none => rfl
  | some cell =>
    have other : ¬((cell.width : UInt16) = 0 ∧ (cell.height : UInt16) = 0) := fun both => cell.width.property both.1
    simp only [if_neg other, nonZeroU16_val]
    rfl

theorem Dim.new_value (dim : Dim) : Dim.new dim.value = some dim := dif_pos dim.bound

theorem decodeSize_sizeBytes (size : Size) : decodeSize (sizeBytes size) = some size := by
  have length : (sizeBytes size).length = 8 := by simp [sizeBytes]
  have cols : u16At (sizeBytes size) 0 = some size.cols.value :=
    u16At_middle [] _ (by simp only [sizeBytes, List.append_assoc]; rfl) List.length_nil
  have rows : u16At (sizeBytes size) 2 = some size.rows.value :=
    u16At_middle (leBytes 2 size.cols.value.toNat) _ (by simp only [sizeBytes, List.append_assoc]; rfl)
      (leBytes_length 2 _)
  have width : u16At (sizeBytes size) 4 = some size.cellPixels.1 :=
    u16At_middle (leBytes 2 size.cols.value.toNat ++ leBytes 2 size.rows.value.toNat) _ rfl (by simp)
  have height : u16At (sizeBytes size) 6 = some size.cellPixels.2 :=
    u16At_middle _ [] (List.append_nil _).symm (by simp)
  unfold decodeSize
  simp only [length, cols, rows, width, height, Option.bind_eq_bind, Option.bind_some, cellOf_cellPixels, Dim.new_value,
    ne_eq, not_true_eq_false, if_false]
  rfl

theorem size_undoes (size : Size) : Undoes Fields.size size (Body.size size) () := by
  have taken := take_undoes (sizeBytes size)
  have length : (sizeBytes size).length = 8 := by simp [sizeBytes]
  rw [length] at taken
  refine taken.check fun rest => ?_
  rw [decodeSize_sizeBytes]
  rfl

theorem limit_undoes (value : Option UInt64) : Undoes Fields.limit value (Body.limit value) () := by
  refine (flag_undoes _).step ((u64_undoes _).check fun rest => ?_)
  cases value <;> rfl

theorem scrollback_limits (scrollback : Scrollback) :
    let limits : Option UInt64 × Option UInt64 :=
      match scrollback with
      | .disabled => (some 0, none)
      | .bounded maxBytes maxLines => (maxBytes.map Subtype.val, maxLines.map Subtype.val)
    (if limits.1 = some 0 ∨ limits.2 = some 0 then Scrollback.disabled
      else .bounded (limits.1.bind nonZeroUsize) (limits.2.bind nonZeroUsize)) = scrollback := by
  have zero : ∀ value : Option NonZeroUsize, value.map Subtype.val ≠ some 0 := by
    intro value same
    obtain ⟨found, -, none_⟩ := Option.map_eq_some_iff.1 same
    exact found.property none_
  have back : ∀ value : Option NonZeroUsize, (value.map Subtype.val).bind nonZeroUsize = value := by
    intro value
    cases value with
    | none => rfl
    | some value => exact nonZeroUsize_val value
  cases scrollback with
  | disabled => rfl
  | bounded maxBytes maxLines =>
    simp only [zero, or_self, if_false, back]

def allMedia : List Medium := [.file, .tempFile, .sharedMem]

def CanonicalMedia (media : List Medium) : Prop := media.Sublist allMedia

def mediaBits (media : List Medium) : UInt8 := media.foldl (fun bits medium => bits ||| medium.bit) 0

theorem media_of_bits {media : List Medium} (canonical : CanonicalMedia media) :
    allMedia.filter (fun medium => mediaBits media &&& medium.bit ≠ 0) = media := by
  have checked : ∀ listed ∈ allMedia.sublists,
      allMedia.filter (fun medium => mediaBits listed &&& medium.bit ≠ 0) = listed := by decide
  exact checked media (List.mem_sublists.2 canonical)

-- What a request must be to come back from the pane's decoder.
structure Init.Proper (init : Init) : Prop where
  media : CanonicalMedia init.media
  cwd : (0 : UInt8) ∉ init.cwd
  argv : ∀ text ∈ init.argv, (0 : UInt8) ∉ text
  env : ∀ text ∈ init.env, (0 : UInt8) ∉ text
  id : (0 : UInt8) ∉ asBytes init.id
  program : init.argv.head?.bind List.head? = some 47
  fewArgs : init.argv.length ≤ maxStrings
  fewVars : init.env.length ≤ maxStrings

theorem init_undoes {init : Init} (proper : init.Proper) : Undoes Fields.init init (Body.init init) () := by
  refine (u16_undoes _).step ?_
  rw [if_neg (fun other => other rfl)]
  refine (size_undoes _).step ?_
  refine (limit_undoes _).step ((limit_undoes _).step ((u64_undoes _).step ((u64_undoes _).step ?_)))
  refine (u8_undoes _).step ((u64_undoes _).step ((text_undoes proper.cwd).step ?_))
  refine (texts_undoes proper.fewArgs proper.argv).step ((texts_undoes proper.fewVars proper.env).step ?_)
  refine (text_undoes proper.id).check fun rest => ?_
  rw [if_neg (fun other => other proper.program), fromUtf8Lossy_asBytes]
  have scrollback := scrollback_limits init.limits.scrollback
  have media := media_of_bits proper.media
  refine congrArg (fun read => Except.ok (read, rest)) ?_
  calc _ = { init with
        limits := { init.limits with scrollback := init.limits.scrollback }
        media := init.media } := congrArg₂ (fun scrollback media => ({ init with
          limits := { init.limits with scrollback := scrollback }
          media := media } : Init)) scrollback media
    _ = init := rfl

theorem key_undoes (key : Key) : Undoes Fields.key key (Body.key key) () := by
  refine (pick_undoes (KeyAction.ofCode_code _)).step ((u16_undoes _).step ?_)
  refine .present (dif_pos key.key.bound) ((u16_undoes _).step ((u32_undoes _).step ?_))
  refine .present (dif_pos key.unshifted.valid) ((string_undoes _).step ?_)
  exact .present (fromUtf8_asBytes _) ((flag_undoes _).check fun _ => rfl)

theorem mouse_undoes (mouse : Mouse) : Undoes Fields.mouse mouse (Body.mouse mouse) () := by
  refine (pick_undoes (MouseAction.ofCode_code _)).step ((pick_undoes (MouseButton.ofCode_code _)).step ?_)
  exact (u16_undoes _).step ((u16_undoes _).step ((u16_undoes _).check fun _ => rfl))

theorem whole_undoes {α β : Type} {read : Fields α} {result : α} {write : Body β} {value : β}
    (undoes : Undoes read result write value) {ended : β} (done : write.result = .ok ended) :
    whole read write.written = .ok result := by
  have reads := (undoes ended done).2 []
  rw [List.append_nil] at reads
  rw [whole, reads]
  rfl

theorem split_frameOf (kind : Kind) (written : Bytes) : split (frameOf kind written) = .ok (kind.code, written) := by
  have behind : (frameOf kind written).drop 4 = kind.code :: written := by
    rw [frameOf, List.drop_append_of_le_length (by simp), List.drop_eq_nil_of_le (by simp), List.nil_append]
  rw [split, behind]

theorem decodeRequest_frameOf {kind : Kind} {read : Fields Request} (reads : Fields.request kind = some read)
    (written : Bytes) : decodeRequest (frameOf kind written) = whole read written := by
  unfold decodeRequest
  rw [split_frameOf]
  cases kind
  all_goals
    cases reads
    try rfl

namespace ToPane

def request : ToPane → Request
  | .init setup => .init setup
  | .tail _ => .tail
  | .resize size => .resize size
  | .text typed => .text typed
  | .snapshot req history => .snapshot req history
  | .exit => .exit
  | .key pressed => .key pressed
  | .mouse moved => .mouse moved
  | .paste req pasted checkSafe => .paste req pasted checkSafe
  | .focus focused => .focus focused
  | .screen req format rows => .screen req format rows
  | .clearHistory => .clearHistory
  | .image req picture name => .image req picture name
  | .clipboardAnswer req served => .clipboardAnswer req served
  | .search req needle => .search req needle
  | .searchCancel req => .searchCancel req

def Proper : ToPane → Prop
  | .init setup => setup.Proper
  | _ => True

end ToPane

-- The same request: the rows of a screen are compared by the number of rows they stand for.
def Request.Same (first second : Request) : Prop :=
  match first, second with
  | .screen req format rows, .screen other otherFormat otherRows =>
    req = other ∧ format = otherFormat ∧ rows.count = otherRows.count
  | first, second => first = second

theorem Request.Same.refl (request : Request) : request.Same request := by
  cases request <;> first | exact ⟨rfl, rfl, rfl⟩ | rfl

theorem request_back {request : ToPane} (kind : Kind) {read : Fields Request} {result : Request}
    (reads : Fields.request kind = some read) (undoes : Undoes read result (Body.frame request) kind)
    (same : result.Same request.request) {ended : Kind} (done : (Body.frame request).result = .ok ended) :
    ∃ result, decodeRequest (frameOf ended (Body.frame request).written) = .ok result ∧
      result.Same request.request := by
  obtain ⟨rfl, -⟩ := undoes ended done
  exact ⟨result, by rw [decodeRequest_frameOf reads, whole_undoes undoes done], same⟩

theorem take8_undoes (value : UInt64) : Undoes (Fields.take 8) (leBytes 8 value.toNat) (Body.u64 value) () := by
  have taken := take_undoes (leBytes 8 value.toNat)
  rwa [leBytes_length] at taken

theorem snapshot_undoes (req : Req) (history : History) (read : Fields Request)
    (reads : Fields.request .snapshot = some read) :
    Undoes read (.snapshot req history) (Body.frame (.snapshot req history)) .snapshot := by
  cases reads
  refine (u32_undoes _).step ((u8_undoes _).step ((u8_undoes _).step ?_))
  rw [if_neg (fun other => other rfl)]
  refine (text_undoes List.not_mem_nil).step ?_
  rw [if_neg (fun other => other rfl)]
  cases history <;> exact .pure _ _

theorem ScreenRows.count_ofCount (rows : UInt32) : (ScreenRows.ofCount rows).count = rows := by
  unfold ScreenRows.ofCount
  split
  next none_ => exact none_.symm
  next =>
    split
    next all => exact all.symm
    next => rfl

theorem screen_undoes (req : Req) (format : ScreenFormat) (rows : ScreenRows) (read : Fields Request)
    (reads : Fields.request .screen = some read) :
    Undoes read (.screen req format (ScreenRows.ofCount rows.count)) (Body.frame (.screen req format rows)) .screen := by
  cases reads
  refine (u32_undoes _).step ((u8_undoes _).step ((u32_undoes _).step ?_))
  cases format <;> exact .pure _ _

theorem walkStrings_of {bytes : Bytes} {count : Nat} (strings : stringsOf bytes = .ok count) (rest : Bytes) :
    Fields.walkStrings (bytes ++ rest) = .ok (count, rest) := by
  unfold stringsOf at strings
  cases walked : Fields.walkStrings bytes with
  | error malformed =>
    rw [walked] at strings
    cases strings
  | ok pair =>
    obtain ⟨found, left⟩ := pair
    rw [walked] at strings
    change (Fields.done left >>= fun _ => _) = _ at strings
    by_cases nothing : left = []
    · subst nothing
      cases strings
      obtain ⟨front, whole, same⟩ := walkStrings_local bytes count [] walked
      rw [List.append_nil] at whole
      rw [whole]
      exact same rest
    · rw [Fields.done, if_neg nothing] at strings
      cases strings

theorem mimes_run (available : Mimes) (rest : Bytes) :
    Fields.mimes (available.bytes ++ rest) = .ok (available, rest) := by
  obtain ⟨count, strings⟩ := available.whole
  have walked := walkStrings_of strings rest
  have front : (available.bytes ++ rest).take ((available.bytes ++ rest).length - rest.length) = available.bytes := by
    simp
  unfold Fields.mimes
  split
  next malformed found =>
    rw [walked] at found
    cases found
  next other left found =>
    rw [walked] at found
    cases found
    simp only [front]

theorem mimes_of (available : Mimes) : Mimes.of available.bytes = .ok available := by
  obtain ⟨count, strings⟩ := available.whole
  unfold Mimes.of
  split
  next => rfl
  next malformed found =>
    rw [strings] at found
    cases found

theorem contents_of (contents : Contents) : Contents.of contents.bytes = .ok contents := by
  obtain ⟨count, strings, even⟩ := contents.whole
  unfold Contents.of
  split
  next other found =>
    rw [strings] at found
    cases found
    exact dif_pos even
  next malformed found =>
    rw [strings] at found
    cases found

theorem clipboardAnswer_back (req : Req) (served : Served) (read : Fields Request)
    (reads : Fields.request .clipboardAnswer = some read) :
    whole read (Body.frame (.clipboardAnswer req (some served))).written = .ok (.clipboardAnswer req (some served)) := by
  cases reads
  have written : (Body.frame (.clipboardAnswer req (some served))).written =
      (Body.u32 req.low).written ++ ((Body.bool true).written ++ (served.available.bytes ++ served.contents.bytes)) := by
    change (Body.u32 req.low).written ++ ((Body.bool true).written ++ (served.available.bytes ++
      (served.contents.bytes ++ []))) = _
    rw [List.append_nil]
  unfold whole
  rw [written, Reader.bind_run ((u32_undoes req.low () rfl).2 _), Reader.bind_run ((flag_undoes true () rfl).2 _)]
  have read_contents : (Contents.of served.contents.bytes : Fields Contents) [] = .ok (served.contents, []) := by
    rw [contents_of]
    rfl
  rw [if_pos rfl, Reader.bind_run (mimes_run served.available _)]
  rw [Reader.bind_run (rfl : Fields.rest served.contents.bytes = .ok (served.contents.bytes, []))]
  rw [Reader.bind_run read_contents]
  rfl

-- The answer of a frame is the one that was written, views and all.
theorem answer_framed (req : Req) (served : Option Served) :
    decodeRequest (frameOf .clipboardAnswer (Body.frame (.clipboardAnswer req served)).written) = .ok (.clipboardAnswer req served) := by
  rw [decodeRequest_frameOf rfl]
  cases served with
  | none =>
    have done : (Body.frame (.clipboardAnswer req none)).result = .ok Kind.clipboardAnswer := rfl
    exact whole_undoes ((u32_undoes req.low).step ((flag_undoes false).step (.pure Kind.clipboardAnswer _))) done
  | some served => exact clipboardAnswer_back req served _ rfl

theorem answer_decoded {req : Req} {served : Option Served} {out after : Bytes}
    (encoded : encode (.clipboardAnswer req served) out = (.ok (), after)) :
    decodeRequest (after.drop out.length) = .ok (.clipboardAnswer req served) := by
  rcases framed_cases out (Body.frame (.clipboardAnswer req served)) with ⟨error, failed, -⟩ | ⟨kind, done, -, appended⟩
  · rw [encode, failed] at encoded
    cases encoded
  · rw [encode, appended] at encoded
    obtain rfl : _ = after := congrArg Prod.snd encoded
    obtain rfl : kind = .clipboardAnswer := by
      cases served <;> cases done <;> rfl
    rw [List.drop_left]
    exact answer_framed req served

-- A frame that the server makes of a request is the same request for the pane.
theorem request_comes_back {request : ToPane} (proper : request.Proper) {out after : Bytes}
    (encoded : encode request out = (.ok (), after)) :
    ∃ back, decodeRequest (after.drop out.length) = .ok back ∧ back.Same request.request := by
  rcases framed_cases out (Body.frame request) with ⟨error, failed, -⟩ | ⟨kind, done, -, appended⟩
  · rw [encode, failed] at encoded
    cases encoded
  rw [encode, appended] at encoded
  obtain rfl : _ = after := congrArg Prod.snd encoded
  rw [List.drop_left]
  cases request with
  | init setup =>
    refine request_back .init rfl ?_ (.refl _) done
    exact (init_undoes proper).step (.pure _ _)
  | tail position =>
    refine request_back .tail rfl ?_ (.refl _) done
    exact (take8_undoes _).step (.pure _ _)
  | resize size =>
    refine request_back .resize rfl ?_ (.refl _) done
    exact (size_undoes size).step (.pure _ _)
  | text text =>
    cases done
    refine ⟨.text text, ?_, .refl _⟩
    have written : (Body.frame (.text text)).written = text := List.append_nil text
    rw [written, decodeRequest, split_frameOf]
    rfl
  | snapshot req history =>
    refine request_back .snapshot rfl ?_ (.refl _) done
    exact (snapshot_undoes req history _ rfl)
  | exit =>
    cases done
    exact ⟨.exit, rfl, .refl _⟩
  | key key =>
    refine request_back .key rfl ?_ (.refl _) done
    exact (key_undoes key).step (.pure _ _)
  | mouse mouse =>
    refine request_back .mouse rfl ?_ (.refl _) done
    exact (mouse_undoes mouse).step (.pure _ _)
  | paste req text checkSafe =>
    refine request_back .paste rfl ?_ (.refl _) done
    refine (u32_undoes _).step ((string_undoes _).step ?_)
    exact .present (fromUtf8_asBytes text) ((flag_undoes checkSafe).step (.pure _ _))
  | focus focused =>
    refine request_back .focus rfl ?_ (.refl _) done
    exact (flag_undoes focused).step (.pure _ _)
  | screen req format rows =>
    refine request_back .screen rfl (screen_undoes req format rows _ rfl) ?_ done
    exact ⟨rfl, rfl, ScreenRows.count_ofCount _⟩
  | clearHistory =>
    cases done
    exact ⟨.clearHistory, rfl, .refl _⟩
  | image req key name =>
    refine request_back .image rfl ?_ (.refl _) done
    refine (u32_undoes _).step ((u32_undoes _).step ?_)
    exact (u32_undoes _).step ((u64_undoes _).step ((string_undoes _).step (.pure _ _)))
  | clipboardAnswer req served =>
    obtain rfl : kind = .clipboardAnswer := by
      cases served <;> cases done <;> rfl
    exact ⟨_, answer_framed req served, .refl _⟩
  | search req needle =>
    refine request_back .search rfl ?_ (.refl _) done
    exact (u32_undoes _).step ((string_undoes _).step (.pure _ _))
  | searchCancel req =>
    refine request_back .searchCancel rfl ?_ (.refl _) done
    exact (u32_undoes _).step (.pure _ _)

theorem texts_refuses {values : List Bytes} (many : maxStrings < values.length) :
    Refuses Fields.texts .field (Body.strings values) := by
  refine .step length_undoes fun ended _ _ rest => ?_
  have bound : values.length % 2 ^ 32 = values.length := Nat.mod_eq_of_lt (length_ok ended)
  rw [UInt32.toNat_ofNat', bound, if_pos many]
  rfl

theorem init_refuses_many {init : Init} (cwd : (0 : UInt8) ∉ init.cwd) (many : maxStrings < init.argv.length) :
    Refuses Fields.init .field (Body.init init) := by
  refine .step (u16_undoes _) fun _ => ?_
  rw [if_neg (fun other => other rfl)]
  refine .step (size_undoes _) fun _ => .step (limit_undoes _) fun _ => .step (limit_undoes _) fun _ => ?_
  refine .step (u64_undoes _) fun _ => .step (u64_undoes _) fun _ => .step (u8_undoes _) fun _ => ?_
  refine .step (u64_undoes _) fun _ => .step (text_undoes cwd) fun _ => ?_
  exact .first (texts_refuses many)

theorem init_refuses_relative {init : Init} (cwd : (0 : UInt8) ∉ init.cwd)
    (argv : ∀ text ∈ init.argv, (0 : UInt8) ∉ text) (env : ∀ text ∈ init.env, (0 : UInt8) ∉ text)
    (id : (0 : UInt8) ∉ asBytes init.id) (fewArgs : init.argv.length ≤ maxStrings)
    (fewVars : init.env.length ≤ maxStrings) (relative : init.argv.head?.bind List.head? ≠ some 47) :
    Refuses Fields.init .field (Body.init init) := by
  refine .step (u16_undoes _) fun _ => ?_
  rw [if_neg (fun other => other rfl)]
  refine .step (size_undoes _) fun _ => .step (limit_undoes _) fun _ => .step (limit_undoes _) fun _ => ?_
  refine .step (u64_undoes _) fun _ => .step (u64_undoes _) fun _ => .step (u8_undoes _) fun _ => ?_
  refine .step (u64_undoes _) fun _ => .step (text_undoes cwd) fun _ => ?_
  refine .step (texts_undoes fewArgs argv) fun _ => .step (texts_undoes fewVars env) fun _ => ?_
  refine .check (text_undoes id) fun rest => ?_
  rw [if_pos relative]
  rfl

theorem init_refused {init : Init} (refuses : Refuses Fields.init .field (Body.init init)) {frame : Bytes}
    (encoded : encode (.init init) [] = (.ok (), frame)) : decodeRequest frame = .error .field := by
  rcases framed_cases [] (Body.frame (.init init)) with ⟨error, failed, -⟩ | ⟨kind, done, -, appended⟩
  · rw [encode, failed] at encoded
    cases encoded
  rw [encode, appended] at encoded
  obtain rfl : _ = frame := congrArg Prod.snd encoded
  obtain rfl : kind = .init := Shared.Writer.then_ret done
  have reads : Fields.request .init = some (Fields.init >>= fun init => pure (Request.init init)) := rfl
  have refused : Refuses (Fields.init >>= fun init => pure (Request.init init)) .field (Body.frame (.init init)) :=
    refuses.first
  have run := refused .init done []
  rw [List.append_nil] at run
  rw [List.nil_append, decodeRequest_frameOf reads, whole, run]
  rfl

def smallSize : Size := ⟨⟨80, by decide⟩, ⟨24, by decide⟩, none⟩

def someLimits : Limits := ⟨.bounded none none, 65536, 0, 65536⟩

def started (argv : List Bytes) : Init := ⟨smallSize, someLimits, [.file], [47], argv, [], "pane_1"⟩

theorem shell_comes_back :
    ∃ back, decodeRequest (((encode (.init (started [[47, 115, 104]])) []).2).drop 0) = .ok back ∧
      back.Same (ToPane.request (.init (started [[47, 115, 104]]))) :=
  have proper : ToPane.Proper (.init (started [[47, 115, 104]])) :=
    ⟨by unfold CanonicalMedia; decide, by decide, by decide, by decide, by decide, by decide, by decide, by decide⟩
  have encoded : encode (.init (started [[47, 115, 104]])) [] =
      (.ok (), (encode (.init (started [[47, 115, 104]])) []).2) := rfl
  request_comes_back proper encoded

open Shared.Writer (Writes)

theorem string_writes {value : Bytes} (short : value.length < 2 ^ 32) : (Body.string value).Writes (4 + value.length) () := by
  have length : (Body.length value.length).Writes 4 () := by
    rw [Body.length, if_pos short]
    exact ⟨rfl, leBytes_length _ _⟩
  exact length.bind (.append value)

theorem each_writes (count : Nat) (value : Bytes) (short : value.length < 2 ^ 32) :
    (Body.each (List.replicate count value)).Writes (count * (4 + value.length)) () := by
  induction count with
  | zero =>
    rw [Nat.zero_mul]
    exact .ret ()
  | succ count ih =>
    have both : (Body.each (value :: List.replicate count value)).Writes (4 + value.length + _) () :=
      (string_writes short).bind ih
    rwa [Nat.succ_mul, Nat.add_comm (count * _)]

def crowded : Init := started (List.replicate (maxStrings + 1) [47])

theorem crowded_argv : (Body.strings crowded.argv).Writes (4 + 4097 * 5) () := by
  have length : (Body.length crowded.argv.length).Writes 4 () := by
    rw [show crowded.argv.length = 4097 from List.length_replicate, Body.length, if_pos (by decide)]
    exact ⟨rfl, leBytes_length _ _⟩
  exact length.bind (each_writes 4097 [47] (by decide))

theorem crowded_writes :
    (Body.init crowded).Writes (2 + (8 + (9 + (9 + (8 + (8 + (1 + (8 + (5 + (4 + 4097 * 5 + (4 + 10))))))))))) () := by
  have limit : (Body.limit none).Writes 9 () := ⟨rfl, rfl⟩
  have cwd : (Body.string [47]).Writes 5 () := ⟨rfl, rfl⟩
  have env : (Body.strings []).Writes 4 () := ⟨rfl, rfl⟩
  have id : (Body.string (asBytes "pane_1")).Writes 10 () := ⟨rfl, rfl⟩
  refine .bind (.append _) (.bind (.append _) (.bind limit (.bind limit ?_)))
  refine .bind (.append _) (.bind (.append _) (.bind (.append _) (.bind (.append _) ?_)))
  exact cwd.bind (crowded_argv.bind (env.bind id))

theorem crowded_encodes : ∃ frame, encode (.init crowded) [] = (.ok (), frame) := by
  have frame : (Body.frame (.init crowded)).Writes _ .init := crowded_writes.bind (.ret _)
  rcases framed_cases [] (Body.frame (.init crowded)) with ⟨error, -, large⟩ | ⟨kind, -, -, appended⟩
  · have long := large .init frame.1
    rw [frame.2] at long
    exact absurd long (by decide)
  · exact ⟨_, appended⟩

-- A relative program, and too many arguments, are encoded and do not come back.
theorem start_does_not_come_back :
    (∃ frame, encode (.init (started [[115, 104]])) [] = (.ok (), frame) ∧ decodeRequest frame = .error .field) ∧
      ∃ frame, encode (.init crowded) [] = (.ok (), frame) ∧ decodeRequest frame = .error .field := by
  constructor
  · have refuses : Refuses Fields.init .field (Body.init (started [[115, 104]])) :=
      init_refuses_relative (by decide) (by decide) (by decide) (by decide) (by decide) (by decide) (by decide)
    exact ⟨_, rfl, init_refused refuses rfl⟩
  · obtain ⟨frame, encoded⟩ := crowded_encodes
    have many : maxStrings < crowded.argv.length := by
      rw [show crowded.argv.length = maxStrings + 1 from List.length_replicate]
      exact Nat.lt_succ_self _
    exact ⟨frame, encoded, init_refused (init_refuses_many (by decide) many) encoded⟩

end Kido.Framing
