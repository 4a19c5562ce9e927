import Kido.Wire.Requests

set_option autoImplicit false

namespace Kido.Framing

open Kido.Shared

theorem decode_frameOf (kind : Kind) (written : Bytes) : decode (frameOf kind written) = decodeBody kind written := by
  unfold decode
  rw [split_frameOf]
  change (orElse (Kind.ofCode kind.code) .unknown >>= _) = _
  rw [Kind.ofCode_code]
  rfl

-- What a message must be to come back from the server's decoder.
def FromPane.Proper : FromPane → Prop
  | .record written => ∀ percent ∈ written.progress, percent ≤ 100
  | .progress shown => ∀ report ∈ shown, ∀ percent ∈ report.progress, percent ≤ 100
  | _ => True

-- What is written of the message ends with its kind, and reads as the message.
def Back (kind : Kind) (message : FromPane) : Prop :=
  ∀ ended, (Body.paneFrame message).result = .ok ended → (Body.paneFrame message).written.length + 1 ≤ maxFrame →
    ended = kind ∧ decodeBody kind (Body.paneFrame message).written = .ok (some message)

theorem back_of_whole {α : Type} {read : Fields α} {result : α} {message : FromPane} {kind : Kind}
    (undoes : Undoes read result (Body.paneFrame message) kind)
    (decodes : ∀ body, whole read body = .ok result → decodeBody kind body = .ok (some message)) : Back kind message := by
  intro ended done _
  exact ⟨(undoes ended done).1, decodes _ (whole_undoes undoes done)⟩

theorem string_cases (value : Bytes) :
    value.length < 2 ^ 32 ∧ Body.string value = ⟨leBytes 4 (UInt32.ofNat value.length).toNat ++ value, .ok ()⟩ ∨
      Body.string value = ⟨[], .error .oversize⟩ := by
  by_cases short : value.length < 2 ^ 32
  · left
    refine ⟨short, ?_⟩
    unfold Body.string Body.length
    rw [if_pos short]
    rfl
  · right
    unfold Body.string Body.length
    rw [if_neg short]
    rfl

theorem stringAt_middle {place : Nat} (before after value : Bytes) {body : Bytes}
    (split : body = before ++ leBytes 4 (UInt32.ofNat value.length).toNat ++ (value ++ after))
    (start : before.length = place) (short : value.length < 2 ^ 31) : stringAt body place = .ok value := by
  have length : i32At body place = some (UInt32.ofNat value.length).toInt32 := by
    rw [i32At, u32At_middle before _ split start]
    rfl
  have positive : (UInt32.ofNat value.length).toInt32.toInt = value.length := by
    rw [UInt32.toInt32_ofNat', Int32.toInt_ofNat_of_lt short]
  have inside : place + 4 + value.length ≤ body.length := by
    subst split start
    simp only [List.length_append, leBytes_length]
    omega
  have behind : body.drop (place + 4) = value ++ after := by
    subst split start
    have front : (before ++ leBytes 4 (UInt32.ofNat value.length).toNat).length = before.length + 4 := by simp
    rw [← front, List.drop_left]
  have natural : ¬(UInt32.ofNat value.length).toInt32.toInt < 0 := by omega
  have natural_ : (UInt32.ofNat value.length).toInt32.toInt.toNat = value.length := by omega
  unfold stringAt
  rw [length]
  simp only [orElse, bind, Except.bind, if_neg natural, natural_, if_pos inside, behind, List.take_left]
  rfl

theorem string_back {message : FromPane} {kind : Kind} {value : Bytes}
    (written : Body.paneFrame message = Body.string value >>= fun _ => pure kind)
    (decodes : ∀ body, stringAt body 0 = .ok value → decodeBody kind body = .ok (some message)) : Back kind message := by
  intro ended done fits
  rw [written] at done fits ⊢
  refine ⟨Shared.Writer.then_ret done, decodes _ ?_⟩
  rcases string_cases value with ⟨-, string⟩ | string
  · rw [string] at fits ⊢
    change (leBytes 4 (UInt32.ofNat value.length).toNat ++ value ++ []).length + 1 ≤ maxFrame at fits
    have small : maxFrame < 2 ^ 31 := by decide
    have short : value.length < 2 ^ 31 := by
      simp only [List.length_append, leBytes_length, List.length_nil] at fits
      omega
    exact stringAt_middle [] [] value (List.append_assoc _ _ _) rfl short
  · rw [string] at done
    cases done

theorem prompt_undoes (prompt : Prompt) : Undoes Fields.prompt prompt (Body.prompt prompt) () := by
  refine (pick_undoes (PromptStep.ofCode_code _)).step ((flag_undoes _).step ((i32_undoes _).step ?_))
  refine (u64_undoes _).step ((string_undoes _).check fun rest => ?_)
  obtain ⟨step, exit, moment, command⟩ := prompt
  cases exit <;> rfl

theorem record_undoes {record : Record} (percent : ∀ percent ∈ record.progress, percent ≤ 100) :
    Undoes Fields.record record (Body.record record) () := by
  refine (pick_undoes (ProgramState.ofCode_code _)).step ((pick_undoes (ProgramKind.ofCode_code _)).step ?_)
  refine (percent_undoes percent).step ((string_undoes _).step ((string_undoes _).step ((string_undoes _).step ?_)))
  exact (string_undoes _).check fun _ => rfl

theorem object_undoes (object : ImageObject) : Undoes Fields.object object (Body.object object) () := by
  refine (string_undoes _).step ((u64_undoes _).step ((u32_undoes _).step ((u32_undoes _).step ?_)))
  refine (pick_undoes (PixelFormat.ofCode_code _)).step ((u64_undoes _).step ((u32_undoes _).step ?_))
  exact (u32_undoes _).check fun _ => rfl

theorem ready_back (pid : Int64) : Back .ready (.ready pid) := by
  intro ended done _
  have ended_ : ended = .ready := Shared.Writer.then_ret done
  refine ⟨ended_, ?_⟩
  change (Body.pid pid >>= fun _ => pure Kind.ready).result = _ at done
  change decodeBody .ready (Body.pid pid >>= fun _ => pure Kind.ready).written = _
  unfold Body.pid at done ⊢
  split at done
  next range =>
    rw [if_pos range]
    have back : pid.toInt32.toInt64 = pid := by
      apply Int64.toInt.inj
      rw [Int32.toInt_toInt64, Int64.toInt_toInt32]
      exact Int.bmod_eq_of_le (by omega) (by omega)
    have read : (UInt32.ofNat (ofLe (leBytes 4 pid.toInt32.toUInt32.toNat))).toInt32.toInt64 = pid := by
      rw [ofLe_leBytes pid.toInt32.toUInt32.toNat_lt, UInt32.ofNat_toNat, Int32.toInt32_toUInt32, back]
    exact congrArg (fun pid => Except.ok (some (FromPane.ready pid))) read
  next => cases done

theorem u32At_front (value : UInt32) (rest : Bytes) : u32At (leBytes 4 value.toNat ++ rest) 0 = some value :=
  u32At_middle [] rest rfl rfl

theorem u64At_front (value : UInt64) (rest : Bytes) : u64At (leBytes 8 value.toNat ++ rest) 0 = some value :=
  u64At_middle [] rest rfl rfl

theorem decodeDead_of {tag step : UInt8} {value : Int32} {moment : Mono} {cause : DeathCause}
    (known : causeOf [tag, step, 0, 0] value = some cause) :
    decodeDead ([tag, step, 0, 0] ++ leBytes 4 value.toUInt32.toNat ++ leBytes 8 moment.toNat) = some ⟨moment, cause⟩ := by
  have length : ([tag, step, 0, 0] ++ leBytes 4 value.toUInt32.toNat ++ leBytes 8 moment.toNat).length = 16 := by simp
  have read : i32At ([tag, step, 0, 0] ++ leBytes 4 value.toUInt32.toNat ++ leBytes 8 moment.toNat) 4 = some value := by
    have raw : u32At ([tag, step, 0, 0] ++ leBytes 4 value.toUInt32.toNat ++ leBytes 8 moment.toNat) 4 =
        some value.toUInt32 := u32At_middle [tag, step, 0, 0] _ rfl rfl
    rw [i32At, raw, Option.map_some, Int32.toInt32_toUInt32]
  have time : u64At ([tag, step, 0, 0] ++ leBytes 4 value.toUInt32.toNat ++ leBytes 8 moment.toNat) 8 = some moment :=
    u64At_middle _ [] (List.append_nil _).symm rfl
  have front : ([tag, step, 0, 0] ++ leBytes 4 value.toUInt32.toNat ++ leBytes 8 moment.toNat).take 4 =
      [tag, step, 0, 0] := rfl
  unfold decodeDead
  simp only [length, read, time, front, known, Option.bind_eq_bind, Option.bind_some, ne_eq, not_true_eq_false, if_false]
  rfl

theorem Failed.new_step (failed : Failed) : Failed.new failed.step failed.errno = some failed := dif_pos failed.positive

theorem decodeDead_deadBytes (dead : Dead) : decodeDead (deadBytes dead) = some dead := by
  obtain ⟨moment, cause⟩ := dead
  cases cause with
  | exit exit =>
    cases exit with
    | exited code => exact decodeDead_of rfl
    | signaled signal => exact decodeDead_of rfl
  | failed failed =>
    refine decodeDead_of ?_
    change (Step.ofCode failed.step.code).bind (fun step => (Failed.new step failed.errno).map DeathCause.failed) = _
    rw [Step.ofCode_code, Option.bind_some, Failed.new_step]
    rfl

theorem pos_back (kind : Kind) {message : FromPane} {pos : Pos}
    (written : Body.paneFrame message = Body.u64 pos >>= fun _ => pure kind)
    (decodes : ∀ body, position body = .ok pos → decodeBody kind body = .ok (some message)) : Back kind message := by
  intro ended done _
  rw [written] at done ⊢
  refine ⟨Shared.Writer.then_ret done, decodes _ ?_⟩
  change position (leBytes 8 pos.toNat ++ []) = _
  rw [position, u64At_front]
  rfl

theorem snapshotDone_back (req : Req) : Back .snapshotDone (.snapshotDone req) := by
  intro ended done _
  refine ⟨Shared.Writer.then_ret done, ?_⟩
  change decodeBody .snapshotDone (leBytes 4 req.low.toNat ++ []) = _
  rw [decodeBody, u32At_front]
  rfl

theorem pasteDone_back (req : Req) (pasted unsafePaste : Bool) :
    Back .pasteDone (.pasteDone req pasted unsafePaste) := by
  intro ended done _
  cases done
  refine ⟨rfl, ?_⟩
  change decodeBody .pasteDone (leBytes 4 req.low.toNat ++ [if pasted then 1 else 0, if unsafePaste then 1 else 0]) = _
  rw [decodeBody, u32At_front]
  cases pasted <;> cases unsafePaste <;> rfl

theorem screen_back (req : Req) (last : Bool) (text : Bytes) : Back .screen (.screen req last text) := by
  intro ended done fits
  let flag : UInt8 := if last then 1 else 0
  have frame : Body.paneFrame (.screen req last text) = Body.u32 req.low >>= fun _ => Body.u8 flag >>= fun _ =>
      Body.string text >>= fun _ => pure .screen := rfl
  rw [frame] at done fits ⊢
  rcases string_cases text with ⟨-, string⟩ | string
  · rw [string] at done fits ⊢
    cases done
    refine ⟨rfl, ?_⟩
    change (leBytes 4 req.low.toNat ++ ([flag] ++
      (leBytes 4 (UInt32.ofNat text.length).toNat ++ text ++ []))).length + 1 ≤ maxFrame at fits
    change decodeBody .screen (leBytes 4 req.low.toNat ++ ([flag] ++
      (leBytes 4 (UInt32.ofNat text.length).toNat ++ text ++ []))) = _
    have small : maxFrame < 2 ^ 31 := by decide
    have short : text.length < 2 ^ 31 := by
      simp only [List.length_append, leBytes_length, List.length_nil] at fits
      omega
    have read : stringAt (leBytes 4 req.low.toNat ++ ([flag] ++
        (leBytes 4 (UInt32.ofNat text.length).toNat ++ text ++ []))) 5 = .ok text :=
      stringAt_middle (leBytes 4 req.low.toNat ++ [flag]) [] text (by simp) (by simp) short
    have enough : need (leBytes 4 req.low.toNat ++ ([flag] ++
        (leBytes 4 (UInt32.ofNat text.length).toNat ++ text ++ []))) 9 = .ok () := by
      refine if_neg ?_
      simp only [List.length_append, leBytes_length, List.length_singleton]
      omega
    rw [decodeBody, read, u32At_front, enough]
    cases last <;> rfl
  · rw [string] at done
    cases done

theorem progress_undoes {report : Option ProgressReport}
    (proper : ∀ shown ∈ report, ∀ percent ∈ shown.progress, percent ≤ 100) :
    Undoes (do return (← Fields.u8, ← Fields.percent) : Fields (UInt8 × Option UInt8))
      ((report.map fun report => report.state.code).getD 0, report.bind ProgressReport.progress)
      (Body.progress report) () := by
  cases report with
  | none =>
    have absent : Undoes Fields.percent none (Body.u8 255) () := percent_undoes fun _ member => by cases member
    exact (u8_undoes _).step (absent.check fun _ => rfl)
  | some report => exact (u8_undoes _).step ((percent_undoes (proper report rfl)).check fun _ => rfl)

theorem readReport_code (report : Option ProgressReport) :
    readReport ((report.map fun report => report.state.code).getD 0) (report.bind ProgressReport.progress) =
      .ok report := by
  cases report with
  | none => rfl
  | some report =>
    obtain ⟨state, progress⟩ := report
    cases state <;> rfl

theorem image_undoes (req : Req) (object : Option ImageObject) :
    Undoes (do
      let req ← Fields.u32
      if (← Fields.flag) then return (req, some (← Fields.object)) else return (req, none) :
        Fields (UInt32 × Option ImageObject)) (req.low, object) (Body.paneFrame (.image req object)) .imageReply := by
  cases object with
  | none => exact (u32_undoes _).step ((flag_undoes false).step (.pure _ _))
  | some object => exact (u32_undoes _).step ((flag_undoes true).step ((object_undoes object).step (.pure _ _)))

theorem location_undoes (location : ClipboardLocation) :
    Undoes Fields.location location (Body.location location) () := pick_undoes (ClipboardLocation.ofCode_code location)

theorem clipboardWrite_back (location : ClipboardLocation) (contents : Contents) :
    Back .clipboardWrite (.clipboardWrite location contents) := by
  intro ended done _
  cases done
  refine ⟨rfl, ?_⟩
  have place := (location_undoes location () rfl).2 (contents.bytes ++ [])
  change decodeBody .clipboardWrite ((Body.location location).written ++ (contents.bytes ++ [])) = _
  rw [List.append_nil] at place ⊢
  unfold decodeBody
  have run : (do return (← Fields.location, ← Fields.rest) : Fields _)
      ((Body.location location).written ++ contents.bytes) = .ok ((location, contents.bytes), []) :=
    Reader.bind_run place
  simp only [StateT.run', run]
  change (Contents.of contents.bytes >>= fun _ => _) = _
  rw [contents_of]
  rfl

theorem clipboardRead_back (req : Req) (location : ClipboardLocation) (list : Bool) (mimes : Mimes) :
    Back .clipboardRead (.clipboardRead req location list mimes) := by
  intro ended done _
  cases done
  refine ⟨rfl, ?_⟩
  change decodeBody .clipboardRead ((Body.u32 req.low).written ++ ((Body.location location).written ++
    ((Body.bool list).written ++ (mimes.bytes ++ [])))) = _
  rw [List.append_nil]
  unfold decodeBody
  have run : (do return (← Fields.u32, ← Fields.location, ← Fields.flag, ← Fields.rest) : Fields _)
      ((Body.u32 req.low).written ++ ((Body.location location).written ++ ((Body.bool list).written ++ mimes.bytes))) =
      .ok ((req.low, location, list, mimes.bytes), []) := by
    rw [Reader.bind_run ((u32_undoes req.low () rfl).2 _),
      Reader.bind_run ((location_undoes location () rfl).2 _),
      Reader.bind_run ((flag_undoes list () rfl).2 _)]
    rfl
  simp only [StateT.run', run]
  change (Mimes.of mimes.bytes >>= fun _ => _) = _
  rw [mimes_of]
  rfl

theorem matches_back (req : Req) (found : Matches) : Back .matches (.matches req found) := by
  intro ended done _
  cases done
  refine ⟨rfl, ?_⟩
  change decodeBody .matches ((Body.u32 req.low).written ++ (found.bytes ++ [])) = _
  rw [List.append_nil]
  unfold decodeBody
  have run : (do return (← Fields.u32, ← Fields.rest) : Fields _) ((Body.u32 req.low).written ++ found.bytes) =
      .ok ((req.low, found.bytes), []) := Reader.bind_run ((u32_undoes req.low () rfl).2 _)
  have aligned : Matches.of found.bytes = some found := dif_pos found.aligned
  simp only [StateT.run', run]
  change (orElse (Matches.of found.bytes) .field >>= fun _ => _) = _
  rw [aligned]
  rfl

theorem message_back {message : FromPane} (proper : message.Proper) : ∃ kind, Back kind message := by
  cases message with
  | ready pid => exact ⟨.ready, ready_back pid⟩
  | head pos => exact ⟨.head, pos_back .head rfl fun body read => by rw [decodeBody, read]; rfl⟩
  | title title => exact ⟨.title, string_back rfl fun body read => by rw [decodeBody, read]; rfl⟩
  | pwd cwd => exact ⟨.pwd, string_back rfl fun body read => by rw [decodeBody, read]; rfl⟩
  | dead dead =>
    refine ⟨.dead, fun ended done _ => ?_⟩
    cases done
    change _ ∧ decodeBody .dead (deadBytes dead ++ []) = _
    rw [List.append_nil, decodeBody, decodeDead_deadBytes]
    exact ⟨rfl, rfl⟩
  | snapshotDone req => exact ⟨.snapshotDone, snapshotDone_back req⟩
  | pasteDone req pasted unsafePaste => exact ⟨.pasteDone, pasteDone_back req pasted unsafePaste⟩
  | screen req last text => exact ⟨.screen, screen_back req last text⟩
  | error text => exact ⟨.error, string_back rfl fun body read => by rw [decodeBody, read]; rfl⟩
  | full pos => exact ⟨.full, pos_back .full rfl fun body read => by rw [decodeBody, read]; rfl⟩
  | prompt prompt =>
    exact ⟨.prompt, back_of_whole ((prompt_undoes prompt).thenRet _) fun body read => by rw [decodeBody, read]; rfl⟩
  | record record =>
    exact ⟨.record, back_of_whole ((record_undoes proper).thenRet _) fun body read => by rw [decodeBody, read]; rfl⟩
  | foreground foreground =>
    have undoes : Undoes (do return (← Fields.u32, ← Fields.bytes) : Fields _) (foreground.pid, foreground.name)
        (Body.paneFrame (.foreground foreground)) .foreground :=
      (u32_undoes _).step ((string_undoes _).step (.pure _ _))
    exact ⟨.foreground, back_of_whole undoes fun body read => by rw [decodeBody, read]; rfl⟩
  | alternate on =>
    exact ⟨.alternate, back_of_whole ((flag_undoes on).thenRet _) fun body read => by rw [decodeBody, read]; rfl⟩
  | bell => exact ⟨.bell, fun _ done _ => by cases done; exact ⟨rfl, rfl⟩⟩
  | notify title text =>
    have undoes : Undoes (do return (← Fields.bytes, ← Fields.bytes) : Fields _) (title, text)
        (Body.paneFrame (.notify title text)) .notify :=
      (string_undoes _).step ((string_undoes _).step (.pure _ _))
    exact ⟨.notify, back_of_whole undoes fun body read => by rw [decodeBody, read]; rfl⟩
  | progress report =>
    refine ⟨.progress, back_of_whole ((progress_undoes proper).thenRet _) fun body read => ?_⟩
    rw [decodeBody, read]
    change (readReport _ _ >>= fun _ => _) = _
    rw [readReport_code]
    rfl
  | image req object =>
    exact ⟨.imageReply, back_of_whole (image_undoes req object) fun body read => by rw [decodeBody, read]; rfl⟩
  | imageGone name =>
    exact ⟨.imageGone, back_of_whole ((string_undoes name).thenRet _) fun body read => by rw [decodeBody, read]; rfl⟩
  | clipboardWrite location contents => exact ⟨.clipboardWrite, clipboardWrite_back location contents⟩
  | clipboardRead req location list mimes => exact ⟨.clipboardRead, clipboardRead_back req location list mimes⟩
  | «matches» req found => exact ⟨.matches, matches_back req found⟩
  | searchDone req =>
    exact ⟨.searchDone, back_of_whole ((u32_undoes req.low).thenRet _) fun body read => by rw [decodeBody, read]; rfl⟩

-- A frame that a pane makes of a message is the same message for the server.
theorem report_comes_back {message : FromPane} (proper : message.Proper) {out after : Bytes}
    (encoded : encodeFrom message out = (.ok (), after)) : decode (after.drop out.length) = .ok (some message) := by
  rcases framed_cases out (Body.paneFrame message) with ⟨error, failed, -⟩ | ⟨kind, done, fits, appended⟩
  · rw [encodeFrom, failed] at encoded
    cases encoded
  rw [encodeFrom, appended] at encoded
  obtain rfl : _ = after := congrArg Prod.snd encoded
  obtain ⟨other, back⟩ := message_back proper
  obtain ⟨rfl, decoded⟩ := back kind done fits
  rw [List.drop_left, decode_frameOf]
  exact decoded

def workingRecord : Record := ⟨.working, .question, some 40, [1], [2, 3], [], [4]⟩

theorem record_comes_back :
    decode (((encodeFrom (.record workingRecord) []).2).drop 0) = .ok (some (.record workingRecord)) :=
  have proper : FromPane.Proper (.record workingRecord) := fun percent member => by
    cases member
    decide
  have encoded : encodeFrom (.record workingRecord) [] = (.ok (), (encodeFrom (.record workingRecord) []).2) := rfl
  report_comes_back proper encoded

end Kido.Framing
