import Kido.Shared.Words
import Mathlib.Tactic.SplitIfs
import Mathlib.Algebra.Order.Ring.Nat

set_option autoImplicit false

namespace Kido.Snapshots

open Kido.Shared

def headerSize : Nat := 10

def ready : Nat := 5

def kittyPayload : Nat := 9

@[ext]
structure Cut where
  header : List UInt8
  had : Nat
  left : Nat
  tag : Nat
  envelope : Bool
  screen : Bool
  done : Bool
  size : header.length = headerSize
  room : had < headerSize

namespace Cut

def new (screen : Bool) : Cut := ⟨List.replicate headerSize 0, 0, 0, 0, false, screen, false, by decide, by decide⟩

def keep (cut : Cut) : Bool := decide (cut.tag ≠ kittyPayload)

theorem fits (bytes : List UInt8) {had : Nat} (room : had < headerSize) : had + (bytes.take (headerSize - had)).length ≤ headerSize := by
  rw [List.length_take]
  omega

def filled (cut : Cut) (taken : List UInt8) : List UInt8 :=
  cut.header.take cut.had ++ taken ++ cut.header.drop (cut.had + taken.length)

theorem filled_length (cut : Cut) {taken : List UInt8} (fits : cut.had + taken.length ≤ headerSize) :
    (cut.filled taken).length = headerSize := by
  have size := cut.size
  simp only [filled, List.length_append, List.length_take, List.length_drop]
  omega

def took (cut : Cut) (taken : List UInt8) (more : cut.had + taken.length < headerSize) : Cut :=
  { cut with header := cut.filled taken, had := cut.had + taken.length, size := cut.filled_length (Nat.le_of_lt more), room := more }

-- A header is complete: the first one is the envelope, every other one starts a record.
def opened (cut : Cut) (header : List UInt8) (size : header.length = headerSize) : Cut :=
  { cut with
    header := header
    had := 0
    tag := if cut.envelope then ofLe (header.take 2) else 0
    left := if cut.envelope then ofLe ((header.drop 2).take 4) else 0
    envelope := true
    size := size
    room := by decide }

def stopped (cut : Cut) : Cut := { cut with done := true }

section Feed

variable {σ ε : Type} (emit : List UInt8 → σ → Except ε σ)

def emitIf (shown : Bool) (bytes : List UInt8) (sink : σ) : Except ε σ := if shown then emit bytes sink else .ok sink

def feed (cut : Cut) (bytes : List UInt8) (sink : σ) : Except ε (Cut × σ) :=
  if _some : bytes = [] ∨ cut.done = true then .ok (cut, sink)
  else if _header : cut.left = 0 then
    let taken := bytes.take (headerSize - cut.had)
    if more : cut.had + taken.length < headerSize then
      feed (cut.took taken more) (bytes.drop taken.length) sink
    else
      let rest := bytes.drop taken.length
      let next := cut.opened (cut.filled taken) (cut.filled_length (fits bytes cut.room))
      do
        let sink ← emitIf emit next.keep next.header sink
        if next.screen && decide (next.tag = ready) then .ok (next.stopped, sink)
        else
          let payload := rest.take next.left
          let sink ← emitIf emit (!payload.isEmpty && next.keep) payload sink
          feed { next with left := next.left - payload.length } (rest.drop payload.length) sink
  else
    let taken := bytes.take cut.left
    do
      let sink ← emitIf emit (!taken.isEmpty && cut.keep) taken sink
      feed { cut with left := cut.left - taken.length } (bytes.drop taken.length) sink
termination_by bytes.length
decreasing_by
  all_goals
    have nonempty := List.length_pos_iff_ne_nil.2 fun is => _some (.inl is)
    have room := cut.room
    simp only [List.length_drop, List.length_take] at *
    omega

def feedAll (cut : Cut) : List (List UInt8) → σ → Except ε (Cut × σ)
  | [], sink => .ok (cut, sink)
  | piece :: rest, sink => do
    let (cut, sink) ← cut.feed emit piece sink
    cut.feedAll rest sink

end Feed

section Feed

variable {σ ε : Type} (emit : List UInt8 → σ → Except ε σ) (cut : Cut) (bytes : List UInt8) (sink : σ)

@[simp]
theorem feed_nil : cut.feed emit [] sink = .ok (cut, sink) := by
  rw [feed, dif_pos (.inl rfl)]

variable {cut bytes}

theorem feed_done (done : cut.done = true) : cut.feed emit bytes sink = .ok (cut, sink) := by
  rw [feed, dif_pos (.inr done)]

theorem drop_min (bytes : List UInt8) (count : Nat) : bytes.drop (min count bytes.length) = bytes.drop count := by
  rcases Nat.le_total count bytes.length with less | more
  · rw [Nat.min_eq_left less]
  · rw [Nat.min_eq_right more, List.drop_length, List.drop_eq_nil_of_le more]

theorem feed_payload (going : cut.done = false) (left : cut.left ≠ 0) (some_ : bytes ≠ []) :
    cut.feed emit bytes sink =
      emitIf emit cut.keep (bytes.take cut.left) sink >>= fun sink =>
        feed emit { cut with left := cut.left - bytes.length } (bytes.drop cut.left) sink := by
  have positive := List.length_pos_iff_ne_nil.2 some_
  have taken : (!(bytes.take cut.left).isEmpty) = true := by
    rw [Bool.not_eq_true', List.isEmpty_eq_false_iff]
    exact List.ne_nil_of_length_pos (by rw [List.length_take]; omega)
  have rest : bytes.drop (bytes.take cut.left).length = bytes.drop cut.left := by
    rw [List.length_take]
    exact drop_min bytes cut.left
  have fewer : cut.left - (bytes.take cut.left).length = cut.left - bytes.length := by
    rw [List.length_take]
    omega
  rw [feed, dif_neg (by simp [some_, going]), dif_neg left]
  simp only [taken, Bool.true_and, rest, fewer]

theorem feed_rest (going : cut.done = false) :
    (emitIf emit (!(bytes.take cut.left).isEmpty && cut.keep) (bytes.take cut.left) sink >>= fun sink =>
      feed emit { cut with left := cut.left - (bytes.take cut.left).length } (bytes.drop (bytes.take cut.left).length) sink) =
      cut.feed emit bytes sink := by
  by_cases empty : cut.left = 0 ∨ bytes = []
  · have none_ : bytes.take cut.left = [] := by
      rcases empty with zero | rfl
      · rw [zero, List.take_zero]
      · exact List.take_nil
    rw [none_]
    rfl
  · rw [not_or] at empty
    have positive := List.length_pos_iff_ne_nil.2 empty.2
    conv_rhs => rw [feed, dif_neg (by simp [empty.2, going]), dif_neg empty.1]

theorem feed_header (going : cut.done = false) (left : cut.left = 0) (some_ : bytes ≠ [])
    (whole : headerSize ≤ cut.had + bytes.length) :
    cut.feed emit bytes sink =
      let next := cut.opened (cut.filled (bytes.take (headerSize - cut.had))) (cut.filled_length (fits bytes cut.room))
      emitIf emit next.keep next.header sink >>= fun sink =>
        if (next.screen && decide (next.tag = ready)) = true then .ok (next.stopped, sink)
        else next.feed emit (bytes.drop (headerSize - cut.had)) sink := by
  have room := cut.room
  have length : (bytes.take (headerSize - cut.had)).length = headerSize - cut.had := by
    rw [List.length_take]
    omega
  rw [feed, dif_neg (by simp [some_, going]), dif_pos left]
  simp only [length]
  rw [dif_neg (by omega)]
  refine bind_congr fun sink => ?_
  split_ifs
  · rfl
  · exact feed_rest emit sink going

theorem feed_short (going : cut.done = false) (left : cut.left = 0) (part : cut.had + bytes.length < headerSize) :
    cut.feed emit bytes sink = .ok (cut.took bytes part, sink) := by
  by_cases empty : bytes = []
  · subst bytes
    rw [feed_nil]
    simp [took, filled]
  · have whole : bytes.take (headerSize - cut.had) = bytes := List.take_of_length_le (by omega)
    rw [feed, dif_neg (by simp [empty, going]), dif_pos left]
    simp only [whole]
    rw [dif_pos part, List.drop_length, feed_nil]

end Feed

section Collect

variable {ε : Type}

def collect (bytes out : List UInt8) : Except ε (List UInt8) := .ok (out ++ bytes)

theorem emitIf_collect (shown : Bool) (bytes out : List UInt8) :
    emitIf (ε := ε) collect shown bytes out = .ok (out ++ if shown then bytes else []) := by
  cases shown
  · rw [emitIf, if_neg Bool.false_ne_true, if_neg Bool.false_ne_true, List.append_nil]
  · rw [emitIf, if_pos rfl, if_pos rfl, collect]

theorem took_filled (cut : Cut) {first : List UInt8} (part : cut.had + first.length < headerSize) (second : List UInt8) :
    (cut.took first part).filled second = cut.filled (first ++ second) := by
  have size := cut.size
  have had : (cut.header.take cut.had).length = cut.had := by
    rw [List.length_take]
    omega
  have before : (cut.filled first).take (cut.had + first.length) = cut.header.take cut.had ++ first := by
    have whole : (cut.header.take cut.had ++ first).length = cut.had + first.length := by rw [List.length_append, had]
    rw [filled, ← whole, List.take_left]
  have after : (cut.filled first).drop (cut.had + first.length + second.length) =
      cut.header.drop (cut.had + (first ++ second).length) := by
    have skipped : (cut.header.take cut.had ++ first).length = cut.had + first.length := by rw [List.length_append, had]
    rw [filled, ← List.drop_drop, ← skipped, List.drop_left, List.drop_drop, skipped, List.length_append, Nat.add_assoc]
  rw [filled, filled]
  simp only [took, before, after, List.append_assoc]

theorem took_took (cut : Cut) {first second : List UInt8} (part : cut.had + first.length < headerSize)
    (more : cut.had + (first ++ second).length < headerSize) :
    (cut.took first part).took second (by rw [List.length_append, ← Nat.add_assoc] at more; exact more) = cut.took (first ++ second) more := by
  refine Cut.ext (took_filled cut part second) ?_ rfl rfl rfl rfl rfl
  rw [List.length_append] at more
  simp only [took, List.length_append, Nat.add_assoc]

theorem feed_append (cut : Cut) (first second out : List UInt8) :
    cut.feed (ε := ε) collect (first ++ second) out =
      cut.feed collect first out >>= fun after => after.1.feed collect second after.2 := by
  induction count : first.length using Nat.strongRecOn generalizing cut first out with
  | ind count ih =>
    subst count
    by_cases empty : first = []
    · subst first
      rw [feed_nil]
      rfl
    have positive := List.length_pos_iff_ne_nil.2 empty
    have some_ : first ++ second ≠ [] := fun is => empty (List.append_eq_nil_iff.1 is).1
    have room := cut.room
    have length : (first ++ second).length = first.length + second.length := List.length_append
    cases going : cut.done with
    | true =>
      rw [feed_done _ _ going, feed_done _ _ going]
      exact (feed_done _ _ going).symm
    | false =>
      by_cases left : cut.left = 0
      · by_cases part : cut.had + first.length < headerSize
        · -- The header is not complete in the first piece.
          rw [feed_short _ _ going left part]
          change _ = (cut.took first part).feed collect second out
          have going' : (cut.took first part).done = false := going
          have left' : (cut.took first part).left = 0 := left
          by_cases more : cut.had + (first ++ second).length < headerSize
          · have more' : (cut.took first part).had + second.length < headerSize := by
              rw [length, ← Nat.add_assoc] at more
              exact more
            rw [feed_short _ _ going left more, feed_short _ _ going' left' more', took_took]
          · have next : second ≠ [] := by
              rintro rfl
              rw [List.append_nil] at more
              exact more part
            have whole : headerSize ≤ (cut.took first part).had + second.length := by
              change headerSize ≤ cut.had + first.length + second.length
              omega
            have taken : (first ++ second).take (headerSize - cut.had) =
                first ++ second.take (headerSize - (cut.had + first.length)) := by
              rw [List.take_append, List.take_of_length_le (by omega), Nat.sub_sub]
            have rest : (first ++ second).drop (headerSize - cut.had) = second.drop (headerSize - (cut.had + first.length)) := by
              rw [List.drop_append, List.drop_eq_nil_of_le (by omega), Nat.sub_sub, List.nil_append]
            rw [feed_header _ _ going left some_ (by omega), feed_header _ _ going' left' next whole]
            have header := took_filled cut part (second.take (headerSize - (cut.had + first.length)))
            simp only [taken, rest, ← header]
            rfl
        · -- The header ends in the first piece.
          have taken : (first ++ second).take (headerSize - cut.had) = first.take (headerSize - cut.had) :=
            List.take_append_of_le_length (by omega)
          have rest : (first ++ second).drop (headerSize - cut.had) = first.drop (headerSize - cut.had) ++ second :=
            List.drop_append_of_le_length (by omega)
          rw [feed_header _ _ going left some_ (by omega), feed_header _ _ going left empty (by omega)]
          simp only [taken, rest, emitIf_collect]
          generalize cut.opened (cut.filled (first.take (headerSize - cut.had))) _ = next
          generalize out ++ (if next.keep = true then next.header else []) = shown
          by_cases stops : (next.screen && decide (next.tag = ready)) = true
          · simp only [stops, if_true]
            exact (feed_done _ _ rfl).symm
          · simp only [stops]
            exact ih _ (by rw [List.length_drop]; omega) next _ _ rfl
      · rw [feed_payload _ _ going left some_, feed_payload _ _ going left empty]
        simp only [emitIf_collect]
        by_cases ends : first.length < cut.left
        · -- The payload goes on after the first piece.
          have taken : (first ++ second).take cut.left = first ++ second.take (cut.left - first.length) := by
            rw [List.take_append, List.take_of_length_le (by omega)]
          have rest : (first ++ second).drop cut.left = second.drop (cut.left - first.length) := by
            rw [List.drop_append, List.drop_eq_nil_of_le (by omega), List.nil_append]
          have all : first.take cut.left = first := List.take_of_length_le (by omega)
          have none_ : first.drop cut.left = [] := List.drop_eq_nil_of_le (by omega)
          change Cut.feed _ _ _ _ = Cut.feed _ _ _ _ >>= _
          rw [taken, rest, all, none_, feed_nil]
          change _ = Cut.feed _ _ _ _
          by_cases last : second = []
          · subst second
            simp only [List.take_nil, List.drop_nil, List.append_nil, feed_nil]
          · have left' : cut.left - first.length ≠ 0 := by omega
            have shown : (if cut.keep = true then first ++ second.take (cut.left - first.length) else []) =
                (if cut.keep = true then first else []) ++ if cut.keep = true then second.take (cut.left - first.length) else [] := by
              split_ifs
              · rfl
              · rw [List.append_nil]
            have going' : ({ cut with left := cut.left - first.length } : Cut).done = false := going
            rw [feed_payload collect _ going' left' last]
            simp only [emitIf_collect]
            rw [shown, length, ← Nat.sub_sub, ← List.append_assoc]
            rfl
        · have taken : (first ++ second).take cut.left = first.take cut.left := List.take_append_of_le_length (by omega)
          have rest : (first ++ second).drop cut.left = first.drop cut.left ++ second := List.drop_append_of_le_length (by omega)
          have none_ : cut.left - (first ++ second).length = cut.left - first.length := by omega
          rw [taken, rest, none_]
          exact ih _ (by rw [List.length_drop]; omega) _ _ _ rfl

theorem feedAll_flatten (cut : Cut) (pieces : List (List UInt8)) (out : List UInt8) :
    cut.feedAll (ε := ε) collect pieces out = cut.feed collect pieces.flatten out := by
  induction pieces generalizing cut out with
  | nil => rw [List.flatten_nil, feed_nil, feedAll]
  | cons piece rest ih =>
    rw [List.flatten_cons, feed_append, feedAll]
    exact bind_congr fun after => ih after.1 after.2

end Collect

end Cut

structure Record where
  tag : Nat
  reserved : List UInt8
  payload : List UInt8
  small : tag < 256 ^ 2
  four : reserved.length = 4
  fits : payload.length < 256 ^ 4

namespace Record

def header (record : Record) : List UInt8 := leBytes 2 record.tag ++ leBytes 4 record.payload.length ++ record.reserved

def bytes (record : Record) : List UInt8 := record.header ++ record.payload

theorem header_length (record : Record) : record.header.length = headerSize := by
  simp only [header, List.length_append, leBytes_length, record.four]
  rfl

end Record

-- What is kept of the records, and whether they stop at the header of a ready one.
def kept (screen : Bool) : List Record → List UInt8 × Bool
  | [] => ([], false)
  | record :: rest =>
    if screen = true ∧ record.tag = ready then (record.header, true)
    else ((if record.tag = kittyPayload then [] else record.bytes) ++ (kept screen rest).1, (kept screen rest).2)

namespace Cut

variable {ε : Type}

structure Between (screen : Bool) (cut : Cut) : Prop where
  had : cut.had = 0
  left : cut.left = 0
  envelope : cut.envelope = true
  screen : cut.screen = screen
  going : cut.done = false

theorem filled_all (cut : Cut) (had : cut.had = 0) {header : List UInt8} (size : header.length = headerSize) : cut.filled header = header := by
  have none_ : cut.header.drop header.length = [] := List.drop_eq_nil_of_le (Nat.le_of_eq (cut.size.trans size.symm))
  simp only [filled, had, List.take_zero, List.nil_append, Nat.zero_add, none_, List.append_nil]

def passed (cut : Cut) (record : Record) : Cut := { cut.opened record.header record.header_length with left := 0 }

variable {screen : Bool} {cut : Cut} (between : cut.Between screen) (record : Record) (rest out : List UInt8)

include between

theorem opened_record : (cut.opened record.header record.header_length).tag = record.tag ∧
    (cut.opened record.header record.header_length).left = record.payload.length := by
  have two : record.header.take 2 = leBytes 2 record.tag := by
    rw [Record.header, List.append_assoc, List.take_left' (leBytes_length 2 record.tag)]
  have four : (record.header.drop 2).take 4 = leBytes 4 record.payload.length := by
    rw [Record.header, List.append_assoc, List.drop_left' (leBytes_length 2 record.tag), List.take_left' (leBytes_length 4 _)]
  simp only [opened, between.envelope, if_true, two, four]
  exact ⟨ofLe_leBytes record.small, ofLe_leBytes record.fits⟩

theorem passed_between : (cut.passed record).Between screen := ⟨rfl, rfl, rfl, between.screen, between.going⟩

theorem feed_opened : cut.feed (ε := ε) collect (record.bytes ++ rest) out =
    if screen = true ∧ record.tag = ready then .ok ((cut.opened record.header record.header_length).stopped, out ++ record.header)
    else (cut.opened record.header record.header_length).feed collect (record.payload ++ rest)
      (out ++ if record.tag = kittyPayload then [] else record.header) := by
  have size := record.header_length
  have whole : record.bytes ++ rest = record.header ++ (record.payload ++ rest) := List.append_assoc ..
  have some_ : record.bytes ++ rest ≠ [] := by
    refine List.ne_nil_of_length_pos ?_
    rw [whole, List.length_append, size]
    exact Nat.lt_of_lt_of_le (by decide) (Nat.le_add_right headerSize _)
  have enough : headerSize ≤ cut.had + (record.bytes ++ rest).length := by
    rw [whole, List.length_append, size]
    omega
  have taken : (record.bytes ++ rest).take (headerSize - cut.had) = record.header := by
    rw [between.had, whole]
    exact List.take_left' size
  have dropped : (record.bytes ++ rest).drop (headerSize - cut.had) = record.payload ++ rest := by
    rw [between.had, whole]
    exact List.drop_left' size
  obtain ⟨tag, left⟩ := opened_record between record
  rw [feed_header _ _ between.going between.left some_ enough]
  have filled := cut.filled_all between.had size
  have shown : (cut.opened record.header record.header_length).screen = screen := between.screen
  simp only [taken, dropped, filled, emitIf_collect, keep, tag, shown]
  change (if _ then _ else _) = _
  by_cases stops : screen = true ∧ record.tag = ready
  · have keeps : ready ≠ kittyPayload := by decide
    simp only [stops.1, stops.2, keeps, decide_true, Bool.and_self, if_true, ne_eq, not_false_eq_true, and_self]
    rfl
  · have goes : ¬(screen && decide (record.tag = ready)) = true := by
      rwa [Bool.and_eq_true, decide_eq_true_eq]
    rw [if_neg goes, if_neg stops]
    by_cases kitty : record.tag = kittyPayload
    · simp [kitty]
    · simp only [kitty, ne_eq, not_false_eq_true, decide_true, if_true, if_false]
      rfl

theorem feed_record (goes : ¬(screen = true ∧ record.tag = ready)) :
    cut.feed (ε := ε) collect (record.bytes ++ rest) out =
      (cut.passed record).feed collect rest (out ++ if record.tag = kittyPayload then [] else record.bytes) := by
  obtain ⟨tag, left⟩ := opened_record between record
  have going : (cut.opened record.header record.header_length).done = false := between.going
  rw [feed_opened between, if_neg goes]
  by_cases empty : record.payload = []
  · have same : cut.passed record = cut.opened record.header record.header_length := by
      refine Cut.ext rfl rfl ?_ rfl rfl rfl rfl
      rw [left, empty]
      rfl
    rw [same, empty, List.nil_append, Record.bytes, empty, List.append_nil]
  · have some_ : record.payload ++ rest ≠ [] := fun is => empty (List.append_eq_nil_iff.1 is).1
    have positive := List.length_pos_iff_ne_nil.2 empty
    rw [feed_payload _ _ going (by omega) some_]
    have past : record.payload.length - (record.payload ++ rest).length = 0 := by
      rw [List.length_append]
      omega
    have both : (out ++ if record.tag = kittyPayload then [] else record.header) ++
        (if decide (record.tag ≠ kittyPayload) = true then record.payload else []) =
          out ++ if record.tag = kittyPayload then [] else record.bytes := by
      by_cases kitty : record.tag = kittyPayload
      · simp [kitty]
      · simp [kitty, Record.bytes]
    have keeps : (cut.opened record.header record.header_length).keep = decide (record.tag ≠ kittyPayload) := by rw [keep, tag]
    simp only [emitIf_collect, keeps, left, List.take_left, List.drop_left, past]
    rw [both]
    rfl

theorem feed_records (records : List Record) :
    ∃ after : Cut, cut.feed (ε := ε) collect (records.flatMap Record.bytes) out = .ok (after, out ++ (kept screen records).1) ∧
      after.done = (kept screen records).2 := by
  induction records generalizing cut out with
  | nil => exact ⟨cut, by rw [List.flatMap_nil, feed_nil, kept, List.append_nil], between.going⟩
  | cons record rest ih =>
    rw [List.flatMap_cons, kept]
    by_cases stops : screen = true ∧ record.tag = ready
    · rw [feed_opened between, if_pos stops, if_pos stops]
      exact ⟨_, rfl, rfl⟩
    · obtain ⟨after, fed, done⟩ := ih (passed_between between record) (out ++ if record.tag = kittyPayload then [] else record.bytes)
      rw [feed_record between record _ _ stops, if_neg stops, fed]
      exact ⟨after, by rw [List.append_assoc], done⟩

end Cut

section Exact

variable {ε : Type}

-- However a snapshot is cut into pieces, the envelope and what is kept of its records come out; and any bytes that are cut in two
-- ways come out the same.
theorem cut_exact (screen : Bool) :
    (∀ (envelope : List UInt8) (records : List Record) (pieces : List (List UInt8)), envelope.length = headerSize →
      pieces.flatten = envelope ++ records.flatMap Record.bytes →
        ∃ after : Cut, (Cut.new screen).feedAll (ε := ε) Cut.collect pieces [] = .ok (after, envelope ++ (kept screen records).1) ∧
          after.done = (kept screen records).2) ∧
      ∀ pieces other : List (List UInt8), pieces.flatten = other.flatten →
        (Cut.new screen).feedAll (ε := ε) Cut.collect pieces [] = (Cut.new screen).feedAll Cut.collect other [] := by
  constructor
  · intro envelope records pieces size whole
    have taken : (envelope ++ records.flatMap Record.bytes).take (headerSize - (Cut.new screen).had) = envelope := List.take_left' size
    have rest : (envelope ++ records.flatMap Record.bytes).drop (headerSize - (Cut.new screen).had) = records.flatMap Record.bytes :=
      List.drop_left' size
    have filled : (Cut.new screen).filled envelope = envelope := (Cut.new screen).filled_all rfl size
    have some_ : envelope ++ records.flatMap Record.bytes ≠ [] := by
      refine List.ne_nil_of_length_pos ?_
      rw [List.length_append, size]
      exact Nat.lt_of_lt_of_le (by decide) (Nat.le_add_right headerSize _)
    have enough : headerSize ≤ (Cut.new screen).had + (envelope ++ records.flatMap Record.bytes).length := by
      rw [List.length_append, size]
      omega
    have between : ((Cut.new screen).opened envelope size).Between screen := ⟨rfl, rfl, rfl, rfl, rfl⟩
    obtain ⟨after, fed, done⟩ := Cut.feed_records (ε := ε) between envelope records
    refine ⟨after, ?_, done⟩
    rw [Cut.feedAll_flatten, whole, Cut.feed_header _ _ rfl rfl some_ enough]
    simp only [taken, rest, filled, Cut.emitIf_collect]
    have ready_ : ¬(((Cut.new screen).opened envelope size).screen && decide (((Cut.new screen).opened envelope size).tag = ready)) = true := by
      simp [Cut.opened, Cut.new, ready]
    change (if _ then _ else _) = _
    rw [if_neg ready_]
    exact fed
  · intro pieces other same
    rw [Cut.feedAll_flatten, Cut.feedAll_flatten, same]

-- An image and the header of a ready record, in pieces of 17 bytes.
def image : Record := ⟨kittyPayload, [0, 0, 0, 0], [1, 2, 3], by decide, rfl, by decide⟩

def readyRecord : Record := ⟨ready, [0, 0, 0, 0], [4], by decide, rfl, by decide⟩

theorem cut_exact_pieces : ∃ after : Cut,
    (Cut.new true).feedAll (ε := Empty) Cut.collect
      [List.replicate 10 7 ++ image.bytes.take 7, image.bytes.drop 7 ++ readyRecord.bytes] [] =
        .ok (after, List.replicate 10 7 ++ readyRecord.header) ∧ after.done = true :=
  (cut_exact true).1 (List.replicate 10 7) [image, readyRecord] _ (by decide) (by decide)

end Exact

end Kido.Snapshots
