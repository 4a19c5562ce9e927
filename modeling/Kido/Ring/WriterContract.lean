import Kido.Ring.Writes

set_option autoImplicit false

namespace Kido.Streaming

open Kido.Shared

namespace Writer

variable {ring : Ring}

-- The record that a call commits, if it does: `available` may commit a pad.
def committed (answer : ring.writer.Answer) : Log :=
  match answer.call, answer.reply with
  | .available, _ =>
    if answer.after.head = answer.before.head then []
    else [⟨.pad, List.replicate (answer.after.head - answer.before.head - headerSize) 0⟩]
  | .publish kind len, .commit commit => if commit = .refused then [] else [⟨kind, answer.before.staged.take len⟩]
  | .put kind payload, .commit commit => if commit = .refused then [] else [⟨kind, payload⟩]
  | _, _ => []

def published : List ring.writer.Answer → Log
  | [] => []
  | answer :: answers => published answers ++ committed answer

def idle (answer : ring.writer.Answer) : Bool :=
  match answer.reply with
  | .commit commit => decide (commit = .idle)
  | .available available => available.idle
  | _ => false

structure Responded (log : Log) (answer : ring.writer.Answer) (memory : Memory) : Prop where
  holds : Holds ring answer.after (log ++ committed answer) memory
  told : ∀ rec ∈ committed answer, answer.before.head = log.head ∧ committed answer = [rec] ∧
    Woken memory answer.before.head (idle answer)

variable {writer : Writer} {log : Log}

theorem responded_nothing {answer : ring.writer.Answer} {memory : Memory} (none_ : committed answer = [])
    (holds : Holds ring answer.after log memory) : Responded log answer memory where
  holds := by rwa [none_, List.append_nil]
  told rec member := by
    rw [none_] at member
    cases member

theorem responded_commit {answer : ring.writer.Answer} {memory : Memory} {rec : Rec} {commit : Commit}
    (done : Committed ring writer log rec commit answer.after memory) (start : answer.before.head = writer.head)
    (head : writer.head = log.head) (one : committed answer = [rec]) (tells : idle answer = decide (commit = .idle)) :
    Responded log answer memory where
  holds := one ▸ done.holds
  told other member := by
    have same : other = rec := by simpa [one] using member
    rw [start, tells, same]
    exact ⟨head, one, done.woken⟩

theorem Holds.head_eq {memory : Memory} (holds : Holds ring writer log memory) : writer.head = log.head := by
  obtain ⟨data, owns, staged⟩ := holds
  exact owns.head

theorem answer_meets (call : Call) : Writes ring (Holds ring writer log) (answer ring call writer) fun value =>
    Responded log (⟨writer, call, value.1, value.2⟩ : ring.writer.Answer) := by
  intro start before
  have head := before.head_eq
  cases call with
  | available =>
    refine Meets.bind Consumed.refl _ (available_meets 0) (fun value => ?_) start ⟨before, Nat.zero_le _⟩
    rintro memory ⟨tail, room, -, -, -, found, ends⟩
    rcases ends with ⟨stays, holds, same⟩ | ⟨pads, commit, done, same⟩
    · have after : value.2 = { writer with tail := tail } := congrArg Prod.snd same
      refine Meets.ret holds_stable (fun memory holds => ?_) memory (after ▸ holds)
      refine responded_nothing (if_pos ?_) holds
      show value.2.head = writer.head
      rw [after]
    · have grown : value.2.head = writer.head + (padding ring writer).size := done.head
      have some_ := (padding ring writer).size_pos
      have pad : value.2.head - writer.head - headerSize = rest ring writer - headerSize := by
        rw [grown, Nat.add_sub_cancel_left, Rec.size, Nat.add_sub_cancel_left, padding, List.length_replicate]
      have same : room = some _ := same
      have told : value.1.idle = decide (commit = .idle) := by rw [found, same]; rfl
      refine Meets.ret committed_stable (fun memory done => ?_) memory done
      refine responded_commit done rfl head ((if_neg (show ¬value.2.head = writer.head by omega)).trans ?_) told
      rw [pad]
      rfl
  | writeAt offset bytes =>
    refine Meets.bind Consumed.refl _ (writeAt_meets offset bytes) (fun value => ?_) start before
    rintro memory (⟨rfl, unfit, holds⟩ | ⟨rfl, fitting, holds⟩)
    · refine Meets.ret holds_stable (fun memory holds => ?_) memory holds
      exact responded_nothing rfl holds
    · refine Meets.ret holds_stable (fun memory holds => ?_) memory holds
      exact responded_nothing rfl holds
  | fill len source =>
    refine Meets.bind Consumed.refl _ (fill_meets len source) (fun value => ?_) start before
    rintro memory ⟨holds, -⟩
    refine Meets.ret holds_stable (fun memory holds => ?_) memory holds
    exact responded_nothing rfl holds
  | pending len =>
    refine Meets.bind Consumed.refl _ (pending_meets len) (fun value => ?_) start before
    rintro memory ⟨holds, -⟩
    refine Meets.ret holds_stable (fun memory holds => ?_) memory holds
    exact responded_nothing rfl holds
  | publish kind len =>
    obtain ⟨data, owns, staged⟩ := before
    refine Meets.bind Consumed.refl _ (commit_meets staged kind len) (fun value => ?_) start owns
    rintro memory (⟨rfl, unfit, owns⟩ | ⟨enough, done⟩)
    · refine Meets.ret owns_stable (fun memory owns => ?_) memory owns
      exact responded_nothing rfl ⟨data, owns, staged⟩
    · refine Meets.ret committed_stable (fun memory done => ?_) memory done
      exact responded_commit done rfl head (if_neg done.accepted) rfl
  | put kind payload =>
    refine Meets.bind Consumed.refl _ (put_meets kind payload) (fun value => ?_) start before
    rintro memory (⟨refused, holds, -⟩ | done)
    · refine Meets.ret holds_stable (fun memory holds => ?_) memory holds
      exact responded_nothing (if_pos refused) holds
    · refine Meets.ret committed_stable (fun memory done => ?_) memory done
      exact responded_commit done rfl head (if_neg done.accepted) rfl

-- The answers are what the log is made of, each record at the head of its time.
structure Told (ring : Ring) (answers : List ring.writer.Answer) (memory : Memory) : Prop where
  sound : memory.Sound ring
  log : published answers <+: memory.log
  placed : ∀ answer ∈ answers, ∀ rec ∈ committed answer, ∃ before, At Rec.size memory.log answer.before.head before rec
  woken : ∀ answer ∈ answers, committed answer ≠ [] → Woken memory answer.before.head (idle answer)

def Rest (ring : Ring) (writer : Writer) (answers : List ring.writer.Answer) (memory : Memory) : Prop :=
  Holds ring writer (published answers) memory ∧ Told ring answers memory

theorem Told.before_head {answers : List ring.writer.Answer} {memory : Memory} (told : Told ring answers memory)
    {answer : ring.writer.Answer} (member : answer ∈ answers) (some_ : committed answer ≠ []) :
    answer.before.head < memory.head := by
  obtain ⟨rec, inside⟩ := List.exists_mem_of_ne_nil _ some_
  obtain ⟨before, here⟩ := told.placed answer member rec inside
  have stop := here.end_le
  have size := rec.size_pos
  rw [told.sound.head, Log.head]
  omega

theorem told_stable (answers : List ring.writer.Answer) : Stable (Consumed ring) (Told ring answers) := by
  intro memory later consumed told
  refine ⟨consumed.sound told.sound, consumed.log ▸ told.log, consumed.log ▸ told.placed, fun answer member some_ => ?_⟩
  exact woken_kept consumed (told.before_head member some_) (told.woken answer member some_)

theorem told_kept (answers : List ring.writer.Answer) : Stable (Wrote ring) (Told ring answers) := by
  intro memory later wrote told
  refine ⟨wrote.sound told.sound, told.log.trans wrote.log, fun answer member rec inside => ?_,
    fun answer member some_ stored read seen => ?_⟩
  · obtain ⟨before, here⟩ := told.placed answer member rec inside
    exact ⟨before, here.grow wrote.log⟩
  · exact told.woken answer member some_ (wrote.stored ▸ stored) (wrote.read ▸ wrote.seen ▸ read) (wrote.seen ▸ seen)

theorem told_cons {answer : ring.writer.Answer} {answers : List ring.writer.Answer} {memory : Memory}
    (old : Told ring answers memory) (responded : Responded (published answers) answer memory) :
    Told ring (answer :: answers) memory := by
  obtain ⟨data, owns, staged⟩ := responded.holds
  have log : memory.log = published (answer :: answers) := owns.log
  refine ⟨owns.sound, log ▸ List.prefix_rfl, fun other member rec inside => ?_, fun other member some_ => ?_⟩
  · rcases List.mem_cons.mp member with rfl | before
    · obtain ⟨head, one, -⟩ := responded.told rec inside
      rw [log, head, published, one]
      exact ⟨_, .last _ rec⟩
    · exact old.placed other before rec inside
  · rcases List.mem_cons.mp member with rfl | before
    · obtain ⟨rec, inside⟩ := List.exists_mem_of_ne_nil _ some_
      exact (responded.told rec inside).2.2
    · exact old.woken other before some_

def contract (ring : Ring) : Machine.Contract ring.writer (Consumed ring) (Wrote ring) where
  rest := Rest ring
  told := Told ring
  refl := Consumed.refl
  trans := Consumed.trans
  own := Wrote.refl
  rest_stable writer answers := holds_stable.and (told_stable answers)
  told_stable := told_stable
  told_kept := told_kept
  rest_told writer answers memory rest := rest.2
  answers_call := by
    rintro writer answers call memory ⟨holds, told⟩
    refine (Safe.frame (told_stable answers) (told_kept answers) told (answer_meets call memory holds)).mono ?_
    rintro value later ⟨responded, old⟩
    exact ⟨responded.holds, told_cons old responded⟩

end Writer

end Kido.Streaming
