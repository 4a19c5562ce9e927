import Kido.Posts.Written
import Kido.Shared.Stages

set_option autoImplicit false

namespace Kido.Posting

open Kido.Mailing Kido.Shared

abbrev Outcomes := Except PostError MessageState

abbrev Pending := Wait × Outcomes

def Wait.standing (wait : Wait) (course : Course) : Prop := course = .held wait

def standing (pending : Pending) (course : Course) : Prop :=
  course = .released pending.1 (pending.1.answered pending.2)

namespace Course

def IsHeld (course : Course) : Prop := ∃ wait, course = .held wait

def IsReleased (course : Course) : Prop := ∃ wait answer, course = .released wait answer

end Course

-- The posts that are held are those of the list, and the posts that are decided are about to be answered.
structure PostsHold (courses : Nat → Course) (log : List Fact) (posts : Nat) (waits : List Wait) (answers : List Pending) :
    Prop where
  facts : ∀ post, courseOf post log = some (courses post)
  unborn : ∀ post, posts ≤ post → courses post = .unborn
  stands : Stage Wait.post Wait.standing courses waits
  decided : Stage (fun pending : Pending => pending.1.post) standing courses answers
  held : Covers Wait.post Course.IsHeld courses waits
  released : Covers (fun pending : Pending => pending.1.post) Course.IsReleased courses answers

namespace PostsHold

variable {courses : Nat → Course} {log : List Fact} {posts : Nat} {waits : List Wait} {answers : List Pending}

theorem start : PostsHold (fun _ => .unborn) [] 0 [] [] where
  facts _ := rfl
  unborn _ _ := rfl
  stands := .nil
  decided := .nil
  held := fun _ ⟨_, other⟩ => by cases other
  released := fun _ ⟨_, _, other⟩ => by cases other

theorem own_wait (holds : PostsHold courses log posts waits answers) {post : Nat} {wait : Wait}
    (course : courses post = .held wait) : wait ∈ waits ∧ wait.post = post := by
  obtain ⟨found, member, rfl⟩ := holds.held post ⟨wait, course⟩
  have own : courses found.post = .held found := holds.stands.state found member
  rw [course] at own
  cases own
  exact ⟨member, rfl⟩

theorem own_answer (holds : PostsHold courses log posts waits answers) {post : Nat} {wait : Wait} {answer : Answer}
    (course : courses post = .released wait answer) :
    ∃ outcome, (wait, outcome) ∈ answers ∧ wait.post = post ∧ answer = wait.answered outcome := by
  obtain ⟨⟨found, outcome⟩, member, rfl⟩ := holds.released post ⟨wait, answer, course⟩
  have own : courses found.post = .released found (found.answered outcome) := holds.decided.state _ member
  change courses found.post = _ at course
  rw [course] at own
  cases own
  exact ⟨outcome, member, rfl, rfl⟩

theorem turn (holds : PostsHold courses log posts waits answers) {fact : Fact} {matching : Wait → Bool} {outcome : Outcomes}
    (plain : ∀ own course, Course.next own course fact = some (course.turn fact))
    (decides : ∀ wait, fact.outcome? wait = if matching wait then some outcome else none)
    (keeps : ∀ wait, fact.forgets wait = false) :
    PostsHold (fun post => (courses post).turn fact) (log ++ [fact]) posts (waits.filter fun wait => !matching wait)
      ((waits.filter matching).map (fun wait => (wait, outcome)) ++ answers) := by
  have fits : ∀ wait, matching wait = true → (Course.held wait).turn fact = .released wait (wait.answered outcome) := by
    intro wait fit
    simp only [Course.turn, decides, fit, if_true]
  have stays : ∀ wait, matching wait = false → (Course.held wait).turn fact = .held wait := by
    intro wait other
    simp only [Course.turn, decides, other, keeps, Bool.false_eq_true, if_false]
  have remains : ∀ wait answer, (Course.released wait answer).turn fact = .released wait answer := by
    intro wait answer
    simp only [Course.turn, keeps, Bool.false_eq_true, if_false]
  constructor
  case facts =>
    intro post
    rw [courseOf_note, holds.facts, Option.bind_some, plain]
  case unborn =>
    intro post above
    rw [holds.unborn post above]
    rfl
  case stands =>
    refine ⟨holds.stands.apart.sublist (List.filter_sublist.map _), fun wait member => ?_⟩
    obtain ⟨inside, other⟩ := List.mem_filter.1 member
    have own : courses wait.post = .held wait := holds.stands.state wait inside
    rw [own]
    exact stays wait (by simpa using other)
  case decided =>
    refine ⟨?_, fun pending member => ?_⟩
    · rw [List.map_append, List.map_map]
      refine List.nodup_append.2 ⟨holds.stands.apart.sublist (List.filter_sublist.map _), holds.decided.apart, ?_⟩
      rintro post one other two rfl
      obtain ⟨wait, inside, rfl⟩ := List.mem_map.1 one
      obtain ⟨pending, there, same⟩ := List.mem_map.1 two
      have first : courses wait.post = .held wait := holds.stands.state wait (List.mem_filter.1 inside).1
      have second := holds.decided.state pending there
      rw [show pending.1.post = wait.post from same, first] at second
      cases second
    · rcases List.mem_append.1 member with new | old
      · obtain ⟨wait, inside, rfl⟩ := List.mem_map.1 new
        obtain ⟨there, fit⟩ := List.mem_filter.1 inside
        have own : courses wait.post = .held wait := holds.stands.state wait there
        change (courses wait.post).turn fact = _
        rw [own]
        exact fits wait fit
      · have own : courses pending.1.post = _ := holds.decided.state pending old
        change (courses pending.1.post).turn fact = _
        rw [own]
        exact remains _ _
  case held =>
    rintro post ⟨wait, course⟩
    change (courses post).turn fact = _ at course
    cases before : courses post with
    | held other =>
      rw [before] at course
      obtain ⟨member, own⟩ := holds.own_wait before
      cases fit : matching other with
      | true => rw [fits other fit] at course; cases course
      | false => exact ⟨other, List.mem_filter.2 ⟨member, by rw [fit]; rfl⟩, own⟩
    | released other answer => rw [before, remains] at course; cases course
    | _ => rw [before] at course; cases course
  case released =>
    rintro post ⟨wait, answer, course⟩
    change (courses post).turn fact = _ at course
    cases before : courses post with
    | held other =>
      rw [before] at course
      obtain ⟨member, own⟩ := holds.own_wait before
      cases fit : matching other with
      | true =>
        exact ⟨(other, outcome), List.mem_append_left _ (List.mem_map_of_mem (List.mem_filter.2 ⟨member, fit⟩)), own⟩
      | false => rw [stays other fit] at course; cases course
    | released other decision =>
      obtain ⟨pending, member, same⟩ := holds.released post ⟨other, decision, before⟩
      exact ⟨pending, List.mem_append_right _ member, same⟩
    | _ => rw [before] at course; cases course

theorem hold (holds : PostsHold courses log posts waits answers) {wait : Wait} (new : wait.post = posts) :
    PostsHold (Function.update courses wait.post (.held wait)) (log ++ [.held wait]) (posts + 1) (waits ++ [wait]) answers where
  facts post := by
    rw [courseOf_note, holds.facts, Option.bind_some]
    by_cases own : wait.post = post
    · subst own
      rw [Function.update_self]
      change (if wait.post = wait.post then _ else _) = _
      rw [if_pos rfl, if_pos (holds.unborn _ (Nat.le_of_eq new.symm))]
    · rw [Function.update_of_ne (Ne.symm own)]
      exact if_neg own
  unborn post above := by
    rw [Function.update_of_ne (by omega)]
    exact holds.unborn post (by omega)
  stands := holds.stands.add wait _ (fun old stands => by
    rw [holds.unborn _ (Nat.le_of_eq new.symm)] at stands
    cases stands) rfl
  decided := holds.decided.keep (fun old stands => by
    rw [holds.unborn _ (Nat.le_of_eq new.symm)] at stands
    cases stands) _
  held := holds.held.add wait _
  released := holds.released.keep (fun ⟨_, _, other⟩ => by cases other) _

theorem answer {pending : Pending} (holds : PostsHold courses log posts waits (pending :: answers)) :
    PostsHold (Function.update courses pending.1.post .answered)
      (log ++ [.answered pending.1.post (pending.1.answered pending.2)]) posts waits answers where
  facts post := by
    rw [courseOf_note, holds.facts, Option.bind_some]
    by_cases own : pending.1.post = post
    · subst own
      rw [Function.update_self]
      have here : courses pending.1.post = .released pending.1 _ := holds.decided.state pending (.head _)
      change (if pending.1.post = pending.1.post then _ else _) = _
      rw [if_pos rfl, here]
      exact if_pos rfl
    · rw [Function.update_of_ne (Ne.symm own)]
      exact if_neg own
  unborn post above := by
    have here : courses pending.1.post = .released pending.1 _ := holds.decided.state pending (.head _)
    have apart : post ≠ pending.1.post := by
      rintro rfl
      rw [holds.unborn _ above] at here
      cases here
    rw [Function.update_of_ne apart]
    exact holds.unborn post above
  stands := holds.stands.keep (fun old stands => by
    have here : courses pending.1.post = .released pending.1 _ := holds.decided.state pending (.head _)
    rw [here] at stands
    cases stands) _
  decided := holds.decided.pop _
  held := holds.held.keep (fun ⟨_, other⟩ => by cases other) _
  released := holds.released.pop fun ⟨_, _, other⟩ => by cases other

theorem gone (holds : PostsHold courses log posts waits []) (conn : Token) :
    PostsHold (fun post => (courses post).turn (.gone conn)) (log ++ [.gone conn]) posts
      (waits.filter fun wait => !decide (wait.conn = conn)) [] where
  facts post := by
    rw [courseOf_note, holds.facts]
    rfl
  unborn post above := by
    rw [holds.unborn post above]
    rfl
  stands := by
    refine ⟨holds.stands.apart.sublist (List.filter_sublist.map _), fun wait member => ?_⟩
    obtain ⟨inside, other⟩ := List.mem_filter.1 member
    have own : courses wait.post = .held wait := holds.stands.state wait inside
    have stays : (Fact.gone conn).forgets wait = false := by simpa [Fact.forgets] using other
    rw [own]
    change (if (Fact.gone conn).forgets wait then _ else _) = _
    rw [stays]
    rfl
  decided := .nil
  held := by
    rintro post ⟨wait, course⟩
    change (courses post).turn _ = _ at course
    cases before : courses post with
    | held other =>
      rw [before] at course
      change (if (Fact.gone conn).forgets other then _ else _) = _ at course
      obtain ⟨member, own⟩ := holds.own_wait before
      cases fit : (Fact.gone conn).forgets other with
      | true => rw [fit] at course; cases course
      | false => exact ⟨other, List.mem_filter.2 ⟨member, by simpa [Fact.forgets] using fit⟩, own⟩
    | released other answer =>
      obtain ⟨outcome, member, -⟩ := holds.own_answer before
      cases member
    | _ => rw [before] at course; cases course
  released := by
    rintro post ⟨wait, answer, course⟩
    change (courses post).turn _ = _ at course
    cases before : courses post with
    | held other =>
      rw [before] at course
      change (if (Fact.gone conn).forgets other then _ else _) = _ at course
      cases fit : (Fact.gone conn).forgets other <;> rw [fit] at course <;> cases course
    | released other decision =>
      obtain ⟨outcome, member, -⟩ := holds.own_answer before
      cases member
    | _ => rw [before] at course; cases course

end PostsHold

def find (conns : List Conn) (token : Token) : Option Conn := conns.find? fun conn => decide (conn.token = token)

theorem find_change (conns : List Conn) (token other : Token) (change : Conn → Conn)
    (same : ∀ conn, (change conn).token = conn.token) :
    find (conns.map fun conn => if conn.token = token then change conn else conn) other =
      if other = token then (find conns other).map change else find conns other := by
  induction conns with
  | nil => split <;> rfl
  | cons conn rest ih =>
    unfold find at ih ⊢
    rw [List.map_cons, List.find?_cons, List.find?_cons]
    have kept : (if conn.token = token then change conn else conn).token = conn.token := by split <;> simp [same]
    rw [kept]
    by_cases here : conn.token = other
    · subst here
      simp only [decide_true]
      split <;> rfl
    · simp only [decide_eq_false here]
      exact ih

theorem find_remove (conns : List Conn) {token other : Token} (apart : other ≠ token) :
    find (conns.filter fun conn => !decide (conn.token = token)) other = find conns other := by
  unfold find
  rw [List.find?_filter]
  congr 1
  funext conn
  by_cases here : conn.token = other
  · simp [here, apart]
  · simp [here]

theorem find_some {conns : List Conn} {token : Token} {conn : Conn} (found : find conns token = some conn) :
    conn ∈ conns ∧ conn.token = token :=
  ⟨List.mem_of_find?_eq_some found, by simpa using List.find?_some found⟩

-- A connection that has a post waits for it, and its timer runs for as long as the post is held.
structure ConnsHold (conns : List Conn) (tokens : Nat) (waits : List Wait) (answers : List Pending) : Prop where
  tokens : ∀ conn ∈ conns, conn.token < tokens
  apart : ((waits ++ answers.map Prod.fst).map Wait.conn).Nodup
  busy : ∀ wait ∈ waits ++ answers.map Prod.fst, (find conns wait.conn).map Conn.phase = some .handling
  armed : ∀ wait ∈ waits, (find conns wait.conn).map Conn.armed = some true

namespace ConnsHold

variable {conns : List Conn} {tokens : Nat} {waits : List Wait} {answers : List Pending}

theorem start : ConnsHold [] 0 [] [] := ⟨by simp, List.nodup_nil, by simp, by simp⟩

theorem change (holds : ConnsHold conns tokens waits answers) (token : Token) (change : Conn → Conn)
    (same : ∀ conn, (change conn).token = conn.token)
    (keeps : (∀ conn, (change conn).phase = conn.phase ∧ (change conn).armed = conn.armed) ∨
      ∀ wait ∈ waits ++ answers.map Prod.fst, wait.conn ≠ token) :
    ConnsHold (conns.map fun conn => if conn.token = token then change conn else conn) tokens waits answers where
  tokens conn member := by
    obtain ⟨old, inside, rfl⟩ := List.mem_map.1 member
    have below := holds.tokens old inside
    split <;> simp [same, below]
  apart := holds.apart
  busy wait member := by
    have busy := holds.busy wait member
    rw [find_change conns token wait.conn change same]
    split
    next here =>
      rcases keeps with kept | other
      · rw [Option.map_map, ← busy]
        congr 1
        funext conn
        exact (kept conn).1
      · exact absurd here (other wait member)
    next => exact busy
  armed wait member := by
    have armed := holds.armed wait member
    rw [find_change conns token wait.conn change same]
    split
    next here =>
      rcases keeps with kept | other
      · rw [Option.map_map, ← armed]
        congr 1
        funext conn
        exact (kept conn).2
      · exact absurd here (other wait (List.mem_append_left _ member))
    next => exact armed

theorem disarm (holds : ConnsHold conns tokens waits answers) {token : Token} (apart : ∀ wait ∈ waits, wait.conn ≠ token) :
    ConnsHold (conns.map fun conn => if conn.token = token then { conn with armed := false } else conn) tokens waits
      answers where
  tokens conn member := by
    obtain ⟨old, inside, rfl⟩ := List.mem_map.1 member
    have below := holds.tokens old inside
    split <;> exact below
  apart := holds.apart
  busy wait member := by
    have busy := holds.busy wait member
    rw [find_change conns token wait.conn (fun conn => { conn with armed := false }) fun _ => rfl]
    split
    next =>
      rw [Option.map_map]
      exact busy
    next => exact busy
  armed wait member := by
    rw [find_change conns token wait.conn (fun conn => { conn with armed := false }) fun _ => rfl, if_neg (apart wait member)]
    exact holds.armed wait member

theorem accept (holds : ConnsHold conns tokens waits answers) (conn : Conn) (new : conn.token = tokens) :
    ConnsHold (conns ++ [conn]) (tokens + 1) waits answers := by
  have found : ∀ wait ∈ waits ++ answers.map Prod.fst, find (conns ++ [conn]) wait.conn = find conns wait.conn := by
    intro wait member
    have busy := holds.busy wait member
    obtain ⟨there, here, -⟩ := Option.map_eq_some_iff.1 busy
    unfold find at here ⊢
    rw [List.find?_append, here]
    rfl
  refine ⟨fun other member => ?_, holds.apart, fun wait member => ?_, fun wait member => ?_⟩
  · rcases List.mem_append.1 member with old | last
    · exact Nat.lt_succ_of_lt (holds.tokens other old)
    · obtain rfl := List.mem_singleton.1 last
      exact Nat.lt_succ_of_le (Nat.le_of_eq new)
  · rw [found wait member]
    exact holds.busy wait member
  · rw [found wait (List.mem_append_left _ member)]
    exact holds.armed wait member

theorem release (holds : ConnsHold conns tokens waits answers) (matching : Wait → Bool) (outcome : Outcomes) :
    ConnsHold conns tokens (waits.filter fun wait => !matching wait)
      ((waits.filter matching).map (fun wait => (wait, outcome)) ++ answers) := by
  have same : (waits.filter (fun wait => !matching wait) ++
      ((waits.filter matching).map (fun wait => (wait, outcome)) ++ answers).map Prod.fst).Perm
        (waits ++ answers.map Prod.fst) := by
    rw [List.map_append, List.map_map, ← List.append_assoc]
    refine .append_right _ ?_
    have whole : (waits.filter matching).map (Prod.fst ∘ fun wait => (wait, outcome)) = waits.filter matching :=
      List.map_id _
    rw [whole]
    exact List.perm_append_comm.trans (List.filter_append_perm matching waits)
  refine ⟨holds.tokens, ?_, fun wait member => holds.busy wait (same.mem_iff.1 member), fun wait member => ?_⟩
  · exact (same.map Wait.conn).nodup_iff.2 holds.apart
  · exact holds.armed wait (List.mem_filter.1 member).1

theorem idle (holds : ConnsHold conns tokens waits answers) {token : Token} {conn : Conn} (found : find conns token = some conn)
    (phase : conn.phase ≠ .handling) : ∀ wait ∈ waits ++ answers.map Prod.fst, wait.conn ≠ token := by
  rintro wait member rfl
  have busy := holds.busy wait member
  rw [found] at busy
  exact phase (Option.some.inj busy)

theorem hold (holds : ConnsHold conns tokens waits answers) {wait : Wait} {conn : Conn} (found : find conns wait.conn = some conn)
    (phase : conn.phase ≠ .handling) :
    ConnsHold (conns.map fun conn => if conn.token = wait.conn then { conn with phase := .handling, armed := true } else conn)
      tokens (waits ++ [wait]) answers := by
  have idle := holds.idle found phase
  have changed := holds.change wait.conn (fun conn => { conn with phase := .handling, armed := true })
    (fun _ => rfl) (.inr idle)
  have more : (waits ++ [wait] ++ answers.map Prod.fst).Perm (wait :: (waits ++ answers.map Prod.fst)) := by
    rw [List.append_assoc]
    exact List.perm_middle
  have own := find_change conns wait.conn wait.conn (fun conn => { conn with phase := .handling, armed := true })
    (fun _ => rfl)
  rw [if_pos rfl, found] at own
  refine ⟨changed.tokens, ?_, fun other member => ?_, fun other member => ?_⟩
  · refine (more.map Wait.conn).nodup_iff.2 (List.nodup_cons.2 ⟨fun same => ?_, holds.apart⟩)
    obtain ⟨other, member, same⟩ := List.mem_map.1 same
    exact idle other member same
  · rcases List.mem_cons.1 (more.mem_iff.1 member) with rfl | old
    · rw [own]
      rfl
    · exact changed.busy other old
  · rcases List.mem_append.1 member with old | last
    · exact changed.armed other old
    · obtain rfl := List.mem_singleton.1 last
      rw [own]
      rfl

theorem answer {pending : Pending} (holds : ConnsHold conns tokens waits (pending :: answers)) :
    ConnsHold conns tokens waits answers ∧ ∀ wait ∈ waits ++ answers.map Prod.fst, wait.conn ≠ pending.1.conn := by
  have more : (waits ++ (pending :: answers).map Prod.fst).Perm (pending.1 :: (waits ++ answers.map Prod.fst)) :=
    List.perm_middle
  have apart := List.nodup_cons.1 ((more.map Wait.conn).nodup_iff.1 holds.apart)
  refine ⟨⟨holds.tokens, apart.2, fun wait member => holds.busy wait (more.mem_iff.2 (.tail _ member)), holds.armed⟩, ?_⟩
  rintro wait member same
  exact apart.1 (same ▸ List.mem_map_of_mem member)

theorem gone (holds : ConnsHold conns tokens waits []) (token : Token) :
    ConnsHold (conns.filter fun conn => !Decidable.decide (conn.token = token)) tokens
      (waits.filter fun wait => !Decidable.decide (wait.conn = token)) [] := by
  have apart : ∀ wait ∈ waits.filter (fun wait => !Decidable.decide (wait.conn = token)), wait ∈ waits ∧ wait.conn ≠ token := by
    intro wait member
    obtain ⟨inside, other⟩ := List.mem_filter.1 member
    exact ⟨inside, by simpa using other⟩
  refine ⟨fun conn member => holds.tokens conn (List.mem_filter.1 member).1, ?_, fun wait member => ?_, fun wait member => ?_⟩
  · have once := holds.apart
    rw [List.map_nil, List.append_nil] at once ⊢
    exact once.sublist (List.filter_sublist.map _)
  · rw [List.map_nil, List.append_nil] at member
    obtain ⟨inside, other⟩ := apart wait member
    rw [find_remove conns other]
    exact holds.busy wait (List.mem_append_left _ inside)
  · obtain ⟨inside, other⟩ := apart wait member
    rw [find_remove conns other]
    exact holds.armed wait inside

end ConnsHold

-- Every inbox is in order, every post that is held is written to a stream and not settled, and a pane that is about to go
-- has no stream.
structure PanesHold (panes : PaneId → Option Pane) (waits : List Wait) (drops : List PaneId) : Prop where
  inboxes : ∀ pane found, panes pane = some found → Ordered found.inbox
  written : ∀ wait ∈ waits, ∃ found, panes wait.pane = some found ∧ WrittenIn found.inbox wait.id
  dropping : ∀ pane ∈ drops, ∀ found, panes pane = some found → found.inbox.stream = none

namespace PanesHold

variable {panes : PaneId → Option Pane} {waits : List Wait} {drops : List PaneId}

theorem start : PanesHold (fun _ => none) [] [] :=
  ⟨by simp, by simp, by simp⟩

theorem less (holds : PanesHold panes waits drops) {others : List Wait} {fewer : List PaneId}
    (waiting : ∀ wait ∈ others, wait ∈ waits) (dropping : ∀ pane ∈ fewer, pane ∈ drops) : PanesHold panes others fewer :=
  ⟨holds.inboxes, fun wait member => holds.written wait (waiting wait member),
    fun pane member => holds.dropping pane (dropping pane member)⟩

theorem change (holds : PanesHold panes waits drops) {pane : PaneId} {found changed : Pane} (here : panes pane = some found)
    (ordered : Ordered changed.inbox)
    (written : ∀ wait ∈ waits, wait.pane = pane → WrittenIn found.inbox wait.id → WrittenIn changed.inbox wait.id)
    (stream : pane ∈ drops → found.inbox.stream = none → changed.inbox.stream = none) :
    PanesHold (Function.update panes pane (some changed)) waits drops := by
  refine ⟨fun other after same => ?_, fun wait member => ?_, fun other member after same => ?_⟩
  · by_cases own : other = pane
    · subst own
      rw [Function.update_self] at same
      cases same
      exact ordered
    · rw [Function.update_of_ne own] at same
      exact holds.inboxes other after same
  · obtain ⟨old, there, was⟩ := holds.written wait member
    by_cases own : wait.pane = pane
    · refine ⟨changed, by rw [own, Function.update_self], written wait member own ?_⟩
      rw [own, here] at there
      cases there
      exact was
    · exact ⟨old, by rw [Function.update_of_ne own]; exact there, was⟩
  · by_cases own : other = pane
    · subst own
      rw [Function.update_self] at same
      cases same
      exact stream member (holds.dropping other member found here)
    · rw [Function.update_of_ne own] at same
      exact holds.dropping other member after same

theorem follows (holds : PanesHold panes waits drops) {pane : PaneId} {found changed : Pane} (here : panes pane = some found)
    (ordered : Ordered changed.inbox) (follows : Follows found.inbox changed.inbox) :
    PanesHold (Function.update panes pane (some changed)) waits drops :=
  holds.change here ordered (fun _ _ _ written => follows.written _ written) fun _ closed => follows.stream.trans closed

theorem drop (holds : PanesHold panes waits drops) {pane : PaneId} (dropped : pane ∈ drops) :
    PanesHold (Function.update panes pane none) waits drops := by
  refine ⟨fun other after same => ?_, fun wait member => ?_, fun other member after same => ?_⟩
  · by_cases own : other = pane
    · rw [own, Function.update_self] at same
      cases same
    · rw [Function.update_of_ne own] at same
      exact holds.inboxes other after same
  · obtain ⟨found, there, written⟩ := holds.written wait member
    have apart : wait.pane ≠ pane := by
      rintro rfl
      exact (holds.inboxes _ found there).streams written (holds.dropping _ dropped found there)
    exact ⟨found, by rw [Function.update_of_ne apart]; exact there, written⟩
  · by_cases own : other = pane
    · rw [own, Function.update_self] at same
      cases same
    · rw [Function.update_of_ne own] at same
      exact holds.dropping other member after same

theorem closed (holds : PanesHold panes waits drops) {pane : PaneId} {found changed : Pane} (here : panes pane = some found)
    (ordered : Ordered changed.inbox) (closed : changed.inbox.stream = none) :
    PanesHold (Function.update panes pane (some changed)) (waits.filter fun wait => !decide (wait.pane = pane))
      (pane :: drops) := by
  have less : PanesHold panes (waits.filter fun wait => !decide (wait.pane = pane)) drops :=
    holds.less (fun wait member => (List.mem_filter.1 member).1) fun _ member => member
  have after := less.change here ordered (fun wait member own _ => ?_) fun _ _ => closed
  · refine ⟨after.inboxes, after.written, fun other member left same => ?_⟩
    rcases List.mem_cons.1 member with rfl | old
    · rw [Function.update_self] at same
      cases same
      exact closed
    · exact after.dropping other old left same
  · have other := (List.mem_filter.1 member).2
    simp [own] at other

theorem absent (holds : PanesHold panes waits drops) {pane : PaneId} (absent : panes pane = none) :
    PanesHold panes (waits.filter fun wait => !decide (wait.pane = pane)) (pane :: drops) := by
  refine ⟨holds.inboxes, fun wait member => holds.written wait (List.mem_filter.1 member).1, fun other member found here => ?_⟩
  rcases List.mem_cons.1 member with rfl | old
  · rw [absent] at here
    cases here
  · exact holds.dropping other old found here

theorem birth (holds : PanesHold panes waits drops) {pane : PaneId} (absent : panes pane = none) :
    PanesHold (Function.update panes pane (some ⟨false, .default⟩)) waits drops := by
  refine ⟨fun other found same => ?_, fun wait member => ?_, fun other member found same => ?_⟩
  · by_cases own : other = pane
    · subst own
      rw [Function.update_self] at same
      cases same
      exact ⟨Inbox.default_books, Inbox.default_places⟩
    · rw [Function.update_of_ne own] at same
      exact holds.inboxes other found same
  · obtain ⟨found, there, written⟩ := holds.written wait member
    have apart : wait.pane ≠ pane := by
      rintro rfl
      rw [absent] at there
      cases there
    exact ⟨found, by rw [Function.update_of_ne apart]; exact there, written⟩
  · by_cases own : other = pane
    · subst own
      rw [Function.update_self] at same
      cases same
      rfl
    · rw [Function.update_of_ne own] at same
      exact holds.dropping other member found same

end PanesHold

end Kido.Posting
