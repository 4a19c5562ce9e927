import Kido.Posts.Held

set_option autoImplicit false

namespace Kido.Posting

open Kido.Mailing Kido.Shared

def Item.pending? : Item → Option Pending
  | .answer wait outcome => some (wait, outcome)
  | _ => none

def Item.drops? : Item → Option PaneId
  | .dropPane pane => some pane
  | _ => none

def answering (work : List Item) : List Pending := work.filterMap Item.pending?

def dropping (work : List Item) : List PaneId := work.filterMap Item.drops?

theorem answering_append (first second : List Item) : answering (first ++ second) = answering first ++ answering second :=
  List.filterMap_append

theorem dropping_append (first second : List Item) : dropping (first ++ second) = dropping first ++ dropping second :=
  List.filterMap_append

theorem answering_answers (waits : List Wait) (outcome : Outcomes) :
    answering (waits.map fun wait => .answer wait outcome) = waits.map fun wait => (wait, outcome) := by
  rw [answering, List.filterMap_map]
  exact List.filterMap_eq_map.symm ▸ rfl

theorem dropping_answers (waits : List Wait) (outcome : Outcomes) :
    dropping (waits.map fun wait => .answer wait outcome) = [] := by
  rw [dropping, List.filterMap_map]
  exact List.filterMap_eq_nil_iff.2 fun _ _ => rfl

namespace World

structure Sound (world : World) : Prop where
  posts : ∃ courses, PostsHold courses world.log world.posts world.waits (answering world.work)
  conns : ConnsHold world.conns world.tokens world.waits (answering world.work)
  panes : PanesHold world.panes world.waits (dropping world.work)

variable {world : World}

theorem start_sound : start.Sound := ⟨⟨_, .start⟩, .start, .start⟩

theorem Sound.push (sound : world.Sound) (items : List Item) (answers : answering items = []) (drops : dropping items = []) :
    (world.push items).Sound := by
  have same : answering (items ++ world.work) = answering world.work := by rw [answering_append, answers, List.nil_append]
  have none_ : dropping (items ++ world.work) = dropping world.work := by rw [dropping_append, drops, List.nil_append]
  exact ⟨same.symm ▸ sound.posts, same.symm ▸ sound.conns, none_.symm ▸ sound.panes⟩

theorem Sound.withConn (sound : world.Sound) (token : Token) (change : Conn → Conn)
    (same : ∀ conn, (change conn).token = conn.token)
    (keeps : (∀ conn, (change conn).phase = conn.phase ∧ (change conn).armed = conn.armed) ∨
      ∀ wait ∈ world.waits ++ (answering world.work).map Prod.fst, wait.conn ≠ token) : (world.withConn token change).Sound :=
  ⟨sound.posts, sound.conns.change token change same keeps, sound.panes⟩

theorem Sound.flushMessages (sound : world.Sound) (pane : PaneId) : (world.flushMessages pane).Sound := by
  unfold World.flushMessages
  split
  next => exact sound
  next token streams =>
    split
    next stream connected =>
      unfold withInbox
      split
      next found here =>
        obtain ⟨ordered, follows⟩ := written_ordered window (sound.panes.inboxes pane found here)
        exact ⟨sound.posts, sound.conns, sound.panes.follows here ordered follows⟩
      next => exact sound
    next => exact sound

theorem Sound.answerWaits (sound : world.Sound) {fact : Fact} {matching : Wait → Bool} {outcome : Outcomes} {after : List Item}
    (plain : ∀ own course, Course.next own course fact = some (course.turn fact))
    (decides : ∀ wait, fact.outcome? wait = if matching wait then some outcome else none)
    (keeps : ∀ wait, fact.forgets wait = false) (answers : answering after = [])
    {panes : PaneId → Option Pane} (left : PanesHold panes (world.waits.filter fun wait => !matching wait)
      (dropping after ++ dropping world.work)) :
    (({ world with panes := panes }.note fact).answerWaits matching outcome after).Sound := by
  have pending : answering ((world.waits.filter matching).map (fun wait => .answer wait outcome) ++ after ++ world.work) =
      (world.waits.filter matching).map (fun wait => (wait, outcome)) ++ answering world.work := by
    rw [answering_append, answering_append, answers, answering_answers, List.append_nil]
  have drops : dropping ((world.waits.filter matching).map (fun wait => .answer wait outcome) ++ after ++ world.work) =
      dropping after ++ dropping world.work := by
    rw [dropping_append, dropping_append, dropping_answers, List.nil_append]
  obtain ⟨courses, posts⟩ := sound.posts
  exact ⟨⟨_, pending.symm ▸ posts.turn plain decides keeps⟩, pending.symm ▸ sound.conns.release matching outcome,
    drops.symm ▸ left⟩

def Room (world : World) (pane : PaneId) : Prop :=
  ∀ found, world.panes pane = some found → found.inbox.last.value < Tiling.u64Max

-- What is left to chance: the numbers of the messages do not run out, and nobody opens the stream of a pane while the
-- posts that it held are answered on its way out.
def Allowed (world : World) : Op → Prop
  | .go =>
    match world.work with
    | .serve token :: _ =>
      match find world.conns token with
      | some ⟨_, .head, _, .post post :: _⟩ => world.Room post.target
      | some ⟨_, .head, _, .messages pane false :: _⟩ => .dropPane pane ∉ world.work
      | _ => True
    | .call (.tell pane _ _ _ _) :: _ => world.Room pane
    | _ => True
  | .call (.tell pane _ _ _ _) => world.Room pane
  | _ => True

theorem live_ok {pane : PaneId} {found : Pane} (live : world.live pane = .ok found) : world.panes pane = some found := by
  unfold World.live at live
  split at live
  next => cases live
  next other here =>
    split at live
    next => cases live
    next =>
      cases live
      exact here

theorem Sound.admit (sound : world.Sound) {pane : PaneId} {found : Pane} (here : world.panes pane = some found)
    (room : world.Room pane) (id : MessageId) (sender : Sender) (relation : Option Relation) (content : Content) :
    (world.withPane pane (some { found with inbox := (found.inbox.admitMessage id sender relation content).2 })).Sound := by
  have ordered := admit_ordered (sound.panes.inboxes pane found here) id sender relation content (room found here)
  exact ⟨sound.posts, sound.conns, sound.panes.follows here ordered (admit_follows found.inbox id sender relation content)⟩

theorem Sound.tell (sound : world.Sound) {pane : PaneId} (room : world.Room pane) (id : MessageId) (sender : Sender)
    (relation : Option Relation) (content : Content) : (world.tell pane id sender relation content).Sound := by
  unfold World.tell
  split
  next => exact sound
  next found live =>
    have admitted := sound.admit (live_ok live) room id sender relation content
    dsimp only
    split
    next => exact admitted.flushMessages pane
    next => exact admitted

theorem Sound.hold (sound : world.Sound) {wait : Wait} {conn : Conn} (found : find world.conns wait.conn = some conn)
    (phase : conn.phase ≠ .handling) (new : wait.post = world.posts) {pane : Pane}
    (here : world.panes wait.pane = some pane) (written : WrittenIn pane.inbox wait.id) :
    (world.hold wait.conn wait).Sound := by
  obtain ⟨courses, posts⟩ := sound.posts
  refine ⟨⟨_, posts.hold new⟩, sound.conns.hold found phase, sound.panes.inboxes, fun other member => ?_, sound.panes.dropping⟩
  rcases List.mem_append.1 member with old | last
  · exact sound.panes.written other old
  · obtain rfl := List.mem_singleton.1 last
    exact ⟨pane, here, written⟩

theorem flushMessages_conns (pane : PaneId) : (world.flushMessages pane).conns = world.conns := by
  unfold World.flushMessages withInbox
  repeat' split
  all_goals rfl

theorem Sound.admitPost (sound : world.Sound) {post : Post} {pane : Pane} (here : world.panes post.target = some pane)
    (room : world.Room post.target) :
    (world.admitPost pane post).2.Sound ∧ (world.admitPost pane post).2.conns = world.conns := by
  have admitted := sound.admit here room post.id post.sender post.relation post.content
  unfold World.admitPost
  dsimp only
  split
  next => exact ⟨admitted.flushMessages post.target, flushMessages_conns _⟩
  next => exact ⟨admitted, rfl⟩

theorem Sound.answerSeen (sound : world.Sound) {token : Token} {conn : Conn} (found : find world.conns token = some conn)
    (phase : conn.phase ≠ .handling) (post : Post) (duplicate : Bool) :
    (world.answerSeen token post duplicate).2.Sound := by
  unfold World.answerSeen
  split
  iterate 4 next => exact sound
  next seq delivered =>
    obtain ⟨pane, here, seen⟩ := Option.bind_eq_some_iff.1 delivered
    have written := (sound.panes.inboxes _ pane here).delivered seen
    exact @Sound.hold _ sound ⟨world.posts, token, post.target, post.id, seq, duplicate⟩ _ found phase rfl _ here written

theorem Sound.submit (sound : world.Sound) {token : Token} {conn : Conn} (found : find world.conns token = some conn)
    (phase : conn.phase ≠ .handling) {post : Post} (room : world.Room post.target) : (world.submit token post).2.Sound := by
  unfold World.submit
  split
  next => exact sound
  next =>
    split
    next => exact sound
    next pane live =>
      obtain ⟨admitted, conns⟩ := sound.admitPost (live_ok live) room
      split
      next after same => rw [same] at admitted; exact admitted
      next seq after same =>
        rw [same] at admitted conns
        exact admitted.answerSeen (conns ▸ found) phase post false
      next seen after same =>
        rw [same] at admitted conns
        exact admitted.answerSeen (conns ▸ found) phase post true

theorem Sound.openStream (sound : world.Sound) {token : Token} {conn : Conn} (found : find world.conns token = some conn)
    (phase : conn.phase ≠ .handling) {pane : PaneId} (denied : Bool) (stays : denied = false → pane ∉ dropping world.work) :
    (world.openStream token pane denied).Sound := by
  unfold World.openStream
  split
  next other live =>
    split
    next => exact sound
    next none_ =>
      have connected := sound.withConn token (fun conn => { conn with phase := .stream pane }) (fun _ => rfl)
        (.inr (sound.conns.idle found phase))
      apply Sound.flushMessages
      have here := live_ok live
      unfold withInbox
      rw [show (world.withConn token _).panes pane = some other from here]
      refine ⟨connected.posts, connected.conns, connected.panes.change here ?_ (fun wait member own written => ?_)
        fun member => absurd member (stays rfl)⟩
      · exact openStream_ordered (sound.panes.inboxes pane other here) token
      · exact absurd none_ ((sound.panes.inboxes pane other here).streams written)
  next => exact sound

theorem Sound.streamText (sound : world.Sound) (pane : PaneId) (id : MessageId) (outcome : Outcome) :
    (world.streamText pane id outcome).Sound := by
  unfold World.streamText
  split
  next => exact sound
  next found here =>
    split
    next seq inbox settled =>
      have ordered := sound.panes.inboxes pane found here
      have after := settle_ordered ordered id outcome
      rw [settled] at after
      obtain ⟨stream, written⟩ := settle_written ordered settled
      have less : PanesHold world.panes
          (world.waits.filter fun wait => !decide (wait.pane = pane ∧ wait.id = id)) (dropping world.work) :=
        sound.panes.less (fun wait member => (List.mem_filter.1 member).1) fun _ member => member
      refine sound.answerWaits (fun _ _ => rfl) (fun wait => ?_) (fun _ => rfl) rfl
        (less.change here after (fun wait member own was => written wait.id ?_ was) fun _ closed => stream.trans closed)
      · simp only [Fact.outcome?, decide_eq_true_eq]
      · intro same
        have other := (List.mem_filter.1 member).2
        simp [own, same] at other
    next => exact sound

theorem Sound.answer {wait : Wait} {outcome : Outcomes} {rest : List Item} (sound : world.Sound)
    (first : world.work = .answer wait outcome :: rest) : ({ world with work := rest }.answer wait outcome).Sound := by
  have pending : answering world.work = (wait, outcome) :: answering rest := by rw [first]; rfl
  have drops : dropping world.work = dropping rest := by rw [first]; rfl
  obtain ⟨courses, posts⟩ := sound.posts
  have conns := sound.conns
  have panes := sound.panes
  rw [pending] at posts conns
  rw [drops] at panes
  obtain ⟨left, idle⟩ := conns.answer
  have told : (({ world with work := rest }.withConn wait.conn fun conn => { conn with armed := false }).note
      (.answered wait.post (wait.answered outcome))).Sound :=
    ⟨⟨_, posts.answer⟩, left.change wait.conn _ (fun _ => rfl) (.inr idle), panes⟩
  have busy := conns.busy wait (List.mem_append_right _ (.head _))
  obtain ⟨conn, found, -⟩ := Option.map_eq_some_iff.1 busy
  unfold World.answer
  have there : ({ world with work := rest } : World).conn? wait.conn = some conn := found
  rw [there]
  dsimp only
  split
  next => exact (told.withConn wait.conn (fun conn => { conn with phase := .head }) (fun _ => rfl) (.inr idle)).push _ rfl rfl
  next => exact told

theorem Sound.paneEnded (sound : world.Sound) (pane : PaneId) {after : List Item} (answers : answering after = [])
    (drops : ∀ other ∈ dropping after, other = pane) : (world.paneEnded pane after).Sound := by
  have decides : ∀ wait : Wait, (Fact.ended pane).outcome? wait =
      if decide (wait.pane = pane) then some (.error (.dead pane)) else none := fun wait => by
    simp only [Fact.outcome?, decide_eq_true_eq]
  have within : ∀ other ∈ dropping after ++ dropping world.work, other ∈ pane :: dropping world.work := by
    intro other member
    rcases List.mem_append.1 member with new | old
    · rw [drops other new]
      exact .head _
    · exact .tail _ old
  unfold World.paneEnded withInbox
  cases here : world.panes pane with
  | some found =>
    have cleared := @PanesHold.closed _ _ _ sound.panes pane found { found with inbox := found.inbox.clear.2 } here
      ⟨found.inbox.clear_books, found.inbox.clear_places⟩ rfl
    exact sound.answerWaits (fun _ _ => rfl) decides (fun _ => rfl) answers (cleared.less (fun _ member => member) within)
  | none =>
    exact sound.answerWaits (fun _ _ => rfl) decides (fun _ => rfl) answers
      ((sound.panes.absent here).less (fun _ member => member) within)

theorem Sound.perform (sound : world.Sound) (call : Call)
    (room : ∀ pane id sender relation content, call = .tell pane id sender relation content → world.Room pane) :
    (world.perform call).Sound := by
  cases call with
  | birth pane =>
    unfold World.perform
    dsimp only
    split
    next absent => exact ⟨sound.posts, sound.conns, sound.panes.birth (Option.isNone_iff_eq_none.1 absent)⟩
    next => exact sound
  | die pane =>
    unfold World.perform
    dsimp only
    split
    next found here =>
      exact ⟨sound.posts, sound.conns, sound.panes.follows here (sound.panes.inboxes pane found here) (.refl _)⟩
    next => exact sound
  | ended pane =>
    unfold World.perform
    dsimp only
    split
    next =>
      split
      · exact sound.push _ rfl rfl
      · exact sound
    next => exact sound
  | remove pane => exact sound.push _ rfl rfl
  | tell pane id sender relation content => exact sound.tell (room _ _ _ _ _ rfl) id sender relation content

theorem Sound.serve (sound : world.Sound) (token : Token)
    (room : ∀ conn post rest, find world.conns token = some conn → conn.phase = .head → conn.buffered = .post post :: rest →
      world.Room post.target)
    (stays : ∀ conn pane rest, find world.conns token = some conn → conn.phase = .head →
      conn.buffered = .messages pane false :: rest → pane ∉ dropping world.work) : (world.serve token).Sound := by
  unfold World.serve
  split
  next => exact sound
  next conn found =>
    split
    next => exact sound
    next => exact sound
    next phase input rest buffered busy =>
      have taken := sound.withConn token (fun conn => { conn with buffered := conn.buffered.tail }) (fun _ => rfl)
        (.inl fun _ => ⟨rfl, rfl⟩)
      have there : find (world.withConn token fun conn => { conn with buffered := conn.buffered.tail }).conns token =
          some { conn with buffered := conn.buffered.tail } := by
        have changed := find_change world.conns token token (fun conn => { conn with buffered := conn.buffered.tail })
          fun _ => rfl
        rw [if_pos rfl, show find world.conns token = some conn from found] at changed
        exact changed
      dsimp only
      split
      next post phase_ =>
        have ran := taken.submit there (by simpa using busy) (room conn post rest found phase_ buffered)
        split
        next held same => rw [same] at ran; exact ran
        next answer replied same => rw [same] at ran; exact ran.push _ rfl rfl
      next pane denied phase_ =>
        refine (taken.openStream there (by simpa using busy) denied fun allowed => ?_).push _ rfl rfl
        subst allowed
        exact stays conn pane rest found phase_ buffered
      next calls =>
        have goOn := taken.push [.serve token] rfl rfl
        refine goOn.push _ ?_ ?_
        · exact List.filterMap_eq_nil_iff.2 fun item member => by
            obtain ⟨call, -, rfl⟩ := List.mem_map.1 member
            rfl
        · exact List.filterMap_eq_nil_iff.2 fun item member => by
            obtain ⟨call, -, rfl⟩ := List.mem_map.1 member
            rfl
      next => exact (taken.push [.serve token] rfl rfl).streamText _ _ _
      next => exact taken.push _ rfl rfl

theorem Sound.go (sound : world.Sound) (allowed : world.Allowed .go) : world.go.Sound := by
  unfold World.go
  split
  next => exact sound
  next item rest first =>
    have left (answers : item.pending? = none) (drops : item.drops? = none) : ({ world with work := rest } : World).Sound := by
      have same : answering world.work = answering rest := by
        rw [first, answering, List.filterMap_cons_none answers]
        rfl
      have none_ : dropping world.work = dropping rest := by
        rw [first, dropping, List.filterMap_cons_none drops]
        rfl
      exact ⟨same ▸ sound.posts, same ▸ sound.conns, none_ ▸ sound.panes⟩
    unfold Allowed at allowed
    rw [first] at allowed
    cases item with
    | serve token =>
      refine (left rfl rfl).serve token (fun conn post later found phase buffered => ?_)
        fun conn pane later found phase buffered inside => ?_
      all_goals
        obtain ⟨name, _, armed, _⟩ := conn
        cases phase
        cases buffered
        dsimp only at allowed
        rw [show find world.conns token = _ from found] at allowed
      · exact allowed
      · obtain ⟨item, member, drops⟩ := List.mem_filterMap.1 inside
        cases item <;> cases drops
        exact allowed (.tail _ member)
    | answer wait outcome => exact sound.answer first
    | flush pane => exact (left rfl rfl).flushMessages pane
    | call call =>
      refine (left rfl rfl).perform call fun pane id sender relation content same => ?_
      subst same
      exact allowed
    | endPane pane => exact (left rfl rfl).paneEnded pane rfl (by simp [dropping])
    | removePane pane => exact (left rfl rfl).paneEnded pane rfl (by simp [dropping, Item.drops?])
    | dropPane pane =>
      have drops : dropping world.work = pane :: dropping rest := by rw [first]; rfl
      have same : answering world.work = answering rest := by rw [first]; rfl
      have panes := sound.panes
      rw [drops] at panes
      exact ⟨same ▸ sound.posts, same ▸ sound.conns,
        (panes.drop (.head _)).less (fun _ member => member) fun _ member => .tail _ member⟩

theorem Sound.due (sound : world.Sound) (token : Token) : (world.due token).Sound := by
  unfold World.due
  split
  next => exact sound
  next conn found =>
    split
    next =>
      have decided : ({ world with panes := world.panes }.note (.due token)).answerWaits
          (fun wait => decide (wait.conn = token)) (.ok .delivered) [] |>.Sound :=
        sound.answerWaits (fun _ _ => rfl) (fun wait => by simp only [Fact.outcome?, decide_eq_true_eq]) (fun _ => rfl) rfl
          (sound.panes.less (fun wait member => (List.mem_filter.1 member).1) fun _ member => member)
      refine ⟨decided.posts, decided.conns.disarm fun wait member => ?_, decided.panes⟩
      simpa using (List.mem_filter.1 member).2
    next => exact sound

theorem Sound.gone (sound : world.Sound) (idle : world.work = []) (token : Token) : (world.gone token).Sound := by
  unfold World.gone
  split
  next => exact sound
  next conn found =>
    obtain ⟨courses, posts⟩ := sound.posts
    have conns := sound.conns
    have panes := sound.panes
    have none_ : answering world.work = [] := by rw [idle]; rfl
    rw [none_] at posts conns
    have left : Sound ({ world with
        conns := world.conns.filter fun conn => !decide (conn.token = token)
        waits := world.waits.filter fun wait => !decide (wait.conn = token) }.note (.gone token)) :=
      ⟨⟨_, none_.symm ▸ posts.gone token⟩, none_.symm ▸ conns.gone token,
        panes.less (fun wait member => (List.mem_filter.1 member).1) fun _ member => member⟩
    dsimp only
    split
    next pane phase =>
      split
      next => exact left
      next pane_ here =>
        split
        next inbox closed =>
          have ordered := close_ordered (left.panes.inboxes pane pane_ here) token
          rw [closed] at ordered
          have none_ : inbox.stream = none := by
            rcases pane_.inbox.close_cases token with same | ⟨fifo, -, same, -⟩
            · rw [same] at closed
              cases closed
            · rw [same] at closed
              cases closed
              rfl
          have after := @PanesHold.closed _ _ _ left.panes pane pane_ { pane_ with inbox := inbox } here ordered none_
          exact left.answerWaits (fun _ _ => rfl) (fun wait => by simp only [Fact.outcome?, decide_eq_true_eq])
            (fun _ => rfl) rfl (after.less (fun _ member => member) fun _ member => .tail _ member)
        next => exact left
    next => exact left

theorem Sound.step (sound : world.Sound) (op : Op) (allowed : world.Allowed op) : (world.step op).Sound := by
  unfold World.step
  split
  next => exact sound.go allowed
  next => exact ⟨sound.posts, sound.conns.accept _ rfl, sound.panes⟩
  next token input idle =>
    exact (sound.withConn token (fun conn => { conn with buffered := conn.buffered ++ [input] }) (fun _ => rfl)
      (.inl fun _ => ⟨rfl, rfl⟩)).push _ rfl rfl
  next token idle => exact sound.due token
  next token idle => exact sound.gone idle token
  next call idle =>
    refine sound.perform call fun pane id sender relation content same => ?_
    subst same
    exact allowed
  next => exact sound

theorem run_sound {ops : List Op} (allowed : AllAllowed step Allowed start ops) : (run step start ops).Sound :=
  @run_allowed _ _ step start Sound Allowed (fun _ op sound met => sound.step op met) ops start_sound allowed

end World

end Kido.Posting
