set_option autoImplicit false

namespace Kido.Children

variable {Role Exit : Type}

inductive Act (Role Exit : Type) where
  | spawned (pid : Nat) (role : Role) (args : List String)
  -- No exit: the child was running.
  | waited (pid : Nat) (exit : Option Exit)
  | signalled (pid : Nat)

-- The last act comes first. Every child has a number of its own.
structure Processes (Role Exit : Type) where
  next : Nat
  acts : List (Act Role Exit)

inductive Status where
  | absent
  | alive
  | ended
  -- Waited for or signalled while it was not there.
  | misused
deriving DecidableEq

def Act.pid : Act Role Exit → Nat
  | .spawned pid .. => pid
  | .waited pid _ => pid
  | .signalled pid => pid

def Status.after (status : Status) : Act Role Exit → Status
  | .spawned .. => if status = .absent then .alive else .misused
  | .waited _ none => if status = .alive then .alive else .misused
  | .waited _ (some _) => if status = .alive then .ended else .misused
  | .signalled _ => if status = .alive then .alive else .misused

def statusIn (pid : Nat) : List (Act Role Exit) → Status
  | [] => .absent
  | act :: before => if act.pid = pid then (statusIn pid before).after act else statusIn pid before

-- What a child was spawned as.
def roleIn (pid : Nat) : List (Act Role Exit) → Option Role
  | [] => none
  | .spawned other role _ :: before => if other = pid then some role else roleIn pid before
  | _ :: before => roleIn pid before

namespace Processes

def new : Processes Role Exit := ⟨0, []⟩

def status (processes : Processes Role Exit) (pid : Nat) : Status := statusIn pid processes.acts

def role (processes : Processes Role Exit) (pid : Nat) : Option Role := roleIn pid processes.acts

def spawn (processes : Processes Role Exit) (role : Role) (args : List String) : Processes Role Exit :=
  ⟨processes.next + 1, .spawned processes.next role args :: processes.acts⟩

def waited (processes : Processes Role Exit) (pid : Nat) (exit : Option Exit) : Processes Role Exit :=
  { processes with acts := .waited pid exit :: processes.acts }

def signal (processes : Processes Role Exit) (pid : Nat) : Processes Role Exit :=
  { processes with acts := .signalled pid :: processes.acts }

-- A signal that ends the child, and the wait for it.
def kill (processes : Processes Role Exit) (pid : Nat) (exit : Exit) : Processes Role Exit :=
  (processes.signal pid).waited pid (some exit)

-- The children with these roles live, and every other one that was spawned has ended.
structure Tracked (live : Nat → Role → Prop) (processes : Processes Role Exit) : Prop where
  alive : ∀ pid role, live pid role → processes.status pid = .alive ∧ processes.role pid = some role
  ended : ∀ pid, (∀ role, ¬ live pid role) → pid < processes.next → processes.status pid = .ended
  absent : ∀ pid, processes.next ≤ pid → processes.status pid = .absent

variable {live : Nat → Role → Prop} {processes : Processes Role Exit}

theorem tracked_new : Tracked (fun _ _ => False) (new : Processes Role Exit) :=
  ⟨nofun, fun _ _ below => absurd below (Nat.not_lt_zero _), fun _ _ => rfl⟩

theorem Tracked.below (tracked : Tracked live processes) {pid : Nat} {role : Role} (lives : live pid role) : pid < processes.next := by
  apply Nat.lt_of_not_le
  intro above
  have alive := (tracked.alive pid role lives).1
  rw [tracked.absent pid above] at alive
  cases alive

theorem Tracked.same (tracked : Tracked live processes) {other : Nat → Role → Prop} (same : ∀ pid role, other pid role ↔ live pid role) :
    Tracked other processes := by
  constructor
  case alive =>
    intro pid role lives
    exact tracked.alive pid role ((same pid role).mp lives)
  case ended =>
    intro pid none below
    exact tracked.ended pid (fun role lives => none role ((same pid role).mpr lives)) below
  case absent => exact tracked.absent

theorem Tracked.spawn (tracked : Tracked live processes) (role : Role) (args : List String) :
    Tracked (fun pid other => live pid other ∨ pid = processes.next ∧ other = role) (processes.spawn role args) := by
  constructor
  case alive =>
    rintro pid other (lives | ⟨rfl, rfl⟩)
    · have distinct : processes.next ≠ pid := Nat.ne_of_gt (tracked.below lives)
      simpa [status, Processes.role, Processes.spawn, statusIn, roleIn, Act.pid, distinct] using tracked.alive pid other lives
    · have absent := tracked.absent processes.next (Nat.le_refl _)
      simp only [status] at absent
      simp [status, Processes.role, Processes.spawn, statusIn, roleIn, Act.pid, Status.after, absent]
  case ended =>
    intro pid none below
    have distinct : processes.next ≠ pid := fun same => none role (.inr ⟨same.symm, rfl⟩)
    have ended := tracked.ended pid (fun other lives => none other (.inl lives)) (by simp only [Processes.spawn] at below; omega)
    simpa [status, Processes.spawn, statusIn, Act.pid, distinct] using ended
  case absent =>
    intro pid above
    simp only [Processes.spawn] at above
    have distinct : processes.next ≠ pid := by omega
    simpa [status, Processes.spawn, statusIn, Act.pid, distinct] using tracked.absent pid (by omega)

-- The child was seen running, or was signalled.
theorem Tracked.touched (tracked : Tracked live processes) {pid : Nat} {role : Role} (lives : live pid role) (act : Act Role Exit)
    (same : act.pid = pid) (keeps : Status.alive.after act = .alive) (roles : ∀ other, roleIn other (act :: processes.acts) = processes.role other) :
    Tracked live { processes with acts := act :: processes.acts } := by
  have status_ (other : Nat) : statusIn other (act :: processes.acts) = processes.status other := by
    simp only [statusIn, same]
    split
    next other =>
      subst other
      have alive : statusIn pid processes.acts = .alive := (tracked.alive pid role lives).1
      rw [alive, keeps]
      exact alive.symm
    next => rfl
  constructor
  case alive =>
    intro other role lives
    exact ⟨(status_ other).trans (tracked.alive other role lives).1, (roles other).trans (tracked.alive other role lives).2⟩
  case ended =>
    intro other none below
    exact (status_ other).trans (tracked.ended other none below)
  case absent =>
    intro other above
    exact (status_ other).trans (tracked.absent other above)

theorem Tracked.running (tracked : Tracked live processes) {pid : Nat} {role : Role} (lives : live pid role) :
    Tracked live (processes.waited pid none) := tracked.touched lives _ rfl rfl fun _ => rfl

theorem Tracked.signal (tracked : Tracked live processes) {pid : Nat} {role : Role} (lives : live pid role) :
    Tracked live (processes.signal pid) := tracked.touched lives _ rfl rfl fun _ => rfl

theorem Tracked.ends (tracked : Tracked live processes) {pid : Nat} {role : Role} (lives : live pid role) (exit : Exit) :
    Tracked (fun other role => live other role ∧ other ≠ pid) (processes.waited pid (some exit)) := by
  have alive := (tracked.alive pid role lives).1
  have kept (other : Nat) (distinct : other ≠ pid) : (processes.waited pid (some exit)).status other = processes.status other := by
    simp [status, waited, statusIn, Act.pid, Ne.symm distinct]
  constructor
  case alive =>
    rintro other role ⟨lives, distinct⟩
    exact ⟨(kept other distinct).trans (tracked.alive other role lives).1, (tracked.alive other role lives).2⟩
  case ended =>
    intro other none below
    by_cases same : other = pid
    · subst same
      simp only [status] at alive
      simp [status, waited, statusIn, Act.pid, Status.after, alive]
    · rw [kept other same]
      exact tracked.ended other (fun role lives => none role ⟨lives, same⟩) below
  case absent =>
    intro other above
    have below := tracked.below lives
    have distinct : other ≠ pid := fun same => Nat.not_le_of_lt below (same ▸ above)
    rw [kept other distinct]
    exact tracked.absent other above

theorem Tracked.kill (tracked : Tracked live processes) {pid : Nat} {role : Role} (lives : live pid role) (exit : Exit) :
    Tracked (fun other role => live other role ∧ other ≠ pid) (processes.kill pid exit) := (tracked.signal lives).ends lives exit

-- What lives is all that lives.
theorem Tracked.lives (tracked : Tracked live processes) {pid : Nat} (alive : processes.status pid = .alive) : ∃ role, live pid role := by
  apply Classical.byContradiction
  intro none
  have none (role : Role) : ¬ live pid role := fun lives => none ⟨role, lives⟩
  rcases Nat.lt_or_ge pid processes.next with below | above
  · rw [tracked.ended pid none below] at alive
    cases alive
  · rw [tracked.absent pid above] at alive
    cases alive

theorem Tracked.well (tracked : Tracked live processes) (pid : Nat) : processes.status pid ≠ .misused := by
  intro misused
  by_cases lives : ∃ role, live pid role
  · obtain ⟨role, lives⟩ := lives
    rw [(tracked.alive pid role lives).1] at misused
    cases misused
  · have none (role : Role) : ¬ live pid role := fun is => lives ⟨role, is⟩
    rcases Nat.lt_or_ge pid processes.next with below | above
    · rw [tracked.ended pid none below] at misused
      cases misused
    · rw [tracked.absent pid above] at misused
      cases misused

end Processes

end Kido.Children
