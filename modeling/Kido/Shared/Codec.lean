import Kido.Shared.Words

set_option autoImplicit false

namespace Kido.Shared

structure Writer (ε α : Type) where
  written : List UInt8
  result : Except ε α

namespace Writer

variable {ε α β : Type}

def ret (value : α) : Writer ε α := ⟨[], .ok value⟩

def andThen (first : Writer ε α) (next : α → Writer ε β) : Writer ε β :=
  match first.result with
  | .error error => ⟨first.written, .error error⟩
  | .ok value => ⟨first.written ++ (next value).written, (next value).result⟩

instance : Monad (Writer ε) where
  pure := ret
  bind := andThen

def fail (error : ε) : Writer ε α := ⟨[], .error error⟩

def append (bytes : List UInt8) : Writer ε Unit := ⟨bytes, .ok ⟨⟩⟩

theorem then_ret {write : Writer ε Unit} {value ended : α}
    (done : (write >>= fun _ => pure value).result = .ok ended) : ended = value := by
  change (write.andThen fun _ => ret value).result = _ at done
  unfold andThen at done
  split at done
  next => cases done
  next => exact (Except.ok.inj done).symm

def Writes (write : Writer ε α) (count : Nat) (value : α) : Prop :=
  write.result = .ok value ∧ write.written.length = count

theorem Writes.ret (value : α) : (pure value : Writer ε α).Writes 0 value := ⟨rfl, rfl⟩

theorem Writes.append (bytes : List UInt8) : (append bytes : Writer ε Unit).Writes bytes.length () := ⟨rfl, rfl⟩

theorem Writes.bind {first : Writer ε α} {next : α → Writer ε β} {count more : Nat} {value : α} {last : β}
    (one : first.Writes count value) (two : (next value).Writes more last) :
    (first >>= next).Writes (count + more) last := by
  have both : first.andThen next = ⟨first.written ++ (next value).written, (next value).result⟩ := by
    unfold andThen
    rw [one.1]
  change (first.andThen next).Writes _ _
  rw [both]
  exact ⟨two.1, by rw [List.length_append, one.2, two.2]⟩

end Writer

abbrev Reader (δ : Type) := StateT (List UInt8) (Except δ)

namespace Reader

variable {δ α β : Type}

def fail (error : δ) : Reader δ α := fun _ => .error error

def orFail (value : Option α) (error : δ) : Reader δ α :=
  match value with
  | some value => pure value
  | none => fail error

theorem bind_run {first : Reader δ α} {next : α → Reader δ β} {bytes rest : List UInt8} {value : α}
    (run : first bytes = .ok (value, rest)) : (first >>= next) bytes = next value rest := by
  change (first bytes >>= fun pair => next pair.1 pair.2) = _
  rw [run]
  rfl

theorem bind_ok {first : Reader δ α} {next : α → Reader δ β} {bytes rest : List UInt8} {value : β}
    (run : (first >>= next) bytes = .ok (value, rest)) :
    ∃ middle taken, first bytes = .ok (middle, taken) ∧ next middle taken = .ok (value, rest) := by
  change (first bytes >>= fun pair => next pair.1 pair.2) = _ at run
  cases ended : first bytes with
  | error error =>
    rw [ended] at run
    cases run
  | ok pair =>
    rw [ended] at run
    exact ⟨pair.1, pair.2, rfl, run⟩

-- What the reader takes is a front of the bytes, and it takes the same when other bytes follow.
def Local (read : Reader δ α) : Prop :=
  ∀ bytes value rest, read bytes = .ok (value, rest) →
    ∃ front, bytes = front ++ rest ∧ ∀ other, read (front ++ other) = .ok (value, other)

theorem Local.pure (value : α) : Local (Pure.pure value : Reader δ α) := by
  intro bytes other rest run
  cases run
  exact ⟨[], rfl, fun _ => rfl⟩

theorem Local.fail (error : δ) : Local (Reader.fail error : Reader δ α) := fun _ _ _ run => by cases run

theorem Local.bind {first : Reader δ α} {next : α → Reader δ β} (one : Local first) (two : ∀ value, Local (next value)) :
    Local (first >>= next) := by
  intro bytes value rest run
  obtain ⟨middle, taken, ran, ended⟩ := bind_ok run
  obtain ⟨front, rfl, same⟩ := one bytes middle taken ran
  obtain ⟨back, rfl, again⟩ := two middle taken value rest ended
  refine ⟨front ++ back, by simp, fun other => ?_⟩
  rw [List.append_assoc, bind_run (same _)]
  exact again other

end Reader

-- A writer that ends well ends with `value`, and the reader reads `result` from what it wrote and takes no more.
def Undoes {ε δ α β : Type} (read : Reader δ β) (result : β) (write : Writer ε α) (value : α) : Prop :=
  ∀ ended, write.result = .ok ended → ended = value ∧ ∀ rest, read (write.written ++ rest) = .ok (result, rest)

namespace Undoes

variable {ε δ α β γ κ : Type}

theorem pure (value : α) (result : β) :
    Undoes (Pure.pure result : Reader δ β) result (Pure.pure value : Writer ε α) value :=
  fun _ done => ⟨(Except.ok.inj done).symm, fun _ => rfl⟩

theorem append {read : Reader δ β} {result : β} {bytes : List UInt8}
    (reads : ∀ rest, read (bytes ++ rest) = .ok (result, rest)) :
    Undoes read result (Writer.append bytes : Writer ε Unit) () := fun _ _ => ⟨rfl, reads⟩

theorem stepWith {read : Reader δ β} {result : β} {write : Writer ε Unit} {readNext : β → Reader δ κ} {final : κ}
    {writeNext : Unit → Writer ε γ} {last : γ} (first : Undoes read result write ())
    (next : write.result = .ok () → Undoes (readNext result) final (writeNext ()) last) :
    Undoes (read >>= readNext) final (write >>= writeNext) last := by
  intro ended done
  change (write.andThen writeNext).result = _ at done
  change _ ∧ ∀ rest, (read >>= readNext) ((write.andThen writeNext).written ++ rest) = _
  unfold Writer.andThen at done ⊢
  split at done
  next => cases done
  next well =>
    obtain ⟨same, reads⟩ := next well ended done
    refine ⟨same, fun rest => ?_⟩
    rw [List.append_assoc, Reader.bind_run ((first () well).2 _)]
    exact reads rest

theorem step {read : Reader δ β} {result : β} {write : Writer ε Unit} {readNext : β → Reader δ κ} {final : κ}
    {writeNext : Unit → Writer ε γ} {last : γ} (first : Undoes read result write ())
    (next : Undoes (readNext result) final (writeNext ()) last) :
    Undoes (read >>= readNext) final (write >>= writeNext) last := first.stepWith fun _ => next

theorem thenRet {read : Reader δ β} {result : β} {write : Writer ε Unit} (value : γ) (undoes : Undoes read result write ()) :
    Undoes read result (write >>= fun _ => Pure.pure value) value := by
  have both : Undoes (read >>= Pure.pure) result (write >>= fun _ => Pure.pure value) value :=
    undoes.step (.pure value result)
  rwa [bind_pure] at both

theorem check {read : Reader δ β} {result : β} {write : Writer ε α} {value : α} {readNext : β → Reader δ κ} {final : κ}
    (first : Undoes read result write value) (next : ∀ rest, readNext result rest = .ok (final, rest)) :
    Undoes (read >>= readNext) final write value := by
  intro ended done
  obtain ⟨same, reads⟩ := first ended done
  refine ⟨same, fun rest => ?_⟩
  rw [Reader.bind_run (reads rest)]
  exact next rest

theorem silent {read : Reader δ β} {result : β} {write : Writer ε α} {value : α} {readNext : β → Reader δ κ} {final : κ}
    (takes : ∀ rest, read rest = .ok (result, rest)) (next : Undoes (readNext result) final write value) :
    Undoes (read >>= readNext) final write value := by
  intro ended done
  obtain ⟨same, reads⟩ := next ended done
  refine ⟨same, fun rest => ?_⟩
  rw [Reader.bind_run (takes _)]
  exact reads rest

theorem present {found : Option β} {result : β} {error : δ} {write : Writer ε α} {value : α}
    {readNext : β → Reader δ κ} {final : κ} (there : found = some result)
    (next : Undoes (readNext result) final write value) :
    Undoes (Reader.orFail found error >>= readNext) final write value :=
  silent (fun _ => by rw [there]; rfl) next

end Undoes

-- The reader fails on all that the writer writes when it ends well.
def Refuses {ε δ α β : Type} (read : Reader δ β) (error : δ) (write : Writer ε α) : Prop :=
  ∀ ended, write.result = .ok ended → ∀ rest, read (write.written ++ rest) = .error error

namespace Refuses

variable {ε δ α β γ κ : Type}

theorem step {read : Reader δ β} {result : β} {write : Writer ε Unit} {readNext : β → Reader δ κ} {error : δ}
    {writeNext : Unit → Writer ε γ} (first : Undoes read result write ())
    (next : write.result = .ok () → Refuses (readNext result) error (writeNext ())) :
    Refuses (read >>= readNext) error (write >>= writeNext) := by
  intro ended done rest
  change (write.andThen writeNext).result = _ at done
  change (read >>= readNext) ((write.andThen writeNext).written ++ rest) = _
  unfold Writer.andThen at done ⊢
  split at done
  next => cases done
  next well =>
    rw [List.append_assoc, Reader.bind_run ((first () well).2 _)]
    exact next well ended done rest

theorem check {read : Reader δ β} {result : β} {write : Writer ε α} {value : α} {readNext : β → Reader δ κ} {error : δ}
    (first : Undoes read result write value) (fails : ∀ rest, readNext result rest = .error error) :
    Refuses (read >>= readNext) error write := by
  intro ended done rest
  rw [Reader.bind_run ((first ended done).2 rest)]
  exact fails rest

theorem first {read : Reader δ β} {write : Writer ε Unit} {readNext : β → Reader δ κ} {error : δ}
    {writeNext : Unit → Writer ε γ} (refuses : Refuses read error write) :
    Refuses (read >>= readNext) error (write >>= writeNext) := by
  intro ended done rest
  change (write.andThen writeNext).result = _ at done
  change (read >>= readNext) ((write.andThen writeNext).written ++ rest) = _
  unfold Writer.andThen at done ⊢
  split at done
  next => cases done
  next well =>
    rw [List.append_assoc]
    change (read _ >>= fun pair => readNext pair.1 pair.2) = _
    rw [refuses () well]
    rfl

end Refuses

end Kido.Shared
