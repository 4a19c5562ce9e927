import Mathlib.Data.List.Flatten
import Mathlib.Data.List.Infix

set_option autoImplicit false

namespace Kido.Shared

universe u

variable {α : Type u}

-- The stream is whole messages of the list in their order, and then a part of the next one.
def Framed (stream : List α) (messages : List (List α)) : Prop :=
  ∃ whole part, stream = whole.flatten ++ part ∧
    (part = [] ∧ whole <+: messages ∨ ∃ last, whole ++ [last] <+: messages ∧ part <+: last)

theorem Framed.nil (messages : List (List α)) : Framed [] messages :=
  ⟨[], [], rfl, .inl ⟨rfl, List.nil_prefix⟩⟩

theorem Framed.cons {stream message : List α} {messages : List (List α)} (framed : Framed stream messages) :
    Framed (message ++ stream) (message :: messages) := by
  obtain ⟨whole, part, rfl, rest⟩ := framed
  refine ⟨message :: whole, part, by simp, ?_⟩
  rcases rest with ⟨none_, before⟩ | ⟨last, before, begun⟩
  · exact .inl ⟨none_, List.prefix_cons_inj message |>.mpr before⟩
  · exact .inr ⟨last, by simpa using before, begun⟩

theorem framed_of_prefix {stream : List α} {messages : List (List α)} (cut : stream <+: messages.flatten) :
    Framed stream messages := by
  induction messages generalizing stream with
  | nil =>
    rw [List.flatten_nil, List.prefix_nil] at cut
    exact cut ▸ .nil []
  | cons message rest ih =>
    rw [List.flatten_cons] at cut
    by_cases short : stream.length ≤ message.length
    · have begun : stream <+: message := List.prefix_of_prefix_length_le cut (List.prefix_append _ _) short
      exact ⟨[], stream, rfl, .inr ⟨message, by simp, begun⟩⟩
    · obtain ⟨more, rfl⟩ : message <+: stream :=
        List.prefix_of_prefix_length_le (List.prefix_append _ _) cut (by omega)
      exact (ih ((List.prefix_append_right_inj message).mp cut)).cons

end Kido.Shared
