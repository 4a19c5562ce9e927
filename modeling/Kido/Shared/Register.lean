import Mathlib.Data.List.Perm.Basic
import Mathlib.Data.List.Count

set_option autoImplicit false

namespace Kido.Shared

universe u

variable {ι : Type u} (number : ι → Nat) (limit : Nat) (known : ι → Prop)

structure Registers (low high : Nat) (before out minted after : List ι) : Prop where
  seen : after.Perm (before ++ out)
  nodup : before.Nodup → after.Nodup
  split : ∃ named, out.Perm (named ++ minted) ∧ ∀ id ∈ named, known id
  fresh : ∀ id ∈ minted, low ≤ number id ∧ (number id < high ∨ number id = limit)
  reached : ∀ id ∈ minted, number id = limit → high = limit
  grows : low ≤ high
  bound : high ≤ limit

namespace Registers

variable {number limit known}

theorem refl {low : Nat} (bound : low ≤ limit) (seen : List ι) :
    Registers number limit known low low seen [] [] seen where
  seen := by simp
  nodup := id
  split := ⟨[], by simp, by simp⟩
  fresh := by simp
  reached := by simp
  grows := Nat.le_refl _
  bound := bound

theorem trans {low middle high : Nat} {before out minted between out' minted' after : List ι}
    (first : Registers number limit known low middle before out minted between)
    (second : Registers number limit known middle high between out' minted' after) :
    Registers number limit known low high before (out ++ out') (minted ++ minted') after where
  seen := by
    refine second.seen.trans ?_
    rw [← List.append_assoc]
    exact first.seen.append_right out'
  nodup := fun distinct => second.nodup (first.nodup distinct)
  split := by
    obtain ⟨named, perm, old⟩ := first.split
    obtain ⟨named', perm', old'⟩ := second.split
    refine ⟨named ++ named', (perm.append perm').trans ?_, ?_⟩
    · simp only [List.append_assoc]
      refine List.Perm.append_left named ?_
      simp only [← List.append_assoc]
      exact List.Perm.append_right minted' List.perm_append_comm
    · intro id member
      rcases List.mem_append.mp member with left | right
      · exact old id left
      · exact old' id right
  fresh := by
    intro id member
    have step := second.grows
    have step' := first.grows
    rcases List.mem_append.mp member with left | right
    · have fresh := first.fresh id left
      omega
    · have fresh := second.fresh id right
      omega
  reached := by
    intro id member last
    have step := second.grows
    have top := second.bound
    rcases List.mem_append.mp member with left | right
    · have middle := first.reached id left last
      omega
    · exact second.reached id right last
  grows := Nat.le_trans first.grows second.grows
  bound := second.bound

theorem named {low : Nat} (bound : low ≤ limit) (seen : List ι) (id : ι) (old : known id) (absent : id ∉ seen) :
    Registers number limit known low low seen [id] [] (seen ++ [id]) where
  seen := .refl _
  nodup := fun distinct => List.nodup_append.mpr ⟨distinct, by simp, by
    intro first member second inside
    have same : second = id := by simpa using inside
    exact fun equal => absent (same ▸ equal ▸ member)⟩
  split := ⟨[id], by simp, by simpa using old⟩
  fresh := by simp
  reached := by simp
  grows := Nat.le_refl _
  bound := bound

theorem mint {low : Nat} (bound : low ≤ limit) (seen : List ι) (id : ι) (same : number id = low)
    (absent : id ∉ seen) :
    Registers number limit known low (min (low + 1) limit) seen [id] [id] (seen ++ [id]) where
  seen := .refl _
  nodup := fun distinct => List.nodup_append.mpr ⟨distinct, by simp, by
    intro first member second inside
    have same : second = id := by simpa using inside
    exact fun equal => absent (same ▸ equal ▸ member)⟩
  split := ⟨[], by simp, by simp⟩
  fresh := by
    intro other member
    have equal : other = id := by simpa using member
    rw [equal, same]
    omega
  reached := by
    intro other member last
    have equal : other = id := by simpa using member
    rw [equal, same] at last
    omega
  grows := by omega
  bound := by omega

theorem perm {low high : Nat} {before out out' minted after : List ι}
    (registers : Registers number limit known low high before out minted after) (same : out.Perm out') :
    Registers number limit known low high before out' minted after :=
  { registers with
    seen := registers.seen.trans (same.append_left before)
    split := by
      obtain ⟨named, perm, old⟩ := registers.split
      exact ⟨named, same.symm.trans perm, old⟩ }

theorem out_nodup {low high : Nat} {out minted after : List ι}
    (registers : Registers number limit known low high [] out minted after) : out.Nodup := by
  have distinct := registers.nodup List.nodup_nil
  exact (List.nil_append out ▸ registers.seen).nodup_iff.mp distinct

theorem origin {low high : Nat} {before out minted after : List ι}
    (registers : Registers number limit known low high before out minted after) (id : ι) (member : id ∈ out) :
    known id ∨ id ∈ minted := by
  obtain ⟨named, perm, old⟩ := registers.split
  rcases List.mem_append.mp (perm.mem_iff.mp member) with left | right
  · exact .inl (old id left)
  · exact .inr right

theorem minted_subset {low high : Nat} {before out minted after : List ι}
    (registers : Registers number limit known low high before out minted after) (id : ι) (member : id ∈ minted) :
    id ∈ out := by
  obtain ⟨named, perm, _⟩ := registers.split
  exact perm.mem_iff.mpr (List.mem_append_right named member)

end Registers

end Kido.Shared
