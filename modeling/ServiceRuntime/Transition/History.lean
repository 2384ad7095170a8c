import Mathlib

/-!
# Histories

A history is a list of entries, newest first, to which a system adds as it runs. Safety
properties of the form "whenever this happened, that had happened before" are `Justified`
histories: every entry is justified by the entries older than itself. The system only has
to justify an entry at the moment it writes it; what `Justified` gives back is the
justification of any entry, wherever it stands.
-/

namespace ServiceRuntime.Transition

universe u

variable {α : Type u} {P : α → List α → Prop}

/-- Every entry satisfies `P` together with the entries older than itself. -/
def Justified (P : α → List α → Prop) : List α → Prop
  | [] => True
  | e :: older => P e older ∧ Justified P older

variable {newer older : List α}

theorem Justified.of_split {e : α} (h : Justified P (newer ++ e :: older)) : P e older := by
  induction newer with
  | nil => exact h.1
  | cons _ newer ih => exact ih h.2

theorem Justified.of_older {e : α} (h : Justified P (newer ++ e :: older)) : Justified P older := by
  induction newer with
  | nil => exact h.2
  | cons _ newer ih => exact ih h.2

theorem Justified.mono {Q : α → List α → Prop} (hPQ : ∀ e older, P e older → Q e older)
    {l : List α} (h : Justified P l) : Justified Q l := by
  induction l with
  | nil => trivial
  | cons e older ih => exact ⟨hPQ e older h.1, ih h.2⟩

/-- A block of entries may be written at once if each is justified whatever part of the
    block is already there. -/
theorem Justified.append {new : List α} (h : Justified P older)
    (hnew : ∀ e ∈ new, ∀ l, P e (l ++ older)) : Justified P (new ++ older) := by
  induction new with
  | nil => exact h
  | cons e new ih =>
    refine ⟨hnew e List.mem_cons_self new, ih ?_⟩
    intro e' he'
    exact hnew e' (List.mem_cons_of_mem e he')

theorem older_total {newer' older' : List α} {a b : α}
    (h : newer ++ a :: older = newer' ++ b :: older') (hne : a ≠ b) : b ∈ older ∨ a ∈ older' := by
  rcases List.append_eq_append_iff.mp h with ⟨l, -, hl⟩ | ⟨l, -, hl⟩
  · cases l with
    | nil => exact absurd (List.cons.inj hl).1 hne
    | cons c l =>
      left
      rw [(List.cons.inj hl).2]
      exact List.mem_append_right l List.mem_cons_self
  · cases l with
    | nil => exact absurd (List.cons.inj hl).1.symm hne
    | cons c l =>
      right
      rw [(List.cons.inj hl).2]
      exact List.mem_append_right l List.mem_cons_self

end ServiceRuntime.Transition
