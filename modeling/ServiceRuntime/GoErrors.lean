import Mathlib

/-!
# Go Error Trees

An error of Go is what it is, together with the errors that its `Unwrap` returns: none for a plain
error, one for an error that wraps another, several for `errors.Join` and for `fmt.Errorf` with
several `%w`. `errors.As` looks for the first error of a type, an error before the errors it wraps
and these from left to right.

The kind of an error is arbitrary here; a nil error among the unwrapped ones is left out.
-/

namespace ServiceRuntime

universe u

/-- An error: its own type and fields, and what it wraps. -/
inductive GoError (κ : Type u) where
  | mk (kind : κ) (causes : List (GoError κ))

namespace GoError

variable {κ : Type u}

def kind : GoError κ → κ
  | mk kind _ => kind

/-- What `Unwrap` returns. -/
def causes : GoError κ → List (GoError κ)
  | mk _ causes => causes

mutual

/-- `errors.As` for the errors whose kind satisfies `is`: the error that is found. -/
def as (is : κ → Bool) : GoError κ → Option (GoError κ)
  | mk kind causes => if is kind then some (mk kind causes) else asAny is causes

def asAny (is : κ → Bool) : List (GoError κ) → Option (GoError κ)
  | [] => none
  | err :: errs => (as is err).or (asAny is errs)

end

/-- `Wraps err err'`: `err'` is `err` or is reached from it by `Unwrap`. -/
inductive Wraps : GoError κ → GoError κ → Prop
  | self (err : GoError κ) : Wraps err err
  | cause {err cause err' : GoError κ} (hcause : cause ∈ err.causes) (h : Wraps cause err') :
      Wraps err err'

variable {is : κ → Bool}

theorem as_of_is {kind : κ} (h : is kind = true) (causes : List (GoError κ)) :
    as is (mk kind causes) = some (mk kind causes) := by
  rw [as, if_pos h]

theorem asAny_singleton (err : GoError κ) : asAny is [err] = as is err := by
  rw [asAny, asAny, Option.or_none]

theorem as_wrap {kind : κ} (h : is kind = false) (err : GoError κ) :
    as is (mk kind [err]) = as is err := by
  rw [as, if_neg (by simp [h]), asAny_singleton]

mutual

theorem wraps_of_as {found : GoError κ} :
    ∀ {err : GoError κ}, as is err = some found → is found.kind = true ∧ Wraps err found
  | mk kind causes, h => by
    rw [as] at h
    split at h
    · rename_i hkind
      cases h
      exact ⟨hkind, .self _⟩
    · obtain ⟨hfound, cause, hcause, hwraps⟩ := wraps_of_asAny h
      exact ⟨hfound, .cause hcause hwraps⟩

theorem wraps_of_asAny {found : GoError κ} :
    ∀ {errs : List (GoError κ)}, asAny is errs = some found →
      is found.kind = true ∧ ∃ err ∈ errs, Wraps err found
  | [], h => by
    rw [asAny] at h
    cases h
  | err :: errs, h => by
    rw [asAny, Option.or_eq_some_iff] at h
    rcases h with h | ⟨-, h⟩
    · obtain ⟨hfound, hwraps⟩ := wraps_of_as h
      exact ⟨hfound, err, List.mem_cons_self, hwraps⟩
    · obtain ⟨hfound, err', herr', hwraps⟩ := wraps_of_asAny h
      exact ⟨hfound, err', List.mem_cons_of_mem err herr', hwraps⟩

end

theorem as_of_asAny {errs : List (GoError κ)} (h : asAny is errs = none) {err : GoError κ}
    (hmem : err ∈ errs) : as is err = none := by
  induction errs with
  | nil => cases hmem
  | cons first errs ih =>
    rw [asAny, Option.or_eq_none_iff] at h
    rcases List.mem_cons.mp hmem with rfl | hmem
    · exact h.1
    · exact ih h.2 hmem

theorem Wraps.not_is {err found : GoError κ} (hwraps : Wraps err found) (h : as is err = none) :
    is found.kind = false := by
  induction hwraps with
  | self err =>
    obtain ⟨kind, causes⟩ := err
    rw [as] at h
    split at h
    · cases h
    · rename_i hkind
      exact Bool.eq_false_iff.mpr hkind
  | @cause err _ _ hcause _ ih =>
    obtain ⟨kind, causes⟩ := err
    rw [as] at h
    split at h
    · cases h
    · exact ih (as_of_asAny h hcause)

theorem as_isSome_iff {err : GoError κ} :
    (as is err).isSome ↔ ∃ found, Wraps err found ∧ is found.kind = true := by
  cases h : as is err with
  | some found =>
    obtain ⟨hfound, hwraps⟩ := wraps_of_as h
    exact iff_of_true rfl ⟨found, hwraps, hfound⟩
  | none =>
    refine iff_of_false Bool.false_ne_true ?_
    rintro ⟨found, hwraps, hfound⟩
    rw [hwraps.not_is h] at hfound
    cases hfound

end GoError

end ServiceRuntime
