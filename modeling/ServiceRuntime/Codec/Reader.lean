import Mathlib

/-!
# Readers of Byte Strings

A reader takes a value off the front of a byte string. What is asked of the readers of a
self-delimiting format is that they are *determined by what they take*: the bytes that follow do
not matter (`Determined`). Readers built from such readers are such readers again, and a reader of
this kind that reads a text alone reads it in front of anything.
-/

namespace ServiceRuntime.Codec

/-- A value and the bytes that follow it, or nothing if the bytes do not start with one. -/
abbrev Reader (α : Type*) := List UInt8 → Option (α × List UInt8)

namespace Reader

variable {α β : Type*}

/-- Read one value, then another that may depend on it. -/
def andThen (p : Reader α) (q : α → Reader β) : Reader β := fun bs =>
  (p bs).bind fun (a, rest) => q a rest

/-- Read exactly `n` bytes. -/
def exactly (n : Nat) : Reader (List UInt8) := fun bs =>
  if n ≤ bs.length then some (bs.take n, bs.drop n) else none

def skip (p : Reader α) : Reader Unit := fun bs => (p bs).map fun (_, rest) => ((), rest)

/-- The text that a reader takes, which is not empty, determines what it reads. -/
def Determined (p : Reader α) : Prop :=
  ∀ ⦃bs a rest⦄, p bs = some (a, rest) →
    ∃ taken, taken ≠ [] ∧ bs = taken ++ rest ∧ ∀ after, p (taken ++ after) = some (a, after)

variable {p : Reader α} {bs rest : List UInt8}

theorem Determined.length_lt (h : Determined p) {a : α} (hp : p bs = some (a, rest)) :
    rest.length < bs.length := by
  obtain ⟨taken, hne, rfl, -⟩ := h hp
  have hpos := List.length_pos_iff.mpr hne
  rw [List.length_append]
  omega

theorem Determined.append (h : Determined p) {a : α} (hp : p bs = some (a, []))
    (after : List UInt8) :
    p (bs ++ after) = some (a, after) := by
  obtain ⟨taken, -, rfl, hread⟩ := h hp
  rw [List.append_nil]
  exact hread after

theorem exactly_append (bs after : List UInt8) :
    exactly bs.length (bs ++ after) = some (bs, after) := by
  unfold exactly
  rw [if_pos (by rw [List.length_append]; omega), List.take_left, List.drop_left]

theorem exactly_eq_some {n : Nat} {taken : List UInt8} (h : exactly n bs = some (taken, rest)) :
    taken.length = n ∧ bs = taken ++ rest := by
  unfold exactly at h
  split at h
  · rename_i hle
    cases h
    exact ⟨List.length_take_of_le hle, (List.take_append_drop n bs).symm⟩
  · cases h

theorem determined_exactly {n : Nat} (hn : n ≠ 0) : Determined (exactly n) := by
  intro bs a rest h
  obtain ⟨hlength, hbs⟩ := exactly_eq_some h
  refine ⟨a, ?_, hbs, ?_⟩
  · rintro rfl
    exact hn hlength.symm
  · intro after
    rw [← hlength]
    exact exactly_append a after

theorem Determined.skip (h : Determined p) : Determined p.skip := by
  intro bs a rest hskip
  obtain ⟨⟨a', rest'⟩, hread, heq⟩ := Option.map_eq_some_iff.mp hskip
  cases heq
  obtain ⟨taken, hne, rfl, hafter⟩ := h hread
  refine ⟨taken, hne, rfl, fun after => ?_⟩
  unfold Reader.skip
  rw [hafter]
  rfl

theorem Determined.andThen {q : α → Reader β} (hp : Determined p)
    (hq : ∀ a ⦃bs b rest⦄, q a bs = some (b, rest) →
      ∃ taken, bs = taken ++ rest ∧ ∀ after, q a (taken ++ after) = some (b, after)) :
    Determined (p.andThen q) := by
  intro bs b rest h
  unfold Reader.andThen at h
  obtain ⟨⟨a, middle⟩, hfirst, hsecond⟩ := Option.bind_eq_some_iff.mp h
  obtain ⟨taken, hne, rfl, hread⟩ := hp hfirst
  obtain ⟨taken', rfl, hread'⟩ := hq a hsecond
  refine ⟨taken ++ taken', by simp [hne], by rw [List.append_assoc], fun after => ?_⟩
  unfold Reader.andThen
  rw [List.append_assoc, hread]
  exact hread' after

end Reader

end ServiceRuntime.Codec
