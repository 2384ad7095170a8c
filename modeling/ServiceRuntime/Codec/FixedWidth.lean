import ServiceRuntime.GoRfc3339

/-!
# Texts of Fixed Width

A number that is always written with the same number of digits sorts as a text the way it sorts
as a number. So does a sequence of numbers, when each has a width of its own and is followed by a
text that does not depend on the numbers: comparing two such texts compares the first numbers that
differ (`text_lt`). A name that starts with the time it was given sorts by time for this reason.
-/

namespace ServiceRuntime.Codec.FixedWidth

open GoRfc3339

theorem append_lt_append {α : Type*} [LT α] {a b : List α} (hlength : a.length = b.length)
    (h : a < b) (c d : List α) : a ++ c < b ++ d := by
  induction a generalizing b with
  | nil =>
    rw [List.length_nil] at hlength
    rw [List.length_eq_zero_iff.mp hlength.symm] at h
    exact absurd h (List.not_lt_nil [])
  | cons x a ih =>
    cases b with
    | nil => simp at hlength
    | cons y b =>
      rw [List.cons_append, List.cons_append, List.cons_lt_cons_iff]
      rcases List.cons_lt_cons_iff.mp h with hlt | ⟨heq, hlt⟩
      · exact .inl hlt
      · exact .inr ⟨heq, ih (by simpa using hlength) hlt⟩

/-! ## Numbers -/

theorem digit_lt_digit {a b : Nat} (h : a < b) (hb : b < 10) : digit a < digit b := by
  interval_cases b <;> interval_cases a <;> decide

def decimal : Nat → Nat → List Char
  | 0, _ => []
  | width + 1, n => digit (n / 10 ^ width) :: decimal width (n % 10 ^ width)

@[simp] theorem length_decimal (width n : Nat) : (decimal width n).length = width := by
  induction width generalizing n with
  | zero => rfl
  | succ width ih => simp [decimal, ih]

/-- **Decimal numbers sort by value**, as long as they fit their width. -/
theorem decimal_lt_decimal {width n m : Nat} (h : n < m) (hm : m < 10 ^ width) :
    decimal width n < decimal width m := by
  induction width generalizing n m with
  | zero => omega
  | succ width ih =>
    rw [decimal, decimal, List.cons_lt_cons_iff]
    have hpos : 0 < 10 ^ width := by positivity
    have hle : n / 10 ^ width ≤ m / 10 ^ width := Nat.div_le_div_right h.le
    rcases Nat.lt_or_eq_of_le hle with hlt | heq
    -- the first digits differ
    · have hfirst : m / 10 ^ width < 10 := by
        rw [Nat.div_lt_iff_lt_mul hpos, ← pow_succ']
        exact hm
      exact .inl (digit_lt_digit hlt hfirst)
    · refine .inr ⟨by rw [heq], ?_⟩
      apply ih
      · have hn := Nat.div_add_mod n (10 ^ width)
        have hm' := Nat.div_add_mod m (10 ^ width)
        rw [heq] at hn
        omega
      · exact Nat.mod_lt _ hpos

theorem two_eq_decimal (n : Nat) : two n = decimal 2 n := by
  simp [two, decimal]

theorem four_eq_decimal (n : Nat) : four n = decimal 4 n := by
  have hhundreds : n % 1000 / 100 = n / 100 % 10 := by omega
  have htens : n % 100 / 10 = n / 10 % 10 := by omega
  simp [four, decimal, hhundreds, htens]

/-! ## Sequences of numbers -/

/-- How one number of a sequence is written: its digits and the text after it. -/
structure Block where
  width : Nat
  after : List Char

def text : List Block → List Nat → List Char
  | block :: blocks, n :: numbers => decimal block.width n ++ block.after ++ text blocks numbers
  | _, _ => []

/-- There is one number for each block, and it fits. -/
def Fits (blocks : List Block) (numbers : List Nat) : Prop :=
  List.Forall₂ (fun block n => n < 10 ^ block.width) blocks numbers

/-- **Sequences sort by the first number that differs.** -/
theorem text_lt {blocks : List Block} {numbers numbers' : List Nat} (hfits : Fits blocks numbers)
    (hfits' : Fits blocks numbers') (h : numbers < numbers') :
    text blocks numbers < text blocks numbers' := by
  induction hfits generalizing numbers' with
  | nil =>
    rw [List.forall₂_nil_left_iff.mp hfits'] at h
    exact absurd h (List.not_lt_nil [])
  | @cons block n blocks numbers hn hrest ih =>
    obtain ⟨m, numbers', hm, hrest', rfl⟩ := List.forall₂_cons_left_iff.mp hfits'
    rw [text, text, List.append_assoc, List.append_assoc]
    rcases List.cons_lt_cons_iff.mp h with hlt | ⟨rfl, hlt⟩
    · apply append_lt_append
      · rw [length_decimal, length_decimal]
      · exact decimal_lt_decimal hlt hm
    · apply List.append_left_lt
      apply List.append_left_lt
      exact ih hrest' hlt

end ServiceRuntime.Codec.FixedWidth
