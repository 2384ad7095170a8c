import ServiceRuntime.Codec.FixedWidth
import ServiceRuntime.Json.Array

/-!
# Times in JSON

`time.Time` is a string in JSON: the layout of RFC 3339 with as many digits of the fraction of a
second as there are. Only years of four digits are written. What is written is read back to the
nanosecond (`timeField_quote`).
-/

namespace ServiceRuntime.Json

open Calendar Codec GoRfc3339 GoStrings GoUtf8

/-! ## Fractions of a second -/

/-- A fraction of a second without trailing zeros, and nothing for none. -/
def fractionText (ns : Nat) : List Char :=
  let digits := (FixedWidth.decimal 9 ns).rdropWhile (· = '0')
  if digits = [] then [] else '.' :: digits

/-- `Format(time.RFC3339Nano)`. -/
def formatNano (t : Int) : String := stamp t (fractionText (t % 1000000000).toNat)

/-- The number that digits say, after others. -/
def digitsFrom (n : Nat) (digits : List Char) : Nat :=
  digits.foldl (fun n c => n * 10 + (c.toNat - 48)) n

variable {n ns width : Nat} {t : Int}

theorem toNat_digit (h : n < 10) : (digit n).toNat - 48 = n := by
  interval_cases n <;> rfl

theorem digitsFrom_decimal (h : n < 10 ^ width) (m : Nat) :
    digitsFrom m (FixedWidth.decimal width n) = m * 10 ^ width + n := by
  induction width generalizing m n with
  | zero =>
    rw [pow_zero] at h
    simp [FixedWidth.decimal, digitsFrom, Nat.lt_one_iff.mp h]
  | succ width ih =>
    have hpos : 0 < 10 ^ width := by positivity
    have hfirst : n / 10 ^ width < 10 := by
      rw [Nat.div_lt_iff_lt_mul hpos, ← pow_succ']
      exact h
    have hrest := ih (Nat.mod_lt n hpos) (m * 10 + n / 10 ^ width)
    rw [FixedWidth.decimal, digitsFrom, List.foldl_cons, toNat_digit hfirst]
    refine hrest.trans ?_
    have hsplit := Nat.div_add_mod n (10 ^ width)
    calc (m * 10 + n / 10 ^ width) * 10 ^ width + n % 10 ^ width
        = m * 10 ^ (width + 1) + (10 ^ width * (n / 10 ^ width) + n % 10 ^ width) := by ring
      _ = m * 10 ^ (width + 1) + n := by rw [hsplit]

/-- Trailing zeros do not change a fraction. -/
theorem nanoseconds_rdropWhile {digits : List Char} (h : digits.length ≤ 9) :
    nanoseconds (digits.rdropWhile (· = '0')) = nanoseconds digits := by
  induction digits using List.reverseRecOn with
  | nil => rfl
  | append_singleton digits c ih =>
    rw [List.length_append, List.length_singleton] at h
    by_cases hc : c = '0'
    · subst hc
      rw [List.rdropWhile_concat_pos _ _ _ (by simp), ih (by omega)]
      unfold nanoseconds
      dsimp only
      rw [List.take_of_length_le (by omega), List.take_of_length_le (by simp; omega),
        List.foldl_append, List.length_append, List.length_singleton]
      -- a digit more, a power of ten less
      have hpow : 10 ^ (9 - digits.length) = 10 * 10 ^ (9 - (digits.length + 1)) := by
        rw [← pow_succ']
        congr 1
        omega
      rw [hpow]
      simp only [List.foldl_cons, List.foldl_nil]
      have hzero : '0'.toNat - 48 = 0 := rfl
      rw [hzero]
      ring
    · rw [List.rdropWhile_concat_neg _ _ _ (by simpa using hc)]

theorem nanoseconds_decimal (h : ns < 1000000000) : nanoseconds (FixedWidth.decimal 9 ns) = ns := by
  have hdigits : digitsFrom 0 (FixedWidth.decimal 9 ns) = 0 * 10 ^ 9 + ns :=
    digitsFrom_decimal (by norm_num; exact h) 0
  unfold nanoseconds
  dsimp only
  rw [List.take_of_length_le (by simp), FixedWidth.length_decimal]
  simpa [digitsFrom] using hdigits

theorem isSome_digitValue_of_mem_decimal (h : n < 10 ^ width) :
    ∀ c ∈ FixedWidth.decimal width n, (digitValue c).isSome = true := by
  induction width generalizing n with
  | zero => simp [FixedWidth.decimal]
  | succ width ih =>
    have hpos : 0 < 10 ^ width := by positivity
    have hfirst : n / 10 ^ width < 10 := by
      rw [Nat.div_lt_iff_lt_mul hpos, ← pow_succ']
      exact h
    rw [FixedWidth.decimal, List.forall_mem_cons, digitValue_digit hfirst]
    exact ⟨rfl, ih (Nat.mod_lt n hpos)⟩

theorem readFraction_fractionText (h : ns < 1000000000) :
    readFraction (fractionText ns ++ ['Z']) = (ns, ['Z']) := by
  have hvalue : nanoseconds ((FixedWidth.decimal 9 ns).rdropWhile (· = '0')) = ns := by
    rw [nanoseconds_rdropWhile (by simp), nanoseconds_decimal h]
  have hdigits : ∀ c ∈ (FixedWidth.decimal 9 ns).rdropWhile (· = '0'),
      (digitValue c).isSome = true := by
    intro c hc
    apply isSome_digitValue_of_mem_decimal (show ns < 10 ^ 9 by norm_num; exact h)
    exact (List.rdropWhile_prefix _ _).subset hc
  unfold fractionText
  dsimp only
  generalize (FixedWidth.decimal 9 ns).rdropWhile (· = '0') = digits at *
  split
  · rename_i hnone
    rw [hnone] at hvalue
    rw [← hvalue]
    rfl
  · rename_i hsome
    have htake : (digits ++ ['Z']).takeWhile (fun d => (digitValue d).isSome) = digits := by
      rw [List.takeWhile_append_of_pos hdigits]
      simp [digitValue]
    rw [List.cons_append, readFraction, htake, if_pos ⟨.inl rfl, hsome⟩, hvalue, List.drop_left]

/-- **A time is read back to the nanosecond.** -/
theorem parse_formatNano (h : FourDigitYear t) : parse (formatNano t) = some t := by
  have hns : (t % 1000000000).toNat < 1000000000 := by omega
  rw [formatNano, parse_stamp h (readFraction_fractionText hns)]
  congr 1
  omega

/-! ## Characters -/

def IsTimeChar (c : Char) : Prop := (digitValue c).isSome = true ∨ c ∈ ['-', 'T', ':', '.', 'Z']

theorem isTimeChar_two (h : n < 100) : ∀ c ∈ two n, IsTimeChar c := by
  rw [FixedWidth.two_eq_decimal]
  exact fun c hc => .inl (isSome_digitValue_of_mem_decimal (by norm_num; exact h) c hc)

theorem isTimeChar_fractionText (h : ns < 1000000000) : ∀ c ∈ fractionText ns, IsTimeChar c := by
  unfold fractionText
  dsimp only
  split
  · simp
  · rw [List.forall_mem_cons]
    refine ⟨.inr (by decide), fun c hc => .inl ?_⟩
    apply isSome_digitValue_of_mem_decimal (show ns < 10 ^ 9 by norm_num; exact h)
    exact (List.rdropWhile_prefix _ _).subset hc

theorem isTimeChar_formatNano (h : FourDigitYear t) :
    ∀ c ∈ (formatNano t).toList, IsTimeChar c := by
  obtain ⟨hyearLo, hyearHi⟩ := h
  obtain ⟨-, hmonthLo, hmonthHi, hdayLo, hdayHi⟩ := dateOfDays_spec (t / 1000000000 / 86400)
  have hfraction := isTimeChar_fractionText (show (t % 1000000000).toNat < 1000000000 by omega)
  unfold formatNano stamp
  dsimp only
  rw [String.toList_ofList]
  generalize dateOfDays (t / 1000000000 / 86400) = date at *
  obtain ⟨year, month, day⟩ := date
  dsimp only at *
  obtain ⟨n, rfl⟩ : ∃ n : Nat, year = n := ⟨year.toNat, by omega⟩
  have hday : day ≤ 31 := hdayHi.trans (daysIn_le month n)
  have hmark : ∀ c ∈ ['-', 'T', ':', '.', 'Z'], IsTimeChar c := fun c hc => .inr hc
  have hyear : ∀ c ∈ yearText (n : Int), IsTimeChar c := by
    rw [yearText_of_lt (show n < 10000 by omega), FixedWidth.four_eq_decimal]
    exact fun c hc =>
      .inl (isSome_digitValue_of_mem_decimal (show n < 10 ^ 4 by omega) c hc)
  simp only [List.forall_mem_append, List.forall_mem_cons]
  exact ⟨hyear, hmark _ (by decide), isTimeChar_two (by omega), hmark _ (by decide),
    isTimeChar_two (by omega), hmark _ (by decide), isTimeChar_two (by omega),
    hmark _ (by decide), isTimeChar_two (by omega), hmark _ (by decide),
    isTimeChar_two (by omega), hfraction, hmark _ (by decide), by simp⟩

theorem plain_of_isTimeChar {c : Char} (h : IsTimeChar c) :
    c.toNat ≠ 0x22 ∧ c.toNat ≠ 0x5C ∧ ¬c.toNat < 0x20 := by
  rcases h with h | h
  · have hrange : 48 ≤ c.toNat ∧ c.toNat ≤ 57 := by
      unfold digitValue at h
      split at h
      · assumption
      · cases h
    omega
  · fin_cases h <;> decide

/-! ## The field of a record -/

/-- `UnmarshalJSON`: null leaves the time as it is, and escapes are not looked at. -/
def timeField {α : Type*} (set : α → Int → α) : Setter α := fun record raw =>
  if raw = nullText then some record
  else if raw.head? = some 0x22 ∧ raw.getLast? = some 0x22 ∧ 2 ≤ raw.length then
    ((ofBytes (raw.tail.dropLast)).bind parse).map (set record)
  else none

/-- `MarshalJSON`: the year must have four digits. -/
def timeText (t : Int) : Option (List UInt8) :=
  if FourDigitYear t then some (0x22 :: bytes (formatNano t) ++ [0x22]) else none

theorem timeField_timeText {α : Type*} (set : α → Int → α) (record : α) {text : List UInt8}
    (h : timeText t = some text) : timeField set record text = some (set record t) := by
  unfold timeText at h
  split at h
  · rename_i hyear
    cases h
    have hlast : (0x22 :: bytes (formatNano t) ++ [0x22]).getLast? = some (0x22 : UInt8) :=
      List.getLast?_concat
    unfold timeField
    rw [if_neg (by simp [nullText]), if_pos ⟨rfl, hlast, by simp⟩, List.cons_append,
      List.tail_cons, List.dropLast_concat, ofBytes_bytes, Option.bind_some,
      parse_formatNano hyear, Option.map_some]
  · cases h

theorem isString_timeText {text : List UInt8} (h : timeText t = some text) :
    Scanner.IsString text := by
  unfold timeText at h
  split at h
  · rename_i hyear
    cases h
    refine ⟨_, rfl, Scanner.staysInString_plain fun b hb => ?_⟩
    obtain ⟨c, hc, hb⟩ := List.mem_flatMap.mp hb
    obtain ⟨hquote, hbackslash, hcontrol⟩ := plain_of_isTimeChar (isTimeChar_formatNano hyear c hc)
    exact plain_of_mem_utf8EncodeChar hquote hbackslash hcontrol hb
  · cases h

end ServiceRuntime.Json
