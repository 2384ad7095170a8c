import Mathlib

/-!
# Float64 and Decimal Text

`strconv.ParseFloat` and `strconv.AppendFloat` for 64 bits. A number is rounded to 53 binary digits,
a tie going to the even one, and a float64 is written with the fewest decimal digits that are read
as the same float64.

An integer of up to `2 ^ 53` is read without rounding (`nearest_natCast`), and it is written with
all of its digits (`Float64.fixedText_of_abs`), since among the other integers only `2 ^ 53 + 1` is
rounded to one of them (`eq_of_nearest`).
-/

namespace ServiceRuntime.GoFloat

/-! ## Rounding -/

/-- The integer nearest to a number that is not negative; of two, the even one. -/
def roundEven (q : ℚ) : ℕ :=
  let k := ⌊q⌋₊
  if q - k < 1 / 2 then k
  else if 1 / 2 < q - k then k + 1
  else k + k % 2

theorem roundEven_natCast (n : ℕ) : roundEven n = n := by
  simp [roundEven]

theorem le_roundEven {k : ℕ} {q : ℚ} (h : (k : ℚ) ≤ q) : k ≤ roundEven q := by
  have hfloor : k ≤ ⌊q⌋₊ := Nat.le_floor h
  unfold roundEven
  dsimp only
  split_ifs <;> omega

theorem roundEven_le {k : ℕ} {q : ℚ} (hq : 0 ≤ q) (h : q ≤ k) : roundEven q ≤ k := by
  rcases Nat.lt_or_ge ⌊q⌋₊ k with hlt | hge
  · unfold roundEven
    dsimp only
    split_ifs <;> omega
  -- the number is the integer
  · have heq : q = (k : ℚ) := le_antisymm h ((Nat.le_floor_iff hq).mp hge)
    rw [heq, roundEven_natCast]

/-- The place of the last binary digit: there are 53 digits, and none below `2 ^ -1074`. -/
def lastPlace (q : ℚ) : ℤ := max (Int.log 2 q - 52) (-1074)

/-- The nearest number with those digits, for a number that is not negative. -/
def nearest (q : ℚ) : ℚ := roundEven (q / 2 ^ lastPlace q) * 2 ^ lastPlace q

theorem nearest_nonneg (q : ℚ) : 0 ≤ nearest q := by
  unfold nearest
  positivity

theorem two_zpow_pos (e : ℤ) : (0 : ℚ) < 2 ^ e := zpow_pos (by decide) e

theorem le_nearest {k : ℕ} {q : ℚ} (h : (k : ℚ) * 2 ^ lastPlace q ≤ q) :
    (k : ℚ) * 2 ^ lastPlace q ≤ nearest q := by
  have hpos := two_zpow_pos (lastPlace q)
  have hround : k ≤ roundEven (q / 2 ^ lastPlace q) := le_roundEven ((le_div_iff₀ hpos).mpr h)
  unfold nearest
  gcongr

theorem nearest_of_multiple {q : ℚ} {k : ℕ} (h : q = k * 2 ^ lastPlace q) : nearest q = q := by
  have hne := (two_zpow_pos (lastPlace q)).ne'
  unfold nearest
  rw [(div_eq_iff hne).mpr h, roundEven_natCast, ← h]

/-- **What has 53 digits is not rounded.** -/
theorem nearest_of_digits {m : ℕ} {e : ℤ} (hm : m ≤ 2 ^ 53) (he : -1074 ≤ e) :
    nearest (m * 2 ^ e) = m * 2 ^ e := by
  rcases Nat.eq_zero_or_pos m with rfl | hpos
  · simp [nearest, roundEven]
  have hq : (0 : ℚ) < m * 2 ^ e := by positivity
  rcases Nat.lt_or_ge m (2 ^ 53) with hlt | hge
  · have hlog : Int.log 2 ((m : ℚ) * 2 ^ e) < e + 53 := by
      rw [← Int.lt_zpow_iff_log_lt (by decide) hq, zpow_add₀ (by decide), mul_comm]
      have : (m : ℚ) < 2 ^ 53 := by exact_mod_cast hlt
      have hmul := mul_lt_mul_of_pos_left this (two_zpow_pos e)
      exact_mod_cast hmul
    have hplace : lastPlace ((m : ℚ) * 2 ^ e) ≤ e := by
      unfold lastPlace
      omega
    obtain ⟨d, hd⟩ := Int.le.dest hplace
    apply @nearest_of_multiple _ (m * 2 ^ d)
    have hsplit : (2 : ℚ) ^ e = 2 ^ d * 2 ^ lastPlace ((m : ℚ) * 2 ^ e) := by
      rw [← zpow_natCast, ← zpow_add₀ (by decide), add_comm, hd]
    push_cast
    rw [mul_assoc, ← hsplit]
  -- the power itself is one digit and a larger place
  · have hm' : m = 2 ^ 53 := le_antisymm hm hge
    have hpow : (m : ℚ) * 2 ^ e = 2 ^ (e + 53) := by
      rw [hm', zpow_add₀ (by decide), mul_comm]
      norm_num
    have hplace : lastPlace ((m : ℚ) * 2 ^ e) = e + 1 := by
      have hlog : Int.log 2 ((2 : ℚ) ^ (e + 53)) = e + 53 := by
        exact_mod_cast Int.log_zpow (R := ℚ) (b := 2) (by decide) (e + 53)
      unfold lastPlace
      rw [hpow, hlog]
      omega
    apply @nearest_of_multiple _ (2 ^ 52)
    rw [hplace, hpow, show e + 53 = 52 + (e + 1) by ring, zpow_add₀ (by decide)]
    norm_num

theorem nearest_natCast {n : ℕ} (h : n ≤ 2 ^ 53) : nearest n = n := by
  have hdigits := nearest_of_digits (e := 0) h (by decide)
  rwa [zpow_zero, mul_one] at hdigits

theorem nearest_nearest {q : ℚ} (hq : 0 ≤ q) : nearest (nearest q) = nearest q := by
  have hplace : -1074 ≤ lastPlace q := le_max_right _ _
  apply nearest_of_digits ?_ hplace
  apply roundEven_le (by positivity)
  rw [div_le_iff₀ (two_zpow_pos _)]
  have hlt := Int.lt_zpow_succ_log_self (b := 2) (by decide) q
  have hle : Int.log 2 q + 1 ≤ 53 + lastPlace q := by
    unfold lastPlace
    omega
  push_cast at hlt ⊢
  calc q ≤ 2 ^ (Int.log 2 q + 1) := hlt.le
    _ ≤ 2 ^ (53 + lastPlace q) := zpow_le_zpow_right₀ (by decide) hle
    _ = 2 ^ (53 : ℤ) * 2 ^ lastPlace q := zpow_add₀ (by decide) _ _

/-- A larger integer is not rounded down to `2 ^ 53`. -/
theorem lt_nearest {v : ℕ} (h : 2 ^ 53 + 1 < v) : (2 : ℚ) ^ 53 < nearest v := by
  have hlog : 53 ≤ Nat.log 2 v := Nat.le_log_of_pow_le (by decide) (by omega)
  have hplace : lastPlace (v : ℚ) = (Nat.log 2 v - 52 : ℤ) := by
    unfold lastPlace
    rw [Int.log_natCast]
    omega
  rcases Nat.eq_or_lt_of_le hlog with h53 | h54
  -- the last place is 2, and the integer is at least `2 ^ 53 + 2`
  · have hone : lastPlace (v : ℚ) = 1 := by
      rw [hplace, ← h53]
      rfl
    have hmultiple : ((2 ^ 52 + 1 : ℕ) : ℚ) * 2 ^ lastPlace (v : ℚ) ≤ v := by
      rw [hone, zpow_one]
      exact_mod_cast (by omega : (2 ^ 52 + 1) * 2 ≤ v)
    have hle := le_nearest hmultiple
    rw [hone, zpow_one] at hle
    exact lt_of_lt_of_le (by norm_num) hle
  -- the integer is at least the power of two below it
  · obtain ⟨d, hd⟩ := Nat.exists_eq_add_of_lt h54
    have hpow : 2 ^ Nat.log 2 v ≤ v := Nat.pow_log_le_self 2 (by omega)
    have hplace' : lastPlace (v : ℚ) = ((d + 2 : ℕ) : ℤ) := by
      rw [hplace, hd]
      push_cast
      ring
    have hmultiple : ((2 ^ 52 : ℕ) : ℚ) * 2 ^ lastPlace (v : ℚ) ≤ v := by
      rw [hplace', zpow_natCast]
      have hsplit : 2 ^ 52 * 2 ^ (d + 2) = 2 ^ Nat.log 2 v := by
        rw [← pow_add, hd]
        congr 1
        omega
      exact_mod_cast hsplit.trans_le hpow
    have hle := le_nearest hmultiple
    rw [hplace', zpow_natCast] at hle
    refine lt_of_lt_of_le ?_ hle
    have hone : (1 : ℚ) ≤ 2 ^ d := one_le_pow₀ (by decide)
    rw [pow_add]
    push_cast
    linarith

/-- **The integers that are rounded to an integer of up to `2 ^ 53`.** -/
theorem eq_of_nearest {v n : ℕ} (hn : n ≤ 2 ^ 53) (h : nearest v = n) : v = n ∨ v = 2 ^ 53 + 1 := by
  rcases Nat.lt_or_ge (2 ^ 53) v with hlt | hge
  · right
    by_contra hne
    have hlarge := lt_nearest (v := v) (by omega)
    rw [h] at hlarge
    have : 2 ^ 53 < n := by exact_mod_cast hlarge
    omega
  · left
    rw [nearest_natCast hge] at h
    exact_mod_cast h

/-! ## Reading -/

def overflow : ℚ := 2 ^ 1024

/-- A finite float64: its sign, which zero has too, and the number without it. -/
structure Float64 where
  neg : Bool
  abs : ℚ
  nonneg : 0 ≤ abs
  rounded : nearest abs = abs
  finite : abs < overflow
  deriving DecidableEq

def Float64.zero : Float64 where
  neg := false
  abs := 0
  nonneg := le_rfl
  rounded := by simp [nearest, roundEven]
  finite := by
    unfold overflow
    positivity

theorem decimal_nonneg (m : ℕ) (e : ℤ) : (0 : ℚ) ≤ m * 10 ^ e := by
  positivity

/-- The float64 nearest to `m * 10 ^ e`; a number that is too large has none. -/
def Float64.ofDecimal (neg : Bool) (m : ℕ) (e : ℤ) : Option Float64 :=
  if h : nearest (m * 10 ^ e) < overflow then
    some ⟨neg, nearest (m * 10 ^ e), nearest_nonneg _, nearest_nearest (decimal_nonneg m e), h⟩
  else none

theorem Float64.ofDecimal_natCast (neg : Bool) {n : ℕ} (hn : n ≤ 2 ^ 53) :
    ∃ x, ofDecimal neg n 0 = some x ∧ x.neg = neg ∧ x.abs = n := by
  have hexact : nearest ((n : ℚ) * 10 ^ (0 : ℤ)) = n := by
    rw [zpow_zero, mul_one, nearest_natCast hn]
  have hfinite : nearest ((n : ℚ) * 10 ^ (0 : ℤ)) < overflow := by
    rw [hexact, overflow]
    calc (n : ℚ) ≤ 2 ^ 53 := by exact_mod_cast hn
      _ < 2 ^ 1024 := pow_lt_pow_right₀ (by decide) (by decide)
  exact ⟨_, dif_pos hfinite, rfl, hexact⟩

def digitsValue (digits : List UInt8) : ℕ :=
  digits.foldl (fun n c => n * 10 + (c.toNat - 0x30)) 0

/-- An exponent with its sign; further digits of a large one are ignored. -/
def exponentValue (text : List UInt8) : ℤ :=
  let value : List UInt8 → ℕ := fun digits =>
    digits.foldl (fun n c => if n < 10000 then n * 10 + (c.toNat - 0x30) else n) 0
  match text with
  | [] => 0
  | c :: digits =>
    if c = 0x2D then -(value digits : ℤ)
    else if c = 0x2B then value digits
    else value text

def unsigned (literal : List UInt8) : List UInt8 :=
  if literal.head? = some 0x2D then literal.drop 1 else literal

/-- `strconv.ParseFloat(literal, 64)` on a decimal number. -/
def parseFloat (literal : List UInt8) : Option Float64 :=
  let isE := fun c : UInt8 => c == 0x65 || c == 0x45
  let mantissa := (unsigned literal).takeWhile fun c => !isE c
  let exponent := ((unsigned literal).dropWhile fun c => !isE c).drop 1
  let whole := mantissa.takeWhile (· != 0x2E)
  let fraction := (mantissa.dropWhile (· != 0x2E)).drop 1
  Float64.ofDecimal (literal.head? == some 0x2D) (digitsValue (whole ++ fraction))
    (exponentValue exponent - fraction.length)

theorem parseFloat_of_digits {literal : List UInt8}
    (h : ∀ c ∈ unsigned literal, c ≠ 0x65 ∧ c ≠ 0x45 ∧ c ≠ 0x2E) :
    parseFloat literal =
      Float64.ofDecimal (literal.head? == some 0x2D) (digitsValue (unsigned literal)) 0 := by
  have htake : (unsigned literal).takeWhile (fun c => !(c == 0x65 || c == 0x45)) =
      unsigned literal := by
    rw [List.takeWhile_eq_self_iff]
    intro c hc
    simp [h c hc]
  have hdrop : (unsigned literal).dropWhile (fun c => !(c == 0x65 || c == 0x45)) = [] := by
    rw [List.dropWhile_eq_nil_iff]
    intro c hc
    simp [h c hc]
  have htake' : (unsigned literal).takeWhile (· != 0x2E) = unsigned literal := by
    rw [List.takeWhile_eq_self_iff]
    intro c hc
    simp [h c hc]
  have hdrop' : (unsigned literal).dropWhile (· != 0x2E) = [] := by
    rw [List.dropWhile_eq_nil_iff]
    intro c hc
    simp [h c hc]
  unfold parseFloat
  simp only [htake, hdrop, htake', hdrop', List.drop_nil, List.append_nil, List.length_nil]
  rfl

/-! ## Writing -/

def digitByte (d : ℕ) : UInt8 := UInt8.ofNat (0x30 + d)

def decimalText (n : ℕ) : List UInt8 :=
  if n = 0 then [0x30] else (Nat.digits 10 n).reverse.map digitByte

theorem decimalText_of_lt {n : ℕ} (h : n < 10) : decimalText n = [digitByte n] := by
  interval_cases n <;> decide

theorem decimalText_of_ge {n : ℕ} (h : 10 ≤ n) :
    decimalText n = decimalText (n / 10) ++ [digitByte (n % 10)] := by
  unfold decimalText
  rw [if_neg (by omega), if_neg (by omega), Nat.digits_def' (by decide) (by omega),
    List.reverse_cons, List.map_append]
  rfl

theorem toNat_digitByte {d : ℕ} (h : d < 10) : (digitByte d).toNat = 0x30 + d :=
  UInt8.toNat_ofNat_of_lt' (show 0x30 + d < 256 by omega)

theorem digitsValue_decimalText (n : ℕ) : digitsValue (decimalText n) = n := by
  induction n using Nat.strong_induction_on with
  | _ n ih =>
    rcases Nat.lt_or_ge n 10 with hlt | hge
    · rw [decimalText_of_lt hlt, digitsValue, List.foldl_cons, List.foldl_nil,
        toNat_digitByte hlt]
      omega
    · have hfront := ih (n / 10) (by omega)
      unfold digitsValue at hfront ⊢
      rw [decimalText_of_ge hge, List.foldl_append, hfront, List.foldl_cons, List.foldl_nil,
        toNat_digitByte (by omega)]
      omega

/-- The decimal with `k` digits that is read as `x`: one next to `x`, and of two the nearer one.
    It is given as an integer and its place. -/
def withDigits (x : ℚ) (k : ℕ) : Option (ℕ × ℤ) :=
  let place := Int.log 10 x + 1 - k
  let reads := fun c : ℕ => nearest (c * 10 ^ place) = x
  let lo := ⌊x / 10 ^ place⌋₊
  let found :=
    if reads lo then some (if reads (lo + 1) then roundEven (x / 10 ^ place) else lo)
    else if reads (lo + 1) then some (lo + 1)
    else none
  -- one more than `99…9` is a single digit
  found.map fun c => if c = 10 ^ k then (1, place + k) else (c, place)

/-- The first decimal with `k` digits or more that is read as `x`; `fuel` numbers of digits are
    tried. -/
def shortestFrom (x : ℚ) : ℕ → ℕ → ℕ × ℤ
  | 0, _ => (0, 0)
  | fuel + 1, k => (withDigits x k).getD (shortestFrom x fuel (k + 1))

/-- The decimal with the fewest digits that is read as `x`; 17 are always enough. -/
def shortest (x : ℚ) : ℕ × ℤ := shortestFrom x 17 1

def signText (neg : Bool) : List UInt8 := if neg then [0x2D] else []

/-- `strconv.AppendFloat` with format `f` and the fewest digits. -/
def Float64.fixedText (x : Float64) : List UInt8 :=
  let (m, place) := shortest x.abs
  signText x.neg ++
    if 0 ≤ place then decimalText (m * 10 ^ place.toNat)
    else
      let fraction := decimalText (m % 10 ^ (-place).toNat)
      decimalText (m / 10 ^ (-place).toNat) ++
        0x2E :: (List.replicate ((-place).toNat - fraction.length) 0x30 ++ fraction)

/-- `strconv.AppendFloat` with format `e` and the fewest digits. The exponent has two digits or
    more. -/
def Float64.scientificText (x : Float64) : List UInt8 :=
  let (m, place) := shortest x.abs
  let digits := decimalText m
  let exponent : ℤ := digits.length - 1 + place
  let exponentText := decimalText exponent.natAbs
  signText x.neg ++ digits.take 1 ++ (if 1 < digits.length then 0x2E :: digits.drop 1 else []) ++
    0x65 :: (if exponent < 0 then 0x2D else 0x2B) ::
      (List.replicate (2 - exponentText.length) 0x30 ++ exponentText)

theorem eq_of_reads_le {n c j : ℕ} (hn : n ≤ 2 ^ 53) (hle : c * 10 ^ j ≤ n)
    (h : nearest ((c : ℚ) * 10 ^ j) = n) : c * 10 ^ j = n := by
  have hcast : nearest ((c * 10 ^ j : ℕ) : ℚ) = n := by
    push_cast
    exact h
  rcases eq_of_nearest hn hcast with heq | heq
  · exact heq
  · omega

theorem eq_zero_of_reads_gt {n c j : ℕ} (hn : n ≤ 2 ^ 53) (hgt : n < c * 10 ^ j)
    (h : nearest ((c : ℚ) * 10 ^ j) = n) : j = 0 := by
  have hcast : nearest ((c * 10 ^ j : ℕ) : ℚ) = n := by
    push_cast
    exact h
  rcases eq_of_nearest hn hcast with heq | heq
  · omega
  -- it is `2 ^ 53 + 1`
  · by_contra hj
    obtain ⟨i, rfl⟩ := Nat.exists_eq_succ_of_ne_zero hj
    rw [Nat.pow_succ, ← mul_assoc] at heq
    omega

/-- The digits of an integer that are read as the integer are all of its digits, up to zeros at the
    end. -/
theorem withDigits_natCast {n k j : ℕ} (hn : n ≤ 2 ^ 53) (hk : Nat.log 10 n + 1 = k + j) :
    (withDigits n k = none ∧ j ≠ 0) ∨
      ∃ m p : ℕ, withDigits n k = some (m, (p : ℤ)) ∧ m * 10 ^ p = n := by
  have hplace : Int.log 10 (n : ℚ) + 1 - k = (j : ℤ) := by
    rw [Int.log_natCast]
    omega
  have hfloor : ⌊(n : ℚ) / 10 ^ j⌋₊ = n / 10 ^ j := by
    rw [← Nat.floor_div_eq_div (K := ℚ)]
    push_cast
    rfl
  have hlt : n < (n / 10 ^ j + 1) * 10 ^ j :=
    Nat.lt_mul_of_div_lt (Nat.lt_succ_self _) (by positivity)
  unfold withDigits
  simp only [hplace, zpow_natCast, hfloor]
  by_cases hreads : nearest (((n / 10 ^ j : ℕ) : ℚ) * 10 ^ j) = n
  -- the decimal below is the integer, and the nearest one
  · right
    have hlo := eq_of_reads_le hn (Nat.div_mul_le_self n _) hreads
    have hround : roundEven ((n : ℚ) / 10 ^ j) = n / 10 ^ j := by
      have hdiv : (n : ℚ) / 10 ^ j = ((n / 10 ^ j : ℕ) : ℚ) := by
        rw [div_eq_iff (by positivity)]
        exact_mod_cast hlo.symm
      rw [hdiv, roundEven_natCast]
    rw [if_pos hreads, hround, ite_self, Option.map_some]
    by_cases hcarry : n / 10 ^ j = 10 ^ k
    · rw [if_pos hcarry]
      refine ⟨1, j + k, by push_cast; rfl, ?_⟩
      rw [one_mul, pow_add, mul_comm, ← hcarry]
      exact hlo
    · rw [if_neg hcarry]
      exact ⟨n / 10 ^ j, j, rfl, hlo⟩
  -- there are digits left, so the decimal above is not read as the integer either
  · left
    have hj : j ≠ 0 := by
      rintro rfl
      apply hreads
      simp [nearest_natCast hn]
    rw [if_neg hreads, if_neg fun h => hj (eq_zero_of_reads_gt hn hlt h)]
    exact ⟨rfl, hj⟩

theorem shortestFrom_natCast {n : ℕ} (hn : n ≤ 2 ^ 53) {fuel k j : ℕ}
    (hk : Nat.log 10 n + 1 = k + j) (hfuel : j < fuel) :
    ∃ m p : ℕ, shortestFrom n fuel k = (m, (p : ℤ)) ∧ m * 10 ^ p = n := by
  -- `j` digits more are all digits, and with all of them there is a decimal
  induction fuel generalizing k j with
  | zero => omega
  | succ fuel ih =>
    unfold shortestFrom
    rcases withDigits_natCast hn hk with ⟨hnone, hj⟩ | ⟨m, p, hsome, hvalue⟩
    · obtain ⟨i, rfl⟩ := Nat.exists_eq_succ_of_ne_zero hj
      rw [hnone, Option.getD_none]
      exact @ih (k + 1) i (by omega) (by omega)
    · rw [hsome, Option.getD_some]
      exact ⟨m, p, rfl, hvalue⟩

theorem shortest_natCast {n : ℕ} (hn : n ≤ 2 ^ 53) :
    ∃ m p : ℕ, shortest n = (m, (p : ℤ)) ∧ m * 10 ^ p = n := by
  have hlog : Nat.log 10 n < 16 := by
    rcases Nat.eq_zero_or_pos n with rfl | hpos
    · decide
    · exact Nat.log_lt_of_lt_pow (by omega) (by omega)
  exact @shortestFrom_natCast n hn 17 1 (Nat.log 10 n) (by omega) (by omega)

/-- **An integer of up to `2 ^ 53` is written with its digits.** -/
theorem Float64.fixedText_of_abs {x : Float64} {n : ℕ} (hn : n ≤ 2 ^ 53) (hx : x.abs = n) :
    x.fixedText = signText x.neg ++ decimalText n := by
  obtain ⟨m, p, hshort, hvalue⟩ := shortest_natCast hn
  unfold fixedText
  rw [hx, hshort]
  dsimp only
  rw [if_pos (Int.natCast_nonneg p), Int.toNat_natCast, hvalue]

end ServiceRuntime.GoFloat
