import ServiceRuntime.Calendar.Gregorian

/-!
# Times as RFC 3339 Text

`Format` and `Parse` of Go's `time` package for the layout `2006-01-02T15:04:05Z07:00`. An instant
is the number of nanoseconds since January 1 of year 1.

The layout has no fraction of a second. So formatting drops it, although parsing takes one, and
what comes back is the instant rounded down to the second (`parse_format`).
-/

namespace ServiceRuntime.GoRfc3339

open Calendar

/-! ## Formatting -/

def digit (n : Nat) : Char := Char.ofNat (48 + n)

def two (n : Nat) : List Char := [digit (n / 10), digit (n % 10)]

def four (n : Nat) : List Char :=
  [digit (n / 1000), digit (n / 100 % 10), digit (n / 10 % 10), digit (n % 10)]

def yearText (year : Int) : List Char :=
  (if year < 0 then ['-'] else []) ++
    if year.natAbs < 10000 then four year.natAbs else (toString year.natAbs).toList

/-- The date and the time of day, with something between the seconds and the zone. -/
def stamp (t : Int) (fraction : List Char) : String :=
  let seconds := t / 1000000000
  let date := dateOfDays (seconds / 86400)
  let clock := (seconds % 86400).toNat
  String.ofList (yearText date.year ++ '-' :: (two date.month ++ '-' :: (two date.day ++
    'T' :: (two (clock / 3600) ++ ':' :: (two (clock / 60 % 60) ++ ':' ::
      (two (clock % 60) ++ (fraction ++ ['Z'])))))))

/-- `t.UTC().Format(time.RFC3339)`. -/
def format (t : Int) : String :=
  let seconds := t / 1000000000
  let date := dateOfDays (seconds / 86400)
  let clock := (seconds % 86400).toNat
  String.ofList (yearText date.year ++ '-' :: (two date.month ++ '-' :: (two date.day ++
    'T' :: (two (clock / 3600) ++ ':' :: (two (clock / 60 % 60) ++ ':' ::
      (two (clock % 60) ++ ['Z']))))))

/-! ## Parsing -/

def digitValue (c : Char) : Option Nat :=
  if 48 ≤ c.toNat ∧ c.toNat ≤ 57 then some (c.toNat - 48) else none

def readTwo : List Char → Option (Nat × List Char)
  | a :: b :: rest =>
    (digitValue a).bind fun a => (digitValue b).map fun b => (a * 10 + b, rest)
  | _ => none

/-- One or two digits, as the layout asks for an hour. -/
def readOneOrTwo : List Char → Option (Nat × List Char)
  | [] => none
  | [a] => (digitValue a).map fun a => (a, [])
  | a :: b :: rest =>
    (digitValue a).map fun a =>
      match digitValue b with
      | some b => (a * 10 + b, rest)
      | none => (a, b :: rest)

def readFour : List Char → Option (Nat × List Char)
  | a :: b :: c :: d :: rest =>
    (digitValue a).bind fun a => (digitValue b).bind fun b => (digitValue c).bind fun c =>
      (digitValue d).map fun d => (((a * 10 + b) * 10 + c) * 10 + d, rest)
  | _ => none

def expect (c : Char) : List Char → Option (List Char)
  | [] => none
  | d :: rest => if d = c then some rest else none

/-- `parseNanoseconds`: further digits than nine are dropped. -/
def nanoseconds (digits : List Char) : Nat :=
  let kept := digits.take 9
  kept.foldl (fun n c => n * 10 + (c.toNat - 48)) 0 * 10 ^ (9 - kept.length)

/-- A fraction of a second, which may follow although the layout has none. -/
def readFraction : List Char → Nat × List Char
  | [] => (0, [])
  | c :: rest =>
    let digits := rest.takeWhile fun d => (digitValue d).isSome
    if (c = '.' ∨ c = ',') ∧ digits ≠ [] then (nanoseconds digits, rest.drop digits.length)
    else (0, c :: rest)

/-- The offset of a time zone in seconds; 24 hours and 60 minutes are let through. -/
def readZone : List Char → Option (Int × List Char)
  | [] => none
  | sign :: rest =>
    if sign = 'Z' then some (0, rest)
    else
      (readTwo rest).bind fun (hours, rest) => (expect ':' rest).bind fun rest =>
        (readTwo rest).bind fun (minutes, rest) =>
          if hours > 24 ∨ minutes > 60 then none
          else if sign = '+' then some ((hours * 60 + minutes) * 60, rest)
          else if sign = '-' then some (-((hours * 60 + minutes) * 60), rest)
          else none

/-- The instant of a date, a time of day, nanoseconds and an offset. -/
def instant (date : Date) (hour minute second ns : Nat) (offset : Int) : Int :=
  (daysOfDate date * 86400 + hour * 3600 + minute * 60 + second - offset) * 1000000000 + ns

/-- `time.Parse(time.RFC3339, s)`. -/
def parse (s : String) : Option Int := do
  let (year, rest) ← readFour s.toList
  let rest ← expect '-' rest
  let (month, rest) ← readTwo rest
  let rest ← expect '-' rest
  let (day, rest) ← readTwo rest
  let rest ← expect 'T' rest
  let (hour, rest) ← readOneOrTwo rest
  let rest ← expect ':' rest
  let (minute, rest) ← readTwo rest
  let rest ← expect ':' rest
  let (second, rest) ← readTwo rest
  let (ns, rest) := readFraction rest
  let (offset, rest) ← readZone rest
  if rest = [] ∧ (1 ≤ month ∧ month ≤ 12) ∧ hour < 24 ∧ minute < 60 ∧ second < 60 ∧
      (1 ≤ day ∧ day ≤ daysIn month year) then
    some (instant ⟨year, month, day⟩ hour minute second ns offset)
  else none

/-! ## There and back -/

variable {n : Nat} {t : Int}

theorem digitValue_digit (h : n < 10) : digitValue (digit n) = some n := by
  interval_cases n <;> rfl

theorem readTwo_two (h : n < 100) (rest : List Char) :
    readTwo (two n ++ rest) = some (n, rest) := by
  show readTwo (digit (n / 10) :: digit (n % 10) :: rest) = _
  rw [readTwo, digitValue_digit (by omega), digitValue_digit (by omega)]
  simp only [Option.bind_some, Option.map_some, Option.some.injEq, Prod.mk.injEq, and_true]
  omega

theorem readOneOrTwo_two (h : n < 100) (rest : List Char) :
    readOneOrTwo (two n ++ rest) = some (n, rest) := by
  show readOneOrTwo (digit (n / 10) :: digit (n % 10) :: rest) = _
  rw [readOneOrTwo, digitValue_digit (by omega), digitValue_digit (by omega)]
  simp only [Option.map_some, Option.some.injEq, Prod.mk.injEq, and_true]
  omega

theorem readFour_four (h : n < 10000) (rest : List Char) :
    readFour (four n ++ rest) = some (n, rest) := by
  show readFour (digit (n / 1000) :: digit (n / 100 % 10) :: digit (n / 10 % 10) ::
    digit (n % 10) :: rest) = _
  rw [readFour, digitValue_digit (by omega), digitValue_digit (by omega),
    digitValue_digit (by omega), digitValue_digit (by omega)]
  simp only [Option.bind_some, Option.map_some, Option.some.injEq, Prod.mk.injEq, and_true]
  omega

theorem expect_cons (c : Char) (rest : List Char) : expect c (c :: rest) = some rest := if_pos rfl

def endOfYear9999 : Int := 3652059 * 86400 * 1000000000

theorem yearText_of_lt (h : n < 10000) : yearText (n : Int) = four n := by
  unfold yearText
  rw [if_neg (by omega), Int.natAbs_natCast, if_pos h, List.nil_append]

def FourDigitYear (t : Int) : Prop :=
  0 ≤ (dateOfDays (t / 1000000000 / 86400)).year ∧ (dateOfDays (t / 1000000000 / 86400)).year < 10000

instance (t : Int) : Decidable (FourDigitYear t) :=
  inferInstanceAs (Decidable (_ ∧ _))

theorem fourDigitYear_of_bounds (hlo : 0 ≤ t) (hhi : t < endOfYear9999) : FourDigitYear t := by
  unfold endOfYear9999 at hhi
  obtain ⟨hyearLo, hyearHi⟩ := year_bounds (t / 1000000000 / 86400) (by omega) (by omega)
  exact ⟨by omega, by omega⟩

theorem yearText_of_ge (h : 10000 ≤ n) : yearText (n : Int) = Nat.toDigits 10 n := by
  unfold yearText
  rw [if_neg (by omega), Int.natAbs_natCast, if_neg (by omega), List.nil_append,
    Nat.toString_eq_ofList_toDigits, String.toList_ofList]

theorem yearText_of_neg {year : Int} (h : year < 0) : ∃ digits, yearText year = '-' :: digits := by
  unfold yearText
  rw [if_pos h]
  exact ⟨_, rfl⟩

theorem head_yearText (year : Int) :
    ∃ c rest, yearText year = c :: rest ∧ (c = '-' ∨ c.isDigit = true) := by
  rcases lt_or_ge year 0 with hneg | hpos
  · obtain ⟨digits, hdigits⟩ := yearText_of_neg hneg
    exact ⟨'-', digits, hdigits, .inl rfl⟩
  · obtain ⟨n, rfl⟩ : ∃ n : Nat, year = n := ⟨year.toNat, by omega⟩
    rcases Nat.lt_or_ge n 10000 with hlt | hge
    · refine ⟨_, _, yearText_of_lt hlt, .inr ?_⟩
      have hfirst : n / 1000 < 10 := by omega
      interval_cases n / 1000 <;> decide
    · obtain ⟨c, rest, hcons⟩ := List.exists_cons_of_ne_nil (@Nat.toDigits_ne_nil n 10)
      refine ⟨c, rest, (yearText_of_ge hge).trans hcons, .inr ?_⟩
      apply @Nat.isDigit_of_mem_toDigits 10 n c (by decide) (by decide)
      rw [hcons]
      exact List.mem_cons_self

theorem ends_format (t : Int) :
    (∃ c, (format t).toList.head? = some c ∧ (c = '-' ∨ c.isDigit = true)) ∧
      (format t).toList.getLast? = some 'Z' := by
  unfold format
  dsimp only
  rw [String.toList_ofList]
  constructor
  · obtain ⟨c, rest, hyear, hc⟩ := head_yearText (dateOfDays (t / 1000000000 / 86400)).year
    rw [hyear]
    exact ⟨c, rfl, hc⟩
  · simp [two]

/-- **A stamp is read back**, if the year has four digits, with the fraction that it says. -/
theorem parse_stamp (h : FourDigitYear t) {fraction : List Char} {ns : Nat}
    (hfraction : readFraction (fraction ++ ['Z']) = (ns, ['Z'])) :
    parse (stamp t fraction) = some (t / 1000000000 * 1000000000 + ns) := by
  obtain ⟨hyearLo, hyearHi⟩ := h
  obtain ⟨hdays, hmonthLo, hmonthHi, hdayLo, hdayHi⟩ :=
    dateOfDays_spec (t / 1000000000 / 86400)
  unfold parse stamp
  dsimp only
  generalize dateOfDays (t / 1000000000 / 86400) = date at *
  obtain ⟨year, month, day⟩ := date
  dsimp only at *
  obtain ⟨n, rfl⟩ : ∃ n : Nat, year = n := ⟨year.toNat, by omega⟩
  have hday : day ≤ 31 := hdayHi.trans (daysIn_le month n)
  have hyear := yearText_of_lt (show n < 10000 by omega)
  obtain ⟨clock, hclock⟩ : ∃ clock : Nat, t / 1000000000 % 86400 = clock :=
    ⟨(t / 1000000000 % 86400).toNat, by omega⟩
  rw [hclock, Int.toNat_natCast, String.toList_ofList, hyear]
  have hclockLt : clock < 86400 := by omega
  have hmonth : month < 100 := by omega
  have hday' : day < 100 := by omega
  have hhour : clock / 3600 < 100 := by omega
  have hminute : clock / 60 % 60 < 100 := by omega
  have hsecond : clock % 60 < 100 := by omega
  -- each reader takes off what was written at its place
  dsimp only [Option.bind_eq_bind]
  rw [readFour_four (by omega), Option.bind_some]
  dsimp only
  rw [expect_cons, Option.bind_some, readTwo_two hmonth, Option.bind_some]
  dsimp only
  rw [expect_cons, Option.bind_some, readTwo_two hday', Option.bind_some]
  dsimp only
  rw [expect_cons, Option.bind_some, readOneOrTwo_two hhour, Option.bind_some]
  dsimp only
  rw [expect_cons, Option.bind_some, readTwo_two hminute, Option.bind_some]
  dsimp only
  rw [expect_cons, Option.bind_some, readTwo_two hsecond, Option.bind_some]
  dsimp only
  have hzone : readZone ['Z'] = some (0, []) := rfl
  rw [hfraction]
  dsimp only
  rw [hzone, Option.bind_some]
  dsimp only
  -- the fields are those of a date and a clock; together they give the second back
  rw [if_pos ⟨rfl, ⟨hmonthLo, hmonthHi⟩, by omega, by omega, by omega, hdayLo, hdayHi⟩]
  unfold instant
  rw [hdays]
  congr 1
  push_cast
  omega

/-- **Formatting drops the fraction of a second**, and parsing gives back the rest. -/
theorem parse_format_of_fourDigitYear (h : FourDigitYear t) :
    parse (format t) = some (t / 1000000000 * 1000000000) := by
  have hstamp : parse (stamp t []) = some (t / 1000000000 * 1000000000 + (0 : Nat)) :=
    parse_stamp h rfl
  rw [Nat.cast_zero, Int.add_zero] at hstamp
  exact hstamp

theorem parse_format (hlo : 0 ≤ t) (hhi : t < endOfYear9999) :
    parse (format t) = some (t / 1000000000 * 1000000000) :=
  parse_format_of_fourDigitYear (fourDigitYear_of_bounds hlo hhi)

theorem readFour_sign (rest : List Char) : readFour ('-' :: rest) = none := by
  unfold readFour
  split
  · rename_i heq
    obtain ⟨rfl, -⟩ := List.cons.inj heq
    rfl
  · rfl

theorem parse_eq_none {s : String}
    (h : ∀ read, readFour s.toList = some read → expect '-' read.2 = none) : parse s = none := by
  unfold parse
  dsimp only [Option.bind_eq_bind]
  cases hfour : readFour s.toList with
  | none => rfl
  | some read =>
    have hexpect := h read hfour
    obtain ⟨year, rest⟩ := read
    dsimp only at hexpect
    rw [Option.bind_some]
    dsimp only
    rw [hexpect]
    rfl

theorem expect_readFour {a b c d e : Char} {rest : List Char} (he : e ≠ '-') {read : Nat × List Char}
    (h : readFour (a :: b :: c :: d :: e :: rest) = some read) : expect '-' read.2 = none := by
  simp only [readFour, Option.bind_eq_some_iff, Option.map_eq_some_iff] at h
  obtain ⟨_, -, _, -, _, -, _, -, rfl⟩ := h
  exact if_neg he

theorem yearText_fifth (h : 10000 ≤ n) :
    ∃ a b c d e rest, yearText n = a :: b :: c :: d :: e :: rest ∧ e ≠ '-' := by
  have hlength : 4 < (Nat.toDigits 10 n).length := by
    have hiff := @Nat.length_toDigits_le_iff 10 n 4 (by decide) (by decide)
    omega
  obtain ⟨a, b, c, d, e, rest, hdigits⟩ : ∃ a b c d e rest,
      Nat.toDigits 10 n = a :: b :: c :: d :: e :: rest := by
    match Nat.toDigits 10 n, hlength with
    | a :: b :: c :: d :: e :: rest, _ => exact ⟨a, b, c, d, e, rest, rfl⟩
  refine ⟨a, b, c, d, e, rest, (yearText_of_ge h).trans hdigits, ?_⟩
  have hdigit : e.isDigit = true := by
    apply @Nat.isDigit_of_mem_toDigits 10 n e (by decide) (by decide)
    rw [hdigits]
    simp
  rintro rfl
  cases hdigit

/-- **Other years are written in a form that is not read.** -/
theorem parse_format_eq_none (h : ¬FourDigitYear t) : parse (format t) = none := by
  obtain ⟨after, hafter⟩ : ∃ after, (format t).toList =
      yearText (dateOfDays (t / 1000000000 / 86400)).year ++ after := ⟨_, String.toList_ofList⟩
  apply parse_eq_none
  intro read hread
  rw [hafter] at hread
  rcases lt_or_ge (dateOfDays (t / 1000000000 / 86400)).year 0 with hneg | hpos
  -- the sign is no digit
  · obtain ⟨digits, hdigits⟩ := yearText_of_neg hneg
    rw [hdigits, List.cons_append, readFour_sign] at hread
    cases hread
  -- the fifth digit is no dash
  · obtain ⟨n, hn⟩ : ∃ n : Nat, (dateOfDays (t / 1000000000 / 86400)).year = n :=
      ⟨(dateOfDays (t / 1000000000 / 86400)).year.toNat, by omega⟩
    have hge : 10000 ≤ n := by
      unfold FourDigitYear at h
      omega
    obtain ⟨a, b, c, d, e, rest, hyear, he⟩ := yearText_fifth hge
    rw [hn, hyear] at hread
    exact expect_readFour he hread

end ServiceRuntime.GoRfc3339
