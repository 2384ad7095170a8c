import ServiceRuntime.GoTime

/-!
# Numbers and Durations from Text

`strconv.Atoi` and `time.ParseDuration` on a 64-bit machine, and the product of durations, which is
taken modulo `2 ^ 64`. The fraction of a number in a duration is exact here, where Go has `float64`.
-/

namespace ServiceRuntime.GoTime

/-! ## Wrapping -/

def Duration.wrap (n : Int) : Duration :=
  ⟨(n + 2 ^ 63) % 2 ^ 64 - 2 ^ 63, by omega, by omega⟩

variable {n : Int}

theorem Duration.wrap_of_fits (hlo : -2 ^ 63 ≤ n) (hhi : n < 2 ^ 63) : (wrap n).ns = n := by
  show (n + 2 ^ 63) % 2 ^ 64 - 2 ^ 63 = n
  omega

theorem Duration.fits_of_wrap (h : (wrap n).ns = n) : -2 ^ 63 ≤ n ∧ n < 2 ^ 63 := by
  have hlo := (wrap n).lower
  have hhi := (wrap n).upper
  omega

theorem Duration.wrap_pos_iff : 0 < (wrap n).ns ↔ 0 < n % 2 ^ 64 ∧ n % 2 ^ 64 < 2 ^ 63 := by
  show 0 < (n + 2 ^ 63) % 2 ^ 64 - 2 ^ 63 ↔ _
  omega

/-- `Duration(x)` of a whole `float64`. Outside of the range the language leaves the result open; this
    is what amd64 gives. -/
def Duration.ofFloat (n : Int) : Duration :=
  if h : -2 ^ 63 ≤ n ∧ n < 2 ^ 63 then ⟨n, h.1, h.2⟩ else min

theorem Duration.ofFloat_of_fits (hlo : -2 ^ 63 ≤ n) (hhi : n < 2 ^ 63) : (ofFloat n).ns = n := by
  rw [ofFloat, dif_pos ⟨hlo, hhi⟩]

/-! ## Numbers -/

def decimalValue (digits : List Char) : Nat :=
  digits.foldl (fun n c => 10 * n + (c.toNat - 48)) 0

def decimal (digits : List Char) : Option Nat :=
  if digits ≠ [] ∧ digits.all Char.isDigit then some (decimalValue digits) else none

def atoi (s : String) : Option Int :=
  match s.toList with
  | '-' :: digits => (decimal digits).bind fun n => if n ≤ 2 ^ 63 then some (-(n : Int)) else none
  | '+' :: digits => (decimal digits).bind fun n => if n < 2 ^ 63 then some (n : Int) else none
  | digits => (decimal digits).bind fun n => if n < 2 ^ 63 then some (n : Int) else none

/-! ## Durations -/

/-- `unitMap`, in nanoseconds. -/
def unitOf : String → Option Nat
  | "ns" => some 1
  -- the micro sign and the Greek letter
  | "us" | "µs" | "μs" => some 1000
  | "ms" => some 1000000
  | "s" => some 1000000000
  | "m" => some 60000000000
  | "h" => some 3600000000000
  | _ => none

/-- `leadingFraction` on its digits: once the value is too large, the other digits are ignored. -/
def leadingFraction (digits : List Char) : Nat × Nat :=
  let next := fun (acc : Nat × Nat × Bool) (c : Char) =>
    let (x, scale, overflow) := acc
    let y := 10 * x + (c.toNat - 48)
    if overflow || decide (x > (2 ^ 63 - 1) / 10) || decide (y > 2 ^ 63) then (x, scale, true)
    else (y, 10 * scale, false)
  let (x, scale, _) := digits.foldl next (0, 1, false)
  (x, scale)

/-- One number with its unit at the start of a text: the nanoseconds, and the rest. -/
def parseTerm (s : List Char) : Option (Nat × List Char) :=
  let whole := s.takeWhile Char.isDigit
  let (fraction, rest) := match s.dropWhile Char.isDigit with
    | '.' :: rest => (rest.takeWhile Char.isDigit, rest.dropWhile Char.isDigit)
    | rest => ([], rest)
  let v := decimalValue whole
  if v > 2 ^ 63 || (whole = [] && fraction = []) then none
  else
    let inUnit := fun c : Char => !(c == '.' || c.isDigit)
    match unitOf (String.ofList (rest.takeWhile inUnit)) with
    | none => none
    | some unit =>
      if v > 2 ^ 63 / unit then none
      else
        let (f, scale) := leadingFraction fraction
        let v := v * unit + f * unit / scale
        if v > 2 ^ 63 then none else some (v, rest.dropWhile inUnit)

/-- The loop of `ParseDuration`: a text has no more numbers than characters. -/
def parseTerms : (fuel : Nat) → List Char → Nat → Option Nat
  | _, [], d => some d
  | 0, _ :: _, _ => none
  | fuel + 1, s, d =>
    match parseTerm s with
    | none => none
    | some (v, rest) => if d + v > 2 ^ 63 then none else parseTerms fuel rest (d + v)

def parseDuration (s : String) : Option Duration :=
  let (neg, digits) := match s.toList with
    | '-' :: rest => (true, rest)
    | '+' :: rest => (false, rest)
    | rest => (false, rest)
  if digits = ['0'] then some (.wrap 0)
  else if digits = [] then none
  else
    match parseTerms digits.length digits 0 with
    | none => none
    | some d =>
      if neg then some (.wrap (-(d : Int)))
      else if d > 2 ^ 63 - 1 then none
      else some (.wrap d)

example : (parseDuration "1m30s").map Duration.ns = some 90000000000 := by decide +kernel

example : parseDuration "90" = none := by decide +kernel

end ServiceRuntime.GoTime
