import Mathlib

/-!
# Base64

`base64.StdEncoding`: three bytes are four digits of six bits each, and the last group is filled
up with `=`. The decoder skips line ends, and does not look at the bits that the last digit has
too many.

**Main result** (`decodeString_encodeToString`): what is encoded is decoded.
-/

namespace ServiceRuntime.Codec.Base64

/-! ## Digits -/

def digit (n : Nat) : Char :=
  if n < 26 then Char.ofNat (0x41 + n)
  else if n < 52 then Char.ofNat (0x61 + (n - 26))
  else if n < 62 then Char.ofNat (0x30 + (n - 52))
  else if n = 62 then '+'
  else '/'

def value (c : Char) : Option Nat :=
  let n := c.toNat
  if 0x41 ≤ n ∧ n ≤ 0x5A then some (n - 0x41)
  else if 0x61 ≤ n ∧ n ≤ 0x7A then some (n - 0x61 + 26)
  else if 0x30 ≤ n ∧ n ≤ 0x39 then some (n - 0x30 + 52)
  else if c = '+' then some 62
  else if c = '/' then some 63
  else none

theorem value_digit {n : Nat} (h : n < 64) : value (digit n) = some n := by
  interval_cases n <;> rfl

theorem digit_ne {n : Nat} (h : n < 64) : digit n ≠ '=' ∧ digit n ≠ '\r' ∧ digit n ≠ '\n' := by
  interval_cases n <;> decide

/-! ## Encoding -/

def encode : List UInt8 → List Char
  | [] => []
  | [a] => [digit (a.toNat / 4), digit (a.toNat % 4 * 16), '=', '=']
  | [a, b] =>
    [digit (a.toNat / 4), digit (a.toNat % 4 * 16 + b.toNat / 16), digit (b.toNat % 16 * 4), '=']
  | a :: b :: c :: rest =>
    digit (a.toNat / 4) :: digit (a.toNat % 4 * 16 + b.toNat / 16) ::
      digit (b.toNat % 16 * 4 + c.toNat / 64) :: digit (c.toNat % 64) :: encode rest

def encodeToString (src : List UInt8) : String := String.ofList (encode src)

/-! ## Decoding -/

/-- The bytes of groups of four digits. -/
def decode : List Char → Option (List UInt8)
  | [] => some []
  | a :: b :: c :: d :: rest => do
    let x ← value a
    let y ← value b
    if d = '=' then
      -- the filling comes last
      if rest ≠ [] then none
      else if c = '=' then some [UInt8.ofNat (x * 4 + y / 16)]
      else do
        let z ← value c
        some [UInt8.ofNat (x * 4 + y / 16), UInt8.ofNat (y % 16 * 16 + z / 4)]
    else do
      let z ← value c
      let w ← value d
      let bytes ← decode rest
      some (UInt8.ofNat (x * 4 + y / 16) :: UInt8.ofNat (y % 16 * 16 + z / 4) ::
        UInt8.ofNat (z % 4 * 64 + w) :: bytes)
  | _ => none

def decodeString (s : String) : Option (List UInt8) :=
  decode (s.toList.filter fun c => c ≠ '\r' ∧ c ≠ '\n')

/-! ## There and back -/

theorem ofNat_eq {n : Nat} {b : UInt8} (h : n = b.toNat) : UInt8.ofNat n = b := by
  rw [h, UInt8.ofNat_toNat]

theorem decode_encode (src : List UInt8) : decode (encode src) = some src := by
  -- nothing, one byte, two bytes, and a group of three
  induction src using encode.induct with
  | case1 => rfl
  | case2 a =>
    have ha := a.toNat_lt
    rw [encode, decode, value_digit (by omega), value_digit (by omega)]
    simp only [Option.bind_eq_bind, Option.bind_some, if_true, ne_eq, not_true_eq_false, if_false]
    rw [ofNat_eq (b := a) (by omega)]
  | case3 a b =>
    have ha := a.toNat_lt
    have hb := b.toNat_lt
    have hc := (digit_ne (show b.toNat % 16 * 4 < 64 by omega)).1
    rw [encode, decode, value_digit (by omega), value_digit (by omega), value_digit (by omega)]
    simp only [Option.bind_eq_bind, Option.bind_some, if_true, ne_eq, not_true_eq_false, if_false,
      hc]
    rw [ofNat_eq (b := a) (by omega), ofNat_eq (b := b) (by omega)]
  | case4 a b c rest ih =>
    have ha := a.toNat_lt
    have hb := b.toNat_lt
    have hc := c.toNat_lt
    have hd := (digit_ne (show c.toNat % 64 < 64 by omega)).1
    rw [encode, decode, value_digit (by omega), value_digit (by omega), value_digit (by omega),
      value_digit (by omega), ih]
    simp only [Option.bind_eq_bind, Option.bind_some, if_neg hd]
    rw [ofNat_eq (b := a) (by omega), ofNat_eq (b := b) (by omega), ofNat_eq (b := c) (by omega)]

/-- No line ends are written. -/
theorem mem_encode {src : List UInt8} : ∀ c ∈ encode src, c ≠ '\r' ∧ c ≠ '\n' := by
  have hfill : ('=' : Char) ≠ '\r' ∧ ('=' : Char) ≠ '\n' := by decide
  induction src using encode.induct with
  | case1 => simp [encode]
  | case2 a =>
    have ha := a.toNat_lt
    simp only [encode, List.forall_mem_cons, List.not_mem_nil, false_implies, implies_true,
      and_true]
    exact ⟨(digit_ne (by omega)).2, (digit_ne (by omega)).2, hfill, hfill⟩
  | case3 a b =>
    have ha := a.toNat_lt
    have hb := b.toNat_lt
    simp only [encode, List.forall_mem_cons, List.not_mem_nil, false_implies, implies_true,
      and_true]
    exact ⟨(digit_ne (by omega)).2, (digit_ne (by omega)).2, (digit_ne (by omega)).2, hfill⟩
  | case4 a b c rest ih =>
    have ha := a.toNat_lt
    have hb := b.toNat_lt
    have hc := c.toNat_lt
    simp only [encode, List.forall_mem_cons]
    exact ⟨(digit_ne (by omega)).2, (digit_ne (by omega)).2, (digit_ne (by omega)).2,
      (digit_ne (by omega)).2, ih⟩

theorem decodeString_encodeToString (src : List UInt8) :
    decodeString (encodeToString src) = some src := by
  unfold decodeString encodeToString
  rw [String.toList_ofList, List.filter_eq_self.mpr]
  · exact decode_encode src
  · intro c hc
    simpa using mem_encode c hc

end ServiceRuntime.Codec.Base64
