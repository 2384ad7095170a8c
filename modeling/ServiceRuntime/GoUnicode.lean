import ServiceRuntime.GoUtf8

/-!
# Code Points of Go Strings

The bytes of a Go string need not be valid UTF-8. A `range` loop over a string goes from one code
point to the next, and takes a byte that starts no valid encoding for `utf8.RuneError`. `chars`
are the code points that such a loop sees; trimming a string trims them
(`chars_bytesTrimSpace`).

The tables of `unicode` say which code points are letters and digits. They are a parameter, with
the laws that hold in every version of Unicode (`Tables`).
-/

namespace ServiceRuntime.GoUnicode

open GoStrings GoUtf8

/-! ## The code points -/

theorem runes_encode_append (fuel : Nat) (c : Char) (rest : List UInt8) :
    runes (fuel + 1) (String.utf8EncodeChar c ++ rest) = some c :: runes fuel rest := by
  have hfirst := firstRune_encode_append c rest
  have hdrop := drop_append_encode c rest
  generalize htext : String.utf8EncodeChar c ++ rest = text at hfirst hdrop ⊢
  cases text with
  | nil => exact absurd (List.append_eq_nil_iff.mp htext).1 String.utf8EncodeChar_ne_nil
  | cons b bs =>
    rw [runes, hfirst]
    dsimp only
    rw [hdrop]

variable {bs rest : List UInt8}

theorem runes_of_invalid (fuel : Nat) {b : UInt8} (h : firstRune (b :: rest) = none) :
    runes (fuel + 1) (b :: rest) = none :: runes fuel rest := by
  rw [runes, h]

theorem runes_fuel {fuel fuel' : Nat} (h : bs.length ≤ fuel) (h' : bs.length ≤ fuel') :
    runes fuel bs = runes fuel' bs := by
  induction bs using rune_induction generalizing fuel fuel' with
  | nil => cases fuel <;> cases fuel' <;> rfl
  | valid c rest ih =>
    have hpos := c.utf8Size_pos
    rw [List.length_append, String.length_utf8EncodeChar] at h h'
    obtain ⟨fuel, rfl⟩ := Nat.exists_eq_succ_of_ne_zero (show fuel ≠ 0 by omega)
    obtain ⟨fuel', rfl⟩ := Nat.exists_eq_succ_of_ne_zero (show fuel' ≠ 0 by omega)
    rw [runes_encode_append, runes_encode_append]
    exact congrArg _ (ih (by omega) (by omega))
  | invalid b rest hfirst ih =>
    rw [List.length_cons] at h h'
    obtain ⟨fuel, rfl⟩ := Nat.exists_eq_succ_of_ne_zero (show fuel ≠ 0 by omega)
    obtain ⟨fuel', rfl⟩ := Nat.exists_eq_succ_of_ne_zero (show fuel' ≠ 0 by omega)
    rw [runes_of_invalid fuel hfirst, runes_of_invalid fuel' hfirst]
    exact congrArg _ (ih (by omega) (by omega))

/-- The code points that a `range` loop sees. -/
def chars (bs : List UInt8) : List Char := (toValid bs).toList

theorem chars_eq {fuel : Nat} (h : bs.length ≤ fuel) :
    chars bs = (runes fuel bs).map fun c => c.getD runeError := by
  rw [chars, toValid, String.toList_ofList, runes_fuel le_rfl h]

@[simp]
theorem chars_nil : chars [] = [] := rfl

theorem chars_encode_append (c : Char) (rest : List UInt8) :
    chars (String.utf8EncodeChar c ++ rest) = c :: chars rest := by
  have hpos := c.utf8Size_pos
  have hlen : (String.utf8EncodeChar c ++ rest).length ≤ (c.utf8Size + rest.length - 1) + 1 := by
    rw [List.length_append, String.length_utf8EncodeChar]
    omega
  rw [chars_eq hlen, runes_encode_append, List.map_cons, ← chars_eq (by omega)]
  rfl

theorem chars_of_invalid {b : UInt8} (h : firstRune (b :: rest) = none) :
    chars (b :: rest) = runeError :: chars rest := by
  rw [chars_eq (le_refl _), List.length_cons, runes_of_invalid _ h, List.map_cons,
    ← chars_eq le_rfl]
  rfl

theorem chars_bytes (s : String) : chars (bytes s) = s.toList := by rw [chars, toValid_bytes]

theorem chars_eq_nil_iff : chars bs = [] ↔ bs = [] := by
  induction bs using rune_induction with
  | nil => simp
  | valid c rest _ => simp [chars_encode_append]
  | invalid b rest hfirst _ => simp [chars_of_invalid hfirst]

theorem chars_append_encode (bs : List UInt8) (c : Char) :
    chars (bs ++ String.utf8EncodeChar c) = chars bs ++ [c] := by
  induction bs using rune_induction with
  | nil =>
    have hone := chars_encode_append c []
    rwa [List.append_nil] at hone
  | valid d rest ih => rw [List.append_assoc, chars_encode_append, ih, chars_encode_append,
      List.cons_append]
  | invalid b rest hfirst ih =>
    -- the byte stays invalid with the encoding of `c` at the end
    have hstill := firstRune_append (List.cons_ne_nil b rest) c []
    rw [hfirst, List.append_nil, List.cons_append] at hstill
    rw [List.cons_append, chars_of_invalid hstill, ih, chars_of_invalid hfirst, List.cons_append]

/-- The last code point stands at the end of the string, if it is not an error. -/
theorem exists_of_chars_concat {c : Char} (hc : c ≠ runeError) (h : (chars bs).getLast? = some c) :
    ∃ before, bs = before ++ String.utf8EncodeChar c := by
  induction bs using rune_induction with
  | nil => cases h
  | valid d rest ih =>
    rw [chars_encode_append] at h
    by_cases hrest : rest = []
    · rw [hrest, chars_nil, List.getLast?_singleton] at h
      cases h
      exact ⟨[], by rw [hrest, List.append_nil, List.nil_append]⟩
    · rw [List.getLast?_cons_of_ne_nil (mt chars_eq_nil_iff.mp hrest)] at h
      obtain ⟨before, hbefore⟩ := ih h
      exact ⟨String.utf8EncodeChar d ++ before, by rw [hbefore, List.append_assoc]⟩
  | invalid b rest hfirst ih =>
    rw [chars_of_invalid hfirst] at h
    by_cases hrest : rest = []
    · rw [hrest, chars_nil, List.getLast?_singleton] at h
      cases h
      -- the last byte is an error, which `c` is not
      exact absurd rfl hc
    · rw [List.getLast?_cons_of_ne_nil (mt chars_eq_nil_iff.mp hrest)] at h
      obtain ⟨before, hbefore⟩ := ih h
      exact ⟨b :: before, by rw [hbefore, List.cons_append]⟩

/-! ## Trimming -/

theorem isSpace_runeError : isSpace runeError = false := by decide

theorem chars_trimFront (bs : List UInt8) :
    chars (trimFront bs) = (chars bs).dropWhile isSpace := by
  induction bs using rune_induction with
  | nil => rfl
  | valid c rest ih =>
    by_cases hspace : isSpace c = true
    · rw [trimFront_encode_append hspace, ih, chars_encode_append,
        List.dropWhile_cons_of_pos hspace]
    · rw [trimFront_of_not hspace, chars_encode_append, List.dropWhile_cons_of_neg hspace]
  | invalid b rest hfirst _ =>
    rw [trimFront_of_invalid hfirst, chars_of_invalid hfirst,
      List.dropWhile_cons_of_neg (by rw [isSpace_runeError]; decide)]

theorem chars_trimEnd (bs : List UInt8) : chars (trimEnd bs) = (chars bs).rdropWhile isSpace := by
  induction hn : bs.length using Nat.strong_induction_on generalizing bs with
  | _ n ih =>
    by_cases hlast : ∃ c, lastRune bs = some c ∧ isSpace c = true
    · obtain ⟨c, hc, hspace⟩ := hlast
      have hbs := eq_append_encode_of_lastRune hc
      generalize bs.take (bs.length - c.utf8Size) = before at hbs
      subst hbs
      have hpos := c.utf8Size_pos
      rw [List.length_append, String.length_utf8EncodeChar] at hn
      rw [trimEnd_append_encode before hspace, ih before.length (by omega) before rfl,
        chars_append_encode, List.rdropWhile_concat_pos _ _ _ hspace]
    · have hkept : trimEnd bs = bs := by
        apply trimEnd_of_not
        intro c hc
        exact Bool.eq_false_iff.mpr fun hspace => hlast ⟨c, hc, hspace⟩
      -- a code point at the end that is white space would have been found there
      rw [hkept, eq_comm, List.rdropWhile_eq_self_iff]
      intro hne hspace
      have hnotError : (chars bs).getLast hne ≠ runeError := by
        intro herror
        rw [herror, isSpace_runeError] at hspace
        cases hspace
      obtain ⟨before, hbefore⟩ :=
        exists_of_chars_concat hnotError (List.getLast?_eq_some_getLast hne)
      refine hlast ⟨_, ?_, hspace⟩
      have hfound := lastRune_append_encode before ((chars bs).getLast hne)
      rwa [← hbefore] at hfound

theorem chars_bytesTrimSpace (bs : List UInt8) :
    chars (bytesTrimSpace bs) = ((chars bs).dropWhile isSpace).rdropWhile isSpace := by
  rw [bytesTrimSpace_eq, chars_trimEnd, chars_trimFront]

/-! ## The `range` loop -/

/-- How many bytes a code point takes, or a byte that starts no valid encoding. -/
def width : Option Char → Nat
  | some c => c.utf8Size
  | none => 1

theorem width_pos (r : Option Char) : 0 < width r := by
  cases r with
  | none => exact Nat.one_pos
  | some c => exact c.utf8Size_pos

/-- The code points of a `range` loop with their offsets, from an offset on. -/
def rangeFrom : Nat → List (Option Char) → List (Nat × Char)
  | _, [] => []
  | i, r :: rs => (i, r.getD runeError) :: rangeFrom (i + width r) rs

/-- What `for i, r := range s` goes over. -/
def rangeString (bs : List UInt8) : List (Nat × Char) := rangeFrom 0 (runes bs.length bs)

theorem map_snd_rangeFrom (i : Nat) (rs : List (Option Char)) :
    (rangeFrom i rs).map Prod.snd = rs.map fun r => r.getD runeError := by
  induction rs generalizing i with
  | nil => rfl
  | cons r rs ih => rw [rangeFrom, List.map_cons, List.map_cons, ih]

theorem map_snd_rangeString (bs : List UInt8) : (rangeString bs).map Prod.snd = chars bs := by
  rw [rangeString, map_snd_rangeFrom, chars_eq le_rfl]

theorem le_of_mem_rangeFrom {i : Nat} {rs : List (Option Char)} {p : Nat × Char}
    (h : p ∈ rangeFrom i rs) : i ≤ p.1 := by
  induction rs generalizing i with
  | nil => cases h
  | cons r rs ih =>
    rw [rangeFrom] at h
    rcases List.mem_cons.mp h with rfl | h
    · exact le_rfl
    · exact le_trans (Nat.le_add_right i (width r)) (ih h)

/-- **Only the first code point has the offset 0.** -/
theorem rangeString_of_chars {c : Char} {cs : List Char} (h : chars bs = c :: cs) :
    ∃ later, rangeString bs = (0, c) :: later ∧ later.map Prod.snd = cs ∧
      ∀ p ∈ later, p.1 ≠ 0 := by
  have hmap := map_snd_rangeString bs
  unfold rangeString at hmap ⊢
  cases hrunes : runes bs.length bs with
  | nil =>
    rw [hrunes, h] at hmap
    cases hmap
  | cons r rs =>
    rw [hrunes, h, rangeFrom, List.map_cons, List.cons.injEq] at hmap
    obtain ⟨rfl, hlater⟩ := hmap
    refine ⟨_, rfl, hlater, fun p hp => ?_⟩
    have hpos := width_pos r
    have hle := le_of_mem_rangeFrom hp
    omega

/-! ## Classes of code points -/

/-- What is used of the tables of `unicode`. They grow with the versions of Unicode; the laws below
    the functions hold for all of them. -/
structure Tables where
  isLetter : Char → Bool
  isDigit : Char → Bool
  toLower : Char → Char
  isLetter_ascii : ∀ c, c.toNat < 128 → isLetter c = c.isAlpha
  isDigit_ascii : ∀ c, c.toNat < 128 → isDigit c = c.isDigit
  toLower_ascii : ∀ c, c.toNat < 128 → toLower c = c.toLower
  /-- The lower case of a letter is a letter. -/
  lower_letter : ∀ c, isLetter c = true → isLetter (toLower c) = true
  /-- Digits have no case. -/
  lower_digit : ∀ c, isDigit c = true → toLower c = c
  /-- White space is neither letter nor digit. -/
  space : ∀ c, isSpace c = true → isLetter c = false ∧ isDigit c = false

theorem isSpace_of_isAlpha {c : Char} (h : c.isAlpha = true) : isSpace c = false := by
  rw [Char.isAlpha, Bool.or_eq_true, Char.isUpper, Char.isLower] at h
  simp only [Bool.and_eq_true, decide_eq_true_eq] at h
  rcases h with ⟨hlo, hhi⟩ | ⟨hlo, hhi⟩
  · exact isSpace_of_visible (le_trans (by decide) hlo) (le_trans hhi (by decide))
  · exact isSpace_of_visible (le_trans (by decide) hlo) (le_trans hhi (by decide))

namespace Tables

/-- The tables of a Unicode that has no letters and digits beyond ASCII. -/
def ascii : Tables where
  isLetter := Char.isAlpha
  isDigit := Char.isDigit
  toLower := Char.toLower
  isLetter_ascii _ _ := rfl
  isDigit_ascii _ _ := rfl
  toLower_ascii _ _ := rfl
  lower_letter c h := by simpa using h
  lower_digit c h := by
    rw [Char.isDigit, Bool.and_eq_true, decide_eq_true_eq, decide_eq_true_eq] at h
    have hbelow : ¬(c.val ≥ 'A'.val ∧ c.val ≤ 'Z'.val) := by
      rintro ⟨hupper, -⟩
      exact absurd (UInt32.le_trans hupper h.2) (by decide)
    rw [Char.toLower, dif_neg hbelow]
  space c h := by
    constructor
    · exact Bool.eq_false_iff.mpr fun halpha => by simp [isSpace_of_isAlpha halpha] at h
    · exact Bool.eq_false_iff.mpr fun hdigit => by simp [isSpace_of_isDigit hdigit] at h

instance : Inhabited Tables := ⟨ascii⟩

def isWord (T : Tables) (c : Char) : Bool := T.isLetter c || T.isDigit c

variable {T : Tables} {c : Char}

theorem isWord_of_isDigit (h : T.isDigit c = true) : T.isWord c = true := by
  rw [isWord, h, Bool.or_true]

theorem isSpace_of_isWord (h : T.isWord c = true) : isSpace c = false := by
  rw [Bool.eq_false_iff]
  intro hspace
  obtain ⟨hletter, hdigit⟩ := T.space c hspace
  rw [isWord, hletter, hdigit] at h
  cases h

theorem isWord_toLower (h : T.isWord c = true) : T.isWord (T.toLower c) = true := by
  rcases Bool.or_eq_true _ _ |>.mp h with hletter | hdigit
  · rw [isWord, T.lower_letter c hletter, Bool.true_or]
  · rw [T.lower_digit c hdigit, isWord_of_isDigit hdigit]

theorem isWord_ascii (T : Tables) (h : c.toNat < 128) : T.isWord c = c.isAlphanum := by
  rw [isWord, T.isLetter_ascii c h, T.isDigit_ascii c h, Char.isAlphanum]

end Tables

end ServiceRuntime.GoUnicode
