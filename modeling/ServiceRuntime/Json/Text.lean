import ServiceRuntime.GoUtf8
import ServiceRuntime.Json.Scanner

/-!
# JSON Strings

Strings are written with the characters `<`, `>`, `&`, U+2028 and U+2029 escaped, so that the text
can stand inside of HTML or JavaScript. A written string is read back (`unquote_quote`), and it is
a JSON text of its own (`Scanner.IsString.run`).
-/

namespace ServiceRuntime.Json

open GoStrings GoUtf8

/-! ## Escapes -/

def hexByte (n : Nat) : UInt8 := if n < 10 then UInt8.ofNat (0x30 + n) else UInt8.ofNat (0x57 + n)

def hexValue (c : UInt8) : Option Nat :=
  if isDigit c then some (c.toNat - 0x30)
  else if 0x61 ≤ c ∧ c ≤ 0x66 then some (c.toNat - 0x57)
  else if 0x41 ≤ c ∧ c ≤ 0x46 then some (c.toNat - 0x37)
  else none

def escapeU (n : Nat) : List UInt8 :=
  [0x5C, 0x75, hexByte (n / 4096 % 16), hexByte (n / 256 % 16), hexByte (n / 16 % 16),
    hexByte (n % 16)]

def hex4 : List UInt8 → Option Nat
  | a :: b :: c :: d :: _ =>
    (hexValue a).bind fun a => (hexValue b).bind fun b => (hexValue c).bind fun c =>
      (hexValue d).map fun d => ((a * 16 + b) * 16 + c) * 16 + d
  | _ => none

def getu4 (bs : List UInt8) : Option Nat :=
  if bs.take 2 = [0x5C, 0x75] then hex4 (bs.drop 2) else none

theorem hexValue_hexByte {n : Nat} (h : n < 16) : hexValue (hexByte n) = some n := by
  interval_cases n <;> rfl

theorem isHex_hexByte {n : Nat} (h : n < 16) : isHex (hexByte n) = true := by
  interval_cases n <;> rfl

theorem hex4_escapeU {n : Nat} (h : n < 65536) (after : List UInt8) :
    hex4 ((escapeU n ++ after).drop 2) = some n := by
  show hex4 (hexByte (n / 4096 % 16) :: hexByte (n / 256 % 16) :: hexByte (n / 16 % 16) ::
    hexByte (n % 16) :: after) = some n
  rw [hex4, hexValue_hexByte (by omega), hexValue_hexByte (by omega), hexValue_hexByte (by omega),
    hexValue_hexByte (by omega)]
  simp only [Option.bind_some, Option.map_some, Option.some.injEq]
  omega

/-! ## Strings -/

def escapeChar (c : Char) : List UInt8 :=
  if c.toNat = 0x22 then [0x5C, 0x22]
  else if c.toNat = 0x5C then [0x5C, 0x5C]
  else if c.toNat = 0x08 then [0x5C, 0x62]
  else if c.toNat = 0x0C then [0x5C, 0x66]
  else if c.toNat = 0x0A then [0x5C, 0x6E]
  else if c.toNat = 0x0D then [0x5C, 0x72]
  else if c.toNat = 0x09 then [0x5C, 0x74]
  else if c.toNat < 0x20 ∨ c.toNat = 0x3C ∨ c.toNat = 0x3E ∨ c.toNat = 0x26 ∨
      c.toNat = 0x2028 ∨ c.toNat = 0x2029 then escapeU c.toNat
  else String.utf8EncodeChar c

def quote (s : String) : List UInt8 := 0x22 :: s.toList.flatMap escapeChar ++ [0x22]

/-- A code point as it stands between quotation marks; a byte that starts no valid encoding is
    written as the escape of the replacement character. -/
def escapeRune : Option Char → List UInt8
  | some c => escapeChar c
  | none => escapeU 0xFFFD

def quoteBytes (bs : List UInt8) : List UInt8 :=
  0x22 :: (runes bs.length bs).flatMap escapeRune ++ [0x22]

theorem quoteBytes_bytes (s : String) : quoteBytes (bytes s) = quote s := by
  rw [quoteBytes, runes_bytes, List.flatMap_map, quote]
  rfl

def decodePair (hi lo : Nat) : Option Char :=
  if 0xD800 ≤ hi ∧ hi < 0xDC00 ∧ 0xDC00 ≤ lo ∧ lo < 0xE000 then
    some (Char.ofNat ((hi - 0xD800) * 0x400 + (lo - 0xDC00) + 0x10000))
  else none

def escapedLetter (c : UInt8) : Option Char :=
  if c = 0x22 ∨ c = 0x5C ∨ c = 0x2F ∨ c = 0x27 then some (Char.ofNat c.toNat)
  else if c = 0x62 then some (Char.ofNat 0x08)
  else if c = 0x66 then some (Char.ofNat 0x0C)
  else if c = 0x6E then some (Char.ofNat 0x0A)
  else if c = 0x72 then some (Char.ofNat 0x0D)
  else if c = 0x74 then some (Char.ofNat 0x09)
  else none

/-- The character of an escape, of which `bs` is what follows the backslash. A surrogate without
    its other half becomes the replacement character. -/
def unquoteEscape : List UInt8 → Option (Char × List UInt8)
  | [] => none
  | letter :: rest =>
    if letter = 0x75 then
      (hex4 rest).map fun n =>
        if 0xD800 ≤ n ∧ n < 0xE000 then
          match (getu4 (rest.drop 4)).bind (decodePair n) with
          | some c => (c, rest.drop 10)
          | none => (runeError, rest.drop 4)
        else (Char.ofNat n, rest.drop 4)
    else (escapedLetter letter).map fun c => (c, rest)

/-- The first character of what stands between quotation marks, and what follows it. A byte that is
    not UTF-8 becomes the replacement character. -/
def unquoteChar : List UInt8 → Option (Char × List UInt8)
  | [] => none
  | c :: rest =>
    if c = 0x5C then unquoteEscape rest
    else if c = 0x22 ∨ c < 0x20 then none
    else some ((decodeRune (c :: rest)).1, (c :: rest).drop (decodeRune (c :: rest)).2)

/-- The characters between quotation marks; every one takes a byte, so the length is enough
    `fuel`. -/
def unquoteChars : Nat → List UInt8 → Option (List Char)
  | _, [] => some []
  | 0, _ :: _ => none
  | fuel + 1, b :: bs =>
    (unquoteChar (b :: bs)).bind fun (c, rest) => (unquoteChars fuel rest).map (c :: ·)

def unquote (raw : List UInt8) : Option String :=
  match raw with
  | 0x22 :: rest =>
    if rest.getLast? = some 0x22 then
      (unquoteChars rest.length rest.dropLast).map String.ofList
    else none
  | _ => none

/-! ### What is written is read back -/

theorem ofNat_toNat (c : Char) : Char.ofNat c.toNat = c := Char.ofNat_toNat c

/-- The bytes of a character that is not escaped are ordinary bytes of a string. -/
theorem plain_of_mem_utf8EncodeChar {c : Char} (hquote : c.toNat ≠ 0x22)
    (hbackslash : c.toNat ≠ 0x5C) (hcontrol : ¬ c.toNat < 0x20) {b : UInt8}
    (hb : b ∈ String.utf8EncodeChar c) : b ≠ 0x22 ∧ b ≠ 0x5C ∧ ¬ b < 0x20 := by
  by_cases hascii : c.toNat < 128
  · rw [utf8EncodeChar_ascii hascii, List.mem_singleton] at hb
    have htoNat : b.toNat = c.toNat := by
      rw [hb]
      exact UInt8.toNat_ofNat_of_lt' (show c.toNat < 256 by omega)
    refine ⟨?_, ?_, ?_⟩
    · rintro rfl
      exact hquote htoNat.symm
    · rintro rfl
      exact hbackslash htoNat.symm
    · rw [UInt8.lt_iff_toNat_lt, htoNat]
      exact hcontrol
  -- all bytes of a longer encoding are beyond ASCII
  · have hhigh := le_of_mem_utf8EncodeChar (by omega) hb
    refine ⟨?_, ?_, ?_⟩
    · rintro rfl
      exact absurd hhigh (by decide)
    · rintro rfl
      exact absurd hhigh (by decide)
    · intro hlow
      exact absurd (UInt8.lt_of_le_of_lt hhigh hlow) (by decide)

theorem unquoteChar_escapeU {c : Char} (h : c.toNat < 65536) (after : List UInt8) :
    unquoteChar (escapeU c.toNat ++ after) = some (c, after) := by
  have hvalue := hex4_escapeU h after
  -- a character is no surrogate
  have hvalid : c.toNat < 0xD800 ∨ 0xDFFF < c.toNat ∧ c.toNat < 0x110000 := c.valid
  unfold escapeU at hvalue ⊢
  simp only [List.cons_append, List.nil_append, List.drop_succ_cons, List.drop_zero] at hvalue ⊢
  rw [unquoteChar, if_pos rfl, unquoteEscape, if_pos rfl, hvalue, Option.map_some,
    if_neg (by omega), ofNat_toNat]
  rfl

theorem unquoteChar_encode {c : Char} (hquote : c.toNat ≠ 0x22) (hbackslash : c.toNat ≠ 0x5C)
    (hcontrol : ¬ c.toNat < 0x20) (after : List UInt8) :
    unquoteChar (String.utf8EncodeChar c ++ after) = some (c, after) := by
  have hrune : decodeRune (String.utf8EncodeChar c ++ after) = (c, c.utf8Size) := by
    unfold decodeRune
    rw [firstRune_encode_append]
  have hdrop : (String.utf8EncodeChar c ++ after).drop c.utf8Size = after := by
    rw [← String.length_utf8EncodeChar]
    exact List.drop_left
  have hplain := fun b => plain_of_mem_utf8EncodeChar (b := b) hquote hbackslash hcontrol
  cases htext : String.utf8EncodeChar c with
  | nil => exact absurd htext String.utf8EncodeChar_ne_nil
  | cons b bs =>
    obtain ⟨hb, hb', hb''⟩ := hplain b (by rw [htext]; exact List.mem_cons_self)
    rw [htext, List.cons_append] at hrune hdrop
    rw [List.cons_append, unquoteChar, if_neg hb', if_neg (by simp [hb, hb'']), hrune, hdrop]

theorem unquoteChar_escapeChar (c : Char) (after : List UInt8) :
    unquoteChar (escapeChar c ++ after) = some (c, after) := by
  -- an escape with a letter stands for the character of that number
  have hletter : ∀ {letter : UInt8} {n : Nat}, c.toNat = n → letter ≠ 0x75 →
      escapedLetter letter = some (Char.ofNat n) →
      unquoteChar ([0x5C, letter] ++ after) = some (c, after) := by
    intro letter n hn hne hescaped
    rw [← hn, ofNat_toNat] at hescaped
    simp only [List.cons_append, List.nil_append]
    rw [unquoteChar, if_pos rfl, unquoteEscape, if_neg hne, hescaped]
    rfl
  unfold escapeChar
  split
  · exact hletter ‹_› (by decide) rfl
  split
  · exact hletter ‹_› (by decide) rfl
  split
  · exact hletter ‹_› (by decide) rfl
  split
  · exact hletter ‹_› (by decide) rfl
  split
  · exact hletter ‹_› (by decide) rfl
  split
  · exact hletter ‹_› (by decide) rfl
  split
  · exact hletter ‹_› (by decide) rfl
  split
  · rename_i hescape
    exact unquoteChar_escapeU (by omega) after
  · rename_i hquote hbackslash _ _ _ _ _ hplain
    exact unquoteChar_encode hquote hbackslash (fun h => hplain (.inl h)) after

theorem unquoteChar_escapeRune (r : Option Char) (after : List UInt8) :
    unquoteChar (escapeRune r ++ after) = some (r.getD runeError, after) := by
  cases r with
  | none => exact unquoteChar_escapeU (c := runeError) (by decide) after
  | some c => exact unquoteChar_escapeChar c after

/-- Written characters are read back one by one, whatever the escapes are. -/
theorem unquoteChars_flatMap {α : Type*} {escape : α → List UInt8} {char : α → Char}
    (hread : ∀ a after, unquoteChar (escape a ++ after) = some (char a, after)) (xs : List α)
    {fuel : Nat} (h : (xs.flatMap escape).length ≤ fuel) :
    unquoteChars fuel (xs.flatMap escape) = some (xs.map char) := by
  -- every escape takes a byte, so the length of the text is enough fuel
  have hne : ∀ a, escape a ≠ [] := by
    intro a hnil
    have hchar := hread a []
    rw [hnil] at hchar
    cases hchar
  induction xs generalizing fuel with
  | nil => cases fuel <;> rfl
  | cons a xs ih =>
    rw [List.flatMap_cons] at h ⊢
    have hchar := hread a (xs.flatMap escape)
    have hpos := List.length_pos_iff.mpr (hne a)
    rw [List.length_append] at h
    obtain ⟨fuel', rfl⟩ := Nat.exists_eq_succ_of_ne_zero (show fuel ≠ 0 by omega)
    generalize htext : escape a ++ xs.flatMap escape = text at hchar ⊢
    cases text with
    | nil => exact absurd (List.append_eq_nil_iff.mp htext).1 (hne a)
    | cons b bs =>
      rw [unquoteChars, hchar, Option.bind_some]
      dsimp only
      rw [ih (by omega)]
      rfl

theorem unquote_flatMap {α : Type*} {escape : α → List UInt8} {char : α → Char}
    (hread : ∀ a after, unquoteChar (escape a ++ after) = some (char a, after)) (xs : List α) :
    unquote (0x22 :: xs.flatMap escape ++ [0x22]) = some (String.ofList (xs.map char)) := by
  unfold unquote
  simp only [List.cons_append, List.getLast?_concat, if_true, List.dropLast_concat]
  rw [unquoteChars_flatMap hread _ (by simp), Option.map_some]

/-- **A written string is read back**, with the replacement character for what was not valid. -/
theorem unquote_quoteBytes (bs : List UInt8) : unquote (quoteBytes bs) = some (toValid bs) := by
  rw [quoteBytes, unquote_flatMap unquoteChar_escapeRune, toValid]

theorem unquote_quote (s : String) : unquote (quote s) = some s := by
  rw [← quoteBytes_bytes, unquote_quoteBytes, toValid_bytes]

/-! ### A written string is a JSON text -/

namespace Scanner

def inString (stack : List ParseState) : Scanner := ⟨.inString, stack⟩

/-- A text that leaves the machine inside of the string, where nothing is opened. -/
def StaysInString (bs : List UInt8) : Prop :=
  ∀ stack, (inString stack).run bs = some (inString stack) ∧ (inString stack).Tight bs ∧
    (inString stack).nesting bs = stack.length

theorem StaysInString.append {xs ys : List UInt8} (hxs : StaysInString xs)
    (hys : StaysInString ys) : StaysInString (xs ++ ys) := by
  intro stack
  obtain ⟨hrun, htight, hnesting⟩ := hxs stack
  obtain ⟨hrun', htight', hnesting'⟩ := hys stack
  refine ⟨?_, htight.append hrun htight', ?_⟩
  · rw [run_append, hrun]
    exact hrun'
  · rw [nesting_append hrun, hnesting, hnesting', max_self]

theorem staysInString_nil : StaysInString [] := fun _ => ⟨rfl, trivial, rfl⟩

theorem staysInString_plain {bs : List UInt8}
    (h : ∀ b ∈ bs, b ≠ 0x22 ∧ b ≠ 0x5C ∧ ¬ b < 0x20) : StaysInString bs := by
  induction bs with
  | nil => exact staysInString_nil
  | cons b bs ih =>
    obtain ⟨hquote, hbackslash, hcontrol⟩ := h b List.mem_cons_self
    have hstep : ∀ stack, (inString stack).step b = some (inString stack) := by
      intro stack
      unfold inString step
      dsimp only
      rw [if_neg hquote, if_neg hbackslash, if_neg hcontrol]
    have hbyte : StaysInString [b] := by
      intro stack
      refine ⟨?_, ⟨fun _ => rfl, fun _ _ => trivial⟩, ?_⟩
      · rw [run, hstep]
        rfl
      · rw [nesting_cons (hstep stack)]
        exact max_self _
    exact hbyte.append (ih fun b' hb' => h b' (List.mem_cons_of_mem b hb'))

theorem staysInString_letter {letter : UInt8}
    (h : ∀ stack, (Scanner.mk .inStringEsc stack).step letter = some (inString stack)) :
    StaysInString [0x5C, letter] := by
  intro stack
  have hbackslash : (inString stack).step 0x5C = some ⟨.inStringEsc, stack⟩ := rfl
  refine ⟨?_, ⟨fun _ => rfl, fun s hs => ?_⟩, ?_⟩
  · rw [run, hbackslash, Option.bind_some, run, h]
    rfl
  · rw [hbackslash] at hs
    cases hs
    exact ⟨fun _ => rfl, fun _ _ => trivial⟩
  · rw [nesting_cons hbackslash, nesting_cons (h stack)]
    simp [inString, nesting]

theorem staysInString_escapeU (n : Nat) : StaysInString (escapeU n) := by
  intro stack
  -- the machine counts the four digits
  have hhex : ∀ (state : State) {k : Nat}, k < 16 →
      stepHex state stack (hexByte k) = some ⟨state, stack⟩ :=
    fun state k hk => if_pos (isHex_hexByte hk)
  have h₁ : (inString stack).step 0x5C = some ⟨.inStringEsc, stack⟩ := rfl
  have h₂ : (Scanner.mk .inStringEsc stack).step 0x75 = some ⟨.inStringEscU, stack⟩ := rfl
  have h₃ : (Scanner.mk .inStringEscU stack).step (hexByte (n / 4096 % 16)) =
      some ⟨.inStringEscU1, stack⟩ := hhex _ (by omega)
  have h₄ : (Scanner.mk .inStringEscU1 stack).step (hexByte (n / 256 % 16)) =
      some ⟨.inStringEscU12, stack⟩ := hhex _ (by omega)
  have h₅ : (Scanner.mk .inStringEscU12 stack).step (hexByte (n / 16 % 16)) =
      some ⟨.inStringEscU123, stack⟩ := hhex _ (by omega)
  have h₆ : (Scanner.mk .inStringEscU123 stack).step (hexByte (n % 16)) =
      some (inString stack) := hhex _ (by omega)
  refine ⟨?_, ?_, ?_⟩
  · simp only [escapeU, run, h₁, h₂, h₃, h₄, h₅, h₆, Option.bind_some]
  · simp only [escapeU, Tight, h₁, h₂, h₃, h₄, h₅, h₆, Option.some.injEq, forall_eq']
    exact ⟨fun _ => rfl, fun _ => rfl, fun _ => rfl, fun _ => rfl, fun _ => rfl, fun _ => rfl,
      trivial⟩
  · simp only [escapeU, nesting, h₁, h₂, h₃, h₄, h₅, h₆, Option.elim_some]
    simp [inString]

theorem staysInString_escapeChar (c : Char) : StaysInString (escapeChar c) := by
  unfold escapeChar
  repeat' split
  all_goals first
    | exact staysInString_letter fun _ => rfl
    | exact staysInString_escapeU _
    | skip
  rename_i hquote hbackslash _ _ _ _ _ hplain
  exact staysInString_plain fun b hb =>
    plain_of_mem_utf8EncodeChar hquote hbackslash (fun h => hplain (.inl h)) hb

theorem staysInString_escapeRune (r : Option Char) : StaysInString (escapeRune r) := by
  cases r with
  | none => exact staysInString_escapeU _
  | some c => exact staysInString_escapeChar c

theorem staysInString_flatMap {α : Type*} {escape : α → List UInt8}
    (h : ∀ a, StaysInString (escape a)) (xs : List α) : StaysInString (xs.flatMap escape) := by
  induction xs with
  | nil => exact staysInString_nil
  | cons a xs ih =>
    rw [List.flatMap_cons]
    exact (h a).append ih

def IsString (text : List UInt8) : Prop :=
  ∃ inner, text = 0x22 :: inner ++ [0x22] ∧ StaysInString inner

theorem isString_quoteBytes (bs : List UInt8) : IsString (quoteBytes bs) :=
  ⟨_, rfl, staysInString_flatMap staysInString_escapeRune _⟩

theorem isString_quote (s : String) : IsString (quote s) := by
  rw [← quoteBytes_bytes]
  exact isString_quoteBytes _

theorem IsString.run {text : List UInt8} (h : IsString text) {s : Scanner}
    (hopen : s.step 0x22 = some (inString s.stack)) :
    s.run text = some ⟨.endValue, s.stack⟩ ∧ s.Tight text ∧ s.nesting text = s.stack.length := by
  obtain ⟨inner, rfl, hinner⟩ := h
  obtain ⟨hrun, htight, hnesting⟩ := hinner s.stack
  have hclose : (inString s.stack).run [0x22] = some ⟨.endValue, s.stack⟩ := rfl
  refine ⟨?_, ?_, ?_⟩
  · rw [List.cons_append, Scanner.run, hopen, Option.bind_some, run_append, hrun]
    exact hclose
  · refine ⟨fun h => absurd h (by decide), fun s' hs' => ?_⟩
    rw [hopen] at hs'
    cases hs'
    exact htight.append hrun ⟨fun _ => rfl, fun _ _ => trivial⟩
  · have hlast : (inString s.stack).step 0x22 = some ⟨.endValue, s.stack⟩ := rfl
    rw [List.cons_append, nesting_cons hopen, nesting_append hrun, hnesting, nesting_cons hlast]
    simp [inString, nesting]

end Scanner

end ServiceRuntime.Json
