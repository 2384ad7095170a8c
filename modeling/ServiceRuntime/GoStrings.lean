import Mathlib

/-!
# Go Strings and Byte Slices

The few functions of Go's `strings`, `unicode` and `encoding/hex` packages that the
runtime calls. A Go string is a Lean `String` (text that is valid UTF-8) and a `[]byte`
is a list of bytes.
-/

namespace ServiceRuntime.GoStrings

/-- `unicode.IsSpace`: the code points with the White_Space property. -/
def isSpace (c : Char) : Bool :=
  let n := c.toNat
  -- the Latin-1 range is listed in the function itself
  (0x09 ≤ n && n ≤ 0x0D) || n == 0x20 || n == 0x85 || n == 0xA0 ||
  -- the rest comes from the Unicode tables
  n == 0x1680 || (0x2000 ≤ n && n ≤ 0x200A) || n == 0x2028 || n == 0x2029 ||
  n == 0x202F || n == 0x205F || n == 0x3000

variable {c : Char} {s t : String}

theorem isSpace_of_visible (hlo : '!' ≤ c) (hhi : c ≤ '~') : isSpace c = false := by
  have hlo' : 0x21 ≤ c.toNat := UInt32.le_iff_toNat_le.mp hlo
  have hhi' : c.toNat ≤ 0x7E := UInt32.le_iff_toNat_le.mp hhi
  unfold isSpace
  simp
  omega

theorem isSpace_of_isDigit (h : c.isDigit = true) : isSpace c = false := by
  rw [Char.isDigit, Bool.and_eq_true, decide_eq_true_eq, decide_eq_true_eq] at h
  exact isSpace_of_visible (le_trans (by decide) h.1) (le_trans h.2 (by decide))

def trimSpace (s : String) : String :=
  String.ofList ((s.toList.dropWhile isSpace).reverse.dropWhile isSpace).reverse

theorem trimSpace_eq_self {first last : Char} (hfirst : s.toList.head? = some first)
    (hlast : s.toList.getLast? = some last) (hfirstSpace : isSpace first = false)
    (hlastSpace : isSpace last = false) : trimSpace s = s := by
  have hkeep : ∀ {cs : List Char} {c : Char}, cs.head? = some c → isSpace c = false →
      cs.dropWhile isSpace = cs := by
    intro cs c hc hspace
    obtain ⟨rest, rfl⟩ := List.head?_eq_some_iff.mp hc
    rw [List.dropWhile_cons_of_neg (by simp [hspace])]
  unfold trimSpace
  rw [hkeep hfirst hfirstSpace, hkeep (List.head?_reverse.trans hlast) hlastSpace,
    List.reverse_reverse, String.ofList_toList]

theorem toList_trimSpace (s : String) :
    (trimSpace s).toList = (s.toList.dropWhile isSpace).rdropWhile isSpace := String.toList_ofList

theorem dropWhile_trimmed (cs : List Char) :
    ((cs.dropWhile isSpace).rdropWhile isSpace).dropWhile isSpace =
      (cs.dropWhile isSpace).rdropWhile isSpace := by
  rw [List.dropWhile_eq_self_iff]
  intro hpos
  have hkept := List.rdropWhile_prefix isSpace (l := cs.dropWhile isSpace)
  have hlen := lt_of_lt_of_le hpos hkept.length_le
  rw [hkept.getElem hpos]
  exact List.dropWhile_get_zero_not isSpace cs hlen

theorem trimSpace_trimSpace (s : String) : trimSpace (trimSpace s) = trimSpace s := by
  apply String.toList_injective
  rw [toList_trimSpace, toList_trimSpace, dropWhile_trimmed, List.rdropWhile_idempotent]

theorem isSpace_of_head_trimSpace (h : (trimSpace s).toList.head? = some c) :
    isSpace c = false := by
  obtain ⟨rest, hrest⟩ := List.head?_eq_some_iff.mp h
  have hkept := dropWhile_trimmed s.toList
  rw [← toList_trimSpace, hrest, List.dropWhile_eq_self_iff] at hkept
  exact Bool.eq_false_iff.mpr (hkept (Nat.succ_pos _))

theorem trimSpace_of_front (h : t.toList <+: (trimSpace s).toList)
    (hlast : ∀ c, t.toList.getLast? = some c → isSpace c = true → False) : trimSpace t = t := by
  cases ht : t.toList with
  | nil =>
    rw [String.toList_eq_nil_iff] at ht
    rw [ht]
    rfl
  | cons first rest =>
    obtain ⟨last, hl⟩ : ∃ last, t.toList.getLast? = some last := by
      rw [ht]
      exact ⟨_, List.getLast?_cons⟩
    have hfirst : t.toList.head? = some first := by rw [ht]; rfl
    have hfront : (trimSpace s).toList.head? = some first := by
      obtain ⟨tail, htail⟩ := h
      rw [← htail, List.head?_append, hfirst, Option.some_or]
    exact trimSpace_eq_self hfirst hl (isSpace_of_head_trimSpace hfront)
      (Bool.eq_false_iff.mpr (hlast last hl))

theorem mem_of_mem_trimSpace (h : c ∈ (trimSpace s).toList) : c ∈ s.toList := by
  rw [trimSpace, String.toList_ofList, List.mem_reverse] at h
  have hback := (List.dropWhile_sublist _).mem h
  rw [List.mem_reverse] at hback
  exact (List.dropWhile_sublist _).mem hback

/-- `strings.ToLower` on one character, as far as the result is compared with ASCII text: the
    characters beyond ASCII stay there, except for two with an ASCII letter for their lower case. -/
def lowerASCII (c : Char) : Char :=
  if c.toNat = 0x130 then 'i' else if c.toNat = 0x212A then 'k' else c.toLower

def contains (s text : String) : Bool := s.toList.tails.any text.toList.isPrefixOf

def hasSuffix (s suffix : String) : Bool := suffix.toList.isSuffixOf s.toList

theorem hasSuffix_append (s suffix : String) : hasSuffix (s ++ suffix) suffix = true := by
  rw [hasSuffix, String.toList_append, List.isSuffixOf_iff_suffix]
  exact List.suffix_append s.toList suffix.toList

theorem not_hasSuffix_of_getLast? {suffix : String} {d : Char} (ht : t.toList.getLast? = some c)
    (hsuffix : suffix.toList.getLast? = some d) (hne : c ≠ d) :
    hasSuffix (s ++ t) suffix = false := by
  rw [Bool.eq_false_iff, hasSuffix, String.toList_append, Ne, List.isSuffixOf_iff_suffix]
  rintro ⟨front, hfront⟩
  have hlast := congrArg List.getLast? hfront
  rw [List.getLast?_append, List.getLast?_append, hsuffix, ht, Option.some_or, Option.some_or,
    Option.some.injEq] at hlast
  exact hne hlast.symm

/-- The conversion `[]byte(s)`. -/
def bytes (s : String) : List UInt8 := s.toList.flatMap String.utf8EncodeChar

def hexDigit (n : Nat) : Char :=
  if n < 10 then Char.ofNat ('0'.toNat + n) else Char.ofNat ('a'.toNat + (n - 10))

theorem isSpace_hexDigit {n : Nat} (h : n < 16) : isSpace (hexDigit n) = false := by
  interval_cases n <;> decide

/-- A number in `digits` hexadecimal digits. -/
def hexDigits (digits n : Nat) : List Char :=
  (List.range digits).reverse.map fun i => hexDigit (n / 16 ^ i % 16)

/-- A character as `%q` writes it. `isPrint` is `strconv.IsPrint` beyond ASCII, which depends on the
    version of Unicode. -/
def quoteChar (isPrint : Char → Bool) (c : Char) : List Char :=
  let n := c.toNat
  if c = '"' ∨ c = '\\' then ['\\', c]
  else if n = 7 then ['\\', 'a']
  else if n = 8 then ['\\', 'b']
  else if n = 9 then ['\\', 't']
  else if n = 10 then ['\\', 'n']
  else if n = 11 then ['\\', 'v']
  else if n = 12 then ['\\', 'f']
  else if n = 13 then ['\\', 'r']
  else if n < 0x20 ∨ n = 0x7F then '\\' :: 'x' :: hexDigits 2 n
  else if n < 0x80 ∨ isPrint c then [c]
  else if n < 0x10000 then '\\' :: 'u' :: hexDigits 4 n
  else '\\' :: 'U' :: hexDigits 8 n

/-- The verb `%q` of a string. -/
def goQuote (isPrint : Char → Bool) (s : String) : String :=
  String.ofList ('"' :: s.toList.flatMap (quoteChar isPrint) ++ ['"'])

-- a zero-width space, a tab and a quotation mark
example : goQuote (fun _ => false) "a\u200b\t\"" = "\"a\\u200b\\t\\\"\"" := by decide +kernel

/-- `hex.EncodeToString`. -/
def hexEncodeToString (src : List UInt8) : String :=
  String.ofList (src.flatMap fun b => [hexDigit (b.toNat / 16), hexDigit (b.toNat % 16)])

/-- The value of a hexadecimal digit of either case, as `encoding/hex` reads it. -/
def fromHexChar (c : Char) : Option Nat :=
  let n := c.toNat
  if 0x30 ≤ n ∧ n ≤ 0x39 then some (n - 0x30)
  else if 0x61 ≤ n ∧ n ≤ 0x66 then some (n - 0x61 + 10)
  else if 0x41 ≤ n ∧ n ≤ 0x46 then some (n - 0x41 + 10)
  else none

/-- `hex.Decode`. -/
def hexDecode : List Char → Option (List UInt8)
  | [] => some []
  | [_] => none
  | a :: b :: rest => do
    let high ← fromHexChar a
    let low ← fromHexChar b
    let bytes ← hexDecode rest
    some (UInt8.ofNat (16 * high + low) :: bytes)

theorem fromHexChar_hexDigit {n : Nat} (h : n < 16) : fromHexChar (hexDigit n) = some n := by
  interval_cases n <;> decide

theorem hexDecode_hexEncodeToString (src : List UInt8) :
    hexDecode (hexEncodeToString src).toList = some src := by
  rw [hexEncodeToString, String.toList_ofList]
  induction src with
  | nil => rfl
  | cons b src ih =>
    have hb := b.toNat_lt
    have hbyte : 16 * (b.toNat / 16) + b.toNat % 16 = b.toNat := by omega
    rw [List.flatMap_cons, List.cons_append, List.cons_append, List.nil_append, hexDecode,
      fromHexChar_hexDigit (by omega), fromHexChar_hexDigit (by omega), ih]
    simp only [Option.bind_eq_bind, Option.bind_some, hbyte, UInt8.ofNat_toNat]

theorem hexEncodeToString_injective : Function.Injective hexEncodeToString := by
  intro as bs h
  have has := hexDecode_hexEncodeToString as
  rw [h, hexDecode_hexEncodeToString] at has
  exact (Option.some.inj has).symm

theorem length_hexEncodeToString (src : List UInt8) :
    (hexEncodeToString src).toList.length = 2 * src.length := by
  simp [hexEncodeToString, List.length_flatMap, Nat.mul_comm]

theorem mem_hexEncodeToString {src : List UInt8} (h : c ∈ (hexEncodeToString src).toList) :
    ∃ n < 16, c = hexDigit n := by
  simp only [hexEncodeToString, String.toList_ofList, List.mem_flatMap, List.mem_cons,
    List.not_mem_nil, or_false] at h
  obtain ⟨b, -, hc⟩ := h
  have hb := b.toNat_lt
  rcases hc with hc | hc
  · exact ⟨_, by omega, hc⟩
  · exact ⟨_, by omega, hc⟩

/-! ## Separators -/

/-- Where two texts with a separator in each are the same, the separators are at one place or
    one of them lies in the part before the other. -/
theorem append_cons_cases {α : Type} {c : α} {a b x y : List α} (h : a ++ c :: x = b ++ c :: y) :
    (a = b ∧ x = y) ∨ (∃ t, b = a ++ c :: t ∧ x = t ++ c :: y) ∨
      (∃ t, a = b ++ c :: t ∧ y = t ++ c :: x) := by
  rcases List.append_eq_append_iff.mp h with ⟨t, hb, hx⟩ | ⟨t, ha, hy⟩
  · cases t with
    | nil =>
      rw [List.nil_append, List.cons.injEq] at hx
      rw [List.append_nil] at hb
      exact .inl ⟨hb.symm, hx.2⟩
    | cons d t =>
      rw [List.cons_append, List.cons.injEq] at hx
      obtain ⟨rfl, hx⟩ := hx
      exact .inr (.inl ⟨t, hb, hx⟩)
  · cases t with
    | nil =>
      rw [List.nil_append, List.cons.injEq] at hy
      rw [List.append_nil] at ha
      exact .inl ⟨ha, hy.2.symm⟩
    | cons d t =>
      rw [List.cons_append, List.cons.injEq] at hy
      obtain ⟨rfl, hy⟩ := hy
      exact .inr (.inr ⟨t, ha, hy⟩)

theorem append_cons_of_not_mem {α : Type} {c : α} {a b x y : List α} (hb : c ∉ b)
    (h : a ++ c :: x = b ++ c :: y) : (a = b ∧ x = y) ∨ ∃ t, a = b ++ c :: t := by
  rcases append_cons_cases h with hsame | ⟨t, rfl, -⟩ | ⟨t, ha, -⟩
  · exact .inl hsame
  · exact absurd (List.mem_append_right a List.mem_cons_self) hb
  · exact .inr ⟨t, ha⟩

/-! ## Joining -/

def join (sep : String) : List String → String
  | [] => ""
  | [s] => s
  | s :: t :: rest => s ++ sep ++ join sep (t :: rest)

def joinTail (c : Char) : List String → List Char
  | [] => []
  | t :: rest => c :: (join (String.singleton c) (t :: rest)).toList

theorem toList_join_cons (c : Char) (s : String) (rest : List String) :
    (join (String.singleton c) (s :: rest)).toList = s.toList ++ joinTail c rest := by
  cases rest with
  | nil => exact (List.append_nil _).symm
  | cons t rest =>
    rw [join, String.toList_append, String.toList_append, String.toList_singleton,
      List.append_assoc]
    rfl

theorem takeWhile_join (hs : c ∉ s.toList) (rest : List String) :
    (join (String.singleton c) (s :: rest)).toList.takeWhile (· ≠ c) = s.toList ∧
      (join (String.singleton c) (s :: rest)).toList.dropWhile (· ≠ c) = joinTail c rest := by
  have hall : ∀ x ∈ s.toList, decide (x ≠ c) = true := by
    intro x hx
    rw [decide_eq_true_eq]
    rintro rfl
    exact hs hx
  rw [toList_join_cons, List.takeWhile_append_of_pos hall, List.dropWhile_append_of_pos hall]
  cases rest with
  | nil | cons t rest => simp [joinTail]

/-- A joined text can be taken apart again, if no part is empty or contains the separator. -/
theorem join_injective {as bs : List String} (has : ∀ s ∈ as, s ≠ "" ∧ c ∉ s.toList)
    (hbs : ∀ s ∈ bs, s ≠ "" ∧ c ∉ s.toList)
    (h : join (String.singleton c) as = join (String.singleton c) bs) : as = bs := by
  -- a text with a part is not empty
  have hne : ∀ (s : String) (rest : List String), s ≠ "" →
      join (String.singleton c) (s :: rest) ≠ "" := by
    intro s rest hs hempty
    have hchars := toList_join_cons c s rest
    rw [hempty, String.toList_empty, eq_comm, List.append_eq_nil_iff] at hchars
    exact hs (String.toList_eq_nil_iff.mp hchars.1)
  induction as generalizing bs with
  | nil =>
    cases bs with
    | nil => rfl
    | cons b bs => exact absurd h.symm (hne b bs (hbs b List.mem_cons_self).1)
  | cons a as ih =>
    cases bs with
    | nil => exact absurd h (hne a as (has a List.mem_cons_self).1)
    | cons b bs =>
      -- the first parts end at the first separator
      obtain ⟨hfirst, htail⟩ := takeWhile_join (has a List.mem_cons_self).2 as
      obtain ⟨hfirst', htail'⟩ := takeWhile_join (hbs b List.mem_cons_self).2 bs
      rw [h, hfirst'] at hfirst
      rw [h, htail'] at htail
      have hrest : join (String.singleton c) as = join (String.singleton c) bs := by
        cases as with
        | nil =>
          cases bs with
          | nil => rfl
          | cons t bs => cases htail
        | cons t as =>
          cases bs with
          | nil => cases htail
          | cons u bs => exact String.toList_injective (List.cons.inj htail).2.symm
      rw [String.toList_injective hfirst, ih (fun s hs => has s (List.mem_cons_of_mem _ hs))
        (fun s hs => hbs s (List.mem_cons_of_mem _ hs)) hrest]

/-! ## Cutting -/

/-- `strings.Cut` at a separator of one character; the second part is `none` if there is none. -/
def cut (c : Char) (s : List Char) : List Char × Option (List Char) :=
  (s.takeWhile (· ≠ c), (s.dropWhile (· ≠ c)).tail?)

theorem cut_append {a : List Char} (ha : c ∉ a) (b : List Char) :
    cut c (a ++ c :: b) = (a, some b) := by
  have hne : ∀ x ∈ a, decide (x ≠ c) = true := fun x hx => by
    simpa using fun h : x = c => ha (h ▸ hx)
  rw [cut, List.takeWhile_append_of_pos hne, List.dropWhile_append_of_pos hne]
  simp

theorem cut_of_notMem {a : List Char} (ha : c ∉ a) : cut c a = (a, none) := by
  have hne : ∀ x ∈ a, decide (x ≠ c) = true := fun x hx => by
    simpa using fun h : x = c => ha (h ▸ hx)
  rw [cut, List.takeWhile_eq_self_iff.mpr hne, List.dropWhile_eq_nil_iff.mpr hne]
  rfl

theorem eq_of_cut_some {s a b : List Char} (h : cut c s = (a, some b)) : s = a ++ c :: b := by
  by_cases hc : c ∈ s
  -- the text is cut at the first separator
  · obtain ⟨a', b', rfl, ha'⟩ := List.eq_append_cons_of_mem hc
    rw [cut_append ha'] at h
    cases h
    rfl
  · rw [cut_of_notMem hc] at h
    cases h

/-! ## Splitting -/

/-- `strings.Split` at a separator of one character. -/
def split (c : Char) (s : String) : List String := (s.toList.splitOn c).map String.ofList

theorem split_join (c : Char) (s : String) (rest : List String) :
    split c (join (String.singleton c) (s :: rest)) = (s :: rest).flatMap (split c) := by
  induction rest generalizing s with
  | nil => simp [join]
  | cons t rest ih =>
    rw [split, toList_join_cons, joinTail, List.splitOn_append_cons_self, List.map_append]
    change split c s ++ split c (join (String.singleton c) (t :: rest)) = _
    rw [ih]
    simp only [List.flatMap_cons]

end ServiceRuntime.GoStrings
