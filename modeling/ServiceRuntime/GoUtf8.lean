import ServiceRuntime.GoStrings

/-!
# UTF-8 in Byte Slices

What Go's `unicode/utf8` and `bytes` packages do with the code points of a byte slice. The bytes
may be anything; where they are the bytes of a string, its characters come back
(`ofBytes_bytes`).

What a valid encoding is does not depend on what stands before it or after it. So a slice can be
followed code point by code point (`rune_induction`), and white space around it makes no
difference to what is left after trimming (`bytesTrimSpace_pad`).
-/

namespace ServiceRuntime.GoUtf8

open GoStrings

/-! ## One code point -/

/-- The code point at the front of a slice, if there is a valid encoding of one. -/
def firstRune (bs : List UInt8) : Option Char := (bs.take 4).toByteArray.utf8DecodeChar? 0

def runeError : Char := Char.ofNat 0xFFFD

/-- `utf8.DecodeRune` for a slice that is not empty: a byte that starts no valid encoding is an
    error of width one. -/
def decodeRune (bs : List UInt8) : Char × Nat :=
  match firstRune bs with
  | some c => (c, c.utf8Size)
  | none => (runeError, 1)

theorem length_utf8EncodeChar_le (c : Char) : (String.utf8EncodeChar c).length ≤ 4 := by
  rw [String.length_utf8EncodeChar]
  exact Char.utf8Size_le_four c

theorem firstRune_encode_append (c : Char) (after : List UInt8) :
    firstRune (String.utf8EncodeChar c ++ after) = some c := by
  unfold firstRune
  rw [List.take_append, List.take_of_length_le (length_utf8EncodeChar_le c),
    List.toByteArray_append]
  exact ByteArray.utf8DecodeChar?_utf8EncodeChar_append

theorem drop_append_encode (c : Char) (after : List UInt8) :
    (String.utf8EncodeChar c ++ after).drop c.utf8Size = after := by
  rw [← String.length_utf8EncodeChar]
  exact List.drop_left

variable {bs xs ys front : List UInt8} {c : Char} {b last first : UInt8} {fuel : Nat}
  {cs : List Char}

theorem eq_encode_append_of_firstRune (h : firstRune bs = some c) :
    bs = String.utf8EncodeChar c ++ bs.drop c.utf8Size := by
  have hencode := String.toByteArray_utf8EncodeChar_of_utf8DecodeChar?_eq_some h
  have hfront : String.utf8EncodeChar c = (bs.take 4).take c.utf8Size := by
    apply List.toByteArray_inj.mp
    rw [hencode]
    apply ByteArray.ext
    simp
  rw [List.take_take, Nat.min_eq_left (Char.utf8Size_le_four c)] at hfront
  rw [hfront]
  exact (List.take_append_drop _ _).symm

theorem le_of_mem_utf8EncodeChar (h : 128 ≤ c.toNat) (hb : b ∈ String.utf8EncodeChar c) :
    0x80 ≤ b := by
  have hbyte : ∀ {k m : Nat}, 128 ≤ m → k + m < 256 → (0x80 : UInt8) ≤ UInt8.ofNat (k + m) := by
    intro k m hm hlt
    rw [UInt8.le_iff_toNat_le, UInt8.toNat_ofNat_of_lt' hlt]
    show 128 ≤ k + m
    omega
  have hval : c.val.toNat = c.toNat := rfl
  unfold String.utf8EncodeChar at hb
  simp only [hval] at hb
  rw [if_neg (by omega)] at hb
  split at hb
  · simp only [List.mem_cons, List.not_mem_nil, or_false] at hb
    rcases hb with rfl | rfl <;> exact hbyte (by omega) (by omega)
  · split at hb
    · simp only [List.mem_cons, List.not_mem_nil, or_false] at hb
      rcases hb with rfl | rfl | rfl <;> exact hbyte (by omega) (by omega)
    · simp only [List.mem_cons, List.not_mem_nil, or_false] at hb
      rcases hb with rfl | rfl | rfl | rfl <;> exact hbyte (by omega) (by omega)

theorem utf8EncodeChar_ascii (h : c.toNat < 128) :
    String.utf8EncodeChar c = [UInt8.ofNat c.toNat] := by
  have hval : c.val.toNat = c.toNat := rfl
  unfold String.utf8EncodeChar
  simp only [hval]
  rw [if_pos (by omega)]

theorem utf8EncodeChar_ofNat (h : b.toNat < 128) :
    String.utf8EncodeChar (Char.ofNat b.toNat) = [b] := by
  have hval : (Char.ofNat b.toNat).toNat = b.toNat := by
    rw [Char.ofNat, dif_pos (Or.inl (by omega))]
    rfl
  rw [utf8EncodeChar_ascii (by rw [hval]; exact h), hval, UInt8.ofNat_toNat]

/-! ## Induction over the code points -/

/-- **Induction** over the code points of a string, from the front. -/
@[elab_as_elim]
theorem rune_induction {motive : List UInt8 → Prop} (nil : motive [])
    (valid : ∀ c rest, motive rest → motive (String.utf8EncodeChar c ++ rest))
    (invalid : ∀ b rest, firstRune (b :: rest) = none → motive rest → motive (b :: rest))
    (bs : List UInt8) : motive bs := by
  induction hn : bs.length using Nat.strong_induction_on generalizing bs with
  | _ n ih =>
    cases bs with
    | nil => exact nil
    | cons b rest =>
      rw [List.length_cons] at hn
      cases hfirst : firstRune (b :: rest) with
      | none => exact invalid b rest hfirst (ih rest.length (by omega) rest rfl)
      | some c =>
        have hpos := c.utf8Size_pos
        rw [eq_encode_append_of_firstRune hfirst]
        apply valid
        apply ih _ ?_ _ rfl
        rw [List.length_drop, List.length_cons]
        omega

/-- An encoding does not start inside another one. -/
theorem eq_nil_of_overlap {d : Char} {mid after rest : List UInt8}
    (hd : String.utf8EncodeChar d = front ++ mid)
    (hc : String.utf8EncodeChar c ++ after = mid ++ rest) (hmid : mid ≠ []) : front = [] := by
  obtain ⟨b, mid, rfl⟩ := List.exists_cons_of_ne_nil hmid
  have hpos : 0 < (String.utf8EncodeChar c).length :=
    List.length_pos_of_ne_nil String.utf8EncodeChar_ne_nil
  have hlen : front.length < (String.utf8EncodeChar d).length := by
    rw [hd, List.length_append, List.length_cons]
    omega
  -- the first byte of `c` is the byte of `d` after `front`
  have hb : (String.utf8EncodeChar c)[0] = b := by
    have hhead := congrArg List.head? hc
    rw [List.head?_append, List.head?_eq_getElem?, List.getElem?_eq_getElem hpos,
      Option.some_or] at hhead
    exact Option.some.inj hhead
  have hbyte : (String.utf8EncodeChar d)[front.length] = b := by
    simp only [hd, List.getElem_append_right le_rfl, Nat.sub_self, List.getElem_cons_zero]
  have hfirst := UInt8.isUTF8FirstByte_getElem_zero_utf8EncodeChar (c := c)
  rw [hb, ← hbyte, UInt8.isUTF8FirstByte_getElem_utf8EncodeChar] at hfirst
  exact List.length_eq_zero_iff.mp hfirst

theorem firstRune_append (hne : bs ≠ []) (c : Char) (after : List UInt8) :
    firstRune (bs ++ (String.utf8EncodeChar c ++ after)) = firstRune bs := by
  cases hbs : firstRune bs with
  | some d =>
    rw [eq_encode_append_of_firstRune hbs, List.append_assoc, firstRune_encode_append]
  | none =>
    rw [Option.eq_none_iff_forall_ne_some]
    intro d hd
    have hinside : ∀ rest, bs ≠ String.utf8EncodeChar d ++ rest := by
      rintro rest rfl
      rw [firstRune_encode_append] at hbs
      cases hbs
    rcases List.append_eq_append_iff.mp (eq_encode_append_of_firstRune hd) with
      ⟨mid, hencode, hmid⟩ | ⟨rest, hrest, -⟩
    · by_cases hempty : mid = []
      · exact hinside [] (by rw [hencode, hempty, List.append_nil, List.append_nil])
      · exact hne (eq_nil_of_overlap hencode hmid hempty)
    · exact hinside rest hrest

/-! ## Strings -/

/-- The characters of a slice, if it is valid; every character takes a byte, so the length is
    enough `fuel`. -/
def decodeChars : Nat → List UInt8 → Option (List Char)
  | _, [] => some []
  | 0, _ :: _ => none
  | fuel + 1, b :: bs =>
    (firstRune (b :: bs)).bind fun c =>
      (decodeChars fuel ((b :: bs).drop c.utf8Size)).map (c :: ·)

/-- `string(bs)`, if `utf8.Valid(bs)`. -/
def ofBytes (bs : List UInt8) : Option String := (decodeChars bs.length bs).map String.ofList

theorem decodeChars_flatMap (cs : List Char)
    (h : (cs.flatMap String.utf8EncodeChar).length ≤ fuel) :
    decodeChars fuel (cs.flatMap String.utf8EncodeChar) = some cs := by
  induction cs generalizing fuel with
  | nil => cases fuel <;> rfl
  | cons c cs ih =>
    rw [List.flatMap_cons] at h ⊢
    have hfirst := firstRune_encode_append c (cs.flatMap String.utf8EncodeChar)
    have hdrop := drop_append_encode c (cs.flatMap String.utf8EncodeChar)
    have hpos := c.utf8Size_pos
    rw [List.length_append, String.length_utf8EncodeChar] at h
    obtain ⟨fuel', rfl⟩ := Nat.exists_eq_succ_of_ne_zero (show fuel ≠ 0 by omega)
    generalize htext : String.utf8EncodeChar c ++ cs.flatMap String.utf8EncodeChar = text
      at hfirst hdrop ⊢
    cases text with
    | nil =>
      have hne := String.utf8EncodeChar_ne_nil (c := c)
      rw [List.append_eq_nil_iff] at htext
      exact absurd htext.1 hne
    | cons b bs =>
      rw [decodeChars, hfirst, Option.bind_some, hdrop, ih (by omega)]
      rfl

theorem ofBytes_bytes (s : String) : ofBytes (bytes s) = some s := by
  unfold ofBytes bytes
  rw [decodeChars_flatMap s.toList le_rfl, Option.map_some, String.ofList_toList]

theorem flatMap_of_decodeChars (h : decodeChars fuel bs = some cs) :
    cs.flatMap String.utf8EncodeChar = bs := by
  fun_induction decodeChars fuel bs generalizing cs with
  | case1 =>
    cases h
    rfl
  | case2 => cases h
  | case3 fuel b bs ih =>
    obtain ⟨c, hfirst, h⟩ := Option.bind_eq_some_iff.mp h
    obtain ⟨cs', hrest, rfl⟩ := Option.map_eq_some_iff.mp h
    rw [List.flatMap_cons, ih c hrest]
    exact (eq_encode_append_of_firstRune hfirst).symm

theorem bytes_of_ofBytes {s : String} (h : ofBytes bs = some s) : bytes s = bs := by
  obtain ⟨cs, hchars, rfl⟩ := Option.map_eq_some_iff.mp h
  unfold bytes
  rw [String.toList_ofList]
  exact flatMap_of_decodeChars hchars

/-! ## Strings that need not be valid -/

def Valid (bs : List UInt8) : Prop := (ofBytes bs).isSome = true

instance (bs : List UInt8) : Decidable (Valid bs) := inferInstanceAs (Decidable (_ = true))

theorem valid_bytes (s : String) : Valid (bytes s) := by
  rw [Valid, ofBytes_bytes]
  rfl

theorem valid_iff : Valid bs ↔ ∃ s, bytes s = bs := by
  constructor
  · intro h
    obtain ⟨s, hs⟩ := Option.isSome_iff_exists.mp h
    exact ⟨s, bytes_of_ofBytes hs⟩
  · rintro ⟨s, rfl⟩
    exact valid_bytes s

theorem bytes_append (s t : String) : bytes (s ++ t) = bytes s ++ bytes t := by
  simp [bytes]

theorem bytes_injective : Function.Injective bytes := by
  intro s t h
  have hs := ofBytes_bytes s
  rw [h, ofBytes_bytes] at hs
  exact (Option.some.inj hs).symm

theorem eq_of_mem_utf8EncodeChar (hb : b.toNat < 128) (h : b ∈ String.utf8EncodeChar c) :
    String.utf8EncodeChar c = [b] := by
  by_cases hascii : c.toNat < 128
  · rw [utf8EncodeChar_ascii hascii] at h ⊢
    rw [List.mem_singleton.mp h]
  · have hhigh := UInt8.le_iff_toNat_le.mp (le_of_mem_utf8EncodeChar (Nat.le_of_not_lt hascii) h)
    exact absurd hb (Nat.not_lt.mpr hhigh)

/-- An ASCII byte in the bytes of some characters has characters before it and after it. -/
theorem flatMap_eq_append_cons (hb : b.toNat < 128)
    (h : cs.flatMap String.utf8EncodeChar = xs ++ b :: ys) :
    ∃ before after : List Char, xs = before.flatMap String.utf8EncodeChar ∧
      ys = after.flatMap String.utf8EncodeChar := by
  induction cs generalizing xs with
  | nil =>
    have hlength := congrArg List.length h
    simp at hlength
  | cons c cs ih =>
    rw [List.flatMap_cons, List.append_eq_append_iff] at h
    rcases h with ⟨xs', rfl, hrest⟩ | ⟨mid, hfirst, hrest⟩
    -- the byte comes after the first character
    · obtain ⟨before, after, rfl, rfl⟩ := ih hrest
      exact ⟨c :: before, after, by rw [List.flatMap_cons], rfl⟩
    · cases mid with
      | nil =>
        rw [List.append_nil] at hfirst
        rw [← List.nil_append (b :: ys)] at hrest
        obtain ⟨before, after, hbefore, rfl⟩ := ih hrest.symm
        exact ⟨[c], after, by simp [hfirst], rfl⟩
      | cons b' mid =>
        -- the byte is in the first character, so it is that character
        rw [List.cons_append, List.cons.injEq] at hrest
        obtain ⟨rfl, rfl⟩ := hrest
        have hchar := eq_of_mem_utf8EncodeChar hb (hfirst ▸ List.mem_append_right xs
          List.mem_cons_self)
        rw [hfirst, List.append_eq_singleton_iff] at hchar
        obtain ⟨rfl, hmid⟩ | ⟨-, habsurd⟩ := hchar
        · rw [List.cons.injEq] at hmid
          exact ⟨[], cs, rfl, by rw [hmid.2, List.nil_append]⟩
        · cases habsurd

/-- **An ASCII byte divides a valid text into valid texts.** -/
theorem valid_append_cons (hb : b.toNat < 128) : Valid (xs ++ b :: ys) ↔ Valid xs ∧ Valid ys := by
  constructor
  · intro h
    obtain ⟨s, hs⟩ := valid_iff.mp h
    obtain ⟨before, after, rfl, rfl⟩ := flatMap_eq_append_cons hb hs
    constructor
    · exact valid_iff.mpr ⟨String.ofList before, by rw [bytes, String.toList_ofList]⟩
    · exact valid_iff.mpr ⟨String.ofList after, by rw [bytes, String.toList_ofList]⟩
  · rintro ⟨hxs, hys⟩
    obtain ⟨s, rfl⟩ := valid_iff.mp hxs
    obtain ⟨t, rfl⟩ := valid_iff.mp hys
    have hbyte : bytes (String.singleton (Char.ofNat b.toNat)) = [b] := by
      simp [bytes, utf8EncodeChar_ofNat hb]
    refine valid_iff.mpr ⟨s ++ String.singleton (Char.ofNat b.toNat) ++ t, ?_⟩
    rw [bytes_append, bytes_append, hbyte, List.append_assoc, List.singleton_append]

/-- The code points of a text, and `none` for a byte that starts no valid encoding; the length is
    enough `fuel`. -/
def runes : Nat → List UInt8 → List (Option Char)
  | _, [] => []
  | 0, _ :: _ => []
  | fuel + 1, b :: bs =>
    match firstRune (b :: bs) with
    | some c => some c :: runes fuel ((b :: bs).drop c.utf8Size)
    | none => none :: runes fuel bs

/-- The text with the replacement character in place of what is not valid. -/
def toValid (bs : List UInt8) : String :=
  String.ofList ((runes bs.length bs).map fun c => c.getD runeError)

theorem runes_of_decodeChars (h : decodeChars fuel bs = some cs) : runes fuel bs = cs.map some := by
  fun_induction decodeChars fuel bs generalizing cs with
  | case1 =>
    cases h
    rw [runes, List.map_nil]
  | case2 => cases h
  | case3 fuel b bs ih =>
    obtain ⟨c, hfirst, h⟩ := Option.bind_eq_some_iff.mp h
    obtain ⟨cs', hrest, rfl⟩ := Option.map_eq_some_iff.mp h
    rw [runes, hfirst]
    dsimp only
    rw [ih c hrest, List.map_cons]

theorem runes_bytes (s : String) : runes (bytes s).length (bytes s) = s.toList.map some :=
  runes_of_decodeChars (decodeChars_flatMap s.toList le_rfl)

theorem toValid_bytes (s : String) : toValid (bytes s) = s := by
  rw [toValid, runes_bytes, List.map_map]
  simp

/-- **Valid texts are the ones that replacing leaves alone.** -/
theorem bytes_toValid_eq_iff : bytes (toValid bs) = bs ↔ Valid bs := by
  constructor
  · intro h
    exact valid_iff.mpr ⟨_, h⟩
  · intro h
    obtain ⟨s, rfl⟩ := valid_iff.mp h
    rw [toValid_bytes]

/-! ## Trimming -/

/-- The code point at the end of a slice, if there is a valid encoding of one. -/
def lastRune (bs : List UInt8) : Option Char :=
  [1, 2, 3, 4].findSome? fun n =>
    (firstRune (bs.drop (bs.length - n))).filter fun c => c.utf8Size == n

def trimLeftSpace : Nat → List UInt8 → List UInt8
  | 0, bs => bs
  | fuel + 1, bs =>
    match firstRune bs with
    | some c => if isSpace c then trimLeftSpace fuel (bs.drop c.utf8Size) else bs
    | none => bs

def trimRightSpace : Nat → List UInt8 → List UInt8
  | 0, bs => bs
  | fuel + 1, bs =>
    match lastRune bs with
    | some c => if isSpace c then trimRightSpace fuel (bs.take (bs.length - c.utf8Size)) else bs
    | none => bs

/-- `bytes.TrimSpace`. -/
def bytesTrimSpace (bs : List UInt8) : List UInt8 :=
  trimRightSpace bs.length (trimLeftSpace bs.length bs)

theorem trimLeftSpace_suffix (fuel : Nat) (bs : List UInt8) : trimLeftSpace fuel bs <:+ bs := by
  fun_induction trimLeftSpace fuel bs with
  | case2 fuel bs c _ _ ih => exact ih.trans (List.drop_suffix _ bs)
  | _ => exact List.suffix_refl _

theorem trimRightSpace_front (fuel : Nat) (bs : List UInt8) : trimRightSpace fuel bs <+: bs := by
  fun_induction trimRightSpace fuel bs with
  | case2 fuel bs c _ _ ih => exact ih.trans (List.take_prefix _ bs)
  | _ => exact List.prefix_refl _

theorem bytesTrimSpace_inside (bs : List UInt8) : bytesTrimSpace bs <:+: bs :=
  (trimRightSpace_front _ _).isInfix.trans (trimLeftSpace_suffix _ _).isInfix

theorem length_bytesTrimSpace_le (bs : List UInt8) : (bytesTrimSpace bs).length ≤ bs.length :=
  (bytesTrimSpace_inside bs).length_le

theorem not_mem_utf8EncodeChar_of_isSpace (hascii : b.toNat < 128)
    (hspace : isSpace (Char.ofNat b.toNat) = false) (hc : isSpace c = true) :
    b ∉ String.utf8EncodeChar c := by
  intro hb
  by_cases hlow : c.toNat < 128
  · rw [utf8EncodeChar_ascii hlow, List.mem_singleton] at hb
    have htoNat : b.toNat = c.toNat := by
      rw [hb]
      exact UInt8.toNat_ofNat_of_lt' (show c.toNat < 256 by omega)
    rw [htoNat, Char.ofNat_toNat, hc] at hspace
    cases hspace
  · have hhigh := le_of_mem_utf8EncodeChar (by omega) hb
    rw [UInt8.le_iff_toNat_le] at hhigh
    exact absurd hhigh (by show ¬128 ≤ b.toNat; omega)

theorem eq_append_encode_of_lastRune (h : lastRune bs = some c) :
    bs = bs.take (bs.length - c.utf8Size) ++ String.utf8EncodeChar c := by
  obtain ⟨n, -, hn⟩ := List.exists_of_findSome?_eq_some h
  rw [Option.filter_eq_some_iff, beq_iff_eq] at hn
  obtain ⟨hrune, rfl⟩ := hn
  have htail := eq_encode_append_of_firstRune hrune
  have hnothing : (bs.drop (bs.length - c.utf8Size)).drop c.utf8Size = [] := by
    rw [List.drop_eq_nil_iff, List.length_drop]
    omega
  rw [hnothing, List.append_nil] at htail
  rw [← htail, List.take_append_drop]

/-- **The last character of a text is found**, whatever stands before it. -/
theorem lastRune_append_encode (before : List UInt8) (c : Char) :
    lastRune (before ++ String.utf8EncodeChar c) = some c := by
  have hdrop : ∀ n ≤ c.utf8Size, (before ++ String.utf8EncodeChar c).drop
      ((before ++ String.utf8EncodeChar c).length - n) =
        (String.utf8EncodeChar c).drop (c.utf8Size - n) := by
    intro n hn
    rw [List.length_append, String.length_utf8EncodeChar, Nat.add_sub_assoc hn,
      List.drop_length_add_append]
  -- the last bytes alone start in the middle of the character
  have hshort : ∀ n < c.utf8Size, (firstRune ((before ++ String.utf8EncodeChar c).drop
      ((before ++ String.utf8EncodeChar c).length - n))).filter (fun c => c.utf8Size == n) =
        none := by
    intro n hn
    rw [hdrop n (Nat.le_of_lt hn), Option.filter_eq_none_iff]
    intro c' hc' hsize
    have htail := eq_encode_append_of_firstRune hc'
    rw [beq_iff_eq] at hsize
    have hrest : ((String.utf8EncodeChar c).drop (c.utf8Size - n)).drop c'.utf8Size = [] := by
      rw [List.drop_eq_nil_iff, List.length_drop, String.length_utf8EncodeChar]
      omega
    rw [hrest, List.append_nil] at htail
    have hsplit := (List.take_append_drop (c.utf8Size - n) (String.utf8EncodeChar c)).symm
    rw [htail] at hsplit
    have hfront := eq_nil_of_overlap hsplit (rfl : String.utf8EncodeChar c' ++ [] = _)
      String.utf8EncodeChar_ne_nil
    have hlength := congrArg List.length hfront
    rw [List.length_take, String.length_utf8EncodeChar, List.length_nil] at hlength
    omega
  have hall : (firstRune ((before ++ String.utf8EncodeChar c).drop
      ((before ++ String.utf8EncodeChar c).length - c.utf8Size))).filter
        (fun d => d.utf8Size == c.utf8Size) = some c := by
    have hfirst := firstRune_encode_append c []
    rw [List.append_nil] at hfirst
    rw [hdrop _ le_rfl, Nat.sub_self, List.drop_zero, hfirst, Option.filter_some, beq_self_eq_true]
    rfl
  have hsplit : ∃ l₁ l₂, [1, 2, 3, 4] = l₁ ++ c.utf8Size :: l₂ ∧ ∀ n ∈ l₁, n < c.utf8Size := by
    rcases Char.utf8Size_eq c with hsize | hsize | hsize | hsize <;> rw [hsize]
    · exact ⟨[], [2, 3, 4], rfl, by decide⟩
    · exact ⟨[1], [3, 4], rfl, by decide⟩
    · exact ⟨[1, 2], [4], rfl, by decide⟩
    · exact ⟨[1, 2, 3], [], rfl, by decide⟩
  obtain ⟨l₁, l₂, hsizes, hless⟩ := hsplit
  exact List.findSome?_eq_some_iff.mpr
    ⟨l₁, c.utf8Size, l₂, hsizes, hall, fun n hn => hshort n (hless n hn)⟩

theorem mem_trimLeftSpace (fuel : Nat) (hascii : b.toNat < 128)
    (hspace : isSpace (Char.ofNat b.toNat) = false) (h : b ∈ bs) : b ∈ trimLeftSpace fuel bs := by
  fun_induction trimLeftSpace fuel bs with
  | case2 fuel bs c hc hcspace ih =>
    apply ih
    rw [eq_encode_append_of_firstRune hc, List.mem_append] at h
    exact h.resolve_left (not_mem_utf8EncodeChar_of_isSpace hascii hspace hcspace)
  | _ => exact h

theorem mem_trimRightSpace (fuel : Nat) (hascii : b.toNat < 128)
    (hspace : isSpace (Char.ofNat b.toNat) = false) (h : b ∈ bs) : b ∈ trimRightSpace fuel bs := by
  fun_induction trimRightSpace fuel bs with
  | case2 fuel bs c hc hcspace ih =>
    apply ih
    rw [eq_append_encode_of_lastRune hc, List.mem_append] at h
    exact h.resolve_right (not_mem_utf8EncodeChar_of_isSpace hascii hspace hcspace)
  | _ => exact h

/-- **An ASCII character that is no space is not trimmed.** -/
theorem mem_bytesTrimSpace (hascii : b.toNat < 128) (hspace : isSpace (Char.ofNat b.toNat) = false)
    (h : b ∈ bs) : b ∈ bytesTrimSpace bs := by
  apply mem_trimRightSpace _ hascii hspace
  exact mem_trimLeftSpace _ hascii hspace h

/-! ## One end after the other -/

/-- `bytes.TrimLeftFunc` with `unicode.IsSpace`. -/
def trimFront (bs : List UInt8) : List UInt8 := trimLeftSpace bs.length bs

/-- `bytes.TrimRightFunc` with `unicode.IsSpace`. -/
def trimEnd (bs : List UInt8) : List UInt8 := trimRightSpace bs.length bs

theorem trimLeftSpace_fuel (h : bs.length ≤ fuel) : trimLeftSpace fuel bs = trimFront bs := by
  induction bs using rune_induction generalizing fuel with
  | nil => cases fuel <;> rfl
  | valid c rest ih =>
    have hlen : (String.utf8EncodeChar c ++ rest).length = c.utf8Size + rest.length := by
      rw [List.length_append, String.length_utf8EncodeChar]
    have hpos := c.utf8Size_pos
    rw [hlen] at h
    rw [trimFront, hlen]
    obtain ⟨fuel, rfl⟩ := Nat.exists_eq_succ_of_ne_zero (show fuel ≠ 0 by omega)
    obtain ⟨size, hsize⟩ := Nat.exists_eq_succ_of_ne_zero (show c.utf8Size ≠ 0 by omega)
    rw [hsize, Nat.succ_add, trimLeftSpace, trimLeftSpace, firstRune_encode_append]
    dsimp only
    rw [drop_append_encode, ih (by omega), ih (by omega)]
  | invalid b rest hfirst ih =>
    rw [List.length_cons] at h
    obtain ⟨fuel, rfl⟩ := Nat.exists_eq_succ_of_ne_zero (show fuel ≠ 0 by omega)
    rw [trimFront, List.length_cons, trimLeftSpace, trimLeftSpace, hfirst]

theorem trimFront_encode_append (hspace : isSpace c = true) (rest : List UInt8) :
    trimFront (String.utf8EncodeChar c ++ rest) = trimFront rest := by
  have hlen : (String.utf8EncodeChar c ++ rest).length ≤ c.utf8Size + rest.length + 1 := by
    rw [List.length_append, String.length_utf8EncodeChar]
    omega
  rw [← trimLeftSpace_fuel hlen, trimLeftSpace, firstRune_encode_append]
  dsimp only
  rw [if_pos hspace, drop_append_encode, trimLeftSpace_fuel (by omega)]

theorem trimFront_of_not (hspace : ¬isSpace c = true) (rest : List UInt8) :
    trimFront (String.utf8EncodeChar c ++ rest) = String.utf8EncodeChar c ++ rest := by
  rw [← trimLeftSpace_fuel (Nat.le_succ _), trimLeftSpace, firstRune_encode_append]
  dsimp only
  rw [if_neg hspace]

theorem trimFront_of_invalid (h : firstRune bs = none) : trimFront bs = bs := by
  rw [← trimLeftSpace_fuel (Nat.le_succ bs.length), trimLeftSpace, h]

theorem trimRightSpace_nil (fuel : Nat) : trimRightSpace fuel [] = [] := by
  cases fuel <;> rfl

theorem trimRightSpace_fuel {fuel' : Nat} (h : bs.length ≤ fuel) (h' : bs.length ≤ fuel') :
    trimRightSpace fuel bs = trimRightSpace fuel' bs := by
  induction fuel generalizing fuel' bs with
  | zero =>
    obtain rfl := List.length_eq_zero_iff.mp (Nat.le_zero.mp h)
    rw [trimRightSpace_nil, trimRightSpace_nil]
  | succ fuel ih =>
    cases fuel' with
    | zero =>
      obtain rfl := List.length_eq_zero_iff.mp (Nat.le_zero.mp h')
      rw [trimRightSpace_nil, trimRightSpace_nil]
    | succ fuel' =>
      unfold trimRightSpace
      cases lastRune bs with
      | none => rfl
      | some c =>
        have hpos := c.utf8Size_pos
        have hlen : (bs.take (bs.length - c.utf8Size)).length ≤ bs.length - c.utf8Size :=
          List.length_take_le _ _
        dsimp only
        rw [ih (by omega) (show _ ≤ fuel' by omega)]

theorem trimEnd_append_encode (bs : List UInt8) (hspace : isSpace c = true) :
    trimEnd (bs ++ String.utf8EncodeChar c) = trimEnd bs := by
  have hlen : (bs ++ String.utf8EncodeChar c).length = bs.length + c.utf8Size := by
    rw [List.length_append, String.length_utf8EncodeChar]
  have htake : (bs ++ String.utf8EncodeChar c).take (bs.length + c.utf8Size - c.utf8Size) = bs := by
    rw [Nat.add_sub_cancel, List.take_left]
  have hmore : (bs ++ String.utf8EncodeChar c).length ≤ bs.length + c.utf8Size + 1 := by omega
  rw [trimEnd, trimRightSpace_fuel le_rfl hmore, trimRightSpace, lastRune_append_encode]
  dsimp only
  rw [if_pos hspace, hlen, htake]
  exact trimRightSpace_fuel (by omega) le_rfl

theorem trimEnd_of_not (h : ∀ c, lastRune bs = some c → isSpace c = false) : trimEnd bs = bs := by
  rw [trimEnd, trimRightSpace_fuel le_rfl (Nat.le_succ bs.length), trimRightSpace]
  split
  · rename_i c hc
    rw [h c hc]
    rfl
  · rfl

theorem bytesTrimSpace_eq (bs : List UInt8) : bytesTrimSpace bs = trimEnd (trimFront bs) := by
  rw [bytesTrimSpace, trimLeftSpace_fuel le_rfl]
  exact trimRightSpace_fuel (trimLeftSpace_suffix _ bs).length_le le_rfl

def Blank (s : String) : Prop := s.toList.all isSpace = true

instance (s : String) : Decidable (Blank s) := inferInstanceAs (Decidable (_ = true))

theorem trimFront_bytes_append {s : String} (h : Blank s) (bs : List UInt8) :
    trimFront (bytes s ++ bs) = trimFront bs := by
  rw [Blank, List.all_eq_true] at h
  unfold bytes
  generalize s.toList = cs at h ⊢
  induction cs with
  | nil => rfl
  | cons c cs ih =>
    rw [List.flatMap_cons, List.append_assoc,
      trimFront_encode_append (h c List.mem_cons_self)]
    exact ih fun d hd => h d (List.mem_cons_of_mem c hd)

theorem trimEnd_append_bytes {s : String} (h : Blank s) (bs : List UInt8) :
    trimEnd (bs ++ bytes s) = trimEnd bs := by
  rw [Blank, List.all_eq_true] at h
  unfold bytes
  generalize s.toList = cs at h ⊢
  induction cs using List.reverseRecOn with
  | nil => rw [List.flatMap_nil, List.append_nil]
  | append_singleton cs c ih =>
    rw [List.flatMap_append, List.flatMap_singleton, ← List.append_assoc,
      trimEnd_append_encode _ (h c (List.mem_append_right cs List.mem_cons_self))]
    exact ih fun d hd => h d (List.mem_append_left [c] hd)

theorem firstRune_append_bytes (hne : bs ≠ []) (s : String) :
    firstRune (bs ++ bytes s) = firstRune bs := by
  unfold bytes
  cases s.toList with
  | nil => rw [List.flatMap_nil, List.append_nil]
  | cons c cs => exact firstRune_append hne c _

/-- **White space around a string makes no difference** to what is left after trimming. -/
theorem bytesTrimSpace_pad {front back : String} (hfront : Blank front) (hback : Blank back)
    (bs : List UInt8) : bytesTrimSpace (bytes front ++ bs ++ bytes back) = bytesTrimSpace bs := by
  rw [bytesTrimSpace_eq, bytesTrimSpace_eq, List.append_assoc, trimFront_bytes_append hfront]
  induction bs using rune_induction with
  | nil =>
    have hall := trimFront_bytes_append hback []
    rw [List.append_nil] at hall
    rw [List.nil_append, hall]
  | valid c rest ih =>
    by_cases hspace : isSpace c = true
    · rw [List.append_assoc, trimFront_encode_append hspace, ih, trimFront_encode_append hspace]
    · rw [List.append_assoc, trimFront_of_not hspace, trimFront_of_not hspace, ← List.append_assoc,
        trimEnd_append_bytes hback]
  | invalid b rest hfirst _ =>
    have hstill : firstRune (b :: rest ++ bytes back) = none := by
      rw [firstRune_append_bytes (List.cons_ne_nil b rest), hfirst]
    rw [trimFront_of_invalid hstill, trimFront_of_invalid hfirst, trimEnd_append_bytes hback]

theorem lastRune_concat (h : b.toNat < 128) (before : List UInt8) :
    lastRune (before ++ [b]) = some (Char.ofNat b.toNat) := by
  rw [← utf8EncodeChar_ofNat h]
  exact lastRune_append_encode before _

theorem bytesTrimSpace_of_ascii (hfirst : bs.head? = some first) (hfirstAscii : first.toNat < 128)
    (hfirstSpace : isSpace (Char.ofNat first.toNat) = false) (hlast : bs.getLast? = some last)
    (hlastAscii : last.toNat < 128) (hlastSpace : isSpace (Char.ofNat last.toNat) = false) :
    bytesTrimSpace bs = bs := by
  have hfront : trimFront bs = bs := by
    obtain ⟨rest, rfl⟩ := List.head?_eq_some_iff.mp hfirst
    rw [← List.singleton_append, ← utf8EncodeChar_ofNat hfirstAscii]
    exact trimFront_of_not (Bool.eq_false_iff.mp hfirstSpace) rest
  have hend : trimEnd bs = bs := by
    obtain ⟨before, rfl⟩ := List.getLast?_eq_some_iff.mp hlast
    apply trimEnd_of_not
    intro c hc
    rw [lastRune_concat hlastAscii] at hc
    cases hc
    exact hlastSpace
  rw [bytesTrimSpace_eq, hfront, hend]

def AsciiSpaces (bs : List UInt8) : Prop :=
  ∀ b ∈ bs, b.toNat < 128 ∧ isSpace (Char.ofNat b.toNat) = true

theorem AsciiSpaces.exists_blank (h : AsciiSpaces bs) : ∃ s, Blank s ∧ bytes s = bs := by
  refine ⟨String.ofList (bs.map fun b => Char.ofNat b.toNat), ?_, ?_⟩
  · rw [Blank, String.toList_ofList, List.all_map, List.all_eq_true]
    exact fun b hb => (h b hb).2
  · have hone : ∀ b ∈ bs, String.utf8EncodeChar (Char.ofNat b.toNat) = [b] := fun b hb =>
      utf8EncodeChar_ofNat (h b hb).1
    rw [bytes, String.toList_ofList, List.flatMap_map, List.flatMap_congr hone]
    exact List.flatMap_singleton' bs

/-- **White space around a text is trimmed**, and nothing else if the text starts and ends with
    ASCII characters that are not spaces. -/
theorem bytesTrimSpace_of_spaces {body back : List UInt8} (hfront : AsciiSpaces front)
    (hback : AsciiSpaces back) (hfirst : body.head? = some first) (hfirstAscii : first.toNat < 128)
    (hfirstSpace : isSpace (Char.ofNat first.toNat) = false) (hlast : body.getLast? = some last)
    (hlastAscii : last.toNat < 128) (hlastSpace : isSpace (Char.ofNat last.toNat) = false) :
    bytesTrimSpace (front ++ (body ++ back)) = body := by
  obtain ⟨s, hs, rfl⟩ := hfront.exists_blank
  obtain ⟨t, ht, rfl⟩ := hback.exists_blank
  rw [← List.append_assoc, bytesTrimSpace_pad hs ht]
  exact bytesTrimSpace_of_ascii hfirst hfirstAscii hfirstSpace hlast hlastAscii hlastSpace

theorem trimFront_flatMap (cs : List Char) :
    trimFront (cs.flatMap String.utf8EncodeChar) =
      (cs.dropWhile isSpace).flatMap String.utf8EncodeChar := by
  induction cs with
  | nil => rfl
  | cons c cs ih =>
    rw [List.flatMap_cons]
    by_cases hspace : isSpace c = true
    · rw [trimFront_encode_append hspace, List.dropWhile_cons_of_pos hspace, ih]
    · rw [trimFront_of_not hspace, List.dropWhile_cons_of_neg hspace, List.flatMap_cons]

theorem trimEnd_flatMap (cs : List Char) :
    trimEnd (cs.flatMap String.utf8EncodeChar) =
      (cs.rdropWhile isSpace).flatMap String.utf8EncodeChar := by
  induction cs using List.reverseRecOn with
  | nil => rfl
  | append_singleton cs c ih =>
    have hlast : (cs ++ [c]).flatMap String.utf8EncodeChar =
        cs.flatMap String.utf8EncodeChar ++ String.utf8EncodeChar c := by
      rw [List.flatMap_append, List.flatMap_singleton]
    by_cases hspace : isSpace c = true
    · rw [hlast, trimEnd_append_encode _ hspace, List.rdropWhile_concat_pos _ _ _ hspace, ih]
    · rw [List.rdropWhile_concat_neg _ _ _ hspace, hlast]
      apply trimEnd_of_not
      intro d hd
      rw [lastRune_append_encode] at hd
      cases hd
      exact Bool.eq_false_iff.mpr hspace

theorem bytesTrimSpace_bytes (s : String) : bytesTrimSpace (bytes s) = bytes (trimSpace s) := by
  rw [bytesTrimSpace_eq, bytes, trimFront_flatMap, trimEnd_flatMap, bytes, trimSpace,
    String.toList_ofList]
  rfl

end ServiceRuntime.GoUtf8
