import ServiceRuntime.Json.Parse

/-!
# Protojson

The JSON text that `protojson.Marshal` writes for a `google.protobuf.Struct`, on one line. The keys
of an object are in order. Strings have only those escapes that they need. After each comma there is
a space in some builds of a program and none in others, so that nobody relies on the text.

What is written is read as the value that was written (`reads_marshal`), as far as its numbers are
integers of up to `2 ^ 53`.
-/

namespace ServiceRuntime.Json.Protojson

open GoFloat

/-! ## Writing -/

def escape (c : Char) : List UInt8 :=
  if c.toNat < 0x20 ∨ c.toNat = 0x22 ∨ c.toNat = 0x5C then escapeChar c
  else String.utf8EncodeChar c

def appendString (s : String) : List UInt8 := 0x22 :: s.toList.flatMap escape ++ [0x22]

def cleanExponent (out : List UInt8) : List UInt8 :=
  let n := out.length
  if (out.drop (n - 4)).take 3 = [0x65, 0x2D, 0x30] then out.take (n - 2) ++ out.drop (n - 1)
  else out

def appendFloat (x : Float64) : List UInt8 :=
  if x.abs ≠ 0 ∧ (x.abs < nearest (1 / 10 ^ 6) ∨ 10 ^ 21 ≤ x.abs) then
    cleanExponent x.scientificText
  else x.fixedText

def spaces (space : Bool) : List UInt8 := if space then [0x20] else []

def boolText (b : Bool) : List UInt8 :=
  if b then [0x74, 0x72, 0x75, 0x65] else [0x66, 0x61, 0x6C, 0x73, 0x65]

/-- `protojson.Marshal` of a value. -/
def marshal (space : Bool) : Value Float64 → List UInt8 :=
  Value.fold
    { null := nullText
      bool := boolText
      number := appendFloat
      string := appendString
      array := fun items => 0x5B :: ((0x2C :: spaces space).intercalate items ++ [0x5D])
      object := fun fields =>
        0x7B :: ((0x2C :: spaces space).intercalate
          ((toMap fields).map fun row => appendString row.1 ++ 0x3A :: row.2) ++ [0x7D]) }

theorem marshal_array (space : Bool) (items : List (Value Float64)) :
    marshal space (.array items) =
      0x5B :: ((0x2C :: spaces space).intercalate (items.map (marshal space)) ++ [0x5D]) :=
  Value.fold_array _ items

theorem marshal_object (space : Bool) (fields : List (String × Value Float64)) :
    marshal space (.object fields) =
      0x7B :: ((0x2C :: spaces space).intercalate ((toMap (mapValues (marshal space) fields)).map
        fun row => appendString row.1 ++ 0x3A :: row.2) ++ [0x7D]) :=
  Value.fold_object _ fields

/-! ## Strings -/

theorem unquoteChar_escape (c : Char) (after : List UInt8) :
    unquoteChar (escape c ++ after) = some (c, after) := by
  unfold escape
  split
  · exact unquoteChar_escapeChar c after
  · rename_i hplain
    rw [not_or, not_or] at hplain
    exact unquoteChar_encode hplain.2.1 hplain.2.2 hplain.1 after

theorem staysInString_escape (c : Char) : Scanner.StaysInString (escape c) := by
  unfold escape
  split
  · exact Scanner.staysInString_escapeChar c
  · rename_i hplain
    rw [not_or, not_or] at hplain
    exact Scanner.staysInString_plain fun b hb =>
      plain_of_mem_utf8EncodeChar hplain.2.1 hplain.2.2 hplain.1 hb

theorem unquote_appendString (s : String) : unquote (appendString s) = some s := by
  rw [appendString, unquote_flatMap unquoteChar_escape, List.map_id', String.ofList_toList]

theorem isString_appendString (s : String) : Scanner.IsString (appendString s) :=
  ⟨_, rfl, Scanner.staysInString_flatMap staysInString_escape _⟩

/-! ## Integers -/

/-- An integer of up to `2 ^ 53`, of either sign. -/
def isSafe (x : Float64) : Bool := x.abs.isInt && decide (x.abs ≤ 2 ^ 53)

theorem exists_of_isSafe {x : Float64} (h : isSafe x = true) :
    ∃ n : ℕ, n ≤ 2 ^ 53 ∧ x.abs = n := by
  unfold isSafe at h
  rw [Bool.and_eq_true, decide_eq_true_eq] at h
  obtain ⟨hint, hle⟩ := h
  have hnum : x.abs = (x.abs.num : ℚ) := Rat.eq_num_of_isInt hint
  have hnonneg : 0 ≤ x.abs.num := Rat.num_nonneg.mpr x.nonneg
  obtain ⟨n, hn⟩ := Int.eq_ofNat_of_zero_le hnonneg
  have hx : x.abs = (n : ℚ) := by
    rw [hnum, hn]
    rfl
  refine ⟨n, ?_, hx⟩
  rw [hx] at hle
  exact_mod_cast hle

theorem appendFloat_of_abs {x : Float64} {n : ℕ} (hn : n ≤ 2 ^ 53) (hx : x.abs = n) :
    appendFloat x = signText x.neg ++ decimalText n := by
  have hsmall : nearest (1 / 10 ^ 6) ≤ 1 := by decide +kernel
  have hplain : ¬ (x.abs ≠ 0 ∧ (x.abs < nearest (1 / 10 ^ 6) ∨ 10 ^ 21 ≤ x.abs)) := by
    rintro ⟨hne, hlt | hge⟩
    · rw [hx] at hne hlt
      have hpos : 1 ≤ n := Nat.one_le_iff_ne_zero.mpr (by exact_mod_cast hne)
      have : (1 : ℚ) ≤ n := by exact_mod_cast hpos
      linarith
    · rw [hx] at hge
      have : 10 ^ 21 ≤ n := by exact_mod_cast hge
      omega
  rw [appendFloat, if_neg hplain, Float64.fixedText_of_abs hn hx]

theorem leaf_integer (neg : Bool) (n : ℕ) :
    leaf (signText neg ++ decimalText n) = some (.number (signText neg ++ decimalText n)) := by
  cases neg with
  | true => rfl
  | false =>
    have hdigits := all_isDigit_decimalText n
    show leaf (decimalText n) = some (.number (decimalText n))
    cases htext : decimalText n with
    | nil =>
      have hhead := (isCompact_integer false n).head
      obtain ⟨c, rest, hcons, -⟩ := hhead
      rw [show signText false ++ decimalText n = decimalText n from rfl, htext] at hcons
      cases hcons
    | cons c rest =>
      rw [htext, List.all_cons, Bool.and_eq_true] at hdigits
      obtain ⟨hc, -⟩ := hdigits
      unfold leaf
      unfold isDigit at hc
      grind

/-! ## What is written is read back -/

theorem isCompact_boolText (b : Bool) : IsCompact (boolText b) := by
  have hspace : ∀ c ∈ boolText b, isSpace c = false := by
    cases b <;> simp [boolText, isSpace]
  refine ⟨Scanner.tight_of_not_space hspace, ⟨.endValue, []⟩, ?_, rfl⟩
  cases b <;> rfl

theorem isSpace_of_mem_spaces {space : Bool} : ∀ c ∈ spaces space, isSpace c = true := by
  cases space <;> simp [spaces, isSpace]

/-- **A value that is written is read back**, its objects as maps. -/
theorem reads_marshal (space : Bool) (v : Value Float64) (h : v.numbers isSafe = true) :
    Reads (marshal space v) (v.map appendFloat).collapse := by
  induction v using Value.induct with
  | null => exact reads_leaf isCompact_nullText rfl
  | bool b =>
    apply reads_leaf (isCompact_boolText b)
    cases b <;> rfl
  | number x =>
    obtain ⟨n, hn, hx⟩ := exists_of_isSafe h
    show Reads (appendFloat x) (.number (appendFloat x))
    rw [appendFloat_of_abs hn hx]
    exact reads_leaf (isCompact_integer x.neg n) (leaf_integer x.neg n)
  | string s =>
    apply reads_leaf (isString_appendString s).isCompact
    show (unquote (appendString s)).map Value.string = some (.string s)
    rw [unquote_appendString, Option.map_some]
  | array items ih =>
    rw [Value.numbers_array] at h
    have hread := @Reads.array (spaces space) isSpace_of_mem_spaces
      (items.map fun v => (marshal space v, (v.map appendFloat).collapse)) (by
        intro p hp
        obtain ⟨v, hv, rfl⟩ := List.mem_map.mp hp
        exact ih v hv (h v hv))
    rw [List.map_map, List.map_map] at hread
    rw [marshal_array, Value.map_array, Value.collapse_array, List.map_map]
    exact hread
  | object fields ih =>
    rw [Value.numbers_object] at h
    -- the text and the value of each field, before the fields are put in order
    let written :=
      toMap (mapValues (fun v => (marshal space v, (v.map appendFloat).collapse)) fields)
    have hread := @Reads.object (spaces space) isSpace_of_mem_spaces
      (written.map fun row => (appendString row.1 ++ 0x3A :: row.2.1, row.1, row.2.2)) (by
        intro p hp
        obtain ⟨row, hrow, rfl⟩ := List.mem_map.mp hp
        obtain ⟨field, hfield, rfl⟩ := List.mem_map.mp (mem_toMap hrow)
        exact ⟨_, _, rfl, isString_appendString field.1, unquote_appendString field.1,
          ih field hfield (h field hfield)⟩)
    have htexts : toMap (mapValues (marshal space) fields) = mapValues Prod.fst written := by
      rw [mapValues_toMap, mapValues_mapValues]
    have hvalues : toMap (mapValues Value.collapse (mapValues (Value.map appendFloat) fields)) =
        mapValues Prod.snd written := by
      rw [mapValues_toMap, mapValues_mapValues, mapValues_mapValues]
    rw [List.map_map, List.map_map] at hread
    rw [marshal_object, Value.map_object, Value.collapse_object, htexts, hvalues, mapValues,
      mapValues, List.map_map]
    exact hread

theorem parse_marshal (space : Bool) (fields : List (String × Value Float64))
    (h : (Value.object fields).numbers isSafe = true) :
    parse (marshal space (.object fields)) =
      some ((Value.object fields).map appendFloat).collapse := by
  have hread := reads_marshal space _ h
  rw [marshal_object] at hread ⊢
  exact hread.parse_eq

/-! ## Integers of another text -/

/-- The digits of an integer of up to `2 ^ 53`, of either sign. -/
def isSafeLiteral (literal : List UInt8) : Bool :=
  match numeral literal with
  | .int n => decide (n.natAbs ≤ 2 ^ 53)
  | .other _ => false

/-- **Such an integer is read exactly**, and means the same after it is written. -/
theorem exists_of_isSafeLiteral {literal : List UInt8} (h : isSafeLiteral literal = true) :
    ∃ x, parseFloat literal = some x ∧ isSafe x = true ∧
      numeral (appendFloat x) = numeral literal := by
  unfold isSafeLiteral at h
  by_cases hdigits : (unsigned literal).all isDigit = true
  -- the literal is a sign and digits
  · have hmeans : numeral literal =
        .int (if literal.head? = some 0x2D then -(digitsValue (unsigned literal) : ℤ)
          else digitsValue (unsigned literal)) := if_pos hdigits
    rw [hmeans, decide_eq_true_eq] at h
    have hle : digitsValue (unsigned literal) ≤ 2 ^ 53 := by
      split at h <;> omega
    have hplain : ∀ c ∈ unsigned literal, c ≠ 0x65 ∧ c ≠ 0x45 ∧ c ≠ 0x2E := by
      intro c hc
      have hdigit := List.all_eq_true.mp hdigits c hc
      refine ⟨?_, ?_, ?_⟩ <;> (rintro rfl; cases hdigit)
    obtain ⟨x, hx, hneg, habs⟩ :=
      Float64.ofDecimal_natCast (literal.head? == some 0x2D) hle
    refine ⟨x, by rw [parseFloat_of_digits hplain, hx], ?_, ?_⟩
    · unfold isSafe
      rw [habs, Bool.and_eq_true, decide_eq_true_eq]
      exact ⟨rfl, by exact_mod_cast hle⟩
    · rw [appendFloat_of_abs hle habs, numeral_integer, hmeans, hneg]
      simp only [beq_iff_eq]
  · have hother : numeral literal = .other literal := if_neg hdigits
    rw [hother] at h
    cases h

end ServiceRuntime.Json.Protojson
