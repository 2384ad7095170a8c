import ServiceRuntime.GoFloat
import ServiceRuntime.Json.Array
import ServiceRuntime.Json.Value

/-!
# JSON Texts as Values

A text is read as a value whose numbers are the digits as they stand there, by going down into its
arrays and objects. White space may stand between any two parts of it.

What a text means has integers in place of digits (`meaning`). `json.Unmarshal` into an `any` has
float64 numbers instead (`decodeAny`); it refuses numbers that are too large, and texts with arrays
and objects that are nested too deep.

A text that is put together from texts with known values is read as the value put together
(`Reads.array`, `Reads.object`), with any white space after the commas.
-/

namespace ServiceRuntime.Json

open GoFloat
open ServiceRuntime.GoUtf8 (AsciiSpaces bytesTrimSpace bytesTrimSpace_of_spaces)

/-! ## Reading -/

section Sequences

variable {α : Type*}

/-- What stands between commas up to the closing bracket; there are fewer than `fuel`. -/
def readSequence (read : List UInt8 → Option (α × List UInt8)) (close : UInt8) :
    Nat → List UInt8 → Option (List α × List UInt8)
  | 0, _ => none
  | fuel + 1, bs =>
    (read (skipSpace bs)).bind fun (a, after) =>
      match skipSpace after with
      | [] => none
      | c :: rest =>
        if c = 0x2C then (readSequence read close fuel rest).map fun (as, after) => (a :: as, after)
        else if c = close then some ([a], rest)
        else none

/-- What stands between brackets, after the opening one. -/
def readBody (read : List UInt8 → Option (α × List UInt8)) (close : UInt8) (bs : List UInt8) :
    Option (List α × List UInt8) :=
  match skipSpace bs with
  | [] => none
  | c :: rest =>
    if c = close then some ([], rest) else readSequence read close bs.length (c :: rest)

/-- A key, a colon and a value. -/
def readField (read : List UInt8 → Option (α × List UInt8)) (bs : List UInt8) :
    Option ((String × α) × List UInt8) :=
  (start.scanValue bs).bind fun (key, afterKey) =>
    (unquote key).bind fun name =>
      match skipSpace afterKey with
      | [] => none
      | c :: rest =>
        if c = 0x3A then (read (skipSpace rest)).map fun (a, after) => ((name, a), after) else none

end Sequences

def leaf (raw : List UInt8) : Option (Value (List UInt8)) :=
  match raw with
  | [] => none
  | c :: _ =>
    if c = 0x7B ∨ c = 0x5B then none
    else if c = 0x22 then (unquote raw).map .string
    else if c = 0x74 then some (.bool true)
    else if c = 0x66 then some (.bool false)
    else if c = 0x6E then some .null
    else some (.number raw)

def readLeaf (bs : List UInt8) : Option (Value (List UInt8) × List UInt8) :=
  (start.scanValue bs).bind fun (raw, after) => (leaf raw).map fun v => (v, after)

/-- The value at the front of a text, and what follows it; arrays and objects are nested at most
    `limit` deep. -/
def readValue : Nat → List UInt8 → Option (Value (List UInt8) × List UInt8)
  | 0, bs => readLeaf bs
  | limit + 1, bs =>
    match bs with
    | [] => none
    | c :: rest =>
      if c = 0x7B then
        (readBody (readField (readValue limit)) 0x7D rest).map fun (fields, after) =>
          (.object fields, after)
      else if c = 0x5B then
        (readBody (readValue limit) 0x5D rest).map fun (items, after) => (.array items, after)
      else readLeaf (c :: rest)

def trim (bs : List UInt8) : List UInt8 := (bs.dropWhile isSpace).rdropWhile isSpace

def parse (bs : List UInt8) : Option (Value (List UInt8)) :=
  match readValue (trim bs).length (trim bs) with
  | some (v, []) => some v
  | _ => none

/-! ## Numbers -/

/-- What the digits of a number mean; only integers are looked at. -/
inductive Numeral where
  | int (n : ℤ)
  | other (literal : List UInt8)
  deriving DecidableEq

def numeral (literal : List UInt8) : Numeral :=
  if (unsigned literal).all isDigit then
    .int (if literal.head? = some 0x2D then -(digitsValue (unsigned literal) : ℤ)
      else digitsValue (unsigned literal))
  else .other literal

def meaning (bs : List UInt8) : Option (Value Numeral) :=
  (parse bs).map fun v => (v.map numeral).collapse

/-- `json.Unmarshal` into an `any`. A number that is too large is an error also where a later member
    takes its place. -/
def decodeAny (bs : List UInt8) : Option (Value Float64) :=
  (parse bs).bind fun v =>
    if v.depth ≤ maxNestingDepth then (v.convert parseFloat).map Value.collapse else none

/-! ### Integers are read back -/

theorem isDigit_digitByte {d : ℕ} (h : d < 10) : isDigit (digitByte d) = true := by
  interval_cases d <;> rfl

theorem isSpace_of_isDigit {c : UInt8} (h : isDigit c = true) : isSpace c = false := by
  unfold isDigit at h
  unfold isSpace
  grind

theorem all_isDigit_decimalText (n : ℕ) : (decimalText n).all isDigit = true := by
  induction n using Nat.strong_induction_on with
  | _ n ih =>
    rcases Nat.lt_or_ge n 10 with hlt | hge
    · rw [decimalText_of_lt hlt, List.all_cons, isDigit_digitByte hlt]
      rfl
    · rw [decimalText_of_ge hge, List.all_append, ih (n / 10) (by omega), List.all_cons,
        isDigit_digitByte (by omega)]
      rfl

theorem run_decimalText (n : ℕ) {s : Scanner}
    (hzero : s.step 0x30 = some ⟨.zero, s.stack⟩)
    (hone : ∀ d, 0 < d → d < 10 → s.step (digitByte d) = some ⟨.one, s.stack⟩) :
    s.run (decimalText n) = some ⟨if n = 0 then .zero else .one, s.stack⟩ := by
  induction n using Nat.strong_induction_on with
  | _ n ih =>
    rcases Nat.lt_or_ge n 10 with hlt | hge
    · rcases Nat.eq_zero_or_pos n with rfl | hpos
      · show (s.step 0x30).bind (fun s' => s'.run []) = _
        rw [hzero]
        rfl
      · rw [decimalText_of_lt hlt, Scanner.run, hone n hpos hlt, if_neg (by omega)]
        rfl
    · have hstep : (Scanner.mk .one s.stack).step (digitByte (n % 10)) = some ⟨.one, s.stack⟩ := by
        unfold Scanner.step
        dsimp only
        rw [if_pos (isDigit_digitByte (by omega))]
      rw [decimalText_of_ge hge, Scanner.run_append, ih (n / 10) (by omega), if_neg (by omega),
        Option.bind_some, Scanner.run, hstep, if_neg (by omega)]
      rfl

theorem isCompact_integer (neg : Bool) (n : ℕ) : IsCompact (signText neg ++ decimalText n) := by
  -- a digit may come first, or behind the sign
  have hdigit : ∀ (s : Scanner), s = ⟨.neg, []⟩ ∨ s = start →
      s.step 0x30 = some ⟨.zero, s.stack⟩ ∧
        ∀ d, 0 < d → d < 10 → s.step (digitByte d) = some ⟨.one, s.stack⟩ := by
    rintro s (rfl | rfl)
    · refine ⟨rfl, fun d hpos hlt => ?_⟩
      interval_cases d <;> rfl
    · refine ⟨rfl, fun d hpos hlt => ?_⟩
      interval_cases d <;> rfl
  have hspace : ∀ c ∈ signText neg ++ decimalText n, isSpace c = false := by
    intro c hc
    rcases List.mem_append.mp hc with hsign | hdigits
    · cases neg with
      | false => cases hsign
      | true =>
        rw [List.mem_singleton.mp hsign]
        rfl
    · exact isSpace_of_isDigit (List.all_eq_true.mp (all_isDigit_decimalText n) c hdigits)
  refine ⟨Scanner.tight_of_not_space hspace, ⟨if n = 0 then .zero else .one, []⟩, ?_, ?_⟩
  · cases neg with
    | false =>
      obtain ⟨hzero, hone⟩ := hdigit start (.inr rfl)
      exact run_decimalText n hzero hone
    | true =>
      obtain ⟨hzero, hone⟩ := hdigit ⟨.neg, []⟩ (.inl rfl)
      exact run_decimalText n hzero hone
  · split <;> rfl

theorem head_decimalText_ne (n : ℕ) : (decimalText n).head? ≠ some 0x2D := by
  intro hsign
  have hdigit := List.all_eq_true.mp (all_isDigit_decimalText n) 0x2D (List.mem_of_head? hsign)
  cases hdigit

theorem unsigned_integer (neg : Bool) (n : ℕ) :
    unsigned (signText neg ++ decimalText n) = decimalText n := by
  cases neg with
  | true => rfl
  | false => exact if_neg (head_decimalText_ne n)

theorem head_integer_iff (neg : Bool) (n : ℕ) :
    (signText neg ++ decimalText n).head? = some 0x2D ↔ neg = true := by
  cases neg with
  | true => exact iff_of_true rfl rfl
  | false => exact iff_of_false (head_decimalText_ne n) Bool.false_ne_true

theorem numeral_integer (neg : Bool) (n : ℕ) :
    numeral (signText neg ++ decimalText n) = .int (if neg then -(n : ℤ) else n) := by
  unfold numeral
  rw [unsigned_integer, all_isDigit_decimalText, if_pos rfl, digitsValue_decimalText]
  simp only [head_integer_iff]

/-! ## What follows a value -/

section Suffixes

variable {α : Type*} {read : List UInt8 → Option (α × List UInt8)}

def LeavesRest (read : List UInt8 → Option (α × List UInt8)) : Prop :=
  ∀ bs a after, read bs = some (a, after) → after <:+ bs

theorem skipSpace_suffix (bs : List UInt8) : skipSpace bs <:+ bs := List.dropWhile_suffix isSpace

variable {bs rest after : List UInt8}

theorem suffix_of_skipSpace {c : UInt8} (h : skipSpace bs = c :: rest) : (c :: rest) <:+ bs := by
  rw [← h]
  exact skipSpace_suffix bs

theorem scanValue_suffix {s : Scanner} {value : List UInt8}
    (h : s.scanValue bs = some (value, rest)) : rest <:+ bs :=
  ⟨value, (Scanner.eq_append_of_scanValue h).symm⟩

/-- The closing bracket stands before what is left. -/
theorem LeavesRest.readSequence (hread : LeavesRest read) {close : UInt8} {fuel : ℕ} {as : List α}
    (h : readSequence read close fuel bs = some (as, after)) : (close :: after) <:+ bs := by
  induction fuel generalizing bs as with
  | zero => cases h
  | succ fuel ih =>
    obtain ⟨⟨a, rest⟩, ha, h⟩ := Option.bind_eq_some_iff.mp h
    have hrest : rest <:+ bs := (hread _ a rest ha).trans (skipSpace_suffix bs)
    dsimp only at h
    split at h
    · cases h
    · rename_i c rest' hskip
      have hrest' := (suffix_of_skipSpace hskip).trans hrest
      split at h
      -- a comma: the rest of the sequence ends with the bracket
      · obtain ⟨⟨as', after'⟩, hmore, heq⟩ := Option.map_eq_some_iff.mp h
        cases heq
        exact (ih hmore).trans ((List.suffix_cons c rest').trans hrest')
      · split at h
        -- the bracket itself
        · rename_i hclose
          cases h
          rw [← hclose]
          exact hrest'
        · cases h

theorem LeavesRest.readBody (hread : LeavesRest read) {close : UInt8} {as : List α}
    (h : readBody read close bs = some (as, after)) : (close :: after) <:+ bs := by
  unfold Json.readBody at h
  split at h
  · cases h
  · rename_i c rest hskip
    split at h
    · rename_i hclose
      cases h
      rw [← hclose]
      exact suffix_of_skipSpace hskip
    · exact (hread.readSequence h).trans (suffix_of_skipSpace hskip)

theorem LeavesRest.readField (hread : LeavesRest read) : LeavesRest (readField read) := by
  rintro bs ⟨name, a⟩ after h
  obtain ⟨⟨key, afterKey⟩, hkey, h⟩ := Option.bind_eq_some_iff.mp h
  obtain ⟨name', -, h⟩ := Option.bind_eq_some_iff.mp h
  dsimp only at h
  split at h
  · cases h
  · rename_i c rest hskip
    split at h
    · obtain ⟨⟨a', after'⟩, ha, heq⟩ := Option.map_eq_some_iff.mp h
      cases heq
      calc after' <:+ skipSpace rest := hread _ a' after' ha
        _ <:+ rest := skipSpace_suffix rest
        _ <:+ c :: rest := List.suffix_cons c rest
        _ <:+ afterKey := suffix_of_skipSpace hskip
        _ <:+ bs := scanValue_suffix hkey
    · cases h

end Suffixes

theorem leavesRest_readLeaf : LeavesRest readLeaf := by
  intro bs v after h
  obtain ⟨⟨raw, rest⟩, hraw, h⟩ := Option.bind_eq_some_iff.mp h
  obtain ⟨v', -, heq⟩ := Option.map_eq_some_iff.mp h
  cases heq
  exact scanValue_suffix hraw

theorem leavesRest_readValue (limit : ℕ) : LeavesRest (readValue limit) := by
  induction limit with
  | zero => exact leavesRest_readLeaf
  | succ limit ih =>
    intro bs v after h
    unfold readValue at h
    split at h
    · cases h
    · rename_i c rest
      split at h
      -- an object; the limit is one less inside of it
      · obtain ⟨⟨fields, after'⟩, hbody, heq⟩ := Option.map_eq_some_iff.mp h
        cases heq
        exact (List.suffix_cons 0x7D after).trans
          ((ih.readField.readBody hbody).trans (List.suffix_cons c rest))
      · split at h
        · obtain ⟨⟨items, after'⟩, hbody, heq⟩ := Option.map_eq_some_iff.mp h
          cases heq
          exact (List.suffix_cons 0x5D after).trans
            ((ih.readBody hbody).trans (List.suffix_cons c rest))
        · exact leavesRest_readLeaf _ v after h

variable {bs raw after : List UInt8} {fields : List (String × Value (List UInt8))}
  {v : Value (List UInt8)}

theorem leaf_ne_object : leaf raw ≠ some (.object fields) := by
  intro h
  unfold leaf at h
  split at h
  · cases h
  · split_ifs at h
    · obtain ⟨s, -, heq⟩ := Option.map_eq_some_iff.mp h
      cases heq
    all_goals cases h

theorem readLeaf_ne_object : readLeaf bs ≠ some (.object fields, after) := by
  intro h
  obtain ⟨⟨raw, rest⟩, -, h⟩ := Option.bind_eq_some_iff.mp h
  obtain ⟨v, hleaf, heq⟩ := Option.map_eq_some_iff.mp h
  cases heq
  exact leaf_ne_object hleaf

theorem braces_of_readValue {limit : ℕ} (h : readValue limit bs = some (.object fields, after)) :
    ∃ inner, bs = 0x7B :: (inner ++ 0x7D :: after) := by
  cases limit with
  | zero => exact absurd h readLeaf_ne_object
  | succ limit =>
    unfold readValue at h
    split at h
    · cases h
    · rename_i c rest
      split at h
      · rename_i hc
        obtain ⟨⟨fields', after'⟩, hbody, heq⟩ := Option.map_eq_some_iff.mp h
        cases heq
        obtain ⟨inner, rfl⟩ := (leavesRest_readValue limit).readField.readBody hbody
        exact ⟨inner, by rw [hc]⟩
      · split at h
        · obtain ⟨_, _, heq⟩ := Option.map_eq_some_iff.mp h
          cases heq
        · exact absurd h readLeaf_ne_object

theorem parse_eq_some_iff :
    parse bs = some v ↔ readValue (trim bs).length (trim bs) = some (v, []) := by
  unfold parse
  constructor
  · intro h
    split at h
    · rename_i v' hread
      cases h
      exact hread
    · cases h
  · intro h
    rw [h]

theorem braces_of_parse (h : parse bs = some (.object fields)) :
    ∃ inner, trim bs = 0x7B :: (inner ++ [0x7D]) :=
  braces_of_readValue (parse_eq_some_iff.mp h)

/-! ## Texts that are put together -/

section Written

variable {α : Type*} {read : List UInt8 → Option (α × List UInt8)}

/-- A text is read as something, whatever separator follows. -/
structure ReadsAs (read : List UInt8 → Option (α × List UInt8)) (text : List UInt8) (a : α) :
    Prop where
  head : ∃ c rest, text = c :: rest ∧ isSpace c = false ∧ isDelimiter c = false
  reads : ∀ after : List UInt8, (∀ c ∈ after.head?, isDelimiter c = true) →
    read (text ++ after) = some (a, after)

variable {text spaces : List UInt8} {parts : List (List UInt8 × α)}

theorem ReadsAs.skipSpace_append {a : α} (h : ReadsAs read text a) (after : List UInt8) :
    skipSpace (text ++ after) = text ++ after := by
  obtain ⟨c, rest, rfl, hspace, -⟩ := h.head
  exact skipSpace_of_head hspace _

theorem skipSpace_spaces (h : ∀ c ∈ spaces, isSpace c = true) (bs : List UInt8) :
    skipSpace (spaces ++ bs) = skipSpace bs := List.dropWhile_append_of_pos h

theorem length_le_intercalate {sep : List UInt8} {texts : List (List UInt8)}
    (h : ∀ text ∈ texts, text ≠ []) : texts.length ≤ (sep.intercalate texts).length := by
  induction texts with
  | nil => exact le_rfl
  | cons text texts ih =>
    have hpos := List.length_pos_iff.mpr (h text List.mem_cons_self)
    have hrest := ih fun t ht => h t (List.mem_cons_of_mem text ht)
    cases texts with
    | nil =>
      rw [List.intercalate_singleton]
      exact hpos
    | cons text' texts =>
      rw [List.intercalate_cons_cons, List.length_append, List.length_append, List.length_cons]
      omega

theorem length_part_le (sep : List UInt8) {p : List UInt8 × α} (hp : p ∈ parts) :
    p.1.length ≤ (sep.intercalate (parts.map Prod.fst)).length := by
  induction parts with
  | nil => cases hp
  | cons first parts ih =>
    cases parts with
    | nil =>
      rw [List.mem_singleton.mp hp, List.map_singleton, List.intercalate_singleton]
    | cons second parts =>
      rw [List.map_cons, List.map_cons, List.intercalate_cons_cons, List.length_append,
        List.length_append]
      rcases List.mem_cons.mp hp with rfl | hrest
      · omega
      · have := ih hrest
        rw [List.map_cons] at this
        omega

/-- **Parts with commas between them are read one after the other.** White space may follow the
    commas, and stand before the first part. -/
theorem readSequence_intercalate {close : UInt8} (hclose : isDelimiter close = true)
    (hcomma : close ≠ 0x2C) (hspaces : ∀ c ∈ spaces, isSpace c = true) {part : List UInt8 × α}
    (h : ∀ p ∈ part :: parts, ReadsAs read p.1 p.2) {fuel : ℕ} (hfuel : parts.length < fuel)
    {before : List UInt8} (hbefore : ∀ c ∈ before, isSpace c = true) (after : List UInt8) :
    readSequence read close fuel (before ++
      ((0x2C :: spaces).intercalate ((part :: parts).map Prod.fst) ++ close :: after)) =
        some ((part :: parts).map Prod.snd, after) := by
  induction parts generalizing part fuel before with
  | nil =>
    -- the bracket follows the last part
    have hpart := h part List.mem_cons_self
    obtain ⟨fuel', rfl⟩ := Nat.exists_eq_succ_of_ne_zero (show fuel ≠ 0 by omega)
    rw [List.map_singleton, List.map_singleton, List.intercalate_singleton, readSequence,
      skipSpace_spaces hbefore, hpart.skipSpace_append,
      hpart.reads (close :: after) (fun c hc => by cases hc; exact hclose), Option.bind_some]
    dsimp only
    rw [skipSpace_of_head (Scanner.isSpace_of_isDelimiter hclose)]
    dsimp only
    rw [if_neg hcomma, if_pos rfl]
  | cons part' parts ih =>
    -- a comma follows, and the white space after it stands before the next part
    have hpart := h part List.mem_cons_self
    rw [List.length_cons] at hfuel
    obtain ⟨fuel', rfl⟩ := Nat.exists_eq_succ_of_ne_zero (show fuel ≠ 0 by omega)
    have hrest := @ih part' (fun p hp => h p (List.mem_cons_of_mem part hp)) fuel' (by omega)
      spaces hspaces
    rw [List.map_cons, List.map_cons, List.intercalate_cons_cons, ← List.map_cons, readSequence,
      skipSpace_spaces hbefore]
    simp only [List.append_assoc, List.cons_append]
    rw [hpart.skipSpace_append, hpart.reads _ (fun c hc => by cases hc; rfl), Option.bind_some]
    dsimp only
    rw [skipSpace_of_head rfl]
    dsimp only
    rw [if_pos rfl, hrest, Option.map_some]
    rfl

theorem readBody_intercalate {close : UInt8} (hclose : isDelimiter close = true)
    (hcomma : close ≠ 0x2C) (hspaces : ∀ c ∈ spaces, isSpace c = true)
    (h : ∀ p ∈ parts, ReadsAs read p.1 p.2) (after : List UInt8) :
    readBody read close ((0x2C :: spaces).intercalate (parts.map Prod.fst) ++ close :: after) =
      some (parts.map Prod.snd, after) := by
  unfold readBody
  cases parts with
  | nil =>
    rw [List.map_nil, List.intercalate_nil, List.nil_append,
      skipSpace_of_head (Scanner.isSpace_of_isDelimiter hclose)]
    dsimp only
    rw [if_pos rfl]
    rfl
  | cons part parts =>
    have hne : ∀ text ∈ (part :: parts).map Prod.fst, text ≠ [] := by
      intro text htext
      obtain ⟨p, hp, rfl⟩ := List.mem_map.mp htext
      obtain ⟨c, rest, hcons, -⟩ := (h p hp).head
      rw [hcons]
      exact List.cons_ne_nil c rest
    have hlength := @length_le_intercalate (0x2C :: spaces) _ hne
    rw [List.length_map, List.length_cons] at hlength
    have hfuel : parts.length <
        ((0x2C :: spaces).intercalate ((part :: parts).map Prod.fst) ++ close :: after).length := by
      rw [List.length_append]; omega
    have hread := readSequence_intercalate hclose hcomma hspaces h hfuel
      (List.forall_mem_nil (fun c => isSpace c = true)) after
    rw [List.nil_append] at hread
    -- the first part starts with neither white space nor the bracket
    obtain ⟨c, rest, hcons, hspace, hdelimiter⟩ := (h part List.mem_cons_self).head
    obtain ⟨rest', hrest'⟩ : ∃ rest',
        (0x2C :: spaces).intercalate ((part :: parts).map Prod.fst) = c :: rest' := by
      cases parts with
      | nil => exact ⟨rest, by rw [List.map_singleton, List.intercalate_singleton, hcons]⟩
      | cons part' parts =>
        rw [List.map_cons, List.map_cons, List.intercalate_cons_cons, hcons]
        exact ⟨_, rfl⟩
    rw [hrest', List.cons_append] at hread ⊢
    rw [skipSpace_of_head hspace]
    dsimp only
    rw [if_neg (fun heq => by rw [heq, hclose] at hdelimiter; cases hdelimiter)]
    exact hread

theorem ReadsAs.field {a : α} (h : ReadsAs read text a) {key : List UInt8}
    (hkey : Scanner.IsString key) {name : String} (hname : unquote key = some name) :
    ReadsAs (readField read) (key ++ 0x3A :: text) (name, a) := by
  refine ⟨?_, fun after hafter => ?_⟩
  · obtain ⟨inner, rfl, -⟩ := hkey
    exact ⟨0x22, _, rfl, rfl, rfl⟩
  · unfold readField
    rw [List.append_assoc, List.cons_append, hkey.isCompact.scanValue rfl, Option.bind_some]
    dsimp only
    rw [hname, Option.bind_some, skipSpace_of_head rfl]
    dsimp only
    rw [if_pos rfl, h.skipSpace_append, h.reads after hafter, Option.map_some]

end Written

/-- A text is read as a value, whatever separator follows. -/
def Reads (text : List UInt8) (v : Value (List UInt8)) : Prop :=
  ∀ limit, text.length ≤ limit → ReadsAs (readValue limit) text v

theorem reads_leaf (h : IsCompact raw) (hleaf : leaf raw = some v) : Reads raw v := by
  intro limit hlimit
  obtain ⟨s, hrun, hcomplete⟩ := h.complete
  obtain ⟨c, rest, rfl, hspace, -⟩ := h.head
  refine ⟨⟨c, rest, rfl, hspace, h.head_not_delimiter⟩, fun after hafter => ?_⟩
  have hread : readLeaf (c :: rest ++ after) = some (v, after) := by
    unfold readLeaf
    rw [Scanner.scanValue_of_run h.tight hrun hcomplete hafter, Option.bind_some]
    dsimp only
    rw [hleaf, Option.map_some]
  -- no array or object is a leaf, so the reader does not go down
  have hopen : ¬ (c = 0x7B ∨ c = 0x5B) := by
    intro hc
    unfold leaf at hleaf
    dsimp only at hleaf
    rw [if_pos hc] at hleaf
    cases hleaf
  rw [not_or] at hopen
  cases limit with
  | zero => exact hread
  | succ limit =>
    rw [List.cons_append] at hread ⊢
    unfold readValue
    dsimp only
    rw [if_neg hopen.1, if_neg hopen.2, hread]

section Containers

variable {spaces : List UInt8}

theorem Reads.array (hspaces : ∀ c ∈ spaces, isSpace c = true)
    {parts : List (List UInt8 × Value (List UInt8))} (h : ∀ p ∈ parts, Reads p.1 p.2) :
    Reads (0x5B :: ((0x2C :: spaces).intercalate (parts.map Prod.fst) ++ [0x5D]))
      (.array (parts.map Prod.snd)) := by
  intro limit hlimit
  rw [List.length_cons, List.length_append] at hlimit
  obtain ⟨limit, rfl⟩ := Nat.exists_eq_succ_of_ne_zero (show limit ≠ 0 by omega)
  -- a part is shorter than the whole, so the limit that is left is enough for it
  have hparts : ∀ p ∈ parts, ReadsAs (readValue limit) p.1 p.2 := by
    intro p hp
    apply h p hp limit
    have := length_part_le (0x2C :: spaces) hp
    omega
  refine ⟨⟨0x5B, _, rfl, rfl, rfl⟩, fun after _ => ?_⟩
  rw [List.cons_append, List.append_assoc]
  unfold readValue
  dsimp only
  rw [if_neg (by decide), if_pos rfl, List.singleton_append,
    readBody_intercalate rfl (by decide) hspaces hparts, Option.map_some]

theorem Reads.object (hspaces : ∀ c ∈ spaces, isSpace c = true)
    {parts : List (List UInt8 × String × Value (List UInt8))}
    (h : ∀ p ∈ parts, ∃ key text, p.1 = key ++ 0x3A :: text ∧ Scanner.IsString key ∧
      unquote key = some p.2.1 ∧ Reads text p.2.2) :
    Reads (0x7B :: ((0x2C :: spaces).intercalate (parts.map Prod.fst) ++ [0x7D]))
      (.object (parts.map Prod.snd)) := by
  intro limit hlimit
  rw [List.length_cons, List.length_append] at hlimit
  obtain ⟨limit, rfl⟩ := Nat.exists_eq_succ_of_ne_zero (show limit ≠ 0 by omega)
  have hparts : ∀ p ∈ parts, ReadsAs (readField (readValue limit)) p.1 p.2 := by
    intro p hp
    obtain ⟨key, text, htext, hkey, hname, hvalue⟩ := h p hp
    have hlength := length_part_le (0x2C :: spaces) hp
    rw [htext, List.length_append, List.length_cons] at hlength
    rw [htext]
    exact (hvalue limit (by omega)).field hkey hname
  refine ⟨⟨0x7B, _, rfl, rfl, rfl⟩, fun after _ => ?_⟩
  rw [List.cons_append, List.append_assoc]
  unfold readValue
  dsimp only
  rw [if_pos rfl, List.singleton_append,
    readBody_intercalate rfl (by decide) hspaces hparts, Option.map_some]

end Containers

/-! ## White space around a text -/

theorem trim_of_braces (inner : List UInt8) :
    trim (0x7B :: (inner ++ [0x7D])) = 0x7B :: (inner ++ [0x7D]) := by
  unfold trim
  rw [List.dropWhile_cons_of_neg (by decide), ← List.cons_append, List.rdropWhile_concat_neg _ _ _
    (by decide)]

theorem asciiSpaces_of_isSpace (h : ∀ c ∈ bs, isSpace c = true) : AsciiSpaces bs := by
  intro c hc
  rcases Scanner.isSpace_iff.mp (h c hc) with rfl | rfl | rfl | rfl <;> exact ⟨by decide, by decide⟩

theorem exists_spaces_trim (bs : List UInt8) : ∃ front back : List UInt8,
    (∀ c ∈ front, isSpace c = true) ∧ (∀ c ∈ back, isSpace c = true) ∧
      bs = front ++ (trim bs ++ back) := by
  refine ⟨bs.takeWhile isSpace, (bs.dropWhile isSpace).rtakeWhile isSpace, ?_, ?_, ?_⟩
  · intro c hc
    exact List.mem_takeWhile_imp hc
  · intro c hc
    exact List.mem_rtakeWhile_imp hc
  · rw [trim, List.rdropWhile_append_rtakeWhile, List.takeWhile_append_dropWhile]

/-- **Trimming by Unicode's white space does not change the value of an object's text.** -/
theorem parse_bytesTrimSpace (h : parse bs = some (.object fields)) :
    (∃ inner, bytesTrimSpace bs = 0x7B :: (inner ++ [0x7D])) ∧
      parse (bytesTrimSpace bs) = some (.object fields) := by
  obtain ⟨inner, hinner⟩ := braces_of_parse h
  obtain ⟨front, back, hfront, hback, hbs⟩ := exists_spaces_trim bs
  rw [hinner] at hbs
  have hlast : (0x7B :: (inner ++ [0x7D])).getLast? = some 0x7D := by
    rw [← List.cons_append, List.getLast?_concat]
  have htrim : bytesTrimSpace bs = 0x7B :: (inner ++ [0x7D]) := by
    rw [hbs]
    exact bytesTrimSpace_of_spaces (asciiSpaces_of_isSpace hfront) (asciiSpaces_of_isSpace hback)
      rfl (by decide) (by decide) hlast (by decide) (by decide)
  refine ⟨⟨inner, htrim⟩, ?_⟩
  rw [parse_eq_some_iff, hinner] at h
  rw [parse_eq_some_iff, htrim, trim_of_braces]
  exact h

/-- **A text between braces is the text of its value.** -/
theorem Reads.parse_eq {inner : List UInt8} (h : Reads (0x7B :: (inner ++ [0x7D])) v) :
    parse (0x7B :: (inner ++ [0x7D])) = some v := by
  rw [parse_eq_some_iff, trim_of_braces]
  have hread := (h _ le_rfl).reads [] (by simp)
  rwa [List.append_nil] at hread

end ServiceRuntime.Json
