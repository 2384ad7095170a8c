import ServiceRuntime.GoTrim
import ServiceRuntime.GoUnicode

/-!
# Metric Prefixes

The names of the metrics of a service start with a prefix made from the name of the service.
`observability` and `ratelimit` each have a function `metricPrefix` for it. Both go over the code
points of the trimmed name, write letters and digits in lower case and `_` for everything else,
and cut the underscores from both ends:

    trim white space → normalise each code point → trim "_" → "service" or "service_" in front

The function of `observability` also writes a `_` after the first code point, if that is a digit.
Every prefix is well formed (`finish_wellFormed`), but because of that `_` the two functions do
not agree on every name (`finish_written_iff`).
-/

namespace ServiceRuntime.MetricPrefix

open GoStrings GoTrim GoUnicode GoUtf8

/-! ## What both functions do -/

/-- The byte `_`. -/
def underscore : UInt8 := 0x5F

/-- What the `switch` in the loop writes for a code point. -/
def normalize (T : Tables) (c : Char) : List UInt8 :=
  if T.isLetter c || T.isDigit c then String.utf8EncodeChar (T.toLower c) else [underscore]

/-- A byte between `'0'` and `'9'`. -/
def isAsciiDigit (b : UInt8) : Bool := 0x30 ≤ b && b ≤ 0x39

/-- From the end of the loop on; `text` is what has been written. -/
def finish (text : List UInt8) : List UInt8 :=
  match trimByte underscore text with
  -- no letter and no digit in the name
  | [] => bytes "service"
  -- the name of a metric does not start with a digit
  | first :: rest =>
    if isAsciiDigit first then bytes "service_" ++ first :: rest else first :: rest

end ServiceRuntime.MetricPrefix

/-! ## The functions -/

namespace ServiceRuntime.Observability

open GoStrings GoUnicode GoUtf8 MetricPrefix

/-- The body of the loop of `metricPrefix`. -/
def writeRune (T : Tables) (builder : List UInt8) : Nat × Char → List UInt8
  | (index, runeValue) =>
    let builder := builder ++ normalize T runeValue
    -- a branch that `ratelimit` does not have
    if index = 0 ∧ T.isDigit runeValue = true then builder ++ [underscore] else builder

/-- `metricPrefix` of `observability`. -/
def metricPrefix (T : Tables) (serviceName : List UInt8) : List UInt8 :=
  let serviceName := bytesTrimSpace serviceName
  if serviceName = [] then bytes "service"
  else finish ((rangeString serviceName).foldl (writeRune T) [])

end ServiceRuntime.Observability

namespace ServiceRuntime.RateLimit

open GoStrings GoUnicode GoUtf8 MetricPrefix

/-- The body of the loop of `metricPrefix`. -/
def writeRune (T : Tables) (builder : List UInt8) : Nat × Char → List UInt8
  | (_, runeValue) => builder ++ normalize T runeValue

/-- `metricPrefix` of `ratelimit`. -/
def metricPrefix (T : Tables) (serviceName : List UInt8) : List UInt8 :=
  let serviceName := bytesTrimSpace serviceName
  if serviceName = [] then bytes "service"
  else finish ((rangeString serviceName).foldl (writeRune T) [])

end ServiceRuntime.RateLimit

namespace ServiceRuntime.MetricPrefix

open GoStrings GoTrim GoUnicode GoUtf8

/-! ## The loops -/

theorem foldl_writeRune (T : Tables) (ps : List (Nat × Char)) (builder : List UInt8) :
    ps.foldl (RateLimit.writeRune T) builder =
      builder ++ (ps.map Prod.snd).flatMap (normalize T) := by
  induction ps generalizing builder with
  | nil => rw [List.foldl_nil, List.map_nil, List.flatMap_nil, List.append_nil]
  | cons p ps ih =>
    rw [List.foldl_cons, ih, List.map_cons, List.flatMap_cons, ← List.append_assoc]
    rfl

theorem foldl_writeRune_later (T : Tables) {ps : List (Nat × Char)} (h : ∀ p ∈ ps, p.1 ≠ 0)
    (builder : List UInt8) :
    ps.foldl (Observability.writeRune T) builder = ps.foldl (RateLimit.writeRune T) builder := by
  induction ps generalizing builder with
  | nil => rfl
  | cons p ps ih =>
    have hbody : Observability.writeRune T builder p = RateLimit.writeRune T builder p :=
      if_neg fun hzero => h p List.mem_cons_self hzero.1
    rw [List.foldl_cons, List.foldl_cons, hbody]
    exact ih (fun q hq => h q (List.mem_cons_of_mem p hq)) _

/-- What the loop of `observability` has written after all code points. -/
def written (T : Tables) : List Char → List UInt8
  | [] => []
  | c :: cs =>
    normalize T c ++ ((if T.isDigit c = true then [underscore] else []) ++ cs.flatMap (normalize T))

theorem finish_nil : finish [] = bytes "service" := rfl

theorem rateLimit_eq (T : Tables) (name : List UInt8) :
    RateLimit.metricPrefix T name =
      finish ((chars (bytesTrimSpace name)).flatMap (normalize T)) := by
  unfold RateLimit.metricPrefix
  dsimp only
  split
  · rename_i hempty
    rw [hempty, chars_nil, List.flatMap_nil, finish_nil]
  · rw [foldl_writeRune, map_snd_rangeString, List.nil_append]

theorem observability_eq (T : Tables) (name : List UInt8) :
    Observability.metricPrefix T name = finish (written T (chars (bytesTrimSpace name))) := by
  unfold Observability.metricPrefix
  dsimp only
  cases hchars : chars (bytesTrimSpace name) with
  | nil => rw [if_pos (chars_eq_nil_iff.mp hchars), written, finish_nil]
  | cons c cs =>
    have hne : bytesTrimSpace name ≠ [] := by
      intro hempty
      rw [hempty] at hchars
      cases hchars
    obtain ⟨later, hrange, rfl, hlater⟩ := rangeString_of_chars hchars
    have hfirst : Observability.writeRune T [] (0, c) =
        normalize T c ++ if T.isDigit c = true then [underscore] else [] := by
      by_cases hdigit : T.isDigit c = true
      · simp [Observability.writeRune, hdigit]
      · simp [Observability.writeRune, hdigit]
    rw [if_neg hne, hrange, List.foldl_cons, foldl_writeRune_later T hlater, foldl_writeRune,
      hfirst, written, List.append_assoc]

/-! ## Every prefix is well formed -/

/-- A prefix for the names of metrics. -/
structure WellFormed (text : List UInt8) : Prop where
  nonempty : text ≠ []
  leading : text.head? ≠ some underscore
  trailing : text.getLast? ≠ some underscore
  digit : ∀ b, text.head? = some b → isAsciiDigit b = false

theorem WellFormed.of_head {text : List UInt8} {b : UInt8} (hhead : text.head? = some b)
    (hb : b ≠ underscore) (hdigit : isAsciiDigit b = false)
    (hlast : text.getLast? ≠ some underscore) : WellFormed text where
  nonempty := by
    rintro rfl
    cases hhead
  leading := by
    rw [hhead]
    exact fun h => hb (Option.some.inj h)
  trailing := hlast
  digit := by
    intro b' hb'
    rw [hhead] at hb'
    cases hb'
    exact hdigit

theorem head_service (text : List UInt8) :
    (bytes "service").head? = some 0x73 ∧ (bytes "service_" ++ text).head? = some 0x73 := by
  constructor
  · decide
  · rw [List.head?_append, show (bytes "service_").head? = some 0x73 by decide, Option.some_or]

/-- **Every prefix is well formed.** -/
theorem finish_wellFormed (text : List UInt8) : WellFormed (finish text) := by
  have hhead := head_trimByte_ne underscore text
  have hlast := getLast_trimByte_ne underscore text
  unfold finish
  cases htrim : trimByte underscore text with
  | nil => exact .of_head (head_service []).1 (by decide) (by decide) (by decide)
  | cons first rest =>
    rw [htrim] at hhead hlast
    dsimp only
    by_cases hdigit : isAsciiDigit first = true
    · rw [if_pos hdigit]
      apply WellFormed.of_head (head_service _).2 (by decide) (by decide)
      rwa [List.getLast?_append_of_ne_nil _ (List.cons_ne_nil first rest)]
    · rw [if_neg hdigit]
      have hfirst : first ≠ underscore := by
        rintro rfl
        exact hhead rfl
      exact .of_head rfl hfirst (Bool.eq_false_iff.mpr hdigit) hlast

/-! ## Where the functions agree -/

variable {T : Tables} {c : Char} {cs : List Char}

theorem underscore_notMem_encode (h : T.isWord c = true) :
    underscore ∉ String.utf8EncodeChar c := by
  intro hmem
  have hone := eq_of_mem_utf8EncodeChar (by decide) hmem
  have hchar : c = '_' := by
    have hself := firstRune_encode_append c []
    rw [List.append_nil, hone] at hself
    exact (Option.some.inj hself).symm.trans (by decide)
  rw [hchar, T.isWord_ascii (by decide)] at h
  exact absurd h (by decide)

theorem normalize_of_isWord (h : T.isWord c = true) :
    normalize T c ≠ [] ∧ underscore ∉ normalize T c := by
  rw [normalize, ← Tables.isWord, if_pos h]
  exact ⟨String.utf8EncodeChar_ne_nil, underscore_notMem_encode (Tables.isWord_toLower h)⟩

theorem normalize_of_not (h : ¬T.isWord c = true) :
    normalize T c = [underscore] := if_neg h

theorem all_underscore_iff :
    (cs.flatMap (normalize T)).rdropWhile (· == underscore) = [] ↔
      ∀ c ∈ cs, ¬T.isWord c = true := by
  rw [List.rdropWhile_eq_nil_iff]
  constructor
  · intro hall c hc hword
    obtain ⟨hne, hnone⟩ := normalize_of_isWord hword
    obtain ⟨b, hb⟩ := List.exists_mem_of_ne_nil _ hne
    have hbu := hall b (List.mem_flatMap.mpr ⟨c, hc, hb⟩)
    rw [beq_iff_eq.mp hbu] at hb
    exact hnone hb
  · intro hnone b hb
    obtain ⟨c, hc, hbc⟩ := List.mem_flatMap.mp hb
    rw [normalize_of_not (hnone c hc)] at hbc
    exact beq_iff_eq.mpr (List.mem_singleton.mp hbc)

theorem finish_injective {front back back' : List UInt8} (hne : front ≠ [])
    (hnone : underscore ∉ front) (h : finish (front ++ back) = finish (front ++ back')) :
    back.rdropWhile (· == underscore) = back'.rdropWhile (· == underscore) := by
  obtain ⟨first, front, rfl⟩ := List.exists_cons_of_ne_nil hne
  unfold finish at h
  rw [trimByte_append hne hnone, trimByte_append hne hnone, List.cons_append, List.cons_append] at h
  dsimp only at h
  -- both have the same first byte, so "service_" is put before both or none
  split at h
  · exact List.append_cancel_left (List.cons.inj (List.append_cancel_left h)).2
  · exact List.append_cancel_left (List.cons.inj h).2

/-- For a name that starts with a digit, the prefixes are the same if nothing else is to come. -/
theorem finish_written_digit {d : Char} (hd : T.isDigit d = true) (cs : List Char) :
    finish (written T (d :: cs)) = finish ((d :: cs).flatMap (normalize T)) ↔
      ∀ c ∈ cs, ¬T.isWord c = true := by
  obtain ⟨hne, hnone⟩ := normalize_of_isWord (Tables.isWord_of_isDigit hd)
  rw [written, if_pos hd, List.flatMap_cons, ← all_underscore_iff]
  generalize normalize T d = front at hne hnone
  generalize cs.flatMap (normalize T) = back
  constructor
  · intro h
    have hback := finish_injective hne hnone h
    by_contra hrest
    -- the additional underscore stands before something that is kept
    rw [rdropWhile_append hrest] at hback
    have hlen := congrArg List.length hback
    rw [List.length_append, List.length_singleton] at hlen
    omega
  · intro hrest
    have hall : ∀ b ∈ [underscore] ++ back, (b == underscore) = true := by
      intro b hb
      rcases List.mem_append.mp hb with hb | hb
      · exact beq_iff_eq.mpr (List.mem_singleton.mp hb)
      · exact List.rdropWhile_eq_nil_iff.mp hrest b hb
    have htrim : ([underscore] ++ back).rdropWhile (· == underscore) = [] :=
      List.rdropWhile_eq_nil_iff.mpr hall
    unfold finish
    rw [trimByte_append hne hnone, trimByte_append hne hnone, htrim, hrest]

/-- A digit first, and another letter or digit after it. -/
def DigitThenWord (T : Tables) : List Char → Prop
  | [] => False
  | d :: cs => T.isDigit d = true ∧ ∃ c ∈ cs, T.isWord c = true

/-- White space at the end makes no difference to that. -/
theorem digitThenWord_rdropWhile (cs : List Char) :
    DigitThenWord T (cs.rdropWhile isSpace) ↔ DigitThenWord T cs := by
  have hspace : ∀ {c}, T.isWord c = true → ¬isSpace c = true := fun h =>
    Bool.eq_false_iff.mp (Tables.isSpace_of_isWord h)
  cases cs with
  | nil => rfl
  | cons d cs =>
    by_cases hd : T.isDigit d = true
    · have hkept : ([d] ++ cs).rdropWhile isSpace = [d] ++ cs.rdropWhile isSpace := by
        apply rdropWhile_append_of_none
        intro c hc
        rw [List.mem_singleton.mp hc]
        exact hspace (Tables.isWord_of_isDigit hd)
      rw [List.singleton_append, List.singleton_append] at hkept
      rw [hkept, DigitThenWord, DigitThenWord]
      apply and_congr_right'
      exact exists_congr fun c => and_congr_left fun hword => mem_rdropWhile (hspace hword)
    -- the first code point is not a digit, or nothing is left
    · refine iff_of_false ?_ fun h => hd h.1
      obtain ⟨cut, hcut⟩ := List.rdropWhile_prefix isSpace (d :: cs)
      cases hleft : (d :: cs).rdropWhile isSpace with
      | nil => exact id
      | cons e es =>
        rw [hleft, List.cons_append, List.cons.injEq] at hcut
        rw [hcut.1]
        exact fun h => hd h.1

theorem finish_written_iff (T : Tables) (cs : List Char) :
    finish (written T cs) = finish (cs.flatMap (normalize T)) ↔ ¬DigitThenWord T cs := by
  cases cs with
  | nil => exact iff_of_true rfl id
  | cons d cs =>
    by_cases hd : T.isDigit d = true
    · rw [finish_written_digit hd, DigitThenWord, and_iff_right hd]
      simp only [not_exists, not_and]
    · refine iff_of_true ?_ fun h => hd h.1
      rw [written, if_neg hd, List.nil_append, List.flatMap_cons]

/-- After the white space in front, the name starts with a digit that another letter or digit
    follows. -/
def LedByDigit (T : Tables) (name : List UInt8) : Prop :=
  DigitThenWord T ((chars name).dropWhile isSpace)

/-- **One service has one metric prefix**, unless its name starts with a digit and has another
    letter or digit. -/
theorem metricPrefix_agree_iff (T : Tables) (name : List UInt8) :
    (Observability.metricPrefix T name = RateLimit.metricPrefix T name ∧
      WellFormed (Observability.metricPrefix T name) ∧
      WellFormed (RateLimit.metricPrefix T name)) ↔ ¬LedByDigit T name := by
  rw [observability_eq, rateLimit_eq, LedByDigit, ← digitThenWord_rdropWhile,
    ← chars_bytesTrimSpace, ← finish_written_iff]
  exact and_iff_left ⟨finish_wellFormed _, finish_wellFormed _⟩

theorem normalize_ascii (T : Tables) (h : c.toNat < 128) : normalize T c = normalize .ascii c := by
  rw [normalize, T.isLetter_ascii c h, T.isDigit_ascii c h, T.toLower_ascii c h]
  rfl

theorem flatMap_normalize_ascii (T : Tables) (h : ∀ c ∈ cs, c.toNat < 128) :
    cs.flatMap (normalize T) = cs.flatMap (normalize .ascii) :=
  List.flatMap_congr fun c hc => normalize_ascii T (h c hc)

theorem written_ascii (T : Tables) (h : ∀ c ∈ cs, c.toNat < 128) :
    written T cs = written .ascii cs := by
  cases cs with
  | nil => rfl
  | cons c cs =>
    have hc := h c List.mem_cons_self
    rw [written, normalize_ascii T hc, T.isDigit_ascii c hc,
      flatMap_normalize_ascii T fun d hd => h d (List.mem_cons_of_mem c hd)]
    rfl

/-- The two prefixes of the service `3gate`. -/
theorem metricPrefix_differs :
    (∀ T, Observability.metricPrefix T (bytes "3gate") = bytes "service_3_gate") ∧
      (∀ T, RateLimit.metricPrefix T (bytes "3gate") = bytes "service_3gate") ∧
      bytes "service_3_gate" ≠ bytes "service_3gate" := by
  have hchars : chars (bytesTrimSpace (bytes "3gate")) = ['3', 'g', 'a', 't', 'e'] := by
    rw [bytesTrimSpace_bytes, chars_bytes]
    decide
  have hascii : ∀ c ∈ ['3', 'g', 'a', 't', 'e'], c.toNat < 128 := by simp
  refine ⟨?_, ?_, by decide⟩
  · intro T
    rw [observability_eq, hchars, written_ascii T hascii]
    decide
  · intro T
    rw [rateLimit_eq, hchars, flatMap_normalize_ascii T hascii]
    decide

end ServiceRuntime.MetricPrefix
