import ServiceRuntime.Json.Object

/-!
# JSON Arrays

The elements of an array are read as raw texts, as the members of an object are. An array that is
written element by element is a JSON text (`isCompact_arrayText`), and its elements are read back
(`elements_arrayText`). Slices of strings are the arrays that are needed here; their strings may
be of any bytes (`readStrings_stringsText`).
-/

namespace ServiceRuntime.Json

open GoStrings GoUtf8

/-! ## Elements -/

/-- The elements up to the closing bracket; there are fewer than `fuel`. -/
def readElements : Nat → List UInt8 → Option (List (List UInt8))
  | 0, _ => none
  | fuel + 1, bs =>
    (start.scanValue (skipSpace bs)).bind fun (value, rest) =>
      match skipSpace rest with
      | [] => none
      | c :: rest' =>
        if c = 0x2C then (readElements fuel rest').map (value :: ·)
        else if c = 0x5D then some [value]
        else none

def elements (raw : List UInt8) : Option (List (List UInt8)) :=
  match skipSpace (raw.drop 1) with
  | [] => none
  | c :: rest => if c = 0x5D then some [] else readElements raw.length (c :: rest)

/-! ## Writing an array -/

def elementsText : List UInt8 → List (List UInt8) → List UInt8
  | v, [] => v ++ [0x5D]
  | v, v' :: vs => v ++ 0x2C :: elementsText v' vs

def arrayText : List (List UInt8) → List UInt8
  | [] => [0x5B, 0x5D]
  | v :: vs => 0x5B :: elementsText v vs

variable {vs : List (List UInt8)}

theorem readElements_elementsText {v : List UInt8} (h : ∀ v' ∈ v :: vs, IsCompact v') {fuel : Nat}
    (hfuel : vs.length < fuel) : readElements fuel (elementsText v vs) = some (v :: vs) := by
  induction vs generalizing v fuel with
  | nil =>
    have hv := h v List.mem_cons_self
    obtain ⟨fuel', rfl⟩ := Nat.exists_eq_succ_of_ne_zero (show fuel ≠ 0 by omega)
    rw [elementsText, readElements, skipSpace_append hv, hv.scanValue rfl, Option.bind_some]
    rfl
  | cons v' vs ih =>
    have hv := h v List.mem_cons_self
    rw [List.length_cons] at hfuel
    obtain ⟨fuel', rfl⟩ := Nat.exists_eq_succ_of_ne_zero (show fuel ≠ 0 by omega)
    rw [elementsText, readElements, skipSpace_append hv, hv.scanValue rfl, Option.bind_some]
    dsimp only
    rw [skipSpace_of_head rfl]
    dsimp only
    rw [if_pos rfl, ih (fun v'' hv'' => h v'' (List.mem_cons_of_mem _ hv'')) (by omega)]
    rfl

theorem length_lt_elementsText (v : List UInt8) (vs : List (List UInt8)) :
    vs.length < (elementsText v vs).length := by
  induction vs generalizing v with
  | nil =>
    unfold elementsText
    simp
  | cons v' vs ih =>
    have := ih v'
    unfold elementsText
    simp only [List.length_cons, List.length_append]
    omega

theorem IsCompact.head_not_delimiter {c : UInt8} {rest : List UInt8} (h : IsCompact (c :: rest)) :
    isDelimiter c = false := by
  cases hc : isDelimiter c with
  | false => rfl
  | true =>
    obtain ⟨s, hrun, -⟩ := h.complete
    rcases Scanner.eq_of_isDelimiter hc with rfl | rfl | rfl | rfl <;> cases hrun

theorem IsCompact.head_ne_bracket {c : UInt8} {rest : List UInt8} (h : IsCompact (c :: rest)) :
    c ≠ 0x5D := by
  rintro rfl
  cases h.head_not_delimiter

theorem elements_arrayText (h : ∀ v ∈ vs, IsCompact v) : elements (arrayText vs) = some vs := by
  cases vs with
  | nil => rfl
  | cons v vs =>
    have hv := h v List.mem_cons_self
    have hfuel := length_lt_elementsText v vs
    have hread := readElements_elementsText h (show vs.length < (arrayText (v :: vs)).length by
      rw [arrayText, List.length_cons]; omega)
    obtain ⟨c, rest, rfl, hspace, -⟩ := hv.head
    obtain ⟨rest', hrest'⟩ : ∃ rest', elementsText (c :: rest) vs = c :: rest' := by
      cases vs <;> exact ⟨_, rfl⟩
    unfold elements
    rw [show (arrayText ((c :: rest) :: vs)).drop 1 = elementsText (c :: rest) vs from rfl, hrest',
      skipSpace_of_head hspace]
    dsimp only
    rw [if_neg hv.head_ne_bracket, ← hrest']
    exact hread

/-! ## A written array is a JSON text -/

namespace Scanner

theorem passes_elementsText {v : List UInt8} {vs : List (List UInt8)}
    (h : ∀ v' ∈ v :: vs, IsCompact v') :
    ∃ depth, (Scanner.mk .beginValue [.arrayValue]).Passes (elementsText v vs) depth ⟨.endTop, []⟩ ∧
      ∀ n, depth ≤ n + 1 ↔ ∀ v' ∈ v :: vs, Json.nesting v' ≤ n := by
  induction vs generalizing v with
  | nil =>
    exact ⟨_, passes_value (h v List.mem_cons_self) (List.cons_ne_nil _ _) rfl rfl (passes_nil _),
      by simp⟩
  | cons v' vs ih =>
    obtain ⟨depth, hpasses, hdepth⟩ := ih fun v'' hv'' => h v'' (List.mem_cons_of_mem _ hv'')
    refine ⟨_, passes_value (h v List.mem_cons_self) (List.cons_ne_nil _ _) rfl rfl hpasses,
      fun n => ?_⟩
    rw [max_le_iff, List.length_singleton, Nat.succ_le_succ_iff, hdepth]
    exact (List.forall_mem_cons (p := fun v => Json.nesting v ≤ n)).symm

theorem step_orEmpty {c : UInt8} (hspace : isSpace c = false) (hne : c ≠ 0x5D)
    (stack : List ParseState) : (Scanner.mk .beginValueOrEmpty stack).step c =
      (Scanner.mk .beginValue stack).step c := by
  unfold step stepBeginValue
  dsimp only
  rw [if_neg hne, hspace]
  rfl

theorem Passes.orEmpty {c : UInt8} (hspace : isSpace c = false) (hne : c ≠ 0x5D)
    {stack : List ParseState} {bs : List UInt8} {n : ℕ} {s' : Scanner}
    (h : (Scanner.mk .beginValue stack).Passes (c :: bs) n s') :
    (Scanner.mk .beginValueOrEmpty stack).Passes (c :: bs) n s' := by
  have hstep := step_orEmpty hspace hne stack
  obtain ⟨hrun, htight, hnesting⟩ := h
  refine ⟨?_, ⟨htight.1, fun t ht => ?_⟩, ?_⟩
  · rwa [Scanner.run, hstep]
  · rw [hstep] at ht
    exact htight.2 t ht
  · rwa [Scanner.nesting, hstep]

end Scanner

theorem passes_arrayText (h : ∀ v ∈ vs, IsCompact v) :
    ∃ depth, start.Passes (arrayText vs) depth ⟨.endTop, []⟩ ∧
      ∀ n, depth ≤ n + 1 ↔ ∀ v ∈ vs, nesting v ≤ n := by
  cases vs with
  | nil =>
    exact ⟨1, ⟨rfl, Scanner.tight_of_not_space (by simp [arrayText, isSpace]), rfl⟩, by simp⟩
  | cons v vs =>
    obtain ⟨depth, hpasses, hdepth⟩ := Scanner.passes_elementsText h
    have hv := h v List.mem_cons_self
    obtain ⟨c, rest, rfl, hspace, -⟩ := hv.head
    obtain ⟨rest', hrest'⟩ : ∃ rest', elementsText (c :: rest) vs = c :: rest' := by
      cases vs <;> exact ⟨_, rfl⟩
    rw [hrest'] at hpasses
    rw [arrayText, hrest']
    refine ⟨_, Scanner.Passes.cons rfl (by decide) (hpasses.orEmpty hspace hv.head_ne_bracket),
      fun n => ?_⟩
    rw [max_le_iff, hdepth]
    exact and_iff_right (Nat.zero_le _)

/-- **A written array** is one level deeper than its elements. -/
theorem nesting_arrayText (h : ∀ v ∈ vs, IsCompact v) {n : ℕ} :
    nesting (arrayText vs) ≤ n + 1 ↔ ∀ v ∈ vs, nesting v ≤ n := by
  obtain ⟨depth, hpasses, hdepth⟩ := passes_arrayText h
  rw [nesting, hpasses.nesting, hdepth]

theorem isCompact_arrayText (h : ∀ v ∈ vs, IsCompact v) : IsCompact (arrayText vs) := by
  obtain ⟨depth, hpasses, -⟩ := passes_arrayText h
  exact ⟨hpasses.tight, _, hpasses.run, rfl⟩

/-! ## Slices of strings -/

def nullText : List UInt8 := [0x6E, 0x75, 0x6C, 0x6C]

theorem isCompact_nullText : IsCompact nullText := by
  have hspace : ∀ c ∈ nullText, isSpace c = false := by
    simp [nullText, isSpace]
  exact ⟨Scanner.tight_of_not_space hspace, ⟨.endValue, []⟩, rfl, rfl⟩

/-- A slice of strings; one without elements is nil. -/
def stringsText (values : List (List UInt8)) : List UInt8 :=
  if values = [] then nullText else arrayText (values.map quoteBytes)

/-- A string among other values; null leaves it empty. -/
def readString (raw : List UInt8) : Option String :=
  if raw.head? = some 0x6E then some ""
  else if raw.head? = some 0x22 then unquote raw
  else none

/-- A slice of strings; null is nil. -/
def readStrings (raw : List UInt8) : Option (List String) :=
  if raw.head? = some 0x6E then some []
  else if raw.head? = some 0x5B then (elements raw).bind fun values => values.mapM readString
  else none

theorem isCompact_quoteBytes (bs : List UInt8) : IsCompact (quoteBytes bs) :=
  (Scanner.isString_quoteBytes bs).isCompact

theorem isCompact_stringsText (values : List (List UInt8)) : IsCompact (stringsText values) := by
  unfold stringsText
  split
  · exact isCompact_nullText
  · apply isCompact_arrayText
    intro v hv
    obtain ⟨bs, -, rfl⟩ := List.mem_map.mp hv
    exact isCompact_quoteBytes bs

theorem nesting_stringsText_le (values : List (List UInt8)) : nesting (stringsText values) ≤ 1 := by
  have hstring : ∀ v ∈ values.map quoteBytes, Scanner.IsString v := by
    intro v hv
    obtain ⟨bs, -, rfl⟩ := List.mem_map.mp hv
    exact Scanner.isString_quoteBytes bs
  unfold stringsText
  split
  · exact Nat.zero_le 1
  · rw [nesting_arrayText fun v hv => (hstring v hv).isCompact]
    exact fun v hv => (hstring v hv).nesting_eq.le

theorem readString_quoteBytes (bs : List UInt8) : readString (quoteBytes bs) = some (toValid bs) := by
  unfold readString
  rw [if_neg (by simp [quoteBytes]), if_pos (by simp [quoteBytes]), unquote_quoteBytes]

/-- **A slice of strings is read back**, with the replacement character for what was not valid. -/
theorem readStrings_stringsText (values : List (List UInt8)) :
    readStrings (stringsText values) = some (values.map toValid) := by
  unfold readStrings stringsText
  split
  · rename_i hempty
    rw [hempty]
    rfl
  · rename_i hne
    have hbracket : (arrayText (values.map quoteBytes)).head? = some 0x5B := by
      cases values <;> rfl
    have hcompact : ∀ v ∈ values.map quoteBytes, IsCompact v := by
      intro v hv
      obtain ⟨bs, -, rfl⟩ := List.mem_map.mp hv
      exact isCompact_quoteBytes bs
    rw [hbracket, if_neg (by decide), if_pos rfl, elements_arrayText hcompact, Option.bind_some]
    -- element by element
    clear hne hbracket hcompact
    induction values with
    | nil => rfl
    | cons v values ih =>
      rw [List.map_cons, List.mapM_cons, readString_quoteBytes, ih]
      rfl

end ServiceRuntime.Json
