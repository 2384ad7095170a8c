import ServiceRuntime.Json.Text

/-!
# Compact JSON Texts

Compacting drops the white space outside of strings and escapes what means something in HTML or
JavaScript. What comes out is a JSON text without white space (`compact_spec`): the machine that
reads it stays together with the one that reads the original, since white space changes nothing
that a later byte could see. In particular as much is open in it as in the original.
-/

namespace ServiceRuntime.Json

open GoUtf8

/-! ## Dropping white space -/

def startsLineSeparator (bs : List UInt8) : Bool :=
  bs.take 3 == [0xE2, 0x80, 0xA8] || bs.take 3 == [0xE2, 0x80, 0xA9]

/-- What is written for the byte `c`, with `rest` after it, and how many further bytes it stands
    for. -/
def compactByte (inString : Bool) (c : UInt8) (rest : List UInt8) : List UInt8 × Nat :=
  if c = 0x3C ∨ c = 0x3E ∨ c = 0x26 then (escapeU c.toNat, 0)
  else if startsLineSeparator (c :: rest) then
    (escapeU (0x2000 + (rest.getD 1 0).toNat % 128), 2)
  else if isSpace c && !inString then ([], 0)
  else ([c], 0)

/-- Compact a text that the machine reads from `s`; the next `skip` bytes have been written. -/
def compactFrom : Scanner → Nat → List UInt8 → Option (List UInt8)
  | s, _, [] => if s.complete then some [] else none
  | s, skip, c :: rest =>
    (s.step c).bind fun s' =>
      match skip with
      | skip' + 1 => compactFrom s' skip' rest
      | 0 =>
        (compactFrom s' (compactByte s.isInString c rest).2 rest).map
          ((compactByte s.isInString c rest).1 ++ ·)

/-- A JSON text without white space outside of strings, and with the characters escaped that mean
    something in HTML or JavaScript. It may not be nested deeper than `encoding/json` reads. -/
def compact (bs : List UInt8) : Option (List UInt8) :=
  if nesting bs ≤ maxNestingDepth then compactFrom start 0 bs else none

namespace Scanner

def Structural (c : UInt8) : Prop := c < 0x80 ∧ c ≠ 0x3C ∧ c ≠ 0x3E ∧ c ≠ 0x26

instance (c : UInt8) : Decidable (Structural c) := by unfold Structural; infer_instance

variable {c : UInt8} {s s' : Scanner}

theorem structural_of_isSpace (h : isSpace c = true) : Structural c := by
  rcases isSpace_iff.mp h with rfl | rfl | rfl | rfl <;> decide

theorem structural_of_isDigit (h : isDigit c = true) : Structural c := by
  unfold isDigit at h
  unfold Structural
  grind

theorem structural_of_isHex (h : isHex c = true) : Structural c := by
  unfold isHex isDigit at h
  unfold Structural
  grind

theorem stepEndValue_structural {stack : List ParseState} (h : stepEndValue stack c = some s) :
    Structural c := by
  cases hspace : isSpace c with
  | true => exact structural_of_isSpace hspace
  | false =>
    have hdelimiter := isDelimiter_of_stepEndValue hspace h
    unfold isDelimiter at hdelimiter
    unfold Structural
    grind

theorem stepBeginValue_structural {self : State} {stack : List ParseState}
    (h : stepBeginValue self stack c = some s) : Structural c := by
  unfold stepBeginValue at h
  split at h
  · exact structural_of_isSpace ‹_›
  · obtain ⟨⟨state, opened⟩, hstart, -⟩ := Option.map_eq_some_iff.mp h
    rcases (valueStart_eq_some hstart).2 with hdigit | rfl | rfl | rfl | rfl | rfl | rfl | rfl
    · exact structural_of_isDigit hdigit
    all_goals decide

theorem step_structural (h : s.step c = some s') (hs : s.state ≠ .inString) : Structural c := by
  have hexpect : ∀ {letter : UInt8} {next : State} {stack : List ParseState},
      Structural letter → expect letter next stack c = some s' → Structural c := by
    intro letter next stack hletter hstep
    unfold expect at hstep
    split at hstep
    · subst c
      exact hletter
    · cases hstep
  have hhex : ∀ {next : State} {stack : List ParseState},
      stepHex next stack c = some s' → Structural c := by
    intro next stack hstep
    unfold stepHex at hstep
    split at hstep
    · exact structural_of_isHex ‹_›
    · cases hstep
  obtain ⟨state, stack⟩ := s
  cases state with
  | inString => exact absurd rfl hs
  | inStringEscU | inStringEscU1 | inStringEscU12 | inStringEscU123 => exact hhex h
  | t | tr | tru | f | fa | fal | fals | n | nu | nul => exact hexpect (by decide) h
  | beginValue => exact stepBeginValue_structural h
  | endValue => exact stepEndValue_structural h
  | inStringEsc =>
    unfold step at h
    dsimp only at h
    split at h
    · rename_i hc
      rcases hc with rfl | rfl | rfl | rfl | rfl | rfl | rfl | rfl <;> decide
    · split at h
      · subst c
        decide
      · cases h
  | _ =>
    unfold step at h
    dsimp only at h
    -- white space, a digit, one of a few bytes, or what may come before or after a value
    repeat' split at h
    all_goals first
      | exact structural_of_isSpace ‹_›
      | exact structural_of_isDigit ‹_›
      | exact stepEndValue_structural h
      | exact stepBeginValue_structural h
      | (subst c; decide)
      | (rcases ‹_ ∨ _› with rfl | rfl <;> decide)
      | cases h

theorem step_text (h : s.step c = some s') (hc : c = 0x3C ∨ c = 0x3E ∨ c = 0x26 ∨ 0x80 ≤ c) :
    s.state = .inString ∧ s' = s := by
  have hs : s.state = .inString := by
    by_contra hs
    have hstructural := step_structural h hs
    unfold Structural at hstructural
    grind
  refine ⟨hs, ?_⟩
  unfold step at h
  rw [hs] at h
  grind

/-- Compacting a text leaves one that the machine reads to the same end, without white space and as
    deep. The machine is at `s` in the text and at `t` in what has been written. -/
theorem compactFrom_spec {t : Scanner} {skip : Nat} {bs out : List UInt8}
    (h : compactFrom s skip bs = some out) (hspaced : Spaced t s)
    (hskip : skip ≠ 0 → s.state = .inString ∧ ∀ b ∈ bs.take skip, 0x80 ≤ b) :
    (∃ t', t.run out = some t' ∧ t'.complete = true) ∧ t.Tight out ∧
      t.nesting out = s.nesting bs := by
  induction bs generalizing s t skip out with
  | nil =>
    unfold compactFrom at h
    split at h
    · rename_i hcomplete
      cases h
      exact ⟨⟨t, rfl, hspaced.complete hcomplete⟩, trivial, by rw [nesting, nesting, hspaced.stack_eq]⟩
    · cases h
  | cons c bs ih =>
    unfold compactFrom at h
    obtain ⟨s', hstep, h⟩ := Option.bind_eq_some_iff.mp h
    rw [nesting_cons hstep]
    -- an escaped byte stands in a string, where both machines stay
    have hescape : ∀ {n skip' : Nat} {out' : List UInt8}, s.state = .inString → s' = s →
        compactFrom s' skip' bs = some out' → (skip' ≠ 0 → ∀ b ∈ bs.take skip', 0x80 ≤ b) →
        (∃ t', t.run (escapeU n ++ out') = some t' ∧ t'.complete = true) ∧
          t.Tight (escapeU n ++ out') ∧
          t.nesting (escapeU n ++ out') = max s.stack.length (s'.nesting bs) := by
      intro n skip' out' hs hsame hrest hskip'
      subst hsame
      have hstate : s' = inString s'.stack := by
        rw [inString, ← hs]
      have ht : t = s' := by
        rcases hspaced with rfl | ⟨_, hafter⟩
        · rfl
        · rw [hstate] at hafter
          exact absurd (afterSpace_afterSpace hafter).1 (by simp [inString, isInString])
      subst ht
      obtain ⟨⟨t', hrun, hcomplete⟩, htight, hnesting⟩ :=
        ih hrest (.inl rfl) fun hne => ⟨hs, hskip' hne⟩
      obtain ⟨hrunEscape, htightEscape, hflat⟩ := staysInString_escapeU n t.stack
      rw [← hstate] at hrunEscape htightEscape hflat
      refine ⟨⟨t', ?_, hcomplete⟩, htightEscape.append hrunEscape htight, ?_⟩
      · rw [run_append, hrunEscape]
        exact hrun
      · rw [nesting_append hrunEscape, hflat, hnesting]
    cases skip with
    | succ skip' =>
      -- a byte of a line separator whose escape has been written
      obtain ⟨hs, hhigh⟩ := hskip (Nat.succ_ne_zero skip')
      rw [List.take_succ_cons] at hhigh
      obtain ⟨-, rfl⟩ := step_text hstep (.inr (.inr (.inr (hhigh c List.mem_cons_self))))
      rw [max_eq_right (le_nesting _ bs)]
      exact ih h hspaced fun _ => ⟨hs, fun b hb => hhigh b (List.mem_cons_of_mem c hb)⟩
    | zero =>
      obtain ⟨out', hrest, rfl⟩ := Option.map_eq_some_iff.mp h
      unfold compactByte at hrest ⊢
      split at hrest
      -- `<`, `>` and `&` stand in strings only
      · rename_i hhtml
        obtain ⟨hs, hsame⟩ := step_text hstep (by tauto)
        rw [if_pos hhtml]
        exact hescape hs hsame hrest fun hne => absurd rfl hne
      · rename_i hhtml
        rw [if_neg hhtml]
        split at hrest
        -- the two further bytes of a line separator are beyond ASCII as well
        · rename_i hseparator
          rw [if_pos hseparator]
          have hbytes : c = 0xE2 ∧ ∀ b ∈ bs.take 2, 0x80 ≤ b := by
            unfold startsLineSeparator at hseparator
            rw [List.take_succ_cons] at hseparator
            simp only [Bool.or_eq_true, beq_iff_eq, List.cons.injEq] at hseparator
            rcases hseparator with ⟨hc, htake⟩ | ⟨hc, htake⟩
            all_goals
              refine ⟨hc, fun b hb => ?_⟩
              rw [htake] at hb
              simp only [List.mem_cons, List.not_mem_nil, or_false] at hb
              rcases hb with rfl | rfl <;> decide
          obtain ⟨hs, hsame⟩ := step_text hstep (by rw [hbytes.1]; decide)
          exact hescape hs hsame hrest fun _ => hbytes.2
        · rename_i hseparator
          rw [if_neg hseparator]
          split at hrest
          -- white space outside of strings is dropped, and `t` stays behind
          · rename_i hspace
            rw [if_pos hspace]
            simp only [Bool.and_eq_true, Bool.not_eq_true'] at hspace
            have ht : t.isInString = false := by
              rw [← hspaced.isInString_eq]
              exact hspace.2
            have hspaced' := hspaced.step_space ht hspace.1 hstep
            rw [hspaced.stack_eq, ← hspaced'.stack_eq, max_eq_right (le_nesting _ bs)]
            exact ih hrest hspaced' fun hne => absurd rfl hne
          -- any other byte is copied
          · rename_i hspace
            rw [if_neg hspace]
            have hin : isSpace c = true → t.isInString = true := by
              intro hc
              rw [← hspaced.isInString_eq]
              simpa [hc] using hspace
            have htstep := hspaced.step hin hstep
            obtain ⟨⟨t', hrun, hcomplete⟩, htight, hnesting⟩ :=
              ih hrest (.inl rfl) fun hne => absurd rfl hne
            refine ⟨⟨t', ?_, hcomplete⟩, ⟨hin, fun s₁ hs₁ => ?_⟩, ?_⟩
            · rw [List.singleton_append, run, htstep]
              exact hrun
            · rw [htstep] at hs₁
              cases hs₁
              exact htight
            · rw [List.singleton_append, nesting_cons htstep, hnesting, hspaced.stack_eq]

theorem compactFrom_of_run {bs : List UInt8} (h : s.run bs = some s')
    (hcomplete : s'.complete = true) (skip : Nat) : ∃ out, compactFrom s skip bs = some out := by
  induction bs generalizing s skip with
  | nil =>
    cases h
    exact ⟨[], by rw [compactFrom, if_pos hcomplete]⟩
  | cons c bs ih =>
    obtain ⟨s₁, hstep, hrun⟩ := Option.bind_eq_some_iff.mp h
    rw [compactFrom, hstep, Option.bind_some]
    cases skip with
    | succ skip' => exact ih hrun skip'
    | zero =>
      obtain ⟨out, hout⟩ := ih hrun (compactByte s.isInString c bs).2
      exact ⟨_, by dsimp only; rw [hout, Option.map_some]⟩

end Scanner

/-! ## Values without white space -/

/-- A JSON text without white space outside of strings. -/
structure IsCompact (bs : List UInt8) : Prop where
  tight : start.Tight bs
  complete : ∃ s, start.run bs = some s ∧ s.complete = true

variable {bs out text : List UInt8}

theorem Scanner.IsString.isCompact (h : Scanner.IsString text) : IsCompact text := by
  obtain ⟨hrun, htight, -⟩ := h.run (s := start) rfl
  exact ⟨htight, _, hrun, rfl⟩

theorem Scanner.IsString.nesting_eq (h : Scanner.IsString text) :
    Json.nesting text = 0 := (h.run (s := start) rfl).2.2

theorem compact_eq_some :
    compact bs = some out ↔ nesting bs ≤ maxNestingDepth ∧ compactFrom start 0 bs = some out := by
  unfold compact
  split <;> simp_all

/-- **Compacting** gives a compact text, nested as deep. -/
theorem compact_spec (h : compact bs = some out) : IsCompact out ∧ nesting out = nesting bs := by
  obtain ⟨hcomplete, htight, hnesting⟩ :=
    Scanner.compactFrom_spec (compact_eq_some.mp h).2 (.inl rfl) fun hne => absurd rfl hne
  exact ⟨⟨htight, hcomplete⟩, hnesting⟩

theorem compact_of_valid (h : valid bs = true) : ∃ out, compact bs = some out := by
  obtain ⟨hformed, hnesting⟩ := valid_iff.mp h
  unfold wellFormed at hformed
  cases hrun : start.run bs with
  | none =>
    rw [hrun] at hformed
    cases hformed
  | some s =>
    rw [hrun] at hformed
    obtain ⟨out, hout⟩ := Scanner.compactFrom_of_run hrun hformed 0
    exact ⟨out, compact_eq_some.mpr ⟨hnesting, hout⟩⟩

theorem IsCompact.scanValue (h : IsCompact bs) {c : UInt8} (hc : isDelimiter c = true)
    (after : List UInt8) : start.scanValue (bs ++ c :: after) = some (bs, c :: after) := by
  obtain ⟨s, hrun, hcomplete⟩ := h.complete
  exact Scanner.scanValue_append h.tight hrun hcomplete hc after

theorem IsCompact.head (h : IsCompact bs) :
    ∃ c rest, bs = c :: rest ∧ isSpace c = false ∧ c < 0x80 := by
  obtain ⟨s, hrun, hcomplete⟩ := h.complete
  cases bs with
  | nil =>
    cases hrun
    cases hcomplete
  | cons c rest =>
    obtain ⟨s₁, hstep, -⟩ := Option.bind_eq_some_iff.mp hrun
    refine ⟨c, rest, rfl, ?_, (Scanner.step_structural hstep (by decide)).1⟩
    cases hspace : isSpace c with
    | false => rfl
    | true => exact absurd (h.tight.1 hspace) (by decide)

/-- The byte that completes a value. -/
theorem Scanner.last_of_complete {s s' : Scanner} {c : UInt8} (hstep : s.step c = some s')
    (hcomplete : s'.complete = true) (hc : isSpace c = true → s.isInString = true) :
    isSpace c = false ∧ c < 0x80 := by
  have hs' := isInString_of_complete hcomplete
  by_cases hs : s.state = .inString
  -- only the quotation mark leaves a string
  · have hquote : c = 0x22 := by
      by_contra hne
      unfold step at hstep
      rw [hs] at hstep
      dsimp only at hstep
      rw [if_neg hne] at hstep
      split at hstep
      · cases hstep
        cases hs'
      · split at hstep
        · cases hstep
        · cases hstep
          rw [isInString, hs] at hs'
          cases hs'
    subst hquote
    exact ⟨rfl, by decide⟩
  · refine ⟨?_, (step_structural hstep hs).1⟩
    cases hspace : isSpace c with
    | false => rfl
    | true =>
      -- no escape contains white space
      have hin := hc hspace
      obtain ⟨state, stack⟩ := s
      rcases isSpace_iff.mp hspace with rfl | rfl | rfl | rfl
      all_goals
        cases state with
        | inString => exact absurd rfl hs
        | inStringEsc | inStringEscU | inStringEscU1 | inStringEscU12 | inStringEscU123 =>
          cases hstep
        | _ => cases hin

theorem Scanner.getLast_of_complete {s s' : Scanner} (htight : s.Tight bs)
    (hrun : s.run bs = some s') (hcomplete : s'.complete = true) {c : UInt8}
    (hlast : bs.getLast? = some c) : isSpace c = false ∧ c < 0x80 := by
  induction bs generalizing s with
  | nil => cases hlast
  | cons d bs ih =>
    obtain ⟨s₁, hstep, hrun⟩ := Option.bind_eq_some_iff.mp hrun
    cases bs with
    | nil =>
      cases hrun
      cases hlast
      exact last_of_complete hstep hcomplete htight.1
    | cons e bs => exact ih (htight.2 s₁ hstep) hrun hlast

/-- A compact text is not trimmed. -/
theorem IsCompact.bytesTrimSpace_eq (h : IsCompact bs) : bytesTrimSpace bs = bs := by
  -- `bytes.TrimSpace` takes more for space than JSON does: the control characters
  have hspace : ∀ {c : UInt8}, isSpace c = false → c < 0x80 → 0x20 ≤ c →
      GoStrings.isSpace (Char.ofNat c.toNat) = false := by
    intro c hc hlt hge
    have hlt : c.toNat < 128 := UInt8.lt_iff_toNat_lt.mp hlt
    have hge : 32 ≤ c.toNat := UInt8.le_iff_toNat_le.mp hge
    have hne : c.toNat ≠ 32 := by
      intro heq
      have : c = 0x20 := UInt8.toNat_inj.mp heq
      rw [this] at hc
      cases hc
    have hval : (Char.ofNat c.toNat).toNat = c.toNat := by
      rw [Char.ofNat, dif_pos (Or.inl (by omega))]
      rfl
    unfold GoStrings.isSpace
    simp only [hval]
    simp
    omega
  -- a JSON text has no other control characters
  have hlegal : ∀ c ∈ bs, isSpace c = false → 0x20 ≤ c := by
    obtain ⟨s, hrun, -⟩ := h.complete
    intro c hc hspace
    rcases Scanner.run_legal hrun c hc with hge | hspace'
    · exact hge
    · rw [hspace] at hspace'
      cases hspace'
  obtain ⟨first, rest, rfl, hfirst, hfirstLt⟩ := h.head
  obtain ⟨last, hlast⟩ : ∃ last, (first :: rest).getLast? = some last :=
    ⟨_, List.getLast?_eq_getLast_of_ne_nil (List.cons_ne_nil _ _)⟩
  obtain ⟨s, hrun, hcomplete⟩ := h.complete
  obtain ⟨hlastSpace, hlastLt⟩ := Scanner.getLast_of_complete h.tight hrun hcomplete hlast
  exact bytesTrimSpace_of_ascii rfl (UInt8.lt_iff_toNat_lt.mp hfirstLt)
    (hspace hfirst hfirstLt (hlegal first List.mem_cons_self hfirst)) hlast
    (UInt8.lt_iff_toNat_lt.mp hlastLt)
    (hspace hlastSpace hlastLt (hlegal last (List.mem_of_getLast? hlast) hlastSpace))

/-! ## Objects -/

/-- A text of an object, of any depth. -/
def isObject (bs : List UInt8) : Bool := wellFormed bs && (bs.dropWhile isSpace).head? == some 0x7B

/-- A compacted object starts with its brace. -/
theorem compact_of_isObject (h : isObject bs = true) (hnesting : nesting bs ≤ maxNestingDepth) :
    ∃ rest, compact bs = some (0x7B :: rest) := by
  unfold isObject at h
  rw [Bool.and_eq_true, beq_iff_eq] at h
  obtain ⟨hformed, hhead⟩ := h
  obtain ⟨out, hout⟩ := compact_of_valid (valid_iff.mpr ⟨hformed, hnesting⟩)
  rw [compact, if_pos hnesting] at hout ⊢
  clear hformed hnesting
  induction bs with
  | nil => cases hhead
  | cons c bs ih =>
    cases hspace : isSpace c with
    | true =>
      -- the machine waits on, and nothing is written
      have hstep : start.step c = some start := Scanner.step_space rfl hspace
      have hbyte : compactByte start.isInString c bs = ([], 0) := by
        unfold compactByte startsLineSeparator
        rcases Scanner.isSpace_iff.mp hspace with rfl | rfl | rfl | rfl <;>
          simp [isSpace, start, Scanner.isInString]
      have hcons : compactFrom start 0 (c :: bs) = compactFrom start 0 bs := by
        rw [compactFrom, hstep, Option.bind_some]
        dsimp only
        rw [hbyte]
        cases compactFrom start 0 bs <;> rfl
      rw [List.dropWhile_cons_of_pos hspace] at hhead
      rw [hcons] at hout ⊢
      exact ih hhead hout
    | false =>
      rw [List.dropWhile_cons_of_neg (by simp [hspace])] at hhead
      cases hhead
      obtain ⟨s, hstep, hrest⟩ := Option.bind_eq_some_iff.mp (by rwa [compactFrom] at hout)
      obtain ⟨out', hout', -⟩ := Option.map_eq_some_iff.mp hrest
      exact ⟨out', by rw [compactFrom, hstep, Option.bind_some]; dsimp only; rw [hout']; rfl⟩

end ServiceRuntime.Json
