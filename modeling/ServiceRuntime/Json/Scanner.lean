import Mathlib

/-!
# The JSON Grammar as a Byte Machine

JSON texts are recognised one byte at a time. The machine has a state for each position inside of
a value, and a stack of the objects and arrays that are open. The machine itself is the grammar, and
goes on however much is open; `encoding/json` refuses a text that opens more than
`maxNestingDepth` (`valid`).

Three things are known about it:
- it accepts no control character other than white space (`step_legal`);
- white space outside of strings can be left out (`Spaced`);
- a value ends where the machine says so, whatever follows (`scanValue_append`).
-/

namespace ServiceRuntime.Json

/-! ## The machine -/

/-- What an open object or array waits for. -/
inductive ParseState where
  | objectKey
  | objectValue
  | arrayValue
  deriving DecidableEq

inductive State where
  | beginValue
  | beginValueOrEmpty
  | beginString
  | beginStringOrEmpty
  | endValue
  | endTop
  | inString
  | inStringEsc
  | inStringEscU
  | inStringEscU1
  | inStringEscU12
  | inStringEscU123
  | neg
  | zero
  | one
  | dot
  | dot0
  | e
  | eSign
  | e0
  | t
  | tr
  | tru
  | f
  | fa
  | fal
  | fals
  | n
  | nu
  | nul
  deriving DecidableEq

structure Scanner where
  state : State
  stack : List ParseState
  deriving DecidableEq

def start : Scanner := ⟨.beginValue, []⟩

def isSpace (c : UInt8) : Bool := c == 0x20 || c == 0x09 || c == 0x0A || c == 0x0D

def isDigit (c : UInt8) : Bool := 0x30 ≤ c && c ≤ 0x39

def isDelimiter (c : UInt8) : Bool := c == 0x2C || c == 0x7D || c == 0x5D || c == 0x3A

def isHex (c : UInt8) : Bool :=
  isDigit c || (0x61 ≤ c && c ≤ 0x66) || (0x41 ≤ c && c ≤ 0x46)

namespace Scanner

def pop : List ParseState → Option Scanner
  | [] => none
  | [_] => some ⟨.endTop, []⟩
  | _ :: outer => some ⟨.endValue, outer⟩

def stepEndValue (stack : List ParseState) (c : UInt8) : Option Scanner :=
  match stack with
  | [] => if isSpace c then some ⟨.endTop, []⟩ else none
  | top :: outer =>
    if isSpace c then some ⟨.endValue, top :: outer⟩
    else
      match top with
      | .objectKey => if c = 0x3A then some ⟨.beginValue, .objectValue :: outer⟩ else none
      | .objectValue =>
        if c = 0x2C then some ⟨.beginString, .objectKey :: outer⟩
        else if c = 0x7D then pop stack
        else none
      | .arrayValue =>
        if c = 0x2C then some ⟨.beginValue, .arrayValue :: outer⟩
        else if c = 0x5D then pop stack
        else none

/-- The state that a value starts with, and what it opens. -/
def valueStart (c : UInt8) : Option (State × List ParseState) :=
  if c = 0x7B then some (.beginStringOrEmpty, [.objectKey])
  else if c = 0x5B then some (.beginValueOrEmpty, [.arrayValue])
  else if c = 0x22 then some (.inString, [])
  else if c = 0x2D then some (.neg, [])
  else if c = 0x30 then some (.zero, [])
  else if c = 0x74 then some (.t, [])
  else if c = 0x66 then some (.f, [])
  else if c = 0x6E then some (.n, [])
  else if isDigit c then some (.one, [])
  else none

def stepBeginValue (self : State) (stack : List ParseState) (c : UInt8) : Option Scanner :=
  if isSpace c then some ⟨self, stack⟩
  else (valueStart c).map fun (state, opened) => ⟨state, opened ++ stack⟩

def expect (letter : UInt8) (next : State) (stack : List ParseState) (c : UInt8) :
    Option Scanner :=
  if c = letter then some ⟨next, stack⟩ else none

def stepHex (next : State) (stack : List ParseState) (c : UInt8) : Option Scanner :=
  if isHex c then some ⟨next, stack⟩ else none

def step (s : Scanner) (c : UInt8) : Option Scanner :=
  match s.state with
  | .beginValue => stepBeginValue .beginValue s.stack c
  | .beginValueOrEmpty =>
    if c = 0x5D then stepEndValue s.stack c else stepBeginValue .beginValueOrEmpty s.stack c
  | .beginString =>
    if isSpace c then some s else if c = 0x22 then some ⟨.inString, s.stack⟩ else none
  | .beginStringOrEmpty =>
    if isSpace c then some s
    else if c = 0x7D then
      match s.stack with
      | [] => none
      | _ :: outer => stepEndValue (.objectValue :: outer) c
    else if c = 0x22 then some ⟨.inString, s.stack⟩
    else none
  | .endValue => stepEndValue s.stack c
  | .endTop => if isSpace c then some s else none
  | .inString =>
    if c = 0x22 then some ⟨.endValue, s.stack⟩
    else if c = 0x5C then some ⟨.inStringEsc, s.stack⟩
    else if c < 0x20 then none
    else some s
  | .inStringEsc =>
    if c = 0x62 ∨ c = 0x66 ∨ c = 0x6E ∨ c = 0x72 ∨ c = 0x74 ∨ c = 0x5C ∨ c = 0x2F ∨ c = 0x22 then
      some ⟨.inString, s.stack⟩
    else if c = 0x75 then some ⟨.inStringEscU, s.stack⟩
    else none
  | .inStringEscU => stepHex .inStringEscU1 s.stack c
  | .inStringEscU1 => stepHex .inStringEscU12 s.stack c
  | .inStringEscU12 => stepHex .inStringEscU123 s.stack c
  | .inStringEscU123 => stepHex .inString s.stack c
  | .neg =>
    if c = 0x30 then some ⟨.zero, s.stack⟩
    else if isDigit c then some ⟨.one, s.stack⟩
    else none
  | .one =>
    if isDigit c then some s
    else if c = 0x2E then some ⟨.dot, s.stack⟩
    else if c = 0x65 ∨ c = 0x45 then some ⟨.e, s.stack⟩
    else stepEndValue s.stack c
  | .zero =>
    if c = 0x2E then some ⟨.dot, s.stack⟩
    else if c = 0x65 ∨ c = 0x45 then some ⟨.e, s.stack⟩
    else stepEndValue s.stack c
  | .dot => if isDigit c then some ⟨.dot0, s.stack⟩ else none
  | .dot0 =>
    if isDigit c then some s
    else if c = 0x65 ∨ c = 0x45 then some ⟨.e, s.stack⟩
    else stepEndValue s.stack c
  | .e =>
    if c = 0x2B ∨ c = 0x2D then some ⟨.eSign, s.stack⟩
    else if isDigit c then some ⟨.e0, s.stack⟩
    else none
  | .eSign => if isDigit c then some ⟨.e0, s.stack⟩ else none
  | .e0 => if isDigit c then some s else stepEndValue s.stack c
  | .t => expect 0x72 .tr s.stack c
  | .tr => expect 0x75 .tru s.stack c
  | .tru => expect 0x65 .endValue s.stack c
  | .f => expect 0x61 .fa s.stack c
  | .fa => expect 0x6C .fal s.stack c
  | .fal => expect 0x73 .fals s.stack c
  | .fals => expect 0x65 .endValue s.stack c
  | .n => expect 0x75 .nu s.stack c
  | .nu => expect 0x6C .nul s.stack c
  | .nul => expect 0x6C .endValue s.stack c

def run : Scanner → List UInt8 → Option Scanner
  | s, [] => some s
  | s, c :: bs => (s.step c).bind fun s' => s'.run bs

/-- The text so far is a value: a space would end it, and nothing is open. -/
def complete (s : Scanner) : Bool := s.step 0x20 == some ⟨.endTop, []⟩

/-- Inside of a string, where white space belongs to the text. -/
def isInString (s : Scanner) : Bool :=
  match s.state with
  | .inString | .inStringEsc | .inStringEscU | .inStringEscU1 | .inStringEscU12
  | .inStringEscU123 => true
  | _ => false

theorem run_append (s : Scanner) (xs ys : List UInt8) :
    s.run (xs ++ ys) = (s.run xs).bind fun s' => s'.run ys := by
  induction xs generalizing s with
  | nil => rfl
  | cons c xs ih =>
    simp only [List.cons_append, run]
    cases s.step c with
    | none => rfl
    | some s' => exact ih s'

/-- The most objects and arrays that are open at once while the machine reads a text. -/
def nesting : Scanner → List UInt8 → ℕ
  | s, [] => s.stack.length
  | s, c :: bs => max s.stack.length ((s.step c).elim 0 fun s' => s'.nesting bs)

theorem le_nesting (s : Scanner) (bs : List UInt8) : s.stack.length ≤ s.nesting bs := by
  cases bs with
  | nil => exact le_rfl
  | cons c bs => exact le_max_left _ _

theorem nesting_cons {s s' : Scanner} {c : UInt8} (h : s.step c = some s') (bs : List UInt8) :
    s.nesting (c :: bs) = max s.stack.length (s'.nesting bs) := by
  rw [nesting, h]
  rfl

theorem nesting_append {s s' : Scanner} {xs : List UInt8} (h : s.run xs = some s')
    (ys : List UInt8) : s.nesting (xs ++ ys) = max (s.nesting xs) (s'.nesting ys) := by
  induction xs generalizing s with
  | nil =>
    cases h
    exact (max_eq_right (le_nesting _ ys)).symm
  | cons c xs ih =>
    obtain ⟨s₁, hstep, hrun⟩ := Option.bind_eq_some_iff.mp h
    rw [List.cons_append, nesting_cons hstep, nesting_cons hstep, ih hrun, max_assoc]

end Scanner

def wellFormed (bs : List UInt8) : Bool := (start.run bs).any Scanner.complete

def nesting (bs : List UInt8) : ℕ := start.nesting bs

/-- How deep `encoding/json` reads. -/
def maxNestingDepth : ℕ := 10000

/-- A JSON text for `encoding/json`. -/
def valid (bs : List UInt8) : Bool := wellFormed bs && decide (nesting bs ≤ maxNestingDepth)

theorem valid_iff {bs : List UInt8} :
    valid bs = true ↔ wellFormed bs = true ∧ nesting bs ≤ maxNestingDepth := by
  rw [valid, Bool.and_eq_true, decide_eq_true_iff]

/-! ## Control characters -/

def Legal (c : UInt8) : Prop := 0x20 ≤ c ∨ isSpace c = true

namespace Scanner

variable {stack : List ParseState} {c : UInt8} {s t s' : Scanner} {bs value : List UInt8}

theorem stepEndValue_legal (h : stepEndValue stack c = some s) : Legal c := by
  unfold stepEndValue at h
  grind [Legal]

theorem valueStart_eq_some {state : State} {opened : List ParseState}
    (h : valueStart c = some (state, opened)) :
    state ≠ .endTop ∧ (isDigit c = true ∨ c = 0x7B ∨ c = 0x5B ∨ c = 0x22 ∨ c = 0x2D ∨ c = 0x74 ∨
      c = 0x66 ∨ c = 0x6E) := by
  -- one case for each byte that a value starts with, in the order of `stateBeginValue`
  unfold valueStart at h
  split at h
  · rename_i hc
    cases h
    exact ⟨by decide, .inr (.inl hc)⟩
  split at h
  · rename_i hc
    cases h
    exact ⟨by decide, .inr (.inr (.inl hc))⟩
  split at h
  · rename_i hc
    cases h
    exact ⟨by decide, .inr (.inr (.inr (.inl hc)))⟩
  split at h
  · rename_i hc
    cases h
    exact ⟨by decide, .inr (.inr (.inr (.inr (.inl hc))))⟩
  split at h
  · rename_i hc
    cases h
    exact ⟨by decide, .inl (by rw [hc]; rfl)⟩
  split at h
  · rename_i hc
    cases h
    exact ⟨by decide, .inr (.inr (.inr (.inr (.inr (.inl hc)))))⟩
  split at h
  · rename_i hc
    cases h
    exact ⟨by decide, .inr (.inr (.inr (.inr (.inr (.inr (.inl hc))))))⟩
  split at h
  · rename_i hc
    cases h
    exact ⟨by decide, .inr (.inr (.inr (.inr (.inr (.inr (.inr hc))))))⟩
  split at h
  · rename_i hc
    cases h
    exact ⟨by decide, .inl hc⟩
  cases h

theorem legal_of_isDigit (h : isDigit c = true) : Legal c := by
  unfold isDigit at h
  grind [Legal]

theorem stepBeginValue_legal {self : State} (h : stepBeginValue self stack c = some s) :
    Legal c := by
  unfold stepBeginValue at h
  split at h
  · exact .inr ‹_›
  · obtain ⟨⟨state, opened⟩, hstart, -⟩ := Option.map_eq_some_iff.mp h
    rcases (valueStart_eq_some hstart).2 with hdigit | rfl | rfl | rfl | rfl | rfl | rfl | rfl
    · exact legal_of_isDigit hdigit
    all_goals exact .inl (by decide)

/-- **No control characters**: every byte that the machine takes is printable or white space. -/
theorem step_legal (h : s.step c = some s') : Legal c := by
  unfold step at h
  grind [Legal, isDigit, isHex, stepHex, expect, stepEndValue_legal, stepBeginValue_legal]

theorem run_legal (h : s.run bs = some s') : ∀ c ∈ bs, Legal c := by
  induction bs generalizing s with
  | nil => simp
  | cons c bs ih =>
    obtain ⟨s₁, hstep, hrun⟩ := Option.bind_eq_some_iff.mp h
    intro d hd
    rcases List.mem_cons.mp hd with rfl | hd
    · exact step_legal hstep
    · exact ih hrun d hd

theorem legal_of_wellFormed (h : wellFormed bs = true) : ∀ c ∈ bs, Legal c := by
  unfold wellFormed at h
  cases hrun : start.run bs with
  | none =>
    rw [hrun] at h
    cases h
  | some s => exact run_legal hrun

/-! ## White space outside of strings -/

/-- The machine after white space: it waits on, or a value ends. -/
def afterSpace (s : Scanner) : Option Scanner :=
  match s.state with
  | .beginValue | .beginValueOrEmpty | .beginString | .beginStringOrEmpty | .endTop => some s
  | .endValue | .zero | .one | .dot0 | .e0 =>
    some ⟨if s.stack = [] then .endTop else .endValue, s.stack⟩
  | _ => none

theorem stepEndValue_space (stack : List ParseState) (hc : isSpace c = true) :
    stepEndValue stack c = some ⟨if stack = [] then .endTop else .endValue, stack⟩ := by
  cases stack with
  | nil | cons top outer => simp [stepEndValue, hc]

theorem isSpace_iff : isSpace c = true ↔ c = 0x20 ∨ c = 0x09 ∨ c = 0x0A ∨ c = 0x0D := by
  simp [isSpace, or_assoc]

theorem step_space (hs : s.isInString = false) (hc : isSpace c = true) :
    s.step c = s.afterSpace := by
  have hend := stepEndValue_space s.stack hc
  obtain ⟨state, stack⟩ := s
  rcases isSpace_iff.mp hc with rfl | rfl | rfl | rfl
  all_goals
    cases state with
    | endValue | zero | one | dot0 | e0 => exact hend
    | _ => first | rfl | cases hs

theorem afterSpace_afterSpace (h : s.afterSpace = some s') :
    s'.isInString = false ∧ s'.afterSpace = some s' := by
  obtain ⟨state, stack⟩ := s
  cases state <;> cases h <;> cases stack <;> exact ⟨rfl, rfl⟩

theorem isDelimiter_of_stepEndValue (hc : isSpace c = false) (h : stepEndValue stack c = some s) :
    isDelimiter c = true := by
  unfold stepEndValue at h
  grind [isDelimiter]

/-- What may follow white space may stand in its place. -/
theorem step_of_afterSpace {s'' : Scanner} (h : s.afterSpace = some s') (hc : isSpace c = false)
    (hstep : s'.step c = some s'') : s.step c = some s'' := by
  have hended : ∀ {stack : List ParseState},
      (Scanner.mk (if stack = [] then .endTop else .endValue) stack).step c = some s'' →
      stepEndValue stack c = some s'' := by
    intro stack hstep
    cases stack with
    | nil => simp [step, hc] at hstep
    | cons top outer => exact hstep
  obtain ⟨state, stack⟩ := s
  cases state with
  | beginValue | beginValueOrEmpty | beginString | beginStringOrEmpty | endTop =>
    cases h
    exact hstep
  | endValue | zero | one | dot0 | e0 =>
    -- a separator ends a number as white space does
    cases h
    have hend := hended hstep
    have hdelimiter := isDelimiter_of_stepEndValue hc hend
    unfold isDelimiter at hdelimiter
    unfold step
    grind [isDigit]
  | _ => cases h

/-- The machine `s` has seen white space where `t` has not. -/
def Spaced (t s : Scanner) : Prop := s = t ∨ (t.isInString = false ∧ t.afterSpace = some s)

theorem Spaced.stack_eq (h : Spaced t s) : s.stack = t.stack := by
  rcases h with rfl | ⟨-, hspaced⟩
  · rfl
  · obtain ⟨state, stack⟩ := t
    cases state <;> cases hspaced <;> rfl

theorem Spaced.isInString_eq (h : Spaced t s) : s.isInString = t.isInString := by
  rcases h with rfl | ⟨ht, hstep⟩
  · rfl
  · rw [ht]
    exact (afterSpace_afterSpace hstep).1

theorem Spaced.step_space (h : Spaced t s) (ht : t.isInString = false) (hc : isSpace c = true)
    (hstep : s.step c = some s') : Spaced t s' := by
  rcases h with rfl | ⟨_, hspaced⟩
  · rw [Scanner.step_space ht hc] at hstep
    exact .inr ⟨ht, hstep⟩
  · obtain ⟨hs, hstay⟩ := afterSpace_afterSpace hspaced
    rw [Scanner.step_space hs hc, hstay] at hstep
    cases hstep
    exact .inr ⟨ht, hspaced⟩

theorem Spaced.step (h : Spaced t s) (hc : isSpace c = true → t.isInString = true)
    (hstep : s.step c = some s') : t.step c = some s' := by
  rcases h with rfl | ⟨ht, hspaced⟩
  · exact hstep
  · have hc' : isSpace c = false := by
      cases hspace : isSpace c with
      | false => rfl
      | true =>
        rw [hc hspace] at ht
        cases ht
    exact step_of_afterSpace hspaced hc' hstep

theorem Spaced.complete (h : Spaced t s) (hs : s.complete = true) : t.complete = true := by
  rcases h with rfl | ⟨ht, hspaced⟩
  · exact hs
  · obtain ⟨hs', hstay⟩ := afterSpace_afterSpace hspaced
    unfold Scanner.complete at hs ⊢
    rw [Scanner.step_space ht rfl, hspaced]
    rwa [Scanner.step_space hs' rfl, hstay] at hs

/-! ## Where a value ends -/

/-- The value at the front of a text, and what follows it. The machine starts at `s`, inside of
    the value. A number goes on as long as it can. -/
def scanValue : Scanner → List UInt8 → Option (List UInt8 × List UInt8)
  | s, [] => if s.complete then some ([], []) else none
  | s, c :: bs =>
    if s.complete && (isSpace c || (s.step c).isNone) then some ([], c :: bs)
    else (s.step c).bind fun s' => (scanValue s' bs).map fun (value, rest) => (c :: value, rest)

def Tight : Scanner → List UInt8 → Prop
  | _, [] => True
  | s, c :: bs =>
    (isSpace c = true → s.isInString = true) ∧ ∀ s', s.step c = some s' → Tight s' bs

theorem Tight.append {xs ys : List UInt8} (hxs : s.Tight xs) (hrun : s.run xs = some s')
    (hys : s'.Tight ys) : s.Tight (xs ++ ys) := by
  induction xs generalizing s with
  | nil =>
    cases hrun
    exact hys
  | cons c xs ih =>
    obtain ⟨s₁, hstep, hrun⟩ := Option.bind_eq_some_iff.mp hrun
    refine ⟨hxs.1, fun s₂ hstep' => ?_⟩
    rw [hstep] at hstep'
    cases hstep'
    exact ih (hxs.2 s₁ hstep) hrun

theorem isInString_of_complete (h : s.complete = true) : s.isInString = false := by
  obtain ⟨state, stack⟩ := s
  unfold complete at h
  cases state with
  | inString | inStringEsc | inStringEscU | inStringEscU1 | inStringEscU12 | inStringEscU123 =>
    simp [step, stepHex, isHex, isDigit] at h
  | _ => rfl

theorem state_of_complete (h : s.complete = true) :
    s.stack = [] ∧ (s.state = .endTop ∨ s.state = .endValue ∨ s.state = .zero ∨ s.state = .one ∨
      s.state = .dot0 ∨ s.state = .e0) := by
  have hs := isInString_of_complete h
  unfold complete at h
  rw [beq_iff_eq, step_space hs rfl] at h
  obtain ⟨state, stack⟩ := s
  cases state with
  | endTop | endValue | zero | one | dot0 | e0 =>
    simp only [afterSpace, Option.some.injEq, Scanner.mk.injEq] at h
    exact ⟨h.2, by simp⟩
  | _ => simp [afterSpace] at h

theorem eq_of_isDelimiter (h : isDelimiter c = true) :
    c = 0x2C ∨ c = 0x7D ∨ c = 0x5D ∨ c = 0x3A := by
  simpa [isDelimiter, or_assoc] using h

theorem isSpace_of_isDelimiter (h : isDelimiter c = true) : isSpace c = false := by
  rcases eq_of_isDelimiter h with rfl | rfl | rfl | rfl <;> rfl

theorem step_of_complete (h : s.complete = true) (hc : isDelimiter c = true) : s.step c = none := by
  obtain ⟨state, stack⟩ := s
  obtain ⟨hstack, hstate⟩ := state_of_complete h
  dsimp only at hstack hstate
  subst hstack
  rcases eq_of_isDelimiter hc with rfl | rfl | rfl | rfl
  all_goals rcases hstate with rfl | rfl | rfl | rfl | rfl | rfl <;> rfl

/-- **A value ends where it is complete**, if the text ends or a separator follows. -/
theorem scanValue_of_run (htight : s.Tight value) (hrun : s.run value = some s')
    (hcomplete : s'.complete = true) {after : List UInt8}
    (hafter : ∀ c ∈ after.head?, isDelimiter c = true) :
    s.scanValue (value ++ after) = some (value, after) := by
  induction value generalizing s with
  | nil =>
    cases hrun
    cases after with
    | nil => rw [List.nil_append, scanValue, if_pos hcomplete]
    | cons c after =>
      rw [List.nil_append, scanValue, hcomplete, step_of_complete hcomplete (hafter c rfl)]
      simp
  | cons d value ih =>
    obtain ⟨s₁, hstep, hrun⟩ := Option.bind_eq_some_iff.mp hrun
    -- white space would end a complete value, but stands in strings only
    have hgoes : (s.complete && (isSpace d || (s.step d).isNone)) = false := by
      rw [hstep, Option.isNone_some, Bool.or_false]
      cases hspace : isSpace d with
      | false => rw [Bool.and_false]
      | true =>
        rw [Bool.and_true, ← Bool.not_eq_true]
        intro hended
        have hin := htight.1 hspace
        rw [isInString_of_complete hended] at hin
        cases hin
    rw [List.cons_append, scanValue, hgoes, hstep]
    simp only [Bool.false_eq_true, if_false, Option.bind_some]
    rw [ih (htight.2 s₁ hstep) hrun]
    rfl

theorem scanValue_append (htight : s.Tight value) (hrun : s.run value = some s')
    (hcomplete : s'.complete = true) (hc : isDelimiter c = true) (after : List UInt8) :
    s.scanValue (value ++ c :: after) = some (value, c :: after) := by
  apply scanValue_of_run htight hrun hcomplete
  intro d hd
  cases hd
  exact hc

theorem tight_of_not_space (h : ∀ c ∈ bs, isSpace c = false) : s.Tight bs := by
  induction bs generalizing s with
  | nil => trivial
  | cons c bs ih =>
    refine ⟨fun hspace => ?_, fun s' _ => ih fun d hd => h d (List.mem_cons_of_mem c hd)⟩
    rw [h c List.mem_cons_self] at hspace
    cases hspace

theorem eq_append_of_scanValue {rest : List UInt8} (h : s.scanValue bs = some (value, rest)) :
    bs = value ++ rest := by
  induction bs generalizing s value with
  | nil =>
    unfold scanValue at h
    split at h <;> cases h
    rfl
  | cons c bs ih =>
    unfold scanValue at h
    split at h
    · cases h
      rfl
    · obtain ⟨s', -, h⟩ := Option.bind_eq_some_iff.mp h
      obtain ⟨⟨value', rest'⟩, hvalue, heq⟩ := Option.map_eq_some_iff.mp h
      cases heq
      rw [ih hvalue]
      rfl

end Scanner

end ServiceRuntime.Json
