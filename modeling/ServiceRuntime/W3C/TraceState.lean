import ServiceRuntime.GoStrings

/-!
# Trace States

The `tracestate` of the W3C trace context, as the OpenTelemetry library keeps, writes and reads
it: a list of at most 32 members `key=value` with different keys. Keys and values are checked
when a member is made, so a `Member` carries the checks as fields, and a `TraceState` carries the
two facts about the list.

All characters of a checked key or value are ASCII, so that lengths in bytes, which the checks
bound, are lengths in characters.

**Main result** (`TraceState.parse_text`): what is written is read back.
-/

namespace ServiceRuntime.W3C

open GoStrings

/-! ## Keys and values -/

/-- `isAlphaNumASCII`: a lower-case letter or a digit. -/
def isAlphaNumASCII (c : Char) : Bool :=
  ('a' ≤ c && c ≤ 'z') || ('0' ≤ c && c ≤ '9')

def checkKeyRemain (key : List Char) : Bool :=
  key.all fun c => isAlphaNumASCII c || c == '_' || c == '-' || c == '*' || c == '/'

/-- `checkKeyPart`: a letter and at most `n` characters. -/
def checkKeyPart (key : List Char) (n : Nat) : Bool :=
  match key with
  | [] => false
  | first :: rest =>
    decide (rest.length ≤ n) && ('a' ≤ first && first ≤ 'z') && checkKeyRemain rest

/-- `checkKeyTenant`: a letter or digit and at most `n` characters. -/
def checkKeyTenant (key : List Char) (n : Nat) : Bool :=
  match key with
  | [] => false
  | first :: rest => isAlphaNumASCII first && decide (rest.length ≤ n) && checkKeyRemain rest

/-- `checkKey`: a simple key, or a tenant and a system with `@` between them. -/
def checkKey (key : List Char) : Bool :=
  match cut '@' key with
  | (_, none) => checkKeyPart key 255
  | (tenant, some system) => checkKeyTenant tenant 240 && checkKeyPart system 13

/-- `checkValueChar`: printable ASCII without the two delimiters. -/
def checkValueChar (c : Char) : Bool :=
  ' ' ≤ c && c ≤ '~' && c != ',' && c != '='

/-- `checkValueLast`: the last character is no space either. -/
def checkValueLast (c : Char) : Bool :=
  '!' ≤ c && c ≤ '~' && c != ',' && c != '='

def checkValue (val : List Char) : Bool :=
  decide (val.length ≤ 256) && val.dropLast.all checkValueChar && val.getLast?.any checkValueLast

def KeyChar (c : Char) : Prop :=
  isAlphaNumASCII c = true ∨ c ∈ ['_', '-', '*', '/', '@']

instance (c : Char) : Decidable (KeyChar c) := inferInstanceAs (Decidable (_ ∨ _))

variable {key : List Char}

theorem keyChar_of_checkKeyRemain (h : checkKeyRemain key = true) : ∀ c ∈ key, KeyChar c := by
  intro c hc
  have hcheck := List.all_eq_true.mp h c hc
  simp only [Bool.or_eq_true, beq_iff_eq] at hcheck
  simp only [KeyChar, List.mem_cons, List.not_mem_nil, or_false]
  tauto

theorem keyChar_of_checkKeyPart {n : Nat} (h : checkKeyPart key n = true) :
    key ≠ [] ∧ ∀ c ∈ key, KeyChar c := by
  cases key with
  | nil => cases h
  | cons first rest =>
    simp only [checkKeyPart, Bool.and_eq_true] at h
    obtain ⟨⟨-, hfirst⟩, hrest⟩ := h
    refine ⟨List.cons_ne_nil _ _, List.forall_mem_cons.mpr ⟨.inl ?_, ?_⟩⟩
    · simp [isAlphaNumASCII, hfirst]
    · exact keyChar_of_checkKeyRemain hrest

theorem keyChar_of_checkKeyTenant {n : Nat} (h : checkKeyTenant key n = true) :
    ∀ c ∈ key, KeyChar c := by
  cases key with
  | nil => cases h
  | cons first rest =>
    simp only [checkKeyTenant, Bool.and_eq_true] at h
    obtain ⟨⟨hfirst, -⟩, hrest⟩ := h
    exact List.forall_mem_cons.mpr ⟨.inl hfirst, keyChar_of_checkKeyRemain hrest⟩

theorem keyChar_of_checkKey (h : checkKey key = true) : key ≠ [] ∧ ∀ c ∈ key, KeyChar c := by
  unfold checkKey at h
  split at h
  · exact keyChar_of_checkKeyPart h
  · rename_i tenant system hcut
    rw [Bool.and_eq_true] at h
    have hkey : key = tenant ++ '@' :: system := eq_of_cut_some hcut
    subst hkey
    refine ⟨by simp, fun c hc => ?_⟩
    rw [List.mem_append, List.mem_cons] at hc
    rcases hc with hc | rfl | hc
    · exact keyChar_of_checkKeyTenant h.1 c hc
    · decide
    · exact (keyChar_of_checkKeyPart h.2).2 c hc

theorem of_checkValue {val : List Char} (h : checkValue val = true) :
    (∃ last, val.getLast? = some last ∧ checkValueLast last = true) ∧
      ∀ c ∈ val, checkValueChar c = true := by
  simp only [checkValue, Bool.and_eq_true] at h
  obtain ⟨⟨-, hinit⟩, hany⟩ := h
  obtain ⟨last, hval, hlast⟩ := (Option.any_eq_true _ _).mp hany
  refine ⟨⟨last, hval, hlast⟩, fun c hc => ?_⟩
  obtain ⟨init, rfl⟩ := List.getLast?_eq_some_iff.mp hval
  rw [List.dropLast_concat] at hinit
  rcases List.mem_append.mp hc with hc | hc
  · exact List.all_eq_true.mp hinit c hc
  -- what may come last may come anywhere
  · rw [List.mem_singleton.mp hc]
    simp only [checkValueLast, checkValueChar, Bool.and_eq_true, decide_eq_true_eq] at hlast ⊢
    exact ⟨⟨⟨le_trans (by decide) hlast.1.1.1, hlast.1.1.2⟩, hlast.1.2⟩, hlast.2⟩

/-! ## Members -/

/-- `member`, with the checks of `newMember`. -/
structure Member where
  key : List Char
  value : List Char
  key_ok : checkKey key = true
  value_ok : checkValue value = true
  deriving DecidableEq

def newMember (key value : List Char) : Option Member :=
  if h : checkKey key = true ∧ checkValue value = true then some ⟨key, value, h.1, h.2⟩ else none

def isBlank (c : Char) : Bool := c == ' ' || c == '\t'

/-- `parseMember`; the error has no other content than the text. -/
def parseMember (m : List Char) : Option Member :=
  match cut '=' m with
  | (_, none) => none
  | (key, some val) => newMember (key.dropWhile isBlank) (val.rdropWhile isBlank)

namespace Member

/-- `String`. -/
def text (m : Member) : List Char := m.key ++ '=' :: m.value

theorem keyChar (m : Member) : ∀ c ∈ m.key, KeyChar c := (keyChar_of_checkKey m.key_ok).2

theorem head?_text (m : Member) : ∃ c, m.text.head? = some c ∧ KeyChar c := by
  cases hkey : m.key with
  | nil => exact absurd hkey (keyChar_of_checkKey m.key_ok).1
  | cons c rest => exact ⟨c, by simp [text, hkey], m.keyChar c (hkey ▸ List.mem_cons_self)⟩

theorem getLast?_text (m : Member) :
    ∃ c, m.text.getLast? = some c ∧ checkValueLast c = true := by
  obtain ⟨last, hlast, hcheck⟩ := (of_checkValue m.value_ok).1
  refine ⟨last, ?_, hcheck⟩
  rw [text, List.getLast?_append_cons, List.getLast?_cons, hlast, Option.getD_some]

theorem text_ne_nil (m : Member) : m.text ≠ [] := by
  simp [text]

theorem comma_notMem_text (m : Member) : ',' ∉ m.text := by
  intro h
  rw [text, List.mem_append, List.mem_cons] at h
  rcases h with h | h | h
  · exact absurd (m.keyChar _ h) (by decide)
  · exact absurd h (by decide)
  · exact absurd ((of_checkValue m.value_ok).2 _ h) (by decide)

/-- **What is written is read back**: the key has no `=`, and neither end of the text is blank. -/
theorem parseMember_text (m : Member) : parseMember m.text = some m := by
  have hcut : cut '=' m.text = (m.key, some m.value) := by
    apply cut_append
    intro h
    exact absurd (m.keyChar _ h) (by decide)
  -- no character of a key is blank
  have hkey : m.key.dropWhile isBlank = m.key := by
    obtain ⟨first, rest, hkey⟩ := List.exists_cons_of_ne_nil (keyChar_of_checkKey m.key_ok).1
    have hfirst : isBlank first = false := by
      have hchar := m.keyChar first (hkey ▸ List.mem_cons_self)
      by_contra hblank
      simp only [Bool.not_eq_false, isBlank, Bool.or_eq_true, beq_iff_eq] at hblank
      rcases hblank with rfl | rfl
      · exact absurd hchar (by decide)
      · exact absurd hchar (by decide)
    rw [hkey, List.dropWhile_cons_of_neg (by simp [hfirst])]
  -- a value does not end in a blank
  have hvalue : m.value.rdropWhile isBlank = m.value := by
    obtain ⟨last, hlast, hcheck⟩ := (of_checkValue m.value_ok).1
    obtain ⟨init, hinit⟩ := List.getLast?_eq_some_iff.mp hlast
    have hblank : isBlank last = false := by
      by_contra hblank
      simp only [Bool.not_eq_false, isBlank, Bool.or_eq_true, beq_iff_eq] at hblank
      rcases hblank with rfl | rfl
      · exact absurd hcheck (by decide)
      · exact absurd hcheck (by decide)
    rw [hinit, List.rdropWhile_concat_neg _ _ _ (by simp [hblank])]
  unfold parseMember
  rw [hcut]
  dsimp only
  rw [hkey, hvalue, newMember, dif_pos ⟨m.key_ok, m.value_ok⟩]

end Member

/-! ## Lists of members -/

def maxListMembers : Nat := 32

structure TraceState where
  list : List Member
  unique : (list.map Member.key).Nodup
  size : list.length ≤ maxListMembers
  deriving DecidableEq

namespace TraceState

/-- The zero `TraceState`. -/
def empty : TraceState := ⟨[], List.nodup_nil, Nat.zero_le _⟩

/-- A member is appended, unless its key is taken or the list is full. -/
def push (ts : TraceState) (m : Member) : Option TraceState :=
  if h : m.key ∉ ts.list.map Member.key ∧ ts.list.length < maxListMembers then
    some
      { list := ts.list ++ [m]
        unique := by
          rw [List.map_append, List.map_singleton, List.nodup_append]
          refine ⟨ts.unique, List.nodup_singleton _, ?_⟩
          intro a ha b hb hab
          rw [List.mem_singleton] at hb
          exact h.1 (hb ▸ hab ▸ ha)
        size := by
          rw [List.length_append, List.length_singleton]
          exact h.2 }
  else none

/-- The loop of `ParseTraceState` over the texts between the commas. -/
def parseLoop (ts : TraceState) : List (List Char) → Option TraceState
  | [] => some ts
  | memberStr :: rest =>
    if memberStr = [] then parseLoop ts rest
    else do
      let m ← parseMember memberStr
      let ts ← ts.push m
      parseLoop ts rest

/-- `ParseTraceState`. -/
def parse (ts : List Char) : Option TraceState := parseLoop empty (ts.splitOn ',')

/-- `String`. -/
def text (ts : TraceState) : List Char := [','].intercalate (ts.list.map Member.text)

/-- Reading the texts of members appends the members. -/
theorem parseLoop_map_text (ts : TraceState) (ms : List Member) (result : TraceState)
    (h : result.list = ts.list ++ ms) : parseLoop ts (ms.map Member.text) = some result := by
  induction ms generalizing ts with
  | nil =>
    cases ts
    cases result
    simp_all [parseLoop]
  | cons m ms ih =>
    -- the list that comes out has room for the member and no other one with its key
    have hunique := result.unique
    have hsize := result.size
    rw [h, List.map_append, List.map_cons, List.nodup_append] at hunique
    rw [h, List.length_append, List.length_cons] at hsize
    have hroom : m.key ∉ ts.list.map Member.key ∧ ts.list.length < maxListMembers := by
      refine ⟨fun hmem => ?_, by omega⟩
      exact hunique.2.2 _ hmem _ List.mem_cons_self rfl
    rw [List.map_cons, parseLoop, if_neg m.text_ne_nil, m.parseMember_text]
    simp only [Option.bind_eq_bind, Option.bind_some, push, dif_pos hroom]
    apply ih
    rw [h, List.append_assoc, List.singleton_append]

theorem parse_text (ts : TraceState) : parse ts.text = some ts := by
  by_cases hlist : ts.list = []
  · obtain ⟨list, unique, size⟩ := ts
    subst hlist
    rfl
  · have hsplit : ts.text.splitOn ',' = ts.list.map Member.text := by
      apply List.splitOn_intercalate
      · intro piece hpiece
        obtain ⟨m, -, rfl⟩ := List.mem_map.mp hpiece
        exact m.comma_notMem_text
      · simpa using hlist
    rw [parse, hsplit]
    exact parseLoop_map_text _ _ _ rfl

/-! ## White space -/

theorem isSpace_of_keyChar {c : Char} (h : KeyChar c) : isSpace c = false := by
  rcases h with h | h
  · simp only [isAlphaNumASCII, Bool.or_eq_true, Bool.and_eq_true, decide_eq_true_eq] at h
    rcases h with ⟨hlo, hhi⟩ | ⟨hlo, hhi⟩
    · exact isSpace_of_visible (le_trans (by decide) hlo) (le_trans hhi (by decide))
    · exact isSpace_of_visible (le_trans (by decide) hlo) (le_trans hhi (by decide))
  · fin_cases h <;> decide

theorem isSpace_of_checkValueLast {c : Char} (h : checkValueLast c = true) :
    isSpace c = false := by
  simp only [checkValueLast, Bool.and_eq_true, decide_eq_true_eq] at h
  exact isSpace_of_visible h.1.1.1 h.1.1.2

def Tight (cs : List Char) : Prop :=
  (∃ first, cs.head? = some first ∧ isSpace first = false) ∧
    ∃ last, cs.getLast? = some last ∧ isSpace last = false

theorem tight_member (m : Member) : Tight m.text := by
  obtain ⟨first, hfirst, hkey⟩ := m.head?_text
  obtain ⟨last, hlast, hvalue⟩ := m.getLast?_text
  exact ⟨⟨first, hfirst, isSpace_of_keyChar hkey⟩, last, hlast, isSpace_of_checkValueLast hvalue⟩

theorem tight_intercalate {sep : List Char} {pieces : List (List Char)} (hne : pieces ≠ [])
    (h : ∀ piece ∈ pieces, Tight piece) : Tight (sep.intercalate pieces) := by
  induction pieces with
  | nil => exact absurd rfl hne
  | cons piece rest ih =>
    obtain ⟨⟨first, hfirst, hspace⟩, hlast⟩ := h piece List.mem_cons_self
    cases rest with
    | nil =>
      rw [List.intercalate_singleton]
      exact ⟨⟨first, hfirst, hspace⟩, hlast⟩
    | cons piece' rest =>
      -- the text starts where the first piece does, and ends where the others do
      obtain ⟨-, last, hlast, hspace'⟩ :=
        ih (List.cons_ne_nil _ _) fun p hp => h p (List.mem_cons_of_mem _ hp)
      rw [List.intercalate_cons_cons, List.append_assoc]
      refine ⟨⟨first, by rw [List.head?_append, hfirst, Option.some_or], hspace⟩, last, ?_, hspace'⟩
      rw [← List.append_assoc, List.getLast?_append, hlast, Option.some_or]

theorem trimSpace_text (ts : TraceState) :
    trimSpace (String.ofList ts.text) = String.ofList ts.text := by
  by_cases hlist : ts.list = []
  · rw [text, hlist]
    rfl
  · have htight : Tight ts.text := by
      apply tight_intercalate
      · simpa using hlist
      · intro piece hpiece
        obtain ⟨m, -, rfl⟩ := List.mem_map.mp hpiece
        exact tight_member m
    obtain ⟨⟨first, hfirst, hspace⟩, last, hlast, hspace'⟩ := htight
    exact trimSpace_eq_self (by rwa [String.toList_ofList]) (by rwa [String.toList_ofList]) hspace
      hspace'

end TraceState

end ServiceRuntime.W3C
