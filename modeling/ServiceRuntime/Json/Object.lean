import ServiceRuntime.Json.Compact

/-!
# JSON Objects and Records

The members of an object are read as raw texts, key and value, and a record takes from them the
fields that it knows. Keys are compared exactly first and then without regard to case. A value of
the wrong type is an error, a null leaves a string as it is, and of several members for one field
the last one counts.

An object that is written member by member is a JSON text, one level deeper than the deepest of its
values (`nesting_writeObject`), and its members are read back unless that is too deep
(`unmarshalStruct_objectText`).
-/

namespace ServiceRuntime.Json

/-! ## Members -/

/-- A member of an object, as it stands in the text. -/
structure Member where
  key : List UInt8
  value : List UInt8
  deriving DecidableEq

def skipSpace (bs : List UInt8) : List UInt8 := bs.dropWhile isSpace

/-- A member at the front of a text, and what follows it. -/
def readMember (bs : List UInt8) : Option (Member × List UInt8) :=
  (start.scanValue (skipSpace bs)).bind fun (key, afterKey) =>
    match skipSpace afterKey with
    | [] => none
    | c :: afterColon =>
      if c = 0x3A then
        (start.scanValue (skipSpace afterColon)).map fun (value, rest) =>
          (⟨key, value⟩, skipSpace rest)
      else none

/-- The members up to the closing brace; there are fewer than `fuel`. -/
def readMembers : Nat → List UInt8 → Option (List Member)
  | 0, _ => none
  | fuel + 1, bs =>
    (readMember bs).bind fun (m, rest) =>
      match rest with
      | [] => none
      | c :: rest' =>
        if c = 0x2C then (readMembers fuel rest').map (m :: ·)
        else if c = 0x7D then some [m]
        else none

def members (raw : List UInt8) : Option (List Member) :=
  match skipSpace (raw.drop 1) with
  | [] => none
  | c :: rest => if c = 0x7D then some [] else readMembers raw.length (c :: rest)

theorem length_skipSpace_le (bs : List UInt8) : (skipSpace bs).length ≤ bs.length :=
  (List.dropWhile_sublist isSpace).length_le

variable {bs : List UInt8} {ms : List Member}

theorem length_of_readMember {rest : List UInt8} {m : Member} (h : readMember bs = some (m, rest)) :
    m.value.length + rest.length < bs.length := by
  unfold readMember at h
  obtain ⟨⟨key, afterKey⟩, hkey, h⟩ := Option.bind_eq_some_iff.mp h
  dsimp only at h
  have hlength := length_skipSpace_le bs
  rw [Scanner.eq_append_of_scanValue hkey, List.length_append] at hlength
  have hafter := length_skipSpace_le afterKey
  split at h
  · cases h
  · rename_i c afterColon hcolon
    rw [hcolon, List.length_cons] at hafter
    split at h
    · obtain ⟨⟨value, rest'⟩, hvalue, heq⟩ := Option.map_eq_some_iff.mp h
      cases heq
      have hlength' := length_skipSpace_le afterColon
      rw [Scanner.eq_append_of_scanValue hvalue, List.length_append] at hlength'
      have hrest := length_skipSpace_le rest'
      dsimp only
      omega
    · cases h

theorem length_of_readMembers {fuel : Nat} (h : readMembers fuel bs = some ms) :
    ∀ m ∈ ms, m.value.length < bs.length := by
  induction fuel generalizing bs ms with
  | zero => cases h
  | succ fuel ih =>
    unfold readMembers at h
    obtain ⟨⟨m, rest⟩, hmember, h⟩ := Option.bind_eq_some_iff.mp h
    have hlength := length_of_readMember hmember
    cases rest with
    | nil => cases h
    | cons c rest =>
      rw [List.length_cons] at hlength
      dsimp only at h
      split at h
      -- a comma, and more members
      · obtain ⟨ms', hrest, rfl⟩ := Option.map_eq_some_iff.mp h
        intro m' hm'
        rcases List.mem_cons.mp hm' with rfl | hm'
        · omega
        · have := ih hrest m' hm'
          omega
      · split at h
        · cases h
          -- the closing brace
          intro m' hm'
          rw [List.mem_singleton] at hm'
          subst hm'
          omega
        · cases h

theorem length_of_members {raw : List UInt8} (h : members raw = some ms) :
    ∀ m ∈ ms, m.value.length + 2 ≤ raw.length := by
  have hskip := length_skipSpace_le (raw.drop 1)
  unfold members at h
  split at h
  · cases h
  · rename_i c rest hbody
    rw [hbody, List.length_cons, List.length_drop] at hskip
    split at h
    · cases h
      simp
    · intro m hm
      have := length_of_readMembers h m hm
      rw [List.length_cons] at this
      omega

/-! ## Writing an object -/

/-- The members after the first key's quotation mark, up to the closing brace. -/
def bodyText : String × List UInt8 → List (String × List UInt8) → List UInt8
  | (name, value), [] => quote name ++ 0x3A :: (value ++ [0x7D])
  | (name, value), m :: ms => quote name ++ 0x3A :: (value ++ 0x2C :: bodyText m ms)

def objectText : List (String × List UInt8) → List UInt8
  | [] => [0x7B, 0x7D]
  | m :: ms => 0x7B :: bodyText m ms

theorem skipSpace_of_head {c : UInt8} (hc : isSpace c = false) (rest : List UInt8) :
    skipSpace (c :: rest) = c :: rest := List.dropWhile_cons_of_neg (by simp [hc])

theorem skipSpace_append (h : IsCompact bs) (after : List UInt8) :
    skipSpace (bs ++ after) = bs ++ after := by
  obtain ⟨c, rest, rfl, hc, -⟩ := h.head
  exact skipSpace_of_head hc (rest ++ after)

/-- A member whose key is a string and whose value has no white space around it. -/
structure Member.IsSound (m : Member) : Prop where
  key : Scanner.IsString m.key
  value : IsCompact m.value

theorem readMember_append {m : Member} (h : m.IsSound) {c : UInt8} (hc : isDelimiter c = true)
    (after : List UInt8) :
    readMember (m.key ++ 0x3A :: (m.value ++ c :: after)) = some (m, c :: after) := by
  have hspace := Scanner.isSpace_of_isDelimiter hc
  unfold readMember
  rw [skipSpace_append h.key.isCompact, h.key.isCompact.scanValue rfl, Option.bind_some]
  dsimp only
  rw [skipSpace_of_head rfl]
  dsimp only
  rw [if_pos rfl, skipSpace_append h.value, h.value.scanValue hc, Option.map_some]
  dsimp only
  rw [skipSpace_of_head hspace]

def membersText : Member → List Member → List UInt8
  | m, [] => m.key ++ 0x3A :: (m.value ++ [0x7D])
  | m, m' :: ms => m.key ++ 0x3A :: (m.value ++ 0x2C :: membersText m' ms)

def writeObject : List Member → List UInt8
  | [] => [0x7B, 0x7D]
  | m :: ms => 0x7B :: membersText m ms

theorem readMembers_membersText {m : Member} (h : ∀ m' ∈ m :: ms, m'.IsSound) {fuel : Nat}
    (hfuel : ms.length < fuel) : readMembers fuel (membersText m ms) = some (m :: ms) := by
  induction ms generalizing m fuel with
  | nil =>
    obtain ⟨fuel', rfl⟩ := Nat.exists_eq_succ_of_ne_zero (show fuel ≠ 0 by omega)
    rw [membersText, readMembers, readMember_append (h m List.mem_cons_self) rfl]
    rfl
  | cons m' ms ih =>
    rw [List.length_cons] at hfuel
    obtain ⟨fuel', rfl⟩ := Nat.exists_eq_succ_of_ne_zero (show fuel ≠ 0 by omega)
    rw [membersText, readMembers, readMember_append (h m List.mem_cons_self) rfl,
      Option.bind_some]
    dsimp only
    rw [if_pos rfl, ih (fun m'' hm'' => h m'' (List.mem_cons_of_mem _ hm'')) (by omega)]
    rfl

theorem length_lt_membersText (m : Member) (ms : List Member) :
    ms.length < (membersText m ms).length := by
  induction ms generalizing m with
  | nil =>
    unfold membersText
    simp
  | cons m' ms ih =>
    have := ih m'
    unfold membersText
    simp only [List.length_cons, List.length_append]
    omega

theorem members_writeObject (h : ∀ m ∈ ms, m.IsSound) : members (writeObject ms) = some ms := by
  cases ms with
  | nil => rfl
  | cons m ms =>
    have hfuel := length_lt_membersText m ms
    have hread := readMembers_membersText h (show ms.length < (writeObject (m :: ms)).length by
      rw [writeObject, List.length_cons]; omega)
    -- the first key starts with its quotation mark
    obtain ⟨rest, hrest⟩ : ∃ rest, membersText m ms = 0x22 :: rest := by
      obtain ⟨inner, hkey, -⟩ := (h m List.mem_cons_self).key
      cases ms <;> exact ⟨_, by rw [membersText, hkey, List.cons_append, List.cons_append]⟩
    unfold members
    rw [show (writeObject (m :: ms)).drop 1 = membersText m ms from rfl, hrest,
      skipSpace_of_head rfl]
    dsimp only
    rw [if_neg (by decide), ← hrest]
    exact hread

def Member.of (m : String × List UInt8) : Member := ⟨quote m.1, m.2⟩

theorem objectText_eq (ms : List (String × List UInt8)) :
    objectText ms = writeObject (ms.map Member.of) := by
  have hbody : ∀ (m : String × List UInt8) (ms : List (String × List UInt8)),
      bodyText m ms = membersText (Member.of m) (ms.map Member.of) := by
    intro m ms
    induction ms generalizing m with
    | nil => rfl
    | cons m' ms ih =>
      rw [bodyText, ih m']
      rfl
  cases ms with
  | nil => rfl
  | cons m ms => rw [objectText, hbody, List.map_cons, writeObject]

theorem isSound_of {ms : List (String × List UInt8)} (h : ∀ m ∈ ms, IsCompact m.2) :
    ∀ m ∈ ms.map Member.of, m.IsSound := by
  intro m hm
  obtain ⟨m', hm', rfl⟩ := List.mem_map.mp hm
  exact ⟨Scanner.isString_quote m'.1, h m' hm'⟩

theorem members_objectText (ms : List (String × List UInt8)) (h : ∀ m ∈ ms, IsCompact m.2) :
    members (objectText ms) = some (ms.map Member.of) := by
  rw [objectText_eq]
  exact members_writeObject (isSound_of h)

/-! ## A written object is a JSON text -/

namespace Scanner

def frame (base : List ParseState) (s : Scanner) : Scanner :=
  ⟨if s.state = .endTop then .endValue else s.state, s.stack ++ base⟩

variable {base stack : List ParseState} {c : UInt8} {s s' : Scanner} {state : State}
  {bs after value : List UInt8} {m : Member}

theorem stepEndValue_frame (hbase : base ≠ []) (h : stepEndValue stack c = some s) :
    stepEndValue (stack ++ base) c = some (frame base s) := by
  obtain ⟨b, base, rfl⟩ := List.exists_cons_of_ne_nil hbase
  cases hspace : isSpace c with
  | true =>
    rw [stepEndValue_space _ hspace] at h ⊢
    cases h
    cases stack <;> simp [frame]
  | false =>
    cases stack with
    | nil => simp [stepEndValue, hspace] at h
    | cons top outer =>
      unfold stepEndValue at h ⊢
      cases top <;> cases outer <;> simp only [hspace, List.cons_append, List.nil_append] at h ⊢ <;>
        grind [pop, frame]

theorem frame_mk (h : state ≠ .endTop) : frame base ⟨state, stack⟩ = ⟨state, stack ++ base⟩ := by
  unfold frame
  rw [if_neg h]

theorem stepBeginValue_frame {self : State} (hself : self ≠ .endTop)
    (h : stepBeginValue self stack c = some s) :
    stepBeginValue self (stack ++ base) c = some (frame base s) := by
  unfold stepBeginValue at h ⊢
  split_ifs at h ⊢
  · cases h
    rw [frame_mk hself]
  · obtain ⟨⟨state, opened⟩, hstart, rfl⟩ := Option.map_eq_some_iff.mp h
    rw [hstart, frame_mk (valueStart_eq_some hstart).1, Option.map_some, List.append_assoc]

/-- The machine goes the same way inside of something else. -/
theorem step_frame (hbase : base ≠ []) (h : s.step c = some s') :
    (s.frame base).step c = some (s'.frame base) := by
  obtain ⟨state, stack⟩ := s
  -- a byte after which the machine is at `next`, with the same things open
  have hmove : ∀ {next : State}, next ≠ .endTop → Scanner.mk next stack = s' →
      some (Scanner.mk next (stack ++ base)) = some (s'.frame base) := by
    rintro next hnext rfl
    rw [frame_mk hnext]
  cases state with
  | endTop =>
    -- what is the end for the value is not the end for what surrounds it
    have hspace : isSpace c = true := by
      unfold step at h
      dsimp only at h
      split at h
      · assumption
      · cases h
    obtain ⟨b, base, rfl⟩ := List.exists_cons_of_ne_nil hbase
    rw [step_space rfl hspace] at h
    cases h
    show stepEndValue (stack ++ b :: base) c = _
    rw [stepEndValue_space _ hspace]
    simp [frame]
  | endValue => exact stepEndValue_frame hbase h
  | beginValue => exact stepBeginValue_frame (by decide) h
  | beginValueOrEmpty =>
    rw [frame_mk (by decide)]
    unfold step at h ⊢
    dsimp only at h ⊢
    split_ifs at h ⊢
    · exact stepEndValue_frame hbase h
    · exact stepBeginValue_frame (by decide) h
  | beginStringOrEmpty =>
    rw [frame_mk (by decide)]
    unfold step at h ⊢
    dsimp only at h ⊢
    split_ifs at h ⊢
    · exact hmove (by decide) (Option.some.inj h)
    · cases stack with
      | nil => cases h
      | cons top outer => exact stepEndValue_frame hbase h
    · exact hmove (by decide) (Option.some.inj h)
  | _ =>
    rw [frame_mk (by decide)]
    unfold step at h ⊢
    dsimp only [stepHex, expect] at h ⊢
    split_ifs at h ⊢
    all_goals first
      | exact stepEndValue_frame hbase h
      | exact hmove (by decide) (Option.some.inj h)

theorem step_frame_of_complete (h : s.complete = true) (hc : isDelimiter c = true) :
    (s.frame base).step c = stepEndValue base c := by
  obtain ⟨state, stack⟩ := s
  obtain ⟨hstack, hstate⟩ := state_of_complete h
  dsimp only at hstack hstate
  subst hstack
  rcases eq_of_isDelimiter hc with rfl | rfl | rfl | rfl
  all_goals rcases hstate with rfl | rfl | rfl | rfl | rfl | rfl <;> rfl

/-- The machine gets from one state to another over a text without white space outside of
    strings, with at most `depth` objects and arrays open on the way. -/
structure Passes (s : Scanner) (bs : List UInt8) (depth : ℕ) (s' : Scanner) : Prop where
  run : s.run bs = some s'
  tight : s.Tight bs
  nesting : s.nesting bs = depth

theorem passes_nil (s : Scanner) : s.Passes [] s.stack.length s := ⟨rfl, trivial, rfl⟩

theorem Passes.append {s'' : Scanner} {xs ys : List UInt8} {m n : ℕ} (hxs : s.Passes xs m s')
    (hys : s'.Passes ys n s'') : s.Passes (xs ++ ys) (max m n) s'' where
  run := by
    rw [run_append, hxs.run]
    exact hys.run
  tight := hxs.tight.append hxs.run hys.tight
  nesting := by rw [nesting_append hxs.run, hxs.nesting, hys.nesting]

theorem Passes.cons {t u : Scanner} {n : ℕ} (hstep : s.step c = some t)
    (hc : isSpace c = true → s.isInString = true) (h : t.Passes bs n u) :
    s.Passes (c :: bs) (max s.stack.length n) u where
  run := by
    rw [Scanner.run, hstep]
    exact h.run
  tight := by
    refine ⟨hc, fun t' ht => ?_⟩
    rw [hstep] at ht
    cases ht
    exact h.tight
  nesting := by rw [nesting_cons hstep, h.nesting]

theorem isInString_frame (base : List ParseState) (s : Scanner) :
    (s.frame base).isInString = s.isInString := by
  obtain ⟨state, stack⟩ := s
  cases state <;> rfl

/-- What the machine passes, it passes inside of something else, that much deeper. -/
theorem passes_frame (hbase : base ≠ []) (hrun : s.run bs = some s') (h : s.Tight bs) :
    (s.frame base).Passes bs (s.nesting bs + base.length) (s'.frame base) := by
  induction bs generalizing s with
  | nil =>
    cases hrun
    exact ⟨rfl, trivial, List.length_append⟩
  | cons c bs ih =>
    obtain ⟨s₁, hstep, hrun⟩ := Option.bind_eq_some_iff.mp hrun
    have hpasses := Passes.cons (step_frame hbase hstep)
      (fun hspace => (isInString_frame base s).trans (h.1 hspace)) (ih hrun (h.2 s₁ hstep))
    have hstack : (s.frame base).stack.length = s.stack.length + base.length := List.length_append
    rwa [hstack, Nat.add_max_add_right, ← nesting_cons hstep] at hpasses

theorem passes_value {n : ℕ} (h : IsCompact value) (hbase : base ≠ []) (hc : isDelimiter c = true)
    (hstep : stepEndValue base c = some s) (hafter : s.Passes after n s') :
    (Scanner.mk .beginValue base).Passes (value ++ c :: after)
      (max (Json.nesting value + base.length) n) s' := by
  obtain ⟨t, hrun, hcomplete⟩ := h.complete
  have hstack : (t.frame base).stack.length = base.length := by
    simp [frame, (state_of_complete hcomplete).1]
  have hclose := Passes.cons ((step_frame_of_complete hcomplete hc).trans hstep)
    (fun hspace => by rw [isSpace_of_isDelimiter hc] at hspace; cases hspace) hafter
  have hpasses := (passes_frame hbase hrun h.tight).append hclose
  rwa [hstack, ← max_assoc, max_eq_left (Nat.le_add_left _ _)] at hpasses

theorem passes_member {n : ℕ} (h : m.IsSound)
    (hstate : state = .beginString ∨ state = .beginStringOrEmpty) (hc : isDelimiter c = true)
    (hstep : stepEndValue [.objectValue] c = some s) (hafter : s.Passes after n s') :
    (Scanner.mk state [.objectKey]).Passes (m.key ++ 0x3A :: (m.value ++ c :: after))
      (max (Json.nesting m.value + 1) n) s' := by
  have hopen : (Scanner.mk state [.objectKey]).step 0x22 = some (inString [.objectKey]) := by
    rcases hstate with rfl | rfl <;> rfl
  obtain ⟨hrun, htight, hkey⟩ := h.key.run hopen
  have hvalue := passes_value h.value (List.cons_ne_nil _ _) hc hstep hafter
  have hpasses := Passes.append ⟨hrun, htight, hkey⟩
    (Passes.cons (s := ⟨.endValue, [.objectKey]⟩) (c := 0x3A) rfl (by decide) hvalue)
  have hdepth : max [ParseState.objectKey].length (max [ParseState.objectKey].length
      (max (Json.nesting m.value + [ParseState.objectValue].length) n)) =
      max (Json.nesting m.value + 1) n := by
    simp only [List.length_singleton]
    omega
  rwa [hdepth] at hpasses

theorem passes_membersText {ms : List Member} (h : ∀ m' ∈ m :: ms, m'.IsSound)
    (hstate : state = .beginString ∨ state = .beginStringOrEmpty) :
    ∃ depth, (Scanner.mk state [.objectKey]).Passes (membersText m ms) depth ⟨.endTop, []⟩ ∧
      ∀ n, depth ≤ n + 1 ↔ ∀ m' ∈ m :: ms, Json.nesting m'.value ≤ n := by
  induction ms generalizing m state with
  | nil =>
    exact ⟨_, passes_member (h m List.mem_cons_self) hstate rfl rfl (passes_nil _), by simp⟩
  | cons m' ms ih =>
    obtain ⟨depth, hpasses, hdepth⟩ := ih
      (fun m'' hm'' => h m'' (List.mem_cons_of_mem _ hm'')) (.inl (Eq.refl State.beginString))
    refine ⟨_, passes_member (h m List.mem_cons_self) hstate rfl rfl hpasses, fun n => ?_⟩
    rw [max_le_iff, Nat.succ_le_succ_iff, hdepth]
    exact (List.forall_mem_cons (p := fun m : Member => Json.nesting m.value ≤ n)).symm

end Scanner

theorem passes_writeObject (h : ∀ m ∈ ms, m.IsSound) :
    ∃ depth, start.Passes (writeObject ms) depth ⟨.endTop, []⟩ ∧
      ∀ n, depth ≤ n + 1 ↔ ∀ m ∈ ms, nesting m.value ≤ n := by
  cases ms with
  | nil =>
    exact ⟨1, ⟨rfl, Scanner.tight_of_not_space (by simp [writeObject, isSpace]), rfl⟩, by simp⟩
  | cons m ms =>
    obtain ⟨depth, hpasses, hdepth⟩ := Scanner.passes_membersText h (.inr rfl)
    refine ⟨_, Scanner.Passes.cons rfl (by decide) hpasses, fun n => ?_⟩
    rw [max_le_iff, hdepth]
    exact and_iff_right (Nat.zero_le _)

/-- **A written object** is one level deeper than its values. -/
theorem nesting_writeObject (h : ∀ m ∈ ms, m.IsSound) {n : ℕ} :
    nesting (writeObject ms) ≤ n + 1 ↔ ∀ m ∈ ms, nesting m.value ≤ n := by
  obtain ⟨depth, hpasses, hdepth⟩ := passes_writeObject h
  rw [nesting, hpasses.nesting, hdepth]

theorem isCompact_writeObject (h : ∀ m ∈ ms, m.IsSound) : IsCompact (writeObject ms) := by
  obtain ⟨depth, hpasses, -⟩ := passes_writeObject h
  exact ⟨hpasses.tight, _, hpasses.run, rfl⟩

theorem IsCompact.wellFormed (h : IsCompact bs) : wellFormed bs = true := by
  obtain ⟨s, hrun, hcomplete⟩ := h.complete
  rw [Json.wellFormed, hrun]
  exact hcomplete

theorem valid_objectText {ms : List (String × List UInt8)} (h : ∀ m ∈ ms, IsCompact m.2) :
    valid (objectText ms) = true ↔ ∀ m ∈ ms, nesting m.2 < maxNestingDepth := by
  have hlevels : maxNestingDepth = 9999 + 1 := rfl
  rw [valid_iff, objectText_eq, hlevels, nesting_writeObject (isSound_of h), List.forall_mem_map]
  simp [(isCompact_writeObject (isSound_of h)).wellFormed, Member.of, Nat.lt_succ_iff]

/-! ## Records -/

/-- The smallest character that differs from `c` by case only, as far as that is an ASCII
    character; two characters beyond ASCII have an ASCII letter for their other case. -/
def foldRune (c : Char) : Char :=
  if c.toNat = 0x212A then 'K' else if c.toNat = 0x17F then 'S' else c.toUpper

def foldName (s : String) : List Char := s.toList.map foldRune

def lookupField {β : Type*} (fields : List (String × β)) (key : String) : Option β :=
  match fields.find? fun field => field.1 == key with
  | some field => some field.2
  | none => (fields.find? fun field => foldName field.1 == foldName key).map Prod.snd

section Records

variable {α : Type*}

/-- How a record takes a raw value into one of its fields; `none` is a value of the wrong type. -/
abbrev Setter (α : Type*) := α → List UInt8 → Option α

/-- A string field: null leaves it as it is. -/
def stringField (set : α → String → α) : Setter α := fun record raw =>
  if raw.head? = some 0x6E then some record
  else if raw.head? = some 0x22 then (unquote raw).map (set record)
  else none

def rawField (set : α → List UInt8 → α) : Setter α := fun record raw => some (set record raw)

def takeMember (fields : List (String × Setter α)) (record : α) (m : Member) : Option α :=
  (unquote m.key).bind fun key =>
    match lookupField fields key with
    | none => some record
    | some set => set record m.value

/-- Read a record with the given fields, over `record`. -/
def unmarshalStruct (fields : List (String × Setter α)) (record : α) (data : List UInt8) :
    Option α :=
  if valid data then
    match skipSpace data with
    | [] => none
    | c :: rest =>
      if c = 0x7B then (members (c :: rest)).bind fun ms => ms.foldlM (takeMember fields) record
      else if c = 0x6E then some record
      else none
  else none

variable {fields : List (String × Setter α)} {record result : α} {data value : List UInt8}

theorem valid_of_unmarshalStruct (h : unmarshalStruct fields record data = some result) :
    valid data = true := by
  unfold unmarshalStruct at h
  split at h
  · assumption
  · cases h

theorem takeMember_of (fields : List (String × Setter α)) (record : α) (name : String)
    (value : List UInt8) :
    takeMember fields record (Member.of (name, value)) =
      match lookupField fields name with
      | none => some record
      | some set => set record value := by
  unfold takeMember Member.of
  dsimp only
  rw [unquote_quote, Option.bind_some]

theorem stringField_quote (set : α → String → α) (record : α) (s : String) :
    stringField set record (quote s) = some (set record s) := by
  unfold stringField
  rw [if_neg (by simp [quote]), if_pos (by simp [quote]), unquote_quote, Option.map_some]

theorem foldlM_member {name : String} {set : Setter α}
    (hlookup : lookupField fields name = some set) {record' : α}
    (hset : set record value = some record') (rest : List (String × List UInt8)) :
    (((name, value) :: rest).map Member.of).foldlM (takeMember fields) record =
      (rest.map Member.of).foldlM (takeMember fields) record' := by
  rw [List.map_cons, List.foldlM_cons, takeMember_of, hlookup]
  dsimp only
  rw [hset]
  rfl

theorem foldlM_omitted {name : String} {set : Setter α}
    (hlookup : lookupField fields name = some set) (record' : α) {empty : Prop} [Decidable empty]
    (hempty : empty → record' = record) (hset : ¬empty → set record value = some record')
    (rest : List (String × List UInt8)) :
    (((if empty then [] else [(name, value)]) ++ rest).map Member.of).foldlM (takeMember fields)
        record =
      (rest.map Member.of).foldlM (takeMember fields) record' := by
  split
  · rename_i h
    rw [List.nil_append, hempty h]
  · rename_i h
    rw [List.singleton_append, foldlM_member hlookup (hset h)]

/-- **A written object is read member by member.** -/
theorem unmarshalStruct_objectText (fields : List (String × Setter α)) (record : α)
    {ms : List (String × List UInt8)} (h : ∀ m ∈ ms, IsCompact m.2)
    (hnesting : ∀ m ∈ ms, nesting m.2 < maxNestingDepth) :
    unmarshalStruct fields record (objectText ms) =
      (ms.map Member.of).foldlM (takeMember fields) record := by
  have hmembers := members_objectText ms h
  obtain ⟨rest, hrest⟩ : ∃ rest, objectText ms = 0x7B :: rest := by
    cases ms <;> exact ⟨_, rfl⟩
  unfold unmarshalStruct
  rw [if_pos ((valid_objectText h).mpr hnesting), hrest, skipSpace_of_head rfl]
  dsimp only
  rw [if_pos rfl, ← hrest, hmembers, Option.bind_some]

theorem mem_of_lookupField {β : Type*} {fields : List (String × β)} {key : String} {b : β}
    (h : lookupField fields key = some b) : ∃ field ∈ fields, field.2 = b := by
  unfold lookupField at h
  split at h
  · rename_i field hfind
    cases h
    exact ⟨field, List.mem_of_find?_eq_some hfind, rfl⟩
  · obtain ⟨field, hfind, rfl⟩ := Option.map_eq_some_iff.mp h
    exact ⟨field, List.mem_of_find?_eq_some hfind, rfl⟩

/-- What every field keeps when it takes a value shorter than the text holds of the record that is
    read from the text. -/
theorem unmarshalStruct_induction (P : α → Prop)
    (hset : ∀ field ∈ fields, ∀ r r' raw, raw.length + 2 ≤ data.length → field.2 r raw = some r' →
      P r → P r') (hrecord : P record) (h : unmarshalStruct fields record data = some result) :
    P result := by
  -- on the members that are still to be taken
  have hfold : ∀ (ms : List Member), (∀ m ∈ ms, m.value.length + 2 ≤ data.length) →
      ∀ r, P r → ms.foldlM (takeMember fields) r = some result → P result := by
    intro ms
    induction ms with
    | nil =>
      intro _ r hr hresult
      cases hresult
      exact hr
    | cons m ms ih =>
      intro hms r hr hresult
      rw [List.foldlM_cons] at hresult
      obtain ⟨r', hmember, hrest⟩ := Option.bind_eq_some_iff.mp hresult
      refine ih (fun m' hm' => hms m' (List.mem_cons_of_mem m hm')) r' ?_ hrest
      obtain ⟨key, -, htake⟩ := Option.bind_eq_some_iff.mp hmember
      split at htake
      -- no field has this key, so the member is skipped
      · cases htake
        exact hr
      · rename_i set hlookup
        obtain ⟨field, hfield, rfl⟩ := mem_of_lookupField hlookup
        exact hset field hfield r r' m.value (hms m List.mem_cons_self) htake hr
  unfold unmarshalStruct at h
  split at h
  · split at h
    · cases h
    · rename_i c rest hskip
      have hlength := length_skipSpace_le data
      rw [hskip] at hlength
      split at h
      · obtain ⟨ms, hms, hresult⟩ := Option.bind_eq_some_iff.mp h
        exact hfold ms (fun m hm => (length_of_members hms m hm).trans hlength) record hrecord hresult
      · split at h
        · cases h
          exact hrecord
        · cases h
  · cases h

theorem unmarshalStruct_of_illegal (fields : List (String × Setter α)) (record : α) {c : UInt8}
    (hc : c ∈ data) (hillegal : ¬ Legal c) : unmarshalStruct fields record data = none := by
  unfold unmarshalStruct
  exact if_neg fun hvalid =>
    hillegal (Scanner.legal_of_wellFormed (valid_iff.mp hvalid).1 c hc)

end Records

end ServiceRuntime.Json
