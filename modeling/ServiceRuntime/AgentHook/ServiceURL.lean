import ServiceRuntime.GoTrim

/-!
# Service URLs

`normalizeServiceURL` brings a configured URL to the base that the clients append their procedures
to: it trims white space, takes each suffix of a list off at most once, and trims slashes. Each of
these is done once, in this order, so what a later step uncovers stays: a suffix in front of a
slash, white space or a second suffix in front of a suffix.

`Relapses` describes the texts to which this happens.
-/

namespace ServiceRuntime.AgentHook

open GoStrings GoTrim

/-! ## The function -/

def governanceServiceSuffixes : List String := [
  "/governance.v1.GovernanceService/EvaluateAction",
  "/governance.v1.GovernanceService"]

def approvalsServiceSuffixes : List String := [
  "/approvals.v1.ApprovalService/RequestApproval",
  "/approvals.v1.ApprovalService/GetApproval",
  "/approvals.v1.ApprovalService"]

def normalizeServiceURL (value : String) (suffixes : List String) : String :=
  trimRight (suffixes.foldl trimSuffix (trimSpace value)) '/'

/-- The URL that `newConnectGovernanceClient` calls. -/
def evaluateActionURL (baseURL : String) : String :=
  trimRight baseURL '/' ++ "/governance.v1.GovernanceService/EvaluateAction"

/-! ## Normal forms -/

/-- A normal form ends neither in a slash, nor in a suffix of the list, nor in white space. -/
structure Normal (suffixes : List String) (url : String) : Prop where
  slash : hasSuffix url "/" = false
  suffix : ∀ s ∈ suffixes, hasSuffix url s = false
  space : ∀ c, isSpace c = true → hasSuffix url (String.singleton c) = false

/-- An end that is to be taken off: white space or a suffix of the list. -/
inductive Ending (suffixes : List String) : List Char → Prop where
  | space {c : Char} (h : isSpace c = true) : Ending suffixes [c]
  | suffix {s : String} (h : s ∈ suffixes) : Ending suffixes s.toList

/-- The trimmed text is, from its end: some suffixes in the order of the list, any number of
    slashes, and one more end. Without a slash between them, that end is no suffix that comes
    later in the list. -/
def Relapses (suffixes : List String) (value : String) : Prop :=
  ∃ (base ending : List Char) (slashes : ℕ) (taken : List (List Char)),
    Ending suffixes ending ∧ taken.Sublist (suffixes.map String.toList) ∧
      (trimSpace value).toList =
        base ++ ending ++ List.replicate slashes '/' ++ taken.reverse.flatten ∧
      (slashes = 0 → ¬ (taken ++ [ending]).Sublist (suffixes.map String.toList))

/-- What the theorems need of a list: no suffix ends in another one, in white space or in a
    slash. -/
structure Suited (suffixes : List String) : Prop where
  independent : Independent (suffixes.map String.toList)
  last : ∀ s ∈ suffixes, (s.toList.getLast?.any fun c => !isSpace c && c != '/') = true

theorem governanceServiceSuffixes_suited : Suited governanceServiceSuffixes where
  independent := ⟨by decide, by decide⟩
  last := by decide

theorem approvalsServiceSuffixes_suited : Suited approvalsServiceSuffixes where
  independent := ⟨by decide, by decide⟩
  last := by decide

/-! ## What the three steps leave -/

section Steps

variable {suffixes : List String}

theorem Suited.exists_last (h : Suited suffixes) {s : List Char}
    (hs : s ∈ suffixes.map String.toList) :
    ∃ c, s.getLast? = some c ∧ isSpace c = false ∧ c ≠ '/' := by
  obtain ⟨t, ht, rfl⟩ := List.mem_map.mp hs
  have hlast := h.last t ht
  cases hc : t.toList.getLast? with
  | none =>
    rw [hc] at hlast
    cases hlast
  | some c =>
    rw [hc, Option.any_some, Bool.and_eq_true, Bool.not_eq_true', bne_iff_ne] at hlast
    exact ⟨c, rfl, hlast⟩

theorem isSpace_slash : isSpace '/' = false := by decide

variable {e w : List Char}

theorem Ending.exists_last (h : Suited suffixes) (he : Ending suffixes e) :
    ∃ c, e.getLast? = some c ∧ c ≠ '/' := by
  cases he with
  | @space c hc =>
    refine ⟨c, rfl, ?_⟩
    rintro rfl
    rw [isSpace_slash] at hc
    cases hc
  | suffix hs =>
    obtain ⟨c, hc, -, hslash⟩ := h.exists_last (List.mem_map_of_mem hs)
    exact ⟨c, hc, hslash⟩

theorem getLast?_of_suffix {c : Char} (h : e <:+ w) (hc : e.getLast? = some c) :
    w.getLast? = some c := by
  obtain ⟨front, rfl⟩ := h
  rw [List.getLast?_append, hc, Option.some_or]

theorem rdropWhile_append_replicate {c : Char} (hc : w.getLast? = some c) (hslash : c ≠ '/')
    (n : ℕ) :
    (w ++ List.replicate n '/').rdropWhile (· == '/') = w := by
  have hslashes : ∀ a ∈ List.replicate n '/', (a == '/') = true := fun a ha =>
    beq_iff_eq.mpr (List.eq_of_mem_replicate ha)
  obtain ⟨front, rfl⟩ := List.getLast?_eq_some_iff.mp hc
  rw [rdropWhile_append_of_all hslashes, List.rdropWhile_concat_neg]
  simpa using hslash

theorem eq_rdropWhile_append_replicate (w : List Char) :
    ∃ n, w = w.rdropWhile (· == '/') ++ List.replicate n '/' := by
  refine ⟨(w.rtakeWhile (· == '/')).length, ?_⟩
  have hslashes : w.rtakeWhile (· == '/') =
      List.replicate (w.rtakeWhile (· == '/')).length '/' := by
    rw [List.eq_replicate_iff]
    exact ⟨rfl, fun c hc => by simpa using List.mem_rtakeWhile_imp hc⟩
  rw [← hslashes, List.rdropWhile_append_rtakeWhile]

theorem toList_normalizeServiceURL (value : String) (suffixes : List String) :
    (normalizeServiceURL value suffixes).toList =
      (strip (suffixes.map String.toList) (trimSpace value).toList).rdropWhile (· == '/') := by
  rw [normalizeServiceURL, trimRight, String.toList_ofList, toList_foldl_trimSuffix]

/-- In a text that relapses, the loop stops before the slashes. -/
theorem taken_of_ending (h : Suited suffixes) {base ending : List Char} {slashes : ℕ}
    {taken : List (List Char)} (hending : Ending suffixes ending)
    (hsublist : taken.Sublist (suffixes.map String.toList))
    (hlater : slashes = 0 → ¬ (taken ++ [ending]).Sublist (suffixes.map String.toList)) :
    Taken (suffixes.map String.toList)
      (base ++ ending ++ List.replicate slashes '/' ++ taken.reverse.flatten)
      (base ++ ending ++ List.replicate slashes '/') taken := by
  refine ⟨hsublist, rfl, fun s hs hsuffix => ?_⟩
  have hmem : s ∈ suffixes.map String.toList :=
    hs.mem (List.mem_append_right _ (List.mem_singleton_self s))
  obtain ⟨c, hc, hspace, hslash⟩ := h.exists_last hmem
  have hlast := getLast?_of_suffix hsuffix hc
  cases slashes with
  | succ n =>
    rw [List.replicate_succ', ← List.append_assoc, List.getLast?_concat] at hlast
    exact hslash (Option.some.inj hlast).symm
  | zero =>
    rw [List.replicate_zero, List.append_nil] at hlast hsuffix
    cases hending with
    | @space d hd =>
      rw [List.getLast?_concat] at hlast
      obtain rfl := Option.some.inj hlast
      rw [hspace] at hd
      cases hd
    | suffix ht =>
      -- two suffixes at the end of one text are the same
      have heq := h.independent.eq_of_suffix hmem (List.mem_map_of_mem ht) hsuffix
        (List.suffix_append _ _)
      exact hlater rfl (heq ▸ hs)

/-- **A text relapses exactly if an end is left that was to be taken off.** -/
theorem relapses_iff (h : Suited suffixes) (value : String) :
    Relapses suffixes value ↔
      ∃ e, Ending suffixes e ∧ e <:+ (normalizeServiceURL value suffixes).toList := by
  rw [toList_normalizeServiceURL]
  constructor
  -- the loop stops at the slashes, and they are taken off last
  · rintro ⟨base, ending, slashes, taken, hending, hsublist, htext, hlater⟩
    refine ⟨ending, hending, ?_⟩
    obtain ⟨c, hc, hslash⟩ := hending.exists_last h
    rw [htext, (taken_of_ending h hending hsublist hlater).strip_eq h.independent,
      rdropWhile_append_replicate (getLast?_of_suffix (List.suffix_append _ _) hc) hslash]
    exact List.suffix_append _ _
  · rintro ⟨ending, hending, base, hbase⟩
    obtain ⟨taken, htaken⟩ := exists_taken h.independent.nodup (trimSpace value).toList
    obtain ⟨slashes, hslashes⟩ :=
      eq_rdropWhile_append_replicate (strip (suffixes.map String.toList) (trimSpace value).toList)
    rw [← hbase] at hslashes
    refine ⟨base, ending, slashes, taken, hending, htaken.sublist, ?_, ?_⟩
    · rw [← hslashes]
      exact htaken.text
    -- without slashes the loop would have taken off the ending as well
    · rintro rfl hlater
      rw [List.replicate_zero, List.append_nil] at hslashes
      refine htaken.rest ending hlater ?_
      rw [hslashes]
      exact List.suffix_append _ _

end Steps

/-! ## Normal forms are kept -/

theorem hasSuffix_eq_false_iff {s suffix : String} :
    hasSuffix s suffix = false ↔ ¬ suffix.toList <:+ s.toList := by
  rw [hasSuffix, Bool.eq_false_iff, Ne, List.isSuffixOf_iff_suffix]

theorem not_slash_normalizeServiceURL (value : String) (suffixes : List String) :
    hasSuffix (normalizeServiceURL value suffixes) "/" = false := by
  rw [hasSuffix_eq_false_iff, toList_normalizeServiceURL]
  rintro ⟨front, hfront⟩
  have hlast : (front ++ "/".toList).rdropWhile (· == '/') = front ++ "/".toList := by
    rw [hfront, List.rdropWhile_idempotent]
  have hcut : (front ++ ['/']).rdropWhile (· == '/') = front.rdropWhile (· == '/') :=
    List.rdropWhile_concat_pos _ _ _ (by decide)
  have hkept := List.rdropWhile_prefix (fun c => c == '/') front
  have hlength := hkept.length_le
  have hsame : front ++ ['/'] = front.rdropWhile (· == '/') := hlast.symm.trans hcut
  have := congrArg List.length hsame
  rw [List.length_append, List.length_singleton] at this
  omega

variable {suffixes : List String}

theorem normal_iff (value : String) :
    Normal suffixes (normalizeServiceURL value suffixes) ↔
      ¬ ∃ e, Ending suffixes e ∧ e <:+ (normalizeServiceURL value suffixes).toList := by
  constructor
  · rintro hnormal ⟨e, he, hsuffix⟩
    cases he with
    | @space c hc =>
      have hnot := hasSuffix_eq_false_iff.mp (hnormal.space c hc)
      rw [String.toList_singleton] at hnot
      exact hnot hsuffix
    | suffix hs => exact hasSuffix_eq_false_iff.mp (hnormal.suffix _ hs) hsuffix
  · intro hnot
    refine ⟨not_slash_normalizeServiceURL value suffixes, fun s hs => ?_, fun c hc => ?_⟩
    · rw [hasSuffix_eq_false_iff]
      exact fun hsuffix => hnot ⟨_, .suffix hs, hsuffix⟩
    · rw [hasSuffix_eq_false_iff, String.toList_singleton]
      exact fun hsuffix => hnot ⟨_, .space hc, hsuffix⟩

theorem normalizeServiceURL_front (value : String) (suffixes : List String) :
    (normalizeServiceURL value suffixes).toList <+: (trimSpace value).toList := by
  have hstrip : ∀ (suffixes : List (List Char)) (w : List Char), strip suffixes w <+: w := by
    intro suffixes
    induction suffixes with
    | nil => exact fun w => List.prefix_refl w
    | cons s suffixes ih =>
      intro w
      refine List.IsPrefix.trans (ih (dropSuffix w s)) ?_
      unfold dropSuffix
      split
      · exact List.take_prefix _ _
      · exact List.prefix_refl w
  rw [toList_normalizeServiceURL]
  exact List.IsPrefix.trans ( List.rdropWhile_prefix _ _) (hstrip _ _)

theorem normalizeServiceURL_of_normal {value : String}
    (h : Normal suffixes (normalizeServiceURL value suffixes)) :
    normalizeServiceURL (normalizeServiceURL value suffixes) suffixes =
      normalizeServiceURL value suffixes := by
  have htrim : trimSpace (normalizeServiceURL value suffixes) =
      normalizeServiceURL value suffixes :=
    trimSpace_of_front (normalizeServiceURL_front value suffixes) fun c hc hspace => by
      have hnot := hasSuffix_eq_false_iff.mp (h.space c hspace)
      rw [String.toList_singleton] at hnot
      obtain ⟨front, hfront⟩ := List.getLast?_eq_some_iff.mp hc
      exact hnot ⟨front, hfront.symm⟩
  apply String.toList_injective
  rw [toList_normalizeServiceURL, htrim, strip_of_not]
  · rw [toList_normalizeServiceURL, List.rdropWhile_idempotent]
  · intro s hs
    obtain ⟨t, ht, rfl⟩ := List.mem_map.mp hs
    exact hasSuffix_eq_false_iff.mp (h.suffix t ht)

theorem normal_and_idempotent_iff (h : Suited suffixes) (value : String) :
    (Normal suffixes (normalizeServiceURL value suffixes) ∧
        normalizeServiceURL (normalizeServiceURL value suffixes) suffixes =
          normalizeServiceURL value suffixes) ↔ ¬ Relapses suffixes value := by
  rw [relapses_iff h, ← normal_iff]
  exact ⟨And.left, fun hnormal => ⟨hnormal, normalizeServiceURL_of_normal hnormal⟩⟩

/-- **A service URL reaches a normal form exactly if it does not relapse**, for both services. -/
theorem normalizeServiceURL_normal_iff (value : String) :
    ((Normal governanceServiceSuffixes (normalizeServiceURL value governanceServiceSuffixes) ∧
        normalizeServiceURL (normalizeServiceURL value governanceServiceSuffixes)
            governanceServiceSuffixes =
          normalizeServiceURL value governanceServiceSuffixes) ↔
      ¬ Relapses governanceServiceSuffixes value) ∧
    ((Normal approvalsServiceSuffixes (normalizeServiceURL value approvalsServiceSuffixes) ∧
        normalizeServiceURL (normalizeServiceURL value approvalsServiceSuffixes)
            approvalsServiceSuffixes =
          normalizeServiceURL value approvalsServiceSuffixes) ↔
      ¬ Relapses approvalsServiceSuffixes value) :=
  ⟨normal_and_idempotent_iff governanceServiceSuffixes_suited value,
    normal_and_idempotent_iff approvalsServiceSuffixes_suited value⟩

/-- A slash at the end of the service path: the path stays, and the procedure is appended to it. -/
theorem normalizeServiceURL_keeps_service :
    let url := normalizeServiceURL "https://x/governance.v1.GovernanceService/"
      governanceServiceSuffixes
    url = "https://x/governance.v1.GovernanceService" ∧
      hasSuffix url "/governance.v1.GovernanceService" = true ∧
      normalizeServiceURL url governanceServiceSuffixes = "https://x" ∧
      evaluateActionURL url = "https://x/governance.v1.GovernanceService" ++
        "/governance.v1.GovernanceService/EvaluateAction" := by
  decide +kernel

end ServiceRuntime.AgentHook
