import ServiceRuntime.FeatureFlags.FileStore
import ServiceRuntime.GoUnicode

/-!
# Gradual Rollout

`EnabledFor` says whether a flag is on for a subject. A flag with a `rollout_percent` below 100 is
on for the subjects whose bucket, a hash of the key and the subject, is below that percentage.
The bucket does not depend on the percentage, so the subjects of a rollout are a family of sets
that grows with it (`cohort_monotone`).

A key or a subject is any Go string. It is trimmed in several places: `Lookup` trims the key,
`EnabledFor` the subject, and `rolloutBucket` both of them.
-/

namespace ServiceRuntime.FeatureFlags

open GoStrings GoUnicode GoUtf8

/-! ## Buckets -/

/-- `fnv.New32a`. A hasher is its sum. -/
def fnvNew32a : UInt32 := 2166136261

def fnvWrite (hasher : UInt32) (data : List UInt8) : UInt32 :=
  data.foldl (fun hash c => (hash ^^^ c.toUInt32) * 16777619) hasher

def rolloutBucket (key subject : List UInt8) : UInt32 :=
  let hasher := fnvNew32a
  let hasher := fnvWrite hasher (bytesTrimSpace key)
  let hasher := fnvWrite hasher (bytes ":")
  let hasher := fnvWrite hasher (bytesTrimSpace subject)
  hasher % 100

def effectiveRolloutPercent (value : UInt32) : UInt32 :=
  -- the message does not tell 0 from a field that is not set
  if value = 0 then 100
  else if 100 < value then 100
  else value

/-! ## Questions to the store -/

namespace FileStore

/-- `Lookup` of any string, after the refresh. The keys of the map are valid texts, so a string
    that is none finds nothing. -/
def find (store : FileStore) (key : List UInt8) : Option FeatureFlag :=
  match ofBytes (bytesTrimSpace key) with
  | none => none
  | some key =>
    match store.flags key with
    | none => none
    | some flag => clone (some flag)

/-- `Enabled`, after the refresh. -/
def enabled (store : FileStore) (key : List UInt8) : Bool :=
  match store.find key with
  | none => false
  | some flag => flag.enabled

/-- `EnabledFor`, after the refresh. -/
def enabledFor (store : FileStore) (key subject : List UInt8) : Bool :=
  match store.find key with
  | none => false
  | some flag =>
    if flag.enabled = false then false
    else
      let rolloutPercent := effectiveRolloutPercent flag.rolloutPercent
      if 100 ≤ rolloutPercent then true
      else
        let subject := bytesTrimSpace subject
        -- a gradual rollout needs a subject
        if subject = [] then false
        else decide (rolloutBucket key subject < rolloutPercent)

/-- `HasExplicitRollout`, after the refresh. -/
def hasExplicitRollout (store : FileStore) (key : List UInt8) : Bool :=
  match store.find key with
  | none => false
  | some flag => decide (0 < flag.rolloutPercent)

/-- **On texts it is the `Lookup` of the calls.** -/
theorem find_bytes (store : FileStore) (key : String) :
    store.find (bytes key) = store.lookup key := by
  rw [find, bytesTrimSpace_bytes, ofBytes_bytes]
  rfl

end FileStore

/-! ## The subjects of a rollout -/

/-- The subjects that a flag is on for, at an effective percentage. -/
def cohort (key : List UInt8) (percent : Nat) : Set (List UInt8) :=
  fun subject => 100 ≤ percent ∨
    bytesTrimSpace subject ≠ [] ∧ (rolloutBucket key (bytesTrimSpace subject)).toNat < percent

/-- **No subject is lost as the percentage grows.** -/
theorem cohort_monotone (key : List UInt8) : Monotone (cohort key) := by
  intro p q hpq subject hsubject
  rcases hsubject with hfull | ⟨hne, hbucket⟩
  · exact .inl (le_trans hfull hpq)
  · exact .inr ⟨hne, lt_of_lt_of_le hbucket hpq⟩

theorem mem_cohort_hundred (key subject : List UInt8) : subject ∈ cohort key 100 := .inl le_rfl

theorem mem_cohort_congr {key key' subject subject' : List UInt8}
    (hkey : bytesTrimSpace key' = bytesTrimSpace key)
    (hsubject : bytesTrimSpace subject' = bytesTrimSpace subject) (percent : Nat) :
    subject' ∈ cohort key' percent ↔ subject ∈ cohort key percent := by
  show (_ ∨ _) ↔ (_ ∨ _)
  rw [rolloutBucket, rolloutBucket, hkey, hsubject]

/-! ## Percentages -/

theorem effectiveRolloutPercent_zero : (effectiveRolloutPercent 0).toNat = 100 := rfl

theorem toNat_effectiveRolloutPercent {value : UInt32} (h : 1 ≤ value) :
    (effectiveRolloutPercent value).toNat = min value.toNat 100 := by
  have hpos : 1 ≤ value.toNat := UInt32.le_iff_toNat_le.mp h
  have hne : value ≠ 0 := by
    rintro rfl
    exact absurd hpos (by decide)
  rw [effectiveRolloutPercent, if_neg hne]
  split
  · rename_i hlarge
    have hlarge' : 100 < value.toNat := UInt32.lt_iff_toNat_lt.mp hlarge
    rw [Nat.min_eq_right (Nat.le_of_lt hlarge')]
    rfl
  · rename_i hsmall
    have hsmall' : ¬100 < value.toNat := fun h => hsmall (UInt32.lt_iff_toNat_lt.mpr h)
    rw [Nat.min_eq_left (Nat.le_of_not_lt hsmall')]

theorem effectiveRolloutPercent_le {p q : UInt32} (hp : 1 ≤ p) (hpq : p ≤ q) :
    (effectiveRolloutPercent p).toNat ≤ (effectiveRolloutPercent q).toNat := by
  rw [toNat_effectiveRolloutPercent hp, toNat_effectiveRolloutPercent (UInt32.le_trans hp hpq)]
  exact min_le_min_right 100 (UInt32.le_iff_toNat_le.mp hpq)

/-! ## Answers -/

namespace FileStore

variable {store : FileStore} {key subject : List UInt8}

theorem enabled_iff :
    store.enabled key = true ↔ ∃ flag, store.find key = some flag ∧ flag.enabled = true := by
  unfold enabled
  cases store.find key <;> simp

/-- **The flag is on for its cohort.** -/
theorem enabledFor_iff :
    store.enabledFor key subject = true ↔
      ∃ flag, store.find key = some flag ∧ flag.enabled = true ∧
        subject ∈ cohort key (effectiveRolloutPercent flag.rolloutPercent).toNat := by
  unfold enabledFor
  cases store.find key with
  | none => simp
  | some flag =>
    simp only [Option.some.injEq, exists_eq_left']
    generalize effectiveRolloutPercent flag.rolloutPercent = percent
    cases flag.enabled with
    | false => simp
    | true =>
      have hfull : (100 : UInt32) ≤ percent ↔ 100 ≤ percent.toNat := UInt32.le_iff_toNat_le
      rw [if_neg (by decide), eq_self, true_and]
      split
      · rename_i hpercent
        -- a full rollout does not look at the subject
        exact iff_of_true rfl (.inl (hfull.mp hpercent))
      · rename_i hpercent
        rw [hfull] at hpercent
        split
        · rename_i hempty
          -- a subject that is empty is in no bucket
          refine iff_of_false (by decide) ?_
          rintro (hpercent' | ⟨hne, -⟩)
          · exact hpercent hpercent'
          · exact hne hempty
        · rename_i hne
          rw [decide_eq_true_iff, UInt32.lt_iff_toNat_lt]
          exact ⟨fun hbucket => .inr ⟨hne, hbucket⟩, fun hmem => (hmem.resolve_left hpercent).2⟩

theorem find_congr {key' : List UInt8} (h : bytesTrimSpace key' = bytesTrimSpace key) :
    store.find key' = store.find key := by
  rw [find, find, h]

theorem enabledFor_of_not_hasExplicitRollout (h : store.hasExplicitRollout key = false) :
    store.enabledFor key subject = store.enabled key := by
  unfold hasExplicitRollout at h
  rw [Bool.eq_iff_iff, enabledFor_iff, enabled_iff]
  constructor
  · rintro ⟨flag, hfind, henabled, -⟩
    exact ⟨flag, hfind, henabled⟩
  · rintro ⟨flag, hfind, henabled⟩
    rw [hfind] at h
    have hzero : flag.rolloutPercent = 0 := by
      have hnot := of_decide_eq_false h
      rw [UInt32.lt_iff_toNat_lt] at hnot
      exact UInt32.toNat_inj.mp (Nat.eq_zero_of_not_pos hnot)
    refine ⟨flag, hfind, henabled, ?_⟩
    rw [hzero, effectiveRolloutPercent_zero]
    exact mem_cohort_hundred key subject

end FileStore

/-! ## Monotone and stable -/

/-- The store has the flag enabled, with this `rollout_percent`. -/
def FileStore.HoldsEnabled (store : FileStore) (key : List UInt8) (percent : UInt32) : Prop :=
  ∃ flag, store.find key = some flag ∧ flag.enabled = true ∧ flag.rolloutPercent = percent

theorem FileStore.HoldsEnabled.enabledFor_iff {store : FileStore} {key : List UInt8}
    {percent : UInt32} (h : store.HoldsEnabled key percent) (subject : List UInt8) :
    store.enabledFor key subject = true ↔
      subject ∈ cohort key (effectiveRolloutPercent percent).toNat := by
  obtain ⟨flag, hfind, henabled, rfl⟩ := h
  rw [FileStore.enabledFor_iff]
  constructor
  · rintro ⟨flag', hfind', -, hmem⟩
    rw [hfind] at hfind'
    cases hfind'
    exact hmem
  · intro hmem
    exact ⟨flag, hfind, henabled, hmem⟩

/-- **Gradual rollout is monotone and stable.** -/
theorem rollout_monotone_and_stable :
    (∀ (key subject : List UInt8) (store store' : FileStore) (p q : UInt32), 1 ≤ p → p ≤ q →
      store.HoldsEnabled key p → store'.HoldsEnabled key q →
        store.enabledFor key subject = true → store'.enabledFor key subject = true) ∧
    (∀ (key subject : List UInt8) (store : FileStore),
      store.enabledFor key subject = true → store.enabled key = true) ∧
    (∀ (key subject : List UInt8) (store : FileStore) (front back front' back' : String),
      Blank front → Blank back → Blank front' → Blank back' →
        store.enabledFor (bytes front ++ key ++ bytes back)
            (bytes front' ++ subject ++ bytes back') = store.enabledFor key subject ∧
          store.enabled (bytes front ++ key ++ bytes back) = store.enabled key) := by
  refine ⟨?_, ?_, ?_⟩
  · intro key subject store store' p q hp hpq hstore hstore' henabled
    rw [hstore.enabledFor_iff] at henabled
    rw [hstore'.enabledFor_iff]
    exact cohort_monotone key (effectiveRolloutPercent_le hp hpq) henabled
  · intro key subject store henabled
    obtain ⟨flag, hfind, hflag, -⟩ := FileStore.enabledFor_iff.mp henabled
    exact FileStore.enabled_iff.mpr ⟨flag, hfind, hflag⟩
  · intro key subject store front back front' back' hfront hback hfront' hback'
    have hkey := bytesTrimSpace_pad hfront hback key
    have hsubject := bytesTrimSpace_pad hfront' hback' subject
    have hfind : store.find (bytes front ++ key ++ bytes back) = store.find key :=
      FileStore.find_congr hkey
    constructor
    · rw [Bool.eq_iff_iff, FileStore.enabledFor_iff, FileStore.enabledFor_iff, hfind]
      simp only [mem_cohort_congr hkey hsubject]
    · rw [FileStore.enabled, FileStore.enabled, hfind]

def sampleRollout (percent : UInt32) : FileStore :=
  { FileStore.zero with flags := index ⟨1, [some ⟨"beta", true, percent, [], ""⟩]⟩ }

theorem sampleRollout_holdsEnabled (percent : UInt32) :
    (sampleRollout percent).HoldsEnabled (bytes "beta") percent := by
  refine ⟨⟨"beta", true, percent, [], ""⟩, ?_, rfl, rfl⟩
  have htrim : trimSpace "beta" = "beta" := by decide
  rw [FileStore.find_bytes]
  simp [FileStore.lookup, sampleRollout, index, indexFlag, clone, htrim]

/-- A subject of a rollout of 30 percent, when the rollout is made a full one and when the key
    and the subject are padded. -/
theorem rollout_of_sample :
    (sampleRollout 30).enabledFor (bytes "beta") (bytes "org-charlie") = true ∧
      (sampleRollout 250).enabledFor (bytes "beta") (bytes "org-charlie") = true ∧
      (sampleRollout 250).enabled (bytes "beta") = true ∧
      (sampleRollout 30).enabledFor (bytes " " ++ bytes "beta" ++ bytes "\t")
        (bytes "\n" ++ bytes "org-charlie" ++ bytes " ") =
          (sampleRollout 30).enabledFor (bytes "beta") (bytes "org-charlie") := by
  obtain ⟨hmonotone, hstrong, hpad⟩ := rollout_monotone_and_stable
  have hsmall : (sampleRollout 30).enabledFor (bytes "beta") (bytes "org-charlie") = true := by
    rw [(sampleRollout_holdsEnabled 30).enabledFor_iff]
    refine .inr ⟨?_, ?_⟩
    · rw [bytesTrimSpace_bytes]
      decide
    · rw [bytesTrimSpace_bytes]
      decide
  have hlarge := hmonotone _ _ _ _ 30 250 (by decide) (by decide) (sampleRollout_holdsEnabled 30)
    (sampleRollout_holdsEnabled 250) hsmall
  refine ⟨hsmall, hlarge, hstrong _ _ _ hlarge, ?_⟩
  exact (hpad _ _ _ " " "\t" "\n" " " (by decide) (by decide) (by decide) (by decide)).1

end ServiceRuntime.FeatureFlags
