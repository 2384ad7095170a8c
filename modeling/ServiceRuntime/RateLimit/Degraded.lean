import ServiceRuntime.RateLimit.Bound
import ServiceRuntime.RateLimit.Fleet
import ServiceRuntime.RateLimit.RedisBurst

/-!
# The Limit While Redis Fails

A caller can draw on the bucket in Redis and on those of the replicas that fall back to memory.
Each of them is a stock of at most `cap` that earns at most `rate`; so each grants no more than
`cap` and what is earned, whichever calls fail and whether or not the failed ones ran the script.
The limit is multiplied by the number of buckets that decided, and by no more.

A bucket that is missing counts as a full one (`entryLevel`, `hashLevel`). Dropping an idle bucket
is then no gain if `rate` is large enough to have filled it by that time. This is no condition on
the policies: a policy that earns slower is one that earns at most `rate`.
-/

namespace ServiceRuntime.RateLimit.Fleet

open GoTime Quota Transition

variable {ρ : Type}

/-! ## The level of a bucket -/

/-- What the bucket in memory can pay out at `now`, if it earns at `rate` up to `cap`. -/
def entryLevel (cap : Int) (rate : ℚ) (now : Int) : Option Entry → ℚ
  | none => cap
  | some e => refill (cap : ℚ) (secondsBetween now e.limiter.lastTime * rate) e.limiter.tokens

/-- What the bucket in Redis can pay out at `nowMs`. -/
def hashLevel (cap : Int) (rate : ℚ) (nowMs : Int) : Option Hash → ℚ
  | none => cap
  | some h => refill (cap : ℚ) (((nowMs - h.updatedAtMs : Int) : ℚ) / 1000 * rate) h.tokens

/-- A bucket that requests within the limits have used, none of them later than `clock`. -/
structure EntrySound (cap : Int) (rate : ℚ) (clock : Int) (e : Entry) : Prop where
  sound : e.limiter.Sound
  rate_le : e.limiter.rate ≤ rate
  burst_le : e.limiter.burst ≤ cap
  lastTime : e.limiter.lastTime = e.lastSeen
  lastSeen_le : e.lastSeen ≤ clock

/-- A hash that requests within the limits have used. -/
structure HashSound (cap : Int) (clockMs : Int) (h : Hash) : Prop where
  tokens_nonneg : 0 ≤ h.tokens
  tokens_le : h.tokens ≤ cap
  updatedAtMs_le : h.updatedAtMs ≤ clockMs

theorem cleanup_cases (maxAge : Duration) (entries : Entries) (now : Int) (key : String) :
    cleanup maxAge entries now key = entries key ∨
      cleanup maxAge entries now key = none ∧
        ∃ e, entries key = some e ∧ e.lastSeen < now - maxAge.ns := by
  unfold cleanup
  cases hentry : entries key with
  | none => exact .inl rfl
  | some e =>
    dsimp only
    split
    · rename_i hcutoff
      exact .inr ⟨rfl, e, rfl, hcutoff⟩
    · exact .inl rfl

section Memory

variable {cap : Int} {rate : ℚ} {clock now : Int} {entry : Option Entry}

theorem entryLevel_le_cap : entryLevel cap rate now entry ≤ cap := by
  cases entry with
  | none => exact le_refl _
  | some e => exact refill_le_cap

theorem entryLevel_later (hrate : 0 ≤ rate) (hnow : clock ≤ now) :
    entryLevel cap rate now entry ≤
      entryLevel cap rate clock entry + ((now : ℚ) / 1000000000 - clock / 1000000000) * rate := by
  have hcast : (clock : ℚ) ≤ now := by exact_mod_cast hnow
  have hgain : 0 ≤ ((now : ℚ) / 1000000000 - clock / 1000000000) * rate :=
    mul_nonneg (by linarith) hrate
  cases entry with
  | none => exact le_add_of_nonneg_right hgain
  | some e =>
    have hsplit : secondsBetween now e.limiter.lastTime * rate =
        secondsBetween clock e.limiter.lastTime * rate +
          ((now : ℚ) / 1000000000 - clock / 1000000000) * rate := by
      unfold secondsBetween
      push_cast
      ring
    simp only [entryLevel]
    rw [hsplit]
    exact refill_add_le hgain

theorem EntrySound.lastTime_le {e : Entry} (h : EntrySound cap rate now e) :
    e.limiter.lastTime ≤ now := by
  rw [h.lastTime]
  exact h.lastSeen_le

theorem reachedFor_of_sound (policy : Policy)
    (hentry : ∀ e, entry = some e → EntrySound cap rate now e) :
    reachedFor policy now entry = now := by
  cases entry with
  | none => exact reachedFor_none policy now
  | some e =>
    rw [reachedFor_some]
    exact TokenBucket.notBefore_of_le _ (hentry e rfl).lastTime_le

theorem entryLevel_nonneg (hcap : (0 : ℚ) ≤ cap) (hrate : 0 ≤ rate)
    (hentry : ∀ e, entry = some e → EntrySound cap rate now e) : 0 ≤ entryLevel cap rate now entry := by
  cases entry with
  | none => exact hcap
  | some e =>
    have he := hentry e rfl
    exact refill_nonneg hcap (mul_nonneg (secondsBetween_nonneg he.lastTime_le) hrate)
      he.sound.tokens_nonneg

theorem entryLevel_of_idle {e : Entry} (h : EntrySound cap rate clock e) {maxAge : Int}
    (hrate : 0 ≤ rate) (hidle : (cap : ℚ) ≤ secondsBetween maxAge 0 * rate)
    (hcutoff : e.lastSeen < now - maxAge) : entryLevel cap rate now (some e) = cap := by
  refine refill_of_cap_le ?_
  have hseconds : secondsBetween maxAge 0 ≤ secondsBetween now e.limiter.lastTime := by
    unfold secondsBetween
    rw [h.lastTime]
    have : ((maxAge - 0 : Int) : ℚ) ≤ ((now - e.lastSeen : Int) : ℚ) := by
      exact_mod_cast (by omega : maxAge - 0 ≤ now - e.lastSeen)
    gcongr
  have hearned := mul_le_mul_of_nonneg_right hseconds hrate
  have hnonneg := h.sound.tokens_nonneg
  linarith

variable {policy : Policy} (hpolicy : policy.requestsPerSecond ≤ rate ∧ policy.burst ≤ cap)
include hpolicy

/-- A request finds no more than the level. -/
theorem levelFor_le_entryLevel (hentry : ∀ e, entry = some e → EntrySound cap rate now e) :
    levelFor policy now entry ≤ entryLevel cap rate now entry := by
  have hburst : (policy.burst : ℚ) ≤ cap := by exact_mod_cast hpolicy.2
  cases entry with
  | none =>
    rw [levelFor_none]
    exact hburst
  | some e =>
    have he := hentry e rfl
    have hreached := TokenBucket.notBefore_of_le _ he.lastTime_le
    have hearned : ∀ old, 0 ≤ old → old ≤ rate → elapsedSeconds now e.limiter.lastTime * old ≤
        secondsBetween now e.limiter.lastTime * rate := fun old hnonneg hold =>
      mul_le_mul (elapsedSeconds_le he.lastTime_le) hold hnonneg
        (secondsBetween_nonneg he.lastTime_le)
    by_cases hsame : e.limiter.rate = policy.requestsPerSecond ∧ e.limiter.burst = policy.burst
    · rw [levelFor_same policy now hsame.1 hsame.2, hreached, ← hsame.1]
      exact refill_mono hburst (hearned _ he.sound.rate_nonneg he.rate_le)
    -- the old policy is within the limits as well
    · rw [levelFor_changed policy now (not_and_or.mp hsame), hreached]
      have hold : (e.limiter.burst : ℚ) ≤ cap := by exact_mod_cast he.burst_le
      exact le_trans (min_le_right _ _)
        (refill_mono hold (hearned _ he.sound.rate_nonneg he.rate_le))

/-- **A request in memory pays out of the level.** -/
theorem payout_add_entryLevel_le (hentry : ∀ e, entry = some e → EntrySound cap rate now e) :
    payout (levelFor policy now entry) + entryLevel cap rate now (some (serve policy now entry).1) ≤
      entryLevel cap rate now entry := by
  have hafter : entryLevel cap rate now (some (serve policy now entry).1) ≤
      spend (levelFor policy now entry) := by
    simp only [entryLevel, serve_limiter, reachedFor_of_sound policy hentry, secondsBetween_self,
      zero_mul]
    exact le_trans refill_le_add (le_of_eq (add_zero _))
  exact payout_add_le hafter (levelFor_le_entryLevel hpolicy hentry)

theorem entrySound_serve (hpos : 0 < policy.requestsPerSecond ∧ 1 ≤ policy.burst)
    (hentry : ∀ e, entry = some e → EntrySound cap rate now e) :
    EntrySound cap rate now (serve policy now entry).1 := by
  refine ⟨serve_sound hpos.1 hpos.2 fun e he => (hentry e he).sound, ?_, ?_, ?_, le_refl now⟩
  · rw [serve_limiter]
    exact hpolicy.1
  · rw [serve_limiter]
    exact hpolicy.2
  · rw [serve_limiter]
    exact reachedFor_of_sound policy hentry

end Memory

section Redis

variable {cap : Int} {rate : ℚ} {clockMs nowMs : Int} {values : Option Hash}

theorem hashLevel_le_cap : hashLevel cap rate nowMs values ≤ cap := by
  cases values with
  | none => exact le_refl _
  | some h => exact refill_le_cap

theorem hashLevel_later (hrate : 0 ≤ rate) (hnow : clockMs ≤ nowMs) :
    hashLevel cap rate nowMs values ≤
      hashLevel cap rate clockMs values + ((nowMs : ℚ) / 1000 - clockMs / 1000) * rate := by
  have hcast : (clockMs : ℚ) ≤ nowMs := by exact_mod_cast hnow
  have hgain : 0 ≤ ((nowMs : ℚ) / 1000 - clockMs / 1000) * rate := mul_nonneg (by linarith) hrate
  cases values with
  | none => exact le_add_of_nonneg_right hgain
  | some h =>
    have hsplit : ((nowMs - h.updatedAtMs : Int) : ℚ) / 1000 * rate =
        ((clockMs - h.updatedAtMs : Int) : ℚ) / 1000 * rate +
          ((nowMs : ℚ) / 1000 - clockMs / 1000) * rate := by
      push_cast
      ring
    simp only [hashLevel]
    rw [hsplit]
    exact refill_add_le hgain

theorem hashLevel_nonneg (hcap : (0 : ℚ) ≤ cap) (hrate : 0 ≤ rate)
    (hvalues : ∀ h, values = some h → HashSound cap nowMs h) : 0 ≤ hashLevel cap rate nowMs values := by
  cases values with
  | none => exact hcap
  | some h =>
    have hh := hvalues h rfl
    have hms : (0 : ℚ) ≤ ((nowMs - h.updatedAtMs : Int) : ℚ) := by
      exact_mod_cast Int.sub_nonneg.mpr hh.updatedAtMs_le
    exact refill_nonneg hcap (by positivity) hh.tokens_nonneg

theorem hashLevel_of_idle {h : Hash} (hsound : HashSound cap clockMs h) {ttlMs : Int}
    (hrate : 0 ≤ rate) (hidle : (cap : ℚ) ≤ (ttlMs : ℚ) / 1000 * rate)
    (hexpired : h.updatedAtMs + ttlMs ≤ nowMs) : hashLevel cap rate nowMs (some h) = cap := by
  refine refill_of_cap_le ?_
  have hms : (ttlMs : ℚ) ≤ ((nowMs - h.updatedAtMs : Int) : ℚ) := by
    exact_mod_cast (by omega : ttlMs ≤ nowMs - h.updatedAtMs)
  have hearned : (ttlMs : ℚ) / 1000 * rate ≤ ((nowMs - h.updatedAtMs : Int) : ℚ) / 1000 * rate := by
    gcongr
  have hnonneg := hsound.tokens_nonneg
  linarith

variable {r : Run} (hr : r.rate ≤ rate ∧ r.burst ≤ cap) (hnow : r.nowMs = nowMs)
include hr hnow

/-- A run of the script finds no more than the level, and brings the hash to its time. -/
theorem advanced_le_hashLevel (hvalues : ∀ h, values = some h → HashSound cap nowMs h) :
    (r.advanced values).tokens ≤ hashLevel cap rate nowMs values ∧
      (r.advanced values).updatedAtMs = nowMs := by
  subst hnow
  have hburst : (r.burst : ℚ) ≤ cap := by exact_mod_cast hr.2
  cases values with
  | none =>
    rw [advanced_none]
    exact ⟨hburst, rfl⟩
  | some h =>
    have hh := hvalues h rfl
    rcases lt_or_eq_of_le hh.updatedAtMs_le with hlater | hsame
    · rw [advanced_later hlater]
      have hms : (0 : ℚ) ≤ ((r.nowMs - h.updatedAtMs : Int) : ℚ) := by
        exact_mod_cast (by omega : 0 ≤ r.nowMs - h.updatedAtMs)
      exact ⟨refill_mono hburst (mul_le_mul_of_nonneg_left hr.1 (by positivity)), rfl⟩
    -- no new time: the script does not look at the burst, but the hash is within the cap
    · rw [advanced_not_later (le_of_eq hsame.symm)]
      refine ⟨?_, hsame⟩
      simp only [hashLevel, hsame, sub_self, Int.cast_zero, zero_div, zero_mul]
      rw [refill_zero hh.tokens_le]

/-- **A run of the script pays out of the level.** -/
theorem payout_add_hashLevel_le (hvalues : ∀ h, values = some h → HashSound cap nowMs h) :
    payout (r.advanced values).tokens +
        hashLevel cap rate nowMs (some (redisTokenBucketScript r values).1) ≤
      hashLevel cap rate nowMs values := by
  obtain ⟨hfound, htime⟩ := advanced_le_hashLevel hr hnow hvalues
  have hafter : hashLevel cap rate nowMs (some (redisTokenBucketScript r values).1) ≤
      spend (r.advanced values).tokens := by
    simp only [hashLevel, script_fst, htime, sub_self, Int.cast_zero, zero_div, zero_mul]
    exact le_trans refill_le_add (le_of_eq (add_zero _))
  exact payout_add_le hafter hfound

theorem hashSound_script (hpos : r.Positive)
    (hvalues : ∀ h, values = some h → HashSound cap nowMs h) :
    HashSound cap nowMs (redisTokenBucketScript r values).1 := by
  obtain ⟨hfound, htime⟩ := advanced_le_hashLevel hr hnow hvalues
  have hnonneg := advanced_nonneg hpos fun h hh => (hvalues h hh).tokens_nonneg
  rw [script_fst]
  refine ⟨spend_nonneg hnonneg, ?_, le_of_eq htime⟩
  exact le_trans spend_le (le_trans hfound hashLevel_le_cap)

end Redis

/-! ## The levels of a fleet -/

/-- Limits that all policies keep, with a rate that fills a bucket before it is dropped. -/
structure Limits (cfg : Config ρ) where
  cap : Int
  rate : ℚ
  policy_le : ∀ r, (cfg.withDefaults.policyForRequest r).requestsPerSecond ≤ rate ∧
    (cfg.withDefaults.policyForRequest r).burst ≤ cap
  cap_nonneg : 0 ≤ cap
  rate_nonneg : 0 ≤ rate
  idle : (cap : ℚ) ≤ (cfg.withDefaults.ttlMs : ℚ) / 1000 * rate

theorem Limits.idle_maxAge {cfg : Config ρ} (L : Limits cfg) :
    (L.cap : ℚ) ≤ secondsBetween cfg.withDefaults.maxAge.ns 0 * L.rate := by
  have hpos : 0 < cfg.withDefaults.maxAge.ns := (cfg.toConfig.withDefaults_pos).2.2
  have hns : cfg.withDefaults.ttlMs * 1000000 ≤ cfg.withDefaults.maxAge.ns := by
    unfold Config.ttlMs millisecond
    rw [Int.tdiv_eq_ediv_of_nonneg hpos.le]
    omega
  have hcast : (cfg.withDefaults.ttlMs : ℚ) * 1000000 ≤ (cfg.withDefaults.maxAge.ns : ℚ) := by
    exact_mod_cast hns
  have hseconds : (cfg.withDefaults.ttlMs : ℚ) / 1000 ≤
      secondsBetween cfg.withDefaults.maxAge.ns 0 := by
    unfold secondsBetween
    rw [sub_zero]
    linarith
  exact le_trans L.idle (mul_le_mul_of_nonneg_right hseconds L.rate_nonneg)

/-- Every bucket of the fleet is one that requests within the limits have used. -/
structure Sound {cfg : Config ρ} (L : Limits cfg) (s : Sys) : Prop where
  entries : ∀ i key e, s.entries i key = some e → EntrySound L.cap L.rate s.clock e
  hashes : ∀ key h, s.hashes key = some h → HashSound L.cap (unixMilli s.clock) h

theorem unixMilli_mono {t u : Int} (h : t ≤ u) : unixMilli t ≤ unixMilli u := by
  unfold unixMilli
  omega

section System

variable {cfg : Config ρ} {L : Limits cfg} {s s' : Sys} {e : Event ρ} {r : ρ}

theorem Sound.later (h : Sound L s) {now : Int} (hnow : s.clock ≤ now) :
    Sound L { s with clock := now } :=
  ⟨fun i key e he =>
      { h.entries i key e he with
        lastSeen_le := le_trans (h.entries i key e he).lastSeen_le hnow },
    fun key hash hh =>
      { h.hashes key hash hh with
        updatedAtMs_le := le_trans (h.hashes key hash hh).updatedAtMs_le (unixMilli_mono hnow) }⟩

theorem Sound.afterScript (h : Sound L s) (r : ρ) :
    Sound L { s with hashes := s.afterScript cfg.withDefaults r s.clock } := by
  refine ⟨h.entries, fun key hash hh => ?_⟩
  change s.afterScript cfg.withDefaults r s.clock key = some hash at hh
  by_cases hkey : key = cfg.withDefaults.redisBucketKey (cfg.withDefaults.bucketKey r)
  · subst hkey
    rw [afterScript_self, Option.some.injEq] at hh
    subst hh
    exact hashSound_script (L.policy_le r) rfl (cfg.policyForRequest_positive r) (h.hashes _)
  · rw [afterScript_of_ne _ _ _ _ hkey] at hh
    exact h.hashes key hash hh

theorem Sound.afterLocal (h : Sound L s) (i : ℕ) (r : ρ) :
    Sound L { s with entries := s.afterLocal cfg.withDefaults i r s.clock } := by
  refine ⟨fun j key e he => ?_, h.hashes⟩
  change s.afterLocal cfg.withDefaults i r s.clock j key = some e at he
  by_cases hother : j ≠ i ∨ key ≠ cfg.withDefaults.bucketKey r
  · rw [afterLocal_of_ne _ _ _ _ _ hother] at he
    exact h.entries j key e he
  · push Not at hother
    obtain ⟨rfl, rfl⟩ := hother
    rw [afterLocal_self, Option.some.injEq] at he
    subst he
    exact entrySound_serve (L.policy_le r) (cfg.policyForRequest_positive r) (h.entries j _)

theorem Sound.step (h : Sound L s) (hstep : Step cfg.withDefaults s e s') : Sound L s' := by
  cases hstep with
  | exempt hnow => exact h.later hnow
  | answered hnow => exact (h.later hnow).afterScript _
  | @decided i r now fate hnow =>
    -- the script may have run although the call has failed
    cases cfg.withDefaults.redisClient && fate.ran with
    | true => exact ((h.later hnow).afterScript r).afterLocal i r
    | false => exact (h.later hnow).afterLocal i r
  | @sweep replica now hnow =>
    have hlater := h.later hnow
    refine ⟨fun i key e he => ?_, hlater.hashes⟩
    by_cases hi : i = replica
    · subst hi
      simp only [Function.update_self] at he
      rcases cleanup_cases cfg.withDefaults.maxAge (s.entries i) now key with hsame | ⟨hnone, -⟩
      · exact hlater.entries i key e (hsame ▸ he)
      · rw [hnone] at he
        cases he
    · simp only [Function.update_of_ne hi] at he
      exact hlater.entries i key e he
  | @expire redisKey now _ hnow =>
    have hlater := h.later hnow
    refine ⟨hlater.entries, fun key hash hh => ?_⟩
    by_cases hkey : key = redisKey
    · simp only [hkey, Function.update_self, reduceCtorEq] at hh
    · simp only [Function.update_of_ne hkey] at hh
      exact hlater.hashes key hash hh

theorem Sound.run {t : Sys} {block : List (Event ρ)} (h : Sound L s)
    (hrun : (fleet cfg).run s block = some t) : Sound L t := by
  induction block generalizing s with
  | nil =>
    obtain rfl := Option.some.inj hrun
    exact h
  | cons e block ih =>
    obtain ⟨s', hs', ht⟩ := (fleet cfg).run_cons_eq_some.mp hrun
    exact ih (h.step (Step.of_step hs')) ht

theorem sound_of_reachable (h : (fleet cfg).Reachable s) : Sound L s := by
  refine System.Reachable.invariant (P := Sound L) ?_ ?_ h
  · rintro s ⟨start, rfl⟩
    exact ⟨fun i key e he => (by cases he), fun key hash hh => (by cases hh)⟩
  · intro s e s' hs hstep
    exact hs.step (Step.of_step hstep)

/-! ## The account of a source -/

def level (L : Limits cfg) (bucketKey : String) (s : Sys) : Source → ℚ
  | .redis => hashLevel L.cap L.rate (unixMilli s.clock)
      (s.hashes (cfg.withDefaults.redisBucketKey bucketKey))
  | .memory i => entryLevel L.cap L.rate s.clock (s.entries i bucketKey)

/-- The clock of a source in seconds: Redis is told milliseconds. -/
def Sys.time (s : Sys) : Source → ℚ
  | .redis => (unixMilli s.clock : ℚ) / 1000
  | .memory _ => (s.clock : ℚ) / 1000000000

def admittedBy (cfg : Config ρ) (bucketKey : String) (source : Source) (s : Sys) (e : Event ρ) : ℚ :=
  if e.source cfg.withDefaults = some source ∧ admits cfg.withDefaults bucketKey s e then 1 else 0

theorem level_le_cap (bucketKey : String) (source : Source) :
    level L bucketKey s source ≤ L.cap := by
  cases source with
  | redis => exact hashLevel_le_cap
  | memory i => exact entryLevel_le_cap

theorem level_nonneg (h : Sound L s) (bucketKey : String) (source : Source) :
    0 ≤ level L bucketKey s source := by
  have hcap : (0 : ℚ) ≤ L.cap := by exact_mod_cast L.cap_nonneg
  cases source with
  | redis => exact hashLevel_nonneg hcap L.rate_nonneg (h.hashes _)
  | memory i => exact entryLevel_nonneg hcap L.rate_nonneg (h.entries i _)

theorem level_later (bucketKey : String) {now : Int} (hnow : s.clock ≤ now) (source : Source) :
    level L bucketKey { s with clock := now } source ≤
      level L bucketKey s source +
        (({ s with clock := now } : Sys).time source - s.time source) * L.rate := by
  cases source with
  | redis => exact hashLevel_later L.rate_nonneg (unixMilli_mono hnow)
  | memory i => exact entryLevel_later L.rate_nonneg hnow

def paid (cfg : Config ρ) (bucketKey : String) (r : ρ) (found : ℚ) : ℚ :=
  if cfg.withDefaults.bucketKey r = bucketKey then payout found else 0

theorem paid_le_payout (bucketKey : String) (r : ρ) (found : ℚ) :
    paid cfg bucketKey r found ≤ payout found := by
  unfold paid payout
  split_ifs <;> norm_num

theorem paid_nonneg (bucketKey : String) (r : ρ) (found : ℚ) : 0 ≤ paid cfg bucketKey r found := by
  unfold paid payout
  split_ifs <;> norm_num

theorem redis_pays (hs : Sound L s) (bucketKey : String) (r : ρ) :
    paid cfg bucketKey r ((cfg.withDefaults.runOf r s.clock).advanced
        (s.hashes (cfg.withDefaults.redisBucketKey (cfg.withDefaults.bucketKey r)))).tokens +
      level L bucketKey { s with hashes := s.afterScript cfg.withDefaults r s.clock } .redis ≤
    level L bucketKey s .redis := by
  simp only [level]
  by_cases hkey : cfg.withDefaults.redisBucketKey bucketKey =
      cfg.withDefaults.redisBucketKey (cfg.withDefaults.bucketKey r)
  -- a request on another bucket with the same digest pays as well
  · have hrun : (cfg.withDefaults.runOf r s.clock).rate ≤ L.rate ∧
        (cfg.withDefaults.runOf r s.clock).burst ≤ L.cap := L.policy_le r
    have hnow : (cfg.withDefaults.runOf r s.clock).nowMs = unixMilli s.clock := rfl
    rw [hkey, afterScript_self]
    exact le_trans (add_le_add (paid_le_payout bucketKey r _) le_rfl)
      (payout_add_hashLevel_le hrun hnow (hs.hashes _))
  · have hother : cfg.withDefaults.bucketKey r ≠ bucketKey := by
      rintro rfl
      exact hkey rfl
    rw [afterScript_of_ne _ _ _ _ hkey, paid, if_neg hother, zero_add]

theorem memory_pays (hs : Sound L s) (bucketKey : String) (i : ℕ) (r : ρ) :
    paid cfg bucketKey r (levelFor (cfg.withDefaults.policyForRequest r).toPolicy s.clock
        (s.entries i (cfg.withDefaults.bucketKey r))) +
      level L bucketKey { s with entries := s.afterLocal cfg.withDefaults i r s.clock }
        (.memory i) ≤
    level L bucketKey s (.memory i) := by
  simp only [level]
  by_cases hkey : cfg.withDefaults.bucketKey r = bucketKey
  · subst hkey
    rw [paid, if_pos rfl, afterLocal_self]
    exact payout_add_entryLevel_le (L.policy_le r) (hs.entries i _)
  · rw [paid, if_neg hkey, afterLocal_of_ne _ _ _ _ _ (.inr (Ne.symm hkey)), zero_add]

theorem admittedBy_le_paid {source : Source} {bucketKey : String} {found : ℚ}
    (h : e.source cfg.withDefaults = some source →
      admits cfg.withDefaults bucketKey s e = true →
        cfg.withDefaults.bucketKey r = bucketKey ∧ 1 ≤ found) :
    admittedBy cfg bucketKey source s e ≤ paid cfg bucketKey r found := by
  unfold admittedBy
  split
  · rename_i hadmitted
    obtain ⟨hkey, hfound⟩ := h hadmitted.1 hadmitted.2
    rw [paid, if_pos hkey, payout, if_pos hfound]
  · exact paid_nonneg bucketKey r found

theorem admittedBy_of_source_ne {source : Source} (bucketKey : String)
    (h : e.source cfg.withDefaults ≠ some source) : admittedBy cfg bucketKey source s e = 0 :=
  if_neg fun hadmitted => h hadmitted.1

/-- **A step pays out of the levels as they are at its time.** -/
theorem admittedBy_add_level_le_now (hs : Sound L s) (hstep : Step cfg.withDefaults s e s')
    (bucketKey : String) (source : Source) :
    admittedBy cfg bucketKey source s e + level L bucketKey s' source ≤
      level L bucketKey { s with clock := s'.clock } source := by
  cases hstep with
  | exempt hnow hexempt =>
    rw [admittedBy_of_source_ne bucketKey (by simp [Event.source, hexempt]), zero_add]
  | @answered i r now hnow hexempt hclient =>
    have hsource : (Event.request i r now .answered).source cfg.withDefaults = some .redis := by
      simp [Event.source, hexempt, hclient]
    cases source with
    | redis =>
      have hpaid : admittedBy cfg bucketKey .redis s (.request i r now .answered) ≤ _ :=
        admittedBy_le_paid fun _ => (admits_answered s i now hexempt hclient bucketKey).mp
      exact le_trans (add_le_add hpaid le_rfl) (redis_pays (hs.later hnow) bucketKey r)
    | memory j =>
      rw [admittedBy_of_source_ne bucketKey (by simp [hsource]), zero_add]
      exact le_rfl
  | @decided i r now fate hnow hexempt hhonest hlocal =>
    -- the instance decides by itself, whatever Redis has done
    have hsource : (Event.request i r now fate).source cfg.withDefaults = some (.memory i) := by
      simp only [Event.source, hexempt, Bool.false_eq_true, if_false, if_neg hlocal]
    cases source with
    | redis =>
      rw [admittedBy_of_source_ne bucketKey (by simp [hsource]), zero_add]
      cases cfg.withDefaults.redisClient && fate.ran with
      | true =>
        -- the script has run, but its answer was lost
        exact le_trans (le_add_of_nonneg_left (paid_nonneg bucketKey r _))
          (redis_pays (hs.later hnow) bucketKey r)
      | false => exact le_rfl
    | memory j =>
      by_cases hj : j = i
      · subst hj
        have hpaid : admittedBy cfg bucketKey (.memory j) s (.request j r now fate) ≤ _ :=
          admittedBy_le_paid fun _ => (admits_local s j now hexempt hhonest hlocal bucketKey).mp
        exact le_trans (add_le_add hpaid le_rfl) (memory_pays (hs.later hnow) bucketKey j r)
      · rw [admittedBy_of_source_ne bucketKey (by simpa [hsource] using Ne.symm hj), zero_add]
        simp only [level]
        rw [afterLocal_of_ne _ _ _ _ _ (.inl hj)]
  | @sweep i now hnow =>
    rw [admittedBy_of_source_ne bucketKey (by simp [Event.source]), zero_add]
    cases source with
    | redis => exact le_rfl
    | memory j =>
      simp only [level]
      by_cases hj : j = i
      · subst hj
        rw [Function.update_self]
        rcases cleanup_cases cfg.withDefaults.maxAge (s.entries j) now bucketKey with
          hsame | ⟨hnone, entry, hentry, hcutoff⟩
        · rw [hsame]
        -- an entry that is swept has been idle long enough to be full, as is the next one
        · have hfull := entryLevel_of_idle (hs.entries j bucketKey entry hentry) L.rate_nonneg
            L.idle_maxAge hcutoff
          rw [hnone, hentry, hfull]
          exact entryLevel_le_cap
      · rw [Function.update_of_ne hj]
  | @expire redisKey now hash hnow hhash hexpired =>
    rw [admittedBy_of_source_ne bucketKey (by simp [Event.source]), zero_add]
    cases source with
    | memory j => exact le_rfl
    | redis =>
      simp only [level]
      by_cases hkey : cfg.withDefaults.redisBucketKey bucketKey = redisKey
      · have hfull := hashLevel_of_idle (hs.hashes redisKey hash hhash) L.rate_nonneg L.idle hexpired
        rw [hkey, Function.update_self, hhash, hfull]
        exact hashLevel_le_cap
      · rw [Function.update_of_ne hkey]

/-- **A step pays out of the levels and of what is earned until its time.** -/
theorem admittedBy_add_level_le (hs : Sound L s) (hstep : Step cfg.withDefaults s e s')
    (bucketKey : String) (source : Source) :
    admittedBy cfg bucketKey source s e + level L bucketKey s' source ≤
      level L bucketKey s source + (s'.time source - s.time source) * L.rate := by
  have htime : ({ s with clock := s'.clock } : Sys).time source = s'.time source := by
    cases source <;> rfl
  refine le_trans (admittedBy_add_level_le_now hs hstep bucketKey source) ?_
  rw [← htime]
  exact level_later bucketKey hstep.clock_le source

/-! ## The limit -/

/-- The requests on the bucket that a run lets through, wherever they are decided. -/
def admitted (cfg : Config ρ) (bucketKey : String) (s : Sys) (block : List (Event ρ)) : ℚ :=
  (fleet cfg).total (fun s e => if admits cfg.withDefaults bucketKey s e then 1 else 0) s block

def admittedFrom (cfg : Config ρ) (bucketKey : String) (source : Source) (s : Sys)
    (block : List (Event ρ)) : ℚ :=
  (fleet cfg).total (admittedBy cfg bucketKey source) s block

theorem admittedFrom_le {t : Sys} {block : List (Event ρ)} (hs : Sound L s)
    (hrun : (fleet cfg).run s block = some t) (bucketKey : String) (source : Source) :
    admittedFrom cfg bucketKey source s block ≤
      L.cap + (t.time source - s.time source) * L.rate := by
  have haccount : admittedFrom cfg bucketKey source s block +
      (level L bucketKey t source - t.time source * L.rate) ≤
      level L bucketKey s source - s.time source * L.rate := by
    refine System.total_le_drop (Sound L)
      (fun s => level L bucketKey s source - s.time source * L.rate) ?_ ?_ hs hrun
    · intro s e s' hs hstep
      exact hs.step (Step.of_step hstep)
    · intro s e s' hs hstep
      have := admittedBy_add_level_le hs (Step.of_step hstep) bucketKey source
      linarith
  have hend := level_nonneg (hs.run hrun) bucketKey source
  have hstart := level_le_cap (L := L) (s := s) bucketKey source
  linarith

theorem source_of_admits {bucketKey : String} (h : admits cfg.withDefaults bucketKey s e = true) :
    ∃ source, e.source cfg.withDefaults = some source := by
  cases e with
  | request i r now fate =>
    cases hexempt : (cfg.withDefaults.policyForRequest r).exempt with
    | true => simp [admits, handle_exempt s i now hexempt] at h
    | false =>
      simp only [Event.source, hexempt, Bool.false_eq_true, if_false]
      split
      · exact ⟨_, rfl⟩
      · exact ⟨_, rfl⟩
  | sweep i now | expire redisKey now => cases h

theorem admits_eq_sum {F : Finset Source}
    (h : ∀ source, e.source cfg.withDefaults = some source → source ∈ F) (bucketKey : String)
    (s : Sys) :
    (if admits cfg.withDefaults bucketKey s e then 1 else 0 : ℚ) =
      ∑ source ∈ F, admittedBy cfg bucketKey source s e := by
  by_cases hadmits : admits cfg.withDefaults bucketKey s e = true
  · obtain ⟨source, hsource⟩ := source_of_admits hadmits
    rw [if_pos hadmits, Finset.sum_eq_single_of_mem source (h source hsource)]
    · rw [admittedBy, if_pos ⟨hsource, hadmits⟩]
    · intro other _ hother
      refine admittedBy_of_source_ne bucketKey ?_
      rw [hsource]
      simpa using hother.symm
  · rw [if_neg hadmits, Finset.sum_eq_zero]
    intro source _
    rw [admittedBy, if_neg fun h => hadmits h.2]

theorem time_sub_le (s t : Sys) (source : Source) :
    t.time source - s.time source ≤ secondsBetween t.clock s.clock + 1 / 1000 := by
  cases source with
  | redis =>
    have hms : (unixMilli t.clock - unixMilli s.clock) * 1000000 ≤ t.clock - s.clock + 1000000 := by
      unfold unixMilli
      omega
    have hcast : ((unixMilli t.clock : ℚ) - unixMilli s.clock) * 1000000 ≤
        t.clock - s.clock + 1000000 := by exact_mod_cast hms
    simp only [Sys.time, secondsBetween]
    push_cast
    linarith
  | memory i =>
    simp only [Sys.time, secondsBetween]
    push_cast
    linarith

/-- **The limit holds for each bucket that decides, whatever happens to Redis.** Let all policies
    have a burst of at most `cap` and a rate of at most `rate`, and let `rate` fill a bucket within
    `MaxAge`. From every state that replicas and Redis can come to, and for every run of requests,
    failed and lost calls, sweeps and expiries:

    - each source lets through at most `cap` requests on a bucket and what it earns meanwhile
    - so all of them let through at most that times the number of sources that decided a request;
      as long as Redis answers, that is one -/
theorem fleet_admission_bound (L : Limits cfg) (hs : (fleet cfg).Reachable s) {t : Sys}
    {block : List (Event ρ)} (hrun : (fleet cfg).run s block = some t) (bucketKey : String) :
    (∀ source, admittedFrom cfg bucketKey source s block ≤
      L.cap + (t.time source - s.time source) * L.rate) ∧
    ∀ F : Finset Source,
      (∀ e ∈ block, ∀ source, e.source cfg.withDefaults = some source → source ∈ F) →
      admitted cfg bucketKey s block ≤
        F.card * (L.cap + (secondsBetween t.clock s.clock + 1 / 1000) * L.rate) := by
  have hsound : Sound L s := sound_of_reachable hs
  refine ⟨admittedFrom_le hsound hrun bucketKey, fun F hF => ?_⟩
  -- each request is decided by one source
  have hsum : admitted cfg bucketKey s block =
      ∑ source ∈ F, admittedFrom cfg bucketKey source s block :=
    System.total_eq_sum (fun s e he => admits_eq_sum (hF e he) bucketKey s) hrun
  have hone : ∀ source ∈ F, admittedFrom cfg bucketKey source s block ≤
      L.cap + (secondsBetween t.clock s.clock + 1 / 1000) * L.rate := by
    intro source _
    refine le_trans (admittedFrom_le hsound hrun bucketKey source) ?_
    have := mul_le_mul_of_nonneg_right (time_sub_le s t source) L.rate_nonneg
    linarith
  calc admitted cfg bucketKey s block
      = ∑ source ∈ F, admittedFrom cfg bucketKey source s block := hsum
    _ ≤ F.card • (L.cap + (secondsBetween t.clock s.clock + 1 / 1000) * L.rate) :=
        Finset.sum_le_card_nsmul F _ _ hone
    _ = F.card * (L.cap + (secondsBetween t.clock s.clock + 1 / 1000) * L.rate) :=
        nsmul_eq_mul _ _

end System

theorem strict_policy_le (r : String) :
    (strict.withDefaults.policyForRequest r).requestsPerSecond ≤ 1 ∧
      (strict.withDefaults.policyForRequest r).burst ≤ 1 := by
  have hrate : strict.withDefaults.requestsPerSecond = 1 := by decide +kernel
  have hburst : strict.withDefaults.burst = 1 := by decide +kernel
  exact ⟨le_of_eq hrate, le_of_eq hburst⟩

theorem strict_idle : ((1 : Int) : ℚ) ≤ (strict.withDefaults.ttlMs : ℚ) / 1000 * 1 := by
  decide +kernel

def strictLimits : Limits strict where
  cap := 1
  rate := 1
  policy_le := strict_policy_le
  cap_nonneg := Int.one_nonneg
  rate_nonneg := zero_le_one
  idle := strict_idle

/-- One caller is let through three times at one instant: by Redis, and by two replicas for which
    Redis fails. -/
theorem fleet_admission_bound_of_three :
    let block : List (Event String) :=
      [.request 0 "a" 0 .answered, .request 0 "a" 0 (.failed false (.error "refused")),
        .request 1 "a" 0 (.failed true (.error "timeout"))]
    ∃ t, (fleet strict).run (initial 0) block = some t ∧
      admitted strict (localBucketKey "/v1" "a") (initial 0) block = 3 ∧
      admitted strict (localBucketKey "/v1" "a") (initial 0) block ≤
        3 * (1 + (secondsBetween t.clock 0 + 1 / 1000) * 1) := by
  intro block
  obtain ⟨t, hrun⟩ : ∃ t, (fleet strict).run (initial 0) block = some t :=
    Option.isSome_iff_exists.mp (by decide +kernel)
  refine ⟨t, hrun, by decide +kernel, ?_⟩
  let F : Finset Source := {.redis, .memory 0, .memory 1}
  have hF : ∀ e ∈ block, ∀ source, e.source strict.withDefaults = some source → source ∈ F := by
    intro e he source hsource
    simp only [block, List.mem_cons, List.not_mem_nil, or_false] at he
    rcases he with rfl | rfl | rfl
    · obtain rfl : Source.redis = source := Option.some.inj hsource
      decide
    · obtain rfl : Source.memory 0 = source := Option.some.inj hsource
      decide
    · obtain rfl : Source.memory 1 = source := Option.some.inj hsource
      decide
  exact (fleet_admission_bound strictLimits (.init ⟨0, rfl⟩) hrun (localBucketKey "/v1" "a")).2 F hF

end ServiceRuntime.RateLimit.Fleet
