import ServiceRuntime.RateLimit.Redis

/-!
# The Burst of the Redis Bucket

The script cuts the tokens at the burst only when time has advanced since the last run.
`ReconfigureAt` cuts them whenever the policy changes. So a run that follows one with a wider
burst in the same millisecond, or with a clock that steps back, draws on tokens its own policy
does not grant. `Run.Within` says when that cannot happen.
-/

namespace ServiceRuntime.RateLimit

open Quota Transition

/-! ## Runs within their burst -/

namespace Run

def Positive (r : Run) : Prop := 0 < r.rate ∧ 1 ≤ r.burst

instance (r : Run) : Decidable r.Positive := inferInstanceAs (Decidable (_ ∧ _))

/-- If the run brings no new time, there are no more whole tokens than its burst. -/
def Within (r : Run) (values : Option Hash) : Prop :=
  ∀ h, values = some h → r.nowMs ≤ h.updatedAtMs → h.tokens < r.burst + 1

end Run

def TokensNonneg (values : Option Hash) : Prop := ∀ h, values = some h → 0 ≤ h.tokens

section OneRun

variable {r : Run} {values : Option Hash}

theorem advanced_nonneg (hr : r.Positive) (hvalues : TokensNonneg values) :
    0 ≤ (r.advanced values).tokens := by
  have hcap : (0 : ℚ) ≤ r.burst := by exact_mod_cast (by have := hr.2; omega : 0 ≤ r.burst)
  cases values with
  | none =>
    rw [advanced_none]
    exact hcap
  | some h =>
    have hh := hvalues h rfl
    by_cases hlater : h.updatedAtMs < r.nowMs
    · have hms : (0 : ℚ) ≤ ((r.nowMs - h.updatedAtMs : Int) : ℚ) := by
        exact_mod_cast (by omega : 0 ≤ r.nowMs - h.updatedAtMs)
      have hrate := hr.1
      rw [advanced_later hlater]
      exact refill_nonneg hcap (by positivity) hh
    · rw [advanced_not_later (by omega)]
      exact hh

theorem Run.Within.advanced_lt (h : r.Within values) : (r.advanced values).tokens < r.burst + 1 := by
  cases values with
  | none =>
    rw [advanced_none]
    exact lt_add_one _
  | some h₀ =>
    by_cases hlater : h₀.updatedAtMs < r.nowMs
    · rw [advanced_later hlater]
      exact lt_of_le_of_lt refill_le_cap (lt_add_one _)
    · have hpast : r.nowMs ≤ h₀.updatedAtMs := by omega
      rw [advanced_not_later hpast]
      exact h h₀ rfl hpast

theorem nowMs_le_advanced : r.nowMs ≤ (r.advanced values).updatedAtMs := by
  cases values with
  | none => rw [advanced_none]
  | some h =>
    by_cases hlater : h.updatedAtMs < r.nowMs
    · rw [advanced_later hlater]
    · rw [advanced_not_later (by omega)]
      omega

theorem Run.Within.stored_mem_Icc (hr : r.Positive) (hvalues : TokensNonneg values)
    (h : r.Within values) :
    0 ≤ (redisTokenBucketScript r values).1.tokens ∧
      (redisTokenBucketScript r values).1.tokens ≤ r.burst := by
  rw [script_fst]
  refine ⟨spend_nonneg (advanced_nonneg hr hvalues), ?_⟩
  have hlt := h.advanced_lt
  have hburst : (1 : ℚ) ≤ r.burst := by exact_mod_cast hr.2
  dsimp only [spend]
  split
  · linarith
  · linarith

theorem tokensNonneg_script (hr : r.Positive) (hvalues : TokensNonneg values) :
    TokensNonneg (some (redisTokenBucketScript r values).1) := by
  rintro h ⟨⟩
  rw [script_fst]
  exact spend_nonneg (advanced_nonneg hr hvalues)

end OneRun

theorem tokensNonneg_run {events : List RedisEvent} {values values' : Option Hash}
    (hvalues : TokensNonneg values) (hevents : ∀ r, .run r ∈ events → r.Positive)
    (hrun : redis.run values events = some values') : TokensNonneg values' := by
  induction events generalizing values with
  | nil => exact Option.some.inj hrun ▸ hvalues
  | cons e events ih =>
    obtain ⟨middle, hstep, hrest⟩ := redis.run_cons_eq_some.mp hrun
    refine ih ?_ (fun r hr => hevents r (List.mem_cons_of_mem e hr)) hrest
    cases e with
    | run r =>
      obtain rfl := Option.some.inj hstep
      exact tokensNonneg_script (hevents r List.mem_cons_self) hvalues
    | expire =>
      obtain rfl := Option.some.inj hstep
      rintro h ⟨⟩

/-! ## Runs at one instant -/

def admittedUnderBy (rate : ℚ) (burst : Int) (values : Option Hash) : RedisEvent → ℕ
  | .run r =>
    if (r.rate = rate ∧ r.burst = burst) ∧ (redisTokenBucketScript r values).2.1 = 1 then 1 else 0
  | .expire => 0

/-- The number of runs of the block that have the policy and are admitted. -/
def admittedUnder (rate : ℚ) (burst : Int) (values : Option Hash) (block : List Run) : ℕ :=
  redis.total (admittedUnderBy rate burst) values (block.map .run)

section OneInstant

variable (rate : ℚ) (burst : Int) {r : Run} {values : Option Hash} {block : List Run}

theorem admittedUnder_cons :
    admittedUnder rate burst values (r :: block) =
      admittedUnderBy rate burst values (.run r) +
        admittedUnder rate burst (some (redisTokenBucketScript r values).1) block := by
  rw [admittedUnder, List.map_cons, System.total_cons rfl]
  rfl

theorem admittedUnderBy_le_payout (r : Run) (values : Option Hash) :
    (admittedUnderBy rate burst values (.run r) : ℚ) ≤ payout (r.advanced values).tokens := by
  unfold payout
  rw [admittedUnderBy, script_allowed]
  by_cases hallowed : 1 ≤ (r.advanced values).tokens
  · rw [if_pos hallowed, if_pos hallowed]
    split
    · norm_num
    · norm_num
  · simp [if_neg hallowed]

theorem admittedUnder_le_tokens {h : Hash} (hnonneg : 0 ≤ h.tokens)
    (hblock : ∀ r ∈ block, r.nowMs ≤ h.updatedAtMs) :
    (admittedUnder rate burst (some h) block : ℚ) ≤ h.tokens := by
  induction block generalizing h with
  | nil => simpa [admittedUnder] using hnonneg
  | cons r block ih =>
    have hsame : r.advanced (some h) = h := advanced_not_later (hblock r List.mem_cons_self)
    have hscript : (redisTokenBucketScript r (some h)).1 = ⟨spend h.tokens, h.updatedAtMs⟩ := by
      rw [script_fst, hsame]
    have hfirst : (admittedUnderBy rate burst (some h) (.run r) : ℚ) ≤ payout h.tokens := by
      have := admittedUnderBy_le_payout rate burst r (some h)
      rwa [hsame] at this
    have hrest := ih (h := ⟨spend h.tokens, h.updatedAtMs⟩) (spend_nonneg hnonneg)
      fun r' hr' => hblock r' (List.mem_cons_of_mem r hr')
    rw [admittedUnder_cons, hscript]
    push_cast
    have := payout_add_spend h.tokens
    linarith

theorem admittedUnder_le_advanced (hr : r.Positive) (hvalues : TokensNonneg values)
    (hblock : ∀ r' ∈ block, r'.nowMs = r.nowMs) :
    (admittedUnder rate burst values (r :: block) : ℚ) ≤ (r.advanced values).tokens := by
  have hrest : (admittedUnder rate burst (some (redisTokenBucketScript r values).1) block : ℚ) ≤
      spend (r.advanced values).tokens := by
    rw [script_fst]
    refine admittedUnder_le_tokens rate burst (spend_nonneg (advanced_nonneg hr hvalues)) fun r' hr' => ?_
    rw [hblock r' hr']
    exact nowMs_le_advanced
  have hfirst := admittedUnderBy_le_payout rate burst r values
  have := payout_add_spend (r.advanced values).tokens
  rw [admittedUnder_cons]
  push_cast
  linarith

theorem admittedUnder_le_of_within (hr : r.Positive) (hvalues : TokensNonneg values)
    (hwithin : r.Within values) (hblock : ∀ r' ∈ block, r'.nowMs = r.nowMs) :
    (admittedUnder rate burst values (r :: block) : Int) ≤ r.burst := by
  have hle := admittedUnder_le_advanced rate burst hr hvalues hblock
  have hlt := lt_of_le_of_lt hle hwithin.advanced_lt
  have : (admittedUnder rate burst values (r :: block) : Int) < r.burst + 1 := by exact_mod_cast hlt
  omega

theorem admittedUnder_replicate {h : Hash} {n : ℕ} (hpast : r.nowMs ≤ h.updatedAtMs)
    (htokens : n ≤ h.tokens) :
    admittedUnder r.rate r.burst (some h) (List.replicate n r) = n := by
  induction n generalizing h with
  | zero => rfl
  | succ n ih =>
    push_cast at htokens
    have hsame : r.advanced (some h) = h := advanced_not_later hpast
    have hone : 1 ≤ h.tokens := le_trans (by linarith [Nat.cast_nonneg (α := ℚ) n]) htokens
    have hfirst : admittedUnderBy r.rate r.burst (some h) (.run r) = 1 := by
      simp [admittedUnderBy, script_allowed, hsame, hone]
    have hrest := ih (h := (redisTokenBucketScript r (some h)).1)
      (by rw [script_fst, hsame]; exact hpast)
      (by rw [script_fst, hsame]; dsimp only [spend]; rw [if_pos hone]; linarith)
    rw [List.replicate_succ, admittedUnder_cons, hfirst, hrest]
    omega

end OneInstant

/-! ## The burst is respected by runs within it, and only by those -/

/-- Runs at one instant, each within its burst: no policy admits more than its burst. -/
theorem admittedUnder_le_of_along {rate : ℚ} {burst : Int} (hburst : 1 ≤ burst) (nowMs : Int)
    {values : Option Hash} {block : List Run} (hvalues : TokensNonneg values)
    (hblock : ∀ r ∈ block, r.Positive ∧ r.nowMs = nowMs)
    (hwithin : redis.Along (fun values e _ => ∀ r, e = .run r → r.Within values) values
      (block.map .run)) :
    (admittedUnder rate burst values block : Int) ≤ burst := by
  induction block generalizing values with
  | nil =>
    simp only [admittedUnder, List.map_nil, System.total_nil, Nat.cast_zero]
    omega
  | cons r block ih =>
    obtain ⟨hr, hnow⟩ := hblock r List.mem_cons_self
    obtain ⟨hfirst, hrest⟩ := hwithin _ rfl
    by_cases hpolicy : r.rate = rate ∧ r.burst = burst
    -- the first run under the policy bounds the others
    · rw [← hpolicy.2]
      refine admittedUnder_le_of_within _ _ hr hvalues (hfirst r rfl) fun r' hr' => ?_
      rw [(hblock r' (List.mem_cons_of_mem r hr')).2, hnow]
    · have hskip : admittedUnderBy rate burst values (.run r) = 0 := by
        simp [admittedUnderBy, hpolicy]
      rw [admittedUnder_cons, hskip, Nat.zero_add]
      exact ih (tokensNonneg_script hr hvalues) (fun r' hr' => hblock r' (List.mem_cons_of_mem r hr')) hrest

/-- **The Redis bucket respects the burst of a run exactly when the run is within it.** After
    any runs of the script on the key, with positive policies, any clock and any expiry:

    - the next run stores between zero and burst tokens, and no number of repetitions of it at
      that instant admits more than its burst, if and only if it is within its burst
    - at one instant no policy admits more than its burst, if all runs are within theirs -/
theorem redis_burst_iff_within (before : List RedisEvent)
    (hbefore : ∀ r, .run r ∈ before → r.Positive) {values : Option Hash}
    (hrun : redis.run none before = some values) :
    (∀ r : Run, r.Positive →
      (((0 ≤ (redisTokenBucketScript r values).1.tokens ∧
          (redisTokenBucketScript r values).1.tokens ≤ r.burst) ∧
        ∀ n, (admittedUnder r.rate r.burst values (List.replicate n r) : Int) ≤ r.burst) ↔
      r.Within values)) ∧
    (∀ (rate : ℚ) (burst nowMs : Int) (block : List Run), 1 ≤ burst →
      (∀ r ∈ block, r.Positive ∧ r.nowMs = nowMs) →
      redis.Along (fun values e _ => ∀ r, e = .run r → r.Within values) values
        (block.map .run) →
      (admittedUnder rate burst values block : Int) ≤ burst) := by
  have hvalues : TokensNonneg values := tokensNonneg_run (fun h hh => by cases hh) hbefore hrun
  refine ⟨fun r hr => ⟨?_, fun hwithin => ⟨hwithin.stored_mem_Icc hr hvalues, ?_⟩⟩, ?_⟩
  -- too many tokens: one repetition more than the burst is admitted
  · rintro ⟨-, hadmitted⟩ h rfl hpast
    by_contra hmany
    have hburst := hr.2
    obtain ⟨n, hn⟩ : ∃ n : ℕ, (n : Int) = r.burst + 1 :=
      ⟨(r.burst + 1).toNat, Int.toNat_of_nonneg (by omega)⟩
    have htokens : (n : ℚ) ≤ h.tokens := by
      have hcast : (n : ℚ) = r.burst + 1 := by exact_mod_cast hn
      rw [hcast]
      exact not_lt.mp hmany
    have hall := hadmitted n
    rw [admittedUnder_replicate hpast htokens] at hall
    omega
  · intro n
    cases n with
    | zero =>
      have hburst := hr.2
      simp only [admittedUnder, List.replicate_zero, List.map_nil, System.total_nil,
        Nat.cast_zero]
      omega
    | succ n =>
      rw [List.replicate_succ]
      refine admittedUnder_le_of_within _ _ hr hvalues hwithin fun r' hr' => ?_
      rw [List.eq_of_mem_replicate hr']
  · intro rate burst nowMs block hburst hblock hwithin
    exact admittedUnder_le_of_along hburst nowMs hvalues hblock hwithin

/-- A narrow policy in the same millisecond as a wide one is within its burst when a single token
    is left. -/
theorem redis_burst_iff_within_of_wide :
    let wide : Run := ⟨0, 1, 2, 300000⟩
    let narrow : Run := ⟨0, 1, 1, 300000⟩
    ∃ values, redis.run none [.run wide] = some values ∧ narrow.Within values ∧
      ∀ n, (admittedUnder 1 1 values (List.replicate n narrow) : Int) ≤ 1 := by
  intro wide narrow
  obtain ⟨values, hrun⟩ : ∃ values, redis.run none [.run wide] = some values :=
    Option.isSome_iff_exists.mp rfl
  have hpos : ∀ r, RedisEvent.run r ∈ [RedisEvent.run wide] → r.Positive := by
    intro r hr
    obtain rfl : r = wide := by simpa using hr
    decide +kernel
  have hwithin : narrow.Within values := by
    obtain rfl := Option.some.inj hrun
    rintro h ⟨⟩ -
    decide +kernel
  exact ⟨values, hrun, hwithin,
    (((redis_burst_iff_within _ hpos hrun).1 narrow (by decide +kernel)).mpr hwithin).2⟩

/-- After one request under a burst of ten, the same millisecond grants two requests under a
    burst of one, and more tokens than its burst are stored. -/
theorem redis_burst_exceeded :
    let wide : Run := ⟨0, 1, 10, 300000⟩
    let narrow : Run := ⟨0, 1, 1, 300000⟩
    ∃ values, redis.run none [.run wide] = some values ∧
      (narrow.burst : ℚ) < (redisTokenBucketScript narrow values).1.tokens ∧
      admittedUnder narrow.rate narrow.burst values [narrow, narrow] = 2 := by
  intro wide narrow
  refine ⟨_, rfl, ?_, ?_⟩
  · decide +kernel
  · decide +kernel

end ServiceRuntime.RateLimit
