import ServiceRuntime.RateLimit.Redis

/-!
# Waiting as Told Is Enough

A refused caller is told how long to wait: `AllowAt` counts nanoseconds, the Redis script
milliseconds, and `Middleware` sends whole seconds. Every rounding on the way is upwards, so the
wait earns what is missing of a token, and the next request is allowed.

The wait has to fit a `Duration`. Then it is also not affected by `Sub`, which cuts off the time
between two instants at the longest one.
-/

namespace ServiceRuntime.RateLimit

open GoTime Quota

/-! ## What a wait earns -/

theorem le_earned_of_ceil_le {deficit rate scale : ℚ} {wait : Int} (hrate : 0 < rate)
    (hscale : 0 < scale) (h : ⌈deficit / rate * scale⌉ ≤ wait) :
    deficit ≤ wait / scale * rate := by
  have hwait : deficit / rate * scale ≤ wait := Int.ceil_le.mp h
  calc deficit = deficit / rate * scale / scale * rate := by field_simp
    _ ≤ wait / scale * rate := by gcongr

theorem one_le_refill {cap gain level : ℚ} (hcap : 1 ≤ cap) (h : 1 - level ≤ gain) :
    1 ≤ refill cap gain level :=
  le_min hcap (by linarith)

namespace TokenBucket

variable {tb : TokenBucket} {now : Int}

/-- A refusal leaves the tokens and tells to wait until one is complete. -/
theorem allowAt_refused {tb' : TokenBucket} {d : Int} (hrate : 0 < tb.rate)
    (hnow : tb.lastTime ≤ now) (h : tb.allowAt now = (tb', false, d)) (hfits : tb'.wait < 2 ^ 63) :
    (tb'.rate = tb.rate ∧ tb'.burst = tb.burst ∧ tb'.lastTime = now) ∧ tb'.wait ≤ d ∧ 0 < d := by
  have htb' := tb.allowAt_fst now
  have hallowed := tb.allowAt_allowed now
  rw [h, tb.notBefore_of_le hnow] at htb' hallowed
  have hrefused : tb.refilled now < 1 := not_le.mp (of_decide_eq_false hallowed.symm)
  rw [spend, if_neg (not_le.mpr hrefused)] at htb'
  dsimp only at htb'
  subst htb'
  have hd := tb.allowAt_retryAfter now
  rw [tb.notBefore_of_le hnow, h] at hd
  have hd : d = _ := hd hrefused hrate hfits
  have hms : millisecond = 1000000 := rfl
  refine ⟨⟨rfl, rfl, rfl⟩, ?_, ?_⟩
  · rw [hd, wait]
    dsimp only
    split <;> omega
  · rw [hd]
    dsimp only
    split <;> omega

/-- **A bucket allows a caller that waits as told.** -/
theorem allowed_after_wait {tb' : TokenBucket} {d later : Int} (hrate : 0 < tb.rate)
    (hburst : 1 ≤ tb.burst) (hnow : tb.lastTime ≤ now)
    (hrefused : tb.allowAt now = (tb', false, d)) (hfits : tb'.wait < 2 ^ 63)
    (hlater : now + d ≤ later) : (tb'.allowAt later).2.1 = true := by
  obtain ⟨⟨hrate', hburst', htime⟩, hwait, hpos⟩ := allowAt_refused hrate hnow hrefused hfits
  rw [← hrate'] at hrate
  rw [← hburst'] at hburst
  rw [allowAt_allowed, notBefore_of_le _ (by omega), refilled_eq, decide_eq_true_eq]
  refine one_le_refill (by exact_mod_cast hburst) ?_
  -- the wait is no longer than a `Duration`, so `Sub` does not cut it off
  have helapsed : tb'.wait ≤ (GoTime.sub later tb'.lastTime).ns := by
    rw [GoTime.sub, Duration.saturate_ns]
    omega
  exact le_earned_of_ceil_le hrate (by norm_num) helapsed

theorem newTokenBucket_allows {rate : ℚ} {burst : Int} (hburst : 1 ≤ burst) (now : Int) :
    ((newTokenBucket rate burst now).allowAt now).2.1 = true := by
  have hlevel := levelFor_none ⟨rate, burst, ""⟩ now
  rw [allowAt_allowed, decide_eq_true_eq]
  refine le_of_le_of_eq ?_ hlevel.symm
  exact_mod_cast hburst

end TokenBucket

variable {values : Option Hash} {d k now later : Int} {policy : Policy}

theorem script_wait {r : Run} {h : Hash} (hrate : 0 < r.rate)
    (hrefused : redisTokenBucketScript r values = (h, 0, k)) :
    (r.advanced values).tokens < 1 ∧ k = ⌈(1 - (r.advanced values).tokens) / r.rate * 1000⌉ ∧
      0 < k := by
  have htokens : (r.advanced values).tokens < 1 := by
    by_contra hmany
    have hone := script_allowed r values
    rw [if_pos (not_lt.mp hmany), hrefused] at hone
    cases hone
  have hreply := script_refused r values htokens hrate
  rw [hrefused] at hreply
  have hk : k = ⌈(1 - (r.advanced values).tokens) / r.rate * 1000⌉ := congrArg Prod.snd hreply
  have hdeficit : 0 < 1 - (r.advanced values).tokens := by linarith
  exact ⟨htokens, hk, hk ▸ Int.ceil_pos.mpr (by positivity)⟩

/-- **The script allows a caller that waits as told.** -/
theorem script_allowed_after_wait {r r' : Run} {h : Hash} (hrate : 0 < r.rate)
    (hburst : 1 ≤ r.burst) (hnow : ∀ h₀, values = some h₀ → h₀.updatedAtMs ≤ r.nowMs)
    (hrefused : redisTokenBucketScript r values = (h, 0, k)) (hrate' : r'.rate = r.rate)
    (hburst' : r'.burst = r.burst) (hlater : r.nowMs + k ≤ r'.nowMs) :
    (redisTokenBucketScript r' (some h)).2.1 = 1 := by
  obtain ⟨htokens, hk, hpos⟩ := script_wait hrate hrefused
  -- the stored instant is that of the refused run
  have hstored : (r.advanced values).updatedAtMs = r.nowMs := by
    cases values with
    | none => rw [advanced_none]
    | some h₀ =>
      by_cases hlater₀ : h₀.updatedAtMs < r.nowMs
      · rw [advanced_later hlater₀]
      · have hle := hnow h₀ rfl
        rw [advanced_not_later (by omega)]
        omega
  have hh : h = ⟨(r.advanced values).tokens, r.nowMs⟩ := by
    have hfst := script_fst r values
    rw [hrefused, spend, if_neg (not_le.mpr htokens), hstored] at hfst
    exact hfst
  rw [script_allowed, hh, advanced_later (by dsimp only; omega), hrate', hburst', if_pos]
  refine one_le_refill (by exact_mod_cast hburst) ?_
  exact le_earned_of_ceil_le hrate (by norm_num) (by dsimp only; omega)

theorem script_allowed_of_expired {r : Run} (hburst : 1 ≤ r.burst) :
    (redisTokenBucketScript r none).2.1 = 1 := by
  have hone : (1 : ℚ) ≤ r.burst := by exact_mod_cast hburst
  rw [script_allowed, advanced_none, if_pos hone]

/-! ## The header -/

/-- `retrySeconds` of `Middleware`, sent as `Retry-After`. -/
def retrySeconds (retryAfter : Int) : Int :=
  let seconds := ⌈(retryAfter : ℚ) / 1000000000⌉
  if seconds < 1 then 1 else seconds

theorem le_retrySeconds (retryAfter : Int) : retryAfter ≤ retrySeconds retryAfter * 1000000000 := by
  have hceil : ⌈(retryAfter : ℚ) / 1000000000⌉ ≤ retrySeconds retryAfter := by
    unfold retrySeconds
    dsimp only
    split <;> omega
  have hle := (div_le_iff₀ (by norm_num)).mp (Int.ceil_le.mp hceil)
  exact_mod_cast hle

/-- The bucket of the policy, if there is one, has seen no later time. -/
def NotLater (now : Int) (entry : Option Entry) : Prop :=
  ∀ e, entry = some e → e.limiter.lastTime ≤ now

theorem bucketFor_lastTime_le {entry : Option Entry} (h : NotLater now entry) :
    (bucketFor policy now entry).lastTime ≤ now := by
  cases entry with
  | none => exact le_refl _
  | some e =>
    have hle := h e rfl
    unfold bucketFor
    dsimp only
    split
    · show e.limiter.notBefore now ≤ now
      rw [TokenBucket.notBefore_of_le _ hle]
    · exact hle

/-- A request in memory, after the wait: the bucket is still there, or a sweep has dropped it. -/
theorem serve_after_wait (hrate : 0 < policy.requestsPerSecond) (hburst : 1 ≤ policy.burst)
    {entry entry' : Option Entry} {e : Entry} (hnow : NotLater now entry)
    (hrefused : serve policy now entry = (e, false, d)) (hfits : e.limiter.wait < 2 ^ 63)
    (hlater : now + d ≤ later) (hentry : entry' = some e ∨ entry' = none) :
    (serve policy later entry').2.1 = true := by
  rcases hentry with rfl | rfl
  · obtain ⟨hrate₀, hburst₀⟩ := bucketFor_policy policy now entry
    have hbucket : (bucketFor policy now entry).allowAt now = (e.limiter, false, d) := by
      unfold serve at hrefused
      dsimp only at hrefused
      simp only [Prod.mk.injEq] at hrefused
      obtain ⟨rfl, hallowed, hwait⟩ := hrefused
      rw [← hallowed, ← hwait]
    have hlimiter := serve_limiter policy now entry
    rw [hrefused] at hlimiter
    -- the policy is the same, so the bucket is not reconfigured
    have hfound : bucketFor policy later (some e) = e.limiter := by
      unfold bucketFor
      dsimp only
      rw [if_neg]
      push Not
      exact ⟨congrArg TokenBucket.rate hlimiter, congrArg TokenBucket.burst hlimiter⟩
    show ((bucketFor policy later (some e)).allowAt later).2.1 = true
    rw [hfound]
    exact TokenBucket.allowed_after_wait (by rwa [hrate₀]) (by rwa [hburst₀])
      (bucketFor_lastTime_le hnow) hbucket hfits hlater
  · exact TokenBucket.newTokenBucket_allows hburst later

theorem unixMilli_add_le (h : now + k * millisecond ≤ later) :
    unixMilli now + k ≤ unixMilli later := by
  unfold millisecond at h
  unfold unixMilli
  omega

/-- A request to Redis, after the wait: the key is still there, or it has expired. -/
theorem allowRedis_after_wait (hrate : 0 < policy.requestsPerSecond) (hburst : 1 ≤ policy.burst)
    (maxAge : Duration) {values' : Option Hash}
    (hnow : ∀ h, values = some h → h.updatedAtMs ≤ unixMilli now)
    (hrefused : allowRedis (redisTokenBucketScript (runFor policy maxAge now) values).2 = (false, d))
    (hfits : (redisTokenBucketScript (runFor policy maxAge now) values).2.2 * millisecond < 2 ^ 63)
    (hlater : now + d ≤ later)
    (hvalues : values' = some (redisTokenBucketScript (runFor policy maxAge now) values).1 ∨
      values' = none) :
    (allowRedis (redisTokenBucketScript (runFor policy maxAge later) values').2).1 = true := by
  have hallowed : ∀ reply : Int × Int, (allowRedis reply).1 = true ↔ reply.1 = 1 :=
    fun reply => beq_iff_eq
  rw [hallowed]
  rcases hvalues with rfl | rfl
  · rcases hscript : redisTokenBucketScript (runFor policy maxAge now) values with ⟨h, allowed, k⟩
    rw [hscript] at hrefused hfits
    obtain rfl : allowed = 0 := by
      have hreply := script_allowed (runFor policy maxAge now) values
      rw [hscript] at hreply
      have hone : ¬ allowed = 1 := by
        rw [← hallowed (allowed, k), hrefused]
        exact Bool.false_ne_true
      dsimp only at hreply
      split at hreply
      · exact absurd hreply hone
      · exact hreply
    obtain ⟨-, -, hpos⟩ := script_wait hrate hscript
    have hd : k * millisecond = d := by
      rw [allowRedis_refused hpos hfits] at hrefused
      exact congrArg Prod.snd hrefused
    -- the script has answered whole milliseconds, which the clock keeps
    have hclock : unixMilli now + k ≤ unixMilli later := unixMilli_add_le (by omega)
    have hsame : (runFor policy maxAge later).rate = (runFor policy maxAge now).rate := rfl
    exact script_allowed_after_wait hrate hburst hnow hscript hsame rfl hclock
  · exact script_allowed_of_expired hburst

/-- **Waiting as told is enough.** Under a policy with a positive rate and a burst of at least one,
    a request that is refused at a time that the bucket has not passed is allowed after the wait, if
    the wait fits a `Duration`:

    - for every bucket, after the nanoseconds that `AllowAt` answers
    - for every hash in Redis, after the milliseconds that the script answers
    - in memory and with Redis, after the seconds of the header, even if the bucket has been
      dropped meanwhile -/
theorem retryAfter_sufficient (policy : Policy) (hrate : 0 < policy.requestsPerSecond)
    (hburst : 1 ≤ policy.burst) :
    (∀ (tb tb' : TokenBucket) (now d later : Int), tb.rate = policy.requestsPerSecond →
      tb.burst = policy.burst → tb.lastTime ≤ now →
      tb.allowAt now = (tb', false, d) → tb'.wait < 2 ^ 63 → now + d ≤ later →
      (tb'.allowAt later).2.1 = true) ∧
    (∀ (r r' : Run) (values : Option Hash) (h : Hash) (k : Int),
      r.rate = policy.requestsPerSecond → r.burst = policy.burst →
      (∀ h₀, values = some h₀ → h₀.updatedAtMs ≤ r.nowMs) →
      redisTokenBucketScript r values = (h, 0, k) →
      r'.rate = r.rate → r'.burst = r.burst → r.nowMs + k ≤ r'.nowMs →
      (redisTokenBucketScript r' (some h)).2.1 = 1) ∧
    (∀ (now d later : Int) (entry entry' : Option Entry) (e : Entry), NotLater now entry →
      serve policy now entry = (e, false, d) → e.limiter.wait < 2 ^ 63 →
      now + retrySeconds d * 1000000000 ≤ later → entry' = some e ∨ entry' = none →
      (serve policy later entry').2.1 = true) ∧
    (∀ (maxAge : Duration) (now d later : Int) (values values' : Option Hash),
      (∀ h, values = some h → h.updatedAtMs ≤ unixMilli now) →
      allowRedis (redisTokenBucketScript (runFor policy maxAge now) values).2 = (false, d) →
      (redisTokenBucketScript (runFor policy maxAge now) values).2.2 * millisecond < 2 ^ 63 →
      now + retrySeconds d * 1000000000 ≤ later →
      values' = some (redisTokenBucketScript (runFor policy maxAge now) values).1 ∨
        values' = none →
      (allowRedis (redisTokenBucketScript (runFor policy maxAge later) values').2).1 = true) := by
  refine ⟨?_, ?_, ?_, ?_⟩
  · intro tb tb' now d later hr hb hnow hrefused hfits hlater
    exact TokenBucket.allowed_after_wait (by rwa [hr]) (by rwa [hb]) hnow hrefused hfits hlater
  · intro r r' values h k hr hb hnow hrefused hr' hb' hlater
    exact script_allowed_after_wait (by rwa [hr]) (by rwa [hb]) hnow hrefused hr' hb' hlater
  · intro now d later entry entry' e hnow hrefused hfits hlater hentry
    have hwait := le_retrySeconds d
    exact serve_after_wait hrate hburst hnow hrefused hfits (by omega) hentry
  · intro maxAge now d later values values' hnow hrefused hfits hlater hvalues
    have hwait := le_retrySeconds d
    exact allowRedis_after_wait hrate hburst maxAge hnow hrefused hfits (by omega) hvalues

/-- Three requests in one second. A bucket with a third of a token tells a caller to wait, and
    allows the caller a second later. -/
theorem retryAfter_sufficient_of_third :
    let policy : Policy := ⟨3, 1, "global"⟩
    let tb : TokenBucket := ⟨3, 1, 1 / 3, 0⟩
    (tb.allowAt 0).2 = (false, 222222223) ∧ retrySeconds 222222223 = 1 ∧
      (serve policy 1000000000 (some (serve policy 0 (some ⟨tb, 0⟩)).1)).2.1 = true := by
  intro policy tb
  have hrefused : serve policy 0 (some ⟨tb, 0⟩) =
      ((serve policy 0 (some ⟨tb, 0⟩)).1, false, 222222223) := by
    decide +kernel
  have hsecond : retrySeconds 222222223 = 1 := by decide +kernel
  refine ⟨by decide +kernel, hsecond, ?_⟩
  refine (retryAfter_sufficient policy (by decide +kernel) (by decide)).2.2.1 0 222222223 1000000000
    (some ⟨tb, 0⟩) _ _ ?_ hrefused (by decide +kernel) ?_ (.inl rfl)
  · rintro e ⟨⟩
    exact le_refl _
  · rw [hsecond]
    norm_num

end ServiceRuntime.RateLimit
