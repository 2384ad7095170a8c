import ServiceRuntime.RateLimit.Redis

/-!
# The Two Rate Limiters Agree

Under one policy, and fed with instants of whole milliseconds, the in-memory bucket and the
Redis script give the same decisions. The relation that the steps keep: there is no bucket on
either side, or both have the same tokens, no more than the burst, at the same instant.

Go counts time in a `Duration` and Redis does not. So the instants have to be within the longest
one, about 292 years, and a token has to be earned in that time. Otherwise `Sub` cuts off what Redis
counts (`inMemory_differs_from_redis`), and the wait for a token does not fit.
-/

namespace ServiceRuntime.RateLimit

open GoTime Quota Transition

/-! ## Rounding -/

/-- A number of nanoseconds, rounded up to whole milliseconds. -/
def ceilMillisecond (ns : Int) : Int := ⌈(ns : ℚ) / millisecond⌉ * millisecond

/-- Rounding up to nanoseconds first, and to at least one millisecond, does not change the
    number of milliseconds. -/
theorem ceil_millisecond_of_pos {x : ℚ} (hx : 0 < x) :
    ⌈((if ⌈x * 1000000000⌉ < millisecond then millisecond else ⌈x * 1000000000⌉ : Int) : ℚ) /
      millisecond⌉ = ⌈x * 1000⌉ := by
  have hms : ((millisecond : Int) : ℚ) = 1000000 := by norm_num [millisecond]
  refine eq_of_forall_ge_iff fun z => ?_
  have hceil : ⌈x * 1000000000⌉ ≤ z * 1000000 ↔ x * 1000 ≤ z := by
    rw [Int.ceil_le]
    push_cast
    constructor
    · intro h
      linarith
    · intro h
      linarith
  rw [Int.ceil_le, Int.ceil_le, hms, div_le_iff₀ (by norm_num), ← hceil]
  norm_cast
  constructor
  · intro h
    split at h <;> omega
  · intro h
    -- a positive wait needs a positive number of milliseconds
    have hz : (0 : ℚ) < z := lt_of_lt_of_le (by positivity) (hceil.mp h)
    have hz' : 0 < z := by exact_mod_cast hz
    have hms' : millisecond = 1000000 := rfl
    split <;> omega

/-! ## The relation -/

/-- The longest `Duration`, in whole milliseconds. -/
def longestMs : Int := 9223372036854

/-- An instant in the longest `Duration` from `first` on. -/
def Within (first t : Int) : Prop := first ≤ t ∧ t ≤ first + longestMs

instance (first t : Int) : Decidable (Within first t) := inferInstanceAs (Decidable (_ ∧ _))

/-- The bucket in memory and the one in Redis have the same content under the policy. -/
inductive Matches (policy : Policy) (first : Int) : Option Entry → Option Hash → Prop where
  | absent : Matches policy first none none
  | present {e : Entry} {h : Hash} (rate : e.limiter.rate = policy.requestsPerSecond)
      (burst : e.limiter.burst = policy.burst) (tokens : e.limiter.tokens = h.tokens)
      (time : e.limiter.lastTime = ofUnixMilli h.updatedAtMs)
      (nonneg : 0 ≤ h.tokens) (le_burst : h.tokens ≤ policy.burst)
      (within : Within first h.updatedAtMs) : Matches policy first (some e) (some h)

section Step

variable {policy : Policy} {entry : Option Entry} {values : Option Hash} {first t : Int}

theorem elapsedSeconds_ofUnixMilli {u : Int} (hu : Within first u) (ht : Within first t)
    (hlater : u ≤ t) :
    elapsedSeconds (ofUnixMilli t) (ofUnixMilli u) = ((t - u : Int) : ℚ) / 1000 := by
  have hfirst := hu.1
  have hlast := ht.2
  have hns : (GoTime.sub (ofUnixMilli t) (ofUnixMilli u)).ns = (t - u) * 1000000 := by
    rw [GoTime.sub, Duration.saturate_ns]
    unfold ofUnixMilli
    unfold longestMs at hlast
    omega
  rw [elapsedSeconds, hns]
  push_cast
  ring

/-- Both sides find the same tokens, no more than the burst, and come to the same instant. -/
theorem Matches.advanced (hm : Matches policy first entry values)
    (hrate : 0 < policy.requestsPerSecond) (hburst : 1 ≤ policy.burst) (maxAge : Duration)
    (ht : Within first t) :
    let h := (runFor policy maxAge (ofUnixMilli t)).advanced values
    levelFor policy (ofUnixMilli t) entry = h.tokens ∧
      reachedFor policy (ofUnixMilli t) entry = ofUnixMilli h.updatedAtMs ∧
      0 ≤ h.tokens ∧ h.tokens ≤ policy.burst ∧ Within first h.updatedAtMs := by
  intro h
  have hcap : (0 : ℚ) ≤ policy.burst := by exact_mod_cast (by omega : 0 ≤ policy.burst)
  have hnow : (runFor policy maxAge (ofUnixMilli t)).nowMs = t := unixMilli_ofUnixMilli t
  cases hm with
  | absent =>
    have hh : h = ⟨policy.burst, t⟩ := by
      rw [← hnow]
      exact advanced_none _
    rw [levelFor_none, reachedFor_none, hh]
    exact ⟨rfl, rfl, hcap, le_refl _, ht⟩
  | @present e h₀ hsameRate hsameBurst htokens htime hnonneg hle hwithin =>
    rw [levelFor_same policy (ofUnixMilli t) hsameRate hsameBurst, reachedFor_some, htokens, htime]
    by_cases hlater : h₀.updatedAtMs < t
    -- time advances on both sides
    · have hh : h = ⟨refill (policy.burst : ℚ)
          (((t - h₀.updatedAtMs : Int) : ℚ) / 1000 * policy.requestsPerSecond) h₀.tokens, t⟩ := by
        rw [← hnow] at hlater ⊢
        exact advanced_later hlater
      have hreached : e.limiter.notBefore (ofUnixMilli t) = ofUnixMilli t := by
        refine TokenBucket.notBefore_of_le _ ?_
        rw [htime]
        unfold ofUnixMilli
        omega
      have hms : (0 : ℚ) ≤ ((t - h₀.updatedAtMs : Int) : ℚ) := by
        exact_mod_cast (by omega : 0 ≤ t - h₀.updatedAtMs)
      rw [hreached, hh, elapsedSeconds_ofUnixMilli hwithin ht hlater.le]
      exact ⟨rfl, rfl, refill_nonneg hcap (by positivity) hnonneg, refill_le_cap, ht⟩
    -- the clock stands still or steps back: memory refills with nothing, Redis does not refill
    · have hh : h = h₀ := advanced_not_later (by rw [hnow]; omega)
      have hreached : e.limiter.notBefore (ofUnixMilli t) = ofUnixMilli h₀.updatedAtMs := by
        rw [TokenBucket.notBefore, htime]
        unfold ofUnixMilli
        split <;> omega
      rw [hreached, hh, elapsedSeconds_self, zero_mul, refill_zero hle]
      exact ⟨rfl, rfl, hnonneg, hle, hwithin⟩

theorem Matches.step (hm : Matches policy first entry values)
    (hrate : 0 < policy.requestsPerSecond) (hburst : 1 ≤ policy.burst) (maxAge : Duration)
    (ht : Within first t) :
    Matches policy first (some (serve policy (ofUnixMilli t) entry).1)
      (some (redisTokenBucketScript (runFor policy maxAge (ofUnixMilli t)) values).1) := by
  obtain ⟨htokens, htime, hnonneg, hle, hwithin⟩ := hm.advanced hrate hburst maxAge ht
  rw [script_fst]
  refine .present ?_ ?_ ?_ ?_ (spend_nonneg hnonneg) (le_trans spend_le hle) hwithin
  · rw [serve_limiter]
  · rw [serve_limiter]
  · rw [serve_limiter, htokens]
  · rw [serve_limiter, htime]

/-- The answer of the in-memory bucket and that of Redis: the same decision, and on a denial
    the same wait up to rounding. -/
def Agree (inMemory distributed : Bool × Int) : Prop :=
  inMemory.1 = distributed.1 ∧
    (inMemory.1 = false → distributed.2 = ceilMillisecond inMemory.2)

/-- A token is earned in the longest `Duration`, so the wait for a part of it fits, in nanoseconds and
    in milliseconds. -/
theorem wait_fits {rate deficit : ℚ} (hrate : 0 < rate) (hslow : 1000 / rate ≤ longestMs)
    (hone : deficit ≤ 1) :
    ⌈deficit / rate * 1000000000⌉ < 2 ^ 63 ∧ ⌈deficit / rate * 1000⌉ * millisecond < 2 ^ 63 := by
  have hms : deficit / rate * 1000 ≤ longestMs :=
    calc deficit / rate * 1000 ≤ 1 / rate * 1000 := by gcongr
      _ = 1000 / rate := by ring
      _ ≤ longestMs := hslow
  have hceil : ⌈deficit / rate * 1000⌉ ≤ longestMs := Int.ceil_le.mpr hms
  have hns : ⌈deficit / rate * 1000000000⌉ ≤ longestMs * 1000000 := by
    refine Int.ceil_le.mpr ?_
    push_cast
    linarith
  unfold longestMs at hceil hns
  unfold millisecond
  omega

/-- **One request** gets answers that agree. -/
theorem Matches.agree (hm : Matches policy first entry values)
    (hrate : 0 < policy.requestsPerSecond) (hburst : 1 ≤ policy.burst)
    (hslow : 1000 / policy.requestsPerSecond ≤ longestMs) (maxAge : Duration)
    (ht : Within first t) :
    Agree (serve policy (ofUnixMilli t) entry).2
      (allowRedis (redisTokenBucketScript (runFor policy maxAge (ofUnixMilli t)) values).2) := by
  obtain ⟨htokens, -, hnonneg, -, -⟩ := hm.advanced hrate hburst maxAge ht
  by_cases hallowed : 1 ≤ levelFor policy (ofUnixMilli t) entry
  · have hlocal : (serve policy (ofUnixMilli t) entry).2.1 = true := by
      rw [serve_allowed, decide_eq_true hallowed]
    refine ⟨?_, fun h => ?_⟩
    · rw [hlocal, allowRedis, script_allowed, ← htokens, if_pos hallowed]
      rfl
    · rw [hlocal] at h
      cases h
  · have hrefused := not_le.mp hallowed
    have hlocal : (serve policy (ofUnixMilli t) entry).2.1 = false := by
      rw [serve_allowed, decide_eq_false hallowed]
    have hdeficit : 0 < (1 - levelFor policy (ofUnixMilli t) entry) / policy.requestsPerSecond :=
      div_pos (by linarith) hrate
    have hscript : (redisTokenBucketScript (runFor policy maxAge (ofUnixMilli t)) values).2 =
        (0, ⌈(1 - levelFor policy (ofUnixMilli t) entry) / policy.requestsPerSecond * 1000⌉) := by
      rw [htokens] at hrefused ⊢
      exact script_refused _ _ hrefused hrate
    have hwait : 0 < (1 - levelFor policy (ofUnixMilli t) entry) / policy.requestsPerSecond * 1000 :=
      by positivity
    -- both waits are within the range of a duration
    obtain ⟨hfits, hfitsMs⟩ := wait_fits hrate hslow
      (by linarith : 1 - levelFor policy (ofUnixMilli t) entry ≤ 1)
    rw [hscript, allowRedis_refused (Int.ceil_pos.mpr hwait) hfitsMs]
    refine ⟨hlocal, fun _ => ?_⟩
    rw [serve_retryAfter policy _ hrefused hrate hfits, ceilMillisecond,
      ceil_millisecond_of_pos hdeficit]

end Step

/-! ## Agreement -/

/-- **The in-memory limiter and Redis agree**: under one policy with a positive rate that earns a
    token in the longest `Duration`, for any instants of whole milliseconds within that time, in any
    order, starting without a bucket, every request gets the same decision, and a refused one the
    same wait, rounded up to milliseconds by Redis. -/
theorem inMemory_agrees_with_redis (policy : Policy) (key : String) (maxAge : Duration)
    (hrate : 0 < policy.requestsPerSecond) (hburst : 1 ≤ policy.burst)
    (hslow : 1000 / policy.requestsPerSecond ≤ longestMs) {times : List Int} (first : Int)
    (htimes : ∀ t ∈ times, Within first t) :
    List.Forall₂ Agree
      (limiter.trace (fun entries r => some (answer entries r)) (fun _ => none)
        (times.map fun t => ⟨policy, key, ofUnixMilli t⟩))
      (redis.trace (fun values e => (reply values e).map allowRedis) none
        (times.map fun t => .run (runFor policy maxAge (ofUnixMilli t)))) := by
  let bucketKey := localBucketKey policy.scope key
  refine System.trace_forall₂
    (fun entries values => Matches policy first (entries bucketKey) values)
    (fun entries values t ht hm => ⟨_, _, rfl, rfl, ?_, ?_⟩) .absent
  · have hself : (allowLocal entries policy key (ofUnixMilli t)).1 bucketKey =
        some (serve policy (ofUnixMilli t) (entries bucketKey)).1 :=
      allowLocal_self entries ⟨policy, key, ofUnixMilli t⟩
    dsimp only
    rw [hself]
    exact hm.step hrate hburst maxAge (htimes t ht)
  · rw [answer_eq]
    exact .cons (hm.agree hrate hburst hslow maxAge (htimes t ht)) .nil

/-- Five requests at two per second and a burst of two, with the clock stepping back once. -/
theorem inMemory_agrees_with_redis_of_five :
    let policy : Policy := ⟨2, 2, "global"⟩
    let times : List Int := [1000, 1000, 1003, 1001, 1600]
    List.Forall₂ Agree
      (limiter.trace (fun entries r => some (answer entries r)) (fun _ => none)
        (times.map fun t => ⟨policy, "caller", ofUnixMilli t⟩))
      (redis.trace (fun values e => (reply values e).map allowRedis) none
        (times.map fun t => .run (runFor policy Duration.second (ofUnixMilli t)))) :=
  inMemory_agrees_with_redis ⟨2, 2, "global"⟩ "caller" Duration.second (by decide +kernel)
    (by decide) (by decide +kernel) 0 (by decide)

/-- One token in 9300000000 seconds. The second request comes when the token has been earned: Redis
    allows it, and in memory it is refused, since `Sub` does not count the last years. -/
theorem inMemory_differs_from_redis :
    let policy : Policy := ⟨1 / 9300000000, 1, "global"⟩
    let times : List Int := [0, 9300000000000]
    (limiter.trace (fun entries r => some (answer entries r)) (fun _ => none)
        (times.map fun t => ⟨policy, "caller", ofUnixMilli t⟩)).map Prod.fst = [true, false] ∧
      (redis.trace (fun values e => (reply values e).map allowRedis) none
        (times.map fun t => .run (runFor policy Duration.second (ofUnixMilli t)))).map Prod.fst =
          [true, true] := by
  decide +kernel

end ServiceRuntime.RateLimit
