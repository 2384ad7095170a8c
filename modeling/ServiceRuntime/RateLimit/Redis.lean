import ServiceRuntime.RateLimit.Limiter

/-!
# The Redis Token Bucket

`redisTokenBucketScript`, the Lua script that keeps a bucket in a Redis hash, and what
`allowRedis` makes of its reply. Numbers are exact, as for the in-memory bucket. The bucket
may expire between two runs.
-/

namespace ServiceRuntime.RateLimit

open GoTime Quota Transition

/-! ## The script -/

@[ext] structure Hash where
  tokens : ℚ
  updatedAtMs : Int
  deriving DecidableEq

structure Run where
  nowMs : Int
  rate : ℚ
  burst : Int
  ttlMs : Int
  deriving DecidableEq

/-- `tokens` and `updated_at_ms` as the script has them before it decides: read or set to a
    full bucket, then advanced to `now_ms` if that is later. -/
def Run.advanced (r : Run) (values : Option Hash) : Hash :=
  let read := match values with
    | none => ⟨r.burst, r.nowMs⟩
    | some h => h
  if r.nowMs > read.updatedAtMs then
    let elapsedSeconds := ((r.nowMs - read.updatedAtMs : Int) : ℚ) / 1000
    ⟨min (r.burst : ℚ) (read.tokens + elapsedSeconds * r.rate), r.nowMs⟩
  else read

/-- `redisTokenBucketScript`: the hash it writes, and its reply `{allowed, retry_after_ms}`. -/
def redisTokenBucketScript (r : Run) (values : Option Hash) : Hash × Int × Int :=
  let h := r.advanced values
  if h.tokens ≥ 1 then ({ h with tokens := h.tokens - 1 }, 1, 0)
  else if r.rate > 0 then (h, 0, ⌈(1 - h.tokens) / r.rate * 1000⌉)
  else (h, 0, r.ttlMs)

/-- The run that `allowRedis` asks for; `entryTTL` is `MaxAge`. -/
def runFor (policy : Policy) (maxAge : Duration) (now : Int) : Run where
  nowMs := unixMilli now
  rate := policy.requestsPerSecond
  burst := policy.burst
  ttlMs := maxAge.ns.tdiv millisecond

/-- `allowRedis`, from the reply of the script: allowed or not, and the nanoseconds to wait. -/
def allowRedis (reply : Int × Int) : Bool × Int :=
  let retryAfter := (Duration.wrap (reply.2 * millisecond)).ns
  (reply.1 == 1, if retryAfter ≤ 0 then millisecond else retryAfter)

theorem allowRedis_refused {retryAfterMs : Int} (h : 0 < retryAfterMs)
    (hfits : retryAfterMs * millisecond < 2 ^ 63) :
    allowRedis (0, retryAfterMs) = (false, retryAfterMs * millisecond) := by
  have hpos : 0 < retryAfterMs * millisecond := by
    unfold millisecond
    omega
  simp only [allowRedis, Duration.wrap_of_fits (by omega) hfits, if_neg (not_le.mpr hpos)]
  rfl

/-! ## The system -/

inductive RedisEvent where
  | run (r : Run)
  | expire
  deriving DecidableEq

/-- One key in Redis: runs of the script and expiry. -/
def redis : System (Option Hash) RedisEvent where
  init values := values = none
  step values
    | .run r => some (some (redisTokenBucketScript r values).1)
    | .expire => some none

/-- The reply to a run; an expiry has none. -/
def reply (values : Option Hash) : RedisEvent → Option (Int × Int)
  | .run r => some (redisTokenBucketScript r values).2
  | .expire => none

/-! ## What a run does, in terms of levels -/

section Script

variable (r : Run) (values : Option Hash)

theorem script_fst :
    (redisTokenBucketScript r values).1 =
      ⟨spend (r.advanced values).tokens, (r.advanced values).updatedAtMs⟩ := by
  unfold redisTokenBucketScript spend
  simp only [ge_iff_le]
  split
  · rfl
  · split
    · rfl
    · rfl

theorem script_allowed :
    (redisTokenBucketScript r values).2.1 = if 1 ≤ (r.advanced values).tokens then 1 else 0 := by
  unfold redisTokenBucketScript
  simp only [ge_iff_le]
  split
  · rfl
  · split
    · rfl
    · rfl

theorem script_refused (hrefused : (r.advanced values).tokens < 1) (hrate : 0 < r.rate) :
    (redisTokenBucketScript r values).2 =
      (0, ⌈(1 - (r.advanced values).tokens) / r.rate * 1000⌉) := by
  unfold redisTokenBucketScript
  simp only [ge_iff_le]
  rw [if_neg (not_le.mpr hrefused), if_pos hrate]

theorem advanced_none : r.advanced none = ⟨r.burst, r.nowMs⟩ := by
  simp [Run.advanced]

variable {r} {h : Hash}

theorem advanced_later (hlater : h.updatedAtMs < r.nowMs) :
    r.advanced (some h) =
      ⟨refill (r.burst : ℚ) (((r.nowMs - h.updatedAtMs : Int) : ℚ) / 1000 * r.rate) h.tokens,
        r.nowMs⟩ := by
  simp [Run.advanced, hlater, refill]

theorem advanced_not_later (hpast : r.nowMs ≤ h.updatedAtMs) : r.advanced (some h) = h := by
  simp [Run.advanced, hpast]

end Script

end ServiceRuntime.RateLimit
