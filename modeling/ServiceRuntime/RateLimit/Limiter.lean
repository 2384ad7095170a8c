import ServiceRuntime.GoDuration
import ServiceRuntime.Quota.Level
import ServiceRuntime.Transition.Account

/-!
# The In-Memory Rate Limiter

`tokenBucket` and the part of `Limiter` that works on it: `allowLocal`, which finds, creates
or reconfigures the bucket of a key and asks it, and `cleanup`, which drops the buckets that
have not been seen for `MaxAge`.

Arithmetic is exact: tokens, rates and seconds are rationals where Go has `float64`. An instant is an
integer number of nanoseconds; the difference of two is cut off at the longest `Duration`, and a wait
is a signed 64-bit integer. A request is one step, and so is a sweep, though `allowLocal` takes the
lock of the limiter and that of the bucket one after the other.
-/

namespace ServiceRuntime.RateLimit

open GoTime Quota Transition

/-! ## The bucket -/

@[ext] structure TokenBucket where
  rate : ℚ
  burst : Int
  tokens : ℚ
  lastTime : Int
  deriving DecidableEq

def newTokenBucket (rate : ℚ) (burst : Int) (now : Int) : TokenBucket where
  rate := rate
  burst := burst
  tokens := burst
  lastTime := now

/-- `t.Sub(u).Seconds()`. -/
def elapsedSeconds (t u : Int) : ℚ := ((GoTime.sub t u).ns : ℚ) / 1000000000

/-- `time.Millisecond`, in nanoseconds. -/
def millisecond : Int := 1000000

namespace TokenBucket

variable (tb : TokenBucket)

/-- `if now.Before(tb.lastTime) { now = tb.lastTime }`. -/
def notBefore (now : Int) : Int := if now < tb.lastTime then tb.lastTime else now

/-- `tb.tokens += elapsed * tb.rate`, then cut at `tb.burst`; `now` is not before `lastTime`. -/
def refilled (now : Int) : ℚ :=
  let tokens := tb.tokens + elapsedSeconds now tb.lastTime * tb.rate
  if tokens > tb.burst then tb.burst else tokens

/-- `math.Ceil((deficit / tb.rate) * float64(time.Second))`. -/
def wait : Int := ⌈(1 - tb.tokens) / tb.rate * 1000000000⌉

/-- `AllowAt`: the bucket after it, whether the request is allowed, and the nanoseconds to
    wait if it is not. -/
def allowAt (now : Int) : TokenBucket × Bool × Int :=
  let now := tb.notBefore now
  let tokens := tb.refilled now
  if tokens ≥ 1 then ({ tb with tokens := tokens - 1, lastTime := now }, true, 0)
  else
    let tb' := { tb with tokens := tokens, lastTime := now }
    if tb.rate ≤ 0 then (tb', false, Duration.second.ns)
    else
      let retryAfter := (Duration.ofFloat tb'.wait).ns
      (tb', false, if retryAfter < millisecond then millisecond else retryAfter)

/-- `ReconfigureAt`: earn at the old rate, then change the policy and cut at the new burst. -/
def reconfigureAt (rate : ℚ) (burst : Int) (now : Int) : TokenBucket :=
  let now := tb.notBefore now
  let tokens := tb.refilled now
  { rate := rate
    burst := burst
    tokens := if tokens > burst then burst else tokens
    lastTime := now }

end TokenBucket

/-! ## The limiter -/

/-- The part of `Policy` that `allowLocal` reads. -/
structure Policy where
  requestsPerSecond : ℚ
  burst : Int
  scope : String
  deriving DecidableEq

structure Entry where
  limiter : TokenBucket
  lastSeen : Int
  deriving DecidableEq

abbrev Entries := String → Option Entry

def localBucketKey (scope key : String) : String := scope ++ "\n" ++ key

/-- The bucket that `allowLocal` asks: a new one, the one found, or that one reconfigured. -/
def bucketFor (policy : Policy) (now : Int) : Option Entry → TokenBucket
  | none => newTokenBucket policy.requestsPerSecond policy.burst now
  | some e =>
    if e.limiter.rate ≠ policy.requestsPerSecond ∨ e.limiter.burst ≠ policy.burst then
      e.limiter.reconfigureAt policy.requestsPerSecond policy.burst now
    else e.limiter

/-- `allowLocal`, seen from the entry of the bucket key. -/
def serve (policy : Policy) (now : Int) (entry : Option Entry) : Entry × Bool × Int :=
  let (tb, allowed, retryAfter) := (bucketFor policy now entry).allowAt now
  (⟨tb, now⟩, allowed, retryAfter)

def allowLocal (entries : Entries) (policy : Policy) (key : String) (now : Int) :
    Entries × Bool × Int :=
  let bucketKey := localBucketKey policy.scope key
  let (entry, allowed, retryAfter) := serve policy now (entries bucketKey)
  (Function.update entries bucketKey (some entry), allowed, retryAfter)

def cleanup (maxAge : Duration) (entries : Entries) (now : Int) : Entries := fun key =>
  let cutoff := now - maxAge.ns
  match entries key with
  | some e => if e.lastSeen < cutoff then none else some e
  | none => none

/-! ## Configuration -/

/-- The part of `Config` that decides about buckets. -/
structure Config where
  requestsPerSecond : ℚ
  burst : Int
  maxAge : Duration

/-- `Config.withDefaults`, with the values of `DefaultConfig`. -/
def Config.withDefaults (cfg : Config) : Config where
  requestsPerSecond := if cfg.requestsPerSecond ≤ 0 then 100 else cfg.requestsPerSecond
  burst := if cfg.burst ≤ 0 then 200 else cfg.burst
  maxAge := if cfg.maxAge.ns ≤ 0 then ⟨300 * Duration.second.ns, by decide, by decide⟩
    else cfg.maxAge

theorem Config.withDefaults_pos (cfg : Config) :
    0 < cfg.withDefaults.requestsPerSecond ∧ 1 ≤ cfg.withDefaults.burst ∧
      0 < cfg.withDefaults.maxAge.ns := by
  dsimp only [withDefaults]
  refine ⟨?_, ?_, ?_⟩
  · split
    · norm_num
    · linarith
  · split
    · norm_num
    · omega
  · split
    · decide
    · omega

/-! ## The system -/

/-- A request as `allowLocal` sees it. -/
structure Request where
  policy : Policy
  key : String
  now : Int
  deriving DecidableEq

namespace Request

def bucketKey (r : Request) : String := localBucketKey r.policy.scope r.key

def Positive (r : Request) : Prop := 0 < r.policy.requestsPerSecond ∧ 1 ≤ r.policy.burst

instance (r : Request) : Decidable r.Positive := inferInstanceAs (Decidable (_ ∧ _))

end Request

/-- The limiter without eviction: one `allowLocal` after another. -/
def limiter : System Entries Request where
  init entries := entries = fun _ => none
  step entries r := some (allowLocal entries r.policy r.key r.now).1

def answer (entries : Entries) (r : Request) : Bool × Int :=
  (allowLocal entries r.policy r.key r.now).2

/-! ## What the operations do, in terms of levels -/

theorem ite_gt_eq_min (a b : ℚ) : (if a > b then b else a) = min b a := by
  split
  · rename_i h
    exact (min_eq_left (le_of_lt h)).symm
  · rename_i h
    exact (min_eq_right (le_of_not_gt h)).symm

namespace TokenBucket

variable (tb : TokenBucket) (now : Int)

theorem refilled_eq :
    tb.refilled now = refill (tb.burst : ℚ) (elapsedSeconds now tb.lastTime * tb.rate) tb.tokens :=
  ite_gt_eq_min _ _

theorem lastTime_le_notBefore : tb.lastTime ≤ tb.notBefore now := by
  unfold notBefore
  split <;> omega

theorem le_notBefore : now ≤ tb.notBefore now := by
  unfold notBefore
  split <;> omega

theorem notBefore_of_le {now : Int} (h : tb.lastTime ≤ now) : tb.notBefore now = now := by
  rw [notBefore, if_neg (by omega)]

theorem allowAt_fst :
    (tb.allowAt now).1 =
      { tb with tokens := spend (tb.refilled (tb.notBefore now)), lastTime := tb.notBefore now } := by
  unfold allowAt spend
  simp only [ge_iff_le]
  split
  · rfl
  · split
    · rfl
    · rfl

theorem allowAt_allowed :
    (tb.allowAt now).2.1 = decide (1 ≤ tb.refilled (tb.notBefore now)) := by
  unfold allowAt
  simp only [ge_iff_le]
  split
  · rename_i h
    simp [h]
  · rename_i h
    split
    · simp [h]
    · simp [h]

theorem allowAt_retryAfter (hrefused : tb.refilled (tb.notBefore now) < 1) (hrate : 0 < tb.rate)
    (hfits : ⌈(1 - tb.refilled (tb.notBefore now)) / tb.rate * 1000000000⌉ < 2 ^ 63) :
    (tb.allowAt now).2.2 =
      let retryAfter := ⌈(1 - tb.refilled (tb.notBefore now)) / tb.rate * 1000000000⌉
      if retryAfter < millisecond then millisecond else retryAfter := by
  have hpos : 0 < ⌈(1 - tb.refilled (tb.notBefore now)) / tb.rate * 1000000000⌉ := by
    have hdeficit : 0 < 1 - tb.refilled (tb.notBefore now) := by linarith
    exact Int.ceil_pos.mpr (by positivity)
  unfold allowAt wait
  simp only [ge_iff_le]
  rw [if_neg (not_le.mpr hrefused), if_neg (not_le.mpr hrate),
    Duration.ofFloat_of_fits (by omega) hfits]

theorem reconfigureAt_tokens (rate : ℚ) (burst : Int) :
    (tb.reconfigureAt rate burst now).tokens = min (burst : ℚ) (tb.refilled (tb.notBefore now)) :=
  ite_gt_eq_min _ _

end TokenBucket

theorem elapsedSeconds_self (t : Int) : elapsedSeconds t t = 0 := by
  simp [elapsedSeconds, GoTime.sub, Duration.saturate_ns]

theorem elapsedSeconds_nonneg {t u : Int} (h : u ≤ t) : 0 ≤ elapsedSeconds t u := by
  unfold elapsedSeconds
  have hsub : (0 : ℚ) ≤ (GoTime.sub t u).ns := by
    rw [GoTime.sub, Duration.saturate_ns]
    exact_mod_cast (by omega : 0 ≤ max (-2 ^ 63) (min (t - u) (2 ^ 63 - 1)))
  positivity

/-! ## What a request finds -/

section Serve

variable (policy : Policy) (now : Int)

def levelFor (entry : Option Entry) : ℚ :=
  let tb := bucketFor policy now entry
  tb.refilled (tb.notBefore now)

/-- The instant the bucket of a request has reached when the request has been answered. -/
def reachedFor (entry : Option Entry) : Int := (bucketFor policy now entry).notBefore now

theorem bucketFor_policy (entry : Option Entry) :
    (bucketFor policy now entry).rate = policy.requestsPerSecond ∧
      (bucketFor policy now entry).burst = policy.burst := by
  cases entry with
  | none => exact ⟨rfl, rfl⟩
  | some e =>
    simp only [bucketFor]
    split
    · exact ⟨rfl, rfl⟩
    · rename_i h
      push Not at h
      exact h

/-- **One request**: it spends from what it finds, and the bucket has its policy afterwards. -/
theorem serve_limiter (entry : Option Entry) :
    (serve policy now entry).1.limiter =
      { rate := policy.requestsPerSecond
        burst := policy.burst
        tokens := spend (levelFor policy now entry)
        lastTime := reachedFor policy now entry } := by
  obtain ⟨hrate, hburst⟩ := bucketFor_policy policy now entry
  show ((bucketFor policy now entry).allowAt now).1 = _
  rw [TokenBucket.allowAt_fst, hrate, hburst]
  rfl

theorem serve_allowed (entry : Option Entry) :
    (serve policy now entry).2.1 = decide (1 ≤ levelFor policy now entry) :=
  TokenBucket.allowAt_allowed _ _

theorem serve_retryAfter {entry : Option Entry} (hrefused : levelFor policy now entry < 1)
    (hrate : 0 < policy.requestsPerSecond)
    (hfits : ⌈(1 - levelFor policy now entry) / policy.requestsPerSecond * 1000000000⌉ < 2 ^ 63) :
    (serve policy now entry).2.2 =
      let retryAfter := ⌈(1 - levelFor policy now entry) / policy.requestsPerSecond * 1000000000⌉
      if retryAfter < millisecond then millisecond else retryAfter := by
  have hpolicy := (bucketFor_policy policy now entry).1
  have := TokenBucket.allowAt_retryAfter (bucketFor policy now entry) now hrefused
    (by rwa [hpolicy]) (by rwa [hpolicy])
  rw [hpolicy] at this
  exact this

theorem levelFor_none : levelFor policy now none = policy.burst := by
  have hsame : (newTokenBucket policy.requestsPerSecond policy.burst now).notBefore now = now :=
    TokenBucket.notBefore_of_le _ (le_refl _)
  show TokenBucket.refilled _ (TokenBucket.notBefore _ now) = _
  rw [bucketFor, hsame, TokenBucket.refilled_eq, newTokenBucket, elapsedSeconds_self, zero_mul,
    refill_zero (le_refl _)]

theorem reachedFor_none : reachedFor policy now none = now :=
  TokenBucket.notBefore_of_le _ (le_refl _)

theorem reachedFor_some (e : Entry) : reachedFor policy now (some e) = e.limiter.notBefore now := by
  unfold reachedFor bucketFor
  simp only
  split
  -- `ReconfigureAt` has already moved the bucket to this instant
  · show (if now < e.limiter.notBefore now then e.limiter.notBefore now else now) = _
    have := e.limiter.le_notBefore now
    split <;> omega
  · rfl

theorem levelFor_same {e : Entry} (hrate : e.limiter.rate = policy.requestsPerSecond)
    (hburst : e.limiter.burst = policy.burst) :
    levelFor policy now (some e) =
      refill (policy.burst : ℚ)
        (elapsedSeconds (e.limiter.notBefore now) e.limiter.lastTime * policy.requestsPerSecond)
        e.limiter.tokens := by
  have hbucket : bucketFor policy now (some e) = e.limiter := by
    simp [bucketFor, hrate, hburst]
  unfold levelFor
  rw [hbucket, TokenBucket.refilled_eq, hrate, hburst]

/-- Under another policy the level is also cut at the new burst. -/
theorem levelFor_changed {e : Entry}
    (h : e.limiter.rate ≠ policy.requestsPerSecond ∨ e.limiter.burst ≠ policy.burst) :
    levelFor policy now (some e) =
      min (policy.burst : ℚ)
        (refill (e.limiter.burst : ℚ)
          (elapsedSeconds (e.limiter.notBefore now) e.limiter.lastTime * e.limiter.rate)
          e.limiter.tokens) := by
  have hbucket : bucketFor policy now (some e) =
      e.limiter.reconfigureAt policy.requestsPerSecond policy.burst now := by
    simp only [bucketFor]
    rw [if_pos h]
  have hreached := reachedFor_some policy now e
  unfold reachedFor at hreached
  unfold levelFor
  simp only
  rw [hreached, hbucket, TokenBucket.refilled_eq, TokenBucket.reconfigureAt_tokens,
    TokenBucket.refilled_eq]
  -- the second refill covers no time, and its cut is the one already made
  show refill (policy.burst : ℚ) (elapsedSeconds (e.limiter.notBefore now)
    (e.limiter.notBefore now) * policy.requestsPerSecond) _ = _
  rw [elapsedSeconds_self, zero_mul, refill_zero (min_le_left _ _)]

end Serve

/-! ## One request on the limiter -/

theorem answer_eq (entries : Entries) (r : Request) :
    answer entries r = (serve r.policy r.now (entries r.bucketKey)).2 := by
  unfold answer allowLocal
  rfl

theorem allowLocal_self (entries : Entries) (r : Request) :
    (allowLocal entries r.policy r.key r.now).1 r.bucketKey =
      some (serve r.policy r.now (entries r.bucketKey)).1 :=
  Function.update_self ..

theorem allowLocal_of_ne (entries : Entries) (r : Request) {key : String} (h : key ≠ r.bucketKey) :
    (allowLocal entries r.policy r.key r.now).1 key = entries key :=
  Function.update_of_ne h ..

theorem limiter_step {entries entries' : Entries} {r : Request}
    (h : limiter.step entries r = some entries') :
    entries' = (allowLocal entries r.policy r.key r.now).1 :=
  (Option.some.inj h).symm

end ServiceRuntime.RateLimit
