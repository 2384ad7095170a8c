import ServiceRuntime.GoDuration
import ServiceRuntime.GoStrings
import ServiceRuntime.RateLimit.RetryAfter

/-!
# Replicas of a Service That Share a Redis

`Middleware` on any number of replicas. A request is put to Redis first. When that fails, the
replica asks the bucket it keeps in memory (`allowWithRetry`). A call that failed may have run the
script all the same: the reply can be lost on its way.

The system has one clock, which does not step back. A bucket in memory is dropped by `cleanup`, a
hash in Redis by its expiry.
-/

namespace ServiceRuntime.RateLimit.Fleet

open GoStrings GoTime Transition

/-! ## Replies of Redis -/

/-- A value in a reply, by its dynamic type; a `float64` is given by its integer part. -/
inductive Any where
  | int64 (n : Int)
  | float64 (n : Int)
  | string (s : String)
  | bytes (s : String)
  | other (typeName : String)
  deriving DecidableEq

/-- The type of a value, as `%T` prints it. -/
def Any.typeName : Any → String
  | .int64 _ => "int64"
  | .float64 _ => "float64"
  | .string _ => "string"
  | .bytes _ => "[]uint8"
  | .other typeName => typeName

/-- `int64FromAny`; `ParseInt` in base ten accepts what `Atoi` accepts. -/
def int64FromAny : Any → Option Int
  | .int64 typed => some typed
  | .float64 typed => some typed
  | .string typed => atoi typed
  | .bytes typed => atoi typed
  | .other _ => none

/-- The result of a script. -/
inductive Result where
  | slice (values : List Any)
  | other (typeName : String)
  deriving DecidableEq

def Result.typeName : Result → String
  | .slice _ => "[]interface \x7b\x7d"
  | .other typeName => typeName

/-- `allowRedis` after the call. -/
def readResult : Except String Result → Except String (Bool × Int)
  | .error err => .error ("redis_ratelimit: " ++ err)
  | .ok (.slice [first, second]) =>
    match int64FromAny first with
    | none => .error ("redis_ratelimit: unexpected_allowed " ++ first.typeName)
    | some allowed =>
      match int64FromAny second with
      | none => .error ("redis_ratelimit: unexpected_retry_after " ++ second.typeName)
      | some retryAfterMS => .ok (allowRedis (allowed, retryAfterMS))
  | .ok result => .error ("redis_ratelimit: unexpected_result " ++ result.typeName)

/-- The reply of the script, as the client of Redis hands it on. -/
def scriptResult (reply : Int × Int) : Except String Result :=
  .ok (.slice [.int64 reply.1, .int64 reply.2])

@[simp] theorem readResult_scriptResult (reply : Int × Int) :
    readResult (scriptResult reply) = .ok (allowRedis reply) := rfl

/-! ## Policies -/

/-- `Policy`, with its field `Exempt`. -/
structure RequestPolicy extends Policy where
  exempt : Bool

/-- `Config`, without the callbacks. `urlPath` stands for `r.URL.Path`, and `keyPrefix` for what
    `redisBucketKey` makes of `ServiceName`. -/
structure Config (ρ : Type) extends RateLimit.Config where
  urlPath : ρ → String
  exemptPaths : Option (String → Bool)
  keyFunc : ρ → String
  scopeFunc : ρ → String
  policyFunc : Option (ρ → RequestPolicy)
  redisClient : Bool
  keyPrefix : String
  /-- `sha256`, in hexadecimal. -/
  digest : String → String

variable {ρ : Type}

/-- The exempt paths of `DefaultConfig`. -/
def defaultExemptPaths (path : String) : Bool :=
  path == "/healthz" || path == "/readyz" || path == "/metrics"

def Config.withDefaults (cfg : Config ρ) : Config ρ :=
  { cfg with
    toConfig := cfg.toConfig.withDefaults
    exemptPaths := some (cfg.exemptPaths.getD defaultExemptPaths) }

/-- The policy before `PolicyFunc` is asked. -/
def Config.policy (cfg : Config ρ) (r : ρ) : RequestPolicy :=
  let scope := trimSpace (cfg.scopeFunc r)
  { requestsPerSecond := cfg.requestsPerSecond
    burst := cfg.burst
    scope := if scope = "" then cfg.urlPath r else scope
    exempt := (cfg.exemptPaths.getD fun _ => false) (cfg.urlPath r) }

/-- What `PolicyFunc` says over the policy of the configuration. -/
def RequestPolicy.override (policy override : RequestPolicy) : RequestPolicy :=
  let trimmed := trimSpace override.scope
  { requestsPerSecond :=
      if override.requestsPerSecond > 0 then override.requestsPerSecond
      else policy.requestsPerSecond
    burst := if override.burst > 0 then override.burst else policy.burst
    scope := if trimmed ≠ "" then trimmed else policy.scope
    exempt := override.exempt || policy.exempt }

def Config.policyForRequest (cfg : Config ρ) (r : ρ) : RequestPolicy :=
  let policy := match cfg.policyFunc with
    | none => cfg.policy r
    | some policyFunc => (cfg.policy r).override (policyFunc r)
  { policy with scope := if policy.scope = "" then "unknown" else policy.scope }

/-- The identity of the caller in `Middleware`. -/
def Config.callerKey (cfg : Config ρ) (r : ρ) : String :=
  let key := trimSpace (cfg.keyFunc r)
  if key = "" then "anonymous" else key

def Config.bucketKey (cfg : Config ρ) (r : ρ) : String :=
  localBucketKey (cfg.policyForRequest r).scope (cfg.callerKey r)

/-- `redisBucketKey`, from the text `scope + "\n" + key`. -/
def Config.redisBucketKey (cfg : Config ρ) (bucketKey : String) : String :=
  "ratelimit:" ++ cfg.keyPrefix ++ ":" ++ cfg.digest bucketKey

theorem Config.policyForRequest_positive (cfg : Config ρ) (r : ρ) :
    0 < (cfg.withDefaults.policyForRequest r).requestsPerSecond ∧
      1 ≤ (cfg.withDefaults.policyForRequest r).burst := by
  obtain ⟨hrate, hburst, -⟩ := cfg.toConfig.withDefaults_pos
  unfold policyForRequest
  cases cfg.withDefaults.policyFunc with
  | none => exact ⟨hrate, hburst⟩
  | some policyFunc =>
    dsimp only [RequestPolicy.override]
    refine ⟨?_, ?_⟩
    · split
      · assumption
      · exact hrate
    · split
      · assumption
      · exact hburst

/-! ## One request -/

/-- The buckets of all replicas, the hashes in Redis, and the time. -/
structure Sys where
  clock : Int
  hashes : String → Option Hash
  entries : ℕ → Entries

/-- What becomes of a call to Redis. -/
inductive Fate where
  | answered
  /-- The caller gets something that `allowRedis` cannot read; the script may have run. -/
  | failed (ran : Bool) (result : Except String Result)
  deriving DecidableEq

/-- What the caller gets is the reply of the script or nothing it can read. -/
def Fate.honest : Fate → Bool
  | .answered => true
  | .failed _ result => (readResult result).toOption.isNone

def Fate.ran : Fate → Bool
  | .answered => true
  | .failed ran _ => ran

/-- The call in `allowRedis`: the hashes after it, and what the caller gets. -/
def Sys.callRedis (s : Sys) (redisKey : String) (run : Run) :
    Fate → (String → Option Hash) × Except String Result
  | .answered =>
    let (hash, reply) := redisTokenBucketScript run (s.hashes redisKey)
    (Function.update s.hashes redisKey (some hash), scriptResult reply)
  | .failed ran result =>
    let (hash, _) := redisTokenBucketScript run (s.hashes redisKey)
    (if ran then Function.update s.hashes redisKey (some hash) else s.hashes, result)

def Sys.allowLocal (s : Sys) (replica : ℕ) (policy : Policy) (key : String) (now : Int) :
    Sys × Bool × Int :=
  let (entries, allowed, retryAfter) := RateLimit.allowLocal (s.entries replica) policy key now
  ({ s with entries := Function.update s.entries replica entries }, allowed, retryAfter)

/-- `allowWithRetry`: allowed or not, the wait, and the error of Redis. -/
def allowWithRetry (cfg : Config ρ) (s : Sys) (replica : ℕ) (policy : Policy) (key : String)
    (now : Int) (fate : Fate) : Sys × Bool × Int × Option String :=
  if cfg.redisClient then
    let redisKey := cfg.redisBucketKey (localBucketKey policy.scope key)
    let (hashes, result) := s.callRedis redisKey (runFor policy cfg.maxAge now) fate
    let s := { s with hashes := hashes }
    match readResult result with
    | .ok (allowed, retryAfter) => (s, allowed, retryAfter, none)
    | .error err =>
      let (s, allowed, retryAfter) := s.allowLocal replica policy key now
      (s, allowed, retryAfter, some err)
  else
    let (s, allowed, retryAfter) := s.allowLocal replica policy key now
    (s, allowed, retryAfter, none)

/-- What `Middleware` did with a request; also the label `action` of its metric. -/
inductive Action where
  /-- `next` was called without asking a bucket. -/
  | exempt
  /-- 429, with `Retry-After`. -/
  | limited (retrySeconds : Int)
  | allowed
  deriving DecidableEq

/-- `Middleware`: the action, and the error that `OnError` is told. -/
def handle (cfg : Config ρ) (s : Sys) (replica : ℕ) (r : ρ) (now : Int) (fate : Fate) :
    Sys × Action × Option String :=
  let policy := cfg.policyForRequest r
  if policy.exempt then (s, .exempt, none)
  else
    let (s, allowed, retryAfter, err) :=
      allowWithRetry cfg s replica policy.toPolicy (cfg.callerKey r) now fate
    (s, if allowed then .allowed else .limited (retrySeconds retryAfter), err)

/-! ## The system -/

inductive Event (ρ : Type) where
  | request (replica : ℕ) (r : ρ) (now : Int) (fate : Fate)
  /-- A round of `cleanup` at a replica. -/
  | sweep (replica : ℕ) (now : Int)
  | expire (redisKey : String) (now : Int)

/-- The time to live of a hash, in milliseconds. -/
def Config.ttlMs (cfg : Config ρ) : Int := cfg.maxAge.ns.tdiv millisecond

def step (cfg : Config ρ) (s : Sys) : Event ρ → Option Sys
  | .request replica r now fate =>
    if s.clock ≤ now ∧ fate.honest then
      some { (handle cfg s replica r now fate).1 with clock := now }
    else none
  | .sweep replica now =>
    if s.clock ≤ now then
      some { s with
        clock := now
        entries := Function.update s.entries replica
          (cleanup cfg.maxAge (s.entries replica) now) }
    else none
  | .expire redisKey now =>
    match s.hashes redisKey with
    | none => none
    | some h =>
      -- the clock does not step back, so `updated_at_ms` is the time of the last `PEXPIRE`
      if s.clock ≤ now ∧ h.updatedAtMs + cfg.ttlMs ≤ unixMilli now then
        some { s with clock := now, hashes := Function.update s.hashes redisKey none }
      else none

/-- Replicas that have just started, at `start`. -/
def initial (start : Int) : Sys := ⟨start, fun _ => none, fun _ _ => none⟩

/-- The replicas of a service, each with `New(cfg)`. -/
def fleet (cfg : Config ρ) : System Sys (Event ρ) where
  init s := ∃ start, s = initial start
  step := step cfg.withDefaults

/-! ## What a request does -/

/-- The bucket that decides about a request: that in Redis, or that of a replica. -/
inductive Source where
  | redis
  | memory (replica : ℕ)
  deriving DecidableEq

/-- Where a request is decided; an exempt one nowhere. -/
def Event.source (cfg : Config ρ) : Event ρ → Option Source
  | .request replica r _ fate =>
    if (cfg.policyForRequest r).exempt then none
    else if cfg.redisClient ∧ fate = .answered then some .redis
    else some (.memory replica)
  | .sweep _ _ => none
  | .expire _ _ => none

/-- A request on the bucket that the event lets through; exempt ones are not counted. -/
def admits (cfg : Config ρ) (bucketKey : String) (s : Sys) : Event ρ → Bool
  | .request replica r now fate =>
    cfg.bucketKey r == bucketKey && (handle cfg s replica r now fate).2.1 == .allowed
  | .sweep _ _ => false
  | .expire _ _ => false

/-- A request as `allowLocal` sees it. -/
def Config.requestOf (cfg : Config ρ) (r : ρ) (now : Int) : Request :=
  ⟨(cfg.policyForRequest r).toPolicy, cfg.callerKey r, now⟩

theorem requestOf_bucketKey (cfg : Config ρ) (r : ρ) (now : Int) :
    (cfg.requestOf r now).bucketKey = cfg.bucketKey r := by
  simp only [Request.bucketKey, Config.requestOf, Config.bucketKey]

def Config.runOf (cfg : Config ρ) (r : ρ) (now : Int) : Run :=
  runFor (cfg.policyForRequest r).toPolicy cfg.maxAge now

section Handle

variable (cfg : Config ρ) (s : Sys) (replica : ℕ) (r : ρ) (now : Int)

def Sys.afterScript : String → Option Hash :=
  let redisKey := cfg.redisBucketKey (cfg.bucketKey r)
  Function.update s.hashes redisKey
    (some (redisTokenBucketScript (cfg.runOf r now) (s.hashes redisKey)).1)

/-- The buckets of the replicas after a request was put to one of them. -/
def Sys.afterLocal : ℕ → Entries :=
  Function.update s.entries replica
    (RateLimit.allowLocal (s.entries replica) (cfg.policyForRequest r).toPolicy (cfg.callerKey r)
      now).1

theorem afterScript_self :
    s.afterScript cfg r now (cfg.redisBucketKey (cfg.bucketKey r)) =
      some (redisTokenBucketScript (cfg.runOf r now)
        (s.hashes (cfg.redisBucketKey (cfg.bucketKey r)))).1 := Function.update_self ..

theorem afterScript_of_ne {redisKey : String}
    (h : redisKey ≠ cfg.redisBucketKey (cfg.bucketKey r)) :
    s.afterScript cfg r now redisKey = s.hashes redisKey := Function.update_of_ne h ..

theorem afterLocal_self :
    s.afterLocal cfg replica r now replica (cfg.bucketKey r) =
      some (serve (cfg.policyForRequest r).toPolicy now
        (s.entries replica (cfg.bucketKey r))).1 := by
  have hself := allowLocal_self (s.entries replica) (cfg.requestOf r now)
  rw [requestOf_bucketKey] at hself
  simp only [Config.requestOf] at hself
  rw [Sys.afterLocal, Function.update_self, hself]

theorem afterLocal_of_ne {i : ℕ} {key : String} (h : i ≠ replica ∨ key ≠ cfg.bucketKey r) :
    s.afterLocal cfg replica r now i key = s.entries i key := by
  by_cases hi : i = replica
  · subst hi
    have hkey := h.resolve_left fun hne => hne rfl
    rw [← requestOf_bucketKey cfg r now] at hkey
    have hsame := allowLocal_of_ne (s.entries i) (cfg.requestOf r now) hkey
    simp only [Config.requestOf] at hsame
    rw [Sys.afterLocal, Function.update_self, hsame]
  · rw [Sys.afterLocal, Function.update_of_ne hi]

variable {cfg r} {fate : Fate}

theorem handle_exempt (h : (cfg.policyForRequest r).exempt = true) :
    handle cfg s replica r now fate = (s, .exempt, none) := by
  rw [handle, if_pos h]

theorem handle_answered (hexempt : (cfg.policyForRequest r).exempt = false)
    (hclient : cfg.redisClient = true) :
    (handle cfg s replica r now .answered).1 = { s with hashes := s.afterScript cfg r now } ∧
      ((handle cfg s replica r now .answered).2.1 = .allowed ↔
        (redisTokenBucketScript (cfg.runOf r now)
          (s.hashes (cfg.redisBucketKey (cfg.bucketKey r)))).2.1 = 1) := by
  rw [handle, if_neg (by simp [hexempt])]
  simp only [allowWithRetry, hclient, if_true, Sys.callRedis, readResult_scriptResult]
  refine ⟨rfl, ?_⟩
  change (if (redisTokenBucketScript (cfg.runOf r now)
    (s.hashes (cfg.redisBucketKey (cfg.bucketKey r)))).2.1 == 1 then _ else _) = _ ↔ _
  simp

/-- A request that a replica decides, after Redis has failed or because there is none. -/
theorem handle_local (hexempt : (cfg.policyForRequest r).exempt = false)
    (hhonest : fate.honest = true) (hlocal : ¬ (cfg.redisClient = true ∧ fate = .answered)) :
    (handle cfg s replica r now fate).1 =
        { s with
          hashes := if cfg.redisClient && fate.ran then s.afterScript cfg r now else s.hashes
          entries := s.afterLocal cfg replica r now } ∧
      ((handle cfg s replica r now fate).2.1 = .allowed ↔
        (serve (cfg.policyForRequest r).toPolicy now (s.entries replica (cfg.bucketKey r))).2.1 =
          true) := by
  rw [handle, if_neg (by simp [hexempt])]
  by_cases hclient : cfg.redisClient = true
  · obtain ⟨ran, result, rfl⟩ : ∃ ran result, fate = .failed ran result := by
      cases fate with
      | answered => exact absurd ⟨hclient, rfl⟩ hlocal
      | failed ran result => exact ⟨ran, result, rfl⟩
    -- a call that has failed returns no answer that can be read
    obtain ⟨err, herr⟩ : ∃ err, readResult result = .error err := by
      cases hread : readResult result with
      | error err => exact ⟨err, rfl⟩
      | ok answer => simp [Fate.honest, hread, Except.toOption] at hhonest
    simp only [allowWithRetry, hclient, if_true, Sys.callRedis, herr, Sys.allowLocal]
    refine ⟨rfl, ?_⟩
    simp only [ite_eq_left_iff, reduceCtorEq, imp_false, Bool.not_eq_true, Bool.not_eq_false]
    rfl
  · simp only [allowWithRetry, hclient, Sys.allowLocal]
    refine ⟨rfl, ?_⟩
    simp only [Bool.false_eq_true, if_false, ite_eq_left_iff, reduceCtorEq, imp_false,
      Bool.not_eq_true, Bool.not_eq_false]
    rfl

theorem admits_answered (hexempt : (cfg.policyForRequest r).exempt = false)
    (hclient : cfg.redisClient = true) (bucketKey : String) :
    admits cfg bucketKey s (.request replica r now .answered) = true ↔
      cfg.bucketKey r = bucketKey ∧
        1 ≤ ((cfg.runOf r now).advanced
          (s.hashes (cfg.redisBucketKey (cfg.bucketKey r)))).tokens := by
  rw [admits, Bool.and_eq_true, beq_iff_eq, beq_iff_eq,
    (handle_answered s replica now hexempt hclient).2, script_allowed]
  simp

theorem admits_local (hexempt : (cfg.policyForRequest r).exempt = false)
    (hhonest : fate.honest = true) (hlocal : ¬ (cfg.redisClient = true ∧ fate = .answered))
    (bucketKey : String) :
    admits cfg bucketKey s (.request replica r now fate) = true ↔
      cfg.bucketKey r = bucketKey ∧
        1 ≤ levelFor (cfg.policyForRequest r).toPolicy now
          (s.entries replica (cfg.bucketKey r)) := by
  rw [admits, Bool.and_eq_true, beq_iff_eq, beq_iff_eq,
    (handle_local s replica now hexempt hhonest hlocal).2, serve_allowed, decide_eq_true_iff]

end Handle

/-! ## The steps, by what they change -/

/-- A step, with the bucket that decides and whether it lets the request through. -/
inductive Step (cfg : Config ρ) (s : Sys) : Event ρ → Sys → Prop where
  | exempt {replica : ℕ} {r : ρ} {now : Int} {fate : Fate} (hnow : s.clock ≤ now)
      (hexempt : (cfg.policyForRequest r).exempt = true) (hhonest : fate.honest = true) :
      Step cfg s (.request replica r now fate) { s with clock := now }
  | answered {replica : ℕ} {r : ρ} {now : Int} (hnow : s.clock ≤ now)
      (hexempt : (cfg.policyForRequest r).exempt = false) (hclient : cfg.redisClient = true) :
      Step cfg s (.request replica r now .answered)
        { s with clock := now, hashes := s.afterScript cfg r now }
  | decided {replica : ℕ} {r : ρ} {now : Int} {fate : Fate} (hnow : s.clock ≤ now)
      (hexempt : (cfg.policyForRequest r).exempt = false) (hhonest : fate.honest = true)
      (hlocal : ¬ (cfg.redisClient = true ∧ fate = .answered)) :
      Step cfg s (.request replica r now fate)
        { clock := now
          hashes := if cfg.redisClient && fate.ran then s.afterScript cfg r now else s.hashes
          entries := s.afterLocal cfg replica r now }
  | sweep {replica : ℕ} {now : Int} (hnow : s.clock ≤ now) :
      Step cfg s (.sweep replica now)
        { s with
          clock := now
          entries := Function.update s.entries replica
            (cleanup cfg.maxAge (s.entries replica) now) }
  | expire {redisKey : String} {now : Int} {h : Hash} (hnow : s.clock ≤ now)
      (hhash : s.hashes redisKey = some h) (hexpired : h.updatedAtMs + cfg.ttlMs ≤ unixMilli now) :
      Step cfg s (.expire redisKey now)
        { s with clock := now, hashes := Function.update s.hashes redisKey none }

variable {cfg : Config ρ} {s s' : Sys} {e : Event ρ}

theorem Step.of_step (h : step cfg s e = some s') : Step cfg s e s' := by
  cases e with
  | request replica r now fate =>
    simp only [step] at h
    split at h
    · rename_i hguard
      obtain ⟨hnow, hhonest⟩ := hguard
      cases h
      cases hexempt : (cfg.policyForRequest r).exempt with
      | true =>
        rw [handle_exempt s replica now hexempt]
        exact .exempt hnow hexempt hhonest
      | false =>
        -- Redis decides if it is there and answers, and the replica otherwise
        by_cases hredis : cfg.redisClient = true ∧ fate = .answered
        · obtain ⟨hclient, rfl⟩ := hredis
          rw [(handle_answered s replica now hexempt hclient).1]
          exact .answered hnow hexempt hclient
        · rw [(handle_local s replica now hexempt hhonest hredis).1]
          exact .decided hnow hexempt hhonest hredis
    · cases h
  | sweep replica now =>
    simp only [step] at h
    split at h
    · rename_i hnow
      cases h
      exact .sweep hnow
    · cases h
  | expire redisKey now =>
    simp only [step] at h
    split at h
    · cases h
    · rename_i hash hhash
      split at h
      · rename_i hguard
        cases h
        exact .expire hguard.1 hhash hguard.2
      · cases h

theorem Step.step (h : Step cfg s e s') : step cfg s e = some s' := by
  cases h with
  | @exempt replica r now fate hnow hexempt hhonest =>
    rw [Fleet.step, if_pos ⟨hnow, hhonest⟩, handle_exempt s replica now hexempt]
  | @answered replica r now hnow hexempt hclient =>
    rw [Fleet.step, if_pos ⟨hnow, rfl⟩, (handle_answered s replica now hexempt hclient).1]
  | @decided replica r now fate hnow hexempt hhonest hlocal =>
    rw [Fleet.step, if_pos ⟨hnow, hhonest⟩, (handle_local s replica now hexempt hhonest hlocal).1]
  | sweep hnow => exact if_pos hnow
  | expire hnow hhash hexpired =>
    simp only [Fleet.step, hhash]
    exact if_pos ⟨hnow, hexpired⟩

theorem Step.clock_le (h : Step cfg s e s') : s.clock ≤ s'.clock := by
  cases h <;> assumption

/-- One request a second for each caller, who is named by the request. -/
def strict : Config String where
  requestsPerSecond := 1
  burst := 1
  maxAge := Duration.second
  urlPath := fun _ => "/v1"
  exemptPaths := none
  keyFunc := id
  scopeFunc := fun _ => ""
  policyFunc := none
  redisClient := true
  keyPrefix := "shared"
  digest := id

end ServiceRuntime.RateLimit.Fleet
