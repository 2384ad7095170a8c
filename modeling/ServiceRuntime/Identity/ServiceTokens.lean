import ServiceRuntime.Identity.Client
import ServiceRuntime.Identity.ScopesKey

/-!
# Service Tokens

`ResolveServiceToken` returns a token for an organization, a service and a set of scopes. It takes
the token from its cache unless that one expires soon, and otherwise has a new one issued:

    lookup → issue → store

`serviceTokenLock` is held for the lookup and for the store, so each of these is one step, and any
number of calls may have tokens issued in between. The lifetime asked for, `ttl`, goes into the
request only and is left out.

The system keeps a log of the tokens that were issued, which no step reads.
-/

namespace ServiceRuntime.Identity

open GoStrings GoTime Transition

/-! ## Issuing -/

/-- The settings of a `Client` that service tokens need besides the size of the cache. -/
structure ServiceTokensConfig extends ClientConfig where
  serviceTokensURL : String
  bootstrapKey : String
  usesMTLSCert : Bool

/-- `ServiceTokensConfigured`. -/
def ServiceTokensConfig.configured (cfg : ServiceTokensConfig) : Bool :=
  cfg.serviceTokensURL != "" && (trimSpace cfg.bootstrapKey != "" || cfg.usesMTLSCert)

/-- `IssueServiceTokenRequest`, as far as it says what the token is for. -/
structure IssueServiceTokenRequest where
  service : String
  organizationId : String
  scopes : List String
  deriving DecidableEq

/-- `ServiceTokenResponse`. The claims have an expiry of their own. -/
structure ServiceTokenResponse where
  token : String
  tokenType : String
  expiresAt : Int
  claims : Option Int
  deriving DecidableEq

def ServiceTokenResponse.expiryTime (r : ServiceTokenResponse) : Option Int :=
  if isZero r.expiresAt then
    match r.claims with
    | some expiresAt => if isZero expiresAt then none else some expiresAt
    | none => none
  else some r.expiresAt

/-- What becomes of the body of a response. -/
inductive TokenBody where
  | unreadable (err : String)
  | undecodable (err : String)
  | decoded (result : ServiceTokenResponse)
  deriving DecidableEq

/-- How a request for a token ends. -/
inductive TokenExchange where
  /-- `protojson` cannot encode the request. -/
  | unencoded (err : String)
  /-- `http.NewRequestWithContext` fails. -/
  | unbuilt (err : String)
  /-- `httpClient.Do` fails. -/
  | failed (err : String)
  | response (statusCode : Int) (body : TokenBody)
  deriving DecidableEq

/-- The errors of `IssueServiceToken` and `ResolveServiceToken`. -/
inductive TokenError where
  | notConfigured
  | encodeRequest (err : String)
  | buildRequest (err : String)
  | identityRequest (err : String)
  | unexpectedStatus (statusCode : Int)
  | readResponse (err : String)
  | decodeResponse (err : String)
  | missingToken
  | missingExpiry
  deriving DecidableEq

def TokenError.text : TokenError → String
  | notConfigured => "identity_service_tokens_not_configured"
  | encodeRequest err => "encode_request: " ++ err
  | buildRequest err => "build_request: " ++ err
  | identityRequest err => "identity_request: " ++ err
  | unexpectedStatus statusCode => "issue_service_token: unexpected_status_" ++ toString statusCode
  | readResponse err => "read_response: " ++ err
  | decodeResponse err => "decode_response: " ++ err
  | missingToken => "missing_service_token"
  | missingExpiry => "missing_service_token_expiry"

/-- `IssueServiceToken`, given how its exchange ends. -/
def issueServiceToken (cfg : ServiceTokensConfig) (ex : TokenExchange) :
    Except TokenError ServiceTokenResponse :=
  if cfg.configured then
    match ex with
    | .unencoded err => .error (.encodeRequest err)
    | .unbuilt err => .error (.buildRequest err)
    | .failed err => .error (.identityRequest err)
    | .response statusCode body =>
      if statusCode ≠ 201 then .error (.unexpectedStatus statusCode)
      else
        match body with
        | .unreadable err => .error (.readResponse err)
        | .undecodable err => .error (.decodeResponse err)
        | .decoded result => if trimSpace result.token = "" then .error .missingToken else .ok result
  else .error .notConfigured

/-! ## The cache -/

structure ServiceTokenCacheKey where
  organizationID : String
  service : String
  scopes : String
  deriving DecidableEq

structure CachedServiceToken where
  expiresAt : Int
  token : String
  deriving DecidableEq

def expiryMargin : Duration := ⟨10000000000, by decide, by decide⟩

def CachedServiceToken.expiringSoon (cached : CachedServiceToken) (now : Int) : Bool :=
  decide (cached.expiresAt < GoTime.add now expiryMargin)

abbrev ServiceTokenCache := Cache ServiceTokenCacheKey CachedServiceToken

/-- The lookup: a token that does not expire soon. -/
def freshToken (cache : ServiceTokenCache) (key : ServiceTokenCacheKey) (now : Int) :
    ServiceTokenCache × Option CachedServiceToken :=
  match cache.get key with
  | (cache, some cached) => (cache, if cached.expiringSoon now then none else some cached)
  | (cache, none) => (cache, none)

theorem freshToken_fst (cache : ServiceTokenCache) (key : ServiceTokenCacheKey) (now : Int) :
    (freshToken cache key now).1 = (cache.get key).1 := by
  unfold freshToken
  split
  · rename_i hget
    rw [hget]
  · rename_i hget
    rw [hget]

theorem freshToken_found {cache : ServiceTokenCache} {key : ServiceTokenCacheKey} {now : Int}
    {cached : CachedServiceToken} (h : (freshToken cache key now).2 = some cached) :
    cache.peek key = some cached ∧ GoTime.add now expiryMargin ≤ cached.expiresAt := by
  unfold freshToken at h
  split at h
  · rename_i cache' c hget
    split at h
    · cases h
    · rename_i hlate
      cases h
      refine ⟨?_, ?_⟩
      · rw [← Cache.get_snd, hget]
      · rw [CachedServiceToken.expiringSoon, decide_eq_true_eq, not_lt] at hlate
        exact hlate
  · cases h

/-! ## The system -/

namespace ServiceTokens

inductive Outcome where
  /-- The token found in the cache at `now`. -/
  | cached (entry : CachedServiceToken) (now : Int)
  /-- The token issued for this call. -/
  | fresh (token : String)
  | error (err : TokenError)
  deriving DecidableEq

def Outcome.token : Outcome → Option String
  | .cached entry _ => some entry.token
  | .fresh token => some token
  | .error _ => none

inductive Stage where
  | started
  /-- The request for a token is on its way. -/
  | issuing
  /-- The token has been issued, and is still to be stored. -/
  | issued (response : ServiceTokenResponse) (expiresAt : Int)
  | returned (outcome : Outcome)
  deriving DecidableEq

structure Call where
  organizationID : String
  service : String
  scopes : List String
  stage : Stage
  deriving DecidableEq

namespace Call

def key (call : Call) : ServiceTokenCacheKey :=
  ⟨trimSpace call.organizationID, trimSpace call.service, cacheScopesKey call.scopes⟩

/-- The request for a token: the key's organization and service, and the scopes as given. -/
def request (call : Call) : IssueServiceTokenRequest :=
  ⟨call.key.service, call.key.organizationID, call.scopes⟩

end Call

/-- What happened, for the record: `IssueServiceToken` returned this response to this request. -/
structure Note where
  request : IssueServiceTokenRequest
  response : ServiceTokenResponse
  deriving DecidableEq

structure Sys where
  serviceTokens : ServiceTokenCache
  calls : List Call
  /-- Not part of the program. -/
  log : List Note

inductive Event where
  | call (organizationID service : String) (scopes : List String)
  | lookup (i : Nat) (now : Int)
  | issue (i : Nat) (ex : TokenExchange)
  | store (i : Nat)
  deriving DecidableEq

/-- Call `i` moves to `stage`, with a cache and notes on what was issued. -/
def Sys.move (s : Sys) (i : Nat) (call : Call) (stage : Stage) (cache : ServiceTokenCache)
    (notes : List Note) : Sys where
  serviceTokens := cache
  calls := s.calls.set i { call with stage := stage }
  log := notes ++ s.log

def step (cfg : ServiceTokensConfig) (s : Sys) : Event → Option Sys
  | .call organizationID service scopes =>
    let stage := if cfg.configured then .started else .returned (.error .notConfigured)
    some { s with calls := s.calls ++ [⟨organizationID, service, scopes, stage⟩] }
  | .lookup i now => s.calls[i]?.bind fun call =>
    match call.stage with
    | .started =>
      match freshToken s.serviceTokens call.key now with
      | (cache, some cached) => some (s.move i call (.returned (.cached cached now)) cache [])
      | (cache, none) => some (s.move i call .issuing cache [])
    | _ => none
  | .issue i ex => s.calls[i]?.bind fun call =>
    match call.stage with
    | .issuing =>
      match issueServiceToken cfg ex with
      | .error err => some (s.move i call (.returned (.error err)) s.serviceTokens [])
      | .ok response =>
        -- a response without an expiry is an error, but the token has been issued
        let stage := match response.expiryTime with
          | some expiresAt => .issued response expiresAt
          | none => .returned (.error .missingExpiry)
        some (s.move i call stage s.serviceTokens [⟨call.request, response⟩])
    | _ => none
  | .store i => s.calls[i]?.bind fun call =>
    match call.stage with
    | .issued response expiresAt =>
      some (s.move i call (.returned (.fresh response.token))
        (s.serviceTokens.put call.key ⟨expiresAt, response.token⟩) [])
    | _ => none

def initial (cfg : ServiceTokensConfig) : Sys := ⟨.new cfg.maxSize cfg.one_le_maxSize, [], []⟩

/-- The calls of `ResolveServiceToken` on one client, in any interleaving. -/
def resolve (cfg : ServiceTokensConfig) : System Sys Event where
  init s := s = initial cfg
  step := step cfg

def separable (_ : Sys) : Event → Prop
  | .call _ _ scopes => NulFree scopes
  | _ => True

instance (s : Sys) (e : Event) : Decidable (separable s e) := by
  unfold separable
  split
  · infer_instance
  · infer_instance

/-! ## The shapes of a step -/

/-- The steps of a call, by what they write: the stage, the cache and the notes. -/
inductive Turn (s : Sys) (call : Call) : Stage → ServiceTokenCache → List Note → Prop where
  | hit {now : Int} {cached : CachedServiceToken} (hstage : call.stage = .started)
      (hfound : (freshToken s.serviceTokens call.key now).2 = some cached) :
      Turn s call (.returned (.cached cached now)) (s.serviceTokens.get call.key).1 []
  | miss (hstage : call.stage = .started) :
      Turn s call .issuing (s.serviceTokens.get call.key).1 []
  | refused {err : TokenError} (hstage : call.stage = .issuing) :
      Turn s call (.returned (.error err)) s.serviceTokens []
  | issued {response : ServiceTokenResponse} {expiresAt : Int} (hstage : call.stage = .issuing)
      (hexpiry : response.expiryTime = some expiresAt) :
      Turn s call (.issued response expiresAt) s.serviceTokens [⟨call.request, response⟩]
  | unlimited {response : ServiceTokenResponse} (hstage : call.stage = .issuing) :
      Turn s call (.returned (.error .missingExpiry)) s.serviceTokens [⟨call.request, response⟩]
  | store {response : ServiceTokenResponse} {expiresAt : Int}
      (hstage : call.stage = .issued response expiresAt) :
      Turn s call (.returned (.fresh response.token))
        (s.serviceTokens.put call.key ⟨expiresAt, response.token⟩) []

inductive Step (s : Sys) : Event → Sys → Prop where
  | call {organizationID service : String} {scopes : List String} {stage : Stage}
      (hstage : stage = .started ∨ stage = .returned (.error .notConfigured)) :
      Step s (.call organizationID service scopes)
        { s with calls := s.calls ++ [⟨organizationID, service, scopes, stage⟩] }
  | turn {e : Event} {i : Nat} {call : Call} {stage : Stage} {cache : ServiceTokenCache}
      {notes : List Note} (hcall : s.calls[i]? = some call)
      (hturn : Turn s call stage cache notes) : Step s e (s.move i call stage cache notes)

theorem Step.of_step {cfg : ServiceTokensConfig} {s s' : Sys} {e : Event}
    (h : step cfg s e = some s') : Step s e s' := by
  cases e with
  | call organizationID service scopes =>
    cases h
    refine .call ?_
    split
    · exact .inl rfl
    · exact .inr rfl
  | lookup i now =>
    obtain ⟨call, hcall, hact⟩ := Option.bind_eq_some_iff.mp h
    split at hact
    · rename_i hstage
      -- a token that expires soon counts as a miss, and stays in the cache
      have hcache := freshToken_fst s.serviceTokens call.key now
      split at hact
      · rename_i cache cached hfound
        cases hact
        have hhit : (freshToken s.serviceTokens call.key now).2 = some cached := by rw [hfound]
        rw [hfound] at hcache
        subst hcache
        exact .turn hcall (.hit hstage hhit)
      · rename_i cache hfound
        cases hact
        rw [hfound] at hcache
        subst hcache
        exact .turn hcall (.miss hstage)
    · cases hact
  | issue i ex =>
    obtain ⟨call, hcall, hact⟩ := Option.bind_eq_some_iff.mp h
    split at hact
    · rename_i hstage
      split at hact
      · cases hact
        exact .turn hcall (.refused hstage)
      · cases hact
        refine .turn hcall ?_
        -- only a token with an expiry is stored
        split
        · rename_i hexpiry
          exact .issued hstage hexpiry
        · exact .unlimited hstage
    · cases hact
  | store i =>
    obtain ⟨call, hcall, hact⟩ := Option.bind_eq_some_iff.mp h
    split at hact
    · rename_i hstage
      cases hact
      exact .turn hcall (.store hstage)
    · cases hact

/-! ## Where a token comes from -/

/-- Some call that has `key` had `token` issued, with this expiry. -/
def IssuedFor (log : List Note) (key : ServiceTokenCacheKey) (token : String) (expiresAt : Int) :
    Prop :=
  ∃ note ∈ log, note.request.organizationId = key.organizationID ∧
    note.request.service = key.service ∧ NulFree note.request.scopes ∧
    cacheScopesKey note.request.scopes = key.scopes ∧
    note.response.token = token ∧ note.response.expiryTime = some expiresAt

theorem IssuedFor.mono {log notes : List Note} {key : ServiceTokenCacheKey} {token : String}
    {expiresAt : Int} (h : IssuedFor log key token expiresAt) :
    IssuedFor (notes ++ log) key token expiresAt := by
  obtain ⟨note, hmem, hnote⟩ := h
  exact ⟨note, List.mem_append_right _ hmem, hnote⟩

/-- What holds of a call with `key`, by how far it has got. -/
def Stage.Issued (log : List Note) (key : ServiceTokenCacheKey) : Stage → Prop
  | .started | .issuing => True
  | .issued response expiresAt => IssuedFor log key response.token expiresAt
  | .returned (.cached entry now) =>
    IssuedFor log key entry.token entry.expiresAt ∧ GoTime.add now expiryMargin ≤ entry.expiresAt
  | .returned (.fresh token) => ∃ expiresAt, IssuedFor log key token expiresAt
  | .returned (.error _) => True

theorem Stage.Issued.mono {log notes : List Note} {key : ServiceTokenCacheKey} {stage : Stage}
    (h : stage.Issued log key) : stage.Issued (notes ++ log) key := by
  match stage, h with
  | .started, _ | .issuing, _ | .returned (.error _), _ => trivial
  | .issued _ _, h => exact IssuedFor.mono h
  | .returned (.cached _ _), h => exact ⟨IssuedFor.mono h.1, h.2⟩
  | .returned (.fresh _), ⟨expiresAt, h⟩ => exact ⟨expiresAt, IssuedFor.mono h⟩

/-- The invariant: every entry of the cache and every token in a call was issued for its key. -/
structure Issued (s : Sys) : Prop where
  cache : ∀ key cached, s.serviceTokens.peek key = some cached →
    IssuedFor s.log key cached.token cached.expiresAt
  calls : ∀ {i : Nat} {call : Call}, s.calls[i]? = some call →
    NulFree call.scopes ∧ call.stage.Issued s.log call.key

section

variable {s : Sys} {i : Nat} {call : Call} {stage : Stage} {cache : ServiceTokenCache}
  {notes : List Note}

/-- **The call that moves**: what it has found or was given was issued for its key. -/
theorem Turn.stageIssued (hturn : Turn s call stage cache notes) (h : Issued s)
    (hcall : s.calls[i]? = some call) : stage.Issued (notes ++ s.log) call.key := by
  obtain ⟨hfree, hbefore⟩ := h.calls hcall
  cases hturn with
  | hit hstage hfound =>
    obtain ⟨hpeek, hlate⟩ := freshToken_found hfound
    exact ⟨h.cache _ _ hpeek, hlate⟩
  | miss | refused => trivial
  | @issued response expiresAt hstage hexpiry =>
    exact ⟨_, List.mem_cons_self, rfl, rfl, hfree, rfl, rfl, hexpiry⟩
  | unlimited => trivial
  | store hstage =>
    rw [hstage] at hbefore
    exact ⟨_, hbefore⟩

/-- **The cache** holds tokens under the keys they were issued for. -/
theorem Turn.cacheIssued (hturn : Turn s call stage cache notes) (h : Issued s)
    (hcall : s.calls[i]? = some call) {key : ServiceTokenCacheKey} {cached : CachedServiceToken}
    (hpeek : cache.peek key = some cached) :
    IssuedFor (notes ++ s.log) key cached.token cached.expiresAt := by
  cases hturn with
  | hit | miss =>
    rw [Cache.peek_get] at hpeek
    exact (h.cache _ _ hpeek).mono
  | refused | issued | unlimited => exact (h.cache _ _ hpeek).mono
  | store hstage =>
    -- the new entry is stored under the key of the call that had it issued
    rcases Cache.peek_put hpeek with ⟨rfl, rfl⟩ | ⟨-, hold⟩
    · have hbefore := (h.calls hcall).2
      rw [hstage] at hbefore
      exact hbefore
    · exact (h.cache _ _ hold).mono

end

theorem Step.issued {s s' : Sys} {e : Event} (hstep : Step s e s') (hfree : separable s e)
    (h : Issued s) : Issued s' := by
  cases hstep with
  | call hstage =>
    refine ⟨h.cache, fun {i c} hc => ?_⟩
    rcases getElem?_concat_iff.mp hc with hc | ⟨-, rfl⟩
    · exact h.calls hc
    · refine ⟨hfree, ?_⟩
      rcases hstage with rfl | rfl
      · trivial
      · trivial
  | turn hcall hturn =>
    refine ⟨fun key cached hpeek => hturn.cacheIssued h hcall hpeek, fun {k c} hc => ?_⟩
    rcases (getElem?_set_iff hcall).mp hc with ⟨rfl, rfl⟩ | ⟨-, hc⟩
    · exact ⟨(h.calls hcall).1, hturn.stageIssued h hcall⟩
    · exact ⟨(h.calls hc).1, (h.calls hc).2.mono⟩

theorem issued_of_reachable {cfg : ServiceTokensConfig} {s : Sys}
    (h : (resolve cfg).ReachableBy separable s) : Issued s := by
  refine System.ReachableBy.invariant (P := Issued) ?_
    (fun s e s' _ hs hok hstep => (Step.of_step hstep).issued hok hs) h
  rintro s rfl
  exact ⟨fun key cached hpeek => (by cases hpeek), fun {i call} hcall => (by cases hcall)⟩

/-! ## Main theorem -/

/-- `a` and `b` ask for the same: the same organization, service and set of scopes. -/
structure SameGrant (a b : Call) : Prop where
  organization : trimSpace a.organizationID = trimSpace b.organizationID
  service : trimSpace a.service = trimSpace b.service
  scopes : scopeSet a.scopes = scopeSet b.scopes

theorem key_eq_iff {a b : Call} (ha : NulFree a.scopes) (hb : NulFree b.scopes) :
    a.key = b.key ↔ SameGrant a b := by
  rw [Call.key, Call.key, ServiceTokenCacheKey.mk.injEq]
  constructor
  · rintro ⟨horganization, hservice, hscopes⟩
    exact ⟨horganization, hservice, scopeSet_eq_of_cacheScopesKey_eq ha hb hscopes⟩
  · rintro ⟨horganization, hservice, hscopes⟩
    exact ⟨horganization, hservice, cacheScopesKey_congr hscopes⟩

/-- **Tokens do not cross scope sets**: when the calls so far were for scopes without NUL
    characters, every token that a call returned was issued by a request for the same organization,
    service and set of scopes; a token from the cache had ten seconds left at the lookup; and two
    calls share a cache entry exactly if they ask for the same. -/
theorem resolved_token_scoped (cfg : ServiceTokensConfig) {s : Sys}
    (hs : (resolve cfg).ReachableBy separable s) :
    (∀ (i : Nat) (call : Call) (outcome : Outcome) (token : String),
      s.calls[i]? = some call → call.stage = .returned outcome → outcome.token = some token →
      ∃ (note : Note) (expiresAt : Int), note ∈ s.log ∧
        note.request.organizationId = trimSpace call.organizationID ∧
        note.request.service = trimSpace call.service ∧
        scopeSet note.request.scopes = scopeSet call.scopes ∧
        note.response.token = token ∧ note.response.expiryTime = some expiresAt ∧
        ∀ entry now, outcome = .cached entry now → now + 10 * 1000000000 ≤ expiresAt) ∧
      ∀ (i j : Nat) (a b : Call), s.calls[i]? = some a → s.calls[j]? = some b →
        (a.key = b.key ↔ SameGrant a b) := by
  have hissued := issued_of_reachable hs
  constructor
  · intro i call outcome token hcall hreturned htoken
    obtain ⟨hfree, hstage⟩ := hissued.calls hcall
    rw [hreturned] at hstage
    -- the expiry that counts is the one the token was stored with
    have hfrom : ∃ expiresAt, IssuedFor s.log call.key token expiresAt ∧
        ∀ entry now, outcome = .cached entry now → GoTime.add now expiryMargin ≤ expiresAt := by
      cases outcome with
      | cached entry now =>
        cases htoken
        refine ⟨entry.expiresAt, hstage.1, ?_⟩
        rintro _ _ ⟨⟩
        exact hstage.2
      | fresh t =>
        cases htoken
        obtain ⟨expiresAt, hfrom⟩ := hstage
        exact ⟨expiresAt, hfrom, fun entry now h => by cases h⟩
      | error err => cases htoken
    -- the request had the same key, and a key gives away the set of scopes
    obtain ⟨expiresAt, ⟨note, hmem, horganization, hservice, hnote, hscopes, hsame, hexpiry⟩,
      hlate⟩ := hfrom
    exact ⟨note, expiresAt, hmem, horganization, hservice,
      scopeSet_eq_of_cacheScopesKey_eq hnote hfree hscopes, hsame, hexpiry, hlate⟩
  · intro i j a b ha hb
    exact key_eq_iff (hissued.calls ha).1 (hissued.calls hb).1

def bootstrapped : ServiceTokensConfig where
  introspectURL := ""
  cacheTTL := Duration.second
  maxCacheSize := 0
  serviceTokensURL := "https://identity/service-tokens"
  bootstrapKey := "bootstrap"
  usesMTLSCert := false

def minuteToken : ServiceTokenResponse := ⟨"token-1", "Bearer", 60000000000, none⟩

/-- The same scopes twice, in another order, padded and repeated. -/
def reordered : List Event :=
  [.call "org-1" "gate" ["read", "write"], .lookup 0 0,
    .issue 0 (.response 201 (.decoded minuteToken)), .store 0,
    .call " org-1 " "gate" [" write", "read", "write ", ""], .lookup 1 1000]

/-- The second call finds the token of the first, which was issued for its scopes. -/
theorem resolved_token_scoped_of_reordered :
    ∃ s call, (resolve bootstrapped).ReachableBy separable s ∧ s.calls[1]? = some call ∧
      call.stage = .returned (.cached ⟨60000000000, "token-1"⟩ 1000) ∧
      ∃ (note : Note) (expiresAt : Int), note ∈ s.log ∧
        scopeSet note.request.scopes = scopeSet call.scopes ∧ note.response.token = "token-1" ∧
        note.response.expiryTime = some expiresAt ∧ 1000 + 10 * 1000000000 ≤ expiresAt := by
  have hrun : (((resolve bootstrapped).runBy separable (initial bootstrapped) reordered).bind
      fun s => s.calls[1]?.map fun call => call.stage) =
      some (.returned (.cached ⟨60000000000, "token-1"⟩ 1000)) := by
    decide +kernel
  obtain ⟨s, hs, hcalls⟩ := Option.bind_eq_some_iff.mp hrun
  obtain ⟨call, hcall, hstage⟩ := Option.map_eq_some_iff.mp hcalls
  have hreach : (resolve bootstrapped).ReachableBy separable s :=
    System.ReachableBy.runBy (.init rfl) hs
  obtain ⟨note, expiresAt, hmem, -, -, hscopes, htoken, hexpiry, hlate⟩ :=
    (resolved_token_scoped bootstrapped hreach).1 1 call _ _ hcall hstage rfl
  exact ⟨s, call, hreach, hcall, hstage, note, expiresAt, hmem, hscopes, htoken, hexpiry,
    hlate _ _ rfl⟩

end ServiceTokens

end ServiceRuntime.Identity
