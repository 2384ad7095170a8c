import ServiceRuntime.GoTime
import ServiceRuntime.Transition.System

/-!
# Token Introspection

`IntrospectProto` asks the identity service about a bearer token. It first looks into its
cache, then makes the HTTP exchange, and only then touches the cache again:

    lookup → exchange → evict or store

An active answer is stored, a rejecting one evicts, and when the service is unavailable the
result found at the lookup is returned instead. `cacheLock` is held for the lookup and for the
evict or store, so each of these is one step; the exchange lies between them.

The model follows the calls for one token. Calls for other tokens matter only because the cache
is bounded and pruned: the entry of the token may be dropped at any time.
-/

namespace ServiceRuntime.Identity

open GoTime Transition

/-! ## Answers of the identity service -/

/-- `IntrospectResponse`; `active` is read, and the message is passed on whole. A timestamp is its
    seconds and nanoseconds. -/
structure IntrospectResponse where
  active : Bool
  subject : String := ""
  tokenType : String := ""
  service : String := ""
  organizationId : String := ""
  scopes : List String := []
  agentType : String := ""
  capabilities : List String := []
  runId : String := ""
  surface : String := ""
  userSubject : String := ""
  email : String := ""
  name : String := ""
  expiresAt : Option (Int × Int) := none
  issuedAt : Option (Int × Int) := none
  deriving DecidableEq

/-- What becomes of the body of a response. -/
inductive Body where
  /-- `io.ReadAll` fails. -/
  | unreadable (err : String)
  /-- `protojson` does not accept it. -/
  | undecodable (err : String)
  | decoded (result : IntrospectResponse)
  deriving DecidableEq

/-- How the HTTP exchange ends. -/
inductive Exchange where
  /-- `http.NewRequestWithContext` fails. -/
  | unbuilt (err : String)
  /-- `httpClient.Do` fails. -/
  | failed (err : String)
  | response (statusCode : Int) (body : Body)
  deriving DecidableEq

inductive IntrospectError where
  | identityNotConfigured
  | buildRequest (err : String)
  | identityUnavailable (detail : String)
  | invalidToken
  | inactiveToken
  deriving DecidableEq

def IntrospectError.text : IntrospectError → String
  | identityNotConfigured => "identity_not_configured"
  | buildRequest err => "build_request: " ++ err
  | identityUnavailable detail => "identity_unavailable: " ++ detail
  | invalidToken => "invalid_token"
  | inactiveToken => "inactive_token"

inductive Outcome where
  | cached (result : IntrospectResponse)
  | fresh (result : IntrospectResponse)
  | error (err : IntrospectError)
  deriving DecidableEq

/-- `if hasCached { return cached, nil }`, and otherwise the service is unavailable. -/
def fallback (cached : Option IntrospectResponse) (detail : String) : Outcome :=
  match cached with
  | some result => .cached result
  | none => .error (.identityUnavailable detail)

/-- What `IntrospectProto` returns after the exchange. -/
def conclude (cached : Option IntrospectResponse) : Exchange → Outcome
  | .unbuilt err => .error (.buildRequest err)
  | .failed err => fallback cached ("identity_request: " ++ err)
  | .response statusCode body =>
    if statusCode = 200 then
      match body with
      | .unreadable err => fallback cached ("read_response: " ++ err)
      | .undecodable err => fallback cached ("decode_response: " ++ err)
      | .decoded result => if result.active then .fresh result else .error .inactiveToken
    else if statusCode = 408 ∨ statusCode = 429 then
      fallback cached ("status_" ++ toString statusCode)
    else if statusCode ≥ 500 then fallback cached ("status_" ++ toString statusCode)
    else .error .invalidToken

def Exchange.isActive : Exchange → Bool
  | .response statusCode (.decoded result) => statusCode == 200 && result.active
  | _ => false

/-! ## The client -/

/-- The settings that `IntrospectProto` reads, and the token. -/
structure Config where
  introspectURL : String
  cacheTTL : Duration
  bearerToken : String

namespace Config

def configured (cfg : Config) : Bool := cfg.introspectURL != ""

/-- The cache is in use: `c.cacheTTL <= 0 || bearerToken == ""` does not hold. -/
def caches (cfg : Config) : Bool := decide (0 < cfg.cacheTTL.ns) && cfg.bearerToken != ""

end Config

/-- `cachedIntrospection`, the entry of the token. -/
structure CachedIntrospection where
  expiresAt : Int
  result : IntrospectResponse
  deriving DecidableEq

inductive Phase where
  | started
  /-- The request is on its way; `cached` was found at the lookup. -/
  | exchanging (cached : Option IntrospectResponse)
  /-- The service has answered, with its answer number `number`. -/
  | answered (cached : Option IntrospectResponse) (ex : Exchange) (number : Nat)
  | returned (outcome : Outcome)
  deriving DecidableEq

structure Call where
  /-- The number of the latest rejecting answer that some call had returned when this one
      started, zero if there was none; no step reads it. -/
  rejectedBefore : Nat
  phase : Phase
  deriving DecidableEq

inductive Event where
  | call
  | lookup (i : Nat) (now : Int)
  | answer (i : Nat) (ex : Exchange)
  | settle (i : Nat) (now : Int)
  /-- The entry of the token makes room for others, or is pruned. -/
  | drop
  deriving DecidableEq

structure Sys where
  /-- The entry of the token in `introspection`. -/
  entry : Option CachedIntrospection
  calls : List Call
  /-- How many answers there were; this and the next two are not part of the client. -/
  answers : Nat
  /-- The number of the latest active answer, zero if there was none. -/
  lastActive : Nat
  /-- The number of the latest rejecting answer that a call has returned, zero if there was
      none. -/
  lastRejected : Nat

namespace Sys

def move (s : Sys) (i : Nat) (call : Call) (phase : Phase) : Sys :=
  { s with calls := s.calls.set i { call with phase := phase } }

/-- `cachedIntrospection`: what it finds. -/
def found (s : Sys) (cfg : Config) (now : Int) : Option IntrospectResponse :=
  if cfg.caches then
    s.entry.bind fun c => if c.expiresAt < now then none else some c.result
  else none

/-- `cachedIntrospection`: the entry after it; an expired one is deleted. -/
def afterLookup (s : Sys) (cfg : Config) (now : Int) : Option CachedIntrospection :=
  if cfg.caches then s.entry.filter fun c => decide (¬ c.expiresAt < now) else s.entry

/-- `storeIntrospection`: the entry after it. -/
def afterStore (s : Sys) (cfg : Config) (result : IntrospectResponse) (now : Int) :
    Option CachedIntrospection :=
  if cfg.caches then some ⟨GoTime.add now cfg.cacheTTL, result⟩ else s.entry

/-- `evictIntrospection`: the entry after it. -/
def afterEvict (s : Sys) (cfg : Config) : Option CachedIntrospection :=
  if cfg.bearerToken = "" then s.entry else none

end Sys

/-- The end of a call: evict or store, and return. -/
def settle (cfg : Config) (s : Sys) (i : Nat) (call : Call) (cached : Option IntrospectResponse)
    (ex : Exchange) (number : Nat) (now : Int) : Sys :=
  let outcome := conclude cached ex
  let s := s.move i call (.returned outcome)
  match outcome with
  | .fresh result => { s with entry := s.afterStore cfg result now }
  | .error .invalidToken | .error .inactiveToken =>
    { s with entry := s.afterEvict cfg, lastRejected := max s.lastRejected number }
  | _ => s

/-- One step of a call, or the loss of the entry. -/
def step (cfg : Config) (s : Sys) : Event → Option Sys
  | .call =>
    let phase := if cfg.configured then .started else .returned (.error .identityNotConfigured)
    some { s with calls := s.calls ++ [⟨s.lastRejected, phase⟩] }
  | .lookup i now => s.calls[i]?.bind fun call =>
    match call.phase with
    | .started => some ({ s with entry := s.afterLookup cfg now }.move i call
        (.exchanging (s.found cfg now)))
    | _ => none
  | .answer i ex => s.calls[i]?.bind fun call =>
    match call.phase with
    | .exchanging cached =>
      let number := s.answers + 1
      some ({ s with
        answers := number
        lastActive := if ex.isActive then number else s.lastActive }.move i call
          (.answered cached ex number))
    | _ => none
  | .settle i now => s.calls[i]?.bind fun call =>
    match call.phase with
    | .answered cached ex number => some (settle cfg s i call cached ex number now)
    | _ => none
  | .drop => some { s with entry := none }

/-- The calls for one token, in any interleaving. -/
def client (cfg : Config) : System Sys Event where
  init s := s = ⟨none, [], 0, 0, 0⟩
  step := step cfg

/-! ## The shapes of a step -/

/-- The steps of the client, by what they write. -/
inductive Step (cfg : Config) (s : Sys) : Event → Sys → Prop where
  | call {phase : Phase}
      (hphase : phase = .started ∧ cfg.configured = true ∨
        phase = .returned (.error .identityNotConfigured)) :
      Step cfg s .call { s with calls := s.calls ++ [⟨s.lastRejected, phase⟩] }
  | lookup {i : Nat} {call : Call} {now : Int} (hcall : s.calls[i]? = some call)
      (hphase : call.phase = .started) :
      Step cfg s (.lookup i now)
        ({ s with entry := s.afterLookup cfg now }.move i call (.exchanging (s.found cfg now)))
  | answer {i : Nat} {call : Call} {cached : Option IntrospectResponse} {ex : Exchange}
      (hcall : s.calls[i]? = some call) (hphase : call.phase = .exchanging cached) :
      Step cfg s (.answer i ex)
        ({ s with
          answers := s.answers + 1
          lastActive := if ex.isActive then s.answers + 1 else s.lastActive }.move i call
            (.answered cached ex (s.answers + 1)))
  /-- An active answer is stored. -/
  | store {i : Nat} {call : Call} {cached : Option IntrospectResponse} {ex : Exchange}
      {number : Nat} {now : Int} {result : IntrospectResponse}
      (hcall : s.calls[i]? = some call) (hphase : call.phase = .answered cached ex number)
      (hfresh : conclude cached ex = .fresh result) :
      Step cfg s (.settle i now)
        ({ s with entry := s.afterStore cfg result now }.move i call (.returned (.fresh result)))
  /-- A rejecting answer evicts. -/
  | evict {i : Nat} {call : Call} {cached : Option IntrospectResponse} {ex : Exchange}
      {number : Nat} {now : Int} {err : IntrospectError}
      (hcall : s.calls[i]? = some call) (hphase : call.phase = .answered cached ex number)
      (hreject : conclude cached ex = .error err) :
      Step cfg s (.settle i now)
        ({ s with
          entry := s.afterEvict cfg
          lastRejected := max s.lastRejected number }.move i call (.returned (.error err)))
  /-- The call ends without touching the cache. -/
  | quiet {i : Nat} {call : Call} {cached : Option IntrospectResponse} {ex : Exchange}
      {number : Nat} {now : Int} {outcome : Outcome} (hcall : s.calls[i]? = some call)
      (hphase : call.phase = .answered cached ex number)
      (houtcome : conclude cached ex = outcome) :
      Step cfg s (.settle i now) (s.move i call (.returned outcome))
  | drop : Step cfg s .drop { s with entry := none }

theorem Step.of_settle {cfg : Config} {s : Sys} {i : Nat} {call : Call}
    {cached : Option IntrospectResponse} {ex : Exchange} {number : Nat} {now : Int}
    (hcall : s.calls[i]? = some call) (hphase : call.phase = .answered cached ex number) :
    Step cfg s (.settle i now) (settle cfg s i call cached ex number now) := by
  unfold settle
  cases houtcome : conclude cached ex with
  | cached result => exact .quiet hcall hphase houtcome
  | fresh result => exact .store hcall hphase houtcome
  | error err =>
    cases err with
    | invalidToken | inactiveToken => exact .evict hcall hphase houtcome
    | _ => exact .quiet hcall hphase houtcome

theorem Step.of_step {cfg : Config} {s s' : Sys} {e : Event} (h : step cfg s e = some s') :
    Step cfg s e s' := by
  cases e with
  | call =>
    cases h
    refine .call ?_
    split
    · rename_i hconfigured
      exact .inl ⟨rfl, hconfigured⟩
    · exact .inr rfl
  | lookup i now =>
    obtain ⟨call, hcall, hact⟩ := Option.bind_eq_some_iff.mp h
    split at hact
    · rename_i hphase
      cases hact
      exact .lookup hcall hphase
    · cases hact
  | answer i ex =>
    obtain ⟨call, hcall, hact⟩ := Option.bind_eq_some_iff.mp h
    split at hact
    · rename_i cached hphase
      cases hact
      exact .answer hcall hphase
    · cases hact
  | settle i now =>
    obtain ⟨call, hcall, hact⟩ := Option.bind_eq_some_iff.mp h
    split at hact
    · rename_i cached ex number hphase
      cases hact
      exact .of_settle hcall hphase
    · cases hact
  | drop =>
    cases h
    exact .drop

end ServiceRuntime.Identity
