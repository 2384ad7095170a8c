import ServiceRuntime.Identity.Introspection
import ServiceRuntime.Identity.LruCache

/-!
# The Client and Its Introspection Cache

`Identity.Introspection` follows the calls for one token, and lets its cache entry go at any
time. Here is the client as a whole: calls for any tokens share one bounded cache, and an entry
goes when the cache makes room for another token, when a store prunes expired entries, or when
a call looks at it too late.

Again the lookup and the evict or store of a call are one step each, under `cacheLock`. The system
keeps a log of what happened, newest first, which no step reads. The calls for one token are those of
`Identity.Introspection` (`introspect_refines_client`).
-/

namespace ServiceRuntime.Identity

open GoTime Transition

/-! ## Settings -/

/-- The settings of a `Client` that introspection reads. -/
structure ClientConfig where
  introspectURL : String
  cacheTTL : Duration
  maxCacheSize : Int

def defaultMaxCacheSize : Int := 10000

namespace ClientConfig

/-- The size that `New` gives the caches. -/
def maxSize (cfg : ClientConfig) : Int :=
  if cfg.maxCacheSize ≤ 0 then defaultMaxCacheSize else cfg.maxCacheSize

theorem one_le_maxSize (cfg : ClientConfig) : 1 ≤ cfg.maxSize := by
  unfold maxSize
  split
  · decide
  · omega

/-- What a call for `bearerToken` reads. -/
def forToken (cfg : ClientConfig) (bearerToken : String) : Config :=
  ⟨cfg.introspectURL, cfg.cacheTTL, bearerToken⟩

theorem caches_forToken {cfg : ClientConfig} {bearerToken : String} :
    (cfg.forToken bearerToken).caches = true ↔ 0 < cfg.cacheTTL.ns ∧ bearerToken ≠ "" := by
  rw [Config.caches, Bool.and_eq_true, bne_iff_ne, decide_eq_true_iff]
  rfl

end ClientConfig

/-! ## The cache -/

abbrev IntrospectionCache := Cache String CachedIntrospection

def cachedIntrospection (cfg : Config) (cache : IntrospectionCache) (now : Int) :
    IntrospectionCache × Option IntrospectResponse :=
  if cfg.caches then
    match cache.get cfg.bearerToken with
    | (cache, none) => (cache, none)
    | (cache, some cached) =>
      if cached.expiresAt < now then (cache.delete cfg.bearerToken, none)
      else (cache, some cached.result)
  else (cache, none)

/-- `pruneExpiredLocked`. -/
def pruneExpired (cache : IntrospectionCache) (now : Int) : IntrospectionCache :=
  cache.deleteFunc fun _ cached => decide (cached.expiresAt < now)

def storeIntrospection (cfg : Config) (cache : IntrospectionCache) (result : IntrospectResponse)
    (now : Int) : IntrospectionCache :=
  if cfg.caches then
    (pruneExpired cache now).put cfg.bearerToken ⟨GoTime.add now cfg.cacheTTL, result⟩
  else cache

def evictIntrospection (cfg : Config) (cache : IntrospectionCache) : IntrospectionCache :=
  if cfg.bearerToken = "" then cache else cache.delete cfg.bearerToken

section

variable {cfg : Config} {cache : IntrospectionCache} {now : Int} {token : String}
  {cached : CachedIntrospection} {result : IntrospectResponse}

theorem cachedIntrospection_found (h : (cachedIntrospection cfg cache now).2 = some result) :
    cfg.caches = true ∧ ∃ c : CachedIntrospection, cache.peek cfg.bearerToken = some c ∧
      c.result = result ∧ now ≤ c.expiresAt := by
  unfold cachedIntrospection at h
  split at h
  · rename_i hcaches
    refine ⟨hcaches, ?_⟩
    split at h
    · cases h
    · rename_i cache' c hget
      split at h
      · cases h
      · rename_i hfresh
        have hpeek : cache.peek cfg.bearerToken = some c := by rw [← Cache.get_snd, hget]
        cases h
        exact ⟨c, hpeek, rfl, not_lt.mp hfresh⟩
  · cases h

theorem peek_cachedIntrospection
    (h : (cachedIntrospection cfg cache now).1.peek token = some cached) :
    cache.peek token = some cached := by
  have hget := Cache.peek_get cache cfg.bearerToken token
  unfold cachedIntrospection at h
  split at h
  · split at h
    · rename_i cache' heq
      rw [heq] at hget
      exact hget ▸ h
    · rename_i cache' c heq
      rw [heq] at hget
      split at h
      · exact hget ▸ (Cache.peek_delete h).2
      · exact hget ▸ h
  · exact h

theorem peek_storeIntrospection
    (h : (storeIntrospection cfg cache result now).peek token = some cached) :
    (cfg.caches = true ∧ token = cfg.bearerToken ∧
      cached = ⟨GoTime.add now cfg.cacheTTL, result⟩) ∨ cache.peek token = some cached := by
  unfold storeIntrospection at h
  split at h
  · rename_i hcaches
    rcases Cache.peek_put h with ⟨htoken, hcached⟩ | ⟨-, hold⟩
    · exact .inl ⟨hcaches, htoken, hcached⟩
    · exact .inr (Cache.peek_deleteFunc hold)
  · exact .inr h

theorem peek_evictIntrospection
    (h : (evictIntrospection cfg cache).peek token = some cached) :
    cache.peek token = some cached ∧ (token = cfg.bearerToken → cfg.bearerToken = "") := by
  unfold evictIntrospection at h
  split at h
  · rename_i hempty
    exact ⟨h, fun _ => hempty⟩
  · obtain ⟨hne, hold⟩ := Cache.peek_delete h
    exact ⟨hold, fun heq => absurd heq hne⟩

end

/-! ## The system -/

namespace Client

inductive Stage where
  | started
  /-- The request is on its way; `cached` was found at the lookup. -/
  | exchanging (cached : Option IntrospectResponse)
  | answered (cached : Option IntrospectResponse) (ex : Exchange)
  /-- The call has returned, after the exchange `ex` if it came to one. -/
  | returned (ex : Option Exchange) (outcome : Outcome)
  deriving DecidableEq

structure Call where
  bearerToken : String
  stage : Stage
  deriving DecidableEq

/-- What happened, for the record. -/
inductive Note where
  /-- The lookup of call `i` found `result`. -/
  | found (i : Nat) (token : String) (result : IntrospectResponse) (now : Int)
  /-- The exchange of call `i` ended. -/
  | answered (i : Nat) (token : String) (ex : Exchange)
  /-- Call `i` stored its result. -/
  | stored (i : Nat) (token : String) (result : IntrospectResponse) (now : Int)
  /-- A call evicted the token after a rejection. -/
  | evicted (token : String)
  deriving DecidableEq

structure Sys where
  introspection : IntrospectionCache
  calls : List Call
  /-- Not part of the program. -/
  log : List Note

inductive Event where
  | call (bearerToken : String)
  | lookup (i : Nat) (now : Int)
  | answer (i : Nat) (ex : Exchange)
  | settle (i : Nat) (now : Int)
  deriving DecidableEq

/-- Call `i` moves to `stage`, with a cache and notes on what was done. -/
def Sys.move (s : Sys) (i : Nat) (call : Call) (stage : Stage) (cache : IntrospectionCache)
    (notes : List Note) : Sys where
  introspection := cache
  calls := s.calls.set i { call with stage := stage }
  log := notes ++ s.log

def foundNotes (i : Nat) (token : String) (now : Int) : Option IntrospectResponse → List Note
  | none => []
  | some result => [.found i token result now]

/-- The end of a call: evict or store, and return. -/
def settle (cfg : ClientConfig) (s : Sys) (i : Nat) (call : Call)
    (cached : Option IntrospectResponse) (ex : Exchange) (now : Int) : Sys :=
  let outcome := conclude cached ex
  let stage := .returned (some ex) outcome
  let config := cfg.forToken call.bearerToken
  match outcome with
  -- the clock is read again: the entry lives from the store on, not from the lookup
  | .fresh result =>
    s.move i call stage (storeIntrospection config s.introspection result now)
      (if config.caches then [.stored i call.bearerToken result now] else [])
  | .error .invalidToken | .error .inactiveToken =>
    s.move i call stage (evictIntrospection config s.introspection) [.evicted call.bearerToken]
  -- in an outage the entry stays
  | _ => s.move i call stage s.introspection []

def step (cfg : ClientConfig) (s : Sys) : Event → Option Sys
  | .call bearerToken =>
    let stage :=
      if (cfg.forToken bearerToken).configured then .started
      else .returned none (.error .identityNotConfigured)
    some { s with calls := s.calls ++ [⟨bearerToken, stage⟩] }
  | .lookup i now => s.calls[i]?.bind fun call =>
    match call.stage with
    | .started =>
      let looked := cachedIntrospection (cfg.forToken call.bearerToken) s.introspection now
      some (s.move i call (.exchanging looked.2) looked.1
        (foundNotes i call.bearerToken now looked.2))
    | _ => none
  | .answer i ex => s.calls[i]?.bind fun call =>
    match call.stage with
    | .exchanging cached =>
      some (s.move i call (.answered cached ex) s.introspection
        [.answered i call.bearerToken ex])
    | _ => none
  | .settle i now => s.calls[i]?.bind fun call =>
    match call.stage with
    | .answered cached ex => some (settle cfg s i call cached ex now)
    | _ => none

def initial (cfg : ClientConfig) : Sys := ⟨.new cfg.maxSize cfg.one_le_maxSize, [], []⟩

/-- The calls of `IntrospectProto` on one client, in any interleaving. -/
def introspect (cfg : ClientConfig) : System Sys Event where
  init s := s = initial cfg
  step := step cfg

/-! ## The shapes of a step -/

/-- The steps of a call, by what they write: the stage, the cache and the notes. -/
inductive Turn (cfg : ClientConfig) (s : Sys) (i : Nat) (call : Call) :
    Stage → IntrospectionCache → List Note → Prop where
  | lookup {now : Int} {cache : IntrospectionCache} {cached : Option IntrospectResponse}
      (hstage : call.stage = .started)
      (hlooked : cachedIntrospection (cfg.forToken call.bearerToken) s.introspection now =
        (cache, cached)) :
      Turn cfg s i call (.exchanging cached) cache (foundNotes i call.bearerToken now cached)
  | answer {cached : Option IntrospectResponse} {ex : Exchange}
      (hstage : call.stage = .exchanging cached) :
      Turn cfg s i call (.answered cached ex) s.introspection [.answered i call.bearerToken ex]
  | store {cached : Option IntrospectResponse} {ex : Exchange} {result : IntrospectResponse}
      {now : Int} (hstage : call.stage = .answered cached ex)
      (hfresh : conclude cached ex = .fresh result) :
      Turn cfg s i call (.returned (some ex) (.fresh result))
        (storeIntrospection (cfg.forToken call.bearerToken) s.introspection result now)
        (if (cfg.forToken call.bearerToken).caches then [.stored i call.bearerToken result now]
          else [])
  | evict {cached : Option IntrospectResponse} {ex : Exchange} {err : IntrospectError}
      (hstage : call.stage = .answered cached ex) (hreject : conclude cached ex = .error err) :
      Turn cfg s i call (.returned (some ex) (.error err))
        (evictIntrospection (cfg.forToken call.bearerToken) s.introspection)
        [.evicted call.bearerToken]
  /-- The call ends without touching the cache. -/
  | quiet {cached : Option IntrospectResponse} {ex : Exchange} {outcome : Outcome}
      (hstage : call.stage = .answered cached ex) (houtcome : conclude cached ex = outcome) :
      Turn cfg s i call (.returned (some ex) outcome) s.introspection []

inductive Step (cfg : ClientConfig) (s : Sys) : Event → Sys → Prop where
  | call {bearerToken : String} {stage : Stage}
      (hstage : stage = .started ∨ stage = .returned none (.error .identityNotConfigured)) :
      Step cfg s (.call bearerToken) { s with calls := s.calls ++ [⟨bearerToken, stage⟩] }
  | turn {e : Event} {i : Nat} {call : Call} {stage : Stage} {cache : IntrospectionCache}
      {notes : List Note} (hcall : s.calls[i]? = some call)
      (hturn : Turn cfg s i call stage cache notes) :
      Step cfg s e (s.move i call stage cache notes)

theorem Step.of_settle {cfg : ClientConfig} {s : Sys} {i : Nat} {call : Call}
    {cached : Option IntrospectResponse} {ex : Exchange} {now : Int}
    (hcall : s.calls[i]? = some call) (hstage : call.stage = .answered cached ex) :
    Step cfg s (.settle i now) (settle cfg s i call cached ex now) := by
  unfold settle
  cases houtcome : conclude cached ex with
  | cached result => exact .turn hcall (.quiet hstage houtcome)
  | fresh result => exact .turn hcall (.store hstage houtcome)
  | error err =>
    cases err with
    | invalidToken | inactiveToken => exact .turn hcall (.evict hstage houtcome)
    | _ => exact .turn hcall (.quiet hstage houtcome)

theorem Step.of_step {cfg : ClientConfig} {s s' : Sys} {e : Event} (h : step cfg s e = some s') :
    Step cfg s e s' := by
  cases e with
  | call bearerToken =>
    cases h
    refine .call ?_
    split
    · exact .inl rfl
    · exact .inr rfl
  | lookup i now =>
    obtain ⟨call, hcall, hact⟩ := Option.bind_eq_some_iff.mp h
    split at hact
    · rename_i hstage
      cases hact
      exact .turn hcall (.lookup hstage rfl)
    · cases hact
  | answer i ex =>
    obtain ⟨call, hcall, hact⟩ := Option.bind_eq_some_iff.mp h
    split at hact
    · rename_i cached hstage
      cases hact
      exact .turn hcall (.answer hstage)
    · cases hact
  | settle i now =>
    obtain ⟨call, hcall, hact⟩ := Option.bind_eq_some_iff.mp h
    split at hact
    · rename_i cached ex hstage
      cases hact
      exact .of_settle hcall hstage
    · cases hact

/-! ## The calls for one token

What the client does to the calls for one token are steps of `Identity.Introspection`, and their
entry goes for no other reason than these steps and the loss of an entry. -/

def unnumbered : Phase → Phase
  | .answered cached ex _ => .answered cached ex 0
  | phase => phase

def Stage.phase : Stage → Phase
  | .started => .started
  | .exchanging cached => .exchanging cached
  | .answered cached ex => .answered cached ex 0
  | .returned _ outcome => .returned outcome

/-- The calls for `token` are those of `a`. -/
def SameCalls (token : String) (s : Sys) (a : Identity.Sys) : Prop :=
  a.calls.map (unnumbered ·.phase) = (s.calls.filter (·.bearerToken = token)).map (·.stage.phase)

/-- The calls for `token` and its entry are those of `a`. -/
structure Sees (token : String) (s : Sys) (a : Identity.Sys) : Prop where
  calls : SameCalls token s a
  entry : a.entry = s.introspection.peek token

section

variable {cfg : ClientConfig} {token : String} {s s' : Sys} {a : Identity.Sys} {i : Nat}
  {call : Call}

theorem exists_sees (ha : (client (cfg.forToken token)).Reachable a) (hcalls : SameCalls token s a)
    (hpeek : ∀ c, s.introspection.peek token = some c → a.entry = some c) :
    ∃ a', (client (cfg.forToken token)).Reachable a' ∧ Sees token s a' := by
  cases hentry : s.introspection.peek token with
  | none => exact ⟨{ a with entry := none }, .step (e := .drop) ha trivial rfl, hcalls, hentry.symm⟩
  | some c => exact ⟨a, ha, hcalls, (hpeek c hentry).trans hentry.symm⟩

theorem Sees.other (h : Sees token s a) (hcall : s.calls[i]? = some call)
    (hne : call.bearerToken ≠ token) (stage : Stage) (cache : IntrospectionCache)
    (notes : List Note) : SameCalls token (s.move i call stage cache notes) a := by
  obtain ⟨l₁, l₂, hcalls, -, hset⟩ := set_split hcall
  have hsame := h.calls
  unfold SameCalls at hsame ⊢
  rw [hsame, Sys.move, hset, hcalls, List.filter_append, List.filter_append,
    List.filter_cons_of_neg (by simpa), List.filter_cons_of_neg (by simpa)]

theorem Sees.own (h : Sees token s a) (hcall : s.calls[i]? = some call)
    (htoken : call.bearerToken = token) :
    ∃ j seen, a.calls[j]? = some seen ∧ unnumbered seen.phase = call.stage.phase ∧
      ∀ stage phase cache notes, unnumbered phase = Stage.phase stage → ∀ a' : Identity.Sys,
        a'.calls = a.calls →
        SameCalls token (s.move i call stage cache notes) (a'.move j seen phase) := by
  obtain ⟨l₁, l₂, hcalls, -, hset⟩ := set_split hcall
  have hsame := h.calls
  rw [SameCalls, hcalls, List.filter_append, List.filter_cons_of_pos (by simpa), List.map_append,
    List.map_cons, List.map_eq_append_iff] at hsame
  obtain ⟨m₁, m, hm, hfront, hrest⟩ := hsame
  obtain ⟨seen, m₂, rfl, hseen, hback⟩ := List.map_eq_cons_iff.mp hrest
  refine ⟨m₁.length, seen, by simp [hm], hseen, ?_⟩
  intro stage phase cache notes hphase a' ha'
  rw [SameCalls, Sys.move, Identity.Sys.move, ha', hm, hset, List.set_append_right _ _ le_rfl,
    Nat.sub_self, List.set_cons_zero, List.filter_append, List.filter_cons_of_pos (by simpa),
    List.map_append, List.map_append, List.map_cons, List.map_cons, hfront, hback, hphase]

theorem Sees.found (h : Sees token s a) (now : Int) :
    a.found (cfg.forToken token) now =
      (cachedIntrospection (cfg.forToken token) s.introspection now).2 := by
  have hsnd := Cache.get_snd s.introspection token
  unfold Identity.Sys.found cachedIntrospection
  rw [h.entry, ← hsnd]
  split
  · show _ = (match s.introspection.get token with
      | (cache, none) => (cache, none)
      | (cache, some cached) =>
        if cached.expiresAt < now then (cache.delete token, none)
        else (cache, some cached.result) : IntrospectionCache × Option IntrospectResponse).2
    cases s.introspection.get token with
    | mk cache cached =>
      cases cached with
      | none => rfl
      | some c =>
        dsimp only [Option.bind_some]
        split <;> rfl
  · rfl

variable {c : CachedIntrospection} {cached : Option IntrospectResponse}

theorem Sees.afterLookup (h : Sees token s a) {now : Int}
    (hpeek : (cachedIntrospection (cfg.forToken token) s.introspection now).1.peek token = some c) :
    a.afterLookup (cfg.forToken token) now = some c := by
  have hbefore := peek_cachedIntrospection hpeek
  unfold Identity.Sys.afterLookup
  rw [h.entry, hbefore]
  split
  · rename_i hcaches
    by_cases hexpired : c.expiresAt < now
    · rw [cachedIntrospection, if_pos hcaches] at hpeek
      have hget : s.introspection.get (cfg.forToken token).bearerToken =
          ((s.introspection.get token).1, some c) :=
        Prod.ext rfl ((Cache.get_snd s.introspection token).trans hbefore)
      rw [hget] at hpeek
      dsimp only at hpeek
      rw [if_pos hexpired] at hpeek
      exact absurd rfl (Cache.peek_delete hpeek).1
    · simpa using hexpired
  · rfl

theorem Sees.afterStore (h : Sees token s a) {result : IntrospectResponse} {now : Int}
    (hpeek : (storeIntrospection (cfg.forToken token) s.introspection
      result now).peek token = some c) : a.afterStore (cfg.forToken token) result now = some c := by
  unfold storeIntrospection at hpeek
  unfold Identity.Sys.afterStore
  split at hpeek
  · rename_i hcaches
    rcases Cache.peek_put hpeek with ⟨-, rfl⟩ | ⟨hne, -⟩
    · rw [if_pos hcaches]
    · exact absurd rfl hne
  · rename_i hcaches
    rw [if_neg hcaches, h.entry, hpeek]

theorem Sees.afterEvict (h : Sees token s a)
    (hpeek : (evictIntrospection (cfg.forToken token) s.introspection).peek token = some c) :
    a.afterEvict (cfg.forToken token) = some c := by
  obtain ⟨hbefore, hempty⟩ := peek_evictIntrospection hpeek
  rw [Identity.Sys.afterEvict, if_pos (hempty rfl), h.entry, hbefore]

theorem Sees.settle (h : Sees token s a) (ha : (client (cfg.forToken token)).Reachable a)
    (hcall : s.calls[i]? = some call) (htoken : call.bearerToken = token) {ex : Exchange}
    (hstage : call.stage = .answered cached ex) (now : Int) :
    ∃ a', (client (cfg.forToken token)).Reachable a' ∧
      Sees token (settle cfg s i call cached ex now) a' := by
  obtain ⟨j, seen, hseen, hphase, hmove⟩ := h.own hcall htoken
  obtain ⟨number, hnumber⟩ : ∃ number, seen.phase = .answered cached ex number := by
    rw [hstage] at hphase
    cases hold : seen.phase <;> simp_all [unnumbered, Stage.phase]
  have hstep : (client (cfg.forToken token)).step a (.settle j now) =
      some (Identity.settle (cfg.forToken token) a j seen cached ex number now) := by
    simp [client, Identity.step, hseen, hnumber]
  -- both sides do the same to the call, and to the entry what `hentry` says
  have hmoves : ∀ outcome entry lastRejected cache notes,
      Identity.settle (cfg.forToken token) a j seen cached ex number now =
        { a with entry := entry, lastRejected := lastRejected }.move j seen (.returned outcome) →
      Client.settle cfg s i call cached ex now =
        s.move i call (.returned (some ex) outcome) cache notes →
      (∀ c, cache.peek token = some c → entry = some c) →
      ∃ a', (client (cfg.forToken token)).Reachable a' ∧
        Sees token (Client.settle cfg s i call cached ex now) a' := by
    intro outcome entry lastRejected cache notes hseen' hs hentry
    rw [hs]
    exact exists_sees (.step ha trivial (hstep.trans (congrArg some hseen')))
      (hmove _ _ _ _ rfl _ rfl) hentry
  have hquiet : ∀ c, s.introspection.peek token = some c → a.entry = some c :=
    fun c hpeek => h.entry.trans hpeek
  subst htoken
  cases houtcome : conclude cached ex with
  | cached result =>
    exact hmoves _ _ _ _ _ (by rw [Identity.settle, houtcome])
      (by rw [Client.settle, houtcome]) hquiet
  | fresh result =>
    exact hmoves _ _ _ _ _ (by rw [Identity.settle, houtcome]; rfl)
      (by rw [Client.settle, houtcome]) fun c hpeek => h.afterStore hpeek
  | error err =>
    cases err with
    | invalidToken | inactiveToken =>
      exact hmoves _ _ _ _ _ (by rw [Identity.settle, houtcome]; rfl)
        (by rw [Client.settle, houtcome]) fun c hpeek => h.afterEvict hpeek
    | _ =>
      exact hmoves _ _ _ _ _ (by rw [Identity.settle, houtcome])
        (by rw [Client.settle, houtcome]) hquiet

theorem Sees.lookup (h : Sees token s a) (ha : (client (cfg.forToken token)).Reachable a)
    (hcall : s.calls[i]? = some call) (htoken : call.bearerToken = token)
    (hstage : call.stage = .started) (now : Int) (notes : List Note) :
    ∃ a', (client (cfg.forToken token)).Reachable a' ∧
      Sees token (s.move i call
        (.exchanging (cachedIntrospection (cfg.forToken token) s.introspection now).2)
        (cachedIntrospection (cfg.forToken token) s.introspection now).1 notes) a' := by
  obtain ⟨j, seen, hseen, hphase, hmove⟩ := h.own hcall htoken
  have hstarted : seen.phase = .started := by
    rw [hstage] at hphase
    cases hold : seen.phase <;> simp_all [unnumbered, Stage.phase]
  have hlook : (client (cfg.forToken token)).step a (.lookup j now) =
      some ({ a with entry := a.afterLookup (cfg.forToken token) now }.move j seen
        (.exchanging (a.found (cfg.forToken token) now))) := by
    simp [client, Identity.step, hseen, hstarted]
  refine exists_sees (.step ha trivial hlook) (hmove _ _ _ _ ?_ _ rfl) fun c => h.afterLookup
  rw [h.found]
  rfl

theorem Sees.answer (h : Sees token s a) (ha : (client (cfg.forToken token)).Reachable a)
    (hcall : s.calls[i]? = some call) (htoken : call.bearerToken = token)
    (hstage : call.stage = .exchanging cached) (ex : Exchange) (notes : List Note) :
    ∃ a', (client (cfg.forToken token)).Reachable a' ∧
      Sees token (s.move i call (.answered cached ex) s.introspection notes) a' := by
  obtain ⟨j, seen, hseen, hphase, hmove⟩ := h.own hcall htoken
  have hexchanging : seen.phase = .exchanging cached := by
    rw [hstage] at hphase
    cases hold : seen.phase <;> simp_all [unnumbered, Stage.phase]
  have hanswer : (client (cfg.forToken token)).step a (.answer j ex) =
      some ({ a with
        answers := a.answers + 1
        lastActive := if ex.isActive then a.answers + 1 else a.lastActive }.move j seen
          (.answered cached ex (a.answers + 1))) := by
    simp [client, Identity.step, hseen, hexchanging]
  exact exists_sees (.step ha trivial hanswer) (hmove _ _ _ _ rfl _ rfl)
    fun c hpeek => h.entry.trans hpeek

theorem settle_other (cfg : ClientConfig) (s : Sys) (i : Nat) (hne : call.bearerToken ≠ token)
    (cached : Option IntrospectResponse) (ex : Exchange) (now : Int) :
    ∃ stage cache notes, Client.settle cfg s i call cached ex now =
      s.move i call stage cache notes ∧
      ∀ c, cache.peek token = some c → s.introspection.peek token = some c := by
  unfold Client.settle
  cases conclude cached ex with
  | cached result => exact ⟨_, _, _, rfl, fun c hpeek => hpeek⟩
  | fresh result =>
    refine ⟨_, _, _, rfl, fun c hpeek => ?_⟩
    rcases peek_storeIntrospection hpeek with ⟨-, heq, -⟩ | hold
    · exact absurd heq.symm hne
    · exact hold
  | error err =>
    cases err with
    | invalidToken | inactiveToken =>
      exact ⟨_, _, _, rfl, fun c hpeek => (peek_evictIntrospection hpeek).1⟩
    | _ => exact ⟨_, _, _, rfl, fun c hpeek => hpeek⟩

/-- **The calls for one token are those of `Identity.Introspection`**: whatever a client does, what it
    has done to the calls for a token and to their entry is a run of the system for that token. -/
theorem introspect_refines_client (h : (introspect cfg).Reachable s) (token : String) :
    ∃ a, (client (cfg.forToken token)).Reachable a ∧ Sees token s a := by
  refine System.Reachable.invariant (P := fun s =>
    ∃ a, (client (cfg.forToken token)).Reachable a ∧ Sees token s a) ?_ ?_ h
  · rintro s rfl
    refine exists_sees (a := ⟨none, [], 0, 0, 0⟩) (.init rfl) rfl fun c hpeek => ?_
    cases hpeek
  · rintro s e s' ⟨a, ha, hsees⟩ hstep
    -- other tokens can only push the entry out of the cache, which the system for one token
    -- may do at any time
    have hentry : ∀ c, s.introspection.peek token = some c → a.entry = some c :=
      fun c hpeek => hsees.entry.trans hpeek
    cases e with
    | call bearerToken =>
      cases hstep
      by_cases htoken : bearerToken = token
      · subst htoken
        -- the new call is the last one in both
        refine exists_sees (.step (e := .call) ha trivial rfl) ?_ hentry
        have hcalls := hsees.calls
        unfold SameCalls at hcalls ⊢
        simp only [List.map_append, List.filter_append, hcalls, List.append_cancel_left_eq]
        cases (cfg.forToken bearerToken).configured <;> simp [unnumbered, Stage.phase]
      · refine exists_sees ha ?_ hentry
        have hcalls := hsees.calls
        unfold SameCalls at hcalls ⊢
        simp [hcalls, htoken]
    | lookup i now =>
      obtain ⟨call, hcall, hact⟩ := Option.bind_eq_some_iff.mp hstep
      split at hact
      · rename_i hstage
        cases hact
        by_cases htoken : call.bearerToken = token
        · subst htoken
          exact hsees.lookup ha hcall rfl hstage now _
        · exact exists_sees ha (hsees.other hcall htoken _ _ _)
            fun c hpeek => hentry c (peek_cachedIntrospection hpeek)
      · cases hact
    | answer i ex =>
      obtain ⟨call, hcall, hact⟩ := Option.bind_eq_some_iff.mp hstep
      split at hact
      · rename_i cached hstage
        cases hact
        by_cases htoken : call.bearerToken = token
        · exact hsees.answer ha hcall htoken hstage ex _
        · exact exists_sees ha (hsees.other hcall htoken _ _ _) hentry
      · cases hact
    | settle i now =>
      obtain ⟨call, hcall, hact⟩ := Option.bind_eq_some_iff.mp hstep
      split at hact
      · rename_i cached ex hstage
        cases hact
        by_cases htoken : call.bearerToken = token
        · exact hsees.settle ha hcall htoken hstage now
        · obtain ⟨stage, cache, notes, hs, hpeek⟩ := settle_other cfg s i htoken cached ex now
          rw [hs]
          exact exists_sees ha (hsees.other hcall htoken _ _ _) fun c hc => hentry c (hpeek c hc)
      · cases hact

end

end Client

end ServiceRuntime.Identity
