import ServiceRuntime.Identity.Client

/-!
# The Cache as a Fallback

A result from the cache stands in for the service only while the service cannot be asked. Where
such a result comes from is read off the log: the lookup of the call that returns it, before that a
store of the same result for the same token, within the lifetime of the entry and without an
eviction of the token in between, and before that the active answer of the service.
-/

namespace ServiceRuntime.Identity

open GoTime Transition

/-! ## Outages -/

/-- The service could not be asked, or its answer could not be read. -/
def Exchange.isOutage : Exchange → Bool
  | .unbuilt _ => false
  | .failed _ => true
  | .response statusCode body =>
    statusCode == 408 || statusCode == 429 || decide (500 ≤ statusCode) ||
      statusCode == 200 && match body with
        | .unreadable _ | .undecodable _ => true
        | .decoded _ => false

def Outcome.result : Outcome → Option IntrospectResponse
  | .cached result | .fresh result => some result
  | .error _ => none

variable {cached : Option IntrospectResponse}

theorem fallback_result {detail : String} {result : IntrospectResponse}
    (h : (fallback cached detail).result = some result) :
    cached = some result ∧ fallback cached detail = .cached result := by
  cases cached with
  | none => cases h
  | some r =>
    cases h
    exact ⟨rfl, rfl⟩

/-- **The exits of a call**: a call that returns a result returns its own active answer, or what it
    had found in the cache, and the latter only in an outage. -/
theorem conclude_result {ex : Exchange} {result : IntrospectResponse}
    (h : (conclude cached ex).result = some result) :
    (ex = .response 200 (.decoded result) ∧ result.active = true) ∨
      (ex.isOutage = true ∧ cached = some result ∧ conclude cached ex = .cached result) := by
  unfold conclude at h ⊢
  split at h
  · cases h
  · obtain ⟨hcached, hsame⟩ := fallback_result h
    exact .inr ⟨rfl, hcached, hsame⟩
  -- an answer: by its status, and with status 200 by its body
  · rename_i statusCode body
    split at h
    · rename_i hok
      subst hok
      split at h
      · obtain ⟨hcached, hsame⟩ := fallback_result h
        exact .inr ⟨rfl, hcached, hsame⟩
      · obtain ⟨hcached, hsame⟩ := fallback_result h
        exact .inr ⟨rfl, hcached, hsame⟩
      · split at h
        · rename_i hactive
          cases h
          exact .inl ⟨rfl, hactive⟩
        · cases h
    · rename_i hnotOk
      simp only [if_neg hnotOk]
      split at h
      -- 408 and 429 count as outages like the 5xx
      · rename_i hbusy
        obtain ⟨hcached, hsame⟩ := fallback_result h
        refine .inr ⟨?_, hcached, ?_⟩
        · rcases hbusy with rfl | rfl
          · rfl
          · rfl
        · rw [if_pos hbusy, hsame]
      · rename_i hnotBusy
        split at h
        · rename_i hserver
          obtain ⟨hcached, hsame⟩ := fallback_result h
          refine .inr ⟨?_, hcached, ?_⟩
          · simp [Exchange.isOutage, ge_iff_le.mp hserver]
          · rw [if_neg hnotBusy, if_pos hserver, hsame]
        · cases h

theorem conclude_fresh {ex : Exchange} {result : IntrospectResponse}
    (h : conclude cached ex = .fresh result) :
    ex = .response 200 (.decoded result) ∧ result.active = true := by
  have hresult : (conclude cached ex).result = some result := by
    rw [h]
    rfl
  rcases conclude_result hresult with hown | ⟨-, -, hcached⟩
  · exact hown
  · rw [h] at hcached
    cases hcached

namespace Client

/-! ## Where a cached result comes from -/

/-- In this log, newest first, `result` was stored for `token` at `storedAt`, after the service had
    given it as an active answer; and the token was not evicted since. -/
structure StoredSince (log : List Note) (token : String) (result : IntrospectResponse)
    (storedAt : Int) : Prop where
  active : result.active = true
  split : ∃ (i : Nat) (between earlier : List Note),
    log = between ++ Note.stored i token result storedAt :: earlier ∧
      Note.evicted token ∉ between ∧
      Note.answered i token (.response 200 (.decoded result)) ∈ earlier

/-- The lookup of call `i` found `result`, stored at most `cacheTTL` before. -/
structure FoundFrom (cfg : ClientConfig) (log : List Note) (i : Nat) (token : String)
    (result : IntrospectResponse) : Prop where
  caches : (cfg.forToken token).caches = true
  split : ∃ (later before : List Note) (lookupAt storedAt : Int),
    log = later ++ Note.found i token result lookupAt :: before ∧
      lookupAt ≤ storedAt + cfg.cacheTTL.ns ∧ StoredSince before token result storedAt

variable {log notes : List Note} {token : String} {cfg : ClientConfig}

theorem StoredSince.mono {result : IntrospectResponse} {storedAt : Int}
    (h : StoredSince log token result storedAt) (hnotes : .evicted token ∉ notes) :
    StoredSince (notes ++ log) token result storedAt := by
  obtain ⟨hactive, i, between, earlier, rfl, hbetween, hanswered⟩ := h
  refine ⟨hactive, i, notes ++ between, earlier, (List.append_assoc _ _ _).symm, ?_, hanswered⟩
  rw [List.mem_append, not_or]
  exact ⟨hnotes, hbetween⟩

theorem FoundFrom.mono {i : Nat} {result : IntrospectResponse}
    (h : FoundFrom cfg log i token result) : FoundFrom cfg (notes ++ log) i token result := by
  obtain ⟨hcaches, later, before, lookupAt, storedAt, rfl, hlifetime, hstored⟩ := h
  exact ⟨hcaches, notes ++ later, before, lookupAt, storedAt, (List.append_assoc _ _ _).symm,
    hlifetime, hstored⟩

/-- What holds of call `i`, by how far it has got. -/
def Stage.Explained (cfg : ClientConfig) (log : List Note) (i : Nat) (token : String) :
    Stage → Prop
  | .started => True
  | .exchanging cached => ∀ result, cached = some result → FoundFrom cfg log i token result
  | .answered cached ex =>
    (∀ result, cached = some result → FoundFrom cfg log i token result) ∧ .answered i token ex ∈ log
  | .returned ex outcome => ∀ result, outcome.result = some result →
    (ex = some (.response 200 (.decoded result)) ∧ result.active = true) ∨
      ((∃ x, ex = some x ∧ x.isOutage = true) ∧ FoundFrom cfg log i token result)

theorem Stage.Explained.mono {i : Nat} {stage : Stage} (h : stage.Explained cfg log i token) :
    stage.Explained cfg (notes ++ log) i token := by
  cases stage with
  | started => trivial
  | exchanging cached => exact fun result hresult => (h result hresult).mono
  | answered cached ex =>
    exact ⟨fun result hresult => (h.1 result hresult).mono, List.mem_append_right _ h.2⟩
  | returned ex outcome =>
    intro result hresult
    rcases h result hresult with hown | ⟨houtage, hfound⟩
    · exact .inl hown
    · exact .inr ⟨houtage, hfound.mono⟩

/-- The invariant: every entry of the cache and every call is accounted for. -/
structure Explained (cfg : ClientConfig) (s : Sys) : Prop where
  cache : ∀ token cached, s.introspection.peek token = some cached →
    (cfg.forToken token).caches = true ∧
      ∃ storedAt, cached.expiresAt = storedAt + cfg.cacheTTL.ns ∧
        StoredSince s.log token cached.result storedAt
  calls : ∀ {i : Nat} {call : Call}, s.calls[i]? = some call →
    call.stage.Explained cfg s.log i call.bearerToken

section

variable {cfg : ClientConfig} {s : Sys} {i : Nat} {call : Call} {stage : Stage}
  {cache : IntrospectionCache} {notes : List Note}

theorem Turn.stageExplained (hturn : Turn cfg s i call stage cache notes) (h : Explained cfg s)
    (hcall : s.calls[i]? = some call) :
    stage.Explained cfg (notes ++ s.log) i call.bearerToken := by
  have hbefore := h.calls hcall
  cases hturn with
  | @lookup now cache cached hstage hlooked =>
    -- what was found was in the cache, and its history is that of the entry
    rintro result rfl
    have hfound : (cachedIntrospection (cfg.forToken call.bearerToken) s.introspection now).2 =
        some result := by rw [hlooked]
    obtain ⟨hcaches, c, hpeek, rfl, hfresh⟩ := cachedIntrospection_found hfound
    obtain ⟨-, storedAt, hexpires, hstored⟩ := h.cache _ c hpeek
    exact ⟨hcaches, [], s.log, now, storedAt, rfl, hexpires ▸ hfresh, hstored⟩
  | answer hstage =>
    rw [hstage] at hbefore
    exact ⟨fun result hresult => (hbefore result hresult).mono, List.mem_cons_self⟩
  | store hstage hfresh =>
    rintro result ⟨⟩
    obtain ⟨rfl, hactive⟩ := conclude_fresh hfresh
    exact .inl ⟨rfl, hactive⟩
  | evict => exact fun result hresult => by cases hresult
  | quiet hstage houtcome =>
    -- a fallback returns what the lookup had found, however old it is by now
    rw [hstage] at hbefore
    intro result hresult
    rw [← houtcome] at hresult
    rcases conclude_result hresult with ⟨rfl, hactive⟩ | ⟨houtage, hcached, -⟩
    · exact .inl ⟨rfl, hactive⟩
    · exact .inr ⟨⟨_, rfl, houtage⟩, (hbefore.1 result hcached).mono⟩

theorem Turn.cacheExplained (hturn : Turn cfg s i call stage cache notes) (h : Explained cfg s)
    (hcall : s.calls[i]? = some call) {token : String} {cached : CachedIntrospection}
    (hpeek : cache.peek token = some cached) :
    (cfg.forToken token).caches = true ∧
      ∃ storedAt, cached.expiresAt = storedAt + cfg.cacheTTL.ns ∧
        StoredSince (notes ++ s.log) token cached.result storedAt := by
  -- an entry that was there before stays, unless the notes evict its token
  have hkeep : s.introspection.peek token = some cached → .evicted token ∉ notes →
      (cfg.forToken token).caches = true ∧
        ∃ storedAt, cached.expiresAt = storedAt + cfg.cacheTTL.ns ∧
          StoredSince (notes ++ s.log) token cached.result storedAt := by
    intro hold hnotes
    obtain ⟨hcaches, storedAt, hexpires, hstored⟩ := h.cache token cached hold
    exact ⟨hcaches, storedAt, hexpires, hstored.mono hnotes⟩
  cases hturn with
  | @lookup now cache found hstage hlooked =>
    have hold : (cachedIntrospection (cfg.forToken call.bearerToken) s.introspection now).1.peek
        token = some cached := by
      rw [hlooked]
      exact hpeek
    refine hkeep (peek_cachedIntrospection hold) ?_
    · cases found with
      | none => exact List.not_mem_nil
      | some result =>
        intro hmem
        cases List.mem_singleton.mp hmem
  | answer =>
    refine hkeep hpeek fun hmem => ?_
    cases List.mem_singleton.mp hmem
  | @store found ex result now hstage hfresh =>
    -- the entry that was just stored, or one of before
    rcases peek_storeIntrospection hpeek with ⟨hcaches, rfl, rfl⟩ | hold
    · have hstages := h.calls hcall
      rw [hstage] at hstages
      obtain ⟨rfl, hactive⟩ := conclude_fresh hfresh
      rw [if_pos hcaches]
      exact ⟨hcaches, now, rfl, hactive, i, [], s.log, rfl, List.not_mem_nil, hstages.2⟩
    · refine hkeep hold fun hmem => ?_
      split at hmem
      · cases List.mem_singleton.mp hmem
      · cases hmem
  | evict =>
    obtain ⟨hold, hempty⟩ := peek_evictIntrospection hpeek
    refine hkeep hold fun hmem => ?_
    -- the entry of an evicted token is gone, and without a token there is none
    have htoken : token = call.bearerToken := by
      cases List.mem_singleton.mp hmem
      rfl
    have hcaches := ClientConfig.caches_forToken.mp (h.cache token cached hold).1
    exact hcaches.2 (htoken.trans (hempty htoken))
  | quiet => exact hkeep hpeek List.not_mem_nil

end

theorem Step.explained {s s' : Sys} {e : Event} (hstep : Step cfg s e s') (h : Explained cfg s) :
    Explained cfg s' := by
  cases hstep with
  | call hstage =>
    refine ⟨h.cache, fun {i c} hc => ?_⟩
    rcases getElem?_concat_iff.mp hc with hc | ⟨-, rfl⟩
    · exact h.calls hc
    · rcases hstage with rfl | rfl
      · trivial
      · exact fun result hresult => by cases hresult
  | turn hcall hturn =>
    refine ⟨fun token cached hpeek => hturn.cacheExplained h hcall hpeek, fun {k c} hc => ?_⟩
    rcases (getElem?_set_iff hcall).mp hc with ⟨rfl, rfl⟩ | ⟨-, hc⟩
    · exact hturn.stageExplained h hcall
    · exact (h.calls hc).mono

theorem explained_of_reachable {s : Sys} (h : (introspect cfg).Reachable s) : Explained cfg s := by
  refine System.Reachable.invariant (P := Explained cfg) ?_
    (fun s e s' hs hstep => (Step.of_step hstep).explained hs) h
  rintro s rfl
  exact ⟨fun token cached hpeek => (by cases hpeek), fun {i call} hcall => (by cases hcall)⟩

/-! ## Main theorem -/

/-- **The cache is a fallback**: in every reachable state, a call that has returned a result has
    returned its own active answer; or its exchange was an outage, the cache is in use, and the
    result was found at its lookup, stored at most `cacheTTL` before, for the same token, from an
    active answer of the service, with no eviction of the token between store and lookup. -/
theorem cached_only_in_outage (cfg : ClientConfig) {s : Sys}
    (hs : (introspect cfg).Reachable s) {i : Nat} {call : Call}
    (hcall : s.calls[i]? = some call) {ex : Option Exchange} {outcome : Outcome}
    (hreturned : call.stage = .returned ex outcome) {result : IntrospectResponse}
    (hresult : outcome.result = some result) :
    (ex = some (.response 200 (.decoded result)) ∧ result.active = true) ∨
      ((∃ x, ex = some x ∧ x.isOutage = true) ∧
        0 < cfg.cacheTTL.ns ∧ call.bearerToken ≠ "" ∧
        ∃ (later between earlier : List Note) (lookupAt storedAt : Int) (j : Nat),
          s.log = later ++ Note.found i call.bearerToken result lookupAt ::
            (between ++ Note.stored j call.bearerToken result storedAt :: earlier) ∧
          lookupAt ≤ storedAt + cfg.cacheTTL.ns ∧
          Note.evicted call.bearerToken ∉ between ∧
          Note.answered j call.bearerToken (.response 200 (.decoded result)) ∈ earlier ∧
          result.active = true) := by
  have hexplained := (explained_of_reachable hs).calls hcall
  rw [hreturned] at hexplained
  -- the invariant has accounted for the result when the call returned
  rcases hexplained result hresult with hown | ⟨houtage, hfound⟩
  · exact .inl hown
  · obtain ⟨hcaches, later, before, lookupAt, storedAt, hlog, hlifetime, hactive, j, between, earlier,
      rfl, hbetween, hanswered⟩ := hfound
    obtain ⟨httl, htoken⟩ := ClientConfig.caches_forToken.mp hcaches
    exact .inr ⟨houtage, httl, htoken, later, between, earlier, lookupAt, storedAt, j, hlog,
      hlifetime, hbetween, hanswered, hactive⟩

def oneSecond : ClientConfig := ⟨"https://identity/introspect", Duration.second, 0⟩

def activeResult : IntrospectResponse := 
  { active := true, subject := "user-1", organizationId := "org-1", scopes := ["read"] }

/-- A call gets an active answer and stores it; the request of the next call fails. -/
def outage : List Event :=
  [.call "token", .lookup 0 0, .answer 0 (.response 200 (.decoded activeResult)), .settle 0 0,
    .call "token", .lookup 1 1000, .answer 1 (.failed "connection refused"), .settle 1 1001]

/-- In an outage a cached result is returned, and its history is as `cached_only_in_outage` says. -/
theorem cached_in_outage :
    ∃ s call, (introspect oneSecond).Reachable s ∧ s.calls[1]? = some call ∧
      call.stage = .returned (some (.failed "connection refused")) (.cached activeResult) ∧
      ∃ (later between earlier : List Note) (lookupAt storedAt : Int) (j : Nat),
        s.log = later ++ Note.found 1 call.bearerToken activeResult lookupAt ::
          (between ++ Note.stored j call.bearerToken activeResult storedAt :: earlier) ∧
        lookupAt ≤ storedAt + oneSecond.cacheTTL.ns ∧ Note.evicted call.bearerToken ∉ between := by
  have hrun : (((introspect oneSecond).run (initial oneSecond) outage).bind fun s =>
      s.calls[1]?.map fun call => call.stage) =
      some (.returned (some (.failed "connection refused")) (.cached activeResult)) := by
    decide +kernel
  obtain ⟨s, hs, hcalls⟩ := Option.bind_eq_some_iff.mp hrun
  obtain ⟨call, hcall, hstage⟩ := Option.map_eq_some_iff.mp hcalls
  have hreach : (introspect oneSecond).Reachable s := System.Reachable.run (.init rfl) hs
  refine ⟨s, call, hreach, hcall, hstage, ?_⟩
  rcases cached_only_in_outage oneSecond hreach hcall hstage rfl with ⟨hown, -⟩ | ⟨-, -, -, h⟩
  · cases hown
  · obtain ⟨later, between, earlier, lookupAt, storedAt, j, hlog, hlifetime, hbetween, -⟩ := h
    exact ⟨later, between, earlier, lookupAt, storedAt, j, hlog, hlifetime, hbetween⟩

end Client

end ServiceRuntime.Identity
