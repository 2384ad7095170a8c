import ServiceRuntime.Identity.Introspection

/-!
# Revocation and the Cache

A rejecting answer evicts the token, so that a later outage cannot bring it back. But an active
answer is stored whenever its call gets to it. A call whose answer is older than the rejection
can store after the eviction, and the revoked token is served from the cache again.

`StoresCurrent` is the condition that excludes this: when an active answer is stored, the latest
active answer of the service is newer than every rejection that was returned.
-/

namespace ServiceRuntime.Identity

open GoTime Transition

/-! ## The property and the condition -/

/-- No call returned a cached result if the token was rejected before the call started and the
    service has given no active answer since that rejection. -/
def NotUndone (s : Sys) : Prop :=
  ∀ call ∈ s.calls, ∀ result, call.phase = .returned (.cached result) →
    call.rejectedBefore = 0 ∨ call.rejectedBefore < s.lastActive

/-- The service has said that the token is active, and the call has not stored it yet. -/
def Phase.answeredActive : Phase → Bool
  | .answered _ ex _ => ex.isActive
  | _ => false

/-- When an active answer is stored, an active answer is the latest. -/
def StoresCurrent (cfg : Config) (s : Sys) : Event → Prop
  | .settle i _ =>
    ∀ call ∈ s.calls[i]?, cfg.caches = true → call.phase.answeredActive = true →
      s.lastRejected < s.lastActive
  | _ => True

instance (cfg : Config) (s : Sys) (e : Event) : Decidable (StoresCurrent cfg s e) := by
  unfold StoresCurrent
  split
  · infer_instance
  · infer_instance

/-! ## What a call concludes -/

variable {cached : Option IntrospectResponse} {result : IntrospectResponse} {ex : Exchange}
  {s s' : Sys} {cfg : Config} {e : Event}

theorem fallback_eq_cached {detail : String} (h : fallback cached detail = .cached result) :
    cached = some result := by
  cases cached with
  | none => cases h
  | some r =>
    cases h
    rfl

theorem fallback_ne_fresh {detail : String} : fallback cached detail ≠ .fresh result := by
  cases cached with
  | none | some r => exact fun h => by cases h

theorem conclude_eq_cached (h : conclude cached ex = .cached result) : cached = some result := by
  unfold conclude at h
  split at h
  · cases h
  · exact fallback_eq_cached h
  · split at h
    · split at h
      · exact fallback_eq_cached h
      · exact fallback_eq_cached h
      · split at h
        · cases h
        · cases h
    · split at h
      · exact fallback_eq_cached h
      · split at h
        · exact fallback_eq_cached h
        · cases h

theorem isActive_of_conclude (h : conclude cached ex = .fresh result) : ex.isActive = true := by
  unfold conclude at h
  split at h
  · cases h
  · exact absurd h fallback_ne_fresh
  · split at h
    · rename_i hok
      split at h
      · exact absurd h fallback_ne_fresh
      · exact absurd h fallback_ne_fresh
      · split at h
        · rename_i hactive
          simp [Exchange.isActive, hok, hactive]
        · cases h
    · split at h
      · exact absurd h fallback_ne_fresh
      · split at h
        · exact absurd h fallback_ne_fresh
        · cases h

theorem conclude_of_isActive (h : ex.isActive = true) (cached : Option IntrospectResponse) :
    ∃ result, conclude cached ex = .fresh result := by
  unfold Exchange.isActive at h
  split at h
  · rename_i statusCode result
    simp only [Bool.and_eq_true, beq_iff_eq] at h
    exact ⟨result, by simp [conclude, h.1, h.2]⟩
  · cases h

/-! ## Reachable states -/

theorem mem_move {i : Nat} {call c : Call} {phase : Phase} (h : c ∈ (s.move i call phase).calls) :
    c ∈ s.calls ∨ c = { call with phase := phase } :=
  List.mem_or_eq_of_mem_set h

def Phase.inProgress : Phase → Bool
  | .returned _ => false
  | _ => true

def Phase.hasCached : Phase → Bool
  | .exchanging cached => cached.isSome
  | .answered cached _ _ => cached.isSome
  | .returned (.cached _) => true
  | _ => false

/-- What a step makes of a call. -/
structure Moved (s s' : Sys) (call c : Call) : Prop where
  rejectedBefore : c.rejectedBefore = call.rejectedBefore
  inProgress : c.phase.inProgress = true → call.phase.inProgress = true
  hasCached : c.phase.hasCached = true → call.phase.hasCached = true ∨ s.entry.isSome = true
  answeredActive : c.phase.answeredActive = true →
    call.phase.answeredActive = true ∨ 0 < s'.lastActive

theorem Moved.refl (s s' : Sys) (call : Call) : Moved s s' call call :=
  ⟨rfl, id, .inl, .inl⟩

theorem moved_of_move {t : Sys} {i : Nat} {call c : Call} {phase : Phase}
    (hcall : s.calls[i]? = some call) (ht : t.calls = s.calls)
    (hc : c ∈ (t.move i call phase).calls) (hmoved : Moved s s' call { call with phase := phase }) :
    ∃ call ∈ s.calls, Moved s s' call c := by
  rcases mem_move hc with hc | rfl
  · exact ⟨c, ht ▸ hc, .refl s s' c⟩
  · exact ⟨call, List.mem_of_getElem? hcall, hmoved⟩

theorem found_isSome {now : Int} (h : (s.found cfg now).isSome = true) : s.entry.isSome = true := by
  unfold Sys.found at h
  split at h
  · cases hentry : s.entry with
    | none =>
      rw [hentry] at h
      cases h
    | some c => rfl
  · cases h

/-- **One step of the calls**: a call is new and has nothing, or has moved as `Moved` says. -/
theorem Step.calls (hstep : Step cfg s e s') {c : Call} (hc : c ∈ s'.calls) :
    (c.rejectedBefore = s.lastRejected ∧ c.phase.hasCached = false ∧
      c.phase.answeredActive = false ∧ (c.phase.inProgress = true → cfg.configured = true)) ∨
    ∃ call ∈ s.calls, Moved s s' call c := by
  cases hstep with
  | call hphase =>
    rcases List.mem_append.mp hc with hc | hc
    · exact .inr ⟨c, hc, .refl s _ c⟩
    · obtain rfl := List.mem_singleton.mp hc
      rcases hphase with ⟨rfl, hconfigured⟩ | rfl
      · exact .inl ⟨rfl, rfl, rfl, fun _ => hconfigured⟩
      · exact .inl ⟨rfl, rfl, rfl, fun h => by cases h⟩
  | lookup hcall hphase =>
    refine .inr (moved_of_move hcall rfl hc ⟨rfl, ?_, fun h => .inr (found_isSome h), ?_⟩)
    · rw [hphase]
      exact fun _ => rfl
    · exact fun h => by cases h
  | answer hcall hphase =>
    refine .inr (moved_of_move hcall rfl hc ⟨rfl, ?_, ?_, fun h => .inr ?_⟩)
    · rw [hphase]
      exact fun _ => rfl
    · rw [hphase]
      exact .inl
    -- an active answer has just been counted
    · have hactive : Exchange.isActive _ = true := h
      simp only [Sys.move, if_pos hactive]
      omega
  | store hcall hphase hfresh | evict hcall hphase hreject =>
    exact .inr (moved_of_move hcall rfl hc
      ⟨rfl, fun h => (by cases h), fun h => (by cases h), fun h => (by cases h)⟩)
  | @quiet i call cached ex number now outcome hcall hphase houtcome =>
    refine .inr (moved_of_move hcall rfl hc
      ⟨rfl, fun h => (by cases h), fun h => ?_, fun h => (by cases h)⟩)
    -- only a fallback returns a cached result, and it had it from the lookup
    cases outcome with
    | cached result =>
      rw [hphase, conclude_eq_cached houtcome]
      exact .inl rfl
    | fresh result | error err => cases h
  | drop => exact .inr ⟨c, hc, .refl s _ c⟩

/-- There is an entry only if the cache is in use, and a call in progress only if the client is
    configured; the answers are counted. -/
structure Sane (cfg : Config) (s : Sys) : Prop where
  caches : s.entry.isSome = true → cfg.caches = true
  bounded : s.lastActive ≤ s.answers
  configured : ∀ call : Call, call ∈ s.calls → call.phase.inProgress = true →
    cfg.configured = true
  counted : ∀ call : Call, call ∈ s.calls → call.phase.answeredActive = true → 0 < s.lastActive

/-- **One step of the entry**: there is one only if there was one or an active answer is
    stored. -/
theorem Step.entry (hstep : Step cfg s e s') (hentry : s'.entry.isSome = true) :
    (s.entry.isSome = true ∧ (s'.lastRejected = s.lastRejected ∨ cfg.bearerToken = "")) ∨
      (cfg.caches = true ∧ s'.lastRejected = s.lastRejected ∧
        ∃ i call now, e = .settle i now ∧ s.calls[i]? = some call ∧
          call.phase.answeredActive = true) := by
  cases hstep with
  | call hphase => exact .inl ⟨hentry, .inl rfl⟩
  | lookup hcall hphase =>
    refine .inl ⟨?_, .inl rfl⟩
    simp only [Sys.move, Sys.afterLookup] at hentry
    split at hentry
    · cases h : s.entry with
      | none =>
        rw [h] at hentry
        cases hentry
      | some c => rfl
    · exact hentry
  | answer hcall hphase => exact .inl ⟨hentry, .inl rfl⟩
  | @store i call cached ex number now result hcall hphase hfresh =>
    simp only [Sys.move, Sys.afterStore] at hentry
    split at hentry
    · rename_i hcaches
      refine .inr ⟨hcaches, rfl, i, call, now, rfl, hcall, ?_⟩
      rw [hphase]
      exact isActive_of_conclude hfresh
    · exact .inl ⟨hentry, .inl rfl⟩
  | evict hcall hphase hreject =>
    -- an eviction leaves an entry only where there is no token to evict
    simp only [Sys.move, Sys.afterEvict] at hentry
    split at hentry
    · rename_i htoken
      exact .inl ⟨hentry, .inr htoken⟩
    · cases hentry
  | quiet hcall hphase houtcome => exact .inl ⟨hentry, .inl rfl⟩
  | drop => cases hentry

theorem Step.counters (hstep : Step cfg s e s') (hbounded : s.lastActive ≤ s.answers) :
    s.lastActive ≤ s'.lastActive ∧ s'.lastActive ≤ s'.answers ∧ s.lastRejected ≤ s'.lastRejected := by
  cases hstep with
  | answer hcall hphase =>
    simp only [Sys.move]
    refine ⟨?_, ?_, le_refl _⟩
    · split <;> omega
    · split <;> omega
  | evict hcall hphase hreject => exact ⟨le_refl _, hbounded, le_max_left _ _⟩
  | _ => exact ⟨le_refl _, hbounded, le_refl _⟩

theorem Step.sane (hstep : Step cfg s e s') (h : Sane cfg s) : Sane cfg s' := by
  have hcounters := hstep.counters h.bounded
  refine ⟨fun hentry => ?_, hcounters.2.1, fun c hc hprogress => ?_, fun c hc hactive => ?_⟩
  · rcases hstep.entry hentry with ⟨hentry, -⟩ | ⟨hcaches, -⟩
    · exact h.caches hentry
    · exact hcaches
  · rcases hstep.calls hc with ⟨-, -, -, hconfigured⟩ | ⟨call, hcall, hmoved⟩
    · exact hconfigured hprogress
    · exact h.configured call hcall (hmoved.inProgress hprogress)
  · rcases hstep.calls hc with ⟨-, -, hnone, -⟩ | ⟨call, hcall, hmoved⟩
    · rw [hnone] at hactive
      cases hactive
    · rcases hmoved.answeredActive hactive with hbefore | hnow
      · exact lt_of_lt_of_le (h.counted call hcall hbefore) hcounters.1
      · exact hnow

theorem sane_of_reachable (h : (client cfg).Reachable s) : Sane cfg s := by
  refine System.Reachable.invariant (P := Sane cfg) ?_
    (fun s e s' hs hstep => (Step.of_step hstep).sane hs) h
  rintro s rfl
  exact ⟨fun h => (by cases h), le_refl _, fun c hc => (by cases hc), fun c hc => (by cases hc)⟩

/-! ## No rejection is undone while stores are current -/

/-- While there is an entry, the service's latest active answer is newer than every rejection
    returned; a call that has a result from the cache has it after that active answer. -/
structure Current (s : Sys) : Prop where
  entry : s.entry.isSome = true → s.lastRejected < s.lastActive
  before : ∀ call : Call, call ∈ s.calls → call.rejectedBefore ≤ s.lastRejected
  calls : ∀ call : Call, call ∈ s.calls → call.phase.hasCached = true →
    call.rejectedBefore < s.lastActive

theorem Step.current (hstep : Step cfg s e s') (hstores : StoresCurrent cfg s e)
    (hsane : Sane cfg s) (h : Current s) : Current s' := by
  obtain ⟨hactive, -, hrejected⟩ := hstep.counters hsane.bounded
  refine ⟨fun hentry => ?_, fun c hc => ?_, fun c hc hcached => ?_⟩
  · rcases hstep.entry hentry with
      ⟨hbefore, hsame | htoken⟩ | ⟨hcaches, hsame, i, call, now, rfl, hcall, hanswered⟩
    · rw [hsame]
      exact lt_of_lt_of_le (h.entry hbefore) hactive
    -- without a token the cache is not in use
    · have hcaches := hsane.caches hbefore
      simp [Config.caches, htoken] at hcaches
    · rw [hsame]
      exact lt_of_lt_of_le (hstores call hcall hcaches hanswered) hactive
  · rcases hstep.calls hc with ⟨hbefore, -⟩ | ⟨call, hcall, hmoved⟩
    · omega
    · rw [hmoved.rejectedBefore]
      exact le_trans (h.before call hcall) hrejected
  · rcases hstep.calls hc with ⟨-, hnone, -⟩ | ⟨call, hcall, hmoved⟩
    · rw [hnone] at hcached
      cases hcached
    · rw [hmoved.rejectedBefore]
      refine lt_of_lt_of_le ?_ hactive
      rcases hmoved.hasCached hcached with hbefore | hentry
      · exact h.calls call hcall hbefore
      · exact lt_of_le_of_lt (h.before call hcall) (h.entry hentry)

theorem current_of_reachableBy (h : (client cfg).ReachableBy (StoresCurrent cfg) s) :
    Current s := by
  refine h.invariant ?_ fun s e s' hreach hs hstores hstep =>
    (Step.of_step hstep).current hstores (sane_of_reachable hreach) hs
  rintro s rfl
  exact ⟨fun h => (by cases h), fun c hc => (by cases hc), fun c hc => (by cases hc)⟩

theorem notUndone_of_reachableBy (h : (client cfg).ReachableBy (StoresCurrent cfg) s) :
    NotUndone s := by
  intro call hcall result hphase
  refine .inr ((current_of_reachableBy h).calls call hcall ?_)
  rw [hphase]
  rfl

/-! ## A store that is not current undoes a rejection -/

theorem not_storesCurrent (h : ¬ StoresCurrent cfg s e) :
    ∃ i now call cached ex number, e = .settle i now ∧ s.calls[i]? = some call ∧
      call.phase = .answered cached ex number ∧ ex.isActive = true ∧ cfg.caches = true ∧
      s.lastActive ≤ s.lastRejected := by
  unfold StoresCurrent at h
  split at h
  · rename_i i now
    push Not at h
    obtain ⟨call, hcall, hcaches, hanswered, hle⟩ := h
    cases hphase : call.phase with
    | answered cached ex number =>
      rw [hphase] at hanswered
      exact ⟨i, now, call, cached, ex, number, rfl, hcall, hphase, hanswered, hcaches, hle⟩
    | _ =>
      rw [hphase] at hanswered
      cases hanswered
  · exact absurd trivial h

/-- With an entry in the cache, a call during an outage returns it. -/
theorem run_cached_call {c : CachedIntrospection} (hconfigured : cfg.configured = true)
    (hcaches : cfg.caches = true) (hentry : s.entry = some c) :
    (client cfg).run s [.call, .lookup s.calls.length c.expiresAt,
      .answer s.calls.length (.failed "timeout"), .settle s.calls.length c.expiresAt] =
    some { s with
      calls := s.calls ++ [⟨s.lastRejected, .returned (.cached c.result)⟩]
      answers := s.answers + 1 } := by
  -- the new call is the last of the list, at each of its steps
  have hlast : ∀ a b : Call, (s.calls ++ [a]).set s.calls.length b = s.calls ++ [b] := by
    intro a b
    rw [List.set_append_right _ _ (le_refl _), Nat.sub_self, List.set_cons_zero]
  let atPhase (phase : Phase) : Sys := { s with calls := s.calls ++ [⟨s.lastRejected, phase⟩] }
  have hcall : (client cfg).step s .call = some (atPhase .started) := by
    simp [client, step, hconfigured, atPhase]
  have hlookup : (client cfg).step (atPhase .started) (.lookup s.calls.length c.expiresAt) =
      some (atPhase (.exchanging (some c.result))) := by
    simp [client, step, Sys.move, hlast, Sys.found, Sys.afterLookup, hcaches, hentry, atPhase]
  have hanswer : (client cfg).step (atPhase (.exchanging (some c.result)))
      (.answer s.calls.length (.failed "timeout")) =
      some { atPhase (.answered (some c.result) (.failed "timeout") (s.answers + 1)) with
        answers := s.answers + 1 } := by
    simp [client, step, Sys.move, hlast, Exchange.isActive, atPhase]
  have hsettle : (client cfg).step
      { atPhase (.answered (some c.result) (.failed "timeout") (s.answers + 1)) with
        answers := s.answers + 1 } (.settle s.calls.length c.expiresAt) =
      some { atPhase (.returned (.cached c.result)) with answers := s.answers + 1 } := by
    simp [client, step, Sys.move, hlast, settle, conclude, fallback, atPhase]
  rw [System.run_cons, hcall, Option.bind_some, System.run_cons, hlookup, Option.bind_some,
    System.run_cons, hanswer, Option.bind_some, System.run_cons, hsettle, Option.bind_some,
    System.run_nil]

theorem exists_run_undone (hs : (client cfg).Reachable s) (hstep : (client cfg).step s e = some s')
    (hstale : ¬ StoresCurrent cfg s e) :
    ∃ events t, (client cfg).run s' events = some t ∧ ¬ NotUndone t := by
  obtain ⟨i, now, call, cached, ex, number, rfl, hcall, hphase, hactive, hcaches, hle⟩ :=
    not_storesCurrent hstale
  have hsane := sane_of_reachable hs
  have hmem := List.mem_of_getElem? hcall
  have hconfigured : cfg.configured = true := hsane.configured call hmem (by rw [hphase]; rfl)
  have hcounted : 0 < s.lastActive := hsane.counted call hmem (by rw [hphase]; exact hactive)
  obtain ⟨result, hfresh⟩ := conclude_of_isActive hactive cached
  have hs' : s' = { s with entry := some ⟨GoTime.add now cfg.cacheTTL, result⟩ }.move i call
      (.returned (.fresh result)) := by
    have hsettle : step cfg s (.settle i now) = some s' := hstep
    simp only [step, hcall, Option.bind_some, hphase, settle, hfresh, Sys.afterStore, hcaches,
      if_true, Option.some.injEq] at hsettle
    exact hsettle.symm
  subst hs'
  -- one more call, in an outage, returns what was stored
  refine ⟨_, _, run_cached_call hconfigured hcaches rfl, fun hsafe => ?_⟩
  rcases hsafe _ (List.mem_append_right _ (List.mem_singleton_self _)) result rfl with hzero | hlt
  · have : s.lastRejected = 0 := hzero
    omega
  · have : s.lastRejected < s.lastActive := hlt
    omega

/-- **A rejection is not undone as long as stores are current.** In every run of calls for one
    token in which every active answer is stored while an active answer is the latest, no call
    that starts after a rejection was returned gets a cached result, unless the service has given
    an active answer since that rejection. And a store that is not current, in any reachable
    state, can be followed by a call that gets the revoked token from the cache. -/
theorem revocation_kept_iff_storesCurrent (cfg : Config) :
    (∀ s, (client cfg).ReachableBy (StoresCurrent cfg) s → NotUndone s) ∧
    (∀ s e s', (client cfg).Reachable s → (client cfg).step s e = some s' →
      ¬ StoresCurrent cfg s e →
      ∃ events t, (client cfg).run s' events = some t ∧ ¬ NotUndone t) :=
  ⟨fun _ h => notUndone_of_reachableBy h, fun _ _ _ hs hstep hstale =>
    exists_run_undone hs hstep hstale⟩

def exampleConfig : Config := ⟨"https://identity.test/introspect", .second, "token"⟩

def exampleResult : IntrospectResponse :=
  { active := true, subject := "user", organizationId := "org" }

def exampleActive : Exchange := .response 200 (.decoded exampleResult)

def exampleInactive : Exchange := .response 200 (.decoded { active := false })

/-- An active answer is stored, the token revoked and then active again: the outage after that
    is served from the cache. -/
theorem revocation_kept_of_reactivated :
    ∃ s, (client exampleConfig).ReachableBy (StoresCurrent exampleConfig) s ∧
      s.calls[3]? = some ⟨2, .returned (.cached exampleResult)⟩ ∧ NotUndone s := by
  let events : List Event :=
    [.call, .lookup 0 1, .answer 0 exampleActive, .settle 0 2,
     .call, .lookup 1 3, .answer 1 exampleInactive, .settle 1 4,
     .call, .lookup 2 5, .answer 2 exampleActive, .settle 2 6,
     .call, .lookup 3 7, .answer 3 (.failed "timeout"), .settle 3 8]
  have hfinal : ((client exampleConfig).runBy (StoresCurrent exampleConfig)
      ⟨none, [], 0, 0, 0⟩ events).map (fun s => s.calls[3]?) =
        some (some ⟨2, .returned (.cached exampleResult)⟩) := by
    decide +kernel
  obtain ⟨s, hrun, hcall⟩ := Option.map_eq_some_iff.mp hfinal
  have hreach : (client exampleConfig).ReachableBy (StoresCurrent exampleConfig) s :=
    System.ReachableBy.runBy (.init rfl) hrun
  exact ⟨s, hreach, hcall, (revocation_kept_iff_storesCurrent exampleConfig).1 s hreach⟩

/-- The active answer is older than the rejection and is stored after the eviction: the outage
    after that is served from the cache. -/
theorem revocation_undone :
    ∃ s, (client exampleConfig).Reachable s ∧ s.lastActive = 1 ∧
      s.calls[2]? = some ⟨2, .returned (.cached exampleResult)⟩ ∧ ¬ NotUndone s := by
  let events : List Event :=
    [.call, .lookup 0 1, .answer 0 exampleActive,
     .call, .lookup 1 2, .answer 1 exampleInactive, .settle 1 3, .settle 0 4,
     .call, .lookup 2 5, .answer 2 (.failed "timeout"), .settle 2 6]
  have hfinal : ((client exampleConfig).run ⟨none, [], 0, 0, 0⟩ events).map
      (fun s => (s.lastActive, s.calls[2]?)) =
        some (1, some ⟨2, .returned (.cached exampleResult)⟩) := by
    decide +kernel
  obtain ⟨s, hrun, hs⟩ := Option.map_eq_some_iff.mp hfinal
  obtain ⟨hactive, hcall⟩ := Prod.mk.inj hs
  have hreach : (client exampleConfig).Reachable s := System.Reachable.run (.init rfl) hrun
  refine ⟨s, hreach, hactive, hcall, fun hsafe => ?_⟩
  rcases hsafe _ (List.mem_of_getElem? hcall) _ rfl with hzero | hlt
  · cases hzero
  · rw [hactive] at hlt
    exact absurd hlt (by decide)

end ServiceRuntime.Identity
