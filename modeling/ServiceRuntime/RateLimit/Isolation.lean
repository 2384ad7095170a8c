import ServiceRuntime.RateLimit.Fleet

/-!
# Callers Do Not See Each Other

A bucket belongs to a scope and a caller. Its name is the scope, a line break and the key of the
caller, and in Redis a digest of that. As long as the keys have no line break and the digests of
different names differ, what is answered to a caller is what would be answered to it alone.

The proof compares a run with the run of only those events that concern the caller (`concerns`):
the two agree on the buckets of the caller at every replica and in Redis (`Agree`).
-/

namespace ServiceRuntime.RateLimit.Fleet

open ServiceRuntime.GoStrings (append_cons_cases)
open Transition

variable {ρ : Type}

/-! ## Names of buckets -/

theorem localBucketKey_inj {scope scope' key key' : String} (hkey : '\n' ∉ key.toList)
    (hkey' : '\n' ∉ key'.toList) (h : localBucketKey scope key = localBucketKey scope' key') :
    scope = scope' ∧ key = key' := by
  have hlist : scope.toList ++ '\n' :: key.toList = scope'.toList ++ '\n' :: key'.toList := by
    have := congrArg String.toList h
    simpa [localBucketKey, String.toList_append] using this
  -- the line break is in one place, as neither key has another one
  rcases append_cons_cases hlist with ⟨hscope, hrest⟩ | ⟨rest, -, hmem⟩ | ⟨rest, -, hmem⟩
  · exact ⟨String.toList_injective hscope, String.toList_injective hrest⟩
  · exact absurd (by rw [hmem]; simp) hkey
  · exact absurd (by rw [hmem]; simp) hkey'

/-! ## What concerns a caller -/

def Config.caller (cfg : Config ρ) (r : ρ) : String × String :=
  ((cfg.policyForRequest r).scope, cfg.callerKey r)

def bucketOf (caller : String × String) : String := localBucketKey caller.1 caller.2

theorem bucketOf_caller (cfg : Config ρ) (r : ρ) : bucketOf (cfg.caller r) = cfg.bucketKey r := by
  simp only [bucketOf, Config.caller, Config.bucketKey]

/-- Requests of the caller, every sweep, and the expiry of the caller's hash. -/
def concerns (cfg : Config ρ) (caller : String × String) : Event ρ → Bool
  | .request _ r _ _ => cfg.caller r == caller
  | .sweep _ _ => true
  | .expire redisKey _ => redisKey == cfg.redisBucketKey (bucketOf caller)

/-- What the caller is answered, with the error that `OnError` is told. -/
def answerTo (cfg : Config ρ) (caller : String × String) (s : Sys) :
    Event ρ → Option (Action × Option String)
  | .request replica r now fate =>
    if cfg.caller r = caller then some (handle cfg s replica r now fate).2 else none
  | .sweep _ _ => none
  | .expire _ _ => none

/-- The buckets of the caller are the same in both states. -/
structure Agree (cfg : Config ρ) (caller : String × String) (s s' : Sys) : Prop where
  clock_le : s'.clock ≤ s.clock
  hashes : s.hashes (cfg.redisBucketKey (bucketOf caller)) =
    s'.hashes (cfg.redisBucketKey (bucketOf caller))
  entries : ∀ i, s.entries i (bucketOf caller) = s'.entries i (bucketOf caller)

/-- The name of the bucket of a request is that of the caller only for the caller's own requests. -/
def Separate (cfg : Config ρ) (caller : String × String) : Event ρ → Prop
  | .request _ r _ _ => '\n' ∉ (cfg.callerKey r).toList ∧
      (cfg.digest (cfg.bucketKey r) = cfg.digest (bucketOf caller) →
        cfg.bucketKey r = bucketOf caller)
  | .sweep _ _ => True
  | .expire _ _ => True

section

variable {cfg : Config ρ} {caller : String × String} {s s' t : Sys} {e : Event ρ} {r : ρ}

theorem redisBucketKey_inj {a b : String} (h : cfg.redisBucketKey a = cfg.redisBucketKey b) :
    cfg.digest a = cfg.digest b := by
  have hlist := congrArg String.toList h
  simp only [Config.redisBucketKey, String.toList_append, List.append_cancel_left_eq] at hlist
  exact String.toList_injective hlist

theorem Agree.allowLocal (h : Agree cfg (cfg.caller r) s s') (i : ℕ) (now : Int)
    (hashes hashes' : String → Option Hash) :
    (Sys.allowLocal { s with hashes := hashes } i (cfg.policyForRequest r).toPolicy
        (cfg.callerKey r) now).2 =
      (Sys.allowLocal { s' with hashes := hashes' } i (cfg.policyForRequest r).toPolicy
        (cfg.callerKey r) now).2 := by
  have hentry := h.entries i
  simp only [bucketOf, Config.caller] at hentry
  simp only [Sys.allowLocal, RateLimit.allowLocal, hentry]

theorem Agree.callRedis (h : Agree cfg (cfg.caller r) s s') (run : Run) (fate : Fate) :
    (s.callRedis (cfg.redisBucketKey (bucketOf (cfg.caller r))) run fate).2 =
      (s'.callRedis (cfg.redisBucketKey (bucketOf (cfg.caller r))) run fate).2 := by
  cases fate with
  | answered => simp only [Sys.callRedis, h.hashes]
  | failed ran result => rfl

theorem Agree.allowWithRetry (h : Agree cfg (cfg.caller r) s s') (i : ℕ) (now : Int) (fate : Fate) :
    (allowWithRetry cfg s i (cfg.policyForRequest r).toPolicy (cfg.callerKey r) now fate).2 =
      (allowWithRetry cfg s' i (cfg.policyForRequest r).toPolicy (cfg.callerKey r) now fate).2 := by
  have hcall := h.callRedis (runFor (cfg.policyForRequest r).toPolicy cfg.maxAge now) fate
  simp only [bucketOf, Config.caller] at hcall
  have hlocal := h.allowLocal i now
  unfold Fleet.allowWithRetry
  split
  · simp only [hcall]
    split
    · rfl
    · exact congrArg (fun answer => (answer.1, answer.2, some _)) (hlocal _ _)
  · exact congrArg (fun answer => (answer.1, answer.2, none)) (hlocal s.hashes s'.hashes)

theorem Agree.answer (h : Agree cfg (cfg.caller r) s s') (i : ℕ) (now : Int) (fate : Fate) :
    (handle cfg s i r now fate).2 = (handle cfg s' i r now fate).2 := by
  have hretry := h.allowWithRetry i now fate
  simp only [handle]
  split
  · rfl
  · simp only [hretry]

theorem Agree.afterScript (h : Agree cfg caller s s') (hr : cfg.caller r = caller) (now : Int) :
    s.afterScript cfg r now (cfg.redisBucketKey (bucketOf caller)) =
      s'.afterScript cfg r now (cfg.redisBucketKey (bucketOf caller)) := by
  subst hr
  have hhash := h.hashes
  rw [bucketOf_caller] at hhash ⊢
  rw [afterScript_self, afterScript_self, hhash]

theorem Agree.afterLocal (h : Agree cfg caller s s') (hr : cfg.caller r = caller) (i j : ℕ)
    (now : Int) :
    s.afterLocal cfg i r now j (bucketOf caller) = s'.afterLocal cfg i r now j (bucketOf caller) := by
  subst hr
  by_cases hj : j = i
  · subst hj
    have hentry := h.entries j
    rw [bucketOf_caller] at hentry ⊢
    rw [afterLocal_self, afterLocal_self, hentry]
  · rw [afterLocal_of_ne _ _ _ _ _ (.inl hj), afterLocal_of_ne _ _ _ _ _ (.inl hj), h.entries j]

theorem Agree.answerTo_eq (h : Agree cfg caller s s') (e : Event ρ) :
    answerTo cfg caller s e = answerTo cfg caller s' e := by
  cases e with
  | request i r now fate =>
    simp only [answerTo]
    split
    · rename_i hr
      subst hr
      rw [h.answer]
    · rfl
  | sweep i now | expire redisKey now => rfl

theorem answerTo_of_not_concerns (h : concerns cfg caller e = false) :
    answerTo cfg caller s e = none := by
  cases e with
  | request i r now fate => exact if_neg (beq_eq_false_iff_ne.mp h)
  | sweep i now | expire redisKey now => rfl

theorem Separate.bucket_ne {i : ℕ} {now : Int} {fate : Fate}
    (h : Separate cfg caller (.request i r now fate)) (hcaller : '\n' ∉ caller.2.toList)
    (hconcerns : concerns cfg caller (.request i r now fate) = false) :
    bucketOf caller ≠ cfg.bucketKey r := by
  intro hsame
  obtain ⟨hscope, hid⟩ := localBucketKey_inj hcaller h.1 hsame
  exact beq_eq_false_iff_ne.mp hconcerns (Prod.ext hscope.symm hid.symm)

theorem Separate.redisKey_ne {i : ℕ} {now : Int} {fate : Fate}
    (h : Separate cfg caller (.request i r now fate)) (hbucket : bucketOf caller ≠ cfg.bucketKey r) :
    cfg.redisBucketKey (bucketOf caller) ≠ cfg.redisBucketKey (cfg.bucketKey r) :=
  fun hsame => hbucket (h.2 (redisBucketKey_inj hsame).symm).symm

/-- **An event that concerns the caller** can happen in both runs. -/
theorem Agree.step_of_concerns (h : Agree cfg caller s s') (hconcerns : concerns cfg caller e = true)
    (hstep : Step cfg s e t) : ∃ t', step cfg s' e = some t' ∧ Agree cfg caller t t' := by
  -- the clock of the other run is not ahead, so the event does not go back in time there
  have hclock := h.clock_le
  cases hstep with
  | exempt hnow hexempt hhonest =>
    exact ⟨_, (Step.exempt (le_trans hclock hnow) hexempt hhonest).step, le_rfl, h.hashes, h.entries⟩
  | @answered i r now hnow hexempt hclient =>
    have hr : cfg.caller r = caller := beq_iff_eq.mp hconcerns
    exact ⟨_, (Step.answered (le_trans hclock hnow) hexempt hclient).step, le_rfl,
      h.afterScript hr now, h.entries⟩
  | @decided i r now fate hnow hexempt hhonest hlocal =>
    have hr : cfg.caller r = caller := beq_iff_eq.mp hconcerns
    refine ⟨_, (Step.decided (le_trans hclock hnow) hexempt hhonest hlocal).step, le_rfl, ?_,
      fun j => h.afterLocal hr i j now⟩
    dsimp only
    split
    · exact h.afterScript hr now
    · exact h.hashes
  | @sweep i now hnow =>
    refine ⟨_, (Step.sweep (le_trans hclock hnow)).step, le_rfl, h.hashes, fun j => ?_⟩
    -- a sweep looks at the entries of one replica, and at each of them on its own
    by_cases hj : j = i
    · subst hj
      simp only [Function.update_self, cleanup, h.entries j]
    · simp only [Function.update_of_ne hj, h.entries j]
  | @expire redisKey now hash hnow hhash hexpired =>
    obtain rfl : redisKey = cfg.redisBucketKey (bucketOf caller) := beq_iff_eq.mp hconcerns
    refine ⟨_, (Step.expire (le_trans hclock hnow) (h.hashes.symm.trans hhash) hexpired).step,
      le_rfl, ?_, h.entries⟩
    simp only [Function.update_self]

/-- **An event that does not concern the caller** leaves its buckets alone. -/
theorem Agree.step_of_not_concerns (h : Agree cfg caller s s')
    (hconcerns : concerns cfg caller e = false) (hcaller : '\n' ∉ caller.2.toList)
    (hseparate : Separate cfg caller e) (hstep : Step cfg s e t) : Agree cfg caller t s' := by
  have hclock : s'.clock ≤ t.clock := le_trans h.clock_le hstep.clock_le
  cases hstep with
  | exempt => exact ⟨hclock, h.hashes, h.entries⟩
  | @answered i r now hnow hexempt hclient =>
    have hbucket := hseparate.bucket_ne hcaller hconcerns
    exact ⟨hclock, (afterScript_of_ne _ _ _ _ (hseparate.redisKey_ne hbucket)).trans h.hashes, h.entries⟩
  | @decided i r now fate hnow hexempt hhonest hlocal =>
    have hbucket := hseparate.bucket_ne hcaller hconcerns
    refine ⟨hclock, ?_, fun j => (afterLocal_of_ne _ _ _ _ _ (.inr hbucket)).trans (h.entries j)⟩
    dsimp only
    split
    · exact (afterScript_of_ne _ _ _ _ (hseparate.redisKey_ne hbucket)).trans h.hashes
    · exact h.hashes
  | sweep => cases hconcerns
  | @expire redisKey now hash hnow hhash hexpired =>
    have hkey : cfg.redisBucketKey (bucketOf caller) ≠ redisKey :=
      Ne.symm (beq_eq_false_iff_ne.mp hconcerns)
    exact ⟨hclock, (Function.update_of_ne hkey ..).trans h.hashes, h.entries⟩

/-! ## Isolation -/

/-- A run, and the run of the events that concern the caller. -/
theorem Agree.run {es : List (Event ρ)} (hcaller : '\n' ∉ caller.2.toList)
    (hseparate : ∀ e ∈ es, Separate cfg.withDefaults caller e)
    (h : Agree cfg.withDefaults caller s s') (hrun : (fleet cfg).run s es = some t) :
    ∃ t', (fleet cfg).run s' (es.filter (concerns cfg.withDefaults caller)) = some t' ∧
      Agree cfg.withDefaults caller t t' ∧
      (fleet cfg).trace (answerTo cfg.withDefaults caller) s es =
        (fleet cfg).trace (answerTo cfg.withDefaults caller) s'
          (es.filter (concerns cfg.withDefaults caller)) := by
  induction es generalizing s s' with
  | nil =>
    obtain rfl := Option.some.inj hrun
    exact ⟨s', rfl, h, rfl⟩
  | cons e es ih =>
    obtain ⟨s₁, hs₁, ht⟩ := (fleet cfg).run_cons_eq_some.mp hrun
    have hrest : ∀ e ∈ es, Separate cfg.withDefaults caller e :=
      fun e' he' => hseparate e' (List.mem_cons_of_mem e he')
    cases hconcerns : concerns cfg.withDefaults caller e with
    | true =>
      -- both runs take the step
      obtain ⟨s₁', hs₁', h₁⟩ := h.step_of_concerns hconcerns (Step.of_step hs₁)
      obtain ⟨t', ht', hagree, htrace⟩ := ih hrest h₁ ht
      refine ⟨t', ?_, hagree, ?_⟩
      · rw [List.filter_cons_of_pos hconcerns]
        exact (fleet cfg).run_cons_eq_some.mpr ⟨s₁', hs₁', ht'⟩
      · rw [List.filter_cons_of_pos hconcerns, System.trace_cons hs₁, System.trace_cons hs₁', htrace,
          h.answerTo_eq]
    | false =>
      -- only the first run takes it, and the caller gets no answer
      have h₁ := h.step_of_not_concerns hconcerns hcaller (hseparate e List.mem_cons_self)
        (Step.of_step hs₁)
      obtain ⟨t', ht', hagree, htrace⟩ := ih hrest h₁ ht
      refine ⟨t', ?_, hagree, ?_⟩
      · rw [List.filter_cons_of_neg (by simp [hconcerns])]
        exact ht'
      · rw [List.filter_cons_of_neg (by simp [hconcerns]), System.trace_cons hs₁, htrace,
          answerTo_of_not_concerns hconcerns]
        rfl

/-- **Callers do not see each other.** Take any run of the replicas and a caller whose key, like all
    keys of the run, has no line break. If no other bucket name of the run has the digest of the
    caller's, then the events that concern the caller can happen by themselves, and in both runs
    the caller is answered the same: the same decisions, waits and errors. -/
theorem callers_isolated (cfg : Config ρ) (caller : String × String) {es : List (Event ρ)}
    (hcaller : '\n' ∉ caller.2.toList) (hseparate : ∀ e ∈ es, Separate cfg.withDefaults caller e)
    (hrun : (fleet cfg).run s es = some t) :
    ∃ t', (fleet cfg).run s (es.filter (concerns cfg.withDefaults caller)) = some t' ∧
      (fleet cfg).trace (answerTo cfg.withDefaults caller) s es =
        (fleet cfg).trace (answerTo cfg.withDefaults caller) s
          (es.filter (concerns cfg.withDefaults caller)) := by
  have hsame : Agree cfg.withDefaults caller s s := ⟨le_rfl, rfl, fun _ => rfl⟩
  obtain ⟨t', ht', -, htrace⟩ := hsame.run hcaller hseparate hrun
  exact ⟨t', ht', htrace⟩

end

/-- The second request of a caller is refused, with or without another caller in between. -/
theorem callers_isolated_of_two :
    let es : List (Event String) :=
      [.request 0 "a" 0 .answered, .request 0 "b" 0 .answered, .request 0 "a" 0 .answered]
    ∃ t, (fleet strict).run (initial 0)
        (es.filter (concerns strict.withDefaults ("/v1", "a"))) = some t ∧
      (fleet strict).trace (answerTo strict.withDefaults ("/v1", "a")) (initial 0) es =
        [(.allowed, none), (.limited 1, none)] := by
  intro es
  obtain ⟨t, hrun⟩ : ∃ t, (fleet strict).run (initial 0) es = some t :=
    Option.isSome_iff_exists.mp (by decide +kernel)
  have hseparate : ∀ e ∈ es, Separate strict.withDefaults ("/v1", "a") e := by
    intro e he
    simp only [es, List.mem_cons, List.not_mem_nil, or_false] at he
    rcases he with rfl | rfl | rfl
    · exact ⟨by decide +kernel, id⟩
    · exact ⟨by decide +kernel, id⟩
    · exact ⟨by decide +kernel, id⟩
  obtain ⟨t', ht', htrace⟩ := callers_isolated strict ("/v1", "a") (by decide +kernel) hseparate hrun
  refine ⟨t', ht', ?_⟩
  rw [htrace]
  decide +kernel

end ServiceRuntime.RateLimit.Fleet
