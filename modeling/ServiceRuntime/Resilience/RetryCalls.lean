import ServiceRuntime.GoErrors
import ServiceRuntime.Resilience.Retry
import ServiceRuntime.Transition.System

/-!
# The Calls That Retry Makes

`Retry` as a loop over the error trees of Go: it looks for a `PermanentError` anywhere in the tree
of an error, and the error it returns wraps its cause. What the function answers on each call, and
how each wait ends, is given from outside.

The number of calls is specified without the loop, as the least number at which one of the rules
for stopping applies. `retry_runs` says that the loop is a run of the machine of
`ServiceRuntime.Resilience.Retry`, which sees of an error only its text and its permanent cause.
-/

namespace ServiceRuntime.Resilience

open Transition

universe u

/-! ## Errors -/

inductive Reason where
  | permanent (attempts : Int)
  | nonRetryable (attempts : Int)
  | interrupted
  | failed (attempts : Int)
  deriving DecidableEq

/-- The text that `Retry` puts before that of the cause. -/
def Reason.text : Reason → String
  | permanent attempts => "retry permanent after " ++ toString attempts ++ " attempts: "
  | nonRetryable attempts => "retry non-retryable after " ++ toString attempts ++ " attempts: "
  | interrupted => "retry interrupted: "
  | failed attempts => "retry failed after " ++ toString attempts ++ " attempts: "

/-- The types of errors that are told apart. -/
inductive ErrorKind where
  /-- `*PermanentError`; it wraps its `Err`, unless that is nil. -/
  | permanent
  /-- An error of `Retry` itself, which wraps its cause. -/
  | retry (reason : Reason)
  /-- Anything else: plain errors, `fmt.Errorf` and `errors.Join`. -/
  | other (text : String)
  deriving DecidableEq

abbrev ErrorTree := GoError ErrorKind

def ErrorKind.isPermanent : ErrorKind → Bool
  | permanent => true
  | _ => false

namespace ErrorTree

/-- `errors.As` for a `*PermanentError` and its `Err`, which may be nil. -/
def permanentCause (err : ErrorTree) : Option (Option ErrorTree) :=
  (err.as ErrorKind.isPermanent).map fun pe => pe.causes.head?

/-- There is a `PermanentError` somewhere in the tree of the error. -/
def IsPermanent (err : ErrorTree) : Prop := ∃ pe, err.Wraps pe ∧ pe.kind = .permanent

theorem permanentCause_isSome_iff (err : ErrorTree) :
    (permanentCause err).isSome ↔ err.IsPermanent := by
  have hkind : ∀ kind : ErrorKind, kind.isPermanent = true ↔ kind = .permanent := by
    intro kind
    cases kind <;> simp [ErrorKind.isPermanent]
  rw [permanentCause, Option.isSome_map, GoError.as_isSome_iff]
  simp only [hkind, IsPermanent]

/-- `fmt.Errorf("…: %w", …, cause)`; a nil cause is not wrapped. -/
def wrapped (reason : Reason) (cause : Option ErrorTree) : ErrorTree :=
  .mk (.retry reason) cause.toList

theorem wraps_wrapped (reason : Reason) (cause : ErrorTree) :
    (wrapped reason (some cause)).Wraps cause :=
  .cause (List.mem_singleton_self cause) (.self cause)

end ErrorTree

open ErrorTree

/-! ## The loop -/

/-- `RetryConfig`, without the delays. -/
structure RetryRules where
  maxAttempts : Int
  isRetryable : Option (ErrorTree → Bool)

namespace RetryRules

/-- `MaxAttempts` after `withDefaults`. -/
def effective (rules : RetryRules) : ℕ :=
  if rules.maxAttempts < 1 then 3 else rules.maxAttempts.toNat

/-- `cfg.IsRetryable != nil && !cfg.IsRetryable(err)`. -/
def rejects (rules : RetryRules) (err : ErrorTree) : Bool :=
  rules.isRetryable.any fun isRetryable => !isRetryable err

theorem effective_pos (rules : RetryRules) : 1 ≤ rules.effective := by
  unfold effective
  split <;> omega

end RetryRules

/-- What is decided from outside: the outcome of each call, counted from one, and `ctx.Err()` if
    the wait after that call is ended by the context. -/
structure Outside where
  outcome : ℕ → Option ErrorTree
  interrupted : ℕ → Option ErrorTree

/-- A finished `Retry`: how often it called the function, and what it returned. -/
structure Returned where
  calls : ℕ
  err : Option ErrorTree

section Loop

variable (rules : RetryRules) (env : Outside)

/-- The body of the loop after call `k` failed, with the wait: `none` starts the next round. -/
def afterFailure (k : ℕ) (err : ErrorTree) : Option ErrorTree :=
  match permanentCause err with
  | some cause => some (wrapped (.permanent k) cause)
  | none =>
    if rules.rejects err then some (wrapped (.nonRetryable k) (some err))
    -- no wait after the last attempt
    else if k = rules.effective then some (wrapped (.failed rules.effective) (some err))
    else (env.interrupted k).map fun ctxErr => wrapped .interrupted (some ctxErr)

/-- The loop, with `left` rounds to go after `attempt` calls. -/
def retryLoop : (left attempt : ℕ) → (lastErr : Option ErrorTree) → Returned
  | 0, attempt, lastErr => ⟨attempt, some (wrapped (.failed rules.effective) lastErr)⟩
  | left + 1, attempt, _ =>
    match env.outcome (attempt + 1) with
    | none => ⟨attempt + 1, none⟩
    | some err =>
      match afterFailure rules env (attempt + 1) err with
      | some returned => ⟨attempt + 1, some returned⟩
      | none => retryLoop left (attempt + 1) (some err)

def retry : Returned := retryLoop rules env rules.effective 0 none

/-- The variable that the closure of `RetryValue` writes, after the first calls: a call that fails
    leaves it as it is. -/
def captured {T : Type u} (zero : T) (values : ℕ → T) : ℕ → T
  | 0 => zero
  | calls + 1 =>
    match env.outcome (calls + 1) with
    | none => values (calls + 1)
    | some _ => captured zero values calls

/-- `RetryValue`; `values` are what the calls return beside their errors. -/
def retryValue {T : Type u} (zero : T) (values : ℕ → T) : T × Option ErrorTree :=
  match (retry rules env).err with
  | some err => (zero, some err)
  | none => (captured env zero values (retry rules env).calls, none)

/-! ## The specification -/

/-- The outcome of a call ends `Retry`: it is nil, permanent or not retryable. -/
def RetryRules.Final : Option ErrorTree → Prop
  | none => True
  | some err => err.IsPermanent ∨ rules.rejects err

/-- `Retry` stops at call `k`, if it comes to it. -/
def Stops (k : ℕ) : Prop :=
  rules.Final (env.outcome k) ∨ k = rules.effective ∨ (env.interrupted k).isSome

/-- How a `Retry` that stops at call `k` ends, in the order in which the rules apply. -/
inductive Ended (k : ℕ) : Option ErrorTree → Prop where
  | success (h : env.outcome k = none) : Ended k none
  | permanent {err : ErrorTree} {cause : Option ErrorTree} (h : env.outcome k = some err)
      (hcause : permanentCause err = some cause) :
      Ended k (some (wrapped (.permanent k) cause))
  | nonRetryable {err : ErrorTree} (h : env.outcome k = some err)
      (hcause : permanentCause err = none) (hrejects : rules.rejects err = true) :
      Ended k (some (wrapped (.nonRetryable k) (some err)))
  | failed {err : ErrorTree} (h : env.outcome k = some err) (hcause : permanentCause err = none)
      (hrejects : rules.rejects err = false) (hlast : k = rules.effective) :
      Ended k (some (wrapped (.failed k) (some err)))
  | interrupted {err ctxErr : ErrorTree} (h : env.outcome k = some err)
      (hcause : permanentCause err = none) (hrejects : rules.rejects err = false)
      (hlast : k ≠ rules.effective) (hctx : env.interrupted k = some ctxErr) :
      Ended k (some (wrapped .interrupted (some ctxErr)))

/-! ## One round -/

variable {rules env}

variable {k : ℕ} {returned : Option ErrorTree}

theorem Ended.of_afterFailure {err returned : ErrorTree} (h : env.outcome k = some err)
    (hreturn : afterFailure rules env k err = some returned) :
    Ended rules env k (some returned) := by
  -- the rules in the order in which `Retry` looks at them
  unfold afterFailure at hreturn
  split at hreturn
  · rename_i cause hcause
    cases hreturn
    exact .permanent h hcause
  · rename_i hcause
    split at hreturn
    · rename_i hrejects
      cases hreturn
      exact .nonRetryable h hcause hrejects
    · rename_i hrejects
      rw [Bool.not_eq_true] at hrejects
      split at hreturn
      · rename_i hlast
        cases hreturn
        rw [← hlast]
        exact .failed h hcause hrejects hlast
      · rename_i hlast
        obtain ⟨ctxErr, hctx, rfl⟩ := Option.map_eq_some_iff.mp hreturn
        exact .interrupted h hcause hrejects hlast hctx

theorem not_stops_of_afterFailure {err : ErrorTree} (h : env.outcome k = some err)
    (hnext : afterFailure rules env k err = none) : ¬ Stops rules env k := by
  unfold afterFailure at hnext
  split at hnext
  · cases hnext
  · rename_i hcause
    split at hnext
    · cases hnext
    · rename_i hrejects
      split at hnext
      · cases hnext
      · rename_i hlast
        have hctx := Option.map_eq_none_iff.mp hnext
        simp only [Stops, RetryRules.Final, h, ← permanentCause_isSome_iff, hcause, hctx,
          Option.isSome_none, hrejects, hlast, Bool.false_eq_true, or_false, not_false_eq_true]

theorem Ended.stops {err : Option ErrorTree} (h : Ended rules env k err) : Stops rules env k := by
  cases h with
  | success h => exact .inl (by rw [h]; trivial)
  | permanent h hcause =>
    refine .inl ?_
    rw [h]
    exact .inl ((permanentCause_isSome_iff _).mp (by rw [hcause]; rfl))
  | nonRetryable h hcause hrejects => exact .inl (by rw [h]; exact .inr hrejects)
  | failed h hcause hrejects hlast => exact .inr (.inl hlast)
  | interrupted h hcause hrejects hlast hctx => exact .inr (.inr (by rw [hctx]; rfl))

theorem Ended.eq_none_iff (h : Ended rules env k returned) :
    returned = none ↔ env.outcome k = none := by
  cases h with
  | success h => exact iff_of_true rfl h
  | permanent h | nonRetryable h | failed h | interrupted h =>
    rw [h]
    exact iff_of_false (Option.some_ne_none _) (Option.some_ne_none _)

/-- What the error wraps that is returned. -/
theorem Ended.wraps (h : Ended rules env k returned) {err : ErrorTree}
    (herr : env.outcome k = some err) :
    ∃ e, returned = some e ∧
      match permanentCause err with
      | some cause => ∀ c ∈ cause, e.Wraps c
      | none =>
        if rules.rejects err ∨ k = rules.effective then e.Wraps err
        else ∃ ctxErr, env.interrupted k = some ctxErr ∧ e.Wraps ctxErr := by
  cases h with
  | success h =>
    rw [h] at herr
    cases herr
  -- each rule wraps the error that it is about
  | permanent h hcause =>
    obtain rfl := Option.some.inj (h.symm.trans herr)
    refine ⟨_, rfl, ?_⟩
    rw [hcause]
    rintro c rfl
    exact wraps_wrapped _ c
  | nonRetryable h hcause hrejects =>
    obtain rfl := Option.some.inj (h.symm.trans herr)
    refine ⟨_, rfl, ?_⟩
    simp only [hcause, hrejects, true_or, if_true]
    exact wraps_wrapped _ _
  | failed h hcause hrejects hlast =>
    obtain rfl := Option.some.inj (h.symm.trans herr)
    refine ⟨_, rfl, ?_⟩
    simp only [hcause, ← hlast, or_true, if_true]
    exact wraps_wrapped _ _
  | interrupted h hcause hrejects hlast hctx =>
    obtain rfl := Option.some.inj (h.symm.trans herr)
    refine ⟨_, rfl, ?_⟩
    simp only [hcause, hrejects, hlast, Bool.false_eq_true, or_false, if_false]
    exact ⟨_, hctx, wraps_wrapped _ _⟩

/-- **One round**: it ends the loop as the rules say, or no rule applies and the next one starts. -/
theorem retryLoop_succ (left attempt : ℕ) (lastErr : Option ErrorTree) :
    (∃ err, retryLoop rules env (left + 1) attempt lastErr = ⟨attempt + 1, err⟩ ∧
        Ended rules env (attempt + 1) err) ∨
      (¬ Stops rules env (attempt + 1) ∧ ∃ err,
        retryLoop rules env (left + 1) attempt lastErr =
          retryLoop rules env left (attempt + 1) (some err)) := by
  rw [retryLoop]
  cases houtcome : env.outcome (attempt + 1) with
  | none => exact .inl ⟨none, rfl, .success houtcome⟩
  | some err =>
    dsimp only
    cases hround : afterFailure rules env (attempt + 1) err with
    | some returned => exact .inl ⟨some returned, rfl, .of_afterFailure houtcome hround⟩
    | none => exact .inr ⟨not_stops_of_afterFailure houtcome hround, err, rfl⟩

/-! ## The whole loop -/

/-- **The loop**: after `attempt` calls it makes as many more as it takes to come to a reason to
    stop, and ends there. -/
theorem retryLoop_spec (left attempt : ℕ) (lastErr : Option ErrorTree)
    (hleft : attempt + (left + 1) = rules.effective) :
    let r := retryLoop rules env (left + 1) attempt lastErr
    attempt < r.calls ∧ Ended rules env r.calls r.err ∧
      ∀ k, attempt < k → k < r.calls → ¬ Stops rules env k := by
  induction left generalizing attempt lastErr with
  | zero =>
    rcases retryLoop_succ 0 attempt lastErr with ⟨err, hr, hended⟩ | ⟨hstops, -⟩
    · rw [hr]
      exact ⟨Nat.lt_succ_self _, hended, fun k hk hlt => absurd hlt (Nat.not_lt.mpr hk)⟩
    -- the last call is a reason to stop
    · exact absurd (.inr (.inl hleft)) hstops
  | succ left ih =>
    rcases retryLoop_succ (left + 1) attempt lastErr with ⟨err, hr, hended⟩ | ⟨hstops, err, hr⟩
    · rw [hr]
      exact ⟨Nat.lt_succ_self _, hended, fun k hk hlt => absurd hlt (Nat.not_lt.mpr hk)⟩
    · rw [hr]
      obtain ⟨hmore, hended, hbefore⟩ := ih (attempt + 1) (some err) (by omega)
      refine ⟨Nat.lt_of_succ_lt hmore, hended, fun k hk hlt => ?_⟩
      by_cases hfirst : k = attempt + 1
      · rw [hfirst]
        exact hstops
      · exact hbefore k (by omega) hlt

variable (rules env)

theorem retry_spec :
    1 ≤ (retry rules env).calls ∧ Ended rules env (retry rules env).calls (retry rules env).err ∧
      ∀ k, 1 ≤ k → k < (retry rules env).calls → ¬ Stops rules env k := by
  obtain ⟨left, hleft⟩ := Nat.exists_eq_add_of_le' rules.effective_pos
  rw [retry, hleft]
  exact retryLoop_spec left 0 none (by omega)

theorem captured_of_success {T : Type u} (zero : T) (values : ℕ → T) (hk : 1 ≤ k)
    (h : env.outcome k = none) : captured env zero values k = values k := by
  obtain ⟨calls, rfl⟩ := Nat.exists_eq_add_of_le' hk
  rw [captured, h]

/-- **`Retry` follows its specification.** It calls the function as often as it takes to come to
    the first call at which a rule for stopping applies. It returns nil exactly if that call did.
    Otherwise its error wraps the permanent cause in the error of that call, or that error if it is
    not retryable or the call was the last one, or else the error of the context. `RetryValue`
    returns the value of that call, or the zero value beside the error. -/
theorem retry_follows_specification {T : Type u} (zero : T) (values : ℕ → T) :
    IsLeast {k | 1 ≤ k ∧ Stops rules env k} (retry rules env).calls ∧
      ((retry rules env).err = none ↔ env.outcome (retry rules env).calls = none) ∧
      (∀ err, env.outcome (retry rules env).calls = some err →
        ∃ returned, (retry rules env).err = some returned ∧
          match permanentCause err with
          | some cause => ∀ c ∈ cause, returned.Wraps c
          | none =>
            if rules.rejects err ∨ (retry rules env).calls = rules.effective then
              returned.Wraps err
            else ∃ ctxErr, env.interrupted (retry rules env).calls = some ctxErr ∧
              returned.Wraps ctxErr) ∧
      retryValue rules env zero values =
        match (retry rules env).err with
        | none => (values (retry rules env).calls, none)
        | some err => (zero, some err) := by
  obtain ⟨hone, hended, hbefore⟩ := retry_spec rules env
  refine ⟨⟨⟨hone, hended.stops⟩, ?_⟩, ?_, ?_, ?_⟩
  · rintro k ⟨hk, hstops⟩
    by_contra hlt
    exact hbefore k hk (not_le.mp hlt) hstops
  · exact hended.eq_none_iff
  · exact fun err herr => hended.wraps herr
  · unfold retryValue
    generalize hreturned : (retry rules env).err = returned at hended
    cases hended with
    -- the closure has kept the value of its last call
    | success h =>
      dsimp only
      rw [captured_of_success env zero values hone h]
    | _ => rfl

end Loop

/-! ## The machine -/

section Machine

variable (text : ErrorTree → String) (c : RetryConfig)

def observed (err : ErrorTree) : Err :=
  ⟨text err, (permanentCause err).map fun cause => (cause.map text).getD "%!w(<nil>)"⟩

/-- An error of `Retry` as text. -/
def rendered (err : ErrorTree) : String :=
  match err.kind with
  | .retry reason => reason.text ++ (err.causes.head?.map text).getD "%!w(<nil>)"
  | _ => text err

def RetryConfig.rules : RetryRules where
  maxAttempts := c.maxAttempts
  isRetryable := c.isRetryable.map fun isRetryable err => isRetryable (observed text err)

def retrySystem (cfg : RetrySettings) : System RetryState RetryAction where
  init st := st = .attempting 0
  step := RetryState.step cfg

def RetryAction.isAnswer : RetryAction → Bool
  | .answer _ => true
  | _ => false

theorem withDefaults_maxAttempts : c.withDefaults.maxAttempts = (c.rules text).effective := by
  show (if c.maxAttempts < 1 then 3 else c.maxAttempts) =
    ((if c.maxAttempts < 1 then 3 else c.maxAttempts.toNat : ℕ) : Int)
  split
  · rfl
  · omega

theorem rejects_rules (err : ErrorTree) :
    (c.rules text).rejects err = c.withDefaults.isRetryable.any fun f => !f (observed text err) := by
  unfold RetryRules.rejects RetryConfig.rules RetryConfig.withDefaults
  cases c.isRetryable <;> rfl

variable {attempt : ℕ} {env : Outside}

/-- An error that is neither permanent nor rejected, before the last attempt, makes the machine
    wait. -/
theorem afterAttempt_waits {err : ErrorTree} (hcause : permanentCause err = none)
    (hrejects : (c.rules text).rejects err = false)
    (hlast : attempt + 1 ≠ (c.rules text).effective) :
    afterAttempt c.withDefaults attempt (some (observed text err)) = .waiting attempt := by
  rw [rejects_rules] at hrejects
  have hmax := withDefaults_maxAttempts text c
  simp only [afterAttempt, observed, hcause, Option.map_none] at hrejects ⊢
  rw [if_neg (by simp [hrejects]), if_neg (by omega)]

theorem rendered_wrapped (reason : Reason) (cause : Option ErrorTree) :
    rendered text (wrapped reason cause) = reason.text ++ (cause.map text).getD "%!w(<nil>)" := by
  cases cause <;> rfl

def RetryError.reason : RetryError → Reason
  | .permanent attempts _ => .permanent attempts
  | .nonRetryable attempts _ => .nonRetryable attempts
  | .interrupted _ => .interrupted
  | .failed attempts _ => .failed attempts

def RetryError.causeText : RetryError → String
  | .permanent _ cause => cause
  | .nonRetryable _ err => err.text
  | .interrupted ctxErr => ctxErr
  | .failed _ err => err.text

theorem RetryError.text_eq (err : RetryError) : err.text = err.reason.text ++ err.causeText := by
  cases err <;> rfl

theorem run_answer {cfg : RetrySettings} {attempt : Int} {outcome : Option Err} {st : RetryState}
    (h : afterAttempt cfg attempt outcome = st) :
    (retrySystem cfg).run (.attempting attempt) [.answer outcome] = some st :=
  (retrySystem cfg).run_cons_eq_some.mpr ⟨st, congrArg some h, rfl⟩

theorem countP_answer (outcome : Option Err) :
    [RetryAction.answer outcome].countP RetryAction.isAnswer = 1 := rfl

theorem countP_answer_then {outcome : Option Err} {action : RetryAction}
    (h : action.isAnswer = false) :
    [.answer outcome, action].countP RetryAction.isAnswer = 1 := by
  rw [List.countP_cons_of_pos rfl, List.countP_cons_of_neg (by simp [h]), List.countP_nil]

/-- The round at which `Retry` ends, on the machine. -/
theorem Ended.runs {err : Option ErrorTree} (h : Ended (c.rules text) env (attempt + 1) err) :
    ∃ actions returned,
      (retrySystem c.withDefaults).run (.attempting attempt) actions = some (.returned returned) ∧
        actions.countP RetryAction.isAnswer = 1 ∧
        returned.map RetryError.text = err.map (rendered text) := by
  -- each way to end is one answer; an interruption comes in the wait behind it
  have hmax := withDefaults_maxAttempts text c
  cases h with
  | success h =>
    have hafter : afterAttempt c.withDefaults attempt none = .returned none := rfl
    exact ⟨_, none, run_answer hafter, countP_answer _, rfl⟩
  | @permanent err cause h hcause =>
    have hafter : afterAttempt c.withDefaults attempt (some (observed text err)) =
        .returned (some (.permanent (attempt + 1 : ℕ) ((cause.map text).getD "%!w(<nil>)"))) := by
      simp only [afterAttempt, observed, hcause, Option.map_some, Nat.cast_add, Nat.cast_one]
    refine ⟨_, _, run_answer hafter, countP_answer _, ?_⟩
    rw [Option.map_some, Option.map_some, rendered_wrapped, RetryError.text_eq]
    rfl
  | @nonRetryable err h hcause hrejects =>
    have hafter : afterAttempt c.withDefaults attempt (some (observed text err)) =
        .returned (some (.nonRetryable (attempt + 1 : ℕ) (observed text err))) := by
      rw [rejects_rules] at hrejects
      simp only [afterAttempt, observed, hcause, Option.map_none, Nat.cast_add,
        Nat.cast_one] at hrejects ⊢
      rw [if_pos hrejects]
    refine ⟨_, _, run_answer hafter, countP_answer _, ?_⟩
    rw [Option.map_some, Option.map_some, rendered_wrapped, RetryError.text_eq]
    rfl
  | @failed err h hcause hrejects hlast =>
    have hafter : afterAttempt c.withDefaults attempt (some (observed text err)) =
        .returned (some (.failed c.withDefaults.maxAttempts (observed text err))) := by
      rw [rejects_rules] at hrejects
      simp only [afterAttempt, observed, hcause, Option.map_none] at hrejects ⊢
      rw [if_neg (by simp [hrejects]), if_pos (by omega)]
    refine ⟨_, _, run_answer hafter, countP_answer _, ?_⟩
    rw [Option.map_some, Option.map_some, rendered_wrapped, RetryError.text_eq, hmax, ← hlast]
    rfl
  | @interrupted err ctxErr h hcause hrejects hlast hctx =>
    refine ⟨[.answer (some (observed text err)), .interrupt (text ctxErr)],
      some (.interrupted (text ctxErr)), ?_, countP_answer_then rfl, ?_⟩
    · refine (retrySystem _).run_cons_eq_some.mpr ⟨.waiting attempt, ?_, rfl⟩
      exact congrArg some (afterAttempt_waits text c hcause hrejects hlast)
    · rw [Option.map_some, Option.map_some, rendered_wrapped, RetryError.text_eq]
      rfl

theorem run_of_not_stops (h : ¬ Stops (c.rules text) env (attempt + 1)) :
    ∃ action, action.isAnswer = true ∧
      (retrySystem c.withDefaults).run (.attempting attempt) [action, .timer] =
        some (.attempting (attempt + 1 : ℕ)) := by
  simp only [Stops, not_or] at h
  obtain ⟨hfinal, hlast, -⟩ := h
  cases houtcome : env.outcome (attempt + 1) with
  | none =>
    rw [houtcome] at hfinal
    exact absurd trivial hfinal
  | some err =>
    simp only [houtcome, RetryRules.Final, ← permanentCause_isSome_iff, not_or, Bool.not_eq_true,
      Option.isSome_eq_false_iff, Option.isNone_iff_eq_none] at hfinal
    refine ⟨.answer (some (observed text err)), rfl, ?_⟩
    refine (retrySystem _).run_cons_eq_some.mpr ⟨.waiting attempt, ?_, rfl⟩
    exact congrArg some (afterAttempt_waits text c hfinal.1 hfinal.2 hlast)

theorem retryLoop_runs (left attempt : ℕ) (lastErr : Option ErrorTree)
    (hleft : attempt + (left + 1) = (c.rules text).effective) :
    let r := retryLoop (c.rules text) env (left + 1) attempt lastErr
    ∃ actions returned,
      (retrySystem c.withDefaults).run (.attempting attempt) actions = some (.returned returned) ∧
        attempt + actions.countP RetryAction.isAnswer = r.calls ∧
        returned.map RetryError.text = r.err.map (rendered text) := by
  -- the round that ends the loop
  have hend : ∀ {left attempt lastErr err},
      retryLoop (c.rules text) env (left + 1) attempt lastErr = ⟨attempt + 1, err⟩ →
      Ended (c.rules text) env (attempt + 1) err →
      ∃ actions returned,
        (retrySystem c.withDefaults).run (.attempting attempt) actions = some (.returned returned) ∧
          attempt + actions.countP RetryAction.isAnswer =
            (retryLoop (c.rules text) env (left + 1) attempt lastErr).calls ∧
          returned.map RetryError.text =
            (retryLoop (c.rules text) env (left + 1) attempt lastErr).err.map (rendered text) := by
    intro left attempt lastErr err hr hended
    obtain ⟨actions, returned, hrun, hcount, htext⟩ := hended.runs text c
    rw [hr]
    exact ⟨actions, returned, hrun, by rw [hcount], htext⟩
  induction left generalizing attempt lastErr with
  | zero =>
    rcases retryLoop_succ 0 attempt lastErr with ⟨err, hr, hended⟩ | ⟨hstops, -⟩
    · exact hend hr hended
    · exact absurd (.inr (.inl hleft)) hstops
  | succ left ih =>
    rcases retryLoop_succ (left + 1) attempt lastErr with ⟨err, hr, hended⟩ | ⟨hstops, err, hr⟩
    · exact hend hr hended
    · obtain ⟨action, haction, hround⟩ := run_of_not_stops text c hstops
      obtain ⟨actions, returned, hrun, hcount, htext⟩ := ih (attempt + 1) (some err) (by omega)
      refine ⟨[action, .timer] ++ actions, returned, ?_, ?_, ?_⟩
      · rw [(retrySystem _).run_append, hround]
        exact hrun
      · rw [hr, ← hcount, List.countP_append, List.countP_cons_of_pos haction]
        simp only [List.countP_cons, List.countP_nil, RetryAction.isAnswer]
        simp only [Bool.false_eq_true, if_false]
        omega
      · rw [hr]
        exact htext

/-- **The loop is a run of the machine**, with as many answers of the function as calls and an
    error of the same text. -/
theorem retry_runs (env : Outside) :
    ∃ actions returned,
      (retrySystem c.withDefaults).run (.attempting 0) actions = some (.returned returned) ∧
        actions.countP RetryAction.isAnswer = (retry (c.rules text) env).calls ∧
        returned.map RetryError.text = (retry (c.rules text) env).err.map (rendered text) := by
  obtain ⟨left, hleft⟩ := Nat.exists_eq_add_of_le' (c.rules text).effective_pos
  obtain ⟨actions, returned, hrun, hcount, htext⟩ :=
    @retryLoop_runs text c env left 0 none (by omega)
  rw [retry, hleft]
  exact ⟨actions, returned, hrun, by omega, htext⟩

end Machine

end ServiceRuntime.Resilience
