import ServiceRuntime.GoTime

/-!
# The Retry Loop

`resilience.Retry` calls a function until it succeeds, gives up, or is interrupted. The loop
is a small machine here: it is either inside a call of the function (`attempting`), in the
wait before the next call (`waiting`), or finished. What the function answers and whether a
wait ends by its timer or by the context is decided from outside, one action at a time.

The delays only say how long a wait lasts, so they are not part of the machine.
-/

namespace ServiceRuntime.Resilience

/-! ## Errors and configuration -/

structure Err where
  text : String
  /-- What `errors.As` finds for a `PermanentError`: the text of the error it wraps. -/
  permanent : Option String
  deriving DecidableEq

/-- `RetryConfig`, without the delays. -/
structure RetryConfig where
  maxAttempts : Int
  isRetryable : Option (Err → Bool)

/-- A configuration with the defaults filled in. -/
structure RetrySettings where
  maxAttempts : Int
  isRetryable : Option (Err → Bool)
  maxAttempts_pos : 1 ≤ maxAttempts

def RetryConfig.withDefaults (c : RetryConfig) : RetrySettings where
  maxAttempts := if c.maxAttempts < 1 then 3 else c.maxAttempts
  isRetryable := c.isRetryable
  maxAttempts_pos := by split <;> omega

/-- The errors of `Retry` itself, each wrapping its cause. -/
inductive RetryError where
  | permanent (attempts : Int) (cause : String)
  | nonRetryable (attempts : Int) (err : Err)
  | interrupted (ctxErr : String)
  | failed (attempts : Int) (err : Err)
  deriving DecidableEq

def RetryError.text : RetryError → String
  | .permanent attempts cause =>
    "retry permanent after " ++ toString attempts ++ " attempts: " ++ cause
  | .nonRetryable attempts err =>
    "retry non-retryable after " ++ toString attempts ++ " attempts: " ++ err.text
  | .interrupted ctxErr => "retry interrupted: " ++ ctxErr
  | .failed attempts err =>
    "retry failed after " ++ toString attempts ++ " attempts: " ++ err.text

/-! ## The machine -/

inductive RetryState where
  /-- Inside the call of the function number `attempt`, counted from zero. -/
  | attempting (attempt : Int)
  /-- Waiting after that call failed. -/
  | waiting (attempt : Int)
  /-- `Retry` has returned; `none` is success. -/
  | returned (err : Option RetryError)
  deriving DecidableEq

inductive RetryAction where
  | answer (outcome : Option Err)
  | timer
  | interrupt (ctxErr : String)
  deriving DecidableEq

def afterAttempt (cfg : RetrySettings) (attempt : Int) : Option Err → RetryState
  | none => .returned none
  | some err =>
    match err.permanent with
    | some cause => .returned (some (.permanent (attempt + 1) cause))
    | none =>
      if cfg.isRetryable.any fun isRetryable => !isRetryable err then
        .returned (some (.nonRetryable (attempt + 1) err))
      -- no wait after the last attempt
      else if attempt = cfg.maxAttempts - 1 then
        .returned (some (.failed cfg.maxAttempts err))
      else .waiting attempt

def RetryState.step (cfg : RetrySettings) : RetryState → RetryAction → Option RetryState
  | .attempting attempt, .answer outcome => some (afterAttempt cfg attempt outcome)
  | .waiting attempt, .timer => some (.attempting (attempt + 1))
  | .waiting _, .interrupt ctxErr => some (.returned (some (.interrupted ctxErr)))
  | _, _ => none

/-! ## Success -/

def RetryState.succeeded : RetryState → Bool
  | .returned none => true
  | _ => false

def RetryAction.succeeds : RetryAction → Bool
  | .answer none => true
  | _ => false

theorem afterAttempt_succeeded (cfg : RetrySettings) (attempt : Int) (outcome : Option Err) :
    (afterAttempt cfg attempt outcome).succeeded = outcome.isNone := by
  cases outcome with
  | none => rfl
  | some err =>
    simp only [afterAttempt]
    split
    · rfl
    · split
      · rfl
      · split <;> rfl

/-- **`Retry` succeeds with its function**: no step starts from a finished `Retry`, and a step
    makes it succeed exactly when it is the function returning `nil`. -/
theorem RetryState.step_succeeded {cfg : RetrySettings} {st st' : RetryState} {a : RetryAction}
    (h : st.step cfg a = some st') : st.succeeded = false ∧ st'.succeeded = a.succeeds := by
  cases st with
  | attempting attempt =>
    cases a with
    | answer outcome =>
      cases h
      refine ⟨rfl, ?_⟩
      rw [afterAttempt_succeeded]
      cases outcome <;> rfl
    | timer | interrupt => cases h
  | waiting attempt =>
    cases a with
    | answer => cases h
    | timer | interrupt ctxErr =>
      cases h
      exact ⟨rfl, rfl⟩
  | returned err => cases h

end ServiceRuntime.Resilience
