import ServiceRuntime.GoTime

/-!
# The Circuit Breaker

The critical sections of `resilience.Breaker`: what each method does while it holds the
mutex. The clock is read at most once in each of them, so the reading is an argument.
The configuration never changes after `NewBreaker`, so it is an argument as well.

The counters are unbounded integers here. In Go they are 64-bit, and they cannot
overflow: `consecutiveFail` stops at the failure threshold and `halfOpenCount` at
`HalfOpenMax`, both of which are 64-bit integers themselves.

Each method comes with one case lemma (`before_cases`, `after_cases`, ...), and the
rest of the development works from these.
-/

namespace ServiceRuntime.Resilience

open GoTime

/-! ## States and configuration -/

inductive BreakerState where
  /-- normal operation -/
  | stateClosed
  /-- all calls rejected -/
  | stateOpen
  /-- limited probes allowed -/
  | stateHalfOpen
  deriving DecidableEq, Repr

open BreakerState

/-- `BreakerConfig`. Only the presence of the callback matters here; the clock is passed
    to each method as its reading. -/
structure BreakerConfig where
  /-- consecutive failures before opening -/
  failureThreshold : Int
  /-- time in open state before half-open probe -/
  resetTimeout : Duration
  /-- max concurrent probes in half-open -/
  halfOpenMax : Int
  /-- whether `OnStateChange` is set -/
  onStateChange : Bool
  deriving DecidableEq

/-- A configuration with every default filled in. -/
structure Settings extends BreakerConfig where
  failureThreshold_pos : 1 ≤ failureThreshold
  resetTimeout_pos : 0 < resetTimeout.ns
  halfOpenMax_pos : 1 ≤ halfOpenMax
  deriving DecidableEq

theorem defaultResetTimeout_lower : -2 ^ 63 ≤ 30 * Duration.second.ns := by decide

theorem defaultResetTimeout_upper : 30 * Duration.second.ns < 2 ^ 63 := by decide

namespace BreakerConfig

theorem failureThreshold_default_pos (c : BreakerConfig) :
    1 ≤ if c.failureThreshold < 1 then 5 else c.failureThreshold := by
  split <;> omega

theorem resetTimeout_default_pos (c : BreakerConfig) :
    0 < (if c.resetTimeout.ns ≤ 0 then
      ⟨30 * Duration.second.ns, defaultResetTimeout_lower, defaultResetTimeout_upper⟩
    else c.resetTimeout : Duration).ns := by
  split
  · decide
  · omega

theorem halfOpenMax_default_pos (c : BreakerConfig) :
    1 ≤ if c.halfOpenMax < 1 then 1 else c.halfOpenMax := by
  split <;> omega

def withDefaults (c : BreakerConfig) : Settings where
  failureThreshold := if c.failureThreshold < 1 then 5 else c.failureThreshold
  resetTimeout :=
    if c.resetTimeout.ns ≤ 0 then
      ⟨30 * Duration.second.ns, defaultResetTimeout_lower, defaultResetTimeout_upper⟩
    else c.resetTimeout
  halfOpenMax := if c.halfOpenMax < 1 then 1 else c.halfOpenMax
  onStateChange := c.onStateChange
  failureThreshold_pos := c.failureThreshold_default_pos
  resetTimeout_pos := c.resetTimeout_default_pos
  halfOpenMax_pos := c.halfOpenMax_default_pos

end BreakerConfig

/-! ## The guarded fields -/

/-- The fields of `Breaker` that the mutex guards. -/
@[ext] structure Breaker where
  state : BreakerState
  consecutiveFail : Int
  openedAt : Int
  halfOpenCount : Int
  deriving DecidableEq, Repr

def newBreaker : Breaker where
  state := stateClosed
  consecutiveFail := 0
  openedAt := zeroTime
  halfOpenCount := 0

structure Change where
  fromState : BreakerState
  toState : BreakerState
  deriving DecidableEq, Repr

/-- The methods return `(from, to, changed)`; the pair counts only if `changed`. -/
def changed (prev next : BreakerState) : Option Change :=
  if prev ≠ next then some ⟨prev, next⟩ else none

@[simp] theorem changed_self (p : BreakerState) : changed p p = none := by
  simp [changed]

/-- `ErrCircuitOpen` is the only error the breaker itself produces. -/
inductive BreakerError where
  | errCircuitOpen
  deriving DecidableEq, Repr

namespace Breaker

variable (cfg : Settings) (now : Int) (b : Breaker)

/-! ## Methods -/

/-- `stateLocked`: promote Open to HalfOpen once the reset timeout has elapsed. -/
def stateLocked : Breaker × Option Change :=
  if b.state = stateOpen ∧ cfg.resetTimeout.ns ≤ (sub now b.openedAt).ns then
    ({ b with state := stateHalfOpen, halfOpenCount := 0 }, some ⟨stateOpen, stateHalfOpen⟩)
  else (b, none)

/-- `Reset`: back to Closed with all counters cleared. -/
def reset : Breaker × Option Change :=
  ({ b with state := stateClosed, consecutiveFail := 0, halfOpenCount := 0 },
    changed b.state stateClosed)

/-- `before`: the new fields, the transition to report, and `wasProbe` or the error. -/
def before : Breaker × Option Change × Except BreakerError Bool :=
  -- the state is looked at after the promotion, so a due breaker admits its first probe
  let (b, change) := b.stateLocked cfg now
  match b.state with
  | stateClosed => (b, change, .ok false)
  | stateOpen => (b, change, .error .errCircuitOpen)
  | stateHalfOpen =>
    if cfg.halfOpenMax ≤ b.halfOpenCount then (b, change, .error .errCircuitOpen)
    else ({ b with halfOpenCount := b.halfOpenCount + 1 }, change, .ok true)

def onSuccess : Breaker × Option Change :=
  let b' :=
    match b.state with
    | stateClosed => { b with consecutiveFail := 0 }
    | stateOpen => b
    | stateHalfOpen => { b with state := stateClosed, consecutiveFail := 0, halfOpenCount := 0 }
  (b', changed b.state b'.state)

def onFailure : Breaker × Option Change :=
  let b' :=
    match b.state with
    | stateClosed =>
      -- the count is kept when the breaker trips; only an entry into Closed clears it
      let b₁ := { b with consecutiveFail := b.consecutiveFail + 1 }
      if cfg.failureThreshold ≤ b₁.consecutiveFail then
        { b₁ with state := stateOpen, openedAt := now }
      else b₁
    | stateOpen => b
    | stateHalfOpen => { b with state := stateOpen, openedAt := now, halfOpenCount := 0 }
  (b', changed b.state b'.state)

/-- The guard of `after`: a probe whose breaker has left HalfOpen is ignored. -/
def discards (wasProbe : Bool) : Bool := wasProbe && b.state ≠ stateHalfOpen

/-- `after`: record the outcome of a call; `err` is what `fn` returned. -/
def after (wasProbe : Bool) (err : Option String) : Breaker × Option Change :=
  if b.discards wasProbe then (b, none)
  else
    match err with
    | none => b.onSuccess
    | some _ => b.onFailure cfg now

/-! ## Case lemmas -/

variable {cfg now b}

/-- The breaker is due for promotion: Open, and the reset timeout has elapsed. -/
def Due (cfg : Settings) (now : Int) (b : Breaker) : Prop :=
  b.state = stateOpen ∧ add b.openedAt cfg.resetTimeout ≤ now

instance : Decidable (Due cfg now b) := inferInstanceAs (Decidable (_ ∧ _))

theorem stateLocked_of_due (h : Due cfg now b) :
    b.stateLocked cfg now =
      ({ b with state := stateHalfOpen, halfOpenCount := 0 },
        some ⟨stateOpen, stateHalfOpen⟩) := by
  rw [stateLocked, if_pos ⟨h.1, (le_sub_iff cfg.resetTimeout_pos _ _).mpr h.2⟩]

theorem stateLocked_of_not_due (h : ¬ Due cfg now b) : b.stateLocked cfg now = (b, none) := by
  rw [stateLocked, if_neg]
  rintro ⟨hopen, hle⟩
  exact h ⟨hopen, (le_sub_iff cfg.resetTimeout_pos _ _).mp hle⟩

theorem before_of_open (hopen : b.state = stateOpen) (hdue : ¬ Due cfg now b) :
    b.before cfg now = (b, none, .error .errCircuitOpen) := by
  simp [before, stateLocked_of_not_due hdue, hopen]

theorem after_of_open (hopen : b.state = stateOpen) (wasProbe : Bool) (err : Option String) :
    b.after cfg now wasProbe err = (b, none) := by
  cases wasProbe <;> cases err <;> simp [after, discards, onSuccess, onFailure, hopen]

variable (cfg now b)

theorem stateLocked_cases :
    (Due cfg now b ∧ b.stateLocked cfg now =
      ({ b with state := stateHalfOpen, halfOpenCount := 0 },
        some ⟨stateOpen, stateHalfOpen⟩)) ∨
    (¬ Due cfg now b ∧ b.stateLocked cfg now = (b, none)) := by
  by_cases h : Due cfg now b
  · exact .inl ⟨h, stateLocked_of_due h⟩
  · exact .inr ⟨h, stateLocked_of_not_due h⟩

/-- Everything `before` can do: accept in Closed, reject in Open, promote and accept the first
    probe, reject a probe when the slots are taken, accept a further probe. -/
theorem before_cases :
    (b.state = stateClosed ∧ b.before cfg now = (b, none, .ok false)) ∨
    (b.state = stateOpen ∧ ¬ Due cfg now b ∧
      b.before cfg now = (b, none, .error .errCircuitOpen)) ∨
    (Due cfg now b ∧
      b.before cfg now = ({ b with state := stateHalfOpen, halfOpenCount := 1 },
        some ⟨stateOpen, stateHalfOpen⟩, .ok true)) ∨
    (b.state = stateHalfOpen ∧ cfg.halfOpenMax ≤ b.halfOpenCount ∧
      b.before cfg now = (b, none, .error .errCircuitOpen)) ∨
    (b.state = stateHalfOpen ∧ b.halfOpenCount < cfg.halfOpenMax ∧
      b.before cfg now = ({ b with halfOpenCount := b.halfOpenCount + 1 }, none, .ok true)) := by
  have hmax : ¬ cfg.halfOpenMax ≤ 0 := by have := cfg.halfOpenMax_pos; omega
  by_cases hdue : Due cfg now b
  -- due: `stateLocked` promotes first, and the promoted breaker has a free slot
  · refine .inr (.inr (.inl ⟨hdue, ?_⟩))
    simp [before, stateLocked_of_due hdue, hmax]
  · cases hstate : b.state with
    | stateClosed => exact .inl ⟨rfl, by simp [before, stateLocked_of_not_due hdue, hstate]⟩
    | stateOpen => exact .inr (.inl ⟨rfl, hdue, before_of_open hstate hdue⟩)
    | stateHalfOpen =>
      by_cases hfull : cfg.halfOpenMax ≤ b.halfOpenCount
      · refine .inr (.inr (.inr (.inl ⟨rfl, hfull, ?_⟩)))
        simp [before, stateLocked_of_not_due hdue, hstate, hfull]
      · refine .inr (.inr (.inr (.inr ⟨rfl, by omega, ?_⟩)))
        simp [before, stateLocked_of_not_due hdue, hstate, hfull]

theorem before_error {b' : Breaker} {change : Option Change} {err : BreakerError}
    (h : b.before cfg now = (b', change, .error err)) : b' = b ∧ change = none := by
  rcases before_cases cfg now b with
    ⟨-, heq⟩ | ⟨-, -, heq⟩ | ⟨-, heq⟩ | ⟨-, -, heq⟩ | ⟨-, -, heq⟩
  all_goals cases heq.symm.trans h
  · exact ⟨rfl, rfl⟩
  · exact ⟨rfl, rfl⟩

/-- Everything `after` can do: ignore a late probe, clear or count in Closed, trip, stay Open,
    close or reopen from HalfOpen. -/
theorem after_cases (wasProbe : Bool) (err : Option String) :
    ((wasProbe = true ∧ b.state ≠ stateHalfOpen ∨ b.state = stateOpen) ∧
      b.after cfg now wasProbe err = (b, none)) ∨
    (wasProbe = false ∧ b.state = stateClosed ∧ err = none ∧
      b.after cfg now wasProbe err = ({ b with consecutiveFail := 0 }, none)) ∨
    (wasProbe = false ∧ b.state = stateClosed ∧ err ≠ none ∧
      b.consecutiveFail + 1 < cfg.failureThreshold ∧
      b.after cfg now wasProbe err =
        ({ b with consecutiveFail := b.consecutiveFail + 1 }, none)) ∨
    (wasProbe = false ∧ b.state = stateClosed ∧ err ≠ none ∧
      cfg.failureThreshold ≤ b.consecutiveFail + 1 ∧
      b.after cfg now wasProbe err =
        ({ b with consecutiveFail := b.consecutiveFail + 1, state := stateOpen, openedAt := now },
          some ⟨stateClosed, stateOpen⟩)) ∨
    (b.state = stateHalfOpen ∧ err = none ∧
      b.after cfg now wasProbe err =
        ({ b with state := stateClosed, consecutiveFail := 0, halfOpenCount := 0 },
          some ⟨stateHalfOpen, stateClosed⟩)) ∨
    (b.state = stateHalfOpen ∧ err ≠ none ∧
      b.after cfg now wasProbe err =
        ({ b with state := stateOpen, openedAt := now, halfOpenCount := 0 },
          some ⟨stateHalfOpen, stateOpen⟩)) := by
  cases hstate : b.state with
  | stateOpen => exact .inl ⟨.inr rfl, after_of_open hstate wasProbe err⟩
  | stateHalfOpen =>
    cases err with
    | none =>
      refine .inr (.inr (.inr (.inr (.inl ⟨rfl, rfl, ?_⟩))))
      simp [after, discards, onSuccess, changed, hstate]
    | some e =>
      refine .inr (.inr (.inr (.inr (.inr ⟨rfl, by simp, ?_⟩))))
      simp [after, discards, onFailure, changed, hstate]
  | stateClosed =>
    cases wasProbe with
    -- a probe that comes back to a closed breaker is discarded
    | true => exact .inl ⟨.inl ⟨rfl, by simp⟩, by simp [after, discards, hstate]⟩
    | false =>
      cases err with
      | none =>
        refine .inr (.inl ⟨rfl, rfl, rfl, ?_⟩)
        simp [after, discards, onSuccess, hstate]
      | some e =>
        -- the failure is counted, and may be the one that trips
        by_cases htrip : cfg.failureThreshold ≤ b.consecutiveFail + 1
        · refine .inr (.inr (.inr (.inl ⟨rfl, rfl, by simp, htrip, ?_⟩)))
          simp [after, discards, onFailure, changed, hstate, htrip]
        · refine .inr (.inr (.inl ⟨rfl, rfl, by simp, by omega, ?_⟩))
          simp [after, discards, onFailure, hstate, htrip]

/-! ## Reported transitions are the real ones -/

section

variable {cfg : Settings} {now : Int} {b b' : Breaker} {change : Option Change}

theorem stateLocked_change (h : b.stateLocked cfg now = (b', change)) :
    change = changed b.state b'.state := by
  rcases stateLocked_cases cfg now b with ⟨hdue, heq⟩ | ⟨-, heq⟩
  · cases heq.symm.trans h
    simp [changed, hdue.1]
  · cases heq.symm.trans h
    simp

theorem before_change {res : Except BreakerError Bool}
    (h : b.before cfg now = (b', change, res)) : change = changed b.state b'.state := by
  rcases before_cases cfg now b with
    ⟨-, heq⟩ | ⟨-, -, heq⟩ | ⟨hdue, heq⟩ | ⟨-, -, heq⟩ | ⟨-, -, heq⟩
  all_goals cases heq.symm.trans h
  · simp
  · simp
  · simp [changed, hdue.1]
  · simp
  · simp

theorem after_change {wasProbe : Bool} {err : Option String}
    (h : b.after cfg now wasProbe err = (b', change)) : change = changed b.state b'.state := by
  rcases after_cases cfg now b wasProbe err with
    ⟨-, heq⟩ | ⟨-, -, -, heq⟩ | ⟨-, -, -, -, heq⟩ | ⟨-, hs, -, -, heq⟩ | ⟨hs, -, heq⟩ | ⟨hs, -, heq⟩
  all_goals cases heq.symm.trans h
  · simp
  · simp
  · simp
  · simp [changed, hs]
  · simp [changed, hs]
  · simp [changed, hs]

theorem reset_change (h : b.reset = (b', change)) : change = changed b.state b'.state := by
  cases h
  rfl

end

end Breaker

end ServiceRuntime.Resilience
