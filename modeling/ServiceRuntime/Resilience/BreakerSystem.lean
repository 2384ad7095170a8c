import ServiceRuntime.Transition.System
import ServiceRuntime.Resilience.BreakerHistory

/-!
# Concurrent Use of One Breaker

Any number of goroutines call `Do`, `State` and `Reset` on one breaker. A critical
section is one atomic step. What a goroutine does outside the lock is a step of its own:

- the invocation of `OnStateChange` that a critical section left it to make
- the return of `fn` (followed by `after`), or a panic of `fn`, which leaves `Do`
  without running `after` since `Do` has no `defer`

Steps of different goroutines interleave in every possible order, and every step may
read any clock value. The history is kept along the way; no step reads it.
-/

namespace ServiceRuntime.Resilience

open BreakerState
open Transition

/-! ## Goroutines and system states -/

/-- A goroutine inside `Do`, `State` or `Reset`, not holding the lock. -/
structure Call where
  /-- The `OnStateChange` invocation it owes; it makes it before anything else. -/
  callback : Option Change
  /-- For `Do` between `before` and `after`: how it was admitted. -/
  admitted : Option Admission
  deriving DecidableEq, Repr

namespace Call

def busy (call : Call) : Bool := call.callback.isSome || call.admitted.isSome

def keep (call : Call) : List Call := if call.busy then [call] else []

@[simp] theorem keep_returned : keep ⟨none, none⟩ = [] := rfl

@[simp] theorem filterMap_keep (call : Call) :
    call.keep.filterMap Call.admitted = call.admitted.toList := by
  obtain ⟨callback, admitted⟩ := call
  cases callback <;> cases admitted <;> rfl

end Call

/-- A breaker in use: its fields, the goroutines inside it, and its history. -/
structure Sys where
  breaker : Breaker
  calls : List Call
  log : List Entry
  deriving DecidableEq, Repr

/-- The calls in flight: those that `before` admitted and that have not reached `after`. -/
def Sys.flight (s : Sys) : List Admission := s.calls.filterMap Call.admitted

/-! ## Steps -/

/-- What happens next, and to which goroutine of the pool. -/
inductive Op where
  /-- a new `Do` call runs `before` -/
  | before
  /-- `fn` of the `i`-th goroutine returned `err`, and it runs `after` -/
  | after (i : Nat) (err : Option String)
  | panic (i : Nat)
  | state
  | reset
  /-- the `i`-th goroutine invokes the callback it owes -/
  | callback (i : Nat)
  deriving DecidableEq, Repr

/-- An operation together with the clock value it reads, if it reads the clock. -/
structure Event where
  op : Op
  now : Int
  deriving DecidableEq, Repr

/-- The callback a critical section leaves behind: none when `OnStateChange` is nil. -/
def owedCallback (cfg : Settings) (change : Option Change) : Option Change :=
  if cfg.onStateChange then change else none

open History

/-- What `after` does with an outcome, as a history entry. -/
def outcome (b : Breaker) (wasProbe : Bool) (err : Option String) : Entry :=
  if b.discards wasProbe then .discarded else .applied b.state err.isSome

@[simp] theorem transition?_outcome (b : Breaker) (wasProbe : Bool) (err : Option String) :
    transition? (outcome b wasProbe err) = none := by
  unfold outcome
  split <;> rfl

@[simp] theorem notified?_outcome (b : Breaker) (wasProbe : Bool) (err : Option String) :
    notified? (outcome b wasProbe err) = none := by
  unfold outcome
  split <;> rfl

/-- One atomic step; `none` when the named goroutine cannot take it. -/
def step (cfg : Settings) (s : Sys) (e : Event) : Option Sys :=
  match e.op with
  | .before =>
    match s.breaker.before cfg e.now with
    | (b, change, .error _) =>
      some
        { breaker := b
          calls := Call.keep ⟨owedCallback cfg change, none⟩ ++ s.calls
          log := .rejected :: record s.breaker.state b.state e.now s.log }
    | (b, change, .ok wasProbe) =>
      let log := record s.breaker.state b.state e.now s.log
      some
        { breaker := b
          calls := Call.keep ⟨owedCallback cfg change, some ⟨wasProbe, period log⟩⟩ ++ s.calls
          log := .admitted wasProbe :: log }
  | .after i err =>
    match s.calls[i]? with
    | some ⟨none, some adm⟩ =>
      match s.breaker.after cfg e.now adm.wasProbe err with
      | (b, change) =>
        some
          { breaker := b
            calls := replaceAt s.calls i (Call.keep ⟨owedCallback cfg change, none⟩)
            log := record s.breaker.state b.state e.now
              (outcome s.breaker adm.wasProbe err :: s.log) }
    | _ => none
  | .panic i =>
    -- `after` is not deferred, so the breaker never hears of a panic
    match s.calls[i]? with
    | some ⟨none, some adm⟩ =>
      some { s with calls := replaceAt s.calls i [], log := .panicked adm :: s.log }
    | _ => none
  | .state =>
    match s.breaker.stateLocked cfg e.now with
    | (b, change) =>
      some
        { breaker := b
          calls := Call.keep ⟨owedCallback cfg change, none⟩ ++ s.calls
          log := record s.breaker.state b.state e.now s.log }
  | .reset =>
    match s.breaker.reset with
    | (b, change) =>
      some
        { breaker := b
          calls := Call.keep ⟨owedCallback cfg change, none⟩ ++ s.calls
          log := record s.breaker.state b.state e.now (.reset :: s.log) }
  | .callback i =>
    match s.calls[i]? with
    | some ⟨some change, adm⟩ =>
      some
        { s with
          calls := replaceAt s.calls i (Call.keep ⟨none, adm⟩)
          log := .notified change :: s.log }
    | _ => none

def initial : Sys where
  breaker := newBreaker
  calls := []
  log := []

/-- The breaker that `NewBreaker(c)` returns, under concurrent use. -/
def breakerSystem (c : BreakerConfig) : System Sys Event where
  init s := s = initial
  step := step c.withDefaults

/-! ## Inversion -/

/-- What the steps do, with the pool split around the goroutine that moves. -/
inductive Step (cfg : Settings) : Sys → Event → Sys → Prop where
  | reject {s : Sys} {now : Int} {b : Breaker} {change : Option Change} {err : BreakerError}
      (hb : s.breaker.before cfg now = (b, change, .error err)) :
      Step cfg s ⟨.before, now⟩
        { breaker := b
          calls := Call.keep ⟨owedCallback cfg change, none⟩ ++ s.calls
          log := .rejected :: record s.breaker.state b.state now s.log }
  | accept {s : Sys} {now : Int} {b : Breaker} {change : Option Change} {wasProbe : Bool}
      (hb : s.breaker.before cfg now = (b, change, .ok wasProbe)) :
      Step cfg s ⟨.before, now⟩
        { breaker := b
          calls := Call.keep ⟨owedCallback cfg change,
            some ⟨wasProbe, period (record s.breaker.state b.state now s.log)⟩⟩ ++ s.calls
          log := .admitted wasProbe :: record s.breaker.state b.state now s.log }
  | after {s : Sys} {now : Int} {i : Nat} {err : Option String} {adm : Admission}
      {b : Breaker} {change : Option Change} {l₁ l₂ : List Call}
      (hcalls : s.calls = l₁ ++ ⟨none, some adm⟩ :: l₂) (hi : l₁.length = i)
      (hb : s.breaker.after cfg now adm.wasProbe err = (b, change)) :
      Step cfg s ⟨.after i err, now⟩
        { breaker := b
          calls := l₁ ++ Call.keep ⟨owedCallback cfg change, none⟩ ++ l₂
          log := record s.breaker.state b.state now
            (outcome s.breaker adm.wasProbe err :: s.log) }
  | panic {s : Sys} {now : Int} {i : Nat} {adm : Admission} {l₁ l₂ : List Call}
      (hcalls : s.calls = l₁ ++ ⟨none, some adm⟩ :: l₂) (hi : l₁.length = i) :
      Step cfg s ⟨.panic i, now⟩
        { s with calls := l₁ ++ [] ++ l₂, log := .panicked adm :: s.log }
  | state {s : Sys} {now : Int} {b : Breaker} {change : Option Change}
      (hb : s.breaker.stateLocked cfg now = (b, change)) :
      Step cfg s ⟨.state, now⟩
        { breaker := b
          calls := Call.keep ⟨owedCallback cfg change, none⟩ ++ s.calls
          log := record s.breaker.state b.state now s.log }
  | reset {s : Sys} {now : Int} {b : Breaker} {change : Option Change}
      (hb : s.breaker.reset = (b, change)) :
      Step cfg s ⟨.reset, now⟩
        { breaker := b
          calls := Call.keep ⟨owedCallback cfg change, none⟩ ++ s.calls
          log := record s.breaker.state b.state now (.reset :: s.log) }
  | callback {s : Sys} {now : Int} {i : Nat} {change : Change} {adm : Option Admission}
      {l₁ l₂ : List Call}
      (hcalls : s.calls = l₁ ++ ⟨some change, adm⟩ :: l₂) (hi : l₁.length = i) :
      Step cfg s ⟨.callback i, now⟩
        { s with calls := l₁ ++ Call.keep ⟨none, adm⟩ ++ l₂, log := .notified change :: s.log }

theorem Step.of_step {cfg : Settings} {s s' : Sys} {e : Event} (h : step cfg s e = some s') :
    Step cfg s e s' := by
  obtain ⟨op, now⟩ := e
  cases op with
  | before =>
    simp only [step] at h
    split at h
    · rename_i hb
      cases h
      exact .reject hb
    · rename_i hb
      cases h
      exact .accept hb
  | after i err =>
    simp only [step] at h
    split at h
    · rename_i adm hget
      -- the pool around goroutine `i`, which is replaced or leaves
      obtain ⟨l₁, l₂, hl, hi, hreplace⟩ := pool_split hget
      simp only [hreplace, Option.some.injEq] at h
      subst h
      exact .after hl hi rfl
    · cases h
  | panic i =>
    simp only [step] at h
    split at h
    · rename_i adm hget
      obtain ⟨l₁, l₂, hl, hi, hreplace⟩ := pool_split hget
      simp only [hreplace, Option.some.injEq] at h
      subst h
      exact .panic hl hi
    · cases h
  | state =>
    cases h
    exact .state rfl
  | reset =>
    cases h
    exact .reset rfl
  | callback i =>
    simp only [step] at h
    split at h
    · rename_i change adm hget
      obtain ⟨l₁, l₂, hl, hi, hreplace⟩ := pool_split hget
      simp only [hreplace, Option.some.injEq] at h
      subst h
      exact .callback hl hi
    · cases h

theorem Step.of_system {c : BreakerConfig} {s s' : Sys} {e : Event}
    (h : (breakerSystem c).step s e = some s') : Step c.withDefaults s e s' :=
  Step.of_step h

end ServiceRuntime.Resilience
