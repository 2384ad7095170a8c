import ServiceRuntime.GoTime
import ServiceRuntime.Transition.System

/-!
# The Health Checker

`Checker` keeps named checks and a cached report. Two locks guard it:

- `mu` is taken for one section at a time: `Add`, the copy of the checks that `Check` makes,
  the lookup in `cached`, and the store of a new report. Such a section is one step.
- `cacheMu` is held by a `CachedCheck` from its second lookup until it returns, while the
  check functions run.

A check function is represented by what it returned and how long it took. Readings of the
clock are inputs of the steps.
-/

namespace ServiceRuntime.Health

open GoTime Transition

/-! ## Reports -/

structure Status where
  name : String
  healthy : Bool
  latency : Int
  error : String
  deriving DecidableEq

structure Report where
  healthy : Bool
  checks : List Status
  duration : Int
  deriving DecidableEq

def Report.zero : Report := ⟨false, [], 0⟩

/-- The names that a report has a status for, in order. -/
def Report.names (r : Report) : List String := r.checks.map Status.name

/-- What a check function returned, and the milliseconds it took. -/
structure Outcome where
  err : Option String
  latency : Int

def Status.of (name : String) (outcome : Outcome) : Status where
  name := name
  healthy := outcome.err.isNone
  latency := outcome.latency
  error := outcome.err.getD ""

/-- The report that `Check` builds from its copy of the checks. -/
def reportOf (snapshot : List String) (outcomes : Nat → Outcome) (duration : Int) : Report :=
  if snapshot.length = 0 then ⟨true, [], duration⟩
  else
    let results := snapshot.mapIdx fun i name => Status.of name (outcomes i)
    ⟨results.all Status.healthy, results, duration⟩

/-! ## The checker -/

/-- The fields of `Checker` that `mu` guards; a check is represented by its name. -/
structure Checker where
  checks : List String
  cachedReport : Report
  cacheUntil : Int

def Checker.new : Checker := ⟨[], .zero, zeroTime⟩

def Checker.add (c : Checker) (name : String) : Checker where
  checks := c.checks ++ [name]
  cachedReport := .zero
  cacheUntil := zeroTime

def Checker.cached (c : Checker) (now : Int) : Option Report :=
  if isZero c.cacheUntil || decide (c.cacheUntil < now) then none else some c.cachedReport

theorem Checker.cached_eq_some_iff {c : Checker} {now : Int} {report : Report} :
    c.cached now = some report ↔
      isZero c.cacheUntil = false ∧ now ≤ c.cacheUntil ∧ report = c.cachedReport := by
  unfold Checker.cached
  cases isZero c.cacheUntil with
  | true => simp
  | false =>
    rw [Bool.false_or]
    by_cases hexpired : c.cacheUntil < now
    · simp [hexpired]
    · simp [hexpired, not_lt.mp hexpired, eq_comm]

/-- The store at the end of `CachedCheck`. -/
def Checker.store (c : Checker) (report : Report) (now : Int) (ttl : Duration) : Checker :=
  { c with cachedReport := report, cacheUntil := GoTime.add now ttl }

/-! ## Calls of `CachedCheck` -/

/-- Where a call of `CachedCheck` stands. -/
inductive Phase where
  /-- Before `ttl <= 0` and the first lookup. -/
  | entered
  /-- Before `cacheMu.Lock()`. -/
  | waiting
  /-- Before the second lookup. -/
  | locked
  /-- Before `Check` copies the checks. -/
  | copying
  /-- The check functions run. -/
  | checking (snapshot : List String)
  /-- Before the report is stored. -/
  | storing (report : Report)
  /-- Before the deferred `cacheMu.Unlock()`. -/
  | releasing (report : Report)
  | returned (report : Report)

structure Call where
  ttl : Duration
  /-- How many checks had been added when the call started; no step reads it. -/
  added : Nat
  phase : Phase

/-- What a call does next, with what it reads from outside. -/
inductive Action where
  | look (now : Int)
  | lock
  | copy
  | finish (outcomes : Nat → Outcome) (duration : Int)
  | store (now : Int)
  | unlock

inductive Event where
  | add (name : String)
  | call (ttl : Duration)
  | act (i : Nat) (action : Action)

structure Sys where
  checker : Checker
  cacheMu : Bool
  calls : List Call

namespace Sys

def move (s : Sys) (i : Nat) (call : Call) (phase : Phase) : Sys :=
  { s with calls := s.calls.set i { call with phase := phase } }

end Sys

def act (s : Sys) (i : Nat) (call : Call) (action : Action) : Option Sys :=
  match call.phase, action with
  | .entered, .look now =>
    if call.ttl.ns ≤ 0 then some (s.move i call .copying)
    else
      match s.checker.cached now with
      | some report => some (s.move i call (.returned report))
      | none => some (s.move i call .waiting)
  | .waiting, .lock =>
    if s.cacheMu then none else some ({ s with cacheMu := true }.move i call .locked)
  | .locked, .look now =>
    match s.checker.cached now with
    | some report => some (s.move i call (.releasing report))
    | none => some (s.move i call .copying)
  | .copying, .copy => some (s.move i call (.checking s.checker.checks))
  | .checking snapshot, .finish outcomes duration =>
    let report := reportOf snapshot outcomes duration
    -- a call with `ttl <= 0` is a plain `Check`
    if call.ttl.ns ≤ 0 then some (s.move i call (.returned report))
    else some (s.move i call (.storing report))
  | .storing report, .store now =>
    some ({ s with checker := s.checker.store report now call.ttl }.move i call (.releasing report))
  | .releasing report, .unlock => some ({ s with cacheMu := false }.move i call (.returned report))
  | _, _ => none

/-- One step: an `Add`, the start of a `CachedCheck`, or an action of a call in progress. -/
def step (s : Sys) : Event → Option Sys
  | .add name => some { s with checker := s.checker.add name }
  | .call ttl => some { s with calls := s.calls ++ [⟨ttl, s.checker.checks.length, .entered⟩] }
  | .act i action => s.calls[i]?.bind fun call => act s i call action

/-- `Add` and `CachedCheck` in any interleaving. -/
def system : System Sys Event where
  init s := s = ⟨.new, false, []⟩
  step := step

/-! ## The shapes of a step -/

/-- Moves of a call that neither have a report nor take a copy of the checks. -/
inductive Quiet : Phase → Phase → Prop where
  | direct : Quiet .entered .copying
  | miss : Quiet .entered .waiting
  | lock : Quiet .waiting .locked
  | missAgain : Quiet .locked .copying

/-- The steps of the checker, by what they write. -/
inductive Step (s : Sys) : Event → Sys → Prop where
  | add {name : String} : Step s (.add name) { s with checker := s.checker.add name }
  | call {ttl : Duration} :
      Step s (.call ttl)
        { s with calls := s.calls ++ [⟨ttl, s.checker.checks.length, .entered⟩] }
  | quiet {i : Nat} {call : Call} {action : Action} {phase : Phase} {cacheMu : Bool}
      (hcall : s.calls[i]? = some call) (hmove : Quiet call.phase phase) :
      Step s (.act i action) ({ s with cacheMu := cacheMu }.move i call phase)
  /-- A lookup finds a report. -/
  | hit {i : Nat} {call : Call} {now : Int} {report : Report} {phase : Phase}
      (hcall : s.calls[i]? = some call) (hcached : s.checker.cached now = some report)
      (hphase : phase = .returned report ∨ phase = .releasing report) :
      Step s (.act i (.look now)) (s.move i call phase)
  | copy {i : Nat} {call : Call} (hcall : s.calls[i]? = some call) :
      Step s (.act i .copy) (s.move i call (.checking s.checker.checks))
  | finish {i : Nat} {call : Call} {snapshot : List String} {outcomes : Nat → Outcome}
      {duration : Int} {phase : Phase} (hcall : s.calls[i]? = some call)
      (hchecking : call.phase = .checking snapshot)
      (hphase : phase = .returned (reportOf snapshot outcomes duration) ∨
        phase = .storing (reportOf snapshot outcomes duration)) :
      Step s (.act i (.finish outcomes duration)) (s.move i call phase)
  | store {i : Nat} {call : Call} {report : Report} {now : Int}
      (hcall : s.calls[i]? = some call) (hphase : call.phase = .storing report) :
      Step s (.act i (.store now))
        ({ s with checker := s.checker.store report now call.ttl }.move i call (.releasing report))
  | unlock {i : Nat} {call : Call} {report : Report} (hcall : s.calls[i]? = some call)
      (hphase : call.phase = .releasing report) :
      Step s (.act i .unlock) ({ s with cacheMu := false }.move i call (.returned report))

theorem Step.of_act {s s' : Sys} {i : Nat} {call : Call} {action : Action}
    (hcall : s.calls[i]? = some call) (h : act s i call action = some s') :
    Step s (.act i action) s' := by
  unfold act at h
  -- one case for each pair of a phase and an action that `act` accepts, in its order
  split at h
  · rename_i hphase
    split at h
    · cases h
      exact .quiet hcall (hphase ▸ .direct)
    · split at h
      · rename_i report hcached
        cases h
        exact .hit hcall hcached (.inl rfl)
      · cases h
        exact .quiet hcall (hphase ▸ .miss)
  · rename_i hphase
    split at h
    · cases h
    · cases h
      exact .quiet hcall (hphase ▸ .lock)
  · rename_i hphase
    split at h
    · rename_i report hcached
      cases h
      exact .hit hcall hcached (.inr rfl)
    · cases h
      exact .quiet hcall (hphase ▸ .missAgain)
  · cases h
    exact .copy hcall
  · rename_i hphase
    split at h
    · cases h
      exact .finish hcall hphase (.inl rfl)
    · cases h
      exact .finish hcall hphase (.inr rfl)
  · rename_i hphase
    cases h
    exact .store hcall hphase
  · rename_i hphase
    cases h
    exact .unlock hcall hphase
  · cases h

theorem Step.of_step {s s' : Sys} {e : Event} (h : step s e = some s') : Step s e s' := by
  cases e with
  | add name =>
    cases h
    exact .add
  | call ttl =>
    cases h
    exact .call
  | act i action =>
    obtain ⟨call, hcall, hact⟩ := Option.bind_eq_some_iff.mp h
    exact .of_act hcall hact

/-! ## Reports and copies have the names they were made from -/

theorem reportOf_names (snapshot : List String) (outcomes : Nat → Outcome) (duration : Int) :
    (reportOf snapshot outcomes duration).names = snapshot := by
  unfold reportOf Report.names
  split
  · rename_i hempty
    rw [List.eq_nil_of_length_eq_zero hempty]
    rfl
  · refine List.ext_getElem? fun i => ?_
    rw [List.getElem?_map, List.getElem?_mapIdx]
    cases snapshot[i]? <;> rfl

end ServiceRuntime.Health
