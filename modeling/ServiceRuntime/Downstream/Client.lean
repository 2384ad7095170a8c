import ServiceRuntime.Resilience.BreakerSystem

/-!
# Calls to a Downstream Service

`CallOp` runs a function through the breaker of a client, records latency and errors, and then
answers as the failure mode says: a client that fails closed returns the error, one that fails open
returns the zero value and no error.

Any number of `CallOp` calls are under way on one client, with others that look at its breaker or
reset it. A call is seen by the breaker as one of its goroutines (`Flight.call`), so the steps of
the client are steps of the breaker (`view_step`): all that holds of a breaker in use holds of the
breaker of a client.
-/

namespace ServiceRuntime.Downstream

open Resilience Transition

/-! ## Configuration -/

/-- `FailureMode`; the type is an integer in the source, where 0 and 1 are named and `other` is the
    rest. -/
inductive FailureMode where
  | failClosed
  | failOpen
  | other (n : Int)
  deriving DecidableEq, Repr

/-- Which collectors of `Metrics` are set; a nil `*Metrics` has neither. -/
structure Metrics where
  errors : Bool
  latency : Bool

/-- `Config`, without the logger; of the breaker its configuration is kept. -/
structure Config where
  failureMode : FailureMode
  breaker : Option BreakerConfig
  metrics : Metrics

def Config.zero : Config := ⟨.failClosed, none, ⟨false, false⟩⟩

/-- The second argument of `New`, by its dynamic type. -/
inductive ConfigArg where
  | config (cfg : Config)
  | configPtr (cfg : Option Config)
  | failureMode (mode : FailureMode)
  | unsupported (typeName : String)

def unexpectedConfigs (configs : List Config) : String :=
  "downstream.New: unexpected " ++ toString configs.length ++ " extra config arguments"

/-- `normalizeConfig`; an error is a panic. -/
def normalizeConfig (cfgOrPolicy : ConfigArg) (configs : List Config) : Except String Config :=
  match cfgOrPolicy with
  | .config value =>
    if configs.length ≠ 0 then .error (unexpectedConfigs configs) else .ok value
  | .configPtr value =>
    if configs.length ≠ 0 then .error (unexpectedConfigs configs) else .ok (value.getD .zero)
  | .failureMode value =>
    match configs with
    | [] => .ok { Config.zero with failureMode := value }
    | [cfg] => .ok { cfg with failureMode := value }
    | configs => .error ("downstream.New: expected at most one config with failure policy, got " ++
        toString configs.length)
  | .unsupported typeName =>
    .error ("downstream.New: unsupported config argument type " ++ typeName)

def opLabel (op : String) : String := if op = "" then "call" else op

/-! ## Calls -/

inductive CallError where
  /-- `ErrCircuitOpen`, of the breaker of the client or of another that the function went through. -/
  | circuitOpen
  | other (err : String)
  deriving DecidableEq, Repr

def CallError.text : CallError → String
  | .circuitOpen => "circuit_open"
  | .other err => err

/-- A call of `CallOp`; the number is not part of the program. -/
structure Ticket where
  id : Nat
  op : String

def FailureMode.failureResult (err : CallError) : FailureMode → Option CallError
  | .failOpen => none
  | .failClosed => some err
  | .other _ => some err

/-- A `CallOp` that has returned. -/
structure Answer (α : Type) extends Ticket where
  /-- The breaker let the call in, and the function was called. -/
  ran : Bool
  /-- What became of the call, before the failure mode is applied. -/
  outcome : Except CallError α
  value : α
  err : Option CallError

/-- A goroutine inside the breaker of the client. -/
inductive Flight (α : Type) where
  /-- A `CallOp` that `before` let through; it may owe a callback before it calls the function. -/
  | admitted (call : Ticket) (callback : Option Change) (adm : Admission)
  /-- A `CallOp` whose function has returned and which owes a callback. -/
  | finishing (call : Ticket) (change : Change) (result : Except CallError α)
  /-- Somebody else who called `State` or `Reset` and owes a callback. -/
  | observer (change : Change)

def Flight.call {α : Type} : Flight α → Call
  | .admitted _ callback adm => ⟨callback, some adm⟩
  | .finishing _ change _ => ⟨some change, none⟩
  | .observer change => ⟨some change, none⟩

/-! ## The system -/

/-- What happened to a call at the breaker. -/
inductive Note (α : Type) where
  | turnedAway (id : Nat)
  | letThrough (id : Nat)
  /-- The function has returned, and `after` was told so. -/
  | told (id : Nat) (outcome : Except CallError α)
  | panicked (id : Nat)

structure Sys (α : Type) where
  breaker : Breaker
  flights : List (Flight α)
  /-- The history of the breaker. -/
  log : List Entry
  /-- The labels under which `Latency` was observed, newest first. -/
  latency : List String
  /-- The labels under which `Errors` was incremented, newest first. -/
  errors : List String
  answers : List (Answer α)
  /-- Not part of the program: the number of the next call. -/
  next : Nat
  /-- Not part of the program: what happened at the breaker, newest first. -/
  notes : List (Note α)

inductive Event (α : Type) where
  /-- `CallOp` runs `before`. -/
  | call (op : String) (now : Int)
  /-- The function of the `i`-th goroutine returns, and it runs `after`. -/
  | done (i : Nat) (result : Except CallError α) (now : Int)
  | panic (i : Nat)
  /-- The `i`-th goroutine invokes the callback it owes. -/
  | callback (i : Nat)
  | state (now : Int)
  | reset
  /-- `CallOp` of a client without a breaker, from its start to its end. -/
  | direct (op : String) (result : Except CallError α)

structure Client where
  name : String
  mode : FailureMode
  breaker : Option BreakerConfig
  metrics : Metrics

def new (name : String) (cfgOrPolicy : ConfigArg) (configs : List Config) : Except String Client :=
  (normalizeConfig cfgOrPolicy configs).map fun cfg =>
    ⟨name, cfg.failureMode, cfg.breaker, cfg.metrics⟩

variable {α : Type}

def errOf : Except CallError α → Option String
  | .ok _ => none
  | .error err => some err.text

def Client.answer (c : Client) (zero : α) (call : Ticket) (ran : Bool)
    (outcome : Except CallError α) : Answer α :=
  match outcome with
  | .ok value => ⟨call, ran, outcome, value, none⟩
  | .error err => ⟨call, ran, outcome, zero, c.mode.failureResult err⟩

/-- `recordLatency`; the label with the name of the client is left out, as it is always the same. -/
def Client.recordLatency (c : Client) (op : String) (latency : List String) : List String :=
  if c.metrics.latency then opLabel op :: latency else latency

def Client.recordError (c : Client) (op : String) (errors : List String) : List String :=
  if c.metrics.errors then opLabel op :: errors else errors

/-- The end of `CallOp`: latency, errors and the answer. -/
def Sys.finish (c : Client) (zero : α) (s : Sys α) (call : Ticket) (ran : Bool)
    (outcome : Except CallError α) : Sys α :=
  { s with
    latency := c.recordLatency call.op s.latency
    errors :=
      match outcome with
      | .ok _ => s.errors
      | .error _ => c.recordError call.op s.errors
    answers := c.answer zero call ran outcome :: s.answers }

def observing (cfg : Settings) (change : Option Change) : List (Flight α) :=
  ((owedCallback cfg change).map Flight.observer).toList

open History

/-- One step of a client with a breaker; `CallOp` goes through `DoValue`, and that through `Do`. -/
def guarded (c : Client) (cfg : Settings) (zero : α) (s : Sys α) : Event α → Option (Sys α)
  | .call op now =>
    match s.breaker.before cfg now with
    | (b, _, .error _) =>
      some (Sys.finish c zero
        { s with
          breaker := b
          log := .rejected :: record s.breaker.state b.state now s.log
          next := s.next + 1
          notes := .turnedAway s.next :: s.notes }
        ⟨s.next, op⟩ false (.error .circuitOpen))
    | (b, change, .ok wasProbe) =>
      let log := record s.breaker.state b.state now s.log
      some
        { s with
          breaker := b
          flights := .admitted ⟨s.next, op⟩ (owedCallback cfg change)
            ⟨wasProbe, period log⟩ :: s.flights
          log := .admitted wasProbe :: log
          next := s.next + 1
          notes := .letThrough s.next :: s.notes }
  | .done i result now =>
    match s.flights[i]? with
    | some (.admitted call none adm) =>
      match s.breaker.after cfg now adm.wasProbe (errOf result) with
      | (b, change) =>
        let s' := { s with
          breaker := b
          log := record s.breaker.state b.state now
            (outcome s.breaker adm.wasProbe (errOf result) :: s.log)
          notes := .told call.id result :: s.notes }
        match owedCallback cfg change with
        | none => some (Sys.finish c zero { s' with flights := replaceAt s.flights i [] } call true
            result)
        | some change =>
          some { s' with flights := replaceAt s.flights i [.finishing call change result] }
    | _ => none
  | .panic i =>
    match s.flights[i]? with
    -- neither the breaker nor the metrics hear of a panic
    | some (.admitted call none adm) =>
      some { s with
        flights := replaceAt s.flights i []
        log := .panicked adm :: s.log
        notes := .panicked call.id :: s.notes }
    | _ => none
  | .callback i =>
    match s.flights[i]? with
    | some (.admitted call (some change) adm) =>
      some { s with
        flights := replaceAt s.flights i [.admitted call none adm]
        log := .notified change :: s.log }
    | some (.finishing call change result) =>
      some (Sys.finish c zero
        { s with flights := replaceAt s.flights i [], log := .notified change :: s.log }
        call true result)
    | some (.observer change) =>
      some { s with flights := replaceAt s.flights i [], log := .notified change :: s.log }
    | _ => none
  | .state now =>
    match s.breaker.stateLocked cfg now with
    | (b, change) =>
      some
        { s with
          breaker := b
          flights := observing cfg change ++ s.flights
          log := record s.breaker.state b.state now s.log }
  | .reset =>
    match s.breaker.reset with
    | (b, change) =>
      some
        { s with
          breaker := b
          flights := observing cfg change ++ s.flights
          log := record s.breaker.state b.state 0 (.reset :: s.log) }
  | .direct _ _ => none

def step (c : Client) (zero : α) (s : Sys α) (e : Event α) : Option (Sys α) :=
  match c.breaker, e with
  | some breaker, e => guarded c breaker.withDefaults zero s e
  -- no breaker: call directly
  | none, .direct op result =>
    some ({ s with next := s.next + 1 }.finish c zero ⟨s.next, op⟩ true result)
  | none, _ => none

def initial : Sys α := ⟨newBreaker, [], [], [], [], [], 0, []⟩

def system (c : Client) (zero : α) : System (Sys α) (Event α) where
  init s := s = initial
  step := step c zero

/-! ## The breaker of a client -/

def Sys.view (s : Sys α) : Resilience.Sys := ⟨s.breaker, s.flights.map Flight.call, s.log⟩

def Event.seen : Event α → Resilience.Event
  | .call _ now => ⟨.before, now⟩
  | .done i result now => ⟨.after i (errOf result), now⟩
  | .panic i => ⟨.panic i, 0⟩
  | .callback i => ⟨.callback i, 0⟩
  | .state now => ⟨.state, now⟩
  | .reset => ⟨.reset, 0⟩
  | .direct _ _ => ⟨.state, 0⟩

theorem map_replaceAt (flights : List (Flight α)) (i : Nat) (m : List (Flight α)) :
    (replaceAt flights i m).map Flight.call =
      replaceAt (flights.map Flight.call) i (m.map Flight.call) := by
  simp only [replaceAt, List.map_append, List.map_take, List.map_drop]

variable {s s' : Sys α}

theorem getElem?_view {i : Nat} {flight : Flight α} (h : s.flights[i]? = some flight) :
    s.view.calls[i]? = some flight.call := by
  simp only [Sys.view, List.getElem?_map, h, Option.map_some]

theorem map_observing (cfg : Settings) (change : Option Change) :
    (observing cfg change : List (Flight α)).map Flight.call =
      Call.keep ⟨owedCallback cfg change, none⟩ := by
  unfold observing
  cases owedCallback cfg change <;> rfl

/-- **A step of the client is a step of its breaker.** -/
theorem view_step {c : Client} {cfg : Settings} {zero : α} {e : Event α}
    (h : guarded c cfg zero s e = some s') : Resilience.step cfg s.view e.seen = some s'.view := by
  cases e with
  | call op now =>
    simp only [guarded] at h
    split at h
    · rename_i b change err hb
      cases h
      -- a call that is turned away leaves no callback
      obtain ⟨-, rfl⟩ := Breaker.before_error _ _ _ hb
      simp [Resilience.step, Event.seen, Sys.view, Sys.finish, hb, owedCallback]
    · rename_i b change wasProbe hb
      cases h
      simp only [Resilience.step, Event.seen, Sys.view, hb, List.map_cons, Flight.call]
      cases owedCallback cfg change <;> rfl
  | done i result now =>
    simp only [guarded] at h
    split at h
    · rename_i op adm hflight
      have hcall := getElem?_view hflight
      split at h
      · rename_i hchange
        cases h
        simp only [Resilience.step, Event.seen, hcall, Flight.call]
        -- the call returns at once
        simp [Sys.view, Sys.finish, hchange, map_replaceAt]
      · rename_i change hchange
        cases h
        simp only [Resilience.step, Event.seen, hcall, Flight.call]
        -- it has a callback to make first
        simp [Sys.view, hchange, map_replaceAt, Call.keep, Call.busy, Flight.call]
    · cases h
  | panic i =>
    simp only [guarded] at h
    split at h
    · rename_i op adm hflight
      cases h
      simp only [Resilience.step, Event.seen, getElem?_view hflight, Flight.call]
      simp [Sys.view, map_replaceAt]
    · cases h
  | callback i =>
    simp only [guarded] at h
    split at h
    case h_4 => cases h
    all_goals
      rename_i hflight
      cases h
      simp only [Resilience.step, Event.seen, getElem?_view hflight, Flight.call]
      simp [Sys.view, Sys.finish, map_replaceAt, Call.keep, Call.busy, Flight.call]
  | state now | reset =>
    simp only [guarded, Option.some.injEq] at h
    subst h
    simp only [Resilience.step, Event.seen, Sys.view, List.map_append, map_observing]
  | direct op result => cases h

theorem view_of_reachable {c : Client} {breaker : BreakerConfig} (hc : c.breaker = some breaker)
    {zero : α} (h : (system c zero).Reachable s) : (breakerSystem breaker).Reachable s.view := by
  refine System.ReachableBy.simulate Sys.view ?_ ?_ h
  · rintro s rfl
    rfl
  · intro s e s' _ _ hstep
    simp only [system, step, hc] at hstep
    exact .inr (.inl ⟨e.seen, trivial, view_step hstep⟩)

/-! ## The shapes of a step -/

inductive Step (c : Client) (zero : α) (s : Sys α) : Sys α → Prop where
  | turnedAway {op : String} {b : Breaker} {now : Int} :
      Step c zero s (Sys.finish c zero
        { s with
          breaker := b
          log := .rejected :: record s.breaker.state b.state now s.log
          next := s.next + 1
          notes := .turnedAway s.next :: s.notes }
        ⟨s.next, op⟩ false (.error .circuitOpen))
  | letThrough {op : String} {b : Breaker} {now : Int} {callback : Option Change} {adm : Admission}
      {wasProbe : Bool} :
      Step c zero s
        { s with
          breaker := b
          flights := .admitted ⟨s.next, op⟩ callback adm :: s.flights
          log := .admitted wasProbe :: record s.breaker.state b.state now s.log
          next := s.next + 1
          notes := .letThrough s.next :: s.notes }
  | returned {call : Ticket} {adm : Admission} {b : Breaker} {now : Int}
      {result : Except CallError α} {l₁ l₂ : List (Flight α)}
      (hflights : s.flights = l₁ ++ .admitted call none adm :: l₂) :
      Step c zero s (Sys.finish c zero
        { s with
          breaker := b
          flights := l₁ ++ [] ++ l₂
          log := record s.breaker.state b.state now
            (outcome s.breaker adm.wasProbe (errOf result) :: s.log)
          notes := .told call.id result :: s.notes }
        call true result)
  | owing {call : Ticket} {adm : Admission} {b : Breaker} {now : Int} {change : Change}
      {result : Except CallError α} {l₁ l₂ : List (Flight α)}
      (hflights : s.flights = l₁ ++ .admitted call none adm :: l₂) :
      Step c zero s
        { s with
          breaker := b
          flights := l₁ ++ [.finishing call change result] ++ l₂
          log := record s.breaker.state b.state now
            (outcome s.breaker adm.wasProbe (errOf result) :: s.log)
          notes := .told call.id result :: s.notes }
  | panic {call : Ticket} {adm : Admission} {l₁ l₂ : List (Flight α)}
      (hflights : s.flights = l₁ ++ .admitted call none adm :: l₂) :
      Step c zero s
        { s with
          flights := l₁ ++ [] ++ l₂
          log := .panicked adm :: s.log
          notes := .panicked call.id :: s.notes }
  | notify {call : Ticket} {adm : Admission} {change : Change} {l₁ l₂ : List (Flight α)}
      (hflights : s.flights = l₁ ++ .admitted call (some change) adm :: l₂) :
      Step c zero s
        { s with
          flights := l₁ ++ [.admitted call none adm] ++ l₂, log := .notified change :: s.log }
  | last {call : Ticket} {change : Change} {result : Except CallError α}
      {l₁ l₂ : List (Flight α)}
      (hflights : s.flights = l₁ ++ .finishing call change result :: l₂) :
      Step c zero s (Sys.finish c zero
        { s with flights := l₁ ++ [] ++ l₂, log := .notified change :: s.log } call true result)
  | notifyOther {change : Change} {l₁ l₂ : List (Flight α)}
      (hflights : s.flights = l₁ ++ .observer change :: l₂) :
      Step c zero s { s with flights := l₁ ++ [] ++ l₂, log := .notified change :: s.log }
  | state {b : Breaker} {now : Int} {cfg : Settings} {change : Option Change} :
      Step c zero s
        { s with
          breaker := b
          flights := observing cfg change ++ s.flights
          log := record s.breaker.state b.state now s.log }
  | reset {b : Breaker} {cfg : Settings} {change : Option Change} :
      Step c zero s
        { s with
          breaker := b
          flights := observing cfg change ++ s.flights
          log := record s.breaker.state b.state 0 (.reset :: s.log) }

/-- **Inversion**: every step of a client with a breaker has one of the shapes of `Step`. -/
theorem Step.of_guarded {c : Client} {cfg : Settings} {zero : α} {e : Event α}
    (h : guarded c cfg zero s e = some s') : Step c zero s s' := by
  cases e with
  | call op now =>
    simp only [guarded] at h
    split at h
    · cases h
      exact .turnedAway
    · cases h
      exact .letThrough
  | done i result now =>
    simp only [guarded] at h
    split at h
    · rename_i op adm hflight
      -- the pool around the goroutine that moves
      obtain ⟨l₁, l₂, hl, hi, hreplace⟩ := pool_split hflight
      simp only [hreplace] at h
      split at h
      · cases h
        exact .returned hl
      · cases h
        exact .owing hl
    · cases h
  | panic i =>
    simp only [guarded] at h
    split at h
    · rename_i op adm hflight
      obtain ⟨l₁, l₂, hl, hi, hreplace⟩ := pool_split hflight
      simp only [hreplace, Option.some.injEq] at h
      subst h
      exact .panic hl
    · cases h
  | callback i =>
    simp only [guarded] at h
    split at h
    case h_4 => cases h
    -- by a call that is let through, by one that has ended, or by neither
    all_goals
      rename_i hflight
      obtain ⟨l₁, l₂, hl, hi, hreplace⟩ := pool_split hflight
      simp only [hreplace, Option.some.injEq] at h
      subst h
      first
        | exact .notify hl
        | exact .last hl
        | exact .notifyOther hl
  | state now =>
    cases h
    exact .state
  | reset =>
    cases h
    exact .reset
  | direct op result => cases h

end ServiceRuntime.Downstream
