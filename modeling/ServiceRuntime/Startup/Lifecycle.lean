import ServiceRuntime.GoStrings
import ServiceRuntime.Transition.System

/-!
# Shutdown Hooks

A `Lifecycle` collects shutdown hooks, and `Shutdown` runs them. It takes the whole list under the
lock and then runs the hooks of its own copy outside the lock, the last one registered first. A
hook may do anything meanwhile: register more hooks, or call `Shutdown` itself; and any number of
`Shutdown` calls may be under way.

The critical sections of `OnShutdown` and `Shutdown` are one step each, and so are the call of a
hook and its return. A hook is told apart by the number of its registration. The system keeps a log
of which call ran which hook, newest first, which no step reads.
-/

namespace ServiceRuntime.Startup

open GoStrings Transition

/-! ## Joined errors -/

/-- The error of `errors.Join`. -/
structure JoinError where
  errs : List String
  nonempty : errs ≠ []
  deriving DecidableEq

/-- `Error()` of a joined error: one line for each. -/
def JoinError.text (err : JoinError) : String := join "\n" err.errs

/-- `errors.Join`, which is nil for no errors. -/
def joined (errs : List String) : Option JoinError :=
  if h : errs = [] then none else some ⟨errs, h⟩

theorem mem_of_joined {errs : List String} {err : String} (h : err ∈ errs) :
    ∃ e, joined errs = some e ∧ err ∈ e.errs := by
  have hne : errs ≠ [] := List.ne_nil_of_mem h
  exact ⟨⟨errs, hne⟩, dif_neg hne, h⟩

namespace Lifecycle

/-! ## The system -/

/-- `shutdownHook`, with the number of its registration for the function. -/
structure Hook where
  id : Nat
  name : String
  deriving DecidableEq

/-- The name that `OnShutdown` gives a hook. -/
def hookName (name : String) : String :=
  if trimSpace name = "" then "shutdown hook" else trimSpace name

inductive Stage where
  | started
  /-- At the head of the loop, with the hooks still to run, the last one registered first. -/
  | looping (todo : List Hook) (errs : List String)
  | inside (hook : Hook) (todo : List Hook) (errs : List String)
  | returned (result : Option JoinError)
  deriving DecidableEq

structure Call where
  /-- Not part of the program: how many hooks had been registered when the call started. -/
  before : Nat
  stage : Stage
  deriving DecidableEq

/-- What happened, for the record. -/
inductive Note where
  | ran (i : Nat) (hook : Hook)
  /-- The hook returned an error to call `i`. -/
  | failed (i : Nat) (hook : Hook) (err : String)
  deriving DecidableEq

structure Sys where
  hooks : List Hook
  calls : List Call
  /-- Not part of the program: how many hooks have been registered. -/
  next : Nat
  log : List Note

inductive Event where
  /-- `OnShutdown`, with or without a function. -/
  | onShutdown (name : String) (fn : Bool)
  | shutdown
  /-- Its critical section. -/
  | take (i : Nat)
  /-- The loop goes on: call the next hook, or return. -/
  | loop (i : Nat)
  | leave (i : Nat) (err : Option String)
  deriving DecidableEq

def Sys.register (s : Sys) (name : String) : Sys :=
  { s with hooks := s.hooks ++ [⟨s.next, hookName name⟩], next := s.next + 1 }

def Sys.beginShutdown (s : Sys) : Sys := { s with calls := s.calls ++ [⟨s.next, .started⟩] }

def Sys.move (s : Sys) (i : Nat) (c : Call) (stage : Stage) (notes : List Note) : Sys :=
  { s with calls := s.calls.set i { c with stage := stage }, log := notes ++ s.log }

def Hook.failure (hook : Hook) (err : String) : String := hook.name ++ ": " ++ err

def step (s : Sys) : Event → Option Sys
  | .onShutdown name fn => some (if fn then s.register name else s)
  | .shutdown => some s.beginShutdown
  | .take i => s.calls[i]?.bind fun c =>
    match c.stage with
    -- the copy of the list and `l.hooks = nil` are under one lock
    | .started => some ({ s with hooks := [] }.move i c (.looping s.hooks.reverse []) [])
    | _ => none
  | .loop i => s.calls[i]?.bind fun c =>
    match c.stage with
    | .looping (hook :: todo) errs => some (s.move i c (.inside hook todo errs) [.ran i hook])
    -- no errors: nil, which is also what `errors.Join` gives
    | .looping [] errs => some (s.move i c (.returned (joined errs)) [])
    | _ => none
  | .leave i err => s.calls[i]?.bind fun c =>
    match c.stage, err with
    | .inside _ todo errs, none => some (s.move i c (.looping todo errs) [])
    -- an error does not stop the loop
    | .inside hook todo errs, some err =>
      some (s.move i c (.looping todo (errs ++ [hook.failure err])) [.failed i hook err])
    | _, _ => none

def newLifecycle : Sys := ⟨[], [], 0, []⟩

/-- A lifecycle under any interleaving of `OnShutdown` and `Shutdown` calls. -/
def lifecycle : System Sys Event where
  init s := s = newLifecycle
  step := step

/-! ## The shapes of a step -/

/-- The steps of a `Shutdown` call that has taken its hooks, by what they write. -/
inductive Turn (i : Nat) : Stage → Stage → List Note → Prop where
  | enter {hook : Hook} {todo : List Hook} {errs : List String} :
      Turn i (.looping (hook :: todo) errs) (.inside hook todo errs) [.ran i hook]
  | finish {errs : List String} : Turn i (.looping [] errs) (.returned (joined errs)) []
  | leave {hook : Hook} {todo : List Hook} {errs : List String} :
      Turn i (.inside hook todo errs) (.looping todo errs) []
  | fail {hook : Hook} {todo : List Hook} {errs : List String} {err : String} :
      Turn i (.inside hook todo errs) (.looping todo (errs ++ [hook.failure err]))
        [.failed i hook err]

inductive Step (s : Sys) : Event → Sys → Prop where
  | ignore {name : String} : Step s (.onShutdown name false) s
  | register {name : String} : Step s (.onShutdown name true) (s.register name)
  | shutdown : Step s .shutdown s.beginShutdown
  | take {i : Nat} {c : Call} (hc : s.calls[i]? = some c) (hstage : c.stage = .started) :
      Step s (.take i) ({ s with hooks := [] }.move i c (.looping s.hooks.reverse []) [])
  | turn {e : Event} {i : Nat} {c : Call} {stage : Stage} {notes : List Note}
      (hc : s.calls[i]? = some c) (hturn : Turn i c.stage stage notes) :
      Step s e (s.move i c stage notes)

theorem Step.of_step {s s' : Sys} {e : Event} (h : step s e = some s') : Step s e s' := by
  cases e with
  | onShutdown name fn =>
    cases h
    cases fn with
    | true => exact .register
    | false => exact .ignore
  | shutdown =>
    cases h
    exact .shutdown
  | take i =>
    obtain ⟨c, hc, hact⟩ := Option.bind_eq_some_iff.mp h
    split at hact
    · rename_i hstage
      cases hact
      exact .take hc hstage
    · cases hact
  -- a call that holds no hook enters the next one or is through
  | loop i =>
    obtain ⟨c, hc, hact⟩ := Option.bind_eq_some_iff.mp h
    split at hact
    · rename_i hstage
      cases hact
      exact .turn hc (hstage ▸ .enter)
    · rename_i hstage
      cases hact
      exact .turn hc (hstage ▸ .finish)
    · cases hact
  | leave i err =>
    obtain ⟨c, hc, hact⟩ := Option.bind_eq_some_iff.mp h
    split at hact
    · rename_i hstage
      cases hact
      exact .turn hc (hstage ▸ .leave)
    · rename_i hstage
      cases hact
      exact .turn hc (hstage ▸ .fail)
    · cases hact

end Lifecycle

end ServiceRuntime.Startup
