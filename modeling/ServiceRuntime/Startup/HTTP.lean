import ServiceRuntime.Startup.RunOnce

/-!
# Running an HTTP Server

`RunHTTPServer` starts to serve in a goroutine and waits, in a `select`, for the goroutine or for
its context. The goroutine sends the error of `Serve` into a channel, unless the server was merely
closed, and closes the channel:

    Serve fails          → receive the error → Shutdown of the lifecycle → return
    context cancelled    → Shutdown of the server → Shutdown of the lifecycle → return
    server was closed    → receive nothing from the closed channel → return

The third path leaves out the lifecycle: its hooks are not run (`closed_server_skips_hooks`). On
the other two every hook has run once when `RunHTTPServer` returns (`hooks_run_iff`).

Serving may end and the context be cancelled at any time and in any order. Hooks may be registered
at any time, also by other hooks; nobody else calls `Shutdown` of the lifecycle.
-/

namespace ServiceRuntime.Startup.HTTP

open GoStrings Transition
open ServiceRuntime.Startup.Lifecycle (ranIds)

/-! ## The system -/

inductive Exit where
  /-- Before it has started to serve. -/
  | refused
  /-- The channel was closed without an error. -/
  | closed
  | listenFailed (err : String)
  | cancelled
  deriving DecidableEq

def Exit.shutsDown : Exit → Bool
  | .refused => false
  | .closed => false
  | .listenFailed _ => true
  | .cancelled => true

inductive Phase where
  | starting
  /-- Serving has started; in the `select`. -/
  | selecting
  /-- In `Shutdown` of the server. -/
  | closingServer
  /-- In `Shutdown` of the lifecycle, its call number `call`; `errs` have been collected. -/
  | shuttingDown (exit : Exit) (errs : List String) (call : Nat)
  | returned (exit : Exit) (err : Option String)
  deriving DecidableEq

/-- The goroutine that serves, and what it leaves in the channel. -/
inductive Serving where
  | idle
  | running
  /-- `Serve` has returned with this error, `none` for `http.ErrServerClosed`. -/
  | ended (err : Option String)
  deriving DecidableEq

inductive CloseResult where
  | ok
  | canceled
  | failed (err : String)
  deriving DecidableEq

def CloseResult.errs : CloseResult → List String
  | .failed err => ["shutdown server: " ++ err]
  | _ => []

structure Sys where
  life : Lifecycle.Sys
  serving : Serving
  cancelled : Bool
  phase : Phase
  /-- Not part of the program: how many hooks were registered when serving started. -/
  registered : Nat

inductive Event where
  /-- Up to the start of the goroutine; `tracing` is what the environment gives. -/
  | start (hasServer : Bool) (tracing : Except String Bool)
  | serveEnds (err : Option String)
  | cancel
  | receive
  | done
  | closeServer (result : CloseResult)
  /-- A step of the lifecycle. -/
  | hook (e : Lifecycle.Event)
  /-- `Shutdown` of the lifecycle has returned. -/
  | finish

/-- `EnableTracingFromEnv`: tracing registers a hook if it is enabled. -/
def enableTracingFromEnv (life : Lifecycle.Sys) (tracing : Except String Bool) :
    Except String Lifecycle.Sys :=
  match tracing with
  | .error err => .error ("startup tracing: " ++ err)
  | .ok true => .ok (life.register "otel tracer provider")
  | .ok false => .ok life

/-- `RunHTTPServer` returns before it serves. -/
def Sys.refuse (s : Sys) (err : String) : Sys := { s with phase := .returned .refused (some err) }

def Sys.shutDown (s : Sys) (exit : Exit) (errs : List String) : Sys :=
  { s with
    life := s.life.beginShutdown
    phase := .shuttingDown exit errs s.life.calls.length }

def step (s : Sys) : Event → Option Sys
  | .start hasServer tracing =>
    match s.phase with
    | .starting =>
      if hasServer then
        match enableTracingFromEnv s.life tracing with
        -- an early return: no hook is run
        | .error err => some (s.refuse err)
        | .ok life =>
          some { s with
            life := life
            serving := .running
            phase := .selecting
            registered := life.next }
      else some (s.refuse "startup: server is required")
    | _ => none
  | .serveEnds err =>
    match s.serving with
    | .running => some { s with serving := .ended err }
    | _ => none
  | .cancel => some { s with cancelled := true }
  | .receive =>
    match s.phase, s.serving with
    | .selecting, .ended (some err) =>
      some (s.shutDown (.listenFailed err) ["listen failed: " ++ err])
    -- a closed channel gives nil
    | .selecting, .ended none => some { s with phase := .returned .closed none }
    | _, _ => none
  | .done =>
    match s.phase, s.cancelled with
    | .selecting, true => some { s with phase := .closingServer }
    | _, _ => none
  | .closeServer result =>
    match s.phase with
    | .closingServer => some (s.shutDown .cancelled result.errs)
    | _ => none
  | .hook e =>
    -- nobody but `RunHTTPServer` shuts the lifecycle down
    if e = .shutdown then none
    else (Lifecycle.step s.life e).map fun life => { s with life := life }
  | .finish =>
    match s.phase with
    | .shuttingDown exit errs call => s.life.calls[call]?.bind fun c =>
      match c.stage with
      | .returned result =>
        -- both paths: what was collected, then what the lifecycle returned
        let err := joined (errs ++ result.toList.map JoinError.text)
        some { s with phase := .returned exit (err.map JoinError.text) }
      | _ => none
    | _ => none

/-- `RunHTTPServer` on a lifecycle with any hooks, none of which has been run. -/
def runHTTPServer : System Sys Event where
  init s := Lifecycle.lifecycle.Reachable s.life ∧ s.life.calls = [] ∧ s.serving = .idle ∧
    s.phase = .starting ∧ s.registered = 0
  step := step

/-! ## The calls of `Shutdown` -/

variable {life life' : Lifecycle.Sys}

theorem enableTracingFromEnv_eq_ok {tracing : Except String Bool}
    (h : enableTracingFromEnv life tracing = .ok life') :
    life' = life ∨ life' = life.register "otel tracer provider" := by
  unfold enableTracingFromEnv at h
  split at h
  · cases h
  · cases h
    exact .inr rfl
  · cases h
    exact .inl rfl

/-- Which `Shutdown` calls the lifecycle has seen, by how far `RunHTTPServer` has got. -/
def Phase.Calls (registered : Nat) (calls : List Lifecycle.Call) : Phase → Prop
  | .shuttingDown exit _ call => exit.shutsDown = true ∧ call = 0 ∧
    ∃ c, calls = [c] ∧ registered ≤ c.before
  | .returned exit _ =>
    if exit.shutsDown then
      ∃ c, calls = [c] ∧ registered ≤ c.before ∧ c.stage.isReturned = true
    else calls = []
  | _ => calls = []

structure Sound (s : Sys) : Prop where
  life : Lifecycle.lifecycle.Reachable s.life
  calls : s.phase.Calls s.registered s.life.calls
  registered : s.registered ≤ s.life.next

/-- A step of the lifecycle other than a new `Shutdown`: a call that goes on keeps its place, and
    one that has returned stays as it is. -/
theorem calls_of_step {e : Lifecycle.Event} (hne : e ≠ .shutdown)
    (h : Lifecycle.Step life e life') :
    life.next ≤ life'.next ∧
      (life'.calls = life.calls ∨ ∃ (i : Nat) (c : Lifecycle.Call) (stage : Lifecycle.Stage),
        life.calls[i]? = some c ∧ c.stage.isReturned = false ∧
          life'.calls = life.calls.set i { c with stage := stage }) := by
  cases h with
  | ignore => exact ⟨le_refl _, .inl rfl⟩
  | register => exact ⟨Nat.le_succ _, .inl rfl⟩
  | shutdown => exact absurd rfl hne
  | @take i c hc hstage => exact ⟨le_refl _, .inr ⟨i, c, _, hc, by rw [hstage]; rfl, rfl⟩⟩
  | @turn _ i c stage notes hc hturn =>
    refine ⟨le_refl _, .inr ⟨i, c, stage, hc, ?_, rfl⟩⟩
    generalize c.stage = before at hturn
    cases hturn with
    | _ => rfl

theorem Sound.hook {s : Sys} (h : Sound s) {e : Lifecycle.Event} (hne : e ≠ .shutdown)
    (hstep : Lifecycle.step s.life e = some life) : Sound { s with life := life } := by
  obtain ⟨hnext, hcalls⟩ := calls_of_step hne (.of_step hstep)
  refine ⟨.step h.life trivial hstep, ?_, h.registered.trans hnext⟩
  have hold := h.calls
  rcases hcalls with hsame | ⟨i, c, stage, hc, hrunning, hset⟩
  -- a registration, which no call notices
  · exact hsame.symm ▸ hold
  · change s.phase.Calls s.registered life.calls
    rw [hset]
    generalize s.phase = phase at hold
    -- there is a call, so the lifecycle is being shut down, and has not been
    have hempty : s.life.calls ≠ [] := by
      intro hnil
      rw [hnil] at hc
      cases hc
    cases phase with
    | starting | selecting | closingServer => exact absurd hold hempty
    | shuttingDown exit errs call =>
      obtain ⟨hexit, hcall, d, hone, hle⟩ := hold
      rw [hone] at hc ⊢
      -- the call that goes on is the only one
      obtain ⟨rfl, rfl⟩ : i = 0 ∧ d = c := by
        cases i with
        | zero =>
          cases hc
          exact ⟨rfl, rfl⟩
        | succ i => cases hc
      exact ⟨hexit, hcall, _, rfl, hle⟩
    | returned exit err =>
      rw [Phase.Calls] at hold
      split at hold
      -- the only call has returned, so it cannot go on
      · obtain ⟨d, hone, -, hreturned⟩ := hold
        rw [hone] at hc
        cases i with
        | zero =>
          cases hc
          rw [hrunning] at hreturned
          cases hreturned
        | succ i => cases hc
      · exact absurd hold hempty

theorem Sound.shutDown {s : Sys} (h : Sound s) (hcalls : s.life.calls = []) {exit : Exit}
    (hexit : exit.shutsDown = true) (errs : List String) : Sound (s.shutDown exit errs) := by
  refine ⟨.step h.life trivial (e := .shutdown) rfl, ⟨hexit, ?_, ⟨s.life.next, .started⟩, ?_, ?_⟩,
    h.registered⟩
  · rw [hcalls, List.length_nil]
  · simp only [Sys.shutDown, Lifecycle.Sys.beginShutdown, hcalls, List.nil_append]
  · exact h.registered

theorem Sound.step {s s' : Sys} {e : Event} (h : Sound s) (hstep : step s e = some s') :
    Sound s' := by
  have hold := h.calls
  cases e with
  | start hasServer tracing =>
    -- the ghost counter is set here, after the hook of the tracer
    rw [HTTP.step] at hstep
    split at hstep
    · rename_i hphase
      rw [hphase] at hold
      split at hstep
      · split at hstep
        · cases hstep
          exact ⟨h.life, hold, h.registered⟩
        · rename_i life htracing
          cases hstep
          rcases enableTracingFromEnv_eq_ok htracing with rfl | rfl
          · exact ⟨h.life, hold, le_refl _⟩
          · exact ⟨.step h.life trivial (e := .onShutdown "otel tracer provider" true) rfl, hold,
              le_refl _⟩
      · cases hstep
        exact ⟨h.life, hold, h.registered⟩
    · cases hstep
  | serveEnds err =>
    rw [HTTP.step] at hstep
    split at hstep
    · cases hstep
      exact ⟨h.life, h.calls, h.registered⟩
    · cases hstep
  | cancel =>
    cases hstep
    exact ⟨h.life, h.calls, h.registered⟩
  -- an error of `Serve` is followed by a shutdown, a nil one is not
  | receive =>
    rw [HTTP.step] at hstep
    split at hstep
    · rename_i hphase _
      rw [hphase] at hold
      cases hstep
      exact h.shutDown hold rfl _
    · rename_i hphase _
      rw [hphase] at hold
      cases hstep
      exact ⟨h.life, hold, h.registered⟩
    · cases hstep
  | done =>
    rw [HTTP.step] at hstep
    split at hstep
    · rename_i hphase _
      rw [hphase] at hold
      cases hstep
      exact ⟨h.life, hold, h.registered⟩
    · cases hstep
  | closeServer result =>
    rw [HTTP.step] at hstep
    split at hstep
    · rename_i hphase
      rw [hphase] at hold
      cases hstep
      exact h.shutDown hold rfl _
    · cases hstep
  | hook e =>
    rw [HTTP.step] at hstep
    split at hstep
    · cases hstep
    · rename_i hne
      obtain ⟨life, hlife, rfl⟩ := Option.map_eq_some_iff.mp hstep
      -- no further `Shutdown`, so the calls are as many as before
      exact h.hook hne hlife
  | finish =>
    -- the call we waited for is the only one, and it has returned
    rw [HTTP.step] at hstep
    split at hstep
    · rename_i exit errs call hphase
      rw [hphase] at hold
      obtain ⟨hexit, rfl, d, hone, hle⟩ := hold
      obtain ⟨c, hc, hact⟩ := Option.bind_eq_some_iff.mp hstep
      split at hact
      · rename_i result hstage
        cases hact
        refine ⟨h.life, ?_, h.registered⟩
        rw [hone] at hc
        cases hc
        rw [Phase.Calls, if_pos hexit]
        exact ⟨_, hone, hle, by rw [hstage]; rfl⟩
      · cases hact
    · cases hstep

theorem sound_of_reachable {s : Sys} (hs : runHTTPServer.Reachable s) : Sound s := by
  refine System.Reachable.invariant (P := Sound) ?_ (fun _ _ _ h hstep => h.step hstep) hs
  rintro s ⟨hlife, hcalls, -, hphase, hregistered⟩
  refine ⟨hlife, ?_, ?_⟩
  · rw [hphase]
    exact hcalls
  · rw [hregistered]
    exact Nat.zero_le _

/-! ## Main theorem -/

/-- **When the hooks are run**: when `RunHTTPServer` has returned after it had started to serve, the
    hooks that were registered by then have each run exactly once, unless the `select` received
    from a channel that was closed without an error (or there were no hooks). -/
theorem hooks_run_iff {s : Sys} (hs : runHTTPServer.Reachable s) {exit : Exit}
    {err : Option String} (hreturned : s.phase = .returned exit err) (hserved : exit ≠ .refused) :
    (∀ id < s.registered, (ranIds s.life.log).count id = 1) ↔
      exit ≠ .closed ∨ s.registered = 0 := by
  have hsound := sound_of_reachable hs
  have hcalls := hsound.calls
  rw [hreturned, Phase.Calls] at hcalls
  split at hcalls
  · rename_i hexit
    -- the lifecycle was shut down: its one call has returned, and found every hook
    obtain ⟨c, hone, hle, hdone⟩ := hcalls
    have hrest : ∀ d ∈ s.life.calls, d.stage.isReturned = true := by
      intro d hd
      rw [hone] at hd
      rw [List.mem_singleton.mp hd]
      exact hdone
    have hmem : c ∈ s.life.calls := by
      rw [hone]
      exact List.mem_singleton_self c
    refine ⟨fun _ => .inl ?_, fun _ id hid => ?_⟩
    · rintro rfl
      cases hexit
    · exact Lifecycle.count_eq_one_of_before hsound.life hrest hmem (Nat.lt_of_lt_of_le hid hle)
  · rename_i hexit
    -- it was not: nothing has run
    have hnone := Lifecycle.ranIds_eq_nil (Lifecycle.orderly_of_reachable hsound.life) hcalls
    rw [hnone]
    constructor
    · intro hall
      right
      by_contra hpos
      have hfirst := hall 0 (Nat.pos_of_ne_zero hpos)
      cases hfirst
    · rintro (hnotClosed | hzero) id hid
      · cases exit with
        | refused => exact absurd rfl hserved
        | closed => exact absurd rfl hnotClosed
        | listenFailed err | cancelled => exact absurd rfl hexit
      · omega

/-- A lifecycle with one hook, and a server that has not started. -/
def withHook : Sys := ⟨Lifecycle.newLifecycle.register "db", .idle, false, .starting, 0⟩

theorem reachable_withHook : runHTTPServer.Reachable withHook :=
  .init ⟨.step (.init rfl) trivial (e := .onShutdown "db" true) rfl, rfl, rfl, rfl, rfl⟩

/-- The context is cancelled, and the server does not close in time. -/
def cancelledRun : List Event :=
  [.start true (.ok true), .cancel, .done, .closeServer (.failed "context deadline exceeded"),
    .serveEnds none, .hook (.take 0), .hook (.loop 0), .hook (.leave 0 none), .hook (.loop 0),
    .hook (.leave 0 (some "busy")), .hook (.loop 0), .finish]

/-- Both hooks, the one of the tracer and the one before it, have run. -/
theorem hooks_run_of_cancelled :
    ∃ s : Sys, runHTTPServer.Reachable s ∧ s.phase = .returned .cancelled
        (some "shutdown server: context deadline exceeded\ndb: busy") ∧ s.registered = 2 ∧
      ∀ id < s.registered, (ranIds s.life.log).count id = 1 := by
  have hrun : (runHTTPServer.run withHook cancelledRun).map (fun s => (s.phase, s.registered)) =
      some (.returned .cancelled (some "shutdown server: context deadline exceeded\ndb: busy"), 2) := by
    decide +kernel
  obtain ⟨s, hs, hfacts⟩ := Option.map_eq_some_iff.mp hrun
  rw [Prod.mk.injEq] at hfacts
  have hreach : runHTTPServer.Reachable s := System.Reachable.run reachable_withHook hs
  exact ⟨s, hreach, hfacts.1, hfacts.2,
    (hooks_run_iff hreach hfacts.1 (by decide)).mpr (.inl (by decide))⟩

/-- **A closed server skips the hooks**: the server is closed by someone else, `Serve` returns
    `http.ErrServerClosed`, the channel is closed without an error, and `RunHTTPServer` returns nil.
    The hook is still registered and has not run. -/
theorem closed_server_skips_hooks :
    ∃ s : Sys, runHTTPServer.Reachable s ∧ s.phase = .returned .closed none ∧ s.registered = 1 ∧
      s.life.hooks = [⟨0, "db"⟩] ∧ (ranIds s.life.log).count 0 = 0 := by
  have hrun : (runHTTPServer.run withHook [.start true (.ok false), .serveEnds none, .receive]).map
      (fun s => (s.phase, s.registered, s.life.hooks, (ranIds s.life.log).count 0)) =
      some (.returned .closed none, 1, [⟨0, "db"⟩], 0) := by
    decide +kernel
  obtain ⟨s, hs, hfacts⟩ := Option.map_eq_some_iff.mp hrun
  simp only [Prod.mk.injEq] at hfacts
  exact ⟨s, System.Reachable.run reachable_withHook hs, hfacts⟩

end ServiceRuntime.Startup.HTTP
