import ServiceRuntime.Transition.System

/-!
# Bounded Background Work

`Runner.TryGo` launches a task in a goroutine of its own if the channel `sem` has room, and
`FireAndForget` launches one in any case. The select of `TryGo`, the end of a task and the receive
in the deferred function of `TryGo` are one step each; tasks end in any order, by returning, by
returning an error or by a panic.

A slot of `sem` is taken before the goroutine exists and given back by its deferred function, so
the slots in use are those of the tasks of `TryGo` that are not over (`Accounted`). Two things
follow: the bound, and that no slot is lost, whatever the tasks do.

Contexts are not nil. With a nil one, `TryGo` would panic in `context.WithoutCancel`, between the
send to `sem` and the goroutine that gives the slot back.

The log holds what the logger is told, and what `TryGo` answered; no step reads it.
-/

namespace ServiceRuntime.Async

open Transition

/-! ## Tasks and goroutines -/

/-- How a task ends. -/
inductive Outcome where
  | done
  | failed (err : String)
  | panicked (value : String)
  deriving DecidableEq, Repr

inductive Phase where
  | running
  /-- The task is over, and what is left is the receive from `sem`. -/
  | deferred (outcome : Outcome)
  | exited (outcome : Outcome)
  deriving DecidableEq, Repr

/-- A goroutine with a task. -/
inductive Worker where
  /-- Launched by `TryGo`. -/
  | bounded (op : String) (phase : Phase)
  /-- Launched by `FireAndForget`; its deferred function has nothing to receive. -/
  | detached (op : String) (ended : Option Outcome)
  deriving DecidableEq, Repr

/-- The worker has a slot of `sem`. -/
def Worker.holds : Worker → Bool
  | .bounded _ (.exited _) => false
  | .bounded _ _ => true
  | .detached _ _ => false

/-- What is logged or answered. -/
inductive Note where
  /-- `TryGo` returned `true`. -/
  | launched (op : String)
  /-- `TryGo` returned `false` for want of a task. -/
  | ignored (op : String)
  /-- "background task rejected: capacity exhausted", and `TryGo` returned `false`. -/
  | rejected (op : String)
  /-- "background task failed" -/
  | failed (op err : String)
  /-- "background task panicked" -/
  | panicked (op value : String)
  deriving DecidableEq, Repr

def Outcome.notes (op : String) : Outcome → List Note
  | .done => []
  | .failed err => [.failed op err]
  | .panicked value => [.panicked op value]

/-- The buffer of the channel that `NewRunner` makes. -/
def capacity (maxInFlight : Int) : Nat := if maxInFlight ≤ 0 then 1 else maxInFlight.toNat

/-! ## The system -/

structure Sys where
  /-- The values in `sem`. -/
  sem : Nat
  /-- The goroutines launched so far, the oldest first. -/
  workers : List Worker
  log : List Note
  deriving DecidableEq, Repr

inductive Event where
  /-- `TryGo`, with or without a task. -/
  | tryGo (op : String) (task : Bool)
  | fireAndForget (op : String)
  | finish (i : Nat) (outcome : Outcome)
  /-- The deferred function of worker `i` receives from `sem`. -/
  | release (i : Nat)
  deriving DecidableEq, Repr

/-- `TryGo` on a runner and with a context that are not nil, and its answer. -/
def Sys.tryGo (maxInFlight : Int) (s : Sys) (op : String) (task : Bool) : Sys × Bool :=
  if task = false then ({ s with log := .ignored op :: s.log }, false)
  else if s.sem < capacity maxInFlight then
    ({ sem := s.sem + 1
       workers := s.workers ++ [.bounded op .running]
       log := .launched op :: s.log }, true)
  else ({ s with log := .rejected op :: s.log }, false)

/-- The task of worker `i` ends: its goroutine moves to `w`. -/
def Sys.finish (s : Sys) (i : Nat) (w : Worker) (op : String) (outcome : Outcome) : Sys :=
  { s with workers := s.workers.set i w, log := outcome.notes op ++ s.log }

def step (maxInFlight : Int) (s : Sys) : Event → Option Sys
  | .tryGo op task => some (s.tryGo maxInFlight op task).1
  | .fireAndForget op => some { s with workers := s.workers ++ [.detached op none] }
  | .finish i outcome =>
    match s.workers[i]? with
    | some (.bounded op .running) => some (s.finish i (.bounded op (.deferred outcome)) op outcome)
    | some (.detached op none) => some (s.finish i (.detached op (some outcome)) op outcome)
    | _ => none
  | .release i =>
    match s.workers[i]? with
    | some (.bounded op (.deferred outcome)) =>
      -- a receive from an empty channel would block
      if s.sem = 0 then none
      else some { s with
        sem := s.sem - 1
        workers := s.workers.set i (.bounded op (.exited outcome)) }
    | _ => none

/-- A runner in use by any number of callers, beside any number of detached tasks. -/
def runner (maxInFlight : Int) : System Sys Event where
  init s := s = ⟨0, [], []⟩
  step := step maxInFlight

/-! ## The shapes of a step -/

inductive Step (maxInFlight : Int) (s : Sys) : Event → Sys → Prop where
  | ignore {op : String} : Step maxInFlight s (.tryGo op false) { s with log := .ignored op :: s.log }
  | launch {op : String} (hroom : s.sem < capacity maxInFlight) :
      Step maxInFlight s (.tryGo op true)
        { sem := s.sem + 1
          workers := s.workers ++ [.bounded op .running]
          log := .launched op :: s.log }
  | reject {op : String} (hfull : capacity maxInFlight ≤ s.sem) :
      Step maxInFlight s (.tryGo op true) { s with log := .rejected op :: s.log }
  | fire {op : String} :
      Step maxInFlight s (.fireAndForget op)
        { s with workers := s.workers ++ [.detached op none] }
  | finish {i : Nat} {op : String} {outcome : Outcome}
      (hw : s.workers[i]? = some (.bounded op .running)) :
      Step maxInFlight s (.finish i outcome) (s.finish i (.bounded op (.deferred outcome)) op outcome)
  | finishDetached {i : Nat} {op : String} {outcome : Outcome}
      (hw : s.workers[i]? = some (.detached op none)) :
      Step maxInFlight s (.finish i outcome) (s.finish i (.detached op (some outcome)) op outcome)
  | release {i : Nat} {op : String} {outcome : Outcome}
      (hw : s.workers[i]? = some (.bounded op (.deferred outcome))) (hsem : s.sem ≠ 0) :
      Step maxInFlight s (.release i)
        { s with sem := s.sem - 1, workers := s.workers.set i (.bounded op (.exited outcome)) }

variable {maxInFlight : Int} {s s' : Sys} {e : Event}

theorem Step.of_step (h : step maxInFlight s e = some s') : Step maxInFlight s e s' := by
  cases e with
  | tryGo op task =>
    cases h
    cases task with
    | false => exact .ignore
    | true =>
      -- the `select` on `sem` with its default
      by_cases hroom : s.sem < capacity maxInFlight
      · rw [Sys.tryGo, if_neg (by simp), if_pos hroom]
        exact .launch hroom
      · rw [Sys.tryGo, if_neg (by simp), if_neg hroom]
        exact .reject (Nat.le_of_not_lt hroom)
  | fireAndForget op =>
    cases h
    exact .fire
  | finish i outcome =>
    simp only [step] at h
    split at h
    · rename_i hw
      cases h
      exact .finish hw
    · rename_i hw
      cases h
      exact .finishDetached hw
    · cases h
  | release i =>
    simp only [step] at h
    split at h
    · rename_i hw
      split at h
      · cases h
      · rename_i hsem
        cases h
        exact .release hw hsem
    · cases h

/-! ## Slots -/

/-- The tasks of `TryGo` that are not over. -/
def Sys.inFlight (s : Sys) : Nat := s.workers.countP Worker.holds

/-- The slots in use are those of the tasks that are not over, and they fit into the channel. -/
structure Accounted (maxInFlight : Int) (s : Sys) : Prop where
  slots : s.sem = s.inFlight
  bound : s.sem ≤ capacity maxInFlight

theorem Step.accounted (hstep : Step maxInFlight s e s') (h : Accounted maxInFlight s) :
    Accounted maxInFlight s' := by
  obtain ⟨hslots, hbound⟩ := h
  unfold Sys.inFlight at hslots
  cases hstep with
  | ignore | reject => exact ⟨hslots, hbound⟩
  | launch hroom =>
    refine ⟨?_, hroom⟩
    rw [Sys.inFlight, List.countP_append, ← hslots]
    rfl
  | fire =>
    refine ⟨?_, hbound⟩
    rw [Sys.inFlight, List.countP_append, ← hslots]
    rfl
  | finish hw | finishDetached hw =>
    -- the slot stays with the goroutine until its deferred function
    obtain ⟨l₁, l₂, hl, -, hset⟩ := set_split hw
    refine ⟨?_, hbound⟩
    rw [hl] at hslots
    simpa [Sys.inFlight, Sys.finish, hset, List.countP_cons, Worker.holds] using hslots
  | release hw hsem =>
    obtain ⟨l₁, l₂, hl, -, hset⟩ := set_split hw
    refine ⟨?_, Nat.le_trans (Nat.sub_le _ _) hbound⟩
    rw [hl] at hslots
    simp only [Sys.inFlight, hset, List.countP_append, List.countP_cons, Worker.holds, ↓reduceIte,
      Bool.false_eq_true] at hslots ⊢
    omega

theorem accounted_of_reachable (h : (runner maxInFlight).Reachable s) : Accounted maxInFlight s := by
  refine System.Reachable.invariant (P := Accounted maxInFlight) ?_
    (fun _ _ _ h hstep => (Step.of_step hstep).accounted h) h
  rintro s rfl
  exact ⟨rfl, Nat.zero_le _⟩

theorem sem_ne_zero_of_deferred (h : (runner maxInFlight).Reachable s) {i : Nat} {op : String}
    {outcome : Outcome}
    (hw : s.workers[i]? = some (.bounded op (.deferred outcome))) : s.sem ≠ 0 := by
  rw [(accounted_of_reachable h).slots]
  exact (List.countP_pos_iff.mpr ⟨_, List.mem_of_getElem? hw, rfl⟩).ne'

/-! ## The log -/

def Worker.notes : Worker → List Note
  | .bounded _ .running => []
  | .bounded op (.deferred outcome) => outcome.notes op
  | .bounded op (.exited outcome) => outcome.notes op
  | .detached _ none => []
  | .detached op (some outcome) => outcome.notes op

/-- The task of a worker that `TryGo` launched. -/
def Worker.accepted? : Worker → Option String
  | .bounded op _ => some op
  | .detached _ _ => none

/-- The acceptances in a log, newest first. -/
def launches (log : List Note) : List String :=
  log.filterMap fun
    | .launched op => some op
    | _ => none

def Note.isComplaint : Note → Bool
  | .failed _ _ => true
  | .panicked _ _ => true
  | _ => false

/-- The log tells the tasks that were accepted, in their order, and every task that went wrong,
    once. -/
structure Logged (s : Sys) : Prop where
  accepted : s.workers.filterMap Worker.accepted? = (launches s.log).reverse
  complaints : (s.log.filter Note.isComplaint).Perm (s.workers.flatMap Worker.notes)

theorem launches_notes (op : String) (outcome : Outcome) (log : List Note) :
    launches (outcome.notes op ++ log) = launches log := by
  cases outcome <;> rfl

theorem filter_notes (op : String) (outcome : Outcome) :
    (outcome.notes op).filter Note.isComplaint = outcome.notes op := by
  cases outcome <;> rfl

theorem Logged.finish (h : Logged s) {i : Nat} {w w' : Worker} {op : String}
    {outcome : Outcome} (hw : s.workers[i]? = some w) (haccepted : w'.accepted? = w.accepted?)
    (hbefore : w.notes = []) (hafter : w'.notes = outcome.notes op) :
    Logged (s.finish i w' op outcome) := by
  obtain ⟨l₁, l₂, hl, -, hset⟩ := set_split hw
  obtain ⟨hacc, hcomp⟩ := h
  rw [hl] at hacc hcomp
  refine ⟨?_, ?_⟩
  · rw [Sys.finish, launches_notes, ← hacc, hset, List.filterMap_append, List.filterMap_append,
      List.filterMap_cons, List.filterMap_cons, haccepted]
  · simp only [List.flatMap_append, List.flatMap_cons, hbefore, List.nil_append] at hcomp
    simp only [Sys.finish, hset, List.filter_append, filter_notes, List.flatMap_append,
      List.flatMap_cons, hafter]
    -- what the task leaves is written at the front of the log and stands at its worker
    exact (hcomp.append_left _).trans (List.perm_append_comm_assoc ..)

theorem Step.logged (hstep : Step maxInFlight s e s') (h : Logged s) : Logged s' := by
  cases hstep with
  | ignore | reject => exact ⟨h.accepted, h.complaints⟩
  | @launch op hroom =>
    refine ⟨?_, ?_⟩
    · change _ = (op :: launches s.log).reverse
      rw [List.filterMap_append, h.accepted, List.reverse_cons]
      rfl
    · simpa [Note.isComplaint, Worker.notes] using h.complaints
  -- a detached task is no goroutine of the runner
  | fire =>
    refine ⟨?_, ?_⟩
    · rw [List.filterMap_append]
      exact (List.append_nil _).trans h.accepted
    · simpa [Worker.notes] using h.complaints
  | finish hw | finishDetached hw => exact h.finish hw rfl rfl rfl
  | release hw hsem =>
    obtain ⟨l₁, l₂, hl, -, hset⟩ := set_split hw
    obtain ⟨hacc, hcomp⟩ := h
    rw [hl] at hacc hcomp
    refine ⟨?_, ?_⟩
    · simpa [hset, Worker.accepted?, List.filterMap_cons] using hacc
    · simpa [hset, Worker.notes] using hcomp

theorem logged_of_reachable (h : (runner maxInFlight).Reachable s) : Logged s := by
  refine System.Reachable.invariant (P := Logged) ?_
    (fun _ _ _ h hstep => (Step.of_step hstep).logged h) h
  rintro s rfl
  exact ⟨rfl, List.Perm.refl _⟩

/-! ## The runner -/

/-- **Background work is bounded, and no slot is lost.** Whatever the tasks do, at most `capacity`
    of those that `TryGo` launched are not over; `TryGo` turns a task away only when that many are;
    a task that is over can always give its slot back; the goroutines of the runner are the tasks
    for which `TryGo` answered `true`, each once; and each error and each panic is logged once. -/
theorem tryGo_bounded_no_slot_lost {maxInFlight : Int} {s : Sys}
    (h : (runner maxInFlight).Reachable s) :
    s.inFlight ≤ capacity maxInFlight ∧
    (∀ op, (s.tryGo maxInFlight op true).2 = true ↔ s.inFlight < capacity maxInFlight) ∧
    (∀ i op outcome, s.workers[i]? = some (.bounded op (.deferred outcome)) →
      ∃ s', (runner maxInFlight).step s (.release i) = some s' ∧ s'.inFlight + 1 = s.inFlight) ∧
    s.workers.filterMap Worker.accepted? = (launches s.log).reverse ∧
    (s.log.filter Note.isComplaint).Perm (s.workers.flatMap Worker.notes) := by
  have hacc := accounted_of_reachable h
  have hlog := logged_of_reachable h
  refine ⟨hacc.slots ▸ hacc.bound, ?_, ?_, hlog.accepted, hlog.complaints⟩
  · intro op
    rw [Sys.tryGo, if_neg (by simp), ← hacc.slots]
    by_cases hroom : s.sem < capacity maxInFlight <;> simp [hroom]
  · intro i op outcome hw
    -- the receive from `sem` does not block, as the slot of the task is still in it
    have hsem := sem_ne_zero_of_deferred h hw
    have hrelease : step maxInFlight s (.release i) = some { s with
        sem := s.sem - 1, workers := s.workers.set i (.bounded op (.exited outcome)) } := by
      simp only [step, hw, if_neg hsem]
    refine ⟨_, hrelease, ?_⟩
    have hafter := ((Step.of_step hrelease).accounted hacc).slots
    have hbefore := hacc.slots
    change s.sem - 1 = _ at hafter
    omega

/-- A runner with one slot: the second task finds it full until the first, which panics, is over. -/
theorem tryGo_bounded_no_slot_lost_of_panic :
    ∃ s, (runner 0).Reachable s ∧ s.inFlight = 0 ∧ s.inFlight ≤ capacity 0 ∧
      s.log = [.panicked "audit" "boom", .rejected "meter", .launched "audit"] := by
  have hrun : (runner 0).run ⟨0, [], []⟩
      [.tryGo "audit" true, .tryGo "meter" true, .finish 0 (.panicked "boom"), .release 0] =
      some ⟨0, [.bounded "audit" (.exited (.panicked "boom"))],
        [.panicked "audit" "boom", .rejected "meter", .launched "audit"]⟩ := by
    decide
  have hreach := System.Reachable.run (.init rfl) hrun
  exact ⟨_, hreach, rfl, (tryGo_bounded_no_slot_lost hreach).1, rfl⟩

end ServiceRuntime.Async
