import ServiceRuntime.Resilience.Breaker

/-!
# Histories of a Circuit Breaker

What a circuit breaker is for is said in terms of its history: how many failures in a
row, since when it is open, how many probes this half-open period has admitted. This
module gives histories and these readings of them. It mentions none of the counters of
the implementation; `BreakerInvariant` shows that the counters compute the readings.

A history is a list of entries with the newest entry first.
-/

namespace ServiceRuntime.Resilience

open BreakerState

/-- An admission: what `before` returned, and in which period. -/
structure Admission where
  wasProbe : Bool
  /-- How many transitions the breaker had made when the call was admitted. -/
  period : Nat
  deriving DecidableEq, Repr

def Admission.isProbeOf (n : Nat) (adm : Admission) : Bool := adm.wasProbe && adm.period == n

/-- One thing that happened to a breaker. -/
inductive Entry where
  | transition (change : Change) (now : Int)
  /-- `before` let a call through. -/
  | admitted (wasProbe : Bool)
  /-- `before` returned `ErrCircuitOpen`. -/
  | rejected
  /-- `after` handed an outcome to `onSuccess` or `onFailure`, in this state. -/
  | applied (state : BreakerState) (failed : Bool)
  /-- `after` ignored an outcome. -/
  | discarded
  /-- The function of an admitted call panicked. -/
  | panicked (adm : Admission)
  | reset
  | notified (change : Change)
  deriving DecidableEq, Repr

namespace History

/-! ## Transitions and periods -/

@[simp] def transition? : Entry → Option Change
  | .transition change _ => some change
  | _ => none

def transitions (log : List Entry) : List Change := log.filterMap transition?

/-- The number of transitions; it identifies the current period. -/
def period (log : List Entry) : Nat := (transitions log).length

/-- The state that a sequence of transitions, newest first, leads to. A breaker starts Closed. -/
def stateAfter : List Change → BreakerState
  | [] => stateClosed
  | change :: _ => change.toState

def current (log : List Entry) : BreakerState := stateAfter (transitions log)

@[simp] def notified? : Entry → Option Change
  | .notified change => some change
  | _ => none

def delivered (log : List Entry) : List Change := log.filterMap notified?

/-- The state that the latest `OnStateChange` invocation reported. -/
def lastReported (log : List Entry) : BreakerState := stateAfter (delivered log)

def changedAt : List Entry → Option Int
  | [] => none
  | .transition _ now :: _ => some now
  | _ :: log => changedAt log

/-! ## Failures in a row -/

/-- Failing outcomes applied since the latest of: a success applied in Closed, an entry into
    Closed, a `Reset`. -/
def failuresSince : List Entry → Nat
  | [] => 0
  | .reset :: _ => 0
  | .transition change _ :: log => if change.toState = stateClosed then 0 else failuresSince log
  | .applied state failed :: log =>
    if failed then failuresSince log + 1
    else if state = stateClosed then 0
    else failuresSince log
  | _ :: log => failuresSince log

/-! ## The current period -/

def admittedSince : List Entry → Nat
  | [] => 0
  | .transition _ _ :: _ => 0
  | .admitted _ :: log => admittedSince log + 1
  | _ :: log => admittedSince log

def isPanickedProbe (n : Nat) : Entry → Bool
  | .panicked adm => adm.isProbeOf n
  | _ => false

def panickedProbes (log : List Entry) : Nat :=
  log.countP (isPanickedProbe (period log))

/-! ## Recording a critical section -/

/-- Append the transition that a critical section made, if it made one. The transition is
    read off the states before and after, not off what the method reports. -/
def record (old new : BreakerState) (now : Int) (log : List Entry) : List Entry :=
  if old ≠ new then .transition ⟨old, new⟩ now :: log else log

@[simp] theorem record_self (p : BreakerState) (now : Int) (log : List Entry) :
    record p p now log = log := by
  simp [record]

variable {new old : BreakerState}

theorem record_of_ne (h : old ≠ new) (now : Int) (log : List Entry) :
    record old new now log = .transition ⟨old, new⟩ now :: log := by
  simp [record, h]

theorem mem_record {now : Int} {log : List Entry} {entry : Entry}
    (hentry : transition? entry = none) : entry ∈ record old new now log ↔ entry ∈ log := by
  unfold record
  split
  · rw [List.mem_cons]
    refine ⟨fun h => h.resolve_left ?_, .inr⟩
    rintro rfl
    cases hentry
  · exact Iff.rfl

@[simp] theorem panicked_mem_record {now : Int} {log : List Entry} {adm : Admission} :
    Entry.panicked adm ∈ record old new now log ↔ Entry.panicked adm ∈ log :=
  mem_record rfl

@[simp] theorem countP_panicked_record (n : Nat) (old new : BreakerState) (now : Int)
    (log : List Entry) :
    (record old new now log).countP (isPanickedProbe n) = log.countP (isPanickedProbe n) := by
  unfold record
  split <;> simp [isPanickedProbe]

/-! ## Readings of an extended history -/

theorem filterMap_cons_toList (f : Entry → Option Change) (entry : Entry) (log : List Entry) :
    (entry :: log).filterMap f = (f entry).toList ++ log.filterMap f := by
  cases h : f entry with
  | none => rw [List.filterMap_cons_none h, Option.toList_none, List.nil_append]
  | some change => rw [List.filterMap_cons_some h, Option.toList_some, List.singleton_append]

@[simp] theorem transitions_cons (entry : Entry) (log : List Entry) :
    transitions (entry :: log) = (transition? entry).toList ++ transitions log :=
  filterMap_cons_toList transition? entry log

@[simp] theorem delivered_cons (entry : Entry) (log : List Entry) :
    delivered (entry :: log) = (notified? entry).toList ++ delivered log :=
  filterMap_cons_toList notified? entry log

@[simp] theorem transitions_record (old new : BreakerState) (now : Int) (log : List Entry) :
    transitions (record old new now log) = (changed old new).toList ++ transitions log := by
  unfold record changed
  split <;> simp

@[simp] theorem delivered_record (old new : BreakerState) (now : Int) (log : List Entry) :
    delivered (record old new now log) = delivered log := by
  unfold record
  split <;> simp

theorem period_cons (entry : Entry) (log : List Entry) :
    period (entry :: log) = (transition? entry).toList.length + period log := by
  simp [period]

theorem period_record (old new : BreakerState) (now : Int) (log : List Entry) :
    period (record old new now log) = if old ≠ new then period log + 1 else period log := by
  unfold record
  split <;> simp [period]

theorem period_le_record (old new : BreakerState) (now : Int) (log : List Entry) :
    period log ≤ period (record old new now log) := by
  rw [period_record]
  split <;> omega

end History

end ServiceRuntime.Resilience
