import ServiceRuntime.Resilience.BreakerSystem

/-!
# The Counters Compute the History

The main invariant of the breaker: in every reachable state, the fields that the mutex
guards are the readings of the history that the current state gives a meaning to.

- Closed: `consecutiveFail` is the number of failures in a row, below the threshold
- HalfOpen: `halfOpenCount` is the number of calls this period admitted
- Open: `openedAt` is the clock reading of the latest transition

`consecutiveFail` is not cleared when the breaker opens and `halfOpenCount` is not
cleared when it trips, so in the other states these fields mean nothing, and the
invariant has to be re-established at every entry into Closed and HalfOpen.
-/

namespace ServiceRuntime.Resilience

open BreakerState History
open Transition

/-- The guarded fields `b` implement the history `log`. -/
structure Implements (cfg : Settings) (b : Breaker) (log : List Entry) : Prop where
  state_eq : b.state = current log
  closed : b.state = stateClosed →
    b.consecutiveFail = failuresSince log ∧ b.consecutiveFail < cfg.failureThreshold
  halfOpen : b.state = stateHalfOpen →
    b.halfOpenCount = admittedSince log ∧ b.halfOpenCount ≤ cfg.halfOpenMax
  opened : b.state = stateOpen → changedAt log = some b.openedAt

namespace Implements

variable {cfg : Settings} {now : Int} {b b' : Breaker} {log : List Entry}

theorem of_closed (hs : b.state = stateClosed) (hcurrent : current log = stateClosed)
    (hzero : b.consecutiveFail = 0) (hfailures : failuresSince log = 0) :
    Implements cfg b log where
  state_eq := hs.trans hcurrent.symm
  closed _ := by
    have hthr := cfg.failureThreshold_pos
    rw [hzero, hfailures]
    exact ⟨rfl, by omega⟩
  halfOpen h := by simp [hs] at h
  opened h := by simp [hs] at h

/-- Open since the latest transition; the counters mean nothing here. -/
theorem of_open (hs : b.state = stateOpen) (hcurrent : current log = stateOpen)
    (hat : changedAt log = some b.openedAt) : Implements cfg b log where
  state_eq := hs.trans hcurrent.symm
  closed h := by simp [hs] at h
  halfOpen h := by simp [hs] at h
  opened _ := hat

theorem newBreaker_nil : Implements cfg newBreaker [] := of_closed rfl rfl rfl rfl

/-! ## One lemma for each critical section -/

theorem cons_silent (h : Implements cfg b log) {entry : Entry}
    (hentry : entry = .rejected ∨ entry = .discarded ∨ (∃ adm, entry = .panicked adm) ∨
      ∃ change, entry = .notified change) : Implements cfg b (entry :: log) := by
  obtain ⟨hstate, hclosed, hhalf, hopen⟩ := h
  rcases hentry with rfl | rfl | ⟨adm, rfl⟩ | ⟨change, rfl⟩
  all_goals
    exact ⟨by simpa [current] using hstate, by simpa [failuresSince] using hclosed,
      by simpa [admittedSince] using hhalf, by simpa [changedAt] using hopen⟩

variable {change : Option Change} {wasProbe : Bool}

theorem stateLocked (h : Implements cfg b log) (hb : b.stateLocked cfg now = (b', change)) :
    Implements cfg b' (record b.state b'.state now log) := by
  rcases Breaker.stateLocked_cases cfg now b with
    ⟨hdue, heq⟩ | ⟨-, heq⟩
  -- promotion: a new period that has admitted nothing yet
  · obtain ⟨rfl, -⟩ := Prod.mk.inj (heq.symm.trans hb)
    have hmax := cfg.halfOpenMax_pos
    rw [hdue.1, record_of_ne (by simp)]
    exact ⟨by simp [current, stateAfter], by simp, by simp [admittedSince]; omega, by simp⟩
  · obtain ⟨rfl, -⟩ := Prod.mk.inj (heq.symm.trans hb)
    rwa [record_self]

theorem before_error (h : Implements cfg b log) {err : BreakerError}
    (hb : b.before cfg now = (b', change, .error err)) :
    Implements cfg b' (.rejected :: record b.state b'.state now log) := by
  obtain ⟨rfl, -⟩ := Breaker.before_error cfg now b hb
  rw [record_self]
  exact h.cons_silent (.inl rfl)

theorem before_ok (h : Implements cfg b log) (hb : b.before cfg now = (b', change, .ok wasProbe)) :
    Implements cfg b' (.admitted wasProbe :: record b.state b'.state now log) := by
  obtain ⟨hstate, hclosed, hhalf, hopen⟩ := h
  rcases Breaker.before_cases cfg now b with
    ⟨hs, heq⟩ | ⟨-, -, heq⟩ | ⟨hdue, heq⟩ | ⟨-, -, heq⟩ | ⟨hs, hlt, heq⟩
  all_goals cases heq.symm.trans hb
  -- Closed: nothing but the history changes
  · rw [record_self]
    exact ⟨by simpa [current] using hstate, by simpa [failuresSince] using hclosed,
      by simp [hs], by simp [hs]⟩
  -- promotion, and the first probe of the new period
  · have hmax := cfg.halfOpenMax_pos
    rw [hdue.1, record_of_ne (by simp)]
    exact ⟨by simp [current, stateAfter], by simp, by simpa [admittedSince] using hmax, by simp⟩
  -- a further probe of the current period
  · obtain ⟨hcount, -⟩ := hhalf hs
    simp only [record_self]
    refine ⟨by simpa [current] using hstate, by simp [hs], fun _ => ⟨?_, ?_⟩, by simp [hs]⟩
    · simp [admittedSince, hcount]
    · simp only
      omega

/-- An outcome that leaves the breaker alone: a discarded one, or any one in Open. -/
theorem outcome_idle (h : Implements cfg b log) (err : Option String)
    (hidle : wasProbe = true ∧ b.state ≠ stateHalfOpen ∨ b.state = stateOpen) :
    Implements cfg b (outcome b wasProbe err :: log) := by
  by_cases hd : b.discards wasProbe = true
  · rw [outcome, if_pos hd]
    exact h.cons_silent (.inr (.inl rfl))
  -- not discarded, so the breaker is Open, where only `openedAt` has a meaning
  · have hopen : b.state = stateOpen := by
      rcases hidle with ⟨hp, hs⟩ | hs
      · simp [Breaker.discards, hp, hs] at hd
      · exact hs
    rw [outcome, if_neg hd]
    apply of_open hopen
    · simpa [current, hopen] using h.state_eq.symm
    · simpa [changedAt] using h.opened hopen

theorem after (h : Implements cfg b log) {err : Option String}
    (hb : b.after cfg now wasProbe err = (b', change)) :
    Implements cfg b' (record b.state b'.state now (outcome b wasProbe err :: log)) := by
  rcases Breaker.after_cases cfg now b wasProbe err with
    ⟨hidle, heq⟩ | ⟨hp, hs, he, heq⟩ | ⟨hp, hs, he, hlt, heq⟩ | ⟨hp, hs, he, hge, heq⟩ |
    ⟨hs, he, heq⟩ | ⟨hs, he, heq⟩
  all_goals cases heq.symm.trans hb
  · rw [record_self]
    exact h.outcome_idle err hidle
  -- a success in Closed starts a new row of failures
  · have hout : outcome b wasProbe err = .applied stateClosed false := by
      simp [outcome, Breaker.discards, hp, hs, he]
    rw [record_self, hout]
    refine of_closed hs ?_ rfl (by simp [failuresSince])
    simpa [current, hs] using h.state_eq.symm
  -- a failure in Closed below the threshold
  · obtain ⟨hcount, -⟩ := h.closed hs
    have hout : outcome b wasProbe err = .applied stateClosed true := by
      simp [outcome, Breaker.discards, hp, hs, Option.isSome_iff_ne_none.mpr he]
    rw [record_self, hout]
    refine ⟨by simpa [current] using h.state_eq, fun _ => ⟨?_, hlt⟩, by simp [hs], by simp [hs]⟩
    simp [failuresSince, hcount]
  -- the failure that trips the breaker
  · rw [hs, record_of_ne (by simp)]
    exact of_open rfl (by simp [current, stateAfter]) (by simp [changedAt])
  -- a success in HalfOpen closes the breaker
  · rw [hs, record_of_ne (by simp)]
    exact of_closed rfl (by simp [current, stateAfter]) rfl (by simp [failuresSince])
  -- a failure in HalfOpen reopens it
  · rw [hs, record_of_ne (by simp)]
    exact of_open rfl (by simp [current, stateAfter]) (by simp [changedAt])

theorem reset (h : Implements cfg b log) (hb : b.reset = (b', change)) :
    Implements cfg b' (record b.state b'.state now (.reset :: log)) := by
  cases hb
  by_cases hs : b.state = stateClosed
  -- no transition: the `reset` entry alone ends the row of failures
  · rw [hs, record_self]
    refine of_closed rfl ?_ rfl (by simp [failuresSince])
    simpa [current, stateAfter, hs] using h.state_eq.symm
  · rw [record_of_ne hs]
    exact of_closed rfl (by simp [current, stateAfter]) rfl (by simp [failuresSince])

end Implements

/-! ## Every reachable state -/

theorem Step.implements {cfg : Settings} {s s' : Sys} {e : Event} (hstep : Step cfg s e s')
    (h : Implements cfg s.breaker s.log) : Implements cfg s'.breaker s'.log := by
  cases hstep with
  | reject hb => exact h.before_error hb
  | accept hb => exact h.before_ok hb
  | after _ _ hb => exact h.after hb
  | panic => exact h.cons_silent (.inr (.inr (.inl ⟨_, rfl⟩)))
  | state hb => exact h.stateLocked hb
  | reset hb => exact h.reset hb
  | callback => exact h.cons_silent (.inr (.inr (.inr ⟨_, rfl⟩)))

/-- **Refinement**: whatever the interleaving, the fields of the breaker are the readings of
    its history. -/
theorem implements_of_reachable {c : BreakerConfig} {s : Sys}
    (h : (breakerSystem c).Reachable s) : Implements c.withDefaults s.breaker s.log := by
  refine System.Reachable.invariant
    (P := fun s => Implements c.withDefaults s.breaker s.log) ?_ ?_ h
  · rintro s rfl
    exact Implements.newBreaker_nil
  · intro s e s' hP hse
    exact (Step.of_system hse).implements hP

end ServiceRuntime.Resilience
