import ServiceRuntime.Resilience.BreakerInvariant

/-!
# Tripping, Staying Open, Probing

What the refinement of histories gives for one cycle of the breaker:

- it leaves Closed for Open exactly at the threshold
- once Open, it rejects every call and is moved by no outcome until the reset timeout
- one half-open period admits at most `HalfOpenMax` calls
-/

namespace ServiceRuntime.Resilience

open BreakerState History
open Transition GoTime

/-! ## The threshold -/

variable {cfg : Settings}

/-- In Closed, an outcome opens the breaker exactly when it is applied, fails, and brings the
    count of failures to the threshold. -/
theorem Step.after_opens_iff {s s' : Sys} {i : Nat} {err : Option String} {now : Int}
    (hstep : Step cfg s ⟨.after i err, now⟩ s') (hinv : Implements cfg s.breaker s.log)
    (hclosed : s.breaker.state = stateClosed) :
    s'.breaker.state = stateOpen ↔
      ∃ adm, s.calls[i]? = some ⟨none, some adm⟩ ∧
        outcome s.breaker adm.wasProbe err = .applied stateClosed true ∧
        (failuresSince (.applied stateClosed true :: s.log) : Int) = cfg.failureThreshold := by
  obtain ⟨hcount, hlt⟩ := hinv.closed hclosed
  cases hstep with
  | @after _ _ _ adm b change l₁ l₂ hcalls hi hb =>
    have hget : s.calls[i]? = some ⟨none, some adm⟩ := by
      subst hi
      simp [hcalls]
    have hfail : (failuresSince (.applied stateClosed true :: s.log) : Int) =
        s.breaker.consecutiveFail + 1 := by
      simp [failuresSince, hcount]
    rcases Breaker.after_cases cfg now s.breaker adm.wasProbe err with
      ⟨hidle, heq⟩ | ⟨hp, hs, he, heq⟩ | ⟨hp, hs, he, hbelow, heq⟩ | ⟨hp, hs, he, hge, heq⟩ |
      ⟨hs, -, -⟩ | ⟨hs, -, -⟩
    -- a probe of an earlier half-open period: discarded
    · cases heq.symm.trans hb
      have hp : adm.wasProbe = true := by
        rcases hidle with ⟨hp, -⟩ | hs
        · exact hp
        · simp [hclosed] at hs
      simp [hget, outcome, Breaker.discards, hp, hclosed]
    -- a success is applied, but not as a failure
    · cases heq.symm.trans hb
      simp [hget, outcome, Breaker.discards, hp, hclosed, he]
    -- a failure below the threshold
    · cases heq.symm.trans hb
      simp only [hclosed, hfail]
      constructor
      · intro h
        cases h
      · rintro ⟨-, -, -, h⟩
        omega
    -- at the threshold: the count was below it, so it is reached exactly
    · cases heq.symm.trans hb
      refine ⟨fun _ => ⟨adm, hget, ?_, by rw [hfail]; omega⟩, fun _ => rfl⟩
      simp [outcome, Breaker.discards, hp, hclosed, Option.isSome_iff_ne_none.mpr he]
    · simp [hclosed] at hs
    · simp [hclosed] at hs

/-- **Trips exactly at the threshold**: in Closed, `consecutiveFail` is the number of failures
    since the latest success in Closed, entry into Closed or `Reset`, and below the threshold;
    an outcome opens the breaker iff it is applied as the threshold's failure in a row. -/
theorem closed_trips_exactly_at_threshold (c : BreakerConfig) {s : Sys}
    (hs : (breakerSystem c).Reachable s) (hclosed : s.breaker.state = stateClosed) :
    s.breaker.consecutiveFail = failuresSince s.log ∧
    s.breaker.consecutiveFail < c.withDefaults.failureThreshold ∧
    ∀ i err now s', (breakerSystem c).step s ⟨.after i err, now⟩ = some s' →
      (s'.breaker.state = stateOpen ↔
        ∃ adm, s.calls[i]? = some ⟨none, some adm⟩ ∧
          outcome s.breaker adm.wasProbe err = .applied stateClosed true ∧
          (failuresSince (.applied stateClosed true :: s.log) : Int) =
            c.withDefaults.failureThreshold) := by
  have hinv := implements_of_reachable hs
  obtain ⟨hcount, hlt⟩ := hinv.closed hclosed
  refine ⟨hcount, hlt, fun i err now s' hstep => ?_⟩
  exact (Step.of_system hstep).after_opens_iff hinv hclosed

/-- With threshold two, the second failure in a row is the one that trips. -/
theorem closed_trips_at_second_failure :
    ∃ s s', (breakerSystem ⟨2, Duration.second, 1, true⟩).run initial
        [⟨.before, 0⟩, ⟨.after 0 (some "refused"), 1⟩, ⟨.before, 2⟩] = some s ∧
      (breakerSystem ⟨2, Duration.second, 1, true⟩).step s ⟨.after 0 (some "refused"), 3⟩ =
        some s' ∧
      s.breaker.state = stateClosed ∧ s.breaker.consecutiveFail = failuresSince s.log ∧
      s'.breaker.state = stateOpen := by
  have hrun : (breakerSystem ⟨2, Duration.second, 1, true⟩).run initial
      [⟨.before, 0⟩, ⟨.after 0 (some "refused"), 1⟩, ⟨.before, 2⟩] =
      some ⟨⟨stateClosed, 1, 0, 0⟩, [⟨none, some ⟨false, 0⟩⟩],
        [.admitted false, .applied stateClosed true, .admitted false]⟩ := rfl
  obtain ⟨hcount, -, htrip⟩ := closed_trips_exactly_at_threshold ⟨2, Duration.second, 1, true⟩
    (System.Reachable.run (.init rfl) hrun) rfl
  refine ⟨_, _, hrun, rfl, rfl, hcount, ?_⟩
  exact (htrip 0 (some "refused") 3 _ rfl).mpr ⟨⟨false, 0⟩, rfl, rfl, rfl⟩

/-! ## The open window -/

theorem Step.changedAt_eq {s s' : Sys} {e : Event} (hstep : Step cfg s e s')
    (hne : s.breaker.state ≠ s'.breaker.state) : changedAt s'.log = some e.now := by
  cases hstep with
  | reject | accept | after => simp [changedAt, record_of_ne hne]
  | panic => exact absurd rfl hne
  | state | reset => simp [changedAt, record_of_ne hne]
  | callback => exact absurd rfl hne

theorem Step.open_frozen {s s' : Sys} {e : Event} (hstep : Step cfg s e s')
    (hopen : s.breaker.state = stateOpen) (hdue : ¬ s.breaker.Due cfg e.now)
    (hreset : e.op ≠ .reset) : s'.breaker = s.breaker := by
  cases hstep with
  | reject hb =>
    cases (Breaker.before_of_open hopen hdue).symm.trans hb
    rfl
  | accept hb => cases (Breaker.before_of_open hopen hdue).symm.trans hb
  | after _ _ hb =>
    cases (Breaker.after_of_open hopen _ _).symm.trans hb
    rfl
  | panic => rfl
  | state hb =>
    cases (Breaker.stateLocked_of_not_due hdue).symm.trans hb
    rfl
  | reset => exact absurd rfl hreset
  | callback => rfl

/-- A step of the window that opens at `t`: no `Reset`, and read before `t + ResetTimeout`. -/
def Event.InWindow (cfg : Settings) (t : Int) (e : Event) : Prop :=
  e.op ≠ .reset ∧ e.now < add t cfg.resetTimeout

theorem not_due_of_lt {now : Int} {b : Breaker} (h : now < add b.openedAt cfg.resetTimeout) :
    ¬ b.Due cfg now :=
  fun hdue => absurd hdue.2 (by omega)

/-- The breaker does not change along a run inside the window. -/
theorem run_open_frozen {c : BreakerConfig} {s t : Sys} {es : List Event}
    (hrun : (breakerSystem c).run s es = some t) (hopen : s.breaker.state = stateOpen)
    (hwindow : ∀ e ∈ es, e.InWindow c.withDefaults s.breaker.openedAt) :
    t.breaker = s.breaker := by
  induction es generalizing s with
  | nil =>
    cases hrun
    rfl
  | cons e es ih =>
    obtain ⟨s', hs', ht⟩ := (breakerSystem c).run_cons_eq_some.mp hrun
    obtain ⟨hreset, hnow⟩ := hwindow e List.mem_cons_self
    have hsame : s'.breaker = s.breaker :=
      (Step.of_system hs').open_frozen hopen (not_due_of_lt hnow) hreset
    have hrest : t.breaker = s'.breaker := by
      apply ih ht
      · rw [hsame, hopen]
      · intro e' he'
        rw [hsame]
        exact hwindow e' (List.mem_cons_of_mem e he')
    rw [hrest, hsame]

/-- **Open window and probe budget**. After a step that opens the breaker at clock time
    `e.now`, along any run without `Reset` whose readings stay below
    `e.now + ResetTimeout`, the breaker stays Open, the next `before` in the window returns
    `ErrCircuitOpen` and no `after` changes the state, whenever its call was admitted. And no
    half-open period admits more than `HalfOpenMax` calls. The clock need not even be
    monotone. -/
theorem open_window_rejects_and_halfOpen_admits_at_most_max (c : BreakerConfig) :
    (∀ s s' t e es, (breakerSystem c).Reachable s →
      (breakerSystem c).step s e = some s' →
      s.breaker.state ≠ stateOpen → s'.breaker.state = stateOpen →
      (breakerSystem c).run s' es = some t →
      (∀ e' ∈ es, e'.InWindow c.withDefaults e.now) →
      t.breaker.state = stateOpen ∧
      (∀ now, now < add e.now c.withDefaults.resetTimeout →
        (t.breaker.before c.withDefaults now).2.2 = .error .errCircuitOpen) ∧
      (∀ i err now t', (breakerSystem c).step t ⟨.after i err, now⟩ = some t' →
        t'.breaker.state = t.breaker.state)) ∧
    (∀ s, (breakerSystem c).Reachable s → s.breaker.state = stateHalfOpen →
      (admittedSince s.log : Int) ≤ c.withDefaults.halfOpenMax) := by
  refine ⟨fun s s' t e es hs hstep hne hopen hrun hwindow => ?_, fun s hs hhalf => ?_⟩
  · have hs' : (breakerSystem c).Reachable s' := .step hs trivial hstep
    -- the step that opened the breaker stamped it with its own reading
    have hstamp : s'.breaker.openedAt = e.now := by
      have hchanged := (Step.of_system hstep).changedAt_eq (by rw [hopen]; exact hne)
      have hopened := (implements_of_reachable hs').opened hopen
      exact Option.some.inj (hopened.symm.trans hchanged)
    have hsame : t.breaker = s'.breaker := run_open_frozen hrun hopen (hstamp ▸ hwindow)
    have htopen : t.breaker.state = stateOpen := by rw [hsame, hopen]
    refine ⟨htopen, fun now hnow => ?_, fun i err now t' hafter => ?_⟩
    · have hdue : ¬ t.breaker.Due c.withDefaults now := by
        apply not_due_of_lt
        rwa [hsame, hstamp]
      rw [Breaker.before_of_open htopen hdue]
    · cases Step.of_system hafter with
      | after _ _ hb =>
        cases (Breaker.after_of_open htopen _ _).symm.trans hb
        rfl
  · obtain ⟨hcount, hmax⟩ := (implements_of_reachable hs).halfOpen hhalf
    rwa [← hcount]

/-- A breaker that trips at time 1 with a timeout of one second rejects at time 2. -/
theorem open_window_rejects_at_two :
    ∃ s s', (breakerSystem ⟨1, Duration.second, 1, false⟩).run initial [⟨.before, 0⟩] = some s ∧
      (breakerSystem ⟨1, Duration.second, 1, false⟩).step s ⟨.after 0 (some "refused"), 1⟩ =
        some s' ∧
      (s'.breaker.before (BreakerConfig.withDefaults ⟨1, Duration.second, 1, false⟩) 2).2.2 =
        .error .errCircuitOpen := by
  have hrun : (breakerSystem ⟨1, Duration.second, 1, false⟩).run initial [⟨.before, 0⟩] =
      some ⟨newBreaker, [⟨none, some ⟨false, 0⟩⟩], [.admitted false]⟩ := rfl
  obtain ⟨hwindow, -⟩ :=
    open_window_rejects_and_halfOpen_admits_at_most_max ⟨1, Duration.second, 1, false⟩
  refine ⟨_, _, hrun, rfl, ?_⟩
  exact (hwindow _ _ _ ⟨.after 0 (some "refused"), 1⟩ [] (System.Reachable.run (.init rfl) hrun)
    rfl (by decide) rfl rfl (by simp)).2.1 2 (by decide)

end ServiceRuntime.Resilience
