import ServiceRuntime.Resilience.BreakerInvariant

/-!
# Outcomes and Probes of Earlier Periods

The breaker has no period counter. `after` tells a late outcome only by "it was a probe
and the state is not HalfOpen now", and `halfOpenCount` is zeroed whenever the state
changes while probes of the period before may still be running. This module makes
precise what that is enough for:

- which outcomes of an earlier period leave the breaker alone
- when a half-open breaker can run out of probe slots for good
- when the number of running probes stays within `HalfOpenMax`
-/

namespace ServiceRuntime.Resilience

open BreakerState History
open Transition GoTime

/-! ## Late outcomes -/

/-- The outcome of a call admitted in an earlier period leaves the breaker unchanged. -/
def LateOutcomeIgnored (s : Sys) (e : Event) (s' : Sys) : Prop :=
  ∀ i err adm, e.op = .after i err → s.calls[i]? = some ⟨none, some adm⟩ →
    adm.period ≠ period s.log → s'.breaker = s.breaker

/-- An outcome of an earlier period arrives while the breaker is Open, or while it is Closed
    and is a probe's, or a success with no failure on the count. -/
def LateOutcomeHarmless (s : Sys) (e : Event) (_ : Sys) : Prop :=
  ∀ i err adm, e.op = .after i err → s.calls[i]? = some ⟨none, some adm⟩ →
    adm.period ≠ period s.log →
      s.breaker.state = stateOpen ∨
      s.breaker.state = stateClosed ∧
        (adm.wasProbe = true ∨ err = none ∧ s.breaker.consecutiveFail = 0)

/-- `after` leaves the breaker unchanged exactly when it is Open, or Closed and the outcome is
    a probe's or a success that has nothing to clear. -/
theorem after_eq_self_iff (cfg : Settings) (now : Int) (b : Breaker) (wasProbe : Bool)
    (err : Option String) :
    (b.after cfg now wasProbe err).1 = b ↔
      b.state = stateOpen ∨
      b.state = stateClosed ∧ (wasProbe = true ∨ err = none ∧ b.consecutiveFail = 0) := by
  rcases Breaker.after_cases cfg now b wasProbe err with
    ⟨hidle, heq⟩ | ⟨hp, hs, he, heq⟩ | ⟨hp, hs, he, -, heq⟩ | ⟨hp, hs, he, -, heq⟩ |
    ⟨hs, -, heq⟩ | ⟨hs, -, heq⟩
  · rw [heq]
    refine ⟨fun _ => ?_, fun _ => rfl⟩
    rcases hidle with ⟨hp, hs⟩ | hs
    · cases hstate : b.state with
      | stateClosed => exact .inr ⟨rfl, .inl hp⟩
      | stateOpen => exact .inl rfl
      | stateHalfOpen => exact absurd hstate hs
    · exact .inl hs
  -- a success clears the count; that changes nothing only if it was zero
  · rw [heq]
    simp [Breaker.ext_iff, hp, hs, he, eq_comm]
  · rw [heq]
    simp [Breaker.ext_iff, hp, hs, he]
  · rw [heq]
    simp [Breaker.ext_iff, hp, hs, he]
  · rw [heq]
    simp [Breaker.ext_iff, hs]
  · rw [heq]
    simp [Breaker.ext_iff, hs]

variable {cfg : Settings} {s s' : Sys} {e : Event}

theorem Step.lateOutcome_iff (hstep : Step cfg s e s') :
    LateOutcomeIgnored s e s' ↔ LateOutcomeHarmless s e s' := by
  refine forall_congr' fun i => forall_congr' fun err => forall_congr' fun adm => ?_
  refine forall_congr' fun hop => forall_congr' fun hget => forall_congr' fun _ => ?_
  cases hstep with
  | @after now j err' adm' b change l₁ l₂ hcalls hj hb =>
    cases hop
    have hadm : adm' = adm := by
      subst hj
      simpa [hcalls] using hget
    subst hadm
    have hself := after_eq_self_iff cfg now s.breaker adm'.wasProbe err
    rwa [hb] at hself
  | reject | accept | panic | state | reset | callback => cases hop

/-- **Late outcomes, exactly**: along any run, every outcome of an earlier period leaves the
    breaker unchanged if and only if each of them arrives in Open, or in Closed from a probe
    or as a success with `consecutiveFail` already zero. -/
theorem lateOutcomes_ignored_iff_harmless (c : BreakerConfig) (es : List Event) :
    (breakerSystem c).Along LateOutcomeIgnored initial es ↔
      (breakerSystem c).Along LateOutcomeHarmless initial es :=
  System.along_congr (fun _ _ _ _ hstep => (Step.of_system hstep).lateOutcome_iff)
    (.init rfl) es

/-- Two calls enter in Closed. The first fails and opens the breaker, which is promoted after
    the timeout; then the second one fails and throws the half-open breaker back to Open. -/
theorem lateOutcomes_not_always_ignored :
    ¬ ∀ es, (breakerSystem ⟨1, Duration.second, 1, false⟩).Along LateOutcomeIgnored initial es := by
  intro h
  have h := h [⟨.before, 0⟩, ⟨.before, 0⟩, ⟨.after 0 (some "refused"), 1⟩,
    ⟨.state, 2000000000⟩, ⟨.after 0 (some "refused"), 2000000001⟩]
  -- walk to the fifth step, the outcome of the second call
  obtain ⟨-, h⟩ := h _ rfl
  obtain ⟨-, h⟩ := h _ rfl
  obtain ⟨-, h⟩ := h _ rfl
  obtain ⟨-, h⟩ := h _ rfl
  obtain ⟨h, -⟩ := h _ rfl
  have hsame := h 0 (some "refused") ⟨false, 0⟩ rfl rfl (by decide)
  exact absurd hsame (by decide)

/-! ## Probe slots -/

/-- No admission is from the future, and in HalfOpen every taken slot belongs to a probe of the
    current period that is in flight or has panicked. -/
structure SlotsAccounted (s : Sys) : Prop where
  flight : ∀ adm ∈ s.flight, adm.period ≤ period s.log
  panicked : ∀ adm, Entry.panicked adm ∈ s.log → adm.period ≤ period s.log
  slots : s.breaker.state = stateHalfOpen →
    s.breaker.halfOpenCount =
      s.flight.countP (Admission.isProbeOf (period s.log)) + panickedProbes s.log

theorem after_ne_halfOpen (cfg : Settings) (now : Int) (b : Breaker) (wasProbe : Bool)
    (err : Option String) : (b.after cfg now wasProbe err).1.state ≠ stateHalfOpen := by
  rcases Breaker.after_cases cfg now b wasProbe err with
    ⟨hidle, heq⟩ | ⟨-, hs, -, heq⟩ | ⟨-, hs, -, -, heq⟩ | ⟨-, -, -, -, heq⟩ | ⟨-, -, heq⟩ | ⟨-, -, heq⟩
  · rw [heq]
    rcases hidle with ⟨-, hs⟩ | hs
    · exact hs
    · simp [hs]
  all_goals
    rw [heq]
    simp [*]

theorem Step.period_le (hstep : Step cfg s e s') : period s.log ≤ period s'.log := by
  cases hstep with
  | reject | accept => simpa [period_cons] using period_le_record _ _ _ s.log
  | @after now _ err adm b _ _ _ _ _ _ =>
    refine Nat.le_trans ?_ (period_le_record s.breaker.state b.state now _)
    rw [period_cons]
    omega
  | panic => simp [period_cons]
  | state => exact period_le_record _ _ _ _
  | reset =>
    refine Nat.le_trans ?_ (period_le_record _ _ _ _)
    simp [period_cons]
  | callback => simp [period_cons]

/-- How a step changes the calls in flight: not at all, by admitting one into the period it
    ends in, or by letting one go. -/
theorem Step.flight_cases (hstep : Step cfg s e s') :
    s'.flight = s.flight ∨
    (∃ wasProbe, s'.flight = ⟨wasProbe, period s'.log⟩ :: s.flight) ∨
    ∃ f₁ adm f₂, s.flight = f₁ ++ adm :: f₂ ∧ s'.flight = f₁ ++ f₂ := by
  cases hstep with
  | reject => exact .inl (by simp [Sys.flight])
  | @accept _ _ _ wasProbe _ => exact .inr (.inl ⟨wasProbe, by simp [Sys.flight, period_cons]⟩)
  | @after _ _ _ adm _ _ l₁ l₂ hcalls _ _ | @panic _ _ adm l₁ l₂ hcalls _ =>
    exact .inr (.inr ⟨l₁.filterMap Call.admitted, adm, l₂.filterMap Call.admitted,
      by simp [Sys.flight, hcalls], by simp [Sys.flight]⟩)
  | state | reset => exact .inl (by simp [Sys.flight])
  | @callback _ _ _ adm _ _ hcalls _ =>
    refine .inl ?_
    cases adm <;> simp [Sys.flight, hcalls]

theorem Step.panicked_cases (hstep : Step cfg s e s') {adm : Admission}
    (hlog : Entry.panicked adm ∈ s'.log) : Entry.panicked adm ∈ s.log ∨ adm ∈ s.flight := by
  cases hstep with
  | reject | accept => exact .inl (by simpa using hlog)
  | after =>
    refine .inl ?_
    simp only [panicked_mem_record, outcome] at hlog
    split at hlog <;> simpa using hlog
  | panic hcalls =>
    rcases List.mem_cons.mp hlog with heq | hold
    · cases heq
      exact .inr (by simp [Sys.flight, hcalls])
    · exact .inl hold
  | state | reset | callback => exact .inl (by simpa using hlog)

theorem Admission.not_isProbeOf_later {adm : Admission} {n : Nat} (h : adm.period < n) :
    ¬ adm.isProbeOf n = true := by
  simp only [isProbeOf, Bool.and_eq_true, beq_iff_eq, not_and]
  omega

namespace SlotsAccounted

variable {cfg : Settings} {s s' : Sys} {e : Event}

theorem of_initial : SlotsAccounted initial where
  flight _ h := nomatch h
  panicked _ h := nomatch h
  slots h := nomatch h

theorem none_of_later (h : SlotsAccounted s) {n : Nat} (hn : period s.log < n) :
    s.flight.countP (Admission.isProbeOf n) = 0 ∧ s.log.countP (isPanickedProbe n) = 0 := by
  constructor
  · rw [List.countP_eq_zero]
    intro adm hadm
    exact Admission.not_isProbeOf_later (Nat.lt_of_le_of_lt (h.flight adm hadm) hn)
  · rw [List.countP_eq_zero]
    intro entry hentry
    unfold isPanickedProbe
    split
    · rename_i adm
      exact Admission.not_isProbeOf_later (Nat.lt_of_le_of_lt (h.panicked adm hentry) hn)
    · simp

theorem flight_step (h : SlotsAccounted s) (hstep : Step cfg s e s') :
    ∀ adm ∈ s'.flight, adm.period ≤ period s'.log := by
  intro adm hadm
  have hle := hstep.period_le
  rcases hstep.flight_cases with heq | ⟨wasProbe, heq⟩ | ⟨f₁, old, f₂, hs, heq⟩
  · rw [heq] at hadm
    exact Nat.le_trans (h.flight adm hadm) hle
  · rw [heq] at hadm
    rcases List.mem_cons.mp hadm with rfl | hold
    · exact Nat.le_refl _
    · exact Nat.le_trans (h.flight adm hold) hle
  · have hold : adm ∈ s.flight := by
      rw [heq, List.mem_append] at hadm
      rw [hs]
      rcases hadm with hadm | hadm <;> simp [hadm]
    exact Nat.le_trans (h.flight adm hold) hle

theorem panicked_step (h : SlotsAccounted s) (hstep : Step cfg s e s') :
    ∀ adm, Entry.panicked adm ∈ s'.log → adm.period ≤ period s'.log := by
  intro adm hlog
  rcases hstep.panicked_cases hlog with hold | hold
  · exact Nat.le_trans (h.panicked adm hold) hstep.period_le
  · exact Nat.le_trans (h.flight adm hold) hstep.period_le

theorem slots_step (h : SlotsAccounted s) (hstep : Step cfg s e s')
    (hhalf : s'.breaker.state = stateHalfOpen) :
    s'.breaker.halfOpenCount =
      s'.flight.countP (Admission.isProbeOf (period s'.log)) + panickedProbes s'.log := by
  cases hstep with
  | @reject now b change err hb =>
    obtain ⟨rfl, rfl⟩ := Breaker.before_error cfg now s.breaker hb
    simpa [Sys.flight, panickedProbes, period_cons, isPanickedProbe] using h.slots hhalf
  | @accept now b change wasProbe hb =>
    rcases Breaker.before_cases cfg now s.breaker with
      ⟨hs, heq⟩ | ⟨-, -, heq⟩ | ⟨hdue, heq⟩ | ⟨-, -, heq⟩ | ⟨hs, -, heq⟩
    all_goals cases heq.symm.trans hb
    · exact absurd hhalf (by simp [hs])
    -- promotion: the probe it admits is the only one of the new period
    · obtain ⟨hflight, hpanic⟩ := h.none_of_later (Nat.lt_succ_self _)
      rw [Sys.flight] at hflight
      simp [Sys.flight, panickedProbes, period_cons, period_record, hdue.1, isPanickedProbe,
        Admission.isProbeOf, hflight, hpanic]
    · have hslots := h.slots hs
      simp [Sys.flight, panickedProbes, period_cons, isPanickedProbe, Admission.isProbeOf]
        at hslots ⊢
      omega
  | @after now _ err adm b _ _ _ _ _ hb =>
    -- every outcome that is applied leaves the half-open state
    have := after_ne_halfOpen cfg now s.breaker adm.wasProbe err
    rw [hb] at this
    exact absurd hhalf this
  | @panic _ _ adm l₁ l₂ hcalls _ =>
    -- the slot moves from the calls in flight to the panicked ones
    have hslots := h.slots hhalf
    by_cases hadm : adm.isProbeOf (period s.log) = true
    all_goals
      simp [Sys.flight, hcalls, panickedProbes, period_cons, isPanickedProbe, hadm] at hslots ⊢
      omega
  | @state now b change hb =>
    rcases Breaker.stateLocked_cases cfg now s.breaker with ⟨hdue, heq⟩ | ⟨-, heq⟩
    all_goals cases heq.symm.trans hb
    · obtain ⟨hflight, hpanic⟩ := h.none_of_later (Nat.lt_succ_self _)
      rw [Sys.flight] at hflight
      simp [Sys.flight, panickedProbes, period_record, hdue.1, hflight, hpanic]
    · simpa [Sys.flight, panickedProbes, period_cons] using h.slots hhalf
  | reset hb =>
    cases hb
    cases hhalf
  | @callback _ _ change adm _ _ hcalls _ =>
    have hslots := h.slots hhalf
    cases adm <;>
      simpa [Sys.flight, hcalls, panickedProbes, period_cons, isPanickedProbe] using hslots

theorem step (h : SlotsAccounted s) (hstep : Step cfg s e s') : SlotsAccounted s' where
  flight := h.flight_step hstep
  panicked := h.panicked_step hstep
  slots := h.slots_step hstep

theorem of_reachable {c : BreakerConfig} (hs : (breakerSystem c).Reachable s) :
    SlotsAccounted s := by
  refine System.Reachable.invariant ?_ ?_ hs
  · rintro s rfl
    exact of_initial
  · intro s e s' h hse
    exact h.step (Step.of_system hse)

end SlotsAccounted

/-- **Wedging, exactly**: when no call is in flight and the breaker is not Open, or its reset
    timeout has elapsed, the next `before` admits its call unless the breaker is HalfOpen and
    at least `HalfOpenMax` probes of this half-open period have panicked. -/
theorem before_admits_iff_probes_left (c : BreakerConfig) {s : Sys} {now : Int}
    (hs : (breakerSystem c).Reachable s) (hidle : s.flight = [])
    (hready : s.breaker.state ≠ stateOpen ∨
      add s.breaker.openedAt c.withDefaults.resetTimeout ≤ now) :
    (∃ wasProbe, (s.breaker.before c.withDefaults now).2.2 = .ok wasProbe) ↔
      ¬ (s.breaker.state = stateHalfOpen ∧
        c.withDefaults.halfOpenMax ≤ panickedProbes s.log) := by
  rcases Breaker.before_cases c.withDefaults now s.breaker with
    ⟨hstate, heq⟩ | ⟨hstate, hdue, heq⟩ | ⟨hdue, heq⟩ | ⟨hstate, hfull, heq⟩ | ⟨hstate, hfree, heq⟩
  · simp [heq, hstate]
  -- Open and not due contradicts readiness
  · rcases hready with hne | hle
    · exact absurd hstate hne
    · exact absurd ⟨hstate, hle⟩ hdue
  · simp [heq, hdue.1]
  · have hslots := (SlotsAccounted.of_reachable hs).slots hstate
    -- nobody is in flight, so the taken slots are those of panicked probes
    simp only [hidle, List.countP_nil] at hslots
    simp only [heq, hstate, true_and]
    constructor
    · rintro ⟨_, h⟩
      cases h
    · intro h
      omega
  · have hslots := (SlotsAccounted.of_reachable hs).slots hstate
    simp only [hidle, List.countP_nil] at hslots
    simp only [heq, hstate, true_and]
    refine ⟨fun _ => by omega, fun _ => ⟨true, rfl⟩⟩

/-- The breaker opens, is promoted for a probe, and the probe panics. -/
def probePanics : List Event :=
  [⟨.before, 0⟩, ⟨.after 0 (some "refused"), 1⟩, ⟨.before, 2000000000⟩, ⟨.panic 0, 2000000001⟩]

theorem wedged_after_probe_panics :
    ¬ ∀ s now, (breakerSystem ⟨1, Duration.second, 1, false⟩).Reachable s → s.flight = [] →
      (s.breaker.state ≠ stateOpen ∨ add s.breaker.openedAt Duration.second ≤ now) →
      ∃ wasProbe, (s.breaker.before
        (BreakerConfig.withDefaults ⟨1, Duration.second, 1, false⟩) now).2.2 = .ok wasProbe := by
  intro h
  have hrun : (breakerSystem ⟨1, Duration.second, 1, false⟩).run initial probePanics =
      some ⟨⟨stateHalfOpen, 1, 1, 1⟩, [], [.panicked ⟨true, 2⟩, .admitted true,
        .transition ⟨stateOpen, stateHalfOpen⟩ 2000000000, .transition ⟨stateClosed, stateOpen⟩ 1,
        .applied stateClosed true, .admitted false]⟩ := rfl
  obtain ⟨_, hadmit⟩ := h _ 90000000000000 (System.Reachable.run (.init rfl) hrun) rfl
    (.inl (by decide))
  cases hadmit

/-- With a second slot the same run leaves the breaker usable. -/
theorem before_admits_with_second_slot :
    ∃ s, (breakerSystem ⟨1, Duration.second, 2, false⟩).run initial probePanics = some s ∧
      s.flight = [] ∧ s.breaker.state ≠ stateOpen ∧
      ∃ wasProbe, (s.breaker.before
        (BreakerConfig.withDefaults ⟨1, Duration.second, 2, false⟩) 0).2.2 = .ok wasProbe := by
  have hrun : (breakerSystem ⟨1, Duration.second, 2, false⟩).run initial probePanics =
      some ⟨⟨stateHalfOpen, 1, 1, 1⟩, [], [.panicked ⟨true, 2⟩, .admitted true,
        .transition ⟨stateOpen, stateHalfOpen⟩ 2000000000, .transition ⟨stateClosed, stateOpen⟩ 1,
        .applied stateClosed true, .admitted false]⟩ := rfl
  refine ⟨_, hrun, rfl, by decide, ?_⟩
  refine (before_admits_iff_probes_left _ (System.Reachable.run (.init rfl) hrun) rfl
    (.inl (by decide))).mpr ?_
  decide

/-! ## Running probes -/

def Sys.probes (s : Sys) : Nat := s.flight.countP Admission.wasProbe

theorem Sys.probes_admit (s : Sys) (b : Breaker) (callback : Option Change) (n : Nat)
    (log : List Entry) :
    Sys.probes ⟨b, Call.keep ⟨callback, some ⟨true, n⟩⟩ ++ s.calls, log⟩ = s.probes + 1 := by
  simp [Sys.probes, Sys.flight]

/-- The breaker is promoted to HalfOpen only when no probe is in flight. -/
def PromotedWithoutProbes (cfg : Settings) (s : Sys) (e : Event) : Prop :=
  e.op = .before ∨ e.op = .state → s.breaker.Due cfg e.now → s.probes = 0

/-- The number of running probes is bounded, in HalfOpen by the slots that are taken. -/
structure ProbesBounded (cfg : Settings) (s : Sys) : Prop where
  le_max : (s.probes : Int) ≤ cfg.halfOpenMax
  le_count : s.breaker.state = stateHalfOpen → (s.probes : Int) ≤ s.breaker.halfOpenCount

namespace ProbesBounded

variable {cfg : Settings} {s s' : Sys} {e : Event}

theorem of_probes_le (h : ProbesBounded cfg s) (hle : s'.probes ≤ s.probes)
    (hcount : s'.breaker.state = stateHalfOpen →
      (s'.probes : Int) ≤ s'.breaker.halfOpenCount) : ProbesBounded cfg s' where
  le_max := by
    have := h.le_max
    omega
  le_count := hcount

theorem of_same_breaker (h : ProbesBounded cfg s) (hle : s'.probes ≤ s.probes)
    (hb : s'.breaker = s.breaker) : ProbesBounded cfg s' := by
  refine h.of_probes_le hle fun hhalf => ?_
  rw [hb] at hhalf ⊢
  have hcount := h.le_count hhalf
  omega

theorem step (h : ProbesBounded cfg s) (hok : PromotedWithoutProbes cfg s e)
    (hstep : Step cfg s e s') : ProbesBounded cfg s' := by
  cases hstep with
  | @reject now b change err hb =>
    obtain ⟨rfl, rfl⟩ := Breaker.before_error cfg now s.breaker hb
    exact h.of_same_breaker (by simp [Sys.probes, Sys.flight]) rfl
  | @accept now b change wasProbe hb =>
    rcases Breaker.before_cases cfg now s.breaker with
      ⟨hs, heq⟩ | ⟨-, -, heq⟩ | ⟨hdue, heq⟩ | ⟨-, -, heq⟩ | ⟨hs, hfree, heq⟩
    all_goals cases heq.symm.trans hb
    · exact h.of_probes_le (by simp [Sys.probes, Sys.flight]) (by simp [hs])
    -- promotion: by assumption the new probe is the only one
    · have hnone := hok (.inl rfl) hdue
      have hmax := cfg.halfOpenMax_pos
      constructor
      · rw [Sys.probes_admit, hnone]
        exact hmax
      · intro _
        rw [Sys.probes_admit, hnone]
        exact Int.le_refl 1
    -- a further probe takes a free slot, so both sides grow by one
    · have hcount := h.le_count hs
      constructor
      · rw [Sys.probes_admit]
        omega
      · intro _
        rw [Sys.probes_admit]
        exact Int.add_le_add_right hcount 1
  | @after now _ err adm b _ _ _ hcalls _ hb =>
    refine h.of_probes_le ?_ fun hhalf => ?_
    · simp [Sys.probes, Sys.flight, hcalls, List.countP_cons]
    · have := after_ne_halfOpen cfg now s.breaker adm.wasProbe err
      rw [hb] at this
      exact absurd hhalf this
  | panic hcalls =>
    -- the panicking probe is gone from the calls in flight; its slot stays taken
    refine h.of_same_breaker ?_ rfl
    simp [Sys.probes, Sys.flight, hcalls, List.countP_cons]
  | @state now b change hb =>
    rcases Breaker.stateLocked_cases cfg now s.breaker with ⟨hdue, heq⟩ | ⟨-, heq⟩
    all_goals cases heq.symm.trans hb
    · have hnone := hok (.inr rfl) hdue
      simp only [Sys.probes, Sys.flight] at hnone
      exact h.of_probes_le (by simp [Sys.probes, Sys.flight])
        (by simp [Sys.probes, Sys.flight, hnone])
    · exact h.of_same_breaker (by simp [Sys.probes, Sys.flight]) rfl
  | reset hb =>
    cases hb
    exact h.of_probes_le (by simp [Sys.probes, Sys.flight]) (by simp)
  | @callback _ _ _ adm _ _ hcalls _ =>
    refine h.of_same_breaker ?_ rfl
    cases adm <;> simp [Sys.probes, Sys.flight, hcalls]

theorem of_reachableBy {c : BreakerConfig}
    (hs : (breakerSystem c).ReachableBy (PromotedWithoutProbes c.withDefaults) s) :
    ProbesBounded c.withDefaults s := by
  refine System.ReachableBy.invariant ?_ ?_ hs
  · rintro s rfl
    have := c.withDefaults.halfOpenMax_pos
    exact ⟨by simp [Sys.probes, Sys.flight, initial]; omega, by simp [initial, newBreaker]⟩
  · intro s e s' _ h hok hse
    exact h.step hok (Step.of_system hse)

end ProbesBounded

theorem exists_accept_probe {c : BreakerConfig} {now : Int} {b : Breaker} {change : Option Change}
    (hb : s.breaker.before c.withDefaults now = (b, change, .ok true)) :
    ∃ s', (breakerSystem c).step s ⟨.before, now⟩ = some s' ∧ s'.breaker = b ∧
      s'.probes = s.probes + 1 := by
  have hstep : (breakerSystem c).step s ⟨.before, now⟩ = some
      { breaker := b
        calls := Call.keep ⟨owedCallback c.withDefaults change,
          some ⟨true, period (record s.breaker.state b.state now s.log)⟩⟩ ++ s.calls
        log := .admitted true :: record s.breaker.state b.state now s.log } := by
    simp only [breakerSystem, step, hb]
  exact ⟨_, hstep, rfl, Sys.probes_admit s b _ _ _⟩

theorem fill_slots (c : BreakerConfig) (now : Int) (n : Nat) (s : Sys)
    (hhalf : s.breaker.state = stateHalfOpen)
    (hfree : s.breaker.halfOpenCount + n ≤ c.withDefaults.halfOpenMax) :
    ∃ t, (breakerSystem c).run s (List.replicate n ⟨.before, now⟩) = some t ∧
      t.probes = s.probes + n := by
  induction n generalizing s with
  | zero => exact ⟨s, rfl, rfl⟩
  | succ n ih =>
    have hbefore : s.breaker.before c.withDefaults now =
        ({ s.breaker with halfOpenCount := s.breaker.halfOpenCount + 1 }, none, .ok true) := by
      have hdue : ¬ s.breaker.Due c.withDefaults now := fun h => by simp [h.1] at hhalf
      have hlt : ¬ c.withDefaults.halfOpenMax ≤ s.breaker.halfOpenCount := by omega
      simp [Breaker.before, Breaker.stateLocked_of_not_due hdue, hhalf, hlt]
    obtain ⟨s', hs', hb', hprobes⟩ := exists_accept_probe hbefore
    obtain ⟨t, ht, htprobes⟩ := ih s' (by rw [hb']; exact hhalf) (by rw [hb']; simp only; omega)
    refine ⟨t, (breakerSystem c).run_cons_eq_some.mpr ⟨s', hs', ht⟩, ?_⟩
    omega

/-- **Running probes, exactly**: as long as the breaker is promoted only when no probe is in
    flight, at most `HalfOpenMax` probes run at any time; and whenever it is about to be
    promoted with a probe still in flight, some continuation runs more than that. -/
theorem probes_bounded_while_promoted_without_probes (c : BreakerConfig) :
    (∀ s, (breakerSystem c).ReachableBy (PromotedWithoutProbes c.withDefaults) s →
      (s.probes : Int) ≤ c.withDefaults.halfOpenMax) ∧
    (∀ s now, (breakerSystem c).Reachable s → s.breaker.Due c.withDefaults now →
      s.probes ≠ 0 → ∃ es t, (breakerSystem c).run s es = some t ∧
        c.withDefaults.halfOpenMax < t.probes) := by
  refine ⟨fun s hs => (ProbesBounded.of_reachableBy hs).le_max, fun s now _ hdue hne => ?_⟩
  have hmax := c.withDefaults.halfOpenMax_pos
  -- the promoting call takes the first slot, then the remaining slots are filled
  have hpromote : s.breaker.before c.withDefaults now =
      ({ s.breaker with state := stateHalfOpen, halfOpenCount := 1 },
        some ⟨stateOpen, stateHalfOpen⟩, .ok true) := by
    have hlt : ¬ c.withDefaults.halfOpenMax ≤ 0 := by omega
    simp [Breaker.before, Breaker.stateLocked_of_due hdue, hlt]
  obtain ⟨s', hs', hb', hprobes⟩ := exists_accept_probe hpromote
  obtain ⟨t, ht, htprobes⟩ :=
    fill_slots c now (c.withDefaults.halfOpenMax - 1).toNat s' (by rw [hb'])
      (by rw [hb']; simp only; omega)
  refine ⟨_, t, (breakerSystem c).run_cons_eq_some.mpr ⟨s', hs', ht⟩, ?_⟩
  omega

/-- A call admitted in Closed reopens the breaker while a probe is running; after the next
    timeout a second probe runs beside the first. -/
theorem two_probes_with_one_slot :
    ¬ ∀ s, (breakerSystem ⟨1, Duration.second, 1, false⟩).Reachable s →
      (s.probes : Int) ≤
        (BreakerConfig.withDefaults ⟨1, Duration.second, 1, false⟩).halfOpenMax := by
  intro h
  have hrun : ((breakerSystem ⟨1, Duration.second, 1, false⟩).run initial
      [⟨.before, 0⟩, ⟨.before, 0⟩, ⟨.after 0 (some "refused"), 1⟩, ⟨.before, 2000000000⟩,
        ⟨.after 1 (some "refused"), 2000000001⟩, ⟨.before, 4000000000⟩]).map Sys.probes =
      some 2 := rfl
  obtain ⟨s, hs, hprobes⟩ := Option.map_eq_some_iff.mp hrun
  have hle := h s (System.Reachable.run (.init rfl) hs)
  rw [hprobes] at hle
  exact absurd hle (by decide)

end ServiceRuntime.Resilience
