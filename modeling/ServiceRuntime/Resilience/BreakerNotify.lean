import ServiceRuntime.Resilience.BreakerInvariant

/-!
# State-Change Notifications

A critical section only computes the transition it made; `OnStateChange` is invoked after
the mutex is released. So every transition is reported once and truthfully, but two
goroutines can report in the other order than they changed the state.
-/

namespace ServiceRuntime.Resilience

open BreakerState History
open Transition GoTime

/-- The `OnStateChange` invocations that goroutines still owe. -/
def Sys.owed (s : Sys) : List Change := s.calls.filterMap Call.callback

@[simp] theorem Call.filterMap_callback_keep (call : Call) :
    call.keep.filterMap Call.callback = call.callback.toList := by
  obtain ⟨callback, admitted⟩ := call
  cases callback <;> cases admitted <;> rfl

/-! ## One step -/

/-- What a step does to the transitions made, reported and owed. Either it makes the transition
    `change` (if any) and leaves a goroutine to report it, or it reports one that is owed. -/
theorem Step.notify_cases {cfg : Settings} {s s' : Sys} {e : Event} (hstep : Step cfg s e s')
    (hcb : cfg.onStateChange = true) :
    (∃ o₁ o₂, s.owed = o₁ ++ o₂ ∧
      s'.owed = o₁ ++ (changed s.breaker.state s'.breaker.state).toList ++ o₂ ∧
      transitions s'.log =
        (changed s.breaker.state s'.breaker.state).toList ++ transitions s.log ∧
      delivered s'.log = delivered s.log) ∨
    ∃ o₁ change o₂, s.owed = o₁ ++ change :: o₂ ∧ s'.owed = o₁ ++ o₂ ∧
      transitions s'.log = transitions s.log ∧ delivered s'.log = change :: delivered s.log := by
  cases hstep with
  | reject hb =>
    -- a change of state is reported by the call that made it, which comes first in the pool
    obtain rfl := Breaker.before_change hb
    exact .inl ⟨[], s.owed, rfl, by simp [Sys.owed, owedCallback, hcb], by simp, by simp⟩
  | accept hb =>
    obtain rfl := Breaker.before_change hb
    exact .inl ⟨[], s.owed, rfl, by simp [Sys.owed, owedCallback, hcb], by simp, by simp⟩
  | @after _ _ _ _ _ _ l₁ l₂ hcalls _ hb =>
    -- here the call keeps its place in the pool
    obtain rfl := Breaker.after_change hb
    refine .inl ⟨l₁.filterMap Call.callback, l₂.filterMap Call.callback,
      by simp [Sys.owed, hcalls], by simp [Sys.owed, owedCallback, hcb], ?_, ?_⟩
    · rw [transitions_record, transitions_cons, transition?_outcome]
      rfl
    · rw [delivered_record, delivered_cons, notified?_outcome]
      rfl
  | panic hcalls => exact .inl ⟨[], s.owed, rfl, by simp [Sys.owed, hcalls], by simp, by simp⟩
  | state hb =>
    obtain rfl := Breaker.stateLocked_change hb
    exact .inl ⟨[], s.owed, rfl, by simp [Sys.owed, owedCallback, hcb], by simp, by simp⟩
  | reset hb =>
    obtain rfl := Breaker.reset_change hb
    exact .inl ⟨[], s.owed, rfl, by simp [Sys.owed, owedCallback, hcb], by simp, by simp⟩
  | @callback _ _ change _ l₁ l₂ hcalls _ =>
    exact .inr ⟨l₁.filterMap Call.callback, change, l₂.filterMap Call.callback,
      by simp [Sys.owed, hcalls], by simp [Sys.owed], by simp, by simp⟩

/-! ## Exactly once, truthfully -/

/-- **No transition is lost, invented or reported twice**: the transitions made are the ones
    reported and the ones still owed. -/
theorem transitions_perm_delivered_owed {c : BreakerConfig} (hcb : c.onStateChange = true)
    {s : Sys} (hs : (breakerSystem c).Reachable s) :
    (transitions s.log).Perm (delivered s.log ++ s.owed) := by
  refine System.Reachable.invariant
    (P := fun s => (transitions s.log).Perm (delivered s.log ++ s.owed)) ?_ ?_ hs
  · rintro s rfl
    exact .refl _
  · intro s e s' hperm hse
    -- where in the pool a report is owed does not matter, so count each change
    rw [List.perm_iff_count] at hperm ⊢
    intro a
    have hcount := hperm a
    rcases (Step.of_system hse).notify_cases hcb with
      ⟨o₁, o₂, howed, howed', htrans, hdeliv⟩ | ⟨o₁, change, o₂, howed, howed', htrans, hdeliv⟩
    · rw [howed] at hcount
      rw [howed', htrans, hdeliv]
      simp only [List.count_append] at hcount ⊢
      omega
    · rw [howed] at hcount
      rw [howed', htrans, hdeliv]
      simp only [List.count_append, List.count_cons] at hcount ⊢
      omega

/-! ## Order of delivery -/

/-- The step changes the state only if no earlier change is still to be reported. -/
def ReportedFirst (c : BreakerConfig) (s : Sys) (e : Event) : Prop :=
  ∀ s', (breakerSystem c).step s e = some s' → s.breaker.state ≠ s'.breaker.state → s.owed = []

/-- In such runs at most one report is owed, the one of the latest transition. -/
structure InOrder (s : Sys) : Prop where
  transitions_eq : transitions s.log = s.owed ++ delivered s.log
  owed_le_one : s.owed.length ≤ 1

theorem InOrder.of_reachableBy {c : BreakerConfig} (hcb : c.onStateChange = true) {s : Sys}
    (hs : (breakerSystem c).ReachableBy (ReportedFirst c) s) : InOrder s := by
  refine System.ReachableBy.invariant ?_ ?_ hs
  · rintro s rfl
    exact ⟨rfl, by simp [Sys.owed, initial]⟩
  · intro s e s' _ h hok hse
    rcases (Step.of_system hse).notify_cases hcb with
      ⟨o₁, o₂, howed, howed', htrans, hdeliv⟩ | ⟨o₁, change, o₂, howed, howed', htrans, hdeliv⟩
    · by_cases hne : s.breaker.state = s'.breaker.state
      · rw [hne, changed_self] at howed' htrans
        have hsame : s'.owed = s.owed := by simp [howed, howed']
        exact ⟨by rw [htrans, hdeliv, hsame]; simpa using h.transitions_eq, hsame ▸ h.owed_le_one⟩
      -- a transition: by assumption nothing was owed, so its report is the only one
      · have hnil := hok s' hse hne
        have hold := h.transitions_eq
        rw [hnil] at howed hold
        obtain ⟨rfl, rfl⟩ := List.append_eq_nil_iff.mp howed.symm
        refine ⟨by rw [htrans, hdeliv, howed', hold]; simp, ?_⟩
        rw [howed']
        simp [changed, hne]
    -- the one owed report is delivered
    · have hlen := h.owed_le_one
      have hold := h.transitions_eq
      rw [howed] at hlen hold
      simp only [List.length_append, List.length_cons] at hlen
      obtain rfl : o₁ = [] := List.length_eq_zero_iff.mp (by omega)
      obtain rfl : o₂ = [] := List.length_eq_zero_iff.mp (by omega)
      exact ⟨by rw [htrans, hdeliv, howed', hold]; simp, by simp [howed']⟩

/-- **Notifications**: every transition is reported exactly once with its true states. When no
    call is in progress the breaker is in the state that the latest transition led to, and
    that transition has been reported. It is the latest report too, provided that
    no transition was made while the report of an earlier one was outstanding. -/
theorem every_transition_reported_once (c : BreakerConfig) (hcb : c.onStateChange = true) :
    (∀ s, (breakerSystem c).Reachable s →
      (transitions s.log).Perm (delivered s.log ++ s.owed)) ∧
    (∀ s, (breakerSystem c).Reachable s → s.calls = [] →
      (transitions s.log).Perm (delivered s.log) ∧ s.breaker.state = current s.log) ∧
    (∀ s, (breakerSystem c).ReachableBy (ReportedFirst c) s → s.calls = [] →
      s.breaker.state = lastReported s.log) := by
  refine ⟨fun s hs => transitions_perm_delivered_owed hcb hs, fun s hs hidle => ⟨?_, ?_⟩,
    fun s hs hidle => ?_⟩
  · simpa [Sys.owed, hidle] using transitions_perm_delivered_owed hcb hs
  · exact (implements_of_reachable hs).state_eq
  · have horder := (InOrder.of_reachableBy hcb hs).transitions_eq
    simp only [Sys.owed, hidle, List.filterMap_nil, List.nil_append] at horder
    rw [(implements_of_reachable hs.reachable).state_eq, current, lastReported, horder]

theorem trip_reported_once :
    ∃ s, (breakerSystem ⟨1, Duration.second, 1, true⟩).run initial
        [⟨.before, 0⟩, ⟨.after 0 (some "refused"), 1⟩, ⟨.callback 0, 2⟩] = some s ∧
      s.calls = [] ∧ (transitions s.log).Perm (delivered s.log) ∧
      s.breaker.state = current s.log := by
  have hrun : (breakerSystem ⟨1, Duration.second, 1, true⟩).run initial
      [⟨.before, 0⟩, ⟨.after 0 (some "refused"), 1⟩, ⟨.callback 0, 2⟩] =
      some ⟨⟨stateOpen, 1, 1, 0⟩, [], [.notified ⟨stateClosed, stateOpen⟩,
        .transition ⟨stateClosed, stateOpen⟩ 1, .applied stateClosed true,
        .admitted false]⟩ := rfl
  obtain ⟨-, hidle, -⟩ := every_transition_reported_once ⟨1, Duration.second, 1, true⟩ rfl
  exact ⟨_, hrun, rfl, hidle _ (System.Reachable.run (.init rfl) hrun) rfl⟩

/-- A trip and a `Reset` race: the trip comes first, its report comes last. -/
theorem last_report_can_be_stale :
    ¬ ∀ s, (breakerSystem ⟨1, Duration.second, 1, true⟩).Reachable s → s.calls = [] →
      s.breaker.state = lastReported s.log := by
  intro h
  have hrun : (breakerSystem ⟨1, Duration.second, 1, true⟩).run initial
      [⟨.before, 0⟩, ⟨.after 0 (some "refused"), 1⟩, ⟨.reset, 2⟩, ⟨.callback 0, 3⟩,
        ⟨.callback 0, 4⟩] =
      some ⟨⟨stateClosed, 0, 1, 0⟩, [], [.notified ⟨stateClosed, stateOpen⟩,
        .notified ⟨stateOpen, stateClosed⟩, .transition ⟨stateOpen, stateClosed⟩ 2, .reset,
        .transition ⟨stateClosed, stateOpen⟩ 1, .applied stateClosed true,
        .admitted false]⟩ := rfl
  have hstale := h _ (System.Reachable.run (.init rfl) hrun) rfl
  cases hstale

end ServiceRuntime.Resilience
