import ServiceRuntime.Health.Checker

/-!
# One Cached Check at a Time

Calls of `CachedCheck` that miss the cache run their checks under `cacheMu`. The invariant counts
them: as many calls are between `Lock` and `Unlock` as the mutex says, one or none.
-/

namespace ServiceRuntime.Health

open Transition

/-- The phases between `cacheMu.Lock()` and `cacheMu.Unlock()`; a plain `Check` goes through two
    of them without the mutex. -/
@[simp] def Phase.isInside : Phase → Bool
  | .locked => true
  | .copying => true
  | .checking _ => true
  | .storing _ => true
  | .releasing _ => true
  | _ => false

/-- The phases that a call with `ttl <= 0` goes through. -/
@[simp] def Phase.isPlain : Phase → Bool
  | .entered => true
  | .copying => true
  | .checking _ => true
  | .returned _ => true
  | _ => false

@[simp] def Call.holds (call : Call) : Bool := decide (0 < call.ttl.ns) && call.phase.isInside

/-- The mutex is held by as many calls as it says, and a plain `Check` does not touch it. -/
structure Exclusive (s : Sys) : Prop where
  count : s.calls.countP Call.holds = s.cacheMu.toNat
  plain : ∀ call ∈ s.calls, call.ttl.ns ≤ 0 → call.phase.isPlain = true

section

variable {s s' : Sys} {i : Nat} {call : Call}

theorem Exclusive.move (h : Exclusive s) (hcall : s.calls[i]? = some call) {phase : Phase}
    {checker : Checker} {cacheMu : Bool}
    (hcount : { call with phase := phase }.holds.toNat + s.cacheMu.toNat =
      call.holds.toNat + cacheMu.toNat)
    (hplain : call.ttl.ns ≤ 0 → phase.isPlain = true) :
    Exclusive (Sys.move ⟨checker, cacheMu, s.calls⟩ i call phase) := by
  obtain ⟨l₁, l₂, hcalls, -, hset⟩ := set_split hcall
  have hbefore := h.count
  refine ⟨?_, ?_⟩
  · simp only [Sys.move, hset]
    rw [hcalls] at hbefore
    have htoNat : ∀ b : Bool, (if b then 1 else 0) = b.toNat := by decide
    simp only [List.countP_append, List.countP_cons, htoNat] at hbefore ⊢
    omega
  · intro c hc
    rcases List.mem_or_eq_of_mem_set hc with hc | rfl
    · exact h.plain c hc
    · exact hplain

theorem Exclusive.ttl_pos (h : Exclusive s) (hcall : s.calls[i]? = some call)
    (hphase : call.phase.isPlain = false) : 0 < call.ttl.ns := by
  by_contra hle
  exact Bool.false_ne_true
    (hphase.symm.trans (h.plain call (List.mem_of_getElem? hcall) (not_lt.mp hle)))

theorem Exclusive.held (h : Exclusive s) (hcall : s.calls[i]? = some call)
    (hholds : call.holds = true) : s.cacheMu = true := by
  have hpos : 0 < s.calls.countP Call.holds :=
    List.countP_pos_iff.mpr ⟨call, List.mem_of_getElem? hcall, hholds⟩
  rw [h.count] at hpos
  cases hmu : s.cacheMu with
  | true => rfl
  | false => simp [hmu] at hpos

theorem Exclusive.act (h : Exclusive s) (hcall : s.calls[i]? = some call) {action : Action}
    (hact : act s i call action = some s') : Exclusive s' := by
  unfold Health.act at hact
  -- the pairs of a phase and an action, in the order of `act`
  split at hact
  · rename_i hphase
    split at hact
    · rename_i httl
      cases hact
      exact h.move hcall (by simp [httl.not_gt]) fun _ => rfl
    · rename_i httl
      split at hact
      · cases hact
        exact h.move hcall (by simp [hphase]) fun _ => rfl
      · cases hact
        exact h.move hcall (by simp [hphase]) fun hle => absurd hle httl
  · rename_i hphase
    have httl := h.ttl_pos hcall (by simp [hphase])
    split at hact
    · cases hact
    · rename_i hfree
      cases hact
      exact h.move hcall (by simp [hphase, httl, hfree]) fun hle => absurd httl hle.not_gt
  · rename_i hphase
    have httl := h.ttl_pos hcall (by simp [hphase])
    split at hact
    · cases hact
      exact h.move hcall (by simp [hphase]) fun hle => absurd httl hle.not_gt
    · cases hact
      exact h.move hcall (by simp [hphase]) fun _ => rfl
  · rename_i hphase
    cases hact
    exact h.move hcall (by simp [hphase]) fun _ => rfl
  · rename_i hphase
    split at hact
    · rename_i httl
      cases hact
      exact h.move hcall (by simp [httl.not_gt]) fun _ => rfl
    · rename_i httl
      cases hact
      exact h.move hcall (by simp [hphase]) fun hle => absurd hle httl
  · rename_i hphase
    have httl := h.ttl_pos hcall (by simp [hphase])
    cases hact
    exact h.move hcall (by simp [hphase]) fun hle => absurd httl hle.not_gt
  · rename_i hphase
    have httl := h.ttl_pos hcall (by simp [hphase])
    -- the call that stores its report gives the mutex back
    have hheld := h.held hcall (by simp [hphase, httl])
    cases hact
    exact h.move hcall (by simp [hphase, httl, hheld]) fun _ => rfl
  · cases hact

theorem exclusive_of_reachable (h : system.Reachable s) : Exclusive s := by
  refine h.invariant (P := Exclusive) ?_ ?_
  · rintro s rfl
    exact ⟨rfl, fun call hcall => by cases hcall⟩
  · intro s e s' hs hstep
    cases e with
    | add name =>
      cases hstep
      exact ⟨hs.count, hs.plain⟩
    | call ttl =>
      cases hstep
      refine ⟨by simpa using hs.count, ?_⟩
      intro c hc hle
      rcases List.mem_append.mp hc with hc | hc
      · exact hs.plain c hc hle
      · rw [List.mem_singleton.mp hc]
        rfl
    | act i action =>
      obtain ⟨call, hcall, hact⟩ := Option.bind_eq_some_iff.mp hstep
      exact hs.act hcall hact

/-- **One cached check at a time.** However calls of `CachedCheck` and `Add` interleave, at most one
    call with a time to live is between its two uses of `cacheMu`, and the mutex is locked exactly
    while there is one; only that call stores a report, and a call without a time to live stays away
    from the mutex. -/
theorem cachedCheck_one_at_a_time (h : system.Reachable s) :
    s.calls.countP Call.holds ≤ 1 ∧
    (s.cacheMu = true ↔ ∃ call ∈ s.calls, call.holds = true) ∧
    (∀ call ∈ s.calls, ∀ report, call.phase = .storing report → call.holds = true) ∧
    ∀ call ∈ s.calls, call.ttl.ns ≤ 0 → call.phase.isPlain = true := by
  have hs := exclusive_of_reachable h
  refine ⟨hs.count ▸ Bool.toNat_le _, ?_, ?_, hs.plain⟩
  · rw [← List.countP_pos_iff, hs.count]
    cases s.cacheMu <;> simp
  · intro call hmem report hphase
    obtain ⟨i, hcall⟩ := List.mem_iff_getElem?.mp hmem
    have httl := hs.ttl_pos hcall (by simp [hphase])
    simp [hphase, httl]

/-- Two calls, of which one holds the mutex and the other waits. -/
theorem cachedCheck_one_at_a_time_of_two :
    ∃ s, system.Reachable s ∧ s.cacheMu = true ∧ s.calls.map Call.phase = [.locked, .waiting] ∧
      s.calls.countP Call.holds ≤ 1 := by
  have hrun : system.run ⟨.new, false, []⟩
      [.call .second, .call .second, .act 0 (.look 0), .act 1 (.look 0), .act 0 .lock] =
      some ⟨.new, true, [⟨.second, 0, .locked⟩, ⟨.second, 0, .waiting⟩]⟩ := rfl
  have hreach : system.Reachable _ := .run (.init rfl) hrun
  exact ⟨_, hreach, rfl, rfl, (cachedCheck_one_at_a_time hreach).1⟩

end

end ServiceRuntime.Health
