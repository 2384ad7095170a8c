import ServiceRuntime.Health.Checker

/-!
# Cached Reports and New Checks

`Add` clears the cache, but a `CachedCheck` in progress may have copied the checks before and
stores its report afterwards. Nothing compares the two, so the cleared cache comes back without
the new check. `StoresFresh` is the condition that excludes this: no check was added between
the copy and the store.
-/

namespace ServiceRuntime.Health

open GoTime Transition

/-! ## The property and the condition -/

/-- The report has a status for each of the first `n` checks. -/
def Covers (checks : List String) (n : Nat) (report : Report) : Prop :=
  ∀ i name, i < n → checks[i]? = some name → ∃ status, report.checks[i]? = some status ∧
    status.name = name

/-- Every report that a `CachedCheck` with `ttl > 0` has returned has a status for each check
    that was added before the call started. -/
def SeesAdded (s : Sys) : Prop :=
  ∀ call ∈ s.calls, 0 < call.ttl.ns → ∀ report, call.phase = .returned report →
    Covers s.checker.checks call.added report

def Phase.stores : Phase → Option Report
  | .storing report => some report
  | _ => none

/-- A report that is stored, and will be used, has a status for as many checks as there are now:
    no check was added since the checks were copied. -/
def StoresFresh (s : Sys) : Event → Prop
  | .act i (.store now) =>
    ∀ call ∈ s.calls[i]?, ∀ report ∈ call.phase.stores,
      report.checks.length = s.checker.checks.length ∨ isZero (GoTime.add now call.ttl)
  | _ => True

instance (s : Sys) (e : Event) : Decidable (StoresFresh s e) := by
  unfold StoresFresh
  split
  · infer_instance
  · infer_instance

/-! ## Every report was made from checks that were added -/

/-- The names that a phase carries along, if any. -/
def Phase.names : Phase → Option (List String)
  | .checking snapshot => some snapshot
  | .storing report => some report.names
  | .releasing report => some report.names
  | .returned report => some report.names
  | _ => none

/-- The cached report and those of the calls have the names of the first checks. -/
structure Prefixes (s : Sys) : Prop where
  cached : s.checker.cachedReport.names <+: s.checker.checks
  calls : ∀ call : Call, call ∈ s.calls → ∀ names ∈ call.phase.names, names <+: s.checker.checks

theorem Quiet.names {phase phase' : Phase} (h : Quiet phase phase') : phase'.names = none := by
  cases h <;> rfl

variable {s s' : Sys} {e : Event} {report : Report}

theorem mem_move {i : Nat} {call c : Call} {phase : Phase} (h : c ∈ (s.move i call phase).calls) :
    c ∈ s.calls ∨ c = { call with phase := phase } :=
  List.mem_or_eq_of_mem_set h

/-- The names that a call carries after a step, if it did not carry them before: those of the
    cached report, or the checks copied now. -/
inductive Carried (s : Sys) (call : Call) (names : List String) : Prop where
  | before (h : names ∈ call.phase.names)
  | cached (hvalid : isZero s.checker.cacheUntil = false)
      (h : names = s.checker.cachedReport.names)
  | copied (h : names = s.checker.checks)

theorem carried_of_move {t : Sys} {i : Nat} {call c : Call} {phase : Phase}
    (hcall : s.calls[i]? = some call) (ht : t.calls = s.calls)
    (hc : c ∈ (t.move i call phase).calls) (hnames : ∀ names ∈ phase.names, Carried s call names) :
    ∃ call ∈ s.calls, c.added = call.added ∧ ∀ names ∈ c.phase.names, Carried s call names := by
  rcases mem_move hc with hc | rfl
  · exact ⟨c, ht ▸ hc, rfl, fun names h => .before h⟩
  · exact ⟨call, List.mem_of_getElem? hcall, rfl, hnames⟩

/-- **One step of the calls**: a call is new, unchanged, or carries names as `Carried` says. -/
theorem Step.calls (hstep : Step s e s') {c : Call} (hc : c ∈ s'.calls) :
    (c.phase.names = none ∧ c.added = s.checker.checks.length ∧ s'.checker = s.checker) ∨
      ∃ call ∈ s.calls, c.added = call.added ∧
        ∀ names ∈ c.phase.names, Carried s call names := by
  cases hstep with
  | add => exact .inr ⟨c, hc, rfl, fun names h => .before h⟩
  | call =>
    rcases List.mem_append.mp hc with hc | hc
    · exact .inr ⟨c, hc, rfl, fun names h => .before h⟩
    · obtain rfl := List.mem_singleton.mp hc
      exact .inl ⟨rfl, rfl, rfl⟩
  | quiet hcall hmove =>
    refine .inr (carried_of_move hcall rfl hc fun names h => ?_)
    rw [hmove.names] at h
    cases h
  | hit hcall hcached hphase =>
    obtain ⟨hvalid, -, rfl⟩ := Checker.cached_eq_some_iff.mp hcached
    refine .inr (carried_of_move hcall rfl hc fun names h => .cached hvalid ?_)
    rcases hphase with rfl | rfl
    · cases h
      rfl
    · cases h
      rfl
  | copy hcall =>
    refine .inr (carried_of_move hcall rfl hc fun names h => .copied ?_)
    cases h
    rfl
  | finish hcall hchecking hphase =>
    -- a report has one result for each check of the snapshot
    refine .inr (carried_of_move hcall rfl hc fun names h => .before ?_)
    rw [hchecking]
    rcases hphase with rfl | rfl
    · cases h
      rw [reportOf_names]
      rfl
    · cases h
      rw [reportOf_names]
      rfl
  | store hcall hphase | unlock hcall hphase =>
    refine .inr (carried_of_move hcall rfl hc fun names h => .before ?_)
    rw [hphase]
    cases h
    rfl

/-- **One step of the checker**: it is unchanged, a check is added and the cache cleared, or the
    report of a call is stored. -/
theorem Step.checker (hstep : Step s e s') :
    s'.checker = s.checker ∨ (∃ name, s'.checker = s.checker.add name) ∨
      ∃ i call report now, e = .act i (.store now) ∧ s.calls[i]? = some call ∧
        call.phase = .storing report ∧ s'.checker = s.checker.store report now call.ttl := by
  cases hstep with
  | @add name => exact .inr (.inl ⟨name, rfl⟩)
  | @store i call report now hcall hphase =>
    exact .inr (.inr ⟨i, call, report, now, rfl, hcall, hphase, rfl⟩)
  | _ => exact .inl rfl

theorem Step.checks_prefix (hstep : Step s e s') : s.checker.checks <+: s'.checker.checks := by
  rcases hstep.checker with h | ⟨name, h⟩ | ⟨i, call, report, now, -, -, -, h⟩
  · rw [h]
  · rw [h]
    exact List.prefix_append _ _
  · rw [h]
    exact List.prefix_refl _

theorem Step.prefixes (hstep : Step s e s') (h : Prefixes s) : Prefixes s' := by
  refine ⟨?_, fun c hc names hnames => ?_⟩
  · rcases hstep.checker with hsame | ⟨name, hadd⟩ | ⟨i, call, report, now, -, hcall, hphase, hstore⟩
    · rw [hsame]
      exact h.cached
    · rw [hadd]
      exact List.nil_prefix
    · rw [hstore]
      exact h.calls call (List.mem_of_getElem? hcall) report.names (by rw [hphase]; rfl)
  · rcases hstep.calls hc with ⟨hnone, -, -⟩ | ⟨call, hcall, -, hcarried⟩
    · rw [hnone] at hnames
      cases hnames
    · refine List.IsPrefix.trans ?_ hstep.checks_prefix
      cases hcarried names hnames with
      | before hbefore => exact h.calls call hcall names hbefore
      | cached _ heq => exact heq ▸ h.cached
      | copied heq => exact heq ▸ List.prefix_refl _

theorem prefixes_of_reachable (h : system.Reachable s) : Prefixes s := by
  refine System.Reachable.invariant (P := Prefixes) ?_
    (fun s e s' hs hstep => (Step.of_step hstep).prefixes hs) h
  rintro s rfl
  exact ⟨List.nil_prefix, fun c hc => by cases hc⟩

/-! ## No report is too short while stores are fresh -/

/-- A usable cached report has a status for every check, and a call carries names for every check
    added before it started. -/
structure Current (s : Sys) : Prop where
  cached : isZero s.checker.cacheUntil = false →
    s.checker.checks.length ≤ s.checker.cachedReport.names.length
  added : ∀ call : Call, call ∈ s.calls → call.added ≤ s.checker.checks.length
  calls : ∀ call : Call, call ∈ s.calls → ∀ names ∈ call.phase.names, call.added ≤ names.length

theorem Step.current (hstep : Step s e s') (hfresh : StoresFresh s e) (h : Current s) :
    Current s' := by
  refine ⟨?_, fun c hc => ?_, fun c hc names hnames => ?_⟩
  · rcases hstep.checker with hsame | ⟨name, hadd⟩ | ⟨i, call, report, now, rfl, hcall, hphase, hstore⟩
    · rw [hsame]
      exact h.cached
    · rw [hadd]
      -- `Add` has just invalidated the cached report
      intro hvalid
      cases hvalid
    · rw [hstore]
      intro hvalid
      rcases hfresh call hcall report (by rw [hphase]; rfl) with hlength | hzero
      · rw [Report.names, List.length_map]
        exact le_of_eq hlength.symm
      · rw [Checker.store, hzero] at hvalid
        cases hvalid
  · have hmore := hstep.checks_prefix.length_le
    rcases hstep.calls hc with ⟨-, hadded, -⟩ | ⟨call, hcall, hadded, -⟩
    · omega
    · have := h.added call hcall
      omega
  · rcases hstep.calls hc with ⟨hnone, -, -⟩ | ⟨call, hcall, hadded, hcarried⟩
    · rw [hnone] at hnames
      cases hnames
    · rw [hadded]
      have hbound := h.added call hcall
      cases hcarried names hnames with
      | before hbefore => exact h.calls call hcall names hbefore
      -- the cached report covers every check, so also those added before the call
      | cached hvalid heq => exact heq ▸ le_trans hbound (h.cached hvalid)
      | copied heq => exact heq ▸ hbound

theorem current_of_reachableBy (h : system.ReachableBy StoresFresh s) : Current s := by
  refine h.invariant ?_ fun s e s' _ hs hfresh hstep => (Step.of_step hstep).current hfresh hs
  rintro s rfl
  exact ⟨fun h => (by cases h), fun c hc => (by cases hc), fun c hc => (by cases hc)⟩

/-! ## New checks are seen -/

theorem covers_of_prefix {checks : List String} {n : Nat} (hfront : report.names <+: checks)
    (hn : n ≤ report.names.length) : Covers checks n report := by
  intro i name hi hname
  have hlt : i < report.names.length := lt_of_lt_of_le hi hn
  have hsame : report.names[i]? = some name := by
    obtain ⟨rest, rfl⟩ := hfront
    rwa [List.getElem?_append_left hlt] at hname
  rw [Report.names, List.getElem?_map] at hsame
  exact Option.map_eq_some_iff.mp hsame

theorem not_covers_of_length_lt {checks : List String} {n : Nat} (hshort : report.checks.length < n)
    (hn : n ≤ checks.length) : ¬ Covers checks n report := by
  intro hcovers
  have hlt : report.checks.length < checks.length := lt_of_lt_of_le hshort hn
  obtain ⟨status, hstatus, -⟩ :=
    hcovers report.checks.length (checks.get ⟨_, hlt⟩) hshort (List.getElem?_eq_getElem hlt)
  rw [List.getElem?_eq_none (le_refl _)] at hstatus
  cases hstatus

theorem seesAdded_of_reachableBy (h : system.ReachableBy StoresFresh s) : SeesAdded s := by
  intro call hcall _ report hphase
  have hnames : report.names ∈ call.phase.names := by
    rw [hphase]
    rfl
  exact covers_of_prefix ((prefixes_of_reachable h.reachable).calls call hcall _ hnames)
    ((current_of_reachableBy h).calls call hcall _ hnames)

theorem not_storesFresh (h : ¬ StoresFresh s e) :
    ∃ i call report now, e = .act i (.store now) ∧ s.calls[i]? = some call ∧
      call.phase = .storing report ∧ report.checks.length ≠ s.checker.checks.length ∧
      isZero (GoTime.add now call.ttl) = false := by
  unfold StoresFresh at h
  split at h
  · rename_i i now
    push Not at h
    obtain ⟨call, hcall, report, hreport, hlength, hzero⟩ := h
    refine ⟨i, call, report, now, rfl, hcall, ?_, hlength, Bool.eq_false_iff.mpr hzero⟩
    cases hphase : call.phase with
    | storing report' =>
      rw [hphase] at hreport
      cases hreport
      rfl
    | _ =>
      rw [hphase] at hreport
      cases hreport
  · exact absurd trivial h

theorem run_call_hit {now : Int} (hcached : s.checker.cached now = some report) :
    system.run s [.call .second, .act s.calls.length (.look now)] =
      some { s with calls := s.calls ++ [⟨.second, s.checker.checks.length, .returned report⟩] } := by
  have hsecond : ¬ Duration.second.ns ≤ 0 := by decide
  refine system.run_cons_eq_some.mpr ⟨_, rfl, ?_⟩
  refine system.run_cons_eq_some.mpr ⟨_, ?_, rfl⟩
  simp only [system, step, List.getElem?_concat_length, Option.bind_some, act, if_neg hsecond,
    hcached, Sys.move, List.set_append_right _ _ (le_refl _), Nat.sub_self, List.set_cons_zero]

/-- After a store that is not fresh, the next `CachedCheck` can return a report that misses a
    check. -/
theorem exists_run_not_seesAdded (hs : system.Reachable s) (hstep : system.step s e = some s')
    (hstale : ¬ StoresFresh s e) : ∃ events t, system.run s' events = some t ∧ ¬ SeesAdded t := by
  obtain ⟨i, call, report, now, rfl, hcall, hphase, hlength, hzero⟩ := not_storesFresh hstale
  have hshort : report.checks.length < s.checker.checks.length := by
    have hle := ((prefixes_of_reachable hs).calls call (List.mem_of_getElem? hcall) report.names
      (by rw [hphase]; rfl)).length_le
    rw [Report.names, List.length_map] at hle
    exact lt_of_le_of_ne hle hlength
  have hs' : s' = { s with checker := s.checker.store report now call.ttl }.move i call
      (.releasing report) := by
    have : step s (.act i (.store now)) = some s' := hstep
    simp only [step, hcall, Option.bind_some, act, hphase, Option.some.injEq] at this
    exact this.symm
  -- at the very end of its lifetime the report is still served
  have hcached : s'.checker.cached (GoTime.add now call.ttl) = some report := by
    rw [hs', Checker.cached_eq_some_iff]
    exact ⟨hzero, le_refl _, rfl⟩
  have hchecks : s'.checker.checks = s.checker.checks := by
    rw [hs']
    rfl
  refine ⟨_, _, run_call_hit hcached, fun hsees => ?_⟩
  have hcovers : Covers s'.checker.checks s'.checker.checks.length report :=
    hsees _ (List.mem_append_right _ (List.mem_singleton_self _))
      (show 0 < Duration.second.ns by decide) report rfl
  exact not_covers_of_length_lt (by rw [hchecks]; exact hshort) (le_refl _) hcovers

/-- **A `CachedCheck` sees the checks that were added before it started, as long as no check is
    added between the copy and the store of another call.** In every run in which all stores
    are fresh, every report returned by a call with `ttl > 0` has a status for each check added
    before the call started. And a store that is not fresh, in any reachable state, can be
    followed by a call whose report misses a check. -/
theorem cachedCheck_sees_added_iff_storesFresh (s : Sys) :
    (system.ReachableBy StoresFresh s → SeesAdded s) ∧
    (∀ e s', system.Reachable s → system.step s e = some s' → ¬ StoresFresh s e →
      ∃ events t, system.run s' events = some t ∧ ¬ SeesAdded t) :=
  ⟨seesAdded_of_reachableBy, fun _ _ hs hstep hstale =>
    exists_run_not_seesAdded hs hstep hstale⟩

/-- Two calls in a row, the second of them served from the cache, after one check was added. -/
theorem cachedCheck_sees_added_of_two_calls :
    ∃ s, system.ReachableBy StoresFresh s ∧ s.checker.checks = ["db"] ∧
      (∃ call ∈ s.calls, call.added = 1 ∧ call.phase = .returned ⟨true, [⟨"db", true, 3, ""⟩], 4⟩) ∧
      SeesAdded s := by
  let outcome : Nat → Outcome := fun _ => ⟨none, 3⟩
  let events : List Event := [.add "db", .call .second, .act 0 (.look 1), .act 0 .lock,
    .act 0 (.look 2), .act 0 .copy, .act 0 (.finish outcome 4), .act 0 (.store 6),
    .act 0 .unlock, .call .second, .act 1 (.look 7)]
  obtain ⟨s, hrun⟩ : ∃ s, system.runBy StoresFresh ⟨.new, false, []⟩ events = some s :=
    Option.isSome_iff_exists.mp rfl
  have hreach : system.ReachableBy StoresFresh s := System.ReachableBy.runBy (.init rfl) hrun
  refine ⟨s, hreach, ?_, ?_, (cachedCheck_sees_added_iff_storesFresh s).1 hreach⟩
  · obtain rfl := Option.some.inj hrun
    rfl
  · obtain rfl := Option.some.inj hrun
    exact ⟨⟨.second, 1, .returned ⟨true, [⟨"db", true, 3, ""⟩], 4⟩⟩, .tail _ (.head _), rfl, rfl⟩

/-- A check is added while a call runs with an older copy; the call stores its report, and the
    next call is served without the new check. -/
theorem cachedCheck_misses_added :
    ∃ s, system.Reachable s ∧ s.checker.checks = ["db"] ∧
      s.calls[1]? = some ⟨.second, 1, .returned ⟨true, [], 4⟩⟩ ∧ ¬ SeesAdded s := by
  let outcome : Nat → Outcome := fun _ => ⟨none, 3⟩
  let events : List Event := [.call .second, .act 0 (.look 1), .act 0 .lock, .act 0 (.look 2),
    .act 0 .copy, .add "db", .act 0 (.finish outcome 4), .act 0 (.store 6), .act 0 .unlock,
    .call .second, .act 1 (.look 7)]
  obtain ⟨s, hrun⟩ : ∃ s, system.run ⟨.new, false, []⟩ events = some s :=
    Option.isSome_iff_exists.mp rfl
  have hreach : system.Reachable s := System.Reachable.run (.init rfl) hrun
  obtain rfl := Option.some.inj hrun
  refine ⟨_, hreach, rfl, rfl, fun hsees => ?_⟩
  have hcovers : Covers ["db"] 1 ⟨true, [], 4⟩ :=
    hsees ⟨.second, 1, .returned ⟨true, [], 4⟩⟩ (.tail _ (.head _)) (by decide) _ rfl
  exact not_covers_of_length_lt (by decide) (by decide) hcovers

end ServiceRuntime.Health
