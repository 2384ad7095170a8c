import ServiceRuntime.Health.Checker

/-!
# Cached Reports and Their Age

A cached report has one expiry, set from the ttl of the call that stored it. A later call with
another ttl looks at that expiry only: it can be served a report that is older than its own ttl
allows. Here calls follow one another. Each is followed with the time at which the `Check` behind
its report finished, and `Log` keeps what the checker itself forgets: which call filled the cache.

`Log.Covered` is the condition under which a ttl is kept: the ttl of the call that filled the
cache, together with the time between the end of its `Check` and its store, is not longer.
-/

namespace ServiceRuntime.Health

open GoTime Transition

/-! ## One call after the other -/

/-- What a call of `CachedCheck` reads from outside: the clock at its two lookups, at the end of
    its `Check` and at its store, and what the check functions did. -/
structure Readings where
  look : Int
  lookAgain : Int
  finished : Int
  stored : Int
  outcomes : Nat → Outcome
  duration : Int

/-- The clock does not go back. -/
structure Readings.After (r : Readings) (clock : Int) : Prop where
  look : clock ≤ r.look
  lookAgain : r.look ≤ r.lookAgain
  finished : r.lookAgain ≤ r.finished
  stored : r.finished ≤ r.stored

/-- `CachedCheck`, while no other call is in progress. -/
def Checker.cachedCheck (c : Checker) (ttl : Duration) (r : Readings) : Report × Checker :=
  if ttl.ns ≤ 0 then (reportOf c.checks r.outcomes r.duration, c)
  else
    match c.cached r.look with
    | some report => (report, c)
    | none =>
      match c.cached r.lookAgain with
      | some report => (report, c)
      | none =>
        let report := reportOf c.checks r.outcomes r.duration
        (report, c.store report r.stored ttl)

theorem step_last (checker : Checker) (cacheMu : Bool) (calls : List Call) (call : Call)
    (action : Action) :
    system.step ⟨checker, cacheMu, calls ++ [call]⟩ (.act calls.length action) =
      act ⟨checker, cacheMu, calls ++ [call]⟩ calls.length call action := by
  simp only [system, step, List.getElem?_concat_length, Option.bind_some]

theorem move_last (checker : Checker) (cacheMu : Bool) (calls : List Call) (call : Call)
    (phase : Phase) :
    (Sys.mk checker cacheMu (calls ++ [call])).move calls.length call phase =
      ⟨checker, cacheMu, calls ++ [{ call with phase := phase }]⟩ := by
  simp only [Sys.move, List.set_append_right _ _ (le_refl _), Nat.sub_self, List.set_cons_zero]

/-- What a call does while no other is in progress, action by action. -/
def Checker.actions (c : Checker) (ttl : Duration) (r : Readings) : List Action :=
  if ttl.ns ≤ 0 then [.look r.look, .copy, .finish r.outcomes r.duration]
  else
    match c.cached r.look with
    | some _ => [.look r.look]
    | none =>
      match c.cached r.lookAgain with
      | some _ => [.look r.look, .lock, .look r.lookAgain, .unlock]
      | none =>
        [.look r.look, .lock, .look r.lookAgain, .copy, .finish r.outcomes r.duration,
          .store r.stored, .unlock]

/-- **A call on its own is a run of the checker**: its actions, with these readings, return the report
    of `Checker.cachedCheck` and leave the checker that this leaves; the mutex is given back, and the
    other calls are as they were. -/
theorem run_cachedCheck (checker : Checker) (calls : List Call) (ttl : Duration) (r : Readings) :
    system.run ⟨checker, false, calls⟩
        (.call ttl :: (checker.actions ttl r).map (.act calls.length)) =
      some ⟨(checker.cachedCheck ttl r).2, false,
        calls ++ [⟨ttl, checker.checks.length, .returned (checker.cachedCheck ttl r).1⟩]⟩ := by
  have hstart : ∀ events, system.run ⟨checker, false, calls⟩ (.call ttl :: events) =
      system.run ⟨checker, false, calls ++ [⟨ttl, checker.checks.length, .entered⟩]⟩ events :=
    fun events => by rw [system.run_cons]; rfl
  rw [hstart]
  unfold Checker.cachedCheck Checker.actions
  -- the cases of `CachedCheck`: no cache, a hit before the lock, a hit after it, and a miss
  by_cases httl : ttl.ns ≤ 0
  · simp only [List.map_cons, List.map_nil, system.run_cons, step_last, move_last, act, if_pos httl,
      Option.bind_some, system.run_nil]
  · cases hlook : checker.cached r.look with
    | some report =>
      simp only [List.map_cons, List.map_nil, system.run_cons, step_last, move_last, act,
        if_neg httl, hlook, Option.bind_some, system.run_nil]
    | none =>
      cases hagain : checker.cached r.lookAgain with
      | some report | none =>
        simp only [List.map_cons, List.map_nil, system.run_cons, step_last, move_last, act,
          if_neg httl, hlook, hagain, Bool.false_eq_true, if_false, Option.bind_some,
          system.run_nil]

/-! ## Where the cached report is from -/

/-- The call that filled the cache. -/
structure Filling where
  ttl : Duration
  finished : Int
  stored : Int

/-- A checker, the call that filled its cache, and the last reading of the clock. While the cache
    is cleared, `filled` is of no meaning. -/
structure Log where
  checker : Checker
  filled : Filling
  clock : Int

/-- A report that a call returned, and when the `Check` behind it finished. -/
structure Returned where
  report : Report
  finished : Int

/-- `CachedCheck`, with the log kept. -/
def Log.cachedCheck (s : Log) (ttl : Duration) (r : Readings) : Returned × Log :=
  let report := reportOf s.checker.checks r.outcomes r.duration
  if ttl.ns ≤ 0 then (⟨report, r.finished⟩, { s with clock := r.finished })
  else
    match s.checker.cached r.look with
    | some report => (⟨report, s.filled.finished⟩, { s with clock := r.look })
    | none =>
      match s.checker.cached r.lookAgain with
      | some report => (⟨report, s.filled.finished⟩, { s with clock := r.lookAgain })
      | none =>
        (⟨report, r.finished⟩,
          ⟨s.checker.store report r.stored ttl, ⟨ttl, r.finished, r.stored⟩, r.stored⟩)

theorem Log.cachedCheck_erase (s : Log) (ttl : Duration) (r : Readings) :
    ((s.cachedCheck ttl r).1.report, (s.cachedCheck ttl r).2.checker) =
      s.checker.cachedCheck ttl r := by
  unfold Log.cachedCheck Checker.cachedCheck
  split
  · rfl
  · cases s.checker.cached r.look with
    | some report => rfl
    | none => cases s.checker.cached r.lookAgain <;> rfl

inductive Op where
  | add (name : String)
  | call (ttl : Duration) (r : Readings)

def Log.next (s : Log) : Op → Log
  | .add name => { s with checker := s.checker.add name }
  | .call ttl r => (s.cachedCheck ttl r).2

def Log.after (start : Int) (ops : List Op) : Log :=
  ops.foldl Log.next ⟨.new, ⟨.second, start, start⟩, start⟩

def Log.Dated (s : Log) : Prop :=
  isZero s.checker.cacheUntil = false →
    s.checker.cacheUntil = s.filled.stored + s.filled.ttl.ns

theorem Log.Dated.next {s : Log} (h : s.Dated) (op : Op) : (s.next op).Dated := by
  cases op with
  | add name =>
    intro hvalid
    cases hvalid
  | call ttl r =>
    simp only [Log.next, Log.cachedCheck]
    split
    · exact h
    · split
      · exact h
      · split
        · exact h
        · exact fun _ => rfl

theorem Log.dated_after (start : Int) (ops : List Op) : (Log.after start ops).Dated := by
  refine List.foldlRecOn ops Log.next ?_ fun s hs op _ => hs.next op
  intro hvalid
  cases hvalid

/-! ## The age of a report -/

def Log.Live (s : Log) : Prop := isZero s.checker.cacheUntil = false ∧ s.clock ≤ s.checker.cacheUntil

/-- A report that has not expired was stored for no longer than the ttl, counted from the end of
    its `Check`. -/
def Log.Covered (s : Log) (ttl : Duration) : Prop :=
  s.Live → s.filled.ttl.ns + (s.filled.stored - s.filled.finished) ≤ ttl.ns

/-- **A call is never served a report older than its ttl exactly if the cached report was stored
    for no longer.** After any sequence of calls, and for every time at which the next call looks. -/
theorem cachedCheck_within_ttl_iff (start : Int) (ops : List Op) (ttl : Duration)
    (hpos : 0 < ttl.ns) :
    (∀ r : Readings, r.After (Log.after start ops).clock →
        r.look - ttl.ns ≤ ((Log.after start ops).cachedCheck ttl r).1.finished) ↔
      (Log.after start ops).Covered ttl := by
  have hdated := Log.dated_after start ops
  generalize Log.after start ops = s at hdated ⊢
  constructor
  -- the last moment at which the report is served
  · rintro h ⟨hvalid, hlive⟩
    have hbound := h ⟨s.checker.cacheUntil, s.checker.cacheUntil, s.checker.cacheUntil,
      s.checker.cacheUntil, fun _ => ⟨none, 0⟩, 0⟩ ⟨hlive, le_refl _, le_refl _, le_refl _⟩
    have hcached : s.checker.cached s.checker.cacheUntil = some s.checker.cachedReport :=
      Checker.cached_eq_some_iff.mpr ⟨hvalid, le_refl _, rfl⟩
    simp only [Log.cachedCheck, if_neg (not_le.mpr hpos), hcached] at hbound
    rw [hdated hvalid] at hbound
    omega
  · intro h r hr
    -- any lookup of this call that finds a report finds it in time
    have hserved : ∀ now report, s.checker.cached now = some report → r.look ≤ now →
        r.look - ttl.ns ≤ s.filled.finished := by
      intro now report hcached hnow
      obtain ⟨hvalid, hle, -⟩ := Checker.cached_eq_some_iff.mp hcached
      have hcovered := h ⟨hvalid, le_trans hr.look (le_trans hnow hle)⟩
      have huntil := hdated hvalid
      omega
    simp only [Log.cachedCheck, if_neg (not_le.mpr hpos)]
    cases hlook : s.checker.cached r.look with
    | some report => exact hserved _ _ hlook (le_refl _)
    | none =>
      cases hagain : s.checker.cached r.lookAgain with
      | some report => exact hserved _ _ hagain hr.lookAgain
      | none =>
        have hfinished := hr.lookAgain.trans hr.finished
        dsimp only
        omega

def Readings.at (now : Int) : Readings := ⟨now, now, now, now, fun _ => ⟨none, 0⟩, 0⟩

/-- Calls with one ttl, and reports stored as soon as they are finished. -/
theorem cachedCheck_within_ttl_of_second :
    (Log.after 1 [.add "db", .call .second (.at 5)]).Covered .second ∧
      10 - 1000000000 ≤ ((Log.after 1 [.add "db", .call .second (.at 5)]).cachedCheck .second
        (.at 10)).1.finished := by
  have hcovered : (Log.after 1 [.add "db", .call .second (.at 5)]).Covered .second :=
    fun _ => by decide
  exact ⟨hcovered, (cachedCheck_within_ttl_iff 1 _ .second (by decide)).mpr hcovered (.at 10)
    ⟨by decide, by decide, by decide, by decide⟩⟩

def hour : Duration := ⟨3600000000000, by decide, by decide⟩

/-- A report stored for an hour is served half an hour later to a call that allows one second. -/
theorem cachedCheck_serves_old_report :
    let s := Log.after 1 [.add "db", .call hour (.at 5)]
    let r := Readings.at 1800000000005
    r.After s.clock ∧ (s.cachedCheck .second r).1.finished = 5 ∧
      (s.cachedCheck .second r).1.finished < r.look - Duration.second.ns := by
  refine ⟨⟨by decide, by decide, by decide, by decide⟩, rfl, by decide⟩

end ServiceRuntime.Health
