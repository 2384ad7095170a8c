import ServiceRuntime.Postgres.Open

/-!
# What `OpenAndMigrate` Reports

The closure that `startup.Do` retries assigns `result` in every attempt that gets through its
migrations. If an attempt migrated and then failed in `init`, and the next one found nothing left to
do, the call would report `Applied: false` for a schema it has just migrated.

It does not come to that. A run that reaches the migration driver closes the handle, and the ping of
a later attempt fails, so a call that succeeds has run its migrations in its last attempt only.
-/

namespace ServiceRuntime.Postgres

open Migrate Startup

section Up

variable (source : Source) (total : Nat) (o : Migrate.Options) (attempts : Nat → Attempt)

/-- Attempt number `i`, as `startup.Do` calls it. -/
def attemptAt (i : Nat) : Call → Call × Option String :=
  initAttempt (migrateAndInit source total o (attempts i)) (attempts i).ping

/-- The call makes attempt number `i`, and finds the database and the result as in `call`. -/
def AttemptMade (opts : Options) (start : Schema) (i : Nat) (call : Call) : Prop :=
  Made (attemptAt source total o attempts) (fun i => (attempts i).interrupted)
    opts.withDefaults.retry.withDefaults.maxAttempts.toNat 1 ⟨⟨false, start⟩, noResult⟩ i call

/-- Attempt number `i` applies at least one migration to the database of `call`. -/
def Applies (i : Nat) (call : Call) : Prop :=
  call.db.schema.version < (attemptAt source total o attempts i call).1.db.schema.version

/-! ## One attempt -/

variable {source total o attempts}

theorem attemptAt_of_closed (i : Nat) {call : Call} (hclosed : call.db.closed = true) :
    (attemptAt source total o attempts i call).1.db.closed = true ∧
      (attemptAt source total o attempts i call).2 ≠ none := by
  rw [attemptAt, initAttempt_of_closed hclosed]
  exact ⟨hclosed, by simp⟩

/-- An attempt that fails has changed nothing, or has closed the handle. -/
theorem attemptAt_of_error (i : Nat) (call : Call)
    (hfails : (attemptAt source total o attempts i call).2 ≠ none) :
    (attemptAt source total o attempts i call).1 = call ∨
      (attemptAt source total o attempts i call).1.db.closed = true := by
  have hrun := run_same_or_closed source total o (attempts i).migrations call.db
  have hok : ∀ result, (run source total o (attempts i).migrations call.db).2 = .ok result →
      (run source total o (attempts i).migrations call.db).1.closed = true :=
    fun result h => run_closed_of_ok h
  unfold attemptAt initAttempt at hfails ⊢
  split
  · exact .inl rfl
  · unfold migrateAndInit at hfails ⊢
    generalize run source total o (attempts i).migrations call.db = outcome at hrun hok hfails ⊢
    obtain ⟨db, result⟩ := outcome
    cases result with
    | error err =>
      rcases hrun with hsame | hclosed
      · dsimp only at hsame
        subst hsame
        exact .inl rfl
      · exact .inr hclosed
    -- the migrations have run, so it is the callback that has failed
    | ok applied => exact .inr (hok applied rfl)

/-- An attempt that succeeds reports whether it has applied a migration. -/
theorem applied_of_attemptAt (hup : o.withDefaults.command = "up") (i : Nat) {call final : Call}
    (hok : attemptAt source total o attempts i call = (final, none)) :
    final.result.applied = true ↔ Applies source total o attempts i call := by
  unfold Applies
  have hrun : ∀ result, (run source total o (attempts i).migrations call.db).2 = .ok result →
      (result.applied = true ↔ call.db.schema.version <
        (run source total o (attempts i).migrations call.db).1.schema.version) :=
    fun result h => run_up source total hup (attempts i).migrations call.db h
  unfold attemptAt initAttempt at hok ⊢
  split at hok
  · cases hok
  · unfold migrateAndInit at hok ⊢
    generalize run source total o (attempts i).migrations call.db = outcome at hrun hok ⊢
    obtain ⟨db, result⟩ := outcome
    cases result with
    | error err => cases hok
    | ok applied =>
      rw [Prod.mk.injEq] at hok
      obtain ⟨rfl, -⟩ := hok
      exact hrun applied rfl

/-! ## The whole call -/

theorem startupDo_of_ok {opts : Options} {sqlOpen : Option String} {start : Schema}
    {result : Result}
    (hok : (openAndMigrateFrom source total o opts sqlOpen attempts start).2 = .ok result) :
    ∃ final, startupDo (attemptAt source total o attempts) (fun i => (attempts i).interrupted)
        opts.withDefaults.retry ⟨⟨false, start⟩, noResult⟩ = (final, none) ∧
      final.result = result := by
  unfold openAndMigrateFrom openAndInit at hok
  cases sqlOpen with
  | some err => cases hok
  | none =>
    unfold attemptAt
    dsimp only at hok
    generalize startupDo _ _ _ _ = ended at hok ⊢
    obtain ⟨final, outcome⟩ := ended
    cases outcome with
    | some err => cases hok
    | none =>
      cases hok
      exact ⟨final, rfl, rfl⟩

/-- **What is reported is what was done**, with either source. -/
theorem openAndMigrateFrom_up (hup : o.withDefaults.command = "up") (opts : Options)
    (sqlOpen : Option String) (start : Schema) {result : Result}
    (hok : (openAndMigrateFrom source total o opts sqlOpen attempts start).2 = .ok result) :
    result.applied = true ↔ ∃ i call, AttemptMade source total o attempts opts start i call ∧
      Applies source total o attempts i call := by
  obtain ⟨final, hdo, rfl⟩ := startupDo_of_ok hok
  have hdead : ∀ i (call : Call), call.db.closed = true →
      (attemptAt source total o attempts i call).1.db.closed = true ∧
        (attemptAt source total o attempts i call).2 ≠ none :=
    fun i call h => attemptAt_of_closed i h
  -- every attempt was made on the first state, and all but the last left it
  obtain ⟨last, hmade, hlast, hall⟩ :=
    startupDo_ok_of_dead hdead attemptAt_of_error (congrArg Prod.snd hdo)
  rw [hdo] at hlast
  rw [applied_of_attemptAt hup last hlast]
  constructor
  · intro happlies
    exact ⟨last, _, hmade, happlies⟩
  · rintro ⟨i, call, hmade', happlies⟩
    obtain ⟨rfl, rfl | hsame⟩ := hall i call hmade'
    · exact happlies
    · rw [Applies, hsame] at happlies
      exact absurd happlies (lt_irrefl _)

end Up

/-- **`OpenAndMigrate` and `OpenAndMigrateIOFS` report what they did**: whatever the pings, the
    migrations and `init` do in each attempt, a call with the up command that succeeds returns
    `Applied` exactly if one of its attempts has applied a migration. -/
theorem applied_iff_some_attempt_applied {o : Migrate.Options}
    (hup : o.withDefaults.command = "up") (total : Nat) (opts : Options) (sqlOpen : Option String)
    (attempts : Nat → Attempt) (start : Schema) (migrationsDir : String) (absErr : Option String)
    (present : Bool) (path : String) (result : Result) :
    ((openAndMigrate migrationsDir absErr total o opts sqlOpen attempts start).2 = .ok result →
      (result.applied = true ↔ ∃ i call,
        AttemptMade (.directory migrationsDir absErr) total o attempts opts start i call ∧
          Applies (.directory migrationsDir absErr) total o attempts i call)) ∧
    ((openAndMigrateIOFS present path total o opts sqlOpen attempts start).2 = .ok result →
      (result.applied = true ↔ ∃ i call,
        AttemptMade (.iofs present path) total o attempts opts start i call ∧
          Applies (.iofs present path) total o attempts i call)) :=
  ⟨openAndMigrateFrom_up hup opts sqlOpen start, openAndMigrateFrom_up hup opts sqlOpen start⟩

/-- The first ping fails, the second attempt applies two migrations. -/
def refusedOnce (attempt : Nat) : Attempt :=
  ⟨if attempt = 1 then some "connection refused" else none, fineRun, none, none⟩

theorem applied_of_refusedOnce :
    ∃ i call, AttemptMade (.directory "db/migrations" none) 7 ⟨"up", 0, ""⟩ refusedOnce
        ⟨"", ⟨0, by decide, by decide⟩, .zero⟩ ⟨5, false⟩ i call ∧
      Applies (.directory "db/migrations" none) 7 ⟨"up", 0, ""⟩ refusedOnce i call := by
  apply ((applied_iff_some_attempt_applied (o := ⟨"up", 0, ""⟩) rfl 7 _ none refusedOnce ⟨5, false⟩
    "db/migrations" none true "migrations" ⟨"up", true, some 7, false⟩).1 ?_).mp rfl
  decide +kernel

end ServiceRuntime.Postgres
