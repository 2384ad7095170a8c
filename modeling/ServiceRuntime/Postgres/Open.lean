import ServiceRuntime.Migrate.Run
import ServiceRuntime.Startup.Retry

/-!
# Opening a Database

`OpenAndMigrate` and `OpenAndMigrateIOFS` ping the database, run the migrations and call `init`,
all inside the function that `startup.Do` retries.

So the migrations look as if they could run once per attempt. They run at most once: the attempt
that opens a migration driver also closes the `*sql.DB` (see `Migrate.run`), and the ping of every
later attempt fails on the closed handle. `init` and the caller get that closed handle too.
-/

namespace ServiceRuntime.Postgres

open GoTime Migrate Startup

/-! ## Opening -/

structure Options where
  driverName : String
  pingTimeout : Duration
  retry : Startup.Config

def Options.withDefaults (o : Options) : Options where
  driverName := if o.driverName = "" then "pgx" else o.driverName
  pingTimeout := if o.pingTimeout.ns ≤ 0 then ⟨5 * Duration.second.ns, by decide, by decide⟩
    else o.pingTimeout
  retry := if o.retry = .zero then .default else o.retry

structure Attempt where
  ping : Option String
  migrations : RunConditions
  /-- The error of `init`, none also if there is no `init`. -/
  init : Option String
  /-- The error of a context that is done before the next attempt. -/
  interrupted : Option String

/-- `db.PingContext`: a closed handle answers nothing. -/
def pingContext (db : Database) (ping : Option String) : Option String :=
  if db.closed then some "sql: database is closed" else ping

/-- What a call of one of the two functions works on: the database, and the variable `result` that
    the closure assigns. -/
structure Call where
  db : Database
  result : Result

def noResult : Result := ⟨"", false, none, false⟩

/-- The closure that `OpenAndInit` hands to `startup.Do`: ping, then `init`. -/
def initAttempt (init : Call → Call × Option String) (ping : Option String) (call : Call) :
    Call × Option String :=
  match pingContext call.db ping with
  | some err => (call, some ("ping_postgres: " ++ err))
  | none => init call

/-- The closure that `OpenAndMigrate` and `OpenAndMigrateIOFS` hand to `OpenAndInit`: the
    migrations first, then the `init` of the caller. -/
def migrateAndInit (source : Source) (total : Nat) (o : Migrate.Options) (a : Attempt)
    (call : Call) : Call × Option String :=
  match run source total o a.migrations call.db with
  | (db, .error err) => (⟨db, call.result⟩, some err)
  | (db, .ok applied) => (⟨db, applied⟩, a.init)

/-- `OpenAndInit`; the handle is closed if the attempts fail. -/
def openAndInit (init : Attempt → Call → Call × Option String) (opts : Options)
    (sqlOpen : Option String) (attempts : Nat → Attempt) (call : Call) : Call × Option String :=
  let opts := opts.withDefaults
  match sqlOpen with
  | some err => (call, some ("open_postgres: " ++ err))
  | none =>
    match startupDo (fun i => initAttempt (init (attempts i)) (attempts i).ping)
        (fun i => (attempts i).interrupted) opts.retry call with
    | (call', some err) => ({ call' with db := call'.db.close }, some err)
    | (call', none) => (call', none)

/-- What the two functions share: `OpenAndInit` around the migrations, over a new handle. -/
def openAndMigrateFrom (source : Source) (total : Nat) (o : Migrate.Options) (opts : Options)
    (sqlOpen : Option String) (attempts : Nat → Attempt) (schema : Schema) :
    Database × Except String Result :=
  match openAndInit (migrateAndInit source total o) opts sqlOpen attempts
      ⟨⟨false, schema⟩, noResult⟩ with
  | (call, some err) => (call.db, .error err)
  | (call, none) => (call.db, .ok call.result)

/-- `OpenAndMigrate`: the database after the call, and the result or the error. -/
def openAndMigrate (migrationsDir : String) (absErr : Option String) :
    Nat → Migrate.Options → Options → Option String → (Nat → Attempt) → Schema →
      Database × Except String Result :=
  openAndMigrateFrom (.directory migrationsDir absErr)

def openAndMigrateIOFS (present : Bool) (path : String) :
    Nat → Migrate.Options → Options → Option String → (Nat → Attempt) → Schema →
      Database × Except String Result :=
  openAndMigrateFrom (.iofs present path)

/-! ## The rollback happens once -/

section Rollback

variable (source : Source) (total : Nat) {o : Migrate.Options}

/-- The database before or after the one run that reaches it: still open and untouched, or closed
    and rolled back by at most what the options ask for. -/
def RolledBackOnce (o : Migrate.Options) (start : Schema) (db : Database) : Prop :=
  (db.closed = false ∧ db.schema = start) ∨
    (db.closed = true ∧ db.schema.version ≤ start.version ∧
      start.version ≤ db.schema.version + o.requested)

variable {start : Schema} {call : Call}

theorem RolledBackOnce.bounds {db : Database} (h : RolledBackOnce o start db) :
    db.schema.version ≤ start.version ∧ start.version ≤ db.schema.version + o.requested := by
  rcases h with ⟨_, hschema⟩ | ⟨_, hbounds⟩
  · rw [hschema]
    exact ⟨le_refl _, Nat.le_add_right _ _⟩
  · exact hbounds

theorem initAttempt_of_closed {init : Call → Call × Option String} {ping : Option String}
    (hclosed : call.db.closed = true) :
    initAttempt init ping call = (call, some "ping_postgres: sql: database is closed") := by
  unfold initAttempt pingContext
  rw [if_pos hclosed]
  rfl

theorem migrateAndInit_rolledBackOnce (hdown : o.command = "down") (a : Attempt)
    (hopen : call.db.closed = false) :
    RolledBackOnce o call.db.schema (migrateAndInit source total o a call).1.db ∧
      ((migrateAndInit source total o a call).2 = none →
        (migrateAndInit source total o a call).1.db.closed = true ∧
        (migrateAndInit source total o a call).1.db.schema.version + o.requested =
          call.db.schema.version) := by
  have hrun := run_down source total hdown a.migrations call.db
  unfold migrateAndInit
  generalize run source total o a.migrations call.db = outcome at hrun ⊢
  obtain ⟨db, result⟩ := outcome
  rcases hrun with ⟨hsame, err, herr⟩ | ⟨hclosed, hle, hge, hexact⟩
  · dsimp only at hsame herr
    subst hsame herr
    exact ⟨.inl ⟨hopen, rfl⟩, fun h => by cases h⟩
  · cases result with
    | error err => exact ⟨.inr ⟨hclosed, hle, hge⟩, fun h => by cases h⟩
    | ok applied => exact ⟨.inr ⟨hclosed, hle, hge⟩, fun _ => ⟨hclosed, hexact applied rfl⟩⟩

/-- One attempt keeps the invariant: it does nothing once the handle is closed. -/
theorem attempt_rolledBackOnce (hdown : o.command = "down") (a : Attempt)
    (h : RolledBackOnce o start call.db) :
    RolledBackOnce o start (initAttempt (migrateAndInit source total o a) a.ping call).1.db := by
  rcases h with ⟨hopen, rfl⟩ | hdone
  · unfold initAttempt
    split
    · exact .inl ⟨hopen, rfl⟩
    · exact (migrateAndInit_rolledBackOnce source total hdown a hopen).1
  · rw [initAttempt_of_closed hdone.1]
    exact .inr hdone

/-- An attempt that succeeds found the handle open, so it is the one that rolled back. -/
theorem attempt_of_ok (hdown : o.command = "down") (a : Attempt)
    (h : RolledBackOnce o start call.db)
    (hok : (initAttempt (migrateAndInit source total o a) a.ping call).2 = none) :
    (initAttempt (migrateAndInit source total o a) a.ping call).1.db.closed = true ∧
      (initAttempt (migrateAndInit source total o a) a.ping call).1.db.schema.version +
        o.requested = start.version := by
  rcases h with ⟨hopen, rfl⟩ | hdone
  · have hinit := (migrateAndInit_rolledBackOnce source total hdown a hopen).2
    unfold initAttempt at hok ⊢
    split at hok
    · cases hok
    · exact hinit hok
  · rw [initAttempt_of_closed hdone.1] at hok
    cases hok

/-- **The rollback of one call**: at most what was asked for, and exactly that if the call
    succeeds, in which case the handle it returns is closed. -/
theorem openAndMigrateFrom_down (hdown : o.command = "down")
    (opts : Options) (sqlOpen : Option String) (attempts : Nat → Attempt) (start : Schema) :
    let final := openAndMigrateFrom source total o opts sqlOpen attempts start
    final.1.schema.version ≤ start.version ∧
      start.version ≤ final.1.schema.version + o.requested ∧
      (∀ result, final.2 = .ok result →
        final.1.closed = true ∧ final.1.schema.version + o.requested = start.version) := by
  have hinit : RolledBackOnce o start (Call.mk ⟨false, start⟩ noResult).db := .inl ⟨rfl, rfl⟩
  unfold openAndMigrateFrom openAndInit
  cases sqlOpen with
  | some err => exact ⟨le_refl _, Nat.le_add_right _ _, fun _ h => by cases h⟩
  | none =>
    -- the invariant holds after the loop, and a loop that succeeds ended with such an attempt
    have hkeep : ∀ i (call : Call), RolledBackOnce o start call.db → RolledBackOnce o start
        (initAttempt (migrateAndInit source total o (attempts i)) (attempts i).ping call).1.db :=
      fun i call => attempt_rolledBackOnce source total hdown (attempts i)
    obtain ⟨hloop, hended⟩ := startupDo_spec (fun i => (attempts i).interrupted) hkeep
      opts.withDefaults.retry hinit
    dsimp only
    generalize startupDo _ _ _ _ = ended at hloop hended ⊢
    obtain ⟨call, outcome⟩ := ended
    cases outcome with
    | some err => exact ⟨hloop.bounds.1, hloop.bounds.2, fun _ h => by cases h⟩
    | none =>
      refine ⟨hloop.bounds.1, hloop.bounds.2, fun _ _ => ?_⟩
      obtain ⟨last, call', hbefore, hok, hcall⟩ := hended rfl
      have hlast := attempt_of_ok source total hdown (attempts last) hbefore hok
      rwa [← hcall] at hlast

end Rollback

def below (start : Schema) (db : Database) : Int := start.version - db.schema.version

/-- **One rollback per call**: whatever the attempts meet, a call of `OpenAndMigrate` or
    `OpenAndMigrateIOFS` with the down command ends at most `DownSteps` migrations below its start,
    and exactly that many if it succeeds. The zero value stands for the default of one step, and
    with a negative value nothing is rolled back. -/
theorem rollback_once {o : Migrate.Options} (hdown : o.command = "down") (total : Nat)
    (opts : Options) (sqlOpen : Option String) (attempts : Nat → Attempt) (start : Schema)
    (migrationsDir : String) (absErr : Option String) (present : Bool) (path : String) :
    ∀ final, (final = openAndMigrate migrationsDir absErr total o opts sqlOpen attempts start ∨
        final = openAndMigrateIOFS present path total o opts sqlOpen attempts start) →
      (1 ≤ o.downSteps → below start final.1 ≤ o.downSteps ∧
        (∀ result, final.2 = .ok result → below start final.1 = o.downSteps)) ∧
      (o.downSteps = 0 → below start final.1 ≤ 1) ∧
      (o.downSteps < 0 → below start final.1 = 0) := by
  intro final hfinal
  have hspec : final.1.schema.version ≤ start.version ∧
      start.version ≤ final.1.schema.version + o.requested ∧
      (∀ result, final.2 = .ok result →
        final.1.closed = true ∧ final.1.schema.version + o.requested = start.version) := by
    rcases hfinal with rfl | rfl
    · exact openAndMigrateFrom_down _ total hdown opts sqlOpen attempts start
    · exact openAndMigrateFrom_down _ total hdown opts sqlOpen attempts start
  obtain ⟨hle, hge, hexact⟩ := hspec
  -- the default of one step, and nothing for a negative number
  have hrequested : o.requested = (if o.downSteps = 0 then 1 else o.downSteps).toNat := rfl
  unfold below
  refine ⟨fun hpos => ⟨?_, fun result hresult => ?_⟩, fun hzero => ?_, fun hneg => ?_⟩
  · rw [if_neg (by omega)] at hrequested
    omega
  · have heq := (hexact result hresult).2
    rw [if_neg (by omega)] at hrequested
    omega
  · rw [if_pos hzero] at hrequested
    omega
  · rw [if_neg (by omega)] at hrequested
    omega

def fine : Conditions := ⟨none, none, none, fun _ => .ran, none, fun _ => true⟩

def fineRun : RunConditions := ⟨none, none, none, fine, none, none⟩

/-- The first ping fails, the second attempt migrates and fails in `init`, the others would have
    nothing against a further rollback. -/
def failsInInit (attempt : Nat) : Attempt :=
  ⟨if attempt = 1 then some "connection refused" else none, fineRun,
    if attempt = 2 then some "init failed" else none, none⟩

/-- Two steps down from the fifth migration, with an `init` that fails once. -/
theorem rollback_once_of_failing_init :
    below ⟨5, false⟩ (openAndMigrate "db/migrations" none 7 ⟨"down", 2, ""⟩
        ⟨"", ⟨0, by decide, by decide⟩, .zero⟩ none failsInInit ⟨5, false⟩).1 ≤ 2 ∧
      (openAndMigrate "db/migrations" none 7 ⟨"down", 2, ""⟩
        ⟨"", ⟨0, by decide, by decide⟩, .zero⟩ none failsInInit ⟨5, false⟩).1 =
        ⟨true, ⟨3, false⟩⟩ := by
  refine ⟨?_, by decide +kernel⟩
  exact ((rollback_once (o := ⟨"down", 2, ""⟩) rfl 7 _ none failsInInit ⟨5, false⟩ "db/migrations"
    none true "migrations" _ (.inl rfl)).1 (by decide)).1

/-- With `DownSteps` zero a migration is rolled back all the same. -/
theorem rollback_of_zero_steps :
    ∃ attempts, 0 < below ⟨5, false⟩ (openAndMigrate "db/migrations" none 7 ⟨"down", 0, ""⟩
      ⟨"", ⟨0, by decide, by decide⟩, .zero⟩ none attempts ⟨5, false⟩).1 :=
  ⟨fun _ => ⟨none, fineRun, none, none⟩, by decide +kernel⟩

end ServiceRuntime.Postgres
