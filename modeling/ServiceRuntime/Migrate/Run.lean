import ServiceRuntime.GoStrings
import ServiceRuntime.Migrate.Migrator

/-!
# Running Migrations

`migrate.Run` and `migrate.RunIOFS`: check the options, build the migrator over the caller's
`*sql.DB`, execute the command, read the version back, and close the migrator.

Closing the migrator closes its Postgres driver, and that driver closes the `*sql.DB` it was made
from (`WithInstance` keeps the handle, `Close` closes it). So a run that gets as far as a driver
leaves the caller's handle closed, whatever else happens.
-/

namespace ServiceRuntime.Migrate

open GoStrings

/-! ## Options -/

structure Options where
  command : String
  downSteps : Int
  migrationsTable : String
  deriving DecidableEq

/-- `ParseCommand`; the result is compared with ASCII words only. -/
def parseCommand (raw : String) : Option String :=
  let normalized := trimSpace (String.ofList (raw.toList.map lowerASCII))
  if normalized = "" ∨ normalized = "up" then some "up"
  else if normalized = "down" then some "down"
  else if normalized = "version" then some "version"
  else none

/-- `Command.String`. -/
def commandString (command : String) : String := if command = "" then "up" else command

namespace Options

def withDefaults (o : Options) : Options where
  command := if o.command = "" then "up" else o.command
  downSteps := if o.downSteps = 0 then 1 else o.downSteps
  migrationsTable := trimSpace o.migrationsTable

/-- What is wrong with the options, in the words of `Options.validate`. -/
def validate (isPrint : Char → Bool) (o : Options) : Option String :=
  if (parseCommand (commandString o.command)).isNone then
    some ("unsupported migrate command " ++ goQuote isPrint (commandString o.command))
  else if o.downSteps < 1 then some "migrate down steps must be >= 1"
  else none

end Options

/-- `Result`; the version is a position in the source. -/
structure Result where
  command : String
  applied : Bool
  version : Option Nat
  dirty : Bool
  deriving DecidableEq

/-! ## Executing a command -/

/-- What `execute` makes of the error of the migrator. -/
def applied : Schema × List MigrateError → Schema × Except (List MigrateError) Bool
  | (schema, errs) =>
    if errs = [] then (schema, .ok true)
    else if .noChange ∈ errs then (schema, .ok false)
    else (schema, .error errs)

/-- `execute`: the schema after it, and the joined errors or whether something was applied. -/
def execute (total : Nat) (o : Options) (c : Conditions) (schema : Schema) :
    Schema × Except (List MigrateError) Bool :=
  if o.command = "up" then applied (up total c schema)
  else if o.command = "down" then applied (stepsDown o.downSteps.toNat c schema)
  else if o.command = "version" then (schema, .ok false)
  else (schema, .error [.other ("unsupported migrate command " ++ goQuote c.isPrint o.command)])

/-! ## A run -/

/-- Where the migrations come from. -/
inductive Source where
  /-- `Run`: a directory, and the error of `filepath.Abs` if it has one. -/
  | directory (path : String) (absErr : Option String)
  /-- `RunIOFS`: whether there is a file system, and the path in it. -/
  | iofs (present : Bool) (path : String)
  deriving DecidableEq

def Source.check : Source → Option String
  | .directory path absErr =>
    let raw := trimSpace path
    if raw = "" then some "migration directory is required"
    -- something with a scheme is taken as it is
    else if "://".toList <:+: raw.toList then none
    else absErr.map ("resolve migration directory: " ++ ·)
  | .iofs present path =>
    if !present then some "migration fs is required"
    else if trimSpace path = "" then some "migration fs path is required"
    else none

/-- What happens during one run. -/
structure RunConditions where
  /-- `ctx.Err()`. -/
  ctxErr : Option String
  /-- The error of `WithInstance`, which opens the driver. -/
  driver : Option String
  /-- The error of the source or the migrator, once the driver is open. -/
  migrator : Option String
  engine : Conditions
  /-- The error of `Version` after the command. -/
  version : Option String
  close : Option String

/-- The database as the caller sees it: its handle and its schema. -/
structure Database where
  closed : Bool
  schema : Schema
  deriving DecidableEq

/-- `Close` of the migrator, or of a driver without one. -/
def Database.close (db : Database) : Database := { db with closed := true }

def conclude (o : Options) (c : RunConditions) (schema : Schema) :
    Except (List MigrateError) Bool → Except String Result
  | .error errs => .error ("run " ++ o.command ++ " migrations: " ++ joinedText errs)
  | .ok applied =>
    match c.version with
    | some err => .error ("read migration version: " ++ err)
    | none =>
      -- the nil version is reported as no version
      .ok ⟨o.command, applied, if schema.version = 0 then none else some schema.version,
        if schema.version = 0 then false else schema.dirty⟩

/-- The deferred close: its error joins or becomes the error of the run. -/
def afterClose (c : RunConditions) (result : Except String Result) : Except String Result :=
  match c.close with
  | none => result
  | some closeErr =>
    match result with
    | .ok _ => .error ("close migrator: " ++ closeErr)
    | .error err => .error (err ++ "\n" ++ "close migrator: " ++ closeErr)

/-- `run`, and what `Run` and `RunIOFS` check before it. -/
def run (source : Source) (total : Nat) (o : Options) (c : RunConditions) (db : Database) :
    Database × Except String Result :=
  match source.check with
  | some err => (db, .error err)
  | none =>
    match c.ctxErr with
    | some err => (db, .error err)
    | none =>
      let o := o.withDefaults
      match o.validate c.engine.isPrint with
      | some err => (db, .error err)
      | none =>
        match c.driver with
        | some err => (db, .error ("open postgres migration driver: " ++ err))
        | none =>
          match c.migrator with
          | some err => (db.close, .error err)
          | none =>
            let (schema, outcome) := execute total o c.engine db.schema
            ({ db with schema := schema }.close, afterClose c (conclude o c schema outcome))

/-! ## What a run with the down command does -/

/-- The number of migrations that the options ask to roll back; invalid options ask for none. -/
def Options.requested (o : Options) : Nat := o.withDefaults.downSteps.toNat

variable {o : Options} {c : RunConditions} {outcome : Except (List MigrateError) Bool}
  {result : Result}

theorem execute_down (total : Nat) (hdown : o.command = "down") (c : Conditions) (schema : Schema) :
    (execute total o c schema).1 = (stepsDown o.downSteps.toNat c schema).1 ∧
      (∀ applied, (execute total o c schema).2 = .ok applied →
        (stepsDown o.downSteps.toNat c schema).2 = []) := by
  have hnoChange := (stepsDown_of_ok o.downSteps.toNat c schema).1
  unfold execute applied
  rw [hdown]
  simp only [String.reduceEq, if_false, if_true]
  generalize stepsDown o.downSteps.toNat c schema = result at hnoChange ⊢
  obtain ⟨schema', errs⟩ := result
  dsimp only at hnoChange ⊢
  split
  · rename_i hnil
    exact ⟨rfl, fun _ _ => hnil⟩
  · exact ⟨rfl, fun _ h => by cases h⟩

theorem ok_of_afterClose {schema : Schema}
    (h : afterClose c (conclude o c schema outcome) = .ok result) :
    ∃ applied, outcome = .ok applied := by
  cases outcome with
  | ok applied => exact ⟨applied, rfl⟩
  | error errs =>
    unfold afterClose conclude at h
    split at h
    · cases h
    · cases h

/-- **One run of the down command**: it leaves the database alone, or closes the handle and rolls
    back at most what was asked for, and exactly that if it succeeds. -/
theorem run_down (source : Source) (total : Nat) (hdown : o.command = "down") (c : RunConditions)
    (db : Database) :
    ((run source total o c db).1 = db ∧ ∃ err, (run source total o c db).2 = .error err) ∨
      ((run source total o c db).1.closed = true ∧
        (run source total o c db).1.schema.version ≤ db.schema.version ∧
        db.schema.version ≤ (run source total o c db).1.schema.version + o.requested ∧
        (∀ result, (run source total o c db).2 = .ok result →
          (run source total o c db).1.schema.version + o.requested = db.schema.version)) := by
  unfold run
  split
  · exact .inl ⟨rfl, _, rfl⟩
  · split
    · exact .inl ⟨rfl, _, rfl⟩
    · dsimp only
      split
      · exact .inl ⟨rfl, _, rfl⟩
      · split
        · exact .inl ⟨rfl, _, rfl⟩
        · split
          · exact .inr ⟨rfl, le_refl _, Nat.le_add_right _ _, fun _ h => by cases h⟩
          -- the migrator is built: the command runs and the handle is closed
          · have hcommand : o.withDefaults.command = "down" := by
              simp [Options.withDefaults, hdown]
            obtain ⟨hschema, hok⟩ := execute_down total hcommand c.engine db.schema
            have hversion := stepsDown_version o.requested c.engine db.schema
            have hexact := (stepsDown_of_ok o.requested c.engine db.schema).2
            refine .inr ⟨rfl, ?_, ?_, fun result hresult => ?_⟩
            · exact hschema ▸ hversion.1
            · exact hschema ▸ hversion.2
            · obtain ⟨applied, happlied⟩ := ok_of_afterClose hresult
              exact hschema ▸ hexact (hok applied happlied)

/-! ## What a run with the up command does -/

theorem execute_up (total : Nat) (hup : o.command = "up") (c : Conditions) (schema : Schema)
    {applied : Bool} (h : (execute total o c schema).2 = .ok applied) :
    applied = true ↔ schema.version < (execute total o c schema).1.version := by
  obtain ⟨hok, hnoChange⟩ := up_spec total c schema
  unfold execute Migrate.applied at h ⊢
  rw [if_pos hup] at h ⊢
  generalize up total c schema = result at hok hnoChange h ⊢
  obtain ⟨schema', errs⟩ := result
  dsimp only at hok hnoChange h ⊢
  split at h
  · rename_i hnil
    cases h
    rw [if_pos hnil]
    exact iff_of_true rfl (hok hnil)
  · rename_i hnil
    rw [if_neg hnil]
    split at h
    -- `ErrNoChange` is no error for the caller, and nothing was applied
    · rename_i hmem
      cases h
      rw [if_pos hmem]
      have hsame := hnoChange hmem
      exact iff_of_false Bool.false_ne_true (by dsimp only; omega)
    · cases h

theorem applied_of_afterClose {schema : Schema}
    (h : afterClose c (conclude o c schema outcome) = .ok result) :
    outcome = .ok result.applied := by
  obtain ⟨applied, rfl⟩ := ok_of_afterClose h
  unfold afterClose conclude at h
  split at h
  · dsimp only at h
    split at h
    · cases h
    · cases h
      rfl
  · split at h
    · cases h
    · cases h

theorem run_same_or_closed (source : Source) (total : Nat) (o : Options) (c : RunConditions)
    (db : Database) :
    (run source total o c db).1 = db ∨ (run source total o c db).1.closed = true := by
  unfold run
  split
  · exact .inl rfl
  · split
    · exact .inl rfl
    · dsimp only
      split
      · exact .inl rfl
      · split
        · exact .inl rfl
        · split
          · exact .inr rfl
          · exact .inr rfl

theorem run_closed_of_ok {source : Source} {total : Nat} {db : Database}
    (h : (run source total o c db).2 = .ok result) : (run source total o c db).1.closed = true := by
  unfold run at h ⊢
  split at h
  · cases h
  · split at h
    · cases h
    · dsimp only at h ⊢
      split at h
      · cases h
      · split at h
        · cases h
        · split at h
          · cases h
          · rfl

/-- **One run of the up command** that succeeds reports whether it has applied a migration. -/
theorem run_up (source : Source) (total : Nat) (hup : o.withDefaults.command = "up")
    (c : RunConditions) (db : Database) (h : (run source total o c db).2 = .ok result) :
    result.applied = true ↔ db.schema.version < (run source total o c db).1.schema.version := by
  unfold run at h ⊢
  split at h
  · cases h
  · split at h
    · cases h
    · dsimp only at h ⊢
      split at h
      · cases h
      · split at h
        · cases h
        · split at h
          · cases h
          · exact execute_up total hup c.engine db.schema (applied_of_afterClose h)

end ServiceRuntime.Migrate
