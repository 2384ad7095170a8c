import ServiceRuntime.Migrate.Run

/-!
# Which Operation a Command Names

`validate` parses a trimmed copy of the command in lower case and drops the result of the parse.
`execute` compares the command as it was given. So options may be valid, and name an operation, and
still not be executed: `Up` or ` up ` are refused once the migrator has been built.

The flag and the environment variable store what `ParseCommand` returns. The difference shows for
commands that are written into the struct.
-/

namespace ServiceRuntime.Migrate

open GoStrings

/-! ## Operations of the runner -/

/-- What `execute` asks of the migrator. -/
inductive Operation where
  /-- `Up()`. -/
  | up
  /-- `Steps(n)`. -/
  | steps (n : Int)
  /-- Nothing, for `version`. -/
  | none
  deriving DecidableEq

def operation (downSteps : Int) (parsed : String) : Operation :=
  if parsed = "up" then .up else if parsed = "down" then .steps (-downSteps) else .none

/-- The `switch` of `execute`. -/
def dispatch (isPrint : Char → Bool) (o : Options) : Except String Operation :=
  if o.command = "up" then .ok .up
  else if o.command = "down" then .ok (.steps (-o.downSteps))
  else if o.command = "version" then .ok .none
  else .error ("unsupported migrate command " ++ goQuote isPrint o.command)

/-- An operation on the database; the options that reach it have positive steps. -/
def Operation.perform (total : Nat) (c : Conditions) (schema : Schema) :
    Operation → Schema × Except (List MigrateError) Bool
  | .up => applied (Migrate.up total c schema)
  | .steps n => applied (stepsDown (-n).toNat c schema)
  | .none => (schema, .ok false)

theorem execute_eq_perform (total : Nat) (o : Options) (c : Conditions) (schema : Schema) :
    execute total o c schema =
      match dispatch c.isPrint o with
      | .ok op => op.perform total c schema
      | .error err => (schema, .error [.other err]) := by
  unfold execute dispatch
  split
  · rfl
  · split
    · simp only [Operation.perform, neg_neg]
    · split
      · rfl
      · rfl

/-! ## Valid options -/

/-- The commands as the package writes them; the empty one stands for the default. -/
def Options.Literal (o : Options) : Prop :=
  o.command = "" ∨ o.command = "up" ∨ o.command = "down" ∨ o.command = "version"

instance (o : Options) : Decidable o.Literal := inferInstanceAs (Decidable (_ ∨ _ ∨ _ ∨ _))

theorem withDefaults_command (o : Options) :
    o.withDefaults.command = commandString o.command := rfl

theorem Options.steps_of_validate {isPrint : Char → Bool} {o : Options}
    (h : o.validate isPrint = none) : 1 ≤ o.downSteps := by
  unfold Options.validate at h
  split at h
  · cases h
  · split at h
    · cases h
    · omega

/-- A command that is dispatched is one of the literal ones. -/
theorem Options.literal_of_dispatch {isPrint : Char → Bool} {o : Options} {op : Operation}
    (h : dispatch isPrint o.withDefaults = .ok op) : o.Literal := by
  unfold dispatch at h
  rw [withDefaults_command] at h
  -- the default is the only change that is made to a command
  have hgiven : ∀ name, commandString o.command = name →
      o.command = "" ∨ o.command = name := by
    intro name hname
    unfold commandString at hname
    split at hname
    · rename_i hempty
      exact .inl hempty
    · exact .inr hname
  unfold Options.Literal
  split at h
  · rename_i hup
    rcases hgiven _ hup with hcommand | hcommand
    · exact .inl hcommand
    · exact .inr (.inl hcommand)
  · split at h
    · rename_i hdown
      rcases hgiven _ hdown with hcommand | hcommand
      · exact .inl hcommand
      · exact .inr (.inr (.inl hcommand))
    · split at h
      · rename_i hversion
        rcases hgiven _ hversion with hcommand | hcommand
        · exact .inl hcommand
        · exact .inr (.inr (.inr hcommand))
      · cases h

theorem Options.dispatch_of_literal {o : Options} (h : o.Literal) :
    ∃ parsed, parseCommand o.command = some parsed ∧ ∀ isPrint,
      dispatch isPrint o.withDefaults = .ok (operation o.withDefaults.downSteps parsed) := by
  unfold dispatch
  rw [withDefaults_command]
  rcases h with h | h | h | h <;> rw [h]
  · exact ⟨"up", by decide, fun _ => rfl⟩
  · exact ⟨"up", by decide, fun _ => rfl⟩
  · exact ⟨"down", by decide, fun _ => rfl⟩
  · exact ⟨"version", by decide, fun _ => rfl⟩

/-- **Valid options are executed exactly if their command is literal**: then, and only then,
    `execute` goes to the operation that `ParseCommand` names, with at least one step for a
    rollback, and does not end with the error for unsupported commands. -/
theorem valid_options_execute_iff (isPrint : Char → Bool) (o : Options)
    (h : o.withDefaults.validate isPrint = none) :
    (∃ parsed, parseCommand o.command = some parsed ∧
        dispatch isPrint o.withDefaults = .ok (operation o.withDefaults.downSteps parsed) ∧
        1 ≤ o.withDefaults.downSteps ∧
        ∀ total c schema, execute total o.withDefaults c schema =
          (operation o.withDefaults.downSteps parsed).perform total c schema) ↔
      o.Literal := by
  constructor
  · rintro ⟨parsed, -, hdispatch, -⟩
    exact Options.literal_of_dispatch hdispatch
  · intro hliteral
    obtain ⟨parsed, hparsed, hdispatch⟩ := Options.dispatch_of_literal hliteral
    refine ⟨parsed, hparsed, hdispatch isPrint, Options.steps_of_validate h,
      fun total c schema => ?_⟩
    rw [execute_eq_perform, hdispatch]

/-- A rollback of three migrations. -/
theorem valid_options_execute_down :
    dispatch Char.isAlphanum (Options.withDefaults ⟨"down", 3, " schema_migrations "⟩) =
      .ok (.steps (-3)) := by
  obtain ⟨parsed, hparsed, hdispatch, -⟩ :=
    (valid_options_execute_iff Char.isAlphanum ⟨"down", 3, " schema_migrations "⟩
      (by decide)).mpr (by decide)
  have hdown : parseCommand "down" = some "down" := by decide
  rw [hdown, Option.some.injEq] at hparsed
  rw [hdispatch, ← hparsed]
  rfl

/-- `Up` passes the validation, names `Up()`, and is refused by `execute`. -/
theorem valid_options_refused :
    (Options.withDefaults ⟨"Up", 0, ""⟩).validate Char.isAlphanum = none ∧
      parseCommand "Up" = some "up" ∧
      dispatch Char.isAlphanum (Options.withDefaults ⟨"Up", 0, ""⟩) =
        .error "unsupported migrate command \"Up\"" := by
  decide

end ServiceRuntime.Migrate
