import Mathlib

/-!
# The Migration Engine

The part of golang-migrate that `migrate.Run` uses: `Up`, `Steps` with a negative count, and
`Version`. A version of the schema is represented by its position in the migration source, that
is, by the number of migrations up to it; the nil version is position zero.

Every call to the database or the source may fail. `Conditions` collects what happens during one
operation.

`readDown` and `readUp` hand over the migrations one by one and `runMigrations` runs them as they
come, so the two are one loop here.
-/

namespace ServiceRuntime.Migrate

/-! ## Schemas, errors and what can go wrong -/

/-- What the migrations table says. -/
structure Schema where
  version : Nat
  dirty : Bool
  deriving DecidableEq

/-- The errors that are told apart. -/
inductive MigrateError where
  /-- `ErrNoChange`. -/
  | noChange
  /-- `ErrDirty`. -/
  | dirty (version : Nat)
  /-- `os.ErrNotExist`. -/
  | notExist
  /-- `ErrShortLimit`. -/
  | shortLimit (short : Nat)
  | other (text : String)
  deriving DecidableEq

/-- The text of an error; a version in it is given by its position. -/
def MigrateError.text : MigrateError → String
  | noChange => "no change"
  | dirty version => "Dirty database version " ++ toString version ++ ". Fix and force version."
  | notExist => "file does not exist"
  | shortLimit short => "limit " ++ toString short ++ " short"
  | other text => text

/-- `errors.Join`, as text. -/
def joinedText (errs : List MigrateError) : String :=
  String.intercalate "\n" (errs.map MigrateError.text)

/-- What becomes of one migration. -/
inductive Fate where
  /-- The source does not give it. -/
  | unread (err : String)
  /-- `SetVersion(target, true)` fails, before or after the write. -/
  | unmarked (err : String) (written : Bool)
  | failed (err : String)
  /-- `SetVersion(target, false)` fails, before or after the write. -/
  | uncleaned (err : String) (written : Bool)
  | ran
  deriving DecidableEq

/-- What happens during one operation of the engine. -/
structure Conditions where
  lock : Option String
  version : Option String
  versionExists : Option String
  fate : Nat → Fate
  unlock : Option String
  /-- The table of Unicode that `%q` goes by. -/
  isPrint : Char → Bool

/-! ## Running migrations -/

/-- One migration of `runMigrations`, towards `target`. -/
def runMigration (target : Nat) (schema : Schema) : Fate → Schema × Option MigrateError
  | .unread err => (schema, some (.other err))
  | .unmarked err written => (if written then ⟨target, true⟩ else schema, some (.other err))
  | .failed err => (⟨target, true⟩, some (.other err))
  | .uncleaned err written => (⟨target, !written⟩, some (.other err))
  | .ran => (⟨target, false⟩, none)

/-- `readDown` with a limit, and `runMigrations`. -/
def runDown (fate : Nat → Fate) : Nat → Nat → Schema → Schema × Option MigrateError
  | 0, _, schema => (schema, none)
  | limit + 1, count, schema =>
    if schema.version = 0 then (schema, some (.shortLimit (limit + 1)))
    else
      match runMigration (schema.version - 1) schema (fate count) with
      | (schema', none) => runDown fate limit (count + 1) schema'
      | (schema', some err) => (schema', some err)

/-- `readUp` without a limit, and `runMigrations`; `left` migrations are to come. -/
def runUp (fate : Nat → Fate) : Nat → Nat → Schema → Schema × Option MigrateError
  | 0, count, schema => (schema, if count = 0 then some .noChange else none)
  | left + 1, count, schema =>
    match runMigration (schema.version + 1) schema (fate count) with
    | (schema', none) => runUp fate left (count + 1) schema'
    | (schema', some err) => (schema', some err)

/-! ## Operations

An operation returns the schema and the joined errors, none for success. -/

def unlockErr (c : Conditions) (errs : List MigrateError) : List MigrateError :=
  errs ++ (c.unlock.map .other).toList

/-- The frame that `Up` and `Steps` share: lock, read the version, refuse a dirty one, check that
    the source knows the version, unlock. -/
def locked (c : Conditions) (schema : Schema)
    (body : Schema → Schema × Option MigrateError) : Schema × List MigrateError :=
  match c.lock with
  | some err => (schema, [.other err])
  | none =>
    match c.version with
    | some err => (schema, unlockErr c [.other err])
    | none =>
      if schema.dirty then (schema, unlockErr c [.dirty schema.version])
      else
        match (if schema.version = 0 then none else c.versionExists) with
        | some err => (schema, unlockErr c [.other err])
        | none =>
          let (schema', err) := body schema
          (schema', unlockErr c err.toList)

/-- `Steps(-n)` for a positive `n`. -/
def stepsDown (n : Nat) (c : Conditions) (schema : Schema) : Schema × List MigrateError :=
  locked c schema fun schema =>
    if schema.version = 0 then (schema, some .notExist) else runDown c.fate n 0 schema

/-- `Up`, with a source of `total` migrations. -/
def up (total : Nat) (c : Conditions) (schema : Schema) : Schema × List MigrateError :=
  locked c schema fun schema =>
    if total = 0 ∧ schema.version = 0 then (schema, some .notExist)
    else runUp c.fate (total - schema.version) 0 schema

/-! ## How far down it goes -/

theorem runMigration_spec (target : Nat) (schema : Schema) (fate : Fate) :
    ((runMigration target schema fate).1.version = target ∨
      (runMigration target schema fate).1.version = schema.version) ∧
    ((runMigration target schema fate).2 = none →
      (runMigration target schema fate).1.version = target) ∧
    (runMigration target schema fate).2 ≠ some .noChange := by
  cases fate with
  | unmarked err written => cases written <;> simp [runMigration]
  | unread err | failed err | uncleaned err written | ran => simp [runMigration]

/-- `runDown` goes at most `limit` migrations down, and never up. Without an error it has gone
    exactly that far. -/
theorem runDown_spec (fate : Nat → Fate) (limit count : Nat) (schema : Schema) :
    (runDown fate limit count schema).1.version ≤ schema.version ∧
      schema.version ≤ (runDown fate limit count schema).1.version + limit ∧
      ((runDown fate limit count schema).2 = none →
        (runDown fate limit count schema).1.version + limit = schema.version) ∧
      (runDown fate limit count schema).2 ≠ some .noChange := by
  fun_induction runDown fate limit count schema with
  | case1 | case2 => simp
  | case3 limit count schema hversion schema' hrun ih =>
    obtain ⟨-, hone, -⟩ := runMigration_spec (schema.version - 1) schema (fate count)
    rw [hrun] at hone
    have hdown := hone rfl
    dsimp only at hdown
    obtain ⟨hle, hlimit, hok, hno⟩ := ih
    exact ⟨by omega, by omega, fun h => by have := hok h; omega, hno⟩
  | case4 limit count schema hversion schema' err hrun =>
    -- the migration that failed may have changed the version already
    obtain ⟨hone, -, hno⟩ := runMigration_spec (schema.version - 1) schema (fate count)
    rw [hrun] at hone hno
    dsimp only at hone ⊢
    exact ⟨by omega, by omega, by simp, hno⟩

/-- `locked` stops in its frame, with an error of its own, or it returns what its body does. -/
theorem locked_cases (c : Conditions) (schema : Schema)
    (body : Schema → Schema × Option MigrateError) :
    (∃ errs, locked c schema body = (schema, errs) ∧ errs ≠ [] ∧ MigrateError.noChange ∉ errs) ∨
      locked c schema body = ((body schema).1, unlockErr c (body schema).2.toList) := by
  have hframe : ∀ err, err ≠ MigrateError.noChange →
      unlockErr c [err] ≠ [] ∧ MigrateError.noChange ∉ unlockErr c [err] := by
    intro err hne
    cases hunlock : c.unlock <;> simp [unlockErr, hunlock, hne.symm]
  unfold locked
  split
  · exact .inl ⟨_, rfl, by simp, by simp⟩
  · split
    · exact .inl ⟨_, rfl, hframe _ (by simp)⟩
    · split
      · exact .inl ⟨_, rfl, hframe _ (by simp)⟩
      · split
        · exact .inl ⟨_, rfl, hframe _ (by simp)⟩
        · exact .inr rfl

theorem locked_fst (c : Conditions) (schema : Schema)
    (body : Schema → Schema × Option MigrateError) :
    (locked c schema body).1 = schema ∨ (locked c schema body).1 = (body schema).1 := by
  rcases locked_cases c schema body with ⟨errs, hlocked, -⟩ | hlocked <;> simp [hlocked]

/-- The errors of `locked` are those of its body, or of the frame. -/
theorem locked_snd (c : Conditions) (schema : Schema)
    (body : Schema → Schema × Option MigrateError) :
    (MigrateError.noChange ∈ (locked c schema body).2 → (body schema).2 = some .noChange) ∧
      ((locked c schema body).2 = [] →
        (body schema).2 = none ∧ (locked c schema body).1 = (body schema).1) := by
  rcases locked_cases c schema body with ⟨errs, hlocked, hne, hno⟩ | hlocked
  · rw [hlocked]
    exact ⟨fun h => absurd h hno, fun h => absurd h hne⟩
  · rw [hlocked]
    -- unlocking adds its own error, which is never `noChange`
    cases hunlock : c.unlock <;> simp [unlockErr, hunlock]

theorem stepsDown_version (n : Nat) (c : Conditions) (schema : Schema) :
    (stepsDown n c schema).1.version ≤ schema.version ∧
      schema.version ≤ (stepsDown n c schema).1.version + n := by
  unfold stepsDown
  rcases locked_fst c schema fun schema =>
    if schema.version = 0 then (schema, some .notExist) else runDown c.fate n 0 schema with h | h
  · rw [h]
    omega
  · rw [h]
    split
    · exact ⟨le_refl _, Nat.le_add_right _ _⟩
    · obtain ⟨hle, hlimit, -⟩ := runDown_spec c.fate n 0 schema
      exact ⟨hle, hlimit⟩

/-- `Steps(-n)` never reports `ErrNoChange`, and without an error it has gone exactly `n`
    migrations down. -/
theorem stepsDown_of_ok (n : Nat) (c : Conditions) (schema : Schema) :
    MigrateError.noChange ∉ (stepsDown n c schema).2 ∧
      ((stepsDown n c schema).2 = [] → (stepsDown n c schema).1.version + n = schema.version) := by
  obtain ⟨hno, hok⟩ := locked_snd c schema fun schema =>
    if schema.version = 0 then (schema, some .notExist) else runDown c.fate n 0 schema
  refine ⟨fun h => ?_, fun h => ?_⟩
  · have hbody := hno h
    split at hbody
    · cases hbody
    · exact (runDown_spec _ _ _ _).2.2.2 hbody
  · obtain ⟨hnone, hfst⟩ := hok h
    rw [stepsDown, hfst]
    split at hnone
    · cases hnone
    · rename_i hversion
      rw [if_neg hversion]
      exact (runDown_spec _ _ _ _).2.2.1 hnone

/-! ## How far up it goes -/

/-- If it ends without an error it has run all migrations, and there were some. `ErrNoChange` is
    for a source without further migrations. -/
theorem runUp_spec (fate : Nat → Fate) (left count : Nat) (schema : Schema) :
    ((runUp fate left count schema).2 = none →
      (runUp fate left count schema).1.version = schema.version + left ∧ (count = 0 → left ≠ 0)) ∧
    ((runUp fate left count schema).2 = some .noChange →
      (runUp fate left count schema).1.version = schema.version + left ∧ count + left = 0) := by
  fun_induction runUp fate left count schema with
  | case1 => simp
  | case2 left count schema schema' hrun ih =>
    obtain ⟨-, hone, -⟩ := runMigration_spec (schema.version + 1) schema (fate count)
    rw [hrun] at hone
    have hup := hone rfl
    dsimp only at hup
    exact ⟨fun h => ⟨by have := (ih.1 h).1; omega, by omega⟩, fun h => by have := (ih.2 h).2; omega⟩
  | case3 left count schema schema' err hrun =>
    obtain ⟨-, -, hno⟩ := runMigration_spec (schema.version + 1) schema (fate count)
    rw [hrun] at hno
    exact ⟨by simp, fun h => absurd h hno⟩

/-- **`Up` applies a migration exactly if it says so**: without an error it has, and with
    `ErrNoChange` it has not. -/
theorem up_spec (total : Nat) (c : Conditions) (schema : Schema) :
    ((up total c schema).2 = [] → schema.version < (up total c schema).1.version) ∧
      (MigrateError.noChange ∈ (up total c schema).2 →
        (up total c schema).1.version = schema.version) := by
  let body : Schema → Schema × Option MigrateError := fun schema =>
    if total = 0 ∧ schema.version = 0 then (schema, some .notExist)
    else runUp c.fate (total - schema.version) 0 schema
  obtain ⟨hno, hok⟩ := locked_snd c schema body
  refine ⟨fun h => ?_, fun h => ?_⟩
  -- no error of the frame, so the schema is the one that the body has left
  · obtain ⟨hnone, hfst⟩ := hok h
    show schema.version < (locked c schema body).1.version
    rw [hfst]
    dsimp only [body] at hnone ⊢
    split at hnone
    · cases hnone
    · rename_i hsource
      rw [if_neg hsource]
      obtain ⟨hversion, hleft⟩ := (runUp_spec _ _ _ _).1 hnone
      have hsome := hleft rfl
      omega
  -- the frame has no `ErrNoChange` of its own
  · have hbody := hno h
    show (locked c schema body).1.version = schema.version
    rcases locked_fst c schema body with hsame | hsame
    · rw [hsame]
    · rw [hsame]
      dsimp only [body] at hbody ⊢
      split at hbody
      · cases hbody
      · rename_i hsource
        rw [if_neg hsource]
        obtain ⟨hversion, hleft⟩ := (runUp_spec _ _ _ _).2 hbody
        omega

end ServiceRuntime.Migrate
