import ServiceRuntime.GoTime
import ServiceRuntime.Storage.KeyedTable

/-!
# The Idempotency Store

`PostgresStore` keeps one row per (scope, idempotency key) in the table
`api_idempotency_keys`. Its three methods are sequences of SQL statements; this module
has one definition per statement, each an atomic function of the table:

- `Store.cleanup` — the statement of `Cleanup`
- `Store.get` followed by `decideBegin` — the `select` of `Begin` and the branch on its row
- `Store.insert` — the `insert` of `Begin`, refused by the unique constraint
- `Store.complete` — the statement of `Complete`

How concurrent requests interleave these statements is the subject of the modules above
this one.
-/

namespace ServiceRuntime.Idempotency

open GoTime Storage

/-! ## Rows -/

/-- `ReplayResult`: a stored HTTP response. -/
structure ReplayResult where
  statusCode : Int
  contentType : String
  body : List UInt8
  deriving DecidableEq

/-- A row of `api_idempotency_keys`. Columns that may be null are options; `response_code`
    is null until the request has been completed. -/
structure Row where
  scope : String
  key : String
  requestHash : String
  createdAt : Int
  expiresAt : Int
  responseCode : Option Int
  responseBody : Option (List UInt8)
  contentType : Option String
  completedAt : Option Int
  /-- Not a column: the request that inserted the row. -/
  insertedBy : Nat
  deriving DecidableEq

namespace Row

def ident (row : Row) : String × String := (row.scope, row.key)

def Pending (row : Row) : Prop := row.responseCode = none

/-- The response that `Begin` reads from a completed row. -/
def replay (row : Row) (code : Int) : ReplayResult where
  statusCode := code
  contentType := row.contentType.getD ""
  body := row.responseBody.getD []

/-- The columns that `Complete` writes. -/
def completed (row : Row) (result : ReplayResult) (completedAt : Int) : Row :=
  { row with
    responseCode := some result.statusCode
    responseBody := some result.body
    contentType := some result.contentType
    completedAt := some completedAt }

theorem replay_completed (row : Row) (result : ReplayResult) (completedAt : Int) :
    (row.completed result completedAt).replay result.statusCode = result := rfl

end Row

/-! ## Statements -/

/-- The table, with its unique constraint. -/
abbrev Store := KeyedTable Row Row.ident

namespace Store

/-- `deleteExpiredIdempotencyKeysSQL`: `delete ... where expires_at <= now`. -/
def cleanup (store : Store) (now : Int) : Store :=
  store.keepWhere fun row => !decide (row.expiresAt ≤ now)

def expired (store : Store) (now : Int) : List Row :=
  store.rows.filter fun row => decide (row.expiresAt ≤ now)

/-- `getIdempotencyKeySQL`. -/
def get (store : Store) (scope key : String) : Option Row := store.find (scope, key)

/-- The row that `insertIdempotencyKeySQL` writes. -/
def newRow (scope key requestHash : String) (ttl : Duration) (now : Int)
    (insertedBy : Nat) : Row where
  scope := scope
  key := key
  requestHash := requestHash
  createdAt := now
  expiresAt := add now ttl
  responseCode := none
  responseBody := none
  contentType := none
  completedAt := none
  insertedBy := insertedBy

/-- `completeIdempotencyKeySQL`: the row is found by scope and key alone. -/
def complete (store : Store) (scope key : String) (result : ReplayResult)
    (completedAt : Int) : Store :=
  store.update (scope, key) (fun row => row.completed result completedAt) fun _ => rfl

variable {store : Store} {row : Row}

theorem get_eq_some_iff {scope key : String} :
    store.get scope key = some row ↔
      row ∈ store.rows ∧ row.scope = scope ∧ row.key = key := by
  rw [get, KeyedTable.find_eq_some_iff, Row.ident, Prod.mk.injEq]

theorem mem_expired {now : Int} :
    row ∈ store.expired now ↔ row ∈ store.rows ∧ row.expiresAt ≤ now := by
  simp [expired]

theorem mem_cleanup_or_expired (h : row ∈ store.rows) (now : Int) :
    row ∈ (store.cleanup now).rows ∨ row ∈ store.expired now := by
  by_cases hexp : row.expiresAt ≤ now
  · exact .inr (mem_expired.mpr ⟨h, hexp⟩)
  · exact .inl (KeyedTable.mem_keepWhere.mpr ⟨h, by simpa using hexp⟩)

theorem mem_of_mem_cleanup {now : Int} (h : row ∈ (store.cleanup now).rows) : row ∈ store.rows :=
  (KeyedTable.mem_keepWhere.mp h).1

theorem get_complete (store : Store) (scope key : String) (result : ReplayResult)
    (completedAt : Int) :
    (store.complete scope key result completedAt).get scope key =
      (store.get scope key).map fun row => row.completed result completedAt :=
  KeyedTable.find_update ..

theorem mem_complete {scope key : String} {result : ReplayResult} {completedAt : Int}
    (h : row ∈ (store.complete scope key result completedAt).rows) :
    (∃ old, store.get scope key = some old ∧ old.completed result completedAt = row) ∨
      row ∈ store.rows := by
  rcases KeyedTable.mem_update h with ⟨old, hmem, hident, hrow⟩ | ⟨hmem, -⟩
  · exact .inl ⟨old, KeyedTable.find_eq_some_iff.mpr ⟨hmem, hident⟩, hrow⟩
  · exact .inr hmem

theorem exists_mem_complete (h : row ∈ store.rows) (scope key : String) (result : ReplayResult)
    (completedAt : Int) :
    ∃ row' ∈ (store.complete scope key result completedAt).rows,
      row'.insertedBy = row.insertedBy ∧ row'.ident = row.ident := by
  refine ⟨_, List.mem_map_of_mem h, ?_⟩
  split
  · exact ⟨rfl, rfl⟩
  · exact ⟨rfl, rfl⟩

/-- The row stored for a scope and key, if there is one, has its response. -/
def NotPending (store : Store) (scope key : String) : Prop :=
  ∀ row, store.get scope key = some row → ¬ row.Pending

instance (store : Store) (scope key : String) : Decidable (store.NotPending scope key) :=
  match h : store.get scope key with
  | none => isTrue fun row hrow => by rw [h] at hrow; cases hrow
  | some row =>
    if hcode : row.responseCode = none then
      isFalse fun hall => hall row h hcode
    else
      isTrue fun row' hrow' => by
        rw [h, Option.some.injEq] at hrow'
        exact hrow' ▸ hcode

end Store

/-! ## The decision of `Begin` -/

/-- The errors of `Begin`: its two sentinels, and what the database driver returns. -/
inductive BeginError where
  | errConflict
  | errPending
  | other (message : String)
  deriving DecidableEq

/-- What `Begin` does once its `select` has returned. -/
inductive BeginDecision where
  /-- `sql.ErrNoRows`: go on to the `insert`. -/
  | insert
  | replay (result : ReplayResult)
  | fail (err : BeginError)
  deriving DecidableEq

/-- The branch of `Begin` on the selected row. The hash is compared first, so a row of a
    different request is a conflict whether or not it is pending. -/
def decideBegin (row : Option Row) (requestHash : String) : BeginDecision :=
  match row with
  | none => .insert
  | some row =>
    if row.requestHash ≠ requestHash then .fail .errConflict
    else
      match row.responseCode with
      | none => .fail .errPending
      | some code => .replay (row.replay code)

theorem decideBegin_eq_replay {row : Option Row} {requestHash : String} {result : ReplayResult}
    (h : decideBegin row requestHash = .replay result) :
    ∃ r code, row = some r ∧ r.requestHash = requestHash ∧ r.responseCode = some code ∧
      r.replay code = result := by
  cases row with
  | none => cases h
  | some r =>
    simp only [decideBegin] at h
    split at h
    · cases h
    · rename_i hhash
      split at h
      · cases h
      · rename_i code hcode
        exact ⟨r, code, rfl, not_not.mp hhash, hcode, BeginDecision.replay.inj h⟩

theorem decideBegin_of_ne {r : Row} {requestHash : String} (h : r.requestHash ≠ requestHash) :
    decideBegin (some r) requestHash = .fail .errConflict :=
  if_pos h

theorem decideBegin_ne_errPending {store : Store} {scope key : String}
    (h : store.NotPending scope key) (requestHash : String) :
    decideBegin (store.get scope key) requestHash ≠ .fail .errPending := by
  intro hdecide
  cases hrow : store.get scope key with
  | none =>
    rw [hrow] at hdecide
    cases hdecide
  | some row =>
    simp only [hrow, decideBegin] at hdecide
    split at hdecide
    · cases hdecide
    · split at hdecide
      · rename_i hcode
        exact h row hrow hcode
      · cases hdecide

end ServiceRuntime.Idempotency
