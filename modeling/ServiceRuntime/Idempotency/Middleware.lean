import ServiceRuntime.GoStrings
import ServiceRuntime.Transition.System
import ServiceRuntime.Idempotency.Store

/-!
# The Idempotency Middleware

`MiddlewareWithOptions` wraps an HTTP handler. A request first passes checks that touch
nothing shared (`prepare`); it then works through the store, one SQL statement at a time,
and runs the handler in between:

    throttle → cleanup → select → insert → handler → complete

Requests of many goroutines interleave between these points in every order. Each
statement is atomic; it may fail, and then has no effect, and it always fails when the
request's context is already cancelled. A `Cleanup` may also come from elsewhere (another
replica, an operator) with any clock value.

The system keeps a log of what happened, newest first, which no step reads.
-/

namespace ServiceRuntime.Idempotency

open GoStrings GoTime Storage Transition

/-! ## Requests and options -/

/-- What the middleware reads from an `*http.Request`. -/
structure HttpRequest where
  /-- `Header.Get("Idempotency-Key")`, empty when the header is absent. -/
  idempotencyKey : String
  method : String
  path : String
  /-- What `io.ReadAll` returns for the body, `none` for an error. -/
  body : Option (List UInt8)
  /-- The organization of the actor in the request's context, if there is an actor. -/
  organizationID : Option String

/-- The arguments of `httpkit.WriteError`. -/
structure HttpError where
  status : Nat
  code : String
  message : String
  deriving DecidableEq

/-- `ScopeFunc`; an error is represented by its text. -/
abbrev ScopeFunc := HttpRequest → Except String String

def errScopeUnavailable : String := "idempotency_scope_unavailable"

/-- `DefaultScope`: organization, method and path. -/
def defaultScope : ScopeFunc := fun request =>
  match request.organizationID with
  | none => .error errScopeUnavailable
  | some organizationID =>
    if trimSpace organizationID = "" then .error errScopeUnavailable
    else .ok (organizationID ++ ":" ++ request.method ++ ":" ++ request.path)

/-- `RequestHash`, over the SHA-256 function of the standard library. -/
def requestHash (sha256 : List UInt8 → List UInt8) (method path : String)
    (body : List UInt8) : String :=
  hexEncodeToString (sha256 (bytes (method ++ ":" ++ path ++ ":") ++ body))

/-- `Options`, as the caller fills it in. -/
structure Options where
  ttl : Duration
  cleanupInterval : Duration
  scopeFunc : Option ScopeFunc

/-- Options after `withDefaults`. -/
structure Settings where
  ttl : Duration
  cleanupInterval : Duration
  scopeFunc : ScopeFunc
  ttl_pos : 0 < ttl.ns
  cleanupInterval_pos : 0 < cleanupInterval.ns

/-- `DefaultTTL`, 24 hours. -/
def defaultTTL : Duration := ⟨24 * 3600 * 1000000000, by decide, by decide⟩

/-- `DefaultCleanupInterval`, 5 minutes. -/
def defaultCleanupInterval : Duration := ⟨5 * 60 * 1000000000, by decide, by decide⟩

/-- `if d <= 0 { d = fallback }`. -/
def positiveOr (d fallback : Duration) : Duration := if d.ns ≤ 0 then fallback else d

theorem positiveOr_pos (d : Duration) {fallback : Duration} (h : 0 < fallback.ns) :
    0 < (positiveOr d fallback).ns := by
  unfold positiveOr
  split
  · exact h
  · omega

def Options.withDefaults (opts : Options) : Settings where
  ttl := positiveOr opts.ttl defaultTTL
  cleanupInterval := positiveOr opts.cleanupInterval defaultCleanupInterval
  scopeFunc := opts.scopeFunc.getD defaultScope
  ttl_pos := positiveOr_pos _ (by decide)
  cleanupInterval_pos := positiveOr_pos _ (by decide)

/-! ## Before the store -/

/-- What a request brings to the store. -/
structure Prepared where
  scope : String
  key : String
  hash : String
  deriving DecidableEq

/-- The checks before the store is touched: key, scope and body, in this order. -/
def prepare (cfg : Settings) (sha256 : List UInt8 → List UInt8) (request : HttpRequest) :
    Except HttpError Prepared :=
  let key := trimSpace request.idempotencyKey
  if key = "" then
    .error ⟨400, "missing_idempotency_key", "Idempotency-Key header is required"⟩
  else
    match cfg.scopeFunc request with
    | .error err => .error ⟨500, "idempotency_scope_failed", err⟩
    | .ok scope =>
      match request.body with
      | none => .error ⟨400, "invalid_body", "unable to read request body"⟩
      | some body => .ok ⟨scope, key, requestHash sha256 request.method request.path body⟩

/-- How the middleware reports an error of `Begin`. -/
def BeginError.httpError : BeginError → HttpError
  | .errConflict =>
    ⟨409, "idempotency_conflict", "Idempotency key already exists for a different request"⟩
  | .errPending => ⟨409, "idempotency_in_progress", "A matching request is still in progress"⟩
  | .other message => ⟨500, "idempotency_failed", message⟩

/-! ## Requests in progress -/

inductive Response where
  /-- `Begin` failed, or a check before it. -/
  | error (err : HttpError)
  /-- The stored response was replayed. -/
  | replay (result : ReplayResult)
  /-- The handler answered with `result`; `stored` says whether `Complete` succeeded. -/
  | handled (result : ReplayResult) (stored : Bool)
  | panicked
  deriving DecidableEq

/-- Where a request is in the middleware: what it does next. -/
inductive Phase where
  /-- Enter the section under `lastCleanupMu`. -/
  | throttling
  | cleaning
  | selecting
  /-- `select` found no row: run the `insert` of `Begin` and commit. -/
  | inserting
  /-- `Begin` returned `nil, nil`: call the handler. -/
  | admitted
  | handling
  /-- The handler has returned: call `Complete` with this response. -/
  | completing (result : ReplayResult)
  /-- The middleware is finished with the request. -/
  | done (response : Response)
  deriving DecidableEq

/-- A request that passed `prepare`. -/
structure Request where
  prepared : Prepared
  /-- `opts.Now()`, read once. -/
  now : Int
  /-- Whether the request's context has been cancelled. -/
  cancelled : Bool
  phase : Phase
  deriving DecidableEq

/-- The error of a statement issued by a request: that of the database if there is one, and
    always an error once the context is cancelled. -/
def Request.statement (r : Request) (fault : Option String) : Option String :=
  if r.cancelled then some "context canceled" else fault

/-- What happened, for the record. A request is named by its position in the system, `i`,
    and what it brought to the store, `p`. -/
inductive Entry where
  /-- The `insert` of the request was committed and `Begin` returned a first execution. -/
  | admitted (i : Nat) (p : Prepared)
  | executing (i : Nat) (p : Prepared)
  /-- The request called `Complete` with `result`. -/
  | completing (i : Nat) (p : Prepared) (result : ReplayResult)
  /-- `Begin` of the request returned `result` for a replay. -/
  | replayed (i : Nat) (p : Prepared) (result : ReplayResult)
  /-- A `Cleanup` at `now` deleted `row`. -/
  | deleted (row : Row) (now : Int)
  deriving DecidableEq

/-- The middleware in use: the table, the throttle of `Cleanup`, all requests so far, and
    the log. -/
structure Sys where
  store : Store
  lastCleanup : Int
  requests : List Request
  log : List Entry

namespace Sys

def put (s : Sys) (i : Nat) (r : Request) : Sys := { s with requests := s.requests.set i r }

def note (s : Sys) (e : Entry) : Sys := { s with log := e :: s.log }

/-- The effect of `Cleanup` at `now`. -/
def sweep (s : Sys) (now : Int) : Sys :=
  { s with
    store := s.store.cleanup now
    log := (s.store.expired now).map (Entry.deleted · now) ++ s.log }

/-- `lastCleanup.IsZero() || now.Sub(lastCleanup) >= opts.CleanupInterval`. -/
def shouldCleanup (cfg : Settings) (s : Sys) (now : Int) : Bool :=
  isZero s.lastCleanup || decide (cfg.cleanupInterval.ns ≤ (sub now s.lastCleanup).ns)

end Sys

/-! ## Steps -/

/-- What a request can do, or what can happen to it. A `fault` is an error of the database. -/
inductive Action where
  /-- Its client disconnects or its deadline passes. -/
  | cancel
  /-- The section under `lastCleanupMu`. -/
  | throttle
  | cleanup (fault : Option String)
  | select (fault : Option String)
  | insert (fault : Option String)
  /-- `next.ServeHTTP` is called. -/
  | start
  /-- The handler returns, with what the capturing writer recorded. -/
  | finish (statusCode : Int) (contentType : String) (body : List UInt8)
  | panic
  | complete (completedAt : Int) (fault : Option String)
  deriving DecidableEq

inductive Event where
  /-- A request arrives; `now` is what `opts.Now()` returns for it. -/
  | arrive (request : HttpRequest) (now : Int)
  | act (i : Nat) (action : Action)
  /-- `Cleanup` is run from elsewhere. -/
  | sweep (now : Int)

def duplicateKey : String := "duplicate key value violates unique constraint"

def captured (statusCode : Int) (contentType : String) (body : List UInt8) : ReplayResult where
  statusCode := statusCode
  contentType := if contentType = "" then "application/json" else contentType
  body := body

def failBegin (s : Sys) (i : Nat) (r : Request) (err : BeginError) : Sys :=
  s.put i { r with phase := .done (.error err.httpError) }

/-- `Begin` after its `select` has succeeded. -/
def afterSelect (s : Sys) (i : Nat) (r : Request) : Sys :=
  match decideBegin (s.store.get r.prepared.scope r.prepared.key) r.prepared.hash with
  | .insert => s.put i { r with phase := .inserting }
  | .replay result =>
    (s.put i { r with phase := .done (.replay result) }).note
      (.replayed i r.prepared result)
  | .fail err => failBegin s i r err

/-- The `insert` of `Begin` and its commit: the unique constraint decides. -/
def tryInsert (cfg : Settings) (s : Sys) (i : Nat) (r : Request) : Sys :=
  -- nothing was locked since the `select`, so another request may have inserted meanwhile
  match s.store.insert
      (Store.newRow r.prepared.scope r.prepared.key r.prepared.hash cfg.ttl r.now i) with
  | none => failBegin s i r (.other duplicateKey)
  | some store =>
    ({ s with store := store }.put i { r with phase := .admitted }).note
      (.admitted i r.prepared)

/-- `Complete`; its error is only logged. -/
def tryComplete (s : Sys) (i : Nat) (r : Request) (result : ReplayResult) (completedAt : Int)
    (err : Option String) : Sys :=
  match err with
  | some _ =>
    (s.put i { r with phase := .done (.handled result false) }).note
      (.completing i r.prepared result)
  | none =>
    ({ s with
        store := s.store.complete r.prepared.scope r.prepared.key result completedAt }.put i
      { r with phase := .done (.handled result true) }).note (.completing i r.prepared result)

/-- One action of request `i`, which is in state `r`. -/
def act (cfg : Settings) (s : Sys) (i : Nat) (r : Request) (action : Action) : Option Sys :=
  match r.phase, action with
  | _, .cancel => some (s.put i { r with cancelled := true })
  | .throttling, .throttle =>
    -- `lastCleanup` is set under the mutex, before the `Cleanup` it stands for is run
    if s.shouldCleanup cfg r.now then
      some ({ s with lastCleanup := r.now }.put i { r with phase := .cleaning })
    else
      some (s.put i { r with phase := .selecting })
  | .cleaning, .cleanup fault =>
    match r.statement fault with
    -- the error of `Cleanup` is logged and otherwise ignored
    | some _ => some (s.put i { r with phase := .selecting })
    | none => some ((s.sweep r.now).put i { r with phase := .selecting })
  | .selecting, .select fault =>
    match r.statement fault with
    | some err => some (failBegin s i r (.other err))
    | none => some (afterSelect s i r)
  | .inserting, .insert fault =>
    match r.statement fault with
    | some err => some (failBegin s i r (.other err))
    | none => some (tryInsert cfg s i r)
  | .admitted, .start =>
    some ((s.put i { r with phase := .handling }).note (.executing i r.prepared))
  | .handling, .finish statusCode contentType body =>
    some (s.put i { r with phase := .completing (captured statusCode contentType body) })
  -- nothing is deferred: a panic leaves the middleware without `Complete`
  | .handling, .panic => some (s.put i { r with phase := .done .panicked })
  -- `Complete` gets the context of the request, so it fails once that is cancelled
  | .completing result, .complete completedAt fault =>
    some (tryComplete s i r result completedAt (r.statement fault))
  | _, _ => none

def step (cfg : Settings) (sha256 : List UInt8 → List UInt8) (s : Sys) : Event → Option Sys
  | .arrive request now =>
    match prepare cfg sha256 request with
    -- answered at once, without touching anything shared
    | .error _ => some s
    | .ok prepared =>
      some { s with requests := s.requests ++ [⟨prepared, now, false, .throttling⟩] }
  | .act i action => (s.requests[i]?).bind fun r => act cfg s i r action
  | .sweep now => some (s.sweep now)

def initial : Sys := ⟨KeyedTable.empty, zeroTime, [], []⟩

/-- The middleware with options `opts`, over any SHA-256 function. -/
def middleware (opts : Options) (sha256 : List UInt8 → List UInt8) : System Sys Event where
  init s := s = initial
  step := step opts.withDefaults sha256

end ServiceRuntime.Idempotency
