import ServiceRuntime.Idempotency.Origins

/-!
# Whose Response Is Replayed

`Begin` compares the stored hash before it replays a response, so one would expect a
replayed response to come from a request with the same body. It does as long as each
response is stored in a row of its own request's hash. `Complete`, however, finds the row
by scope and key alone. When the row of a slow request has expired and was deleted, and
another request with a different body has inserted a row for the same key, the slow
request's `Complete` writes its response into that row.

The result of this module is about the runs in which that does not happen; the run that
breaks the property is at the end.
-/

namespace ServiceRuntime.Idempotency

open GoTime Storage Transition

/-! ## Rows hold responses of their own request -/

/-- A replay is justified when its response was passed to `Complete` by a request with the
    same scope, key and hash. -/
def ReplaysOwn : Entry → List Entry → Prop
  | .replayed _ p result, older => ∃ i, Entry.completing i p result ∈ older
  | _, _ => True

/-- Every stored response was passed to `Complete` by a request with the scope, key and hash
    of the row; and so was every response replayed so far. -/
structure OwnResponses (store : Store) (log : List Entry) : Prop where
  stored : ∀ row ∈ store.rows, ∀ code, row.responseCode = some code →
    ∃ i, Entry.completing i row.prepared (row.replay code) ∈ log
  justified : Justified ReplaysOwn log

theorem Origins.ownResponses {store : Store} {log : List Entry}
    (h : Origins (· = ·) store log) : OwnResponses store log where
  stored := by
    intro row hrow code hcode
    obtain ⟨i, q, rfl, hi⟩ := h.stored row hrow code hcode
    exact ⟨i, hi⟩
  justified := by
    refine h.justified.mono fun e older he => ?_
    cases e with
    | replayed j p result =>
      obtain ⟨i, q, rfl, hi⟩ := he
      exact ⟨i, hi⟩
    | _ => trivial

/-! ## Runs in which every response goes to its own row -/

/-- When a request calls `Complete`, the row stored for its scope and key, if there is one,
    has the hash of the request. -/
def CompletesOwnRow (s : Sys) (e : Event) : Prop :=
  ∀ i ∈ e.completer?, ∀ r ∈ s.requests[i]?,
    ∀ row ∈ s.store.get r.prepared.scope r.prepared.key, row.requestHash = r.prepared.hash

instance (s : Sys) (e : Event) : Decidable (CompletesOwnRow s e) :=
  inferInstanceAs (Decidable (∀ i ∈ e.completer?, ∀ r ∈ s.requests[i]?,
    ∀ row ∈ s.store.get r.prepared.scope r.prepared.key, row.requestHash = r.prepared.hash))

theorem CompletesOwnRow.prepared_eq {s : Sys} {e : Event} (h : CompletesOwnRow s e) :
    ∀ i ∈ e.completer?, ∀ r ∈ s.requests[i]?,
      ∀ row ∈ s.store.get r.prepared.scope r.prepared.key, r.prepared = row.prepared := by
  intro i hi r hr row hrow
  obtain ⟨-, hscope, hkey⟩ := Store.get_eq_some_iff.mp hrow
  rw [Row.prepared, hscope, hkey, h i hi r hr row hrow]

/-- **A replay belongs to its request**, in every run in which each `Complete` finds either
    no row or a row of its own hash: the replayed response was passed to `Complete` by a
    request with the scope, key and hash of the request that gets it. -/
theorem replay_belongs_when_completes_own (opts : Options) (sha256 : List UInt8 → List UInt8)
    {s : Sys} (hs : (middleware opts sha256).ReachableBy CompletesOwnRow s) :
    ∀ newer j p result older, s.log = newer ++ .replayed j p result :: older →
      ∃ i, Entry.completing i p result ∈ older := by
  have horigins : Origins (· = ·) s.store s.log := by
    refine System.ReachableBy.invariant (P := fun s => Origins (· = ·) s.store s.log) ?_ ?_ hs
    · rintro s rfl
      exact Origins.empty
    · intro s e s' _ horigins hok hstep
      exact (Step.of_step hstep).origins hok.prepared_eq horigins
  intro newer j p result older hlog
  have hjust := horigins.ownResponses.justified
  rw [hlog] at hjust
  exact hjust.of_split

/-- Two requests of the same key with different bodies: the row of the first expires while
    its handler runs, the second inserts its own, the first completes, and a retry of the
    second arrives. -/
def crossedComplete : List Event :=
  [.arrive ⟨"k", "POST", "/x", some [1], some "org"⟩ 10, .act 0 .throttle,
    .act 0 (.cleanup none), .act 0 (.select none), .act 0 (.insert none), .act 0 .start,
    .arrive ⟨"k", "POST", "/x", some [2], some "org"⟩ 2000000000, .act 1 .throttle,
    .act 1 (.cleanup none), .act 1 (.select none), .act 1 (.insert none), .act 1 .start,
    .act 0 (.finish 201 "" [65]), .act 0 (.complete 2000000001 none),
    .arrive ⟨"k", "POST", "/x", some [2], some "org"⟩ 2000000002, .act 2 .throttle,
    .act 2 (.select none)]

/-- The retry of the second request is answered with the response of the first, and no
    request with its hash has called `Complete` at all. -/
theorem replay_of_other_request :
    ∃ s p result, (middleware ⟨Duration.second, Duration.second, none⟩ id).run initial
        crossedComplete = some s ∧
      Entry.replayed 2 p result ∈ s.log ∧
      ∀ i result', Entry.completing i p result' ∉ s.log := by
  obtain ⟨s, hrun⟩ : ∃ s, (middleware ⟨Duration.second, Duration.second, none⟩ id).run initial
      crossedComplete = some s := Option.isSome_iff_exists.mp rfl
  have hlog : ((middleware ⟨Duration.second, Duration.second, none⟩ id).run initial
      crossedComplete).map Sys.log =
      some [.replayed 2 ⟨"org:POST:/x", "k", "504f53543a2f783a02"⟩ ⟨201, "application/json", [65]⟩,
        .completing 0 ⟨"org:POST:/x", "k", "504f53543a2f783a01"⟩ ⟨201, "application/json", [65]⟩,
        .executing 1 ⟨"org:POST:/x", "k", "504f53543a2f783a02"⟩,
        .admitted 1 ⟨"org:POST:/x", "k", "504f53543a2f783a02"⟩,
        .deleted ⟨"org:POST:/x", "k", "504f53543a2f783a01", 10, 1000000010, none, none, none,
          none, 0⟩ 2000000000,
        .executing 0 ⟨"org:POST:/x", "k", "504f53543a2f783a01"⟩,
        .admitted 0 ⟨"org:POST:/x", "k", "504f53543a2f783a01"⟩] := rfl
  rw [hrun, Option.map_some, Option.some.injEq] at hlog
  refine ⟨s, ⟨"org:POST:/x", "k", "504f53543a2f783a02"⟩, ⟨201, "application/json", [65]⟩, hrun,
    ?_, ?_⟩
  · rw [hlog]
    exact List.mem_cons_self
  · intro i result'
    rw [hlog]
    simp

/-- A request completes, and its retry is replayed. -/
def completeThenRetry : List Event :=
  [.arrive ⟨"k", "POST", "/x", some [1], some "org"⟩ 10, .act 0 .throttle,
    .act 0 (.cleanup none), .act 0 (.select none), .act 0 (.insert none), .act 0 .start,
    .act 0 (.finish 201 "" [65]), .act 0 (.complete 11 none),
    .arrive ⟨"k", "POST", "/x", some [1], some "org"⟩ 12, .act 1 .throttle,
    .act 1 (.select none)]

theorem replay_of_own_request :
    ∃ s p older, (middleware ⟨Duration.second, Duration.second, none⟩ id).runBy CompletesOwnRow
        initial completeThenRetry = some s ∧
      s.log = .replayed 1 p ⟨201, "application/json", [65]⟩ :: older ∧
      ∃ i, Entry.completing i p ⟨201, "application/json", [65]⟩ ∈ older := by
  obtain ⟨s, hrun⟩ : ∃ s, (middleware ⟨Duration.second, Duration.second, none⟩ id).runBy
      CompletesOwnRow initial completeThenRetry = some s := Option.isSome_iff_exists.mp rfl
  have hs : (middleware ⟨Duration.second, Duration.second, none⟩ id).ReachableBy
      CompletesOwnRow s := System.ReachableBy.runBy (.init rfl) hrun
  have hhead : ((middleware ⟨Duration.second, Duration.second, none⟩ id).runBy CompletesOwnRow
      initial completeThenRetry).map (fun s => s.log.head?) =
      some (some (.replayed 1 ⟨"org:POST:/x", "k", "504f53543a2f783a01"⟩
        ⟨201, "application/json", [65]⟩)) := rfl
  rw [hrun, Option.map_some, Option.some.injEq] at hhead
  obtain ⟨older, hlog⟩ := List.head?_eq_some_iff.mp hhead
  exact ⟨s, _, older, hrun, hlog, replay_belongs_when_completes_own _ _ hs [] 1 _ _ older hlog⟩

end ServiceRuntime.Idempotency
