import ServiceRuntime.Idempotency.Steps

/-!
# Expired Rows

A row carries the time at which its key expires, but the query of `Begin` does not look at it.
Expired rows go away only when a `Cleanup` deletes them. The middleware runs `Cleanup` before
`Begin`, though not more often than the cleanup interval allows, and it goes on when `Cleanup`
fails. So a key outlives its time to live until some `Cleanup` succeeds after it.

The first half of the result is about one call of `Begin`: it treats an expired row as no row
exactly if there is none. The second half is about runs: after a successful `Cleanup` at a time
`t` no `Begin` at a time up to `t` meets an expired row, as long as no request inserts a row that
has already expired.
-/

namespace ServiceRuntime.Idempotency

open GoTime Storage Transition

/-! ## One call of `Begin` -/

/-- `Begin` with no error of the database and no other request in between: the table after it,
    and its result (no response for a first execution). -/
def Store.begin (store : Store) (scope key requestHash : String) (ttl : Duration) (now : Int)
    (insertedBy : Nat) : Store × Except BeginError (Option ReplayResult) :=
  match decideBegin (store.get scope key) requestHash with
  | .insert =>
    match store.insert (newRow scope key requestHash ttl now insertedBy) with
    | none => (store, .error (.other duplicateKey))
    | some store' => (store', .ok none)
  | .replay result => (store, .ok (some result))
  | .fail err => (store, .error err)

theorem Store.begin_of_row {store : Store} {scope key : String} {row : Row}
    (h : store.get scope key = some row) (requestHash : String) (ttl : Duration) (now : Int)
    (insertedBy : Nat) : (store.begin scope key requestHash ttl now insertedBy).2 ≠ .ok none := by
  rw [Store.begin, h]
  cases hdecide : decideBegin (some row) requestHash with
  | insert =>
    simp only [decideBegin] at hdecide
    split at hdecide
    · cases hdecide
    · split at hdecide
      · cases hdecide
      · cases hdecide
  | replay result | fail err => simp

/-- How a request goes on after `Begin`. -/
def Phase.ofBegin : Except BeginError (Option ReplayResult) → Phase
  | .ok none => .admitted
  | .ok (some result) => .done (.replay result)
  | .error err => .done (.error err.httpError)

/-- `Store.begin` is what the statements of one request do when no other comes in between. -/
theorem begin_of_steps (opts : Options) (sha256 : List UInt8 → List UInt8) {s : Sys} {i : Nat}
    {r : Request} (hr : s.requests[i]? = some r) (hphase : r.phase = .selecting)
    (hcancelled : r.cancelled = false) :
    ∃ es s', (middleware opts sha256).run s (.act i (.select none) :: es) = some s' ∧
      (es = [] ∨ es = [.act i (.insert none)]) ∧
      let result := s.store.begin r.prepared.scope r.prepared.key r.prepared.hash
        opts.withDefaults.ttl r.now i
      s'.store = result.1 ∧ s'.requests[i]? = some { r with phase := .ofBegin result.2 } := by
  have hself : ∀ r', (s.requests.set i r')[i]? = some r' := fun r' =>
    (getElem?_set_iff hr).mpr (.inl ⟨rfl, rfl⟩)
  have hselect : step opts.withDefaults sha256 s (.act i (.select none)) =
      some (afterSelect s i r) := by
    simp [step, hr, act, hphase, Request.statement, hcancelled]
  cases hdecide : decideBegin (s.store.get r.prepared.scope r.prepared.key) r.prepared.hash with
  | insert =>
    -- the request still has the table to itself when it inserts
    let s₁ := s.put i { r with phase := .inserting }
    have hs₁ : afterSelect s i r = s₁ := by rw [afterSelect, hdecide]
    have hinsert : step opts.withDefaults sha256 s₁ (.act i (.insert none)) =
        some (tryInsert opts.withDefaults s₁ i { r with phase := .inserting }) := by
      have hr₁ : s₁.requests[i]? = some { r with phase := .inserting } := hself _
      simp [step, hr₁, act, Request.statement, hcancelled]
    refine ⟨[.act i (.insert none)], tryInsert opts.withDefaults s₁ i { r with phase := .inserting },
      ?_, .inr rfl, ?_⟩
    · rw [hs₁] at hselect
      exact (System.run_cons_eq_some _).mpr
        ⟨s₁, hselect, (System.run_cons_eq_some _).mpr ⟨_, hinsert, rfl⟩⟩
    · have hself₁ : ∀ r', (s₁.requests.set i r')[i]? = some r' := fun r' =>
        (getElem?_set_iff (hself _)).mpr (.inl ⟨rfl, rfl⟩)
      have hstore : s₁.store = s.store := rfl
      simp only [Store.begin, hdecide, tryInsert, hstore]
      cases hnew : s.store.insert (Store.newRow r.prepared.scope r.prepared.key r.prepared.hash
          opts.withDefaults.ttl r.now i) with
      | none | some store => exact ⟨rfl, hself₁ _⟩
  | replay result | fail err =>
    refine ⟨[], afterSelect s i r, ?_, .inl rfl, ?_⟩
    · exact (System.run_cons_eq_some _).mpr ⟨_, hselect, rfl⟩
    · simp only [Store.begin, afterSelect, hdecide]
      exact ⟨rfl, hself _⟩

/-! ## Honouring the time to live -/

/-- If the row for this key has expired, `Begin` at `now` does what it does without a row: it
    neither replays the stored response nor fails with a conflict or a pending request. -/
def HonoursTTL (store : Store) (scope key requestHash : String) (ttl : Duration) (now : Int)
    (insertedBy : Nat) : Prop :=
  ∀ row, store.get scope key = some row → row.expiresAt ≤ now →
    (store.begin scope key requestHash ttl now insertedBy).2 = .ok none

variable {t now : Int} {sha256 : List UInt8 → List UInt8}

theorem honoursTTL_iff {store : Store} {scope key requestHash : String} {ttl : Duration}
    {insertedBy : Nat} :
    HonoursTTL store scope key requestHash ttl now insertedBy ↔
      ∀ row, store.get scope key = some row → now < row.expiresAt := by
  constructor
  · intro hhonours row hrow
    by_contra hexpired
    exact Store.begin_of_row hrow requestHash ttl now insertedBy
      (hhonours row hrow (not_lt.mp hexpired))
  · intro hfresh row hrow hexpired
    exact absurd (hfresh row hrow) (not_lt.mpr hexpired)

def NoneExpired (store : Store) (now : Int) : Prop := ∀ row ∈ store.rows, now < row.expiresAt

theorem NoneExpired.honoursTTL {store : Store} (h : NoneExpired store now)
    (scope key requestHash : String) (ttl : Duration) (insertedBy : Nat) :
    HonoursTTL store scope key requestHash ttl now insertedBy := by
  rw [honoursTTL_iff]
  intro row hrow
  exact h row (Store.get_eq_some_iff.mp hrow).1

theorem noneExpired_cleanup (h : now ≤ t) (store : Store) : NoneExpired (store.cleanup t) now := by
  intro row hrow
  have hkept : ¬ row.expiresAt ≤ t := by
    simpa using (KeyedTable.mem_keepWhere.mp hrow).2
  omega

/-! ## Runs after a `Cleanup` -/

/-- An event in which a `Cleanup` with clock `t` succeeds: that of a request that is due and not
    cancelled, or one from elsewhere. -/
inductive Sweeps (s : Sys) : Event → Int → Prop where
  | request {i : Nat} {r : Request} (hr : s.requests[i]? = some r) (hphase : r.phase = .cleaning)
      (hcancelled : r.cancelled = false) : Sweeps s (.act i (.cleanup none)) r.now
  | elsewhere {t : Int} : Sweeps s (.sweep t) t

theorem Sweeps.store {cfg : Settings} {s s' : Sys} {e : Event} (h : Sweeps s e t)
    (hstep : step cfg sha256 s e = some s') : s'.store = s.store.cleanup t := by
  cases h with
  | request hr hphase hcancelled =>
    simp only [step, hr, Option.bind_some, act, hphase, Request.statement, hcancelled] at hstep
    cases hstep
    rfl
  | elsewhere =>
    cases hstep
    rfl

def Event.inserter? : Event → Option Nat
  | .act i (.insert _) => some i
  | _ => none

/-- A row that is inserted expires only after `now`. -/
def InsertsFresh (cfg : Settings) (now : Int) (s : Sys) (e : Event) : Prop :=
  ∀ i ∈ e.inserter?, ∀ r ∈ s.requests[i]?, now < add r.now cfg.ttl

instance (cfg : Settings) (now : Int) (s : Sys) (e : Event) :
    Decidable (InsertsFresh cfg now s e) :=
  inferInstanceAs (Decidable (∀ i ∈ e.inserter?, ∀ r ∈ s.requests[i]?, now < add r.now cfg.ttl))

/-- Rows only come in by an insert, and their expiry never changes. -/
theorem Step.noneExpired {cfg : Settings} {s s' : Sys} {e : Event} (h : Step cfg s e s')
    (hfresh : InsertsFresh cfg now s e) (hnone : NoneExpired s.store now) :
    NoneExpired s'.store now := by
  have hsweep : ∀ t, NoneExpired (s.store.cleanup t) now := fun t row hrow =>
    hnone row (Store.mem_of_mem_cleanup hrow)
  cases h with
  | refuse | arrive => exact hnone
  | sweep => exact hsweep _
  | cancel | quiet => exact hnone
  | cleanup => exact hsweep _
  | replay => exact hnone
  | @insert i r fault store hr hphase hinsert =>
    intro row hrow
    obtain ⟨-, hrows⟩ := KeyedTable.insert_eq_some hinsert
    rcases List.mem_cons.mp (hrows ▸ hrow) with rfl | hold
    · exact hfresh i rfl r hr
    · exact hnone row hold
  | start => exact hnone
  | complete _ _ hstore =>
    rcases hstore with ⟨-, rfl⟩ | ⟨-, rfl⟩
    · exact hnone
    -- `Complete` writes the response columns only
    · intro row hrow
      rcases Store.mem_complete hrow with ⟨old, hold, rfl⟩ | hold
      · exact hnone old (Store.get_eq_some_iff.mp hold).1
      · exact hnone row hold

theorem noneExpired_of_runBy {opts : Options} {s t : Sys} {es : List Event}
    (hnone : NoneExpired s.store now)
    (hrun : (middleware opts sha256).runBy (InsertsFresh opts.withDefaults now) s es = some t) :
    NoneExpired t.store now := by
  induction es generalizing s with
  | nil =>
    rw [System.runBy, Option.some.injEq] at hrun
    exact hrun ▸ hnone
  | cons e es ih =>
    rw [System.runBy] at hrun
    split at hrun
    · rename_i hfresh
      obtain ⟨s', hstep, hrest⟩ := Option.bind_eq_some_iff.mp hrun
      exact ih ((Step.of_step hstep).noneExpired hfresh hnone) hrest
    · cases hrun

/-- **When `Begin` honours the time to live.** In every state of the middleware, for every key and
    every time:

    1. `Begin` does so exactly if the row stored for the key, if there is one, has not expired
    2. this holds for all keys after any run that starts with a `Cleanup` at or after that time
       and in which every inserted row expires later -/
theorem begin_honours_ttl_iff (opts : Options) (sha256 : List UInt8 → List UInt8) (s : Sys)
    (now : Int) :
    (∀ scope key hash i,
      HonoursTTL s.store scope key hash opts.withDefaults.ttl now i ↔
        ∀ row, s.store.get scope key = some row → now < row.expiresAt) ∧
    (∀ e t s₁ es s₂, Sweeps s e t → now ≤ t → (middleware opts sha256).step s e = some s₁ →
      (middleware opts sha256).runBy (InsertsFresh opts.withDefaults now) s₁ es = some s₂ →
        ∀ scope key hash i, HonoursTTL s₂.store scope key hash opts.withDefaults.ttl now i) := by
  refine ⟨fun scope key hash i => honoursTTL_iff, ?_⟩
  intro e t s₁ es s₂ hsweeps hle hstep hrun scope key hash i
  have hclean : NoneExpired s₁.store now := by
    rw [hsweeps.store hstep]
    exact noneExpired_cleanup hle s.store
  exact (noneExpired_of_runBy hclean hrun).honoursTTL scope key hash _ i

/-- A request completes; its key expires after a second; a retry comes after two, when the next
    `Cleanup` is not due for an hour. -/
def throttledRetry : List Event :=
  [.arrive ⟨"k", "POST", "/x", some [1], some "org"⟩ 10, .act 0 .throttle,
    .act 0 (.cleanup none), .act 0 (.select none), .act 0 (.insert none), .act 0 .start,
    .act 0 (.finish 201 "" [65]), .act 0 (.complete 11 none),
    .arrive ⟨"k", "POST", "/x", some [1], some "org"⟩ 2000000000, .act 1 .throttle]

/-- A time to live of one second, and an hour between cleanups. -/
def shortTTL : Options :=
  ⟨Duration.second, ⟨3600 * 1000000000, by decide, by decide⟩, none⟩

/-- The retry is answered from the expired row. -/
theorem expired_row_replayed :
    ∃ s row, (middleware shortTTL id).run initial throttledRetry = some s ∧
      s.store.get "org:POST:/x" "k" = some row ∧ row.expiresAt ≤ 2000000000 ∧
      (s.store.begin "org:POST:/x" "k" "504f53543a2f783a01" shortTTL.withDefaults.ttl 2000000000
        1).2 = .ok (some ⟨201, "application/json", [65]⟩) ∧
      ¬ HonoursTTL s.store "org:POST:/x" "k" "504f53543a2f783a01" shortTTL.withDefaults.ttl
        2000000000 1 := by
  refine ⟨_, _, rfl, rfl, by decide, rfl, ?_⟩
  rw [honoursTTL_iff]
  intro hfresh
  exact absurd (hfresh _ rfl) (by decide)

/-- A `Cleanup` from elsewhere in time: the retry is admitted. -/
theorem begin_honours_ttl_after_cleanup :
    ∃ s s₁ s₂, (middleware shortTTL id).run initial throttledRetry = some s ∧
      (middleware shortTTL id).step s (.sweep 2000000000) = some s₁ ∧
      (middleware shortTTL id).runBy (InsertsFresh shortTTL.withDefaults 2000000000) s₁
        [.act 1 (.select none), .act 1 (.insert none)] = some s₂ ∧
      HonoursTTL s₂.store "org:POST:/x" "k" "504f53543a2f783a01" shortTTL.withDefaults.ttl
        2000000000 2 := by
  obtain ⟨s, hrun⟩ : ∃ s, (middleware shortTTL id).run initial throttledRetry = some s :=
    Option.isSome_iff_exists.mp rfl
  obtain ⟨s₂, hrest⟩ : ∃ s₂, (middleware shortTTL id).runBy
      (InsertsFresh shortTTL.withDefaults 2000000000) (s.sweep 2000000000)
        [.act 1 (.select none), .act 1 (.insert none)] = some s₂ := by
    have hsome : (((middleware shortTTL id).run initial throttledRetry).bind fun s =>
        (middleware shortTTL id).runBy (InsertsFresh shortTTL.withDefaults 2000000000)
          (s.sweep 2000000000) [.act 1 (.select none), .act 1 (.insert none)]).isSome := rfl
    rw [hrun, Option.bind_some] at hsome
    exact Option.isSome_iff_exists.mp hsome
  exact ⟨s, s.sweep 2000000000, s₂, hrun, rfl, hrest,
    (begin_honours_ttl_iff shortTTL id s 2000000000).2 _ _ _ _ _ .elsewhere le_rfl rfl hrest
      _ _ _ _⟩

end ServiceRuntime.Idempotency
