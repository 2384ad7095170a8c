import ServiceRuntime.Idempotency.Steps

/-!
# Keys Left Pending

A row is pending from its insertion until a `Complete` writes the response. `Complete` is
called after the handler has returned, with the request's own context, and nothing is
deferred. So a request can leave the middleware with its row still pending in two ways: the
handler panics, or the context is cancelled by the time `Complete` is called. From then on
`Begin` answers every retry with `ErrPending` until the row expires.

The result says that these two are the only ways, for a request that finishes with a healthy
database.
-/

namespace ServiceRuntime.Idempotency

open GoTime Storage Transition

/-! ## The last step of a request -/

/-- A step with which the middleware finishes a request that was admitted, the database
    being healthy: the handler panics, or `Complete` is called and returns. -/
def Action.finishes : Action → Bool
  | .panic => true
  | .complete _ none => true
  | _ => false

variable {cfg : Settings} {s s' : Sys}

theorem act_panic {i : Nat} {r : Request} (h : act cfg s i r .panic = some s') :
    s'.store = s.store := by
  cases hphase : r.phase with
  | handling =>
    simp only [act, hphase, Option.some.injEq] at h
    rw [← h]
    rfl
  | _ => simp [act, hphase] at h

theorem act_complete {i : Nat} {r : Request} {completedAt : Int}
    (h : act cfg s i r (.complete completedAt none) = some s') :
    ∃ result, s'.store = if r.cancelled then s.store
      else s.store.complete r.prepared.scope r.prepared.key result completedAt := by
  cases hphase : r.phase with
  | completing result =>
    simp only [act, hphase, Option.some.injEq] at h
    refine ⟨result, ?_⟩
    rw [← h]
    -- the statement fails exactly when the context is cancelled
    cases hcancelled : r.cancelled with
    | true | false => simp [Request.statement, hcancelled, tryComplete, Sys.put, Sys.note]
  | _ => simp [act, hphase] at h

theorem Store.notPending_complete (store : Store) (scope key : String) (result : ReplayResult)
    (completedAt : Int) :
    (store.complete scope key result completedAt).NotPending scope key := by
  intro row hrow
  rw [Store.get_complete] at hrow
  obtain ⟨old, -, rfl⟩ := Option.map_eq_some_iff.mp hrow
  intro hpending
  cases hpending

/-! ## Whose rows are pending -/

/-- The phases in which the row of a request may be pending: the request is still at work
    between `Begin` and `Complete`, or it panicked, or its `Complete` failed. -/
def Phase.mayBePending : Phase → Bool
  | .admitted => true
  | .handling => true
  | .completing _ => true
  | .done .panicked => true
  | .done (.handled _ stored) => !stored
  | _ => false

def PendingOwned (s : Sys) : Prop :=
  ∀ row ∈ s.store.rows, row.Pending → ∃ r, s.requests[row.insertedBy]? = some r ∧
    row.ident = (r.prepared.scope, r.prepared.key) ∧ r.phase.mayBePending = true

theorem Quiet.mayBePending {phase phase' : Phase} {action : Action}
    (h : Quiet phase action phase') (hmay : phase.mayBePending = true) :
    phase'.mayBePending = true := by
  cases h <;> first | rfl | cases hmay

/-- Request `k` moves from `r₀` to `r₁`, no row becomes pending, and the row of `k` is not
    pending if `r₁` is in a phase that does not allow it. -/
theorem PendingOwned.move (h : PendingOwned s) {k : Nat} {r₀ r₁ : Request}
    (hk : s.requests[k]? = some r₀) (hrequests : s'.requests = s.requests.set k r₁)
    (hprepared : r₁.prepared = r₀.prepared)
    (hrows : ∀ row ∈ s'.store.rows, row.Pending → row ∈ s.store.rows ∧
      (row.ident = (r₀.prepared.scope, r₀.prepared.key) → r₀.phase.mayBePending = true →
        r₁.phase.mayBePending = true)) : PendingOwned s' := by
  intro row hrow hpending
  obtain ⟨hold, hphase⟩ := hrows row hrow hpending
  obtain ⟨r, hr, hident, hmay⟩ := h row hold hpending
  rw [hrequests]
  rcases getElem?_of_set hk hr with ⟨rfl, -, hmoved⟩ | ⟨-, hkept⟩
  · exact ⟨r₁, hmoved, hprepared ▸ hident, hphase hident hmay⟩
  · exact ⟨r, hkept, hident, hmay⟩

theorem Step.pendingOwned {e : Event} (h : Step cfg s e s') (hown : PendingOwned s) :
    PendingOwned s' := by
  cases h with
  | refuse => exact hown
  | arrive =>
    intro row hrow hpending
    obtain ⟨r, hr, hrest⟩ := hown row hrow hpending
    exact ⟨r, getElem?_concat_iff.mpr (.inl hr), hrest⟩
  | sweep =>
    intro row hrow hpending
    exact hown row (Store.mem_of_mem_cleanup hrow) hpending
  | cancel hk => exact hown.move hk rfl (by rfl) fun row hrow _ => ⟨hrow, fun _ hmay => hmay⟩
  | quiet hk hmove =>
    exact hown.move hk rfl (by rfl) fun row hrow _ => ⟨hrow, fun _ => hmove.mayBePending⟩
  | cleanup hk hphase =>
    refine hown.move hk rfl (by rfl) fun row hrow _ => ⟨Store.mem_of_mem_cleanup hrow, ?_⟩
    simp [hphase, Phase.mayBePending]
  | replay hk hphase =>
    refine hown.move hk rfl (by rfl) fun row hrow _ => ⟨hrow, ?_⟩
    simp [hphase, Phase.mayBePending]
  | @insert i r fault store hk hphase hinsert =>
    obtain ⟨-, hrows⟩ := KeyedTable.insert_eq_some hinsert
    intro row hrow hpending
    rcases List.mem_cons.mp (hrows ▸ hrow) with rfl | hold
    -- the row just inserted belongs to the request just admitted
    · exact ⟨_, (getElem?_set_iff hk).mpr (.inl ⟨rfl, rfl⟩), rfl, rfl⟩
    · have hothers : PendingOwned (s.put i { r with phase := .admitted }) :=
        hown.move hk rfl rfl fun row hrow _ => ⟨hrow, fun _ _ => rfl⟩
      exact hothers row hold hpending
  | start hk hphase =>
    exact hown.move hk rfl (by rfl) fun row hrow _ => ⟨hrow, fun _ _ => rfl⟩
  | @complete i r result completedAt fault stored store hk hphase hstore =>
    rcases hstore with ⟨rfl, rfl⟩ | ⟨rfl, rfl⟩
    · exact hown.move hk rfl (by rfl) fun row hrow _ => ⟨hrow, fun _ _ => rfl⟩
    · refine hown.move hk rfl (by rfl) fun row hrow hpending => ?_
      -- the row of the key has just been completed, so a pending row is of another key
      have hother : row.ident ≠ (r.prepared.scope, r.prepared.key) := by
        intro hident
        exact Store.notPending_complete _ _ _ _ _ row
          (KeyedTable.find_eq_some_iff.mpr ⟨hrow, hident⟩) hpending
      rcases Store.mem_complete hrow with ⟨old, hold, rfl⟩ | hold
      · cases hpending
      · exact ⟨hold, fun hident => absurd hident hother⟩

/-- **No other pending rows.** In every reachable state a pending row was inserted by a
    request that is still between `Begin` and `Complete`, or that panicked, or whose
    `Complete` failed. -/
theorem pendingOwned_of_reachable {opts : Options} {sha256 : List UInt8 → List UInt8} {s : Sys}
    (hs : (middleware opts sha256).Reachable s) : PendingOwned s := by
  refine System.Reachable.invariant ?_ ?_ hs
  · rintro s rfl row hrow
    cases hrow
  · intro s e s' hown hstep
    exact (Step.of_step hstep).pendingOwned hown

/-! ## Main result -/

/-- **When a finished request leaves its key pending.** After the last step of a request the
    row of its scope and key is not pending if and only if the request got to call `Complete`
    under a context that was not cancelled, or the row was not pending before that step. And
    while the row is not pending, no retry is answered with `ErrPending`. -/
theorem not_pending_after_finish_iff (opts : Options) (sha256 : List UInt8 → List UInt8)
    {s s' : Sys} {i : Nat} {r : Request} {action : Action} (hr : s.requests[i]? = some r)
    (hfinish : action.finishes = true)
    (hstep : (middleware opts sha256).step s (.act i action) = some s') :
    (s'.store.NotPending r.prepared.scope r.prepared.key ↔
      (action ≠ .panic ∧ r.cancelled = false) ∨
        s.store.NotPending r.prepared.scope r.prepared.key) ∧
    (s'.store.NotPending r.prepared.scope r.prepared.key →
      ∀ hash, decideBegin (s'.store.get r.prepared.scope r.prepared.key) hash ≠
        .fail .errPending) := by
  refine ⟨?_, fun hnot hash => decideBegin_ne_errPending hnot hash⟩
  obtain ⟨r', hr', hact⟩ := Option.bind_eq_some_iff.mp hstep
  rw [hr, Option.some.injEq] at hr'
  subst hr'
  cases action with
  | panic => simp [act_panic hact]
  | complete completedAt fault =>
    cases fault with
    | some err => cases hfinish
    | none =>
      obtain ⟨result, hstore⟩ := act_complete hact
      cases hcancelled : r.cancelled with
      -- `Complete` runs under the context of the request: cancelled, it writes nothing
      | true => simp [hstore, hcancelled]
      | false => simp [hstore, hcancelled, Store.notPending_complete]
  | _ => cases hfinish

def handledOnce : List Event :=
  [.arrive ⟨"k", "POST", "/x", some [1], some "org"⟩ 10, .act 0 .throttle,
    .act 0 (.cleanup none), .act 0 (.select none), .act 0 (.insert none), .act 0 .start,
    .act 0 (.finish 201 "" [65])]

theorem not_pending_after_complete :
    ∃ s s' r, (middleware ⟨Duration.second, Duration.second, none⟩ id).run initial
        handledOnce = some s ∧
      s.requests[0]? = some r ∧
      (middleware ⟨Duration.second, Duration.second, none⟩ id).step s
        (.act 0 (.complete 11 none)) = some s' ∧
      s'.store.NotPending r.prepared.scope r.prepared.key := by
  obtain ⟨s, hrun⟩ : ∃ s, (middleware ⟨Duration.second, Duration.second, none⟩ id).run initial
      handledOnce = some s := Option.isSome_iff_exists.mp rfl
  have hr : ((middleware ⟨Duration.second, Duration.second, none⟩ id).run initial
      handledOnce).map (fun s => s.requests[0]?) =
      some (some ⟨⟨"org:POST:/x", "k", "504f53543a2f783a01"⟩, 10, false,
        .completing ⟨201, "application/json", [65]⟩⟩) := rfl
  rw [hrun, Option.map_some, Option.some.injEq] at hr
  have hstep : (middleware ⟨Duration.second, Duration.second, none⟩ id).step s
      (.act 0 (.complete 11 none)) = some _ := Option.bind_eq_some_iff.mpr ⟨_, hr, rfl⟩
  exact ⟨s, _, _, hrun, hr, hstep,
    (not_pending_after_finish_iff _ _ hr rfl hstep).1.mpr (.inl ⟨by simp, rfl⟩)⟩

/-- The client disconnects while the handler runs; the handler returns all the same, and
    `Complete` is called under the cancelled context. -/
def cancelledWhileHandling : List Event :=
  [.arrive ⟨"k", "POST", "/x", some [1], some "org"⟩ 10, .act 0 .throttle,
    .act 0 (.cleanup none), .act 0 (.select none), .act 0 (.insert none), .act 0 .start,
    .act 0 .cancel, .act 0 (.finish 201 "" [65]), .act 0 (.complete 11 none)]

def panicWhileHandling : List Event :=
  [.arrive ⟨"k", "POST", "/x", some [1], some "org"⟩ 10, .act 0 .throttle,
    .act 0 (.cleanup none), .act 0 (.select none), .act 0 (.insert none), .act 0 .start,
    .act 0 .panic]

/-- The row that the panic leaves behind has its owner. -/
theorem pendingOwned_of_panic :
    ∃ s, (middleware ⟨Duration.second, Duration.second, none⟩ id).Reachable s ∧
      (∃ row ∈ s.store.rows, row.Pending) ∧ PendingOwned s := by
  have hrun : (middleware ⟨Duration.second, Duration.second, none⟩ id).run initial
      panicWhileHandling = some _ := rfl
  have hreach := System.Reachable.run (.init rfl) hrun
  exact ⟨_, hreach, ⟨_, List.mem_cons_self, rfl⟩, pendingOwned_of_reachable hreach⟩

/-- After the run its only request is finished, and a retry of it is told that it is still
    in progress. -/
def LeavesPending (es : List Event) : Prop :=
  ∃ s r, (middleware ⟨Duration.second, Duration.second, none⟩ id).run initial es = some s ∧
    s.requests = [r] ∧ r.phase.isDone = true ∧
    ¬ s.store.NotPending r.prepared.scope r.prepared.key ∧
    decideBegin (s.store.get r.prepared.scope r.prepared.key) r.prepared.hash =
      .fail .errPending

theorem finished_request_left_pending :
    LeavesPending cancelledWhileHandling ∧ LeavesPending panicWhileHandling := by
  constructor
  · exact ⟨_, _, rfl, rfl, rfl, by decide, rfl⟩
  · exact ⟨_, _, rfl, rfl, rfl, by decide, rfl⟩

end ServiceRuntime.Idempotency
