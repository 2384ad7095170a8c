import ServiceRuntime.Idempotency.Middleware

/-!
# What a Middleware Step Can Do

`Step` lists the steps of the middleware by what they write. Most steps only move one
request to its next phase (`Step.quiet`); the others are the arrivals, the statements
that change the table, and the points at which something is logged. Every invariant of
the following modules is proved by one case per constructor.

The first of them is `Sys.Tells`: the log entries of a request are determined by its phase.
So the log tells the truth about the requests, and facts about phases (a request executes
at most once, a finished request stays finished) become facts about the log.
-/

namespace ServiceRuntime.Idempotency

open Storage Transition

/-! ## The shapes of a step -/

/-- Moves of a request that write neither to the table nor to the log. -/
inductive Quiet : Phase → Action → Phase → Prop where
  | due : Quiet .throttling .throttle .cleaning
  | notDue : Quiet .throttling .throttle .selecting
  | cleanupFailed {fault : Option String} : Quiet .cleaning (.cleanup fault) .selecting
  | noRow {fault : Option String} : Quiet .selecting (.select fault) .inserting
  | selectFailed {fault : Option String} {err : HttpError} :
      Quiet .selecting (.select fault) (.done (.error err))
  | insertFailed {fault : Option String} {err : HttpError} :
      Quiet .inserting (.insert fault) (.done (.error err))
  | finish {statusCode : Int} {contentType : String} {body : List UInt8} :
      Quiet .handling (.finish statusCode contentType body)
        (.completing (captured statusCode contentType body))
  | panic : Quiet .handling .panic (.done .panicked)

/-- The steps of the middleware, by what they write. -/
inductive Step (cfg : Settings) (s : Sys) : Event → Sys → Prop where
  /-- The request was answered before it reached the store. -/
  | refuse {request : HttpRequest} {now : Int} : Step cfg s (.arrive request now) s
  | arrive {request : HttpRequest} {now : Int} {prepared : Prepared} :
      Step cfg s (.arrive request now)
        { s with requests := s.requests ++ [⟨prepared, now, false, .throttling⟩] }
  | sweep {now : Int} : Step cfg s (.sweep now) (s.sweep now)
  | cancel {i : Nat} {r : Request} (hr : s.requests[i]? = some r) :
      Step cfg s (.act i .cancel) (s.put i { r with cancelled := true })
  | quiet {i : Nat} {r : Request} {action : Action} {phase : Phase} {lastCleanup : Int}
      (hr : s.requests[i]? = some r) (hmove : Quiet r.phase action phase) :
      Step cfg s (.act i action)
        ({ s with lastCleanup := lastCleanup }.put i { r with phase := phase })
  | cleanup {i : Nat} {r : Request} {fault : Option String}
      (hr : s.requests[i]? = some r) (hphase : r.phase = .cleaning) :
      Step cfg s (.act i (.cleanup fault))
        ((s.sweep r.now).put i { r with phase := .selecting })
  | replay {i : Nat} {r : Request} {fault : Option String} {result : ReplayResult}
      (hr : s.requests[i]? = some r) (hphase : r.phase = .selecting)
      (hdecide : decideBegin (s.store.get r.prepared.scope r.prepared.key) r.prepared.hash =
        .replay result) :
      Step cfg s (.act i (.select fault))
        ((s.put i { r with phase := .done (.replay result) }).note
          (.replayed i r.prepared result))
  | insert {i : Nat} {r : Request} {fault : Option String} {store : Store}
      (hr : s.requests[i]? = some r) (hphase : r.phase = .inserting)
      (hinsert : s.store.insert
        (Store.newRow r.prepared.scope r.prepared.key r.prepared.hash cfg.ttl r.now i) =
          some store) :
      Step cfg s (.act i (.insert fault))
        (({ s with store := store }.put i { r with phase := .admitted }).note
          (.admitted i r.prepared))
  | start {i : Nat} {r : Request}
      (hr : s.requests[i]? = some r) (hphase : r.phase = .admitted) :
      Step cfg s (.act i .start)
        ((s.put i { r with phase := .handling }).note (.executing i r.prepared))
  /-- `Complete` was called; `store` is the table after it, successful or not. -/
  | complete {i : Nat} {r : Request} {result : ReplayResult} {completedAt : Int}
      {fault : Option String} {stored : Bool} {store : Store}
      (hr : s.requests[i]? = some r) (hphase : r.phase = .completing result)
      (hstore : stored = false ∧ store = s.store ∨ stored = true ∧
        store = s.store.complete r.prepared.scope r.prepared.key result completedAt) :
      Step cfg s (.act i (.complete completedAt fault))
        (({ s with store := store }.put i { r with phase := .done (.handled result stored) }).note
          (.completing i r.prepared result))

variable {cfg : Settings} {s s' : Sys} {i : Nat} {r : Request} {fault : Option String}
  {action : Action} {sha256 : List UInt8 → List UInt8}

theorem Step.of_afterSelect (hr : s.requests[i]? = some r) (hphase : r.phase = .selecting) :
    Step cfg s (.act i (.select fault)) (afterSelect s i r) := by
  unfold afterSelect
  split
  · exact .quiet hr (hphase ▸ .noRow)
  · rename_i result hdecide
    exact .replay hr hphase hdecide
  · exact .quiet hr (hphase ▸ .selectFailed)

theorem Step.of_tryInsert (hr : s.requests[i]? = some r) (hphase : r.phase = .inserting) :
    Step cfg s (.act i (.insert fault)) (tryInsert cfg s i r) := by
  unfold tryInsert
  split
  · exact .quiet hr (hphase ▸ .insertFailed)
  · rename_i store hinsert
    exact .insert hr hphase hinsert

theorem Step.of_tryComplete {result : ReplayResult} {completedAt : Int} (err : Option String)
    (hr : s.requests[i]? = some r) (hphase : r.phase = .completing result) :
    Step cfg s (.act i (.complete completedAt fault))
      (tryComplete s i r result completedAt err) := by
  cases err with
  | some _ => exact .complete hr hphase (.inl ⟨rfl, rfl⟩)
  | none => exact .complete hr hphase (.inr ⟨rfl, rfl⟩)

theorem Step.of_act (hr : s.requests[i]? = some r) (h : act cfg s i r action = some s') :
    Step cfg s (.act i action) s' := by
  unfold act at h
  -- one case for each pair of a phase and an action that `act` accepts, in its order
  split at h
  · cases h
    exact .cancel hr
  · rename_i hphase
    split at h
    · cases h
      exact .quiet hr (hphase ▸ .due)
    · cases h
      exact .quiet hr (hphase ▸ .notDue)
  · rename_i hphase
    split at h
    · cases h
      exact .quiet hr (hphase ▸ .cleanupFailed)
    · cases h
      exact .cleanup hr hphase
  · rename_i hphase
    split at h
    · cases h
      exact .quiet hr (hphase ▸ .selectFailed)
    · cases h
      exact .of_afterSelect hr hphase
  · rename_i hphase
    split at h
    · cases h
      exact .quiet hr (hphase ▸ .insertFailed)
    · cases h
      exact .of_tryInsert hr hphase
  · rename_i hphase
    cases h
    exact .start hr hphase
  · rename_i hphase
    cases h
    exact .quiet hr (hphase ▸ .finish)
  · rename_i hphase
    cases h
    exact .quiet hr (hphase ▸ .panic)
  · rename_i hphase
    cases h
    exact .of_tryComplete _ hr hphase
  · cases h

theorem Step.of_step {e : Event} (h : step cfg sha256 s e = some s') : Step cfg s e s' := by
  cases e with
  | arrive request now =>
    simp only [step] at h
    split at h
    · cases h
      exact .refuse
    · cases h
      exact .arrive
  | act i action =>
    obtain ⟨r, hr, hact⟩ := Option.bind_eq_some_iff.mp h
    exact .of_act hr hact
  | sweep now =>
    cases h
    exact .sweep

/-! ## Finished requests stay finished -/

def Phase.isDone : Phase → Bool
  | .done _ => true
  | _ => false

theorem Quiet.not_done {phase phase' : Phase} (h : Quiet phase action phase') :
    phase.isDone = false := by
  cases h <;> rfl

/-- Request `k` moved from `r₀` to `r₁`; no finished request changed its phase. -/
theorem Sys.phase_set {k : Nat} {r₀ r₁ : Request} (hk : s.requests[k]? = some r₀)
    (hrequests : s'.requests = s.requests.set k r₁)
    (hphase : r₁.phase = r₀.phase ∨ r₀.phase.isDone = false) (hr : s.requests[i]? = some r)
    (hdone : r.phase.isDone = true) : ∃ r', s'.requests[i]? = some r' ∧ r'.phase = r.phase := by
  rw [hrequests]
  rcases getElem?_of_set hk hr with ⟨rfl, -, hmoved⟩ | ⟨-, hkept⟩
  · refine ⟨r₁, hmoved, ?_⟩
    rcases hphase with hsame | hnot
    · exact hsame
    -- a request that moves on was not finished
    · rw [hdone] at hnot
      cases hnot
  · exact ⟨r, hkept, rfl⟩

theorem Step.done {e : Event} (h : Step cfg s e s') (hr : s.requests[i]? = some r)
    (hdone : r.phase.isDone = true) : ∃ r', s'.requests[i]? = some r' ∧ r'.phase = r.phase := by
  cases h with
  | refuse => exact ⟨r, hr, rfl⟩
  | arrive => exact ⟨r, getElem?_concat_iff.mpr (.inl hr), rfl⟩
  | sweep => exact ⟨r, hr, rfl⟩
  | cancel hk => exact Sys.phase_set hk rfl (.inl (by rfl)) hr hdone
  | quiet hk hmove => exact Sys.phase_set hk rfl (.inr hmove.not_done) hr hdone
  | cleanup hk hphase
  | replay hk hphase | insert hk hphase
  | start hk hphase
  | complete hk hphase => exact Sys.phase_set hk rfl (.inr (hphase ▸ rfl)) hr hdone

theorem done_of_run {opts : Options} {t : Sys} {es : List Event}
    (hrun : (middleware opts sha256).run s es = some t) (hr : s.requests[i]? = some r)
    (hdone : r.phase.isDone = true) : ∃ r', t.requests[i]? = some r' ∧ r'.phase = r.phase := by
  induction es generalizing s r with
  | nil =>
    rw [System.run_nil, Option.some.injEq] at hrun
    exact ⟨r, hrun ▸ hr, rfl⟩
  | cons e es ih =>
    obtain ⟨s', hstep, hrest⟩ := (System.run_cons_eq_some _).mp hrun
    obtain ⟨r', hr', hphase⟩ := (Step.of_step hstep).done hr hdone
    obtain ⟨r'', hr'', hphase'⟩ := ih hrest hr' (hphase ▸ hdone)
    exact ⟨r'', hr'', hphase'.trans hphase⟩

/-! ## The log tells the phases -/

def Entry.request? : Entry → Option Nat
  | .admitted i _ => some i
  | .executing i _ => some i
  | .completing i _ _ => some i
  | .replayed i _ _ => some i
  | .deleted _ _ => none

def ownEntries (i : Nat) (log : List Entry) : List Entry :=
  log.filter fun e => e.request? = some i

theorem mem_ownEntries {log : List Entry} {e : Entry} :
    e ∈ ownEntries i log ↔ e ∈ log ∧ e.request? = some i := by
  simp [ownEntries]

/-- What has been logged about request `i`, which brought `p`, when it is in a phase. -/
def Phase.story (i : Nat) (p : Prepared) : Phase → List Entry
  | .admitted => [.admitted i p]
  | .handling => [.executing i p, .admitted i p]
  | .completing _ => [.executing i p, .admitted i p]
  | .done .panicked => [.executing i p, .admitted i p]
  | .done (.handled result _) => [.completing i p result, .executing i p, .admitted i p]
  | .done (.replay result) => [.replayed i p result]
  | _ => []

theorem Quiet.story {phase phase' : Phase} (h : Quiet phase action phase') (i : Nat)
    (p : Prepared) :
    phase'.story i p = phase.story i p := by
  cases h <;> rfl

/-- What has been logged about request `i`, according to its phase. -/
def Sys.story (s : Sys) (i : Nat) : List Entry :=
  match s.requests[i]? with
  | some r => r.phase.story i r.prepared
  | none => []

theorem Sys.story_eq (h : s.requests[i]? = some r) : s.story i = r.phase.story i r.prepared := by
  rw [story, h]

def Sys.Tells (s : Sys) : Prop := ∀ i, ownEntries i s.log = s.story i

theorem Sys.Tells.put (h : s.Tells) {r' : Request} (new : List Entry) (hr : s.requests[i]? = some r)
    (hrequests : s'.requests = s.requests.set i r') (hlog : s'.log = new ++ s.log)
    (hnew : ∀ k, ownEntries k new = if i = k then new else [])
    (hstory : r'.phase.story i r'.prepared = new ++ r.phase.story i r.prepared) : s'.Tells := by
  intro k
  have hsplit : ownEntries k s'.log = ownEntries k new ++ s.story k := by
    rw [← h k, hlog, ownEntries, List.filter_append, ownEntries, ownEntries]
  rw [hsplit, hnew]
  by_cases hk : i = k
  · subst hk
    have hr' : s'.requests[i]? = some r' := by
      rw [hrequests]
      exact (getElem?_set_iff hr).mpr (.inl ⟨rfl, rfl⟩)
    rw [if_pos rfl, story_eq hr, story_eq hr', hstory]
  -- the others have logged nothing and are where they were
  · have hsame : s'.requests[k]? = s.requests[k]? := by
      rw [hrequests, List.getElem?_set_ne hk]
    rw [if_neg hk, List.nil_append, story, story, hsame]

theorem ownEntries_singleton {e : Entry} (he : e.request? = some i) (k : Nat) :
    ownEntries k [e] = if i = k then [e] else [] := by
  simp [ownEntries, he, List.filter_singleton]

theorem ownEntries_deleted (i : Nat) (rows : List Row) (now : Int) (log : List Entry) :
    ownEntries i (rows.map (Entry.deleted · now) ++ log) = ownEntries i log := by
  unfold ownEntries
  rw [List.filter_append]
  have hnone : (rows.map (Entry.deleted · now)).filter (fun e => e.request? = some i) = [] := by
    rw [List.filter_eq_nil_iff]
    intro e he
    obtain ⟨row, -, rfl⟩ := List.mem_map.mp he
    simp [Entry.request?]
  rw [hnone, List.nil_append]

theorem Sys.Tells.sweep (h : s.Tells) (now : Int) : (s.sweep now).Tells := by
  intro i
  rw [Sys.sweep, ownEntries_deleted]
  exact h i

theorem Step.tells {e : Event} (h : Step cfg s e s') (htells : s.Tells) : s'.Tells := by
  cases h with
  | refuse => exact htells
  | @arrive request now prepared =>
    intro i
    rw [htells i, Sys.story, Sys.story]
    by_cases hi : i < s.requests.length
    · rw [List.getElem?_append_left hi]
    -- the new request has logged nothing, and neither had anyone at its position
    · rw [List.getElem?_append_right (Nat.le_of_not_lt hi),
        List.getElem?_eq_none (Nat.le_of_not_lt hi)]
      cases i - s.requests.length with
      | zero | succ n => rfl
  | sweep => exact htells.sweep _
  | cancel hr => exact htells.put [] hr rfl rfl (fun k => by simp [ownEntries]) rfl
  | quiet hr hmove =>
    exact htells.put [] hr rfl rfl (fun k => by simp [ownEntries]) (hmove.story _ _)
  | cleanup hr hphase =>
    -- deletions are logged in nobody's name
    refine (htells.sweep _).put [] hr rfl rfl (fun k => by simp [ownEntries]) ?_
    rw [hphase]
    rfl
  | replay hr hphase | insert hr hphase | start hr hphase | complete hr hphase =>
    refine htells.put [_] hr rfl rfl (ownEntries_singleton rfl) ?_
    rw [hphase]
    rfl

end ServiceRuntime.Idempotency
