import ServiceRuntime.Transition.History
import ServiceRuntime.Idempotency.Steps

/-!
# At Most One Execution per Key

Two requests with the same scope and key may both pass the `select` of `Begin` without
seeing a row, since nothing is locked. What keeps the second one from the handler is the
unique constraint: a request is admitted only by inserting the row of its key, so while
the row stands nobody else is admitted, and only a `Cleanup` past the row's expiry takes
it away.

The invariant is `Exclusive`: every admitted request either still has its row in the table
or its row was deleted, and no request is admitted before the rows of all earlier admitted
requests of its key were deleted.
-/

namespace ServiceRuntime.Idempotency

open GoTime Storage Transition

/-! ## The invariant -/

/-- The row that request `i` inserted has been deleted. -/
def DeletedIn (i : Nat) (log : List Entry) : Prop :=
  ∃ row now, Entry.deleted row now ∈ log ∧ row.insertedBy = i

variable {i j : Nat} {cfg : Settings} {s s' : Sys} {store : Store} {p q : Prepared} {r : Request}

theorem DeletedIn.mono {log log' : List Entry} (h : DeletedIn i log) (hsub : log ⊆ log') :
    DeletedIn i log' := by
  obtain ⟨row, now, hmem, hi⟩ := h
  exact ⟨row, now, hsub hmem, hi⟩

/-- What must have happened before an entry is written: an admission comes after the
    deletion of the rows of all admissions of the same key, an execution after the admission
    of its request, and a deleted row was expired and had been inserted by an admitted
    request. -/
def Excludes : Entry → List Entry → Prop
  | .admitted _ q, older =>
    ∀ i p, Entry.admitted i p ∈ older → p.scope = q.scope → p.key = q.key → DeletedIn i older
  | .executing i p, older => Entry.admitted i p ∈ older
  | .deleted row now, older => row.expiresAt ≤ now ∧ ∃ p, Entry.admitted row.insertedBy p ∈ older
  | _, _ => True

/-- The table and the log agree on who holds which key. -/
structure Exclusive (store : Store) (log : List Entry) : Prop where
  owned : ∀ row ∈ store.rows, ∃ p, Entry.admitted row.insertedBy p ∈ log
  kept : ∀ i p, Entry.admitted i p ∈ log →
    (∃ row ∈ store.rows, row.insertedBy = i ∧ row.ident = (p.scope, p.key)) ∨ DeletedIn i log
  justified : Justified Excludes log

namespace Exclusive

variable {store : Store} {log : List Entry}

theorem empty : Exclusive KeyedTable.empty [] where
  owned := by
    intro row hrow
    cases hrow
  kept := by
    intro i p hmem
    cases hmem
  justified := trivial

theorem note (h : Exclusive store log) {e : Entry} (hadm : ∀ i p, e ≠ .admitted i p)
    (hexcludes : Excludes e log) : Exclusive store (e :: log) where
  owned := by
    intro row hrow
    obtain ⟨p, hp⟩ := h.owned row hrow
    exact ⟨p, List.mem_cons_of_mem e hp⟩
  kept := by
    intro i p hmem
    rcases List.mem_cons.mp hmem with heq | hmem
    · exact absurd heq.symm (hadm i p)
    · rcases h.kept i p hmem with hrow | hdeleted
      · exact .inl hrow
      · exact .inr (hdeleted.mono (List.subset_cons_self e log))
  justified := ⟨hexcludes, h.justified⟩

/-- The unique constraint at work: the insert of a key succeeds only when no row of the key
    is left, so every earlier admission of the key has lost its row. -/
theorem insert (h : Exclusive store log) {i : Nat} {p : Prepared} {row : Row} {store' : Store}
    (hrow : row.ident = (p.scope, p.key)) (hby : row.insertedBy = i)
    (hinsert : store.insert row = some store') :
    Exclusive store' (.admitted i p :: log) := by
  obtain ⟨hfree, hrows⟩ := KeyedTable.insert_eq_some hinsert
  constructor
  case owned =>
    intro row' hrow'
    rw [hrows] at hrow'
    rcases List.mem_cons.mp hrow' with rfl | hold
    · exact ⟨p, hby ▸ List.mem_cons_self⟩
    · obtain ⟨q, hq⟩ := h.owned row' hold
      exact ⟨q, List.mem_cons_of_mem _ hq⟩
  case kept =>
    intro j q hmem
    rw [hrows]
    rcases List.mem_cons.mp hmem with heq | hmem
    · cases heq
      exact .inl ⟨row, List.mem_cons_self, hby, hrow⟩
    · rcases h.kept j q hmem with ⟨row', hrow', hj⟩ | hdeleted
      · exact .inl ⟨row', List.mem_cons_of_mem row hrow', hj⟩
      · exact .inr (hdeleted.mono (List.subset_cons_self _ log))
  case justified =>
    refine ⟨?_, h.justified⟩
    intro j q hmem hscope hkey
    rcases h.kept j q hmem with ⟨row', hrow', -, hident⟩ | hdeleted
    -- a row that is still there would have blocked the insert
    · have hsame : row'.ident = row.ident := by rw [hident, hrow, hscope, hkey]
      exact absurd hsame (KeyedTable.find_eq_none_iff.mp hfree row' hrow')
    · exact hdeleted

theorem complete (h : Exclusive store log) (scope key : String) (result : ReplayResult)
    (completedAt : Int) : Exclusive (store.complete scope key result completedAt) log where
  owned := by
    intro row hrow
    rcases Store.mem_complete hrow with ⟨old, hold, rfl⟩ | hold
    · exact h.owned old (Store.get_eq_some_iff.mp hold).1
    · exact h.owned row hold
  kept := by
    intro i p hmem
    rcases h.kept i p hmem with ⟨row, hrow, hi, hident⟩ | hdeleted
    · left
      obtain ⟨row', hrow', hi', hident'⟩ := Store.exists_mem_complete hrow scope key result completedAt
      exact ⟨row', hrow', hi'.trans hi, hident'.trans hident⟩
    · exact .inr hdeleted
  justified := h.justified

/-- `Cleanup` logs each row that it deletes. -/
theorem sweep (h : Exclusive store log) (now : Int) :
    Exclusive (store.cleanup now) ((store.expired now).map (Entry.deleted · now) ++ log) where
  owned := by
    intro row hrow
    obtain ⟨p, hp⟩ := h.owned row (Store.mem_of_mem_cleanup hrow)
    exact ⟨p, List.mem_append_right _ hp⟩
  kept := by
    intro i p hmem
    rcases List.mem_append.mp hmem with hnew | hmem
    · obtain ⟨row, -, heq⟩ := List.mem_map.mp hnew
      cases heq
    · rcases h.kept i p hmem with ⟨row, hrow, hi⟩ | hdeleted
      -- a row that is not kept is logged as deleted
      · rcases Store.mem_cleanup_or_expired hrow now with hstays | hgone
        · exact .inl ⟨row, hstays, hi⟩
        · right
          refine ⟨row, now, ?_, hi.1⟩
          exact List.mem_append_left _ (List.mem_map.mpr ⟨row, hgone, rfl⟩)
      · exact .inr (hdeleted.mono (List.subset_append_right _ log))
  justified := by
    apply h.justified.append
    intro e he l
    obtain ⟨row, hrow, rfl⟩ := List.mem_map.mp he
    obtain ⟨hmem, hexp⟩ := Store.mem_expired.mp hrow
    obtain ⟨p, hp⟩ := h.owned row hmem
    exact ⟨hexp, p, List.mem_append_right l hp⟩

end Exclusive

theorem Step.exclusive {e : Event} (h : Step cfg s e s') (htells : s.Tells)
    (hex : Exclusive s.store s.log) : Exclusive s'.store s'.log := by
  cases h with
  | refuse | arrive => exact hex
  | sweep => exact hex.sweep _
  | cancel | quiet => exact hex
  | cleanup => exact hex.sweep _
  | replay => exact hex.note (by simp) trivial
  | insert _ _ hinsert => exact hex.insert rfl rfl hinsert
  | @start i r hr hphase =>
    refine hex.note (by simp) ?_
    -- the phase says that the admission is in the log
    have hstory : ownEntries i s.log = [.admitted i r.prepared] := by
      rw [htells i, Sys.story_eq hr, hphase]
      rfl
    have hmem : Entry.admitted i r.prepared ∈ ownEntries i s.log := by
      rw [hstory]
      exact List.mem_singleton_self _
    exact (mem_ownEntries.mp hmem).1
  | complete _ _ hstore =>
    rcases hstore with ⟨-, rfl⟩ | ⟨-, rfl⟩
    · exact hex.note (by simp) trivial
    · exact (hex.complete _ _ _ _).note (by simp) trivial

/-! ## Reachable states -/

section Reachable

variable {opts : Options} {sha256 : List UInt8 → List UInt8} {s : Sys}

theorem tells_of_reachable (hs : (middleware opts sha256).Reachable s) : s.Tells := by
  refine System.Reachable.invariant ?_ ?_ hs
  · rintro s rfl i
    rfl
  · intro s e s' htells hstep
    change step opts.withDefaults sha256 s e = some s' at hstep
    exact (Step.of_step hstep).tells htells

theorem exclusive_of_reachable (hs : (middleware opts sha256).Reachable s) :
    Exclusive s.store s.log := by
  refine System.ReachableBy.invariant (P := fun s => Exclusive s.store s.log) ?_ ?_ hs
  · rintro s rfl
    exact Exclusive.empty
  · intro s e s' hreach hex _ hstep
    change step opts.withDefaults sha256 s e = some s' at hstep
    exact (Step.of_step hstep).exclusive (tells_of_reachable hreach) hex

end Reachable

/-! ## Two executions of one key -/

/-- The log shows, oldest first: request `i` admitted, its row deleted by a `Cleanup` at or
    after the row's expiry, request `j` admitted, and the handler called for `j`. -/
def SeparatedBy (log : List Entry) (i j : Nat) : Prop :=
  ∃ (l₄ l₃ l₂ l₁ : List Entry) (p q : Prepared) (row : Row) (now : Int),
    log = l₄ ++ .executing j q :: (l₃ ++ .admitted j q :: (l₂ ++ .deleted row now :: l₁)) ∧
      Entry.admitted i p ∈ l₁ ∧ row.insertedBy = i ∧ row.expiresAt ≤ now

theorem Exclusive.separatedBy {l₄ l₃ older : List Entry}
    (h : Exclusive store (l₄ ++ .executing j q :: (l₃ ++ .admitted j q :: older)))
    (hi : Entry.admitted i p ∈ older) (hscope : p.scope = q.scope) (hkey : p.key = q.key) :
    SeparatedBy (l₄ ++ .executing j q :: (l₃ ++ .admitted j q :: older)) i j := by
  have hjust := h.justified
  rw [← List.cons_append, ← List.append_assoc] at hjust
  -- the admission of `j` was justified by the deletion of the row of `i`
  obtain ⟨row, now, hdeleted, hby⟩ := hjust.of_split i p hi hscope hkey
  obtain ⟨l₂, l₁, rfl⟩ := List.append_of_mem hdeleted
  rw [← List.cons_append, ← List.append_assoc] at hjust
  -- and that deletion by the row having expired
  obtain ⟨hexp, p', hp'⟩ := hjust.of_split
  exact ⟨l₄, l₃, l₂, l₁, p', q, row, now, rfl, hby ▸ hp', hby, hexp⟩

theorem Exclusive.admitted_of_executing {log : List Entry} (h : Exclusive store log)
    (hexec : Entry.executing i p ∈ log) :
    ∃ l₄ l₃ older, log = l₄ ++ .executing i p :: (l₃ ++ .admitted i p :: older) := by
  obtain ⟨l₄, rest, rfl⟩ := List.append_of_mem hexec
  have hadm : Entry.admitted i p ∈ rest := h.justified.of_split
  obtain ⟨l₃, older, rfl⟩ := List.append_of_mem hadm
  exact ⟨l₄, l₃, older, rfl⟩

theorem Exclusive.separated {log : List Entry} (h : Exclusive store log) (hne : i ≠ j)
    (hi : Entry.executing i p ∈ log) (hj : Entry.executing j q ∈ log) (hscope : p.scope = q.scope)
    (hkey : p.key = q.key) : SeparatedBy log i j ∨ SeparatedBy log j i := by
  obtain ⟨l₄, l₃, older, hlog⟩ := h.admitted_of_executing hi
  obtain ⟨k₄, k₃, older', hlog'⟩ := h.admitted_of_executing hj
  have hsplit : (l₄ ++ .executing i p :: l₃) ++ Entry.admitted i p :: older =
      (k₄ ++ .executing j q :: k₃) ++ Entry.admitted j q :: older' := by
    simp only [List.append_assoc, List.cons_append]
    rw [← hlog, ← hlog']
  -- one of the two admissions is older than the other
  rcases older_total hsplit (by simp [hne]) with hold | hold
  · right
    subst hlog
    exact h.separatedBy hold hscope.symm hkey.symm
  · left
    subst hlog'
    exact h.separatedBy hold hscope hkey

/-! ## Each request executes at most once -/

/-- The entry records a call of the handler for request `i`. -/
def Entry.isExecutionOf (i : Nat) : Entry → Bool
  | .executing k _ => k = i
  | _ => false

theorem Entry.request?_of_isExecutionOf {e : Entry} (h : e.isExecutionOf i = true) :
    e.request? = some i := by
  cases e with
  | executing k p => simpa [isExecutionOf, request?] using h
  | admitted | completing | replayed | deleted => cases h

theorem Phase.executions_le_one (i : Nat) (p : Prepared) (phase : Phase) :
    ((phase.story i p).filter (Entry.isExecutionOf i)).length ≤ 1 := by
  cases phase with
  | done response => cases response <;> simp [story, Entry.isExecutionOf]
  | admitted | handling | completing => simp [story, Entry.isExecutionOf]
  | throttling | cleaning | selecting | inserting => simp [story]

theorem Sys.Tells.executions_le_one (h : s.Tells) (i : Nat) :
    (s.log.filter (Entry.isExecutionOf i)).length ≤ 1 := by
  have hown : s.log.filter (Entry.isExecutionOf i) =
      (ownEntries i s.log).filter (Entry.isExecutionOf i) := by
    -- an execution of `i` is an entry about `i`
    rw [ownEntries, List.filter_filter]
    apply List.filter_congr
    intro e _
    by_cases he : e.isExecutionOf i = true
    · simp [he, Entry.request?_of_isExecutionOf he]
    · simp [he]
  rw [hown, h i, Sys.story]
  split
  · exact Phase.executions_le_one i _ _
  · simp

/-! ## Conflicting requests -/

/-- The statements of `Begin`. -/
def Action.isBegin : Action → Bool
  | .select _ => true
  | .insert _ => true
  | _ => false

theorem act_select {fault : Option String} (h : act cfg s i r (.select fault) = some s') :
    (∃ err, s' = failBegin s i r err) ∨ s' = afterSelect s i r := by
  cases hphase : r.phase with
  | selecting =>
    simp only [act, hphase] at h
    split at h
    · cases h
      exact .inl ⟨_, rfl⟩
    · cases h
      exact .inr rfl
  | _ => simp [act, hphase] at h

theorem act_insert {fault : Option String} (h : act cfg s i r (.insert fault) = some s') :
    (∃ err, s' = failBegin s i r err) ∨ s' = tryInsert cfg s i r := by
  cases hphase : r.phase with
  | inserting =>
    simp only [act, hphase] at h
    split at h
    · cases h
      exact .inl ⟨_, rfl⟩
    · cases h
      exact .inr rfl
  | _ => simp [act, hphase] at h

/-- While a row of a different request holds the key, both statements of `Begin` make it
    fail: the `select` by the comparison of the hashes, the `insert` by the constraint. -/
theorem begin_fails_of_conflict {row : Row} {action : Action}
    (hrow : s.store.get r.prepared.scope r.prepared.key = some row)
    (hhash : row.requestHash ≠ r.prepared.hash) (hbegin : action.isBegin = true)
    (hact : act cfg s i r action = some s') : ∃ err, s' = failBegin s i r err := by
  cases action with
  | select fault =>
    rcases act_select hact with hfail | rfl
    · exact hfail
    · refine ⟨.errConflict, ?_⟩
      rw [afterSelect, hrow, decideBegin_of_ne hhash]
  | insert fault =>
    rcases act_insert hact with hfail | rfl
    · exact hfail
    · refine ⟨.other duplicateKey, ?_⟩
      -- the row that conflicts also blocks the insert
      have hrefused : s.store.insert
          (Store.newRow r.prepared.scope r.prepared.key r.prepared.hash cfg.ttl r.now i) = none := by
        rw [KeyedTable.insert_eq_none_iff]
        intro hnone
        have hsome : s.store.find (r.prepared.scope, r.prepared.key) = some row := hrow
        rw [show s.store.find (r.prepared.scope, r.prepared.key) = none from hnone] at hsome
        cases hsome
      rw [tryInsert, hrefused]
  | _ => cases hbegin

theorem Sys.Tells.of_error (h : s.Tells) {err : HttpError} (hr : s.requests[i]? = some r)
    (hphase : r.phase = .done (.error err)) :
    (∀ p, Entry.executing i p ∉ s.log) ∧ ∀ p result, Entry.replayed i p result ∉ s.log := by
  have hnil : ownEntries i s.log = [] := by
    rw [h i, Sys.story_eq hr, hphase]
    rfl
  have hnone : ∀ e : Entry, e.request? = some i → e ∉ s.log := by
    intro e he hmem
    have hown := mem_ownEntries.mpr ⟨hmem, he⟩
    rw [hnil] at hown
    cases hown
  exact ⟨fun p => hnone _ rfl, fun p result => hnone _ rfl⟩

/-! ## Main result -/

/-- **At most one execution per key.** In every reachable state:

    - the handler has been called at most once for each request;
    - if it was called for two requests with the same scope and key, then one of them was
      admitted first, its row was deleted by a `Cleanup` at or after the row's expiry, and
      only then was the other one admitted and executed;
    - a request that executes a statement of `Begin` while the table has a row of its scope
      and key with another hash is never executed and never answered with a replay, however
      the run goes on. -/
theorem at_most_one_execution (opts : Options) (sha256 : List UInt8 → List UInt8) {s : Sys}
    (hs : (middleware opts sha256).Reachable s) :
    (∀ i, (s.log.filter (Entry.isExecutionOf i)).length ≤ 1) ∧
    (∀ i j p q, i ≠ j → Entry.executing i p ∈ s.log → Entry.executing j q ∈ s.log →
      p.scope = q.scope → p.key = q.key → SeparatedBy s.log i j ∨ SeparatedBy s.log j i) ∧
    (∀ i r row action s' es t, s.requests[i]? = some r →
      s.store.get r.prepared.scope r.prepared.key = some row →
      row.requestHash ≠ r.prepared.hash → action.isBegin = true →
      (middleware opts sha256).step s (.act i action) = some s' →
      (middleware opts sha256).run s' es = some t →
      (∀ p, Entry.executing i p ∉ t.log) ∧ ∀ p result, Entry.replayed i p result ∉ t.log) := by
  refine ⟨(tells_of_reachable hs).executions_le_one, ?_, ?_⟩
  · intro i j p q hne hi hj hscope hkey
    exact (exclusive_of_reachable hs).separated hne hi hj hscope hkey
  · intro i r row action s' es t hr hrow hhash hbegin hstep hrun
    obtain ⟨r', hr', hact⟩ := Option.bind_eq_some_iff.mp hstep
    rw [hr, Option.some.injEq] at hr'
    subst hr'
    obtain ⟨err, rfl⟩ := begin_fails_of_conflict hrow hhash hbegin hact
    -- the failed request stays as it is to the end of the run
    obtain ⟨r'', hr'', hphase⟩ :=
      done_of_run hrun ((getElem?_set_iff hr).mpr (.inl ⟨rfl, rfl⟩)) rfl
    have ht : (middleware opts sha256).Reachable t :=
      System.Reachable.run (.step hs trivial hstep) hrun
    exact (tells_of_reachable ht).of_error hr'' hphase

/-- A second request runs its own `Cleanup` after the row of the first has expired. -/
def secondAfterExpiry : List Event :=
  [.arrive ⟨"k", "POST", "/x", some [7], some "org"⟩ 10, .act 0 .throttle,
    .act 0 (.cleanup none), .act 0 (.select none), .act 0 (.insert none), .act 0 .start,
    .arrive ⟨"k", "POST", "/x", some [7], some "org"⟩ 2000000000, .act 1 .throttle,
    .act 1 (.cleanup none), .act 1 (.select none), .act 1 (.insert none), .act 1 .start]

theorem second_execution_after_expiry :
    ∃ s p, (middleware ⟨Duration.second, Duration.second, none⟩ id).run initial
        secondAfterExpiry = some s ∧
      Entry.executing 0 p ∈ s.log ∧ Entry.executing 1 p ∈ s.log ∧
      (SeparatedBy s.log 0 1 ∨ SeparatedBy s.log 1 0) := by
  obtain ⟨s, hrun⟩ : ∃ s, (middleware ⟨Duration.second, Duration.second, none⟩ id).run initial
      secondAfterExpiry = some s := Option.isSome_iff_exists.mp rfl
  have hs : (middleware ⟨Duration.second, Duration.second, none⟩ id).Reachable s :=
    System.Reachable.run (.init rfl) hrun
  -- the two executions that the run logs
  have hexec : (((middleware ⟨Duration.second, Duration.second, none⟩ id).run initial
      secondAfterExpiry).map fun s =>
        (s.log.filter (Entry.isExecutionOf 0), s.log.filter (Entry.isExecutionOf 1))) =
      some ([.executing 0 ⟨"org:POST:/x", "k", "504f53543a2f783a07"⟩],
        [.executing 1 ⟨"org:POST:/x", "k", "504f53543a2f783a07"⟩]) := rfl
  rw [hrun, Option.map_some, Option.some.injEq, Prod.mk.injEq] at hexec
  have h₀ := List.mem_of_mem_filter (hexec.1 ▸ List.mem_singleton_self _)
  have h₁ := List.mem_of_mem_filter (hexec.2 ▸ List.mem_singleton_self _)
  exact ⟨s, _, hrun, h₀, h₁,
    (at_most_one_execution _ _ hs).2.1 0 1 _ _ (by decide) h₀ h₁ rfl rfl⟩

/-- Between two executions of one key, the row of the one that executed first was deleted after
    its expiry. -/
def FirstRowDeleted (log : List Entry) : Prop :=
  ∀ l₃ l₂ l₁ i j p q, log = l₃ ++ .executing j q :: (l₂ ++ .executing i p :: l₁) →
    p.scope = q.scope → p.key = q.key →
      ∃ row now, Entry.deleted row now ∈ l₂ ∧ row.insertedBy = i ∧ row.expiresAt ≤ now

/-- Request 0 is admitted and then held up. Its row expires, request 1 is admitted and executed,
    and only then does request 0 call the handler. -/
def firstAdmittedLast : List Event :=
  [.arrive ⟨"k", "POST", "/x", some [7], some "org"⟩ 10, .act 0 .throttle,
    .act 0 (.cleanup none), .act 0 (.select none), .act 0 (.insert none),
    .arrive ⟨"k", "POST", "/x", some [7], some "org"⟩ 2000000000, .act 1 .throttle,
    .act 1 (.cleanup none), .act 1 (.select none), .act 1 (.insert none), .act 1 .start,
    .act 0 .start]

/-- Admissions are separated, executions are not. -/
theorem first_executed_row_remains :
    ∃ s, (middleware ⟨Duration.second, Duration.second, none⟩ id).Reachable s ∧
      ¬FirstRowDeleted s.log := by
  obtain ⟨s, hrun⟩ : ∃ s, (middleware ⟨Duration.second, Duration.second, none⟩ id).run initial
      firstAdmittedLast = some s := Option.isSome_iff_exists.mp rfl
  refine ⟨s, .run (.init rfl) hrun, fun h => ?_⟩
  -- the two newest entries are the executions, with nothing between them
  have hlog : (((middleware ⟨Duration.second, Duration.second, none⟩ id).run initial
      firstAdmittedLast).map fun s => s.log.take 2) =
      some [.executing 0 ⟨"org:POST:/x", "k", "504f53543a2f783a07"⟩,
        .executing 1 ⟨"org:POST:/x", "k", "504f53543a2f783a07"⟩] := rfl
  rw [hrun, Option.map_some, Option.some.injEq] at hlog
  have hsplit := (List.take_append_drop 2 s.log).symm
  rw [hlog] at hsplit
  obtain ⟨row, now, hdeleted, -⟩ := h [] [] _ 1 0 _ _ hsplit rfl rfl
  cases hdeleted

end ServiceRuntime.Idempotency
