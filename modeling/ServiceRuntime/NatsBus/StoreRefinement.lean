import ServiceRuntime.NatsBus.DeadLetterCount
import ServiceRuntime.NatsBus.DeadLetterGauge

/-!
# The Publisher Works on the Store

`NatsBus.Reliable` has `Save`, `Delete` and the counter as far as the publisher is concerned with
them: the file of a `Save` is there from its rename on, and temporary files do not show.
`NatsBus.DeadLetterStore` has them operation by operation, in any number at once.

The publisher does nothing that the store does not do. For every state that the publisher reaches,
the store reaches one with the same files and the same counter, in which as many calls have yet to
count their file (`publisher_follows_store`). The store goes through a whole `Save` when the
publisher renames its file, since the stages before leave no trace in the state of the publisher;
it counts when the publisher counts, lists when a replay moves along, and goes through the removal
of a `Delete` when the replay removes a file.
-/

namespace ServiceRuntime.NatsBus

open GoStrings Storage Transition

namespace DeadLetterStore

/-! ## Whole calls of the store -/

def Sys.withCall (t : Sys) (c : Call) : Sys := { t with calls := t.calls ++ [c] }

theorem Sys.put_withCall (t : Sys) (c c' : Call) :
    (t.withCall c).put t.calls.length c' = t.withCall c' := by
  simp [put, withCall]

theorem step_save (t : Sys) (phase : SavePhase) (action : Action) :
    step (t.withCall (.save phase)) (.act t.calls.length action) =
      saveAct (t.withCall (.save phase)) t.calls.length phase action := by
  simp [step, Sys.withCall]

theorem step_delete (t : Sys) (phase : DeletePhase) (action : Action) :
    step (t.withCall (.delete phase)) (.act t.calls.length action) =
      deleteAct (t.withCall (.delete phase)) t.calls.length phase action := by
  simp [step, Sys.withCall]

theorem reachable_step {t t' : Sys} {e : Event} (ht : deadLetters.Reachable t)
    (h : step t e = some t') : deadLetters.Reachable t' := .step (e := e) ht trivial h

theorem tempName_injective : Function.Injective tempName := by
  intro a b h
  exact (String.append_right_inj _).mp ((String.append_left_inj _).mp h)

theorem exists_fresh_random (dir : Dir) :
    ∃ random, ∀ file ∈ dir.rows, file.name ≠ tempName random := by
  have hinfinite := Set.infinite_range_of_injective tempName_injective
  obtain ⟨-, ⟨random, rfl⟩, hfresh⟩ :=
    hinfinite.exists_notMem_finset (dir.rows.map File.name).toFinset
  refine ⟨random, fun file hfile hname => hfresh ?_⟩
  rw [List.mem_toFinset, ← hname]
  exact List.mem_map_of_mem hfile

/-- The directory after the file operations of a `Save`: one new file, and no temporary file. -/
theorem exists_renameTemp {dir : Dir} {name : String} (content : Option RawRecord)
    (hjson : hasSuffix name ".json" = true) (hnew : ∀ file ∈ dir.rows, file.name ≠ name) :
    ∃ random created renamed,
      dir.insert ⟨tempName random, false, none, none⟩ = some created ∧
      renameTemp (created.update (tempName random) (fun file => { file with content := content })
        fun _ => rfl) random name = some renamed ∧
      renamed.rows = ⟨name, false, content, none⟩ :: dir.rows := by
  obtain ⟨random, hfresh⟩ := exists_fresh_random dir
  have hnone : dir.find (tempName random) = none := KeyedTable.find_eq_none_iff.mpr hfresh
  have hne : tempName random ≠ name := by
    rintro rfl
    rw [not_isJson_tempName] at hjson
    cases hjson
  obtain ⟨created, hcreated⟩ : ∃ created,
      dir.insert ⟨tempName random, false, none, none⟩ = some created :=
    Option.ne_none_iff_exists'.mp fun h => KeyedTable.insert_eq_none_iff.mp h hnone
  obtain ⟨-, hrows⟩ := KeyedTable.insert_eq_some hcreated
  let written := created.update (tempName random)
    (fun file => { file with content := content }) fun _ => rfl
  have hwritten : written.rows = ⟨tempName random, false, content, none⟩ :: dir.rows := by
    show created.rows.map _ = _
    rw [hrows, List.map_cons, if_pos rfl]
    refine congrArg _ ((List.map_congr_left fun file hfile => ?_).trans (List.map_id _))
    exact if_neg (hfresh file hfile)
  have htemp : written.find (tempName random) = some ⟨tempName random, false, content, none⟩ := by
    rw [KeyedTable.find_eq_some_iff, hwritten]
    exact ⟨List.mem_cons_self, rfl⟩
  have htarget : written.find name = none := by
    rw [KeyedTable.find_eq_none_iff, hwritten, List.forall_mem_cons]
    exact ⟨hne, hnew⟩
  -- what is left without the temporary file is what was there before
  have hremoved : (Dir.remove written (tempName random)).rows = dir.rows := by
    show written.rows.filter _ = _
    rw [hwritten, List.filter_cons_of_neg (by simp)]
    exact List.filter_eq_self.mpr fun file hfile => decide_eq_true (hfresh file hfile)
  refine ⟨random, created, (Dir.remove written (tempName random)).putFront
    ⟨name, false, content, none⟩, hcreated, ?_, ?_⟩
  · rw [renameTemp, htemp, Option.bind_some, htarget, Option.any_none, if_neg (by decide)]
  · rw [KeyedTable.putFront_of_notMem (by rw [hremoved]; exact hnew), hremoved]

/-- **A whole `Save`**, up to the rename. -/
theorem exists_save {t : Sys} (ht : deadLetters.Reachable t) (hopen : t.count.isSome = true)
    (payload : Payload) (hnew : ∀ file ∈ t.dir.rows, file.name ≠ payload.fileName) :
    ∃ t', deadLetters.Reachable t' ∧
      t'.dir.rows = ⟨payload.fileName, false, payload.record.stored, none⟩ :: t.dir.rows ∧
      t'.count = t.count ∧ t'.ledger.actors = t.ledger.actors ++ [.owing 1] ∧
      t'.listed = t.listed := by
  obtain ⟨random, created, renamed, hcreated, hrenamed, hrows⟩ :=
    exists_renameTemp payload.record.stored payload.isJson_fileName hnew
  -- the clock and the id of the record are those that `Save` would fill in
  have hdefaults : payload.record.withDefaults payload.record.createdAt payload.record.id =
      payload.record := by
    simp [RawRecord.withDefaults]
  have hmarshal : marshal payload.record = some payload := dif_pos payload.marshals
  let t₀ : Sys := { t with ids := payload.record.id :: t.ids }
  let t₁ : Sys := { t₀ with dir := created }
  let t₂ : Sys :=
    { t₁ with
      dir := created.update (tempName random)
        (fun file => { file with content := payload.record.stored }) fun _ => rfl }
  -- from here on the new call alone moves
  have hact : ∀ (u u' : Sys) (phase : SavePhase) (action : Action),
      deadLetters.Reachable (u.withCall (.save phase)) →
      saveAct (u.withCall (.save phase)) u.calls.length phase action = some u' →
      deadLetters.Reachable u' := by
    intro u u' phase action hu hstep
    exact reachable_step hu ((step_save u phase action).trans hstep)
  have hmarshaling : deadLetters.Reachable (t₀.withCall (.save (.marshaling payload.record))) := by
    refine reachable_step (e := .save payload.record payload.record.createdAt payload.record.id) ht ?_
    rw [step, if_pos hopen, hdefaults]
    rfl
  have hcreating : deadLetters.Reachable (t₀.withCall (.save (.creating payload))) := by
    refine hact t₀ _ _ (.op none) hmarshaling ?_
    rw [saveAct, hmarshal, Option.map_some, Sys.put_withCall]
  have hwriting : deadLetters.Reachable (t₁.withCall (.save (.writing payload random))) := by
    refine hact t₀ _ _ (.create random) hcreating ?_
    show (t.dir.insert _).map _ = _
    rw [hcreated, Option.map_some]
    exact congrArg some (Sys.put_withCall t₁ _ _)
  have hclosing : deadLetters.Reachable (t₂.withCall (.save (.closing payload random))) :=
    hact t₁ _ _ (.op none) hwriting (congrArg some (Sys.put_withCall t₂ _ _))
  have hrenaming : deadLetters.Reachable (t₂.withCall (.save (.renaming payload random))) :=
    hact t₂ _ _ (.op none) hclosing (congrArg some (Sys.put_withCall t₂ _ _))
  have hadding : deadLetters.Reachable
      ({ t₂ with dir := renamed }.withCall (.save (.addingCount random))) := by
    refine hact t₂ _ _ (.op none) hrenaming ?_
    show (renameTemp t₂.dir random payload.fileName).map _ = _
    rw [hrenamed, Option.map_some]
    exact congrArg some (Sys.put_withCall { t₂ with dir := renamed } _ _)
  refine ⟨_, hadding, hrows, rfl, ?_, rfl⟩
  show (t.calls ++ [_]).map Call.ledger = _
  rw [List.map_append]
  rfl

theorem exists_delete {t : Sys} (ht : deadLetters.Reachable t) (hopen : t.count.isSome = true)
    {name : String} (hlisted : name ∈ t.listed) (hthere : (t.dir.find name).isSome = true) :
    ∃ t', deadLetters.Reachable t' ∧ t'.dir = Dir.remove t.dir name ∧ t'.count = t.count ∧
      t'.ledger.actors = t.ledger.actors ++ [.owing (-1)] ∧ t'.listed = t.listed := by
  obtain ⟨file, hfile⟩ := Option.isSome_iff_exists.mp hthere
  have hremoving : deadLetters.Reachable (t.withCall (.delete (.removing name))) :=
    reachable_step (e := .delete name) ht (if_pos ⟨hopen, hlisted⟩)
  have hsubtracting : deadLetters.Reachable
      ({ t with dir := Dir.remove t.dir name }.withCall (.delete .subtracting)) := by
    refine reachable_step hremoving ((step_delete t _ (.op none)).trans ?_)
    show (t.dir.find name).map _ = _
    rw [hfile, Option.map_some]
    exact congrArg some (Sys.put_withCall { t with dir := Dir.remove t.dir name } _ _)
  refine ⟨_, hsubtracting, rfl, rfl, ?_, rfl⟩
  show (t.calls ++ [_]).map Call.ledger = _
  rw [List.map_append]
  rfl

/-- **A call that owes the counter something** adds it. -/
theorem exists_add {t : Sys} (ht : deadLetters.Reachable t) {i : Nat} {delta : Int}
    (hactor : t.ledger.actors[i]? = some (.owing delta)) :
    ∃ t', deadLetters.Reachable t' ∧ t'.dir = t.dir ∧ t'.count = t.count.map (· + delta) ∧
      t'.ledger.actors = t.ledger.actors.set i .added ∧ t'.listed = t.listed := by
  rw [Sys.ledger, List.getElem?_map] at hactor
  obtain ⟨c, hc, hledger⟩ := Option.map_eq_some_iff.mp hactor
  obtain ⟨c', hstep, hadded⟩ : ∃ c', step t (.act i (.op none)) =
      some ({ t with count := t.count.map (· + delta) }.put i c') ∧ c'.ledger = .added := by
    rw [step, hc, Option.bind_some]
    -- only these two phases owe anything
    unfold Call.ledger at hledger
    split at hledger
    · cases hledger
      exact ⟨_, rfl, rfl⟩
    · cases hledger
    · cases hledger
    · cases hledger
      exact ⟨_, rfl, rfl⟩
    · cases hledger
    · cases hledger
  refine ⟨_, reachable_step ht hstep, rfl, rfl, ?_, rfl⟩
  show (t.calls.set i c').map Call.ledger = _
  rw [List.map_set, hadded]
  rfl

end DeadLetterStore

/-! ## The relation -/

def File.anonymous (file : File) : File := { file with origin := none }

/-- The store is where the publisher is. -/
structure Follows (s : Sys) (t : DeadLetterStore.Sys) : Prop where
  files : t.dir.rows = s.dir.rows.map File.anonymous
  count : t.count = some s.count
  /-- As many calls have yet to add a file to the counter, and as many to subtract one. -/
  owing : ∀ delta, t.ledger.actors.count (.owing delta) = s.ledger.actors.count (.owing delta)
  /-- What the replay may come to remove has been listed. -/
  listed : ∀ name ∈ s.replay.names, name ∈ t.listed

theorem count_set {actors : List Ledger.Stage} {i : Nat} {a : Ledger.Stage}
    (h : actors[i]? = some a) (b x : Ledger.Stage) :
    (actors.set i b).count x + (if a = x then 1 else 0) =
      actors.count x + if b = x then 1 else 0 := by
  induction actors generalizing i with
  | nil => cases h
  | cons c actors ih =>
    cases i with
    | zero =>
      cases h
      simp only [List.set_cons_zero, List.count_cons, beq_iff_eq]
      omega
    | succ i =>
      have ih := ih (i := i) h
      simp only [List.set_cons_succ, List.count_cons]
      omega

namespace Follows

variable {s s' : Sys} {t : DeadLetterStore.Sys}

theorem isSome_count (h : Follows s t) : t.count.isSome = true := by
  rw [h.count]
  rfl

theorem mem_list (h : Follows s t) {name : String} (hname : name ∈ Dir.list s.dir) :
    name ∈ Dir.list t.dir := by
  obtain ⟨file, hfile, hname, hletter⟩ := Dir.mem_list.mp hname
  refine Dir.mem_list.mpr ⟨file.anonymous, ?_, hname, hletter⟩
  rw [h.files]
  exact List.mem_map_of_mem hfile

theorem still (h : Follows s t) (hdir : s'.dir = s.dir) (hcount : s'.count = s.count)
    (howing : ∀ delta, s'.ledger.actors.count (.owing delta) =
      s.ledger.actors.count (.owing delta))
    (hnames : ∀ name ∈ s'.replay.names, name ∈ t.listed) : Follows s' t where
  files := hdir ▸ h.files
  count := hcount ▸ h.count
  owing delta := (h.owing delta).trans (howing delta).symm
  listed := hnames

/-- An actor of the publisher moves along; if it counts, a call of the store does. -/
theorem act (h : Follows s t) (ht : DeadLetterStore.deadLetters.Reachable t) {shows : Prop}
    {i : Nat} {a b : Ledger.Stage} {count gauge : Int} (hactor : s.ledger.actors[i]? = some a)
    (hact : Ledger.Act shows s.count s.gauge a count gauge b) (hcount : s'.count = count)
    (hactors : s'.ledger.actors = s.ledger.actors.set i b) (hdir : s'.dir = s.dir)
    (hnames : ∀ name ∈ s'.replay.names, name ∈ t.listed) :
    ∃ t', DeadLetterStore.deadLetters.Reachable t' ∧ Follows s' t' := by
  have hset := fun delta => count_set hactor b (.owing delta)
  rw [← hactors] at hset
  cases hact with
  | still => exact ⟨t, ht, h.still hdir hcount (fun delta => by have := hset delta; omega) hnames⟩
  | read
  | publish => exact ⟨t, ht, h.still hdir hcount (fun delta => by simpa using hset delta) hnames⟩
  | @add delta =>
    -- as many calls of the store owe this much, so one of them does
    have hpos : 0 < t.ledger.actors.count (.owing delta) := by
      rw [h.owing]
      exact List.count_pos_iff.mpr (List.mem_of_getElem? hactor)
    obtain ⟨j, hj⟩ := List.mem_iff_getElem?.mp (List.count_pos_iff.mp hpos)
    obtain ⟨t', ht', hdir', hcount', hactors', hlisted'⟩ := DeadLetterStore.exists_add ht hj
    refine ⟨t', ht', ?_, ?_, fun other => ?_, hlisted' ▸ hnames⟩
    · rw [hdir', hdir, h.files]
    · rw [hcount', h.count, hcount]
      rfl
    · have hset' := count_set hj .added (.owing other)
      rw [← hactors'] at hset'
      have hother := hset other
      have howing := h.owing other
      omega

end Follows

/-- **Each step of the publisher is some steps of the store.** -/
theorem Step.follows {s s' : Sys} {e : Event} {t : DeadLetterStore.Sys}
    (hstep : Step timestamp s e s') (h : Follows s t)
    (ht : DeadLetterStore.deadLetters.Reachable t) :
    ∃ t', DeadLetterStore.deadLetters.Reachable t' ∧ Follows s' t' := by
  cases hstep with
  | refuse => exact ⟨t, ht, h⟩
  | publish =>
    -- a new call owes nothing yet
    refine ⟨t, ht, h.still rfl rfl (fun delta => ?_) h.listed⟩
    simp [Sys.ledger, List.count_cons, CallPhase.ledger]
  | call hc _ _ _ hledger =>
    refine h.act ht (actor_of_call hc) hledger rfl ?_ rfl h.listed
    rw [ledger_put]
    rfl
  | callAcked hc _ _ hledger =>
    refine ⟨t, ht, h.still rfl rfl (fun delta => ?_) h.listed⟩
    rw [ledger_note, ledger_put, hledger]
    exact congrArg (List.count _) (set_of_getElem? (actor_of_call hc))
  | @saved _ i c record err dir hc hphase hmarshal hfresh hinsert =>
    -- one step of the publisher, a whole `Save` of the store
    obtain ⟨hnone, hrows⟩ := KeyedTable.insert_eq_some hinsert
    have hnew : ∀ file ∈ t.dir.rows, file.name ≠ record.fileName timestamp := by
      rw [h.files, List.forall_mem_map]
      exact KeyedTable.find_eq_none_iff.mp hnone
    obtain ⟨t', ht', hfiles, hcount, hactors, hlisted⟩ :=
      DeadLetterStore.exists_save ht h.isSome_count ⟨record, hmarshal⟩ hnew
    refine ⟨t', ht', ?_, hcount.trans h.count, fun delta => ?_, hlisted ▸ h.listed⟩
    · show t'.dir.rows = dir.rows.map File.anonymous
      rw [hfiles, h.files, hrows, RawRecord.stored_of_marshal hmarshal]
      rfl
    -- a call of the publisher that owed nothing, and a new call of the store
    · have hset := count_set (actor_of_call hc) (.owing 1) (.owing delta)
      rw [hphase, if_neg (by simp [CallPhase.ledger]), Nat.add_zero] at hset
      rw [hactors, List.count_append, List.count_singleton, h.owing, ledger_note, ledger_put]
      simp only [beq_iff_eq]
      exact hset.symm
  | @replay new _ replay _ _ _ _ _ hnames _ hledger =>
    -- the names may come from the directory, so the store lists it
    have hlist : Follows s { t with listed := Dir.list t.dir ++ t.listed } :=
      ⟨h.files, h.count, h.owing, fun name hname => List.mem_append_right _ (h.listed name hname)⟩
    refine hlist.act (DeadLetterStore.reachable_step (e := .list) ht rfl) (i := 0) rfl hledger rfl
      rfl rfl fun name hname => ?_
    rcases hnames name hname with hold | hnew
    · exact hlist.listed name hold
    · exact List.mem_append_left _ (h.mem_list hnew)
  | replayAcked _ _ _ hnames _ hledger =>
    refine ⟨t, ht, h.still rfl rfl (fun delta => ?_) fun name hname => h.listed name ?_⟩
    · simp only [Sys.ledger, Sys.note, hledger]
    · exact hnames ▸ hname
  | @removed _ letter rest file hreplay hfile =>
    -- the letter has been listed and its file is there, as `Delete` needs
    have hnames : s.replay.names = letter.name :: rest.map (·.name) := hreplay ▸ rfl
    have hthere : (t.dir.find letter.name).isSome = true := by
      obtain ⟨hmem, hname⟩ := KeyedTable.find_eq_some_iff.mp hfile
      refine Option.isSome_iff_exists.mpr ⟨file.anonymous, KeyedTable.find_eq_some_iff.mpr ⟨?_, hname⟩⟩
      rw [h.files]
      exact List.mem_map_of_mem hmem
    obtain ⟨t', ht', hdir, hcount, hactors, hlisted⟩ := DeadLetterStore.exists_delete ht
      h.isSome_count (h.listed letter.name (hnames ▸ List.mem_cons_self)) hthere
    refine ⟨t', ht', ?_, hcount.trans h.count, fun delta => ?_, fun name hname => ?_⟩
    · rw [hdir]
      show t.dir.rows.filter _ = (s.dir.rows.filter _).map File.anonymous
      rw [h.files, List.filter_map]
      rfl
    · rw [hactors, List.count_append, List.count_singleton, h.owing]
      simp only [Sys.ledger, hreplay, List.count_cons]
      simp [Replay.ledger]
    · rw [hlisted]
      exact h.listed name (hnames ▸ List.mem_cons_of_mem _ hname)
  | deleteFailed hreplay =>
    refine ⟨t, ht, h.still rfl rfl (fun delta => ?_) fun name hname => (by cases hname)⟩
    simp only [Sys.ledger, failReplay, Sys.note, hreplay]
    rfl

theorem Follows.initial (dir : Dir) (horigin : ∀ file ∈ dir.rows, file.origin = none) :
    ∃ t, DeadLetterStore.deadLetters.Reachable t ∧ Follows (initial dir) t := by
  refine ⟨⟨dir, some (Dir.scanCount dir), [], [], []⟩, DeadLetterStore.reachable_step
    (t := ⟨dir, none, [], [], []⟩) (e := .start "dlq" none none) (.init ⟨rfl, rfl, rfl, rfl⟩) ?_,
    ?_, rfl, fun delta => rfl, fun name hname => (by cases hname)⟩
  · rfl
  · refine ((List.map_congr_left fun file hfile => ?_).trans (List.map_id _)).symm
    rw [File.anonymous, ← horigin file hfile]
    rfl

/-- **The publisher follows the store**: for every state that the publisher reaches, the store
    reaches one with the same files and the same counter, in which as many calls have yet to count
    their file. -/
theorem publisher_follows_store (opts : ReliableOptions) {s : Sys}
    (hs : (reliable opts timestamp).Reachable s) :
    ∃ t, DeadLetterStore.deadLetters.Reachable t ∧ Follows s t := by
  refine System.Reachable.invariant
    (P := fun s => ∃ t, DeadLetterStore.deadLetters.Reachable t ∧ Follows s t) ?_ ?_ hs
  · rintro s ⟨dir, horigin, rfl⟩
    exact Follows.initial dir horigin
  · rintro s e s' ⟨t, ht, h⟩ hstep
    exact (Step.of_step hstep).follows h ht

end ServiceRuntime.NatsBus
