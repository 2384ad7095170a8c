import ServiceRuntime.FeatureFlags.FileStore

/-!
# Flags and Snapshot Stay in Step

`flags` and `snapshot` hold the same data twice: `Lookup` reads the map and `Snapshot` the message.
The two are written together, at the install, and nowhere else. So in every state that the
interleaving of reloads can reach, the map is the index of the snapshot; and a reload that
fails has written nothing.
-/

namespace ServiceRuntime.FeatureFlags

open GoStrings Transition

/-! ## The index of a snapshot -/

def FeatureFlagSnapshot.present (snapshot : FeatureFlagSnapshot) : List FeatureFlag :=
  snapshot.flags.reduceOption

/-- The last of these flags whose trimmed key is `k`. -/
def lastFlag (flags : List FeatureFlag) (k : String) : Option FeatureFlag :=
  (flags.filter fun flag => trimSpace flag.key = k).getLast?

theorem lastFlag_cons (flag : FeatureFlag) (flags : List FeatureFlag) (k : String) :
    lastFlag (flag :: flags) k =
      (lastFlag flags k).or (if trimSpace flag.key = k then some flag else none) := by
  unfold lastFlag
  by_cases hkey : trimSpace flag.key = k
  · rw [List.filter_cons_of_pos (by simpa using hkey), if_pos hkey, List.getLast?_cons]
    cases (flags.filter fun flag => trimSpace flag.key = k).getLast? with
    | none | some last => rfl
  · rw [List.filter_cons_of_neg (by simpa using hkey), if_neg hkey, Option.or_none]

theorem indexFlag_apply (flags : FlagMap) (flag : FeatureFlag) (k : String) :
    indexFlag flags (some flag) k =
      if trimSpace flag.key = k ∧ k ≠ "" then some flag else flags k := by
  simp only [indexFlag, clone]
  by_cases hblank : trimSpace flag.key = ""
  · rw [if_pos hblank, if_neg]
    rintro ⟨hkey, hk⟩
    exact hk (hkey ▸ hblank)
  · rw [if_neg hblank]
    by_cases hkey : trimSpace flag.key = k
    · subst hkey
      rw [Function.update_self, if_pos ⟨rfl, hblank⟩]
    · rw [Function.update_of_ne (Ne.symm hkey), if_neg fun h => hkey h.1]

/-- **The loop**, started from any map: the last flag with the key wins, and a key that no flag has
    keeps what it had. -/
theorem foldl_indexFlag (entries : List (Option FeatureFlag)) (flags : FlagMap) (k : String) :
    entries.foldl indexFlag flags k =
      if k = "" then flags k else (lastFlag entries.reduceOption k).or (flags k) := by
  induction entries generalizing flags with
  | nil =>
    split
    · rfl
    · rfl
  | cons entry entries ih =>
    rw [List.foldl_cons, ih]
    cases entry with
    | none =>
      -- `nil` flags are skipped
      rw [List.reduceOption_cons_of_none]
      rfl
    | some flag =>
      rw [List.reduceOption_cons_of_some, indexFlag_apply, lastFlag_cons, Option.or_assoc]
      by_cases hk : k = ""
      · rw [if_pos hk, if_pos hk, if_neg fun h => h.2 hk]
      · rw [if_neg hk, if_neg hk]
        -- this flag counts if it has the key and no later one does
        by_cases hkey : trimSpace flag.key = k
        · rw [if_pos ⟨hkey, hk⟩, if_pos hkey, Option.some_or]
        · rw [if_neg fun h => hkey h.1, if_neg hkey, Option.none_or]

theorem index_apply (snapshot : FeatureFlagSnapshot) (k : String) :
    index snapshot k = if k = "" then none else lastFlag snapshot.present k := by
  rw [index, foldl_indexFlag, Option.or_none]
  rfl

theorem lastFlag_of_blank (flags : List FeatureFlag) {k : String} (hblank : trimSpace k = "")
    (hk : k ≠ "") : lastFlag flags k = none := by
  unfold lastFlag
  rw [List.getLast?_eq_none_iff, List.filter_eq_nil_iff]
  intro flag _ hkey
  rw [decide_eq_true_eq] at hkey
  have htrim : trimSpace k = k := by rw [← hkey, trimSpace_trimSpace]
  exact hk (htrim.symm.trans hblank)

/-! ## The map is the index -/

/-- The flags map is the index of the snapshot, and empty without one. -/
structure FileStore.Indexed (store : FileStore) : Prop where
  /-- The last flag with the key wins. -/
  last : ∀ k, trimSpace k ≠ "" →
    store.flags k = lastFlag ((store.snapshot.map FeatureFlagSnapshot.present).getD []) k
  /-- No other key occurs. -/
  blank : ∀ k, trimSpace k = "" → store.flags k = none

theorem indexed_zero : FileStore.zero.Indexed := ⟨fun _ _ => rfl, fun _ _ => rfl⟩

def Loaded.Indexed (loaded : Loaded) : Prop := loaded.flags = index loaded.snapshot

variable {unmarshal : Unmarshal} {s t s' : Sys} {call call' : Call} {cfg : Settings}

theorem indexed_of_load {contents : List UInt8} {loaded : Loaded}
    (h : load unmarshal contents = .ok loaded) : loaded.Indexed := by
  unfold load at h
  split at h
  · cases h
  · cases h
    rfl

theorem indexed_install (store : FileStore) (modTime : Int) {loaded : Loaded}
    (h : loaded.Indexed) : (store.install modTime loaded).Indexed := by
  refine ⟨fun k hk => ?_, fun k hk => ?_⟩
  · have hne : k ≠ "" := by
      rintro rfl
      exact hk rfl
    change loaded.flags k = lastFlag loaded.snapshot.present k
    rw [h, index_apply, if_neg hne]
  -- a key of spaces is in no index, as index keys are trimmed
  · change loaded.flags k = none
    rw [h, index_apply]
    split
    · rfl
    · rename_i hne
      exact lastFlag_of_blank _ hk hne

/-- The invariant of the reloads: what is installed, and what is about to be, is indexed. -/
structure Consistent (s : Sys) : Prop where
  store : s.store.Indexed
  calls : ∀ {k : Nat} {call : Call} {modTime : Int} {loaded : Loaded} {version : Nat},
    s.calls[k]? = some call → call.phase = .installing modTime loaded version → loaded.Indexed

theorem Turn.consistent (hturn : Turn unmarshal s call t call') (hstore : s.store.Indexed)
    (hcall : ∀ {modTime loaded version}, call.phase = .installing modTime loaded version →
      loaded.Indexed) :
    t.store.Indexed ∧ ∀ {modTime loaded version},
      call'.phase = .installing modTime loaded version → loaded.Indexed := by
  cases hturn with
  | check _ hnext =>
    refine ⟨hstore, fun h => ?_⟩
    rcases hnext with rfl | rfl
    · cases h
    · cases h
  | claim => exact ⟨⟨hstore.last, hstore.blank⟩, fun h => by cases h⟩
  | read _ _ hload =>
    -- `reload` builds the map and the snapshot from one parse
    refine ⟨hstore, fun h => ?_⟩
    cases h
    exact indexed_of_load hload
  | install hphase => exact ⟨indexed_install _ _ (hcall hphase), fun h => by cases h⟩
  | _ => exact ⟨hstore, fun h => by cases h⟩

theorem Step.consistent {e : Event} (hstep : Step unmarshal s e s') (h : Consistent s) :
    Consistent s' := by
  refine ⟨?_, fun {k c modTime loaded version} hc hphase => ?_⟩
  · cases hstep with
    | advance hcall hturn => exact (hturn.consistent h.store (h.calls hcall)).1
    | call | replace | remove => exact h.store
  · rcases hstep.calls hc with
      ⟨-, reader, now, rfl⟩ | ⟨fault, call, t, rfl, hcall, hturn, rfl⟩ | hc
    · cases hphase
    · exact (hturn.consistent h.store (h.calls hcall)).2 hphase
    · exact h.calls hc hphase

theorem consistent_of_reachable (h : (fileStore cfg unmarshal).Reachable s) : Consistent s := by
  refine System.Reachable.invariant (P := Consistent) ?_
    (fun s e s' hs hstep => (Step.of_step hstep).consistent hs) h
  rintro s ⟨file, rfl⟩
  refine ⟨indexed_zero, fun {k call _ _ _} hcall hphase => ?_⟩
  obtain rfl := List.mem_singleton.mp (List.mem_of_getElem? hcall)
  cases hphase

/-! ## A failed reload has written nothing -/

def FileStore.fields (store : FileStore) : FlagMap × Option FeatureFlagSnapshot × Int :=
  (store.flags, store.snapshot, store.lastModTime)

def Phase.isRefreshed : Phase → Bool
  | .refreshed | .returned _ => true
  | _ => false

/-- **One turn and the fields**: they are as before, or the call has installed and its reload has
    returned nil. -/
theorem Turn.fields (h : Turn unmarshal s call t call') :
    t.store.fields = s.store.fields ∨
      (call'.phase.isRefreshed = true ∧ call'.reload = some none) := by
  cases h with
  | install => exact .inr ⟨rfl, rfl⟩
  | _ => exact .inl rfl

/-- A call that is through with its refresh does not reload again. -/
theorem Turn.reload_eq (h : Turn unmarshal s call t call') (hdone : call.phase.isRefreshed = true) :
    call'.phase.isRefreshed = true ∧ call'.reload = call.reload := by
  cases h with
  | answer => exact ⟨rfl, rfl⟩
  -- every other turn starts before the end of the refresh
  | check hphase =>
    rcases hphase with hphase | hphase
    · rw [hphase] at hdone
      cases hdone
    · rw [hphase] at hdone
      cases hdone
  | fail hphase =>
    rcases hphase with hphase | ⟨modTime, hphase⟩
    · rw [hphase] at hdone
      cases hdone
    · rw [hphase] at hdone
      cases hdone
  | claim hphase | stat hphase | unchanged hphase | compare hphase | read hphase
  | install hphase =>
    rw [hphase] at hdone
    cases hdone

theorem Step.reload_eq {e : Event} (hstep : Step unmarshal s e s') {i : Nat}
    (hcall : s.calls[i]? = some call) (hdone : call.phase.isRefreshed = true) :
    ∃ c, s'.calls[i]? = some c ∧ c.phase.isRefreshed = true ∧ c.reload = call.reload := by
  cases hstep with
  | call => exact ⟨call, getElem?_concat_iff.mpr (.inl hcall), hdone, rfl⟩
  | @advance k fault c c' t hc hturn =>
    rw [Sys.put, hturn.frame.1]
    rcases getElem?_of_set (a := c') hc hcall with ⟨rfl, -, hnew⟩ | ⟨-, hsame⟩
    · obtain ⟨hdone', hreload⟩ := hturn.reload_eq hdone
      exact ⟨c', hnew, hdone', hreload⟩
    · exact ⟨call, hsame, hdone, rfl⟩
  | replace | remove => exact ⟨call, hcall, hdone, rfl⟩

theorem run_reload_eq {es : List Event} (hrun : (fileStore cfg unmarshal).run s es = some s')
    {i : Nat} (hcall : s.calls[i]? = some call) (hdone : call.phase.isRefreshed = true) :
    ∃ c, s'.calls[i]? = some c ∧ c.reload = call.reload := by
  induction es generalizing s call with
  | nil =>
    cases hrun
    exact ⟨call, hcall, rfl⟩
  | cons e es ih =>
    obtain ⟨t, ht, hrun⟩ := System.run_cons_eq_some _ |>.mp hrun
    obtain ⟨c, hc, hdone', hreload⟩ := (Step.of_step ht).reload_eq hcall hdone
    obtain ⟨c', hc', hreload'⟩ := ih hrun hc hdone'
    exact ⟨c', hc', hreload'.trans hreload⟩

/-- The steps of call `i` leave the fields alone. -/
def Harmless (i : Nat) (s : Sys) (e : Event) (s' : Sys) : Prop :=
  (∃ fault, e = .advance i fault) → s'.store.fields = s.store.fields

theorem harmless_of_failed {es : List Event} (hrun : (fileStore cfg unmarshal).run s es = some s')
    {i : Nat} {err : ReloadError} (hcall : s'.calls[i]? = some call)
    (hfailed : call.reload = some (some err)) :
    (fileStore cfg unmarshal).Along (Harmless i) s es := by
  -- along the run; what is left of it is what fixes the outcome of the reload
  induction es generalizing s with
  | nil => trivial
  | cons e es ih =>
    intro t ht
    have hrest : (fileStore cfg unmarshal).run t es = some s' := by
      obtain ⟨t', ht', hrun⟩ := System.run_cons_eq_some _ |>.mp hrun
      rw [ht, Option.some.injEq] at ht'
      exact ht' ▸ hrun
    refine ⟨?_, ih hrest⟩
    rintro ⟨fault, rfl⟩
    have hstep : Step unmarshal s (.advance i fault) t := Step.of_step (show step cfg _ _ _ = _ from ht)
    cases hstep with
    | @advance _ _ c c' u hc hturn =>
      rcases hturn.fields with hsame | ⟨hdone, hreload⟩
      · exact hsame
      -- after an install the reload has returned nil for good
      · have hc' : (u.put i c').calls[i]? = some c' := by
          rw [Sys.put, hturn.frame.1]
          exact (getElem?_set_iff hc).mpr (.inl ⟨rfl, rfl⟩)
        obtain ⟨d, hd, hsame⟩ := run_reload_eq hrest hc' hdone
        rw [hcall, Option.some.injEq] at hd
        rw [← hd, hfailed, hreload] at hsame
        cases hsame

/-! ## Main theorem -/

/-- **Snapshot consistency**: in every reachable state the flags map is the index of the installed
    snapshot; and in every run that goes on from there, a call whose reload has failed at the end
    has changed none of `flags`, `snapshot` and `lastModTime` on the way. -/
theorem snapshot_consistent (cfg : Settings) (unmarshal : Unmarshal) {s : Sys}
    (hs : (fileStore cfg unmarshal).Reachable s) :
    s.store.Indexed ∧
      ∀ (es : List Event) (s' : Sys) (i : Nat) (call : Call) (err : ReloadError),
        (fileStore cfg unmarshal).run s es = some s' → s'.calls[i]? = some call →
          call.reload = some (some err) → (fileStore cfg unmarshal).Along (Harmless i) s es :=
  ⟨(consistent_of_reachable hs).store,
    fun _ _ _ _ _ hrun hcall hfailed => harmless_of_failed hrun hcall hfailed⟩

/-- After the file has been loaded, a version that does not parse takes its place, and a reader's
    reload fails. -/
def malformed : List Event :=
  [.replace ⟨20, bytes "\x7bnot-json"⟩, .call (.lookup " beta ") 1000000000] ++ advances 1 6

/-- Both parts of `snapshot_consistent` have cases: a store with a snapshot, and a reload that
    fails there. -/
theorem snapshot_consistent_of_malformed :
    ∃ s s' call, sampleStore.Reachable s ∧ s.store.snapshot = some (sampleSnapshot true) ∧
      sampleStore.run s malformed = some s' ∧ s'.calls[1]? = some call ∧
      call.reload = some (some (.unmarshal "syntax error")) ∧ s.store.Indexed ∧
      sampleStore.Along (Harmless 1) s malformed := by
  have hruns : ((sampleStore.run (initial (some ⟨10, sampleText true⟩)) (advances 0 4)).bind
      fun s => (sampleStore.run s malformed).bind fun s' => s'.calls[1]?.map fun call =>
        (s.store.snapshot, call.reload)) =
      some (some (sampleSnapshot true), some (some (.unmarshal "syntax error"))) := by
    decide +kernel
  obtain ⟨s, hs, hrest⟩ := Option.bind_eq_some_iff.mp hruns
  obtain ⟨s', hs', hcalls⟩ := Option.bind_eq_some_iff.mp hrest
  obtain ⟨call, hcall, hseen⟩ := Option.map_eq_some_iff.mp hcalls
  rw [Prod.mk.injEq] at hseen
  have hreach : sampleStore.Reachable s := System.Reachable.run (.init ⟨_, rfl⟩) hs
  obtain ⟨hindexed, hharmless⟩ := snapshot_consistent sampleSettings sampleUnmarshal hreach
  exact ⟨s, s', call, hreach, hseen.1, hs', hcall, hseen.2, hindexed,
    hharmless malformed s' 1 call _ hs' hcall hseen.2⟩

end ServiceRuntime.FeatureFlags
