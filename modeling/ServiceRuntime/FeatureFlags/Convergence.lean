import ServiceRuntime.FeatureFlags.Consistency
import ServiceRuntime.FeatureFlags.Order

/-!
# Does the Store Follow the File?

A reload takes the file for unchanged unless its modification time is strictly after the one of the
last install. A file that comes back with an older time, or is rewritten within one tick of the
clock, is therefore never loaded: not by the next refresh and not by any later one.

`converges_iff` says when the store follows: once a refresh has completed over a file that no longer
changes, readers get the contents of the file exactly if it had the later modification time, or
nothing was installed to compare with, or its contents were installed already.
-/

namespace ServiceRuntime.FeatureFlags

open GoStrings GoTime Transition

/-! ## What readers get -/

/-- `Lookup` and `Snapshot` reflect the snapshot: the last flag with the trimmed key, and the
    message itself. -/
structure FileStore.Reflects (store : FileStore) (snapshot : FeatureFlagSnapshot) : Prop where
  lookup : ∀ key, store.lookup key =
    if trimSpace key = "" then none else lastFlag snapshot.present (trimSpace key)
  snapshot : store.currentSnapshot = snapshot

theorem FileStore.lookup_eq (store : FileStore) (key : String) :
    store.lookup key = store.flags (trimSpace key) := by
  rw [lookup]
  cases store.flags (trimSpace key) with
  | none | some flag => rfl

variable {store store' : FileStore} {file : File} {s s₀ : Sys} {loaded : Loaded}
  {unmarshal : Unmarshal}

theorem reflects_congr (h : store'.fields = store.fields) (snapshot : FeatureFlagSnapshot) :
    store'.Reflects snapshot ↔ store.Reflects snapshot := by
  simp only [FileStore.fields, Prod.mk.injEq] at h
  obtain ⟨hflags, hsnapshot, -⟩ := h
  have hlookup : ∀ key, store'.lookup key = store.lookup key := by
    intro key
    rw [FileStore.lookup_eq, FileStore.lookup_eq, hflags]
  have hcurrent : store'.currentSnapshot = store.currentSnapshot := by
    rw [FileStore.currentSnapshot, FileStore.currentSnapshot, hsnapshot]
  constructor
  · exact fun hr => ⟨fun key => hlookup key ▸ hr.lookup key, hcurrent ▸ hr.snapshot⟩
  · exact fun hr => ⟨fun key => (hlookup key).symm ▸ hr.lookup key, hcurrent.symm ▸ hr.snapshot⟩

/-- The fields after the install of what was loaded from `file`. -/
def installedFields (file : File) (loaded : Loaded) : FlagMap × Option FeatureFlagSnapshot × Int :=
  (loaded.flags, some loaded.snapshot, file.modTime)

theorem reflects_of_installed {snapshot : FeatureFlagSnapshot}
    (h : store.fields = installedFields file ⟨index snapshot, snapshot⟩) :
    store.Reflects snapshot := by
  simp only [FileStore.fields, installedFields, Prod.mk.injEq] at h
  obtain ⟨hflags, hsnapshot, -⟩ := h
  refine ⟨fun key => ?_, ?_⟩
  · rw [FileStore.lookup_eq, hflags, index_apply]
  · rw [FileStore.currentSnapshot, hsnapshot]
    rfl

theorem unchanged_congr (h : store'.fields = store.fields) (modTime : Int) :
    store'.unchanged modTime = store.unchanged modTime := by
  simp only [FileStore.fields, Prod.mk.injEq] at h
  rw [FileStore.unchanged, FileStore.unchanged, h.2.2]

/-! ## Runs over a file that does not change -/

def Event.keepsFile : Event → Bool
  | .replace _ | .remove => false
  | _ => true

/-- The call is inside `reload`. -/
def Phase.isReloading : Phase → Bool
  | .stating | .comparing _ | .reading _ | .installing _ _ _ => true
  | _ => false

/-- How a call stands in a run from `s₀` over `file`: what it knows of the file is true, and it is
    past the comparison only if the file was newer. -/
structure Call.Follows (s₀ : Sys) (file : File) (loaded : Loaded) (call : Call) : Prop where
  modTime : ∀ m, call.phase.modTime = some m → m = file.modTime
  loaded : ∀ {m l v}, call.phase = .installing m l v → l = loaded
  compared : call.phase.compared.isSome = true → s₀.store.unchanged file.modTime = false

/-- The invariant of such a run: the store is as in `s₀`, or has the file; and it has the file once
    a reload has succeeded, if the file was newer. -/
structure Follows (s₀ : Sys) (file : File) (loaded : Loaded) (s : Sys) : Prop where
  sameFile : s.file = some file
  store : s.store.fields = s₀.store.fields ∨
    (s₀.store.unchanged file.modTime = false ∧ s.store.fields = installedFields file loaded)
  calls : ∀ {k : Nat} {call : Call}, s.calls[k]? = some call → call.Follows s₀ file loaded
  succeeded : ∀ {k : Nat} {call : Call}, s₀.calls.length ≤ k → s.calls[k]? = some call →
    call.reload = some none → s₀.store.unchanged file.modTime = false →
      s.store.fields = installedFields file loaded

theorem Call.Follows.of_idle {call : Call} (hidle : call.phase.modTime = none) :
    call.Follows s₀ file loaded := by
  cases hphase : call.phase with
  | comparing m | reading m | installing m l v =>
    rw [hphase] at hidle
    cases hidle
  | _ =>
    refine ⟨?_, ?_, ?_⟩
    · rw [hphase]
      exact fun m hm => by cases hm
    · rw [hphase]
      exact fun hp => by cases hp
    · rw [hphase]
      exact fun hc => by cases hc

theorem Call.Follows.install_fields {l : Loaded} {call : Call} {m : Int} {v : Nat}
    (h : call.Follows s₀ file loaded) (hphase : call.phase = .installing m l v)
    (store : FileStore) :
    (store.install m l).fields = installedFields file loaded := by
  obtain rfl : m = file.modTime := h.modTime m (by rw [hphase]; rfl)
  obtain rfl : l = loaded := h.loaded hphase
  rfl

section

variable {unmarshal : Unmarshal} {s₀ s t : Sys} {file : File} {loaded : Loaded}
  {call call' : Call}

theorem Turn.callFollows (hturn : Turn unmarshal s call t call') (h : Follows s₀ file loaded s)
    (hcall : call.Follows s₀ file loaded) (hload : load unmarshal file.contents = .ok loaded) :
    call'.Follows s₀ file loaded := by
  cases hturn with
  | check _ hnext =>
    refine .of_idle ?_
    rcases hnext with rfl | rfl
    · rfl
    · rfl
  | @stat f _ hfile =>
    obtain rfl : f = file := Option.some.inj (hfile.symm.trans h.sameFile)
    refine ⟨fun m hm => ?_, fun hp => (by cases hp), fun hc => (by cases hc)⟩
    cases hm
    rfl
  | @compare m hphase hnewer =>
    obtain rfl : m = file.modTime := hcall.modTime m (by rw [hphase]; rfl)
    refine ⟨fun m hm => ?_, fun hp => (by cases hp), fun _ => ?_⟩
    · cases hm
      rfl
    -- if the file has been installed already, it was newer to begin with
    · rcases h.store with hsame | ⟨hnewer₀, -⟩
      · rw [← unchanged_congr hsame]
        exact hnewer
      · exact hnewer₀
  | @read m f l hphase hfile hl =>
    -- the file has not changed, so its contents belong to the time of the stat
    obtain rfl : f = file := Option.some.inj (hfile.symm.trans h.sameFile)
    refine ⟨fun m hm => ?_, fun hp => ?_, fun _ => hcall.compared (by rw [hphase]; rfl)⟩
    · cases hm
      exact hcall.modTime _ (by rw [hphase]; rfl)
    · cases hp
      exact Except.ok.inj (hl.symm.trans hload)
  | _ => exact .of_idle rfl

/-- The fields after a turn: as before, or installed from the file. -/
theorem Turn.fieldsFollow (hturn : Turn unmarshal s call t call')
    (hcall : call.Follows s₀ file loaded) :
    t.store.fields = s.store.fields ∨
      (s₀.store.unchanged file.modTime = false ∧
        t.store.fields = installedFields file loaded) := by
  cases hturn with
  | @install m l v hphase =>
    exact .inr ⟨hcall.compared (by rw [hphase]; rfl), hcall.install_fields hphase s.store⟩
  | _ => exact .inl rfl

theorem Turn.succeeded (hturn : Turn unmarshal s call t call') (h : Follows s₀ file loaded s)
    (hcall : call.Follows s₀ file loaded)
    (hbefore : call.reload = some none → s₀.store.unchanged file.modTime = false →
      s.store.fields = installedFields file loaded)
    (hreload : call'.reload = some none) (hnewer : s₀.store.unchanged file.modTime = false) :
    t.store.fields = installedFields file loaded := by
  cases hturn with
  | @unchanged m hphase hsame =>
    obtain rfl : m = file.modTime := hcall.modTime m (by rw [hphase]; rfl)
    -- the file was newer than the store of `s₀`, so someone has installed it
    rcases h.store with hfields | ⟨-, hfields⟩
    · rw [unchanged_congr hfields, hnewer] at hsame
      cases hsame
    · exact hfields
  | install hphase => exact hcall.install_fields hphase s.store
  | fail => cases hreload
  | _ => exact hbefore hreload hnewer

theorem Step.follows {e : Event} {s' : Sys} (hstep : Step unmarshal s e s')
    (h : Follows s₀ file loaded s) (hload : load unmarshal file.contents = .ok loaded)
    (hkeeps : e.keepsFile = true) :
    Follows s₀ file loaded s' := by
  cases hstep with
  | call =>
    refine ⟨h.sameFile, h.store, fun {k c} hc => ?_, fun {k c} hk hc hreload => ?_⟩
    · rcases getElem?_concat_iff.mp hc with hc | ⟨-, rfl⟩
      · exact h.calls hc
      · exact .of_idle rfl
    · rcases getElem?_concat_iff.mp hc with hc | ⟨-, rfl⟩
      · exact h.succeeded hk hc hreload
      · cases hreload
  | @advance i fault call call' t hcall hturn =>
    obtain ⟨hcalls, hfile, -⟩ := hturn.frame
    have hfollows := h.calls hcall
    have hfields := hturn.fieldsFollow hfollows
    have ht : t.calls[i]? = some call := by rw [hcalls, hcall]
    refine ⟨hfile.trans h.sameFile, ?_, fun {k c} hc => ?_, fun {k c} hk hc hreload hnewer => ?_⟩
    -- an install only repeats what the file says
    · rcases hfields with hsame | hinstalled
      · exact hsame.symm ▸ h.store
      · exact .inr hinstalled
    · rcases (getElem?_set_iff ht).mp hc with ⟨rfl, rfl⟩ | ⟨-, hc⟩
      · exact hturn.callFollows h hfollows hload
      · exact h.calls (hcalls ▸ hc)
    · rcases (getElem?_set_iff ht).mp hc with ⟨rfl, rfl⟩ | ⟨-, hc⟩
      · exact hturn.succeeded h hfollows (h.succeeded hk hcall) hreload hnewer
      · rcases hfields with hsame | ⟨-, hinstalled⟩
        · exact hsame.trans (h.succeeded hk (hcalls ▸ hc) hreload hnewer)
        · exact hinstalled
  | replace | remove => cases hkeeps

end

theorem run_follows {cfg : Settings} {s' : Sys} {es : List Event}
    (hload : load unmarshal file.contents = .ok loaded) (h : Follows s₀ file loaded s)
    (hkeeps : ∀ e ∈ es, e.keepsFile = true) (hrun : (fileStore cfg unmarshal).run s es = some s') :
    Follows s₀ file loaded s' := by
  induction es generalizing s with
  | nil =>
    cases hrun
    exact h
  | cons e es ih =>
    obtain ⟨t, ht, hrun⟩ := System.run_cons_eq_some _ |>.mp hrun
    have hstep := Step.of_step (show step cfg unmarshal s e = some t from ht)
    have hnext := hstep.follows h hload (hkeeps e List.mem_cons_self)
    exact ih hnext (fun e he => hkeeps e (List.mem_cons_of_mem _ he)) hrun

theorem follows_self (loaded : Loaded) (hfile : s.file = some file)
    (hquiet : ∀ call ∈ s.calls, call.phase.isReloading = false) : Follows s file loaded s := by
  refine ⟨hfile, .inl rfl, fun {k call} hcall => .of_idle ?_, fun {k call} hk hcall => ?_⟩
  · have hidle := hquiet call (List.mem_of_getElem? hcall)
    cases hphase : call.phase with
    | comparing m | reading m | installing m l v =>
      rw [hphase] at hidle
      cases hidle
    | _ => rfl
  -- there are no calls yet that started later
  · obtain ⟨hlt, -⟩ := List.getElem?_eq_some_iff.mp hcall
    omega

/-! ## A due refresh completes -/

theorem FileStore.alreadyChecked_eq (store : FileStore) (cfg : Settings) (now : Int) :
    store.alreadyChecked cfg now = !store.shouldReload cfg now := by
  rw [alreadyChecked, shouldReload, Bool.not_or, ← decide_not]
  congr 1
  exact decide_eq_decide.mpr not_le.symm

def Sys.join (s : Sys) (call : Call) : Sys := { s with calls := s.calls ++ [call] }

/-- The last call takes `n + 1` steps: one, and then `n` from where that leads. -/
theorem run_join {cfg : Settings} {t : Sys} {call call' : Call}
    (h : advance cfg unmarshal (s.join call) s.calls.length call none = some (t.join call'))
    (hcalls : t.calls = s.calls) (n : Nat) :
    (fileStore cfg unmarshal).run (s.join call) (advances s.calls.length (n + 1)) =
      (fileStore cfg unmarshal).run (t.join call') (advances t.calls.length n) := by
  have hstep : (fileStore cfg unmarshal).step (s.join call) (.advance s.calls.length none) =
      some (t.join call') := by
    rw [← h]
    simp [fileStore, step, Sys.join]
  rw [advances, List.replicate_succ, System.run_cons, hstep, Option.bind_some, hcalls]
  rfl

/-- **From the comparison on**, a lone reload over a valid file returns nil. -/
theorem exists_reloaded (cfg : Settings) (s : Sys) (call : Call) (hfile : s.file = some file)
    (hload : load unmarshal file.contents = .ok loaded)
    (hphase : call.phase = .comparing file.modTime) :
    ∃ (n : Nat) (t : Sys) (call' : Call), t.calls = s.calls ∧ call'.reader = call.reader ∧
      call'.phase = .refreshed ∧ call'.reload = some none ∧
      (fileStore cfg unmarshal).run (s.join call) (advances s.calls.length n) =
        some (t.join call') := by
  let reloaded : Call := { call with phase := .refreshed, reload := some none }
  cases hnewer : s.store.unchanged file.modTime with
  | true =>
    -- the times are equal, or the file has an older one: one step
    have hsame : advance cfg unmarshal (s.join call) s.calls.length call none =
        some (s.join reloaded) := by
      simp [advance, hphase, hnewer, Sys.join, Sys.put, Sys.finish, reloaded]
    exact ⟨1, s, reloaded, rfl, rfl, rfl, rfl, run_join hsame rfl 0⟩
  | false =>
    -- compare, read, install: three steps
    let reading : Call := { call with phase := .reading file.modTime, compareAt := s.installs }
    let installing : Call :=
      { reading with phase := .installing file.modTime loaded s.versions.length }
    let t : Sys :=
      { s with
        store := s.store.install file.modTime loaded
        installs := s.installs + 1
        installed := s.versions.length }
    have hcompare : advance cfg unmarshal (s.join call) s.calls.length call none =
        some (s.join reading) := by
      simp [advance, hphase, hnewer, Sys.join, Sys.put, reading]
    have hread : advance cfg unmarshal (s.join reading) s.calls.length reading none =
        some (s.join installing) := by
      simp [advance, hfile, hload, Sys.join, Sys.put, Sys.move, reading, installing]
    have hinstall : advance cfg unmarshal (s.join installing) s.calls.length installing none =
        some (t.join { reloaded with compareAt := s.installs }) := by
      simp [advance, Sys.join, Sys.put, Sys.finish, installing, reading, reloaded, t]
    refine ⟨3, t, { reloaded with compareAt := s.installs }, rfl, rfl, rfl, rfl, ?_⟩
    rw [run_join hcompare rfl, run_join hread rfl]
    exact run_join hinstall rfl 0

/-- **A due refresh completes**: alone with a valid file, the call reaches the end of its reload and
    returns what the store then has. -/
theorem exists_refreshed (cfg : Settings) (hcreated : s.created = true) (hfile : s.file = some file)
    (hload : load unmarshal file.contents = .ok loaded) {now : Int}
    (hdue : s.store.shouldReload cfg now = true) (reader : Reader) :
    ∃ (n : Nat) (s' : Sys) (call : Call),
      (fileStore cfg unmarshal).run s (.call reader now :: advances s.calls.length n) = some s' ∧
        s'.calls[s.calls.length]? = some call ∧ call.reload = some none ∧
        call.phase = .returned (s'.store.answer reader) := by
  let entered : Call := ⟨some reader, .entered now, none, 0, 0⟩
  let due : Call := { entered with phase := .due now }
  let stating : Call := { entered with phase := .stating }
  let comparing : Call :=
    { entered with phase := .comparing file.modTime, statAt := s.installs }
  let checked : Sys := { s with store := { s.store with lastChecked := now } }
  have hcall : (fileStore cfg unmarshal).step s (.call reader now) = some (s.join entered) := by
    simp [fileStore, step, hcreated, Sys.join, entered]
  have hcheck : advance cfg unmarshal (s.join entered) s.calls.length entered none =
      some (s.join due) := by
    simp [advance, hdue, Sys.join, Sys.put, Sys.move, entered, due]
  have hclaim : advance cfg unmarshal (s.join due) s.calls.length due none =
      some (checked.join stating) := by
    simp [advance, FileStore.alreadyChecked_eq, hdue, Sys.join, Sys.put, Sys.move, due, stating,
      checked]
  have hstat : advance cfg unmarshal (checked.join stating) checked.calls.length stating none =
      some (checked.join comparing) := by
    simp [advance, hfile, Sys.join, Sys.put, stating, comparing, checked]
  -- three steps up to the comparison, those of `exists_reloaded`, and the answer
  obtain ⟨n, t, call, hcalls, hreader, hphase, hreload, hrun⟩ :=
    exists_reloaded cfg checked comparing hfile hload rfl
  let t' : Sys := { t with answers := t.installed :: t.answers }
  let returned : Call := { call with phase := .returned (t.store.answer reader) }
  have hanswer : advance cfg unmarshal (t.join call) t.calls.length call none =
      some (t'.join returned) := by
    simp [advance, hphase, hreader, Sys.join, Sys.put, Sys.move, comparing, entered, t', returned]
  refine ⟨n + 1 + 3, t'.join returned, returned, ?_, ?_, hreload, rfl⟩
  · rw [System.run_cons, hcall, Option.bind_some, run_join hcheck rfl, run_join hclaim rfl,
      run_join hstat rfl, advances, List.replicate_add, System.run_append]
    change ((fileStore cfg unmarshal).run (checked.join comparing)
      (advances checked.calls.length n)).bind _ = _
    rw [hrun, Option.bind_some]
    have hlast := run_join hanswer rfl 0
    rw [hcalls] at hlast
    exact hlast
  · change (t.calls ++ [returned])[s.calls.length]? = some returned
    rw [hcalls]
    exact getElem?_concat_iff.mpr (.inr ⟨rfl, rfl⟩)

/-! ## Main theorem -/

/-- **The store follows the file exactly if** the file had the later modification time, or there was
    no time to compare with, or its contents were installed already.

    In a state where no reload is running and the file is valid, the next due refresh completes.
    And in whatever way callers go on from there, as long as the file stays as it is: once a reload
    that started after `s` has returned nil, the readers get the contents of the file exactly in
    these three cases. -/
theorem converges_iff (cfg : Settings) (unmarshal : Unmarshal) {s : Sys} {file : File}
    {snapshot : FeatureFlagSnapshot} (hcreated : s.created = true)
    (hquiet : ∀ call ∈ s.calls, call.phase.isReloading = false) (hfile : s.file = some file)
    (hvalid : unmarshal file.contents = .ok snapshot) :
    (∀ (reader : Reader) (now : Int), s.store.shouldReload cfg now = true →
      ∃ (n : Nat) (s' : Sys) (call : Call),
        (fileStore cfg unmarshal).run s (.call reader now :: advances s.calls.length n) = some s' ∧
          s'.calls[s.calls.length]? = some call ∧ call.reload = some none ∧
          call.phase = .returned (s'.store.answer reader)) ∧
    ∀ (es : List Event) (s' : Sys) (i : Nat) (call : Call), (∀ e ∈ es, e.keepsFile = true) →
      (fileStore cfg unmarshal).run s es = some s' → s.calls.length ≤ i →
      s'.calls[i]? = some call → call.reload = some none →
        (s'.store.Reflects snapshot ↔
          s.store.lastModTime = zeroTime ∨ s.store.lastModTime < file.modTime ∨
            s.store.Reflects snapshot) := by
  have hload : load unmarshal file.contents = .ok ⟨index snapshot, snapshot⟩ := by
    rw [load, hvalid]
    rfl
  have hnewer : s.store.unchanged file.modTime = false ↔
      s.store.lastModTime = zeroTime ∨ s.store.lastModTime < file.modTime := by
    simp [FileStore.unchanged, isZero, zeroTime, imp_iff_not_or]
  refine ⟨fun reader now hdue => exists_refreshed cfg hcreated hfile hload hdue reader,
    fun es s' i call hkeeps hrun hi hcall hreload => ?_⟩
  have hfollows := run_follows hload (follows_self _ hfile hquiet) hkeeps hrun
  rw [← or_assoc, ← hnewer]
  cases hsame : s.store.unchanged file.modTime with
  | false =>
    -- newer: the reload that returned nil has installed it, or found it installed
    have hfields := hfollows.succeeded hi hcall hreload hsame
    exact ⟨fun _ => .inl rfl, fun _ => reflects_of_installed hfields⟩
  | true =>
    -- not newer: nobody installs, and the store stays what it was
    rcases hfollows.store with hfields | ⟨hnewer, -⟩
    · rw [reflects_congr hfields]
      simp
    · rw [hsame] at hnewer
      cases hnewer

def loadedSample (file : File) : Option Sys :=
  sampleStore.run (initial (some ⟨20, sampleText true⟩)) (advances 0 4 ++ [.replace file])

/-- A version with a later modification time is followed. -/
theorem converges_of_later :
    ∃ s s', sampleStore.Reachable s ∧
      sampleStore.run s (.call .snapshot 1000000000 :: advances 1 7) = some s' ∧
      s'.store.Reflects (sampleSnapshot false) := by
  -- evaluated at once; what the run leaves is read off it below
  have hruns : ((loadedSample ⟨30, sampleText false⟩).bind fun s =>
      (sampleStore.run s (.call .snapshot 1000000000 :: advances 1 7)).bind fun s' =>
        s'.calls[1]?.map fun call => ((s.created, s.calls.map (·.phase.isReloading)),
          (s.file, s.store.lastModTime), call.reload)) =
      some ((true, [false]), (some ⟨30, sampleText false⟩, 20), some none) := by
    decide +kernel
  obtain ⟨s, hs, hrest⟩ := Option.bind_eq_some_iff.mp hruns
  obtain ⟨s', hs', hcalls⟩ := Option.bind_eq_some_iff.mp hrest
  obtain ⟨call, hcall, hseen⟩ := Option.map_eq_some_iff.mp hcalls
  simp only [Prod.mk.injEq] at hseen
  obtain ⟨⟨hcreated, hphases⟩, ⟨hfile, hlast⟩, hreload⟩ := hseen
  have hlength : s.calls.length = 1 := by
    rw [← List.length_map, hphases]
    rfl
  have hquiet : ∀ call ∈ s.calls, call.phase.isReloading = false := by
    intro call hmem
    have hphase : call.phase.isReloading ∈ s.calls.map (·.phase.isReloading) :=
      List.mem_map_of_mem hmem
    rw [hphases] at hphase
    exact List.mem_singleton.mp hphase
  have hvalid : sampleUnmarshal (sampleText false) = .ok (sampleSnapshot false) := by
    decide +kernel
  have hkeeps : ∀ e ∈ Event.call .snapshot 1000000000 :: advances 1 7, e.keepsFile = true := by
    decide
  have hlater : s.store.lastModTime < 30 := by
    rw [hlast]
    decide
  refine ⟨s, s', System.Reachable.run (.init ⟨_, rfl⟩) hs, hs', ?_⟩
  exact ((converges_iff sampleSettings sampleUnmarshal hcreated hquiet hfile hvalid).2
    _ s' 1 call hkeeps hs' (le_of_eq hlength) hcall hreload).mpr (.inr (.inl hlater))

/-- **A restored file is not loaded**: the store has a file with the flag on, modified at 20; it is
    replaced by one with the flag off, modified at 10; a due refresh over it returns nil, and
    `Snapshot` still has the flag on. -/
theorem restored_not_loaded :
    ∃ s s', loadedSample ⟨10, sampleText false⟩ = some s ∧
      sampleStore.run s (.call .snapshot 1000000000 :: advances 1 5) = some s' ∧
      s'.calls[1]?.map Call.reload = some (some none) ∧
      s'.file = some ⟨10, sampleText false⟩ ∧
      sampleUnmarshal (sampleText false) = .ok (sampleSnapshot false) ∧
      s'.store.currentSnapshot = sampleSnapshot true := by
  have hruns : ((loadedSample ⟨10, sampleText false⟩).bind fun s =>
      (sampleStore.run s (.call .snapshot 1000000000 :: advances 1 5)).map fun s' =>
        (s'.calls[1]?.map Call.reload, s'.file, s'.store.currentSnapshot)) =
      some (some (some none), some ⟨10, sampleText false⟩, sampleSnapshot true) := by
    decide +kernel
  have hvalid : sampleUnmarshal (sampleText false) = .ok (sampleSnapshot false) := by
    decide +kernel
  obtain ⟨s, hs, hrest⟩ := Option.bind_eq_some_iff.mp hruns
  obtain ⟨s', hs', hseen⟩ := Option.map_eq_some_iff.mp hrest
  simp only [Prod.mk.injEq] at hseen
  exact ⟨s, s', hs, hs', hseen.1, hseen.2.1, hvalid, hseen.2.2⟩

end ServiceRuntime.FeatureFlags
