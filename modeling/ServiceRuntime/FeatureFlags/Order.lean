import ServiceRuntime.FeatureFlags.FileStore

/-!
# Flags and Time

`reload` compares modification times before it reads, and installs afterwards without comparing
again. A reload that is slower than the poll interval can be overtaken: a later one installs a newer
file, and then the slow one puts the older contents back, together with the older modification
time.

`Unovertaken` is the condition that excludes this: no other reload has installed since this one
compared. Under it the modification time of the store does not go back, and neither does the
version of the file that readers get to see.
-/

namespace ServiceRuntime.FeatureFlags

open GoTime Transition

/-! ## The runs and the condition -/

/-- A new version of the file has a later modification time than all before it. -/
def Increasing (s : Sys) : Event → Prop
  | .replace file => ∀ f ∈ s.versions, f.modTime < file.modTime
  | _ => True

instance (s : Sys) (e : Event) : Decidable (Increasing s e) := by
  unfold Increasing
  split
  · infer_instance
  · infer_instance

/-- The modification time that `stat` returned. -/
def Phase.modTime : Phase → Option Int
  | .comparing modTime | .reading modTime | .installing modTime _ _ => some modTime
  | _ => none

/-- The same, once it has been compared. -/
def Phase.compared : Phase → Option Int
  | .reading modTime | .installing modTime _ _ => some modTime
  | _ => none

def Phase.version : Phase → Option Nat
  | .installing _ _ version => some version
  | _ => none

/-- A reload installs only if no other has installed since it compared modification times, or
    since its `stat` if there was nothing to compare with. -/
def Unovertaken (s : Sys) : Event → Prop
  | .advance i _ =>
    ∀ call ∈ s.calls[i]?, call.phase.version.isSome = true →
      call.compareAt = s.installs ∧
        (isZero s.store.lastModTime = true → call.statAt = s.installs)
  | _ => True

instance (s : Sys) (e : Event) : Decidable (Unovertaken s e) := by
  unfold Unovertaken
  split
  · infer_instance
  · infer_instance

/-! ## Versions -/

/-- The version of the file with this number, counted from one. -/
def Sys.versionAt (s : Sys) (number : Nat) : Option File := s.versions.reverse[number - 1]?

/-- The contents of version `number` were loaded as `loaded`. -/
def Sys.LoadedFrom (unmarshal : Unmarshal) (s : Sys) (number : Nat) (loaded : Loaded) : Prop :=
  ∃ file, s.versionAt number = some file ∧ load unmarshal file.contents = .ok loaded

variable {unmarshal : Unmarshal} {s t s' : Sys} {call call' : Call}

theorem Sys.LoadedFrom.mono {number : Nat} {loaded : Loaded}
    (h : s.LoadedFrom unmarshal number loaded) {newer : List File}
    (hversions : t.versions = newer ++ s.versions) : t.LoadedFrom unmarshal number loaded := by
  obtain ⟨file, hfile, hload⟩ := h
  refine ⟨file, ?_, hload⟩
  rw [Sys.versionAt] at hfile ⊢
  obtain ⟨hlt, -⟩ := List.getElem?_eq_some_iff.mp hfile
  rw [hversions, List.reverse_append, List.getElem?_append_left hlt, hfile]

/-- The numbers of versions tell the truth: the file is the newest version, and what is installed
    or about to be was loaded from the version with the number. -/
structure Numbered (unmarshal : Unmarshal) (s : Sys) : Prop where
  file : ∀ f, s.file = some f → s.versions.head? = some f
  store : ∀ snapshot, s.store.snapshot = some snapshot →
    s.LoadedFrom unmarshal s.installed ⟨s.store.flags, snapshot⟩
  calls : ∀ {k : Nat} {call : Call} {modTime : Int} {loaded : Loaded} {version : Nat},
    s.calls[k]? = some call → call.phase = .installing modTime loaded version →
      s.LoadedFrom unmarshal version loaded

theorem loadedFrom_head {file : File} {loaded : Loaded} (hfile : s.versions.head? = some file)
    (hload : load unmarshal file.contents = .ok loaded) :
    s.LoadedFrom unmarshal s.versions.length loaded := by
  refine ⟨file, ?_, hload⟩
  obtain ⟨older, holder⟩ := List.head?_eq_some_iff.mp hfile
  simp [Sys.versionAt, holder]

theorem Turn.numbered {k : Nat} (hturn : Turn unmarshal s call t call') (h : Numbered unmarshal s)
    (hcall : s.calls[k]? = some call) :
    (∀ snapshot, t.store.snapshot = some snapshot →
      t.LoadedFrom unmarshal t.installed ⟨t.store.flags, snapshot⟩) ∧
    ∀ {modTime loaded version}, call'.phase = .installing modTime loaded version →
      t.LoadedFrom unmarshal version loaded := by
  cases hturn with
  | check _ hnext =>
    refine ⟨h.store, fun hphase => ?_⟩
    rcases hnext with rfl | rfl
    · cases hphase
    · cases hphase
  | read _ hfile hload =>
    -- what is read is the newest version
    refine ⟨h.store, fun hphase => ?_⟩
    cases hphase
    exact loadedFrom_head (h.file _ hfile) hload
  | install hphase =>
    refine ⟨fun snapshot hsnapshot => ?_, fun hphase => by cases hphase⟩
    cases hsnapshot
    exact h.calls hcall hphase
  | _ => exact ⟨h.store, fun hphase => by cases hphase⟩

theorem Step.numbered {e : Event} (hstep : Step unmarshal s e s') (h : Numbered unmarshal s) :
    Numbered unmarshal s' := by
  -- the versions grow at the front, which keeps their numbers
  have hversions : ∃ newer, s'.versions = newer ++ s.versions := by
    cases hstep with
    | @replace file => exact ⟨[file], rfl⟩
    | advance _ hturn => exact ⟨[], hturn.frame.2.2⟩
    | call | remove => exact ⟨[], rfl⟩
  obtain ⟨newer, hversions⟩ := hversions
  refine ⟨fun f hf => ?_, ?_, fun {k c modTime loaded version} hc hphase => ?_⟩
  · cases hstep with
    | advance _ hturn =>
      obtain ⟨-, hfile, hsame⟩ := hturn.frame
      exact hsame ▸ h.file f (hfile ▸ hf)
    | call => exact h.file f hf
    | replace => exact hf
    | remove => cases hf
  · cases hstep with
    | advance hcall hturn => exact (hturn.numbered h hcall).1
    | call => exact h.store
    | replace => exact fun snapshot hsnapshot => (h.store snapshot hsnapshot).mono hversions
    | remove => exact h.store
  · rcases hstep.calls hc with
      ⟨-, reader, now, rfl⟩ | ⟨fault, call, t, rfl, hcall, hturn, rfl⟩ | hc
    · cases hphase
    · exact (hturn.numbered h hcall).2 hphase
    · exact (h.calls hc hphase).mono hversions

theorem numbered_of_reachable {cfg : Settings} (h : (fileStore cfg unmarshal).Reachable s) :
    Numbered unmarshal s := by
  refine System.Reachable.invariant (P := Numbered unmarshal) ?_
    (fun s e s' hs hstep => (Step.of_step hstep).numbered hs) h
  rintro s ⟨file, rfl⟩
  refine ⟨fun f hf => ?_, fun snapshot hsnapshot => (by cases hsnapshot),
    fun {k call _ _ _} hcall hphase => ?_⟩
  · cases hf
    rfl
  · obtain rfl := List.mem_singleton.mp (List.mem_of_getElem? hcall)
    cases hphase

/-! ## Order -/

/-- How a call stands to the store: what it has looked at is not newer than the file, and if no one
    has installed in the meantime, not older than the store. -/
structure Call.Ordered (s : Sys) (call : Call) : Prop where
  statAt : call.statAt ≤ s.installs
  compareAt : call.compareAt ≤ s.installs
  ofFile : ∀ m, call.phase.modTime = some m → ∃ f ∈ s.versions, m = f.modTime
  stated : ∀ m, call.phase.modTime = some m → call.statAt = s.installs →
    s.store.snapshot.isSome = true → s.store.lastModTime ≤ m
  compared : ∀ m, call.phase.compared = some m → call.compareAt = s.installs →
    isZero s.store.lastModTime = false → s.store.lastModTime < m
  read : ∀ n, call.phase.version = some n → n ≤ s.versions.length
  readNewer : ∀ n, call.phase.version = some n → call.compareAt = s.installs → s.installed ≤ n

/-- The state is in order: the file is the newest version, and readers have seen versions in
    order, none newer than the installed one. -/
structure Ordered (s : Sys) : Prop where
  file : ∀ f, s.file = some f → f ∈ s.versions ∧ ∀ g ∈ s.versions, g.modTime ≤ f.modTime
  store : s.store.snapshot.isSome = true → ∃ f ∈ s.versions, s.store.lastModTime = f.modTime
  installed : s.installed ≤ s.versions.length
  calls : ∀ {k : Nat} {call : Call}, s.calls[k]? = some call → call.Ordered s
  answers : s.answers.Pairwise (· ≥ ·)
  seen : ∀ n ∈ s.answers, n ≤ s.installed

/-- A call that does not move stays in order: either nothing that it is compared with has changed,
    or there was an install. -/
theorem Call.Ordered.mono (h : call.Ordered s) {newer : List File}
    (hversions : t.versions = newer ++ s.versions)
    (hother : (t.store.lastModTime = s.store.lastModTime ∧ t.store.snapshot = s.store.snapshot ∧
      t.installs = s.installs ∧ t.installed = s.installed) ∨ s.installs < t.installs) :
    call.Ordered t := by
  have hlength : s.versions.length ≤ t.versions.length := by
    rw [hversions, List.length_append]
    omega
  have hstat := h.statAt
  have hcompare := h.compareAt
  have hofFile : ∀ m, call.phase.modTime = some m → ∃ f ∈ t.versions, m = f.modTime := by
    intro m hm
    obtain ⟨f, hf, hmf⟩ := h.ofFile m hm
    exact ⟨f, hversions ▸ List.mem_append_right newer hf, hmf⟩
  have hread : ∀ n, call.phase.version = some n → n ≤ t.versions.length :=
    fun n hn => le_trans (h.read n hn) hlength
  -- what a call knows is only claimed for as long as nobody installs
  rcases hother with ⟨hmodTime, hsnapshot, hinstalls, hinstalled⟩ | hlt
  · refine ⟨by omega, by omega, hofFile, ?_, ?_, hread, ?_⟩
    · rw [hmodTime, hsnapshot, hinstalls]
      exact h.stated
    · rw [hmodTime, hinstalls]
      exact h.compared
    · rw [hinstalls, hinstalled]
      exact h.readNewer
  · exact ⟨by omega, by omega, hofFile, fun m _ heq => by omega, fun m _ heq => by omega, hread,
      fun n _ heq => by omega⟩

/-- A call that has nothing to install yet, or any more, is in order. -/
theorem Call.Ordered.of_idle (hstat : call.statAt ≤ s.installs)
    (hcompare : call.compareAt ≤ s.installs) (hidle : call.phase.modTime = none) :
    call.Ordered s := by
  -- without a modification time there is neither a comparison nor a version
  have hcompared : call.phase.compared = none := by
    cases hphase : call.phase with
    | reading m | installing m loaded version =>
      rw [hphase] at hidle
      cases hidle
    | _ => rfl
  have hversion : call.phase.version = none := by
    cases hphase : call.phase with
    | installing m loaded version =>
      rw [hphase] at hidle
      cases hidle
    | _ => rfl
  refine ⟨hstat, hcompare, ?_, ?_, ?_, ?_, ?_⟩
  · rw [hidle]
    exact fun m hm => by cases hm
  · rw [hidle]
    exact fun m hm => by cases hm
  · rw [hcompared]
    exact fun m hm => by cases hm
  · rw [hversion]
    exact fun n hn => by cases hn
  · rw [hversion]
    exact fun n hn => by cases hn

theorem Turn.callOrdered (hturn : Turn unmarshal s call t call') (hcall : call.Ordered s)
    (h : Ordered s) : call'.Ordered t := by
  have hstat := hcall.statAt
  have hcompare := hcall.compareAt
  cases hturn with
  | check _ hnext =>
    refine .of_idle hstat hcompare ?_
    rcases hnext with rfl | rfl
    · rfl
    · rfl
  | claim => exact .of_idle hstat hcompare rfl
  | stat _ hfile =>
    -- the file has the latest time of all versions, among them the installed one
    obtain ⟨hmem, hnewest⟩ := h.file _ hfile
    refine ⟨le_refl _, hcompare, fun m hm => ?_, fun m hm _ hsome => ?_, fun m hm => (by cases hm),
      fun n hn => (by cases hn), fun n hn => (by cases hn)⟩
    · cases hm
      exact ⟨_, hmem, rfl⟩
    · cases hm
      obtain ⟨f, hf, hlast⟩ := h.store hsome
      exact hlast ▸ hnewest f hf
  | unchanged => exact .of_idle hstat hcompare rfl
  | compare hphase hnewer =>
    refine ⟨hstat, le_refl _, fun m hm => ?_, fun m hm => ?_, fun m hm _ hzero => ?_,
      fun n hn => (by cases hn), fun n hn => (by cases hn)⟩
    · cases hm
      exact hcall.ofFile _ (by rw [hphase]; rfl)
    · cases hm
      exact hcall.stated _ (by rw [hphase]; rfl)
    · cases hm
      -- the comparison itself
      simpa [FileStore.unchanged, hzero] using hnewer
  | read hphase =>
    -- the newest version is read, and no later one can be installed
    refine ⟨hstat, hcompare, fun m hm => ?_, fun m hm => ?_, fun m hm => ?_, fun n hn => ?_,
      fun n hn _ => ?_⟩
    · cases hm
      exact hcall.ofFile _ (by rw [hphase]; rfl)
    · cases hm
      exact hcall.stated _ (by rw [hphase]; rfl)
    · cases hm
      exact hcall.compared _ (by rw [hphase]; rfl)
    · cases hn
      exact le_refl _
    · cases hn
      exact h.installed
  | fail => exact .of_idle hstat hcompare rfl
  | install => exact .of_idle (Nat.le_succ_of_le hstat) (Nat.le_succ_of_le hcompare) rfl
  | answer => exact .of_idle hstat hcompare rfl

theorem Turn.others (hturn : Turn unmarshal s call t call') :
    (t.store.lastModTime = s.store.lastModTime ∧ t.store.snapshot = s.store.snapshot ∧
      t.installs = s.installs ∧ t.installed = s.installed) ∨ s.installs < t.installs := by
  cases hturn with
  | install => exact .inr (Nat.lt_succ_self _)
  | _ => exact .inl ⟨rfl, rfl, rfl, rfl⟩

/-- **No turn goes back in time**, if an install is not overtaken. -/
theorem Turn.forward (hturn : Turn unmarshal s call t call') (hcall : call.Ordered s)
    (hok : call.phase.version.isSome = true → call.compareAt = s.installs ∧
      (isZero s.store.lastModTime = true → call.statAt = s.installs)) :
    (s.store.snapshot.isSome = true → s.store.lastModTime ≤ t.store.lastModTime) ∧
      s.installed ≤ t.installed := by
  cases hturn with
  | @install modTime loaded version hphase =>
    have hmodTime : call.phase.modTime = some modTime := by rw [hphase]; rfl
    have hcompared : call.phase.compared = some modTime := by rw [hphase]; rfl
    have hversion : call.phase.version = some version := by rw [hphase]; rfl
    obtain ⟨hcompareAt, hstatAt⟩ := hok (by rw [hversion]; rfl)
    refine ⟨fun hsome => ?_, hcall.readNewer version hversion hcompareAt⟩
    -- with the zero time there was nothing to compare, and the stat has to do
    cases hzero : isZero s.store.lastModTime with
    | false => exact le_of_lt (hcall.compared modTime hcompared hcompareAt hzero)
    | true => exact hcall.stated modTime hmodTime (hstatAt hzero) hsome
  | _ => exact ⟨fun _ => le_refl _, le_refl _⟩

theorem Step.forward {e : Event} (hstep : Step unmarshal s e s') (h : Ordered s)
    (hok : Unovertaken s e) :
    (s.store.snapshot.isSome = true → s.store.lastModTime ≤ s'.store.lastModTime) ∧
      s.installed ≤ s'.installed := by
  cases hstep with
  | advance hcall hturn => exact hturn.forward (h.calls hcall) (hok _ hcall)
  | call | replace | remove => exact ⟨fun _ => le_refl _, le_refl _⟩

/-! ### One step keeps the order -/

theorem Turn.store_ofFile (hturn : Turn unmarshal s call t call') (hcall : call.Ordered s)
    (h : Ordered s) (hsome : t.store.snapshot.isSome = true) :
    ∃ f ∈ s.versions, t.store.lastModTime = f.modTime := by
  cases hturn with
  | install hphase => exact hcall.ofFile _ (by rw [hphase]; rfl)
  | _ => exact h.store hsome

theorem Turn.installed_le (hturn : Turn unmarshal s call t call') (hcall : call.Ordered s)
    (h : Ordered s) : t.installed ≤ s.versions.length := by
  cases hturn with
  | install hphase => exact hcall.read _ (by rw [hphase]; rfl)
  | _ => exact h.installed

theorem Turn.answers (hturn : Turn unmarshal s call t call') :
    t.answers = s.answers ∨ t.answers = s.installed :: s.answers := by
  cases hturn with
  | answer => exact .inr rfl
  | _ => exact .inl rfl

theorem Step.ordered {e : Event} (hstep : Step unmarshal s e s') (h : Ordered s)
    (hfile : Increasing s e) (hok : Unovertaken s e) : Ordered s' := by
  have hforward := (hstep.forward h hok).2
  cases hstep with
  | call =>
    refine ⟨h.file, h.store, h.installed, fun {k c} hc => ?_, h.answers, h.seen⟩
    rcases getElem?_concat_iff.mp hc with hc | ⟨-, rfl⟩
    · exact (h.calls hc).mono (List.nil_append _).symm (.inl ⟨rfl, rfl, rfl, rfl⟩)
    · exact .of_idle (Nat.zero_le _) (Nat.zero_le _) rfl
  | @advance i fault call call' t hcall hturn =>
    obtain ⟨hcalls, hsameFile, hversions⟩ := hturn.frame
    have hordered := h.calls hcall
    refine ⟨?_, ?_, ?_, fun {k c} hc => ?_, ?_, ?_⟩
    · change ∀ f, t.file = some f → f ∈ t.versions ∧ ∀ g ∈ t.versions, g.modTime ≤ f.modTime
      rw [hsameFile, hversions]
      exact h.file
    · change _ → ∃ f ∈ t.versions, _
      rw [hversions]
      exact hturn.store_ofFile hordered h
    · change t.installed ≤ t.versions.length
      rw [hversions]
      exact hturn.installed_le hordered h
    -- the call that moved, and the others, for whom there may have been an install
    · have ht : t.calls[i]? = some call := by rw [hcalls, hcall]
      rcases (getElem?_set_iff ht).mp hc with ⟨rfl, rfl⟩ | ⟨-, hc⟩
      · exact (hturn.callOrdered hordered h).mono (List.nil_append _).symm
          (.inl ⟨rfl, rfl, rfl, rfl⟩)
      · exact (h.calls (hcalls ▸ hc)).mono (hversions.trans (List.nil_append _).symm) hturn.others
    · rcases hturn.answers with hsame | hnew
      · exact hsame ▸ h.answers
      -- the installed version is not older than any that was seen
      · exact hnew ▸ List.pairwise_cons.mpr ⟨h.seen, h.answers⟩
    · intro n hn
      rcases hturn.answers with hsame | hnew
      · exact le_trans (h.seen n (hsame ▸ hn)) hforward
      · have hn : n ∈ s.installed :: s.answers := hnew ▸ hn
        rcases List.mem_cons.mp hn with rfl | hn
        · exact hforward
        · exact le_trans (h.seen n hn) hforward
  | @replace file =>
    refine ⟨fun f hf => ?_, fun hsome => ?_, ?_, fun {k c} hc => ?_, h.answers, h.seen⟩
    · cases hf
      refine ⟨List.mem_cons_self, fun g hg => ?_⟩
      rcases List.mem_cons.mp hg with rfl | hg
      · exact le_refl _
      -- modification times increase
      · exact le_of_lt (hfile g hg)
    · obtain ⟨f, hf, hlast⟩ := h.store hsome
      exact ⟨f, List.mem_cons_of_mem _ hf, hlast⟩
    · exact Nat.le_succ_of_le h.installed
    · exact (h.calls hc).mono (List.singleton_append).symm (.inl ⟨rfl, rfl, rfl, rfl⟩)
  | remove =>
    refine ⟨fun f hf => (by cases hf), h.store, h.installed, fun {k c} hc => ?_, h.answers, h.seen⟩
    exact (h.calls hc).mono (List.nil_append _).symm (.inl ⟨rfl, rfl, rfl, rfl⟩)

/-- The runs of `neverBack_of_unovertaken`. -/
def InOrder (s : Sys) (e : Event) : Prop := Increasing s e ∧ Unovertaken s e

instance (s : Sys) (e : Event) : Decidable (InOrder s e) :=
  inferInstanceAs (Decidable (_ ∧ _))

theorem ordered_initial (file : Option File) : Ordered (initial file) := by
  refine ⟨fun f hf => ?_, fun hsome => (by cases hsome), Nat.zero_le _, fun {k c} hc => ?_,
    List.Pairwise.nil, fun n hn => (by cases hn)⟩
  · cases hf
    refine ⟨List.mem_singleton_self f, fun g hg => ?_⟩
    rw [List.mem_singleton.mp hg]
  · obtain rfl := List.mem_singleton.mp (List.mem_of_getElem? hc)
    exact .of_idle (le_refl _) (le_refl _) rfl

theorem ordered_of_reachableBy {cfg : Settings}
    (h : (fileStore cfg unmarshal).ReachableBy InOrder s) : Ordered s := by
  refine System.ReachableBy.invariant (P := Ordered) ?_
    (fun s e s' _ hs hok hstep => (Step.of_step hstep).ordered hs hok.1 hok.2) h
  rintro s ⟨file, rfl⟩
  exact ordered_initial file

/-! ## Main theorem -/

/-- **Flags do not go back in time** while the versions of the file have increasing modification
    times and no install is overtaken: readers see versions in order, each answer coming from the
    contents of the installed version, and no step lets the modification time of the installed
    snapshot decrease. -/
theorem neverBack_of_unovertaken (cfg : Settings) (unmarshal : Unmarshal) {s : Sys}
    (hs : (fileStore cfg unmarshal).ReachableBy InOrder s) :
    s.answers.Pairwise (· ≥ ·) ∧
      (∀ n ∈ s.answers, n ≤ s.installed) ∧
      (∀ snapshot, s.store.snapshot = some snapshot →
        s.LoadedFrom unmarshal s.installed ⟨s.store.flags, snapshot⟩) ∧
      ∀ (e : Event) (s' : Sys), InOrder s e → (fileStore cfg unmarshal).step s e = some s' →
        s.store.snapshot.isSome = true →
          s.store.lastModTime ≤ s'.store.lastModTime ∧ s.installed ≤ s'.installed := by
  have hordered := ordered_of_reachableBy hs
  refine ⟨hordered.answers, hordered.seen, (numbered_of_reachable hs.reachable).store,
    fun e s' hok hstep hsome => ?_⟩
  obtain ⟨hmodTime, hinstalled⟩ := (Step.of_step hstep).forward hordered hok.2
  exact ⟨hmodTime hsome, hinstalled⟩

def unhurried : List Event :=
  advances 0 4 ++ [.replace ⟨20, sampleText false⟩, .call .snapshot 1000000000] ++ advances 1 7 ++
    [.replace ⟨30, sampleText true⟩, .call .snapshot 6000000000] ++ advances 2 7

/-- The hypothesis of `neverBack_of_unovertaken` holds of runs that install several versions. -/
theorem neverBack_of_unhurried :
    ∃ s, sampleStore.ReachableBy InOrder s ∧ s.answers = [3, 2] ∧ s.store.lastModTime = 30 ∧
      s.answers.Pairwise (· ≥ ·) := by
  have hrun : ((sampleStore.runBy InOrder (initial (some ⟨10, sampleText false⟩)) unhurried).map
      fun s => (s.answers, s.store.lastModTime)) = some ([3, 2], 30) := by decide +kernel
  obtain ⟨s, hs, hseen⟩ := Option.map_eq_some_iff.mp hrun
  rw [Prod.mk.injEq] at hseen
  have hreach : sampleStore.ReachableBy InOrder s := .runBy (.init ⟨_, rfl⟩) hs
  exact ⟨s, hreach, hseen.1, hseen.2,
    (neverBack_of_unovertaken sampleSettings sampleUnmarshal hreach).1⟩

/-- The first reload reads version 2 and pauses; the second one installs version 3, and its
    caller sees it. -/
def overtaking : List Event :=
  advances 0 4 ++ [.replace ⟨20, sampleText false⟩, .call .snapshot 1000000000] ++ advances 1 5 ++
    [.replace ⟨30, sampleText true⟩, .call .snapshot 6000000000] ++ advances 2 7

/-- The first reload installs, and a reader comes within the poll interval. -/
def lateInstall : List Event := advances 1 1 ++ [.call .snapshot 7000000000] ++ advances 3 2

/-- **The stale install**: the versions of the file have increasing modification times, a reader has
    seen version 3 with the flag on, and the next one sees version 2 with the flag off;
    `lastModTime` has gone from 30 back to 20. -/
theorem lateInstall_goes_back :
    ∃ s t, sampleStore.runBy Increasing (initial (some ⟨10, sampleText false⟩)) overtaking = some s ∧
      sampleStore.runBy Increasing s lateInstall = some t ∧
      (s.store.lastModTime, s.store.currentSnapshot, s.answers) =
        (30, sampleSnapshot true, [3]) ∧
      (t.store.lastModTime, t.store.currentSnapshot, t.answers) =
        (20, sampleSnapshot false, [2, 3]) := by
  have hrun : ((sampleStore.runBy Increasing (initial (some ⟨10, sampleText false⟩))
      overtaking).bind fun s => (sampleStore.runBy Increasing s lateInstall).map fun t =>
        ((s.store.lastModTime, s.store.currentSnapshot, s.answers),
          (t.store.lastModTime, t.store.currentSnapshot, t.answers))) =
      some ((30, sampleSnapshot true, [3]), (20, sampleSnapshot false, [2, 3])) := by
    decide +kernel
  obtain ⟨s, hs, hrest⟩ := Option.bind_eq_some_iff.mp hrun
  obtain ⟨t, ht, hseen⟩ := Option.map_eq_some_iff.mp hrest
  rw [Prod.mk.injEq] at hseen
  exact ⟨s, t, hs, ht, hseen.1, hseen.2⟩

end ServiceRuntime.FeatureFlags
