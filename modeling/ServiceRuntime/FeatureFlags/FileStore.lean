import ServiceRuntime.GoStrings
import ServiceRuntime.GoTime
import ServiceRuntime.Transition.System

/-!
# The Feature-Flag File Store

`FileStore` keeps the feature flags of a file in memory. Each `Lookup` and `Snapshot` first calls
`refreshIfNeeded`, which reloads the file once per poll interval:

    stat → compare with lastModTime → read and parse → install

The mutex `mu` is held for single looks at the fields and for the install, never across a file
operation. So each arrow is a point where other goroutines, and whoever writes the file, may get
in between. `NewFileStore` runs the same `reload` before anyone else has the store.

`protojson` is a parameter: a function from the bytes of the file to a snapshot or an error.
-/

namespace ServiceRuntime.FeatureFlags

open GoStrings GoTime Transition

/-! ## Messages -/

structure FeatureFlag where
  key : String
  enabled : Bool
  rolloutPercent : UInt32
  owners : List String
  description : String
  deriving DecidableEq

/-- `configv1.FeatureFlagSnapshot`; `flags` is a slice of pointers. -/
structure FeatureFlagSnapshot where
  schemaVersion : UInt32
  flags : List (Option FeatureFlag)
  deriving DecidableEq

def FeatureFlagSnapshot.zero : FeatureFlagSnapshot := ⟨0, []⟩

/-- `proto.Clone` of a message, or of nil. -/
def clone {α : Type} (m : Option α) : Option α := m

abbrev FlagMap := String → Option FeatureFlag

/-- The body of the loop of `reload` over the flags of a snapshot. -/
def indexFlag (flags : FlagMap) : Option FeatureFlag → FlagMap
  | none => flags
  | some flag =>
    let key := trimSpace flag.key
    if key = "" then flags
    else
      match clone (some flag) with
      | none => flags
      | some cloned => Function.update flags key (some cloned)

def index (snapshot : FeatureFlagSnapshot) : FlagMap :=
  snapshot.flags.foldl indexFlag fun _ => none

/-! ## Settings -/

/-- `Options`, without the logger. -/
structure Options where
  pollInterval : Duration

/-- The fields of a `FileStore` that never change. -/
structure Settings where
  path : String
  pollInterval : Duration
  pollInterval_pos : 0 < pollInterval.ns

theorem defaultPollInterval_lower : -2 ^ 63 ≤ 5 * Duration.second.ns := by decide

theorem defaultPollInterval_upper : 5 * Duration.second.ns < 2 ^ 63 := by decide

def defaultPollInterval : Duration :=
  ⟨5 * Duration.second.ns, defaultPollInterval_lower, defaultPollInterval_upper⟩

/-- `NewFileStore`, before it loads the file. -/
def newSettings (path : String) (opts : Options) : Except String Settings :=
  let path := trimSpace path
  if path = "" then .error "feature_flags_path_required"
  else if h : opts.pollInterval.ns ≤ 0 then .ok ⟨path, defaultPollInterval, by decide⟩
  else .ok ⟨path, opts.pollInterval, by omega⟩

/-! ## The store -/

/-- The fields of a `FileStore` that `mu` guards. -/
structure FileStore where
  flags : FlagMap
  lastChecked : Int
  lastModTime : Int
  snapshot : Option FeatureFlagSnapshot

inductive ReloadError where
  | stat (err : String)
  | readFile (err : String)
  | unmarshal (err : String)
  | cloneSnapshot
  deriving DecidableEq

def ReloadError.text : ReloadError → String
  | stat err => "stat_feature_flags: " ++ err
  | readFile err => "read_feature_flags: " ++ err
  | unmarshal err => "unmarshal_feature_flags: " ++ err
  | cloneSnapshot => "clone_feature_flags_snapshot"

/-- `protojson.UnmarshalOptions.Unmarshal`, into a snapshot. -/
abbrev Unmarshal := List UInt8 → Except String FeatureFlagSnapshot

/-- What `reload` has made of the contents of the file. -/
structure Loaded where
  flags : FlagMap
  snapshot : FeatureFlagSnapshot

/-- `reload`, from the contents to what is installed. -/
def load (unmarshal : Unmarshal) (contents : List UInt8) : Except ReloadError Loaded :=
  match unmarshal contents with
  | .error err => .error (.unmarshal err)
  | .ok snapshot =>
    match clone (some snapshot) with
    | none => .error .cloneSnapshot
    | some cloned => .ok ⟨index snapshot, cloned⟩

namespace FileStore

/-- The store that `NewFileStore` starts from. -/
def zero : FileStore := ⟨fun _ => none, zeroTime, zeroTime, none⟩

/-- The first look of `refreshIfNeeded` at `lastChecked`. -/
def shouldReload (store : FileStore) (cfg : Settings) (now : Int) : Bool :=
  isZero store.lastChecked || decide (cfg.pollInterval.ns ≤ (sub now store.lastChecked).ns)

/-- The second look, with the lock held: another call has got there first. -/
def alreadyChecked (store : FileStore) (cfg : Settings) (now : Int) : Bool :=
  !isZero store.lastChecked && decide ((sub now store.lastChecked).ns < cfg.pollInterval.ns)

/-- `reload` takes the file for unchanged. -/
def unchanged (store : FileStore) (modTime : Int) : Bool :=
  !isZero store.lastModTime && !decide (store.lastModTime < modTime)

/-- The end of `reload`. -/
def install (store : FileStore) (modTime : Int) (loaded : Loaded) : FileStore :=
  { store with flags := loaded.flags, lastModTime := modTime, snapshot := some loaded.snapshot }

/-- `Lookup`, after the refresh. -/
def lookup (store : FileStore) (key : String) : Option FeatureFlag :=
  match store.flags (trimSpace key) with
  | none => none
  | some flag => clone (some flag)

/-- `Snapshot`, after the refresh. -/
def currentSnapshot (store : FileStore) : FeatureFlagSnapshot :=
  match store.snapshot with
  | none => .zero
  | some snapshot => (clone (some snapshot)).getD .zero

end FileStore

/-! ## The system -/

structure File where
  modTime : Int
  contents : List UInt8
  deriving DecidableEq

inductive Reader where
  | lookup (key : String)
  | snapshot
  deriving DecidableEq

inductive Answer where
  | flag (flag : Option FeatureFlag)
  | snapshot (snapshot : FeatureFlagSnapshot)
  deriving DecidableEq

def FileStore.answer (store : FileStore) : Reader → Answer
  | .lookup key => .flag (store.lookup key)
  | .snapshot => .snapshot store.currentSnapshot

inductive Phase where
  /-- `refreshIfNeeded` has read the clock. -/
  | entered (now : Int)
  /-- The poll interval is over; before the second look. -/
  | due (now : Int)
  | stating
  /-- Before `reload` compares with `lastModTime`. -/
  | comparing (modTime : Int)
  | reading (modTime : Int)
  /-- Before the install; `version` is the number of the version that was read. -/
  | installing (modTime : Int) (loaded : Loaded) (version : Nat)
  /-- After `reload`, or without one. -/
  | refreshed
  | returned (answer : Answer)

/-- A call of `NewFileStore`, `Lookup` or `Snapshot`. -/
structure Call where
  /-- `none` for `NewFileStore`. -/
  reader : Option Reader
  phase : Phase
  /-- What `reload` returned, if it was called and has returned: `NewFileStore` passes the error
      on and `refreshIfNeeded` logs it. -/
  reload : Option (Option ReloadError)
  /-- The number of installs at the stat, and at the comparison; no step reads them. -/
  statAt : Nat
  compareAt : Nat

structure Sys where
  store : FileStore
  file : Option File
  calls : List Call
  /-- All versions of the file so far, newest first; this and the rest is not part of the
      program. -/
  versions : List File
  /-- How many installs there were. -/
  installs : Nat
  /-- The number of the version whose contents are installed. -/
  installed : Nat
  /-- The numbers of the versions that readers have seen, newest first. -/
  answers : List Nat

inductive Event where
  /-- `Lookup` or `Snapshot` is called and reads the clock. -/
  | call (reader : Reader) (now : Int)
  /-- Call `i` takes its next step; if that is a file operation, it fails with `fault`. -/
  | advance (i : Nat) (fault : Option String)
  | replace (file : File)
  | remove
  deriving DecidableEq

namespace Sys

def put (s : Sys) (i : Nat) (call : Call) : Sys := { s with calls := s.calls.set i call }

def move (s : Sys) (i : Nat) (call : Call) (phase : Phase) : Sys :=
  s.put i { call with phase := phase }

def finish (s : Sys) (i : Nat) (call : Call) (err : Option ReloadError) : Sys :=
  s.put i { call with phase := .refreshed, reload := some err }

/-- `NewFileStore` has returned the store. -/
def created (s : Sys) : Bool := s.calls[0]?.any fun call => call.reload == some none

end Sys

def advance (cfg : Settings) (unmarshal : Unmarshal) (s : Sys) (i : Nat) (call : Call)
    (fault : Option String) : Option Sys :=
  match call.phase with
  -- the first look, under the read lock
  | .entered now =>
    if s.store.shouldReload cfg now then some (s.move i call (.due now))
    else some (s.move i call .refreshed)
  -- the second look, under the write lock, which lets one caller through
  | .due now =>
    if s.store.alreadyChecked cfg now then some (s.move i call .refreshed)
    else some ({ s with store := { s.store with lastChecked := now } }.move i call .stating)
  -- no lock is held from here to the install
  | .stating =>
    match fault, s.file with
    | some err, _ => some (s.finish i call (some (.stat err)))
    | none, none =>
      some (s.finish i call (some (.stat ("stat " ++ cfg.path ++ ": no such file or directory"))))
    | none, some file =>
      some (s.put i { call with phase := .comparing file.modTime, statAt := s.installs })
  | .comparing modTime =>
    if s.store.unchanged modTime then some (s.finish i call none)
    else some (s.put i { call with phase := .reading modTime, compareAt := s.installs })
  | .reading modTime =>
    match fault, s.file with
    | some err, _ => some (s.finish i call (some (.readFile err)))
    | none, none =>
      some (s.finish i call
        (some (.readFile ("open " ++ cfg.path ++ ": no such file or directory"))))
    | none, some file =>
      -- `s.versions.length` is the number of the newest version, the one that is read
      match load unmarshal file.contents with
      | .error err => some (s.finish i call (some err))
      | .ok loaded => some (s.move i call (.installing modTime loaded s.versions.length))
  -- nothing is compared again here
  | .installing modTime loaded version =>
    some ({ s with
      store := s.store.install modTime loaded
      installs := s.installs + 1
      installed := version }.finish i call none)
  | .refreshed =>
    call.reader.map fun reader =>
      { s with answers := s.installed :: s.answers }.move i call
        (.returned (s.store.answer reader))
  | .returned _ => none

def step (cfg : Settings) (unmarshal : Unmarshal) (s : Sys) : Event → Option Sys
  | .call reader now =>
    -- there is no store to call before `NewFileStore` has returned one
    if s.created then
      some { s with calls := s.calls ++ [⟨some reader, .entered now, none, 0, 0⟩] }
    else none
  | .advance i fault => s.calls[i]?.bind fun call => advance cfg unmarshal s i call fault
  | .replace file => some { s with file := some file, versions := file :: s.versions }
  | .remove => some { s with file := none }

/-- `NewFileStore` is about to load the file. -/
def initial (file : Option File) : Sys where
  store := .zero
  file := file
  calls := [⟨none, .stating, none, 0, 0⟩]
  versions := file.toList
  installs := 0
  installed := 0
  answers := []

/-- A store, its callers and its file, in any interleaving. -/
def fileStore (cfg : Settings) (unmarshal : Unmarshal) : System Sys Event where
  init s := ∃ file, s = initial file
  step := step cfg unmarshal

/-! ## The shapes of a step -/

/-- What the step of a call does to the state apart from the calls, and to the call. -/
inductive Turn (unmarshal : Unmarshal) (s : Sys) (call : Call) : Sys → Call → Prop where
  /-- A look at `lastChecked`. -/
  | check {now : Int} {phase : Phase}
      (hphase : call.phase = .entered now ∨ call.phase = .due now)
      (hnext : phase = .due now ∨ phase = .refreshed) :
      Turn unmarshal s call s { call with phase := phase }
  /-- The call takes the reload of this poll interval. -/
  | claim {now : Int} (hphase : call.phase = .due now) :
      Turn unmarshal s call { s with store := { s.store with lastChecked := now } }
        { call with phase := .stating }
  | stat {file : File} (hphase : call.phase = .stating) (hfile : s.file = some file) :
      Turn unmarshal s call s { call with phase := .comparing file.modTime, statAt := s.installs }
  | unchanged {modTime : Int} (hphase : call.phase = .comparing modTime)
      (hsame : s.store.unchanged modTime = true) :
      Turn unmarshal s call s { call with phase := .refreshed, reload := some none }
  | compare {modTime : Int} (hphase : call.phase = .comparing modTime)
      (hnewer : s.store.unchanged modTime = false) :
      Turn unmarshal s call s { call with phase := .reading modTime, compareAt := s.installs }
  | read {modTime : Int} {file : File} {loaded : Loaded} (hphase : call.phase = .reading modTime)
      (hfile : s.file = some file) (hload : load unmarshal file.contents = .ok loaded) :
      Turn unmarshal s call s
        { call with phase := .installing modTime loaded s.versions.length }
  /-- A file operation, the parser or the clone fails. -/
  | fail {err : ReloadError}
      (hphase : call.phase = .stating ∨ ∃ modTime, call.phase = .reading modTime) :
      Turn unmarshal s call s { call with phase := .refreshed, reload := some (some err) }
  | install {modTime : Int} {loaded : Loaded} {version : Nat}
      (hphase : call.phase = .installing modTime loaded version) :
      Turn unmarshal s call
        { s with
          store := s.store.install modTime loaded
          installs := s.installs + 1
          installed := version }
        { call with phase := .refreshed, reload := some none }
  | answer {reader : Reader} (hphase : call.phase = .refreshed) :
      Turn unmarshal s call { s with answers := s.installed :: s.answers }
        { call with phase := .returned (s.store.answer reader) }

/-- The steps of the system, by what they write. -/
inductive Step (unmarshal : Unmarshal) (s : Sys) : Event → Sys → Prop where
  | call {reader : Reader} {now : Int} :
      Step unmarshal s (.call reader now)
        { s with calls := s.calls ++ [⟨some reader, .entered now, none, 0, 0⟩] }
  | advance {i : Nat} {fault : Option String} {call call' : Call} {t : Sys}
      (hcall : s.calls[i]? = some call) (hturn : Turn unmarshal s call t call') :
      Step unmarshal s (.advance i fault) (t.put i call')
  | replace {file : File} :
      Step unmarshal s (.replace file)
        { s with file := some file, versions := file :: s.versions }
  | remove : Step unmarshal s .remove { s with file := none }

variable {unmarshal : Unmarshal}

/-- **Inversion** for the step of a call. -/
theorem Turn.of_advance {cfg : Settings} {s s' : Sys} {i : Nat} {call : Call}
    {fault : Option String} (h : advance cfg unmarshal s i call fault = some s') :
    ∃ t call', Turn unmarshal s call t call' ∧ s' = t.put i call' := by
  -- one case for each phase of a call, in the order of `advance`
  unfold advance at h
  split at h
  · rename_i now hphase
    split at h
    · cases h
      exact ⟨_, _, .check (.inl hphase) (.inl rfl), rfl⟩
    · cases h
      exact ⟨_, _, .check (.inl hphase) (.inr rfl), rfl⟩
  · rename_i now hphase
    split at h
    · cases h
      exact ⟨_, _, .check (.inr hphase) (.inr rfl), rfl⟩
    · cases h
      exact ⟨_, _, .claim hphase, rfl⟩
  · rename_i hphase
    split at h
    -- the other two cases are the fault and the missing file
    case h_3 file hfile =>
      cases h
      exact ⟨_, _, .stat hphase hfile, rfl⟩
    all_goals
      cases h
      exact ⟨_, _, .fail (.inl hphase), rfl⟩
  · rename_i modTime hphase
    split at h
    · rename_i hsame
      cases h
      exact ⟨_, _, .unchanged hphase hsame, rfl⟩
    · rename_i hnewer
      cases h
      exact ⟨_, _, .compare hphase (Bool.not_eq_true _ ▸ hnewer), rfl⟩
  · rename_i modTime hphase
    split at h
    case h_3 file hfile =>
      split at h
      · cases h
        exact ⟨_, _, .fail (.inr ⟨modTime, hphase⟩), rfl⟩
      · rename_i loaded hload
        cases h
        exact ⟨_, _, .read hphase hfile hload, rfl⟩
    all_goals
      cases h
      exact ⟨_, _, .fail (.inr ⟨modTime, hphase⟩), rfl⟩
  · rename_i modTime loaded version hphase
    cases h
    exact ⟨_, _, .install hphase, rfl⟩
  · rename_i hphase
    obtain ⟨reader, -, rfl⟩ := Option.map_eq_some_iff.mp h
    exact ⟨_, _, .answer hphase, rfl⟩
  · cases h

theorem Step.of_step {cfg : Settings} {s s' : Sys} {e : Event}
    (h : step cfg unmarshal s e = some s') : Step unmarshal s e s' := by
  cases e with
  | call reader now =>
    rw [step] at h
    split at h
    · cases h
      exact .call
    · cases h
  | advance i fault =>
    obtain ⟨call, hcall, hact⟩ := Option.bind_eq_some_iff.mp h
    obtain ⟨t, call', hturn, rfl⟩ := Turn.of_advance hact
    exact .advance hcall hturn
  | replace file =>
    cases h
    exact .replace
  | remove =>
    cases h
    exact .remove

theorem Turn.frame {s t : Sys} {call call' : Call} (h : Turn unmarshal s call t call') :
    t.calls = s.calls ∧ t.file = s.file ∧ t.versions = s.versions := by
  cases h <;> exact ⟨rfl, rfl, rfl⟩

/-- **One step of the calls**: a call is new, has just taken its turn, or is as it was. -/
theorem Step.calls {s s' : Sys} {e : Event} (h : Step unmarshal s e s') {k : Nat} {c : Call}
    (hc : s'.calls[k]? = some c) :
    (k = s.calls.length ∧ ∃ reader now, c = ⟨some reader, .entered now, none, 0, 0⟩) ∨
    (∃ fault call t, e = .advance k fault ∧ s.calls[k]? = some call ∧
      Turn unmarshal s call t c ∧ s' = t.put k c) ∨
    s.calls[k]? = some c := by
  cases h with
  | @call reader now =>
    rcases getElem?_concat_iff.mp hc with hc | ⟨hk, rfl⟩
    · exact .inr (.inr hc)
    · exact .inl ⟨hk, reader, now, rfl⟩
  | @advance i fault call call' t hcall hturn =>
    have ht : t.calls[i]? = some call := by rw [hturn.frame.1, hcall]
    rcases (getElem?_set_iff ht).mp hc with ⟨rfl, rfl⟩ | ⟨-, hc⟩
    · exact .inr (.inl ⟨fault, call, t, rfl, hcall, hturn, rfl⟩)
    · rw [hturn.frame.1] at hc
      exact .inr (.inr hc)
  | replace | remove => exact .inr (.inr hc)

/-! ## A sample file

A file with one flag, switched on or off, and what `protojson` makes of its two texts. -/

def sampleText (enabled : Bool) : List UInt8 :=
  bytes (if enabled then "\x7b\"flags\":[\x7b\"key\":\"beta\",\"enabled\":true\x7d]\x7d"
    else "\x7b\"flags\":[\x7b\"key\":\"beta\",\"enabled\":false\x7d]\x7d")

def sampleSnapshot (enabled : Bool) : FeatureFlagSnapshot := ⟨0, [some ⟨"beta", enabled, 0, [], ""⟩]⟩

def sampleUnmarshal : Unmarshal := fun contents =>
  if contents = sampleText true then .ok (sampleSnapshot true)
  else if contents = sampleText false then .ok (sampleSnapshot false)
  else .error "syntax error"

def sampleSettings : Settings := ⟨"/etc/flags.json", defaultPollInterval, by decide⟩

def sampleStore : System Sys Event := fileStore sampleSettings sampleUnmarshal

def advances (i n : Nat) : List Event := List.replicate n (.advance i none)

end ServiceRuntime.FeatureFlags
