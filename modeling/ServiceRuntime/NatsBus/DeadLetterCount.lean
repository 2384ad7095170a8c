import ServiceRuntime.NatsBus.DeadLetterStore

/-!
# The Counter Matches the Directory

The store is a ledger: the collection is the set of dead letters in the directory, and a `Save`
between its rename and its addition owes the counter one, a `Delete` between its removal and its
subtraction minus one. That every file operation changes the number of dead letters by exactly what
the call then owes rests on what `Orderly` says:

- a rename never replaces a file, because record ids are unique and a file name gives away the id
- what `Delete` removes is a dead letter, because `List` saw it as one and nobody makes directories
- temporary files are not dead letters
-/

namespace ServiceRuntime.NatsBus.DeadLetterStore

open GoStrings Storage Transition

/-! ## What matters of a call -/

namespace Call

def target? : Call → Option Payload
  | .save (.marshaling record) => marshal record
  | .save (.creating payload) => some payload
  | .save (.writing payload _) => some payload
  | .save (.closing payload _) => some payload
  | .save (.renaming payload _) => some payload
  | _ => none

def doomed? : Call → Option String
  | .delete (.removing name) => some name
  | _ => none

def ledger : Call → Ledger.Stage
  | .save (.addingCount _) => .owing 1
  | .save (.cleaning _ none) => .added
  | .save (.returned none) => .added
  | .delete .subtracting => .owing (-1)
  | .delete (.returned none) => .added
  | _ => .quiet

end Call

theorem record_of_marshal {record : RawRecord} {payload : Payload}
    (h : marshal record = some payload) : payload.record = record := by
  unfold marshal at h
  split at h
  · cases h
    rfl
  · cases h

/-! ## File operations -/

/-- The dead letters are as many as before, and what is new is a temporary file. -/
structure SameLetters (dir dir' : Dir) : Prop where
  scan : dir'.scanCount = dir.scanCount
  files : ∀ file ∈ dir'.rows, (∃ old ∈ dir.rows, old.name = file.name ∧ old.isDir = file.isDir) ∨
    (file.isDir = false ∧ hasSuffix file.name ".json" = false)

theorem SameLetters.refl (dir : Dir) : SameLetters dir dir :=
  ⟨rfl, fun file hfile => .inl ⟨file, hfile, rfl, rfl⟩⟩

theorem isDeadLetter_tempName {file : File} {random : String} (h : file.name = tempName random) :
    file.isDeadLetter = false := by
  rw [File.isDeadLetter, h, not_isJson_tempName, Bool.and_false]

theorem SameLetters.create {dir dir' : Dir} {random : String}
    (h : dir.insert ⟨tempName random, false, none, none⟩ = some dir') : SameLetters dir dir' := by
  obtain ⟨-, hrows⟩ := KeyedTable.insert_eq_some h
  constructor
  · rw [Dir.scanCount_cons hrows, isDeadLetter_tempName rfl]
    exact Int.add_zero _
  · intro file hfile
    rw [hrows, List.mem_cons] at hfile
    rcases hfile with rfl | hfile
    · exact .inr ⟨rfl, not_isJson_tempName random⟩
    · exact .inl ⟨file, hfile, rfl, rfl⟩

theorem SameLetters.write (dir : Dir) (name : String) (content : Option RawRecord) :
    SameLetters dir
      (dir.update name (fun file => { file with content := content }) fun _ => rfl) := by
  constructor
  -- whether a file is a dead letter is a matter of its name and kind, not of its content
  · rw [Dir.scanCount, Dir.scanCount, KeyedTable.update, List.filter_map, List.length_map]
    congr 2
    refine List.filter_congr fun file _ => ?_
    rw [Function.comp_apply]
    split
    · rfl
    · rfl
  · intro file hfile
    left
    rcases KeyedTable.mem_update hfile with ⟨old, hold, -, rfl⟩ | ⟨hold, -⟩
    · exact ⟨old, hold, rfl, rfl⟩
    · exact ⟨file, hold, rfl, rfl⟩

theorem SameLetters.clean (dir : Dir) (random : String) :
    SameLetters dir (Dir.remove dir (tempName random)) := by
  constructor
  · exact Dir.scanCount_remove_of_not_isDeadLetter fun file _ hname => isDeadLetter_tempName hname
  · intro file hfile
    exact .inl ⟨file, (Dir.mem_remove.mp hfile).1, rfl, rfl⟩

/-- **A rename to a new name** adds one dead letter. -/
theorem renameTemp_spec {dir dir' : Dir} {random name : String}
    (h : renameTemp dir random name = some dir') (hjson : hasSuffix name ".json" = true)
    (hnew : ∀ file ∈ dir.rows, file.name ≠ name) :
    dir'.scanCount = dir.scanCount + 1 ∧
      ∀ file ∈ dir'.rows, file ∈ dir.rows ∨ file.name = name ∧ file.isDir = false := by
  unfold renameTemp at h
  obtain ⟨temp, -, hdir⟩ := Option.bind_eq_some_iff.mp h
  split at hdir
  · cases hdir
  · cases hdir
    have hrest : ∀ file ∈ (Dir.remove dir (tempName random)).rows, file.name ≠ name :=
      fun file hfile => hnew file (Dir.mem_remove.mp hfile).1
    constructor
    -- nothing has the new name, so nothing is replaced
    · have hrows := KeyedTable.putFront_of_notMem (t := Dir.remove dir (tempName random))
        (r := ⟨name, false, temp.content, none⟩) hrest
      have hletter : File.isDeadLetter ⟨name, false, temp.content, none⟩ = true := by
        rw [File.isDeadLetter, hjson]
        rfl
      rw [Dir.scanCount_cons hrows, hletter, (SameLetters.clean dir random).scan]
      rfl
    · intro file hfile
      rcases KeyedTable.mem_putFront.mp hfile with rfl | ⟨hfile, -⟩
      · exact .inr ⟨rfl, rfl⟩
      · exact .inl (Dir.mem_remove.mp hfile).1

/-! ## The shapes of a step -/

/-- The steps of the store, by what they mean for the directory and the counter. -/
inductive Step (s : Sys) : Event → Sys → Prop where
  | start {baseDir : String} {mkdirFault scanFault : Option String} :
      Step s (.start baseDir mkdirFault scanFault)
        { s with
          count := (newDeadLetterStore baseDir mkdirFault scanFault s.dir).toOption
          calls := []
          listed := [] }
  | save {record : RawRecord} {clock : Int} {uuid : GoString} (hopen : s.count.isSome) :
      Step s (.save record clock uuid)
        { s with
          calls := s.calls ++ [.save (.marshaling (record.withDefaults clock uuid))]
          ids := (record.withDefaults clock uuid).id :: s.ids }
  | list : Step s .list { s with listed := Dir.list s.dir ++ s.listed }
  | delete {name : String} (hopen : s.count.isSome) (hlisted : name ∈ s.listed) :
      Step s (.delete name) { s with calls := s.calls ++ [.delete (.removing name)] }
  /-- A call moves along, and the dead letters stay. -/
  | along {e : Event} {i : Nat} {c c' : Call} {dir : Dir} (hc : s.calls[i]? = some c)
      (hdir : SameLetters s.dir dir)
      (htarget : ∀ payload, c'.target? = some payload → c.target? = some payload)
      (hdoomed : c'.doomed? = none) (hledger : c'.ledger = c.ledger) :
      Step s e ({ s with dir := dir }.put i c')
  | renamed {e : Event} {i : Nat} {payload : Payload} {random : String} {dir : Dir}
      (hc : s.calls[i]? = some (.save (.renaming payload random)))
      (hdir : renameTemp s.dir random payload.fileName = some dir) :
      Step s e ({ s with dir := dir }.put i (.save (.addingCount random)))
  | removed {e : Event} {i : Nat} {name : String} {file : File}
      (hc : s.calls[i]? = some (.delete (.removing name))) (hfile : s.dir.find name = some file) :
      Step s e ({ s with dir := Dir.remove s.dir name }.put i (.delete .subtracting))
  | counted {e : Event} {i : Nat} {c c' : Call} {delta : Int} (hc : s.calls[i]? = some c)
      (hledger : c.ledger = .owing delta) (hledger' : c'.ledger = .added)
      (htarget : c'.target? = none) (hdoomed : c'.doomed? = none) :
      Step s e ({ s with count := s.count.map (· + delta) }.put i c')

variable {s s' : Sys} {e : Event} {i : Nat} {c c' : Call}

theorem Step.of_still (hc : s.calls[i]? = some c)
    (htarget : ∀ payload, c'.target? = some payload → c.target? = some payload)
    (hdoomed : c'.doomed? = none) (hledger : c'.ledger = c.ledger) : Step s e (s.put i c') :=
  .along hc (.refl s.dir) htarget hdoomed hledger

theorem Step.of_saveAct {phase : SavePhase} {action : Action}
    (hc : s.calls[i]? = some (.save phase)) (h : saveAct s i phase action = some s') :
    Step s e s' := by
  unfold saveAct at h
  split at h
  -- before there is a temporary file, an error is returned at once; from then on it goes through
  -- the deferred removal
  case h_1 | h_3 | h_5 | h_7 | h_9 =>
    cases h
    exact .of_still hc (fun _ h => by cases h) rfl rfl
  case h_2 record =>
    obtain ⟨payload, hpayload, rfl⟩ := Option.map_eq_some_iff.mp h
    exact .of_still hc (fun _ h => hpayload.trans h) rfl rfl
  case h_4 =>
    obtain ⟨dir, hdir, rfl⟩ := Option.map_eq_some_iff.mp h
    exact .along hc (.create hdir) (fun _ h => h) rfl rfl
  case h_6 =>
    cases h
    exact .along hc (.write _ _ _) (fun _ h => h) rfl rfl
  case h_8 =>
    cases h
    exact .of_still hc (fun _ h => h) rfl rfl
  case h_10 =>
    obtain ⟨dir, hdir, rfl⟩ := Option.map_eq_some_iff.mp h
    exact .renamed hc hdir
  case h_11 =>
    cases h
    exact .counted hc rfl rfl rfl rfl
  -- whether the call has counted its letter shows in what it will return
  case h_12 random err _ =>
    cases h
    cases err with
    | none | some err => exact .of_still hc (fun _ h => by cases h) rfl rfl
  case h_13 random err =>
    cases h
    cases err with
    | none | some err => exact .along hc (.clean _ _) (fun _ h => by cases h) rfl rfl
  case h_14 => cases h

theorem Step.of_deleteAct {phase : DeletePhase} {action : Action}
    (hc : s.calls[i]? = some (.delete phase)) (h : deleteAct s i phase action = some s') :
    Step s e s' := by
  unfold deleteAct at h
  split at h
  case h_1 =>
    cases h
    exact .of_still hc (fun _ h => by cases h) rfl rfl
  case h_2 =>
    obtain ⟨file, hfile, rfl⟩ := Option.map_eq_some_iff.mp h
    exact .removed hc hfile
  case h_3 =>
    cases h
    exact .counted hc rfl rfl rfl rfl
  case h_4 => cases h

theorem Step.of_step (h : step s e = some s') : Step s e s' := by
  cases e with
  | start =>
    cases h
    exact .start
  | save record clock uuid =>
    rw [step] at h
    split at h
    · rename_i hopen
      cases h
      exact .save hopen
    · cases h
  | list =>
    cases h
    exact .list
  | delete name =>
    rw [step] at h
    split at h
    · rename_i hopen
      cases h
      exact .delete hopen.1 hopen.2
    · cases h
  | act i action =>
    obtain ⟨c, hc, hact⟩ := Option.bind_eq_some_iff.mp h
    cases c with
    | save phase => exact .of_saveAct hc hact
    | delete phase => exact .of_deleteAct hc hact

/-! ## Order in the directory -/

structure Orderly (s : Sys) : Prop where
  /-- The file that a call is about to put in place is not there yet. -/
  targets : ∀ {i : Nat} {c : Call} {payload : Payload}, s.calls[i]? = some c →
    c.target? = some payload →
    payload.record.id ∈ s.ids ∧ ∀ file ∈ s.dir.rows, file.name ≠ payload.fileName
  /-- No two calls are about to put the same record in place. -/
  distinct : ∀ {i j : Nat} {c d : Call} {p q : Payload}, i ≠ j → s.calls[i]? = some c →
    s.calls[j]? = some d → c.target? = some p → d.target? = some q → p.record.id ≠ q.record.id
  doomed : ∀ {i : Nat} {c : Call} {name : String}, s.calls[i]? = some c →
    c.doomed? = some name → name ∈ s.listed
  /-- What `List` has returned is a dead letter, if it is still there. -/
  listed : ∀ name ∈ s.listed, hasSuffix name ".json" = true ∧
    ∀ file ∈ s.dir.rows, file.name = name → file.isDir = false
  closed : s.count = none → s.calls = []

/-- Order is kept when a call moves along, and what is new in the directory is a plain file that
    takes nobody's name. -/
theorem Orderly.put (h : Orderly s) {dir : Dir} {count : Option Int} (hc : s.calls[i]? = some c)
    (htarget : ∀ payload, c'.target? = some payload → c.target? = some payload)
    (hdoomed : c'.doomed? = none) (hcount : count = none → s.count = none)
    (hfiles : ∀ file ∈ dir.rows,
      (∃ old ∈ s.dir.rows, old.name = file.name ∧ old.isDir = file.isDir) ∨
        (file.isDir = false ∧ ∀ (k : Nat) (d : Call) (payload : Payload),
          (s.calls.set i c')[k]? = some d → d.target? = some payload →
            file.name ≠ payload.fileName)) :
    Orderly ({ s with dir := dir, count := count }.put i c') := by
  -- a call that now has a target had it before
  have hbefore : ∀ {k : Nat} {d : Call} {payload : Payload}, (s.calls.set i c')[k]? = some d →
      d.target? = some payload → ∃ d', s.calls[k]? = some d' ∧ d'.target? = some payload := by
    intro k d payload hk hpayload
    rcases (getElem?_set_iff hc).mp hk with ⟨rfl, rfl⟩ | ⟨-, hk⟩
    · exact ⟨c, hc, htarget payload hpayload⟩
    · exact ⟨d, hk, hpayload⟩
  constructor
  · intro k d payload hk hpayload
    obtain ⟨d', hk', hpayload'⟩ := hbefore hk hpayload
    obtain ⟨hid, hnew⟩ := h.targets hk' hpayload'
    refine ⟨hid, fun file hfile => ?_⟩
    rcases hfiles file hfile with ⟨old, hold, hname, -⟩ | ⟨-, hothers⟩
    · exact hname ▸ hnew old hold
    · exact hothers k d payload hk hpayload
  · intro j k d d' p q hne hj hk hp hq
    obtain ⟨e, hj', hp'⟩ := hbefore hj hp
    obtain ⟨e', hk', hq'⟩ := hbefore hk hq
    exact h.distinct hne hj' hk' hp' hq'
  · intro k d name hk hname
    rcases (getElem?_set_iff hc).mp hk with ⟨rfl, rfl⟩ | ⟨-, hk⟩
    · rw [hdoomed] at hname
      cases hname
    · exact h.doomed hk hname
  · intro name hlisted
    obtain ⟨hjson, hplain⟩ := h.listed name hlisted
    refine ⟨hjson, fun file hfile hname => ?_⟩
    -- nobody turns a file into a directory
    rcases hfiles file hfile with ⟨old, hold, hsame, hisDir⟩ | ⟨hisDir, -⟩
    · exact hisDir ▸ hplain old hold (hsame.trans hname)
    · exact hisDir
  · intro hnone
    have hempty := h.closed (hcount hnone)
    rw [hempty] at hc
    cases hc

/-- Order is kept when a call starts, if its record is new and what it removes has been listed. -/
theorem Orderly.enter (h : Orderly s) {ids : List GoString} (hopen : s.count.isSome)
    (hids : ∀ id ∈ s.ids, id ∈ ids)
    (htarget : ∀ payload, c.target? = some payload → payload.record.id ∈ ids ∧
      payload.record.id ∉ s.ids ∧ ∀ file ∈ s.dir.rows, file.name ≠ payload.fileName)
    (hdoomed : ∀ name, c.doomed? = some name → name ∈ s.listed) :
    Orderly { s with calls := s.calls ++ [c], ids := ids } := by
  constructor
  · intro k d payload hk hpayload
    rcases getElem?_concat_iff.mp hk with hk | ⟨-, rfl⟩
    · obtain ⟨hmem, hnew⟩ := h.targets hk hpayload
      exact ⟨hids _ hmem, hnew⟩
    · obtain ⟨hmem, -, hnew⟩ := htarget payload hpayload
      exact ⟨hmem, hnew⟩
  · intro j k d d' p q hne hj hk hp hq
    -- the ids of the calls before are in use, the one of the new call is not
    rcases getElem?_concat_iff.mp hj with hj | ⟨rfl, rfl⟩
    · rcases getElem?_concat_iff.mp hk with hk | ⟨-, rfl⟩
      · exact h.distinct hne hj hk hp hq
      · intro heq
        have hused := (h.targets hj hp).1
        rw [heq] at hused
        exact (htarget q hq).2.1 hused
    · rcases getElem?_concat_iff.mp hk with hk | ⟨rfl, rfl⟩
      · intro heq
        have hused := (h.targets hk hq).1
        rw [← heq] at hused
        exact (htarget p hp).2.1 hused
      · exact absurd rfl hne
  · intro k d name hk hname
    rcases getElem?_concat_iff.mp hk with hk | ⟨-, rfl⟩
    · exact h.doomed hk hname
    · exact hdoomed name hname
  · exact h.listed
  · intro hnone
    rw [show s.count = none from hnone] at hopen
    cases hopen

theorem Step.orderly (hstep : Step s e s') (hunique : UniqueIds s e) (h : Orderly s) :
    Orderly s' := by
  cases hstep with
  | start =>
    -- a process that starts knows of no calls and has listed nothing
    exact ⟨fun hk => (by cases hk), fun _ hj => (by cases hj), fun hk => (by cases hk),
      fun name hname => (by cases hname), fun _ => rfl⟩
  | @save record clock uuid hopen =>
    obtain ⟨hid, hfiles⟩ := hunique
    refine h.enter hopen (fun _ hmem => List.mem_cons_of_mem _ hmem) (fun payload hpayload => ?_)
      fun name hname => (by cases hname)
    have hrecord := record_of_marshal hpayload
    rw [hrecord]
    refine ⟨List.mem_cons_self, hid, fun file hfile hname => ?_⟩
    -- a file of this name would be named after the new id
    have hsuffix := payload.hasSuffix_fileName
    rw [← hname, hrecord, hfiles file hfile] at hsuffix
    cases hsuffix
  | list =>
    refine ⟨h.targets, h.distinct, fun hk hname => List.mem_append_right _ (h.doomed hk hname), ?_,
      h.closed⟩
    intro name hname
    rcases List.mem_append.mp hname with hname | hname
    · obtain ⟨file, hfile, rfl, hletter⟩ := Dir.mem_list.mp hname
      rw [File.isDeadLetter, Bool.and_eq_true] at hletter
      refine ⟨hletter.2, fun other hother hsame => ?_⟩
      -- names are unique, so this is the file that `List` saw
      have hother := Dir.isDeadLetter_of_mem_list hother (hsame ▸ hname)
      rw [File.isDeadLetter, Bool.and_eq_true, Bool.not_eq_true'] at hother
      exact hother.1
    · exact h.listed name hname
  | @delete name hopen hlisted =>
    refine h.enter hopen (fun _ hmem => hmem) (fun payload hpayload => (by cases hpayload))
      fun other hname => ?_
    cases hname
    exact hlisted
  | along hc hdir htarget hdoomed =>
    refine h.put hc htarget hdoomed (fun hnone => hnone) fun file hfile => ?_
    rcases hdir.files file hfile with hold | ⟨hplain, hjson⟩
    · exact .inl hold
    -- a temporary file has nobody's name
    · refine .inr ⟨hplain, fun k d payload hk hpayload hname => ?_⟩
      rw [hname, payload.isJson_fileName] at hjson
      cases hjson
  | @renamed _ i payload random dir hc hdir =>
    -- the renamed file has the name of no other call: names give away the ids
    have hnew := (h.targets hc rfl).2
    refine h.put hc (fun _ h => by cases h) rfl (fun hnone => hnone) fun file hfile => ?_
    rcases (renameTemp_spec hdir payload.isJson_fileName hnew).2 file hfile with
      hold | ⟨hname, hplain⟩
    · exact .inl ⟨file, hold, rfl, rfl⟩
    · refine .inr ⟨hplain, fun k d q hk hq heq => ?_⟩
      rcases (getElem?_set_iff hc).mp hk with ⟨rfl, rfl⟩ | ⟨hne, hk⟩
      · cases hq
      · exact h.distinct hne hk hc hq rfl (Payload.id_eq_of_fileName_eq (heq.symm.trans hname))
  | removed hc hfile =>
    refine h.put hc (fun _ h => by cases h) rfl (fun hnone => hnone) fun file hmem => ?_
    exact .inl ⟨file, (Dir.mem_remove.mp hmem).1, rfl, rfl⟩
  | counted hc hledger hledger' htarget hdoomed =>
    refine h.put hc (fun _ hp => ?_) hdoomed Option.map_eq_none_iff.mp fun file hfile => ?_
    · rw [htarget] at hp
      cases hp
    · exact .inl ⟨file, hfile, rfl, rfl⟩

theorem Orderly.count_eq_some (h : Orderly s) (hc : s.calls[i]? = some c) :
    ∃ count, s.count = some count := by
  cases hcount : s.count with
  | none =>
    rw [h.closed hcount] at hc
    cases hc
  | some count => exact ⟨count, rfl⟩

theorem orderly_of_reachable (hs : deadLetters.ReachableBy UniqueIds s) : Orderly s := by
  refine System.ReachableBy.invariant (P := Orderly) ?_
    (fun s e s' _ h hok hstep => (Step.of_step hstep).orderly hok h) hs
  rintro s ⟨-, hcalls, hlisted, -⟩
  constructor
  · intro i c payload hc
    rw [hcalls] at hc
    cases hc
  · intro i j c d p q _ hi
    rw [hcalls] at hi
    cases hi
  · intro i c name hc
    rw [hcalls] at hc
    cases hc
  · intro name hname
    rw [hlisted] at hname
    cases hname
  · exact fun _ => hcalls

/-! ## The store is a ledger -/

def Sys.ledger (s : Sys) : Ledger.State where
  items := Dir.scanCount s.dir
  count := s.count.getD (Dir.scanCount s.dir)
  gauge := none
  actors := s.calls.map Call.ledger

theorem actor_of_call (hc : s.calls[i]? = some c) : s.ledger.actors[i]? = some c.ledger := by
  rw [Sys.ledger, List.getElem?_map, hc, Option.map_some]

theorem newDeadLetterStore_getD (baseDir : String) (mkdirFault scanFault : Option String)
    (dir : Dir) :
    (newDeadLetterStore baseDir mkdirFault scanFault dir).toOption.getD (Dir.scanCount dir) =
      Dir.scanCount dir := by
  unfold newDeadLetterStore
  split
  · rfl
  · split
    · rfl
    · rfl
    · rfl

/-- **Each step of the store is a step of the ledger**, changes nothing there, or starts it anew. -/
theorem Step.ledger (hstep : Step s e s') (h : Orderly s) :
    s'.ledger = s.ledger ∨ (∃ d, True ∧ Ledger.ledger.step s.ledger d = some s'.ledger) ∨
      Ledger.ledger.init s'.ledger := by
  cases hstep with
  | @start baseDir mkdirFault scanFault =>
    -- whatever earlier calls owed is forgotten, and the files are counted afresh
    refine .inr (.inr ⟨?_, fun _ hsize => (by cases hsize), fun _ ha => (by cases ha)⟩)
    simp only [Sys.ledger]
    exact newDeadLetterStore_getD baseDir mkdirFault scanFault s.dir
  | save =>
    refine .inr (.inl ⟨.enter, trivial, ?_⟩)
    simp only [Sys.ledger, List.map_append]
    rfl
  | list => exact .inl rfl
  | delete =>
    refine .inr (.inl ⟨.enter, trivial, ?_⟩)
    simp only [Sys.ledger, List.map_append]
    rfl
  | @along _ i c c' dir hc hdir htarget hdoomed hledger =>
    left
    have hactors : (s.calls.set i c').map Call.ledger = s.calls.map Call.ledger := by
      rw [List.map_set, hledger]
      exact set_of_getElem? (actor_of_call hc)
    simp only [Sys.ledger, Sys.put, hdir.scan, hactors]
  | @renamed _ i payload random dir hc hdir =>
    -- the rename replaces nothing, so there is one more
    have hscan := (renameTemp_spec hdir payload.isJson_fileName (h.targets hc rfl).2).1
    refine .inr (.inl ⟨.change i 1, trivial, ?_⟩)
    rw [Ledger.step_change (actor_of_call hc)]
    obtain ⟨n, hn⟩ := h.count_eq_some hc
    simp only [Sys.ledger, Sys.put, hscan, hn, List.map_set, Option.getD_some]
    rfl
  | @removed _ i name file hc hfile =>
    obtain ⟨hmem, rfl⟩ := KeyedTable.find_eq_some_iff.mp hfile
    -- the removed file was a dead letter, so there is one less
    have hletter : file.isDeadLetter = true := by
      obtain ⟨hjson, hplain⟩ := h.listed file.name (h.doomed hc rfl)
      rw [File.isDeadLetter, hjson, hplain file hmem rfl]
      rfl
    refine .inr (.inl ⟨.change i (-1), trivial, ?_⟩)
    rw [Ledger.step_change (actor_of_call hc)]
    obtain ⟨n, hn⟩ := h.count_eq_some hc
    simp only [Sys.ledger, Sys.put, Dir.scanCount_remove hmem hletter, hn, List.map_set,
      Option.getD_some]
    rfl
  | @counted _ i c c' delta hc hledger hledger' htarget hdoomed =>
    have hactor := actor_of_call hc
    rw [hledger] at hactor
    refine .inr (.inl ⟨.add i, trivial, ?_⟩)
    rw [Ledger.step_add hactor]
    obtain ⟨n, hn⟩ := h.count_eq_some hc
    simp only [Sys.ledger, Sys.put, hn, List.map_set, hledger', Option.getD_some, Option.map_some]

theorem ledger_reachable (hs : deadLetters.ReachableBy UniqueIds s) :
    Ledger.ledger.Reachable s.ledger := by
  refine System.ReachableBy.simulate Sys.ledger ?_
    (fun s e s' hs _ hstep => (Step.of_step hstep).ledger (orderly_of_reachable hs)) hs
  rintro s ⟨hcount, hcalls, -, -⟩
  refine ⟨?_, fun _ hsize => (by cases hsize), fun a ha => ?_⟩
  · simp only [Sys.ledger, hcount, Option.getD_none]
  · simp only [Sys.ledger, hcalls, List.map_nil] at ha
    cases ha

/-! ## Main theorem -/

theorem owed_of_isReturned (h : c.isReturned = true) : c.ledger.owed = 0 := by
  unfold Call.isReturned at h
  split at h
  · rename_i err
    cases err with
    | none | some err => rfl
  · rename_i err
    cases err with
    | none | some err => rfl
  · cases h

/-- **The counter matches the directory**: in every state in which no `Save` or `Delete` is in
    progress, the counter of the store is the number of dead letters in its directory, whatever
    operations failed on the way and wherever earlier processes ended. -/
theorem count_eq_scanCount {s : Sys} (hs : deadLetters.ReachableBy UniqueIds s) {count : Int}
    (hcount : s.count = some count) (hidle : ∀ c ∈ s.calls, c.isReturned = true) :
    count = (s.dir.rows.filter fun file => !file.isDir && hasSuffix file.name ".json").length := by
  have hledger := Ledger.count_eq_items (ledger_reachable hs) fun a ha => by
    obtain ⟨c, hc, rfl⟩ := List.mem_map.mp ha
    exact owed_of_isReturned (hidle c hc)
  simp only [Sys.ledger, hcount, Option.getD_some] at hledger
  exact hledger

/-- A directory with a letter of an earlier process, before start-up. -/
def leftOver : Sys := ⟨⟨[⟨"old.json", false, none, none⟩], by decide⟩, none, [], [], []⟩

/-- A letter is removed before the `Save` that wrote it has counted it; another `Save` fails. -/
def hasty : List Event :=
  [.start "/var/dead-letters" none none,
    .save ⟨bytes "id-1", 1, bytes "orders", .empty, [], bytes "timeout"⟩ 0 [],
    .act 0 (.op none), .act 0 (.create "1"),
    .act 0 (.op none), .act 0 (.op none), .act 0 (.op none),
    .list, .delete "00010101T000000.000000001Z-id-1.json", .act 1 (.op none), .act 1 (.op none),
    .act 0 (.op none), .act 0 (.op none),
    .save ⟨bytes "id-2", 2, bytes "orders", .empty, [], bytes "timeout"⟩ 0 [],
    .act 2 (.op none), .act 2 (.create "2"),
    .act 2 (.op (some "no space left on device")), .act 2 (.op none)]

/-- Afterwards the counter is right again. -/
theorem count_eq_scanCount_of_hasty :
    ∃ s : Sys, deadLetters.ReachableBy UniqueIds s ∧ s.count = some 1 ∧
      (∀ c ∈ s.calls, c.isReturned = true) ∧ s.calls.length = 3 ∧
      (1 : Int) =
        (s.dir.rows.filter fun file => !file.isDir && hasSuffix file.name ".json").length := by
  have hrun : (deadLetters.runBy UniqueIds leftOver hasty).map
      (fun s => (s.count, s.calls.all Call.isReturned, s.calls.length)) = some (some 1, true, 3) := by
    decide +kernel
  obtain ⟨s, hs, hfacts⟩ := Option.map_eq_some_iff.mp hrun
  rw [Prod.mk.injEq, Prod.mk.injEq] at hfacts
  obtain ⟨hcount, hidle, hlength⟩ := hfacts
  have hreach : deadLetters.ReachableBy UniqueIds s :=
    System.ReachableBy.runBy (.init ⟨rfl, rfl, rfl, rfl⟩) hs
  exact ⟨s, hreach, hcount, List.all_eq_true.mp hidle, hlength,
    count_eq_scanCount hreach hcount (List.all_eq_true.mp hidle)⟩

end ServiceRuntime.NatsBus.DeadLetterStore
