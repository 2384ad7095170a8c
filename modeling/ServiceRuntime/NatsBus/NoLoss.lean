import ServiceRuntime.NatsBus.ReliableSteps

/-!
# Reliable Publishing Loses Nothing

A `Publish` call that has returned has either had its message acknowledged, or left it in
exactly one dead-letter file, or said that it could not do even that. The replay removes a
file only after JetStream has acknowledged its message, and acknowledges it once unless a
removal fails.

The first of these needs messages whose subject and headers are valid UTF-8. A dead letter goes
through JSON, which replaces every byte that is not: the file of another message holds a different
one, and no error says so (`subject_lost_in_dead_letter`).

The argument is split along what a step can touch:

- `BatchSafe` — the letters that the replay has read are still in the directory, because only
  the replay removes files and it removes each letter of its batch once
- `CallsSafe` — a call that counts as acknowledged is acknowledged in the log
- `AcksSafe` — a letter is acknowledged once more than its removal has failed, at most
- `Held` — the file of a call stays where it is until its message has been acknowledged
-/

namespace ServiceRuntime.NatsBus

open GoStrings GoTime Resilience Storage Transition

/-! ## The batch of the replay -/

/-- The letters that the replay has read are in the directory, each once. -/
structure BatchSafe (s : Sys) : Prop where
  batch_in : ∀ letter ∈ s.replay.batch, letter.IsIn s.dir
  names_nodup : s.replay.names.Nodup
  names_used : ∀ file ∈ s.dir.rows, file.name ∈ s.used

variable {s s' : Sys} {rest : List StoredDeadLetter} {layout : Int → String} {e : Event} {i : Nat}
  {c : Call}

/-- The letters after a removed one are still there, since their names differ from its name. -/
theorem BatchSafe.remove (h : BatchSafe s) {letter : StoredDeadLetter}
    (hreplay : s.replay = .deleting letter rest) :
    ∀ other ∈ rest, other.IsIn (Dir.remove s.dir letter.name) := by
  intro other hother
  have hnodup := h.names_nodup
  rw [hreplay] at hnodup
  have hne : other.name ≠ letter.name := by
    intro heq
    exact (List.nodup_cons.mp hnodup).1 (List.mem_map.mpr ⟨other, hother, heq⟩)
  have hbatch := h.batch_in
  rw [hreplay] at hbatch
  obtain ⟨file, hfile, hname, hcontent⟩ := hbatch other (List.mem_cons_of_mem letter hother)
  exact ⟨file, Dir.mem_remove.mpr ⟨hfile, hname ▸ hne⟩, hname, hcontent⟩

theorem BatchSafe.content_eq (h : BatchSafe s) {letter : StoredDeadLetter} {file : File}
    (hreplay : s.replay = .deleting letter rest) (hfile : file ∈ s.dir.rows)
    (hname : file.name = letter.name) : file.content = some letter.record := by
  have hletter : letter ∈ s.replay.batch := by
    rw [hreplay]
    exact List.mem_cons_self
  obtain ⟨file', hfile', hname', hcontent⟩ := h.batch_in letter hletter
  -- two files with one name are one file
  have heq : file = file' :=
    List.inj_on_of_nodup_map s.dir.unique hfile hfile' (hname.trans hname'.symm)
  rw [heq, hcontent]

theorem Step.batchSafe (h : Step layout s e s') (hsafe : BatchSafe s) : BatchSafe s' := by
  obtain ⟨hin, hnodup, hused⟩ := hsafe
  cases h with
  | refuse | publish | call | callAcked => exact ⟨hin, hnodup, hused⟩
  | saved _ _ _ _ hinsert =>
    -- a new file, under a name that was not used before
    obtain ⟨-, hrows⟩ := KeyedTable.insert_eq_some hinsert
    refine ⟨?_, hnodup, ?_⟩
    · intro letter hletter
      obtain ⟨file, hfile, hletter⟩ := hin letter hletter
      exact ⟨file, hrows ▸ List.mem_cons_of_mem _ hfile, hletter⟩
    · intro file hfile
      rcases List.mem_cons.mp (hrows ▸ hfile) with rfl | hold
      · exact List.mem_cons_self
      · exact List.mem_cons_of_mem _ (hused file hold)
  | replay _ hbatch hnames =>
    refine ⟨?_, hnames hnodup, hused⟩
    intro letter hletter
    rcases hbatch letter hletter with hold | hnew
    · exact hin letter hold
    · exact hnew
  | replayAcked _ _ hbatch hnames =>
    exact ⟨fun letter hletter => hin letter (hbatch ▸ hletter), hnames ▸ hnodup, hused⟩
  | removed hreplay =>
    -- names in the batch are distinct, so the other letters keep their files
    refine ⟨BatchSafe.remove ⟨hin, hnodup, hused⟩ hreplay, ?_, ?_⟩
    · rw [hreplay] at hnodup
      exact (List.nodup_cons.mp hnodup).2
    · intro file hfile
      exact hused file (Dir.mem_remove.mp hfile).1
  | deleteFailed =>
    refine ⟨?_, List.nodup_nil, hused⟩
    intro letter hletter
    cases hletter

/-! ## The calls -/

/-- What a call says about its message is true. -/
structure Call.Truthful (log : List Entry) (i : Nat) (c : Call) : Prop where
  acked_logged : c.phase.acked = true → Entry.acked (.publish i) c.message ∈ log
  record_message : ∀ record ∈ c.phase.record?, record.message = c.message

def CallsSafe (s : Sys) : Prop :=
  ∀ (i : Nat) (c : Call), s.calls[i]? = some c → c.Truthful s.log i

theorem Step.log_subset (h : Step layout s e s') : s.log ⊆ s'.log := by
  cases h with
  | refuse | publish | call | removed => exact List.Subset.refl _
  | callAcked | saved | replayAcked => exact List.subset_cons_self _ _
  | replay new => exact List.subset_append_right new _
  | deleteFailed =>
    exact fun e he => List.mem_cons_of_mem _ (List.mem_cons_of_mem _ he)

theorem Call.Truthful.mono {log log' : List Entry} (h : c.Truthful log i) (hlog : log ⊆ log') :
    c.Truthful log' i :=
  ⟨fun hacked => hlog (h.acked_logged hacked), h.record_message⟩

theorem CallsSafe.set (h : CallsSafe s) (hc : s.calls[i]? = some c) {c' : Call}
    (hcalls : s'.calls = s.calls.set i c') (hlog : s.log ⊆ s'.log)
    (htruthful : c'.Truthful s'.log i) : CallsSafe s' := by
  intro k d hd
  rw [hcalls] at hd
  rcases (getElem?_set_iff hc).mp hd with ⟨rfl, rfl⟩ | ⟨-, hold⟩
  · exact htruthful
  · exact (h k d hold).mono hlog

theorem Step.callsSafe (h : Step layout s e s') (hsafe : CallsSafe s) : CallsSafe s' := by
  have hlog := h.log_subset
  cases h with
  | refuse => exact hsafe
  | publish =>
    intro k d hd
    rcases getElem?_concat_iff.mp hd with hold | ⟨-, rfl⟩
    · exact hsafe k d hold
    · exact ⟨fun hphase => (by cases hphase), fun record hrecord => (by cases hrecord)⟩
  | @call _ i c phase breaker count gauge hc hacked hstored hrecord =>
    refine hsafe.set hc rfl hlog ⟨fun hphase => ?_, fun record hrec => ?_⟩
    · exact (hsafe i c hc).acked_logged (hacked ▸ hphase)
    -- a record is made from the message of its call
    · rcases hrecord record hrec with hold | ⟨err, id, now, clock, uuid, -, rfl⟩
      · exact (hsafe i c hc).record_message record hold
      · rfl
  | callAcked hc hstored hrecord =>
    -- the acknowledgement has just been logged
    refine hsafe.set hc rfl hlog ⟨fun _ => List.mem_cons_self, fun record hrec => ?_⟩
    rw [hrecord] at hrec
    cases hrec
  | saved hc =>
    exact hsafe.set hc rfl hlog
      ⟨fun hphase => (by cases hphase), fun record hrec => (by cases hrec)⟩
  | replay | replayAcked | removed | deleteFailed => exact fun i c hc => (hsafe i c hc).mono hlog

/-! ## Acknowledgements by the replay -/

/-- The entry is an acknowledgement of the letter `name` by a replay. -/
def Entry.isReplayAckOf (name : String) : Entry → Bool
  | .acked (.replay n) _ => n = name
  | _ => false

/-- How often the letter `name` has been acknowledged by a replay. -/
def replayAcks (name : String) (log : List Entry) : Nat := log.countP (Entry.isReplayAckOf name)

def deleteFailures (name : String) (log : List Entry) : Nat := log.count (.deleteFailed name)

/-- Acknowledgements, removals and failed removals fit together. A letter whose file is
    there and is not about to be removed has been acknowledged as often as its removal has
    failed; any other letter at most once more. -/
structure AcksSafe (s : Sys) : Prop where
  acked_letter : ∀ letter ∈ s.replay.acked?,
    Entry.acked (.replay letter.name) letter.record.message ∈ s.log
  acked_used : ∀ name message, Entry.acked (.replay name) message ∈ s.log → name ∈ s.used
  acks_le : ∀ name, replayAcks name s.log ≤ deleteFailures name s.log + 1
  acks_le_of_kept : ∀ file ∈ s.dir.rows, (∀ letter ∈ s.replay.acked?, letter.name ≠ file.name) →
    replayAcks file.name s.log ≤ deleteFailures file.name s.log

theorem replayAcks_acked (name n : String) (message : RawMsg) (log : List Entry) :
    replayAcks name (.acked (.replay n) message :: log) =
      replayAcks name log + if n = name then 1 else 0 := by
  simp [replayAcks, List.countP_cons, Entry.isReplayAckOf]

theorem deleteFailures_acked (name : String) (source : Source) (message : RawMsg)
    (log : List Entry) :
    deleteFailures name (.acked source message :: log) = deleteFailures name log := by
  simp [deleteFailures]

theorem replayAcks_deleteFailed (name n : String) (log : List Entry) :
    replayAcks name (.deleteFailed n :: log) = replayAcks name log := by
  simp [replayAcks, Entry.isReplayAckOf]

theorem deleteFailures_deleteFailed (name n : String) (log : List Entry) :
    deleteFailures name (.deleteFailed n :: log) =
      deleteFailures name log + if n = name then 1 else 0 := by
  simp [deleteFailures, List.count_cons]

def Entry.isQuiet : Entry → Bool
  | .acked (.publish _) _ => true
  | .saved _ _ => true
  | .replayReturned _ => true
  | _ => false

theorem replayAcks_append {name : String} {new : List Entry} (h : ∀ e ∈ new, e.isQuiet = true)
    (log : List Entry) : replayAcks name (new ++ log) = replayAcks name log := by
  have hzero : new.countP (Entry.isReplayAckOf name) = 0 := by
    rw [List.countP_eq_zero]
    intro e he hack
    have hquiet := h e he
    unfold Entry.isReplayAckOf at hack
    split at hack
    · cases hquiet
    · cases hack
  rw [replayAcks, List.countP_append, hzero, Nat.zero_add, replayAcks]

theorem deleteFailures_append {name : String} {new : List Entry}
    (h : ∀ e ∈ new, e.isQuiet = true) (log : List Entry) :
    deleteFailures name (new ++ log) = deleteFailures name log := by
  have hzero : new.count (.deleteFailed name) = 0 := by
    rw [List.count_eq_zero]
    intro hmem
    cases h _ hmem
  rw [deleteFailures, List.count_append, hzero, Nat.zero_add, deleteFailures]

namespace AcksSafe

variable {s s' : Sys}

/-- Steps that only write quiet entries, as far as replayed letters are concerned. -/
theorem quiet (h : AcksSafe s) (new : List Entry) (hnew : ∀ e ∈ new, e.isQuiet = true)
    (hlog : s'.log = new ++ s.log) (hdir : s'.dir = s.dir) (hused : s'.used = s.used)
    (hacked : s'.replay.acked? = s.replay.acked?) : AcksSafe s' where
  acked_letter := by
    intro letter hletter
    rw [hlog]
    exact List.mem_append_right new (h.acked_letter letter (hacked ▸ hletter))
  acked_used := by
    intro name message hmem
    rw [hlog] at hmem
    rw [hused]
    rcases List.mem_append.mp hmem with hmem | hmem
    · cases hnew _ hmem
    · exact h.acked_used name message hmem
  acks_le := by
    intro name
    rw [hlog, replayAcks_append hnew, deleteFailures_append hnew]
    exact h.acks_le name
  acks_le_of_kept := by
    intro file hfile hidle
    rw [hlog, replayAcks_append hnew, deleteFailures_append hnew]
    exact h.acks_le_of_kept file (hdir ▸ hfile) (hacked ▸ hidle)

/-- A new file has a new name, which nobody has replayed. -/
theorem saved (h : AcksSafe s) {i : Nat} {file : File} {dir : Dir}
    (hinsert : s.dir.insert file = some dir) (hfresh : file.name ∉ s.used) :
    AcksSafe { s with dir := dir, used := file.name :: s.used, log := .saved i file.name :: s.log } := by
  obtain ⟨-, hrows⟩ := KeyedTable.insert_eq_some hinsert
  have hquiet : AcksSafe { s with log := .saved i file.name :: s.log } :=
    h.quiet [.saved i file.name] (by simp [Entry.isQuiet]) rfl rfl rfl rfl
  refine ⟨hquiet.acked_letter, ?_, hquiet.acks_le, ?_⟩
  · intro name message hmem
    exact List.mem_cons_of_mem _ (hquiet.acked_used name message hmem)
  · intro file' hfile' hidle
    rcases List.mem_cons.mp (hrows ▸ hfile') with rfl | hold
    -- whatever has been replayed is in `used`, and the new name is not
    · have hzero : replayAcks file'.name (.saved i file'.name :: s.log) = 0 := by
        rw [replayAcks, List.countP_eq_zero]
        intro e he hack
        unfold Entry.isReplayAckOf at hack
        split at hack
        · rename_i name message
          rw [decide_eq_true_eq] at hack
          subst hack
          exact hfresh (hquiet.acked_used _ message he)
        · cases hack
      rw [hzero]
      exact Nat.zero_le _
    · exact hquiet.acks_le_of_kept file' hold hidle

variable {letter : StoredDeadLetter} {rest : List StoredDeadLetter}

/-- The letter that is acknowledged was in its file and not acknowledged in this batch, so
    its earlier acknowledgements are all matched by failed removals. -/
theorem acked (h : AcksSafe s) (hbatch : BatchSafe s) {replay : Replay} (breaker : Breaker)
    (hletter : letter ∈ s.replay.batch) (hnone : s.replay.acked? = none)
    (hacked : replay.acked? = some letter) :
    AcksSafe ({ s with breaker := breaker, replay := replay }.note
      (.acked (.replay letter.name) letter.record.message)) := by
  obtain ⟨file, hfile, hname, -⟩ := hbatch.batch_in letter hletter
  have hidle : ∀ file : File, ∀ letter ∈ s.replay.acked?, letter.name ≠ file.name := by
    simp [hnone]
  constructor
  case acked_letter =>
    intro letter' hletter'
    cases hacked.symm.trans hletter'
    exact List.mem_cons_self
  case acked_used =>
    intro name message hmem
    rcases List.mem_cons.mp hmem with heq | hmem
    · cases heq
      exact hname ▸ hbatch.names_used file hfile
    · exact h.acked_used name message hmem
  case acks_le =>
    intro name
    have hle := h.acks_le name
    have hkept := h.acks_le_of_kept file hfile (hidle file)
    simp only [Sys.note, replayAcks_acked, deleteFailures_acked]
    by_cases heq : letter.name = name
    -- its file was there and idle, which leaves room for one more
    · subst heq
      rw [hname] at hkept
      rw [if_pos rfl]
      omega
    · rw [if_neg heq]
      exact hle
  case acks_le_of_kept =>
    intro file' hfile' hother
    -- a file other than the acknowledged one: its counts have not moved
    have hne : letter.name ≠ file'.name := hother letter hacked
    simp only [Sys.note, replayAcks_acked, deleteFailures_acked, if_neg hne]
    exact h.acks_le_of_kept file' hfile' (hidle file')

/-- The file is removed: its letter need not be matched by a failed removal any more. -/
theorem removed (h : AcksSafe s) (hreplay : s.replay = .deleting letter rest) :
    AcksSafe { s with dir := Dir.remove s.dir letter.name, replay := .addingCount rest } := by
  have hacked : s.replay.acked? = some letter := by
    rw [hreplay]
    rfl
  refine ⟨?_, h.acked_used, h.acks_le, ?_⟩
  · intro letter' hletter'
    cases hletter'
  · intro file hfile _
    obtain ⟨hold, hne⟩ := Dir.mem_remove.mp hfile
    exact h.acks_le_of_kept file hold (by simpa [hacked] using hne.symm)

/-- The failed removal accounts for the acknowledgement. -/
theorem deleteFailed (h : AcksSafe s) (err : String) (hreplay : s.replay = .deleting letter rest) :
    AcksSafe (failReplay (s.note (.deleteFailed letter.name)) err) := by
  have hacked : s.replay.acked? = some letter := by
    rw [hreplay]
    rfl
  -- `failReplay` adds the return of the replay to the log, which neither count looks at
  have hreturned : ∀ e ∈ [Entry.replayReturned (some err)], e.isQuiet = true := by
    simp [Entry.isQuiet]
  have acks_after : ∀ name, replayAcks name
      (failReplay (s.note (.deleteFailed letter.name)) err).log = replayAcks name s.log := by
    intro name
    exact (replayAcks_append hreturned _).trans (replayAcks_deleteFailed name letter.name s.log)
  have failures_after : ∀ name, deleteFailures name
      (failReplay (s.note (.deleteFailed letter.name)) err).log =
        deleteFailures name s.log + if letter.name = name then 1 else 0 := by
    intro name
    exact (deleteFailures_append hreturned _).trans
      (deleteFailures_deleteFailed name letter.name s.log)
  constructor
  case acked_letter =>
    intro letter' hletter'
    cases hletter'
  case acked_used =>
    intro name message hmem
    simp only [failReplay, Sys.note, List.mem_cons, reduceCtorEq, false_or] at hmem
    exact h.acked_used name message hmem
  case acks_le =>
    intro name
    have hle := h.acks_le name
    rw [acks_after, failures_after]
    omega
  case acks_le_of_kept =>
    intro file hfile _
    rw [acks_after, failures_after]
    by_cases heq : letter.name = file.name
    -- this is the letter whose removal just failed
    · rw [if_pos heq]
      exact h.acks_le file.name
    · rw [if_neg heq]
      exact h.acks_le_of_kept file hfile (by simpa [hacked] using heq)

theorem acked_deleting (h : AcksSafe s) (hreplay : s.replay = .deleting letter rest) :
    Entry.acked (.replay letter.name) letter.record.message ∈ s.log := by
  apply h.acked_letter letter
  rw [hreplay]
  rfl

end AcksSafe

theorem Step.acksSafe (h : Step layout s e s') (hbatch : BatchSafe s) (hsafe : AcksSafe s) :
    AcksSafe s' := by
  cases h with
  | refuse => exact hsafe
  | publish | call => exact hsafe.quiet [] (by simp) rfl rfl rfl rfl
  | callAcked => exact hsafe.quiet [_] (by simp [Entry.isQuiet]) rfl rfl rfl rfl
  | saved _ _ _ hfresh hinsert =>
    exact (hsafe.saved hinsert hfresh).quiet [] (by simp) rfl rfl rfl rfl
  | replay new _ _ _ hacked _ hnew =>
    refine hsafe.quiet new ?_ rfl rfl rfl hacked
    intro e he
    obtain ⟨err, rfl⟩ := hnew e he
    rfl
  | replayAcked hletter hnone _ _ hacked => exact hsafe.acked hbatch _ hletter hnone hacked
  | removed hreplay => exact hsafe.removed hreplay
  | deleteFailed hreplay => exact hsafe.deleteFailed _ hreplay

/-! ## The file of a call -/

def File.IsOf (file : File) (m : RawMsg) : Prop :=
  file.content.map RawRecord.message = some m.afterJSON

/-- A call that has put its file in place still has it there, unless what the file holds has been
    acknowledged by a replay; and no other file is of that call. -/
structure Held (s : Sys) : Prop where
  file_saved : ∀ file ∈ s.dir.rows, ∀ i ∈ file.origin,
    file.isDeadLetter = true ∧ Entry.saved i file.name ∈ s.log ∧
      ∃ c, s.calls[i]? = some c ∧ c.phase.stored = true ∧ file.IsOf c.message
  origins_nodup : (s.dir.rows.filterMap File.origin).Nodup
  stored_kept : ∀ (i : Nat) (c : Call), s.calls[i]? = some c → c.phase.stored = true →
    (∃ file ∈ s.dir.rows, file.origin = some i) ∨
      ∃ name, Entry.saved i name ∈ s.log ∧ Entry.acked (.replay name) c.message.afterJSON ∈ s.log

namespace Held

variable {s s' : Sys}

theorem of_same_dir (h : Held s) (hdir : s'.dir = s.dir) (hlog : s.log ⊆ s'.log)
    (hold : ∀ (i : Nat) (c : Call), s.calls[i]? = some c → ∃ c', s'.calls[i]? = some c' ∧
      c'.message = c.message ∧ c'.phase.stored = c.phase.stored)
    (hnew : ∀ (i : Nat) (c' : Call), s'.calls[i]? = some c' → c'.phase.stored = true →
      ∃ c, s.calls[i]? = some c ∧ c.message = c'.message ∧ c.phase.stored = true) : Held s' where
  file_saved := by
    intro file hfile i hi
    obtain ⟨hdead, hsaved, c, hc, hstored, hholds⟩ := h.file_saved file (hdir ▸ hfile) i hi
    obtain ⟨c', hc', hmessage, hstored'⟩ := hold i c hc
    exact ⟨hdead, hlog hsaved, c', hc', hstored'.trans hstored, hmessage ▸ hholds⟩
  origins_nodup := hdir ▸ h.origins_nodup
  stored_kept := by
    intro i c' hc' hstored'
    obtain ⟨c, hc, hmessage, hstored⟩ := hnew i c' hc' hstored'
    rcases h.stored_kept i c hc hstored with hfile | ⟨name, hsaved, hacked⟩
    · exact .inl (hdir ▸ hfile)
    · exact .inr ⟨name, hlog hsaved, hmessage ▸ hlog hacked⟩

theorem of_set (h : Held s) {i : Nat} {c : Call} {phase : CallPhase} (hc : s.calls[i]? = some c)
    (hcalls : s'.calls = s.calls.set i { c with phase := phase })
    (hstored : phase.stored = c.phase.stored) (hdir : s'.dir = s.dir) (hlog : s.log ⊆ s'.log) :
    Held s' := by
  refine h.of_same_dir hdir hlog ?_ ?_
  · intro k d hd
    rw [hcalls]
    rcases getElem?_of_set (a := { c with phase := phase }) hc hd with
      ⟨rfl, -, hmoved⟩ | ⟨-, hkept⟩
    · exact ⟨_, hmoved, rfl, hstored⟩
    · exact ⟨d, hkept, rfl, rfl⟩
  · intro k d hd hd'
    rw [hcalls] at hd
    rcases (getElem?_set_iff hc).mp hd with ⟨rfl, rfl⟩ | ⟨-, hold⟩
    · exact ⟨c, hc, rfl, hstored ▸ hd'⟩
    · exact ⟨d, hold, rfl, hd'⟩

/-- A call puts its file in place. It had none before, since it was not stored. -/
theorem saved (h : Held s) {i : Nat} {c : Call} {record : RawRecord} {err name : String}
    {dir : Dir} (hc : s.calls[i]? = some c) (hmessage : record.message = c.message)
    (hstored : c.phase.stored = false) (hname : hasSuffix name ".json" = true)
    (hinsert : s.dir.insert ⟨name, false, some record.afterJSON, some i⟩ = some dir) :
    Held (({ s with dir := dir, used := name :: s.used }.put i
      { c with phase := .addingCount err }).note (.saved i name)) := by
  obtain ⟨-, hrows⟩ := KeyedTable.insert_eq_some hinsert
  have hself : (s.calls.set i { c with phase := .addingCount err })[i]? =
      some { c with phase := .addingCount err } := (getElem?_set_iff hc).mpr (.inl ⟨rfl, rfl⟩)
  -- a file of call `i` would make it a stored call
  have hnofile : ∀ file ∈ s.dir.rows, file.origin ≠ some i := by
    intro file hfile hi
    obtain ⟨-, -, d, hd, hd', -⟩ := h.file_saved file hfile i hi
    rw [hc, Option.some.injEq] at hd
    subst hd
    rw [hstored] at hd'
    cases hd'
  constructor
  case file_saved =>
    intro file hfile k hk
    rcases List.mem_cons.mp (hrows ▸ hfile) with rfl | hold
    · cases hk
      refine ⟨?_, List.mem_cons_self, _, hself, rfl, ?_⟩
      · simpa [File.isDeadLetter] using hname
      · rw [File.IsOf, Option.map_some, record.message_afterJSON, hmessage]
    · obtain ⟨hdead, hsaved, d, hd, hd', hholds⟩ := h.file_saved file hold k hk
      have hne : k ≠ i := by
        rintro rfl
        exact hnofile file hold hk
      exact ⟨hdead, List.mem_cons_of_mem _ hsaved, d, (getElem?_set_iff hc).mpr (.inr ⟨hne, hd⟩),
        hd', hholds⟩
  case origins_nodup =>
    show (dir.rows.filterMap File.origin).Nodup
    rw [hrows]
    refine List.nodup_cons.mpr ⟨?_, h.origins_nodup⟩
    intro hmem
    obtain ⟨file, hfile, hi⟩ := List.mem_filterMap.mp hmem
    exact hnofile file hfile hi
  case stored_kept =>
    intro k d hd hd'
    rcases (getElem?_set_iff hc).mp hd with ⟨rfl, rfl⟩ | ⟨-, hold⟩
    · exact .inl ⟨_, hrows ▸ List.mem_cons_self, rfl⟩
    · rcases h.stored_kept k d hold hd' with ⟨file, hfile, hk⟩ | ⟨name', hsaved, hacked⟩
      · exact .inl ⟨file, hrows ▸ List.mem_cons_of_mem _ hfile, hk⟩
      · exact .inr ⟨name', List.mem_cons_of_mem _ hsaved, List.mem_cons_of_mem _ hacked⟩

/-- The replay removes a file whose message has been acknowledged. -/
theorem removed (h : Held s) (hbatch : BatchSafe s) (hacks : AcksSafe s)
    {letter : StoredDeadLetter} {rest : List StoredDeadLetter}
    (hreplay : s.replay = .deleting letter rest) :
    Held { s with dir := Dir.remove s.dir letter.name, replay := .addingCount rest } := by
  constructor
  case file_saved =>
    intro file hfile k hk
    exact h.file_saved file (Dir.mem_remove.mp hfile).1 k hk
  case origins_nodup =>
    exact h.origins_nodup.sublist (List.filter_sublist.filterMap File.origin)
  case stored_kept =>
    intro k d hd hd'
    rcases h.stored_kept k d hd hd' with ⟨file, hfile, hk⟩ | hdelivered
    · by_cases hname : file.name = letter.name
      -- the file of this call is the one removed, and it held the call's message
      · obtain ⟨-, hsaved, d', hd'', -, hholds⟩ := h.file_saved file hfile k hk
        cases Option.some.inj (Eq.trans (Eq.symm hd) hd'')
        have hmessage : letter.record.message = d.message.afterJSON := by
          rw [File.IsOf, hbatch.content_eq hreplay hfile hname] at hholds
          exact Option.some.inj hholds
        exact .inr ⟨letter.name, hname ▸ hsaved, hmessage ▸ hacks.acked_deleting hreplay⟩
      · exact .inl ⟨file, Dir.mem_remove.mpr ⟨hfile, hname⟩, hk⟩
    · exact .inr hdelivered

end Held

theorem Step.held (h : Step layout s e s') (hbatch : BatchSafe s) (hcalls : CallsSafe s)
    (hacks : AcksSafe s) (hheld : Held s) : Held s' := by
  have hlog := h.log_subset
  have hsame : ∀ (i : Nat) (c : Call), s.calls[i]? = some c → c.phase.stored = true →
      ∃ c', s.calls[i]? = some c' ∧ c'.message = c.message ∧ c'.phase.stored = true :=
    fun i c hc hstored => ⟨c, hc, rfl, hstored⟩
  cases h with
  | refuse => exact hheld
  | publish =>
    refine hheld.of_same_dir rfl hlog ?_ ?_
    · intro i c hc
      exact ⟨c, getElem?_concat_iff.mpr (.inl hc), rfl, rfl⟩
    · intro i c hc hstored
      rcases getElem?_concat_iff.mp hc with hold | ⟨-, rfl⟩
      · exact hsame i c hold hstored
      · cases hstored
  | call hc _ hstored | callAcked hc hstored => exact hheld.of_set hc rfl hstored rfl hlog
  | @saved _ i c record err dir hc hphase hmarshal hfresh hinsert =>
    -- the record has been made of the message of the call
    have hmessage := (hcalls i c hc).record_message record (hphase ▸ rfl)
    exact hheld.saved hc hmessage (hphase ▸ rfl) (hasSuffix_append _ _) hinsert
  | removed hreplay => exact hheld.removed hbatch hacks hreplay
  | replay | replayAcked | deleteFailed =>
    exact hheld.of_same_dir rfl hlog (fun i c hc => ⟨c, hc, rfl, rfl⟩) hsame

/-! ## Reachable states -/

/-- The four invariants together; each step needs some of the others. -/
structure Safe (s : Sys) : Prop where
  batch : BatchSafe s
  calls : CallsSafe s
  acks : AcksSafe s
  held : Held s

theorem Step.safe (h : Step layout s e s') (hsafe : Safe s) : Safe s' where
  batch := h.batchSafe hsafe.batch
  calls := h.callsSafe hsafe.calls
  acks := h.acksSafe hsafe.batch hsafe.acks
  held := h.held hsafe.batch hsafe.calls hsafe.acks hsafe.held

/-- A directory without files of this run is a safe place to start. -/
theorem Safe.initial {dir : Dir} (horigin : ∀ file ∈ dir.rows, file.origin = none) :
    Safe (initial dir) where
  batch := by
    refine ⟨?_, List.nodup_nil, ?_⟩
    · intro letter hletter
      cases hletter
    · intro file hfile
      exact List.mem_map_of_mem hfile
  calls := by
    intro i c hc
    cases hc
  acks := by
    refine ⟨?_, ?_, ?_, ?_⟩
    · intro letter hletter
      cases hletter
    · intro name message hmem
      cases hmem
    · exact fun name => Nat.zero_le _
    · exact fun file _ _ => Nat.zero_le _
  held := by
    refine ⟨?_, ?_, ?_⟩
    -- a file from before this run belongs to no call
    · intro file hfile i hi
      rw [horigin file hfile] at hi
      cases hi
    · have hnone : dir.rows.filterMap File.origin = [] :=
        List.filterMap_eq_nil_iff.mpr horigin
      show (dir.rows.filterMap File.origin).Nodup
      rw [hnone]
      exact List.nodup_nil
    · intro i c hc
      cases hc

theorem safe_of_reachable {opts : ReliableOptions} (hs : (reliable opts layout).Reachable s) :
    Safe s := by
  refine System.Reachable.invariant ?_ ?_ hs
  · rintro s ⟨dir, horigin, rfl⟩
    exact Safe.initial horigin
  · intro s e s' hsafe hstep
    exact (Step.of_step hstep).safe hsafe

/-! ## Main result -/

/-- JetStream has acknowledged the message of call `i`, from the call itself or from a replay
    of its dead letter. -/
def Delivered (s : Sys) (i : Nat) (message : RawMsg) : Prop :=
  Entry.acked (.publish i) message ∈ s.log ∨
    ∃ name replayed, Entry.saved i name ∈ s.log ∧ Entry.acked (.replay name) replayed ∈ s.log ∧
      replayed.Same message

/-- Exactly one file of the directory is of call `i`; it is a dead letter, which replays will
    find, and holds the message. -/
def HeldOnce (s : Sys) (i : Nat) (message : RawMsg) : Prop :=
  ∃ file, s.dir.rows.filter (fun file => file.origin = some i) = [file] ∧
    file.isDeadLetter = true ∧ file.Holds message

theorem File.IsOf.holds {file : File} {m : RawMsg} (h : file.IsOf m) (htext : m.IsText) :
    file.Holds m := by
  obtain ⟨record, hcontent, hmessage⟩ := Option.map_eq_some_iff.mp h
  exact ⟨record, hcontent, hmessage ▸ RawMsg.same_afterJSON_iff.mpr htext⟩

theorem Held.delivered_or_heldOnce (h : Held s) (hc : s.calls[i]? = some c)
    (hstored : c.phase.stored = true) (htext : c.message.IsText) :
    Delivered s i c.message ∨ HeldOnce s i c.message := by
  rcases h.stored_kept i c hc hstored with ⟨file, hfile, hi⟩ | ⟨name, hsaved, hacked⟩
  · right
    obtain ⟨hdead, -, c', hc', -, hholds⟩ := h.file_saved file hfile i hi
    rw [hc, Option.some.injEq] at hc'
    subst hc'
    exact ⟨file, filter_eq_singleton h.origins_nodup hfile hi, hdead, hholds.holds htext⟩
  · exact .inl (.inr ⟨name, _, hsaved, hacked, RawMsg.same_afterJSON_iff.mpr htext⟩)

theorem Step.removed_acked (h : Step layout s e s') (hsafe : Safe s) {file : File}
    (hfile : file ∈ s.dir.rows) (hgone : file ∉ s'.dir.rows) :
    ∃ message, file.Holds message ∧ Entry.acked (.replay file.name) message ∈ s.log := by
  cases h with
  | removed hreplay =>
    have hname : file.name = _ :=
      not_not.mp fun hne => hgone (Dir.mem_remove.mpr ⟨hfile, hne⟩)
    refine ⟨_, ⟨_, hsafe.batch.content_eq hreplay hfile hname, .refl _⟩, ?_⟩
    rw [hname]
    exact hsafe.acks.acked_deleting hreplay
  | saved _ _ _ _ hinsert =>
    obtain ⟨-, hrows⟩ := KeyedTable.insert_eq_some hinsert
    exact absurd (hrows ▸ List.mem_cons_of_mem _ hfile) hgone
  -- no other step touches the directory
  | refuse | publish | call | callAcked | replay | replayAcked | deleteFailed =>
    exact absurd hfile hgone

/-- The messages that are published have a subject and headers of text. -/
def Event.TextOnly : Event → Prop
  | .publish (.ok message) => message.IsText
  | _ => True

instance (e : Event) : Decidable e.TextOnly := by
  unfold Event.TextOnly
  split <;> infer_instance

theorem Step.isText (h : Step layout s e s') (htext : e.TextOnly)
    (hold : ∀ c ∈ s.calls, c.message.IsText) : ∀ c ∈ s'.calls, c.message.IsText := by
  have hset : ∀ {i : Nat} {c : Call} {phase : CallPhase}, s.calls[i]? = some c →
      ∀ d ∈ s.calls.set i { c with phase := phase }, d.message.IsText := by
    intro i c phase hc d hd
    rcases List.mem_or_eq_of_mem_set hd with hd | rfl
    · exact hold d hd
    · exact hold c (List.mem_of_getElem? hc)
  cases h with
  | publish =>
    intro c hc
    rcases List.mem_append.mp hc with hc | hc
    · exact hold c hc
    · rw [List.mem_singleton.mp hc]
      exact htext
  | call hc | callAcked hc | saved hc => exact hset hc
  | refuse | replay | replayAcked | removed | deleteFailed => exact hold

theorem isText_of_reachable {opts : ReliableOptions}
    (hs : (reliable opts layout).ReachableBy (fun _ e => e.TextOnly) s) :
    ∀ c ∈ s.calls, c.message.IsText := by
  refine System.ReachableBy.invariant (P := fun s => ∀ c ∈ s.calls, c.message.IsText) ?_ ?_ hs
  · rintro s ⟨dir, -, rfl⟩ c hc
    cases hc
  · intro s e s' _ hold htext hstep
    exact (Step.of_step hstep).isText htext hold

/-- A call that has returned accounts for its message, if that is text. -/
theorem Safe.accounted (hsafe : Safe s) {outcome : Outcome} (hc : s.calls[i]? = some c)
    (hphase : c.phase = .returned outcome) (htext : c.message.IsText) :
    Delivered s i c.message ∨ HeldOnce s i c.message ∨
      ∃ publishErr saveErr, outcome = .persistFailed publishErr saveErr := by
  cases outcome with
  | published =>
    left
    left
    apply (hsafe.calls i c hc).acked_logged
    rw [hphase]
    rfl
  | deadLettered publishErr =>
    -- stored: the file is still there, or it was removed after the replay had delivered it
    have hstored : c.phase.stored = true := by
      rw [hphase]
      rfl
    rcases hsafe.held.delivered_or_heldOnce hc hstored htext with hdelivered | hheld
    · exact .inl hdelivered
    · exact .inr (.inl hheld)
  | persistFailed publishErr saveErr => exact .inr (.inr ⟨publishErr, saveErr, rfl⟩)

/-- **Reliable publishing loses nothing that is text.** In every state that is reached while all
    subjects and headers are valid UTF-8:

    - the message of every `Publish` call that has returned has been acknowledged by JetStream,
      or exactly one dead-letter file holds it, or `Publish` returned the error that says that
      it could not be persisted;
    - a step that removes a file from the directory removes one whose message has been
      acknowledged before;
    - a dead letter has been acknowledged by replays at most once more than a `Delete` of it
      has failed, so at most once if none has. -/
theorem reliable_publish_loses_nothing (opts : ReliableOptions) (layout : Int → String) {s : Sys}
    (hs : (reliable opts layout).ReachableBy (fun _ e => e.TextOnly) s) :
    (∀ i c outcome, s.calls[i]? = some c → c.phase = .returned outcome →
      Delivered s i c.message ∨ HeldOnce s i c.message ∨
        ∃ publishErr saveErr, outcome = .persistFailed publishErr saveErr) ∧
    (∀ e s' file, (reliable opts layout).step s e = some s' → file ∈ s.dir.rows →
      file ∉ s'.dir.rows →
      ∃ message, file.Holds message ∧ Entry.acked (.replay file.name) message ∈ s.log) ∧
    (∀ name, replayAcks name s.log ≤ deleteFailures name s.log + 1) := by
  have hsafe := safe_of_reachable hs.reachable
  refine ⟨?_, ?_, hsafe.acks.acks_le⟩
  · intro i c outcome hc hphase
    exact hsafe.accounted hc hphase (isText_of_reachable hs c (List.mem_of_getElem? hc))
  · intro e s' file hstep hfile hgone
    exact (Step.of_step hstep).removed_acked hsafe hfile hgone

def onceOnly : System Sys Event :=
  reliable ⟨⟨1, none⟩, ⟨1, Duration.second, 1, false⟩, "dlq", 1⟩ fun _ => "t"

/-- A call fails at its only attempt, saves its message and returns. -/
def failAndSave (message : RawMsg) : List Event :=
  [.publish (.ok message), .call 0 (.publish (.before 0)),
    .call 0 (.publish (.retry (.answer (some ⟨"no responders", none⟩)))),
    .call 0 (.publish (.after 1)), .call 0 (.record (bytes "a1") 2 2 (bytes "a2")),
    .call 0 (.save none), .call 0 (.save none), .call 0 (.save none), .call 0 (.save none),
    .call 0 (.save none), .call 0 .addCount, .call 0 .readCount, .call 0 .setGauge]

/-- A replay finds the file, and JetStream acknowledges its message. -/
def thenReplay : List Event :=
  [.replay (.start none), .replay (.read none), .replay (.publish (.before 2000000000)),
    .replay (.publish (.retry (.answer none)))]

/-- What `Publish` returns. -/
def noResponders : Outcome := .deadLettered "retry failed after 1 attempts: no responders"

def order : RawMsg := ⟨bytes "orders", .empty, [1]⟩

theorem dead_letter_delivered_by_replay :
    ∃ s c, onceOnly.ReachableBy (fun _ e => e.TextOnly) s ∧ s.calls[0]? = some c ∧
      c.phase = .returned noResponders ∧
      (Delivered s 0 c.message ∨ HeldOnce s 0 c.message ∨
        ∃ publishErr saveErr, noResponders = .persistFailed publishErr saveErr) := by
  have hrun : (onceOnly.runBy (fun _ e => e.TextOnly) (initial KeyedTable.empty)
      (failAndSave order ++ thenReplay)).map (fun s => s.calls[0]?) =
      some (some ⟨order, .returned noResponders⟩) := by
    decide +kernel
  obtain ⟨s, hs, hcall⟩ := Option.map_eq_some_iff.mp hrun
  have hreach : onceOnly.ReachableBy (fun _ e => e.TextOnly) s :=
    .runBy (.init ⟨KeyedTable.empty, fun _ hfile => (by cases hfile), rfl⟩) hs
  exact ⟨s, _, hreach, hcall, rfl, (reliable_publish_loses_nothing _ _ hreach).1 0 _ _ hcall rfl⟩

theorem Held.not_heldOnce (h : Held s) (hc : s.calls[i]? = some c) (hnot : ¬ c.message.IsText) :
    ¬ HeldOnce s i c.message := by
  rintro ⟨file, hfilter, -, record, hcontent, hsame⟩
  obtain ⟨hfile, hi⟩ := List.mem_filter.mp (hfilter ▸ List.mem_singleton_self file)
  obtain ⟨-, -, c', hc', -, hof⟩ := h.file_saved file hfile i (of_decide_eq_true hi)
  cases Option.some.inj (hc'.symm.trans hc)
  rw [File.IsOf, hcontent, Option.map_some, Option.some.injEq] at hof
  exact hnot (RawMsg.same_afterJSON_iff.mp (hof ▸ hsame))

/-- `events.\xff.created`, the subject of a change whose aggregate type is one byte that is not
    UTF-8. -/
def brokenSubject : RawMsg := ⟨bytes "events." ++ 0xFF :: bytes ".created", .empty, [1]⟩

/-- **A subject is lost in a dead letter**: `Publish` returns the error that says that the message
    was dead-lettered; but JetStream has not acknowledged it, and no file holds it. -/
theorem subject_lost_in_dead_letter :
    ∃ s c outcome, onceOnly.Reachable s ∧ s.calls[0]? = some c ∧ c.message = brokenSubject ∧
      c.phase = .returned outcome ∧
      ¬ (Delivered s 0 c.message ∨ HeldOnce s 0 c.message ∨
        ∃ publishErr saveErr, outcome = .persistFailed publishErr saveErr) := by
  have hrun : (onceOnly.run (initial KeyedTable.empty) (failAndSave brokenSubject)).map
      (fun s => (s.calls[0]?, s.log)) =
      some (some ⟨brokenSubject, .returned noResponders⟩, [.saved 0 "t-a1.json"]) := by
    decide +kernel
  obtain ⟨s, hs, hfacts⟩ := Option.map_eq_some_iff.mp hrun
  obtain ⟨hcall, hlog⟩ := Prod.mk.inj hfacts
  have hreach : onceOnly.Reachable s :=
    System.Reachable.run (.init ⟨KeyedTable.empty, fun _ hfile => (by cases hfile), rfl⟩) hs
  refine ⟨s, _, _, hreach, hcall, rfl, rfl, ?_⟩
  rintro (hdelivered | hheld | ⟨publishErr, saveErr, herr⟩)
  -- the log has no acknowledgement
  · simp [Delivered, hlog] at hdelivered
  · exact (safe_of_reachable hreach).held.not_heldOnce hcall (by decide +kernel) hheld
  · cases herr

end ServiceRuntime.NatsBus
