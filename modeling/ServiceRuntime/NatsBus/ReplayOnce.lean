import ServiceRuntime.NatsBus.Listing
import ServiceRuntime.NatsBus.ReliableSteps

/-!
# One Replay

`replayOnce` as one function: what it publishes, what it deletes and what it returns, given how
each `publishMessage` and each `Delete` turns out. The batch is replayed in order up to the first
failure (`replayLoop_spec`).

The second half connects the function with the steps of `NatsBus.Reliable`: a replay that no other
goroutine interrupts does what the function says. For this, `finish` says at each point of the
replay what is still to come, and each step keeps it, up to the acknowledgement it brings
(`finish_of_replayAct`).
-/

namespace ServiceRuntime.NatsBus

open GoStrings Resilience Storage Transition

/-! ## The function -/

/-- How the replay of one letter turns out: the error of `publishMessage`, and the error of
    `Delete` if it comes to that. -/
structure Attempt where
  publish : Option String
  remove : Option String

def Attempt.succeeds (a : Attempt) : Bool := a.publish.isNone && a.remove.isNone

structure Replayed where
  dir : Dir
  /-- The letters for which `publishMessage` returned `nil`, in order. -/
  published : List StoredDeadLetter
  err : Option String

/-- The loop of `replayOnce`; `attempts i` is how the letter at position `i` fares. -/
def replayLoop (cfg : ReliableSettings) :
    (attempts : Nat → Attempt) → List StoredDeadLetter → Dir → Replayed
  | _, [], dir => ⟨dir, [], none⟩
  | attempts, letter :: rest, dir =>
    match (attempts 0).publish with
    | some err => ⟨dir, [], some ("replay dead letter " ++ letter.name ++ ": " ++ err)⟩
    | none =>
      match (attempts 0).remove with
      | some err =>
        ⟨dir, [letter], some ("remove dead letter " ++ cfg.path letter.name ++ ": " ++ err)⟩
      | none =>
        let after := replayLoop cfg (fun i => attempts (i + 1)) rest (Dir.remove dir letter.name)
        { after with published := letter :: after.published }

/-- The limit that `replayOnce` passes to `List`. -/
def ReliableSettings.limit (cfg : ReliableSettings) : Nat := cfg.replayBatchSize.toNat

/-- The rest of `replayOnce`, when `List` has returned. -/
def replayListed (cfg : ReliableSettings) (attempts : Nat → Attempt) (dir : Dir) :
    Except String (List StoredDeadLetter) → Replayed
  | .error err => ⟨dir, [], some err⟩
  | .ok letters => replayLoop cfg attempts letters dir

def replayOnce (cfg : ReliableSettings) (readDir : Option String)
    (faults : String → Option String) (attempts : Nat → Attempt) (dir : Dir) : Replayed :=
  replayListed cfg attempts dir (listRecords cfg readDir faults dir cfg.limit)

theorem ReliableSettings.one_le_limit (cfg : ReliableSettings) : 1 ≤ cfg.limit := by
  have hpos := cfg.replayBatchSize_pos
  unfold limit
  omega

/-! ## A prefix of the batch -/

def Dir.removeAll (dir : Dir) (names : List String) : Dir :=
  dir.keepWhere fun file => file.name ∉ names

theorem Dir.removeAll_nil (dir : Dir) : Dir.removeAll dir [] = dir := by
  simp [removeAll, KeyedTable.keepWhere]

theorem Dir.removeAll_remove (dir : Dir) (name : String) (names : List String) :
    Dir.removeAll (Dir.remove dir name) names = Dir.removeAll dir (name :: names) := by
  simp only [removeAll, remove, KeyedTable.keepWhere, List.filter_filter, KeyedTable.mk.injEq]
  apply List.filter_congr
  intro file _
  simp [Bool.and_comm]

/-- **A replay deals with a prefix of its batch**: the letters in front of the first failure are
    published and their files removed; the letter at the failure is published if the failure was
    that of `Delete`; no other file is touched. -/
theorem replayLoop_spec (cfg : ReliableSettings) (attempts : Nat → Attempt)
    (letters : List StoredDeadLetter) (dir : Dir) :
    ∃ k ≤ letters.length, (∀ i < k, (attempts i).succeeds = true) ∧
      (k < letters.length → (attempts k).succeeds = false) ∧
      (replayLoop cfg attempts letters dir).dir =
        Dir.removeAll dir ((letters.take k).map (·.name)) ∧
      (replayLoop cfg attempts letters dir).published =
        letters.take (if (attempts k).publish = none then k + 1 else k) ∧
      ((replayLoop cfg attempts letters dir).err = none ↔ k = letters.length) := by
  induction letters generalizing attempts dir with
  | nil => exact ⟨0, by simp [replayLoop, Dir.removeAll_nil]⟩
  | cons letter rest ih =>
    unfold replayLoop
    cases hpublish : (attempts 0).publish with
    | some err =>
      refine ⟨0, by simp, by simp, ?_, ?_, ?_, ?_⟩
      · simp [Attempt.succeeds, hpublish]
      · simp [Dir.removeAll_nil]
      · simp [hpublish]
      · simp
    | none =>
      cases hremove : (attempts 0).remove with
      | some err =>
        -- `Delete` has failed: the letter has been published, and its file is still there
        refine ⟨0, by simp, by simp, ?_, ?_, ?_, ?_⟩
        · simp [Attempt.succeeds, hremove]
        · simp [Dir.removeAll_nil]
        · simp [hpublish]
        · simp
      | none =>
        obtain ⟨k, hk, hbefore, hstop, hdir, hpublished, herr⟩ :=
          ih (fun i => attempts (i + 1)) (Dir.remove dir letter.name)
        refine ⟨k + 1, by simpa using hk, ?_, ?_, ?_, ?_, ?_⟩
        · intro i hi
          cases i with
          | zero => simp [Attempt.succeeds, hpublish, hremove]
          | succ i => exact hbefore i (by omega)
        · intro hlt
          exact hstop (by simpa using hlt)
        · simp only [hdir, Dir.removeAll_remove]
          rfl
        · simp only [hpublished]
          split <;> rfl
        · simpa using herr

/-! ## What is still to come -/

/-- The letters that a replay has had acknowledged, newest first. -/
def replayed (log : List Entry) : List (String × RawMsg) :=
  log.filterMap fun
    | .acked (.replay name) message => some (name, message)
    | _ => none

def StoredDeadLetter.ack (letter : StoredDeadLetter) : String × RawMsg :=
  (letter.name, letter.record.message)

/-- The error of the replay that returned last, if nothing was logged since. -/
def lastError : List Entry → Option String
  | .replayReturned err :: _ => err
  | _ => none

def Replayed.after (acked : List StoredDeadLetter) (r : Replayed) : Replayed :=
  { r with published := acked ++ r.published }

def removeThen (cfg : ReliableSettings) (attempts : Nat → Attempt) (letter : StoredDeadLetter)
    (rest : List StoredDeadLetter) (dir : Dir) : Replayed :=
  match (attempts 0).remove with
  | some err => ⟨dir, [], some ("remove dead letter " ++ cfg.path letter.name ++ ": " ++ err)⟩
  | none => replayLoop cfg (fun i => attempts (i + 1)) rest (Dir.remove dir letter.name)

/-- What a replay has still to do: the directory it will leave, the letters it will have
    acknowledged from here on, and its error. -/
def finish (cfg : ReliableSettings) (faults : String → Option String) (attempts : Nat → Attempt)
    (s : Sys) : Replayed :=
  match s.replay with
  | .idle => ⟨s.dir, [], lastError s.log⟩
  | .listing names records =>
    replayListed cfg attempts s.dir (listLoop cfg faults s.dir cfg.limit names records)
  | .publishing letter st rest =>
    if st.acked then removeThen cfg attempts letter rest s.dir
    else replayLoop cfg attempts (letter :: rest) s.dir
  | .deleting letter rest => removeThen cfg attempts letter rest s.dir
  | .addingCount rest => replayLoop cfg attempts rest s.dir
  | .readingCount rest => replayLoop cfg attempts rest s.dir
  | .settingGauge _ rest => replayLoop cfg attempts rest s.dir

def Replay.NodupNames : Replay → Prop
  | .listing names _ => names.Nodup
  | _ => True

variable {cfg : ReliableSettings}

theorem listLoop_congr {faults faults' : String → Option String} {dir : Dir} {limit : Nat}
    {names : List String} (records : List StoredDeadLetter)
    (h : ∀ name ∈ names, faults name = faults' name) :
    listLoop cfg faults dir limit names records = listLoop cfg faults' dir limit names records := by
  induction names generalizing records with
  | nil => rfl
  | cons name names ih =>
    rw [List.forall_mem_cons] at h
    have hread : readNamed cfg faults dir name = readNamed cfg faults' dir name := by
      rw [readNamed, h.1, readNamed]
    simp only [listLoop, hread, ih _ h.2]

/-! ## Each step keeps what is still to come -/

/-- A step of a replay that brings the acknowledgements `acked`: whatever is still to come after
    it, the same with `acked` in front was to come before it. -/
structure Keeps (cfg : ReliableSettings) (s s' : Sys) (acked : List StoredDeadLetter) : Prop where
  log_eq : replayed s'.log = (acked.map StoredDeadLetter.ack).reverse ++ replayed s.log
  finish_eq : ∀ faults' attempts', ∃ faults attempts,
    finish cfg faults attempts s = (finish cfg faults' attempts' s').after acked
  nodup : s'.replay.NodupNames

section Pieces

variable (cfg : ReliableSettings) (faults : String → Option String) (attempts : Nat → Attempt)

@[simp] theorem Replayed.after_nil (r : Replayed) : r.after [] = r := rfl

theorem finish_nextLetter (s : Sys) (letters : List StoredDeadLetter) :
    finish cfg faults attempts (nextLetter s letters) = replayLoop cfg attempts letters s.dir := by
  cases letters <;> rfl

theorem limit_le_iff (n : Nat) : cfg.limit ≤ n ↔ cfg.replayBatchSize ≤ n := by
  rw [ReliableSettings.limit, Int.toNat_le]

theorem finish_keepListing (s : Sys) (names : List String) (records : List StoredDeadLetter) :
    finish cfg faults attempts (keepListing cfg s names records) =
      replayListed cfg attempts s.dir
        (if cfg.limit ≤ records.length then .ok records
          else listLoop cfg faults s.dir cfg.limit names records) := by
  unfold keepListing
  by_cases hfull : cfg.limit ≤ records.length
  · rw [if_pos (.inr ((limit_le_iff cfg _).mp hfull)), if_pos hfull, finish_nextLetter]
    rfl
  · rw [if_neg hfull]
    cases names with
    | nil =>
      rw [if_pos (.inl rfl), finish_nextLetter]
      rfl
    | cons name names =>
      have hgoes : ¬(name :: names = [] ∨ cfg.replayBatchSize ≤ records.length) := by
        simp [← limit_le_iff, hfull]
      rw [if_neg hgoes]
      rfl

theorem replayLoop_of_published {letter : StoredDeadLetter} {rest : List StoredDeadLetter}
    {dir : Dir} (h : (attempts 0).publish = none) :
    replayLoop cfg attempts (letter :: rest) dir =
      (removeThen cfg attempts letter rest dir).after [letter] := by
  unfold replayLoop removeThen
  rw [h]
  cases (attempts 0).remove <;> rfl

theorem replayed_nextLetter (s : Sys) (letters : List StoredDeadLetter) :
    replayed (nextLetter s letters).log = replayed s.log := by
  cases letters <;> rfl

theorem nodupNames_nextLetter (s : Sys) (letters : List StoredDeadLetter) :
    (nextLetter s letters).replay.NodupNames := by
  cases letters <;> trivial

theorem replayed_keepListing (s : Sys) (names : List String) (records : List StoredDeadLetter) :
    replayed (keepListing cfg s names records).log = replayed s.log := by
  unfold keepListing
  split
  · exact replayed_nextLetter s records
  · rfl

theorem nodupNames_keepListing (s : Sys) {names : List String} (records : List StoredDeadLetter)
    (h : names.Nodup) : (keepListing cfg s names records).replay.NodupNames := by
  unfold keepListing
  split
  · exact nodupNames_nextLetter s records
  · exact h

end Pieces

section Steps

variable {cfg : ReliableSettings} {s : Sys}

/-- How the letters fare if the first one fares like this. -/
def Attempt.followedBy (first : Attempt) (later : Nat → Attempt) : Nat → Attempt
  | 0 => first
  | i + 1 => later i

theorem Keeps.of_failReplay {s' : Sys} (err : String) (hlog : replayed s'.log = replayed s.log)
    (hfinish : ∃ faults attempts, finish cfg faults attempts s = ⟨s'.dir, [], some err⟩) :
    Keeps cfg s (failReplay s' err) [] := by
  refine ⟨hlog, ?_, trivial⟩
  intro faults' attempts'
  obtain ⟨faults, attempts, hfinish⟩ := hfinish
  exact ⟨faults, attempts, hfinish⟩

theorem Keeps.of_readLetter {name : String} {names : List String}
    {records : List StoredDeadLetter} (fault : Option String)
    (hreplay : s.replay = .listing (name :: names) records) (hnodup : (name :: names).Nodup) :
    Keeps cfg s (readLetter cfg s name names records fault) [] := by
  rw [List.nodup_cons] at hnodup
  have hnames : ∀ faults' : String → Option String, ∀ other ∈ names,
      Function.update faults' name fault other = faults' other := by
    intro faults' other hother
    refine Function.update_of_ne ?_ _ _
    rintro rfl
    exact hnodup.1 hother
  unfold readLetter
  refine ⟨?_, ?_, ?_⟩
  · split
    · rfl
    · exact replayed_keepListing cfg s names _
  · intro faults' attempts'
    -- the fault of this name, in front of the faults of the other names
    refine ⟨Function.update faults' name fault, attempts', ?_⟩
    have hbefore : finish cfg (Function.update faults' name fault) attempts' s =
        replayListed cfg attempts' s.dir (listLoop cfg (Function.update faults' name fault) s.dir
          cfg.limit (name :: names) records) := by
      simp only [finish, hreplay]
    rw [hbefore, listLoop, readNamed, Function.update_self, Replayed.after_nil]
    cases readRecord cfg fault s.dir name with
    | error err => rfl
    | ok record =>
      simp only [finish_keepListing]
      rw [listLoop_congr _ (hnames faults')]
  · split
    · trivial
    · exact nodupNames_keepListing cfg s _ hnodup.2

variable {rest : List StoredDeadLetter}

theorem Keeps.of_afterPublish {letter : StoredDeadLetter} {st : Publishing} {action : PublishAction}
    {b : Breaker} {result : PublishResult} (hreplay : s.replay = .publishing letter st rest)
    (hstep : st.step cfg s.breaker action = some (b, result)) :
    ∃ acked, Keeps cfg s
      ((afterPublish { s with breaker := b } letter rest result).noteAck action
        (.replay letter.name) letter.record.message) acked := by
  obtain ⟨hacked, hfirst⟩ := Publishing.step_acked hstep
  cases hacks : action.acks with
  | true =>
    obtain ⟨st', rfl, hst'⟩ := Publishing.step_of_acks hstep hacks
    rw [Sys.noteAck_of_acks hacks]
    refine ⟨[letter], rfl, ?_, trivial⟩
    intro faults' attempts'
    -- the attempt at this letter has been published, and ends as what is still to come says
    let attempts := Attempt.followedBy ⟨none, (attempts' 0).remove⟩ fun i => attempts' (i + 1)
    refine ⟨faults', attempts, ?_⟩
    have hbefore : finish cfg faults' attempts s =
        replayLoop cfg attempts (letter :: rest) s.dir := by
      simp [finish, hreplay, hfirst hacks]
    have hafter : removeThen cfg attempts letter rest s.dir =
        removeThen cfg attempts' letter rest s.dir := rfl
    rw [hbefore, replayLoop_of_published cfg attempts rfl, hafter]
    simp [finish, afterPublish, Sys.note, hst']
  | false =>
    rw [Sys.noteAck_of_not_acks hacks]
    rw [hacks, Bool.or_false] at hacked
    refine ⟨[], ?_⟩
    cases result with
    | going st' =>
      refine ⟨rfl, fun faults' attempts' => ⟨faults', attempts', ?_⟩, trivial⟩
      have hsame : st'.acked = st.acked := hacked
      simp [finish, hreplay, afterPublish, hsame]
    | returned err =>
      cases err with
      | none =>
        refine ⟨rfl, fun faults' attempts' => ⟨faults', attempts', ?_⟩, trivial⟩
        have hdone : st.acked = true := hacked.symm
        simp [finish, hreplay, afterPublish, hdone]
      | some err =>
        have hfailed : st.acked = false := hacked.symm
        refine Keeps.of_failReplay _ rfl ⟨fun _ => none, fun _ => ⟨some err, none⟩, ?_⟩
        simp [finish, hreplay, hfailed, replayLoop]

theorem Keeps.of_removeLetter {letter : StoredDeadLetter} (fault : Option String)
    (hreplay : s.replay = .deleting letter rest) :
    Keeps cfg s (removeLetter cfg s letter rest fault) [] := by
  unfold removeLetter
  split
  · refine ⟨rfl, fun faults' attempts' => ?_, trivial⟩
    refine ⟨faults', Attempt.followedBy ⟨none, none⟩ attempts', ?_⟩
    simp [finish, hreplay, removeThen, Attempt.followedBy]
  · refine Keeps.of_failReplay _ rfl
      ⟨fun _ => none, fun _ => ⟨none, some "no such file or directory"⟩, ?_⟩
    have htext : "remove dead letter " ++ cfg.path letter.name ++ ": " ++
        "no such file or directory" =
        "remove dead letter " ++ cfg.path letter.name ++ ": no such file or directory" := by
      rw [String.append_assoc]
      rfl
    simp [finish, hreplay, removeThen, Sys.note, htext]
  · rename_i err
    refine Keeps.of_failReplay _ rfl ⟨fun _ => none, fun _ => ⟨none, some err⟩, ?_⟩
    simp [finish, hreplay, removeThen, Sys.note]

/-- **Each step of a replay keeps what is still to come.** -/
theorem keeps_of_replayAct {s' : Sys} {action : ReplayAction} (hbusy : s.replay ≠ .idle)
    (hnodup : s.replay.NodupNames) (h : replayAct cfg s action = some s') :
    ∃ acked, Keeps cfg s s' acked := by
  unfold replayAct at h
  split at h
  case h_1 hreplay => exact absurd hreplay hbusy
  case h_2 name names records fault hreplay =>
    cases h
    rw [hreplay] at hnodup
    exact ⟨[], .of_readLetter fault hreplay hnodup⟩
  case h_3 letter st rest action hreplay =>
    obtain ⟨⟨b, result⟩, hstep, rfl⟩ := Option.map_eq_some_iff.mp h
    exact Keeps.of_afterPublish hreplay hstep
  case h_4 letter rest fault hreplay =>
    cases h
    exact ⟨[], .of_removeLetter fault hreplay⟩
  -- counter and gauge have no part in what is still to come
  case h_5 rest hreplay =>
    cases h
    exact ⟨[], rfl, fun faults' attempts' => ⟨faults', attempts', by simp [finish, hreplay]⟩, trivial⟩
  case h_6 rest hreplay =>
    cases h
    exact ⟨[], rfl, fun faults' attempts' => ⟨faults', attempts', by simp [finish, hreplay]⟩, trivial⟩
  case h_7 size rest hreplay =>
    cases h
    refine ⟨[], replayed_nextLetter _ rest, fun faults' attempts' => ⟨faults', attempts', ?_⟩,
      nodupNames_nextLetter _ rest⟩
    rw [finish_nextLetter]
    simp [finish, hreplay]
  case h_8 => cases h

end Steps

/-! ## Uninterrupted replays -/

def ReplayAction.continues : ReplayAction → Bool
  | .start _ => false
  | _ => true

theorem replayAct_of_idle {s : Sys} {action : ReplayAction} (hs : s.replay = .idle)
    (h : action.continues = true) : replayAct cfg s action = none := by
  unfold replayAct
  rw [hs]
  cases action with
  | start readDir => cases h
  | _ => rfl

theorem finish_of_run (opts : ReliableOptions) (layout : Int → String) {s t : Sys}
    {actions : List ReplayAction} (hnodup : s.replay.NodupNames)
    (hcontinues : ∀ action ∈ actions, action.continues = true)
    (hrun : (reliable opts layout).run s (actions.map .replay) = some t) (ht : t.replay = .idle) :
    ∃ faults attempts acked, finish opts.withDefaults faults attempts s =
        ⟨t.dir, acked, lastError t.log⟩ ∧
      replayed t.log = (acked.map StoredDeadLetter.ack).reverse ++ replayed s.log := by
  induction actions generalizing s with
  | nil =>
    rw [List.map_nil, System.run_nil, Option.some.injEq] at hrun
    subst hrun
    exact ⟨fun _ => none, fun _ => ⟨none, none⟩, [], by simp [finish, ht], rfl⟩
  | cons action actions ih =>
    rw [List.map_cons] at hrun
    obtain ⟨s', hstep, hrun⟩ := System.run_cons_eq_some _ |>.mp hrun
    rw [List.forall_mem_cons] at hcontinues
    have hact : replayAct opts.withDefaults s action = some s' := hstep
    -- an idle replay can only start
    have hbusy : s.replay ≠ .idle := by
      intro hidle
      rw [replayAct_of_idle hidle hcontinues.1] at hact
      cases hact
    obtain ⟨now, hkeeps⟩ := keeps_of_replayAct hbusy hnodup hact
    obtain ⟨faults', attempts', later, hfinish, hlog⟩ := ih hkeeps.nodup hcontinues.2 hrun
    obtain ⟨faults, attempts, hbefore⟩ := hkeeps.finish_eq faults' attempts'
    refine ⟨faults, attempts, now ++ later, ?_, ?_⟩
    · rw [hbefore, hfinish, Replayed.after]
    · rw [hlog, hkeeps.log_eq]
      simp

theorem finish_of_start {s s' : Sys} {readDir : Option String} (hs : s.replay = .idle)
    (h : replayAct cfg s (.start readDir) = some s') :
    replayed s'.log = replayed s.log ∧ s'.replay.NodupNames ∧
      ∀ faults attempts, finish cfg faults attempts s' =
        replayOnce cfg readDir faults attempts s.dir := by
  simp only [replayAct, hs] at h
  cases readDir with
  | some err =>
    cases h
    exact ⟨rfl, trivial, fun _ _ => rfl⟩
  | none =>
    cases h
    refine ⟨replayed_keepListing cfg s _ _, nodupNames_keepListing cfg s _ (Dir.nodup_list s.dir),
      fun faults attempts => ?_⟩
    have hroom : ¬cfg.limit ≤ ([] : List StoredDeadLetter).length := by
      have hone := cfg.one_le_limit
      simp only [List.length_nil]
      omega
    rw [finish_keepListing, if_neg hroom]
    rfl

/-- **A replay that nothing interrupts is `replayOnce`**: it leaves the directory that the function
    says, has the letters acknowledged that the function publishes, and returns its error. -/
theorem replayOnce_of_run (opts : ReliableOptions) (layout : Int → String) {s t : Sys}
    {readDir : Option String} {actions : List ReplayAction} (hs : s.replay = .idle)
    (hcontinues : ∀ action ∈ actions, action.continues = true)
    (hrun : (reliable opts layout).run s ((.start readDir :: actions).map .replay) = some t)
    (ht : t.replay = .idle) :
    ∃ faults attempts acked, replayOnce opts.withDefaults readDir faults attempts s.dir =
        ⟨t.dir, acked, lastError t.log⟩ ∧
      replayed t.log = (acked.map StoredDeadLetter.ack).reverse ++ replayed s.log := by
  rw [List.map_cons] at hrun
  obtain ⟨s', hstep, hrun⟩ := System.run_cons_eq_some _ |>.mp hrun
  obtain ⟨hlog, hnodup, hfinish⟩ := finish_of_start hs hstep
  obtain ⟨faults, attempts, acked, hdone, hacked⟩ :=
    finish_of_run opts layout hnodup hcontinues hrun ht
  refine ⟨faults, attempts, acked, ?_, ?_⟩
  · rw [← hfinish, hdone]
  · rw [hacked, hlog]

/-- One letter is replayed, and its file is gone. -/
theorem replayOnce_of_oneLetter :
    let opts : ReliableOptions := ⟨⟨1, none⟩, ⟨1, .second, 1, false⟩, "dlq", 1⟩
    let dir : Dir := KeyedTable.empty.putFront
      ⟨"a.json", false, some ⟨bytes "a", 0, bytes "orders", .empty, [1], bytes "timeout"⟩, none⟩
    ∃ faults attempts left acked, left.rows = [] ∧
      replayOnce opts.withDefaults none faults attempts dir = ⟨left, acked, none⟩ := by
  intro opts dir
  have hrun : ((reliable opts fun _ => "").run (initial dir)
      ([.start none, .read none, .publish (.before 0), .publish (.retry (.answer none)),
        .publish (.after 1), .remove none, .addCount, .readCount, .setGauge].map .replay)).map
      (fun t => (t.replay, lastError t.log, t.dir.rows)) = some (.idle, none, []) := by
    decide +kernel
  obtain ⟨t, ht, hfacts⟩ := Option.map_eq_some_iff.mp hrun
  simp only [Prod.mk.injEq] at hfacts
  obtain ⟨faults, attempts, acked, heq, -⟩ :=
    replayOnce_of_run opts _ rfl (by decide) ht hfacts.1
  exact ⟨faults, attempts, t.dir, acked, hfacts.2.2, hfacts.2.1 ▸ heq⟩

end ServiceRuntime.NatsBus
