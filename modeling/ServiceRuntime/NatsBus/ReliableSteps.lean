import ServiceRuntime.NatsBus.Reliable
import ServiceRuntime.Transition.Ledger

/-!
# What a Publisher Step Can Do

`Step` lists the steps of the publisher by what they mean for a message, for the directory and for
the counter. Most of them move a `Publish` call or the replay along without touching files or
acknowledgements; the others are an acknowledgement (of a call or of a replay), a file put in place,
a file removed, and a removal that failed.

Of a call and of the replay only a few things matter here: whether the message has been
acknowledged (`acked`), whether the call has put its file in place (`stored`), which letters the
replay has read and not yet removed (`batch`), and what is still to be done with counter and gauge
(`ledger`). All invariants of the publisher are derived from these shapes, in `NoLoss`,
`DeadLetterGauge`, `DeadLetterOrder` and `StoreRefinement`.
-/

namespace ServiceRuntime.NatsBus

open GoStrings Resilience Storage Transition

/-! ## Acknowledgements inside `publishMessage` -/

def Publishing.acked : Publishing → Bool
  | .entering => false
  | .retrying _ retry => retry.succeeded

def PublishAction.acks : PublishAction → Bool
  | .retry action => action.succeeds
  | _ => false

/-- JetStream has acknowledged the message, when `publishMessage` is left in this way. -/
def PublishResult.acked : PublishResult → Bool
  | .going st => st.acked
  | .returned err => err.isNone

variable {action : PublishAction}

/-- **`publishMessage` tells the truth**: it is left as acknowledged exactly when the message
    was acknowledged before or by this step, and no message is acknowledged twice. -/
theorem Publishing.step_acked {cfg : ReliableSettings} {b b' : Breaker} {st : Publishing}
    {result : PublishResult} (h : st.step cfg b action = some (b', result)) :
    result.acked = (st.acked || action.acks) ∧ (action.acks = true → st.acked = false) := by
  cases st with
  | entering =>
    cases action with
    | before now =>
      simp only [Publishing.step] at h
      split at h
      · cases h
        exact ⟨rfl, fun _ => rfl⟩
      · cases h
        exact ⟨rfl, fun _ => rfl⟩
    | retry | after => cases h
  | retrying wasProbe retry =>
    cases action with
    | before => cases h
    | retry action =>
      obtain ⟨retry', hretry, heq⟩ := Option.map_eq_some_iff.mp h
      cases heq
      -- only an attempt can be acknowledged, and it is the last one
      obtain ⟨hold, hnew⟩ := RetryState.step_succeeded hretry
      refine ⟨?_, fun _ => hold⟩
      simp [PublishResult.acked, acked, PublishAction.acks, hold, hnew]
    | after now =>
      cases retry with
      | returned err =>
        cases h
        cases err with
        | none | some err => exact ⟨rfl, fun hacks => by cases hacks⟩
      | attempting | waiting => cases h

theorem Publishing.step_of_acks {cfg : ReliableSettings} {b b' : Breaker} {st : Publishing}
    {result : PublishResult} (h : st.step cfg b action = some (b', result))
    (hacks : action.acks = true) : ∃ st', result = .going st' ∧ st'.acked = true := by
  have hacked : result.acked = true := by
    rw [(step_acked h).1, hacks, Bool.or_true]
  cases result with
  | going st' => exact ⟨st', rfl, hacked⟩
  | returned err =>
    -- `before` and `after` are the steps that return, and neither is an acknowledgement
    cases action with
    | before | after => cases hacks
    | retry action =>
      cases st with
      | entering => cases h
      | retrying wasProbe retry =>
        obtain ⟨retry', -, heq⟩ := Option.map_eq_some_iff.mp h
        cases heq

theorem Sys.noteAck_of_acks (h : action.acks = true) (s : Sys) (source : Source)
    (message : RawMsg) :
    s.noteAck action source message = s.note (.acked source message) := by
  unfold noteAck
  split
  · rfl
  · rename_i hne
    cases action with
    | retry action =>
      cases action with
      | answer outcome =>
        cases outcome with
        | none => exact absurd rfl hne
        | some err => cases h
      | timer | interrupt => cases h
    | before | after => cases h

theorem Sys.noteAck_of_not_acks (h : action.acks = false) (s : Sys) (source : Source)
    (message : RawMsg) : s.noteAck action source message = s := by
  unfold noteAck
  split
  · cases h
  · rfl

/-! ## What matters of a call and of the replay -/

namespace CallPhase

def acked : CallPhase → Bool
  | .publishing st => st.acked
  | .returned .published => true
  | _ => false

def stored : CallPhase → Bool
  | .addingCount _ => true
  | .readingCount _ => true
  | .settingGauge _ _ => true
  | .returned (.deadLettered _) => true
  | _ => false

def record? : CallPhase → Option RawRecord
  | .saving record _ _ => some record
  | _ => none

/-- Where a `Publish` call stands with counter and gauge. -/
def ledger : CallPhase → Ledger.Stage
  | .addingCount _ => .owing 1
  | .readingCount _ => .added
  | .settingGauge size _ => .holding size
  | _ => .quiet

end CallPhase

theorem PublishResult.acked_callPhase (result : PublishResult) :
    result.callPhase.acked = result.acked := by
  cases result with
  | going st => rfl
  | returned err => cases err <;> rfl

theorem PublishResult.stored_callPhase (result : PublishResult) :
    result.callPhase.stored = false := by
  cases result with
  | going st => rfl
  | returned err => cases err <;> rfl

theorem PublishResult.record?_callPhase (result : PublishResult) :
    result.callPhase.record? = none := by
  cases result with
  | going st => rfl
  | returned err => cases err <;> rfl

theorem PublishResult.ledger_callPhase (result : PublishResult) :
    result.callPhase.ledger = .quiet := by
  cases result with
  | going st => rfl
  | returned err => cases err <;> rfl

namespace Replay

/-- The letters that have been read and whose files have not been removed. -/
def batch : Replay → List StoredDeadLetter
  | .idle => []
  | .listing _ records => records
  | .publishing letter _ rest => letter :: rest
  | .deleting letter rest => letter :: rest
  | .addingCount rest => rest
  | .readingCount rest => rest
  | .settingGauge _ rest => rest

/-- The names of the letters in the batch, and those still to be read. -/
def names : Replay → List String
  | .listing names records => records.map (·.name) ++ names
  | replay => replay.batch.map (·.name)

def acked? : Replay → Option StoredDeadLetter
  | .publishing letter st _ => if st.acked then some letter else none
  | .deleting letter _ => some letter
  | _ => none

def ledger : Replay → Ledger.Stage
  | .addingCount _ => .owing (-1)
  | .readingCount _ => .added
  | .settingGauge size _ => .holding size
  | _ => .quiet

end Replay

/-- The record is the one that `e` makes for the message of call `i`. -/
def Call.Makes (c : Call) (i : Nat) (e : Event) (record : RawRecord) : Prop :=
  ∃ err id now clock uuid, e = .call i (.record id now clock uuid) ∧
    record = (RawRecord.ofMessage c.message (bytes err) id now).withDefaults clock uuid

/-! ## The shapes of a step -/

/-- The steps of the publisher, by what they mean for a message, for the directory and for the
    counter. -/
inductive Step (layout : Int → String) (s : Sys) : Event → Sys → Prop where
  /-- `buildMessage` failed. -/
  | refuse {err : String} : Step layout s (.publish (.error err)) s
  | publish {message : RawMsg} :
      Step layout s (.publish (.ok message))
        { s with calls := s.calls ++ [⟨message, .publishing .entering⟩] }
  | call {e : Event} {i : Nat} {c : Call} {phase : CallPhase} {breaker : Breaker}
      {count gauge : Int} (hc : s.calls[i]? = some c) (hacked : phase.acked = c.phase.acked)
      (hstored : phase.stored = c.phase.stored)
      (hrecord : ∀ record ∈ phase.record?, c.phase.record? = some record ∨ c.Makes i e record)
      (hledger : Ledger.Act (e = .call i .setGauge) s.count s.gauge c.phase.ledger count gauge
        phase.ledger) :
      Step layout s e
        ({ s with breaker := breaker, count := count, gauge := gauge }.put i
          { c with phase := phase })
  /-- JetStream acknowledges the message of a call. -/
  | callAcked {e : Event} {i : Nat} {c : Call} {phase : CallPhase} {breaker : Breaker}
      (hc : s.calls[i]? = some c) (hstored : phase.stored = c.phase.stored)
      (hrecord : phase.record? = none) (hledger : phase.ledger = c.phase.ledger) :
      Step layout s e
        (({ s with breaker := breaker }.put i { c with phase := phase }).note
          (.acked (.publish i) c.message))
  /-- A call puts its dead letter in place. -/
  | saved {e : Event} {i : Nat} {c : Call} {record : RawRecord} {err : String} {dir : Dir}
      (hc : s.calls[i]? = some c) (hphase : c.phase = .saving record .rename err)
      (hmarshal : record.marshal.isSome = true) (hfresh : record.fileName layout ∉ s.used)
      (hinsert : s.dir.insert
        ⟨record.fileName layout, false, some record.afterJSON, some i⟩ = some dir) :
      Step layout s e
        (({ s with dir := dir, used := record.fileName layout :: s.used }.put i
          { c with phase := .addingCount err }).note (.saved i (record.fileName layout)))
  | replay (new : List Entry) {e : Event} {replay : Replay} {breaker : Breaker} {count gauge : Int}
      (hbatch : ∀ letter ∈ replay.batch, letter ∈ s.replay.batch ∨ letter.IsIn s.dir)
      (hnodup : s.replay.names.Nodup → replay.names.Nodup)
      (hnames : ∀ name ∈ replay.names, name ∈ s.replay.names ∨ name ∈ Dir.list s.dir)
      (hacked : replay.acked? = s.replay.acked?)
      (hledger : Ledger.Act (e = .replay .setGauge) s.count s.gauge s.replay.ledger count gauge
        replay.ledger)
      (hnew : ∀ e ∈ new, ∃ err, e = .replayReturned err) :
      Step layout s e
        { s with breaker := breaker, count := count, gauge := gauge, replay := replay,
                 log := new ++ s.log }
  /-- JetStream acknowledges the letter that is being replayed. -/
  | replayAcked {e : Event} {letter : StoredDeadLetter} {replay : Replay} {breaker : Breaker}
      (hletter : letter ∈ s.replay.batch) (hnone : s.replay.acked? = none)
      (hbatch : replay.batch = s.replay.batch) (hnames : replay.names = s.replay.names)
      (hacked : replay.acked? = some letter) (hledger : replay.ledger = s.replay.ledger) :
      Step layout s e
        ({ s with breaker := breaker, replay := replay }.note
          (.acked (.replay letter.name) letter.record.message))
  | removed {e : Event} {letter : StoredDeadLetter} {rest : List StoredDeadLetter} {file : File}
      (hreplay : s.replay = .deleting letter rest) (hfile : s.dir.find letter.name = some file) :
      Step layout s e { s with dir := Dir.remove s.dir letter.name, replay := .addingCount rest }
  | deleteFailed {e : Event} {letter : StoredDeadLetter} {rest : List StoredDeadLetter}
      {err : String} (hreplay : s.replay = .deleting letter rest) :
      Step layout s e (failReplay (s.note (.deleteFailed letter.name)) err)

/-! ## Inversion -/

section

variable {cfg : ReliableSettings} {layout : Int → String} {s s' : Sys} {e : Event}

theorem rename_eq_some {i : Nat} {c : Call} {record : RawRecord} {err : String}
    (hmarshal : record.marshal.isSome = true) (h : rename layout s i c record err = some s') :
    record.fileName layout ∉ s.used ∧ ∃ dir,
      s.dir.insert ⟨record.fileName layout, false, some record.afterJSON, some i⟩ = some dir ∧
      ({ s with dir := dir, used := record.fileName layout :: s.used }.put i
        { c with phase := .addingCount err }).note (.saved i (record.fileName layout)) = s' := by
  unfold rename at h
  simp only [record.stored_of_marshal hmarshal] at h
  split at h
  · cases h
  · rename_i hfresh
    exact ⟨hfresh, Option.map_eq_some_iff.mp h⟩

theorem Step.of_callAct {i : Nat} {c : Call} {action : CallAction} (hc : s.calls[i]? = some c)
    (h : callAct cfg layout s i c action = some s') : Step layout s (.call i action) s' := by
  unfold callAct at h
  split at h
  case h_1 st action hphase =>
    obtain ⟨⟨b, result⟩, hstep, rfl⟩ := Option.map_eq_some_iff.mp h
    obtain ⟨hacked, -⟩ := Publishing.step_acked hstep
    show Step layout s _ (Sys.noteAck _ action _ _)
    have hstored : result.callPhase.stored = c.phase.stored := by
      rw [result.stored_callPhase, hphase]
      rfl
    have hledger : result.callPhase.ledger = c.phase.ledger := by
      rw [result.ledger_callPhase, hphase]
      rfl
    -- the step is logged exactly when it is JetStream's acknowledgement
    cases hacks : action.acks with
    | true =>
      rw [Sys.noteAck_of_acks hacks]
      exact .callAcked hc hstored result.record?_callPhase hledger
    | false =>
      rw [Sys.noteAck_of_not_acks hacks]
      refine .call hc ?_ hstored ?_ (hledger ▸ .still)
      · rw [result.acked_callPhase, hacked, hacks, Bool.or_false, hphase]
        rfl
      · simp [result.record?_callPhase]
  case h_2 err id now clock uuid hphase =>
    -- the publish has failed: the record is made
    cases h
    refine .call hc (hphase ▸ rfl) (hphase ▸ rfl) ?_ (hphase ▸ .still)
    rintro record ⟨⟩
    exact .inr ⟨err, id, now, clock, uuid, rfl, rfl⟩
  case h_3 record stage err fault hphase =>
    split at h
    · cases h
      exact .call hc (hphase ▸ rfl) (hphase ▸ rfl) (by simp [CallPhase.record?]) (hphase ▸ .still)
    · split at h
      · rename_i hmarshal
        -- only the last stage of `Save`, the rename, makes the file visible
        cases stage with
        | rename =>
          obtain ⟨hfresh, dir, hinsert, rfl⟩ := rename_eq_some hmarshal h
          exact .saved hc hphase hmarshal hfresh hinsert
        | marshal | createTemp | write | close =>
          cases h
          refine .call hc (hphase ▸ rfl) (hphase ▸ rfl) ?_ (hphase ▸ .still)
          simp [CallPhase.record?, hphase]
      · cases h
  -- `count.Add`, then `count.Load`, then the gauge, in three steps
  case h_4 err hphase =>
    cases h
    exact .call hc (hphase ▸ rfl) (hphase ▸ rfl) (by simp [CallPhase.record?]) (hphase ▸ .add)
  case h_5 err hphase =>
    cases h
    exact .call hc (hphase ▸ rfl) (hphase ▸ rfl) (by simp [CallPhase.record?]) (hphase ▸ .read)
  case h_6 size err hphase =>
    cases h
    exact .call hc (hphase ▸ rfl) (hphase ▸ rfl) (by simp [CallPhase.record?])
      (hphase ▸ .publish rfl)
  case h_7 => cases h

theorem Step.of_nextLetter {letters : List StoredDeadLetter} {gauge : Int}
    (hbatch : ∀ letter ∈ letters, letter ∈ s.replay.batch ∨ letter.IsIn s.dir)
    (hnodup : s.replay.names.Nodup → (letters.map (·.name)).Nodup)
    (hnames : ∀ name ∈ letters.map (·.name), name ∈ s.replay.names ∨ name ∈ Dir.list s.dir)
    (hacked : s.replay.acked? = none)
    (hledger : Ledger.Act (e = .replay .setGauge) s.count s.gauge s.replay.ledger s.count gauge
      .quiet) :
    Step layout s e (nextLetter { s with gauge := gauge } letters) := by
  cases letters with
  | nil =>
    exact .replay [.replayReturned none] (fun _ hletter => (by cases hletter))
      (fun _ => List.nodup_nil) hnames hacked.symm hledger (by simp)
  | cons letter rest => exact .replay [] hbatch hnodup hnames (hacked ▸ rfl) hledger (by simp)

theorem Step.of_failReplay (breaker : Breaker) (err : String) (hacked : s.replay.acked? = none)
    (hquiet : s.replay.ledger = .quiet) :
    Step layout s e (failReplay { s with breaker := breaker } err) :=
  .replay [.replayReturned (some err)] (fun _ hletter => (by cases hletter))
    (fun _ => List.nodup_nil) (fun _ hname => (by cases hname)) hacked.symm (hquiet ▸ .still)
    (by simp)

variable {rest records : List StoredDeadLetter} {letter : StoredDeadLetter}

theorem Step.of_keepListing {names : List String}
    (hbatch : ∀ letter ∈ records, letter ∈ s.replay.batch ∨ letter.IsIn s.dir)
    (hnodup : s.replay.names.Nodup → (records.map (·.name) ++ names).Nodup)
    (hnames : ∀ name ∈ records.map (·.name) ++ names,
      name ∈ s.replay.names ∨ name ∈ Dir.list s.dir) (hacked : s.replay.acked? = none)
    (hquiet : s.replay.ledger = .quiet) : Step layout s e (keepListing cfg s names records) := by
  unfold keepListing
  split
  · exact .of_nextLetter hbatch (fun h => (List.nodup_append.mp (hnodup h)).1)
      (fun name hname => hnames name (List.mem_append_left _ hname)) hacked (hquiet ▸ .still)
  · exact .replay [] hbatch hnodup hnames (hacked ▸ rfl) (hquiet ▸ .still) (by simp)

theorem isIn_of_readRecord {fault : Option String} {dir : Dir} {name : String}
    (h : readRecord cfg fault dir name = .ok letter) : letter.name = name ∧ letter.IsIn dir := by
  unfold readRecord at h
  split at h
  · cases h
  · cases h
  · rename_i file hfile
    obtain ⟨hmem, hname⟩ := KeyedTable.find_eq_some_iff.mp hfile
    split at h
    · cases h
    · rename_i record hcontent
      cases h
      exact ⟨rfl, file, hmem, hname, hcontent⟩

theorem Step.of_readLetter {name : String} {names : List String} (fault : Option String)
    (hreplay : s.replay = .listing (name :: names) records) :
    Step layout s e (readLetter cfg s name names records fault) := by
  have hacked : s.replay.acked? = none := hreplay ▸ rfl
  have hquiet : s.replay.ledger = .quiet := hreplay ▸ rfl
  unfold readLetter
  split
  · exact .of_failReplay s.breaker _ hacked hquiet
  · rename_i read hread
    obtain ⟨hname, hin⟩ := isIn_of_readRecord hread
    -- the name moves from those to be read to those that have been read
    have hsame : (records ++ [read]).map (·.name) ++ names = s.replay.names := by
      simp [hreplay, Replay.names, hname]
    refine .of_keepListing ?_ (fun h => hsame ▸ h) (fun n hn => .inl (hsame ▸ hn)) hacked hquiet
    intro letter hletter
    rcases List.mem_append.mp hletter with hold | hnew
    · left
      rw [hreplay]
      exact hold
    · right
      rw [List.mem_singleton.mp hnew]
      exact hin

theorem Step.of_removeLetter (fault : Option String) (hreplay : s.replay = .deleting letter rest) :
    Step layout s e (removeLetter cfg s letter rest fault) := by
  unfold removeLetter
  split
  · rename_i file hfile
    exact .removed hreplay hfile
  · exact .deleteFailed hreplay
  · exact .deleteFailed hreplay

theorem Step.of_sameBatch {replay : Replay} (breaker : Breaker) {count gauge : Int}
    (hbatch : replay.batch = s.replay.batch) (hnames : replay.names = s.replay.names)
    (hacked : replay.acked? = s.replay.acked?)
    (hledger : Ledger.Act (e = .replay .setGauge) s.count s.gauge s.replay.ledger count gauge
      replay.ledger) :
    Step layout s e
      { s with breaker := breaker, count := count, gauge := gauge, replay := replay } :=
  .replay [] (fun _ hletter => .inl (hbatch ▸ hletter)) (fun h => hnames ▸ h)
    (fun _ hname => .inl (hnames ▸ hname)) hacked hledger (by simp)

theorem Step.of_afterPublish {st : Publishing} {result : PublishResult} (breaker : Breaker)
    (hreplay : s.replay = .publishing letter st rest) (hacked : result.acked = st.acked) :
    Step layout s e (afterPublish { s with breaker := breaker } letter rest result) := by
  have hold : s.replay.acked? = if result.acked then some letter else none := by
    rw [hreplay, hacked]
    rfl
  have hquiet : s.replay.ledger = .quiet := hreplay ▸ rfl
  cases result with
  | going st' =>
    exact .of_sameBatch breaker (hreplay ▸ rfl) (hreplay ▸ rfl) hold.symm (hquiet ▸ .still)
  | returned err =>
    cases err with
    | none =>
      exact .of_sameBatch breaker (hreplay ▸ rfl) (hreplay ▸ rfl) hold.symm (hquiet ▸ .still)
    | some err => exact .of_failReplay breaker _ hold hquiet

theorem Step.of_replayAct {action : ReplayAction} (h : replayAct cfg s action = some s') :
    Step layout s (.replay action) s' := by
  unfold replayAct at h
  split at h
  case h_1 fault hreplay =>
    have hacked : s.replay.acked? = none := hreplay ▸ rfl
    have hquiet : s.replay.ledger = .quiet := hreplay ▸ rfl
    split at h
    · cases h
      exact .of_failReplay s.breaker _ hacked hquiet
    -- the names come from the directory, and later from the list itself
    · cases h
      exact .of_keepListing (fun _ hletter => (by cases hletter)) (fun _ => Dir.nodup_list s.dir)
        (fun _ hname => .inr hname) hacked hquiet
  case h_2 name names records fault hreplay =>
    cases h
    exact .of_readLetter fault hreplay
  case h_3 letter st rest action hreplay =>
    obtain ⟨⟨b, result⟩, hstep, rfl⟩ := Option.map_eq_some_iff.mp h
    obtain ⟨hacked, hfirst⟩ := Publishing.step_acked hstep
    show Step layout s _ (Sys.noteAck _ action _ _)
    cases hacks : action.acks with
    | true =>
      -- an acknowledged attempt never returns in the same step, so the letter is still there
      rw [Sys.noteAck_of_acks hacks]
      obtain ⟨st', rfl, hst'⟩ := Publishing.step_of_acks hstep hacks
      refine .replayAcked ?_ ?_ (hreplay ▸ rfl) (hreplay ▸ rfl) ?_ (hreplay ▸ rfl)
      · rw [hreplay]
        exact List.mem_cons_self
      · rw [hreplay, Replay.acked?, hfirst hacks]
        rfl
      · rw [Replay.acked?, hst']
        rfl
    | false =>
      rw [Sys.noteAck_of_not_acks hacks]
      refine .of_afterPublish b hreplay ?_
      rw [hacked, hacks, Bool.or_false]
  case h_4 letter rest fault hreplay =>
    cases h
    exact .of_removeLetter fault hreplay
  -- `count.Add(-1)`, then `count.Load`, then the gauge; then the next letter
  case h_5 rest hreplay =>
    cases h
    exact .of_sameBatch _ (hreplay ▸ rfl) (hreplay ▸ rfl) (hreplay ▸ rfl) (hreplay ▸ .add)
  case h_6 rest hreplay =>
    cases h
    exact .of_sameBatch _ (hreplay ▸ rfl) (hreplay ▸ rfl) (hreplay ▸ rfl) (hreplay ▸ .read)
  case h_7 size rest hreplay =>
    cases h
    have hnames : s.replay.names = rest.map (·.name) := hreplay ▸ rfl
    refine .of_nextLetter (fun letter hletter => .inl ?_) (fun h => hnames ▸ h)
      (fun _ hname => .inl (hnames ▸ hname)) (hreplay ▸ rfl) (hreplay ▸ .publish rfl)
    rw [hreplay]
    exact hletter
  case h_8 => cases h

theorem Step.of_step (h : step cfg layout s e = some s') : Step layout s e s' := by
  cases e with
  | publish built =>
    cases built with
    | error err =>
      cases h
      exact .refuse
    | ok message =>
      cases h
      exact .publish
  | call i action =>
    obtain ⟨c, hc, hact⟩ := Option.bind_eq_some_iff.mp h
    exact .of_callAct hc hact
  | replay action => exact .of_replayAct h

end

end ServiceRuntime.NatsBus
