import ServiceRuntime.Transition.System
import ServiceRuntime.Resilience.Breaker
import ServiceRuntime.Resilience.Retry
import ServiceRuntime.NatsBus.DeadLetter

/-!
# The Reliable Publisher

`ReliablePublisher` puts a retry loop inside a circuit breaker around JetStream, writes what
cannot be published to the dead-letter directory, and replays that directory. Any number of
`Publish` calls run at once, and beside them at most one `replayOnce`, since it holds
`replayMu`. They share the breaker, the directory, the counter of dead letters and its gauge.

Each of the following is one atomic step of a goroutine, and the steps of different
goroutines interleave in every order:

- a critical section of the breaker (`before`, `after`)
- an answer of JetStream, the end of a wait between attempts
- a file operation, successful or not
- an update of the counter, a reading of it, an update of the gauge

The messages are those of `NatsBus.DeadLetterCodec`, whose strings may be of any bytes. A dead letter
goes through JSON before it gets into its file, so the message that a replay publishes is the one
that was read from the file, not the one that failed.

The system keeps a log of what happened, newest first, which no step reads.
-/

namespace ServiceRuntime.NatsBus

open GoStrings Resilience Storage Transition

/-! ## Options -/

/-- `ReliableOptions`, without what only concerns connections, metrics and timers. -/
structure ReliableOptions where
  retry : RetryConfig
  breaker : BreakerConfig
  deadLetterDir : String
  replayBatchSize : Int

/-- Options after `withDefaults`, of the publisher and of its parts. -/
structure ReliableSettings where
  retry : RetrySettings
  breaker : Settings
  deadLetterDir : String
  replayBatchSize : Int
  replayBatchSize_pos : 1 ≤ replayBatchSize

def defaultReplayBatchSize : Int := 10

def ReliableOptions.withDefaults (opts : ReliableOptions) : ReliableSettings where
  retry := opts.retry.withDefaults
  breaker := opts.breaker.withDefaults
  deadLetterDir := GoStrings.trimSpace opts.deadLetterDir
  replayBatchSize :=
    if opts.replayBatchSize < 1 then defaultReplayBatchSize else opts.replayBatchSize
  replayBatchSize_pos := by
    split
    · decide
    · omega

def ReliableSettings.path (cfg : ReliableSettings) (name : String) : String :=
  cfg.deadLetterDir ++ "/" ++ name

/-! ## `publishMessage` -/

def errorText : BreakerError → String
  | .errCircuitOpen => "circuit_open"

/-- Inside `publishMessage`: `Breaker.Do` around `Retry` around `PublishMsg`. -/
inductive Publishing where
  /-- About to run `before`. -/
  | entering
  /-- Let in by the breaker; when `Retry` has returned, `after` is next. -/
  | retrying (wasProbe : Bool) (retry : RetryState)
  deriving DecidableEq

inductive PublishAction where
  | before (now : Int)
  /-- JetStream answers, or a wait ends. -/
  | retry (action : RetryAction)
  | after (now : Int)
  deriving DecidableEq

inductive PublishResult where
  | going (st : Publishing)
  | returned (err : Option String)
  deriving DecidableEq

/-- One step of `publishMessage`, on the shared breaker `b`. -/
def Publishing.step (cfg : ReliableSettings) (b : Breaker) :
    Publishing → PublishAction → Option (Breaker × PublishResult)
  | .entering, .before now =>
    match b.before cfg.breaker now with
    | (b', _, .error err) => some (b', .returned (some (errorText err)))
    | (b', _, .ok wasProbe) => some (b', .going (.retrying wasProbe (.attempting 0)))
  | .retrying wasProbe retry, .retry action =>
    (retry.step cfg.retry action).map fun retry' => (b, .going (.retrying wasProbe retry'))
  | .retrying wasProbe (.returned err), .after now =>
    let text := err.map RetryError.text
    some ((b.after cfg.breaker now wasProbe text).1, .returned text)
  | _, _ => none

/-! ## `Publish` -/

inductive Outcome where
  /-- `nil` -/
  | published
  /-- Publishing failed with `publishErr` and the message was saved. -/
  | deadLettered (publishErr : String)
  /-- Publishing failed with `publishErr`, and saving the message with `saveErr`. -/
  | persistFailed (publishErr saveErr : String)
  deriving DecidableEq

/-- The text of the error, for a message on `subject`. -/
def Outcome.error (subject : GoString) : Outcome → Option GoString
  | .published => none
  | .deadLettered publishErr =>
    some (bytes "publish " ++ subject ++
      bytes (" failed after retries and was dead-lettered: " ++ publishErr))
  | .persistFailed publishErr saveErr =>
    some (bytes "publish " ++ subject ++
      bytes (" failed: " ++ publishErr ++ "; persist dead letter: " ++ saveErr))

/-- Where a `Publish` call is, once its message has been built. -/
inductive CallPhase where
  | publishing (st : Publishing)
  /-- `publishMessage` returned `err`: enter `handleDeadLetter`. -/
  | failed (err : String)
  /-- In `Save`, before the operation of `stage`. -/
  | saving (record : RawRecord) (stage : SaveStage) (err : String)
  /-- The file is in place: add to the counter. -/
  | addingCount (err : String)
  | readingCount (err : String)
  | settingGauge (size : Int) (err : String)
  | returned (outcome : Outcome)
  deriving DecidableEq

/-- A `Publish` call whose `buildMessage` succeeded. -/
structure Call where
  message : RawMsg
  phase : CallPhase
  deriving DecidableEq

inductive CallAction where
  | publish (action : PublishAction)
  /-- Make the record; `clock` and `uuid` are what `Save` reads if it has to fill in. -/
  | record (id : GoString) (now clock : Int) (uuid : GoString)
  /-- The next operation of `Save`, failing with `fault`. -/
  | save (fault : Option String)
  | addCount
  | readCount
  | setGauge
  deriving DecidableEq

/-! ## `replayOnce` -/

/-- The goroutine that holds `replayMu`, if any. -/
inductive Replay where
  | idle
  /-- In `List`: `names` are still to be read, `records` have been. -/
  | listing (names : List String) (records : List StoredDeadLetter)
  /-- In `publishMessage` for `letter`; `rest` comes after it. -/
  | publishing (letter : StoredDeadLetter) (st : Publishing) (rest : List StoredDeadLetter)
  /-- `letter` has been published: remove its file. -/
  | deleting (letter : StoredDeadLetter) (rest : List StoredDeadLetter)
  /-- The file is gone: subtract from the counter. -/
  | addingCount (rest : List StoredDeadLetter)
  | readingCount (rest : List StoredDeadLetter)
  | settingGauge (size : Int) (rest : List StoredDeadLetter)
  deriving DecidableEq

inductive ReplayAction where
  /-- Take `replayMu` and read the directory. -/
  | start (fault : Option String)
  | read (fault : Option String)
  | publish (action : PublishAction)
  | remove (fault : Option String)
  | addCount
  | readCount
  | setGauge
  deriving DecidableEq

/-! ## The system -/

/-- Who sent a message to JetStream: a `Publish` call, or the replay of a file. -/
inductive Source where
  | publish (i : Nat)
  | replay (name : String)
  deriving DecidableEq

/-- What happened, for the record. -/
inductive Entry where
  | acked (source : Source) (message : RawMsg)
  /-- The dead letter of call `i` was put in place under `name`. -/
  | saved (i : Nat) (name : String)
  /-- A replay failed to remove the file `name`. -/
  | deleteFailed (name : String)
  | replayReturned (err : Option String)
  deriving DecidableEq

structure Sys where
  breaker : Breaker
  dir : Dir
  /-- `deadLetterStore.count` -/
  count : Int
  /-- `natsbus_dead_letter_size` -/
  gauge : Int
  /-- All `Publish` calls so far; a call is named by its position. -/
  calls : List Call
  replay : Replay
  /-- Not part of the program: all file names so far. -/
  used : List String
  log : List Entry

inductive Event where
  /-- `Publish` is called and `buildMessage` returns. -/
  | publish (built : Except String RawMsg)
  | call (i : Nat) (action : CallAction)
  | replay (action : ReplayAction)

namespace Sys

def put (s : Sys) (i : Nat) (c : Call) : Sys := { s with calls := s.calls.set i c }

def note (s : Sys) (e : Entry) : Sys := { s with log := e :: s.log }

def noteAck (s : Sys) (action : PublishAction) (source : Source) (message : RawMsg) : Sys :=
  match action with
  | .retry (.answer none) => s.note (.acked source message)
  | _ => s

end Sys

/-- The phase of a call after a step of its `publishMessage`. -/
def PublishResult.callPhase : PublishResult → CallPhase
  | .going st => .publishing st
  | .returned none => .returned .published
  | .returned (some err) => .failed err

/-- `os.Rename` of a finished temporary file, which holds the record as JSON. File names are unique:
    a name that has been in the directory is not used again. -/
def rename (layout : Int → String) (s : Sys) (i : Nat) (c : Call) (record : RawRecord)
    (err : String) : Option Sys :=
  let name := record.fileName layout
  if name ∈ s.used then none
  else
    (s.dir.insert ⟨name, false, record.stored, some i⟩).map fun dir =>
      ({ s with dir := dir, used := name :: s.used }.put i
        { c with phase := .addingCount err }).note (.saved i name)

def callAct (cfg : ReliableSettings) (layout : Int → String) (s : Sys) (i : Nat) (c : Call)
    (action : CallAction) : Option Sys :=
  match c.phase, action with
  | .publishing st, .publish action =>
    (st.step cfg s.breaker action).map fun (b, result) =>
      ({ s with breaker := b }.put i { c with phase := result.callPhase }).noteAck action
        (.publish i) c.message
  | .failed err, .record id now clock uuid =>
    let record := (RawRecord.ofMessage c.message (bytes err) id now).withDefaults clock uuid
    some (s.put i { c with phase := .saving record .marshal err })
  | .saving record stage err, .save fault =>
    match fault with
    | some saveErr =>
      some (s.put i
        { c with phase := .returned (.persistFailed err (stage.failure saveErr)) })
    | none =>
      -- what `json.Marshal` refuses does not get beyond the first stage
      if record.marshal.isSome then
        match stage.next with
        -- a stage before the rename touches only the temporary file
        | some stage' => some (s.put i { c with phase := .saving record stage' err })
        | none => rename layout s i c record err
      else none
  | .addingCount err, .addCount =>
    some ({ s with count := s.count + 1 }.put i { c with phase := .readingCount err })
  -- `Count` and `Set` are two operations: the gauge may get a count that has since changed
  | .readingCount err, .readCount =>
    some (s.put i { c with phase := .settingGauge s.count err })
  | .settingGauge size err, .setGauge =>
    some ({ s with gauge := size }.put i { c with phase := .returned (.deadLettered err) })
  | _, _ => none

/-- `replayOnce` goes on with the next record, or returns `nil`. -/
def nextLetter (s : Sys) : List StoredDeadLetter → Sys
  | [] => { s with replay := .idle }.note (.replayReturned none)
  | letter :: rest => { s with replay := .publishing letter .entering rest }

def failReplay (s : Sys) (err : String) : Sys :=
  { s with replay := .idle }.note (.replayReturned (some err))

/-- `List` goes on with the next name, unless there is none or the limit is reached. -/
def keepListing (cfg : ReliableSettings) (s : Sys) (names : List String)
    (records : List StoredDeadLetter) : Sys :=
  if names = [] ∨ cfg.replayBatchSize ≤ records.length then nextLetter s records
  else { s with replay := .listing names records }

/-- `os.ReadFile`, failing with `fault`, and `json.Unmarshal` for one name. -/
def readRecord (cfg : ReliableSettings) (fault : Option String) (dir : Dir) (name : String) :
    Except String StoredDeadLetter :=
  match fault, dir.find name with
  | some err, _ => .error ("read dead letter " ++ cfg.path name ++ ": " ++ err)
  | none, none =>
    .error ("read dead letter " ++ cfg.path name ++ ": no such file or directory")
  | none, some file =>
    match file.content with
    | none => .error ("decode dead letter " ++ cfg.path name ++ ": invalid JSON")
    | some record => .ok ⟨record, name⟩

/-- `List` reads the file of one name. -/
def readLetter (cfg : ReliableSettings) (s : Sys) (name : String) (names : List String)
    (records : List StoredDeadLetter) (fault : Option String) : Sys :=
  match readRecord cfg fault s.dir name with
  | .error err => failReplay s err
  | .ok record => keepListing cfg s names (records ++ [record])

/-- Where a step of `publishMessage` leaves `replayOnce`. -/
def afterPublish (s : Sys) (letter : StoredDeadLetter) (rest : List StoredDeadLetter) :
    PublishResult → Sys
  | .going st => { s with replay := .publishing letter st rest }
  | .returned none => { s with replay := .deleting letter rest }
  | .returned (some err) => failReplay s ("replay dead letter " ++ letter.name ++ ": " ++ err)

/-- `Delete`, up to the update of the counter. -/
def removeLetter (cfg : ReliableSettings) (s : Sys) (letter : StoredDeadLetter)
    (rest : List StoredDeadLetter) (fault : Option String) : Sys :=
  match fault, s.dir.find letter.name with
  | none, some _ =>
    { s with dir := Dir.remove s.dir letter.name, replay := .addingCount rest }
  | none, none =>
    failReplay (s.note (.deleteFailed letter.name))
      ("remove dead letter " ++ cfg.path letter.name ++ ": no such file or directory")
  | some err, _ =>
    failReplay (s.note (.deleteFailed letter.name))
      ("remove dead letter " ++ cfg.path letter.name ++ ": " ++ err)

def replayAct (cfg : ReliableSettings) (s : Sys) (action : ReplayAction) : Option Sys :=
  match s.replay, action with
  | .idle, .start fault =>
    match fault with
    | some err => some (failReplay s ("list dead letters: " ++ err))
    | none => some (keepListing cfg s (Dir.list s.dir) [])
  -- the names were read at once; a file is read only when its turn comes
  | .listing (name :: names) records, .read fault =>
    some (readLetter cfg s name names records fault)
  | .publishing letter st rest, .publish action =>
    (st.step cfg s.breaker action).map fun (b, result) =>
      (afterPublish { s with breaker := b } letter rest result).noteAck action
        (.replay letter.name) letter.record.message
  | .deleting letter rest, .remove fault => some (removeLetter cfg s letter rest fault)
  | .addingCount rest, .addCount =>
    some { s with count := s.count - 1, replay := .readingCount rest }
  | .readingCount rest, .readCount =>
    some { s with replay := .settingGauge s.count rest }
  | .settingGauge size rest, .setGauge => some (nextLetter { s with gauge := size } rest)
  | _, _ => none

def step (cfg : ReliableSettings) (layout : Int → String) (s : Sys) : Event → Option Sys
  -- the error of `buildMessage` is returned at once
  | .publish (.error _) => some s
  | .publish (.ok message) =>
    some { s with calls := s.calls ++ [⟨message, .publishing .entering⟩] }
  | .call i action => (s.calls[i]?).bind fun c => callAct cfg layout s i c action
  | .replay action => replayAct cfg s action

/-- `NewReliablePublisher` over a directory with any content. -/
def initial (dir : Dir) : Sys where
  breaker := newBreaker
  dir := dir
  count := Dir.scanCount dir
  gauge := Dir.scanCount dir
  calls := []
  replay := .idle
  used := dir.rows.map File.name
  log := []

/-- The publisher with options `opts`, started on any directory whose files are not of this
    run. -/
def reliable (opts : ReliableOptions) (layout : Int → String) : System Sys Event where
  init s := ∃ dir : Dir, (∀ file ∈ dir.rows, file.origin = none) ∧ s = initial dir
  step := step opts.withDefaults layout

end ServiceRuntime.NatsBus
