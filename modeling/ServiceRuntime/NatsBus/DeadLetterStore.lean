import ServiceRuntime.NatsBus.DeadLetter
import ServiceRuntime.Transition.Ledger

/-!
# The Dead-Letter Store and Its Counter

`deadLetterStore` keeps the number of its files in an atomic counter, so that nobody has to read
the directory to know it. At start-up the counter is set by `scanCount`. `Save` adds one after it
has renamed its temporary file, `Delete` subtracts one after it has removed a file: the directory
and the counter never change in one step, and between the two any other call may run.

`NatsBus.Reliable` has the store as the publisher uses it, with a `Save` that shows only when its
file is in place. Here it stands by itself: any number of `Save` and `Delete` calls at once, each
file operation one step that may fail, and the temporary files in the directory where they are. A
process may end at any point, with whatever it leaves behind, and a new one start up on the same
directory. `NatsBus.StoreRefinement` has the publisher follow this store.

Record ids are UUIDs, so a file name is one element of a path and `filepath.Join` has nothing to
clean. `Delete` gets the path of a letter that `List` returned.
-/

namespace ServiceRuntime.NatsBus

open Calendar GoRfc3339 GoStrings Storage Transition

/-! ## File names -/

def nine (n : Nat) : List Char :=
  [digit (n / 100000000), digit (n / 10000000 % 10), digit (n / 1000000 % 10),
    digit (n / 100000 % 10), digit (n / 10000 % 10), digit (n / 1000 % 10), digit (n / 100 % 10),
    digit (n / 10 % 10), digit (n % 10)]

/-- `t.UTC().Format("20060102T150405.000000000Z0700")`. -/
def timestamp (t : Int) : String :=
  let seconds := t / 1000000000
  let date := dateOfDays (seconds / 86400)
  let clock := (seconds % 86400).toNat
  String.ofList (yearText date.year ++ two date.month ++ two date.day ++ ['T'] ++
    two (clock / 3600) ++ two (clock / 60 % 60) ++ two (clock % 60) ++
    ['.'] ++ nine (t % 1000000000).toNat ++ ['Z'])

/-- A record that `json.Marshal` accepts. -/
structure Payload where
  record : RawRecord
  marshals : record.marshal.isSome = true
  deriving DecidableEq

/-- `json.Marshal`, which refuses times that RFC 3339 cannot write. -/
def marshal (record : RawRecord) : Option Payload :=
  if h : record.marshal.isSome = true then some ⟨record, h⟩ else none

namespace Payload

theorem year (payload : Payload) : FourDigitYear payload.record.createdAt :=
  RawRecord.isSome_marshal.mp payload.marshals

def fileName (payload : Payload) : String := payload.record.fileName timestamp

theorem isJson_fileName (payload : Payload) : hasSuffix payload.fileName ".json" = true :=
  hasSuffix_append _ _

theorem hasSuffix_fileName (payload : Payload) :
    hasSuffix payload.fileName ("-" ++ byteText payload.record.id ++ ".json") = true := by
  have hsplit : payload.fileName =
      timestamp payload.record.createdAt ++ ("-" ++ byteText payload.record.id ++ ".json") := by
    rw [fileName, RawRecord.fileName, ← String.append_assoc, ← String.append_assoc]
  rw [hsplit]
  exact hasSuffix_append _ _

theorem length_timestamp (payload : Payload) :
    (timestamp payload.record.createdAt).toList.length = 26 := by
  obtain ⟨hlo, hhi⟩ := payload.year
  obtain ⟨n, hn⟩ : ∃ n : Nat,
      (dateOfDays (payload.record.createdAt / 1000000000 / 86400)).year = n :=
    ⟨_, (Int.toNat_of_nonneg hlo).symm⟩
  simp only [timestamp, String.toList_ofList, hn, List.length_append,
    yearText_of_lt (show n < 10000 by omega)]
  rfl

/-- **Different ids have different file names.** -/
theorem id_eq_of_fileName_eq {p q : Payload} (h : p.fileName = q.fileName) :
    p.record.id = q.record.id := by
  have hlist := congrArg String.toList h
  simp only [fileName, RawRecord.fileName, String.toList_append, List.append_assoc] at hlist
  obtain ⟨-, hrest⟩ := List.append_inj hlist (by rw [p.length_timestamp, q.length_timestamp])
  obtain ⟨-, hrest⟩ := List.append_inj hrest rfl
  exact byteText_injective (String.toList_injective (List.append_cancel_right hrest))

end Payload

/-- The name of a temporary file, with the random part that `os.CreateTemp` chose. -/
def tempName (random : String) : String := "natsbus-dead-letter-" ++ random ++ ".tmp"

theorem not_isJson_tempName (random : String) : hasSuffix (tempName random) ".json" = false :=
  not_hasSuffix_of_getLast? (c := 'p') (d := 'n') (by decide) (by decide) (by decide)

namespace DeadLetterStore

/-! ## The calls -/

inductive SavePhase where
  | marshaling (record : RawRecord)
  | creating (payload : Payload)
  | writing (payload : Payload) (random : String)
  | closing (payload : Payload) (random : String)
  | renaming (payload : Payload) (random : String)
  /-- The file is in place: add to the counter. -/
  | addingCount (random : String)
  /-- The deferred removal of the temporary file; then return `err`. -/
  | cleaning (random : String) (err : Option String)
  | returned (err : Option String)
  deriving DecidableEq

inductive DeletePhase where
  | removing (name : String)
  /-- The file is gone: subtract from the counter. -/
  | subtracting
  | returned (err : Option String)
  deriving DecidableEq

inductive Call where
  | save (phase : SavePhase)
  | delete (phase : DeletePhase)
  deriving DecidableEq

def Call.isReturned : Call → Bool
  | .save (.returned _) => true
  | .delete (.returned _) => true
  | _ => false

/-! ## The system -/

structure Sys where
  dir : Dir
  /-- `deadLetterStore.count`, `none` while there is no store. -/
  count : Option Int
  calls : List Call
  /-- The names of the letters that `List` returned. -/
  listed : List String
  /-- Not part of the program: the ids of all records so far. -/
  ids : List GoString

inductive Action where
  /-- The next operation of the call, failing with `fault`. -/
  | op (fault : Option String)
  /-- `os.CreateTemp` succeeds. -/
  | create (random : String)
  deriving DecidableEq

inductive Event where
  /-- A process starts and calls `newDeadLetterStore`. -/
  | start (baseDir : String) (mkdirFault scanFault : Option String)
  /-- `Save` is called; `clock` and `uuid` are what it reads if it has to fill in. -/
  | save (record : RawRecord) (clock : Int) (uuid : GoString)
  | list
  | delete (name : String)
  | act (i : Nat) (action : Action)

/-- `newDeadLetterStore`: the counter of the new store, or an error. -/
def newDeadLetterStore (baseDir : String) (mkdirFault scanFault : Option String) (dir : Dir) :
    Except String Int :=
  if trimSpace baseDir = "" then .error "dead_letter_dir_required"
  else
    match mkdirFault, scanFault with
    | some err, _ => .error ("create dead-letter dir: " ++ err)
    | none, some err => .error ("scan dead-letter dir: " ++ err)
    | none, none => .ok (Dir.scanCount dir)

/-- `os.Rename` of a temporary file, which is a plain file: in place of the target if there is one,
    unless that is a directory. -/
def renameTemp (dir : Dir) (random name : String) : Option Dir :=
  (dir.find (tempName random)).bind fun temp =>
    if (dir.find name).any File.isDir then none
    else some ((Dir.remove dir (tempName random)).putFront ⟨name, false, temp.content, none⟩)

def Sys.put (s : Sys) (i : Nat) (c : Call) : Sys := { s with calls := s.calls.set i c }

def saveAct (s : Sys) (i : Nat) : SavePhase → Action → Option Sys
  | .marshaling _, .op (some err) =>
    some (s.put i (.save (.returned (some (SaveStage.marshal.failure err)))))
  | .marshaling record, .op none =>
    (marshal record).map fun payload => s.put i (.save (.creating payload))
  | .creating _, .op (some err) =>
    some (s.put i (.save (.returned (some (SaveStage.createTemp.failure err)))))
  -- the name is new: `os.CreateTemp` opens with `O_EXCL`
  | .creating payload, .create random =>
    (s.dir.insert ⟨tempName random, false, none, none⟩).map fun dir =>
      { s with dir := dir }.put i (.save (.writing payload random))
  | .writing _ random, .op (some err) =>
    some (s.put i (.save (.cleaning random (some (SaveStage.write.failure err)))))
  | .writing payload random, .op none =>
    let dir := s.dir.update (tempName random)
      (fun file => { file with content := payload.record.stored }) fun _ => rfl
    some ({ s with dir := dir }.put i (.save (.closing payload random)))
  | .closing _ random, .op (some err) =>
    some (s.put i (.save (.cleaning random (some (SaveStage.close.failure err)))))
  | .closing payload random, .op none => some (s.put i (.save (.renaming payload random)))
  | .renaming _ random, .op (some err) =>
    some (s.put i (.save (.cleaning random (some (SaveStage.rename.failure err)))))
  | .renaming payload random, .op none =>
    (renameTemp s.dir random payload.fileName).map fun dir =>
      { s with dir := dir }.put i (.save (.addingCount random))
  | .addingCount random, .op none =>
    some ({ s with count := s.count.map (· + 1) }.put i (.save (.cleaning random none)))
  -- the error of the removal is ignored; after a rename there is nothing to remove
  | .cleaning _ err, .op (some _) => some (s.put i (.save (.returned err)))
  | .cleaning random err, .op none =>
    some ({ s with dir := Dir.remove s.dir (tempName random) }.put i (.save (.returned err)))
  | _, _ => none

def deleteAct (s : Sys) (i : Nat) : DeletePhase → Action → Option Sys
  | .removing name, .op (some err) =>
    some (s.put i (.delete (.returned (some ("remove dead letter " ++ name ++ ": " ++ err)))))
  | .removing name, .op none =>
    (s.dir.find name).map fun _ =>
      { s with dir := Dir.remove s.dir name }.put i (.delete .subtracting)
  | .subtracting, .op none =>
    some ({ s with count := s.count.map (· - 1) }.put i (.delete (.returned none)))
  | _, _ => none

def step (s : Sys) : Event → Option Sys
  | .start baseDir mkdirFault scanFault =>
    some { s with
      count := (newDeadLetterStore baseDir mkdirFault scanFault s.dir).toOption
      calls := []
      listed := [] }
  | .save record clock uuid =>
    if s.count.isSome then
      let record := record.withDefaults clock uuid
      some { s with calls := s.calls ++ [.save (.marshaling record)], ids := record.id :: s.ids }
    else none
  | .list => some { s with listed := Dir.list s.dir ++ s.listed }
  | .delete name =>
    if s.count.isSome ∧ name ∈ s.listed then
      some { s with calls := s.calls ++ [.delete (.removing name)] }
    else none
  | .act i action => s.calls[i]?.bind fun
    | .save phase => saveAct s i phase action
    | .delete phase => deleteAct s i phase action

/-- The store, on a directory with any content. -/
def deadLetters : System Sys Event where
  init s := s.count = none ∧ s.calls = [] ∧ s.listed = [] ∧ s.ids = []
  step := step

/-- Record ids are unique: no record so far has the new id, and no file is named after it. -/
def UniqueIds (s : Sys) : Event → Prop
  | .save record clock uuid =>
    let id := (record.withDefaults clock uuid).id
    id ∉ s.ids ∧ ∀ file ∈ s.dir.rows, hasSuffix file.name ("-" ++ byteText id ++ ".json") = false
  | _ => True

instance (s : Sys) (e : Event) : Decidable (UniqueIds s e) := by
  unfold UniqueIds
  split
  · infer_instance
  · infer_instance

end DeadLetterStore

end ServiceRuntime.NatsBus
