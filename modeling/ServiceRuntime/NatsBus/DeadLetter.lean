import ServiceRuntime.NatsBus.DeadLetterCodec

/-!
# Dead Letters

A message that could not be published is kept in a file of the dead-letter directory until
a replay publishes it. This module has the directory and the parts of `deadLetterStore` that do
not depend on anything else: how a record is named, which files `List` picks and in which order,
and how `Save` fails. What is in the files is the matter of `NatsBus.DeadLetterCodec`.

A file is represented by what its content decodes to. The content of a file that `Save` has written
decodes to the record after it has been in JSON (`RawRecord.stored`), which need not be the record.
-/

namespace ServiceRuntime.NatsBus

open GoStrings Storage

/-! ## File names -/

/-- A string of bytes with one character for each. Ids are UUIDs, so this is the id as it stands in
    the name of a file. -/
def byteText (bs : GoString) : String := String.ofList (bs.map fun b => Char.ofNat b.toNat)

theorem toNat_byteChar (b : UInt8) : (Char.ofNat b.toNat).toNat = b.toNat := by
  rw [Char.ofNat, dif_pos (Or.inl (b.toNat_lt.trans (by decide)))]
  rfl

theorem byteText_injective : Function.Injective byteText := by
  intro a b h
  refine List.map_injective_iff.mpr (fun x y hxy => ?_) (String.ofList_injective h)
  have hnat := congrArg Char.toNat hxy
  rwa [toNat_byteChar, toNat_byteChar, UInt8.toNat_inj] at hnat

/-- The name `Save` gives to the file; `layout` is `Format` with the layout of the source. -/
def RawRecord.fileName (layout : Int → String) (record : RawRecord) : String :=
  layout record.createdAt ++ "-" ++ byteText record.id ++ ".json"

/-! ## The stages of `Save` -/

/-- What `Save` does, one fallible operation after the other. -/
inductive SaveStage where
  | marshal
  | createTemp
  | write
  | close
  | rename
  deriving DecidableEq

namespace SaveStage

/-- The stage after a successful one, `none` after the last. -/
def next : SaveStage → Option SaveStage
  | marshal => some createTemp
  | createTemp => some write
  | write => some close
  | close => some rename
  | rename => none

/-- The error of `Save` when the operation of a stage fails with `err`. -/
def failure (err : String) : SaveStage → String
  | marshal => "marshal dead letter: " ++ err
  | createTemp => "create dead-letter temp file: " ++ err
  | write => "write dead-letter temp file: " ++ err
  | close => "close dead-letter temp file: " ++ err
  | rename => "finalize dead-letter file: " ++ err

end SaveStage

/-! ## The directory -/

structure File where
  name : String
  isDir : Bool
  /-- The record that the content decodes to, `none` if it does not decode. -/
  content : Option RawRecord
  /-- Not part of the file: the `Publish` call that saved it, if it was one of ours. -/
  origin : Option Nat
  deriving DecidableEq

/-- The directory; names are unique. -/
abbrev Dir := KeyedTable File File.name

/-- The entries that `List` and `scanCount` look at. -/
def File.isDeadLetter (file : File) : Bool := !file.isDir && hasSuffix file.name ".json"

def File.Holds (file : File) (message : RawMsg) : Prop :=
  ∃ record, file.content = some record ∧ record.message.Same message

namespace Dir

/-- `List`, up to the point where it starts to read: the names of the dead letters in order. -/
def list (dir : Dir) : List String :=
  ((dir.rows.insertionSort fun a b => a.name ≤ b.name).filter File.isDeadLetter).map File.name

def scanCount (dir : Dir) : Int := (dir.rows.filter File.isDeadLetter).length

def remove (dir : Dir) (name : String) : Dir := dir.keepWhere fun file => file.name ≠ name

theorem nodup_list (dir : Dir) : dir.list.Nodup := by
  have hperm : (dir.rows.insertionSort fun a b => a.name ≤ b.name).Perm dir.rows :=
    List.perm_insertionSort _ _
  have hnodup : ((dir.rows.insertionSort fun a b => a.name ≤ b.name).map File.name).Nodup :=
    (hperm.map File.name).nodup_iff.mpr dir.unique
  exact hnodup.sublist (List.filter_sublist.map File.name)

variable {dir : Dir} {name : String} {file : File}

theorem mem_remove : file ∈ (dir.remove name).rows ↔ file ∈ dir.rows ∧ file.name ≠ name := by
  simp [remove, KeyedTable.mem_keepWhere]

theorem scanCount_cons {dir' : Dir} (h : dir'.rows = file :: dir.rows) :
    dir'.scanCount = dir.scanCount + if file.isDeadLetter then 1 else 0 := by
  rw [scanCount, scanCount, h]
  cases hletter : file.isDeadLetter with
  | true =>
    rw [List.filter_cons_of_pos hletter, List.length_cons]
    rfl
  | false =>
    rw [List.filter_cons_of_neg (by rw [hletter]; decide)]
    exact (Int.add_zero _).symm

theorem scanCount_remove (h : file ∈ dir.rows) (hletter : file.isDeadLetter = true) :
    (dir.remove file.name).scanCount = dir.scanCount - 1 := by
  obtain ⟨before, after, hrows⟩ := List.append_of_mem h
  have hremoved : (dir.remove file.name).rows = before ++ after := by
    have hunique := dir.unique
    rw [hrows] at hunique
    change dir.rows.filter (fun x => x.name ≠ file.name) = before ++ after
    rw [hrows]
    exact KeyedTable.filter_key_ne hunique
  rw [scanCount, scanCount, hremoved, hrows, List.filter_append, List.filter_append,
    List.filter_cons_of_pos hletter]
  simp only [List.length_append, List.length_cons]
  omega

theorem scanCount_remove_of_not_isDeadLetter
    (h : ∀ file ∈ dir.rows, file.name = name → file.isDeadLetter = false) :
    (dir.remove name).scanCount = dir.scanCount := by
  rw [scanCount, scanCount, remove, KeyedTable.keepWhere, List.filter_filter]
  congr 2
  refine List.filter_congr fun file hfile => ?_
  by_cases hname : file.name = name
  · rw [h file hfile hname, Bool.false_and]
  · simp [hname]

theorem mem_list :
    name ∈ dir.list ↔ ∃ file ∈ dir.rows, file.name = name ∧ file.isDeadLetter = true := by
  simp only [list, List.mem_map, List.mem_filter, List.mem_insertionSort, and_assoc]
  exact exists_congr fun file => and_congr_right fun _ => and_comm

theorem isDeadLetter_of_mem_list (hfile : file ∈ dir.rows) (h : file.name ∈ dir.list) :
    file.isDeadLetter = true := by
  obtain ⟨other, hother, hsame, hletter⟩ := mem_list.mp h
  have heq : other = file := List.inj_on_of_nodup_map dir.unique hother hfile hsame
  exact heq ▸ hletter

end Dir

/-- `storedDeadLetter`: a record with the name of its file. -/
structure StoredDeadLetter where
  record : RawRecord
  name : String
  deriving DecidableEq

def StoredDeadLetter.IsIn (letter : StoredDeadLetter) (dir : Dir) : Prop :=
  ∃ file ∈ dir.rows, file.name = letter.name ∧ file.content = some letter.record

end ServiceRuntime.NatsBus
