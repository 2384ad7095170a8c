import ServiceRuntime.Codec.Base64
import ServiceRuntime.GoTime
import ServiceRuntime.Json.Time
import ServiceRuntime.Storage.KeyedTable

/-!
# The Files of Dead Letters

A dead letter is kept as JSON. The data of the message is written in base64, which is exact for
all bytes. The subject and the headers are written as JSON strings, which cannot say every Go
string: a byte that is not UTF-8 comes back as the replacement character.

The strings of this module are Go strings of any bytes. `marshal` and `unmarshal` are
`json.Marshal` and `json.Unmarshal` of a `deadLetterRecord`; what comes back from a file is
`unmarshal_marshal`, and the message in it is the one that failed exactly if all its strings are
valid (`RawMsg.same_afterJSON_iff`, `returns_iff`).
-/

namespace ServiceRuntime.NatsBus

open Codec
open ServiceRuntime.GoRfc3339 (FourDigitYear)
open GoStrings GoTime GoUtf8
open ServiceRuntime.Json.Scanner (IsString)
open ServiceRuntime.Json (IsCompact Member Setter lookupField members nullText objectText quote
  quoteBytes readStrings stringField stringsText takeMember timeField timeText unquote
  unmarshalStruct writeObject)
open Storage

/-! ## Messages and records -/

/-- A Go string, which may be of any bytes. -/
abbrev GoString := List UInt8

/-- `nats.Header`; a nil map has no entries either. -/
abbrev RawHeader := KeyedTable (GoString × List GoString) Prod.fst

/-- `nats.Msg`, as far as it is published. -/
structure RawMsg where
  subject : GoString
  header : RawHeader
  data : List UInt8
  deriving DecidableEq

/-- `deadLetterRecord`. -/
structure RawRecord where
  id : GoString
  createdAt : Int
  subject : GoString
  header : RawHeader
  data : List UInt8
  lastError : GoString
  deriving DecidableEq

namespace RawRecord

def zero : RawRecord := ⟨[], zeroTime, [], .empty, [], []⟩

/-- The record that `handleDeadLetter` makes for a message. -/
def ofMessage (message : RawMsg) (publishErr id : GoString) (now : Int) : RawRecord where
  id := id
  createdAt := now
  subject := message.subject
  header := message.header
  data := message.data
  lastError := publishErr

def message (record : RawRecord) : RawMsg where
  subject := record.subject
  header := record.header
  data := record.data

/-- The first lines of `Save`. -/
def withDefaults (record : RawRecord) (clock : Int) (uuid : GoString) : RawRecord :=
  { record with
    createdAt := if isZero record.createdAt then clock else record.createdAt
    id := if bytesTrimSpace record.id = [] then uuid else record.id }

end RawRecord

/-! ## Writing -/

/-- The headers as an object; keys are sorted. Value lists are clones, so that one without values
    is nil. -/
def headerText (header : RawHeader) : List UInt8 :=
  writeObject ((header.rows.insertionSort fun a b => a.1 ≤ b.1).map fun entry =>
    ⟨quoteBytes entry.1, stringsText entry.2⟩)

namespace RawRecord

/-- The members of a record, in the order of its fields. -/
def members (record : RawRecord) (createdAt : List UInt8) : List (String × List UInt8) :=
  [("id", quoteBytes record.id), ("created_at", createdAt),
    ("subject", quoteBytes record.subject)] ++
  ((if record.header.rows = [] then [] else [("header", headerText record.header)]) ++
    ((if record.data = [] then [] else [("data", quote (Base64.encodeToString record.data))]) ++
      (if record.lastError = [] then [] else [("last_error", quoteBytes record.lastError)])))

def marshal (record : RawRecord) : Option (List UInt8) :=
  (timeText record.createdAt).map fun createdAt => objectText (record.members createdAt)

end RawRecord

/-! ## Reading -/

def goStringField (set : RawRecord → GoString → RawRecord) : Setter RawRecord :=
  stringField fun record s => set record (bytes s)

def takeEntry (header : RawHeader) (m : Member) : Option RawHeader := do
  let key ← unquote m.key
  let values ← readStrings m.value
  some (header.putFront (bytes key, values.map bytes))

/-- The headers are read over those that are there; null is the nil map. -/
def headerField : Setter RawRecord := fun record raw =>
  if raw.head? = some 0x6E then some { record with header := .empty }
  else if raw.head? = some 0x7B then do
    let ms ← Json.members raw
    let header ← ms.foldlM takeEntry record.header
    some { record with header }
  else none

/-- A slice of bytes is read from base64; null is nil. -/
def dataField : Setter RawRecord := fun record raw =>
  if raw.head? = some 0x6E then some { record with data := [] }
  else if raw.head? = some 0x22 then do
    let s ← unquote raw
    let data ← Base64.decodeString s
    some { record with data }
  else none

namespace RawRecord

def fields : List (String × Setter RawRecord) :=
  [("id", goStringField fun record id => { record with id }),
    ("created_at", timeField fun record createdAt => { record with createdAt }),
    ("subject", goStringField fun record subject => { record with subject }),
    ("header", headerField),
    ("data", dataField),
    ("last_error", goStringField fun record lastError => { record with lastError })]

def unmarshal (data : List UInt8) : Option RawRecord := unmarshalStruct fields zero data

end RawRecord

/-! ## What comes back -/

def replaced (s : GoString) : GoString := bytes (toValid s)

theorem replaced_eq_iff {s : GoString} : replaced s = s ↔ Valid s := bytes_toValid_eq_iff

theorem valid_replaced (s : GoString) : Valid (replaced s) := valid_bytes _

def replacedEntry (entry : GoString × List GoString) : GoString × List GoString :=
  (replaced entry.1, entry.2.map replaced)

/-- The headers after they have been in JSON: entries whose keys have become the same are one. -/
def replacedHeader (header : RawHeader) : RawHeader :=
  KeyedTable.empty.putAll ((header.rows.insertionSort fun a b => a.1 ≤ b.1).map replacedEntry)

theorem goStringField_quoteBytes (set : RawRecord → GoString → RawRecord) (record : RawRecord)
    (s : GoString) : goStringField set record (quoteBytes s) = some (set record (replaced s)) := by
  unfold goStringField stringField
  rw [if_neg (by simp [quoteBytes]), if_pos (by simp [quoteBytes]), Json.unquote_quoteBytes]
  rfl

theorem takeEntry_quoted (header : RawHeader) (entry : GoString × List GoString) :
    takeEntry header ⟨quoteBytes entry.1, stringsText entry.2⟩ =
      some (header.putFront (replacedEntry entry)) := by
  unfold takeEntry
  simp only [Json.unquote_quoteBytes, Json.readStrings_stringsText, Option.bind_eq_bind,
    Option.bind_some, List.map_map]
  rfl

theorem foldlM_takeEntry (header : RawHeader) (entries : List (GoString × List GoString)) :
    (entries.map fun entry => Member.mk (quoteBytes entry.1) (stringsText entry.2)).foldlM takeEntry
        header =
      some (header.putAll (entries.map replacedEntry)) := by
  induction entries generalizing header with
  | nil => rfl
  | cons entry entries ih =>
    rw [List.map_cons, List.foldlM_cons, takeEntry_quoted]
    exact ih (header.putFront (replacedEntry entry))

theorem isSound_entries (entries : List (GoString × List GoString)) :
    ∀ m ∈ entries.map fun entry => Member.mk (quoteBytes entry.1) (stringsText entry.2),
      m.IsSound := by
  intro m hm
  obtain ⟨entry, -, rfl⟩ := List.mem_map.mp hm
  exact ⟨Json.Scanner.isString_quoteBytes entry.1, Json.isCompact_stringsText entry.2⟩

theorem isCompact_headerText (header : RawHeader) : IsCompact (headerText header) :=
  Json.isCompact_writeObject (isSound_entries _)

theorem nesting_headerText_le (header : RawHeader) : Json.nesting (headerText header) ≤ 2 := by
  rw [headerText, Json.nesting_writeObject (isSound_entries _), List.forall_mem_map]
  exact fun entry _ => Json.nesting_stringsText_le entry.2

theorem headerField_headerText {record : RawRecord} (h : record.header = .empty)
    (header : RawHeader) :
    headerField record (headerText header) =
      some { record with header := replacedHeader header } := by
  have hbrace : (headerText header).head? = some 0x7B := by
    unfold headerText
    cases header.rows.insertionSort fun a b => a.1 ≤ b.1 <;> rfl
  unfold headerField
  rw [hbrace, if_neg (by decide), if_pos rfl, headerText, Json.members_writeObject (isSound_entries _)]
  simp only [Option.bind_eq_bind, Option.bind_some]
  rw [foldlM_takeEntry, h]
  rfl

theorem dataField_quote (record : RawRecord) (data : List UInt8) :
    dataField record (quote (Base64.encodeToString data)) = some { record with data } := by
  unfold dataField
  rw [if_neg (by simp [quote]), if_pos (by simp [quote]), Json.unquote_quote]
  simp only [Option.bind_eq_bind, Option.bind_some, Base64.decodeString_encodeToString]

namespace RawRecord

def afterJSON (record : RawRecord) : RawRecord where
  id := replaced record.id
  createdAt := record.createdAt
  subject := replaced record.subject
  header := replacedHeader record.header
  data := record.data
  lastError := replaced record.lastError

theorem mem_members (record : RawRecord) {createdAt : List UInt8} (h : IsString createdAt) :
    ∀ m ∈ record.members createdAt, IsString m.2 ∨ m.2 = headerText record.header := by
  have hstring : ∀ s : GoString, IsString (quoteBytes s) := Json.Scanner.isString_quoteBytes
  have homit : ∀ {empty : Prop} [Decidable empty] {name : String} {value : List UInt8},
      (IsString value ∨ value = headerText record.header) →
      ∀ m ∈ if empty then [] else [(name, value)],
        IsString m.2 ∨ m.2 = headerText record.header := by
    intro empty _ name value hvalue m hm
    split at hm
    · cases hm
    · rw [List.mem_singleton.mp hm]
      exact hvalue
  unfold members
  simp only [List.forall_mem_append, List.forall_mem_cons]
  exact ⟨⟨.inl (hstring _), .inl h, .inl (hstring _), by simp⟩, homit (.inr rfl),
    homit (.inl (Json.Scanner.isString_quote _)), homit (.inl (hstring _))⟩

theorem isCompact_members (record : RawRecord) {createdAt : List UInt8} (h : IsString createdAt) :
    ∀ m ∈ record.members createdAt, IsCompact m.2 ∧ Json.nesting m.2 < Json.maxNestingDepth := by
  intro m hm
  rcases record.mem_members h m hm with hm | hm
  · exact ⟨hm.isCompact, hm.nesting_eq ▸ Nat.succ_pos _⟩
  · have hle := nesting_headerText_le record.header
    rw [hm]
    exact ⟨isCompact_headerText _, hle.trans_lt (by decide)⟩

variable {record : RawRecord}

/-- **What comes back from a file.** -/
theorem unmarshal_marshal {text : List UInt8} (h : record.marshal = some text) :
    unmarshal text = some record.afterJSON := by
  obtain ⟨createdAt, hcreatedAt, rfl⟩ := Option.map_eq_some_iff.mp h
  have hid : lookupField fields "id" =
    some (goStringField fun record id => { record with id }) := rfl
  have hsubject : lookupField fields "subject" =
    some (goStringField fun record subject => { record with subject }) := rfl
  have hlastError : lookupField fields "last_error" =
    some (goStringField fun record lastError => { record with lastError }) := rfl
  unfold unmarshal
  have hmembers := record.isCompact_members (Json.isString_timeText hcreatedAt)
  rw [Json.unmarshalStruct_objectText _ _ (fun m hm => (hmembers m hm).1) fun m hm =>
    (hmembers m hm).2]
  unfold members
  simp only [List.cons_append, List.nil_append]
  rw [Json.foldlM_member hid (goStringField_quoteBytes _ _ _),
    Json.foldlM_member rfl (Json.timeField_timeText _ _ hcreatedAt),
    Json.foldlM_member hsubject (goStringField_quoteBytes _ _ _)]
  -- a member that is left out was empty before
  have hheader : record.header.rows = [] → replacedHeader record.header = .empty := by
    intro hrows
    rw [replacedHeader, hrows]
    rfl
  rw [Json.foldlM_omitted rfl
      { zero with
        id := replaced record.id
        createdAt := record.createdAt
        subject := replaced record.subject
        header := replacedHeader record.header }
      (fun hrows => by rw [hheader hrows]; rfl) (fun _ => headerField_headerText rfl _),
    Json.foldlM_omitted rfl
      { zero with
        id := replaced record.id
        createdAt := record.createdAt
        subject := replaced record.subject
        header := replacedHeader record.header
        data := record.data }
      (fun hdata => by rw [hdata]; rfl) (fun _ => dataField_quote _ _),
    ← List.append_nil (if record.lastError = [] then [] else _),
    Json.foldlM_omitted hlastError record.afterJSON (fun hempty => by rw [afterJSON, hempty]; rfl)
      (fun _ => goStringField_quoteBytes _ _ _)]
  rfl

/-- What the file of a record decodes to; `none` if the record cannot be written. -/
def stored (record : RawRecord) : Option RawRecord := record.marshal.bind unmarshal

theorem isSome_marshal : record.marshal.isSome = true ↔ FourDigitYear record.createdAt := by
  unfold marshal timeText
  rw [Option.isSome_map]
  split <;> simp_all

theorem stored_of_marshal (h : record.marshal.isSome = true) :
    record.stored = some record.afterJSON := by
  obtain ⟨text, htext⟩ := Option.isSome_iff_exists.mp h
  rw [stored, htext, Option.bind_some, unmarshal_marshal htext]

end RawRecord

/-! ## The message that is replayed -/

/-- The same subject, the same header keys and value lists, and the same data. -/
structure RawMsg.Same (m m' : RawMsg) : Prop where
  subject : m.subject = m'.subject
  header : ∀ entry, entry ∈ m.header.rows ↔ entry ∈ m'.header.rows
  data : m.data = m'.data

theorem RawMsg.Same.refl (m : RawMsg) : m.Same m := ⟨rfl, fun _ => Iff.rfl, rfl⟩

def ValidEntry (entry : GoString × List GoString) : Prop :=
  Valid entry.1 ∧ ∀ value ∈ entry.2, Valid value

/-- All strings of a message are valid text. -/
structure RawMsg.IsText (m : RawMsg) : Prop where
  subject : Valid m.subject
  header : ∀ entry ∈ m.header.rows, ValidEntry entry

instance (entry : GoString × List GoString) : Decidable (ValidEntry entry) :=
  inferInstanceAs (Decidable (_ ∧ _))

instance (m : RawMsg) : Decidable m.IsText :=
  decidable_of_iff (Valid m.subject ∧ ∀ entry ∈ m.header.rows, ValidEntry entry)
    ⟨fun h => ⟨h.1, h.2⟩, fun h => ⟨h.subject, h.header⟩⟩

theorem replacedEntry_eq_iff {entry : GoString × List GoString} :
    replacedEntry entry = entry ↔ ValidEntry entry := by
  obtain ⟨key, values⟩ := entry
  have hvalues : values.map replaced = values ↔ ∀ value ∈ values, Valid value := by
    have hmap := List.map_inj_left (l := values) (f := replaced) (g := id)
    rw [List.map_id] at hmap
    exact hmap.trans (forall₂_congr fun value _ => replaced_eq_iff)
  rw [replacedEntry, Prod.mk.injEq, replaced_eq_iff, hvalues]
  rfl

theorem validEntry_replacedEntry (entry : GoString × List GoString) :
    ValidEntry (replacedEntry entry) := by
  refine ⟨valid_replaced _, fun value hvalue => ?_⟩
  obtain ⟨value', -, rfl⟩ := List.mem_map.mp hvalue
  exact valid_replaced value'

/-- **Headers come back exactly if they are text.** -/
theorem same_replacedHeader_iff {header : RawHeader} :
    (∀ entry, entry ∈ (replacedHeader header).rows ↔ entry ∈ header.rows) ↔
      ∀ entry ∈ header.rows, ValidEntry entry := by
  constructor
  -- what comes back is text, whatever was written
  · intro h entry hentry
    rcases KeyedTable.mem_or_mem_of_mem_putAll ((h entry).mpr hentry) with hmem | hmem
    · obtain ⟨entry', -, rfl⟩ := List.mem_map.mp hmem
      exact validEntry_replacedEntry entry'
    · cases hmem
  · intro h
    have hperm := List.perm_insertionSort (fun a b : GoString × List GoString => a.1 ≤ b.1)
      header.rows
    have hself : (header.rows.insertionSort fun a b => a.1 ≤ b.1).map replacedEntry =
        header.rows.insertionSort fun a b => a.1 ≤ b.1 := by
      refine (List.map_congr_left fun entry hentry => ?_).trans (List.map_id _)
      exact replacedEntry_eq_iff.mpr (h entry (hperm.mem_iff.mp hentry))
    intro entry
    rw [replacedHeader, hself, ← hperm.mem_iff,
      KeyedTable.mem_putAll_iff ((hperm.map Prod.fst).nodup_iff.mpr header.unique)]
    exact or_iff_left fun hmem => List.not_mem_nil hmem.1

def RawMsg.afterJSON (m : RawMsg) : RawMsg := ⟨replaced m.subject, replacedHeader m.header, m.data⟩

theorem RawRecord.message_afterJSON (record : RawRecord) :
    record.afterJSON.message = record.message.afterJSON := rfl

/-- **A message comes back from JSON exactly if it is text.** -/
theorem RawMsg.same_afterJSON_iff {m : RawMsg} : m.afterJSON.Same m ↔ m.IsText := by
  constructor
  · intro h
    exact ⟨replaced_eq_iff.mp h.subject, same_replacedHeader_iff.mp h.header⟩
  · intro h
    exact ⟨replaced_eq_iff.mpr h.subject, same_replacedHeader_iff.mpr h.header, rfl⟩

/-- The content of the file that `handleDeadLetter` has `Save` write for a message. -/
def savedContent (message : RawMsg) (publishErr id uuid : GoString) (now clock : Int) :
    Option (List UInt8) :=
  ((RawRecord.ofMessage message publishErr id now).withDefaults clock uuid).marshal

/-- A message is saved, and what `List` and `message()` make of the file is the same message. -/
def Returns (message : RawMsg) (publishErr id uuid : GoString) (now clock : Int) : Prop :=
  ∃ content record, savedContent message publishErr id uuid now clock = some content ∧
    RawRecord.unmarshal content = some record ∧ record.message.Same message

/-- **A dead letter returns the message exactly if the message is text**, and the clock shows a
    year that JSON can say. -/
theorem returns_iff (message : RawMsg) (publishErr id uuid : GoString) (now clock : Int) :
    Returns message publishErr id uuid now clock ↔
      FourDigitYear (if isZero now then clock else now) ∧ message.IsText := by
  have hsaved : (savedContent message publishErr id uuid now clock).isSome = true ↔
      FourDigitYear (if isZero now then clock else now) := RawRecord.isSome_marshal
  have hsame : ∀ {content record}, savedContent message publishErr id uuid now clock =
      some content → RawRecord.unmarshal content = some record →
      (record.message.Same message ↔ message.IsText) := by
    intro content record hcontent hrecord
    cases (RawRecord.unmarshal_marshal hcontent).symm.trans hrecord
    exact RawMsg.same_afterJSON_iff
  constructor
  · rintro ⟨content, record, hcontent, hrecord, h⟩
    refine ⟨hsaved.mp ?_, (hsame hcontent hrecord).mp h⟩
    rw [hcontent]
    rfl
  · rintro ⟨hyear, htext⟩
    obtain ⟨content, hcontent⟩ := Option.isSome_iff_exists.mp (hsaved.mpr hyear)
    have hrecord := RawRecord.unmarshal_marshal hcontent
    exact ⟨content, _, hcontent, hrecord, (hsame hcontent hrecord).mpr htext⟩

end ServiceRuntime.NatsBus
