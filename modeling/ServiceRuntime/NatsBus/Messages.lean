import ServiceRuntime.Codec.ProtoMessage
import ServiceRuntime.GoTime
import ServiceRuntime.GoUtf8

/-!
# The Protocol Buffers Messages of the Bus

The messages that the bus writes with `proto.Marshal` and reads with `proto.Unmarshal`:

- `google.protobuf.Any`: the payload, with the fields that its type does not know,
- `google.protobuf.Timestamp`, with its two conversions from and to a `time.Time`,
- `EventEnvelope` of `envelope.proto`.

A message is written with its fields in ascending order. Reading merges each field into what has
been read before: the last string wins, a message field is merged into the earlier one. A field
with an unexpected number or wire type is unknown; only an `Any` keeps such fields where they
can be observed.
-/

namespace ServiceRuntime.NatsBus

open Codec GoStrings GoTime GoUtf8

/-- A byte slice has fewer than `2 ^ 63` bytes, so a message that would be longer cannot be
    marshalled. -/
def slice (bs : List UInt8) : Option (List UInt8) := if bs.length < 2 ^ 63 then some bs else none

theorem slice_eq_some {bs out : List UInt8} :
    slice bs = some out ↔ bs.length < 2 ^ 63 ∧ bs = out := by
  unfold slice
  split <;> simp_all

theorem bytes_eq_nil {s : String} (h : bytes s = []) : s = "" := by
  have hread := ofBytes_bytes s
  rw [h] at hread
  cases hread
  rfl

/-! ## Any -/

/-- The fields of `google.protobuf.Any`: the type URL and the value. -/
def knownAny (f : Field) : Bool := (f.num == 1 || f.num == 2) && f.typ == .bytes

/-- `google.protobuf.Any`. The type URL is valid UTF-8; with any other, an `Any` cannot be encoded, as
    `proto.Marshal` refuses it. -/
structure Any where
  typeUrl : String
  value : List UInt8
  /-- The unknown fields, in the order in which they were read. -/
  unknown : List { f : Field // knownAny f = false }
  deriving DecidableEq

namespace Any

def empty : Any := ⟨"", [], []⟩

def take (a : Any) (f : Field) : Option Any :=
  if h : knownAny f = false then some { a with unknown := a.unknown ++ [⟨f, h⟩] }
  else f.content.bind fun content =>
    -- a proto3 string must be UTF-8
    if f.num = 1 then (ofBytes content).map fun url => { a with typeUrl := url }
    else some { a with value := content }

def unmarshal (bs : List UInt8) : Option Any := decodeFields take empty bs

def encode (a : Any) : List UInt8 :=
  appendBytesField 1 (bytes a.typeUrl) ++ (appendBytesField 2 a.value ++
    encodeFields (a.unknown.map Subtype.val))

def marshal (a : Any) : Option (List UInt8) := slice a.encode

theorem length_typeUrl_le (a : Any) : (bytes a.typeUrl).length ≤ a.encode.length := by
  have h := length_le_appendBytesField 1 (bytes a.typeUrl)
  unfold encode
  rw [List.length_append]
  omega

theorem length_value_le (a : Any) : a.value.length ≤ a.encode.length := by
  have h := length_le_appendBytesField 2 a.value
  unfold encode
  simp only [List.length_append]
  omega

theorem foldlM_unknown (fs : List { f : Field // knownAny f = false }) (a : Any) :
    (fs.map Subtype.val).foldlM take a = some { a with unknown := a.unknown ++ fs } := by
  induction fs generalizing a with
  | nil => simp
  | cons f fs ih =>
    have htake : take a f.val = some { a with unknown := a.unknown ++ [f] } := by
      unfold take
      rw [dif_pos f.property]
    rw [List.map_cons, List.foldlM_cons, htake]
    show (fs.map Subtype.val).foldlM take _ = _
    rw [ih]
    simp

theorem take_typeUrl (a : Any) (url : String) (h : (bytes url).length < 2 ^ 64) :
    a.take (Field.ofBytes 1 (by decide) (bytes url) h) = some { a with typeUrl := url } := by
  unfold take
  rw [dif_neg (by simp [knownAny, Field.ofBytes]), Field.content_ofBytes, Option.bind_some,
    Field.num_ofBytes, if_pos rfl, ofBytes_bytes]
  rfl

theorem take_value (a : Any) (value : List UInt8) (h : value.length < 2 ^ 64) :
    a.take (Field.ofBytes 2 (by decide) value h) = some { a with value := value } := by
  unfold take
  rw [dif_neg (by simp [knownAny, Field.ofBytes]), Field.content_ofBytes, Option.bind_some,
    Field.num_ofBytes, if_neg (by decide)]

/-- **A marshalled `Any` is read back**, whatever its type, value and unknown fields. -/
theorem unmarshal_encode (a : Any) (h : a.encode.length < 2 ^ 63) : unmarshal a.encode = some a := by
  have hurl : (bytes a.typeUrl).length < 2 ^ 64 := by have := a.length_typeUrl_le; omega
  have hvalue : a.value.length < 2 ^ 64 := by have := a.length_value_le; omega
  unfold unmarshal encode
  rw [decodeFields_bytesField take _ hurl (take_typeUrl empty a.typeUrl hurl)
      (fun hnil => by rw [bytes_eq_nil hnil]; rfl),
    decodeFields_bytesField take _ hvalue (take_value _ a.value hvalue)
      (fun hnil => by rw [hnil]; rfl),
    decodeFields_encodeFields, foldlM_unknown]
  rfl

/-- Merging a field grows an `Any` by no more than the bytes of the field. -/
theorem length_take_le {a a' : Any} {f : Field} (h : a.take f = some a') :
    a'.encode.length ≤ a.encode.length + f.encode.length := by
  unfold take at h
  split at h
  · cases h
    -- an unknown field is kept behind the others
    unfold encode encodeFields
    simp only [List.map_append, List.map_cons, List.map_nil, List.flatMap_append,
      List.flatMap_cons, List.flatMap_nil, List.append_nil, List.length_append]
    omega
  · obtain ⟨content, hcontent, htake⟩ := Option.bind_eq_some_iff.mp h
    have hfield := Field.length_content_le hcontent
    have hnew := length_appendBytesField_le f.num content
    split at htake
    -- the type URL, and below it the value: the field that was there is replaced
    · rename_i hnum
      obtain ⟨url, hurl, rfl⟩ := Option.map_eq_some_iff.mp htake
      rw [hnum, ← bytes_of_ofBytes hurl] at hnew
      rw [hnum, ← bytes_of_ofBytes hurl] at hfield
      unfold encode
      simp only [List.length_append]
      omega
    · rename_i hknown hnum
      have htwo : f.num = 2 := by
        simp only [knownAny, Bool.and_eq_false_iff, Bool.or_eq_false_iff, beq_eq_false_iff_ne] at hknown
        have := Field.typ_of_content hcontent
        grind
      rw [htwo] at hnew hfield
      cases htake
      unfold encode
      simp only [List.length_append]
      omega

theorem length_merge_le {a a' : Any} {bs : List UInt8} (h : decodeFields take a bs = some a') :
    a'.encode.length ≤ a.encode.length + bs.length :=
  decodeFields_le take (fun a => a.encode.length) length_take_le h

end Any

/-! ## Timestamp -/

/-- The conversion `uint64(n)` of a signed integer. -/
def toUint64 (n : Int) : Nat := (n % 2 ^ 64).toNat

/-- The conversion `int64(v)` of the number in a field. -/
def toInt64 (v : Nat) : Int := (v : Int).bmod (2 ^ 64)

/-- The conversion `int32(v)`. -/
def toInt32 (v : Nat) : Int := (v : Int).bmod (2 ^ 32)

theorem toUint64_lt (n : Int) : toUint64 n < 2 ^ 64 := by
  unfold toUint64
  omega

theorem toInt64_toUint64 {n : Int} (hlo : -2 ^ 63 ≤ n) (hhi : n < 2 ^ 63) :
    toInt64 (toUint64 n) = n := by
  unfold toInt64 toUint64
  rw [Int.toNat_of_nonneg (Int.emod_nonneg n (by decide)), Int.bmod_def]
  omega

theorem toInt32_toUint64 {n : Int} (hlo : 0 ≤ n) (hhi : n < 1000000000) :
    toInt32 (toUint64 n) = n := by
  unfold toInt32 toUint64
  rw [Int.toNat_of_nonneg (Int.emod_nonneg n (by decide)), Int.bmod_def]
  omega

structure Timestamp where
  seconds : Int
  nanos : Int
  deriving DecidableEq

namespace Timestamp

def zero : Timestamp := ⟨0, 0⟩

def new (t : Int) : Timestamp :=
  ⟨(t - unixEpoch) / 1000000000, (t - unixEpoch) % 1000000000⟩

/-- `AsTime`: `time.Unix` carries the nanoseconds over, and seconds wrap around. -/
def asTime (ts : Timestamp) : Int :=
  let unix := (ts.seconds + ts.nanos / 1000000000).bmod (2 ^ 64)
  (unix + 62135596800).bmod (2 ^ 64) * 1000000000 + ts.nanos % 1000000000

def take (ts : Timestamp) (f : Field) : Option Timestamp :=
  match f.number with
  | none => some ts
  | some v =>
    if f.num = 1 then some { ts with seconds := toInt64 v }
    else if f.num = 2 then some { ts with nanos := toInt32 v }
    else some ts

def encode (ts : Timestamp) : List UInt8 :=
  appendVarintField 1 (toUint64 ts.seconds) ++ appendVarintField 2 (toUint64 ts.nanos)

/-- A timestamp whose fields are in range. -/
structure InRange (ts : Timestamp) : Prop where
  seconds_ge : -2 ^ 63 ≤ ts.seconds
  seconds_lt : ts.seconds < 2 ^ 63
  nanos_nonneg : 0 ≤ ts.nanos
  nanos_lt : ts.nanos < 1000000000

theorem decode_encode {ts : Timestamp} (h : ts.InRange) : decodeFields take zero ts.encode = some ts := by
  have hseconds := toUint64_lt ts.seconds
  have hnanos := toUint64_lt ts.nanos
  -- a field is left out only if it is zero, as it is where reading starts
  have hzero : ∀ {n : Int}, toUint64 n = 0 → -2 ^ 63 ≤ n → n < 2 ^ 63 → n = 0 := by
    intro n hn hlo hhi
    rw [← toInt64_toUint64 hlo hhi, hn]
    rfl
  have htakeSeconds : zero.take (Field.ofVarint 1 (by decide) _ hseconds) =
      some ⟨ts.seconds, 0⟩ := by
    simp only [take, Field.number_ofVarint, Field.num_ofVarint, if_true,
      toInt64_toUint64 h.seconds_ge h.seconds_lt]
    rfl
  have htakeNanos : (⟨ts.seconds, 0⟩ : Timestamp).take (Field.ofVarint 2 (by decide) _ hnanos) =
      some ts := by
    simp only [take, Field.number_ofVarint, Field.num_ofVarint,
      toInt32_toUint64 h.nanos_nonneg h.nanos_lt]
    rfl
  unfold encode
  rw [decodeFields_varintField take _ hseconds htakeSeconds
    (fun hv => by rw [hzero hv h.seconds_ge h.seconds_lt]; rfl)]
  have hlast := decodeFields_varintField take _ hnanos htakeNanos
    (fun hv => by
      have hn := hzero hv (le_trans (by decide) h.nanos_nonneg) (lt_trans h.nanos_lt (by decide))
      rw [← hn]) []
  rwa [List.append_nil] at hlast

theorem inRange_new {t : Int} (hlo : 0 ≤ t) (hhi : t < 2 ^ 63 * 1000000000) : (new t).InRange := by
  unfold new unixEpoch
  constructor <;> dsimp only <;> omega

theorem asTime_new {t : Int} (hlo : 0 ≤ t) (hhi : t < 2 ^ 63 * 1000000000) :
    (new t).asTime = t := by
  have hseconds : (t - unixEpoch) / 1000000000 + (t - unixEpoch) % 1000000000 / 1000000000 =
      t / 1000000000 - 62135596800 := by
    unfold unixEpoch
    omega
  have hnanos : (t - unixEpoch) % 1000000000 % 1000000000 = t % 1000000000 := by
    unfold unixEpoch
    omega
  have hunix : (t / 1000000000 - 62135596800).bmod (2 ^ 64) = t / 1000000000 - 62135596800 :=
    Int.bmod_eq_of_le (by omega) (by omega)
  have hyear1 : (t / 1000000000 - 62135596800 + 62135596800).bmod (2 ^ 64) = t / 1000000000 := by
    rw [Int.sub_add_cancel]
    exact Int.bmod_eq_of_le (by omega) (by omega)
  unfold asTime new
  dsimp only
  rw [hseconds, hnanos, hunix, hyear1]
  omega

end Timestamp

/-! ## EventEnvelope -/

/-- `EventEnvelope` of `envelope.proto`. -/
structure EventEnvelope where
  specVersion : String
  id : String
  type : String
  source : String
  time : Option Timestamp
  dataContentType : String
  tenantId : String
  data : Option Any
  traceParent : String
  traceState : String
  baggage : String
  deriving DecidableEq

namespace EventEnvelope

def empty : EventEnvelope := ⟨"", "", "", "", none, "", "", none, "", "", ""⟩

def stringField : Nat → Option (EventEnvelope → String → EventEnvelope)
  | 1 => some fun m s => { m with specVersion := s }
  | 2 => some fun m s => { m with id := s }
  | 3 => some fun m s => { m with type := s }
  | 4 => some fun m s => { m with source := s }
  | 6 => some fun m s => { m with dataContentType := s }
  | 7 => some fun m s => { m with tenantId := s }
  | 9 => some fun m s => { m with traceParent := s }
  | 10 => some fun m s => { m with traceState := s }
  | 11 => some fun m s => { m with baggage := s }
  | _ => none

def take (m : EventEnvelope) (f : Field) : Option EventEnvelope :=
  match f.content with
  | none => some m
  | some content =>
    match stringField f.num with
    | some set => (ofBytes content).map (set m)
    | none =>
      if f.num = 5 then
        (decodeFields Timestamp.take (m.time.getD Timestamp.zero) content).map fun time =>
          { m with time := some time }
      else if f.num = 8 then
        (decodeFields Any.take (m.data.getD Any.empty) content).map fun data =>
          { m with data := some data }
      else some m

def unmarshal (bs : List UInt8) : Option EventEnvelope := decodeFields take empty bs

/-- A message field is written even if it is empty, unless it is not there. -/
def appendMessage (num : Nat) : Option (List UInt8) → List UInt8
  | none => []
  | some bs => appendTag num .bytes ++ appendBytes bs

def encode (m : EventEnvelope) : List UInt8 :=
  appendBytesField 1 (bytes m.specVersion) ++ (appendBytesField 2 (bytes m.id) ++
  (appendBytesField 3 (bytes m.type) ++ (appendBytesField 4 (bytes m.source) ++
  (appendMessage 5 (m.time.map Timestamp.encode) ++
  (appendBytesField 6 (bytes m.dataContentType) ++ (appendBytesField 7 (bytes m.tenantId) ++
  (appendMessage 8 (m.data.map Any.encode) ++
  (appendBytesField 9 (bytes m.traceParent) ++ (appendBytesField 10 (bytes m.traceState) ++
  appendBytesField 11 (bytes m.baggage))))))))))

def marshal (m : EventEnvelope) : Option (List UInt8) := slice m.encode

variable {m : EventEnvelope}

theorem decode_stringField {num : Nat} (hnum : ValidNumber num)
    {set : EventEnvelope → String → EventEnvelope} (hset : stringField num = some set)
    (hempty : set m "" = m) {s : String} (hlen : (appendBytesField num (bytes s)).length < 2 ^ 63)
    (after : List UInt8) :
    decodeFields take m (appendBytesField num (bytes s) ++ after) =
      decodeFields take (set m s) after := by
  have h : (bytes s).length < 2 ^ 64 := by
    have := length_le_appendBytesField num (bytes s)
    omega
  refine decodeFields_bytesField take hnum h ?_ ?_ after
  · simp only [take, Field.content_ofBytes, Field.num_ofBytes, hset, ofBytes_bytes, Option.map_some]
  · intro hnil
    rw [bytes_eq_nil hnil, hempty]

theorem decode_time (hm : m.time = none) {time : Option Timestamp} (htime : ∀ ts ∈ time, ts.InRange)
    (hlen : (appendMessage 5 (time.map Timestamp.encode)).length < 2 ^ 63) (after : List UInt8) :
    decodeFields take m (appendMessage 5 (time.map Timestamp.encode) ++ after) =
      decodeFields take { m with time := time } after := by
  cases time with
  | none =>
    obtain ⟨⟩ := m
    cases hm
    rfl
  | some ts =>
    have h : ts.encode.length < 2 ^ 64 := by
      simp only [Option.map_some, appendMessage, appendBytes, List.length_append] at hlen
      omega
    refine decodeFields_message take (by decide) h ?_ after
    simp only [take, Field.content_ofBytes, Field.num_ofBytes, stringField, hm, Option.getD_none,
      Timestamp.decode_encode (htime ts rfl), Option.map_some, if_true]

theorem decode_data (hm : m.data = none) {data : Option Any}
    (hlen : (appendMessage 8 (data.map Any.encode)).length < 2 ^ 63) (after : List UInt8) :
    decodeFields take m (appendMessage 8 (data.map Any.encode) ++ after) =
      decodeFields take { m with data := data } after := by
  cases data with
  | none =>
    obtain ⟨⟩ := m
    cases hm
    rfl
  | some a =>
    have h : a.encode.length < 2 ^ 63 := by
      simp only [Option.map_some, appendMessage, appendBytes, List.length_append] at hlen
      omega
    have hread : decodeFields Any.take Any.empty a.encode = some a := a.unmarshal_encode h
    refine decodeFields_message take (by decide) (lt_trans h (by decide)) ?_ after
    simp [take, stringField, hm, hread]

/-- **A marshalled envelope is read back.** -/
theorem unmarshal_encode (m : EventEnvelope) (h : m.encode.length < 2 ^ 63)
    (htime : ∀ ts ∈ m.time, ts.InRange) : unmarshal m.encode = some m := by
  unfold encode at h
  simp only [List.length_append] at h
  unfold unmarshal encode
  rw [← List.append_nil (appendBytesField 11 _),
    decode_stringField (by decide) rfl rfl (by omega),
    decode_stringField (by decide) rfl rfl (by omega),
    decode_stringField (by decide) rfl rfl (by omega),
    decode_stringField (by decide) rfl rfl (by omega),
    decode_time rfl htime (by omega),
    decode_stringField (by decide) rfl rfl (by omega),
    decode_stringField (by decide) rfl rfl (by omega),
    decode_data rfl (by omega),
    decode_stringField (by decide) rfl rfl (by omega),
    decode_stringField (by decide) rfl rfl (by omega),
    decode_stringField (by decide) rfl rfl (by omega)]
  rfl

/-- The bytes that the payload of an envelope takes at least: its own and one for its tag. -/
def dataSize (m : EventEnvelope) : Nat := (m.data.map fun a => a.encode.length + 1).getD 0

theorem dataSize_take_le {m' : EventEnvelope} {f : Field} (h : m.take f = some m') :
    m'.dataSize ≤ m.dataSize + f.encode.length := by
  unfold take at h
  split at h
  · cases h
    omega
  · rename_i content hcontent
    split at h
    · rename_i set hset
      obtain ⟨s, -, rfl⟩ := Option.map_eq_some_iff.mp h
      -- a string field leaves the payload alone
      have hdata : (set m s).data = m.data := by
        unfold stringField at hset
        split at hset <;> cases hset <;> rfl
      unfold dataSize
      rw [hdata]
      omega
    · split at h
      · obtain ⟨time, -, rfl⟩ := Option.map_eq_some_iff.mp h
        show m.dataSize ≤ _
        omega
      · split at h
        · rename_i hnum
          obtain ⟨a, ha, rfl⟩ := Option.map_eq_some_iff.mp h
          have hmerge := Any.length_merge_le ha
          have hfield := Field.length_content_le hcontent
          rw [hnum] at hfield
          -- the content is merged into what was there; tag and length make up for it
          have htag : (appendTag 8 .bytes).length = 1 := by decide
          have hcontentLe : content.length ≤ (appendBytes content).length := by
            unfold appendBytes
            rw [List.length_append]
            omega
          unfold dataSize
          cases hdata : m.data with
          | none =>
            rw [hdata] at hmerge
            have hempty : (Any.empty).encode.length = 0 := by decide
            simp only [Option.getD_none, Option.map_some, Option.map_none, Option.getD_some] at hmerge ⊢
            omega
          | some a₀ =>
            rw [hdata] at hmerge
            simp only [Option.map_some, Option.getD_some] at hmerge ⊢
            omega
        · cases h
          omega

/-- **A payload is smaller than its envelope**: no envelope is its own payload. -/
theorem length_data_lt {bs : List UInt8} {a : Any} (h : unmarshal bs = some m)
    (hdata : m.data = some a) : a.encode.length < bs.length := by
  have hle := decodeFields_le take dataSize dataSize_take_le h
  have hempty : empty.dataSize = 0 := rfl
  have hsize : m.dataSize = a.encode.length + 1 := by
    unfold dataSize
    rw [hdata]
    rfl
  omega

end EventEnvelope

end ServiceRuntime.NatsBus
