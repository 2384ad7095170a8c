import ServiceRuntime.GoRfc3339
import ServiceRuntime.Json.Object
import ServiceRuntime.NatsBus.Messages

/-!
# Event Envelopes and their Wire Formats

The encoders and decoders of `natsbus.go`. An event travels in one of three formats: a JSON
object, an `EventEnvelope` message, or message headers with the payload as the body. The decoder
recognises the headers, and tells the other two apart by the first byte that is not JSON white
space; white space in front of a JSON object may also be the beginning of a message, so a text
that looks like JSON and is none is tried as a message.

`encoding/json`, `time` and the wire format of protocol buffers are the models of the libraries
below. The JSON form of a payload depends on the message types that are registered with the
program, so `protojson` is a parameter with the laws that are used of it (`ProtoJSON.Laws`).
-/

namespace ServiceRuntime.NatsBus

open GoStrings GoTime GoUtf8
open ServiceRuntime.Json (Setter compact objectText quote rawField stringField unmarshalStruct)

/-! ## Types -/

/-- `WireFormat`, with the names that are none of the constants. -/
inductive WireFormat where
  | json
  | proto
  | protoHeaders
  | other (name : String)
  deriving DecidableEq

/-- `Envelope`; `time` is an instant in UTC. -/
structure Envelope where
  specVersion : String
  id : String
  type : String
  source : String
  time : Int
  dataContentType : String
  tenantId : String
  traceParent : String
  traceState : String
  baggage : String
  payload : Option Any
  wireFormat : WireFormat
  deriving DecidableEq

structure CloudEvent where
  specVersion : String
  id : String
  type : String
  source : String
  time : String
  dataContentType : String
  tenantId : String
  traceParent : String
  traceState : String
  baggage : String
  data : List UInt8
  deriving DecidableEq

/-- `Change`, as far as an envelope is made of it. -/
structure Change where
  tenantId : String
  recordedAt : Int
  payload : Option Any
  deriving DecidableEq

/-- The errors of the package, and those of the libraries, which are passed on. -/
inductive BusError where
  | envelopeEmpty
  | wireFormatInvalid
  | messageNil
  | json
  | time
  | protojson
  | proto
  deriving DecidableEq

def BusError.text : BusError → Option String
  | .envelopeEmpty => some "envelope_empty"
  | .wireFormatInvalid => some "wire_format_invalid"
  | .messageNil => some "message_nil"
  | _ => none

/-- `nats.Msg`, as far as it is published, with text for its strings. -/
structure Msg where
  subject : String
  header : List (String × List String)
  data : List UInt8
  deriving DecidableEq

def orError {α : Type*} (err : BusError) : Option α → Except BusError α
  | none => .error err
  | some a => .ok a

theorem orError_eq_ok {α : Type*} {err : BusError} {o : Option α} {a : α} :
    orError err o = .ok a ↔ o = some a := by
  cases o <;> simp [orError]

theorem bind_eq_ok {ε α β : Type*} {x : Except ε α} {f : α → Except ε β} {b : β} :
    x.bind f = .ok b ↔ ∃ a, x = .ok a ∧ f a = .ok b := by
  cases x <;> simp [Except.bind]

/-- `protojson` on an `Any`. -/
structure ProtoJSON where
  marshal : Any → Option (List UInt8)
  unmarshal : List UInt8 → Option Any

/-- What is used of `protojson`. It need not accept what it writes: a field may be written under a
    name that stands for another field, or not for any, when it is read. -/
structure ProtoJSON.Laws (pj : ProtoJSON) : Prop where
  /-- A message is written as a JSON object. -/
  isObject_marshal : ∀ {a text}, pj.marshal a = some text → Json.isObject text = true
  /-- White space and the escapes of `encoding/json` do not change what a text says. -/
  unmarshal_compact : ∀ {a text out}, pj.marshal a = some text → compact text = some out →
    pj.unmarshal out = pj.unmarshal text
  /-- A message has the fields of the text: no unknown ones, and a type URL that stands in it. -/
  unmarshal_fields : ∀ {text a}, pj.unmarshal text = some a →
    a.unknown = [] ∧ (bytes a.typeUrl).length ≤ text.length

/-! ## Making an envelope -/

/-- `uuid.NewString`, from sixteen random bytes. -/
def newString (random : Fin 16 → UInt8) : String :=
  let uuid : Fin 16 → UInt8 := fun i =>
    -- version 4, variant 10
    if i = 6 then (random i &&& 0x0F) ||| 0x40
    else if i = 8 then (random i &&& 0x3F) ||| 0x80
    else random i
  let hex := fun is : List (Fin 16) => hexEncodeToString (is.map uuid)
  hex [0, 1, 2, 3] ++ "-" ++ hex [4, 5] ++ "-" ++ hex [6, 7] ++ "-" ++ hex [8, 9] ++ "-" ++
    hex [10, 11, 12, 13, 14, 15]

def Change.toCloudEvent (change : Change) (subject source : String) (now : Int)
    (random : Fin 16 → UInt8) : Envelope where
  specVersion := "1.0"
  id := newString random
  type := subject
  source := source
  time := if isZero change.recordedAt then now else change.recordedAt
  dataContentType := "application/protobuf"
  tenantId := change.tenantId
  traceParent := ""
  traceState := ""
  baggage := ""
  payload := change.payload
  wireFormat := .other ""

/-! ## Headers -/

abbrev Header := List (String × List String)

namespace Header

def set (header : Header) (key value : String) : Header :=
  header.filter (fun entry => entry.1 != key) ++ [(key, [value])]

def get (header : Header) (key : String) : String :=
  ((header.find? fun entry => entry.1 == key).bind fun entry => entry.2.head?).getD ""

def setNonEmpty (header : Header) (key value : String) : Header :=
  if value = "" then header else header.set key value

@[simp] theorem get_nil (key : String) : get [] key = "" := rfl

theorem get_set (header : Header) (key value key' : String) :
    (header.set key value).get key' = if key' = key then value else header.get key' := by
  unfold set get
  rw [List.find?_append]
  split
  · rename_i heq
    subst heq
    rw [List.find?_eq_none.mpr (by simp)]
    simp
  · rename_i hne
    have hkey : (key == key') = false := beq_eq_false_iff_ne.mpr fun h => hne h.symm
    rw [List.find?_filter, List.find?_cons_of_neg (by simp [hkey]), List.find?_nil, Option.or_none]
    congr 3
    funext entry
    by_cases hentry : entry.1 = key'
    · simp [hentry, hne]
    · simp [hentry]

theorem get_setNonEmpty (header : Header) (key value key' : String) :
    (header.setNonEmpty key value).get key' =
      if key' = key ∧ value ≠ "" then value else header.get key' := by
  unfold setNonEmpty
  by_cases hvalue : value = ""
  · simp [hvalue]
  · simp [hvalue, get_set]

end Header

def headerSpecVersion : String := "ce-specversion"
def headerID : String := "ce-id"
def headerType : String := "ce-type"
def headerSource : String := "ce-source"
def headerTime : String := "ce-time"
def headerDataContentType : String := "content-type"
def headerTenantID : String := "ce-tenantid"
def headerTraceParent : String := "traceparent"
def headerTraceState : String := "tracestate"
def headerBaggage : String := "baggage"

/-! ## Encoders -/

def marshalPayloadJSON (pj : ProtoJSON) : Option Any → Except BusError (List UInt8)
  | none => .ok (bytes "null")
  | some payload => orError .protojson (pj.marshal payload)

def omitEmpty (name value : String) : List (String × List UInt8) :=
  if value = "" then [] else [(name, quote value)]

/-- The members of a `CloudEvent`, in the order of its fields, with `data` as it is written. -/
def CloudEvent.members (event : CloudEvent) (data : List UInt8) : List (String × List UInt8) :=
  [("specversion", quote event.specVersion), ("id", quote event.id), ("type", quote event.type),
    ("source", quote event.source), ("time", quote event.time),
    ("datacontenttype", quote event.dataContentType), ("tenant_id", quote event.tenantId)] ++
  (omitEmpty "traceparent" event.traceParent ++ (omitEmpty "tracestate" event.traceState ++
    (omitEmpty "baggage" event.baggage ++ [("data", data)])))

/-- `json.Marshal` of a `CloudEvent`; the raw `data` is compacted. -/
def CloudEvent.marshal (event : CloudEvent) : Option (List UInt8) :=
  (compact event.data).map fun data => objectText (event.members data)

/-- The event that `marshalEnvelopeJSON` writes. -/
def Envelope.toEvent (envelope : Envelope) (data : List UInt8) : CloudEvent where
  specVersion := envelope.specVersion
  id := envelope.id
  type := envelope.type
  source := envelope.source
  time := GoRfc3339.format envelope.time
  dataContentType := "application/json"
  tenantId := envelope.tenantId
  traceParent := envelope.traceParent
  traceState := envelope.traceState
  baggage := envelope.baggage
  data := data

def marshalEnvelopeJSON (pj : ProtoJSON) (envelope : Envelope) : Except BusError (List UInt8) := do
  let data ← marshalPayloadJSON pj envelope.payload
  orError .json (envelope.toEvent data).marshal

/-- The message that `marshalEnvelopeProto` writes. -/
def Envelope.toProto (envelope : Envelope) : EventEnvelope where
  specVersion := envelope.specVersion
  id := envelope.id
  type := envelope.type
  source := envelope.source
  time := some (Timestamp.new envelope.time)
  dataContentType := "application/protobuf"
  tenantId := envelope.tenantId
  data := envelope.payload
  traceParent := envelope.traceParent
  traceState := envelope.traceState
  baggage := envelope.baggage

def marshalEnvelopeProto (envelope : Envelope) : Except BusError (List UInt8) :=
  orError .proto envelope.toProto.marshal

/-- The headers that `marshalEnvelopeProtoHeaders` sets. -/
def Envelope.headers (envelope : Envelope) : Header :=
  let header : Header := []
  let header := header.set headerSpecVersion envelope.specVersion
  let header := header.set headerID envelope.id
  let header := header.set headerType envelope.type
  let header := header.set headerSource envelope.source
  let header :=
    if isZero envelope.time then header
    else header.set headerTime (GoRfc3339.format envelope.time)
  let header := header.setNonEmpty headerTenantID envelope.tenantId
  let header := header.setNonEmpty headerTraceParent envelope.traceParent
  let header := header.setNonEmpty headerTraceState envelope.traceState
  let header := header.setNonEmpty headerBaggage envelope.baggage
  let dataContentType := trimSpace envelope.dataContentType
  header.set headerDataContentType
    (if dataContentType = "" then "application/protobuf" else dataContentType)

def marshalEnvelopeProtoHeaders (subject : String) (envelope : Envelope) : Except BusError Msg :=
  match envelope.payload with
  | none => .ok ⟨subject, envelope.headers, []⟩
  | some payload => do
    let data ← orError .proto payload.marshal
    .ok ⟨subject, envelope.headers, data⟩

def marshalEnvelope (pj : ProtoJSON) (envelope : Envelope) :
    WireFormat → Except BusError (List UInt8)
  | .json => marshalEnvelopeJSON pj envelope
  | .proto => marshalEnvelopeProto envelope
  | .protoHeaders => .error .wireFormatInvalid
  | .other _ => .error .wireFormatInvalid

def marshalEnvelopeMessage (pj : ProtoJSON) (subject : String) (envelope : Envelope)
    (wireFormat : WireFormat) : Except BusError Msg :=
  match wireFormat with
  | .json | .proto => do
    let data ← marshalEnvelope pj envelope wireFormat
    .ok ⟨subject, [], data⟩
  | .protoHeaders => marshalEnvelopeProtoHeaders subject envelope
  | .other _ => .error .wireFormatInvalid

/-! ## Decoders -/

def CloudEvent.zero : CloudEvent := ⟨"", "", "", "", "", "", "", "", "", "", []⟩

/-- The fields of a `CloudEvent` by their names in JSON. -/
def CloudEvent.fields : List (String × Setter CloudEvent) :=
  [("specversion", stringField fun event s => { event with specVersion := s }),
    ("id", stringField fun event s => { event with id := s }),
    ("type", stringField fun event s => { event with type := s }),
    ("source", stringField fun event s => { event with source := s }),
    ("time", stringField fun event s => { event with time := s }),
    ("datacontenttype", stringField fun event s => { event with dataContentType := s }),
    ("tenant_id", stringField fun event s => { event with tenantId := s }),
    ("traceparent", stringField fun event s => { event with traceParent := s }),
    ("tracestate", stringField fun event s => { event with traceState := s }),
    ("baggage", stringField fun event s => { event with baggage := s }),
    ("data", rawField fun event raw => { event with data := raw })]

/-- `json.Unmarshal` into a `CloudEvent`. -/
def CloudEvent.unmarshal (data : List UInt8) : Option CloudEvent :=
  unmarshalStruct CloudEvent.fields CloudEvent.zero data

def unmarshalPayloadJSON (pj : ProtoJSON) (data : List UInt8) : Except BusError (Option Any) :=
  let trimmed := bytesTrimSpace data
  if trimmed = [] ∨ trimmed = bytes "null" then .ok none
  else do
    let payload ← orError .protojson (pj.unmarshal trimmed)
    .ok (some payload)

/-- The envelope that `unmarshalEnvelopeJSON` makes of an event. -/
def Envelope.ofEvent (event : CloudEvent) (recordedAt : Int) (payload : Option Any) : Envelope where
  specVersion := event.specVersion
  id := event.id
  type := event.type
  source := event.source
  time := recordedAt
  dataContentType := event.dataContentType
  tenantId := event.tenantId
  traceParent := event.traceParent
  traceState := event.traceState
  baggage := event.baggage
  payload := payload
  wireFormat := .json

def unmarshalEnvelopeJSON (pj : ProtoJSON) (data : List UInt8) : Except BusError Envelope := do
  let event ← orError .json (CloudEvent.unmarshal data)
  let recordedAt ← orError .time (GoRfc3339.parse event.time)
  let payload ← unmarshalPayloadJSON pj event.data
  .ok (Envelope.ofEvent event recordedAt payload)

/-- The envelope that `unmarshalEnvelopeProto` makes of a message. -/
def Envelope.ofProto (message : EventEnvelope) : Envelope where
  specVersion := message.specVersion
  id := message.id
  type := message.type
  source := message.source
  time := (message.time.map Timestamp.asTime).getD zeroTime
  dataContentType := message.dataContentType
  tenantId := message.tenantId
  traceParent := message.traceParent
  traceState := message.traceState
  baggage := message.baggage
  payload := message.data
  wireFormat := .proto

def unmarshalEnvelopeProto (data : List UInt8) : Except BusError Envelope := do
  let message ← orError .proto (EventEnvelope.unmarshal data)
  .ok (Envelope.ofProto message)

def unmarshalHeaderPayload (pj : ProtoJSON) (contentType : String) (data : List UInt8) :
    Except BusError (Option Any) :=
  if bytesTrimSpace data = [] then .ok none
  else if contains (String.ofList (contentType.toList.map lowerASCII)) "application/json" then
    unmarshalPayloadJSON pj data
  else do
    let payload ← orError .proto (Any.unmarshal data)
    .ok (some payload)

/-- The time header; without one, the time is zero. -/
def parseHeaderTime (rawTime : String) : Except BusError Int :=
  if rawTime = "" then .ok zeroTime else orError .time (GoRfc3339.parse rawTime)

def unmarshalEnvelopeProtoHeaders (pj : ProtoJSON) (message : Msg) : Except BusError Envelope := do
  let header : Header := message.header
  let recordedAt ← parseHeaderTime (trimSpace (header.get headerTime))
  let payload ← unmarshalHeaderPayload pj (header.get headerDataContentType) message.data
  .ok
    { specVersion := trimSpace (header.get headerSpecVersion)
      id := trimSpace (header.get headerID)
      type := trimSpace (header.get headerType)
      source := trimSpace (header.get headerSource)
      time := recordedAt
      dataContentType := trimSpace (header.get headerDataContentType)
      tenantId := trimSpace (header.get headerTenantID)
      traceParent := trimSpace (header.get headerTraceParent)
      traceState := trimSpace (header.get headerTraceState)
      baggage := trimSpace (header.get headerBaggage)
      payload := payload
      wireFormat := .protoHeaders }

/-! ## Detection -/

def detectWireFormat : List UInt8 → WireFormat
  | [] => .other ""
  | c :: _ => if c = 0x7B then .json else .proto

def trimLeadingJSONWhitespace (data : List UInt8) : List UInt8 × Bool :=
  let trimmed := data.dropWhile Json.isSpace
  (trimmed, decide (trimmed ≠ [] ∧ trimmed.length < data.length))

def unmarshalEnvelope (pj : ProtoJSON) (data : List UInt8) : Except BusError Envelope :=
  if data = [] then .error .envelopeEmpty
  else
    let (trimmed, isTrimmed) := trimLeadingJSONWhitespace data
    if trimmed = [] then .error .envelopeEmpty
    else
      match detectWireFormat trimmed with
      | .json =>
        match unmarshalEnvelopeJSON pj trimmed with
        | .ok envelope => .ok envelope
        | .error err =>
          if isTrimmed then
            match unmarshalEnvelopeProto data with
            | .ok envelope => .ok envelope
            | .error _ => .error err
          else .error err
      | .proto => unmarshalEnvelopeProto data
      | .protoHeaders => .error .wireFormatInvalid
      | .other _ => .error .wireFormatInvalid

def hasCloudEventHeaders (header : Header) : Bool :=
  !header.isEmpty &&
    trimSpace (header.get headerSpecVersion) != "" && trimSpace (header.get headerID) != "" &&
    trimSpace (header.get headerType) != "" && trimSpace (header.get headerSource) != ""

def unmarshalMessage (pj : ProtoJSON) : Option Msg → Except BusError Envelope
  | none => .error .messageNil
  | some message =>
    if hasCloudEventHeaders message.header then unmarshalEnvelopeProtoHeaders pj message
    else unmarshalEnvelope pj message.data

end ServiceRuntime.NatsBus
