import ServiceRuntime.NatsBus.DeadLetterCodec
import ServiceRuntime.NatsBus.TraceContext

/-!
# Messages of Any Strings

`buildMessage` makes a message of a change whose fields may be strings of any bytes. What becomes
of bytes that are not UTF-8 depends on the format: `proto.Marshal` refuses them, `json.Marshal`
replaces them in the data, and the subject and the headers take them as they are.

A message that cannot be published becomes a dead letter, and the dead letter replaces them in the
subject and the headers as well. `dead_letter_returns_message_iff` says for which changes the
message that is replayed is the one that failed.

For strings that are text, the encoders are those of the envelopes (`marshalMessage_ofText`, and
`marshalMessage_of_text_change` for what `buildMessage` encodes).
-/

namespace ServiceRuntime.NatsBus

open ServiceRuntime.GoRfc3339 (FourDigitYear)
open GoStrings GoTime GoUtf8
open ServiceRuntime.Json (compact objectText quote quoteBytes)
open Storage W3C

universe u

variable {V : Type u}

/-! ## Changes and envelopes -/

/-- `Publisher`, as far as a message is made with it; there is a connection. -/
structure Publisher where
  subjectPrefix : GoString
  source : GoString
  wireFormat : WireFormat

/-- `Change`, as far as a message is made of it. -/
structure RawChange where
  tenantId : GoString
  aggregateType : GoString
  operation : GoString
  recordedAt : Int
  payload : Option Any

structure RawEnvelope where
  specVersion : GoString
  id : GoString
  type : GoString
  source : GoString
  time : Int
  dataContentType : GoString
  tenantId : GoString
  traceParent : GoString
  traceState : GoString
  baggage : GoString
  payload : Option Any

/-- `strings.TrimSuffix(s, ".")`. -/
def trimDot (s : GoString) : GoString := if s.getLast? = some 0x2E then s.dropLast else s

def RawChange.subject (change : RawChange) (subjectPrefix : GoString) : GoString :=
  trimDot subjectPrefix ++ 0x2E :: (change.aggregateType ++ 0x2E :: change.operation)

def RawChange.toCloudEvent (change : RawChange) (subject source : GoString) (now : Int)
    (random : Fin 16 → UInt8) : RawEnvelope where
  specVersion := bytes "1.0"
  id := bytes (newString random)
  type := subject
  source := source
  time := if isZero change.recordedAt then now else change.recordedAt
  dataContentType := bytes "application/protobuf"
  tenantId := change.tenantId
  traceParent := []
  traceState := []
  baggage := []
  payload := change.payload

namespace RawEnvelope

def ofText (envelope : Envelope) : RawEnvelope where
  specVersion := bytes envelope.specVersion
  id := bytes envelope.id
  type := bytes envelope.type
  source := bytes envelope.source
  time := envelope.time
  dataContentType := bytes envelope.dataContentType
  tenantId := bytes envelope.tenantId
  traceParent := bytes envelope.traceParent
  traceState := bytes envelope.traceState
  baggage := bytes envelope.baggage
  payload := envelope.payload

/-- The text of an envelope, if all its strings are text. -/
def text? (envelope : RawEnvelope) : Option Envelope := do
  let specVersion ← ofBytes envelope.specVersion
  let id ← ofBytes envelope.id
  let type ← ofBytes envelope.type
  let source ← ofBytes envelope.source
  let dataContentType ← ofBytes envelope.dataContentType
  let tenantId ← ofBytes envelope.tenantId
  let traceParent ← ofBytes envelope.traceParent
  let traceState ← ofBytes envelope.traceState
  let baggage ← ofBytes envelope.baggage
  some
    { specVersion, id, type, source, time := envelope.time, dataContentType, tenantId,
      traceParent, traceState, baggage, payload := envelope.payload, wireFormat := .other "" }

/-- `injectTraceContext`: what it sets does not depend on the envelope, and is text. -/
def injectTraceContext (global : Propagator V) (ctx : Context V) (envelope : RawEnvelope) :
    RawEnvelope :=
  let traced := NatsBus.injectTraceContext global ctx (Envelope.ofEvent .zero zeroTime none)
  { envelope with
    traceParent := bytes traced.traceParent
    traceState := bytes traced.traceState
    baggage := bytes traced.baggage }

/-! ## Encoders -/

def omitEmpty (name : String) (value : GoString) : List (String × List UInt8) :=
  if value = [] then [] else [(name, quoteBytes value)]

/-- The members of the `CloudEvent` that `marshalEnvelopeJSON` writes. -/
def members (envelope : RawEnvelope) (data : List UInt8) : List (String × List UInt8) :=
  [("specversion", quoteBytes envelope.specVersion), ("id", quoteBytes envelope.id),
    ("type", quoteBytes envelope.type), ("source", quoteBytes envelope.source),
    ("time", quote (GoRfc3339.format envelope.time)),
    ("datacontenttype", quote "application/json"), ("tenant_id", quoteBytes envelope.tenantId)] ++
  (omitEmpty "traceparent" envelope.traceParent ++ (omitEmpty "tracestate" envelope.traceState ++
    (omitEmpty "baggage" envelope.baggage ++ [("data", data)])))

/-- `marshalEnvelopeJSON`. -/
def marshalJSON (pj : ProtoJSON) (envelope : RawEnvelope) : Except BusError (List UInt8) := do
  let data ← marshalPayloadJSON pj envelope.payload
  orError .json ((compact data).map fun data => objectText (envelope.members data))

/-- `marshalEnvelopeProto`: a string that is no text is refused. -/
def marshalProto (envelope : RawEnvelope) : Except BusError (List UInt8) := do
  let envelope ← orError .proto envelope.text?
  marshalEnvelopeProto envelope

def entryNonEmpty (key : String) (value : GoString) : List (GoString × List GoString) :=
  if value = [] then [] else [(bytes key, [value])]

/-- The headers that `marshalEnvelopeProtoHeaders` sets, one after the other. -/
def entries (envelope : RawEnvelope) : List (GoString × List GoString) :=
  let dataContentType := bytesTrimSpace envelope.dataContentType
  [(bytes headerSpecVersion, [envelope.specVersion]), (bytes headerID, [envelope.id]),
    (bytes headerType, [envelope.type]), (bytes headerSource, [envelope.source])] ++
  ((if isZero envelope.time then []
    else [(bytes headerTime, [bytes (GoRfc3339.format envelope.time)])]) ++
  (entryNonEmpty headerTenantID envelope.tenantId ++
  (entryNonEmpty headerTraceParent envelope.traceParent ++
  (entryNonEmpty headerTraceState envelope.traceState ++
  (entryNonEmpty headerBaggage envelope.baggage ++
    [(bytes headerDataContentType,
      [if dataContentType = [] then bytes "application/protobuf" else dataContentType])])))))

/-- `marshalEnvelopeProtoHeaders`. -/
def marshalProtoHeaders (subject : GoString) (envelope : RawEnvelope) : Except BusError RawMsg :=
  let header : RawHeader := KeyedTable.empty.putAll envelope.entries
  match envelope.payload with
  | none => .ok ⟨subject, header, []⟩
  | some payload => do
    let data ← orError .proto payload.marshal
    .ok ⟨subject, header, data⟩

/-- `marshalEnvelopeMessage`. -/
def marshalMessage (pj : ProtoJSON) (subject : GoString) (envelope : RawEnvelope) :
    WireFormat → Except BusError RawMsg
  | .json => do
    let data ← envelope.marshalJSON pj
    .ok ⟨subject, .empty, data⟩
  | .proto => do
    let data ← envelope.marshalProto
    .ok ⟨subject, .empty, data⟩
  | .protoHeaders => envelope.marshalProtoHeaders subject
  | .other _ => .error .wireFormatInvalid

end RawEnvelope

def normalizedWireFormat : WireFormat → WireFormat
  | .json => .json
  | .proto => .proto
  | .protoHeaders => .protoHeaders
  | .other name => if name = "" then .json else .other ""

def propagatedEntries (global : Propagator V) (ctx : Context V) : List (GoString × List GoString) :=
  (propagatedHeaders global ctx).rows.map fun entry => (bytes entry.1, [bytes entry.2])

def injectMessageTraceContext (global : Propagator V) (ctx : Context V) (message : RawMsg) :
    RawMsg :=
  { message with header := message.header.putAll (propagatedEntries global ctx) }

def buildMessage (pj : ProtoJSON) (global : Propagator V) (ctx : Context V) (publisher : Publisher)
    (change : RawChange) (now : Int) (random : Fin 16 → UInt8) : Except BusError RawMsg := do
  let subject := change.subject publisher.subjectPrefix
  let envelope := (change.toCloudEvent subject publisher.source now random).injectTraceContext
    global ctx
  let message ← envelope.marshalMessage pj subject (normalizedWireFormat publisher.wireFormat)
  .ok (injectMessageTraceContext global ctx message)

/-! ## Messages of text -/

variable {key tenantId : String} {change : RawChange} {global : Propagator V} {ctx : Context V}
  {message : RawMsg} {keys : List GoString}

theorem toCloudEvent_ofText (change : RawChange) (h : change.tenantId = bytes tenantId)
    (subject source : String) (now : Int) (random : Fin 16 → UInt8) :
    change.toCloudEvent (bytes subject) (bytes source) now random =
      .ofText ((Change.mk tenantId change.recordedAt change.payload).toCloudEvent subject source
        now random) := by
  unfold RawChange.toCloudEvent
  rw [h]
  rfl

theorem injectTraceContext_ofText (global : Propagator V) (ctx : Context V) (envelope : Envelope) :
    (RawEnvelope.ofText envelope).injectTraceContext global ctx =
      .ofText (injectTraceContext global ctx envelope) := by
  unfold RawEnvelope.injectTraceContext injectTraceContext
  dsimp only
  split
  · rfl
  · split
    · rfl
    · rfl

/-- A header of bytes has the entries of a header of text, in any order. -/
def Agrees (raw : RawHeader) (header : Header) : Prop :=
  ∀ entry, entry ∈ raw.rows ↔ ∃ e ∈ header, entry = (bytes e.1, e.2.map bytes)

/-- The outcome for strings as bytes is the one for the strings. -/
inductive Matches : Except BusError Msg → Except BusError RawMsg → Prop
  | ok {message : Msg} {raw : RawMsg} (subject : raw.subject = bytes message.subject)
      (header : Agrees raw.header message.header) (data : raw.data = message.data) :
      Matches (.ok message) (.ok raw)
  | error (err : BusError) : Matches (.error err) (.error err)

theorem agrees_empty : Agrees .empty [] := by
  intro entry
  exact iff_of_false List.not_mem_nil (by simp)

theorem Agrees.set {raw : RawHeader} {header : Header} (h : Agrees raw header)
    (key value : String) :
    Agrees (raw.putAll [(bytes key, [bytes value])]) (header.set key value) := by
  intro entry
  refine KeyedTable.mem_putFront.trans ?_
  rw [h entry, Header.set]
  simp only [List.mem_append, List.mem_filter, List.mem_singleton, bne_iff_ne]
  constructor
  · rintro (rfl | ⟨⟨e, he, rfl⟩, hkey⟩)
    · exact ⟨_, .inr rfl, rfl⟩
    · exact ⟨e, .inl ⟨he, fun heq => hkey (congrArg bytes heq)⟩, rfl⟩
  · rintro ⟨e, ⟨he, hkey⟩ | rfl, rfl⟩
    · exact .inr ⟨⟨e, he, rfl⟩, fun heq => hkey (bytes_injective heq)⟩
    · exact .inl rfl

theorem bytes_eq_nil_iff {s : String} : bytes s = [] ↔ s = "" :=
  ⟨bytes_eq_nil, fun h => by rw [h]; rfl⟩

theorem Agrees.setNonEmpty {raw : RawHeader} {header : Header} (h : Agrees raw header)
    (key value : String) :
    Agrees (raw.putAll (RawEnvelope.entryNonEmpty key (bytes value)))
      (header.setNonEmpty key value) := by
  unfold RawEnvelope.entryNonEmpty Header.setNonEmpty
  simp only [bytes_eq_nil_iff]
  split
  · exact h
  · exact h.set key value

/-- Setting one header after the other, bytes and text stay in agreement. -/
theorem agrees_headers (envelope : Envelope) :
    Agrees (KeyedTable.empty.putAll (RawEnvelope.ofText envelope).entries : RawHeader)
      envelope.headers := by
  have hfirst := (((agrees_empty.set headerSpecVersion envelope.specVersion).set headerID
    envelope.id).set headerType envelope.type).set headerSource envelope.source
  have htime : ∀ {raw : RawHeader} {header : Header}, Agrees raw header →
      Agrees (raw.putAll (if isZero envelope.time then []
          else [(bytes headerTime, [bytes (GoRfc3339.format envelope.time)])]))
        (if isZero envelope.time then header
          else header.set headerTime (GoRfc3339.format envelope.time)) := by
    intro raw header h
    split
    · exact h
    · exact h.set _ _
  have hcontent : (if bytesTrimSpace (bytes envelope.dataContentType) = [] then
      bytes "application/protobuf" else bytesTrimSpace (bytes envelope.dataContentType)) =
        bytes (if trimSpace envelope.dataContentType = "" then "application/protobuf"
          else trimSpace envelope.dataContentType) := by
    rw [bytesTrimSpace_bytes]
    simp only [bytes_eq_nil_iff]
    split
    · rfl
    · rfl
  unfold RawEnvelope.entries Envelope.headers RawEnvelope.ofText
  dsimp only
  rw [hcontent]
  simp only [KeyedTable.putAll_append]
  -- from the last header to the first
  apply Agrees.set
  apply Agrees.setNonEmpty
  apply Agrees.setNonEmpty
  apply Agrees.setNonEmpty
  apply Agrees.setNonEmpty
  exact htime hfirst

theorem omitEmpty_bytes (name value : String) :
    RawEnvelope.omitEmpty name (bytes value) = omitEmpty name value := by
  unfold RawEnvelope.omitEmpty omitEmpty
  simp only [bytes_eq_nil_iff, Json.quoteBytes_bytes]

theorem members_ofText (envelope : Envelope) (data data' : List UInt8) :
    (RawEnvelope.ofText envelope).members data' = (envelope.toEvent data).members data' := by
  unfold RawEnvelope.members CloudEvent.members Envelope.toEvent RawEnvelope.ofText
  simp only [Json.quoteBytes_bytes, omitEmpty_bytes]

theorem text?_ofText (envelope : Envelope) :
    (RawEnvelope.ofText envelope).text? = some { envelope with wireFormat := .other "" } := by
  unfold RawEnvelope.text? RawEnvelope.ofText
  simp only [ofBytes_bytes]
  rfl

/-- **Text is encoded as text.** -/
theorem marshalMessage_ofText (pj : ProtoJSON) (subject : String) (envelope : Envelope)
    (wireFormat : WireFormat) :
    Matches (marshalEnvelopeMessage pj subject envelope wireFormat)
      ((RawEnvelope.ofText envelope).marshalMessage pj (bytes subject) wireFormat) := by
  -- the first two formats put all in the data and set no header
  have hok : ∀ data : Except BusError (List UInt8),
      Matches (data.bind fun data => .ok ⟨subject, [], data⟩)
        (data.bind fun data => .ok ⟨bytes subject, .empty, data⟩) := by
    intro data
    cases data with
    | error err => exact .error err
    | ok data => exact .ok rfl agrees_empty rfl
  cases wireFormat with
  | json =>
    have hjson : (RawEnvelope.ofText envelope).marshalJSON pj = marshalEnvelopeJSON pj envelope := by
      have htext : ∀ data, (compact data).map (fun data' =>
          objectText ((RawEnvelope.ofText envelope).members data')) =
            (envelope.toEvent data).marshal := by
        intro data
        simp only [members_ofText envelope data]
        rfl
      unfold RawEnvelope.marshalJSON marshalEnvelopeJSON
      simp only [htext]
      rfl
    rw [RawEnvelope.marshalMessage, hjson]
    exact hok _
  | proto =>
    have hproto : (RawEnvelope.ofText envelope).marshalProto = marshalEnvelopeProto envelope := by
      rw [RawEnvelope.marshalProto, text?_ofText]
      rfl
    rw [RawEnvelope.marshalMessage, hproto]
    exact hok _
  | protoHeaders =>
    have hheaders := agrees_headers envelope
    have hpayload : (RawEnvelope.ofText envelope).payload = envelope.payload := rfl
    unfold marshalEnvelopeMessage RawEnvelope.marshalMessage marshalEnvelopeProtoHeaders
      RawEnvelope.marshalProtoHeaders
    rw [hpayload]
    generalize (KeyedTable.empty.putAll (RawEnvelope.ofText envelope).entries : RawHeader) = header
      at hheaders ⊢
    cases envelope.payload with
    | none => exact .ok rfl hheaders rfl
    | some payload =>
      dsimp only
      cases payload.marshal with
      | none => exact .error .proto
      | some data => exact .ok rfl hheaders rfl
  | other name => exact .error _

theorem marshalMessage_of_text_change (pj : ProtoJSON) (global : Propagator V) (ctx : Context V)
    (change : RawChange) (h : change.tenantId = bytes tenantId) (subject source : String)
    (now : Int) (random : Fin 16 → UInt8) (wireFormat : WireFormat) :
    Matches
      (marshalEnvelopeMessage pj subject (injectTraceContext global ctx
        ((Change.mk tenantId change.recordedAt change.payload).toCloudEvent subject source now
          random)) wireFormat)
      (((change.toCloudEvent (bytes subject) (bytes source) now random).injectTraceContext
        global ctx).marshalMessage pj (bytes subject) wireFormat) := by
  rw [toCloudEvent_ofText change h, injectTraceContext_ofText]
  exact marshalMessage_ofText pj subject _ wireFormat

/-! ## Subjects -/

theorem valid_trimDot {s : GoString} : Valid (trimDot s) ↔ Valid s := by
  unfold trimDot
  split
  · rename_i hlast
    obtain ⟨init, rfl⟩ := List.getLast?_eq_some_iff.mp hlast
    rw [List.dropLast_concat, valid_append_cons (by decide)]
    exact (and_iff_left (by decide)).symm
  · rfl

theorem valid_subject {subjectPrefix : GoString} :
    Valid (change.subject subjectPrefix) ↔
      Valid subjectPrefix ∧ Valid change.aggregateType ∧ Valid change.operation := by
  rw [RawChange.subject, valid_append_cons (by decide), valid_append_cons (by decide),
    valid_trimDot]

/-! ## Headers -/

namespace RawEnvelope

theorem map_fst_entryNonEmpty_sublist (key : String) (value : GoString) :
    ((entryNonEmpty key value).map Prod.fst).Sublist [bytes key] := by
  unfold entryNonEmpty
  split
  · exact List.nil_sublist _
  · exact List.Sublist.refl _

theorem nodup_entries (envelope : RawEnvelope) : (envelope.entries.map Prod.fst).Nodup := by
  have hkeys : ([headerSpecVersion, headerID, headerType, headerSource, headerTime,
      headerTenantID, headerTraceParent, headerTraceState, headerBaggage,
      headerDataContentType].map bytes).Nodup := by
    apply List.Nodup.map bytes_injective
    decide
  refine List.Nodup.sublist ?_ hkeys
  have htime : ((if isZero envelope.time then []
      else [(bytes headerTime, [bytes (GoRfc3339.format envelope.time)])]).map
        (Prod.fst : GoString × List GoString → GoString)).Sublist [bytes headerTime] := by
    split
    · exact List.nil_sublist _
    · exact List.Sublist.refl _
  unfold entries
  simp only [List.map_append]
  apply List.Sublist.append (List.Sublist.refl _)
  apply htime.append
  apply (map_fst_entryNonEmpty_sublist _ _).append
  apply (map_fst_entryNonEmpty_sublist _ _).append
  apply (map_fst_entryNonEmpty_sublist _ _).append
  apply (map_fst_entryNonEmpty_sublist _ _).append
  exact List.Sublist.refl _

theorem mem_putAll_entries {envelope : RawEnvelope} {entry : GoString × List GoString} :
    entry ∈ (KeyedTable.empty.putAll envelope.entries : RawHeader).rows ↔
      entry ∈ envelope.entries := by
  rw [KeyedTable.mem_putAll_iff envelope.nodup_entries]
  exact or_iff_left fun h => List.not_mem_nil h.1

end RawEnvelope

theorem validEntry_single {key value : GoString} (hkey : Valid key) :
    ValidEntry (key, [value]) ↔ Valid value := by
  simp [ValidEntry, hkey]

theorem nodup_propagatedEntries (global : Propagator V) (ctx : Context V) :
    ((propagatedEntries global ctx).map Prod.fst).Nodup := by
  have hkeys := (propagatedHeaders global ctx).unique.map bytes_injective
  rw [List.map_map] at hkeys
  rw [propagatedEntries, List.map_map]
  exact hkeys

theorem mem_map_fst_propagatedEntries :
    bytes key ∈ (propagatedEntries global ctx).map Prod.fst ↔
      key ∈ (propagatedHeaders global ctx).rows.map Prod.fst := by
  rw [propagatedEntries, List.map_map]
  simp only [List.mem_map, Function.comp]
  constructor
  · rintro ⟨entry, hentry, hkey⟩
    exact ⟨entry, hentry, bytes_injective hkey⟩
  · rintro ⟨entry, hentry, rfl⟩
    exact ⟨entry, hentry, rfl⟩

/-- What a propagator writes is text; what was there matters where it is not overwritten. -/
theorem isText_injectMessageTraceContext :
    (injectMessageTraceContext global ctx message).IsText ↔
      Valid message.subject ∧ ∀ entry ∈ message.header.rows,
        entry.1 ∉ (propagatedEntries global ctx).map Prod.fst → ValidEntry entry := by
  have hmem : ∀ entry, entry ∈ (message.header.putAll (propagatedEntries global ctx)).rows ↔
      entry ∈ propagatedEntries global ctx ∨
        entry ∈ message.header.rows ∧ entry.1 ∉ (propagatedEntries global ctx).map Prod.fst :=
    fun entry => KeyedTable.mem_putAll_iff (nodup_propagatedEntries global ctx)
  have hvalid : ∀ entry ∈ propagatedEntries global ctx, ValidEntry entry := by
    intro entry hentry
    obtain ⟨entry', -, rfl⟩ := List.mem_map.mp hentry
    exact (validEntry_single (valid_bytes _)).mpr (valid_bytes _)
  constructor
  · intro h
    refine ⟨h.subject, fun entry hentry hkey => ?_⟩
    exact h.header entry ((hmem entry).mpr (.inr ⟨hentry, hkey⟩))
  · rintro ⟨hsubject, hheader⟩
    refine ⟨hsubject, fun entry hentry => ?_⟩
    rcases (hmem entry).mp hentry with hentry | ⟨hentry, hkey⟩
    · exact hvalid entry hentry
    · exact hheader entry hentry hkey

/-! ## What was built -/

/-- Only the header format sets headers. -/
theorem RawEnvelope.marshalMessage_eq_ok {pj : ProtoJSON} {subject : GoString}
    {envelope : RawEnvelope} {wireFormat : WireFormat}
    (h : envelope.marshalMessage pj subject wireFormat = .ok message) :
    message.subject = subject ∧ message.header =
      if wireFormat = .protoHeaders then (KeyedTable.empty.putAll envelope.entries : RawHeader)
      else .empty := by
  cases wireFormat with
  | json | proto =>
    obtain ⟨data, -, hmessage⟩ := bind_eq_ok.mp h
    cases hmessage
    exact ⟨rfl, (if_neg (by simp)).symm⟩
  | protoHeaders =>
    rw [RawEnvelope.marshalMessage, RawEnvelope.marshalProtoHeaders] at h
    rw [if_pos rfl]
    split at h
    · cases h
      refine ⟨rfl, ?_⟩
      dsimp only
    · obtain ⟨data, -, hmessage⟩ := bind_eq_ok.mp h
      cases hmessage
      refine ⟨rfl, ?_⟩
      dsimp only
  | other name => cases h

/-- A header outside `keys` is text. -/
def TextOutside (keys : List GoString) (entry : GoString × List GoString) : Prop :=
  entry.1 ∉ keys → ValidEntry entry

theorem textOutside_single {value : GoString} :
    TextOutside keys (bytes key, [value]) ↔ (bytes key ∉ keys → Valid value) :=
  imp_congr_right fun _ => validEntry_single (valid_bytes key)

theorem textOutside_text (keys : List GoString) (key value : String) :
    TextOutside keys (bytes key, [bytes value]) :=
  textOutside_single.mpr fun _ => valid_bytes value

theorem textOutside_entryNonEmpty {value : GoString} :
    (∀ entry ∈ RawEnvelope.entryNonEmpty key value, TextOutside keys entry) ↔
      (bytes key ∉ keys → Valid value) := by
  unfold RawEnvelope.entryNonEmpty
  split
  · rename_i hempty
    subst hempty
    exact iff_of_true (by simp) fun _ => by decide
  · rw [List.forall_mem_singleton, textOutside_single]

/-- Of the headers of a built envelope, two are copied from strings that need not be text. -/
theorem textOutside_entries {subject source : GoString} {now : Int} {random : Fin 16 → UInt8}
    (hsubject : Valid subject) :
    (∀ entry ∈ ((change.toCloudEvent subject source now random).injectTraceContext
        global ctx).entries, TextOutside keys entry) ↔
      (bytes headerSource ∉ keys → Valid source) ∧
        (bytes headerTenantID ∉ keys → Valid change.tenantId) := by
  have htype : TextOutside keys (bytes headerType, [subject]) :=
    textOutside_single.mpr fun _ => hsubject
  have htime : ∀ time, ∀ entry ∈ (if isZero time then []
      else [(bytes headerTime, [bytes (GoRfc3339.format time)])] :
        List (GoString × List GoString)), TextOutside keys entry := by
    intro time entry hentry
    split at hentry
    · cases hentry
    · rw [List.mem_singleton.mp hentry]
      exact textOutside_text _ _ _
  have hoptional : ∀ key value, ∀ entry ∈ RawEnvelope.entryNonEmpty key (bytes value),
      TextOutside keys entry :=
    fun key value => textOutside_entryNonEmpty.mpr fun _ => valid_bytes value
  have hcontent : TextOutside keys (bytes headerDataContentType,
      [if bytesTrimSpace (bytes "application/protobuf") = [] then bytes "application/protobuf"
        else bytesTrimSpace (bytes "application/protobuf")]) :=
    textOutside_single.mpr fun _ => by
      rw [bytesTrimSpace_bytes]
      split
      · exact valid_bytes _
      · exact valid_bytes _
  simp only [RawEnvelope.entries, RawEnvelope.injectTraceContext, RawChange.toCloudEvent,
    List.forall_mem_append, List.forall_mem_cons]
  constructor
  · rintro ⟨⟨-, -, -, hsource, -⟩, -, htenant, -⟩
    exact ⟨textOutside_single.mp hsource, textOutside_entryNonEmpty.mp htenant⟩
  · rintro ⟨hsource, htenant⟩
    refine ⟨⟨textOutside_text _ _ _, textOutside_text _ _ _, htype,
      textOutside_single.mpr hsource, by simp⟩, htime _, textOutside_entryNonEmpty.mpr htenant,
      hoptional _ _, hoptional _ _, hoptional _ _, hcontent, by simp⟩

/-- The strings that reach the subject or a header of a built message are text. The source and the
    tenant become headers in the header format, where a propagator may overwrite them. -/
structure TextInput (global : Propagator V) (ctx : Context V) (publisher : Publisher)
    (change : RawChange) : Prop where
  subjectPrefix : Valid publisher.subjectPrefix
  aggregateType : Valid change.aggregateType
  operation : Valid change.operation
  source : publisher.wireFormat = .protoHeaders →
    headerSource ∉ (propagatedHeaders global ctx).rows.map Prod.fst → Valid publisher.source
  tenantId : publisher.wireFormat = .protoHeaders →
    headerTenantID ∉ (propagatedHeaders global ctx).rows.map Prod.fst → Valid change.tenantId

theorem normalizedWireFormat_eq_protoHeaders {wireFormat : WireFormat} :
    normalizedWireFormat wireFormat = .protoHeaders ↔ wireFormat = .protoHeaders := by
  cases wireFormat with
  | other name =>
    rw [normalizedWireFormat]
    split <;> simp
  | _ => simp [normalizedWireFormat]

theorem isText_buildMessage {pj : ProtoJSON} {publisher : Publisher} {now : Int}
    {random : Fin 16 → UInt8}
    (h : buildMessage pj global ctx publisher change now random = .ok message) :
    message.IsText ↔ TextInput global ctx publisher change := by
  obtain ⟨base, hbase, hmessage⟩ := bind_eq_ok.mp h
  cases hmessage
  obtain ⟨hsubject, hheader⟩ := RawEnvelope.marshalMessage_eq_ok hbase
  rw [isText_injectMessageTraceContext, hsubject, hheader, valid_subject]
  -- in the other formats no header is copied from the change
  by_cases hformat : publisher.wireFormat = .protoHeaders
  · rw [if_pos (normalizedWireFormat_eq_protoHeaders.mpr hformat)]
    constructor
    · rintro ⟨hvalid, hentries⟩
      obtain ⟨hsource, htenant⟩ := (textOutside_entries (valid_subject.mpr hvalid)).mp
        fun entry hentry => hentries entry (RawEnvelope.mem_putAll_entries.mpr hentry)
      rw [mem_map_fst_propagatedEntries] at hsource htenant
      exact ⟨hvalid.1, hvalid.2.1, hvalid.2.2, fun _ => hsource, fun _ => htenant⟩
    · intro h
      have hvalid := And.intro h.subjectPrefix (And.intro h.aggregateType h.operation)
      have hsource := h.source hformat
      have htenant := h.tenantId hformat
      rw [← mem_map_fst_propagatedEntries] at hsource htenant
      refine ⟨hvalid, fun entry hentry => ?_⟩
      exact (textOutside_entries (valid_subject.mpr hvalid)).mpr ⟨hsource, htenant⟩ entry
        (RawEnvelope.mem_putAll_entries.mp hentry)
  · rw [if_neg fun h => hformat (normalizedWireFormat_eq_protoHeaders.mp h)]
    constructor
    · rintro ⟨hvalid, -⟩
      exact ⟨hvalid.1, hvalid.2.1, hvalid.2.2, fun h => absurd h hformat, fun h => absurd h hformat⟩
    · intro h
      exact ⟨⟨h.subjectPrefix, h.aggregateType, h.operation⟩,
        fun entry hentry => absurd hentry List.not_mem_nil⟩

/-- **The message that is replayed is the one that failed** exactly if what reaches its subject and
    its headers is text, and the clock shows a year that JSON can say. -/
theorem dead_letter_returns_message_iff (pj : ProtoJSON) (global : Propagator V) (ctx : Context V)
    (publisher : Publisher) (change : RawChange) (now : Int) (random : Fin 16 → UInt8)
    {message : RawMsg} (h : buildMessage pj global ctx publisher change now random = .ok message)
    (publishErr id uuid : GoString) (failedAt clock : Int) :
    Returns message publishErr id uuid failedAt clock ↔
      FourDigitYear (if isZero failedAt then clock else failedAt) ∧
        TextInput global ctx publisher change := by
  rw [returns_iff, isText_buildMessage h]

/-- The message for a new order of some tenant, without a payload, published within a span. -/
def buildOrderCreated (wireFormat : WireFormat) (tenantId aggregateType : GoString) :
    Except BusError RawMsg :=
  buildMessage ⟨fun _ => none, fun _ => none⟩ (.composite [.traceContext]) ⟨spanContextOf 1, ()⟩
    ⟨bytes "events.", bytes "orders", wireFormat⟩
    ⟨tenantId, aggregateType, bytes "created", unixEpoch, none⟩ unixEpoch fun _ => 0

/-- Text comes back, in the format that has it in the headers. -/
theorem dead_letter_returns_order :
    ∃ message, buildOrderCreated .protoHeaders (bytes "tenant") (bytes "order") = .ok message ∧
      Returns message (bytes "timeout") (bytes "1") (bytes "2") unixEpoch unixEpoch := by
  obtain ⟨message, hmessage⟩ : ∃ message,
      buildOrderCreated .protoHeaders (bytes "tenant") (bytes "order") = .ok message := ⟨_, rfl⟩
  refine ⟨message, hmessage, ?_⟩
  apply (dead_letter_returns_message_iff _ _ _ _ _ _ _ hmessage _ _ _ _ _).mpr
  exact ⟨by decide, valid_bytes _, valid_bytes _, valid_bytes _, fun _ _ => valid_bytes _,
    fun _ _ => valid_bytes _⟩

/-- A byte that is not UTF-8 in the type of the aggregate: the message is built, its subject has
    that byte, and no dead letter brings it back. -/
theorem dead_letter_changes_subject :
    ∃ message, buildOrderCreated .json (bytes "tenant") [0xFF] = .ok message ∧
      ∀ publishErr id uuid failedAt clock,
        ¬Returns message publishErr id uuid failedAt clock := by
  obtain ⟨message, hmessage⟩ : ∃ message,
      buildOrderCreated .json (bytes "tenant") [0xFF] = .ok message := ⟨_, rfl⟩
  refine ⟨message, hmessage, fun publishErr id uuid failedAt clock h => ?_⟩
  have htext := (isText_buildMessage hmessage).mp ((returns_iff _ _ _ _ _ _).mp h).2
  exact absurd htext.aggregateType (by decide)

end ServiceRuntime.NatsBus
