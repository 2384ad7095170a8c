import ServiceRuntime.NatsBus.Envelope

/-!
# What Each Wire Format Brings Back

For each encoder of an envelope, what its own decoder makes of the result:

- the message format brings back everything but the content type,
- the JSON format rounds the time down to the second, and brings back the payload that `protojson`
  reads from its own text; nothing comes back if `protojson` does not accept that text, or if the
  envelope would be nested deeper than `encoding/json` reads,
- the header format rounds the time as well, trims the strings, and takes a blank body for no
  payload at all.
-/

namespace ServiceRuntime.NatsBus

open Codec GoStrings GoTime GoUtf8
open ServiceRuntime.Json (IsCompact Member Setter compact lookupField maxNestingDepth nesting
  objectText quote stringField takeMember)
open ServiceRuntime.Json.Scanner (IsString isString_quote)

/-- The instant that is left when the fraction of the second is dropped. -/
def wholeSecond (t : Int) : Int := t / 1000000000 * 1000000000

/-! ## The message format -/

variable {envelope : Envelope} {out data text : List UInt8} {pj : ProtoJSON}
  {read payload : Option Any}

theorem marshalEnvelopeProto_eq_ok :
    marshalEnvelopeProto envelope = .ok data ↔
      envelope.toProto.encode.length < 2 ^ 63 ∧ envelope.toProto.encode = data := by
  unfold marshalEnvelopeProto EventEnvelope.marshal
  rw [orError_eq_ok, slice_eq_some]

/-- **The message format brings back the envelope.** -/
theorem unmarshalEnvelopeProto_encode (hlo : 0 ≤ envelope.time)
    (hhi : envelope.time < GoRfc3339.endOfYear9999)
    (hsize : envelope.toProto.encode.length < 2 ^ 63) :
    unmarshalEnvelopeProto envelope.toProto.encode =
      .ok { envelope with dataContentType := "application/protobuf", wireFormat := .proto } := by
  have hbound : envelope.time < 2 ^ 63 * 1000000000 := lt_trans hhi (by decide)
  have hread : EventEnvelope.unmarshal envelope.toProto.encode = some envelope.toProto := by
    refine EventEnvelope.unmarshal_encode _ hsize ?_
    intro ts hts
    cases hts
    exact Timestamp.inRange_new hlo hbound
  have htime : (Timestamp.new envelope.time).asTime = envelope.time :=
    Timestamp.asTime_new hlo hbound
  unfold unmarshalEnvelopeProto
  rw [hread]
  show Except.ok (Envelope.ofProto envelope.toProto) = _
  simp only [Envelope.ofProto, Envelope.toProto, Option.map_some, Option.getD_some, htime]

/-! ## The JSON format -/

section Members

variable {name : String} {set : CloudEvent → String → CloudEvent}

theorem foldlM_string (h : lookupField CloudEvent.fields name = some (stringField set))
    (event : CloudEvent) (s : String) (rest : List (String × List UInt8)) :
    (((name, quote s) :: rest).map Member.of).foldlM (takeMember CloudEvent.fields) event =
      (rest.map Member.of).foldlM (takeMember CloudEvent.fields) (set event s) :=
  Json.foldlM_member h (Json.stringField_quote set event s) rest

theorem foldlM_omitEmpty (h : lookupField CloudEvent.fields name = some (stringField set))
    {event : CloudEvent} (hempty : set event "" = event) (s : String)
    (rest : List (String × List UInt8)) :
    ((omitEmpty name s ++ rest).map Member.of).foldlM (takeMember CloudEvent.fields) event =
      (rest.map Member.of).foldlM (takeMember CloudEvent.fields) (set event s) := by
  unfold omitEmpty
  apply Json.foldlM_omitted h (set event s)
  · rintro rfl
    exact hempty
  · exact fun _ => Json.stringField_quote set event s

end Members

theorem foldlM_data (event : CloudEvent) (data : List UInt8) :
    ([("data", data)].map Member.of).foldlM (takeMember CloudEvent.fields) event =
      some { event with data := data } := by
  have hlookup : lookupField CloudEvent.fields "data" =
      some (Json.rawField fun event raw => { event with data := raw }) := rfl
  rw [List.map_cons, List.foldlM_cons, Json.takeMember_of, hlookup]
  rfl

theorem mem_members {event : CloudEvent} {m : String × List UInt8} (hm : m ∈ event.members data) :
    IsString m.2 ∨ m.2 = data := by
  have homit : ∀ name value, ∀ m ∈ omitEmpty name value, IsString m.2 := by
    intro name value m hm
    unfold omitEmpty at hm
    split at hm
    · cases hm
    · rw [List.mem_singleton.mp hm]
      exact isString_quote value
  unfold CloudEvent.members at hm
  simp only [List.mem_append] at hm
  rcases hm with hm | hm | hm | hm | hm
  · simp only [List.mem_cons, List.not_mem_nil, or_false] at hm
    rcases hm with rfl | rfl | rfl | rfl | rfl | rfl | rfl <;> exact .inl (isString_quote _)
  · exact .inl (homit _ _ m hm)
  · exact .inl (homit _ _ m hm)
  · exact .inl (homit _ _ m hm)
  · exact .inr (by rw [List.mem_singleton.mp hm])

theorem isCompact_members (event : CloudEvent) (h : IsCompact data) :
    ∀ m ∈ event.members data, IsCompact m.2 := by
  intro m hm
  rcases mem_members hm with hstring | hdata
  · exact hstring.isCompact
  · rw [hdata]
    exact h

theorem CloudEvent.marshal_of_compact {event : CloudEvent} (h : compact event.data = some out) :
    event.marshal = some (objectText (event.members out)) := by
  unfold CloudEvent.marshal
  rw [h, Option.map_some]

/-- **A written `CloudEvent` is read back**, with its data as written, if one level more can be
    read than the data has. -/
theorem CloudEvent.unmarshal_members (event : CloudEvent) (h : IsCompact data)
    (hnesting : nesting data < maxNestingDepth) :
    CloudEvent.unmarshal (objectText (event.members data)) = some { event with data := data } := by
  have hlevel : ∀ m ∈ event.members data, nesting m.2 < maxNestingDepth := by
    intro m hm
    rcases mem_members hm with hstring | hdata
    · rw [hstring.nesting_eq]
      decide
    · rw [hdata]
      exact hnesting
  unfold CloudEvent.unmarshal
  rw [Json.unmarshalStruct_objectText _ _ (isCompact_members event h) hlevel]
  unfold CloudEvent.members
  simp only [List.cons_append, List.nil_append]
  rw [foldlM_string rfl, foldlM_string rfl, foldlM_string rfl, foldlM_string rfl, foldlM_string rfl,
    foldlM_string rfl, foldlM_string rfl, foldlM_omitEmpty rfl rfl, foldlM_omitEmpty rfl rfl,
    foldlM_omitEmpty rfl rfl, foldlM_data]

theorem CloudEvent.nesting_of_unmarshal {event event' : CloudEvent} (h : IsCompact data)
    (hread : CloudEvent.unmarshal (objectText (event.members data)) = some event') :
    nesting data < maxNestingDepth := by
  have hvalid := Json.valid_of_unmarshalStruct hread
  rw [Json.valid_objectText (isCompact_members event h)] at hvalid
  exact hvalid ("data", data) (by simp [CloudEvent.members])

/-- The payload that is read from the JSON text of a payload; `none` if it has no such text, or if
    `protojson` does not accept it. -/
def jsonPayload (pj : ProtoJSON) : Option Any → Option (Option Any)
  | none => some none
  | some payload => ((pj.marshal payload).bind pj.unmarshal).map some

theorem unmarshalPayloadJSON_null (pj : ProtoJSON) :
    unmarshalPayloadJSON pj (bytes "null") = .ok none := by
  unfold unmarshalPayloadJSON
  have htrim : bytesTrimSpace (bytes "null") = bytes "null" := by decide
  rw [htrim, if_pos (Or.inr rfl)]

theorem unmarshalPayloadJSON_object (pj : ProtoJSON) {rest : List UInt8}
    (h : IsCompact (0x7B :: rest)) :
    unmarshalPayloadJSON pj (0x7B :: rest) =
      (orError .protojson (pj.unmarshal (0x7B :: rest))).map some := by
  unfold unmarshalPayloadJSON
  rw [h.bytesTrimSpace_eq, if_neg (by rintro (h | h) <;> cases h)]
  cases pj.unmarshal (0x7B :: rest) <;> rfl

/-- The JSON text of a payload leaves a level of nesting for the envelope around it. -/
def Shallow (pj : ProtoJSON) (payload : Option Any) : Prop :=
  ∀ a ∈ payload, ∀ text, pj.marshal a = some text → nesting text < maxNestingDepth

theorem shallow_iff (h : marshalPayloadJSON pj payload = .ok data) :
    Shallow pj payload ↔ nesting data < maxNestingDepth := by
  cases payload with
  | none =>
    cases h
    simp only [Shallow, Option.mem_def, reduceCtorEq, false_implies, implies_true, true_iff]
    decide
  | some a =>
    have hmarshal : pj.marshal a = some data := orError_eq_ok.mp h
    simp [Shallow, hmarshal]

/-- What is written for a payload is read as `protojson` reads it. -/
theorem unmarshalPayloadJSON_compact (laws : pj.Laws) (h : marshalPayloadJSON pj payload = .ok data)
    (hcompact : compact data = some out) :
    unmarshalPayloadJSON pj out = .ok read ↔ jsonPayload pj payload = some read := by
  cases payload with
  | none =>
    cases h
    have hnull : compact (bytes "null") = some (bytes "null") := by decide
    rw [show compact _ = _ from hnull] at hcompact
    cases hcompact
    rw [unmarshalPayloadJSON_null]
    simp [jsonPayload]
  | some a =>
    have hmarshal : pj.marshal a = some data := orError_eq_ok.mp h
    have hnesting := (Json.compact_eq_some.mp hcompact).1
    obtain ⟨rest, hrest⟩ := Json.compact_of_isObject (laws.isObject_marshal hmarshal) hnesting
    rw [hrest] at hcompact
    cases hcompact
    rw [unmarshalPayloadJSON_object pj (Json.compact_spec hrest).1,
      laws.unmarshal_compact hmarshal hrest]
    simp only [jsonPayload, hmarshal, Option.bind_some]
    cases pj.unmarshal data <;> simp [orError, Except.map]

theorem marshalEnvelopeJSON_eq_ok :
    marshalEnvelopeJSON pj envelope = .ok text ↔
      ∃ data out, marshalPayloadJSON pj envelope.payload = .ok data ∧ compact data = some out ∧
        objectText ((envelope.toEvent data).members out) = text := by
  constructor
  · intro h
    obtain ⟨data, hdata, h⟩ := bind_eq_ok.mp h
    obtain ⟨out, hout, htext⟩ := Option.map_eq_some_iff.mp (orError_eq_ok.mp h)
    exact ⟨data, out, hdata, hout, htext⟩
  · rintro ⟨data, out, hdata, hout, rfl⟩
    exact bind_eq_ok.mpr ⟨data, hdata, orError_eq_ok.mpr (CloudEvent.marshal_of_compact hout)⟩

theorem unmarshalEnvelopeJSON_eq_ok :
    unmarshalEnvelopeJSON pj data = .ok envelope ↔
      ∃ event recordedAt payload, CloudEvent.unmarshal data = some event ∧
        GoRfc3339.parse event.time = some recordedAt ∧
        unmarshalPayloadJSON pj event.data = .ok payload ∧
        Envelope.ofEvent event recordedAt payload = envelope := by
  constructor
  · intro h
    obtain ⟨event, hevent, h⟩ := bind_eq_ok.mp h
    obtain ⟨recordedAt, htime, h⟩ := bind_eq_ok.mp h
    obtain ⟨payload, hpayload, h⟩ := bind_eq_ok.mp h
    cases h
    exact ⟨event, recordedAt, payload, orError_eq_ok.mp hevent, orError_eq_ok.mp htime, hpayload, rfl⟩
  · rintro ⟨event, recordedAt, payload, hevent, htime, hpayload, rfl⟩
    refine bind_eq_ok.mpr ⟨event, orError_eq_ok.mpr hevent, bind_eq_ok.mpr ⟨recordedAt, ?_⟩⟩
    exact ⟨orError_eq_ok.mpr htime, bind_eq_ok.mpr ⟨payload, hpayload, rfl⟩⟩

/-- **The JSON format brings back the envelope** with the time rounded down and the payload that
    `protojson` reads from its own text, if it reads one and the text is not nested too deep. -/
theorem unmarshalEnvelopeJSON_marshal (laws : pj.Laws) (hlo : 0 ≤ envelope.time)
    (hhi : envelope.time < GoRfc3339.endOfYear9999) (h : marshalEnvelopeJSON pj envelope = .ok text)
    (decoded : Envelope) :
    unmarshalEnvelopeJSON pj text = .ok decoded ↔
      Shallow pj envelope.payload ∧ ∃ read, jsonPayload pj envelope.payload = some read ∧
        { envelope with
          time := wholeSecond envelope.time
          dataContentType := "application/json"
          payload := read
          wireFormat := .json } = decoded := by
  obtain ⟨data, out, hdata, hcompact, rfl⟩ := marshalEnvelopeJSON_eq_ok.mp h
  obtain ⟨hout, hnesting⟩ := Json.compact_spec hcompact
  have htime := GoRfc3339.parse_format hlo hhi
  rw [shallow_iff hdata, ← hnesting, unmarshalEnvelopeJSON_eq_ok]
  constructor
  · rintro ⟨event, recordedAt, payload, hevent, hparse, hpayload, rfl⟩
    -- the envelope is one level around the text of its payload
    have hlevel := CloudEvent.nesting_of_unmarshal hout hevent
    rw [CloudEvent.unmarshal_members _ hout hlevel] at hevent
    cases hevent
    cases htime.symm.trans hparse
    exact ⟨hlevel, payload, (unmarshalPayloadJSON_compact laws hdata hcompact).mp hpayload, rfl⟩
  · rintro ⟨hlevel, read, hread, rfl⟩
    exact ⟨_, _, read, CloudEvent.unmarshal_members (envelope.toEvent data) hout hlevel, htime,
      (unmarshalPayloadJSON_compact laws hdata hcompact).mpr hread, rfl⟩

theorem marshalEnvelopeJSON_isOk (laws : pj.Laws) (h : jsonPayload pj envelope.payload = some read)
    (hshallow : Shallow pj envelope.payload) :
    ∃ text, marshalEnvelopeJSON pj envelope = .ok text := by
  obtain ⟨data, out, hdata, hout⟩ : ∃ data out,
      marshalPayloadJSON pj envelope.payload = .ok data ∧ compact data = some out := by
    cases hpayload : envelope.payload with
    | none =>
      have hnull : compact (bytes "null") = some (bytes "null") := by decide
      exact ⟨_, _, rfl, hnull⟩
    | some a =>
      rw [hpayload] at h hshallow
      obtain ⟨a', hread, -⟩ := Option.map_eq_some_iff.mp h
      obtain ⟨data, hdata, -⟩ := Option.bind_eq_some_iff.mp hread
      obtain ⟨rest, hrest⟩ := Json.compact_of_isObject (laws.isObject_marshal hdata)
        (hshallow a rfl data hdata).le
      exact ⟨data, _, orError_eq_ok.mpr hdata, hrest⟩
  exact ⟨_, marshalEnvelopeJSON_eq_ok.mpr ⟨data, out, hdata, hout, rfl⟩⟩

/-! ## The header format -/

/-- What the headers of an envelope say. -/
structure HeadersOf (envelope : Envelope) (header : Header) : Prop where
  specVersion : header.get headerSpecVersion = envelope.specVersion
  id : header.get headerID = envelope.id
  type : header.get headerType = envelope.type
  source : header.get headerSource = envelope.source
  time : header.get headerTime =
    if isZero envelope.time then "" else GoRfc3339.format envelope.time
  dataContentType : header.get headerDataContentType =
    if trimSpace envelope.dataContentType = "" then "application/protobuf"
    else trimSpace envelope.dataContentType
  tenantId : header.get headerTenantID = envelope.tenantId
  traceParent : header.get headerTraceParent = envelope.traceParent
  traceState : header.get headerTraceState = envelope.traceState
  baggage : header.get headerBaggage = envelope.baggage

theorem headersOf_headers (envelope : Envelope) : HeadersOf envelope envelope.headers := by
  unfold Envelope.headers
  cases htime : isZero envelope.time <;> constructor <;>
  simp +contextual [Header.get_set, Header.get_setNonEmpty, htime, headerSpecVersion, headerID,
    headerType, headerSource, headerTime, headerDataContentType, headerTenantID, headerTraceParent,
    headerTraceState, headerBaggage]

theorem trimSpace_format (t : Int) :
    trimSpace (GoRfc3339.format t) = GoRfc3339.format t ∧ GoRfc3339.format t ≠ "" := by
  obtain ⟨⟨c, hfirst, hc⟩, hlast⟩ := GoRfc3339.ends_format t
  have hspace : isSpace c = false := by
    rcases hc with rfl | hdigit
    · decide
    · exact isSpace_of_isDigit hdigit
  refine ⟨trimSpace_eq_self hfirst hlast hspace (by decide), ?_⟩
  intro hempty
  rw [hempty] at hfirst
  cases hfirst

/-- The time header, which is left out for the zero time, is read as the time rounded down if its
    year has four digits. -/
theorem parseHeaderTime_eq (t : Int) :
    parseHeaderTime (trimSpace (if isZero t then "" else GoRfc3339.format t)) =
      if GoRfc3339.FourDigitYear t then .ok (wholeSecond t) else .error .time := by
  by_cases hzero : isZero t = true
  · have ht : t = zeroTime := by simpa [isZero] using hzero
    rw [if_pos hzero, ht, if_pos (by decide)]
    rfl
  · obtain ⟨htrim, hne⟩ := trimSpace_format t
    unfold parseHeaderTime
    rw [if_neg hzero, htrim, if_neg hne]
    by_cases hyear : GoRfc3339.FourDigitYear t
    · rw [GoRfc3339.parse_format_of_fourDigitYear hyear, if_pos hyear]
      rfl
    · rw [GoRfc3339.parse_format_eq_none hyear, if_neg hyear]
      rfl

theorem parseHeaderTime_headerTime {t : Int} (hlo : 0 ≤ t) (hhi : t < GoRfc3339.endOfYear9999) :
    parseHeaderTime (trimSpace (if isZero t then "" else GoRfc3339.format t)) =
      .ok (wholeSecond t) := by
  rw [parseHeaderTime_eq, if_pos (GoRfc3339.fourDigitYear_of_bounds hlo hhi)]

/-- **The header format brings back the envelope** with its strings trimmed, the time rounded down
    and the payload that is found in the body. -/
theorem unmarshalEnvelopeProtoHeaders_headers (pj : ProtoJSON) (hlo : 0 ≤ envelope.time)
    (hhi : envelope.time < GoRfc3339.endOfYear9999)
    (htype : envelope.dataContentType = "application/protobuf") (subject : String)
    (data : List UInt8) :
    unmarshalEnvelopeProtoHeaders pj ⟨subject, envelope.headers, data⟩ =
      (unmarshalHeaderPayload pj "application/protobuf" data).map fun payload =>
        { specVersion := trimSpace envelope.specVersion
          id := trimSpace envelope.id
          type := trimSpace envelope.type
          source := trimSpace envelope.source
          time := wholeSecond envelope.time
          dataContentType := "application/protobuf"
          tenantId := trimSpace envelope.tenantId
          traceParent := trimSpace envelope.traceParent
          traceState := trimSpace envelope.traceState
          baggage := trimSpace envelope.baggage
          payload := payload
          wireFormat := .protoHeaders } := by
  have hheaders := headersOf_headers envelope
  have hcontentType : trimSpace "application/protobuf" = "application/protobuf" := by decide
  -- with this content type the body is read as a message
  have hdefault : Header.get envelope.headers headerDataContentType = "application/protobuf" := by
    rw [hheaders.dataContentType, htype, hcontentType, if_neg (by decide)]
  unfold unmarshalEnvelopeProtoHeaders
  dsimp only
  rw [hheaders.time, parseHeaderTime_headerTime hlo hhi, hdefault, hheaders.specVersion, hheaders.id,
    hheaders.type, hheaders.source, hheaders.tenantId, hheaders.traceParent, hheaders.traceState,
    hheaders.baggage, hcontentType]
  cases unmarshalHeaderPayload pj "application/protobuf" data <;> rfl

/-- The payload in the body of a message with headers: a blank body is no payload. -/
theorem unmarshalHeaderPayload_encode (pj : ProtoJSON) {a : Any} (h : a.encode.length < 2 ^ 63) :
    unmarshalHeaderPayload pj "application/protobuf" a.encode =
      .ok (if bytesTrimSpace a.encode = [] then none else some a) := by
  have hcontains : contains (String.ofList ("application/protobuf".toList.map lowerASCII))
      "application/json" = false := by decide
  unfold unmarshalHeaderPayload
  split
  · rfl
  · rw [hcontains, a.unmarshal_encode h]
    rfl

end ServiceRuntime.NatsBus
