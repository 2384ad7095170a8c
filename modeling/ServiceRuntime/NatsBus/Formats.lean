import ServiceRuntime.NatsBus.Detection

/-!
# The Three Wire Formats Compared

The wire formats are meant to carry the same event. Whether they do depends on the event:

- the JSON and the header format have no fraction of a second,
- the header format trims the subject, the source and the tenant, and needs the first two to be
  recognised at all,
- the header format takes a blank body for no payload, and the JSON format has the payload that
  `protojson` reads from its own text, which may not be nested as deep as `encoding/json` reads.

These are all the conditions (`formats_agree_iff`). For the necessity of the second one, a message
whose headers are not recognised is decoded from its body, which is the payload: it would have to
hold itself. A message is longer than the payload in it (`EventEnvelope.length_data_lt`), and a JSON
text is longer than the text of its payload.
-/

namespace ServiceRuntime.NatsBus

open Codec GoStrings GoTime GoUtf8

/-! ## Carrying an event -/

/-- Two envelopes of the same event. -/
structure SameEvent (a b : Envelope) : Prop where
  specVersion : a.specVersion = b.specVersion
  id : a.id = b.id
  type : a.type = b.type
  source : a.source = b.source
  time : a.time = b.time
  tenantId : a.tenantId = b.tenantId
  payload : a.payload = b.payload

variable {a : Any} {b decoded envelope : Envelope} {pj : ProtoJSON} {url rest text : List UInt8}

theorem SameEvent.symm {a : Envelope} (h : SameEvent a b) : SameEvent b a :=
  ⟨h.specVersion.symm, h.id.symm, h.type.symm, h.source.symm, h.time.symm, h.tenantId.symm,
    h.payload.symm⟩

theorem SameEvent.trans {a c : Envelope} (h : SameEvent a b) (h' : SameEvent b c) : SameEvent a c :=
  ⟨h.specVersion.trans h'.specVersion, h.id.trans h'.id, h.type.trans h'.type,
    h.source.trans h'.source, h.time.trans h'.time, h.tenantId.trans h'.tenantId,
    h.payload.trans h'.payload⟩

def supportedFormats : List WireFormat := [.json, .proto, .protoHeaders]

def DecodesTo (pj : ProtoJSON) (subject : String) (envelope : Envelope) (format : WireFormat)
    (decoded : Envelope) : Prop :=
  ∃ message, marshalEnvelopeMessage pj subject envelope format = .ok message ∧
    unmarshalMessage pj (some message) = .ok decoded

/-- The messages in all formats are decoded to envelopes that agree with the one they were made of,
    and with each other. -/
def FormatsAgree (pj : ProtoJSON) (subject : String) (envelope : Envelope) : Prop :=
  ∃ decoded : WireFormat → Envelope, ∀ format ∈ supportedFormats,
    DecodesTo pj subject envelope format (decoded format) ∧
    SameEvent (decoded format) envelope ∧
    ∀ format' ∈ supportedFormats, SameEvent (decoded format) (decoded format')

def Delivers (pj : ProtoJSON) (subject : String) (envelope : Envelope) (format : WireFormat) :
    Prop :=
  ∃ decoded, DecodesTo pj subject envelope format decoded ∧ SameEvent decoded envelope

theorem formatsAgree_iff {subject : String} :
    FormatsAgree pj subject envelope ↔
      ∀ format ∈ supportedFormats, Delivers pj subject envelope format := by
  constructor
  · rintro ⟨decoded, hdecoded⟩ format hformat
    obtain ⟨hdecodes, hsame, -⟩ := hdecoded format hformat
    exact ⟨decoded format, hdecodes, hsame⟩
  · intro h
    have hchoice : ∀ format, ∃ decoded, format ∈ supportedFormats →
        DecodesTo pj subject envelope format decoded ∧ SameEvent decoded envelope := by
      intro format
      by_cases hformat : format ∈ supportedFormats
      · obtain ⟨decoded, hdecoded⟩ := h format hformat
        exact ⟨decoded, fun _ => hdecoded⟩
      · exact ⟨envelope, fun hmem => absurd hmem hformat⟩
    choose decoded hdecoded using hchoice
    refine ⟨decoded, fun format hformat => ?_⟩
    obtain ⟨hdecodes, hsame⟩ := hdecoded format hformat
    exact ⟨hdecodes, hsame, fun format' hformat' => hsame.trans (hdecoded format' hformat').2.symm⟩

/-! ## A payload does not hold itself -/

/-- The raw data of an event is shorter than the text it is read from. -/
theorem CloudEvent.length_data {event : CloudEvent} (h : CloudEvent.unmarshal text = some event) :
    event.data = [] ∨ event.data.length + 2 ≤ text.length := by
  refine Json.unmarshalStruct_induction
    (fun event : CloudEvent => event.data = [] ∨ event.data.length + 2 ≤ text.length) ?_ (Or.inl rfl) h
  -- `data` is the raw text of a member, which its object is longer than; other fields leave it
  intro field hfield event event' raw hraw hset hevent
  have hstring : ∀ {set : CloudEvent → String → CloudEvent},
      Json.stringField set event raw = some event' → (∀ e s, (set e s).data = e.data) →
        event'.data = event.data := by
    intro set hset hkeep
    unfold Json.stringField at hset
    split at hset
    · cases hset
      rfl
    · split at hset
      · obtain ⟨s, -, rfl⟩ := Option.map_eq_some_iff.mp hset
        exact hkeep event s
      · cases hset
  unfold CloudEvent.fields at hfield
  simp only [List.mem_cons, List.not_mem_nil, or_false] at hfield
  rcases hfield with rfl | rfl | rfl | rfl | rfl | rfl | rfl | rfl | rfl | rfl | rfl
  case inr.inr.inr.inr.inr.inr.inr.inr.inr.inr =>
    cases hset
    exact Or.inr hraw
  all_goals
    dsimp only at hset
    rw [hstring hset fun _ _ => rfl]
    exact hevent

/-- The payload of a JSON envelope has no unknown fields, and its type URL is shorter than the
    text. -/
theorem payload_of_unmarshalEnvelopeJSON (laws : pj.Laws)
    (h : unmarshalEnvelopeJSON pj text = .ok decoded) (hpayload : decoded.payload = some a) :
    a.unknown = [] ∧ (bytes a.typeUrl).length + 2 ≤ text.length := by
  obtain ⟨event, recordedAt, payload, hevent, -, hread, rfl⟩ := unmarshalEnvelopeJSON_eq_ok.mp h
  cases hpayload
  have htrim := length_bytesTrimSpace_le event.data
  unfold unmarshalPayloadJSON at hread
  dsimp only at hread
  split at hread
  · cases hread
  · rename_i hne
    obtain ⟨a', ha', heq⟩ := bind_eq_ok.mp hread
    cases heq
    obtain ⟨hunknown, hlength⟩ := laws.unmarshal_fields (orError_eq_ok.mp ha')
    refine ⟨hunknown, ?_⟩
    rcases CloudEvent.length_data hevent with hdata | hdata
    · rw [hdata] at hne
      exact absurd (Or.inl rfl) hne
    · omega

theorem Any.encode_of_typeUrl (hvalue : a.value = []) (hunknown : a.unknown = []) :
    a.encode = appendBytesField 1 (bytes a.typeUrl) := by
  unfold Any.encode
  rw [hvalue, hunknown]
  simp [appendBytesField, encodeFields]

theorem Any.valueTag_mem (h : a.value ≠ []) : 0x12 ∈ a.encode := by
  have htag : appendTag 2 .bytes = [0x12] := by decide
  unfold Any.encode appendBytesField
  rw [if_neg h, htag]
  simp

/-- The text from a brace on to the end of a type URL with its tag and length: the brace is in the
    URL, or it is the last byte of the length. -/
theorem length_suffix_typeUrl (h : (0x7B :: rest) <:+ appendBytesField 1 url) :
    (0x7B :: rest).length ≤ url.length + 1 := by
  have htag : appendTag 1 .bytes = [0x0A] := by decide
  obtain ⟨front, last, hvarint, hfront⟩ := varintBytes_eq_append 9 url.length
  unfold appendBytesField appendBytes appendVarint at h
  split at h
  · exact absurd (List.suffix_nil.mp h) (List.cons_ne_nil _ _)
  · rw [htag, hvarint, List.append_assoc, ← List.append_assoc] at h
    -- no byte before the last one of the length is a brace
    have hbrace : ∀ b ∈ [0x0A] ++ front, b ≠ 0x7B := by
      intro b hb hb'
      rcases List.mem_append.mp hb with hb | hb
      · rw [List.mem_singleton.mp hb] at hb'
        cases hb'
      · have hhigh := hfront b hb
        rw [hb'] at hhigh
        exact absurd hhigh (by decide)
    obtain ⟨before, hbefore⟩ := h
    rcases List.append_eq_append_iff.mp hbefore with ⟨more, hsome, hrest⟩ | ⟨more, -, hrest⟩
    · cases more with
      | nil =>
        rw [hrest]
        simp
      | cons b more =>
        obtain ⟨rfl, -⟩ := List.cons.inj hrest
        refine absurd rfl (hbrace 0x7B ?_)
        rw [hsome]
        simp
    · have hlength := congrArg List.length hrest
      simp only [List.length_append, List.length_cons, List.length_nil] at hlength ⊢
      omega

theorem length_trimmed_typeUrl
    (h : (appendBytesField 1 url).dropWhile Json.isSpace = 0x7B :: rest) :
    (0x7B :: rest).length ≤ url.length + 1 := by
  apply length_suffix_typeUrl
  rw [← h]
  exact List.dropWhile_suffix Json.isSpace

/-- **No body decodes to an envelope of itself.** -/
theorem payload_ne_of_unmarshalEnvelope (laws : pj.Laws)
    (h : unmarshalEnvelope pj a.encode = .ok decoded) : decoded.payload ≠ some a := by
  intro hpayload
  -- a message is longer than the payload inside it
  have hproto : ∀ {d : Envelope}, unmarshalEnvelopeProto a.encode = .ok d → d.payload ≠ some a := by
    intro d hd hself
    obtain ⟨message, hmessage, heq⟩ := bind_eq_ok.mp hd
    cases heq
    have hlt := EventEnvelope.length_data_lt (orError_eq_ok.mp hmessage) hself
    omega
  -- the tag of a value is no JSON, and without a value the payload is too long for its text
  have hjson : ∀ {rest : List UInt8} {d : Envelope},
      a.encode.dropWhile Json.isSpace = 0x7B :: rest →
      unmarshalEnvelopeJSON pj (0x7B :: rest) = .ok d → d.payload ≠ some a := by
    intro rest d htrim hd hself
    obtain ⟨hunknown, hlength⟩ := payload_of_unmarshalEnvelopeJSON laws hd hself
    have hvalue : a.value = [] := by
      by_contra hne
      have hmem := mem_dropWhile (by decide) (Any.valueTag_mem hne)
      rw [htrim] at hmem
      have hillegal : ¬ Json.Legal 0x12 := by
        unfold Json.Legal
        decide
      rw [unmarshalEnvelopeJSON_illegal pj hmem hillegal] at hd
      cases hd
    rw [Any.encode_of_typeUrl hvalue hunknown] at htrim
    have := length_trimmed_typeUrl htrim
    omega
  unfold unmarshalEnvelope trimLeadingJSONWhitespace at h
  dsimp only at h
  split at h
  · cases h
  · split at h
    · cases h
    · rename_i hne
      obtain ⟨c, rest, htrim⟩ := List.exists_cons_of_ne_nil hne
      rw [htrim] at h
      -- a body that looks like JSON is tried as JSON first, and as a message after that
      by_cases hc : c = 0x7B
      · subst hc
        simp only [detectWireFormat, if_true] at h
        split at h
        · rename_i d hd
          cases h
          exact hjson htrim hd hpayload
        · split at h
          · split at h
            · rename_i d hd
              cases h
              exact hproto hd hpayload
            · cases h
          · cases h
      · simp only [detectWireFormat, if_neg hc] at h
        exact hproto h hpayload

/-! ## The formats one by one -/

section Delivers

variable {pj : ProtoJSON} {subject : String} {envelope : Envelope}

theorem unmarshalMessage_json {text : List UInt8} (h : marshalEnvelopeJSON pj envelope = .ok text) :
    unmarshalMessage pj (some ⟨subject, [], text⟩) = unmarshalEnvelopeJSON pj text := by
  obtain ⟨data, out, -, -, rfl⟩ := marshalEnvelopeJSON_eq_ok.mp h
  exact unmarshalEnvelope_brace pj _

theorem json_delivers_iff (laws : pj.Laws) (hlo : 0 ≤ envelope.time)
    (hhi : envelope.time < GoRfc3339.endOfYear9999) :
    Delivers pj subject envelope .json ↔
      wholeSecond envelope.time = envelope.time ∧
        jsonPayload pj envelope.payload = some envelope.payload ∧ Shallow pj envelope.payload := by
  constructor
  · rintro ⟨decoded, ⟨message, hmessage, hdecoded⟩, hsame⟩
    obtain ⟨text, htext, heq⟩ := bind_eq_ok.mp hmessage
    cases heq
    rw [unmarshalMessage_json htext] at hdecoded
    obtain ⟨hshallow, read, hread, rfl⟩ :=
      (unmarshalEnvelopeJSON_marshal laws hlo hhi htext _).mp hdecoded
    exact ⟨hsame.time, hread.trans (congrArg some hsame.payload), hshallow⟩
  · rintro ⟨htime, hpayload, hshallow⟩
    obtain ⟨text, htext⟩ := marshalEnvelopeJSON_isOk laws hpayload hshallow
    have hdecoded := (unmarshalEnvelopeJSON_marshal laws hlo hhi htext _).mpr
      ⟨hshallow, envelope.payload, hpayload, rfl⟩
    rw [← unmarshalMessage_json htext] at hdecoded
    exact ⟨_, ⟨_, bind_eq_ok.mpr ⟨text, htext, rfl⟩, hdecoded⟩, rfl, rfl, rfl, rfl, htime, rfl, rfl⟩

theorem proto_delivers (hlo : 0 ≤ envelope.time) (hhi : envelope.time < GoRfc3339.endOfYear9999)
    (hsize : envelope.toProto.encode.length < 2 ^ 63) : Delivers pj subject envelope .proto := by
  have hmarshal := marshalEnvelopeProto_eq_ok.mpr ⟨hsize, rfl⟩
  have hdecode := unmarshalEnvelope_encode pj (unmarshalEnvelopeProto_encode hlo hhi hsize)
  exact ⟨_, ⟨_, bind_eq_ok.mpr ⟨_, hmarshal, rfl⟩, hdecode⟩, rfl, rfl, rfl, rfl, rfl, rfl, rfl⟩

/-- A text that headers carry as it is. -/
structure HeaderText (s : String) : Prop where
  trimmed : trimSpace s = s
  nonempty : s ≠ ""

theorem HeaderText.trimSpace_ne {s : String} (h : HeaderText s) : trimSpace s ≠ "" := by
  rw [h.trimmed]
  exact h.nonempty

def visiblePayload (payload : Option Any) : Option Any :=
  payload.filter fun a => bytesTrimSpace a.encode ≠ []

theorem visiblePayload_eq_self {payload : Option Any} :
    visiblePayload payload = payload ↔ ∀ a ∈ payload, bytesTrimSpace a.encode ≠ [] := by
  unfold visiblePayload
  cases payload with
  | none => simp
  | some a => simp [Option.filter_some]

def headerBody (payload : Option Any) : List UInt8 := (payload.map Any.encode).getD []

theorem marshalEnvelopeProtoHeaders_eq (hbody : ∀ a ∈ envelope.payload, a.encode.length < 2 ^ 63) :
    marshalEnvelopeProtoHeaders subject envelope =
      .ok ⟨subject, envelope.headers, headerBody envelope.payload⟩ := by
  unfold marshalEnvelopeProtoHeaders
  cases hpayload : envelope.payload with
  | none => rfl
  | some a =>
    have hsize := hbody a hpayload
    exact bind_eq_ok.mpr ⟨_, orError_eq_ok.mpr (slice_eq_some.mpr ⟨hsize, rfl⟩), rfl⟩

theorem unmarshalHeaderPayload_body (hbody : ∀ a ∈ envelope.payload, a.encode.length < 2 ^ 63) :
    unmarshalHeaderPayload pj "application/protobuf" (headerBody envelope.payload) =
      .ok (visiblePayload envelope.payload) := by
  cases hpayload : envelope.payload with
  | none => rfl
  | some a =>
    refine (unmarshalHeaderPayload_encode pj (hbody a hpayload)).trans ?_
    unfold visiblePayload
    rw [Option.filter_some]
    by_cases hblank : bytesTrimSpace a.encode = [] <;> simp [hblank]

theorem hasCloudEventHeaders_headers (hspec : trimSpace envelope.specVersion ≠ "")
    (hid : trimSpace envelope.id ≠ "") :
    hasCloudEventHeaders envelope.headers = true ↔
      trimSpace envelope.type ≠ "" ∧ trimSpace envelope.source ≠ "" := by
  have hheaders := headersOf_headers envelope
  have hnonempty : envelope.headers.isEmpty = false := by simp [Envelope.headers, Header.set]
  unfold hasCloudEventHeaders
  rw [hnonempty, hheaders.specVersion, hheaders.id, hheaders.type, hheaders.source]
  simp [hspec, hid]

theorem not_delivers_of_body (laws : pj.Laws) {decoded : Envelope}
    (h : unmarshalEnvelope pj (headerBody envelope.payload) = .ok decoded) :
    decoded.payload ≠ envelope.payload := by
  cases hpayload : envelope.payload with
  | none =>
    rw [hpayload] at h
    cases h
  | some a =>
    rw [hpayload] at h
    exact payload_ne_of_unmarshalEnvelope laws h

theorem protoHeaders_delivers_iff (laws : pj.Laws) (hlo : 0 ≤ envelope.time)
    (hhi : envelope.time < GoRfc3339.endOfYear9999)
    (htype : envelope.dataContentType = "application/protobuf")
    (hspec : HeaderText envelope.specVersion) (hid : HeaderText envelope.id)
    (hbody : ∀ a ∈ envelope.payload, a.encode.length < 2 ^ 63) :
    Delivers pj subject envelope .protoHeaders ↔
      HeaderText envelope.type ∧ HeaderText envelope.source ∧
        wholeSecond envelope.time = envelope.time ∧
        trimSpace envelope.tenantId = envelope.tenantId ∧
        ∀ a ∈ envelope.payload, bytesTrimSpace a.encode ≠ [] := by
  have hmarshal : marshalEnvelopeMessage pj subject envelope .protoHeaders =
      .ok ⟨subject, envelope.headers, headerBody envelope.payload⟩ :=
    marshalEnvelopeProtoHeaders_eq hbody
  have hresult := unmarshalEnvelopeProtoHeaders_headers pj hlo hhi htype subject
    (headerBody envelope.payload)
  rw [unmarshalHeaderPayload_body hbody] at hresult
  constructor
  · rintro ⟨decoded, ⟨message, hmessage, hdecoded⟩, hsame⟩
    rw [hmarshal] at hmessage
    cases hmessage
    by_cases hheaders : hasCloudEventHeaders envelope.headers = true
    · have hdecode : unmarshalEnvelopeProtoHeaders pj
          ⟨subject, envelope.headers, headerBody envelope.payload⟩ = .ok decoded := by
        rw [← hdecoded]
        exact (if_pos hheaders).symm
      obtain ⟨hsubject, hsource⟩ :=
        (hasCloudEventHeaders_headers hspec.trimSpace_ne hid.trimSpace_ne).mp hheaders
      rw [hresult] at hdecode
      cases hdecode
      refine ⟨⟨hsame.type, ?_⟩, ⟨hsame.source, ?_⟩, hsame.time, hsame.tenantId,
        visiblePayload_eq_self.mp hsame.payload⟩
      · rw [← hsame.type]
        exact hsubject
      · rw [← hsame.source]
        exact hsource
    -- without the headers the body is read as an envelope, and never as one of its own payload
    · have hdecode : unmarshalEnvelope pj (headerBody envelope.payload) = .ok decoded := by
        rw [← hdecoded]
        exact (if_neg hheaders).symm
      exact absurd hsame.payload (not_delivers_of_body laws hdecode)
  · rintro ⟨hsubject, hsource, htime, htenant, hpayload⟩
    have hheaders : hasCloudEventHeaders envelope.headers = true :=
      (hasCloudEventHeaders_headers hspec.trimSpace_ne hid.trimSpace_ne).mpr
        ⟨hsubject.trimSpace_ne, hsource.trimSpace_ne⟩
    refine ⟨_, ⟨_, hmarshal, (if_pos hheaders).trans hresult⟩, ?_⟩
    exact ⟨hspec.trimmed, hid.trimmed, hsubject.trimmed, hsource.trimmed, htime, htenant,
      visiblePayload_eq_self.mpr hpayload⟩

end Delivers

/-! ## All formats -/

/-- The condition under which all formats carry an event. -/
structure Portable (pj : ProtoJSON) (envelope : Envelope) : Prop where
  /-- No fraction of a second. -/
  time : wholeSecond envelope.time = envelope.time
  type : HeaderText envelope.type
  source : HeaderText envelope.source
  tenantId : trimSpace envelope.tenantId = envelope.tenantId
  /-- The payload has a JSON text that reads as the payload. -/
  json : jsonPayload pj envelope.payload = some envelope.payload
  /-- The text is nested less deep than `encoding/json` reads: the envelope around it takes a level
      too. -/
  shallow : Shallow pj envelope.payload
  /-- The payload's bytes are not blank. -/
  visible : ∀ a ∈ envelope.payload, bytesTrimSpace a.encode ≠ []

theorem headerText_newString (random : Fin 16 → UInt8) : HeaderText (newString random) := by
  have hfirst : (newString random).toList.head? = some (hexDigit ((random 0).toNat / 16)) := by
    simp [newString, hexEncodeToString]
  have hlast : (newString random).toList.getLast? = some (hexDigit ((random 15).toNat % 16)) := by
    simp [newString, hexEncodeToString]
  have hlt := (random 0).toNat_lt
  constructor
  · exact trimSpace_eq_self hfirst hlast (isSpace_hexDigit (by omega)) (isSpace_hexDigit (by omega))
  · intro hempty
    rw [hempty] at hfirst
    cases hfirst

theorem length_payload_lt (hsize : envelope.toProto.encode.length < 2 ^ 63) :
    ∀ a ∈ envelope.payload, a.encode.length < 2 ^ 63 := by
  intro a ha
  have hdata : envelope.toProto.data = some a := ha
  unfold EventEnvelope.encode at hsize
  rw [hdata] at hsize
  simp only [Option.map_some, EventEnvelope.appendMessage, appendBytes, List.length_append] at hsize
  omega

/-- **The formats agree on an event exactly if it is portable.** -/
theorem formats_agree_iff {pj : ProtoJSON} (laws : pj.Laws) (change : Change)
    (subject source : String) (now : Int) (random : Fin 16 → UInt8)
    (hrecordedAt : 0 ≤ change.recordedAt ∧ change.recordedAt < GoRfc3339.endOfYear9999)
    (hnow : 0 ≤ now ∧ now < GoRfc3339.endOfYear9999)
    (hsize : (change.toCloudEvent subject source now random).toProto.encode.length < 2 ^ 63) :
    FormatsAgree pj subject (change.toCloudEvent subject source now random) ↔
      Portable pj (change.toCloudEvent subject source now random) := by
  have hspec : HeaderText (change.toCloudEvent subject source now random).specVersion :=
    show HeaderText "1.0" from ⟨by decide, by decide⟩
  have hid : HeaderText (change.toCloudEvent subject source now random).id :=
    headerText_newString random
  have htype : (change.toCloudEvent subject source now random).dataContentType =
      "application/protobuf" := rfl
  obtain ⟨hlo, hhi⟩ : 0 ≤ (change.toCloudEvent subject source now random).time ∧
      (change.toCloudEvent subject source now random).time < GoRfc3339.endOfYear9999 := by
    unfold Change.toCloudEvent
    dsimp only
    split
    · exact hnow
    · exact hrecordedAt
  -- no more than these facts is needed of the envelope
  generalize change.toCloudEvent subject source now random = envelope at *
  have hheaders : Delivers pj subject envelope .protoHeaders ↔ _ :=
    protoHeaders_delivers_iff laws hlo hhi htype hspec hid (length_payload_lt hsize)
  rw [formatsAgree_iff]
  constructor
  · intro h
    obtain ⟨-, hjson, hshallow⟩ := (json_delivers_iff laws hlo hhi).mp (h .json (by decide))
    obtain ⟨hsubject, hsource, htime, htenant, hvisible⟩ := hheaders.mp (h .protoHeaders (by decide))
    exact ⟨htime, hsubject, hsource, htenant, hjson, hshallow, hvisible⟩
  · intro h format hformat
    simp only [supportedFormats, List.mem_cons, List.not_mem_nil, or_false] at hformat
    rcases hformat with rfl | rfl | rfl
    · exact (json_delivers_iff laws hlo hhi).mpr ⟨h.time, h.json, h.shallow⟩
    · exact proto_delivers hlo hhi hsize
    · exact hheaders.mpr ⟨h.type, h.source, h.time, h.tenantId, h.visible⟩

def tidyChange : Change where
  tenantId := "tenant"
  recordedAt := 62135596800 * 1000000000
  payload := some emptyPayload

theorem formats_agree_of_tidy :
    FormatsAgree emptyJSON "orders.changes.order.create"
      (tidyChange.toCloudEvent "orders.changes.order.create" "orders" 0 fun _ => 0) := by
  refine (formats_agree_iff emptyJSON_laws tidyChange _ "orders" 0 (fun _ => 0) (by decide +kernel)
    (by decide +kernel) (by decide +kernel)).mpr ?_
  refine ⟨by decide +kernel, ⟨by decide, by decide⟩, ⟨by decide, by decide⟩, by decide,
    by decide +kernel, shallow_emptyJSON _, ?_⟩
  rintro a ⟨⟩
  decide +kernel

/-- The same change, recorded half a second later: the JSON format brings back another time. -/
theorem formats_disagree_of_fraction :
    ¬ FormatsAgree emptyJSON "orders.changes.order.create"
      ((⟨"tenant", 62135596800 * 1000000000 + 500000000, some emptyPayload⟩ : Change).toCloudEvent
        "orders.changes.order.create" "orders" 0 fun _ => 0) := by
  rw [formatsAgree_iff]
  intro h
  have hjson := (json_delivers_iff emptyJSON_laws (by decide +kernel) (by decide +kernel)).mp
    (h .json (by decide))
  have hne : wholeSecond (62135596800 * 1000000000 + 500000000) ≠
      62135596800 * 1000000000 + 500000000 := by decide +kernel
  exact hne hjson.1

end ServiceRuntime.NatsBus
