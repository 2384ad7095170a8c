import ServiceRuntime.NatsBus.Formats

/-!
# The Payload behind the Headers

In the header format the payload is the body of the message. The encoder writes it as protocol
buffers and copies the content type of the envelope into a header; the decoder looks at that header
to decide between protocol buffers and JSON, and takes a blank body for no payload. Neither knows
of the other's rule. So the payload comes back

- not if the content type says JSON, as that of an envelope that was decoded from JSON does,
- not if all its bytes are white space, such as the tag, the length and the nine spaces of a type
  URL of nine spaces,

and nothing comes back if the time has no RFC 3339 text. These are the only cases
(`headers_return_payload_iff`).
-/

namespace ServiceRuntime.NatsBus

open Codec
open ServiceRuntime.GoRfc3339 (FourDigitYear)
open GoStrings GoUtf8

/-! ## Protocol buffers read as JSON -/

/-- What is used of `protojson.Unmarshal` on a text that was not written as JSON. -/
structure ProtoJSON.Reads (pj : ProtoJSON) : Prop where
  /-- Only JSON objects are read. -/
  isObject_of_unmarshal : ∀ {text a}, pj.unmarshal text = some a → Json.isObject text = true
  /-- A message has the fields of the object: no unknown ones, and a type URL that stands between
      the braces. -/
  fields_of_unmarshal : ∀ {text a}, pj.unmarshal text = some a →
    a.unknown = [] ∧ (bytes a.typeUrl).length + 2 ≤ (text.dropWhile Json.isSpace).length

variable {pj : ProtoJSON}

/-- **The bytes of a payload never read as the JSON of that payload.** -/
theorem unmarshal_trimmed_ne (reads : pj.Reads) (a : Any) :
    pj.unmarshal (bytesTrimSpace a.encode) ≠ some a := by
  intro h
  obtain ⟨hunknown, hlength⟩ := reads.fields_of_unmarshal h
  have hobject := reads.isObject_of_unmarshal h
  rw [Json.isObject, Bool.and_eq_true, beq_iff_eq] at hobject
  -- the tag of a value is no JSON
  have hvalue : a.value = [] := by
    by_contra hne
    have htag : 0x12 ∈ bytesTrimSpace a.encode :=
      mem_bytesTrimSpace (by decide) (by decide) (Any.valueTag_mem hne)
    have hlegal := Json.Scanner.legal_of_wellFormed hobject.1 0x12 htag
    unfold Json.Legal at hlegal
    exact absurd hlegal (by decide)
  -- without a value, what follows the first brace is too short for the type URL
  obtain ⟨rest, hrest⟩ := List.head?_eq_some_iff.mp hobject.2
  obtain ⟨before, after, hinside⟩ : (0x7B :: rest) <:+: a.encode := by
    rw [← hrest]
    exact (List.dropWhile_suffix Json.isSpace).isInfix.trans (bytesTrimSpace_inside a.encode)
  rw [Any.encode_of_typeUrl hvalue hunknown] at hinside
  have hsuffix : (0x7B :: (rest ++ after)) <:+ appendBytesField 1 (bytes a.typeUrl) :=
    ⟨before, by rw [← hinside, List.append_assoc]; rfl⟩
  have hshort := length_suffix_typeUrl hsuffix
  rw [hrest] at hlength
  simp only [List.length_cons, List.length_append] at hshort hlength
  omega

theorem unmarshalPayloadJSON_ne (reads : pj.Reads) (a : Any) :
    unmarshalPayloadJSON pj a.encode ≠ .ok (some a) := by
  intro h
  unfold unmarshalPayloadJSON at h
  dsimp only at h
  split at h
  · cases h
  · obtain ⟨a', ha', heq⟩ := bind_eq_ok.mp h
    cases heq
    exact unmarshal_trimmed_ne reads a (orError_eq_ok.mp ha')

/-! ## What the decoder makes of the body -/

def Envelope.contentType (envelope : Envelope) : String :=
  if trimSpace envelope.dataContentType = "" then "application/protobuf"
  else trimSpace envelope.dataContentType

def Envelope.SaysJSON (envelope : Envelope) : Prop :=
  contains (String.ofList (envelope.contentType.toList.map lowerASCII)) "application/json" = true

instance (envelope : Envelope) : Decidable envelope.SaysJSON :=
  inferInstanceAs (Decidable (_ = true))

theorem unmarshalHeaderPayload_eq_ok_iff (reads : pj.Reads) (contentType : String) {a : Any}
    (hsize : a.encode.length < 2 ^ 63) :
    unmarshalHeaderPayload pj contentType a.encode = .ok (some a) ↔
      bytesTrimSpace a.encode ≠ [] ∧
        ¬contains (String.ofList (contentType.toList.map lowerASCII)) "application/json" = true := by
  unfold unmarshalHeaderPayload
  split
  · rename_i hblank
    simp [hblank]
  · rename_i hvisible
    split
    · rename_i hjson
      simp [hjson, unmarshalPayloadJSON_ne reads a]
    · rename_i hjson
      rw [a.unmarshal_encode hsize]
      exact iff_of_true rfl ⟨hvisible, hjson⟩

theorem unmarshalEnvelopeProtoHeaders_payload (pj : ProtoJSON) (envelope : Envelope)
    (subject : String) (data : List UInt8) (payload : Option Any) :
    (∃ decoded, unmarshalEnvelopeProtoHeaders pj ⟨subject, envelope.headers, data⟩ = .ok decoded ∧
      decoded.wireFormat = .protoHeaders ∧ decoded.payload = payload) ↔
      FourDigitYear envelope.time ∧
        unmarshalHeaderPayload pj envelope.contentType data = .ok payload := by
  have hheaders := headersOf_headers envelope
  have hcontentType : Header.get envelope.headers headerDataContentType = envelope.contentType :=
    hheaders.dataContentType
  unfold unmarshalEnvelopeProtoHeaders
  dsimp only
  rw [hheaders.time, parseHeaderTime_eq, hcontentType]
  by_cases hyear : FourDigitYear envelope.time
  · rw [if_pos hyear]
    cases unmarshalHeaderPayload pj envelope.contentType data with
    | error err => simp [bind, Except.bind]
    | ok read => simp [hyear, bind, Except.bind]
  · rw [if_neg hyear]
    simp [hyear, bind, Except.bind]

/-! ## Main result -/

/-- The message of an envelope is decoded along its headers, and the payload comes back. -/
def ReturnsPayload (pj : ProtoJSON) (subject : String) (envelope : Envelope) : Prop :=
  ∃ message decoded, marshalEnvelopeProtoHeaders subject envelope = .ok message ∧
    unmarshalMessage pj (some message) = .ok decoded ∧
    decoded.wireFormat = .protoHeaders ∧ decoded.payload = envelope.payload

/-- The time has an RFC 3339 text; and if there is a payload, it can be marshalled, has a byte that
    is no white space, and is not called JSON. -/
structure HeaderSafe (envelope : Envelope) : Prop where
  time : FourDigitYear envelope.time
  payload : ∀ a ∈ envelope.payload,
    a.encode.length < 2 ^ 63 ∧ bytesTrimSpace a.encode ≠ [] ∧ ¬envelope.SaysJSON

theorem marshalEnvelopeProtoHeaders_eq_ok_iff {subject : String} {envelope : Envelope}
    {message : Msg} :
    marshalEnvelopeProtoHeaders subject envelope = .ok message ↔
      (∀ a ∈ envelope.payload, a.encode.length < 2 ^ 63) ∧
        ⟨subject, envelope.headers, headerBody envelope.payload⟩ = message := by
  unfold marshalEnvelopeProtoHeaders
  cases envelope.payload with
  | none => simp [headerBody]
  | some a =>
    change (orError .proto a.marshal).bind (fun data => .ok ⟨subject, envelope.headers, data⟩) =
      .ok message ↔ _
    rw [bind_eq_ok]
    simp [orError_eq_ok, Any.marshal, slice_eq_some, headerBody]

theorem unmarshalHeaderPayload_body_iff (reads : pj.Reads) {envelope : Envelope}
    (hsize : ∀ a ∈ envelope.payload, a.encode.length < 2 ^ 63) :
    unmarshalHeaderPayload pj envelope.contentType (headerBody envelope.payload) =
        .ok envelope.payload ↔
      ∀ a ∈ envelope.payload, bytesTrimSpace a.encode ≠ [] ∧ ¬envelope.SaysJSON := by
  cases hpayload : envelope.payload with
  | none =>
    refine iff_of_true ?_ (by simp)
    exact if_pos rfl
  | some a =>
    have hread := unmarshalHeaderPayload_eq_ok_iff reads envelope.contentType (hsize a hpayload)
    simpa [headerBody, Envelope.SaysJSON] using hread

/-- **When the payload comes back from behind the headers.** The payload is one that `proto.Marshal`
    can encode: its type URL is valid UTF-8, as in every `Any` here, and its encoding fits into a
    slice, which is part of the condition. -/
theorem headers_return_payload_iff {pj : ProtoJSON} (reads : pj.Reads) (subject : String)
    (envelope : Envelope) (hspec : trimSpace envelope.specVersion ≠ "")
    (hid : trimSpace envelope.id ≠ "") (htype : trimSpace envelope.type ≠ "")
    (hsource : trimSpace envelope.source ≠ "") :
    ReturnsPayload pj subject envelope ↔ HeaderSafe envelope := by
  -- the four strings are not blank, so the message takes the header path
  have hheaders : hasCloudEventHeaders envelope.headers = true :=
    (hasCloudEventHeaders_headers hspec hid).mpr ⟨htype, hsource⟩
  have hmessage : ∀ data, unmarshalMessage pj (some ⟨subject, envelope.headers, data⟩) =
      unmarshalEnvelopeProtoHeaders pj ⟨subject, envelope.headers, data⟩ :=
    fun data => if_pos hheaders
  constructor
  · rintro ⟨message, decoded, hmarshal, hdecoded, hformat, hpayload⟩
    obtain ⟨hsize, rfl⟩ := marshalEnvelopeProtoHeaders_eq_ok_iff.mp hmarshal
    rw [hmessage] at hdecoded
    obtain ⟨hyear, hbody⟩ := (unmarshalEnvelopeProtoHeaders_payload pj envelope subject _ _).mp
      ⟨decoded, hdecoded, hformat, hpayload⟩
    refine ⟨hyear, fun a ha => ⟨hsize a ha, ?_⟩⟩
    exact (unmarshalHeaderPayload_body_iff reads hsize).mp hbody a ha
  · intro h
    have hsize : ∀ a ∈ envelope.payload, a.encode.length < 2 ^ 63 := fun a ha => (h.payload a ha).1
    have hbody := (unmarshalHeaderPayload_body_iff reads hsize).mpr fun a ha => (h.payload a ha).2
    obtain ⟨decoded, hdecoded, hformat, hpayload⟩ :=
      (unmarshalEnvelopeProtoHeaders_payload pj envelope subject _ _).mpr ⟨h.time, hbody⟩
    refine ⟨_, decoded, marshalEnvelopeProtoHeaders_eq_ok_iff.mpr ⟨hsize, rfl⟩, ?_, hformat, hpayload⟩
    rw [hmessage]
    exact hdecoded

theorem emptyJSON_reads : emptyJSON.Reads := by
  constructor
  · intro text a h
    rw [(emptyJSON_unmarshal h).1]
    exact isObject_emptyPayloadText
  · intro text a h
    obtain ⟨rfl, rfl⟩ := emptyJSON_unmarshal h
    exact ⟨rfl, by decide +kernel⟩

theorem headers_return_payload_of_braced : ReturnsPayload emptyJSON "subject" bracedEnvelope := by
  apply (headers_return_payload_iff emptyJSON_reads "subject" bracedEnvelope (by decide)
    (by decide) (by decide) (by decide)).mpr
  refine ⟨by decide +kernel, ?_⟩
  intro a ha
  rw [← Option.some.inj ha]
  decide +kernel

def forwardedEnvelope : Envelope := { bracedEnvelope with dataContentType := "application/json" }

/-- Forwarded behind headers, it does not bring its payload: the message is made, the decoder takes
    its body for JSON, and the bytes are none. -/
theorem forwarded_payload_unreadable :
    ¬ReturnsPayload emptyJSON "subject" forwardedEnvelope ∧
      unmarshalMessage emptyJSON (some ⟨"subject", forwardedEnvelope.headers,
        emptyPayload.encode⟩) = .error .protojson := by
  have herror : unmarshalMessage emptyJSON (some ⟨"subject", forwardedEnvelope.headers,
      emptyPayload.encode⟩) = .error .protojson := by decide +kernel
  refine ⟨?_, herror⟩
  rintro ⟨message, decoded, hmarshal, hdecoded, -⟩
  obtain ⟨-, rfl⟩ := marshalEnvelopeProtoHeaders_eq_ok_iff.mp hmarshal
  have hbody : headerBody forwardedEnvelope.payload = emptyPayload.encode := rfl
  rw [hbody, herror] at hdecoded
  cases hdecoded

end ServiceRuntime.NatsBus
