import ServiceRuntime.NatsBus.EnvelopeRoundTrip

/-!
# Detection of the Wire Format

`UnmarshalEnvelope` tells JSON from messages by the first byte that is not JSON white space. The
tag of the first field of a message is a line feed, and what follows it may be white space or an
opening brace as well, so a message can look like JSON. It is never taken for it:

- every encoded envelope holds the byte `0x14`, the length of its content type, which is not legal
  anywhere in a JSON text, so the attempt to read JSON fails (`unmarshalEnvelopeJSON_illegal`),
- no encoded envelope starts with a brace (`head_encode`), so it was trimmed before it looked like
  JSON, and `UnmarshalEnvelope` falls back to the message (`unmarshalEnvelope_encode`).

A JSON envelope starts with a brace. It is read as JSON, and so it is behind white space if the JSON
can be read at all (`unmarshalEnvelope_object`). Otherwise `UnmarshalEnvelope` takes the white space
for a hint that it may be a message, and a line feed and a brace can be the start of one: then it
returns an envelope made of the JSON text where the JSON decoder has an error
(`unread_json_taken_for_message`).
-/

namespace ServiceRuntime.NatsBus

open Codec GoStrings GoTime

/-! ## JSON envelopes -/

variable {w data text : List UInt8}

theorem dropWhile_object (hw : ∀ c ∈ w, Json.isSpace c = true) (rest : List UInt8) :
    (w ++ 0x7B :: rest).dropWhile Json.isSpace = 0x7B :: rest := by
  rw [List.dropWhile_append_of_pos hw]
  rfl

theorem unmarshalEnvelope_brace (pj : ProtoJSON) (rest : List UInt8) :
    unmarshalEnvelope pj (0x7B :: rest) = unmarshalEnvelopeJSON pj (0x7B :: rest) := by
  have htrim : (0x7B :: rest).dropWhile Json.isSpace = 0x7B :: rest := rfl
  unfold unmarshalEnvelope trimLeadingJSONWhitespace
  rw [htrim, if_neg (List.cons_ne_nil _ _)]
  dsimp only
  rw [if_neg (List.cons_ne_nil _ _)]
  simp only [detectWireFormat, if_true, lt_irrefl, and_false, decide_false, Bool.false_eq_true,
    if_false]
  cases unmarshalEnvelopeJSON pj (0x7B :: rest) <;> rfl

/-- **A JSON envelope is read as JSON**, whatever white space stands in front of it. -/
theorem unmarshalEnvelope_object (pj : ProtoJSON) (hw : ∀ c ∈ w, Json.isSpace c = true)
    {rest : List UInt8} {envelope : Envelope}
    (h : unmarshalEnvelopeJSON pj (0x7B :: rest) = .ok envelope) :
    unmarshalEnvelope pj (w ++ 0x7B :: rest) = .ok envelope := by
  unfold unmarshalEnvelope trimLeadingJSONWhitespace
  rw [if_neg (by simp), dropWhile_object hw]
  dsimp only
  rw [if_neg (by simp)]
  simp only [detectWireFormat, if_true, h]

/-! ## Messages -/

theorem unmarshalEnvelopeJSON_illegal (pj : ProtoJSON) {c : UInt8} (hc : c ∈ data)
    (hillegal : ¬ Json.Legal c) : unmarshalEnvelopeJSON pj data = .error .json := by
  have hnone : CloudEvent.unmarshal data = none :=
    Json.unmarshalStruct_of_illegal CloudEvent.fields CloudEvent.zero hc hillegal
  unfold unmarshalEnvelopeJSON
  rw [hnone]
  rfl

theorem mem_dropWhile {c : UInt8} (hc : Json.isSpace c = false) (h : c ∈ data) :
    c ∈ data.dropWhile Json.isSpace := by
  induction data with
  | nil => cases h
  | cons d data ih =>
    rw [List.dropWhile_cons]
    split
    · rename_i hd
      rcases List.mem_cons.mp h with rfl | h
      · rw [hc] at hd
        cases hd
      · exact ih h
    · exact h

theorem contentType_length_mem (envelope : Envelope) : 0x14 ∈ envelope.toProto.encode := by
  have hfield : (0x14 : UInt8) ∈ appendBytesField 6 (bytes "application/protobuf") := by decide
  unfold EventEnvelope.encode
  simp only [List.mem_append]
  exact Or.inr (Or.inr (Or.inr (Or.inr (Or.inr (Or.inl hfield)))))

theorem head_bytesField {num : Nat} (tag : UInt8) {c : UInt8} (htag : appendTag num .bytes = [tag])
    (hne : tag ≠ c) (bs : List UInt8) {after : List UInt8} (hafter : after.head? ≠ some c) :
    (appendBytesField num bs ++ after).head? ≠ some c := by
  unfold appendBytesField
  split
  · exact hafter
  · rw [htag]
    simpa using hne

theorem head_encode (envelope : Envelope) : envelope.toProto.encode.head? ≠ some 0x7B := by
  unfold EventEnvelope.encode
  refine head_bytesField 0x0A (by decide) (by decide) _ ?_
  refine head_bytesField 0x12 (by decide) (by decide) _ ?_
  refine head_bytesField 0x1A (by decide) (by decide) _ ?_
  refine head_bytesField 0x22 (by decide) (by decide) _ ?_
  have htag : appendTag 5 .bytes = [0x2A] := by decide
  simp [Envelope.toProto, EventEnvelope.appendMessage, htag]

/-- **A message is read as a message**: what looks like JSON in it is no JSON. -/
theorem unmarshalEnvelope_encode (pj : ProtoJSON) {envelope result : Envelope}
    (h : unmarshalEnvelopeProto envelope.toProto.encode = .ok result) :
    unmarshalEnvelope pj envelope.toProto.encode = .ok result := by
  have hmem := mem_dropWhile (by decide) (contentType_length_mem envelope)
  have hhead := head_encode envelope
  generalize envelope.toProto.encode = data at h hmem hhead
  have hdata : data ≠ [] := by
    rintro rfl
    cases hmem
  obtain ⟨c, rest, htrim⟩ := List.exists_cons_of_ne_nil (List.ne_nil_of_mem hmem)
  unfold unmarshalEnvelope trimLeadingJSONWhitespace
  rw [htrim] at hmem ⊢
  rw [if_neg hdata]
  dsimp only
  rw [if_neg (List.cons_ne_nil c rest)]
  by_cases hc : c = 0x7B
  -- the trimmed text starts with a brace and the message does not, so something was trimmed
  · have hlt : (c :: rest).length < data.length := by
      have hsuffix := htrim ▸ List.dropWhile_suffix Json.isSpace (l := data)
      refine lt_of_le_of_ne hsuffix.length_le fun hlength => ?_
      rw [← hsuffix.eq_of_length hlength, hc] at hhead
      exact hhead rfl
    have hillegal : ¬ Json.Legal 0x14 := by
      unfold Json.Legal
      decide
    simp only [detectWireFormat, if_pos hc, unmarshalEnvelopeJSON_illegal pj hmem hillegal, h,
      if_pos (decide_eq_true (And.intro (List.cons_ne_nil c rest) hlt))]
  · simp only [detectWireFormat, if_neg hc, h]

/-- The JSON format reads back a payload: `protojson` accepts what it writes for it, and the text
    leaves a level of nesting for the envelope. -/
structure ReadsBack (pj : ProtoJSON) (payload : Option Any) : Prop where
  accepted : (jsonPayload pj payload).isSome = true
  shallow : Shallow pj payload

/-- **Detection is sound.** A marshalled message comes back as the envelope it was made of, with the
    content type that the encoder writes. A marshalled JSON envelope is read as
    `unmarshalEnvelopeJSON` reads it; if there is no payload, or one that the JSON format reads back,
    this is so behind JSON white space as well. -/
theorem detection_sound {pj : ProtoJSON} (laws : pj.Laws) (envelope : Envelope)
    (hlo : 0 ≤ envelope.time) (hhi : envelope.time < GoRfc3339.endOfYear9999) :
    (∀ data, marshalEnvelopeProto envelope = .ok data →
      unmarshalEnvelope pj data =
        .ok { envelope with dataContentType := "application/protobuf", wireFormat := .proto }) ∧
    (∀ text, marshalEnvelopeJSON pj envelope = .ok text →
      unmarshalEnvelope pj text = unmarshalEnvelopeJSON pj text ∧
      (envelope.payload = none ∨ ReadsBack pj envelope.payload →
        ∀ w : List UInt8, (∀ c ∈ w, Json.isSpace c = true) →
          unmarshalEnvelope pj (w ++ text) = unmarshalEnvelopeJSON pj text)) := by
  constructor
  · intro data hdata
    obtain ⟨hsize, rfl⟩ := marshalEnvelopeProto_eq_ok.mp hdata
    exact unmarshalEnvelope_encode pj (unmarshalEnvelopeProto_encode hlo hhi hsize)
  · intro text htext
    have hread := unmarshalEnvelopeJSON_marshal laws hlo hhi htext
    obtain ⟨data, out, -, -, rfl⟩ := marshalEnvelopeJSON_eq_ok.mp htext
    refine ⟨unmarshalEnvelope_brace pj _, fun hpayload w hw => ?_⟩
    have hback : ReadsBack pj envelope.payload := by
      rcases hpayload with hnone | hback
      · rw [hnone]
        exact ⟨rfl, fun a ha => nomatch ha⟩
      · exact hback
    -- the JSON decoder succeeds, so nothing else is tried
    obtain ⟨read, haccepted⟩ := Option.isSome_iff_exists.mp hback.accepted
    have hdecoded := (hread _).mpr ⟨hback.shallow, read, haccepted, rfl⟩
    rw [hdecoded]
    exact unmarshalEnvelope_object pj hw hdecoded

/-! ## An instance -/

def emptyPayload : Any := ⟨"type.googleapis.com/google.protobuf.Empty", [], []⟩

def emptyPayloadText : List UInt8 :=
  bytes "\x7b\"@type\":\"type.googleapis.com/google.protobuf.Empty\",\"value\":\x7b\x7d\x7d"

/-- `protojson` of a program that registers `google.protobuf.Empty` only. -/
def emptyJSON : ProtoJSON where
  marshal a := if a = emptyPayload then some emptyPayloadText else none
  unmarshal text := if text = emptyPayloadText then some emptyPayload else none

theorem isObject_emptyPayloadText : Json.isObject emptyPayloadText = true := by decide +kernel

theorem emptyJSON_marshal {a : Any} (h : emptyJSON.marshal a = some text) :
    text = emptyPayloadText := by
  simp only [emptyJSON, Option.ite_none_right_eq_some, Option.some.injEq] at h
  exact h.2.symm

theorem emptyJSON_unmarshal {a : Any} (h : emptyJSON.unmarshal text = some a) :
    text = emptyPayloadText ∧ a = emptyPayload := by
  simp only [emptyJSON, Option.ite_none_right_eq_some, Option.some.injEq] at h
  exact ⟨h.1, h.2.symm⟩

theorem emptyJSON_laws : emptyJSON.Laws := by
  have hcompact : Json.compact emptyPayloadText = some emptyPayloadText := by decide +kernel
  constructor
  · intro a text h
    rw [emptyJSON_marshal h]
    exact isObject_emptyPayloadText
  · intro a text out h hout
    rw [emptyJSON_marshal h, hcompact] at hout
    cases hout
    rw [emptyJSON_marshal h]
  · intro text a h
    obtain ⟨rfl, rfl⟩ := emptyJSON_unmarshal h
    exact ⟨rfl, by decide +kernel⟩

/-- An envelope whose message looks like JSON: its first bytes are line feed, line feed, brace. -/
def bracedEnvelope : Envelope where
  specVersion := "\x7b........."
  id := "id"
  type := "type"
  source := "source"
  time := 62135596800 * 1000000000 + 1
  dataContentType := ""
  tenantId := ""
  traceParent := ""
  traceState := ""
  baggage := ""
  payload := some emptyPayload
  wireFormat := .other ""

theorem shallow_emptyJSON (payload : Option Any) : Shallow emptyJSON payload := by
  intro a _ text htext
  rw [emptyJSON_marshal htext]
  decide +kernel

theorem detection_sound_of_braced :
    (∃ data, marshalEnvelopeProto bracedEnvelope = .ok data ∧
      unmarshalEnvelope emptyJSON data =
        .ok { bracedEnvelope with
          dataContentType := "application/protobuf", wireFormat := .proto }) ∧
    (∃ text, marshalEnvelopeJSON emptyJSON bracedEnvelope = .ok text ∧
      unmarshalEnvelope emptyJSON (0x0A :: text) = unmarshalEnvelopeJSON emptyJSON text) := by
  have hsound :=
    detection_sound emptyJSON_laws bracedEnvelope (by decide +kernel) (by decide +kernel)
  have hdata : marshalEnvelopeProto bracedEnvelope = .ok bracedEnvelope.toProto.encode :=
    marshalEnvelopeProto_eq_ok.mpr ⟨by decide +kernel, rfl⟩
  have hread : jsonPayload emptyJSON bracedEnvelope.payload = some (some emptyPayload) := by
    decide +kernel
  have hback : ReadsBack emptyJSON bracedEnvelope.payload :=
    ⟨by rw [hread, Option.isSome_some], shallow_emptyJSON _⟩
  obtain ⟨text, htext⟩ := marshalEnvelopeJSON_isOk emptyJSON_laws hread hback.shallow
  refine ⟨⟨_, hdata, hsound.1 _ hdata⟩, text, htext, (hsound.2 text htext).2 (.inr hback) [0x0A] ?_⟩
  intro c hc
  rw [List.mem_singleton.mp hc]
  rfl

/-! ## JSON that is taken for a message -/

/-- `protojson` of a program that writes `google.protobuf.Empty` and does not accept what it has
    written. -/
def unreadJSON : ProtoJSON where
  marshal := emptyJSON.marshal
  unmarshal _ := none

theorem unreadJSON_laws : unreadJSON.Laws where
  isObject_marshal h := emptyJSON_laws.isObject_marshal h
  unmarshal_compact _ _ := rfl
  unmarshal_fields h := nomatch h

/-- An envelope whose JSON text, behind a line feed, is a message: the line feed is the tag of the
    first field and the brace its length, which ends inside of the type; `z^` and `zJ` are the tags
    and the lengths of two unknown fields, the last of which ends with the text. -/
def ambiguousEnvelope : Envelope where
  specVersion := "1.0"
  id := "00000000-0000-4000-8000-000000000000"
  type := "orders.changes.order.createcreatecreatecreatecreatez^"
  source := ""
  time := 62135596800 * 1000000000
  dataContentType := ""
  tenantId := "zJ"
  traceParent := ""
  traceState := ""
  baggage := ""
  payload := some emptyPayload
  wireFormat := .other ""

/-- The message that it is read as. -/
def ambiguousMessage : Envelope where
  specVersion := "\"specversion\":\"1.0\",\"id\":\"00000000-0000-4000-8000-000000000000\"," ++
    "\"type\":\"orders.changes.order.createcreatecreatecreatecreate"
  id := ""
  type := ""
  source := ""
  time := zeroTime
  dataContentType := ""
  tenantId := ""
  traceParent := ""
  traceState := ""
  baggage := ""
  payload := none
  wireFormat := .proto

/-- **JSON that the decoder refuses is taken for a message** behind a line feed. -/
theorem unread_json_taken_for_message :
    ∃ text, marshalEnvelopeJSON unreadJSON ambiguousEnvelope = .ok text ∧
      unmarshalEnvelopeJSON unreadJSON text = .error .protojson ∧
      unmarshalEnvelope unreadJSON (0x0A :: text) = .ok ambiguousMessage := by
  have hcompact : Json.compact emptyPayloadText = some emptyPayloadText := by decide +kernel
  have hdata : marshalPayloadJSON unreadJSON ambiguousEnvelope.payload = .ok emptyPayloadText := rfl
  refine ⟨_, marshalEnvelopeJSON_eq_ok.mpr ⟨_, _, hdata, hcompact, rfl⟩, ?_, ?_⟩
  · decide +kernel
  · decide +kernel

end ServiceRuntime.NatsBus
