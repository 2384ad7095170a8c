import ServiceRuntime.GoTime
import ServiceRuntime.Json.Protojson

/-!
# Changes as Shared Messages

A record of the change journal is sent as the message `events/v1.Change` (`changejournal.go`). The
payload, which is a JSON text in the record, is a `google.protobuf.Struct` in the message, and the
numbers of a `Struct` are float64.

A record that goes to the message and back keeps its fields, and the payload keeps its meaning as
long as its numbers are integers of up to `2 ^ 53` (`roundTrip_of_isExact`). A larger integer may
come back as another one (`roundTrip_changes_integer`).
-/

namespace ServiceRuntime.ChangeJournal

open GoFloat
open ServiceRuntime.GoUtf8 (bytesTrimSpace)
open Json Json.Protojson

/-! ## Times -/

/-- `time.Time`: nanoseconds since the zero time, and the location that it is shown in. -/
structure Time where
  instant : ℤ
  location : String
  deriving DecidableEq

def Time.zero : Time := ⟨GoTime.zeroTime, "UTC"⟩

def Time.isZero (t : Time) : Bool := GoTime.isZero t.instant

def Time.utc (t : Time) : Time := ⟨t.instant, "UTC"⟩

structure Timestamp where
  seconds : ℤ
  nanos : ℤ
  deriving DecidableEq

/-- `timestamppb.New`: `t.Unix()` and `t.Nanosecond()`. -/
def Timestamp.new (t : Time) : Timestamp :=
  ⟨(t.instant - GoTime.unixEpoch) / 1000000000, t.instant % 1000000000⟩

/-- `AsTime`: `time.Unix(seconds, nanos).UTC()`. -/
def Timestamp.asTime (ts : Timestamp) : Time :=
  ⟨GoTime.unixEpoch + ts.seconds * 1000000000 + ts.nanos, "UTC"⟩

theorem asTime_new (t : Time) : (Timestamp.new t).asTime = t.utc := by
  unfold Timestamp.asTime Timestamp.new Time.utc GoTime.unixEpoch
  congr 1
  dsimp only
  omega

/-! ## Payloads -/

/-- The fields of a `structpb.Struct`. A number that is NaN or infinite is `none`. -/
abbrev Struct := List (String × Value (Option Float64))

/-- `structpb.NewStruct`. The strings of a decoded text are valid, and its numbers are finite. -/
def newStruct (fields : List (String × Value Float64)) : Struct := mapValues (Value.map some) fields

/-- `jsonErr` is the text of the decoder's error. -/
def changePayloadToStruct (jsonErr : List UInt8 → String) (payload : List UInt8) :
    Except String (Option Struct) :=
  let trimmed := bytesTrimSpace payload
  if trimmed = [] ∨ trimmed = nullText then .ok none
  else
    match decodeAny trimmed with
    | none => .error ("unmarshal_change_payload: " ++ jsonErr trimmed)
    | some (.object fields) => .ok (some (newStruct fields))
    | some _ => .error "change_payload_not_object"

/-- `space` is what the build puts after commas, and `protoErr` the text of the encoder's error. A
    payload that is nil is the empty text. -/
def structToChangePayload (space : Bool) (protoErr : Struct → String) :
    Option Struct → Except String (List UInt8)
  | none => .ok []
  | some payload =>
    match (Value.object payload).convert id with
    | none => .error ("marshal_change_payload_struct: " ++ protoErr payload)
    | some v => .ok (marshal space v)

/-! ## Records and messages -/

structure Change where
  sequence : ℤ
  organizationId : String
  aggregateType : String
  aggregateId : String
  operation : String
  actorType : String
  actorId : String
  aggregateVersion : ℤ
  recordedAt : Time
  payload : List UInt8
  deriving DecidableEq

def Change.zero : Change := ⟨0, "", "", "", "", "", "", 0, Time.zero, []⟩

/-- The message `events/v1.Change`. -/
structure Message where
  seq : ℤ
  organizationId : String
  aggregateType : String
  aggregateId : String
  operation : String
  actorType : String
  actorId : String
  aggregateVersion : ℤ
  recordedAt : Option Timestamp
  payload : Option Struct

def Change.toProto (jsonErr : List UInt8 → String) (change : Change) : Except String Message :=
  match changePayloadToStruct jsonErr change.payload with
  | .error e => .error e
  | .ok payload =>
    .ok
      { seq := change.sequence
        organizationId := change.organizationId
        aggregateType := change.aggregateType
        aggregateId := change.aggregateId
        operation := change.operation
        actorType := change.actorType
        actorId := change.actorId
        aggregateVersion := change.aggregateVersion
        recordedAt :=
          if change.recordedAt.isZero then none else some (Timestamp.new change.recordedAt.utc)
        payload := payload }

def changeFromProto (space : Bool) (protoErr : Struct → String) :
    Option Message → Except String Change
  | none => .ok Change.zero
  | some change =>
    match structToChangePayload space protoErr change.payload with
    | .error e => .error e
    | .ok payload =>
      .ok
        { sequence := change.seq
          organizationId := change.organizationId
          aggregateType := change.aggregateType
          aggregateId := change.aggregateId
          operation := change.operation
          actorType := change.actorType
          actorId := change.actorId
          aggregateVersion := change.aggregateVersion
          recordedAt := match change.recordedAt with
            | none => Time.zero
            | some ts => ts.asTime.utc
          payload := payload }

/-! ## To the message and back -/

section RoundTrip

variable (jsonErr : List UInt8 → String) (protoErr : Struct → String) (space : Bool)

/-- `ChangeFromProto(ToProto(change))`. -/
def roundTrip (change : Change) : Except String Change :=
  (change.toProto jsonErr).bind fun message => changeFromProto space protoErr (some message)

/-- All but the payload comes back, the time in UTC. -/
theorem roundTrip_of_payload {change : Change} {payload : Option Struct} {text : List UInt8}
    (hto : changePayloadToStruct jsonErr change.payload = .ok payload)
    (hfrom : structToChangePayload space protoErr payload = .ok text) :
    roundTrip jsonErr protoErr space change =
      .ok { change with recordedAt := change.recordedAt.utc, payload := text } := by
  have htime : (match (if change.recordedAt.isZero then none
      else some (Timestamp.new change.recordedAt.utc)) with
      | none => Time.zero
      | some ts => ts.asTime.utc) = change.recordedAt.utc := by
    cases hzero : change.recordedAt.isZero with
    | true =>
      -- the zero time is left out of the message
      have hinstant : change.recordedAt.instant = GoTime.zeroTime := by
        rwa [Time.isZero, GoTime.isZero, beq_iff_eq] at hzero
      rw [if_pos rfl, Time.utc, hinstant]
      rfl
    | false =>
      rw [if_neg Bool.false_ne_true]
      dsimp only
      rw [asTime_new]
      rfl
  unfold roundTrip Change.toProto
  rw [hto]
  show changeFromProto space protoErr (some _) = _
  unfold changeFromProto
  dsimp only
  rw [hfrom]
  dsimp only
  rw [htime]

theorem structToChangePayload_newStruct (fields : List (String × Value Float64)) :
    structToChangePayload space protoErr (some (newStruct fields)) =
      .ok (marshal space (.object fields)) := by
  have hconvert := Value.convert_map (f := id) (g := some) (fun x : Float64 => rfl) (.object fields)
  rw [Value.map_object] at hconvert
  unfold structToChangePayload newStruct
  dsimp only
  rw [hconvert]

/-- The payload is an object whose numbers are integers of up to `2 ^ 53`, with arrays and objects
    nested as deep as the decoder allows. -/
def isExact (payload : List UInt8) : Bool :=
  match parse payload with
  | some (.object fields) =>
    (Value.object fields).numbers isSafeLiteral &&
      decide ((Value.object fields).depth ≤ maxNestingDepth)
  | _ => false

variable {payload : List UInt8} {fields : List (String × Value (List UInt8))}

theorem isExact_iff :
    isExact payload = true ↔ ∃ fields, parse payload = some (.object fields) ∧
      (Value.object fields).numbers isSafeLiteral = true ∧
        (Value.object fields).depth ≤ maxNestingDepth := by
  unfold isExact
  constructor
  · intro h
    split at h
    · rename_i fields hparse
      rw [Bool.and_eq_true, decide_eq_true_eq] at h
      exact ⟨fields, hparse, h⟩
    · cases h
  · rintro ⟨fields, hparse, hnumbers, hdepth⟩
    rw [hparse]
    dsimp only
    rw [hnumbers, decide_eq_true hdepth]
    rfl

/-- What the decoder makes of the digits of a number, if it can read them. -/
def readFloat (literal : List UInt8) : Float64 := (parseFloat literal).getD Float64.zero

theorem readFloat_of_isSafeLiteral {literal : List UInt8} (h : isSafeLiteral literal = true) :
    parseFloat literal = some (readFloat literal) ∧ isSafe (readFloat literal) = true ∧
      numeral (appendFloat (readFloat literal)) = numeral literal := by
  obtain ⟨x, hx, hsafe, hmeans⟩ := exists_of_isSafeLiteral h
  have hread : readFloat literal = x := by
    rw [readFloat, hx, Option.getD_some]
  rw [hread]
  exact ⟨hx, hsafe, hmeans⟩

theorem trimmed_of_object (hparse : parse payload = some (.object fields)) :
    ¬ (bytesTrimSpace payload = [] ∨ bytesTrimSpace payload = nullText) ∧
      parse (bytesTrimSpace payload) = some (.object fields) := by
  obtain ⟨⟨inner, hbraces⟩, htrimmed⟩ := parse_bytesTrimSpace hparse
  refine ⟨?_, htrimmed⟩
  rw [hbraces]
  rintro (hempty | hnull)
  · cases hempty
  · cases hnull

theorem changePayloadToStruct_of_isExact (hparse : parse payload = some (.object fields))
    (hnumbers : (Value.object fields).numbers isSafeLiteral = true)
    (hdepth : (Value.object fields).depth ≤ maxNestingDepth) :
    ∃ decoded, Value.object decoded = ((Value.object fields).map readFloat).collapse ∧
      changePayloadToStruct jsonErr payload = .ok (some (newStruct decoded)) := by
  obtain ⟨htext, htrimmed⟩ := trimmed_of_object hparse
  have hconvert : (Value.object fields).convert parseFloat =
      some ((Value.object fields).map readFloat) :=
    Value.convert_eq_map (fun _ h => (readFloat_of_isSafeLiteral h).1) _ hnumbers
  have hdecode : decodeAny (bytesTrimSpace payload) =
      some ((Value.object fields).map readFloat).collapse := by
    unfold decodeAny
    rw [htrimmed, Option.bind_some, if_pos hdepth, hconvert, Option.map_some]
  rw [Value.map_object, Value.collapse_object] at hdecode ⊢
  refine ⟨_, rfl, ?_⟩
  unfold changePayloadToStruct
  dsimp only
  rw [if_neg htext, hdecode]

/-- **The text that is written for it has the same meaning.** -/
theorem meaning_marshal_of_isExact (hparse : parse payload = some (.object fields))
    (hnumbers : (Value.object fields).numbers isSafeLiteral = true)
    {decoded : List (String × Value Float64)}
    (hdecoded : Value.object decoded = ((Value.object fields).map readFloat).collapse) :
    meaning (marshal space (.object decoded)) = meaning payload := by
  have hsafe : (Value.object decoded).numbers isSafe = true := by
    rw [hdecoded]
    apply Value.numbers_collapse
    exact Value.numbers_map (fun _ h => (readFloat_of_isSafeLiteral h).2.1) _ hnumbers
  have hmeans :
      (Value.object fields).map (fun literal => numeral (appendFloat (readFloat literal))) =
        (Value.object fields).map numeral :=
    Value.map_congr (fun _ h => (readFloat_of_isSafeLiteral h).2.2) _ hnumbers
  unfold meaning
  rw [parse_marshal space decoded hsafe, hparse, Option.map_some, Option.map_some, hdecoded]
  -- the objects were collapsed when they were decoded and when they were written
  rw [Value.map_collapse, Value.collapse_collapse, Value.map_collapse, Value.map_collapse,
    Value.collapse_collapse, Value.map_map, Value.map_map, hmeans]

/-- **A change survives the shared message**, if the numbers of its payload are integers of up to
    `2 ^ 53` and the decoder can follow its nesting: all other fields are as they were, the time is
    the same instant in UTC, and the payload means the same. -/
theorem roundTrip_of_isExact (change : Change) (h : isExact change.payload = true) :
    ∃ back, roundTrip jsonErr protoErr space change = .ok back ∧
      { back with payload := change.payload } =
        { change with recordedAt := change.recordedAt.utc } ∧
      meaning back.payload = meaning change.payload ∧ (meaning back.payload).isSome = true := by
  obtain ⟨fields, hparse, hnumbers, hdepth⟩ := isExact_iff.mp h
  obtain ⟨decoded, hdecoded, hto⟩ :=
    changePayloadToStruct_of_isExact jsonErr hparse hnumbers hdepth
  have hfrom := structToChangePayload_newStruct protoErr space decoded
  have hmeaning := meaning_marshal_of_isExact space hparse hnumbers hdecoded
  refine ⟨_, roundTrip_of_payload jsonErr protoErr space hto hfrom, rfl, hmeaning, ?_⟩
  dsimp only
  rw [hmeaning, meaning, hparse]
  rfl

end RoundTrip

/-! ## On some records -/

/-- A record with a nested payload, in which a key comes twice. -/
def nestedChange : Change where
  sequence := 7
  organizationId := "org-123"
  aggregateType := "deal"
  aggregateId := "deal-1"
  operation := "update"
  actorType := "service"
  actorId := "pipeline"
  aggregateVersion := 9
  recordedAt := ⟨63911527200000000001, "Local"⟩
  payload := GoStrings.bytes
    (" \x7b\"version\": 8, \"name\":\"Ada\\n\", \"tags\":[-3, \x7b\"a\":\"\"\x7d], " ++
      "\"version\":9007199254740992\x7d ")

theorem roundTrip_nestedChange : isExact nestedChange.payload = true ∧
    ∃ back, roundTrip (fun _ => "") (fun _ => "") true nestedChange = .ok back ∧
      { back with payload := nestedChange.payload } =
        { nestedChange with recordedAt := nestedChange.recordedAt.utc } ∧
      meaning back.payload = meaning nestedChange.payload ∧
        (meaning back.payload).isSome = true :=
  ⟨by decide +kernel, roundTrip_of_isExact _ _ _ nestedChange (by decide +kernel)⟩

/-- A record whose payload has the integer `2 ^ 53 + 1`. -/
def lossyChange : Change :=
  { nestedChange with payload := GoStrings.bytes "\x7b\"id\":9007199254740993\x7d" }

/-- **A larger integer comes back as another one.** -/
theorem roundTrip_changes_integer :
    (meaning lossyChange.payload).map (Value.numbers (· == .int 9007199254740993)) = some true ∧
      ∃ back, roundTrip (fun _ => "") (fun _ => "") false lossyChange = .ok back ∧
        back.payload = GoStrings.bytes "\x7b\"id\":9007199254740992\x7d" ∧
        meaning back.payload ≠ meaning lossyChange.payload := by
  have htrip : (roundTrip (fun _ => "") (fun _ => "") false lossyChange).toOption =
      some { lossyChange with
        recordedAt := lossyChange.recordedAt.utc
        payload := GoStrings.bytes "\x7b\"id\":9007199254740992\x7d" } := by decide +kernel
  refine ⟨by decide +kernel, ?_⟩
  cases hback : roundTrip (fun _ => "") (fun _ => "") false lossyChange with
  | error e =>
    rw [hback] at htrip
    cases htrip
  | ok back =>
    rw [hback] at htrip
    cases htrip
    refine ⟨_, rfl, rfl, fun hsame => ?_⟩
    -- only one of the two has the number that was sent
    have hnumbers := congrArg (Option.map (Value.numbers (· == .int 9007199254740993))) hsame
    revert hnumbers
    decide +kernel

end ServiceRuntime.ChangeJournal
