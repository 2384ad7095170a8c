import ServiceRuntime.GoFloat
import ServiceRuntime.Json.Object

/-!
# Tool-Use Events

The envelope that an agent runtime hands to the hook before it uses a tool (`hook.go`): how it is
decoded from JSON and what the hook derives from it for its requests.

`context` and `metadata` are decoded into `map[string]any`. A map is kept as its members with the
text of each value, since all that is looked at is whether a value is a string. A number that does
not fit into a float64 is an error of the decoder wherever it stands in such a map.
-/

namespace ServiceRuntime.AgentHook

open GoStrings GoUtf8
open ServiceRuntime.Json (Scanner Setter compact members objectText quote rawField stringField
  unmarshalStruct unquote)

/-! ## Numbers -/

def isNumber (s : Scanner) : Bool :=
  [.neg, .zero, .one, .dot, .dot0, .e, .eSign, .e0].contains s.state

/-- The numbers of a text, from a state inside of the number `current` on. -/
def numberLiterals : Scanner → List UInt8 → List UInt8 → List (List UInt8)
  | _, current, [] => if current = [] then [] else [current]
  | s, current, c :: rest =>
    match s.step c with
    | none => []
    | some s' =>
      if isNumber s' then numberLiterals s' (current ++ [c]) rest
      else if current = [] then numberLiterals s' [] rest
      else current :: numberLiterals s' [] rest

def fitsFloat64 (literal : List UInt8) : Bool := (GoFloat.parseFloat literal).isSome

/-! ## Events -/

/-- A `map[string]any`: the later of two members with one key counts. -/
abbrev Values := List (String × List UInt8)

structure ToolUseEvent where
  toolName : String
  toolInput : List UInt8
  sessionId : String
  agentId : String
  context : Values
  metadata : Values
  deriving DecidableEq

/-- A field that is a map: null empties it, an object is merged into it. -/
def mapField (get : ToolUseEvent → Values) (set : ToolUseEvent → Values → ToolUseEvent) :
    Setter ToolUseEvent := fun event raw =>
  if raw.head? = some 0x6E then some (set event [])
  else if raw.head? = some 0x7B ∧ (numberLiterals Json.start [] raw).all fitsFloat64 then
    (members raw).bind fun ms =>
      (ms.mapM fun m => (unquote m.key).map fun key => (key, m.value)).map fun entries =>
        set event (get event ++ entries)
  else none

def ToolUseEvent.zero : ToolUseEvent := ⟨"", [], "", "", [], []⟩

def ToolUseEvent.fields : List (String × Setter ToolUseEvent) :=
  [("tool_name", stringField fun event s => { event with toolName := s }),
    ("tool_input", rawField fun event raw => { event with toolInput := raw }),
    ("session_id", stringField fun event s => { event with sessionId := s }),
    ("agent_id", stringField fun event s => { event with agentId := s }),
    ("context", mapField ToolUseEvent.context fun event values => { event with context := values }),
    ("metadata",
      mapField ToolUseEvent.metadata fun event values => { event with metadata := values })]

/-- `ParseToolUseEvent`; `jsonErr` is the text of the decoder's error. -/
def parseToolUseEvent (jsonErr : List UInt8 → String) (data : List UInt8) :
    Except String ToolUseEvent :=
  match unmarshalStruct ToolUseEvent.fields ToolUseEvent.zero data with
  | none => .error ("decode_tool_use_payload: " ++ jsonErr data)
  | some event =>
    if trimSpace event.toolName = "" then .error "tool_name is required" else .ok event

/-! ## What is derived from an event -/

def firstNonEmpty : List String → String
  | [] => ""
  | value :: values => if trimSpace value = "" then firstNonEmpty values else trimSpace value

def lookupString (values : Values) (key : String) : String :=
  match values.reverse.find? fun entry => entry.1 == key with
  | none => ""
  | some (_, raw) =>
    if raw.head? = some 0x22 then ((unquote raw).map trimSpace).getD "" else ""

namespace ToolUseEvent

def actionPayload (event : ToolUseEvent) (raw : List UInt8) : List UInt8 :=
  let trimmed := bytesTrimSpace event.toolInput
  if trimmed ≠ [] ∧ trimmed ≠ bytes "null" then trimmed else bytesTrimSpace raw

def resolvedAgentID (event : ToolUseEvent) (fallback : String) : String :=
  firstNonEmpty
    [event.agentId,
      lookupString event.context "agent_id",
      lookupString event.metadata "agent_id",
      event.sessionId,
      lookupString event.context "session_id",
      lookupString event.metadata "session_id",
      fallback]

def surface (event : ToolUseEvent) (fallback : String) : String :=
  firstNonEmpty
    [lookupString event.context "surface", lookupString event.metadata "surface", fallback]

/-- A list of strings as JSON; an empty repeated field is a nil slice. -/
def stringsText : List String → List UInt8
  | [] => bytes "null"
  | s :: rest => 0x5B :: (quote s ++ rest.flatMap fun t => 0x2C :: quote t) ++ [0x5D]

/-- `ApprovalContextJSON`: `json.Marshal` sorts the keys of a map. -/
def approvalContextJSON (event : ToolUseEvent) (raw : List UInt8)
    (reasons matchedRules : List String) : List UInt8 :=
  match compact raw with
  | none => bytes "\x7b\x7d"
  | some hookEvent =>
    objectText
      [("governance_reasons", stringsText reasons),
        ("hook_event", hookEvent),
        ("matched_rules", stringsText matchedRules),
        ("tool_name", quote event.toolName)]

end ToolUseEvent

/-! ## Decisions -/

structure PermissionDecision where
  permissionDecision : String
  permissionDecisionReason : String
  deriving DecidableEq

def denyDecision (reason : String) : PermissionDecision := ⟨"deny", trimSpace reason⟩

end ServiceRuntime.AgentHook
