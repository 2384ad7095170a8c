import ServiceRuntime.AgentHook.Event
import ServiceRuntime.GoTime

/-!
# The Governance Check

`Runner.GovernanceCheck` of `run.go`: an event is evaluated by the governance service; if that asks
for an approval, one is requested and polled until it is decided. A result of `nil, nil` allows the
tool call, a decision denies it.

The services answer what they like. `Services` holds the answers of one check: those to the two
requests that are made once, and those to the polls, each with the clock and the context at its
time. An answer is a function of the request, so a statement about an answer says which request it
answers. Nothing makes the polls end, so a check is run with a bound on their number, and has no
result yet (`none`) if it is still waiting then.
-/

namespace ServiceRuntime.AgentHook

open GoStrings GoTime

/-! ## Requests and answers -/

inductive ActionDecision where
  | unspecified
  | allow
  | deny
  | requireApproval
  | other (number : Int)
  deriving DecidableEq

/-- The risk levels of the governance service, which may send unknown ones. -/
inductive GovernanceRisk where
  | unspecified
  | low
  | medium
  | high
  | critical
  | other (number : Int)
  deriving DecidableEq

/-- The risk levels of the approval service. -/
inductive ApprovalRisk where
  | unspecified
  | low
  | medium
  | high
  | critical
  deriving DecidableEq

inductive DecisionType where
  | unspecified
  | approved
  | denied
  | escalated
  | expired
  | autoApproved
  | other (number : Int)
  deriving DecidableEq

structure EvaluateActionRequest where
  workspaceId : String
  agentId : String
  actionType : String
  actionPayload : List UInt8
  authorization : Option String
  deriving DecidableEq

structure ActionEvaluation where
  decision : ActionDecision
  reasons : List String
  riskLevel : GovernanceRisk
  matchedRules : List String
  deriving DecidableEq

structure RequestApprovalRequest where
  workspaceId : String
  agentId : String
  surface : String
  actionType : String
  actionPayload : List UInt8
  riskLevel : ApprovalRisk
  contextJson : List UInt8
  authorization : Option String
  deriving DecidableEq

structure GetApprovalRequest where
  approvalRequestId : String
  workspaceId : String
  authorization : Option String
  deriving DecidableEq

structure ApprovalDecision where
  decision : DecisionType
  reason : String
  deriving DecidableEq

structure GetApprovalResponse where
  state : String
  decisions : List ApprovalDecision
  deriving DecidableEq

/-- One round of the polling loop. -/
structure Poll where
  /-- `ctx.Err()` at the head of the loop. -/
  ctxErr : Option String
  /-- `time.Now()` at the head of the loop. -/
  now : Int
  getApproval : GetApprovalRequest → Except String GetApprovalResponse
  /-- The error of `sleep`. -/
  sleepErr : Option String

/-- The world of one check. -/
structure Services where
  /-- The text of the error of `json.Unmarshal`. -/
  jsonErr : List UInt8 → String
  /-- An evaluation may be missing in the response. -/
  evaluateAction : EvaluateActionRequest → Except String (Option ActionEvaluation)
  /-- The id in the response, which is empty if there is none. -/
  requestApproval : RequestApprovalRequest → Except String String
  /-- `time.Now()` when the deadline is set. -/
  waitStart : Int
  polls : Nat → Poll

/-! ## The runner -/

/-- `Config`, as far as a check reads it. -/
structure Config where
  agentToken : String
  workspaceId : String
  agentId : String
  surface : String
  approvalTimeout : Duration

/-- `Runner`; a client may be nil. -/
structure Runner where
  config : Config
  governance : Bool
  approvals : Bool
  /-- The table of Unicode that `%q` goes by; no field of the source. -/
  isPrint : Char → Bool

def latestDecision (decisions : List ApprovalDecision) : Option ApprovalDecision :=
  decisions.getLast?

def joinReasons (reasons : List String) (fallback : String) : String :=
  let filtered := (reasons.map trimSpace).filter (· ≠ "")
  if filtered = [] then fallback else "; ".intercalate filtered

def mapApprovalRisk : GovernanceRisk → ApprovalRisk
  | .unspecified => .unspecified
  | .low => .low
  | .medium => .medium
  | .high => .high
  | .critical => .critical
  | .other _ => .unspecified

/-- `decisionFromApproval`; `none` allows. -/
def decisionFromApproval (isPrint : Char → Bool) (state : String) :
    Option ApprovalDecision → Option PermissionDecision
  | none =>
    if state = "resolved" then some (denyDecision "approval resolved without a final decision")
    else if state = "expired" then some (denyDecision "approval expired")
    else some (denyDecision ("approval ended in unexpected state " ++ goQuote isPrint state))
  | some decision =>
    match decision.decision with
    | .approved | .autoApproved => none
    | .unspecified =>
      some (denyDecision (firstNonEmpty [decision.reason, "approval did not resolve to allow"]))
    | .denied => some (denyDecision (firstNonEmpty [decision.reason, "approval denied"]))
    | .expired => some (denyDecision (firstNonEmpty [decision.reason, "approval expired"]))
    | .escalated => some (denyDecision (firstNonEmpty [decision.reason, "approval escalated"]))
    | .other _ =>
      some (denyDecision (firstNonEmpty [decision.reason, "approval did not resolve to allow"]))

namespace Runner

/-- `addAuthorization`. -/
def authorization (runner : Runner) : Option String :=
  let token := trimSpace runner.config.agentToken
  if token = "" then none else some ("Bearer " ++ token)

def evaluateRequest (runner : Runner) (event : ToolUseEvent) (input : List UInt8) :
    EvaluateActionRequest where
  workspaceId := runner.config.workspaceId
  agentId := event.resolvedAgentID runner.config.agentId
  actionType := event.toolName
  actionPayload := event.actionPayload input
  authorization := runner.authorization

def approvalRequest (runner : Runner) (event : ToolUseEvent) (input : List UInt8)
    (evaluation : ActionEvaluation) : RequestApprovalRequest where
  workspaceId := runner.config.workspaceId
  agentId := event.resolvedAgentID runner.config.agentId
  surface := event.surface runner.config.surface
  actionType := event.toolName
  actionPayload := event.actionPayload input
  riskLevel := mapApprovalRisk evaluation.riskLevel
  contextJson := event.approvalContextJSON input evaluation.reasons evaluation.matchedRules
  authorization := runner.authorization

/-- The request of `getApproval`. -/
def lookupRequest (runner : Runner) (approvalID : String) : GetApprovalRequest where
  approvalRequestId := approvalID
  workspaceId := runner.config.workspaceId
  authorization := runner.authorization

/-- What one round of the loop comes to. -/
inductive Round where
  | again
  | returned (decision : Option PermissionDecision)
  deriving DecidableEq

/-- The body of the loop in `awaitApproval`. -/
def round (runner : Runner) (deadline : Int) (approvalID : String) (poll : Poll) : Round :=
  match poll.ctxErr with
  | some err => .returned (some (denyDecision ("approval wait canceled: " ++ err)))
  | none =>
    if deadline < poll.now then .returned (some (denyDecision "approval timed out"))
    else
      match poll.getApproval (runner.lookupRequest approvalID) with
      | .error err => .returned (some (denyDecision ("approval lookup failed: " ++ err)))
      | .ok response =>
        let state := trimSpace response.state
        if state = "" ∨ state = "pending" then
          match poll.sleepErr with
          | some err => .returned (some (denyDecision ("approval wait canceled: " ++ err)))
          | none => .again
        else
          .returned (decisionFromApproval runner.isPrint state (latestDecision response.decisions))

/-- The loop in `awaitApproval`, from poll number `i` on, for at most `fuel` polls. -/
def pollLoop (runner : Runner) (deadline : Int) (approvalID : String) (polls : Nat → Poll) :
    Nat → Nat → Option (Option PermissionDecision)
  | 0, _ => none
  | fuel + 1, i =>
    match runner.round deadline approvalID (polls i) with
    | .again => pollLoop runner deadline approvalID polls fuel (i + 1)
    | .returned decision => some decision

def awaitApproval (runner : Runner) (services : Services) (event : ToolUseEvent)
    (input : List UInt8) (evaluation : ActionEvaluation) (fuel : Nat) :
    Option (Option PermissionDecision) :=
  if !runner.approvals then
    some (some (denyDecision "approval required but EVALOPS_APPROVALS_URL is not configured"))
  else
    match services.requestApproval (runner.approvalRequest event input evaluation) with
    | .error err => some (some (denyDecision ("approval request failed: " ++ err)))
    | .ok id =>
      let approvalID := trimSpace id
      if approvalID = "" then
        some (some (denyDecision "approval request failed: missing approval id"))
      else
        let deadline := add services.waitStart runner.config.approvalTimeout
        runner.pollLoop deadline approvalID services.polls fuel 0

/-- The switch of `GovernanceCheck` over the decision of the governance service. -/
def afterEvaluation (runner : Runner) (services : Services) (event : ToolUseEvent)
    (input : List UInt8) (evaluation : ActionEvaluation) (fuel : Nat) :
    Option (Except String (Option PermissionDecision)) :=
  match evaluation.decision with
  | .unspecified => some (.ok (some (denyDecision "governance returned an unknown decision")))
  | .allow => some (.ok none)
  | .deny =>
    some (.ok (some (denyDecision
      (joinReasons evaluation.reasons "governance denied this action"))))
  | .requireApproval => (runner.awaitApproval services event input evaluation fuel).map .ok
  | .other _ => some (.ok (some (denyDecision "governance returned an unknown decision")))

/-- `GovernanceCheck`; `none` is a check that is still waiting, and `.ok none` allows. -/
def governanceCheck (runner : Runner) (services : Services) (input : List UInt8) (fuel : Nat) :
    Option (Except String (Option PermissionDecision)) :=
  if !runner.governance then some (.error "governance client is required")
  else
    match parseToolUseEvent services.jsonErr input with
    | .error err => some (.ok (some (denyDecision err)))
    | .ok event =>
      if trimSpace (event.resolvedAgentID runner.config.agentId) = "" then
        some (.ok (some (denyDecision
          "agent_id is required via EVALOPS_AGENT_ID or hook session_id")))
      else
        match services.evaluateAction (runner.evaluateRequest event input) with
        | .error err => some (.ok (some (denyDecision ("governance check failed: " ++ err))))
        | .ok none => some (.ok (some (denyDecision "governance returned no evaluation")))
        | .ok (some evaluation) => runner.afterEvaluation services event input evaluation fuel

end Runner

end ServiceRuntime.AgentHook
