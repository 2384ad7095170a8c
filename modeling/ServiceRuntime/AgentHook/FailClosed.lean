import ServiceRuntime.AgentHook.Runner

/-!
# Does the Hook Fail Closed?

A tool call is to be allowed only if governance allowed it, or if an approval was required,
requested and *resolved* with an approving decision. Everything else that can happen to a check
denies, except for one thing: `decisionFromApproval` looks at the state of the approval only if
there is no decision. So an approval that has ended in another state (it may have expired after a
first partial approval) allows the call if its last decision approves.

`allows_iff` says exactly when a check allows. It follows that the hook fails closed in a world
exactly if that combination does not occur in it (`failsClosed_iff`).
-/

namespace ServiceRuntime.AgentHook

open GoStrings GoTime

/-! ## Answers -/

namespace GetApprovalResponse

def IsPending (response : GetApprovalResponse) : Prop :=
  trimSpace response.state = "" ∨ trimSpace response.state = "pending"

def Approves (response : GetApprovalResponse) : Prop :=
  ∃ decision, latestDecision response.decisions = some decision ∧
    (decision.decision = .approved ∨ decision.decision = .autoApproved)

def IsResolved (response : GetApprovalResponse) : Prop := trimSpace response.state = "resolved"

theorem IsResolved.not_isPending {response : GetApprovalResponse} (h : response.IsResolved) :
    ¬ response.IsPending := by
  rintro (hstate | hstate) <;> (rw [h] at hstate; revert hstate; decide)

end GetApprovalResponse

theorem decisionFromApproval_eq_none_iff (isPrint : Char → Bool) (state : String)
    (decision : Option ApprovalDecision) :
    decisionFromApproval isPrint state decision = none ↔
      ∃ d, decision = some d ∧ (d.decision = .approved ∨ d.decision = .autoApproved) := by
  cases decision with
  | none =>
    unfold decisionFromApproval
    split_ifs <;> simp
  | some d =>
    obtain ⟨type, reason⟩ := d
    cases type <;> simp [decisionFromApproval]

/-! ## Rounds of the loop -/

namespace Runner

variable {runner : Runner}

/-- A poll that reaches the approval service before the deadline, and its answer. -/
structure Answered (runner : Runner) (deadline : Int) (approvalID : String) (poll : Poll)
    (response : GetApprovalResponse) : Prop where
  live : poll.ctxErr = none
  inTime : ¬ deadline < poll.now
  answer : poll.getApproval (runner.lookupRequest approvalID) = .ok response

variable {id approvalID : String} {poll : Poll} {response : GetApprovalResponse} {fuel : Nat}
  {services : Services} {input : List UInt8} {event : ToolUseEvent} {evaluation : ActionEvaluation}

theorem round_of_pending {deadline : Int} (h : Answered runner deadline approvalID poll response)
    (hpending : response.IsPending) :
    runner.round deadline approvalID poll =
      match poll.sleepErr with
      | some err => .returned (some (denyDecision ("approval wait canceled: " ++ err)))
      | none => .again := by
  unfold round
  rw [h.live, h.answer]
  dsimp only
  rw [if_neg h.inTime]
  exact if_pos hpending

theorem round_of_final {deadline : Int} (h : Answered runner deadline approvalID poll response)
    (hfinal : ¬ response.IsPending) :
    runner.round deadline approvalID poll =
      .returned (decisionFromApproval runner.isPrint (trimSpace response.state)
        (latestDecision response.decisions)) := by
  unfold round
  rw [h.live, h.answer]
  dsimp only
  rw [if_neg h.inTime]
  exact if_neg hfinal

theorem round_cases (runner : Runner) (deadline : Int) (approvalID : String) (poll : Poll) :
    (∃ response, Answered runner deadline approvalID poll response) ∨
      ∃ reason, runner.round deadline approvalID poll = .returned (some (denyDecision reason)) := by
  unfold round
  cases hctx : poll.ctxErr with
  | some err => exact Or.inr ⟨_, rfl⟩
  | none =>
    dsimp only
    by_cases htime : deadline < poll.now
    · rw [if_pos htime]
      exact Or.inr ⟨_, rfl⟩
    · rw [if_neg htime]
      cases hanswer : poll.getApproval (runner.lookupRequest approvalID) with
      | error err => exact Or.inr ⟨_, rfl⟩
      | ok response => exact Or.inl ⟨response, hctx, htime, hanswer⟩

/-- The loop goes on after a pending answer only. -/
theorem round_eq_again_iff {deadline : Int} :
    runner.round deadline approvalID poll = .again ↔
      (∃ response, Answered runner deadline approvalID poll response ∧ response.IsPending) ∧
        poll.sleepErr = none := by
  constructor
  · intro hagain
    rcases round_cases runner deadline approvalID poll with ⟨response, h⟩ | ⟨reason, hreason⟩
    · by_cases hpending : response.IsPending
      · rw [round_of_pending h hpending] at hagain
        cases hsleep : poll.sleepErr with
        | none => exact ⟨⟨response, h, hpending⟩, rfl⟩
        | some err =>
          rw [hsleep] at hagain
          cases hagain
      · rw [round_of_final h hpending] at hagain
        cases hagain
    · rw [hreason] at hagain
      cases hagain
  · rintro ⟨⟨response, h, hpending⟩, hsleep⟩
    rw [round_of_pending h hpending, hsleep]

theorem round_eq_allow_iff {deadline : Int} :
    runner.round deadline approvalID poll = .returned none ↔
      ∃ response, Answered runner deadline approvalID poll response ∧ ¬ response.IsPending ∧
        response.Approves := by
  constructor
  · intro hallow
    rcases round_cases runner deadline approvalID poll with ⟨response, h⟩ | ⟨reason, hreason⟩
    · by_cases hpending : response.IsPending
      · rw [round_of_pending h hpending] at hallow
        split at hallow <;> cases hallow
      · rw [round_of_final h hpending, Round.returned.injEq,
          decisionFromApproval_eq_none_iff] at hallow
        exact ⟨response, h, hpending, hallow⟩
    · rw [hreason] at hallow
      cases hallow
  · rintro ⟨response, h, hfinal, happroves⟩
    rw [round_of_final h hfinal, (decisionFromApproval_eq_none_iff _ _ _).mpr happroves]

/-- **The loop returns what its first round that does not go on returns.** -/
theorem pollLoop_eq_some_iff {deadline : Int} {polls : Nat → Poll} {i : Nat}
    {decision : Option PermissionDecision} :
    runner.pollLoop deadline approvalID polls fuel i = some decision ↔
      ∃ k < fuel, (∀ j < k, runner.round deadline approvalID (polls (i + j)) = .again) ∧
        runner.round deadline approvalID (polls (i + k)) = .returned decision := by
  induction fuel generalizing i with
  | zero => simp [pollLoop]
  | succ fuel ih =>
    have hshift : ∀ j, i + 1 + j = i + (j + 1) := by omega
    unfold pollLoop
    cases hround : runner.round deadline approvalID (polls i) with
    | again =>
      -- one round later, with one less to go
      dsimp only
      rw [ih]
      constructor
      · rintro ⟨k, hk, hagain, hreturned⟩
        refine ⟨k + 1, by omega, ?_, hshift k ▸ hreturned⟩
        intro j hj
        cases j with
        | zero => exact hround
        | succ j => exact hshift j ▸ hagain j (by omega)
      · rintro ⟨k, hk, hagain, hreturned⟩
        cases k with
        | zero =>
          rw [Nat.add_zero, hround] at hreturned
          cases hreturned
        | succ k =>
          refine ⟨k, by omega, fun j hj => ?_, (hshift k).symm ▸ hreturned⟩
          exact (hshift j).symm ▸ hagain (j + 1) (by omega)
    -- the loop ends here, so no later round counts
    | returned decision' =>
      dsimp only
      constructor
      · intro h
        cases h
        exact ⟨0, by omega, fun j hj => absurd hj (Nat.not_lt_zero j), hround⟩
      · rintro ⟨k, hk, hagain, hreturned⟩
        cases k with
        | zero =>
          rw [Nat.add_zero, hround] at hreturned
          cases hreturned
          rfl
        | succ k =>
          have hfirst := hagain 0 (by omega)
          rw [Nat.add_zero, hround] at hfirst
          cases hfirst

/-! ## Checks that allow -/

/-- The deadline that `awaitApproval` sets. -/
def deadline (runner : Runner) (services : Services) : Int :=
  add services.waitStart runner.config.approvalTimeout

/-- The governance service has evaluated the event of the input. -/
structure Evaluated (runner : Runner) (services : Services) (input : List UInt8)
    (event : ToolUseEvent) (evaluation : ActionEvaluation) : Prop where
  governance : runner.governance = true
  parsed : parseToolUseEvent services.jsonErr input = .ok event
  agent : trimSpace (event.resolvedAgentID runner.config.agentId) ≠ ""
  answer : services.evaluateAction (runner.evaluateRequest event input) = .ok (some evaluation)

/-- The check gets to the polls of an approval: it is required, and requested under this id. -/
structure Requested (runner : Runner) (services : Services) (input : List UInt8)
    (event : ToolUseEvent) (evaluation : ActionEvaluation) (id : String) : Prop where
  evaluated : Evaluated runner services input event evaluation
  required : evaluation.decision = .requireApproval
  approvals : runner.approvals = true
  answer : services.requestApproval (runner.approvalRequest event input evaluation) = .ok id
  id_ne : trimSpace id ≠ ""

/-- The polls end with an answer to poll number `k`. -/
structure EndsWith (runner : Runner) (services : Services) (id : String) (k : Nat)
    (response : GetApprovalResponse) : Prop where
  earlier : ∀ j < k,
    runner.round (runner.deadline services) (trimSpace id) (services.polls j) = .again
  answered : Answered runner (runner.deadline services) (trimSpace id) (services.polls k) response
  final : ¬ response.IsPending

theorem governanceCheck_of_evaluated (h : Evaluated runner services input event evaluation)
    (fuel : Nat) :
    runner.governanceCheck services input fuel =
      runner.afterEvaluation services event input evaluation fuel := by
  unfold governanceCheck
  rw [h.governance, h.parsed]
  dsimp only
  rw [if_neg (by decide), if_neg h.agent, h.answer]

theorem exists_evaluated (h : runner.governanceCheck services input fuel = some (.ok none)) :
    ∃ event evaluation, Evaluated runner services input event evaluation := by
  unfold governanceCheck at h
  split at h
  · cases h
  · rename_i hgovernance
    split at h
    · cases h
    · rename_i event hevent
      split at h
      · cases h
      · rename_i hagent
        split at h
        · cases h
        · cases h
        · rename_i evaluation hanswer
          have hclient : runner.governance = true := by simpa using hgovernance
          exact ⟨event, evaluation, hclient, hevent, hagent, hanswer⟩

theorem awaitApproval_of_requested (h : Requested runner services input event evaluation id)
    (fuel : Nat) :
    runner.awaitApproval services event input evaluation fuel =
      runner.pollLoop (runner.deadline services) (trimSpace id) services.polls fuel 0 := by
  unfold awaitApproval
  rw [h.approvals, h.answer]
  dsimp only
  rw [if_neg (by decide), if_neg h.id_ne]
  rfl

theorem exists_requested (hevaluated : Evaluated runner services input event evaluation)
    (hrequired : evaluation.decision = .requireApproval)
    (h : runner.awaitApproval services event input evaluation fuel = some none) :
    ∃ id, Requested runner services input event evaluation id := by
  unfold awaitApproval at h
  split at h
  · cases h
  · rename_i happrovals
    split at h
    · cases h
    · rename_i id hanswer
      dsimp only at h
      split at h
      · cases h
      · rename_i hid
        exact ⟨id, hevaluated, hrequired, by simpa using happrovals, hanswer, hid⟩

theorem pollLoop_eq_allow_iff :
    runner.pollLoop (runner.deadline services) (trimSpace id) services.polls fuel 0 = some none ↔
      ∃ k < fuel, ∃ response, EndsWith runner services id k response ∧ response.Approves := by
  rw [pollLoop_eq_some_iff]
  simp only [Nat.zero_add, round_eq_allow_iff]
  constructor
  · rintro ⟨k, hk, hagain, response, hanswered, hfinal, happroves⟩
    exact ⟨k, hk, response, ⟨hagain, hanswered, hfinal⟩, happroves⟩
  · rintro ⟨k, hk, response, hends, happroves⟩
    exact ⟨k, hk, hends.earlier, response, hends.answered, hends.final, happroves⟩

/-- **When a check allows**: governance has allowed the call, or an approval was required and
    requested and its polls have ended with an approving answer. -/
theorem allows_iff :
    runner.governanceCheck services input fuel = some (.ok none) ↔
      ∃ event evaluation, Evaluated runner services input event evaluation ∧
        (evaluation.decision = .allow ∨
          ∃ id, Requested runner services input event evaluation id ∧
            ∃ k < fuel, ∃ response, EndsWith runner services id k response ∧ response.Approves) := by
  constructor
  · intro h
    obtain ⟨event, evaluation, hevaluated⟩ := exists_evaluated h
    refine ⟨event, evaluation, hevaluated, ?_⟩
    rw [governanceCheck_of_evaluated hevaluated, afterEvaluation] at h
    -- no decision, allow, deny, approval required, and what is unknown
    split at h
    · cases h
    · rename_i hdecision
      exact Or.inl hdecision
    · cases h
    · rename_i hdecision
      obtain ⟨decision, hawait, hnone⟩ := Option.map_eq_some_iff.mp h
      cases hnone
      obtain ⟨id, hrequested⟩ := exists_requested hevaluated hdecision hawait
      rw [awaitApproval_of_requested hrequested, pollLoop_eq_allow_iff] at hawait
      exact Or.inr ⟨id, hrequested, hawait⟩
    · cases h
  · rintro ⟨event, evaluation, hevaluated, hallow | ⟨id, hrequested, hends⟩⟩
    · rw [governanceCheck_of_evaluated hevaluated, afterEvaluation, hallow]
    · rw [governanceCheck_of_evaluated hevaluated, afterEvaluation, hrequested.required]
      dsimp only
      rw [awaitApproval_of_requested hrequested, pollLoop_eq_allow_iff.mpr hends]
      rfl

/-! ## Failing closed -/

/-- What an allowed call rests on: the evaluation of this event, or an approval of it that was
    pending at every earlier poll and has been resolved with an approving decision. -/
def Justified (runner : Runner) (services : Services) (input : List UInt8) : Prop :=
  ∃ event evaluation,
    parseToolUseEvent services.jsonErr input = .ok event ∧
    services.evaluateAction (runner.evaluateRequest event input) = .ok (some evaluation) ∧
    (evaluation.decision = .allow ∨
      evaluation.decision = .requireApproval ∧
        ∃ id, services.requestApproval (runner.approvalRequest event input evaluation) = .ok id ∧
          trimSpace id ≠ "" ∧
          ∃ k,
            (∀ j < k, ∃ earlier, (services.polls j).getApproval
              (runner.lookupRequest (trimSpace id)) = .ok earlier ∧ earlier.IsPending) ∧
            ∃ last, (services.polls k).getApproval
              (runner.lookupRequest (trimSpace id)) = .ok last ∧ last.IsResolved ∧ last.Approves)

/-- The check allows only what is justified, however long it polls. -/
def FailsClosed (runner : Runner) (services : Services) (input : List UInt8) : Prop :=
  ∀ fuel, runner.governanceCheck services input fuel = some (.ok none) →
    runner.Justified services input

/-- **The hook fails closed exactly if no approval that has ended in another state than resolved
    lists an approving decision last.** -/
theorem failsClosed_iff (runner : Runner) (services : Services) (input : List UInt8) :
    runner.FailsClosed services input ↔
      ∀ event evaluation id k response, Requested runner services input event evaluation id →
        EndsWith runner services id k response → response.Approves → response.IsResolved := by
  constructor
  · intro h event evaluation id k response hrequested hends happroves
    have hallow := allows_iff.mpr ⟨event, evaluation, hrequested.evaluated,
      Or.inr ⟨id, hrequested, k, Nat.lt_succ_self k, response, hends, happroves⟩⟩
    obtain ⟨event', evaluation', hevent, heval, hcases⟩ := h (k + 1) hallow
    -- the services answer the same requests, so this is about the same event, evaluation and id
    rw [hrequested.evaluated.parsed] at hevent
    cases hevent
    rw [hrequested.evaluated.answer] at heval
    cases heval
    rcases hcases with hdecision | ⟨-, id', hid, -, k', hearlier, last, hlast, hresolved, -⟩
    · rw [hrequested.required] at hdecision
      cases hdecision
    · rw [hrequested.answer] at hid
      cases hid
      -- both `k` and `k'` are the first poll that is not pending
      have hle : k ≤ k' := by
        by_contra hlt
        obtain ⟨⟨pending, hanswered, hpending⟩, -⟩ :=
          round_eq_again_iff.mp (hends.earlier k' (by omega))
        have heq := hanswered.answer.symm.trans hlast
        cases heq
        exact hresolved.not_isPending hpending
      have hge : k' ≤ k := by
        by_contra hlt
        obtain ⟨pending, hanswer, hpending⟩ := hearlier k (by omega)
        have heq := hends.answered.answer.symm.trans hanswer
        cases heq
        exact hends.final hpending
      obtain rfl : k = k' := le_antisymm hle hge
      have heq := hends.answered.answer.symm.trans hlast
      cases heq
      exact hresolved
  · intro h fuel hallow
    obtain ⟨event, evaluation, hevaluated, hcases⟩ := allows_iff.mp hallow
    refine ⟨event, evaluation, hevaluated.parsed, hevaluated.answer, ?_⟩
    rcases hcases with hdecision | ⟨id, hrequested, k, -, response, hends, happroves⟩
    · exact Or.inl hdecision
    · refine Or.inr ⟨hrequested.required, id, hrequested.answer, hrequested.id_ne, k, ?_, ?_⟩
      · intro j hj
        obtain ⟨⟨earlier, hanswered, hpending⟩, -⟩ := round_eq_again_iff.mp (hends.earlier j hj)
        exact ⟨earlier, hanswered.answer, hpending⟩
      · have hresolved := h event evaluation id k response hrequested hends happroves
        exact ⟨response, hends.answered.answer, hresolved, happroves⟩

def fullRunner : Runner :=
  ⟨⟨"", "workspace", "", "codex", Duration.second⟩, true, true, fun _ => true⟩

/-- An event of the tool `Bash` in the session `s`. -/
def bashInput : List UInt8 := bytes "\x7b\"tool_name\":\"Bash\",\"session_id\":\"s\"\x7d"

/-- Governance requires an approval, which has expired after a first approver approved. -/
def expiredServices : Services where
  jsonErr _ := ""
  evaluateAction _ := .ok (some ⟨.requireApproval, [], .high, []⟩)
  requestApproval _ := .ok "approval-1"
  waitStart := 0
  polls _ := ⟨none, 0, fun _ => .ok ⟨"expired", [⟨.approved, "first of two approvers"⟩]⟩, none⟩

theorem bashInput_parsed (jsonErr : List UInt8 → String) :
    parseToolUseEvent jsonErr bashInput = .ok ⟨"Bash", [], "s", "", [], []⟩ := by
  have hread : Json.unmarshalStruct ToolUseEvent.fields ToolUseEvent.zero bashInput =
      some ⟨"Bash", [], "s", "", [], []⟩ := by decide +kernel
  unfold parseToolUseEvent
  rw [hread]
  rfl

/-- The hook allows the call all the same. -/
theorem expired_approval_allows : ¬ fullRunner.FailsClosed expiredServices bashInput := by
  intro h
  have hevaluated : Evaluated fullRunner expiredServices bashInput
      ⟨"Bash", [], "s", "", [], []⟩ ⟨.requireApproval, [], .high, []⟩ :=
    ⟨rfl, bashInput_parsed _, by decide, rfl⟩
  have hrequested : Requested fullRunner expiredServices bashInput _ _ "approval-1" :=
    ⟨hevaluated, rfl, rfl, rfl, by decide⟩
  have hfinal : ¬ GetApprovalResponse.IsPending
      ⟨"expired", [⟨.approved, "first of two approvers"⟩]⟩ := by
    unfold GetApprovalResponse.IsPending
    decide
  have hends : EndsWith fullRunner expiredServices "approval-1" 0 _ :=
    ⟨fun j hj => absurd hj (Nat.not_lt_zero j), ⟨rfl, by decide, rfl⟩, hfinal⟩
  have hallow := allows_iff.mpr ⟨_, _, hevaluated,
    Or.inr ⟨_, hrequested, 0, Nat.one_pos, _, hends, _, rfl, Or.inl rfl⟩⟩
  obtain ⟨event, evaluation, -, heval, hcases⟩ := h 1 hallow
  cases heval
  rcases hcases with hdecision | ⟨-, id, -, -, k, -, last, hlast, hresolved, -⟩
  · cases hdecision
  · cases hlast
    revert hresolved
    unfold GetApprovalResponse.IsResolved
    decide

end Runner

end ServiceRuntime.AgentHook
