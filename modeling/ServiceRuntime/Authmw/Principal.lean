import ServiceRuntime.Connect.Code
import ServiceRuntime.GoStrings
import ServiceRuntime.Storage.KeyedTable

/-!
# Principals

`PrincipalFromActor` folds the attributes of an actor into the fields of a principal. The keys are
trimmed and compared without case, and two fields have two names, so several attributes may be for
one field. Each of them overwrites the field, and a Go map is enumerated in any order, so which
value stays is up to the run, and with it what `RequireWorkspace`, `RequireHuman` and
`RejectSelfApproval` say.

`Consistent` is the condition under which the order does not matter: attributes for one field have
one value. The flag `is_human` is only ever raised, so it needs no condition.
-/

namespace ServiceRuntime.Authmw

open Connect GoStrings Storage

/-! ## Actors and principals -/

abbrev Attributes := KeyedTable (String × String) Prod.fst

structure Actor where
  type : String
  id : String
  organizationId : String
  attributes : Attributes

@[ext] structure Principal where
  organizationId : String
  workspaceId : String
  subject : String
  userSubject : String
  service : String
  tokenType : String
  scopes : List String
  agentId : String
  isHuman : Bool
  deriving DecidableEq

/-- `strings.ToLower(strings.TrimSpace(s))`, as far as it is compared with ASCII words. -/
def normalized (s : String) : String := String.ofList ((trimSpace s).toList.map lowerASCII)

def isHumanActorType (actorType : String) : Bool :=
  normalized actorType = "human" || normalized actorType = "user"

def Principal.ofActor (actor : Actor) (scopes : List String) : Principal where
  organizationId := trimSpace actor.organizationId
  workspaceId := ""
  subject := trimSpace actor.id
  userSubject := ""
  service := if trimSpace actor.type = "service" then trimSpace actor.id else ""
  tokenType := trimSpace actor.type
  scopes := scopes
  agentId := ""
  isHuman := isHumanActorType actor.type

/-- The fields that an attribute can be for. -/
inductive Field where
  | workspaceId
  | agentId
  | userSubject
  | service
  | tokenType
  | isHuman
  deriving DecidableEq

/-- The `switch` over the keys. -/
def fieldOf (key : String) : Option Field :=
  match normalized key with
  | "workspace_id" | "workspace" => some .workspaceId
  | "agent_id" | "agent" => some .agentId
  | "user_subject" => some .userSubject
  | "service" => some .service
  | "token_type" => some .tokenType
  | "is_human" => some .isHuman
  | _ => none

/-- `strings.EqualFold(s, "true")`: no character beyond ASCII folds to one of its letters. -/
def isTrue (s : String) : Bool := s.toList.map Char.toLower = "true".toList

/-- One round of the loop: what the attribute does to its field. -/
def Principal.assign (principal : Principal) (value : String) : Field → Principal
  | .workspaceId => { principal with workspaceId := trimSpace value }
  | .agentId => { principal with agentId := trimSpace value }
  | .userSubject => { principal with userSubject := trimSpace value }
  | .service => { principal with service := trimSpace value }
  | .tokenType => { principal with tokenType := trimSpace value }
  | .isHuman => { principal with isHuman := principal.isHuman || isTrue (trimSpace value) }

def Principal.take (principal : Principal) (entry : String × String) : Principal :=
  match fieldOf entry.1 with
  | some field => principal.assign entry.2 field
  | none => principal

/-- `PrincipalFromActor`, on a run that enumerates the attributes in the given order. -/
def principalFromActor (actor : Actor) (scopes : List String) (order : List (String × String)) :
    Principal :=
  order.foldl Principal.take (.ofActor actor scopes)

/-! ## Verdicts -/

/-- `*connect.Error`, as far as the verdicts differ. -/
structure Denial where
  code : Code
  message : String
  deriving DecidableEq

namespace Principal

variable (p : Principal)

def requireWorkspace (id : String) : Option Denial :=
  let target := trimSpace id
  if target = "" then some ⟨.invalidArgument, "workspace_id is required"⟩
  else if trimSpace p.workspaceId ≠ target then
    some ⟨.permissionDenied, "workspace " ++ target ++ " not authorized"⟩
  else none

def requireHuman : Option Denial :=
  if p.isHuman || isHumanActorType p.tokenType then none
  else some ⟨.permissionDenied, "human principal required"⟩

def rejectSelfApproval (agentId : String) : Option Denial :=
  let agentId := trimSpace agentId
  if agentId = "" then none
  else if [p.agentId, p.subject, p.userSubject].any fun candidate => trimSpace candidate = agentId
    then some ⟨.permissionDenied, "principal cannot approve its own request"⟩
  else none

end Principal

/-! ## Attributes for one field -/

/-- The text that a field holds; the flag holds none. -/
def Principal.text (principal : Principal) : Field → String
  | .workspaceId => principal.workspaceId
  | .agentId => principal.agentId
  | .userSubject => principal.userSubject
  | .service => principal.service
  | .tokenType => principal.tokenType
  | .isHuman => ""

/-- Two attributes are not for one field, or have one value there, or only raise the flag. -/
def Compatible (a b : String × String) : Prop :=
  ∀ field, fieldOf a.1 = some field → fieldOf b.1 = some field → field ≠ .isHuman →
    trimSpace a.2 = trimSpace b.2

def Actor.Consistent (actor : Actor) : Prop :=
  ∀ a ∈ actor.attributes.rows, ∀ b ∈ actor.attributes.rows, Compatible a b

variable {field : Field} {a b : String × String}

theorem Principal.text_assign (principal : Principal) (value : String) (h : field ≠ .isHuman) :
    (principal.assign value field).text field = trimSpace value := by
  cases field with
  | isHuman => exact absurd rfl h
  | _ => rfl

theorem Principal.take_of_field (principal : Principal) (h : fieldOf a.1 = some field) :
    principal.take a = principal.assign a.2 field := by
  rw [take, h]

theorem Principal.take_of_none (principal : Principal) (h : fieldOf a.1 = none) :
    principal.take a = principal := by
  rw [take, h]

theorem Principal.assign_comm (principal : Principal) (v w : String) {f g : Field} (h : f ≠ g) :
    (principal.assign v f).assign w g = (principal.assign w g).assign v f := by
  cases f <;> cases g <;> first | exact absurd rfl h | simp only [assign]

theorem Compatible.take_comm (h : Compatible a b) (principal : Principal) :
    (principal.take a).take b = (principal.take b).take a := by
  cases ha : fieldOf a.1 with
  | none => rw [Principal.take_of_none _ ha, Principal.take_of_none _ ha]
  | some f =>
    cases hb : fieldOf b.1 with
    | none => rw [Principal.take_of_none _ hb, Principal.take_of_none _ hb]
    | some g =>
      simp only [Principal.take_of_field _ ha, Principal.take_of_field _ hb]
      by_cases hfg : f = g
      · subst hfg
        by_cases hhuman : f = .isHuman
        · subst hhuman
          simp only [Principal.assign, Bool.or_right_comm]
        -- the second of two equal values changes nothing
        · have hvalue := h f ha hb hhuman
          cases f <;> simp only [Principal.assign, hvalue]
      · exact principal.assign_comm _ _ hfg

theorem Actor.Consistent.principal_eq {actor : Actor} (h : actor.Consistent) (scopes : List String)
    {order₁ order₂ : List (String × String)} (h₁ : order₁.Perm actor.attributes.rows)
    (h₂ : order₂.Perm actor.attributes.rows) :
    principalFromActor actor scopes order₁ = principalFromActor actor scopes order₂ := by
  apply (h₁.trans h₂.symm).foldl_eq'
  intro a ha b hb principal
  exact (h a (h₁.mem_iff.mp ha) b (h₁.mem_iff.mp hb)).take_comm principal

theorem text_of_last (actor : Actor) (scopes : List String) (front : List (String × String))
    (hfield : fieldOf a.1 = some field) (h : field ≠ .isHuman) :
    (principalFromActor actor scopes (front ++ [a])).text field = trimSpace a.2 := by
  rw [principalFromActor, List.foldl_append, List.foldl_cons, List.foldl_nil,
    Principal.take_of_field _ hfield, Principal.text_assign _ _ h]

theorem exists_orders {rows : List (String × String)} (ha : a ∈ rows) (hb : b ∈ rows)
    (hne : a ≠ b) :
    ∃ front, (front ++ [a] ++ [b]).Perm rows ∧ (front ++ [b] ++ [a]).Perm rows := by
  have hb' : b ∈ rows.erase a := (List.mem_erase_of_ne (Ne.symm hne)).mpr hb
  have hsplit : (a :: b :: (rows.erase a).erase b).Perm rows :=
    ((List.perm_cons_erase hb').symm.cons a).trans (List.perm_cons_erase ha).symm
  refine ⟨(rows.erase a).erase b, ?_, ?_⟩
  · refine List.Perm.trans ?_ hsplit
    rw [List.append_assoc]
    exact List.perm_append_comm
  · refine List.Perm.trans ?_ hsplit
    rw [List.append_assoc]
    exact List.perm_append_comm.trans (.swap a b _)

/-- **The principal is the same on every run exactly if no two attributes compete for a field**, and
    then so are the verdicts. -/
theorem principal_order_independent_iff (actor : Actor) (scopes : List String) :
    (∀ order₁ order₂, order₁.Perm actor.attributes.rows → order₂.Perm actor.attributes.rows →
        principalFromActor actor scopes order₁ = principalFromActor actor scopes order₂ ∧
        ∀ id, (principalFromActor actor scopes order₁).requireWorkspace id =
            (principalFromActor actor scopes order₂).requireWorkspace id ∧
          (principalFromActor actor scopes order₁).requireHuman =
            (principalFromActor actor scopes order₂).requireHuman ∧
          (principalFromActor actor scopes order₁).rejectSelfApproval id =
            (principalFromActor actor scopes order₂).rejectSelfApproval id) ↔
      actor.Consistent := by
  constructor
  · intro h a ha b hb field hfa hfb hfield
    by_cases hab : a = b
    · rw [hab]
    · obtain ⟨front, hfirst, hsecond⟩ := exists_orders ha hb hab
      have hsame := congrArg (fun p => p.text field) (h _ _ hfirst hsecond).1
      rw [text_of_last _ _ _ hfb hfield, text_of_last _ _ _ hfa hfield] at hsame
      exact hsame.symm
  · intro h order₁ order₂ h₁ h₂
    rw [h.principal_eq scopes h₁ h₂]
    exact ⟨rfl, fun id => ⟨rfl, rfl, rfl⟩⟩

def twoWorkspaces : Actor where
  type := "api_key"
  id := "agent-7"
  organizationId := "org-1"
  attributes := ⟨[("workspace", "w1"), ("Workspace_ID", "w2")], by decide⟩

/-- One run allows what the other denies. -/
theorem workspace_depends_on_order :
    (principalFromActor twoWorkspaces []
        [("workspace", "w1"), ("Workspace_ID", "w2")]).requireWorkspace "w2" = none ∧
      (principalFromActor twoWorkspaces []
        [("Workspace_ID", "w2"), ("workspace", "w1")]).requireWorkspace "w2" =
        some ⟨.permissionDenied, "workspace w2 not authorized"⟩ := by
  decide

end ServiceRuntime.Authmw
