import ServiceRuntime.Connect.Code
import ServiceRuntime.GoErrors

/-!
# Error Codes on the Two Surfaces

`rterrors` maps the errors of a service to Connect codes and to HTTP statuses. An error may hold a
runtime error with a code of the package, a Connect error with a code of its own, or both, anywhere
in its tree. The runtime code decides if it is one of the ten that have a Connect code; otherwise
the first Connect error does, and an error without any code is internal.

`ToConnectError` puts a Connect error around the error, so a later search finds that one first. The
theorem of this module says that it finds what it would have found without it.
-/

namespace ServiceRuntime.Rterrors

open Connect

/-! ## Errors -/

/-- The types of errors that are told apart. -/
inductive Kind where
  /-- `*rterrors.Error` with its `Code`, which is any string. -/
  | runtime (code : String)
  /-- A nil `*rterrors.Error` in a non-nil `error`. -/
  | nilRuntime
  /-- `*connect.Error` with its code, which is any number. -/
  | connect (code : Code)
  /-- Anything else: plain errors, `fmt.Errorf` and `errors.Join`. -/
  | other (text : String)
  deriving DecidableEq

abbrev Err := GoError Kind

def Kind.isRuntime : Kind → Bool
  | runtime _ | nilRuntime => true
  | _ => false

def Kind.isConnect : Kind → Bool
  | connect _ => true
  | _ => false

/-- The code of a runtime error; a nil one has none. -/
def Kind.runtimeCode : Kind → String
  | runtime code => code
  | _ => ""

def Kind.connectCode : Kind → Code
  | connect code => code
  | _ => .unknown

/-- `rterrors.CodeOf`, for an error that is not nil. -/
def codeOf (err : Err) : String :=
  match err.as Kind.isRuntime with
  | some found => found.kind.runtimeCode
  | none => ""

/-- `connect.CodeOf`. -/
def connectCodeOf (err : Err) : Code :=
  match err.as Kind.isConnect with
  | some found => found.kind.connectCode
  | none => .unknown

def newError (code : Code) (err : Err) : Err := .mk (.connect code) [err]

/-! ## Mapping -/

/-- The codes of the package, as `ConnectCode` maps them. -/
def mapped : String → Option Code
  | "invalid_input" | "invalid_json" => some .invalidArgument
  | "unauthorized" => some .unauthenticated
  | "forbidden" => some .permissionDenied
  | "not_found" => some .notFound
  | "conflict" => some .alreadyExists
  | "version_conflict" => some .failedPrecondition
  | "rate_limited" => some .resourceExhausted
  | "unavailable" => some .unavailable
  | "internal_error" => some .internal
  | _ => none

/-- `ConnectCode`, for an error that is not nil. -/
def connectCode (err : Err) : Code :=
  match mapped (codeOf err) with
  | some code => code
  | none => if connectCodeOf err ≠ .unknown then connectCodeOf err else .internal

/-- `ToConnectError`, for an error that is not nil. -/
def toConnectError (err : Err) : Err :=
  if codeOf err ≠ "" then newError (connectCode err) err
  else if connectCodeOf err ≠ .unknown then err
  else newError (connectCode err) err

def httpStatus (err : Err) : Nat :=
  let code := connectCode err
  if code = .invalidArgument then 400
  else if code = .unauthenticated then 401
  else if code = .permissionDenied then 403
  else if code = .notFound then 404
  else if code = .alreadyExists then 409
  else if code = .failedPrecondition then 412
  else if code = .resourceExhausted then 429
  else if code = .unavailable then 503
  else 500

/-! ## What a new outer layer changes -/

theorem connectCodeOf_newError (code : Code) (err : Err) :
    connectCodeOf (newError code err) = code := by
  rw [connectCodeOf, newError, GoError.as_of_is rfl]
  rfl

theorem codeOf_newError (code : Code) (err : Err) : codeOf (newError code err) = codeOf err := by
  rw [codeOf, newError, GoError.as_wrap rfl]
  rfl

theorem mapped_ne_unknown {code : String} {c : Code} (h : mapped code = some c) :
    c ≠ .unknown := by
  unfold mapped at h
  split at h <;> cases h <;> decide

theorem connectCode_ne_unknown (err : Err) : connectCode err ≠ .unknown := by
  unfold connectCode
  split
  · rename_i code hmapped
    exact mapped_ne_unknown hmapped
  · split
    · rename_i hcode
      exact hcode
    · decide

theorem connectCode_of_connect {err : Err} (hruntime : codeOf err = "")
    (hconnect : connectCodeOf err ≠ .unknown) : connectCode err = connectCodeOf err := by
  rw [connectCode, hruntime]
  exact if_pos hconnect

theorem connectCodeOf_toConnectError (err : Err) :
    connectCodeOf (toConnectError err) = connectCode err := by
  unfold toConnectError
  split
  · exact connectCodeOf_newError _ _
  · rename_i hruntime
    rw [not_not] at hruntime
    split
    · rename_i hconnect
      exact (connectCode_of_connect hruntime hconnect).symm
    · exact connectCodeOf_newError _ _

theorem connectCode_newError (err : Err) :
    connectCode (newError (connectCode err) err) = connectCode err := by
  have hknown := connectCode_ne_unknown err
  rw [connectCode, codeOf_newError, connectCodeOf_newError, if_pos hknown]
  cases hmapped : mapped (codeOf err) with
  | none => rfl
  | some code =>
    rw [connectCode, hmapped]

theorem connectCode_toConnectError (err : Err) :
    connectCode (toConnectError err) = connectCode err := by
  unfold toConnectError
  split
  · exact connectCode_newError err
  · split
    · rfl
    · exact connectCode_newError err

/-- **The two surfaces agree**: the Connect error that is made of an error has the code that the
    error is mapped to, which is never `Unknown`. To make it twice gives the same code as once, and
    its HTTP status is that of the error. -/
theorem surfaces_agree (err : Err) :
    connectCodeOf (toConnectError err) = connectCode err ∧
      connectCodeOf (toConnectError err) ≠ .unknown ∧
      connectCodeOf (toConnectError (toConnectError err)) = connectCodeOf (toConnectError err) ∧
      httpStatus (toConnectError err) = httpStatus err := by
  refine ⟨connectCodeOf_toConnectError err, ?_, ?_, ?_⟩
  · rw [connectCodeOf_toConnectError]
    exact connectCode_ne_unknown err
  · rw [connectCodeOf_toConnectError, connectCodeOf_toConnectError, connectCode_toConnectError]
  · rw [httpStatus, connectCode_toConnectError]
    rfl

end ServiceRuntime.Rterrors
