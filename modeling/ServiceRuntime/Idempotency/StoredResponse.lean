import ServiceRuntime.Httpkit.Capture
import ServiceRuntime.Idempotency.Middleware

/-!
# From the First Response to its Replay

The middleware runs the handler on a capturing writer, stores what that writer recorded, and
writes it again for the next request with the same key. A handler here fills in its header map,
may send one final status, and then writes its body in any pieces (`Answer`).

What is stored is the recorded status and body and one content type: the first value that the
handler set, or `application/json` if that is empty. So the status always comes back, the body
comes back unless the handler wrote more than the length it declared, and the content type comes
back if the handler set exactly one (`replay_reproduces_response`).
-/

namespace ServiceRuntime.Idempotency

open GoHttp Httpkit

/-! ## The first response -/

/-- How a handler answers. -/
structure Answer where
  /-- The header map when the handler sends its status or its first bytes. -/
  header : Header
  /-- The argument of `WriteHeader`, if it is called. -/
  status : Option StatusCode
  final : ∀ c, status = some c → 200 ≤ c.code
  /-- The arguments of `Write`. -/
  writes : List (List UInt8)

namespace Answer

def calls (a : Answer) : List Call :=
  (a.status.map Call.writeHeader).toList ++ a.writes.map Call.write

def statusCode (a : Answer) : StatusCode := a.status.getD statusOK

def recorder (a : Answer) (head : Bool) : CaptureResponseWriter :=
  (newCaptureResponseWriter (Response.start head a.header)).calls a.calls

/-- The argument of `Complete`. -/
def result (a : Answer) (head : Bool) : ReplayResult :=
  let recorder := a.recorder head
  captured recorder.statusCode.code (recorder.responseWriter.header.get "Content-Type")
    recorder.body

/-- The handler writes no more than the length it declares, or what it writes is not sent. -/
def BodyFits (a : Answer) (head : Bool) : Prop :=
  head = true ∨ bodyAllowedForStatus a.statusCode = false ∨
    ∀ d, declaredLength a.header = some d → a.writes.flatten.length ≤ d

/-- The handler sets one content type, and it is not empty. -/
def SetsContentType (a : Answer) : Prop :=
  ∃ value, value ≠ "" ∧ a.header "Content-Type" = some [value]

theorem dataOf_calls (a : Answer) : dataOf a.calls = a.writes.flatten := by
  have hwrites : dataOf (a.writes.map Call.write) = a.writes.flatten := by
    simp [dataOf, List.flatMap_map, Call.data, List.flatMap_id']
  cases h : a.status with
  | none => simpa [calls, h] using hwrites
  | some c => simpa [calls, h, dataOf, Call.data] using hwrites

theorem not_informational (a : Answer) {c : StatusCode} (h : a.status = some c) :
    ¬ c.Informational := by
  intro hinfo
  have hcode := a.final c h
  have hle := hinfo.1
  omega

theorem committedBy_calls (a : Answer) : committedBy a.calls = a.statusCode := by
  cases h : a.status with
  | none =>
    cases hw : a.writes with
    | nil | cons data rest => simp [calls, h, hw, committedBy, statusCode]
  | some c => simp [calls, h, committedBy, a.not_informational h, statusCode]

theorem headerInStep (a : Answer) : HeaderInStep false a.calls := by
  cases h : a.status with
  | none =>
    cases hw : a.writes with
    | nil | cons data rest => simp [calls, h, hw, HeaderInStep]
  | some c => simp [calls, h, HeaderInStep, a.not_informational h]

theorem responseWriter_recorder (a : Answer) (head : Bool) :
    (a.recorder head).responseWriter = (Response.start head a.header).calls a.calls :=
  CaptureResponseWriter.responseWriter_calls (waiting_new head a.header) a.headerInStep

theorem finalStatus_recorder (a : Answer) (head : Bool) :
    (a.recorder head).responseWriter.finalStatus = a.statusCode := by
  rw [responseWriter_recorder, Response.finalStatus_calls rfl, committedBy_calls]

theorem header_recorder (a : Answer) (head : Bool) :
    (a.recorder head).responseWriter.header = a.header := by
  rw [responseWriter_recorder, (Response.header_calls ..).2, Response.start]

theorem statusCode_recorder (a : Answer) (head : Bool) :
    (a.recorder head).statusCode = a.statusCode := by
  rw [← a.finalStatus_recorder head]
  have hwaiting := waiting_new head a.header
  unfold recorder calls
  cases h : a.status with
  | some c =>
    obtain ⟨hwrote, hstatus⟩ := hwaiting.writeHeader (a.not_informational h) (by simp)
    exact CaptureResponseWriter.statusCode_calls_of_committed hwrote hstatus _
  | none =>
    cases a.writes with
    | nil => exact hwaiting.statusCode.trans hwaiting.finalStatus.symm
    | cons data rest =>
      obtain ⟨hwrote, hstatus⟩ := hwaiting.write data
      exact CaptureResponseWriter.statusCode_calls_of_committed hwrote hstatus _

theorem body_calls_writes (w : CaptureResponseWriter) (writes : List (List UInt8)) :
    (w.calls (writes.map Call.write)).body = w.body ++ writes.flatten := by
  induction writes generalizing w with
  | nil => simp
  | cons data rest ih =>
    have hbody : (w.call (.write data)).body = w.body ++ data := by
      cases hw : w.wroteHeader with
      | true => simp [CaptureResponseWriter.call, CaptureResponseWriter.write, hw]
      | false =>
        simp [CaptureResponseWriter.call, CaptureResponseWriter.write,
          CaptureResponseWriter.writeHeader, hw]
    rw [List.map_cons, CaptureResponseWriter.calls_cons, ih, hbody, List.flatten_cons,
      List.append_assoc]

theorem body_recorder (a : Answer) (head : Bool) :
    (a.recorder head).body = a.writes.flatten := by
  unfold recorder calls
  cases a.status with
  | none | some c => exact body_calls_writes _ a.writes

theorem result_eq (a : Answer) (head : Bool) :
    a.result head =
      captured a.statusCode.code (a.header.get "Content-Type") a.writes.flatten := by
  simp only [result, statusCode_recorder, header_recorder, body_recorder]

theorem body_first (a : Answer) (head : Bool) :
    (a.recorder head).responseWriter.body = a.writes.flatten ↔
      AllTaken head a.header a.calls := by
  rw [responseWriter_recorder, ← dataOf_calls, body_calls_eq_iff]

end Answer

/-! ## The replay -/

/-- The middleware's answer for a stored response; `none` if `WriteHeader` panics. -/
def writeReplay (writer : GoHttp.Response) (result : ReplayResult) : Option GoHttp.Response :=
  let header :=
    if result.contentType ≠ "" then writer.header.set "Content-Type" result.contentType
    else writer.header
  let writer := { writer with header := header.set "X-Idempotent-Replay" "true" }
  (StatusCode.check result.statusCode).map fun c =>
    writer.calls [.writeHeader c, .write result.body]

def replayHeader (contentType : String) : Header :=
  (Header.empty.set "Content-Type" contentType).set "X-Idempotent-Replay" "true"

theorem declaredLength_replayHeader (contentType : String) :
    declaredLength (replayHeader contentType) = none := by
  have hlength : replayHeader contentType "Content-Length" = none := by
    rw [replayHeader, Header.set_of_ne _ (by decide), Header.set_of_ne _ (by decide), Header.empty]
  rw [declaredLength, Header.get, Header.values, hlength]
  rfl

theorem writeReplay_captured (c : StatusCode) (contentType : String) (body : List UInt8)
    (head : Bool) :
    writeReplay (Response.start head Header.empty) (captured c.code contentType body) =
      some ((Response.start head (replayHeader
        (if contentType = "" then "application/json" else contentType))).calls
          [.writeHeader c, .write body]) := by
  have hne : (captured c.code contentType body).contentType ≠ "" := by
    change (if contentType = "" then "application/json" else contentType) ≠ ""
    split
    · decide
    · assumption
  have hcheck : StatusCode.check (captured c.code contentType body).statusCode = some c :=
    StatusCode.check_code c
  simp only [writeReplay, if_pos hne, hcheck, Option.map_some]
  rfl

namespace Answer

def replayedContentType (a : Answer) : String :=
  if a.header.get "Content-Type" = "" then "application/json" else a.header.get "Content-Type"

def replayed (a : Answer) (head : Bool) : GoHttp.Response :=
  (Response.start head (replayHeader a.replayedContentType)).calls
    [.writeHeader a.statusCode, .write a.writes.flatten]

theorem writeReplay_result (a : Answer) (head : Bool) :
    writeReplay (Response.start head Header.empty) (a.result head) = some (a.replayed head) := by
  rw [result_eq, writeReplay_captured]
  rfl

theorem not_informational_statusCode (a : Answer) : ¬ a.statusCode.Informational := by
  cases h : a.status with
  | none => simpa [statusCode, h] using not_informational_statusOK
  | some c => simpa [statusCode, h] using a.not_informational h

theorem committedBy_replayed (a : Answer) :
    committedBy [.writeHeader a.statusCode, .write a.writes.flatten] = a.statusCode := by
  rw [committedBy, if_neg a.not_informational_statusCode]

theorem finalStatus_replayed (a : Answer) (head : Bool) :
    (a.replayed head).finalStatus = a.statusCode := by
  rw [replayed, Response.finalStatus_calls rfl, committedBy_replayed]

theorem contentType_replayed (a : Answer) (head : Bool) :
    (a.replayed head).header "Content-Type" = some [a.replayedContentType] := by
  rw [replayed, (Response.header_calls ..).2]
  change replayHeader a.replayedContentType "Content-Type" = some [a.replayedContentType]
  rw [replayHeader, Header.set_of_ne _ (by decide), Header.set_self]

/-- A replay declares no length, so all of its body is sent. -/
theorem body_replayed {a : Answer} (hallowed : bodyAllowedForStatus a.statusCode = true) :
    (a.replayed false).body = a.writes.flatten := by
  have hdata : dataOf [.writeHeader a.statusCode, .write a.writes.flatten] =
      a.writes.flatten := by simp [Call.data]
  have htaken : AllTaken false (replayHeader a.replayedContentType)
      [.writeHeader a.statusCode, .write a.writes.flatten] := by
    refine .inr ⟨rfl, ?_, fun d hd => ?_⟩
    · rw [committedBy_replayed]
      exact hallowed
    · rw [declaredLength_replayHeader] at hd
      cases hd
  rw [replayed, (body_calls_eq_iff ..).mpr htaken, hdata]

theorem body_replayed_iff (a : Answer) (head : Bool) :
    (a.replayed head).body = (a.recorder head).responseWriter.body ↔ a.BodyFits head := by
  by_cases hwithheld : head = true ∨ bodyAllowedForStatus a.statusCode = false
  -- neither response has a body
  · have hfirst := body_calls_of_withheld a.header (a.committedBy_calls ▸ hwithheld)
    have hreplay := body_calls_of_withheld (replayHeader a.replayedContentType)
      (a.committedBy_replayed ▸ hwithheld)
    rw [responseWriter_recorder, hfirst, replayed, hreplay]
    refine ⟨fun _ => ?_, fun _ => rfl⟩
    exact hwithheld.elim .inl fun hrefused => .inr (.inl hrefused)
  · rw [not_or, Bool.not_eq_true, Bool.not_eq_false] at hwithheld
    obtain ⟨rfl, hallowed⟩ := hwithheld
    rw [body_replayed hallowed, eq_comm, body_first, AllTaken, dataOf_calls, committedBy_calls]
    unfold BodyFits
    constructor
    · rintro (hnone | ⟨-, -, hdeclared⟩)
      · exact .inr (.inr fun d _ => by simp [hnone])
      · exact .inr (.inr hdeclared)
    · rintro (hhead | hrefused | hdeclared)
      · cases hhead
      · exact absurd (hallowed.symm.trans hrefused) (by decide)
      · exact .inr ⟨rfl, hallowed, hdeclared⟩

theorem contentType_replayed_iff (a : Answer) (head : Bool) :
    (a.replayed head).header "Content-Type" =
        (a.recorder head).responseWriter.header "Content-Type" ↔
      a.SetsContentType := by
  rw [contentType_replayed, header_recorder]
  unfold SetsContentType replayedContentType
  constructor
  · intro hsame
    refine ⟨_, ?_, hsame.symm⟩
    split
    · decide
    · assumption
  · rintro ⟨value, hvalue, hheader⟩
    simp [Header.get, Header.values, hheader, hvalue]

end Answer

/-- **A replay against the first response**: for a row that is completed with a handler's
    answer, `Begin` returns a response for a replay, and writing it gives

    1. the status of the first response
    2. its body, unless the handler wrote more than the length it declared
    3. one content type, the first one that the handler set or else `application/json`, which is
       that of the first response exactly if the handler set exactly one -/
theorem replay_reproduces_response (a : Answer) (head : Bool) {store : Store}
    {scope key : String} {row : Row} (hrow : store.get scope key = some row) (completedAt : Int) :
    ∃ result replay,
      decideBegin ((store.complete scope key (a.result head) completedAt).get scope key)
        row.requestHash = .replay result ∧
      writeReplay (Response.start head Header.empty) result = some replay ∧
      replay.finalStatus = (a.recorder head).responseWriter.finalStatus ∧
      (replay.body = (a.recorder head).responseWriter.body ↔ a.BodyFits head) ∧
      replay.header "Content-Type" = some [a.replayedContentType] ∧
      (replay.header "Content-Type" =
          (a.recorder head).responseWriter.header "Content-Type" ↔ a.SetsContentType) := by
  refine ⟨a.result head, a.replayed head, ?_, a.writeReplay_result head, ?_,
    a.body_replayed_iff head, a.contentType_replayed head, a.contentType_replayed_iff head⟩
  · rw [Store.get_complete, hrow, Option.map_some]
    simp [decideBegin, Row.completed, Row.replay]
  · rw [a.finalStatus_replayed, a.finalStatus_recorder]

/-- A handler that writes `ok` and sets no headers. -/
def plainAnswer : Answer where
  header := Header.empty
  status := none
  final := by simp
  writes := [[111, 107]]

/-- A table with one row, of a request that is being handled. -/
def oneRow : Store := ⟨[Store.newRow "acme:POST:/orders" "k" "hash" defaultTTL 1 0], by decide⟩

theorem replay_reproduces_plainAnswer :
    ∃ result replay,
      decideBegin ((oneRow.complete "acme:POST:/orders" "k" (plainAnswer.result false) 2).get
        "acme:POST:/orders" "k") "hash" = .replay result ∧
      writeReplay (Response.start false Header.empty) result = some replay ∧
      replay.header "Content-Type" = some ["application/json"] := by
  obtain ⟨result, replay, hbegin, hreplay, -, -, htype, -⟩ :=
    replay_reproduces_response plainAnswer false
      (show oneRow.get "acme:POST:/orders" "k" = some _ from rfl) 2
  exact ⟨result, replay, hbegin, hreplay, htype⟩

/-- The first client gets no content type (the server sniffs one), the next one gets
    `application/json`. -/
theorem replay_changes_contentType :
    ∃ result replay,
      decideBegin ((oneRow.complete "acme:POST:/orders" "k" (plainAnswer.result false) 2).get
        "acme:POST:/orders" "k") "hash" = .replay result ∧
      writeReplay (Response.start false Header.empty) result = some replay ∧
      replay.header "Content-Type" ≠
        (plainAnswer.recorder false).responseWriter.header "Content-Type" :=
  ⟨plainAnswer.result false, plainAnswer.replayed false, by decide,
    plainAnswer.writeReplay_result false, by decide⟩

end ServiceRuntime.Idempotency
