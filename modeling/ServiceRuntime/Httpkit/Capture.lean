import ServiceRuntime.GoHttp

/-!
# The Capturing Response Writer

`CaptureResponseWriter` stands between a handler and the server's response writer. It passes
every call on and records the status and the body, for access logs, metrics and idempotent
replays. It keeps a `wroteHeader` flag of its own beside the one of the server:

- `WriteHeader` sets the flag for an informational status too, and then swallows the final one
- `Flush` commits the server to 200 and leaves the flag alone

So the two are in step exactly for the handlers of `HeaderInStep`. For these the client sees
what it would see without the wrapper, and the record is true as far as the server keeps no
bytes back (`capture_faithful_iff`).
-/

namespace ServiceRuntime.Httpkit

open GoHttp

/-! ## The writer -/

structure CaptureResponseWriter where
  responseWriter : Response
  statusCode : StatusCode
  wroteHeader : Bool
  body : List UInt8

def newCaptureResponseWriter (writer : Response) : CaptureResponseWriter where
  responseWriter := writer
  statusCode := statusOK
  wroteHeader := false
  body := []

/-- `io.TeeReader` in front of the server's writer: a chunk is recorded as it is read, before
    it is written. -/
def teeWrite (s : Response × List UInt8) (chunk : List UInt8) :
    (Response × List UInt8) × Except String Nat :=
  (((s.1.write chunk).1, s.2 ++ chunk), (s.1.write chunk).2)

namespace CaptureResponseWriter

def writeHeader (w : CaptureResponseWriter) (c : StatusCode) : CaptureResponseWriter :=
  if w.wroteHeader then w
  else
    { w with
      wroteHeader := true
      statusCode := c
      responseWriter := w.responseWriter.writeHeader c }

def write (w : CaptureResponseWriter) (data : List UInt8) :
    CaptureResponseWriter × Except String Nat :=
  let w := if w.wroteHeader then w else w.writeHeader statusOK
  let result := w.responseWriter.write data
  ({ w with responseWriter := result.1, body := w.body ++ data }, result.2)

def flush (w : CaptureResponseWriter) : CaptureResponseWriter :=
  { w with responseWriter := w.responseWriter.ensureHeader }

/-- `ReadFrom`, with the number of bytes copied. -/
def readFrom (w : CaptureResponseWriter) (chunks : List (List UInt8)) :
    CaptureResponseWriter × Nat :=
  let copied := copy teeWrite (w.responseWriter, w.body) chunks
  let w := { w with responseWriter := copied.1.1, body := copied.1.2 }
  if 0 < copied.2 ∧ w.wroteHeader = false then
    ({ w with wroteHeader := true, statusCode := statusOK }, copied.2)
  else (w, copied.2)

def call (w : CaptureResponseWriter) : Call → CaptureResponseWriter
  | .writeHeader c => w.writeHeader c
  | .write data => (w.write data).1
  | .readFrom chunks => (w.readFrom chunks).1
  | .flush => w.flush

def calls (w : CaptureResponseWriter) (calls : List Call) : CaptureResponseWriter :=
  calls.foldl call w

@[simp] theorem calls_nil (w : CaptureResponseWriter) : w.calls [] = w := rfl

@[simp] theorem calls_cons (w : CaptureResponseWriter) (x : Call) (xs : List Call) :
    w.calls (x :: xs) = (w.call x).calls xs := rfl

/-! ## What reaches the server -/

theorem copy_teeWrite (r : Response) (buffer : List UInt8) (chunks : List (List UInt8)) :
    (copy teeWrite (r, buffer) chunks).1.1 = (copy Response.write r chunks).1 ∧
      (copy teeWrite (r, buffer) chunks).2 = (copy Response.write r chunks).2 :=
  copy_map (f := Prod.fst) (fun _ _ => rfl) (fun _ _ => rfl) (r, buffer) chunks

theorem responseWriter_writeHeader (w : CaptureResponseWriter) (c : StatusCode) :
    (w.writeHeader c).responseWriter =
      if w.wroteHeader then w.responseWriter else w.responseWriter.writeHeader c := by
  unfold writeHeader
  split
  · rfl
  · rfl

theorem responseWriter_write (w : CaptureResponseWriter) (data : List UInt8) :
    (w.write data).1.responseWriter = (w.responseWriter.write data).1 := by
  cases hw : w.wroteHeader with
  | true => simp [write, hw]
  | false => simp [write, hw, responseWriter_writeHeader, Response.write_writeHeader_statusOK]

theorem responseWriter_readFrom (w : CaptureResponseWriter) (chunks : List (List UInt8)) :
    (w.readFrom chunks).1.responseWriter = (copy Response.write w.responseWriter chunks).1 := by
  rw [← (copy_teeWrite w.responseWriter w.body chunks).1, readFrom]
  dsimp only
  split
  · rfl
  · rfl

variable {w : CaptureResponseWriter} {c : StatusCode} {flushed : Bool}

theorem responseWriter_call {x : Call} (h : ∀ c, x = .writeHeader c → w.wroteHeader = true →
      w.responseWriter.writeHeader c = w.responseWriter) :
    (w.call x).responseWriter = w.responseWriter.call x := by
  cases x with
  | writeHeader c =>
    rw [call, Response.call, responseWriter_writeHeader]
    split
    · rename_i hw
      exact (h c rfl hw).symm
    · rfl
  | write data => exact responseWriter_write w data
  | readFrom chunks => exact responseWriter_readFrom w chunks
  | flush => rfl

theorem responseWriter_calls_of_committed (h : w.responseWriter.status = some c) (xs : List Call) :
    (w.calls xs).responseWriter = w.responseWriter.calls xs := by
  induction xs generalizing w with
  | nil => rfl
  | cons x xs ih =>
    have hcall : (w.call x).responseWriter = w.responseWriter.call x :=
      responseWriter_call fun c' _ _ => Response.writeHeader_of_committed h c'
    rw [calls_cons, Response.calls_cons, ← hcall]
    apply ih
    rw [hcall]
    exact Response.status_call_of_committed h x

theorem status_responseWriter_calls (h : w.responseWriter.status = some c) (xs : List Call) :
    (w.calls xs).responseWriter.finalStatus = c := by
  rw [responseWriter_calls_of_committed h]
  exact Response.finalStatus_calls_of_committed h xs

/-! ## The recorded status -/

theorem statusCode_call_of_wroteHeader (h : w.wroteHeader = true) (x : Call) :
    (w.call x).wroteHeader = true ∧ (w.call x).statusCode = w.statusCode := by
  cases x with
  | writeHeader c => simp [call, writeHeader, h]
  | write data => simp [call, write, h]
  | readFrom chunks => simp [call, readFrom, h]
  | flush => simp [call, flush, h]

theorem statusCode_calls_of_wroteHeader (h : w.wroteHeader = true) (xs : List Call) :
    (w.calls xs).statusCode = w.statusCode := by
  induction xs generalizing w with
  | nil => rfl
  | cons x xs ih =>
    obtain ⟨hwrote, hstatus⟩ := statusCode_call_of_wroteHeader h x
    rw [calls_cons, ih hwrote, hstatus]

theorem statusCode_calls_of_committed (h : w.wroteHeader = true)
    (hstatus : w.responseWriter.status = some w.statusCode) (xs : List Call) :
    (w.calls xs).statusCode = (w.calls xs).responseWriter.finalStatus := by
  rw [statusCode_calls_of_wroteHeader h, status_responseWriter_calls hstatus]

/-- The wrapper waits for a header; the server waits too, unless it has been `flushed`. -/
structure Waiting (w : CaptureResponseWriter) (flushed : Bool) : Prop where
  wroteHeader : w.wroteHeader = false
  statusCode : w.statusCode = statusOK
  status : w.responseWriter.status = if flushed then some statusOK else none

theorem Waiting.finalStatus (h : w.Waiting flushed) : w.responseWriter.finalStatus = statusOK := by
  have hstatus := h.status
  cases flushed with
  | false | true => simp [Response.finalStatus, hstatus]

theorem Waiting.flush (h : w.Waiting flushed) : w.flush.Waiting true :=
  ⟨h.wroteHeader, h.statusCode, congrArg some h.finalStatus⟩

theorem readFrom_of_no_data (w : CaptureResponseWriter) {chunks : List (List UInt8)}
    (h : chunks.flatten = []) : w.call (.readFrom chunks) = w := by
  simp [call, readFrom, copy_of_no_data _ h]

theorem Waiting.write (h : w.Waiting flushed) (data : List UInt8) :
    (w.call (.write data)).wroteHeader = true ∧
      (w.call (.write data)).responseWriter.status = some (w.call (.write data)).statusCode := by
  have hserver : (w.call (.write data)).responseWriter.status = some statusOK := by
    rw [call, responseWriter_write, Response.status_write, h.finalStatus]
  rw [hserver]
  simp [call, CaptureResponseWriter.write, writeHeader, h.wroteHeader]

theorem Waiting.writeHeader (h : w.Waiting flushed) (hc : ¬ c.Informational)
    (hok : flushed = true → c = statusOK) :
    (w.call (.writeHeader c)).wroteHeader = true ∧
      (w.call (.writeHeader c)).responseWriter.status =
        some (w.call (.writeHeader c)).statusCode := by
  have hstatus := h.status
  cases flushed with
  | false =>
    simp [call, CaptureResponseWriter.writeHeader, Response.writeHeader, h.wroteHeader, hstatus, hc]
  | true =>
    simp [call, CaptureResponseWriter.writeHeader, Response.writeHeader, h.wroteHeader, hstatus,
      hok rfl]

/-- If the server has not committed itself when the wrapper thinks it has, no final header
    reaches it any more. -/
theorem finalStatus_of_missed (h : w.wroteHeader = true) (hnone : w.responseWriter.status = none)
    (xs : List Call) : (w.calls xs).responseWriter.finalStatus = statusOK := by
  have hok : w.responseWriter.finalStatus = statusOK := by
    rw [Response.finalStatus, hnone, Option.getD_none]
  induction xs generalizing w with
  | nil => exact hok
  | cons x xs ih =>
    rw [calls_cons]
    cases x with
    | writeHeader c =>
      -- the wrapper keeps the header to itself
      have hcall : w.call (.writeHeader c) = w := by simp [call, writeHeader, h]
      rw [hcall]
      exact ih h hnone hok
    | write data =>
      -- the first byte commits the server to 200
      apply status_responseWriter_calls
      rw [call, responseWriter_write, Response.status_write, hok]
    | readFrom chunks =>
      by_cases hdata : chunks.flatten = []
      · rw [readFrom_of_no_data w hdata]
        exact ih h hnone hok
      · apply status_responseWriter_calls
        rw [call, responseWriter_readFrom, Response.status_copy_of_data _ hdata, hok]
    | flush =>
      apply status_responseWriter_calls
      exact congrArg some hok

end CaptureResponseWriter

/-- The first header that a handler sends before any of its bytes, if it sends one, is a final
    one, and after a flush it is 200. -/
def HeaderInStep (flushed : Bool) : List Call → Prop
  | [] => True
  | .writeHeader c :: _ => ¬ c.Informational ∧ (flushed = true → c = statusOK)
  | .write _ :: _ => True
  -- without data nothing is committed, neither here nor at the server
  | .readFrom chunks :: rest => chunks.flatten = [] → HeaderInStep flushed rest
  | .flush :: rest => HeaderInStep true rest

namespace CaptureResponseWriter

variable {w : CaptureResponseWriter} {xs : List Call}

/-- For a handler whose headers are in step, the server gets what it would get without the
    wrapper. -/
theorem responseWriter_calls (h : w.Waiting false) (hstep : HeaderInStep false xs) :
    (w.calls xs).responseWriter = w.responseWriter.calls xs := by
  induction xs with
  | nil => rfl
  | cons x xs ih =>
    -- the flag of the wrapper is down, so this first call is passed on
    have hcall : (w.call x).responseWriter = w.responseWriter.call x :=
      responseWriter_call fun _ _ hwrote => absurd (h.wroteHeader.symm.trans hwrote) (by decide)
    have hrest : ∀ {c}, (w.responseWriter.call x).status = some c →
        (w.calls (x :: xs)).responseWriter = w.responseWriter.calls (x :: xs) := by
      intro c hc
      rw [calls_cons, Response.calls_cons, ← hcall]
      exact responseWriter_calls_of_committed (by rw [hcall, hc]) xs
    cases x with
    | writeHeader c =>
      refine hrest (c := c) ?_
      have hnone : w.responseWriter.status = none := h.status
      simp [Response.call, Response.writeHeader, hnone, hstep.1]
    | write data => exact hrest (Response.status_write _ data)
    | readFrom chunks =>
      by_cases hdata : chunks.flatten = []
      · rw [calls_cons, Response.calls_cons, ← hcall, readFrom_of_no_data w hdata]
        exact ih (hstep hdata)
      · exact hrest (Response.status_copy_of_data _ hdata)
    | flush => exact hrest rfl

/-- **A true status needs the headers in step.** -/
theorem headerInStep_of_statusCode {flushed : Bool} (h : w.Waiting flushed)
    (hstatus : (w.calls xs).statusCode = (w.calls xs).responseWriter.finalStatus) :
    HeaderInStep flushed xs := by
  induction xs generalizing w flushed with
  | nil => trivial
  | cons x xs ih =>
    rw [calls_cons] at hstatus
    cases x with
    | writeHeader c =>
      have hwrote : (w.call (.writeHeader c)).wroteHeader = true := by
        simp [call, writeHeader, h.wroteHeader]
      have hcode : (w.call (.writeHeader c)).statusCode = c := by
        simp [call, writeHeader, h.wroteHeader]
      have hserver : (w.call (.writeHeader c)).responseWriter = w.responseWriter.writeHeader c := by
        simp [call, writeHeader, h.wroteHeader]
      rw [statusCode_calls_of_wroteHeader hwrote, hcode] at hstatus
      -- in both cases the server sends 200, whatever the wrapper has recorded
      have hok : flushed = true ∨ c.Informational → c = statusOK := by
        intro hcase
        rw [hstatus]
        cases hflushed : flushed with
        | true =>
          have hsome : w.responseWriter.status = some statusOK := by
            rw [h.status, hflushed, if_pos rfl]
          apply status_responseWriter_calls
          rw [hserver, Response.writeHeader_of_committed hsome, hsome]
        | false =>
          have hnone : w.responseWriter.status = none := by
            rw [h.status, hflushed, if_neg Bool.false_ne_true]
          have hinfo : c.Informational := hcase.resolve_left (by simp [hflushed])
          apply finalStatus_of_missed hwrote
          simp [hserver, Response.writeHeader, hnone, hinfo]
      refine ⟨fun hinfo => ?_, fun hflushed => hok (.inl hflushed)⟩
      exact not_informational_statusOK (hok (.inr hinfo) ▸ hinfo)
    | write data => trivial
    | readFrom chunks =>
      intro hdata
      rw [readFrom_of_no_data w hdata] at hstatus
      exact ih h hstatus
    | flush => exact ih h.flush hstatus

/-- A handler whose headers are in step and whose bytes are taken gets its status recorded. -/
theorem statusCode_calls {flushed : Bool} (h : w.Waiting flushed) (hstep : HeaderInStep flushed xs)
    (hroom : dataOf xs = [] ∨ (w.responseWriter.head = false ∧
      ∀ d, declaredLength w.responseWriter.header = some d →
        w.responseWriter.written + (dataOf xs).length ≤ d)) :
    (w.calls xs).statusCode = (w.calls xs).responseWriter.finalStatus := by
  induction xs generalizing w flushed with
  | nil => rw [calls_nil, h.statusCode, h.finalStatus]
  | cons x xs ih =>
    rw [calls_cons]
    cases x with
    | writeHeader c =>
      obtain ⟨hwrote, hstatus⟩ := h.writeHeader hstep.1 hstep.2
      exact statusCode_calls_of_committed hwrote hstatus xs
    | write data =>
      obtain ⟨hwrote, hstatus⟩ := h.write data
      exact statusCode_calls_of_committed hwrote hstatus xs
    | readFrom chunks =>
      by_cases hdata : chunks.flatten = []
      · rw [readFrom_of_no_data w hdata]
        refine ih h (hstep hdata) ?_
        simpa [Call.data, hdata] using hroom
      -- the reader's first bytes are taken, so the wrapper notices them
      · obtain ⟨hhead, hdeclared⟩ := hroom.resolve_left (by simp [Call.data, hdata])
        have htakes : w.responseWriter.Takes chunks.flatten.length :=
          ⟨hhead, by rw [h.finalStatus]; decide, fun d hd => by
            have hle := hdeclared d hd
            rw [dataOf_cons, List.length_append, Call.data] at hle
            omega⟩
        have hcopied : 0 < (copy teeWrite (w.responseWriter, w.body) chunks).2 := by
          rw [(copy_teeWrite ..).2, Response.copy_of_takes htakes hdata]
          exact List.length_pos_iff.mpr hdata
        have hstatus : (w.call (.readFrom chunks)).responseWriter.status = some statusOK := by
          rw [call, responseWriter_readFrom, Response.status_copy_of_data _ hdata, h.finalStatus]
        have hcall : (w.call (.readFrom chunks)).wroteHeader = true ∧
            (w.call (.readFrom chunks)).statusCode = statusOK := by
          simp [call, readFrom, hcopied, h.wroteHeader]
        exact statusCode_calls_of_committed hcall.1 (hcall.2 ▸ hstatus) xs
    | flush =>
      refine ih h.flush hstep ?_
      simpa [Call.data, call, flush, Response.ensureHeader] using hroom

/-! ## The recorded body -/

end CaptureResponseWriter

/-- Of the bytes `data` that a handler brings, `recorded` are captured and `kept` reach the
    client. -/
structure Recorded (data recorded kept : List UInt8) : Prop where
  sublist : recorded.Sublist data
  length_le : kept.length ≤ recorded.length
  /-- The client misses nothing of the record only if it gets everything. -/
  eq_data : kept.length = recorded.length → kept = data

theorem Recorded.all (data : List UInt8) : Recorded data data data :=
  ⟨List.Sublist.refl data, le_rfl, fun _ => rfl⟩

variable {data recorded : List UInt8}

theorem Recorded.none_kept (hsub : recorded.Sublist data) (hne : recorded ≠ []) :
    Recorded data recorded [] :=
  ⟨hsub, Nat.zero_le _, fun hlen => absurd (List.length_eq_zero_iff.mp hlen.symm) hne⟩

theorem Recorded.append {kept data' recorded' kept' : List UInt8} (h : Recorded data recorded kept)
    (h' : Recorded data' recorded' kept') :
    Recorded (data ++ data') (recorded ++ recorded') (kept ++ kept') := by
  have hle := h.length_le
  have hle' := h'.length_le
  refine ⟨h.sublist.append h'.sublist, ?_, fun hlen => ?_⟩
  · rw [List.length_append, List.length_append]
    omega
  · rw [List.length_append, List.length_append] at hlen
    rw [h.eq_data (by omega), h'.eq_data (by omega)]

theorem exists_kept_write (r : Response) (data : List UInt8) :
    ∃ kept, (r.write data).1.body = r.body ++ kept ∧ Recorded data data kept := by
  rcases Response.write_cases r data with ⟨written, -, hwrite, hdata, -⟩ | ⟨-, hwrite⟩
  · exact ⟨[], by simp [hwrite, Response.ensureHeader], .none_kept (List.Sublist.refl data) hdata⟩
  · exact ⟨data, by simp [hwrite, Response.add], .all data⟩

theorem body_write_of_error {r r' : Response} {err : String} (h : r.write data = (r', .error err)) :
    r'.body = r.body := by
  rcases Response.write_cases r data with ⟨written, -, hwrite, -, -⟩ | ⟨hok | htakes, -⟩
  · rw [h] at hwrite
    subst hwrite
    rfl
  · rw [hok, Response.write, if_pos rfl, Prod.mk.injEq] at h
    cases h.2
  · rw [Response.write_of_takes htakes, Prod.mk.injEq] at h
    cases h.2

theorem exists_recorded_copy (r : Response) (buffer : List UInt8) (chunks : List (List UInt8)) :
    ∃ recorded kept,
      (copy teeWrite (r, buffer) chunks).1.2 = buffer ++ recorded ∧
      (copy teeWrite (r, buffer) chunks).1.1.body = r.body ++ kept ∧
      Recorded chunks.flatten recorded kept := by
  induction chunks generalizing r buffer with
  | nil => exact ⟨[], [], by simp [copy], by simp [copy], .all []⟩
  | cons chunk chunks ih =>
    rw [List.flatten_cons]
    by_cases hchunk : chunk = []
    · rw [copy, if_pos hchunk, hchunk, List.nil_append]
      exact ih r buffer
    · rw [copy, if_neg hchunk]
      obtain ⟨kept, hbody, hkept⟩ := exists_kept_write r chunk
      cases hwrite : r.write chunk with
      | mk r' result =>
        rw [hwrite] at hbody
        cases result with
        | error err =>
          -- the copy stops here, with the chunk recorded and not written
          have hstop := body_write_of_error hwrite
          exact ⟨chunk, [], by simp [teeWrite, hwrite], by simp [teeWrite, hwrite, hstop],
            .none_kept (List.sublist_append_left ..) hchunk⟩
        | ok n =>
          obtain ⟨recorded, kept', hbuffer, hrest, hrecorded⟩ := ih r' (buffer ++ chunk)
          refine ⟨chunk ++ recorded, kept ++ kept', ?_, ?_, hkept.append hrecorded⟩
          · simp [teeWrite, hwrite, hbuffer]
          · simp only [teeWrite, hwrite, hrest]
            rw [hbody, List.append_assoc]

namespace CaptureResponseWriter

theorem exists_recorded_call (w : CaptureResponseWriter) (x : Call) :
    ∃ recorded kept,
      (w.call x).body = w.body ++ recorded ∧
      (w.call x).responseWriter.body = w.responseWriter.body ++ kept ∧
      Recorded x.data recorded kept := by
  cases x with
  | writeHeader c =>
    refine ⟨[], [], ?_, ?_, .all []⟩
    · simp only [call, writeHeader, List.append_nil]
      split
      · rfl
      · rfl
    · rw [call, responseWriter_writeHeader, List.append_nil]
      split
      · rfl
      · exact (Response.call_of_no_data w.responseWriter (x := .writeHeader c) rfl).1
  | write data =>
    -- `Write` records all of the data, also what the server refuses
    obtain ⟨kept, hbody, hkept⟩ := exists_kept_write w.responseWriter data
    refine ⟨data, kept, ?_, ?_, hkept⟩
    · cases hw : w.wroteHeader with
      | true => simp [call, write, hw]
      | false => simp [call, write, writeHeader, hw]
    · rw [call, responseWriter_write, hbody]
  | readFrom chunks =>
    obtain ⟨recorded, kept, hbuffer, hbody, hrecorded⟩ :=
      exists_recorded_copy w.responseWriter w.body chunks
    refine ⟨recorded, kept, ?_, ?_, hrecorded⟩
    · rw [← hbuffer, call, readFrom]
      dsimp only
      split
      · rfl
      · rfl
    · rw [call, responseWriter_readFrom, ← (copy_teeWrite w.responseWriter w.body chunks).1, hbody]
  | flush => exact ⟨[], [], by simp [call, flush], by simp [call, flush, Response.ensureHeader],
      .all []⟩

theorem exists_recorded_calls (w : CaptureResponseWriter) (xs : List Call) :
    ∃ recorded kept,
      (w.calls xs).body = w.body ++ recorded ∧
      (w.calls xs).responseWriter.body = w.responseWriter.body ++ kept ∧
      Recorded (dataOf xs) recorded kept := by
  induction xs generalizing w with
  | nil => exact ⟨[], [], by simp, by simp, .all []⟩
  | cons x xs ih =>
    obtain ⟨recorded, kept, hbody, hserver, hrecorded⟩ := exists_recorded_call w x
    obtain ⟨recorded', kept', hbody', hserver', hrecorded'⟩ := ih (w.call x)
    refine ⟨recorded ++ recorded', kept ++ kept', ?_, ?_, hrecorded.append hrecorded'⟩
    · rw [calls_cons, hbody', hbody, List.append_assoc]
    · rw [calls_cons, hserver', hserver, List.append_assoc]

end CaptureResponseWriter

/-! ## Transparency and truth -/

/-- With the capturing writer in between the client sees the same response, and the captured
    status and body are those that the client sees. -/
def Faithful (head : Bool) (header : Header) (calls : List Call) : Prop :=
  let direct := (Response.start head header).calls calls
  let wrapped := (newCaptureResponseWriter (Response.start head header)).calls calls
  wrapped.responseWriter.client = direct.client ∧
    (wrapped.statusCode, wrapped.body) = direct.client

instance (head : Bool) (header : Header) (calls : List Call) :
    Decidable (Faithful head header calls) :=
  inferInstanceAs (Decidable (_ ∧ _))

theorem waiting_new (head : Bool) (header : Header) :
    (newCaptureResponseWriter (Response.start head header)).Waiting false :=
  ⟨rfl, rfl, rfl⟩

/-- **The capturing writer is transparent and its record is true** exactly for the handlers
    whose headers are in step and whose bytes the server passes on. -/
theorem capture_faithful_iff (head : Bool) (header : Header) (calls : List Call) :
    Faithful head header calls ↔ HeaderInStep false calls ∧ AllTaken head header calls := by
  have hwaiting := waiting_new head header
  obtain ⟨recorded, kept, hbody, hserver, hrecorded⟩ :=
    (newCaptureResponseWriter (Response.start head header)).exists_recorded_calls calls
  have hbody : ((newCaptureResponseWriter (Response.start head header)).calls calls).body =
    recorded := hbody
  have hserver : ((newCaptureResponseWriter
    (Response.start head header)).calls calls).responseWriter.body = kept := hserver
  constructor
  · rintro ⟨hclient, hrecord⟩
    have htrue := hrecord.trans hclient.symm
    rw [Response.client, Prod.mk.injEq] at htrue
    refine ⟨CaptureResponseWriter.headerInStep_of_statusCode hwaiting htrue.1, ?_⟩
    -- the record is what the client has, so the client has everything
    have hall : kept = dataOf calls := by
      apply hrecorded.eq_data
      rw [← hbody, ← hserver, htrue.2]
    rw [← body_calls_eq_iff, ← hall, ← hserver]
    exact (congrArg Prod.snd hclient).symm
  · rintro ⟨hstep, htaken⟩
    have hsame := CaptureResponseWriter.responseWriter_calls hwaiting hstep
    have hdirect := (body_calls_eq_iff head header calls).mpr htaken
    have hroom : dataOf calls = [] ∨ (head = false ∧
        ∀ d, declaredLength header = some d → 0 + (dataOf calls).length ≤ d) := by
      rcases htaken with hnone | ⟨hhead, -, hdeclared⟩
      · exact .inl hnone
      · exact .inr ⟨hhead, by simpa using hdeclared⟩
    have hstatus := CaptureResponseWriter.statusCode_calls hwaiting hstep hroom
    have hkept : kept = dataOf calls := by
      rw [← hserver, hsame]
      exact hdirect
    have hall : recorded = dataOf calls :=
      hrecorded.sublist.eq_of_length_le (hkept ▸ hrecorded.length_le)
    refine ⟨congrArg Response.client hsame, ?_⟩
    rw [hstatus, hsame, hbody, hall, ← hdirect]
    rfl

/-- An early hint: the final status never reaches the client, which gets 200. -/
theorem capture_loses_status_after_hint :
    ¬ Faithful false Header.empty
      [.writeHeader ⟨103, by decide⟩, .writeHeader ⟨201, by decide⟩, .write [111, 107]] := by
  decide

end ServiceRuntime.Httpkit
