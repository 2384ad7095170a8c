import Mathlib

/-!
# The Server Side of `net/http`

What a handler can do with an `http.ResponseWriter` of Go's HTTP server, and what the client
gets to see of it:

- an informational header (1xx, but for 101) is sent at once and commits to nothing
- the first final `WriteHeader`, `Write` or `Flush` commits the status; `Write` and `Flush`
  commit to 200, and so does the server after the handler if nothing else did
- later `WriteHeader`s are ignored
- bytes are refused when the status has no body or when there are more of them than a
  `Content-Length` declares, and swallowed when the request is a `HEAD`

A handler is the list of its calls (`Call`). The two results say which status it commits to
(`finalStatus_calls`) and when the client gets every byte (`body_calls_eq_iff`).
-/

namespace ServiceRuntime.GoHttp

/-! ## Headers -/

/-- `http.Header`: a map from canonical keys to values. -/
abbrev Header := String → Option (List String)

namespace Header

/-- The values under a key, in the order of their field lines. -/
def values (header : Header) (key : String) : List String := (header key).getD []

/-- `Header.Get`: the first value, or the empty string. -/
def get (header : Header) (key : String) : String := (header.values key).headD ""

def set (header : Header) (key value : String) : Header :=
  Function.update header key (some [value])

def empty : Header := fun _ => none

@[simp] theorem set_self (header : Header) (key value : String) :
    header.set key value key = some [value] := Function.update_self ..

theorem set_of_ne (header : Header) {key key' : String} (h : key' ≠ key) (value : String) :
    header.set key value key' = header key' := Function.update_of_ne h ..

end Header

def parseDigits (digits : List Char) : Option Nat :=
  let value := digits.foldl (fun n c => 10 * n + (c.toNat - 48)) 0
  if digits ≠ [] ∧ digits.all Char.isDigit ∧ value < 2 ^ 63 then some value else none

/-- `strconv.ParseInt(s, 10, 64)` where the result is at least 0. -/
def parseLength (s : String) : Option Nat :=
  match s.toList with
  -- `-0` is the one number with a minus sign that is not below 0
  | '-' :: digits => if digits ≠ [] ∧ digits.all (· == '0') then some 0 else none
  | '+' :: digits => parseDigits digits
  | digits => parseDigits digits

/-- The length that the header declares, if it declares a valid one. -/
def declaredLength (header : Header) : Option Nat :=
  parseLength (header.get "Content-Length")

/-! ## Status codes -/

/-- A status code that `WriteHeader` takes: it panics on the others. -/
structure StatusCode where
  code : Int
  three_digits : 100 ≤ code ∧ code ≤ 999
  deriving DecidableEq

def statusOK : StatusCode := ⟨200, by decide⟩

/-- `checkWriteHeaderCode`: `none` stands for the panic. -/
def StatusCode.check (code : Int) : Option StatusCode :=
  if h : 100 ≤ code ∧ code ≤ 999 then some ⟨code, h⟩ else none

theorem StatusCode.check_code (c : StatusCode) : check c.code = some c := dif_pos c.three_digits

/-- A header with this status is sent ahead of the response. 101 ends the exchange, so it
    counts as final. -/
def StatusCode.Informational (c : StatusCode) : Prop := c.code ≤ 199 ∧ c.code ≠ 101

instance (c : StatusCode) : Decidable c.Informational :=
  inferInstanceAs (Decidable (c.code ≤ 199 ∧ c.code ≠ 101))

theorem not_informational_statusOK : ¬ statusOK.Informational := by decide

def bodyAllowedForStatus (c : StatusCode) : Bool :=
  !decide (c.code ≤ 199) && c.code != 204 && c.code != 304

/-! ## The response -/

/-- The response under construction. Its header map is the one the handler has filled in
    before its first call. -/
structure Response where
  head : Bool
  header : Header
  /-- The committed status (`wroteHeader`). -/
  status : Option StatusCode
  /-- Bytes accepted or refused for their number (`written`). -/
  written : Nat
  /-- What the client receives as the body. -/
  body : List UInt8

namespace Response

def start (head : Bool) (header : Header) : Response := ⟨head, header, none, 0, []⟩

/-- The status the client sees: the server commits to 200 after a handler that did not. -/
def finalStatus (r : Response) : StatusCode := r.status.getD statusOK

def client (r : Response) : StatusCode × List UInt8 := (r.finalStatus, r.body)

def writeHeader (r : Response) (c : StatusCode) : Response :=
  match r.status with
  | some _ => r
  | none => if c.Informational then r else { r with status := some c }

/-- `if !w.wroteHeader { w.WriteHeader(StatusOK) }`. -/
def ensureHeader (r : Response) : Response := { r with status := some r.finalStatus }

def errBodyNotAllowed : String :=
  "http: request method or response status code does not allow body"

def errContentLength : String := "http: wrote more than the declared Content-Length"

/-- The declared length does not allow `n` bytes. -/
def exceeds (r : Response) (n : Nat) : Bool :=
  match declaredLength r.header with
  | none => false
  | some declared => decide (declared < n)

/-- `Write`, with the number of bytes written or an error. -/
def write (r : Response) (data : List UInt8) : Response × Except String Nat :=
  let r := r.ensureHeader
  if data = [] then (r, .ok 0)
  else if bodyAllowedForStatus r.finalStatus = false then (r, .error errBodyNotAllowed)
  else
    let r := { r with written := r.written + data.length }
    if r.exceeds r.written then (r, .error errContentLength)
    -- the bytes of a `HEAD` request are counted and go nowhere
    else if r.head then (r, .ok data.length)
    else ({ r with body := r.body ++ data }, .ok data.length)

end Response

/-- `io.Copy` from a reader that returns these chunks, one for each `Read`: how many bytes
    were written, until the first error. -/
def copy {σ : Type} (write : σ → List UInt8 → σ × Except String Nat) (s : σ) :
    List (List UInt8) → σ × Nat
  | [] => (s, 0)
  | chunk :: chunks =>
    if chunk = [] then copy write s chunks
    else
      match write s chunk with
      | (s', .error _) => (s', 0)
      | (s', .ok n) => ((copy write s' chunks).1, n + (copy write s' chunks).2)

/-- A call of a handler on its `http.ResponseWriter`. -/
inductive Call where
  | writeHeader (c : StatusCode)
  | write (data : List UInt8)
  /-- `ReadFrom`, with what the reader returns. -/
  | readFrom (chunks : List (List UInt8))
  | flush
  deriving DecidableEq

namespace Call

def data : Call → List UInt8
  | .writeHeader _ => []
  | .write data => data
  | .readFrom chunks => chunks.flatten
  | .flush => []

end Call

def dataOf (calls : List Call) : List UInt8 := calls.flatMap Call.data

@[simp] theorem dataOf_nil : dataOf [] = [] := rfl

@[simp] theorem dataOf_cons (call : Call) (calls : List Call) :
    dataOf (call :: calls) = call.data ++ dataOf calls := rfl

namespace Response

def call (r : Response) : Call → Response
  | .writeHeader c => r.writeHeader c
  | .write data => (r.write data).1
  | .readFrom chunks => (copy write r chunks).1
  | .flush => r.ensureHeader

def calls (r : Response) (calls : List Call) : Response := calls.foldl call r

@[simp] theorem calls_nil (r : Response) : r.calls [] = r := rfl

@[simp] theorem calls_cons (r : Response) (x : Call) (xs : List Call) :
    r.calls (x :: xs) = (r.call x).calls xs := rfl

/-! ## One write -/

@[simp] theorem finalStatus_ensureHeader (r : Response) :
    r.ensureHeader.finalStatus = r.finalStatus := rfl

theorem write_writeHeader_statusOK (r : Response) (data : List UInt8) :
    (r.writeHeader statusOK).write data = r.write data := by
  cases h : r.status with
  | none => simp [write, writeHeader, h, not_informational_statusOK, ensureHeader, finalStatus]
  | some c => simp [writeHeader, h]

variable {r : Response} {c : StatusCode}

theorem writeHeader_of_committed (h : r.status = some c) (c' : StatusCode) :
    r.writeHeader c' = r := by
  simp [writeHeader, h]

theorem ensureHeader_of_committed (h : r.status = some c) : r.ensureHeader = r := by
  rw [ensureHeader, finalStatus, h, Option.getD_some, ← h]

/-- The writer passes `n` more bytes on to the client. -/
structure Takes (r : Response) (n : Nat) : Prop where
  not_head : r.head = false
  allowed : bodyAllowedForStatus r.finalStatus = true
  declared : ∀ d, declaredLength r.header = some d → r.written + n ≤ d

theorem exceeds_eq_false_iff {n : Nat} :
    r.exceeds n = false ↔ ∀ d, declaredLength r.header = some d → n ≤ d := by
  unfold exceeds
  cases declaredLength r.header with
  | none | some d => simp

def add (r : Response) (data : List UInt8) : Response where
  head := r.head
  header := r.header
  status := some r.finalStatus
  written := r.written + data.length
  body := r.body ++ data

@[simp] theorem add_nil (r : Response) : r.add [] = r.ensureHeader := by
  simp [add, ensureHeader]

@[simp] theorem add_add (r : Response) (data data' : List UInt8) :
    (r.add data).add data' = r.add (data ++ data') := by
  simp [add, finalStatus, Nat.add_assoc]

theorem Takes.after_add {data data' : List UInt8} (h : r.Takes (data ++ data').length) :
    (r.add data).Takes data'.length :=
  ⟨h.not_head, h.allowed, fun d hd => by
    have hle := h.declared d hd
    rw [List.length_append] at hle
    simp only [add]
    omega⟩

theorem Takes.mono {m n : Nat} (h : r.Takes n) (hle : m ≤ n) : r.Takes m :=
  ⟨h.not_head, h.allowed, fun d hd => (Nat.add_le_add_left hle _).trans (h.declared d hd)⟩

theorem write_of_takes {data : List UInt8} (h : r.Takes data.length) :
    r.write data = (r.add data, .ok data.length) := by
  have hexceeds : ({ r.ensureHeader with written := r.written + data.length } : Response).exceeds
      (r.written + data.length) = false := exceeds_eq_false_iff.mpr h.declared
  by_cases hdata : data = []
  · simp [write, hdata]
  · have hallowed : bodyAllowedForStatus r.ensureHeader.finalStatus ≠ false := by
      simp [h.allowed]
    simp only [write, if_neg hdata, if_neg hallowed]
    change (if ({ r.ensureHeader with written := r.written + data.length } : Response).exceeds
      (r.written + data.length) then _ else _) = _
    rw [hexceeds, if_neg Bool.false_ne_true]
    exact if_neg (by simp [ensureHeader, h.not_head])

/-- A write keeps the request, the header map and the bytes so far, commits the status, and
    adds all of its bytes to the body or none of them. -/
theorem write_cases (r : Response) (data : List UInt8) :
    (∃ written, r.written ≤ written ∧
      (r.write data).1 = { r.ensureHeader with written := written } ∧ data ≠ [] ∧
        ¬ r.Takes data.length) ∨
      ((data = [] ∨ r.Takes data.length) ∧ (r.write data).1 = r.add data) := by
  by_cases htakes : r.Takes data.length
  · exact .inr ⟨.inr htakes, by rw [write_of_takes htakes]⟩
  by_cases hdata : data = []
  · exact .inr ⟨.inl hdata, by simp [write, hdata]⟩
  -- the three ways out of `Write` that leave the body as it is
  left
  simp only [write, if_neg hdata]
  split
  · exact ⟨r.written, le_rfl, rfl, hdata, htakes⟩
  · rename_i hallowed
    split
    · exact ⟨_, Nat.le_add_right _ _, rfl, hdata, htakes⟩
    · rename_i hexceeds
      split
      · exact ⟨_, Nat.le_add_right _ _, rfl, hdata, htakes⟩
      · rename_i hhead
        refine absurd ⟨?_, ?_, ?_⟩ htakes
        · simpa [ensureHeader] using hhead
        · simpa using hallowed
        · exact exceeds_eq_false_iff.mp (Bool.eq_false_iff.mpr hexceeds)

theorem status_write (r : Response) (data : List UInt8) :
    (r.write data).1.status = some r.finalStatus := by
  rcases write_cases r data with ⟨written, -, hwrite, -⟩ | ⟨-, hwrite⟩
  · simp [hwrite, ensureHeader]
  · simp [hwrite, add]

theorem status_writeHeader_of_committed (h : r.status = some c) (c' : StatusCode) :
    (r.writeHeader c').status = some c := by
  rw [writeHeader_of_committed h, h]

end Response

/-! ## Copying -/

section Copy

variable {σ : Type} {write : σ → List UInt8 → σ × Except String Nat}

theorem copy_of_no_data (s : σ) {chunks : List (List UInt8)} (h : chunks.flatten = []) :
    copy write s chunks = (s, 0) := by
  induction chunks with
  | nil => rfl
  | cons chunk chunks ih =>
    rw [List.flatten_cons, List.append_eq_nil_iff] at h
    rw [copy, if_pos h.1, ih h.2]

theorem copy_invariant {P : σ → Prop} (hwrite : ∀ s data, P s → P (write s data).1) {s : σ}
    (hs : P s) (chunks : List (List UInt8)) : P (copy write s chunks).1 := by
  induction chunks generalizing s with
  | nil => exact hs
  | cons chunk chunks ih =>
    rw [copy]
    split
    · exact ih hs
    · have hnext := hwrite s chunk hs
      split
      · rename_i s' _ heq
        rw [heq] at hnext
        exact hnext
      · rename_i s' n heq
        rw [heq] at hnext
        exact ih hnext

theorem copy_of_data (s : σ) {chunks : List (List UInt8)} (h : chunks.flatten ≠ []) :
    ∃ chunk rest, chunk ≠ [] ∧ chunks.flatten = chunk ++ List.flatten rest ∧
      copy write s chunks =
        match write s chunk with
        | (s', .error _) => (s', 0)
        | (s', .ok n) => ((copy write s' rest).1, n + (copy write s' rest).2) := by
  induction chunks with
  | nil => exact absurd rfl h
  | cons chunk chunks ih =>
    by_cases hchunk : chunk = []
    · rw [List.flatten_cons, hchunk, List.nil_append] at h ⊢
      obtain ⟨first, rest, hfirst, hflat, hcopy⟩ := ih h
      exact ⟨first, rest, hfirst, hflat, by rw [copy, if_pos rfl, hcopy]⟩
    · exact ⟨chunk, chunks, hchunk, rfl, by rw [copy, if_neg hchunk]⟩

theorem copy_map {τ : Type} {write' : τ → List UInt8 → τ × Except String Nat} {f : σ → τ}
    (hstate : ∀ s data, f (write s data).1 = (write' (f s) data).1)
    (hresult : ∀ s data, (write s data).2 = (write' (f s) data).2) (s : σ)
    (chunks : List (List UInt8)) :
    f (copy write s chunks).1 = (copy write' (f s) chunks).1 ∧
      (copy write s chunks).2 = (copy write' (f s) chunks).2 := by
  induction chunks generalizing s with
  | nil => exact ⟨rfl, rfl⟩
  | cons chunk chunks ih =>
    have hs := hstate s chunk
    have hr := hresult s chunk
    simp only [copy]
    split
    · exact ih s
    · rcases hw : write s chunk with ⟨s', result⟩
      rcases hw' : write' (f s) chunk with ⟨t', result'⟩
      rw [hw, hw'] at hs hr
      subst hs hr
      cases result with
      | error _ => exact ⟨rfl, rfl⟩
      | ok n => exact ⟨(ih s').1, congrArg (n + ·) (ih s').2⟩

end Copy

namespace Response

variable {r : Response} {c : StatusCode}

theorem status_copy_of_committed (h : r.status = some c) (chunks : List (List UInt8)) :
    (copy write r chunks).1.status = some c := by
  refine copy_invariant (P := fun r : Response => r.status = some c) ?_ h chunks
  intro r data hr
  rw [status_write, finalStatus, hr, Option.getD_some]

theorem status_copy_of_data (r : Response) {chunks : List (List UInt8)}
    (h : chunks.flatten ≠ []) : (copy write r chunks).1.status = some r.finalStatus := by
  obtain ⟨chunk, rest, -, -, hcopy⟩ := @copy_of_data _ write r chunks h
  have hstatus := status_write r chunk
  rw [hcopy]
  split
  · rename_i heq
    rw [heq] at hstatus
    exact hstatus
  · rename_i heq
    rw [heq] at hstatus
    exact status_copy_of_committed hstatus rest

theorem copy_of_takes {chunks : List (List UInt8)} (h : r.Takes chunks.flatten.length)
    (hdata : chunks.flatten ≠ []) :
    copy write r chunks = (r.add chunks.flatten, chunks.flatten.length) := by
  induction chunks generalizing r with
  | nil => exact absurd rfl hdata
  | cons chunk chunks ih =>
    rw [List.flatten_cons] at h hdata ⊢
    by_cases hchunk : chunk = []
    · rw [hchunk, List.nil_append] at h hdata ⊢
      rw [copy, if_pos rfl, ih h hdata]
    · have hfirst : r.Takes chunk.length := h.mono (by simp)
      rw [copy, if_neg hchunk, write_of_takes hfirst]
      by_cases hrest : chunks.flatten = []
      · simp [copy_of_no_data _ hrest, hrest]
      · simp [ih h.after_add hrest]

/-! ## The committed status -/

theorem status_call_of_committed (h : r.status = some c) (x : Call) :
    (r.call x).status = some c := by
  cases x with
  | writeHeader c' => exact status_writeHeader_of_committed h c'
  | write data => rw [call, status_write, finalStatus, h, Option.getD_some]
  | readFrom chunks => exact status_copy_of_committed h chunks
  | flush => rw [call, ensureHeader_of_committed h, h]

theorem status_calls_of_committed (h : r.status = some c) (xs : List Call) :
    (r.calls xs).status = some c := by
  induction xs generalizing r with
  | nil => exact h
  | cons x xs ih => exact ih (status_call_of_committed h x)

theorem finalStatus_calls_of_committed (h : r.status = some c) (xs : List Call) :
    (r.calls xs).finalStatus = c := by
  rw [finalStatus, status_calls_of_committed h, Option.getD_some]

end Response

def committedBy : List Call → StatusCode
  | [] => statusOK
  | .writeHeader c :: rest => if c.Informational then committedBy rest else c
  | .write _ :: _ => statusOK
  | .readFrom chunks :: rest => if chunks.flatten = [] then committedBy rest else statusOK
  | .flush :: _ => statusOK

namespace Response

variable {r : Response}

/-- **A handler commits to its first final header**, or to 200 by its first byte or flush. -/
theorem finalStatus_calls (h : r.status = none) (xs : List Call) :
    (r.calls xs).finalStatus = committedBy xs := by
  have hok : r.finalStatus = statusOK := by rw [finalStatus, h, Option.getD_none]
  induction xs with
  | nil => exact hok
  | cons x xs ih =>
    rw [calls_cons]
    cases x with
    | writeHeader c =>
      -- an informational header does not commit the server
      by_cases hc : c.Informational
      · simp [call, writeHeader, h, hc, committedBy, ih]
      · have hstatus : (r.call (.writeHeader c)).status = some c := by
          simp [call, writeHeader, h, hc]
        rw [finalStatus_calls_of_committed hstatus, committedBy, if_neg hc]
    | write data =>
      have hstatus := status_write r data
      rw [hok] at hstatus
      exact finalStatus_calls_of_committed hstatus xs
    | readFrom chunks =>
      -- a reader without data does not write
      by_cases hdata : chunks.flatten = []
      · simp [call, copy_of_no_data, hdata, committedBy, ih]
      · have hstatus := status_copy_of_data r hdata
        rw [hok] at hstatus
        rw [committedBy, if_neg hdata]
        exact finalStatus_calls_of_committed hstatus xs
    | flush => exact finalStatus_calls_of_committed (congrArg some hok) xs

/-! ## The body -/

/-- What restricts the body restricts it at every moment. -/
structure Sound (r : Response) : Prop where
  uncommitted : r.status = none → r.body = []
  head : r.head = true → r.body = []
  allowed : bodyAllowedForStatus r.finalStatus = false → r.body = []
  written : r.body.length ≤ r.written
  declared : ∀ d, declaredLength r.header = some d → r.body.length ≤ d

theorem sound_start (head : Bool) (header : Header) : (start head header).Sound :=
  ⟨fun _ => rfl, fun _ => rfl, fun _ => rfl, le_rfl, fun d _ => Nat.zero_le d⟩

theorem Sound.ensureHeader (h : r.Sound) : r.ensureHeader.Sound :=
  ⟨fun hstatus => (by cases hstatus), h.head, h.allowed, h.written, h.declared⟩

theorem Sound.writeHeader (h : r.Sound) (c : StatusCode) : (r.writeHeader c).Sound := by
  unfold Response.writeHeader
  split
  · exact h
  · rename_i hnone
    split
    · exact h
    -- nothing has been written before the first final header
    · have hbody := h.uncommitted hnone
      exact ⟨fun _ => hbody, h.head, fun _ => hbody, h.written, h.declared⟩

theorem Sound.write (h : r.Sound) (data : List UInt8) : (r.write data).1.Sound := by
  rcases write_cases r data with ⟨written, hle, hwrite, -, -⟩ | ⟨hdata | htakes, hwrite⟩
  · rw [hwrite]
    exact ⟨fun hstatus => (by cases hstatus), h.head, h.allowed, h.written.trans hle, h.declared⟩
  · rw [hwrite, hdata, add_nil]
    exact h.ensureHeader
  · rw [hwrite]
    have hlen := h.written
    refine ⟨fun hstatus => (by cases hstatus), fun hhead => ?_, fun hrefused => ?_, ?_,
      fun d hd => ?_⟩
    · exact absurd (htakes.not_head.symm.trans hhead) (by decide)
    · exact absurd (htakes.allowed.symm.trans hrefused) (by decide)
    · simpa [add] using hlen
    · have hle := htakes.declared d hd
      rw [add, List.length_append]
      omega

theorem Sound.calls (h : r.Sound) (xs : List Call) : (r.calls xs).Sound := by
  induction xs generalizing r with
  | nil => exact h
  | cons x xs ih =>
    apply ih
    cases x with
    | writeHeader c => exact h.writeHeader c
    | write data => exact h.write data
    | readFrom chunks => exact copy_invariant (fun _ data hr => hr.write data) h chunks
    | flush => exact h.ensureHeader

theorem header_write (r : Response) (data : List UInt8) :
    (r.write data).1.head = r.head ∧ (r.write data).1.header = r.header := by
  rcases write_cases r data with ⟨written, -, hwrite, -⟩ | ⟨-, hwrite⟩
  · simp [hwrite, ensureHeader]
  · simp [hwrite, add]

theorem header_call (r : Response) (x : Call) :
    (r.call x).head = r.head ∧ (r.call x).header = r.header := by
  cases x with
  | writeHeader c =>
    rw [call, writeHeader]
    split
    · exact ⟨rfl, rfl⟩
    · split
      · exact ⟨rfl, rfl⟩
      · exact ⟨rfl, rfl⟩
  | write data => exact header_write r data
  | readFrom chunks =>
    refine copy_invariant (P := fun t : Response => t.head = r.head ∧ t.header = r.header)
      (fun t data ht => ?_) ⟨rfl, rfl⟩ chunks
    obtain ⟨hhead, hheader⟩ := header_write t data
    exact ⟨hhead.trans ht.1, hheader.trans ht.2⟩
  | flush => exact ⟨rfl, rfl⟩

theorem header_calls (r : Response) (xs : List Call) :
    (r.calls xs).head = r.head ∧ (r.calls xs).header = r.header := by
  induction xs generalizing r with
  | nil => exact ⟨rfl, rfl⟩
  | cons x xs ih =>
    obtain ⟨hhead, hheader⟩ := header_call r x
    obtain ⟨hhead', hheader'⟩ := ih (r.call x)
    exact ⟨hhead'.trans hhead, hheader'.trans hheader⟩

theorem call_of_no_data (r : Response) {x : Call} (h : x.data = []) :
    (r.call x).body = r.body ∧ (r.call x).written = r.written := by
  cases x with
  | writeHeader c =>
    rw [call, writeHeader]
    split
    · exact ⟨rfl, rfl⟩
    · split
      · exact ⟨rfl, rfl⟩
      · exact ⟨rfl, rfl⟩
  | write data =>
    rw [Call.data] at h
    simp [call, write, h, ensureHeader]
  | readFrom chunks => simp [call, copy_of_no_data r h]
  | flush => exact ⟨rfl, rfl⟩

theorem call_of_takes {x : Call} (h : r.Takes x.data.length) (hdata : x.data ≠ []) :
    r.call x = r.add x.data := by
  cases x with
  | writeHeader c => exact absurd rfl hdata
  | write data => exact congrArg Prod.fst (write_of_takes h)
  | readFrom chunks => exact congrArg Prod.fst (copy_of_takes h hdata)
  | flush => exact absurd rfl hdata

theorem status_call_of_data (r : Response) {x : Call} (hdata : x.data ≠ []) :
    (r.call x).status = some r.finalStatus := by
  cases x with
  | writeHeader c => exact absurd rfl hdata
  | write data => exact status_write r data
  | readFrom chunks => exact status_copy_of_data r hdata
  | flush => exact absurd rfl hdata

theorem body_calls_of_takes {xs : List Call} (hhead : r.head = false)
    (hallowed : bodyAllowedForStatus (r.calls xs).finalStatus = true)
    (hdeclared : ∀ d, declaredLength r.header = some d → r.written + (dataOf xs).length ≤ d) :
    (r.calls xs).body = r.body ++ dataOf xs := by
  induction xs generalizing r with
  | nil => simp
  | cons x xs ih =>
    rw [dataOf_cons, List.length_append] at hdeclared
    rw [calls_cons] at hallowed ⊢
    obtain ⟨hhead', hheader'⟩ := header_call r x
    by_cases hdata : x.data = []
    · obtain ⟨hbody, hwritten⟩ := call_of_no_data r hdata
      rw [ih (hhead'.trans hhead) hallowed ?_, hbody, dataOf_cons, hdata, List.nil_append]
      rw [hheader', hwritten]
      simpa [hdata] using hdeclared
    -- the status of the final response is already the one this call commits to
    · have hstatus := status_call_of_data r hdata
      have hnow := finalStatus_calls_of_committed hstatus xs
      have htakes : r.Takes x.data.length :=
        ⟨hhead, hnow ▸ hallowed, fun d hd => by have := hdeclared d hd; omega⟩
      have hcall := call_of_takes htakes hdata
      rw [hcall] at hallowed hhead' hheader' ⊢
      rw [ih (r := r.add x.data) hhead hallowed ?_, dataOf_cons]
      · simp [add]
      · intro d hd
        have hle := hdeclared d (hheader' ▸ hd)
        simp only [add]
        omega

theorem body_calls_of_no_data (r : Response) {xs : List Call} (h : dataOf xs = []) :
    (r.calls xs).body = r.body := by
  induction xs generalizing r with
  | nil => rfl
  | cons x xs ih =>
    rw [dataOf_cons, List.append_eq_nil_iff] at h
    rw [calls_cons, ih _ h.2, (call_of_no_data r h.1).1]

end Response

def AllTaken (head : Bool) (header : Header) (calls : List Call) : Prop :=
  dataOf calls = [] ∨
    (head = false ∧ bodyAllowedForStatus (committedBy calls) = true ∧
      ∀ d, declaredLength header = some d → (dataOf calls).length ≤ d)

/-- **The client gets every byte** exactly if there are none, or the request is not a `HEAD`,
    the status has a body and the declared length is not exceeded. -/
theorem body_calls_eq_iff (head : Bool) (header : Header) (xs : List Call) :
    ((Response.start head header).calls xs).body = dataOf xs ↔ AllTaken head header xs := by
  have hstatus := Response.finalStatus_calls (r := Response.start head header) rfl xs
  constructor
  · intro hbody
    -- each restriction would have kept bytes back
    have hsound := (Response.sound_start head header).calls xs
    obtain ⟨hhead, hheader⟩ := Response.header_calls (Response.start head header) xs
    by_cases hdata : dataOf xs = []
    · exact .inl hdata
    · refine .inr ⟨?_, ?_, ?_⟩
      · by_contra hne
        exact hdata (hbody ▸ hsound.head (hhead.trans (Bool.eq_true_of_not_eq_false hne)))
      · by_contra hne
        rw [← hstatus, Bool.not_eq_true] at hne
        exact hdata (hbody ▸ hsound.allowed hne)
      · intro d hd
        rw [← hbody]
        exact hsound.declared d (hheader ▸ hd)
  · rintro (hnone | ⟨hhead, hallowed, hdeclared⟩)
    · rw [Response.body_calls_of_no_data _ hnone, hnone, Response.start]
    · rw [Response.body_calls_of_takes hhead (hstatus ▸ hallowed) (by simpa [Response.start])]
      rfl

theorem body_calls_of_withheld {head : Bool} (header : Header) {xs : List Call}
    (h : head = true ∨ bodyAllowedForStatus (committedBy xs) = false) :
    ((Response.start head header).calls xs).body = [] := by
  have hsound := (Response.sound_start head header).calls xs
  rcases h with hhead | hrefused
  · exact hsound.head ((Response.header_calls _ xs).1.trans hhead)
  · apply hsound.allowed
    rw [Response.finalStatus_calls rfl]
    exact hrefused

end ServiceRuntime.GoHttp
