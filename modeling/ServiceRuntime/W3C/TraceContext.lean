import ServiceRuntime.Storage.KeyedTable
import ServiceRuntime.W3C.TraceState

/-!
# Trace Contexts and Propagators

Span contexts of the OpenTelemetry library, the `traceparent` text in which they travel, and the
propagators that write them into a carrier and read them from one.

A `Context` is looked at through the span context of its current span, which is the zero one if
there is no span, and through the rest of its values, which may be anything. A propagator is any
pair of functions; the one for trace contexts is `traceContext`, and one that deals with other
keys and other values only satisfies `Propagator.Ignores`.

**Main results**
- `extract_traceParent` — what is written is read back, except for the flags that are not
  propagated
- `Propagator.hasHeaders_inject_of_mem`, `Propagator.spanContext_extract_of_mem` — among
  propagators that ignore it, the one for trace contexts alone decides
-/

namespace ServiceRuntime.W3C

open GoStrings Storage

/-! ## Span contexts -/

/-- An array of `n` bytes: `TraceID` for 16, `SpanID` for 8. -/
structure ID (n : Nat) where
  bytes : List UInt8
  size : bytes.length = n
  deriving DecidableEq

namespace ID

def zero (n : Nat) : ID n := ⟨List.replicate n 0, List.length_replicate⟩

def isValid {n : Nat} (id : ID n) : Bool := id != zero n

/-- `String`. -/
def hex {n : Nat} (id : ID n) : List Char := (hexEncodeToString id.bytes).toList

end ID

def flagsSampled : UInt8 := 0x01

def flagsRandom : UInt8 := 0x02

structure SpanContext where
  traceID : ID 16
  spanID : ID 8
  traceFlags : UInt8
  traceState : TraceState
  remote : Bool
  deriving DecidableEq

namespace SpanContext

def isValid (sc : SpanContext) : Bool := sc.traceID.isValid && sc.spanID.isValid

def isSampled (sc : SpanContext) : Bool := sc.traceFlags &&& flagsSampled == flagsSampled

def isRandom (sc : SpanContext) : Bool := sc.traceFlags &&& flagsRandom == flagsRandom

def withRemote (sc : SpanContext) (remote : Bool) : SpanContext := { sc with remote }

def propagatedFlags (sc : SpanContext) : UInt8 := sc.traceFlags &&& (flagsSampled ||| flagsRandom)

def seenRemotely (sc : SpanContext) : SpanContext :=
  { sc with traceFlags := sc.propagatedFlags, remote := true }

/-- `r` is the remote view of `sc`: the same trace, span, sampled and random flags and state. -/
structure IsRemoteOf (r sc : SpanContext) : Prop where
  remote : r.remote = true
  traceID : r.traceID = sc.traceID
  spanID : r.spanID = sc.spanID
  sampled : r.isSampled = sc.isSampled
  random : r.isRandom = sc.isRandom
  traceState : r.traceState = sc.traceState

theorem isRemoteOf_seenRemotely (sc : SpanContext) : sc.seenRemotely.IsRemoteOf sc where
  remote := rfl
  traceID := rfl
  spanID := rfl
  sampled := by
    have hmask : (flagsSampled ||| flagsRandom) &&& flagsSampled = flagsSampled := by decide
    simp only [isSampled, seenRemotely, propagatedFlags, UInt8.and_assoc, hmask]
  random := by
    have hmask : (flagsSampled ||| flagsRandom) &&& flagsRandom = flagsRandom := by decide
    simp only [isRandom, seenRemotely, propagatedFlags, UInt8.and_assoc, hmask]
  traceState := rfl

theorem isValid_seenRemotely (sc : SpanContext) : sc.seenRemotely.isValid = sc.isValid := rfl

end SpanContext

/-! ## The text of a span context -/

/-- The `traceparent` of version 0. -/
def SpanContext.traceParent (sc : SpanContext) : List Char :=
  ['0', '0'] ++ '-' :: (sc.traceID.hex ++ '-' :: (sc.spanID.hex ++
    '-' :: (hexEncodeToString [sc.propagatedFlags]).toList))

def upperHex (v : List Char) : Bool := v.any fun c => 'A' ≤ c && c ≤ 'F'

/-- `extractPart`: `n` lower-case digits up to the next delimiter, and what follows it. -/
def extractPart (h : List Char) (n : Nat) : Option (List UInt8 × List Char) :=
  let (part, left) := cut '-' h
  if part.length ≠ n ∨ upperHex part = true then none
  else (hexDecode part).map fun dst => (dst, left.getD [])

/-- A part of `n` bytes. -/
def extractID (h : List Char) (n : Nat) : Option (ID n × List Char) := do
  let (dst, left) ← extractPart h (2 * n)
  if size : dst.length = n then some (⟨dst, size⟩, left) else none

/-- `extract`, given the two headers; the zero span context is `none`. -/
def extractSpanContext (parent state : List Char) : Option SpanContext :=
  if parent = [] then none
  else do
    let (ver, h) ← extractPart parent 2
    let version := ver.headD 0
    -- 255 is no version
    if version > 254 then none
    else
      let (traceID, h) ← extractID h 16
      let (spanID, h) ← extractID h 8
      let (opts, h) ← extractPart h 2
      let flags := opts.headD 0
      -- version 0 has no further fields and no other flags
      if version = 0 ∧ (h ≠ [] ∨ flags > 3) then none
      else
        let sc : SpanContext :=
          { traceID, spanID, traceFlags := flags &&& (flagsSampled ||| flagsRandom)
            -- an invalid state is dropped
            traceState := (TraceState.parse state).getD .empty
            remote := true }
        if sc.isValid then some sc else none

/-- Digits that were written are one part. -/
theorem extractPart_hex (bytes : List UInt8) {n : Nat} (hn : n = 2 * bytes.length)
    {rest left : List Char}
    (hrest : (rest = '-' :: left) ∨ (rest = [] ∧ left = [])) :
    extractPart ((hexEncodeToString bytes).toList ++ rest) n = some (bytes, left) := by
  have hdash : '-' ∉ (hexEncodeToString bytes).toList := by
    intro hmem
    obtain ⟨k, hk, heq⟩ := mem_hexEncodeToString hmem
    revert heq
    interval_cases k <;> decide
  have hlower : upperHex (hexEncodeToString bytes).toList = false := by
    rw [upperHex, List.any_eq_false]
    intro c hc
    obtain ⟨k, hk, rfl⟩ := mem_hexEncodeToString hc
    interval_cases k <;> decide
  -- the part ends at a dash or at the end of the text
  have hcut : ∃ after, cut '-' ((hexEncodeToString bytes).toList ++ rest) =
      ((hexEncodeToString bytes).toList, after) ∧ after.getD [] = left := by
    rcases hrest with rfl | ⟨rfl, rfl⟩
    · exact ⟨some left, cut_append hdash left, rfl⟩
    · exact ⟨none, by rw [List.append_nil, cut_of_notMem hdash], rfl⟩
  obtain ⟨after, hcut, hleft⟩ := hcut
  unfold extractPart
  rw [hcut]
  dsimp only
  rw [if_neg (by simp [length_hexEncodeToString, hn, hlower]), hexDecode_hexEncodeToString,
    Option.map_some, hleft]

theorem extractID_hex {n : Nat} (id : ID n) (left : List Char) :
    extractID (id.hex ++ '-' :: left) n = some (id, left) := by
  unfold extractID ID.hex
  rw [extractPart_hex id.bytes (by rw [id.size]) (.inl rfl)]
  simp [id.size]

theorem propagatedFlags_le (sc : SpanContext) : ¬sc.propagatedFlags > 3 := by
  have hle : sc.propagatedFlags ≤ 3 := by
    unfold SpanContext.propagatedFlags
    exact UInt8.and_le_right
  simpa using hle

/-- **What is written is read back**, as the remote process sees it. -/
theorem extract_traceParent {sc : SpanContext} (hvalid : sc.isValid = true) :
    extractSpanContext sc.traceParent sc.traceState.text = some sc.seenRemotely := by
  have hversion : extractPart sc.traceParent 2 = some ([0], sc.traceID.hex ++ '-' ::
      (sc.spanID.hex ++ '-' :: (hexEncodeToString [sc.propagatedFlags]).toList)) :=
    extractPart_hex [0] rfl (.inl rfl)
  have hflags : extractPart (hexEncodeToString [sc.propagatedFlags]).toList 2 =
      some ([sc.propagatedFlags], []) := by
    have hpart := extractPart_hex [sc.propagatedFlags] rfl (.inr ⟨rfl, rfl⟩)
    rwa [List.append_nil] at hpart
  have hmask : sc.propagatedFlags &&& (flagsSampled ||| flagsRandom) = sc.propagatedFlags := by
    simp [SpanContext.propagatedFlags, UInt8.and_assoc]
  unfold extractSpanContext
  rw [if_neg (by simp [SpanContext.traceParent]), hversion]
  simp only [Option.bind_eq_bind, Option.bind_some, extractID_hex, hflags, List.headD_cons,
    TraceState.parse_text, Option.getD_some, hmask]
  rw [if_neg (by decide), if_neg (by simp [propagatedFlags_le]), if_pos]
  · rfl
  · exact hvalid

theorem trimSpace_traceParent (sc : SpanContext) :
    trimSpace (String.ofList sc.traceParent) = String.ofList sc.traceParent := by
  have hlast : (String.ofList sc.traceParent).toList.getLast? =
      some (hexDigit (sc.propagatedFlags.toNat % 16)) := by
    rw [String.toList_ofList]
    simp [SpanContext.traceParent, hexEncodeToString, List.getLast?_append, List.getLast?_cons]
  exact trimSpace_eq_self (by rw [String.toList_ofList]; rfl) hlast (by decide)
    (isSpace_hexDigit (Nat.mod_lt _ (by decide)))

/-! ## Carriers -/

abbrev MapCarrier := KeyedTable (String × String) Prod.fst

namespace MapCarrier

def get (carrier : MapCarrier) (key : String) : String := ((carrier.find key).map Prod.snd).getD ""

def set (carrier : MapCarrier) (key value : String) : MapCarrier := carrier.putFront (key, value)

@[simp] theorem get_empty (key : String) : get .empty key = "" := rfl

theorem get_set (carrier : MapCarrier) (key value key' : String) :
    get (set carrier key value) key' = if key' = key then value else get carrier key' := by
  rw [get, set, KeyedTable.find_putFront]
  by_cases h : key' = key
  · simp [h]
  · simp [h, Ne.symm h, get]

end MapCarrier

def traceparentHeader : String := "traceparent"

def tracestateHeader : String := "tracestate"

def baggageHeader : String := "baggage"

/-- A carrier with no other keys than those of the W3C recommendations. -/
def IsW3C (carrier : MapCarrier) : Prop :=
  ∀ entry ∈ carrier.rows, entry.1 ∈ [traceparentHeader, tracestateHeader, baggageHeader]

/-! ## Propagators -/

universe u

/-- `context.Context`: the span context of the current span, and all other values. -/
structure Context (V : Type u) where
  spanContext : SpanContext
  values : V

/-- `TextMapPropagator`. -/
structure Propagator (V : Type u) where
  inject : Context V → MapCarrier → MapCarrier
  extract : Context V → MapCarrier → Context V

namespace Propagator

variable {V : Type u}

def traceContext : Propagator V where
  inject ctx carrier :=
    let sc := ctx.spanContext
    if sc.isValid then
      let ts := String.ofList sc.traceState.text
      let carrier := if ts = "" then carrier else MapCarrier.set carrier tracestateHeader ts
      MapCarrier.set carrier traceparentHeader (String.ofList sc.traceParent)
    else carrier
  extract ctx carrier :=
    match extractSpanContext (MapCarrier.get carrier traceparentHeader).toList
        (MapCarrier.get carrier tracestateHeader).toList with
    | none => ctx
    | some sc => { ctx with spanContext := sc.withRemote true }

/-- `NewCompositeTextMapPropagator`. -/
def composite (ps : List (Propagator V)) : Propagator V where
  inject ctx carrier := ps.foldl (fun carrier p => p.inject ctx carrier) carrier
  extract ctx carrier := ps.foldl (fun ctx p => p.extract ctx carrier) ctx

/-- A propagator of other values, such as the one of baggage: it writes none of the headers of a
    trace context, and finds no span in them. -/
structure Ignores (p : Propagator V) : Prop where
  parent_inject : ∀ ctx carrier,
    MapCarrier.get (p.inject ctx carrier) traceparentHeader =
      MapCarrier.get carrier traceparentHeader
  state_inject : ∀ ctx carrier,
    MapCarrier.get (p.inject ctx carrier) tracestateHeader =
      MapCarrier.get carrier tracestateHeader
  span_extract : ∀ ctx carrier, IsW3C carrier →
    (p.extract ctx carrier).spanContext = ctx.spanContext

/-- `Baggage`: `text` writes the baggage among the values, and `read` puts the baggage of a text
    there, if the text has any. -/
def baggage (text : V → String) (read : V → String → Option V) : Propagator V where
  inject ctx carrier :=
    let bStr := text ctx.values
    if bStr = "" then carrier else MapCarrier.set carrier baggageHeader bStr
  extract ctx carrier :=
    let bStr := MapCarrier.get carrier baggageHeader
    if bStr = "" then ctx
    else
      match read ctx.values bStr with
      | none => ctx
      | some values => { ctx with values }

theorem ignores_baggage (text : V → String) (read : V → String → Option V) :
    (baggage text read).Ignores := by
  have hparent : traceparentHeader ≠ baggageHeader := by decide
  have hstate : tracestateHeader ≠ baggageHeader := by decide
  constructor
  · intro ctx carrier
    simp only [baggage]
    split
    · rfl
    · rw [MapCarrier.get_set, if_neg hparent]
  · intro ctx carrier
    simp only [baggage]
    split
    · rfl
    · rw [MapCarrier.get_set, if_neg hstate]
  · intro ctx carrier _
    simp only [baggage]
    split
    · rfl
    · split
      · rfl
      · rfl

/-! ### Injecting -/

def HasHeaders (carrier : MapCarrier) (parent state : List Char) : Prop :=
  MapCarrier.get carrier traceparentHeader = String.ofList parent ∧
    MapCarrier.get carrier tracestateHeader = String.ofList state

theorem Ignores.hasHeaders {p : Propagator V} (hp : p.Ignores) {carrier : MapCarrier}
    {parent state : List Char} (h : HasHeaders carrier parent state) (ctx : Context V) :
    HasHeaders (p.inject ctx carrier) parent state :=
  ⟨(hp.parent_inject ctx carrier).trans h.1, (hp.state_inject ctx carrier).trans h.2⟩

/-- The propagator of trace contexts writes both headers; the state only if there is one, so that
    it relies on there being no other. -/
theorem hasHeaders_inject_traceContext {ctx : Context V} (hvalid : ctx.spanContext.isValid = true)
    {carrier : MapCarrier} {parent : List Char}
    (h : HasHeaders carrier parent [] ∨
      HasHeaders carrier parent ctx.spanContext.traceState.text) :
    HasHeaders (traceContext.inject ctx carrier) ctx.spanContext.traceParent
      ctx.spanContext.traceState.text := by
  have hne : tracestateHeader ≠ traceparentHeader := by decide
  have hstate : MapCarrier.get (if String.ofList ctx.spanContext.traceState.text = "" then carrier
      else MapCarrier.set carrier tracestateHeader (String.ofList ctx.spanContext.traceState.text))
      tracestateHeader = String.ofList ctx.spanContext.traceState.text := by
    split
    · rename_i hempty
      rcases h with h | h
      · exact h.2.trans hempty.symm
      · exact h.2
    · rw [MapCarrier.get_set, if_pos rfl]
  refine ⟨?_, ?_⟩
  · simp only [traceContext, hvalid, if_true, MapCarrier.get_set]
  · simp only [traceContext, hvalid, if_true, MapCarrier.get_set, if_neg hne]
    exact hstate

section Composite

variable {ps : List (Propagator V)} (hps : ∀ p ∈ ps, p = traceContext ∨ p.Ignores)

include hps

variable {ctx : Context V}

theorem hasHeaders_inject_of_notMem (hmem : traceContext ∉ ps) (ctx : Context V)
    {parent state : List Char} (h : HasHeaders carrier parent state) :
    HasHeaders ((composite ps).inject ctx carrier) parent state := by
  refine List.foldlRecOn (motive := (HasHeaders · parent state)) ps _ h fun carrier h p hp => ?_
  exact ((hps p hp).resolve_left fun heq => hmem (heq ▸ hp)).hasHeaders h ctx

theorem hasHeaders_inject_of_written (hvalid : ctx.spanContext.isValid = true)
    (h : HasHeaders carrier ctx.spanContext.traceParent ctx.spanContext.traceState.text) :
    HasHeaders ((composite ps).inject ctx carrier) ctx.spanContext.traceParent
      ctx.spanContext.traceState.text := by
  refine List.foldlRecOn (motive := (HasHeaders · ctx.spanContext.traceParent
    ctx.spanContext.traceState.text)) ps _ h fun carrier h p hp => ?_
  rcases hps p hp with rfl | hp
  · exact hasHeaders_inject_traceContext hvalid (.inr h)
  · exact hp.hasHeaders h ctx

/-- **Among propagators that ignore it, the one for trace contexts decides what is written.** -/
theorem hasHeaders_inject_of_mem (hmem : traceContext ∈ ps)
    (hvalid : ctx.spanContext.isValid = true) (h : HasHeaders carrier [] []) :
    HasHeaders ((composite ps).inject ctx carrier) ctx.spanContext.traceParent
      ctx.spanContext.traceState.text := by
  -- nothing is written up to the first of its kind, and nothing else after it
  obtain ⟨front, back, rfl, hfront⟩ := List.eq_append_cons_of_mem hmem
  rw [List.forall_mem_append, List.forall_mem_cons] at hps
  show HasHeaders (List.foldl _ carrier (front ++ traceContext :: back)) _ _
  rw [List.foldl_append]
  exact hasHeaders_inject_of_written hps.2.2 hvalid
    (hasHeaders_inject_traceContext hvalid (.inl (hasHeaders_inject_of_notMem hps.1 hfront ctx h)))

/-! ### Extracting -/

theorem spanContext_extract_of_notMem (hmem : traceContext ∉ ps) (ctx : Context V)
    (hcarrier : IsW3C carrier) :
    ((composite ps).extract ctx carrier).spanContext = ctx.spanContext := by
  refine List.foldlRecOn (motive := fun ctx' : Context V => ctx'.spanContext = ctx.spanContext) ps _
    rfl fun ctx' h p hp => ?_
  have hignores := (hps p hp).resolve_left fun heq => hmem (heq ▸ hp)
  exact (hignores.span_extract ctx' carrier hcarrier).trans h

variable {carrier : MapCarrier} (hcarrier : IsW3C carrier) {sc : SpanContext}
  (hread : ∀ ctx : Context V, (traceContext.extract ctx carrier).spanContext = sc)

include hcarrier hread

/-- **Among propagators that ignore it, the one for trace contexts decides what is read.** -/
theorem spanContext_extract_of_mem (hmem : traceContext ∈ ps) (ctx : Context V) :
    ((composite ps).extract ctx carrier).spanContext = sc := by
  obtain ⟨front, back, rfl⟩ := List.append_of_mem hmem
  show (List.foldl _ ctx (front ++ traceContext :: back)).spanContext = sc
  rw [List.foldl_append]
  refine List.foldlRecOn (motive := fun ctx : Context V => ctx.spanContext = sc) back _ (hread _)
    fun ctx h p hp => ?_
  rcases hps p (List.mem_append_right _ (List.mem_cons_of_mem _ hp)) with rfl | hp
  · exact hread ctx
  · exact (hp.span_extract ctx carrier hcarrier).trans h

end Composite

end Propagator

end ServiceRuntime.W3C
