import ServiceRuntime.NatsBus.Envelope
import ServiceRuntime.W3C.TraceContext

/-!
# Trace Context across the Bus

An event takes the trace context of its publisher along in three fields of the envelope, and a
consumer puts it back into a context. Both directions go through the propagator that the program
has installed and fall back to the W3C format: the publisher if the propagator wrote no
`traceparent`, the consumer if there is no valid span after the propagator has read.

The two tests are not the same. A consumer that already has a span of its own, and whose
propagator does not read trace contexts, passes the second test with that span, and the one that
came with the event is dropped. `trace_context_survives_iff` says that this is the only loss.
-/

namespace ServiceRuntime.NatsBus

open GoStrings Storage W3C

universe u

variable {V : Type u}

/-! ## Publishing -/

/-- `fmt.Sprintf("00-%s-%s-%02x", traceID, spanID, flags)`. -/
def formatTraceParent (spanContext : SpanContext) : String :=
  let flags := spanContext.traceFlags &&& (flagsSampled ||| flagsRandom)
  "00-" ++ String.ofList spanContext.traceID.hex ++ "-" ++ String.ofList spanContext.spanID.hex ++
    "-" ++ hexEncodeToString [flags]

/-- `injectTraceContext`; `global` is `otel.GetTextMapPropagator()`. -/
def injectTraceContext (global : Propagator V) (ctx : Context V) (envelope : Envelope) : Envelope :=
  let carrier := global.inject ctx .empty
  let envelope :=
    { envelope with
      traceParent := trimSpace (MapCarrier.get carrier headerTraceParent)
      traceState := trimSpace (MapCarrier.get carrier headerTraceState)
      baggage := trimSpace (MapCarrier.get carrier headerBaggage) }
  if envelope.traceParent ≠ "" then envelope
  else
    let spanContext := ctx.spanContext
    if spanContext.isValid = false then envelope
    else
      { envelope with
        traceState := trimSpace (String.ofList spanContext.traceState.text)
        traceParent := formatTraceParent spanContext }

/-- The headers that `injectMessageTraceContext` sets. -/
def propagatedHeaders (global : Propagator V) (ctx : Context V) : MapCarrier :=
  let propagated := global.inject ctx .empty
  let spanContext := ctx.spanContext
  if MapCarrier.get propagated headerTraceParent = "" ∧ spanContext.isValid = true then
    let propagated := MapCarrier.set propagated headerTraceParent (formatTraceParent spanContext)
    let traceState := String.ofList spanContext.traceState.text
    if traceState ≠ "" then MapCarrier.set propagated headerTraceState traceState else propagated
  else propagated

/-! ## Consuming -/

def setPresent (carrier : MapCarrier) (key value : String) : MapCarrier :=
  if value ≠ "" then MapCarrier.set carrier key value else carrier

/-- The carrier that `ExtractContext` makes of an envelope. -/
def Envelope.carrier (envelope : Envelope) : MapCarrier :=
  let carrier : MapCarrier := .empty
  let carrier := setPresent carrier headerTraceParent envelope.traceParent
  let carrier := setPresent carrier headerTraceState envelope.traceState
  setPresent carrier headerBaggage envelope.baggage

def extractContext (global : Propagator V) (ctx : Context V) (envelope : Envelope) : Context V :=
  let carrier := envelope.carrier
  if carrier.rows = [] then ctx
  else
    let ctx := global.extract ctx carrier
    -- "if the global propagator already produced a valid span context we are done"
    if ctx.spanContext.isValid then ctx
    else if envelope.traceParent ≠ "" then Propagator.traceContext.extract ctx carrier
    else ctx

/-! ## What is published -/

theorem formatTraceParent_eq (sc : SpanContext) :
    formatTraceParent sc = String.ofList sc.traceParent := by
  apply String.toList_injective
  simp only [formatTraceParent, SpanContext.traceParent, SpanContext.propagatedFlags, String.toList_append,
    String.toList_ofList, List.append_assoc, List.cons_append, List.nil_append]
  rfl

theorem traceParent_ne_empty (sc : SpanContext) : String.ofList sc.traceParent ≠ "" := by
  intro h
  have hlist := congrArg String.toList h
  rw [String.toList_ofList] at hlist
  cases hlist

def Envelope.Takes (envelope : Envelope) (sc : SpanContext) : Prop :=
  envelope.traceParent = String.ofList sc.traceParent ∧
    envelope.traceState = String.ofList sc.traceState.text

/-- **With or without a propagator of trace contexts, the event takes the context along.** -/
theorem takes_injectTraceContext {ps : List (Propagator V)}
    (hps : ∀ p ∈ ps, p = Propagator.traceContext ∨ p.Ignores) {ctx : Context V}
    (hvalid : ctx.spanContext.isValid = true) (envelope : Envelope) :
    (injectTraceContext (Propagator.composite ps) ctx envelope).Takes ctx.spanContext := by
  have hblank : Propagator.HasHeaders .empty [] [] := ⟨rfl, rfl⟩
  by_cases hmem : Propagator.traceContext ∈ ps
  · obtain ⟨hparent, hstate⟩ := Propagator.hasHeaders_inject_of_mem hps hmem hvalid hblank
    have hparent' : MapCarrier.get ((Propagator.composite ps).inject ctx .empty) headerTraceParent =
      String.ofList ctx.spanContext.traceParent := hparent
    have hstate' : MapCarrier.get ((Propagator.composite ps).inject ctx .empty) headerTraceState =
      String.ofList ctx.spanContext.traceState.text := hstate
    unfold injectTraceContext
    dsimp only
    rw [hparent', hstate', trimSpace_traceParent, if_pos (traceParent_ne_empty _)]
    exact ⟨rfl, TraceState.trimSpace_text _⟩
  -- nothing was written, so the fallback is
  · obtain ⟨hparent, -⟩ := Propagator.hasHeaders_inject_of_notMem hps hmem ctx hblank
    have hparent' : MapCarrier.get ((Propagator.composite ps).inject ctx .empty)
      headerTraceParent = "" := hparent
    unfold injectTraceContext
    dsimp only
    rw [hparent', if_neg (by decide), if_neg (by simp [hvalid])]
    exact ⟨formatTraceParent_eq _, TraceState.trimSpace_text _⟩

/-! ## What is consumed -/

theorem get_setPresent (carrier : MapCarrier) (key value key' : String) :
    MapCarrier.get (setPresent carrier key value) key' =
      if key' = key ∧ value ≠ "" then value else MapCarrier.get carrier key' := by
  unfold setPresent
  by_cases hvalue : value = ""
  · simp [hvalue]
  · simp [hvalue, MapCarrier.get_set]

theorem isW3C_setPresent {carrier : MapCarrier} (h : IsW3C carrier) {key : String}
    (hkey : key ∈ [traceparentHeader, tracestateHeader, baggageHeader]) (value : String) :
    IsW3C (setPresent carrier key value) := by
  unfold setPresent
  split
  · intro entry hentry
    rcases KeyedTable.mem_putFront.mp hentry with rfl | ⟨hentry, -⟩
    · exact hkey
    · exact h entry hentry
  · exact h

theorem Envelope.isW3C_carrier (envelope : Envelope) : IsW3C envelope.carrier := by
  have hempty : IsW3C .empty := fun entry hentry => absurd hentry List.not_mem_nil
  unfold Envelope.carrier
  apply isW3C_setPresent
  · apply isW3C_setPresent
    · exact isW3C_setPresent hempty (by decide) _
    · decide
  · decide

variable {envelope : Envelope} {sc : SpanContext}

theorem Envelope.hasHeaders_carrier (h : envelope.Takes sc) :
    Propagator.HasHeaders envelope.carrier sc.traceParent sc.traceState.text := by
  obtain ⟨hparent, hstate⟩ := h
  have hkeys : traceparentHeader ≠ headerTraceState ∧ traceparentHeader ≠ headerBaggage ∧
      tracestateHeader ≠ headerBaggage := by decide
  refine ⟨?_, ?_⟩
  · rw [← hparent, Envelope.carrier, get_setPresent, if_neg (fun h => hkeys.2.1 h.1),
      get_setPresent, if_neg (fun h => hkeys.1 h.1), get_setPresent]
    simp [headerTraceParent, traceparentHeader]
  · rw [← hstate, Envelope.carrier, get_setPresent, if_neg (fun h => hkeys.2.2 h.1),
      get_setPresent, get_setPresent]
    simp [headerTraceState, tracestateHeader, headerTraceParent]

theorem Envelope.extract_carrier (h : envelope.Takes sc) (hvalid : sc.isValid = true)
    (ctx : Context V) :
    (Propagator.traceContext.extract ctx envelope.carrier).spanContext = sc.seenRemotely := by
  obtain ⟨hparent, hstate⟩ := Envelope.hasHeaders_carrier h
  unfold Propagator.traceContext
  dsimp only
  rw [hparent, hstate, String.toList_ofList, String.toList_ofList, extract_traceParent hvalid]
  rfl

theorem Envelope.carrier_rows_ne_nil (h : envelope.Takes sc) : envelope.carrier.rows ≠ [] := by
  intro hrows
  have hget : MapCarrier.get envelope.carrier traceparentHeader = "" := by
    rw [MapCarrier.get, KeyedTable.find, hrows]
    rfl
  exact traceParent_ne_empty sc ((Envelope.hasHeaders_carrier h).1.symm.trans hget)

section Consume

variable {ps : List (Propagator V)} (hps : ∀ p ∈ ps, p = Propagator.traceContext ∨ p.Ignores)
  {envelope : Envelope} {sc : SpanContext} (htakes : envelope.Takes sc)
  (hvalid : sc.isValid = true)

include hps htakes hvalid

theorem extractContext_of_mem (hmem : Propagator.traceContext ∈ ps) (ctx : Context V) :
    (extractContext (Propagator.composite ps) ctx envelope).spanContext = sc.seenRemotely := by
  have hread := Propagator.spanContext_extract_of_mem hps envelope.isW3C_carrier
    (Envelope.extract_carrier htakes hvalid) hmem ctx
  unfold extractContext
  dsimp only
  rw [if_neg (Envelope.carrier_rows_ne_nil htakes), if_pos]
  · exact hread
  · rw [hread, SpanContext.isValid_seenRemotely]
    exact hvalid

theorem extractContext_of_invalid (hmem : Propagator.traceContext ∉ ps) {ctx : Context V}
    (hctx : ctx.spanContext.isValid = false) :
    (extractContext (Propagator.composite ps) ctx envelope).spanContext = sc.seenRemotely := by
  have hkeep := Propagator.spanContext_extract_of_notMem hps hmem ctx envelope.isW3C_carrier
  unfold extractContext
  dsimp only
  rw [if_neg (Envelope.carrier_rows_ne_nil htakes), if_neg (by simp [hkeep, hctx]), if_pos]
  · exact Envelope.extract_carrier htakes hvalid _
  · rw [htakes.1]
    exact traceParent_ne_empty sc

omit hvalid in
theorem extractContext_of_valid (hmem : Propagator.traceContext ∉ ps) {ctx : Context V}
    (hctx : ctx.spanContext.isValid = true) :
    (extractContext (Propagator.composite ps) ctx envelope).spanContext = ctx.spanContext := by
  have hkeep := Propagator.spanContext_extract_of_notMem hps hmem ctx envelope.isW3C_carrier
  unfold extractContext
  dsimp only
  rw [if_neg (Envelope.carrier_rows_ne_nil htakes), if_pos (by rw [hkeep, hctx])]
  exact hkeep

end Consume

/-! ## Main result -/

/-- **When the trace context survives.** The program's propagator is any composite of the one for
    trace contexts and of propagators that ignore it; without members it does nothing. -/
theorem trace_context_survives_iff {ps : List (Propagator V)}
    (hps : ∀ p ∈ ps, p = Propagator.traceContext ∨ p.Ignores) (ctx ctx₀ : Context V)
    (hvalid : ctx.spanContext.isValid = true) (envelope : Envelope) :
    (extractContext (Propagator.composite ps) ctx₀
        (injectTraceContext (Propagator.composite ps) ctx envelope)).spanContext.IsRemoteOf
          ctx.spanContext ↔
      Propagator.traceContext ∈ ps ∨ ctx₀.spanContext.isValid = false ∨
        ctx₀.spanContext.IsRemoteOf ctx.spanContext := by
  have htakes := takes_injectTraceContext hps hvalid envelope
  have hsurvives := ctx.spanContext.isRemoteOf_seenRemotely
  by_cases hmem : Propagator.traceContext ∈ ps
  · rw [extractContext_of_mem hps htakes hvalid hmem]
    exact iff_of_true hsurvives (.inl hmem)
  · cases hctx : ctx₀.spanContext.isValid with
    | false =>
      rw [extractContext_of_invalid hps htakes hvalid hmem hctx]
      exact iff_of_true hsurvives (.inr (.inl rfl))
    | true =>
      rw [extractContext_of_valid hps htakes hmem hctx]
      simp [hmem]

def spanContextOf (b : UInt8) : SpanContext where
  traceID := ⟨List.replicate 16 b, List.length_replicate⟩
  spanID := ⟨List.replicate 8 b, List.length_replicate⟩
  traceFlags := flagsSampled
  traceState := .empty
  remote := false

def plainEvent : Envelope :=
  (⟨"tenant", 0, none⟩ : Change).toCloudEvent "orders.order.create" "orders" 0 fun _ => 0

/-- The propagators of trace contexts and baggage, and a consumer that has a span of its own. -/
theorem trace_context_survives_with_propagator :
    (extractContext
      (.composite [.traceContext, .baggage id fun _ text => some text]) ⟨spanContextOf 2, ""⟩
      (injectTraceContext (.composite [.traceContext, .baggage id fun _ text => some text])
        ⟨spanContextOf 1, "k=v"⟩ plainEvent)).spanContext.IsRemoteOf (spanContextOf 1) := by
  apply (trace_context_survives_iff ?_ ⟨spanContextOf 1, "k=v"⟩ ⟨spanContextOf 2, ""⟩ (by decide)
    plainEvent).mpr
  · exact .inl List.mem_cons_self
  · intro p hp
    rw [List.mem_pair] at hp
    rcases hp with rfl | rfl
    · exact .inl rfl
    · exact .inr (Propagator.ignores_baggage _ _)

/-- The same consumer without a propagator keeps its own span: the trace that came with the event
    is dropped. -/
theorem trace_context_dropped_without_propagator :
    ¬(extractContext (.composite []) ⟨spanContextOf 2, ()⟩
      (injectTraceContext (.composite []) ⟨spanContextOf 1, ()⟩
        plainEvent)).spanContext.IsRemoteOf (spanContextOf 1) := by
  rw [extractContext_of_valid (by simp) (takes_injectTraceContext (by simp) (by decide) plainEvent)
    List.not_mem_nil (by decide)]
  intro h
  exact absurd h.traceID (by decide)

end ServiceRuntime.NatsBus
