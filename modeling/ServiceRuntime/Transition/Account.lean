import ServiceRuntime.Transition.System

/-!
# What a Run Puts Out and Adds Up To

Two readings of a run that are not states of the system:

- `trace`: the list of answers that the steps give
- `total`: the sum of a quantity over the steps

`total_le` is the accounting rule: if every step pays out no more than it earns and takes
from the stock, then so does the whole run. `trace_forall₂` compares the answers of two
systems that take their steps together.
-/

namespace ServiceRuntime.Transition

universe u v w

namespace System

variable {σ : Type u} {ε : Type v} {β : Type w} (sys : System σ ε)

/-- The answers given along the run of `es` from `s`, oldest first. -/
def trace (out : σ → ε → Option β) (s : σ) : List ε → List β
  | [] => []
  | e :: es =>
    match sys.step s e with
    | none => []
    | some s' => (out s e).toList ++ trace out s' es

/-- The sum of `f` over the steps of the run of `es` from `s`. -/
def total [AddMonoid β] (f : σ → ε → β) (s : σ) : List ε → β
  | [] => 0
  | e :: es =>
    match sys.step s e with
    | none => 0
    | some s' => f s e + total f s' es

variable {sys}

@[simp] theorem trace_nil (out : σ → ε → Option β) (s : σ) : sys.trace out s [] = [] := rfl

variable {out : σ → ε → Option β} {s t s' : σ} {es : List ε}

theorem trace_cons {e : ε} (h : sys.step s e = some s') (es : List ε) :
    sys.trace out s (e :: es) = (out s e).toList ++ sys.trace out s' es := by
  rw [trace, h]

theorem trace_append (h : sys.run s es = some t) (fs : List ε) :
    sys.trace out s (es ++ fs) = sys.trace out s es ++ sys.trace out t fs := by
  induction es generalizing s with
  | nil =>
    obtain rfl := Option.some.inj h
    rfl
  | cons e es ih =>
    obtain ⟨s', hs', ht⟩ := sys.run_cons_eq_some.mp h
    rw [List.cons_append, trace_cons hs', trace_cons hs', ih ht, List.append_assoc]

@[simp] theorem total_nil [AddMonoid β] (f : σ → ε → β) (s : σ) : sys.total f s [] = 0 := rfl

theorem total_cons [AddMonoid β] {f : σ → ε → β} {e : ε} (h : sys.step s e = some s')
    (es : List ε) :
    sys.total f s (e :: es) = f s e + sys.total f s' es := by
  rw [total, h]

theorem total_eq_sum {ι : Type*} [AddCommMonoid β] {f : σ → ε → β} {g : ι → σ → ε → β}
    {F : Finset ι} (h : ∀ s, ∀ e ∈ es, f s e = ∑ i ∈ F, g i s e) (hrun : sys.run s es = some t) :
    sys.total f s es = ∑ i ∈ F, sys.total (g i) s es := by
  induction es generalizing s with
  | nil => exact (Finset.sum_const_zero).symm
  | cons e es ih =>
    obtain ⟨s', hs', ht⟩ := sys.run_cons_eq_some.mp hrun
    have hrest := ih (fun s e' he' => h s e' (List.mem_cons_of_mem e he')) ht
    simp only [total_cons hs', Finset.sum_add_distrib, h s e List.mem_cons_self, hrest]

/-- **Simulation rule**: two systems that are fed from one list of inputs, and keep a relation
    between their states step by step, give related answers. -/
theorem trace_forall₂ {τ ι δ γ : Type*} {sys' : System τ δ} (R : σ → τ → Prop) {Q : β → γ → Prop}
    {out' : τ → δ → Option γ} {f : ι → ε} {g : ι → δ} {is : List ι}
    (hstep : ∀ s t, ∀ i ∈ is, R s t → ∃ s' t',
      sys.step s (f i) = some s' ∧ sys'.step t (g i) = some t' ∧
      R s' t' ∧ List.Forall₂ Q (out s (f i)).toList (out' t (g i)).toList) {t : τ} (hR : R s t) :
    List.Forall₂ Q (sys.trace out s (is.map f)) (sys'.trace out' t (is.map g)) := by
  induction is generalizing s t with
  | nil => exact List.Forall₂.nil
  | cons i is ih =>
    obtain ⟨s', t', hs', ht', hR', hout⟩ := hstep s t i List.mem_cons_self hR
    rw [List.map_cons, List.map_cons, trace_cons hs', trace_cons ht']
    exact List.rel_append hout (ih (fun s t i hi => hstep s t i (List.mem_cons_of_mem _ hi)) hR')

/-- **Accounting rule**: `level` is the stock, `gain` what a step earns and `paid` what it
    pays out. -/
theorem total_le {K : Type w} [Field K] [LinearOrder K] [IsStrictOrderedRing K] (P : σ → Prop)
    (ok : ε → Prop) (level : σ → K) {gain paid : σ → ε → K}
    (hkeep : ∀ s e s', P s → ok e → sys.step s e = some s' → P s')
    (hstep : ∀ s e s', P s → ok e → sys.step s e = some s' →
      paid s e + level s' ≤ level s + gain s e) (hs : P s) (hes : ∀ e ∈ es, ok e)
    (hrun : sys.run s es = some t) :
    sys.total paid s es + level t ≤ level s + sys.total gain s es := by
  induction es generalizing s with
  | nil =>
    rw [run_nil, Option.some.injEq] at hrun
    simp [hrun]
  | cons e es ih =>
    obtain ⟨s', hs', ht⟩ := sys.run_cons_eq_some.mp hrun
    have hok := hes e List.mem_cons_self
    have hfirst := hstep s e s' hs hok hs'
    have hrest := ih (hkeep s e s' hs hok hs') (fun e' he' => hes e' (List.mem_cons_of_mem e he')) ht
    rw [total_cons hs', total_cons hs']
    linarith

/-- The rule for a stock that a step can only lower: a run pays out no more than it drops. -/
theorem total_le_drop {K : Type w} [Field K] [LinearOrder K] [IsStrictOrderedRing K] (P : σ → Prop)
    (level : σ → K) {paid : σ → ε → K} (hkeep : ∀ s e s', P s → sys.step s e = some s' → P s')
    (hstep : ∀ s e s', P s → sys.step s e = some s' → paid s e + level s' ≤ level s) (hs : P s)
    (hrun : sys.run s es = some t) : sys.total paid s es + level t ≤ level s := by
  induction es generalizing s with
  | nil =>
    rw [run_nil, Option.some.injEq] at hrun
    simp [hrun]
  | cons e es ih =>
    obtain ⟨s', hs', ht⟩ := sys.run_cons_eq_some.mp hrun
    have hfirst := hstep s e s' hs hs'
    have hrest := ih (hkeep s e s' hs hs') ht
    rw [total_cons hs']
    linarith

end System

end ServiceRuntime.Transition
