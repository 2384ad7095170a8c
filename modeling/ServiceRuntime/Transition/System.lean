import Mathlib

/-!
# Guarded Transition Systems

A small library for programs that take one atomic step after another.
A system is a set of initial states together with a *guarded, executable* step
function: `step s e` is `some s'` when event `e` is enabled in state `s`, and
`none` otherwise.

Three views of the executions of a system are provided, with the lemmas that
connect them, and a rule for systems that follow each other:

- **runs** — `run s es` replays a list of events, so that a schedule can be evaluated
- **reachability** — `ReachableBy ok` collects the states reached through steps that
  all satisfy `ok`; `Reachable` is the case without restriction
- **step properties along a run** — `Along Q s es` says that every step of the run
  satisfies `Q`

The last section is about the pool of threads that an interleaving picks from.
-/

namespace ServiceRuntime.Transition

universe u v

/-- A guarded transition system: initial states and an executable step function. -/
structure System (σ : Type u) (ε : Type v) where
  /-- The states an execution may start in. -/
  init : σ → Prop
  /-- The effect of one event, `none` when the event is not enabled. -/
  step : σ → ε → Option σ

namespace System

variable {σ : Type u} {ε : Type v} (sys : System σ ε)

/-! ## Runs -/

/-- Replay a list of events from `s`; `none` if some event is not enabled. -/
def run (s : σ) : List ε → Option σ
  | [] => some s
  | e :: es => (sys.step s e).bind fun s' => run s' es

@[simp] theorem run_nil (s : σ) : sys.run s [] = some s := rfl

theorem run_cons (s : σ) (e : ε) (es : List ε) :
    sys.run s (e :: es) = (sys.step s e).bind fun s' => sys.run s' es := rfl

variable {s t : σ} {es : List ε} {ok : σ → ε → Prop}

theorem run_cons_eq_some {e : ε} :
    sys.run s (e :: es) = some t ↔ ∃ s', sys.step s e = some s' ∧ sys.run s' es = some t := by
  rw [run_cons, Option.bind_eq_some_iff]

theorem run_append (s : σ) (es fs : List ε) :
    sys.run s (es ++ fs) = (sys.run s es).bind fun t => sys.run t fs := by
  induction es generalizing s with
  | nil => rfl
  | cons e es ih =>
    rw [List.cons_append, run_cons, run_cons, Option.bind_assoc]
    exact Option.bind_congr fun s' _ => ih s'

/-! ## Reachability -/

/-- States reached from an initial state through steps that all satisfy `ok`. -/
inductive ReachableBy (ok : σ → ε → Prop) : σ → Prop where
  | init {s : σ} : sys.init s → ReachableBy ok s
  | step {s s' : σ} {e : ε} :
      ReachableBy ok s → ok s e → sys.step s e = some s' → ReachableBy ok s'

abbrev Reachable : σ → Prop :=
  sys.ReachableBy fun _ _ => True

variable {sys}

theorem ReachableBy.reachable (h : sys.ReachableBy ok s) : sys.Reachable s := by
  induction h with
  | init h => exact .init h
  | step _ _ hstep ih => exact .step ih trivial hstep

/-- **Invariant rule**: what holds initially and is kept by every step that satisfies `ok`
    holds in every state reached by such steps. -/
theorem ReachableBy.invariant {P : σ → Prop} (hinit : ∀ s, sys.init s → P s)
    (hstep : ∀ s e s', sys.Reachable s → P s → ok s e → sys.step s e = some s' → P s')
    (h : sys.ReachableBy ok s) : P s := by
  induction h with
  | init h => exact hinit _ h
  | step hs hok hse ih => exact hstep _ _ _ hs.reachable ih hok hse

theorem Reachable.invariant {P : σ → Prop} (hinit : ∀ s, sys.init s → P s)
    (hstep : ∀ s e s', P s → sys.step s e = some s' → P s') (h : sys.Reachable s) : P s :=
  ReachableBy.invariant hinit (fun s e s' _ hP _ hse => hstep s e s' hP hse) h

theorem Reachable.run (hs : sys.Reachable s) (hrun : sys.run s es = some t) : sys.Reachable t := by
  induction es generalizing s with
  | nil =>
    rw [run_nil, Option.some.injEq] at hrun
    exact hrun ▸ hs
  | cons e es ih =>
    obtain ⟨s', hs', ht⟩ := sys.run_cons_eq_some.mp hrun
    exact ih (.step hs trivial hs') ht

/-- Replay a list of events, stopping with `none` at an event that is not enabled or does
    not satisfy `ok`. -/
def runBy (sys : System σ ε) (ok : σ → ε → Prop) [∀ s e, Decidable (ok s e)] (s : σ) :
    List ε → Option σ
  | [] => some s
  | e :: es => if ok s e then (sys.step s e).bind fun s' => runBy sys ok s' es else none

theorem ReachableBy.runBy [∀ s e, Decidable (ok s e)] (hs : sys.ReachableBy ok s)
    (hrun : sys.runBy ok s es = some t) : sys.ReachableBy ok t := by
  induction es generalizing s with
  | nil =>
    rw [System.runBy, Option.some.injEq] at hrun
    exact hrun ▸ hs
  | cons e es ih =>
    rw [System.runBy] at hrun
    split at hrun
    · rename_i hok
      obtain ⟨s', hs', ht⟩ := Option.bind_eq_some_iff.mp hrun
      exact ih (.step hs hok hs') ht
    · cases hrun

/-! ## Simulation -/

/-- **Simulation**: `sys'` follows `sys` through `abs` if each step of `sys` leaves the abstract
    state as it is, is a step of `sys'`, or leads to where `sys'` may start. -/
theorem ReachableBy.simulate {τ : Type*} {δ : Type*} {sys' : System τ δ} {ok' : τ → δ → Prop}
    (abs : σ → τ) (hinit : ∀ s, sys.init s → sys'.init (abs s))
    (hstep : ∀ s e s', sys.ReachableBy ok s → ok s e → sys.step s e = some s' →
      abs s' = abs s ∨ (∃ d, ok' (abs s) d ∧ sys'.step (abs s) d = some (abs s')) ∨
        sys'.init (abs s')) (h : sys.ReachableBy ok s) : sys'.ReachableBy ok' (abs s) := by
  induction h with
  | init h => exact .init (hinit _ h)
  | step hs hok hse ih =>
    rcases hstep _ _ _ hs hok hse with heq | ⟨d, hok', hstep'⟩ | hstart
    · exact heq ▸ ih
    · exact .step ih hok' hstep'
    · exact .init hstart

/-! ## Step properties along a run -/

variable (sys)

/-- Every step of the run of `es` from `s` satisfies `Q` (state before, event, state after). -/
def Along (Q : σ → ε → σ → Prop) (s : σ) : List ε → Prop
  | [] => True
  | e :: es => ∀ s', sys.step s e = some s' → Q s e s' ∧ Along Q s' es

variable {sys}

theorem along_congr {Q R : σ → ε → σ → Prop}
    (h : ∀ s e s', sys.Reachable s → sys.step s e = some s' → (Q s e s' ↔ R s e s'))
    (hs : sys.Reachable s) (es : List ε) : sys.Along Q s es ↔ sys.Along R s es := by
  induction es generalizing s with
  | nil => exact Iff.rfl
  | cons e es ih =>
    refine forall_congr' fun s' => forall_congr' fun hs' => ?_
    exact and_congr (h s e s' hs hs') (ih (.step hs trivial hs'))

end System

/-! ## Pools of concurrent threads

An interleaving picks any one of the threads in progress and lets it take a step. The
threads are kept in a list and a schedule names them by position. -/

/-- Put `m` in place of the thread at position `i`: one thread for a thread that goes on,
    none for one that ends. -/
def replaceAt {α : Type u} (l : List α) (i : Nat) (m : List α) : List α :=
  l.take i ++ m ++ l.drop (i + 1)

variable {i k : Nat}

/-- Picking position `i` splits the pool around the picked thread, and replacing the thread
    acts on the middle of that split only. -/
theorem pool_split {α : Type u} {l : List α} {c : α} (h : l[i]? = some c) :
    ∃ l₁ l₂, l = l₁ ++ c :: l₂ ∧ l₁.length = i ∧ ∀ m, replaceAt l i m = l₁ ++ m ++ l₂ := by
  obtain ⟨hi, rfl⟩ := List.getElem?_eq_some_iff.mp h
  refine ⟨l.take i, l.drop (i + 1), ?_, ?_, fun m => rfl⟩
  · rw [← List.drop_eq_getElem_cons hi, List.take_append_drop]
  · exact List.length_take_of_le (Nat.le_of_lt hi)

/-- The same split for a thread that goes on: it stays in its place. -/
theorem set_split {α : Type u} {l : List α} {c : α} (h : l[i]? = some c) :
    ∃ l₁ l₂, l = l₁ ++ c :: l₂ ∧ l₁.length = i ∧ ∀ b, l.set i b = l₁ ++ b :: l₂ := by
  obtain ⟨l₁, l₂, rfl, rfl, -⟩ := pool_split h
  refine ⟨l₁, l₂, rfl, rfl, fun b => ?_⟩
  rw [List.set_append_right _ _ (Nat.le_refl _), Nat.sub_self, List.set_cons_zero]

theorem set_of_getElem? {α : Type u} {l : List α} {a : α} (h : l[i]? = some a) : l.set i a = l := by
  obtain ⟨hlt, rfl⟩ := List.getElem?_eq_some_iff.mp h
  exact List.set_getElem_self hlt

theorem sum_map_set {α : Type u} {l : List α} {a : α} (h : l[i]? = some a) (f : α → Int) (b : α) :
    ((l.set i b).map f).sum = (l.map f).sum - f a + f b := by
  obtain ⟨hlt, hget⟩ := List.getElem?_eq_some_iff.mp h
  rw [List.map_set, List.sum_set', dif_pos (by rwa [List.length_map]), List.getElem_map, hget]
  ring

theorem getElem?_set_iff {α : Type u} {l : List α} {a b c : α} (hi : l[i]? = some c) :
    (l.set i a)[k]? = some b ↔ (k = i ∧ a = b) ∨ (k ≠ i ∧ l[k]? = some b) := by
  by_cases hk : k = i
  · subst hk
    obtain ⟨hlt, -⟩ := List.getElem?_eq_some_iff.mp hi
    simp [List.getElem?_set_self hlt]
  · simp [hk, List.getElem?_set_ne (Ne.symm hk)]

theorem getElem?_of_set {α : Type u} {l : List α} {a b c : α} (hk : l[k]? = some c)
    (hi : l[i]? = some b) :
    (b = c ∧ i = k ∧ (l.set k a)[i]? = some a) ∨ (i ≠ k ∧ (l.set k a)[i]? = some b) := by
  by_cases hik : i = k
  · subst hik
    rw [hi, Option.some.injEq] at hk
    exact .inl ⟨hk, rfl, (getElem?_set_iff hi).mpr (.inl ⟨rfl, rfl⟩)⟩
  · exact .inr ⟨hik, (getElem?_set_iff hk).mpr (.inr ⟨hik, hi⟩)⟩

theorem getElem?_concat_iff {α : Type u} {l : List α} {a b : α} :
    (l ++ [a])[k]? = some b ↔ l[k]? = some b ∨ (k = l.length ∧ a = b) := by
  rcases lt_trichotomy k l.length with hk | hk | hk
  · simp [List.getElem?_append_left hk, Nat.ne_of_lt hk]
  · simp [hk]
  · have hnone : (l ++ [a])[k]? = none := by
      rw [List.getElem?_eq_none_iff, List.length_append, List.length_singleton]
      omega
    have hnone' : l[k]? = none := List.getElem?_eq_none (Nat.le_of_lt hk)
    simp [hnone, hnone', Nat.ne_of_gt hk]

end ServiceRuntime.Transition
