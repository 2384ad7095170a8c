import ServiceRuntime.Transition.System

/-!
# Running a Function Once

`sync.Once`: any number of goroutines call `Do` with one function. The first that gets the lock
runs the function, and every other call waits until it has returned. The function is given in
steps on a state of its own (`Body`), so that what others do meanwhile can be seen between them.

- **`Guarded`**: before the first entry the function has done nothing, while it runs exactly one
  call is inside, and after it has returned its state is final
- **`Guarded.done_of_returned`**: a call that has returned finds the function finished
- **`Step.shared_of_done`**: and what it finds does not change any more
- **`Guarded.can_return`**: a call that waits can be brought to its return
-/

namespace ServiceRuntime.Sync

open Transition

universe u v

/-- A function in steps: the state it starts in, its steps, and when it has returned. -/
structure Body (τ : Type u) (δ : Type v) where
  start : τ
  step : τ → δ → Option τ
  finished : τ → Bool

def Body.run {τ : Type u} {δ : Type v} (f : Body τ δ) (shared : τ) (ds : List δ) : Option τ :=
  ds.foldlM f.step shared

namespace Once

inductive Stage where
  | fresh
  /-- A call holds the lock and runs the function. -/
  | running
  /-- `done` is set. -/
  | done
  deriving DecidableEq, Repr

inductive Caller where
  | waiting
  | inside
  | returned
  deriving DecidableEq, Repr

structure State (τ : Type u) where
  stage : Stage
  /-- What the function works on. -/
  shared : τ
  callers : List Caller

inductive Event (δ : Type v) where
  | call
  /-- Call `i` gets the lock. -/
  | enter (i : Nat)
  | body (d : δ)
  /-- The function returns to call `i`, which sets `done` and lets the lock go. -/
  | leave (i : Nat)
  deriving DecidableEq, Repr

variable {τ : Type u} {δ : Type v} (f : Body τ δ)

def step (s : State τ) : Event δ → Option (State τ)
  | .call =>
    -- the fast path of `Do` looks at `done` without the lock
    some { s with callers := s.callers ++ [if s.stage = .done then .returned else .waiting] }
  | .enter i =>
    match s.callers[i]?, s.stage with
    | some .waiting, .fresh =>
      some { s with stage := .running, callers := s.callers.set i .inside }
    | some .waiting, .done => some { s with callers := s.callers.set i .returned }
    | _, _ => none
  | .body d =>
    match s.stage with
    | .running => (f.step s.shared d).map fun shared => { s with shared := shared }
    | _ => none
  | .leave i =>
    match s.callers[i]?, s.stage with
    | some .inside, .running =>
      if f.finished s.shared then
        some { s with stage := .done, callers := s.callers.set i .returned }
      else none
    | _, _ => none

/-- A `Once` that nobody has used. -/
def initial : State τ := ⟨.fresh, f.start, []⟩

/-- A `Once` in use by any number of goroutines. -/
def system : System (State τ) (Event δ) where
  init s := s = initial f
  step := step f

/-! ## The shapes of a step -/

variable {f}

inductive Step (f : Body τ δ) (s : State τ) : State τ → Prop where
  | late (hstage : s.stage = .done) : Step f s { s with callers := s.callers ++ [.returned] }
  | wait (hstage : s.stage ≠ .done) : Step f s { s with callers := s.callers ++ [.waiting] }
  | start {i : Nat} (hi : s.callers[i]? = some .waiting) (hstage : s.stage = .fresh) :
      Step f s { s with stage := .running, callers := s.callers.set i .inside }
  | skip {i : Nat} (hi : s.callers[i]? = some .waiting) (hstage : s.stage = .done) :
      Step f s { s with callers := s.callers.set i .returned }
  | body {d : δ} {shared : τ} (hstage : s.stage = .running)
      (hbody : f.step s.shared d = some shared) : Step f s { s with shared := shared }
  | finish {i : Nat} (hi : s.callers[i]? = some .inside) (hstage : s.stage = .running)
      (hfinished : f.finished s.shared = true) :
      Step f s { s with stage := .done, callers := s.callers.set i .returned }

variable {s s' : State τ} {e : Event δ}

theorem Step.of_step (h : step f s e = some s') : Step f s s' := by
  cases e with
  | call =>
    simp only [step, Option.some.injEq] at h
    subst h
    by_cases hstage : s.stage = .done
    · rw [if_pos hstage]
      exact .late hstage
    · rw [if_neg hstage]
      exact .wait hstage
  | enter i =>
    simp only [step] at h
    split at h
    · rename_i hi hstage
      cases h
      exact .start hi hstage
    · rename_i hi hstage
      cases h
      exact .skip hi hstage
    · cases h
  | body d =>
    simp only [step] at h
    split at h
    · rename_i hstage
      obtain ⟨shared, hbody, rfl⟩ := Option.map_eq_some_iff.mp h
      exact .body hstage hbody
    · cases h
  | leave i =>
    simp only [step] at h
    split at h
    · rename_i hi hstage
      split at h
      · rename_i hfinished
        cases h
        exact .finish hi hstage hfinished
      · cases h
    · cases h

/-- What the function works on changes in its own steps only. -/
theorem shared_of_step (h : step f s e = some s') :
    (∃ d, e = .body d ∧ f.step s.shared d = some s'.shared) ∨
      ((∀ d, e ≠ .body d) ∧ s'.shared = s.shared) := by
  cases e with
  | body d =>
    simp only [step] at h
    split at h
    · obtain ⟨shared, hbody, rfl⟩ := Option.map_eq_some_iff.mp h
      exact .inl ⟨d, rfl, hbody⟩
    · cases h
  -- the other steps are about the lock
  | call =>
    simp only [step, Option.some.injEq] at h
    subst h
    exact .inr ⟨fun d hd => (by cases hd), rfl⟩
  | enter i =>
    refine .inr ⟨fun d hd => (by cases hd), ?_⟩
    simp only [step] at h
    split at h <;> cases h <;> rfl
  | leave i =>
    refine .inr ⟨fun d hd => (by cases hd), ?_⟩
    simp only [step] at h
    split at h
    · split at h
      · cases h
        rfl
      · cases h
    · cases h

/-! ## The guard -/

/-- What the stage says about the callers and about the function. -/
structure Guarded (f : Body τ δ) (s : State τ) : Prop where
  /-- Before the first entry, nobody is past the lock and nothing has been done. -/
  fresh : s.stage = .fresh → s.shared = f.start ∧ ∀ c ∈ s.callers, c = .waiting
  /-- While the function runs, one call is inside and none has returned. -/
  running : s.stage = .running →
    s.callers.countP (· = .inside) = 1 ∧ ∀ c ∈ s.callers, c ≠ .returned
  /-- After the function has returned, nobody is inside. -/
  done : s.stage = .done → f.finished s.shared = true ∧ ∀ c ∈ s.callers, c ≠ .inside

theorem guarded_initial : Guarded f (initial f) where
  fresh _ := ⟨rfl, fun c hc => by cases hc⟩
  running h := by cases h
  done h := by cases h

theorem Step.guarded (hstep : Step f s s') (h : Guarded f s) : Guarded f s' := by
  cases hstep with
  | late hstage =>
    refine ⟨fun h' => ?_, fun h' => ?_, fun _ => ⟨(h.done hstage).1, ?_⟩⟩
    · cases hstage.symm.trans h'
    · cases hstage.symm.trans h'
    · intro c hc
      rcases List.mem_append.mp hc with hold | hnew
      · exact (h.done hstage).2 c hold
      · rw [List.mem_singleton.mp hnew]
        decide
  | wait hstage =>
    -- a call that waits is not inside, before `f` is called and while it runs
    refine ⟨fun h' => ⟨(h.fresh h').1, ?_⟩, fun h' => ⟨?_, ?_⟩, fun h' => absurd h' hstage⟩
    · intro c hc
      rcases List.mem_append.mp hc with hold | hnew
      · exact (h.fresh h').2 c hold
      · exact List.mem_singleton.mp hnew
    · rw [List.countP_append, (h.running h').1]
      rfl
    · intro c hc
      rcases List.mem_append.mp hc with hold | hnew
      · exact (h.running h').2 c hold
      · rw [List.mem_singleton.mp hnew]
        decide
  | start hi hstage =>
    -- everybody was waiting, so the call that goes in is the only one inside
    obtain ⟨l₁, l₂, hl, -, hset⟩ := set_split hi
    have hwaiting := (h.fresh hstage).2
    rw [hl] at hwaiting
    have hnone : ∀ l : List Caller, (∀ c ∈ l, c = .waiting) → l.countP (· = .inside) = 0 := by
      intro l hall
      rw [List.countP_eq_zero]
      intro c hc
      rw [hall c hc]
      decide
    have hleft := fun c hc => hwaiting c (List.mem_append_left _ hc)
    have hright := fun c hc => hwaiting c (List.mem_append_right _ (List.mem_cons_of_mem _ hc))
    refine ⟨fun h' => (by cases h'), fun _ => ⟨?_, ?_⟩, fun h' => (by cases h')⟩
    · simp only [hset, List.countP_append, List.countP_cons, hnone l₁ hleft, hnone l₂ hright]
      rfl
    · intro c hc
      rw [hset] at hc
      rcases List.mem_append.mp hc with hc | hc
      · rw [hleft c hc]
        decide
      · rcases List.mem_cons.mp hc with rfl | hc
        · decide
        · rw [hright c hc]
          decide
  | skip hi hstage =>
    refine ⟨fun h' => ?_, fun h' => ?_, fun _ => ⟨(h.done hstage).1, ?_⟩⟩
    · cases hstage.symm.trans h'
    · cases hstage.symm.trans h'
    · intro c hc
      rcases List.mem_or_eq_of_mem_set hc with hold | rfl
      · exact (h.done hstage).2 c hold
      · decide
  | body hstage hbody =>
    refine ⟨fun h' => ?_, fun _ => h.running hstage, fun h' => ?_⟩
    · cases hstage.symm.trans h'
    · cases hstage.symm.trans h'
  | finish hi hstage hfinished =>
    -- the one call that was inside is the one that leaves
    obtain ⟨l₁, l₂, hl, -, hset⟩ := set_split hi
    have hone := (h.running hstage).1
    simp only [hl, List.countP_append, List.countP_cons, decide_true, ↓reduceIte] at hone
    have hzero : l₁.countP (· = .inside) = 0 ∧ l₂.countP (· = .inside) = 0 := by omega
    refine ⟨fun h' => (by cases h'), fun h' => (by cases h'), fun _ => ⟨hfinished, ?_⟩⟩
    intro c hc
    rw [hset] at hc
    rcases List.mem_append.mp hc with hc | hc
    · simpa using List.countP_eq_zero.mp hzero.1 c hc
    · rcases List.mem_cons.mp hc with rfl | hc
      · decide
      · simpa using List.countP_eq_zero.mp hzero.2 c hc

theorem guarded_of_reachable (h : (system f).Reachable s) : Guarded f s := by
  refine System.Reachable.invariant (P := Guarded f) ?_
    (fun _ _ _ h hstep => (Step.of_step hstep).guarded h) h
  rintro s rfl
  exact guarded_initial

/-- **Nobody returns early**: a call that has returned finds the function finished. -/
theorem Guarded.done_of_returned (h : Guarded f s) (hc : .returned ∈ s.callers) :
    s.stage = .done := by
  cases hstage : s.stage with
  | fresh => cases (h.fresh hstage).2 _ hc
  | running => exact absurd rfl ((h.running hstage).2 _ hc)
  | done => rfl

theorem run_body (hstage : s.stage = .running) {ds : List δ} {shared : τ}
    (h : f.run s.shared ds = some shared) :
    (system f).run s (ds.map .body) = some { s with shared := shared } := by
  induction ds generalizing s with
  | nil =>
    cases h
    rfl
  | cons d ds ih =>
    obtain ⟨next, hd, hds⟩ := Option.bind_eq_some_iff.mp h
    refine (system f).run_cons_eq_some.mpr ⟨{ s with shared := next }, ?_, ih hstage hds⟩
    simp only [system, step, hstage, hd, Option.map_some]

theorem run_enter_of_done {i : Nat} (hi : s.callers[i]? = some .waiting)
    (hstage : s.stage = .done) :
    (system f).run s [.enter i] = some { s with callers := s.callers.set i .returned } := by
  simp [System.run, system, step, hi, hstage]

theorem run_leave {k : Nat} {ds : List δ} {shared : τ} (hstage : s.stage = .running)
    (hk : s.callers[k]? = some .inside) (h : f.run s.shared ds = some shared)
    (hfinished : f.finished shared = true) :
    (system f).run s (ds.map .body ++ [.leave k]) =
      some ⟨.done, shared, s.callers.set k .returned⟩ := by
  rw [System.run_append, run_body hstage h]
  simp [System.run, system, step, hk, hstage, hfinished]

/-- **Nobody waits for ever**: where the function can always be brought to its end, a call that
    waits can be brought to its return. -/
theorem Guarded.can_return (h : Guarded f s)
    (hbody : ∀ c, ∃ ds c', f.run c ds = some c' ∧ f.finished c' = true) {i : Nat}
    (hi : s.callers[i]? = some .waiting) :
    ∃ es t, (system f).run s es = some t ∧ t.callers[i]? = some .returned := by
  obtain ⟨ds, shared, hds, hfinished⟩ := hbody s.shared
  have hlt := (List.getElem?_eq_some_iff.mp hi).1
  cases hstage : s.stage with
  | done => exact ⟨_, _, run_enter_of_done hi hstage, by simp [hlt]⟩
  | fresh =>
    -- the call runs the function itself
    have henter : (system f).step s (.enter i) =
        some { s with stage := .running, callers := s.callers.set i .inside } := by
      simp [system, step, hi, hstage]
    have hrest := run_leave (s := { s with stage := .running, callers := s.callers.set i .inside })
      rfl (List.getElem?_set_self hlt) hds hfinished
    refine ⟨_, _, (system f).run_cons_eq_some.mpr ⟨_, henter, hrest⟩, ?_⟩
    simp [hlt]
  | running =>
    -- the call that is inside leaves first
    obtain ⟨c, hc, hinside⟩ := List.countP_pos_iff.mp (by rw [(h.running hstage).1]; exact Nat.one_pos)
    obtain ⟨k, hk⟩ := List.mem_iff_getElem?.mp hc
    rw [decide_eq_true_eq.mp hinside] at hk
    have hne : k ≠ i := by
      rintro rfl
      cases hk.symm.trans hi
    have hstill : (s.callers.set k .returned)[i]? = some .waiting := by
      rw [List.getElem?_set_ne hne, hi]
    have hleave := run_leave hstage hk hds hfinished
    refine ⟨(ds.map .body ++ [.leave k]) ++ [.enter i],
      ⟨.done, shared, (s.callers.set k .returned).set i .returned⟩, ?_, by simp [hlt]⟩
    rw [System.run_append, hleave, Option.bind_some, run_enter_of_done hstill rfl]

/-- **The function runs once**: when it has returned, no step changes what it left. -/
theorem Step.shared_of_done (hstep : Step f s s') (hstage : s.stage = .done) :
    s'.stage = .done ∧ s'.shared = s.shared := by
  cases hstep with
  | late | wait | skip => exact ⟨hstage, rfl⟩
  | start _ h | body h | finish _ h => cases hstage.symm.trans h

end Once

end ServiceRuntime.Sync
