import ServiceRuntime.GoTime

/-!
# Retrying a Startup Operation

`startup.Do` calls an operation until it succeeds, up to a number of attempts. The operation acts
on a state of any type and is given the number of the attempt, so that each attempt may go its own
way.
-/

namespace ServiceRuntime.Startup

open GoTime

/-! ## The loop -/

structure Config where
  maxAttempts : Int
  delay : Duration
  deriving DecidableEq

def Config.zero : Config := ⟨0, ⟨0, by decide, by decide⟩⟩

/-- `DefaultMaxAttempts` and `DefaultDelay`. -/
def Config.default : Config := ⟨30, ⟨2 * Duration.second.ns, by decide, by decide⟩⟩

def Config.withDefaults (c : Config) : Config where
  maxAttempts := if c.maxAttempts < 1 then 30 else c.maxAttempts
  delay := if c.delay.ns < 0 then ⟨0, by decide, by decide⟩ else c.delay

section Do

variable {σ : Type*} (operation : Nat → σ → σ × Option String) (interrupted : Nat → Option String)

/-- The loop of `Do`: `left` attempts are to come, the next of them is number `attempt`.
    `interrupted` is the error of a context that is done before the delay is over. -/
def doLoop (maxAttempts : Int) : Nat → Nat → σ → σ × Option String
  | 0, _, s => (s, none)
  | left + 1, attempt, s =>
    match operation attempt s with
    | (s', none) => (s', none)
    | (s', some err) =>
      if left = 0 then
        (s', some ("startup failed after " ++ toString maxAttempts ++ " attempts: " ++ err))
      else
        match interrupted attempt with
        | some ctxErr => (s', some ("startup interrupted: " ++ ctxErr))
        | none => doLoop maxAttempts left (attempt + 1) s'

/-- `Do`. -/
def startupDo (cfg : Config) (s : σ) : σ × Option String :=
  let cfg := cfg.withDefaults
  doLoop operation interrupted cfg.maxAttempts cfg.maxAttempts.toNat 1 s

/-! ## What the attempts keep -/

variable {operation}

variable {P Dead : σ → Prop} {s : σ}

theorem doLoop_invariant (hkeep : ∀ attempt s, P s → P (operation attempt s).1) (maxAttempts : Int)
    (left attempt : Nat) (hs : P s) :
    P (doLoop operation interrupted maxAttempts left attempt s).1 := by
  induction left generalizing attempt s with
  | zero => exact hs
  | succ left ih =>
    have hnext := hkeep attempt s hs
    unfold doLoop
    split
    · rename_i s' hop
      rwa [hop] at hnext
    · rename_i s' err hop
      rw [hop] at hnext
      split
      · exact hnext
      · split
        · exact hnext
        · exact ih (attempt + 1) hnext

/-- A loop that succeeds has ended with an attempt that succeeded, from a state that the attempts
    before it keep. -/
theorem doLoop_ok (hkeep : ∀ attempt s, P s → P (operation attempt s).1) (maxAttempts : Int)
    {left : Nat} (attempt : Nat) (hs : P s) (hleft : left ≠ 0)
    (hok : (doLoop operation interrupted maxAttempts left attempt s).2 = none) :
    ∃ last s', P s' ∧ (operation last s').2 = none ∧
      (doLoop operation interrupted maxAttempts left attempt s).1 = (operation last s').1 := by
  -- on the attempts that are left
  induction left generalizing attempt s with
  | zero => exact absurd rfl hleft
  | succ left ih =>
    have hnext := hkeep attempt s hs
    unfold doLoop at hok ⊢
    split
    · rename_i s' hop
      exact ⟨attempt, s, hs, by rw [hop], by rw [hop]⟩
    · rename_i s' err hop
      rw [hop] at hok hnext
      dsimp only at hok
      split at hok
      · cases hok
      · rename_i hmore
        rw [if_neg hmore]
        split at hok
        · cases hok
        · exact ih (attempt + 1) hnext hmore hok

theorem Config.withDefaults_pos (c : Config) : c.withDefaults.maxAttempts.toNat ≠ 0 := by
  unfold Config.withDefaults
  dsimp only
  split <;> omega

/-- **`Do` over an invariant of its attempts**: the invariant holds afterwards, and a `Do` that
    succeeds ended with an attempt that succeeded from a state of the invariant. -/
theorem startupDo_spec (hkeep : ∀ attempt s, P s → P (operation attempt s).1) (cfg : Config)
    (hs : P s) :
    P (startupDo operation interrupted cfg s).1 ∧
      ((startupDo operation interrupted cfg s).2 = none → ∃ last s', P s' ∧
        (operation last s').2 = none ∧
        (startupDo operation interrupted cfg s).1 = (operation last s').1) :=
  ⟨doLoop_invariant interrupted hkeep _ _ 1 hs,
    fun hok => doLoop_ok interrupted hkeep _ 1 hs cfg.withDefaults_pos hok⟩

/-! ## Which attempts are made -/

/-- `Made left attempt s i t`: a loop with `left` attempts to come, the next of them number
    `attempt` on `s`, makes attempt number `i` on the state `t`. -/
inductive Made (operation : Nat → σ → σ × Option String) (interrupted : Nat → Option String) :
    Nat → Nat → σ → Nat → σ → Prop
  | here {left attempt : Nat} {s : σ} : Made operation interrupted (left + 1) attempt s attempt s
  /-- The attempt fails, there are further ones, and the delay ends by itself. -/
  | later {left attempt i : Nat} {s s' t : σ} {err : String}
      (hfails : operation attempt s = (s', some err)) (hleft : left ≠ 0)
      (hgoes : interrupted attempt = none)
      (hmade : Made operation interrupted left (attempt + 1) s' i t) :
      Made operation interrupted (left + 1) attempt s i t

variable {interrupted}

theorem doLoop_of_dead
    (hdead : ∀ attempt s, Dead s → Dead (operation attempt s).1 ∧ (operation attempt s).2 ≠ none)
    (maxAttempts : Int) {left : Nat} (attempt : Nat) (hs : Dead s) (hleft : left ≠ 0) :
    (doLoop operation interrupted maxAttempts left attempt s).2 ≠ none := by
  intro hok
  obtain ⟨last, s', hs', hlast, -⟩ := doLoop_ok interrupted
    (fun attempt s hs => (hdead attempt s hs).1) maxAttempts attempt hs hleft hok
  exact (hdead last s' hs').2 hlast

/-- **A loop whose failures change nothing or are final**: if it succeeds, all its attempts were
    made on the first state, and all but the last left it as it was. -/
theorem doLoop_ok_of_dead
    (hdead : ∀ attempt s, Dead s → Dead (operation attempt s).1 ∧ (operation attempt s).2 ≠ none)
    (hfail : ∀ attempt s, (operation attempt s).2 ≠ none →
      (operation attempt s).1 = s ∨ Dead (operation attempt s).1) (maxAttempts : Int) {left : Nat}
    (attempt : Nat) (hleft : left ≠ 0)
    (hok : (doLoop operation interrupted maxAttempts left attempt s).2 = none) :
    ∃ last, Made operation interrupted left attempt s last s ∧
      operation last s = ((doLoop operation interrupted maxAttempts left attempt s).1, none) ∧
      ∀ i t, Made operation interrupted left attempt s i t →
        t = s ∧ (i = last ∨ (operation i s).1 = s) := by
  induction left generalizing attempt with
  | zero => exact absurd rfl hleft
  | succ left ih =>
    have hnext := hfail attempt s
    unfold doLoop at hok ⊢
    split
    · rename_i s' hop
      -- the attempt succeeds, so it is the only one
      refine ⟨attempt, .here, hop, fun i t hmade => ?_⟩
      cases hmade with
      | here => exact ⟨rfl, .inl rfl⟩
      | later hfails =>
        rw [hop] at hfails
        cases hfails
    · rename_i s' err hop
      rw [hop] at hok hnext
      dsimp only at hok
      split at hok
      · cases hok
      · rename_i hmore
        rw [if_neg hmore]
        split at hok
        · cases hok
        · rename_i hgoes
          -- a failure that is final leaves no attempt that could succeed
          rcases hnext (by simp) with hsame | hdies
          · dsimp only at hsame
            subst hsame
            obtain ⟨last, hlast, hlastOk, hall⟩ := ih (attempt + 1) hmore hok
            refine ⟨last, .later hop hmore hgoes hlast, hlastOk, fun i t hmade => ?_⟩
            cases hmade with
            | here => exact ⟨rfl, .inr (by rw [hop])⟩
            | later hfails _ _ hmade =>
              rw [hop] at hfails
              cases hfails
              exact hall i t hmade
          · exact absurd hok (doLoop_of_dead hdead maxAttempts (attempt + 1) hdies hmore)

theorem startupDo_ok_of_dead
    (hdead : ∀ attempt s, Dead s → Dead (operation attempt s).1 ∧ (operation attempt s).2 ≠ none)
    (hfail : ∀ attempt s, (operation attempt s).2 ≠ none →
      (operation attempt s).1 = s ∨ Dead (operation attempt s).1) {cfg : Config}
    (hok : (startupDo operation interrupted cfg s).2 = none) :
    ∃ last, Made operation interrupted cfg.withDefaults.maxAttempts.toNat 1 s last s ∧
      operation last s = ((startupDo operation interrupted cfg s).1, none) ∧
      ∀ i t, Made operation interrupted cfg.withDefaults.maxAttempts.toNat 1 s i t →
        t = s ∧ (i = last ∨ (operation i s).1 = s) :=
  doLoop_ok_of_dead hdead hfail _ 1 cfg.withDefaults_pos hok

end Do

end ServiceRuntime.Startup
