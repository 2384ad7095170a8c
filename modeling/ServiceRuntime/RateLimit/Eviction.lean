import ServiceRuntime.RateLimit.Bound

/-!
# Eviction of Idle Buckets

`cleanup` drops a bucket that has not been seen for `MaxAge`, and the next request of its key
gets a full one. Callers cannot tell if the dropped bucket would have been full as well, that
is, if a whole burst is earned in the shortest time after which a bucket can be dropped:
`MaxAge` and one nanosecond, as far as `Sub` counts. Otherwise some callers can.
-/

namespace ServiceRuntime.RateLimit

open GoTime Quota Transition

/-! ## The limiter with sweeps -/

/-- What happens to the limiter: a request for a key, or a round of `cleanup`. -/
inductive Event where
  | request (key : String) (now : Int)
  | sweep (now : Int)
  deriving DecidableEq

namespace Event

def now : Event → Int
  | request _ now => now
  | sweep now => now

def isRequest : Event → Bool
  | request _ _ => true
  | sweep _ => false

end Event

/-- Requests under one policy, and sweeps. -/
def sweeping (policy : Policy) (maxAge : Duration) : System Entries Event where
  init entries := entries = fun _ => none
  step entries
    | .request key now => some (allowLocal entries policy key now).1
    | .sweep now => some (cleanup maxAge entries now)

def decision (policy : Policy) (entries : Entries) : Event → Option Bool
  | .request key now => some (allowLocal entries policy key now).2.1
  | .sweep _ => none

/-- The decisions on the requests, in order. -/
def decisions (policy : Policy) (maxAge : Duration) (entries : Entries) (events : List Event) :
    List Bool :=
  (sweeping policy maxAge).trace (decision policy) entries events

section Decisions

variable (policy : Policy) (maxAge : Duration) (entries : Entries) (events : List Event)

theorem decisions_request (key : String) (now : Int) :
    decisions policy maxAge entries (.request key now :: events) =
      (allowLocal entries policy key now).2.1 ::
        decisions policy maxAge (allowLocal entries policy key now).1 events :=
  System.trace_cons rfl events

theorem decisions_sweep (now : Int) :
    decisions policy maxAge entries (.sweep now :: events) =
      decisions policy maxAge (cleanup maxAge entries now) events :=
  System.trace_cons rfl events

end Decisions

/-- A burst is earned in the shortest time after which a bucket can be dropped. -/
def RefillsWithin (policy : Policy) (maxAge : Duration) : Prop :=
  (policy.burst : ℚ) ≤ elapsedSeconds (maxAge.ns + 1) 0 * policy.requestsPerSecond

instance (policy : Policy) (maxAge : Duration) : Decidable (RefillsWithin policy maxAge) :=
  inferInstanceAs (Decidable (_ ≤ _))

/-! ## Buckets under a clock that does not step back -/

section OneKey

variable {policy : Policy} {clock now : Int} {e : Entry}

/-- A bucket that only requests under the policy have used, none of them later than `clock`. -/
structure Kept (policy : Policy) (clock : Int) (e : Entry) : Prop where
  rate : e.limiter.rate = policy.requestsPerSecond
  burst : e.limiter.burst = policy.burst
  lastTime : e.limiter.lastTime = e.lastSeen
  lastSeen_le : e.lastSeen ≤ clock
  tokens_nonneg : 0 ≤ e.limiter.tokens
  tokens_le : e.limiter.tokens ≤ policy.burst

theorem Kept.mono (h : Kept policy clock e) (hnow : clock ≤ now) : Kept policy now e :=
  { h with lastSeen_le := le_trans h.lastSeen_le hnow }

theorem Kept.levelFor_eq (h : Kept policy clock e) (hnow : clock ≤ now) :
    levelFor policy now (some e) =
      refill (policy.burst : ℚ) (elapsedSeconds now e.lastSeen * policy.requestsPerSecond)
        e.limiter.tokens := by
  have hreached : e.limiter.notBefore now = now := by
    refine TokenBucket.notBefore_of_le _ ?_
    rw [h.lastTime]
    exact le_trans h.lastSeen_le hnow
  rw [levelFor_same policy now h.rate h.burst, hreached, h.lastTime]

theorem Kept.reachedFor_eq (h : Kept policy clock e) (hnow : clock ≤ now) :
    reachedFor policy now (some e) = now := by
  rw [reachedFor_some]
  refine TokenBucket.notBefore_of_le _ ?_
  rw [h.lastTime]
  exact le_trans h.lastSeen_le hnow

/-- A bucket of the limiter, if there is one, is kept. -/
def KeptAt (policy : Policy) (clock : Int) (entry : Option Entry) : Prop :=
  ∀ e, entry = some e → Kept policy clock e

variable {entry : Option Entry}

theorem serve_of_keptAt (h : KeptAt policy clock entry) (hnow : clock ≤ now) :
    (serve policy now entry).1 =
      ⟨⟨policy.requestsPerSecond, policy.burst, spend (levelFor policy now entry), now⟩, now⟩ := by
  have hreached : reachedFor policy now entry = now := by
    cases entry with
    | none => exact reachedFor_none policy now
    | some e => exact (h e rfl).reachedFor_eq hnow
  have hlimiter := serve_limiter policy now entry
  rw [hreached] at hlimiter
  rw [← hlimiter]
  rfl

variable (hrate : 0 < policy.requestsPerSecond) (hburst : 1 ≤ policy.burst)
include hrate hburst

theorem levelFor_of_keptAt (h : KeptAt policy clock entry) (now : Int) :
    0 ≤ levelFor policy now entry ∧ levelFor policy now entry ≤ policy.burst := by
  refine levelFor_mem_Icc now hburst fun e he => ?_
  have hkept := h e he
  refine ⟨?_, hkept.tokens_nonneg, ?_⟩
  · rw [hkept.rate]
    exact le_of_lt hrate
  · rw [hkept.burst]
    exact hkept.tokens_le

theorem keptAt_serve (h : KeptAt policy clock entry) (hnow : clock ≤ now) :
    Kept policy now (serve policy now entry).1 := by
  obtain ⟨hnonneg, hle⟩ := levelFor_of_keptAt hrate hburst h now
  rw [serve_of_keptAt h hnow]
  exact ⟨rfl, rfl, rfl, le_refl _, spend_nonneg hnonneg, le_trans spend_le hle⟩

end OneKey

/-! ## Sweeps that nobody notices -/

/-- How the entry of a key with sweeps compares to the one without: the same, or dropped when
    the other is full again. -/
inductive Tracks (policy : Policy) (clock : Int) : Option Entry → Option Entry → Prop where
  | same {entry : Option Entry} (kept : KeptAt policy clock entry) : Tracks policy clock entry entry
  | dropped {e : Entry} (kept : Kept policy clock e)
      (full : (policy.burst : ℚ) ≤ e.limiter.tokens +
        elapsedSeconds clock e.lastSeen * policy.requestsPerSecond) :
      Tracks policy clock none (some e)

theorem Tracks.keptAt {policy : Policy} {clock : Int} {swept kept : Option Entry}
    (h : Tracks policy clock swept kept) : KeptAt policy clock swept := by
  cases h with
  | same hkept => exact hkept
  | dropped hkept hfull => exact fun e he => by cases he

section Sweeps

variable {policy : Policy} {maxAge : Duration} {clock now : Int}

theorem elapsedSeconds_mono {t u t' u' : Int} (h : t - u ≤ t' - u') :
    elapsedSeconds t u ≤ elapsedSeconds t' u' := by
  unfold elapsedSeconds
  have hsub : (GoTime.sub t u).ns ≤ (GoTime.sub t' u').ns := by
    simp only [GoTime.sub, Duration.saturate_ns]
    omega
  have hcast : ((GoTime.sub t u).ns : ℚ) ≤ (GoTime.sub t' u').ns := by exact_mod_cast hsub
  exact div_le_div_of_nonneg_right hcast (by norm_num)

theorem elapsedSeconds_split {t u v : Int} (huv : v ≤ u) (htu : u ≤ t) :
    elapsedSeconds t v ≤ elapsedSeconds u v + elapsedSeconds t u := by
  unfold elapsedSeconds
  have hsub : (GoTime.sub t v).ns ≤ (GoTime.sub u v).ns + (GoTime.sub t u).ns := by
    simp only [GoTime.sub, Duration.saturate_ns]
    omega
  have hcast : ((GoTime.sub t v).ns : ℚ) ≤ (GoTime.sub u v).ns + (GoTime.sub t u).ns := by
    exact_mod_cast hsub
  rw [← add_div]
  exact div_le_div_of_nonneg_right hcast (by norm_num)

variable (hrate : 0 < policy.requestsPerSecond)
include hrate

variable {kept swept : Option Entry}

theorem Tracks.mono (h : Tracks policy clock swept kept) (hnow : clock ≤ now) :
    Tracks policy now swept kept := by
  cases h with
  | same hkept => exact .same fun e he => (hkept e he).mono hnow
  | @dropped e hkept hfull =>
    refine .dropped (hkept.mono hnow) (le_trans hfull ?_)
    have hmore : elapsedSeconds clock e.lastSeen ≤ elapsedSeconds now e.lastSeen :=
      elapsedSeconds_mono (by omega)
    have := mul_le_mul_of_nonneg_right hmore (le_of_lt hrate)
    linarith

theorem Tracks.serve_eq (h : Tracks policy clock swept kept) (hnow : clock ≤ now) :
    levelFor policy now swept = levelFor policy now kept ∧
      (serve policy now swept).1 = (serve policy now kept).1 := by
  cases h.mono hrate hnow with
  | same hkept => exact ⟨rfl, rfl⟩
  | @dropped e hkept hfull =>
    have hlevel : levelFor policy now none = levelFor policy now (some e) := by
      rw [levelFor_none, hkept.levelFor_eq (le_refl _), refill_of_cap_le hfull]
    have hnone : KeptAt policy now none := fun e he => by cases he
    have hsome : KeptAt policy now (some e) := fun e' he' => Option.some.inj he' ▸ hkept
    refine ⟨hlevel, ?_⟩
    rw [serve_of_keptAt hnone (le_refl _), serve_of_keptAt hsome (le_refl _), hlevel]

/-- A sweep drops a bucket only when it is full again. -/
theorem Tracks.cleanup {entries : Entries} {key : String} (hrefill : RefillsWithin policy maxAge)
    (h : Tracks policy clock (entries key) kept) (hnow : clock ≤ now) :
    Tracks policy now (cleanup maxAge entries now key) kept := by
  have h' := h.mono hrate hnow
  generalize hentry : entries key = entry at h'
  cases h' with
  | same hkept =>
    cases kept with
    | none =>
      simp only [RateLimit.cleanup, hentry]
      exact .same hkept
    | some e =>
      simp only [RateLimit.cleanup, hentry]
      have he := hkept e rfl
      split
      · rename_i hold
        -- it has been idle for longer than `maxAge`, in which a burst is earned
        refine .dropped he (le_trans hrefill ?_)
        have hidle : elapsedSeconds (maxAge.ns + 1) 0 ≤ elapsedSeconds now e.lastSeen :=
          elapsedSeconds_mono (by omega)
        have := mul_le_mul_of_nonneg_right hidle (le_of_lt hrate)
        linarith [he.tokens_nonneg]
      · exact .same hkept
  | dropped hkept hfull =>
    simp only [RateLimit.cleanup, hentry]
    exact .dropped hkept hfull

variable (hburst : 1 ≤ policy.burst)
include hburst

/-- A request on both limiters: the same decision, and the comparison is kept. -/
theorem Tracks.allowLocal {swept kept : Entries}
    (h : ∀ key, Tracks policy clock (swept key) (kept key)) (hnow : clock ≤ now) (key : String) :
    (allowLocal swept policy key now).2.1 = (allowLocal kept policy key now).2.1 ∧
      ∀ key', Tracks policy now ((allowLocal swept policy key now).1 key')
        ((allowLocal kept policy key now).1 key') := by
  let r : Request := ⟨policy, key, now⟩
  have hsame := h r.bucketKey
  obtain ⟨hlevel, hentry⟩ := hsame.serve_eq hrate hnow
  refine ⟨?_, fun key' => ?_⟩
  · show (answer swept r).1 = (answer kept r).1
    rw [answer_eq, answer_eq, serve_allowed, serve_allowed, hlevel]
  · show Tracks policy now ((RateLimit.allowLocal swept r.policy r.key r.now).1 key')
      ((RateLimit.allowLocal kept r.policy r.key r.now).1 key')
    by_cases hkey : key' = r.bucketKey
    · rw [hkey, allowLocal_self, allowLocal_self, ← hentry]
      exact .same fun e he =>
        Option.some.inj he ▸ keptAt_serve hrate hburst hsame.keptAt hnow
    · rw [allowLocal_of_ne swept r hkey, allowLocal_of_ne kept r hkey]
      exact (h key').mono hrate hnow

/-- **Sweeps that nobody notices**: with a burst that refills in time, the decisions are those of
    the limiter without sweeps. -/
theorem decisions_eq_filter (hrefill : RefillsWithin policy maxAge) {swept kept : Entries}
    (h : ∀ key, Tracks policy clock (swept key) (kept key)) {events : List Event}
    (hclock : ∀ e ∈ events, clock ≤ e.now) (hsorted : (events.map Event.now).Pairwise (· ≤ ·)) :
    decisions policy maxAge swept events =
      decisions policy maxAge kept (events.filter Event.isRequest) := by
  induction events generalizing clock swept kept with
  | nil => rfl
  | cons e events ih =>
    have hnow := hclock e List.mem_cons_self
    rw [List.map_cons, List.pairwise_cons] at hsorted
    have hlater : ∀ e' ∈ events, e.now ≤ e'.now :=
      fun e' he' => hsorted.1 e'.now (List.mem_map_of_mem he')
    cases e with
    | request key now =>
      have hnow : clock ≤ now := hnow
      obtain ⟨hdecision, h'⟩ := Tracks.allowLocal hrate hburst h hnow key
      rw [List.filter_cons_of_pos rfl, decisions_request, decisions_request, hdecision,
        ih h' hlater hsorted.2]
    | sweep now =>
      rw [List.filter_cons_of_neg (by simp [Event.isRequest]), decisions_sweep]
      exact ih (fun key => (h key).cleanup hrate hrefill hnow) hlater hsorted.2

end Sweeps

/-! ## Sweeps that a caller notices -/

/-- A caller at `now` finds `level` tokens, in a bucket that is not from the future. -/
structure Finds (policy : Policy) (key : String) (now : Int) (entries : Entries) (level : ℚ) :
    Prop where
  kept : KeptAt policy now (entries (localBucketKey policy.scope key))
  level_eq : levelFor policy now (entries (localBucketKey policy.scope key)) = level

section Bursts

variable {policy : Policy} {maxAge : Duration} {key : String} {entries : Entries} {now : Int}
  {level : ℚ}

theorem Finds.allowed (h : Finds policy key now entries level) :
    (allowLocal entries policy key now).2.1 = decide (1 ≤ level) := by
  rw [← h.level_eq]
  exact serve_allowed policy now _

theorem finds_of_none (h : entries (localBucketKey policy.scope key) = none) :
    Finds policy key now entries policy.burst := by
  refine ⟨?_, ?_⟩
  · rw [h]
    exact fun e he => by cases he
  · rw [h, levelFor_none]

theorem finds_cleanup {later : Int} (hkept : KeptAt policy now (entries (localBucketKey policy.scope key)))
    (hlater : now + maxAge.ns < later) :
    Finds policy key later (cleanup maxAge entries later) policy.burst := by
  refine finds_of_none ?_
  unfold cleanup
  cases hentry : entries (localBucketKey policy.scope key) with
  | none => rfl
  | some e =>
    have := (hkept e hentry).lastSeen_le
    exact if_pos (by omega)

variable (hrate : 0 < policy.requestsPerSecond)
include hrate

/-- Waiting adds what the time earns. -/
theorem Finds.later {later : Int} (h : Finds policy key now entries level) (hlater : now ≤ later) :
    ∃ level', Finds policy key later entries level' ∧
      level' ≤ level + elapsedSeconds later now * policy.requestsPerSecond := by
  have hgain : 0 ≤ elapsedSeconds later now * policy.requestsPerSecond :=
    mul_nonneg (elapsedSeconds_nonneg hlater) (le_of_lt hrate)
  refine ⟨_, ⟨fun e he => (h.kept e he).mono hlater, rfl⟩, ?_⟩
  rw [← h.level_eq]
  have hkept := h.kept
  cases hentry : entries (localBucketKey policy.scope key) with
  | none =>
    rw [levelFor_none, levelFor_none]
    linarith
  | some e =>
    have he := hkept e hentry
    have hsplit : elapsedSeconds later e.lastSeen * policy.requestsPerSecond ≤
        elapsedSeconds now e.lastSeen * policy.requestsPerSecond +
          elapsedSeconds later now * policy.requestsPerSecond := by
      rw [← add_mul]
      exact mul_le_mul_of_nonneg_right (elapsedSeconds_split he.lastSeen_le hlater) hrate.le
    rw [he.levelFor_eq hlater, he.levelFor_eq (le_refl _)]
    exact (refill_mono le_rfl hsplit).trans (refill_add_le hgain)

variable (hburst : 1 ≤ policy.burst)
include hburst

theorem Finds.request (h : Finds policy key now entries level) (hlevel : 1 ≤ level) :
    Finds policy key now (allowLocal entries policy key now).1 (level - 1) := by
  have hself := allowLocal_self entries ⟨policy, key, now⟩
  have hkept := keptAt_serve hrate hburst h.kept (le_refl now)
  have hserve := serve_of_keptAt h.kept (le_refl now)
  have hspend : spend level = level - 1 := if_pos hlevel
  rw [h.level_eq, hspend] at hserve
  have hentry : (allowLocal entries policy key now).1 (localBucketKey policy.scope key) =
      some (serve policy now (entries (localBucketKey policy.scope key))).1 := hself
  refine ⟨?_, ?_⟩
  · rw [hentry]
    exact fun e he => Option.some.inj he ▸ hkept
  · have hle := hkept.tokens_le
    rw [hentry, hkept.levelFor_eq (le_refl _), hserve]
    rw [hserve] at hle
    dsimp only at hle ⊢
    rw [elapsedSeconds_self, zero_mul, refill_zero hle]

/-- Repeated requests at one instant are all allowed exactly when there are tokens for them. -/
theorem Finds.decisions_replicate (h : Finds policy key now entries level) (maxAge : Duration)
    (n : ℕ) :
    decisions policy maxAge entries (List.replicate n (.request key now)) =
        List.replicate n true ↔ n ≤ level := by
  induction n generalizing entries level with
  | zero =>
    have := (levelFor_of_keptAt hrate hburst h.kept now).1
    rw [h.level_eq] at this
    simpa [decisions] using this
  | succ n ih =>
    rw [List.replicate_succ, List.replicate_succ, decisions_request, h.allowed, List.cons.injEq,
      decide_eq_true_eq]
    push_cast
    constructor
    · rintro ⟨hone, hrest⟩
      have := (ih (h.request hrate hburst hone)).mp hrest
      linarith
    · intro hn
      have hone : 1 ≤ level := by linarith [Nat.cast_nonneg (α := ℚ) n]
      exact ⟨hone, (ih (h.request hrate hburst hone)).mpr (by linarith)⟩

theorem Finds.run_replicate (h : Finds policy key now entries level) (maxAge : Duration) {n : ℕ}
    (hn : n ≤ level) :
    ∃ entries', (sweeping policy maxAge).run entries (List.replicate n (.request key now)) =
      some entries' ∧ Finds policy key now entries' (level - n) := by
  induction n generalizing entries level with
  | zero => exact ⟨entries, rfl, by simpa using h⟩
  | succ n ih =>
    push_cast at hn
    have hone : 1 ≤ level := by linarith [Nat.cast_nonneg (α := ℚ) n]
    obtain ⟨entries', hrun, h'⟩ := ih (h.request hrate hburst hone) (by linarith)
    refine ⟨entries', hrun, ?_⟩
    have hsub : level - 1 - n = level - (n + 1 : ℕ) := by
      push_cast
      ring
    exact hsub ▸ h'

end Bursts

/-- A caller spends a burst, waits until the bucket is dropped, and spends a burst again. -/
def burstSweepBurst (policy : Policy) (maxAge : Duration) : List Event :=
  List.replicate policy.burst.toNat (.request "caller" 0) ++
    .sweep (maxAge.ns + 1) :: List.replicate policy.burst.toNat (.request "caller" (maxAge.ns + 1))

theorem pairwise_burst_sweep_burst (policy : Policy) {maxAge : Duration} (hage : 0 < maxAge.ns) :
    ((burstSweepBurst policy maxAge).map Event.now).Pairwise (· ≤ ·) := by
  simp only [burstSweepBurst, List.map_append, List.map_cons, List.map_replicate, Event.now,
    List.pairwise_append, List.pairwise_cons, List.pairwise_replicate, List.mem_replicate,
    List.mem_cons]
  refine ⟨.inr (le_refl _), ⟨?_, .inr (le_refl _)⟩, ?_⟩
  · rintro t ⟨-, rfl⟩
    exact le_refl _
  · rintro t ⟨-, rfl⟩ t' (rfl | ⟨-, rfl⟩)
    · omega
    · omega

/-- If that caller does not notice the sweep, a burst refills in time. -/
theorem refillsWithin_of_replicate {policy : Policy} {maxAge : Duration}
    (hrate : 0 < policy.requestsPerSecond) (hburst : 1 ≤ policy.burst) (hage : 0 < maxAge.ns)
    (hsame : decisions policy maxAge (fun _ => none) (burstSweepBurst policy maxAge) =
      decisions policy maxAge (fun _ => none)
        ((burstSweepBurst policy maxAge).filter Event.isRequest)) :
    RefillsWithin policy maxAge := by
  have hn : ((policy.burst.toNat : ℕ) : ℚ) = policy.burst := by
    have : ((policy.burst.toNat : ℕ) : Int) = policy.burst := Int.toNat_of_nonneg (by omega)
    exact_mod_cast this
  have hfull : Finds policy "caller" 0 (fun _ => none) policy.burst := finds_of_none rfl
  obtain ⟨entries, hrun, hempty⟩ := hfull.run_replicate hrate hburst maxAge (le_of_eq hn)
  -- with the sweep the second burst goes through
  have hswept : decisions policy maxAge entries
      (.sweep (maxAge.ns + 1) ::
        List.replicate policy.burst.toNat (.request "caller" (maxAge.ns + 1))) =
      List.replicate policy.burst.toNat true := by
    rw [decisions_sweep]
    exact ((finds_cleanup hempty.kept (by omega)).decisions_replicate hrate hburst _ _).mpr
      (le_of_eq hn)
  have hfilter : (burstSweepBurst policy maxAge).filter Event.isRequest =
      List.replicate policy.burst.toNat (.request "caller" 0) ++
        List.replicate policy.burst.toNat (.request "caller" (maxAge.ns + 1)) := by
    rw [burstSweepBurst, List.filter_append, List.filter_cons_of_neg (by simp [Event.isRequest]),
      List.filter_replicate_of_pos rfl, List.filter_replicate_of_pos rfl]
  rw [hfilter, burstSweepBurst, decisions, decisions, System.trace_append hrun,
    System.trace_append hrun, List.append_cancel_left_eq] at hsame
  -- so it does without, and the bucket has refilled by then
  have hkept : decisions policy maxAge entries
      (List.replicate policy.burst.toNat (.request "caller" (maxAge.ns + 1))) =
      List.replicate policy.burst.toNat true := hsame.symm.trans hswept
  obtain ⟨level, hfinds, hlevel⟩ := hempty.later hrate (by omega : 0 ≤ maxAge.ns + 1)
  have henough := (hfinds.decisions_replicate hrate hburst maxAge _).mp hkept
  rw [hn] at henough hlevel
  unfold RefillsWithin
  linarith

/-! ## When sweeps are unobservable -/

/-- **Sweeps are unobservable exactly when a burst refills within `MaxAge`.** The decisions on
    all requests are those of the run with the sweeps removed, for every sequence of requests and
    sweeps under a clock that does not step back, if and only if a burst is earned in the time
    after which a bucket can be dropped. -/
theorem sweeps_unobservable_iff (policy : Policy) (maxAge : Duration)
    (hrate : 0 < policy.requestsPerSecond) (hburst : 1 ≤ policy.burst) (hage : 0 < maxAge.ns) :
    (∀ events : List Event, (events.map Event.now).Pairwise (· ≤ ·) →
      decisions policy maxAge (fun _ => none) events =
        decisions policy maxAge (fun _ => none) (events.filter Event.isRequest)) ↔
    RefillsWithin policy maxAge := by
  constructor
  · intro hall
    exact refillsWithin_of_replicate hrate hburst hage
      (hall _ (pairwise_burst_sweep_burst policy hage))
  · intro hrefill events hsorted
    cases events with
    | nil => rfl
    | cons e events =>
      have hstart : ∀ key : String, Tracks policy e.now ((fun _ => none : Entries) key)
          ((fun _ => none : Entries) key) := fun key => .same fun e he => by cases he
      refine decisions_eq_filter hrate hburst hrefill hstart (fun e' he' => ?_) hsorted
      rw [List.map_cons, List.pairwise_cons] at hsorted
      cases he' with
      | head => exact le_refl _
      | tail _ he' => exact hsorted.1 e'.now (List.mem_map_of_mem he')

/-- The default configuration refills its burst of two hundred in two seconds and keeps buckets
    for five minutes. -/
theorem sweeps_unobservable_of_defaults :
    let cfg := Config.withDefaults ⟨0, 0, Duration.second⟩
    let maxAge : Duration := ⟨300 * Duration.second.ns, by decide, by decide⟩
    let policy : Policy := ⟨cfg.requestsPerSecond, cfg.burst, "global"⟩
    ∀ events : List Event, (events.map Event.now).Pairwise (· ≤ ·) →
      decisions policy maxAge (fun _ => none) events =
        decisions policy maxAge (fun _ => none) (events.filter Event.isRequest) :=
  (sweeps_unobservable_iff _ _ (by decide +kernel) (by decide +kernel) (by decide +kernel)).mpr
    (by decide +kernel)

/-- Two tokens at one per second, kept for one second: after a sweep the fourth request is
    allowed, without it refused. -/
theorem sweeps_observable :
    let policy : Policy := ⟨1, 2, "global"⟩
    let later := Duration.second.ns + 1
    let events : List Event := [.request "caller" 0, .request "caller" 0, .sweep later,
      .request "caller" later, .request "caller" later]
    (events.map Event.now).Pairwise (· ≤ ·) ∧
      decisions policy Duration.second (fun _ => none) events = [true, true, true, true] ∧
      decisions policy Duration.second (fun _ => none) (events.filter Event.isRequest) =
        [true, true, true, false] := by
  decide +kernel

end ServiceRuntime.RateLimit
