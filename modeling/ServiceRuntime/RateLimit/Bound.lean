import ServiceRuntime.RateLimit.Limiter

/-!
# How Much the In-Memory Limiter Admits

The tokens of a bucket are a stock: a request earns the time since the last one at the rate
that was in force, and pays out at most what is there. A change of policy cuts the stock and
never adds to it. Over a block of requests this bounds the number of admitted ones by the
burst at its start and what was earned along it.
-/

namespace ServiceRuntime.RateLimit

open Quota Transition

/-! ## The time between two instants -/

/-- The seconds from `u` to `t`, however long that is. -/
def secondsBetween (t u : Int) : ℚ := ((t - u : Int) : ℚ) / 1000000000

theorem secondsBetween_self (t : Int) : secondsBetween t t = 0 := by
  simp [secondsBetween]

theorem elapsedSeconds_le {t u : Int} (h : u ≤ t) : elapsedSeconds t u ≤ secondsBetween t u := by
  unfold elapsedSeconds secondsBetween
  have hsub : (GoTime.sub t u).ns ≤ t - u := by
    rw [GoTime.sub, GoTime.Duration.saturate_ns]
    omega
  have hcast : ((GoTime.sub t u).ns : ℚ) ≤ ((t - u : Int) : ℚ) := by exact_mod_cast hsub
  exact div_le_div_of_nonneg_right hcast (by norm_num)

theorem secondsBetween_nonneg {t u : Int} (h : u ≤ t) : 0 ≤ secondsBetween t u :=
  (elapsedSeconds_nonneg h).trans (elapsedSeconds_le h)

/-! ## The invariant of a bucket -/

/-- The tokens are between zero and the burst, and the rate does not drain them. -/
structure TokenBucket.Sound (tb : TokenBucket) : Prop where
  rate_nonneg : 0 ≤ tb.rate
  tokens_nonneg : 0 ≤ tb.tokens
  tokens_le_burst : tb.tokens ≤ tb.burst

theorem levelFor_mem_Icc {policy : Policy} (now : Int) {entry : Option Entry}
    (hburst : 1 ≤ policy.burst) (hentry : ∀ e, entry = some e → e.limiter.Sound) :
    0 ≤ levelFor policy now entry ∧ levelFor policy now entry ≤ policy.burst := by
  have hcap : (0 : ℚ) ≤ policy.burst := by exact_mod_cast (by omega : 0 ≤ policy.burst)
  cases entry with
  | none =>
    rw [levelFor_none]
    exact ⟨hcap, le_refl _⟩
  | some e =>
    have he := hentry e rfl
    have hgain : 0 ≤ elapsedSeconds (e.limiter.notBefore now) e.limiter.lastTime * e.limiter.rate :=
      mul_nonneg (elapsedSeconds_nonneg (e.limiter.lastTime_le_notBefore now)) he.rate_nonneg
    by_cases hsame : e.limiter.rate = policy.requestsPerSecond ∧ e.limiter.burst = policy.burst
    · rw [levelFor_same policy now hsame.1 hsame.2, ← hsame.1]
      exact ⟨refill_nonneg hcap hgain he.tokens_nonneg, refill_le_cap⟩
    · rw [levelFor_changed policy now (not_and_or.mp hsame)]
      have hold : (0 : ℚ) ≤ e.limiter.burst := le_trans he.tokens_nonneg he.tokens_le_burst
      exact ⟨le_min hcap (refill_nonneg hold hgain he.tokens_nonneg), min_le_left _ _⟩

theorem levelFor_le_earned (policy : Policy) (now : Int) {e : Entry} (hrate : 0 ≤ e.limiter.rate) :
    levelFor policy now (some e) ≤
      e.limiter.tokens +
        secondsBetween (reachedFor policy now (some e)) e.limiter.lastTime * e.limiter.rate := by
  rw [reachedFor_some]
  have helapsed := mul_le_mul_of_nonneg_right
    (elapsedSeconds_le (e.limiter.lastTime_le_notBefore now)) hrate
  refine le_trans ?_ (add_le_add_right helapsed _)
  by_cases hsame : e.limiter.rate = policy.requestsPerSecond ∧ e.limiter.burst = policy.burst
  · rw [levelFor_same policy now hsame.1 hsame.2, ← hsame.1]
    exact refill_le_add
  · rw [levelFor_changed policy now (not_and_or.mp hsame)]
    exact le_trans (min_le_right _ _) refill_le_add

theorem serve_sound {policy : Policy} {now : Int} {entry : Option Entry}
    (hrate : 0 < policy.requestsPerSecond) (hburst : 1 ≤ policy.burst)
    (hentry : ∀ e, entry = some e → e.limiter.Sound) :
    (serve policy now entry).1.limiter.Sound := by
  obtain ⟨hnonneg, hle⟩ := levelFor_mem_Icc now hburst hentry
  rw [serve_limiter]
  exact ⟨le_of_lt hrate, spend_nonneg hnonneg, le_trans spend_le hle⟩

/-! ## The account of a block of requests -/

def admittedBy (entries : Entries) (r : Request) : ℚ := if (answer entries r).1 then 1 else 0

theorem admittedBy_eq_payout (entries : Entries) (r : Request) :
    admittedBy entries r = payout (levelFor r.policy r.now (entries r.bucketKey)) := by
  unfold admittedBy payout
  rw [answer_eq, serve_allowed]
  simp only [decide_eq_true_eq]

def admitted (entries : Entries) (block : List Request) : ℚ :=
  limiter.total admittedBy entries block

/-- The rate in force before a request times the increase of `lastTime` in it. A request that
    creates the bucket earns nothing. -/
def earnedBy (bucketKey : String) (entries : Entries) (r : Request) : ℚ :=
  match entries bucketKey, (allowLocal entries r.policy r.key r.now).1 bucketKey with
  | some e, some e' => e.limiter.rate * secondsBetween e'.limiter.lastTime e.limiter.lastTime
  | _, _ => 0

def earned (bucketKey : String) (entries : Entries) (block : List Request) : ℚ :=
  limiter.total (earnedBy bucketKey) entries block

/-- The burst in force at the start of the block: that of the first request for a new bucket. -/
def burstAtStart (bucketKey : String) (entries : Entries) (block : List Request) : Int :=
  match entries bucketKey, block with
  | some e, _ => e.limiter.burst
  | none, r :: _ => r.policy.burst
  | none, [] => 0

/-- The tokens of the bucket, none if there is no bucket. -/
def tokensAt (bucketKey : String) (entries : Entries) : ℚ :=
  ((entries bucketKey).map fun e => e.limiter.tokens).getD 0

variable {bucketKey : String} {entries : Entries}

theorem tokensAt_of_some {e : Entry} (he : entries bucketKey = some e) :
    tokensAt bucketKey entries = e.limiter.tokens := by
  rw [tokensAt, he]
  rfl

def SoundAt (bucketKey : String) (entries : Entries) : Prop :=
  ∀ e, entries bucketKey = some e → e.limiter.Sound

def HasSound (bucketKey : String) (entries : Entries) : Prop :=
  ∃ e, entries bucketKey = some e ∧ e.limiter.Sound

theorem HasSound.soundAt (h : HasSound bucketKey entries) : SoundAt bucketKey entries := by
  obtain ⟨e, he, hsound⟩ := h
  intro e' he'
  rw [he, Option.some.injEq] at he'
  exact he' ▸ hsound

theorem SoundAt.tokensAt_nonneg (h : SoundAt bucketKey entries) :
    0 ≤ tokensAt bucketKey entries := by
  cases he : entries bucketKey with
  | none => rw [tokensAt, he, Option.map_none, Option.getD_none]
  | some e =>
    rw [tokensAt_of_some he]
    exact (h e he).tokens_nonneg

section Account

variable {bucketKey : String} {entries entries' : Entries} {r : Request}

theorem hasSound_step (hentry : SoundAt bucketKey entries)
    (hr : r.Positive ∧ r.bucketKey = bucketKey) (hstep : limiter.step entries r = some entries') :
    HasSound bucketKey entries' := by
  obtain ⟨hpos, rfl⟩ := hr
  obtain rfl := limiter_step hstep
  exact ⟨_, allowLocal_self entries r, serve_sound hpos.1 hpos.2 hentry⟩

/-- **One request pays out of the stock and of what it earns.** -/
theorem admittedBy_add_tokensAt_le (hsound : HasSound bucketKey entries)
    (hkey : r.bucketKey = bucketKey) (hstep : limiter.step entries r = some entries') :
    admittedBy entries r + tokensAt bucketKey entries' ≤
      tokensAt bucketKey entries + earnedBy bucketKey entries r := by
  subst hkey
  obtain rfl := limiter_step hstep
  obtain ⟨e, he, hsound⟩ := hsound
  have hself := allowLocal_self entries r
  rw [admittedBy_eq_payout, tokensAt_of_some hself, tokensAt_of_some he, earnedBy, hself, he]
  simp only [serve_limiter, payout_add_spend, mul_comm e.limiter.rate]
  exact levelFor_le_earned r.policy r.now hsound.rate_nonneg

theorem admittedBy_add_tokensAt_of_none (hnone : entries bucketKey = none)
    (hkey : r.bucketKey = bucketKey) (hstep : limiter.step entries r = some entries') :
    admittedBy entries r + tokensAt bucketKey entries' = r.policy.burst := by
  subst hkey
  obtain rfl := limiter_step hstep
  rw [admittedBy_eq_payout, tokensAt_of_some (allowLocal_self entries r), serve_limiter,
    payout_add_spend, hnone, levelFor_none]

variable {block : List Request}

/-- **A block of requests pays out of the stock and of what it earns.** -/
theorem admitted_add_tokensAt_le (hsound : HasSound bucketKey entries)
    (hblock : ∀ r ∈ block, r.Positive ∧ r.bucketKey = bucketKey)
    (hrun : limiter.run entries block = some entries') :
    admitted entries block + tokensAt bucketKey entries' ≤
      tokensAt bucketKey entries + earned bucketKey entries block := by
  refine System.total_le (HasSound bucketKey) (fun r => r.Positive ∧ r.bucketKey = bucketKey)
    (tokensAt bucketKey) ?_ ?_ hsound hblock hrun
  · intro s r s' hs hr hstep
    exact hasSound_step hs.soundAt hr hstep
  · intro s r s' hs hr hstep
    exact admittedBy_add_tokensAt_le hs hr.2 hstep

/-- A bucket that requests have used has the policy of the last one. -/
theorem hasSound_of_getLast (hentry : SoundAt bucketKey entries)
    (hblock : ∀ r ∈ block, r.Positive ∧ r.bucketKey = bucketKey)
    (hrun : limiter.run entries block = some entries') (hlast : block.getLast? = some r) :
    ∃ e, entries' bucketKey = some e ∧ e.limiter.rate = r.policy.requestsPerSecond ∧
      e.limiter.burst = r.policy.burst ∧ e.limiter.Sound := by
  induction block generalizing entries with
  | nil => cases hlast
  | cons r₀ block ih =>
    obtain ⟨middle, hstep, hrest⟩ := limiter.run_cons_eq_some.mp hrun
    have hr₀ := hblock r₀ List.mem_cons_self
    have hmiddle := hasSound_step hentry hr₀ hstep
    -- the last request has set the policy
    cases block with
    | nil =>
      obtain rfl : r₀ = r := Option.some.inj hlast
      obtain rfl : middle = entries' := Option.some.inj hrest
      obtain ⟨e, he, hsound⟩ := hmiddle
      have hserved := he
      rw [limiter_step hstep, ← hr₀.2, allowLocal_self, Option.some.injEq] at hserved
      refine ⟨e, he, ?_, ?_, hsound⟩
      · rw [← hserved, serve_limiter]
      · rw [← hserved, serve_limiter]
    | cons r₁ block =>
      exact ih hmiddle.soundAt (fun r' hr' => hblock r' (List.mem_cons_of_mem _ hr')) hrest hlast

theorem SoundAt.run (hentry : SoundAt bucketKey entries)
    (hblock : ∀ r ∈ block, r.Positive ∧ r.bucketKey = bucketKey)
    (hrun : limiter.run entries block = some entries') : SoundAt bucketKey entries' := by
  cases hlast : block.getLast? with
  | none =>
    rw [List.getLast?_eq_none_iff] at hlast
    subst hlast
    exact Option.some.inj hrun ▸ hentry
  | some r =>
    obtain ⟨e, he, _, _, hsound⟩ := hasSound_of_getLast hentry hblock hrun hlast
    exact HasSound.soundAt ⟨e, he, hsound⟩

/-- Requests from before the bucket's last instant earn nothing. -/
theorem earned_eq_zero {e : Entry} (he : entries bucketKey = some e)
    (hblock : ∀ r ∈ block, r.bucketKey = bucketKey)
    (hpast : ∀ r ∈ block, r.now ≤ e.limiter.lastTime) : earned bucketKey entries block = 0 := by
  induction block generalizing entries e with
  | nil => rfl
  | cons r block ih =>
    have hr : r.bucketKey = bucketKey := hblock r List.mem_cons_self
    subst hr
    have hself := allowLocal_self entries r
    -- the clock of the bucket stays where it is
    have hsame : (serve r.policy r.now (entries r.bucketKey)).1.limiter.lastTime =
        e.limiter.lastTime := by
      have hnow := hpast r List.mem_cons_self
      rw [serve_limiter, he, reachedFor_some, TokenBucket.notBefore]
      dsimp only
      split <;> omega
    have hrest : earned r.bucketKey (allowLocal entries r.policy r.key r.now).1 block = 0 := by
      refine ih hself (fun r' hr' => hblock r' (List.mem_cons_of_mem _ hr')) fun r' hr' => ?_
      rw [hsame]
      exact hpast r' (List.mem_cons_of_mem _ hr')
    have hfirst : earnedBy r.bucketKey entries r = 0 := by
      rw [earnedBy, hself, he]
      simp only
      rw [← he, hsame, secondsBetween_self, mul_zero]
    rw [earned, System.total_cons rfl, hfirst, zero_add]
    exact hrest

/-- A block admits at most the burst at its start and what is earned along it. -/
theorem admitted_le_of_soundAt (hentry : SoundAt bucketKey entries)
    (hblock : ∀ r ∈ block, r.Positive ∧ r.bucketKey = bucketKey)
    (hrun : limiter.run entries block = some entries') :
    admitted entries block ≤
      burstAtStart bucketKey entries block + earned bucketKey entries block := by
  have hleft : 0 ≤ tokensAt bucketKey entries' := (hentry.run hblock hrun).tokensAt_nonneg
  cases he : entries bucketKey with
  | some e =>
    have haccount := admitted_add_tokensAt_le ⟨e, he, hentry e he⟩ hblock hrun
    have hcap := (hentry e he).tokens_le_burst
    have hburst : burstAtStart bucketKey entries block = e.limiter.burst := by
      simp only [burstAtStart, he]
    rw [tokensAt_of_some he] at haccount
    rw [hburst]
    linarith
  | none =>
    cases block with
    | nil => simp [admitted, earned, burstAtStart, he]
    | cons r block =>
      -- the first request creates the bucket, the others draw on it
      obtain ⟨middle, hstep, hrest⟩ := limiter.run_cons_eq_some.mp hrun
      have hr := hblock r List.mem_cons_self
      have hcreate := admittedBy_add_tokensAt_of_none he hr.2 hstep
      have haccount := admitted_add_tokensAt_le (hasSound_step hentry hr hstep)
        (fun r' hr' => hblock r' (List.mem_cons_of_mem _ hr')) hrest
      have hnothing : earnedBy bucketKey entries r = 0 := by
        rw [earnedBy, he]
      have hburst : burstAtStart bucketKey entries (r :: block) = r.policy.burst := by
        simp only [burstAtStart, he]
      rw [admitted, earned, System.total_cons hstep, System.total_cons hstep, hnothing, hburst]
      change admittedBy entries r + admitted middle block ≤
        r.policy.burst + (0 + earned bucketKey middle block)
      linarith

end Account

/-! ## The bound -/

/-- **The limiter admits no more than a burst and what the bucket earns.** For every sequence
    of requests on one bucket key, with any timestamps and any positive policies, and every
    block at its end:

    - the tokens are between zero and the burst of the last request
    - the block admits at most the burst at its start and what is earned along it
    - a block that brings no new time takes from the tokens that were there, however the
      policies change -/
theorem admitted_le_burst_add_earned (bucketKey : String) (before block : List Request)
    (hreq : ∀ r ∈ before ++ block, r.Positive ∧ r.bucketKey = bucketKey) {start final : Entries}
    (hbefore : limiter.run (fun _ => none) before = some start)
    (hblock : limiter.run start block = some final) :
    (∀ r, (before ++ block).getLast? = some r →
      ∃ e, final bucketKey = some e ∧ e.limiter.rate = r.policy.requestsPerSecond ∧
        e.limiter.burst = r.policy.burst ∧ 0 ≤ e.limiter.tokens ∧
        e.limiter.tokens ≤ e.limiter.burst) ∧
    admitted start block ≤ burstAtStart bucketKey start block + earned bucketKey start block ∧
    (∀ e, start bucketKey = some e → (∀ r ∈ block, r.now ≤ e.limiter.lastTime) →
      admitted start block + tokensAt bucketKey final ≤ e.limiter.tokens) := by
  have hempty : SoundAt bucketKey (fun _ => none) := fun e he => by cases he
  -- the bucket at the start of the block is one that requests have left
  have hstart := hempty.run (fun r hr => hreq r (List.mem_append_left _ hr)) hbefore
  have hreqBlock : ∀ r ∈ block, r.Positive ∧ r.bucketKey = bucketKey :=
    fun r hr => hreq r (List.mem_append_right _ hr)
  refine ⟨?_, admitted_le_of_soundAt hstart hreqBlock hblock, ?_⟩
  · intro r hr
    have hrun : limiter.run (fun _ => none) (before ++ block) = some final := by
      rw [System.run_append, hbefore]
      exact hblock
    obtain ⟨e, he, hrate, hburst, hsound⟩ := hasSound_of_getLast hempty hreq hrun hr
    exact ⟨e, he, hrate, hburst, hsound.tokens_nonneg, hsound.tokens_le_burst⟩
  -- a bucket never goes back in time, so such a block earns nothing
  · intro e he hpast
    have haccount := admitted_add_tokensAt_le ⟨e, he, hstart e he⟩ hreqBlock hblock
    rwa [earned_eq_zero he (fun r hr => (hreqBlock r hr).2) hpast, add_zero,
      tokensAt_of_some he] at haccount

/-- The bound for a caller that drains a bucket of two and then switches between policies. -/
theorem admitted_le_of_switching :
    let wide : Policy := ⟨1, 2, "global"⟩
    let narrow : Policy := ⟨5, 1, "global"⟩
    let key := localBucketKey "global" "caller"
    let block : List Request := [⟨narrow, "caller", 7⟩, ⟨wide, "caller", 7⟩]
    ∃ start final, limiter.run (fun _ => none) [⟨wide, "caller", 7⟩, ⟨wide, "caller", 7⟩] = some start ∧
      limiter.run start block = some final ∧
      admitted start block ≤ burstAtStart key start block + earned key start block := by
  intro wide narrow key block
  obtain ⟨start, hstart⟩ : ∃ start, limiter.run (fun _ => none)
      [⟨wide, "caller", 7⟩, ⟨wide, "caller", 7⟩] = some start := Option.isSome_iff_exists.mp rfl
  obtain ⟨final, hfinal⟩ : ∃ final, limiter.run start block = some final :=
    Option.isSome_iff_exists.mp rfl
  exact ⟨start, final, hstart, hfinal,
    (admitted_le_burst_add_earned key _ block (by decide +kernel) hstart hfinal).2.1⟩

end ServiceRuntime.RateLimit
