import Mathlib

/-!
# A Level That Is Earned and Spent

A stock that earns over time, cannot grow over a cap, and is spent one unit at a time.
`refill` earns, `spend` takes a unit if there is one. These are the operations of a token
bucket without its clock.
-/

namespace ServiceRuntime.Quota

universe u

variable {K : Type u} [Field K] [LinearOrder K] {cap gain level : K}

/-- The level after earning `gain`, up to `cap`. -/
def refill (cap gain level : K) : K := min cap (level + gain)

def spend (level : K) : K := if 1 ≤ level then level - 1 else level

def payout (level : K) : K := if 1 ≤ level then 1 else 0

theorem refill_le_cap : refill cap gain level ≤ cap := min_le_left _ _

theorem refill_le_add : refill cap gain level ≤ level + gain := min_le_right _ _

theorem refill_zero (h : level ≤ cap) : refill cap 0 level = level := by
  rw [refill, add_zero, min_eq_right h]

theorem refill_of_cap_le (h : cap ≤ level + gain) : refill cap gain level = cap := min_eq_left h

theorem payout_add_spend (level : K) : payout level + spend level = level := by
  unfold payout spend
  split
  · ring
  · ring

variable [IsStrictOrderedRing K]

theorem payout_add_le {found after : K} (hafter : after ≤ spend found) (hfound : found ≤ level) :
    payout found + after ≤ level :=
  calc payout found + after ≤ payout found + spend found := by gcongr
    _ = found := payout_add_spend found
    _ ≤ level := hfound

theorem refill_nonneg (hcap : 0 ≤ cap) (hgain : 0 ≤ gain) (hlevel : 0 ≤ level) :
    0 ≤ refill cap gain level := le_min hcap (add_nonneg hlevel hgain)

theorem refill_mono {cap' gain' : K} (hcap : cap ≤ cap') (hgain : gain ≤ gain') :
    refill cap gain level ≤ refill cap' gain' level :=
  min_le_min hcap (add_le_add le_rfl hgain)

theorem refill_add_le {later : K} (h : 0 ≤ later) :
    refill cap (gain + later) level ≤ refill cap gain level + later := by
  unfold refill
  rw [← min_add_add_right]
  exact le_min (le_trans (min_le_left _ _) (le_add_of_nonneg_right h))
    (le_trans (min_le_right _ _) (le_of_eq (add_assoc _ _ _).symm))

theorem spend_nonneg (h : 0 ≤ level) : 0 ≤ spend level := by
  unfold spend
  split
  · linarith
  · exact h

theorem spend_le : spend level ≤ level := by
  unfold spend
  split
  · linarith
  · exact le_refl _

end ServiceRuntime.Quota
