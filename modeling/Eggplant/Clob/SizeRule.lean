import Eggplant.Lib.Grid
import Mathlib.Data.Rat.Floor

/-!
# The order size rule

A size is a multiple of a tenth of a share, and no smaller than the venue's minimum.
Decimals are exact rationals here.
-/
namespace Eggplant.Clob

set_option autoImplicit false

open Eggplant.Lib.Grid

/-- The venue's minimum order size in shares. -/
def minSize : ℚ := 5

/-- Granularity order sizes are floored to. -/
def sizeStep : ℚ := 1 / 10

def floorToSizeStep (size : ℚ) : ℚ := floorTo sizeStep size

/-- The cap before it is floored; a budget or a cost that is not positive disables the
cash cap. -/
def sizeCap (minAskSize maxSize maxCashDeploy costPerUnit : ℚ) : ℚ :=
  if 0 < maxCashDeploy ∧ 0 < costPerUnit then
    min (min minAskSize maxSize) (maxCashDeploy / costPerUnit)
  else min minAskSize maxSize

def computeOrderSize (minAskSize maxSize maxCashDeploy costPerUnit : ℚ) : Option ℚ :=
  let stepped := floorToSizeStep (sizeCap minAskSize maxSize maxCashDeploy costPerUnit)
  if minSize ≤ stepped then some stepped else none

/-- The sizes an order may have. -/
structure Admissible (minAskSize maxSize maxCashDeploy costPerUnit s : ℚ) : Prop where
  step : ∃ k : ℤ, s = k * sizeStep
  least : minSize ≤ s
  depth : s ≤ minAskSize
  size : s ≤ maxSize
  cash : 0 < maxCashDeploy → 0 < costPerUnit → s * costPerUnit ≤ maxCashDeploy

section
variable (minAskSize maxSize maxCashDeploy costPerUnit : ℚ)

theorem le_sizeCap_iff (s : ℚ) :
    s ≤ sizeCap minAskSize maxSize maxCashDeploy costPerUnit ↔
      s ≤ minAskSize ∧ s ≤ maxSize ∧
        (0 < maxCashDeploy → 0 < costPerUnit → s * costPerUnit ≤ maxCashDeploy) := by
  unfold sizeCap
  by_cases hcash : 0 < maxCashDeploy ∧ 0 < costPerUnit
  · obtain ⟨hbudget, hcost⟩ := hcash
    rw [if_pos ⟨hbudget, hcost⟩, le_min_iff, le_min_iff, le_div_iff₀ hcost, and_assoc]
    exact and_congr_right fun _ => and_congr_right fun _ =>
      ⟨fun h _ _ => h, fun h => h hbudget hcost⟩
  · rw [if_neg hcash, le_min_iff]
    exact and_congr_right fun _ =>
      ⟨fun h => ⟨h, fun hbudget hcost => absurd ⟨hbudget, hcost⟩ hcash⟩, fun h => h.1⟩

/-- The admissible sizes are the grid values between the minimum and the cap. -/
theorem admissible_iff (s : ℚ) :
    Admissible minAskSize maxSize maxCashDeploy costPerUnit s ↔
      OnGrid sizeStep s ∧ minSize ≤ s ∧
        s ≤ sizeCap minAskSize maxSize maxCashDeploy costPerUnit := by
  rw [le_sizeCap_iff]
  exact ⟨fun h => ⟨h.step, h.least, h.depth, h.size, h.cash⟩,
    fun h => ⟨h.1, h.2.1, h.2.2.1, h.2.2.2.1, h.2.2.2.2⟩⟩

end

/-- The computed size is the greatest admissible one, and there is one whenever any size
is admissible. -/
theorem computeOrderSize_greatest (minAskSize maxSize maxCashDeploy costPerUnit : ℚ) :
    (∀ s, computeOrderSize minAskSize maxSize maxCashDeploy costPerUnit = some s ↔
      IsGreatest {s | Admissible minAskSize maxSize maxCashDeploy costPerUnit s} s) ∧
    ((∃ s, computeOrderSize minAskSize maxSize maxCashDeploy costPerUnit = some s) ↔
      ∃ s, Admissible minAskSize maxSize maxCashDeploy costPerUnit s) := by
  have hstep : 0 < sizeStep := by
    rw [sizeStep]
    norm_num
  have hsome (s : ℚ) : computeOrderSize minAskSize maxSize maxCashDeploy costPerUnit = some s ↔
      minSize ≤ floorToSizeStep (sizeCap minAskSize maxSize maxCashDeploy costPerUnit) ∧
        s = floorToSizeStep (sizeCap minAskSize maxSize maxCashDeploy costPerUnit) := by
    unfold computeOrderSize
    by_cases hmin :
        minSize ≤ floorToSizeStep (sizeCap minAskSize maxSize maxCashDeploy costPerUnit)
    · simp only [if_pos hmin, Option.some.injEq]
      rw [and_iff_right hmin, eq_comm]
    · simp only [if_neg hmin]
      exact iff_of_false nofun fun h => hmin h.1
  constructor
  · intro s
    simp only [hsome, admissible_iff]
    exact (isGreatest_floorTo_from hstep).symm
  · simp only [hsome, admissible_iff]
    rw [exists_onGrid_iff hstep, exists_and_left, floorToSizeStep]
    exact and_iff_left ⟨_, rfl⟩

end Eggplant.Clob
