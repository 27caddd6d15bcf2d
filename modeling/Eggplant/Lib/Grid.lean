import Mathlib.Algebra.Order.Floor.Ring
import Mathlib.Order.Bounds.Basic

/-!
# Flooring to a grid

The multiples of a step, and the largest of them that is not above a value.
-/
namespace Eggplant.Lib.Grid

set_option autoImplicit false

variable {K : Type} [Field K] [LinearOrder K] [FloorRing K]

def OnGrid (step s : K) : Prop := ∃ k : ℤ, s = k * step

def floorTo (step x : K) : K := ⌊x / step⌋ * step

variable {step x s : K}

theorem onGrid_floorTo : OnGrid step (floorTo step x) := ⟨_, rfl⟩

variable [IsStrictOrderedRing K]

theorem floorTo_le (h : 0 < step) : floorTo step x ≤ x := by
  rw [floorTo, ← le_div_iff₀ h]
  exact Int.floor_le _

/-- A grid value is below the floor when it is below the value itself. -/
theorem le_floorTo (h : 0 < step) (hs : OnGrid step s) (hle : s ≤ x) : s ≤ floorTo step x := by
  obtain ⟨k, rfl⟩ := hs
  have hk : k ≤ ⌊x / step⌋ := Int.le_floor.mpr ((le_div_iff₀ h).mpr hle)
  exact mul_le_mul_of_nonneg_right (Int.cast_le.mpr hk) h.le

/-- With a least value as well, the floor is the greatest or there is none. -/
theorem isGreatest_floorTo_from {least : K} (h : 0 < step) :
    IsGreatest {s | OnGrid step s ∧ least ≤ s ∧ s ≤ x} s ↔
      least ≤ floorTo step x ∧ s = floorTo step x := by
  constructor
  · intro hs
    obtain ⟨⟨hgrid, hleast, hle⟩, hmax⟩ := hs
    have hfloor := hleast.trans (le_floorTo h hgrid hle)
    refine ⟨hfloor, le_antisymm (le_floorTo h hgrid hle) ?_⟩
    exact hmax ⟨onGrid_floorTo, hfloor, floorTo_le h⟩
  · intro hs
    obtain ⟨hleast, rfl⟩ := hs
    exact ⟨⟨onGrid_floorTo, hleast, floorTo_le h⟩, fun _ ht => le_floorTo h ht.1 ht.2.2⟩

theorem exists_onGrid_iff {least : K} (h : 0 < step) :
    (∃ s, OnGrid step s ∧ least ≤ s ∧ s ≤ x) ↔ least ≤ floorTo step x := by
  constructor
  · intro hs
    obtain ⟨s, hgrid, hleast, hle⟩ := hs
    exact hleast.trans (le_floorTo h hgrid hle)
  · intro hleast
    exact ⟨_, onGrid_floorTo, hleast, floorTo_le h⟩

end Eggplant.Lib.Grid
