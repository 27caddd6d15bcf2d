import Mathlib

/-!
# Scaled integers with a bounded mantissa

A decimal is a mantissa below a bound over a power of ten. Rescaling it to a number of
places drops digits, or appends zeros while the mantissa stays below the bound. What comes
out is the floor of the value at the most places the bound leaves room for.
-/
namespace Eggplant.Lib.Scaled

set_option autoImplicit false

/-- The most places, up to `cap`, at which the value stays below the bound. -/
def reach (bound cap : ℕ) (v : ℚ) : ℕ := Nat.findGreatest (fun e => v * 10 ^ e < bound) cap

section
variable {bound cap : ℕ} {v : ℚ}

theorem reach_le : reach bound cap v ≤ cap := Nat.findGreatest_le cap

theorem le_reach {e : ℕ} (he : e ≤ cap) (h : v * 10 ^ e < bound) : e ≤ reach bound cap v :=
  Nat.le_findGreatest he h

theorem le_mul_of_reach_lt {e : ℕ} (h : reach bound cap v < e) (he : e ≤ cap) :
    (bound : ℚ) ≤ v * 10 ^ e :=
  not_lt.mp (Nat.findGreatest_is_greatest h he)

theorem mul_pow_mono (hv : 0 ≤ v) {e e' : ℕ} (h : e ≤ e') : v * 10 ^ e ≤ v * 10 ^ e' := by
  gcongr
  norm_num

/-- Places that fit, and are all or cannot grow, are the reach. -/
theorem reach_eq (hv : 0 ≤ v) {e : ℕ} (he : e ≤ cap) (hfits : v * 10 ^ e < bound)
    (hmax : e = cap ∨ (bound : ℚ) ≤ v * 10 ^ (e + 1)) : reach bound cap v = e := by
  apply Nat.le_antisymm _ (le_reach he hfits)
  rcases hmax with rfl | hmax
  · exact reach_le
  · by_contra hlt
    have hmore : e + 1 ≤ reach bound cap v := by omega
    have hin : v * 10 ^ reach bound cap v < bound :=
      Nat.findGreatest_of_ne_zero (m := reach bound cap v) rfl (by omega)
    exact absurd (lt_of_le_of_lt (mul_pow_mono hv hmore) hin) (not_lt.mpr hmax)

theorem mul_reach_lt (hbound : v < bound) : v * 10 ^ reach bound cap v < bound := by
  by_cases hzero : reach bound cap v = 0
  · rw [hzero, pow_zero, mul_one]
    exact hbound
  · exact Nat.findGreatest_of_ne_zero (m := reach bound cap v) rfl hzero

theorem reach_eq_cap_iff (hv : 0 ≤ v) (hbound : v < bound) :
    reach bound cap v = cap ↔ v * 10 ^ cap < bound := by
  constructor
  · intro h
    have hin : v * 10 ^ reach bound cap v < bound := mul_reach_lt hbound
    rwa [h] at hin
  · intro h
    exact reach_eq hv (Nat.le_refl cap) h (.inl rfl)

/-- A value large at all places is large at those it reaches. -/
theorem one_le_at_reach_iff (hv : 0 ≤ v) (hbound : 10 ≤ bound) :
    1 ≤ v * 10 ^ reach bound cap v ↔ 1 ≤ v * 10 ^ cap := by
  constructor
  · intro h
    exact h.trans (mul_pow_mono hv reach_le)
  · intro h
    have hle : reach bound cap v ≤ cap := reach_le
    rcases Nat.lt_or_eq_of_le hle with hlt | heq
    · have hnext := le_mul_of_reach_lt (Nat.lt_succ_self _) hlt
      have hten : (10 : ℚ) ≤ bound := by exact_mod_cast hbound
      rw [pow_succ, ← mul_assoc] at hnext
      linarith
    · rwa [heq]

end

/-- The value of a scaled integer. -/
def value (mantissa scale : ℕ) : ℚ := mantissa / 10 ^ scale

section
variable {bound cap m s : ℕ}

theorem value_nonneg : 0 ≤ value m s := by unfold value; positivity

theorem value_mul_pow (k : ℕ) : value m s * 10 ^ (s + k) = ((m * 10 ^ k : ℕ) : ℚ) := by
  unfold value
  rw [pow_add]
  push_cast
  field_simp

theorem value_mul_scale : value m s * 10 ^ s = (m : ℚ) := by
  unfold value
  field_simp

/-- Dropped digits: the floor at the target places. -/
theorem div_pow_eq_floor (h : cap ≤ s) : m / 10 ^ (s - cap) = ⌊value m s * 10 ^ cap⌋₊ := by
  have hpow : (10 : ℚ) ^ s = 10 ^ cap * 10 ^ (s - cap) := by
    rw [← pow_add, Nat.add_sub_cancel' h]
  have hvalue : value m s * 10 ^ cap = (m : ℚ) / ((10 ^ (s - cap) : ℕ) : ℚ) := by
    unfold value
    rw [hpow]
    push_cast
    field_simp
  rw [hvalue, Nat.floor_div_eq_div]

theorem reach_of_le (hm : m < bound) (h : cap ≤ s) : reach bound cap (value m s) = cap := by
  refine reach_eq value_nonneg (Nat.le_refl cap) ?_ (.inl rfl)
  have hfits : value m s * 10 ^ s < bound := by
    rw [value_mul_scale]
    exact_mod_cast hm
  exact lt_of_le_of_lt (mul_pow_mono value_nonneg h) hfits

/-- Appended zeros: they stop at the reach, and nothing is lost. -/
theorem reach_of_append {k : ℕ} (hle : s + k ≤ cap) (hfits : m * 10 ^ k < bound)
    (hstop : s + k = cap ∨ bound ≤ m * 10 ^ (k + 1)) : reach bound cap (value m s) = s + k := by
  refine reach_eq value_nonneg hle ?_ ?_
  · rw [value_mul_pow]
    exact_mod_cast hfits
  · refine hstop.imp_right fun hover => ?_
    rw [Nat.add_assoc, value_mul_pow]
    exact_mod_cast hover

/-- Below its last place a scaled integer is whole. -/
theorem floor_at_reach {k : ℕ} (hle : s + k ≤ cap) (hfits : m * 10 ^ k < bound)
    (hstop : s + k = cap ∨ bound ≤ m * 10 ^ (k + 1)) :
    m * 10 ^ k = ⌊value m s * 10 ^ reach bound cap (value m s)⌋₊ := by
  rw [reach_of_append hle hfits hstop, value_mul_pow, Nat.floor_natCast]

end

/-! ## Rounding down after a carry -/

section
variable {x g : ℚ}

/-- The floor of a sum stays at or below the first term exactly when the second does not
carry its fraction over. -/
theorem floor_add_le_iff : (⌊x + g⌋ : ℚ) ≤ x ↔ Int.fract x + g < 1 := by
  have hx := Int.floor_add_fract x
  rw [← Int.le_floor, Int.floor_le_iff]
  constructor
  · intro h
    linarith
  · intro h
    linarith

/-- The floor of a sum reaches the first term exactly when that is whole or the second
carries its fraction over. -/
theorem le_floor_add_iff (hg : 0 ≤ g) :
    x ≤ (⌊x + g⌋ : ℚ) ↔ Int.fract x = 0 ∨ 1 ≤ Int.fract x + g := by
  have hx := Int.floor_add_fract x
  constructor
  · intro h
    rcases eq_or_ne (Int.fract x) 0 with hzero | hne
    · exact .inl hzero
    · right
      by_contra hcarry
      have hle : (⌊x + g⌋ : ℚ) ≤ x := floor_add_le_iff.mpr (not_le.mp hcarry)
      have heq : x = (⌊x + g⌋ : ℚ) := le_antisymm h hle
      rw [heq, Int.fract_intCast] at hne
      exact hne rfl
  · intro h
    rcases h with hzero | hcarry
    · have hwhole : x = (⌊x⌋ : ℚ) := by linarith
      have hle : ⌊x⌋ ≤ ⌊x + g⌋ := Int.floor_le_floor (by linarith)
      have hcast : (⌊x⌋ : ℚ) ≤ (⌊x + g⌋ : ℚ) := by exact_mod_cast hle
      linarith
    · have hle : ⌊x⌋ + 1 ≤ ⌊x + g⌋ := by
        rw [Int.le_floor]
        push_cast
        linarith
      have hcast : ((⌊x⌋ + 1 : ℤ) : ℚ) ≤ (⌊x + g⌋ : ℚ) := by exact_mod_cast hle
      push_cast at hcast
      have hfract := Int.fract_lt_one x
      linarith

/-- Rounding down never costs a factor of ten. -/
theorem lt_floor_of_ten_mul_le {y : ℚ} (hy : 1 ≤ y) (h : 10 * x ≤ y) : x < ⌊y⌋ := by
  have hone : (1 : ℤ) ≤ ⌊y⌋ := Int.le_floor.mpr (by exact_mod_cast hy)
  have hcast : (1 : ℚ) ≤ ⌊y⌋ := by exact_mod_cast hone
  have hlt := Int.lt_floor_add_one y
  linarith

end

end Eggplant.Lib.Scaled
