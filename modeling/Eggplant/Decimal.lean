import Eggplant.Lib.Scaled

/-!
# Decimals

A sign, a 96-bit mantissa and a scale of at most 28. The operations of the decimal library
are a parameter, `Documented` is what the crate relies on, and `DecimalLib.loops` behaves so.
-/
namespace Eggplant

set_option autoImplicit false

open Eggplant.Lib

structure Decimal where
  negative : Bool
  mantissa : Nat
  scale : Nat
  mantissa_lt : mantissa < 2 ^ 96
  scale_le : scale ≤ 28
  deriving DecidableEq

namespace Decimal

theorem zero_mantissa_lt : 0 < 2 ^ 96 := by decide

theorem zero_scale_le : 0 ≤ 28 := by decide

/-- `Decimal::ZERO`. -/
def zero : Decimal := ⟨false, 0, 0, zero_mantissa_lt, zero_scale_le⟩

/-- `mantissa()`: the signed mantissa. -/
def signed (d : Decimal) : Int := if d.negative then -d.mantissa else d.mantissa

def value (d : Decimal) : ℚ := d.signed / 10 ^ d.scale

theorem value_eq (d : Decimal) :
    d.value = if d.negative then -Scaled.value d.mantissa d.scale
      else Scaled.value d.mantissa d.scale := by
  unfold value signed Scaled.value
  split
  · push_cast
    exact neg_div _ _
  · rfl

theorem value_eq_zero_iff (d : Decimal) : d.value = 0 ↔ d.mantissa = 0 := by
  rw [value_eq]
  unfold Scaled.value
  split <;> simp

/-- A value that is not negative is that of its mantissa. -/
theorem of_nonneg {d : Decimal} (h : 0 ≤ d.value) :
    d.signed = d.mantissa ∧ d.value = Scaled.value d.mantissa d.scale := by
  rw [value_eq] at h
  rw [value_eq]
  unfold signed
  split
  next hneg =>
    rw [if_pos hneg] at h
    have hzero : Scaled.value d.mantissa d.scale = 0 :=
      le_antisymm (by linarith) Scaled.value_nonneg
    have hmantissa : d.mantissa = 0 := by
      unfold Scaled.value at hzero
      simpa using hzero
    rw [hzero, hmantissa]
    exact ⟨rfl, neg_zero⟩
  next => exact ⟨rfl, rfl⟩

theorem of_neg {d : Decimal} (h : d.value < 0) :
    d.signed = -d.mantissa ∧ 0 < d.mantissa ∧ d.value = -Scaled.value d.mantissa d.scale := by
  have hne : d.mantissa ≠ 0 := fun hzero => absurd ((value_eq_zero_iff d).mpr hzero) (ne_of_lt h)
  rw [value_eq] at h
  rw [value_eq]
  unfold signed
  split
  next => exact ⟨rfl, Nat.pos_of_ne_zero hne, rfl⟩
  next hneg =>
    rw [if_neg hneg] at h
    exact absurd Scaled.value_nonneg (not_le.mpr h)

theorem value_lt (d : Decimal) : d.value < (2 ^ 96 : ℕ) := by
  have hle : Scaled.value d.mantissa d.scale ≤ d.mantissa :=
    div_le_self (Nat.cast_nonneg _) (one_le_pow₀ (by norm_num))
  have hlt : (d.mantissa : ℚ) < (2 ^ 96 : ℕ) := by exact_mod_cast d.mantissa_lt
  have hnonneg : 0 ≤ Scaled.value d.mantissa d.scale := Scaled.value_nonneg
  rw [value_eq]
  split
  · linarith
  · linarith

/-- A positive decimal is at least one in its last possible place. -/
theorem le_value_of_pos {d : Decimal} (h : 0 < d.value) : (1 : ℚ) / 10 ^ 28 ≤ d.value := by
  have hvalue := (of_nonneg h.le).2
  have hmantissa : (1 : ℚ) ≤ d.mantissa := by
    have hne : d.mantissa ≠ 0 := fun hzero => absurd ((value_eq_zero_iff d).mpr hzero) (ne_of_gt h)
    exact_mod_cast Nat.pos_of_ne_zero hne
  rw [hvalue]
  unfold Scaled.value
  have hscale : (10 : ℚ) ^ d.scale ≤ 10 ^ 28 := pow_le_pow_right₀ (by norm_num) d.scale_le
  gcongr

end Decimal

/-- `mul` is `*`, which panics on overflow (`none`); `display` prints. -/
structure DecimalLib where
  normalize : Decimal → Decimal
  truncWithScale : Decimal → Nat → Decimal
  mul : Decimal → Decimal → Option Decimal
  display : Decimal → String

namespace DecimalLib

structure Documented (lib : DecimalLib) : Prop where
  /-- Stripping trailing zeros keeps the value. -/
  normalize_value : ∀ d, (lib.normalize d).value = d.value
  /-- Down to the target scale the mantissa is divided by ten, with truncation. -/
  trunc_drop : ∀ d n, n ≤ d.scale →
    (lib.truncWithScale d n).signed = d.signed.tdiv (10 ^ (d.scale - n))
  /-- Up to the target scale it is multiplied by ten, as long as it does not overflow. -/
  trunc_append : ∀ d n, d.scale ≤ n → n ≤ 28 → ∃ k, d.scale + k ≤ n ∧
    (lib.truncWithScale d n).signed = d.signed * 10 ^ k ∧ d.mantissa * 10 ^ k < 2 ^ 96 ∧
      (d.scale + k = n ∨ 2 ^ 96 ≤ d.mantissa * 10 ^ (k + 1))

/-! ## The operations as loops -/

/-- The mantissa and the scale without trailing zeros. -/
def stripZeros : Nat → Nat → Nat × Nat
  | m, 0 => (m, 0)
  | m, s + 1 => if m % 10 = 0 then stripZeros (m / 10) s else (m, s + 1)

theorem stripZeros_spec (m s : Nat) :
    ∃ k, m = (stripZeros m s).1 * 10 ^ k ∧ s = (stripZeros m s).2 + k := by
  induction s generalizing m with
  | zero => exact ⟨0, (Nat.mul_one m).symm, rfl⟩
  | succ s ih =>
    rw [stripZeros]
    split
    next hzero =>
      obtain ⟨k, hm, hs⟩ := ih (m / 10)
      refine ⟨k + 1, ?_, by omega⟩
      rw [pow_succ, ← Nat.mul_assoc, ← hm]
      omega
    next => exact ⟨0, (Nat.mul_one m).symm, rfl⟩

/-- The mantissa with at most so many zeros appended, and how many were. -/
def appendZeros : Nat → Nat → Nat × Nat
  | m, 0 => (m, 0)
  | m, k + 1 =>
    if m * 10 < 2 ^ 96 then ((appendZeros (m * 10) k).1, (appendZeros (m * 10) k).2 + 1) else (m, 0)

theorem appendZeros_spec {m : Nat} (room : Nat) (hm : m < 2 ^ 96) :
    (appendZeros m room).2 ≤ room ∧ (appendZeros m room).1 = m * 10 ^ (appendZeros m room).2 ∧
      (appendZeros m room).1 < 2 ^ 96 ∧
      ((appendZeros m room).2 = room ∨ 2 ^ 96 ≤ m * 10 ^ ((appendZeros m room).2 + 1)) := by
  induction room generalizing m with
  | zero => exact ⟨Nat.le_refl 0, (Nat.mul_one m).symm, hm, .inl rfl⟩
  | succ room ih =>
    rw [appendZeros]
    split
    next hfits =>
      obtain ⟨hle, heq, hlt, hstop⟩ := ih hfits
      have hpow (j : Nat) : m * 10 * 10 ^ j = m * 10 ^ (j + 1) := by
        rw [pow_succ, Nat.mul_assoc, Nat.mul_comm 10]
      refine ⟨Nat.succ_le_succ hle, heq.trans (hpow _), hlt, ?_⟩
      rw [hpow] at hstop
      exact hstop.imp_left (congrArg (· + 1))
    next hover =>
      refine ⟨Nat.zero_le _, (Nat.mul_one m).symm, hm, .inr ?_⟩
      simpa using hover

/-- The mantissa without its last digits. -/
def dropDigits (m k : Nat) : Nat := (· / 10)^[k] m

theorem dropDigits_eq (m k : Nat) : dropDigits m k = m / 10 ^ k := by
  induction k with
  | zero => exact (Nat.div_one m).symm
  | succ k ih =>
    rw [dropDigits, Function.iterate_succ_apply', ← dropDigits, ih, Nat.div_div_eq_div_mul, pow_succ]

def loopNormalize (d : Decimal) : Decimal where
  negative := d.negative
  mantissa := (stripZeros d.mantissa d.scale).1
  scale := (stripZeros d.mantissa d.scale).2
  mantissa_lt := by
    obtain ⟨k, hm, -⟩ := stripZeros_spec d.mantissa d.scale
    have hle : (stripZeros d.mantissa d.scale).1 ≤ d.mantissa :=
      (Nat.le_mul_of_pos_right _ (Nat.pow_pos (by decide : 0 < 10))).trans_eq hm.symm
    exact Nat.lt_of_le_of_lt hle d.mantissa_lt
  scale_le := by
    obtain ⟨k, -, hs⟩ := stripZeros_spec d.mantissa d.scale
    have hscale := d.scale_le
    omega

def loopTrunc (d : Decimal) (n : Nat) : Decimal :=
  if h : n ≤ d.scale then
    { negative := d.negative
      mantissa := dropDigits d.mantissa (d.scale - n)
      scale := n
      mantissa_lt := by
        rw [dropDigits_eq]
        exact Nat.lt_of_le_of_lt (Nat.div_le_self _ _) d.mantissa_lt
      scale_le := Nat.le_trans h d.scale_le }
  else
    { negative := d.negative
      mantissa := (appendZeros d.mantissa (min n 28 - d.scale)).1
      scale := d.scale + (appendZeros d.mantissa (min n 28 - d.scale)).2
      mantissa_lt := (appendZeros_spec _ d.mantissa_lt).2.2.1
      scale_le := by
        have hroom := (appendZeros_spec (min n 28 - d.scale) d.mantissa_lt).1
        have hscale := d.scale_le
        omega }

/-- Products that need no rounding. -/
def exactMul (a b : Decimal) : Option Decimal :=
  if h : a.mantissa * b.mantissa < 2 ^ 96 ∧ a.scale + b.scale ≤ 28 then
    some ⟨a.negative != b.negative, a.mantissa * b.mantissa, a.scale + b.scale, h.1, h.2⟩
  else none

/-- The digits with the point at the scale. -/
def text (d : Decimal) : String :=
  let frac := toString (d.mantissa % 10 ^ d.scale)
  (if d.negative then "-" else "") ++ toString (d.mantissa / 10 ^ d.scale) ++
    if d.scale = 0 then "" else "." ++ "".pushn '0' (d.scale - frac.length) ++ frac

def loops : DecimalLib := ⟨loopNormalize, loopTrunc, exactMul, text⟩

theorem loops_documented : loops.Documented where
  normalize_value := fun d => by
    obtain ⟨k, hm, hs⟩ := stripZeros_spec d.mantissa d.scale
    have hvalue : Scaled.value (loopNormalize d).mantissa (loopNormalize d).scale =
        Scaled.value d.mantissa d.scale := by
      have hnumerator : (d.mantissa : ℚ) = (loopNormalize d).mantissa * 10 ^ k := by
        exact_mod_cast hm
      have hdenominator : (10 : ℚ) ^ d.scale = 10 ^ (loopNormalize d).scale * 10 ^ k := by
        rw [← pow_add]
        exact congrArg (fun e => (10 : ℚ) ^ e) hs
      unfold Scaled.value
      rw [hnumerator, hdenominator, mul_div_mul_right _ _ (by positivity)]
    show (loopNormalize d).value = d.value
    rw [Decimal.value_eq, Decimal.value_eq, hvalue]
    rfl
  trunc_drop := fun d n hn => by
    have hdiv : ((d.mantissa / 10 ^ (d.scale - n) : ℕ) : Int) =
        (d.mantissa : Int).tdiv (10 ^ (d.scale - n)) := by
      rw [Int.ofNat_tdiv]
      push_cast
      rfl
    show (loopTrunc d n).signed = _
    rw [loopTrunc, dif_pos hn]
    unfold Decimal.signed
    simp only [dropDigits_eq]
    split
    · rw [hdiv, Int.neg_tdiv]
    · exact hdiv
  trunc_append := fun d n hn hmax => by
    have hroom : min n 28 - d.scale = n - d.scale := by omega
    obtain ⟨hle, heq, hlt, hstop⟩ := appendZeros_spec (min n 28 - d.scale) d.mantissa_lt
    rw [hroom] at hle heq hlt hstop
    by_cases hsame : n ≤ d.scale
    · -- nothing to append
      have hscale : n = d.scale := Nat.le_antisymm hsame hn
      refine ⟨0, by omega, ?_, by simpa using d.mantissa_lt, .inl (by omega)⟩
      show (loopTrunc d n).signed = _
      rw [loopTrunc, dif_pos hsame]
      simp only [Decimal.signed, dropDigits_eq, hscale, Nat.sub_self, pow_zero, Nat.div_one, mul_one]
    · refine ⟨_, by omega, ?_, heq ▸ hlt, by omega⟩
      show (loopTrunc d n).signed = _
      rw [loopTrunc, dif_neg hsame]
      unfold Decimal.signed
      simp only [hroom, heq]
      push_cast
      split
      · exact (neg_mul _ _).symm
      · rfl

end DecimalLib

end Eggplant
