import Eggplant.Decimal
import Eggplant.Error

/-!
# Order amounts

`to_fixed_usdc` reads a mantissa without looking at the scale it came out with. It is the
floor of the amount in millionths exactly where six places fit the mantissa; above that it
is the floor at fewer places, and a loss below a millionth is zero.
-/
namespace Eggplant.Clob

set_option autoImplicit false

open Eggplant.Lib Eggplant.Lib.Scaled

def usdcDecimals : Nat := 6

section
variable (lib : DecimalLib)

/-- `u128::try_from` fails on negative mantissas only. -/
def toFixedUsdc (d : Decimal) : Except Error Nat :=
  let mantissa := (lib.truncWithScale (lib.normalize d) usdcDecimals).signed
  if 0 ≤ mantissa then .ok mantissa.toNat
  else .error (.invalidData ("amount out of range for order: " ++ lib.display d))

variable {lib} (hlib : lib.Documented)
include hlib

/-- The mantissa that comes out: the amount's floor at six places, or at as many as fit. -/
theorem trunc_signed {d : Decimal} {sign : Int} (hsign : sign = 1 ∨ sign = -1)
    (hsigned : d.signed = sign * d.mantissa) :
    (lib.truncWithScale d usdcDecimals).signed = sign *
      (⌊Scaled.value d.mantissa d.scale *
        10 ^ reach (2 ^ 96) usdcDecimals (Scaled.value d.mantissa d.scale)⌋₊ : Int) := by
  by_cases hscale : usdcDecimals ≤ d.scale
  · rw [hlib.trunc_drop d usdcDecimals hscale, hsigned, reach_of_le d.mantissa_lt hscale,
      ← div_pow_eq_floor hscale, Int.ofNat_tdiv]
    push_cast
    rcases hsign with rfl | rfl
    · rw [one_mul, one_mul]
    · rw [neg_one_mul, neg_one_mul, Int.neg_tdiv]
  · obtain ⟨k, hle, hmantissa, hfits, hstop⟩ :=
      hlib.trunc_append d usdcDecimals (by omega) (by decide)
    rw [← floor_at_reach hle hfits hstop, hmantissa, hsigned]
    push_cast
    exact mul_assoc _ _ _

theorem toFixedUsdc_of_nonneg {d : Decimal} (h : 0 ≤ d.value) :
    toFixedUsdc lib d = .ok ⌊d.value * 10 ^ reach (2 ^ 96) usdcDecimals d.value⌋₊ := by
  rw [← hlib.normalize_value] at h ⊢
  obtain ⟨hsigned, hvalue⟩ := Decimal.of_nonneg h
  have hmantissa := trunc_signed hlib (.inl rfl) (hsigned.trans (one_mul _).symm)
  rw [one_mul, ← hvalue] at hmantissa
  unfold toFixedUsdc
  simp only [hmantissa]
  rw [if_pos (Int.natCast_nonneg _), Int.toNat_natCast]

/-- A negative amount is refused, unless less than a millionth is owed. -/
theorem toFixedUsdc_of_neg {d : Decimal} (h : d.value < 0) :
    (∃ e, toFixedUsdc lib d = .error e) ↔ d.value * 10 ^ 6 ≤ -1 := by
  rw [← hlib.normalize_value] at h ⊢
  obtain ⟨hsigned, -, hvalue⟩ := Decimal.of_neg h
  have hmantissa := trunc_signed hlib (.inr rfl) (hsigned.trans (neg_one_mul _).symm)
  rw [← neg_eq_iff_eq_neg.mpr hvalue] at hmantissa
  have howed : 0 < ⌊-(lib.normalize d).value *
      10 ^ reach (2 ^ 96) usdcDecimals (-(lib.normalize d).value)⌋₊ ↔
        (lib.normalize d).value * 10 ^ 6 ≤ -1 := by
    rw [Nat.floor_pos, one_le_at_reach_iff (neg_nonneg.mpr h.le) (by norm_num), neg_mul, le_neg]
    rfl
  rw [← howed]
  unfold toFixedUsdc
  simp only [hmantissa]
  split
  next hin =>
    constructor
    · intro herr
      obtain ⟨e, he⟩ := herr
      cases he
    · intro hpos
      omega
  next hout => exact ⟨fun _ => by omega, fun _ => ⟨_, rfl⟩⟩

end

/-- What an amount should come to: its floor in millionths, or an error when it is negative. -/
def AmountExact (lib : DecimalLib) (d : Decimal) : Prop :=
  (0 ≤ d.value → ⌊d.value * 10 ^ 6⌋₊ < 2 ^ 128 → toFixedUsdc lib d = .ok ⌊d.value * 10 ^ 6⌋₊) ∧
    (d.value < 0 → ∃ e, toFixedUsdc lib d = .error e)

/-- An amount is exact when its six-decimal mantissa fits 96 bits, and a loss when it is at
least a millionth. -/
theorem to_fixed_usdc_exact_iff (lib : DecimalLib) (hlib : lib.Documented) (d : Decimal) :
    AmountExact lib d ↔ d.value * 10 ^ 6 ≤ -1 ∨ 0 ≤ d.value ∧ d.value * 10 ^ 6 < 2 ^ 96 := by
  unfold AmountExact
  rcases lt_or_ge d.value 0 with hneg | hnonneg
  · rw [toFixedUsdc_of_neg hlib hneg]
    constructor
    · intro h
      exact .inl (h.2 hneg)
    · intro h
      refine ⟨fun hnonneg => absurd hneg (not_lt.mpr hnonneg), fun _ => ?_⟩
      rcases h with hloss | ⟨hnonneg, -⟩
      · exact hloss
      · exact absurd hneg (not_lt.mpr hnonneg)
  · have hbound : ((2 ^ 96 : ℕ) : ℚ) = 2 ^ 96 := by norm_num
    have hwide : ⌊d.value * 10 ^ 6⌋₊ < 2 ^ 128 := by
      have hlt := d.value_lt
      rw [Nat.floor_lt (by positivity)]
      push_cast
      linarith
    rw [toFixedUsdc_of_nonneg hlib hnonneg]
    constructor
    · intro h
      have hexact := Except.ok.inj (h.1 hnonneg hwide)
      refine .inr ⟨hnonneg, ?_⟩
      by_contra hlarge
      -- what came out fits 96 bits, the floor does not
      have hlow : ⌊d.value * 10 ^ reach (2 ^ 96) usdcDecimals d.value⌋₊ < 2 ^ 96 :=
        (Nat.floor_lt (by positivity)).mpr (mul_reach_lt d.value_lt)
      have hhigh : 2 ^ 96 ≤ ⌊d.value * 10 ^ 6⌋₊ :=
        (Nat.le_floor_iff (by positivity)).mpr (hbound ▸ not_lt.mp hlarge)
      omega
    · intro h
      refine ⟨fun _ _ => ?_, fun hneg => absurd hneg (not_lt.mpr hnonneg)⟩
      rcases h with hloss | ⟨-, hfits⟩
      · linarith
      · have hsix : reach (2 ^ 96) usdcDecimals d.value = usdcDecimals :=
          (reach_eq_cap_iff hnonneg d.value_lt).mpr (hbound ▸ hfits)
        rw [hsix]
        rfl

/-- Half a millionth owed, and the largest decimal. -/
def dust : Decimal := ⟨true, 5, 7, by decide, by decide⟩

def largest : Decimal := ⟨false, 2 ^ 96 - 1, 0, by decide, by decide⟩

theorem to_fixed_usdc_exact_iff_largest :
    AmountExact .loops largest ↔
      largest.value * 10 ^ 6 ≤ -1 ∨ 0 ≤ largest.value ∧ largest.value * 10 ^ 6 < 2 ^ 96 :=
  to_fixed_usdc_exact_iff .loops DecimalLib.loops_documented largest

theorem dust_not_refused :
    ¬∀ (lib : DecimalLib), lib.Documented → ∀ d : Decimal, AmountExact lib d := by
  intro h
  have hneg : dust.value < 0 := by decide +kernel
  obtain ⟨e, he⟩ := (h .loops DecimalLib.loops_documented dust).2 hneg
  have hok : toFixedUsdc .loops dust = .ok 0 := by decide +kernel
  rw [hok] at he
  cases he

end Eggplant.Clob
