import Mathlib

/-!
# Evenly spread phases

A circle of `period` points and `slots` phases on it, phase `k` at the share
`(k + 1) / slots` of the circle, rounded down. Phases that are `m` slots apart both ways
round are as far apart as the share of `m` slots, rounded down.
-/
namespace Eggplant.Lib.Phases

set_option autoImplicit false

/-- The shorter way between two points of a circle. -/
def circularDist (period a b : Nat) : Nat :=
  min (((a : Int) - b) % period).toNat (((b : Int) - a) % period).toNat

/-- The share of `m` slots, rounded down. -/
def share (period slots m : Nat) : Nat := period * m / slots

/-- The point of slot `k`. -/
def phase (period slots k : Nat) : Nat := share period slots (k + 1)

variable {period slots : Nat}

theorem circularDist_comm (a b : Nat) : circularDist period a b = circularDist period b a :=
  min_comm _ _

/-- Two points apart on the circle are different points of it. -/
theorem ne_of_circularDist_pos {a b : Nat} (h : 0 < circularDist period a b) :
    a % period ≠ b % period := by
  intro heq
  have hint : (a : Int) % period = (b : Int) % period := by exact_mod_cast heq
  have hzero : ((a : Int) - b) % period = 0 := Int.emod_eq_emod_iff_emod_sub_eq_zero.mp hint
  unfold circularDist at h
  rw [hzero] at h
  simp at h

/-- A gap that leaves `d` points both ways round is a distance of `d`. -/
theorem le_circularDist {a b d : Nat} (hlow : b + d ≤ a) (hhigh : a + d ≤ b + period) :
    d ≤ circularDist period a b := by
  rcases Nat.eq_zero_or_pos d with rfl | hd
  · exact Nat.zero_le _
  · have hforth : ((a : Int) - b) % period = a - b := Int.emod_eq_of_lt (by omega) (by omega)
    have hback : ((b : Int) - a) % period = b - a + period := by
      rw [← Int.add_emod_right]
      exact Int.emod_eq_of_lt (by omega) (by omega)
    unfold circularDist
    rw [hforth, hback]
    omega

theorem share_mono {m n : Nat} (h : m ≤ n) : share period slots m ≤ share period slots n :=
  Nat.div_le_div_right (Nat.mul_le_mul_left period h)

theorem share_slots (h : 0 < slots) : share period slots slots = period :=
  Nat.mul_div_cancel period h

/-- Rounding down a sum loses no more than rounding down its parts. -/
theorem share_add_le (m n : Nat) :
    share period slots m + share period slots n ≤ share period slots (m + n) := by
  unfold share
  rw [Nat.mul_add]
  exact Nat.div_add_div_le_add_div

theorem share_add_slots (h : 0 < slots) (m : Nat) :
    share period slots (m + slots) = share period slots m + period := by
  unfold share
  rw [Nat.mul_add, Nat.add_mul_div_right _ _ h]

/-- One of `r` equal groups of slots has one `r`-th of the circle. -/
theorem share_group {n : Nat} (hn : 0 < n) (r : Nat) : share period (n * r) n = period / r := by
  unfold share
  rw [Nat.mul_comm period, Nat.mul_div_mul_left _ _ hn]

theorem phase_le (h : 0 < slots) {k : Nat} (hk : k < slots) : phase period slots k ≤ period :=
  (share_mono hk).trans_eq (share_slots h)

theorem share_one_pos (h : 0 < slots) (hle : slots ≤ period) : 0 < share period slots 1 := by
  unfold share
  rw [Nat.mul_one]
  exact Nat.div_pos hle h

theorem phase_pos (h : 0 < slots) (hle : slots ≤ period) (k : Nat) : 0 < phase period slots k :=
  (share_one_pos h hle).trans_le (share_mono (Nat.le_add_left 1 k))

/-- Slots `m` apart both ways round have phases the share of `m` apart. -/
theorem share_le_circularDist {i j m : Nat} (hslots : 0 < slots) (hlow : i + m ≤ j)
    (hhigh : j + m ≤ i + slots) :
    share period slots m ≤ circularDist period (phase period slots j) (phase period slots i) := by
  have hup : phase period slots i + share period slots m ≤ phase period slots j :=
    (share_add_le _ _).trans (share_mono (by omega))
  have hround : phase period slots j + share period slots m ≤ phase period slots i + period := by
    unfold phase
    rw [← share_add_slots hslots]
    exact (share_add_le _ _).trans (share_mono (by omega))
  exact le_circularDist hup hround

end Eggplant.Lib.Phases
