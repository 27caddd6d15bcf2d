import Mathlib

/-!
# Complementary outcome claims

Exactly one outcome of `legs` wins. A NO claim pays one unit when its outcome
loses and a YES claim pays one unit when it wins. `merge` turns a NO and a YES of
one outcome into cash; `convert` burns NO over a set of outcomes, mints YES on the
others and pays out the difference.

The payoff of every outcome, cash included, is conserved by both operations, and
cash plus outstanding NO never grows. Together they bound what any sequence of
operations can free: `cash_le_value`. A convert no deeper than the largest net NO
position attains the bound step by step: `value_convert`.
-/
namespace Eggplant.Lib.CompleteSet

set_option autoImplicit false

variable {ι : Type*} [DecidableEq ι]

structure Position (ι : Type*) where
  no : ι → ℕ
  yes : ι → ℕ
  cash : ℕ

def Position.merge (s : Position ι) (i : ι) (a : ℕ) : Position ι where
  no := fun j => if j = i then s.no j - a else s.no j
  yes := fun j => if j = i then s.yes j - a else s.yes j
  cash := s.cash + a

def Position.convert (legs burned : Finset ι) (s : Position ι) (a : ℕ) : Position ι where
  no := fun j => if j ∈ burned then s.no j - a else s.no j
  yes := fun j => if j ∈ legs ∧ j ∉ burned then s.yes j + a else s.yes j
  cash := s.cash + (burned.card - 1) * a

inductive Step (legs : Finset ι) : Position ι → Position ι → Prop
  | merge (s : Position ι) (i : ι) (a : ℕ) (hi : i ∈ legs) (hn : a ≤ s.no i) (hy : a ≤ s.yes i) :
      Step legs s (s.merge i a)
  | convert (s : Position ι) (burned : Finset ι) (a : ℕ) (hsub : burned ⊆ legs)
      (hne : burned.Nonempty) (hn : ∀ i ∈ burned, a ≤ s.no i) :
      Step legs s (s.convert legs burned a)

def totalNo (legs : Finset ι) (s : Position ι) : ℕ := ∑ i ∈ legs, s.no i

/-- What the position is worth, cash included, if `w` wins. -/
def payoff (legs : Finset ι) (s : Position ι) (w : ι) : ℕ :=
  s.cash + ∑ i ∈ legs.erase w, s.no i + s.yes w

/-- The largest net NO position. -/
def depth (legs : Finset ι) (s : Position ι) : ℕ := legs.sup (fun i => s.no i - s.yes i)

/-- The collateral a position can free. -/
def value (legs : Finset ι) (s : Position ι) : ℕ := totalNo legs s - depth legs s

omit [DecidableEq ι] in
theorem depth_le_totalNo (legs : Finset ι) (s : Position ι) : depth legs s ≤ totalNo legs s := by
  apply Finset.sup_le
  intro i hi
  have h := Finset.single_le_sum (f := s.no) (fun j _ => Nat.zero_le _) hi
  exact (Nat.sub_le _ _).trans h

/-! ## What one operation does to the NO total -/

theorem sum_no_convert (s : Position ι) (legs burned : Finset ι) (a : ℕ) {t : Finset ι}
    (hsub : burned ⊆ t) (hn : ∀ i ∈ burned, a ≤ s.no i) :
    ∑ i ∈ t, s.no i = ∑ i ∈ t, (s.convert legs burned a).no i + burned.card * a := by
  have hpoint : ∀ i ∈ t, s.no i =
      (s.convert legs burned a).no i + (if i ∈ burned then a else 0) := by
    intro i _
    by_cases hb : i ∈ burned
    · have h := hn i hb
      simp only [Position.convert, if_pos hb]
      omega
    · simp only [Position.convert, if_neg hb, Nat.add_zero]
  rw [Finset.sum_congr rfl hpoint, Finset.sum_add_distrib, Finset.sum_ite_mem,
    Finset.inter_eq_right.mpr hsub, Finset.sum_const, smul_eq_mul]

theorem sum_no_merge (s : Position ι) {i : ι} {a : ℕ} {t : Finset ι} (hi : i ∈ t)
    (hn : a ≤ s.no i) : ∑ j ∈ t, s.no j = ∑ j ∈ t, (s.merge i a).no j + a := by
  have hpoint : ∀ j ∈ t, s.no j = (s.merge i a).no j + (if j = i then a else 0) := by
    intro j _
    by_cases hj : j = i
    · subst hj
      simp only [Position.merge, if_true]
      omega
    · simp only [Position.merge, if_neg hj, Nat.add_zero]
  rw [Finset.sum_congr rfl hpoint, Finset.sum_add_distrib, Finset.sum_ite_eq', if_pos hi]

theorem sum_no_merge_other (s : Position ι) {i : ι} (a : ℕ) {t : Finset ι} (hi : i ∉ t) :
    ∑ j ∈ t, (s.merge i a).no j = ∑ j ∈ t, s.no j := by
  apply Finset.sum_congr rfl
  intro j hj
  have hne : j ≠ i := fun h => hi (h ▸ hj)
  simp only [Position.merge, if_neg hne]

/-! ## Conservation -/

theorem payoff_merge {legs : Finset ι} (s : Position ι) {i : ι} {a : ℕ} (hi : i ∈ legs)
    (hn : a ≤ s.no i) (hy : a ≤ s.yes i) (w : ι) :
    payoff legs (s.merge i a) w = payoff legs s w := by
  unfold payoff
  by_cases hw : w = i
  · subst hw
    rw [sum_no_merge_other s a (Finset.notMem_erase w legs)]
    simp only [Position.merge, if_true]
    omega
  · have hsum := sum_no_merge s (Finset.mem_erase.mpr ⟨fun h => hw h.symm, hi⟩) hn
    simp only [Position.merge, if_neg hw] at hsum ⊢
    omega

/-- A winner inside the burned set loses its own NO claim, which pays nothing; a
winner outside gains the minted YES. Both cases balance the cash paid out. -/
theorem payoff_convert {legs burned : Finset ι} (s : Position ι) {a : ℕ} (hsub : burned ⊆ legs)
    (hne : burned.Nonempty) (hn : ∀ i ∈ burned, a ≤ s.no i) {w : ι} (hw : w ∈ legs) :
    payoff legs (s.convert legs burned a) w = payoff legs s w := by
  have hcard : (burned.card - 1) * a + a = burned.card * a := by
    rw [← Nat.succ_mul, Nat.succ_eq_add_one, Nat.sub_add_cancel hne.card_pos]
  unfold payoff
  by_cases hb : w ∈ burned
  · have hall := sum_no_convert s legs burned a hsub hn
    have hs := Finset.add_sum_erase legs s.no hw
    have hs' := Finset.add_sum_erase legs (s.convert legs burned a).no hw
    have hnw := hn w hb
    simp only [Position.convert, hb, not_true_eq_false, and_false, if_true, if_false] at hall hs' ⊢
    omega
  · have hsub' : burned ⊆ legs.erase w :=
      fun i hi => Finset.mem_erase.mpr ⟨fun h => hb (h ▸ hi), hsub hi⟩
    have hall := sum_no_convert s legs burned a hsub' hn
    simp only [Position.convert, hw, hb, not_false_eq_true, and_self, if_true] at hall ⊢
    omega

theorem step_payoff {legs : Finset ι} {s s' : Position ι} (h : Step legs s s') {w : ι}
    (hw : w ∈ legs) : payoff legs s' w = payoff legs s w := by
  cases h with
  | merge i a hi hn hy => exact payoff_merge s hi hn hy w
  | convert burned a hsub hne hn => exact payoff_convert s hsub hne hn hw

/-- Cash and outstanding NO together never grow. -/
theorem step_endowment {legs : Finset ι} {s s' : Position ι} (h : Step legs s s') :
    s'.cash + totalNo legs s' ≤ s.cash + totalNo legs s := by
  cases h with
  | merge i a hi hn hy =>
    have hsum := sum_no_merge s hi hn
    simp only [totalNo, Position.merge] at hsum ⊢
    omega
  | convert burned a hsub hne hn =>
    have hsum := sum_no_convert s legs burned a hsub hn
    have hcard : (burned.card - 1) * a ≤ burned.card * a :=
      Nat.mul_le_mul_right a (Nat.sub_le _ _)
    simp only [totalNo, Position.convert] at hsum ⊢
    omega

abbrev Run (legs : Finset ι) : Position ι → Position ι → Prop := Relation.ReflTransGen (Step legs)

theorem run_payoff {legs : Finset ι} {s s' : Position ι} (h : Run legs s s') {w : ι}
    (hw : w ∈ legs) : payoff legs s' w = payoff legs s w := by
  induction h with
  | refl => rfl
  | tail _ step ih => exact (step_payoff step hw).trans ih

theorem run_endowment {legs : Finset ι} {s s' : Position ι} (h : Run legs s s') :
    s'.cash + totalNo legs s' ≤ s.cash + totalNo legs s := by
  induction h with
  | refl => exact le_rfl
  | tail _ step ih => exact (step_endowment step).trans ih

/-- No sequence of operations frees more than the value of the starting position. -/
theorem cash_le_value {legs : Finset ι} {s s' : Position ι} (h : Run legs s s') :
    s'.cash ≤ s.cash + value legs s := by
  by_cases hd : depth legs s = 0
  · have he := run_endowment h
    unfold value
    omega
  · have hne : legs.Nonempty := by
      rw [Finset.nonempty_iff_ne_empty]
      rintro rfl
      exact hd rfl
    -- the outcome with the largest net NO position pays least
    obtain ⟨w, hw, hmax⟩ := Finset.exists_mem_eq_sup legs hne (fun i => s.no i - s.yes i)
    have hp := run_payoff h hw
    have hs := Finset.add_sum_erase legs s.no hw
    have hdw : depth legs s = s.no w - s.yes w := hmax
    simp only [payoff] at hp
    simp only [value, totalNo]
    omega

/-! ## Operations that lose nothing -/

theorem value_merge {legs : Finset ι} (s : Position ι) {i : ι} {a : ℕ} (hi : i ∈ legs)
    (hn : a ≤ s.no i) (hy : a ≤ s.yes i) : value legs (s.merge i a) + a = value legs s := by
  have hdepth : depth legs (s.merge i a) = depth legs s := by
    apply Finset.sup_congr rfl
    intro j _
    by_cases hj : j = i
    · subst hj
      simp only [Position.merge, if_true]
      omega
    · simp only [Position.merge, if_neg hj]
  have hsum := sum_no_merge s hi hn
  have hle := depth_le_totalNo legs (s.merge i a)
  simp only [value, totalNo] at hsum hle ⊢
  omega

private theorem sup_tsub (t : Finset ι) (f : ι → ℕ) (a : ℕ) :
    t.sup (fun i => f i - a) = t.sup f - a := by
  induction t using Finset.induction_on with
  | empty => simp
  | insert i t _ ih =>
    rw [Finset.sup_insert, Finset.sup_insert, ih]
    exact (Nat.sub_max_sub_right (f i) (t.sup f) a)

theorem depth_convert {legs burned : Finset ι} (s : Position ι) (a : ℕ) :
    depth legs (s.convert legs burned a) = depth legs s - a := by
  unfold depth
  rw [← sup_tsub]
  apply Finset.sup_congr rfl
  intro j hj
  by_cases hb : j ∈ burned
  · simp only [Position.convert, hb, not_true_eq_false, and_false, if_true, if_false]
    omega
  · simp only [Position.convert, hj, hb, not_false_eq_true, and_self, if_true, if_false]
    omega

/-- A convert that goes no deeper than the largest net NO position frees exactly
what the position loses in value. -/
theorem value_convert {legs burned : Finset ι} (s : Position ι) {a : ℕ} (hsub : burned ⊆ legs)
    (hne : burned.Nonempty) (hn : ∀ i ∈ burned, a ≤ s.no i) (hd : a ≤ depth legs s) :
    value legs (s.convert legs burned a) + (burned.card - 1) * a = value legs s := by
  have hcard : (burned.card - 1) * a + a = burned.card * a := by
    rw [← Nat.succ_mul, Nat.succ_eq_add_one, Nat.sub_add_cancel hne.card_pos]
  have hsum := sum_no_convert s legs burned a hsub hn
  have hle := depth_le_totalNo legs (s.convert legs burned a)
  rw [depth_convert] at hle
  simp only [value, depth_convert, totalNo] at hsum hle ⊢
  omega

end Eggplant.Lib.CompleteSet
