import Mathlib.Data.List.Basic
import Mathlib.Data.List.Forall2

/-!
# Splitting a list into batches

Consecutive batches of a fixed size; only the last may be shorter.
-/
namespace Eggplant.Lib

set_option autoImplicit false

variable {α : Type}

/-- The recursion of `batches`; the fuel bounds the number of batches. -/
def batchesFrom (n : Nat) : Nat → List α → List (List α)
  | 0, _ => []
  | _ + 1, [] => []
  | fuel + 1, x :: xs => (x :: xs).take n :: batchesFrom n fuel ((x :: xs).drop n)

def batches (n : Nat) (xs : List α) : List (List α) := batchesFrom n xs.length xs

/-- The first batch. -/
theorem batches_eq_cons (n : Nat) {xs : List α} (h : xs ≠ []) :
    ∃ rest, batches n xs = xs.take n :: rest := by
  cases xs with
  | nil => exact absurd rfl h
  | cons x xs => exact ⟨_, rfl⟩

theorem batchesFrom_flatten {n : Nat} (hn : 0 < n) (fuel : Nat) (xs : List α)
    (h : xs.length ≤ fuel) : (batchesFrom n fuel xs).flatten = xs := by
  induction fuel generalizing xs with
  | zero =>
    rw [List.eq_nil_of_length_eq_zero (Nat.le_zero.mp h)]
    rfl
  | succ fuel ih =>
    cases xs with
    | nil => rfl
    | cons x xs =>
      have hrest : ((x :: xs).drop n).length ≤ fuel := by
        rw [List.length_drop]
        omega
      rw [batchesFrom, List.flatten_cons, ih _ hrest, List.take_append_drop]

theorem batches_flatten {n : Nat} (hn : 0 < n) (xs : List α) : (batches n xs).flatten = xs :=
  batchesFrom_flatten hn xs.length xs (Nat.le_refl _)

theorem length_of_mem_batchesFrom {n fuel : Nat} {xs batch : List α}
    (h : batch ∈ batchesFrom n fuel xs) : batch.length ≤ n := by
  induction fuel generalizing xs with
  | zero => cases h
  | succ fuel ih =>
    cases xs with
    | nil => cases h
    | cons x xs =>
      cases List.mem_cons.mp h with
      | inl hhead =>
        rw [hhead, List.length_take]
        exact Nat.min_le_left n _
      | inr htail => exact ih htail

theorem ne_nil_of_mem_batchesFrom {n fuel : Nat} (hn : 0 < n) {xs batch : List α}
    (h : batch ∈ batchesFrom n fuel xs) : batch ≠ [] := by
  induction fuel generalizing xs with
  | zero => cases h
  | succ fuel ih =>
    cases xs with
    | nil => cases h
    | cons x xs =>
      cases List.mem_cons.mp h with
      | inl hhead =>
        rw [hhead, ne_eq, List.take_eq_nil_iff]
        exact fun hor => hor.elim (fun hz => absurd hz (Nat.ne_of_gt hn)) nofun
      | inr htail => exact ih htail

theorem ne_nil_of_mem_batches {n : Nat} (hn : 0 < n) {xs batch : List α}
    (h : batch ∈ batches n xs) : batch ≠ [] :=
  ne_nil_of_mem_batchesFrom hn h

theorem length_of_mem_batches {n : Nat} {xs batch : List α} (h : batch ∈ batches n xs) :
    batch.length ≤ n :=
  length_of_mem_batchesFrom h

/-- A batch is a slice, starting where the batches before it end. -/
theorem batchesFrom_getElem? {n : Nat} (hn : 0 < n) (fuel : Nat) (xs : List α)
    (h : xs.length ≤ fuel) (k : Nat) :
    (batchesFrom n fuel xs)[k]? =
      if k * n < xs.length then some ((xs.drop (k * n)).take n) else none := by
  induction fuel generalizing xs k with
  | zero =>
    rw [List.eq_nil_of_length_eq_zero (Nat.le_zero.mp h)]
    rfl
  | succ fuel ih =>
    cases xs with
    | nil => rfl
    | cons x xs =>
      rw [batchesFrom]
      cases k with
      | zero =>
        rw [Nat.zero_mul, if_pos (show 0 < (x :: xs).length from Nat.succ_pos _)]
        rfl
      | succ k =>
        have hrest : ((x :: xs).drop n).length ≤ fuel := by
          rw [List.length_drop]
          omega
        have hcond : k * n < ((x :: xs).drop n).length ↔ (k + 1) * n < (x :: xs).length := by
          rw [List.length_drop, Nat.succ_mul]
          omega
        rw [List.getElem?_cons_succ, ih _ hrest, List.drop_drop, Nat.succ_mul, Nat.add_comm n]
        simp only [hcond, Nat.succ_mul]

theorem batches_getElem? {n : Nat} (hn : 0 < n) (xs : List α) (k : Nat) :
    (batches n xs)[k]? = if k * n < xs.length then some ((xs.drop (k * n)).take n) else none :=
  batchesFrom_getElem? hn xs.length xs (Nat.le_refl _) k

/-- Lists cut like batches are indexed like them. -/
theorem flatten_getElem? {n : Nat} {ys : List (List α)}
    (hle : ∀ y ∈ ys, y.length ≤ n)
    (hfull : ∀ k y, ys[k]? = some y → k + 1 < ys.length → y.length = n) {k j : Nat} (hj : j < n) :
    ys.flatten[k * n + j]? = ys[k]?.bind fun y => y[j]? := by
  induction ys generalizing k with
  | nil => simp
  | cons y ys ih =>
    cases k with
    | zero =>
      rw [Nat.zero_mul, Nat.zero_add, List.flatten_cons, List.getElem?_cons_zero, Option.bind_some]
      by_cases hlt : j < y.length
      · rw [List.getElem?_append_left hlt]
      · -- only the last list is short, so nothing follows
        have hlast : ys = [] := by
          by_contra hne
          have hlen := hfull 0 y rfl (by
            rw [List.length_cons]
            have hpos := List.length_pos_of_ne_nil hne
            omega)
          omega
        rw [hlast, List.flatten_nil, List.append_nil]
    | succ k =>
      by_cases hnil : ys = []
      · have hlen := hle y List.mem_cons_self
        rw [hnil, List.flatten_singleton, List.getElem?_cons_succ, List.getElem?_nil,
          Option.bind_none, List.getElem?_eq_none]
        rw [Nat.succ_mul]
        omega
      · have hlen : y.length = n := hfull 0 y rfl (by
          rw [List.length_cons]
          have hpos := List.length_pos_of_ne_nil hnil
          omega)
        have hoff : (k + 1) * n + j = y.length + (k * n + j) := by
          rw [hlen, Nat.succ_mul]
          omega
        rw [hoff, List.flatten_cons, List.getElem?_append_right (Nat.le_add_right _ _),
          Nat.add_sub_cancel_left, List.getElem?_cons_succ]
        refine ih (fun z hz => hle z (List.mem_cons_of_mem y hz)) ?_
        intro i z hz hi
        exact hfull (i + 1) z hz (by
          rw [List.length_cons]
          omega)

section
variable {β : Type} {n : Nat} {xs : List α} {answers : List (List β)}

theorem flatten_length_of_forall₂ {batches : List (List α)}
    (h : List.Forall₂ (fun batch answer => answer.length = batch.length) batches answers) :
    answers.flatten.length = batches.flatten.length := by
  induction h with
  | nil => rfl
  | cons hlen _ ih =>
    rw [List.flatten_cons, List.flatten_cons, List.length_append, List.length_append, hlen, ih]

/-- Answers of the batches' lengths, laid end to end, stand at the places of the list. -/
theorem batches_aligned (hn : 0 < n)
    (h : List.Forall₂ (fun batch answer => answer.length = batch.length) (batches n xs) answers) :
    answers.flatten.length = xs.length ∧
      ∀ i < xs.length, ∃ k j batch answer, k * n + j = i ∧ (batches n xs)[k]? = some batch ∧
        answers[k]? = some answer ∧ batch[j]? = xs[i]? ∧ answer[j]? = answers.flatten[i]? := by
  have hlength : answers.flatten.length = xs.length := by
    rw [flatten_length_of_forall₂ h, batches_flatten hn]
  have hget := List.forall₂_iff_get.mp h
  have hcount := hget.1
  have hanswer (k : Nat) (answer : List β) (hk : answers[k]? = some answer) :
      ∃ batch, (batches n xs)[k]? = some batch ∧ answer.length = batch.length := by
    obtain ⟨hlt, rfl⟩ := List.getElem?_eq_some_iff.mp hk
    exact ⟨_, List.getElem?_eq_getElem (hcount ▸ hlt), hget.2 k (hcount ▸ hlt) hlt⟩
  have hle : ∀ answer ∈ answers, answer.length ≤ n := by
    intro answer hmem
    obtain ⟨k, hk⟩ := List.mem_iff_getElem?.mp hmem
    obtain ⟨batch, hbatch, hlen⟩ := hanswer k answer hk
    rw [hlen]
    exact length_of_mem_batches (List.mem_of_getElem? hbatch)
  have hfull : ∀ k answer, answers[k]? = some answer → k + 1 < answers.length →
      answer.length = n := by
    intro k answer hk hmore
    obtain ⟨batch, hbatch, hlen⟩ := hanswer k answer hk
    -- a batch that is followed by another is full
    have hnext : (batches n xs)[k + 1]? = some _ := List.getElem?_eq_getElem (hcount ▸ hmore)
    rw [batches_getElem? hn] at hbatch hnext
    split at hbatch
    next =>
      split at hnext
      next hlt =>
        rw [hlen, ← Option.some.inj hbatch, List.length_take, List.length_drop]
        rw [Nat.succ_mul] at hlt
        omega
      next => cases hnext
    next => cases hbatch
  refine ⟨hlength, ?_⟩
  intro i hi
  have hsplit : i / n * n + i % n = i := Nat.div_add_mod' i n
  have hmod : i % n < n := Nat.mod_lt i hn
  have hbatch : (batches n xs)[i / n]? = some ((xs.drop (i / n * n)).take n) := by
    rw [batches_getElem? hn, if_pos (by omega)]
  have hlt : i / n < answers.length := by
    rw [← hcount]
    exact (List.getElem?_eq_some_iff.mp hbatch).1
  refine ⟨i / n, i % n, _, answers[i / n], hsplit, hbatch, List.getElem?_eq_getElem hlt, ?_, ?_⟩
  · rw [List.getElem?_take_of_lt hmod, List.getElem?_drop, hsplit]
  · have hflat := flatten_getElem? hle hfull (k := i / n) hmod
    rw [hsplit, List.getElem?_eq_getElem hlt, Option.bind_some] at hflat
    exact hflat.symm

end

end Eggplant.Lib
