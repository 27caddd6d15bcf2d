import Mathlib

/-!
# Levels of a list of sizes

`levels xs` is the ascending list of distinct sizes. Draining the lowest level
off every entry leaves the remaining levels, shifted down: the step a layer-cake
decomposition recurses on. `LevelsAbove` is the invariant of a loop that walks the
levels instead, with the sizes left as they are.
-/
namespace Eggplant.Lib.Levels

set_option autoImplicit false

section LinearOrder
variable {α : Type*} [LinearOrder α]

def levels (xs : List α) : List α := (xs.insertionSort (· ≤ ·)).destutter (· ≠ ·)

private theorem levels_eq_dedup (xs : List α) :
    levels xs = (xs.insertionSort (· ≤ ·)).dedup :=
  (List.pairwise_insertionSort (· ≤ ·) xs).destutter_eq_dedup

@[simp] theorem mem_levels {xs : List α} {x : α} : x ∈ levels xs ↔ x ∈ xs := by
  rw [levels_eq_dedup, List.mem_dedup, List.mem_insertionSort]

theorem levels_pairwise (xs : List α) : (levels xs).Pairwise (· < ·) := by
  rw [levels_eq_dedup]
  have hs : (xs.insertionSort (· ≤ ·)).dedup.Pairwise (· ≤ ·) :=
    (List.pairwise_insertionSort (· ≤ ·) xs).sublist (List.dedup_sublist _)
  have hn : (xs.insertionSort (· ≤ ·)).dedup.Pairwise (· ≠ ·) := List.nodup_dedup _
  exact (hs.and hn).imp (fun h => lt_of_le_of_ne h.1 h.2)

/-- An ascending list with the right members is the level list. -/
theorem levels_unique {xs ys : List α} (hs : ys.Pairwise (· < ·)) (hm : ∀ x, x ∈ ys ↔ x ∈ xs) :
    levels xs = ys := by
  apply (levels_pairwise xs).eq_of_mem_iff hs
  intro x
  rw [mem_levels, hm]

theorem levels_nil : levels ([] : List α) = [] := rfl

theorem levels_eq_nil {xs : List α} : levels xs = [] ↔ xs = [] := by
  constructor
  · intro h
    apply List.eq_nil_iff_forall_not_mem.mpr
    intro x hx
    have hl := mem_levels.mpr hx
    rw [h] at hl
    exact List.not_mem_nil hl
  · rintro rfl
    exact levels_nil

/-- The first level is attained and is a lower bound. -/
theorem levels_head {xs : List α} {m : α} {ls : List α} (h : levels xs = m :: ls) :
    m ∈ xs ∧ ∀ x ∈ xs, m ≤ x := by
  have hp := levels_pairwise xs
  rw [h, List.pairwise_cons] at hp
  constructor
  · rw [← mem_levels, h]
    exact List.mem_cons_self
  · intro x hx
    rw [← mem_levels, h, List.mem_cons] at hx
    rcases hx with rfl | hx
    · exact le_rfl
    · exact (hp.1 x hx).le

/-- The later levels are the sizes strictly above the first one. -/
theorem mem_levels_tail {xs : List α} {m : α} {ls : List α} (h : levels xs = m :: ls) {x : α} :
    x ∈ ls ↔ x ∈ xs ∧ m < x := by
  have hp := levels_pairwise xs
  rw [h, List.pairwise_cons] at hp
  constructor
  · intro hx
    have hx' : x ∈ levels xs := by
      rw [h]
      exact List.mem_cons_of_mem m hx
    exact ⟨mem_levels.mp hx', hp.1 x hx⟩
  · intro h
    obtain ⟨hx, hlt⟩ := h
    rw [← mem_levels, h, List.mem_cons] at hx
    rcases hx with rfl | hx
    · exact absurd hlt (lt_irrefl x)
    · exact hx

end LinearOrder

/-! ## Draining the lowest level -/

/-- Take `m` off every size and forget what is used up. -/
def drain (m : ℕ) (xs : List ℕ) : List ℕ :=
  xs.filterMap (fun x => if m < x then some (x - m) else none)

theorem mem_drain {m : ℕ} {xs : List ℕ} {y : ℕ} : y ∈ drain m xs ↔ 0 < y ∧ y + m ∈ xs := by
  rw [drain, List.mem_filterMap]
  constructor
  · intro h
    obtain ⟨x, hx, he⟩ := h
    split at he
    · rename_i hlt
      obtain rfl := Option.some.inj he
      refine ⟨by omega, ?_⟩
      rwa [Nat.sub_add_cancel hlt.le]
    · cases he
  · intro h
    obtain ⟨hy, hx⟩ := h
    refine ⟨y + m, hx, ?_⟩
    rw [if_pos (by omega), Nat.add_sub_cancel]

/-- Draining removes the first level and shifts the others down. -/
theorem levels_drain {xs : List ℕ} {m : ℕ} {ls : List ℕ} (h : levels xs = m :: ls) :
    ls = (levels (drain m xs)).map (· + m) := by
  have hp := levels_pairwise xs
  rw [h, List.pairwise_cons] at hp
  have hd : levels (drain m xs) = ls.map (· - m) := by
    apply levels_unique
    · apply List.pairwise_map.mpr
      apply hp.2.imp_of_mem
      intro a b ha hb hab
      have h1 := hp.1 a ha
      omega
    · intro y
      rw [mem_drain, List.mem_map]
      constructor
      · intro h
        obtain ⟨x, hx, rfl⟩ := h
        obtain ⟨hx', hlt⟩ := (mem_levels_tail h).mp hx
        refine ⟨by omega, ?_⟩
        rwa [Nat.sub_add_cancel hlt.le]
      · intro h
        obtain ⟨hy, hx⟩ := h
        exact ⟨y + m, (mem_levels_tail h).mpr ⟨hx, by omega⟩, by omega⟩
  rw [hd, List.map_map]
  conv_lhs => rw [← List.map_id ls]
  apply List.map_congr_left
  intro x hx
  have hlt := hp.1 x hx
  simp only [id, Function.comp]
  omega

/-! ## The largest size -/

/-- The largest size, zero for none. -/
def top (xs : List ℕ) : ℕ := xs.foldr max 0

theorem le_top {xs : List ℕ} {x : ℕ} (h : x ∈ xs) : x ≤ top xs := by
  induction xs with
  | nil => cases h
  | cons y ys ih =>
    simp only [top, List.foldr_cons] at ih ⊢
    rcases List.mem_cons.mp h with rfl | h
    · exact le_max_left _ _
    · exact (ih h).trans (le_max_right _ _)

theorem top_le {xs : List ℕ} {b : ℕ} (h : ∀ x ∈ xs, x ≤ b) : top xs ≤ b := by
  induction xs with
  | nil => exact Nat.zero_le b
  | cons y ys ih =>
    simp only [top, List.foldr_cons] at ih ⊢
    exact max_le (h y List.mem_cons_self) (ih (fun x hx => h x (List.mem_cons_of_mem y hx)))

theorem top_mem {xs : List ℕ} (h : xs ≠ []) : top xs ∈ xs := by
  induction xs with
  | nil => exact absurd rfl h
  | cons y ys ih =>
    by_cases hys : ys = []
    · subst hys
      simp [top]
    · have hmem := ih hys
      simp only [top, List.foldr_cons] at hmem ⊢
      rcases max_choice y (ys.foldr max 0) with he | he
      · rw [he]
        exact List.mem_cons_self
      · rw [he]
        exact List.mem_cons_of_mem y hmem

/-! ## Running through the levels -/

/-- The levels still to come above `prev`, which is zero or a size itself. -/
structure LevelsAbove (xs : List ℕ) (prev : ℕ) (ls : List ℕ) : Prop where
  ascending : ls.Pairwise (· < ·)
  mem_iff : ∀ x, x ∈ ls ↔ x ∈ xs ∧ prev < x
  attained : prev = 0 ∨ prev ∈ xs

theorem levelsAbove_levels {xs : List ℕ} (hpos : ∀ x ∈ xs, 0 < x) :
    LevelsAbove xs 0 (levels xs) where
  ascending := levels_pairwise xs
  mem_iff x := by
    rw [mem_levels]
    exact ⟨fun hx => ⟨hx, hpos x hx⟩, fun h => h.1⟩
  attained := .inl rfl

namespace LevelsAbove

variable {xs ls : List ℕ} {prev m : ℕ}

theorem head (h : LevelsAbove xs prev (m :: ls)) : m ∈ xs ∧ prev < m :=
  (h.mem_iff m).mp List.mem_cons_self

/-- No size lies between two levels. -/
theorem gap (h : LevelsAbove xs prev (m :: ls)) : ∀ x ∈ xs, x ≤ prev ∨ m ≤ x := by
  intro x hx
  by_cases hlt : prev < x
  · rcases List.mem_cons.mp ((h.mem_iff x).mpr ⟨hx, hlt⟩) with rfl | hmem
    · exact .inr le_rfl
    · exact .inr ((List.pairwise_cons.mp h.ascending).1 x hmem).le
  · exact .inl (Nat.le_of_not_lt hlt)

theorem next (h : LevelsAbove xs prev (m :: ls)) : LevelsAbove xs m ls where
  ascending := (List.pairwise_cons.mp h.ascending).2
  mem_iff x := by
    obtain ⟨-, hprev⟩ := h.head
    constructor
    · intro hx
      have hxs := (h.mem_iff x).mp (List.mem_cons_of_mem m hx)
      exact ⟨hxs.1, (List.pairwise_cons.mp h.ascending).1 x hx⟩
    · intro hx
      rcases List.mem_cons.mp ((h.mem_iff x).mpr ⟨hx.1, hprev.trans hx.2⟩) with rfl | hmem
      · exact absurd hx.2 (lt_irrefl x)
      · exact hmem
  attained := .inr h.head.1

theorem le_prev (h : LevelsAbove xs prev []) : ∀ x ∈ xs, x ≤ prev := by
  intro x hx
  by_contra hlt
  exact List.not_mem_nil ((h.mem_iff x).mpr ⟨hx, Nat.lt_of_not_le hlt⟩)

/-- Only the last level is reached by a single size. -/
theorem last_of_lone (h : LevelsAbove xs prev (m :: ls)) (hlone : xs.countP (m ≤ ·) = 1) :
    ls = [] := by
  rw [List.countP_eq_length_filter] at hlone
  obtain ⟨a, ha⟩ := List.length_eq_one_iff.mp hlone
  apply List.eq_nil_iff_forall_not_mem.mpr
  intro l hl
  obtain ⟨hlxs, hlt⟩ := (h.next.mem_iff l).mp hl
  have hm : m ∈ xs.filter (m ≤ ·) := List.mem_filter.mpr ⟨h.head.1, decide_eq_true le_rfl⟩
  have hl : l ∈ xs.filter (m ≤ ·) := List.mem_filter.mpr ⟨hlxs, decide_eq_true hlt.le⟩
  rw [ha, List.mem_singleton] at hm hl
  omega

/-- The largest size below a level is the level before it. -/
theorem top_below (h : LevelsAbove xs prev (m :: ls)) : top (xs.filter (· < m)) = prev := by
  apply le_antisymm
  · apply top_le
    intro x hx
    obtain ⟨hxs, hlt⟩ := List.mem_filter.mp hx
    rcases h.gap x hxs with hle | hle
    · exact hle
    · exact absurd (of_decide_eq_true hlt) (Nat.not_lt_of_le hle)
  · rcases h.attained with rfl | hprev
    · exact Nat.zero_le _
    · exact le_top (List.mem_filter.mpr ⟨hprev, decide_eq_true h.head.2⟩)

end LevelsAbove

/-- What lies above `p`, cut at `m`: one slice from each size that reaches `m`. -/
theorem sum_sub_gap {xs : List ℕ} {p m : ℕ} (hpm : p ≤ m) (hgap : ∀ x ∈ xs, x ≤ p ∨ m ≤ x) :
    (xs.map (· - p)).sum = xs.countP (m ≤ ·) * (m - p) + (xs.map (· - m)).sum := by
  induction xs with
  | nil => simp
  | cons x xs ih =>
    obtain ⟨hx, hrest⟩ := List.forall_mem_cons.mp hgap
    rw [List.map_cons, List.sum_cons, List.map_cons, List.sum_cons, ih hrest]
    by_cases hm : m ≤ x
    · rw [List.countP_cons_of_pos (by simpa using hm), Nat.succ_mul]
      omega
    · have hle : x ≤ p := hx.resolve_right hm
      rw [List.countP_cons_of_neg (by simpa using hm)]
      omega

end Eggplant.Lib.Levels
