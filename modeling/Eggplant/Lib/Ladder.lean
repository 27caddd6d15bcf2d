import Mathlib

/-!
# Ladders

Levels of a positive size in rising order of price. A need is covered by a walk from the
lowest level up, and the depth under a ceiling is the sum of the levels it admits. The
walk stops at the least price whose depth covers the need.
-/
namespace Eggplant.Lib.Ladder

set_option autoImplicit false

variable {κ α : Type*} [AddCommMonoid α]

/-- The walk that reaches `need`: `cum` is the size so far and `last` the level it came to. -/
def cover [LinearOrder α] (need : α) : α → Option κ → List (κ × α) → Option κ
  | _, last, [] => last
  | cum, _, level :: levels =>
    if need ≤ cum + level.2 then some level.1
    else cover need (cum + level.2) (some level.1) levels

/-- The size of every level. -/
def total (levels : List (κ × α)) : α := (levels.map (·.2)).sum

/-- The size of the levels priced at `p` or lower. -/
def depth [LinearOrder κ] (levels : List (κ × α)) (p : κ) : α := total (levels.filter (·.1 ≤ p))

def Rising [LT κ] (levels : List (κ × α)) : Prop := levels.Pairwise (·.1 < ·.1)

def Positive [LT α] (levels : List (κ × α)) : Prop := ∀ level ∈ levels, 0 < level.2

theorem total_cons (level : κ × α) (levels : List (κ × α)) :
    total (level :: levels) = level.2 + total levels := List.sum_cons

theorem cover_eq_none_iff [LinearOrder α] (need cum : α) (last : Option κ) (levels : List (κ × α)) :
    cover need cum last levels = none ↔ levels = [] ∧ last = none := by
  induction levels generalizing cum last with
  | nil => simp [cover]
  | cons level levels ih =>
    unfold cover
    split
    next => simp
    next => simp [ih]

variable [LinearOrder κ] {levels : List (κ × α)} {need cum : α} {last : Option κ} {p q : κ}

theorem depth_cons_of_le {level : κ × α} (hp : level.1 ≤ p) :
    depth (level :: levels) p = level.2 + depth levels p := by
  unfold depth
  rw [List.filter_cons_of_pos (by simpa using hp), total_cons]

/-- Under the touch no level is admitted. -/
theorem depth_eq_zero (h : ∀ level ∈ levels, p < level.1) : depth levels p = 0 := by
  unfold depth
  rw [List.filter_eq_nil_iff.mpr fun level hl => by simpa using h level hl]
  rfl

theorem depth_under_touch {level : κ × α} (hr : Rising (level :: levels)) (hp : p < level.1) :
    depth (level :: levels) p = 0 := by
  refine depth_eq_zero fun l hl => ?_
  rcases List.mem_cons.mp hl with rfl | hl
  · exact hp
  · exact hp.trans (List.rel_of_pairwise_cons hr hl)

omit [AddCommMonoid α] in
/-- The last level of a ladder is its highest. -/
theorem getLast_eq_some_iff (hr : Rising levels) :
    levels.getLast?.map (·.1) = some q ↔ IsGreatest {p | p ∈ levels.map (·.1)} q := by
  induction levels using List.reverseRecOn with
  | nil => exact iff_of_false nofun fun h => absurd h.1 List.not_mem_nil
  | append_singleton levels level _ =>
    have hmax : IsGreatest {p | p ∈ (levels ++ [level]).map (·.1)} level.1 := by
      refine ⟨by simp, fun p hp => ?_⟩
      obtain ⟨l, hl, rfl⟩ := List.mem_map.mp hp
      rcases List.mem_append.mp hl with hl | hl
      · exact ((List.pairwise_append.mp hr).2.2 l hl level (List.mem_singleton_self _)).le
      · rw [List.mem_singleton.mp hl]
    rw [List.getLast?_concat]
    refine ⟨fun h => ?_, fun h => congrArg some (hmax.unique h)⟩
    rw [← Option.some.inj h]
    exact hmax

variable [LinearOrder α] [IsOrderedCancelAddMonoid α]

omit [LinearOrder κ] in
theorem total_nonneg (h : Positive levels) : 0 ≤ total levels := by
  induction levels with
  | nil => exact le_refl _
  | cons level levels ih =>
    rw [total_cons]
    exact add_nonneg (h level List.mem_cons_self).le (ih fun l hl => h l (List.mem_cons_of_mem _ hl))

theorem depth_nonneg (h : Positive levels) (p : κ) : 0 ≤ depth levels p :=
  total_nonneg fun level hl => h level (List.mem_of_mem_filter hl)

/-- The walk ends at a level, and a ceiling admits the need exactly from that level on. -/
theorem cover_spec (last : Option κ) (hr : Rising levels) (hpos : Positive levels) (hcum : cum < need)
    (hneed : need ≤ cum + total levels) :
    ∃ q ∈ levels.map (·.1), cover need cum last levels = some q ∧
      ∀ p, need ≤ cum + depth levels p ↔ q ≤ p := by
  induction levels generalizing cum last with
  | nil => exact absurd (hneed.trans_eq (add_zero cum)) hcum.not_ge
  | cons level levels ih =>
    have hrest : Positive levels := fun l hl => hpos l (List.mem_cons_of_mem _ hl)
    by_cases hstop : need ≤ cum + level.2
    · refine ⟨level.1, List.mem_cons_self, if_pos hstop, fun p => ?_⟩
      rcases lt_or_ge p level.1 with hp | hp
      · rw [depth_under_touch hr hp, add_zero]
        exact iff_of_false hcum.not_ge hp.not_ge
      · rw [depth_cons_of_le hp, ← add_assoc]
        exact iff_of_true (hstop.trans (le_add_of_nonneg_right (depth_nonneg hrest p))) hp
    · rw [total_cons, ← add_assoc] at hneed
      obtain ⟨q, hq, hcover, hiff⟩ :=
        ih (some level.1) hr.of_cons hrest (not_le.mp hstop) hneed
      refine ⟨q, List.mem_cons_of_mem _ hq, (if_neg hstop).trans hcover, fun p => ?_⟩
      obtain ⟨l, hl, rfl⟩ := List.mem_map.mp hq
      have hrise : level.1 < l.1 := List.rel_of_pairwise_cons hr hl
      rcases lt_or_ge p level.1 with hp | hp
      · rw [depth_under_touch hr hp, add_zero]
        exact iff_of_false hcum.not_ge (hp.trans hrise).not_ge
      · rw [depth_cons_of_le hp, ← add_assoc]
        exact hiff p

omit [LinearOrder κ] in
/-- A need beyond the whole ladder walks to its last level. -/
theorem cover_exhausted (hpos : Positive levels) (hneed : cum + total levels < need) :
    cover need cum last levels = (levels.getLast?.map (·.1)).or last := by
  induction levels generalizing cum last with
  | nil => rfl
  | cons level levels ih =>
    have hrest : Positive levels := fun l hl => hpos l (List.mem_cons_of_mem _ hl)
    rw [total_cons, ← add_assoc] at hneed
    have hpast : cum + level.2 < need :=
      (le_add_of_nonneg_right (total_nonneg hrest)).trans_lt hneed
    rw [cover, if_neg hpast.not_ge, ih hrest hneed, List.getLast?_cons]
    cases levels.getLast? <;> rfl

end Eggplant.Lib.Ladder
