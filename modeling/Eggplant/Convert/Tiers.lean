import Eggplant.Convert.Planner
import Eggplant.Lib.Levels

/-!
# The tier list, one tier at a time

`planTiers` sorts all levels first and then walks them. `planTiers_peel` restates
it as a recursion on the holdings: the lowest level gives the first tier, and the
other tiers are the plan of what that tier leaves. Everything proved about tier
lists goes through this equation.
-/
namespace Eggplant.Convert

set_option autoImplicit false

open Eggplant.Lib Eggplant.Lib.Levels

def lowerHolding (amount : Nat) (h : NoHolding) : Option NoHolding :=
  if amount < h.remainingNo then some { h with remainingNo := h.remainingNo - amount } else none

/-- What a convert of `amount` across every holding leaves. -/
def lowerHoldings (amount : Nat) (holdings : List NoHolding) : List NoHolding :=
  holdings.filterMap (lowerHolding amount)

theorem tierLevels_eq (holdings : List NoHolding) :
    tierLevels holdings = levels (holdings.map (·.remainingNo)) := rfl

/-- Where the loop starts: every level is still to come. -/
theorem levelsAbove_tierLevels {holdings : List NoHolding}
    (hpos : ∀ h ∈ holdings, 0 < h.remainingNo) :
    LevelsAbove (holdings.map (·.remainingNo)) 0 (tierLevels holdings) :=
  levelsAbove_levels (List.forall_mem_map.mpr hpos)

theorem remainingNo_lowerHoldings (amount : Nat) (holdings : List NoHolding) :
    (lowerHoldings amount holdings).map (·.remainingNo) =
      drain amount (holdings.map (·.remainingNo)) := by
  rw [lowerHoldings, drain, List.map_filterMap, List.filterMap_map]
  apply List.filterMap_congr
  intro h _
  by_cases hlt : amount < h.remainingNo
  · simp [lowerHolding, hlt]
  · simp [lowerHolding, hlt]

theorem lowerHoldings_pos {amount : Nat} {holdings : List NoHolding} :
    ∀ h ∈ lowerHoldings amount holdings, 0 < h.remainingNo := by
  intro h hh
  have hm : h.remainingNo ∈ drain amount (holdings.map (·.remainingNo)) := by
    rw [← remainingNo_lowerHoldings]
    exact List.mem_map_of_mem hh
  exact (mem_drain.mp hm).1

/-! ## A tier only reads the ids of its members -/

def NoHolding.ids (h : NoHolding) : B256 × Option B256 := (h.questionId, h.conditionId)

theorem mkTier_congr {ms ms' : List NoHolding} (h : ms.map NoHolding.ids = ms'.map NoHolding.ids)
    (amount : Nat) (maxLegs : Nat) : mkTier ms amount maxLegs = mkTier ms' amount maxLegs := by
  have hq (l : List NoHolding) : ((l.take maxLegs).map (·.questionId)) =
      ((l.map NoHolding.ids).take maxLegs).map Prod.fst := by
    rw [← List.map_take, List.map_map]
    rfl
  have hp (l : List NoHolding) :
      ((l.drop maxLegs).filterMap (fun h => h.conditionId.map (fun cid => (cid, amount)))) =
      ((l.map NoHolding.ids).drop maxLegs).filterMap (fun p => p.2.map (fun cid => (cid, amount))) := by
    rw [← List.map_drop, List.filterMap_map]
    rfl
  rw [mkTier, mkTier, hq, hq ms', hp, hp ms', h]

theorem members_lowerHoldings (amount level : Nat) (hl : 0 < level) (holdings : List NoHolding) :
    (tierMembers (lowerHoldings amount holdings) level).map NoHolding.ids =
      (tierMembers holdings (level + amount)).map NoHolding.ids := by
  induction holdings with
  | nil => rfl
  | cons h holdings ih =>
    simp only [tierMembers, lowerHoldings] at ih ⊢
    by_cases hlt : amount < h.remainingNo
    · by_cases hm : level + amount ≤ h.remainingNo
      · have hm' : level ≤ h.remainingNo - amount := by omega
        simp [lowerHolding, hlt, hm, hm', ih, NoHolding.ids]
      · have hm' : ¬ level ≤ h.remainingNo - amount := by omega
        simp [lowerHolding, hlt, hm, hm', ih]
    · have hm : ¬ level + amount ≤ h.remainingNo := by omega
      simp [lowerHolding, hlt, hm, ih]

/-- Running the loop above a level is running it on what that level leaves. -/
theorem tierLoop_shift (holdings : List NoHolding) (floor : Nat) (maxLegs : Nat) (amount : Nat)
    (ls : List Nat) (hl : ∀ l ∈ ls, 0 < l) (prev : Nat) :
    tierLoop holdings floor maxLegs (prev + amount) (ls.map (· + amount)) =
      tierLoop (lowerHoldings amount holdings) floor maxLegs prev ls := by
  induction ls generalizing prev with
  | nil => rfl
  | cons level ls ih =>
    have hpos := hl level List.mem_cons_self
    have hids := members_lowerHoldings amount level hpos holdings
    have hlen : (tierMembers (lowerHoldings amount holdings) level).length =
        (tierMembers holdings (level + amount)).length := by
      have h := congrArg List.length hids
      rwa [List.length_map, List.length_map] at h
    have hdiff : level + amount - (prev + amount) = level - prev := by omega
    have htail := ih (fun l h => hl l (List.mem_cons_of_mem level h)) level
    simp only [List.map_cons, tierLoop, hdiff, hlen, htail, mkTier_congr hids]

theorem planTiers_nil (floor : Nat) (maxLegs : Nat) : planTiers [] floor maxLegs = [] := rfl

theorem tierLevels_cons {holdings : List NoHolding} (hne : holdings ≠ []) :
    ∃ m ls, tierLevels holdings = m :: ls := by
  cases h : tierLevels holdings with
  | nil =>
    rw [tierLevels_eq, levels_eq_nil, List.map_eq_nil_iff] at h
    exact absurd h hne
  | cons m ls => exact ⟨m, ls, rfl⟩

/-- The lowest level is held by every holding. -/
theorem tierLevels_head_le {holdings : List NoHolding} {m : Nat} {ls : List Nat}
    (h : tierLevels holdings = m :: ls) : ∀ x ∈ holdings, m ≤ x.remainingNo := by
  intro x hx
  exact (levels_head h).2 _ (List.mem_map_of_mem hx)

/-- The first tier takes the lowest level off every holding; the other tiers are
the plan of what is left. -/
theorem planTiers_peel {holdings : List NoHolding} {m : Nat} {ls : List Nat}
    (hl : tierLevels holdings = m :: ls) (floor : Nat) (maxLegs : Nat) :
    planTiers holdings floor maxLegs =
      if holdings.length = 1 ∧ m < floor then []
      else mkTier holdings m maxLegs :: planTiers (lowerHoldings m holdings) floor maxLegs := by
  have hall : tierMembers holdings m = holdings := by
    apply List.filter_eq_self.mpr
    intro x hx
    exact decide_eq_true (tierLevels_head_le hl x hx)
  have hrest : ls = (tierLevels (lowerHoldings m holdings)).map (· + m) := by
    rw [tierLevels_eq, remainingNo_lowerHoldings]
    exact levels_drain hl
  have hpos : ∀ l ∈ tierLevels (lowerHoldings m holdings), 0 < l := by
    intro l hml
    rw [tierLevels_eq, mem_levels, List.mem_map] at hml
    obtain ⟨h, hh, rfl⟩ := hml
    exact lowerHoldings_pos h hh
  have hshift := tierLoop_shift holdings floor maxLegs m _ hpos 0
  rw [← hrest, Nat.zero_add] at hshift
  simp only [planTiers, hl, tierLoop, hall, Nat.sub_zero, hshift]

/-- A tier list is empty only for nothing held, or for one holding below the floor. -/
theorem planTiers_eq_nil {holdings : List NoHolding} {floor : Nat} {maxLegs : Nat} :
    planTiers holdings floor maxLegs = [] ↔
      holdings = [] ∨ ∃ h, holdings = [h] ∧ h.remainingNo < floor := by
  by_cases hne : holdings = []
  · subst hne
    simp [planTiers_nil]
  · obtain ⟨m, ls, hl⟩ := tierLevels_cons hne
    have hm : m ∈ holdings.map (·.remainingNo) := (levels_head hl).1
    rw [planTiers_peel hl]
    constructor
    · intro h
      split at h
      · rename_i hc
        obtain ⟨x, rfl⟩ := List.length_eq_one_iff.mp hc.1
        simp only [List.map_cons, List.map_nil, List.mem_singleton] at hm
        exact Or.inr ⟨x, rfl, hm ▸ hc.2⟩
      · cases h
    · intro h
      rcases h with h | ⟨x, rfl, hx⟩
      · exact absurd h hne
      · simp only [List.map_cons, List.map_nil, List.mem_singleton] at hm
        rw [if_pos ⟨rfl, hm ▸ hx⟩]

/-! ## Classification, leg by leg -/

def mergeOf (leg : ConvertLeg) (noBal yesBal : Nat) : Option (B256 × Nat) :=
  if 0 < yesBal ∧ 0 < noBal then leg.conditionId.map (fun cid => (cid, min yesBal noBal)) else none

def holdingOf (leg : ConvertLeg) (noBal yesBal : Nat) : Option NoHolding :=
  if 0 < noBal - min yesBal noBal then
    some { questionId := leg.questionId, conditionId := leg.conditionId,
           remainingNo := noBal - min yesBal noBal }
  else none

private theorem classifyLeg_eq (acc : List (B256 × Nat) × List NoHolding) (leg : ConvertLeg)
    (noBal yesBal : Nat) :
    classifyLeg acc (leg, noBal, yesBal) =
      (acc.1 ++ (mergeOf leg noBal yesBal).toList, acc.2 ++ (holdingOf leg noBal yesBal).toList) := by
  have hmerge : (classifyLeg acc (leg, noBal, yesBal)).1 =
      acc.1 ++ (mergeOf leg noBal yesBal).toList := by
    by_cases hb : 0 < yesBal ∧ 0 < noBal
    · cases hc : leg.conditionId with
      | none => simp [classifyLeg, mergeOf, hb, hc]
      | some cid => simp [classifyLeg, mergeOf, hb, hc]
    · simp [classifyLeg, mergeOf, hb]
  have hhold : (classifyLeg acc (leg, noBal, yesBal)).2 =
      acc.2 ++ (holdingOf leg noBal yesBal).toList := by
    by_cases hr : 0 < noBal - min yesBal noBal
    · simp only [classifyLeg, holdingOf, if_pos hr, Option.toList_some]
    · simp only [classifyLeg, holdingOf, if_neg hr, Option.toList_none, List.append_nil]
  exact Prod.ext hmerge hhold

private theorem foldl_classifyLeg (rows : List (ConvertLeg × Nat × Nat))
    (acc : List (B256 × Nat) × List NoHolding) :
    rows.foldl classifyLeg acc =
      (acc.1 ++ rows.filterMap (fun r => mergeOf r.1 r.2.1 r.2.2),
        acc.2 ++ rows.filterMap (fun r => holdingOf r.1 r.2.1 r.2.2)) := by
  induction rows generalizing acc with
  | nil => simp
  | cons row rows ih =>
    obtain ⟨leg, noBal, yesBal⟩ := row
    rw [List.foldl_cons, ih, classifyLeg_eq]
    cases hm : mergeOf leg noBal yesBal <;> cases hh : holdingOf leg noBal yesBal <;> simp [hm, hh]

/-- The loop pushes, leg by leg, what the leg contributes to either vector. -/
theorem classifyEvent_eq (legs : List ConvertLeg) (pairs : List (Nat × Nat)) :
    classifyEvent legs pairs =
      ((legs.zip pairs).filterMap (fun r => mergeOf r.1 r.2.1 r.2.2),
        (legs.zip pairs).filterMap (fun r => holdingOf r.1 r.2.1 r.2.2)) := by
  rw [classifyEvent, foldl_classifyLeg]
  simp

end Eggplant.Convert
