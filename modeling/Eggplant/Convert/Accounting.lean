import Eggplant.Convert.PreBatch

/-!
# What the tiers account for

Every tier belongs to a level of the sorted sizes and takes one slice off each holding
that reaches it. The slices of a holding add up to its size, and the tiers together free
everything but the largest holding and what truncation leaves uncompensated.
-/
namespace Eggplant.Convert

set_option autoImplicit false

open Eggplant.Lib Eggplant.Lib.Words Eggplant.Lib.Levels

/-- The tiers, each behind the level it was cut at. -/
def tierCuts (holdings : List NoHolding) (floor maxLegs : Nat) : List (Nat × ConvertTier) :=
  (tierLevels holdings).zip (planTiers holdings floor maxLegs)

/-- What the cuts at or below a size take off a holding of it. -/
def sliced (cuts : List (Nat × ConvertTier)) (size : Nat) : Nat :=
  ((cuts.filter (fun cut => decide (cut.1 ≤ size))).map (·.2.amount)).sum

/-- The one largest holding, with less above all others than the floor. -/
def LoneDust (holdings : List NoHolding) (floor : Nat) (h : NoHolding) : Prop :=
  tierMembers holdings h.remainingNo = [h] ∧
    h.remainingNo - sizeBelow holdings h.remainingNo < floor

instance (holdings : List NoHolding) (floor : Nat) (h : NoHolding) :
    Decidable (LoneDust holdings floor h) :=
  inferInstanceAs (Decidable (_ ∧ _))

/-- A tier at a level: its converted members, then its truncated ones, are the holdings
that reach the level. -/
def IsTierAt (holdings : List NoHolding) (maxLegs level : Nat) (t : ConvertTier) : Prop :=
  ∃ kept, kept ++ truncatedMembers holdings level maxLegs =
      holdings.filter (fun h => decide (level ≤ h.remainingNo)) ∧
    kept.length ≤ maxLegs ∧
    (truncatedMembers holdings level maxLegs ≠ [] → kept.length = maxLegs) ∧
    t.questionIds = kept.map (·.questionId) ∧
    t.postMerges = (truncatedMembers holdings level maxLegs).filterMap
      fun h => h.conditionId.map fun cid => (cid, t.amount)

/-- The tiers level by level, holding by holding, and their proceeds in closed form. -/
structure TiersAccount (holdings : List NoHolding) (floor maxLegs : Nat) : Prop where
  ascending : (tierLevels holdings).Pairwise (· < ·)
  sizes : ∀ x, x ∈ tierLevels holdings ↔ ∃ h ∈ holdings, h.remainingNo = x
  positive : ∀ t ∈ planTiers holdings floor maxLegs, 0 < t.amount
  members : ∀ (j : Nat) (t : ConvertTier), (planTiers holdings floor maxLegs)[j]? = some t →
    ∃ level, (tierLevels holdings)[j]? = some level ∧ IsTierAt holdings maxLegs level t
  slices : ∀ h ∈ holdings, sliced (tierCuts holdings floor maxLegs) h.remainingNo =
    if LoneDust holdings floor h then sizeBelow holdings h.remainingNo else h.remainingNo
  proceeds : (holdings.map (·.remainingNo)).sum < wordSize → ∀ nLegs : Nat,
    (planEvent [] (planTiers holdings floor maxLegs) nLegs).proceeds +
        top (holdings.map (·.remainingNo)) +
        uncompensated holdings maxLegs (tierCuts holdings floor maxLegs) =
      (holdings.map (·.remainingNo)).sum

/-! ## Tier by tier -/

theorem mkTier_isTierAt (holdings : List NoHolding) (maxLegs level amount : Nat) :
    IsTierAt holdings maxLegs level (mkTier (tierMembers holdings level) amount maxLegs) := by
  refine ⟨(tierMembers holdings level).take maxLegs, List.take_append_drop _ _,
    List.length_take_le _ _, ?_, rfl, rfl⟩
  intro hcut
  have hlen : maxLegs < (tierMembers holdings level).length := by
    by_contra hle
    exact hcut (List.drop_eq_nil_of_le (Nat.le_of_not_lt hle))
  exact List.length_take_of_le hlen.le

/-- The tiers stand in the order of the levels; the loop may stop early, it never skips. -/
theorem tierLoop_getElem {holdings : List NoHolding} {floor maxLegs prev : Nat} {ls : List Nat}
    (h : LevelsAbove (holdings.map (·.remainingNo)) prev ls) {j : Nat} {t : ConvertTier}
    (ht : (tierLoop holdings floor maxLegs prev ls)[j]? = some t) :
    ∃ level, ls[j]? = some level ∧ 0 < t.amount ∧ IsTierAt holdings maxLegs level t := by
  induction ls generalizing prev j with
  | nil => cases ht
  | cons level ls ih =>
    rw [tierLoop] at ht
    split at ht
    next => cases ht
    next =>
      cases j with
      | zero =>
        obtain rfl := Option.some.inj ht
        exact ⟨level, rfl, Nat.sub_pos_of_lt h.head.2, mkTier_isTierAt _ _ _ _⟩
      | succ j => exact ih h.next ht

/-! ## Holding by holding -/

theorem sliced_cons {level size : Nat} {t : ConvertTier} (hle : level ≤ size)
    (cuts : List (Nat × ConvertTier)) :
    sliced ((level, t) :: cuts) size = t.amount + sliced cuts size := by
  rw [sliced, List.filter_cons_of_pos (by simpa using hle), List.map_cons, List.sum_cons]
  rfl

theorem sliced_above {size : Nat} {ls : List Nat} (h : ∀ l ∈ ls, size < l)
    (ts : List ConvertTier) : sliced (ls.zip ts) size = 0 := by
  have hnone : (ls.zip ts).filter (fun cut => decide (cut.1 ≤ size)) = [] := by
    apply List.filter_eq_nil_iff.mpr
    rintro ⟨l, t⟩ hcut hle
    have hlt := h l (List.of_mem_zip hcut).1
    exact absurd (of_decide_eq_true hle) (Nat.not_le_of_lt hlt)
  rw [sliced, hnone]
  rfl

/-- At its own level a holding is dust exactly when the loop stops there. -/
theorem loneDust_iff {holdings : List NoHolding} {floor prev : Nat} {ls : List Nat}
    {h : NoHolding} (hh : h ∈ holdings)
    (hl : LevelsAbove (holdings.map (·.remainingNo)) prev (h.remainingNo :: ls)) :
    LoneDust holdings floor h ↔
      (tierMembers holdings h.remainingNo).length = 1 ∧ h.remainingNo - prev < floor := by
  have hbelow : sizeBelow holdings h.remainingNo = prev := hl.top_below
  have hmem : h ∈ tierMembers holdings h.remainingNo :=
    List.mem_filter.mpr ⟨hh, decide_eq_true le_rfl⟩
  rw [LoneDust, hbelow]
  refine and_congr_left fun _ => ⟨fun hlone => by rw [hlone, List.length_singleton], ?_⟩
  intro hlone
  obtain ⟨x, hx⟩ := List.length_eq_one_iff.mp hlone
  rw [hx, List.mem_singleton] at hmem
  rw [hx, hmem]

/-- The slices from a level on, and what was taken before it. The induction is on the
levels still to come; the loop only stops at the last one. -/
theorem sliced_tierLoop {holdings : List NoHolding} (floor maxLegs : Nat) {h : NoHolding}
    (hh : h ∈ holdings) {prev : Nat} {ls : List Nat}
    (hl : LevelsAbove (holdings.map (·.remainingNo)) prev ls) (hlt : prev < h.remainingNo) :
    sliced (ls.zip (tierLoop holdings floor maxLegs prev ls)) h.remainingNo + prev =
      if LoneDust holdings floor h then sizeBelow holdings h.remainingNo else h.remainingNo := by
  have hsize : h.remainingNo ∈ holdings.map (·.remainingNo) := List.mem_map_of_mem hh
  induction ls generalizing prev with
  | nil => exact absurd hlt (Nat.not_lt_of_le (hl.le_prev _ hsize))
  | cons level ls ih =>
    obtain ⟨-, hprev⟩ := hl.head
    have hle : level ≤ h.remainingNo := (hl.gap _ hsize).resolve_left (Nat.not_le_of_lt hlt)
    rw [tierLoop]
    split
    next hdust =>
      obtain rfl := hl.last_of_lone (length_tierMembers holdings level ▸ hdust.1)
      obtain rfl : h.remainingNo = level := le_antisymm (hl.next.le_prev _ hsize) hle
      have hbelow : sizeBelow holdings h.remainingNo = prev := hl.top_below
      rw [if_pos ((loneDust_iff hh hl).mpr hdust), hbelow, List.zip_nil_right]
      exact Nat.zero_add prev
    next hkept =>
      rw [List.zip_cons_cons, sliced_cons hle]
      have hamount : (mkTier (tierMembers holdings level) (level - prev) maxLegs).amount =
          level - prev := rfl
      rcases hle.lt_or_eq with hgt | rfl
      · have hrest := ih hl.next hgt
        omega
      · have hrest := sliced_above (List.pairwise_cons.mp hl.ascending).1
          (tierLoop holdings floor maxLegs h.remainingNo ls)
        rw [if_neg fun hdust => hkept ((loneDust_iff hh hl).mp hdust), hrest]
        omega

/-! ## All of them -/

/-- The sum does not wrap: the credits stay below what is held. -/
theorem planEvent_proceeds {tiers : List ConvertTier} {total : Nat}
    (hle : (tiers.map tierCredit).sum ≤ total) (hlt : total < wordSize) (nLegs : Nat) :
    (planEvent [] tiers nLegs).proceeds = (tiers.map tierCredit).sum := by
  have hcredit : planCredit (planEvent [] tiers nLegs) = (tiers.map tierCredit).sum :=
    Nat.zero_add _
  have hmod := proceeds_mod [] tiers nLegs
  rwa [Nat.mod_eq_of_lt (proceeds_lt [] tiers nLegs), hcredit,
    Nat.mod_eq_of_lt (hle.trans_lt hlt)] at hmod

theorem plan_tiers_account (holdings : List NoHolding) (hpos : ∀ h ∈ holdings, 0 < h.remainingNo)
    (floor maxLegs : Nat) (hmax : 1 ≤ maxLegs) : TiersAccount holdings floor maxLegs where
  ascending := levels_pairwise _
  sizes x := by rw [tierLevels_eq, mem_levels, List.mem_map]
  positive := by
    intro t ht
    obtain ⟨j, hj⟩ := List.mem_iff_getElem?.mp ht
    obtain ⟨level, -, hamount, -⟩ := tierLoop_getElem (levelsAbove_tierLevels hpos) hj
    exact hamount
  members := by
    intro j t ht
    obtain ⟨level, hlevel, -, htier⟩ := tierLoop_getElem (levelsAbove_tierLevels hpos) ht
    exact ⟨level, hlevel, htier⟩
  slices := by
    intro h hh
    exact sliced_tierLoop floor maxLegs hh (levelsAbove_tierLevels hpos) (hpos h hh)
  proceeds := by
    intro hlt nLegs
    have hclosed := tiersCredit_planTiers hmax hpos floor
    have hle : ((planTiers holdings floor maxLegs).map tierCredit).sum ≤
        (holdings.map (·.remainingNo)).sum := by omega
    rw [planEvent_proceeds hle hlt nLegs, ← hclosed, tierCuts]
    omega

/-- Under a cap of two and a floor of five: of 22 held, the largest nine are not freed, and
truncation loses eight on the two holdings without a condition id. -/
def fourHoldings : List NoHolding :=
  [⟨Word.ofNat 1, some (Word.ofNat 11), 3⟩, ⟨Word.ofNat 2, some (Word.ofNat 12), 5⟩,
    ⟨Word.ofNat 3, none, 5⟩, ⟨Word.ofNat 4, none, 9⟩]

theorem plan_tiers_account_fourHoldings : TiersAccount fourHoldings 5 2 ∧
    (planEvent [] (planTiers fourHoldings 5 2) 4).proceeds = 5 ∧
    uncompensated fourHoldings 2 (tierCuts fourHoldings 5 2) = 8 ∧
    ∃ h ∈ fourHoldings, LoneDust fourHoldings 5 h := by
  have hpos : ∀ h ∈ fourHoldings, 0 < h.remainingNo := by decide
  have haccount := plan_tiers_account fourHoldings hpos 5 2 (by decide)
  have hlost : uncompensated fourHoldings 2 (tierCuts fourHoldings 5 2) = 8 := by decide
  have hproceeds := haccount.proceeds (by decide) 4
  have htop : top (fourHoldings.map (·.remainingNo)) = 9 := by decide
  have hsum : (fourHoldings.map (·.remainingNo)).sum = 22 := by decide
  rw [hlost, htop, hsum] at hproceeds
  refine ⟨haccount, by omega, hlost, ?_⟩
  exact ⟨⟨Word.ofNat 4, none, 9⟩, by decide, by decide⟩

end Eggplant.Convert
