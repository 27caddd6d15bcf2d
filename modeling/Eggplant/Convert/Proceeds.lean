import Eggplant.Convert.Replan

/-!
# Proceeds

`planEvent` sums with wrapping 256-bit arithmetic. The sum is the credit of the
plan's operations modulo the word size, and for an event whose legs all have a
condition id it is the event's value: total NO less the largest net NO position.
-/
namespace Eggplant.Convert

set_option autoImplicit false

open Eggplant.Lib Eggplant.Lib.Words Eggplant.Lib.Levels

/-! ## What the planner puts in a tier -/

/-- Facts about one tier that do not depend on its place in the list. -/
structure TierShape (holdings : List NoHolding) (t : ConvertTier) : Prop where
  nonempty : t.questionIds ≠ []
  ids : t.questionIds.Sublist (holdings.map (·.questionId))
  covered : ∀ q ∈ t.questionIds, ∃ h ∈ holdings, h.questionId = q ∧ t.amount ≤ h.remainingNo
  post : ∀ m ∈ t.postMerges, m.2 = t.amount

theorem TierShape.amount {holdings : List NoHolding} {t : ConvertTier} (h : TierShape holdings t) :
    ∃ x ∈ holdings, t.amount ≤ x.remainingNo := by
  obtain ⟨q, hq⟩ := List.exists_mem_of_ne_nil _ h.nonempty
  obtain ⟨x, hx, _, hle⟩ := h.covered q hq
  exact ⟨x, hx, hle⟩

theorem mkTier_shape {holdings : List NoHolding} {level amount maxLegs : Nat} (hmax : 0 < maxLegs)
    (hlevel : ∃ h ∈ holdings, level ≤ h.remainingNo) (hle : amount ≤ level) :
    TierShape holdings (mkTier (tierMembers holdings level) amount maxLegs) where
  nonempty := by
    obtain ⟨h, hh, hl⟩ := hlevel
    have hmem : h ∈ tierMembers holdings level := List.mem_filter.mpr ⟨hh, decide_eq_true hl⟩
    simp only [mkTier, ne_eq, List.map_eq_nil_iff, List.take_eq_nil_iff, not_or]
    exact ⟨by omega, List.ne_nil_of_mem hmem⟩
  ids := ((List.take_sublist _ _).trans List.filter_sublist).map _
  covered := by
    intro q hq
    obtain ⟨h, hh, rfl⟩ := List.mem_map.mp hq
    obtain ⟨hmem, hl⟩ := List.mem_filter.mp (List.mem_of_mem_take hh)
    exact ⟨h, hmem, rfl, hle.trans (of_decide_eq_true hl)⟩
  post := by
    intro m hm
    obtain ⟨h, _, he⟩ := List.mem_filterMap.mp hm
    obtain ⟨c, _, rfl⟩ := Option.map_eq_some_iff.mp he
    rfl

theorem tierLoop_shape {holdings : List NoHolding} {floor maxLegs : Nat} (hmax : 0 < maxLegs)
    (ls : List Nat) (hls : ∀ l ∈ ls, ∃ h ∈ holdings, l ≤ h.remainingNo) (prev : Nat) :
    ∀ t ∈ tierLoop holdings floor maxLegs prev ls, TierShape holdings t := by
  induction ls generalizing prev with
  | nil =>
    intro t ht
    cases ht
  | cons level ls ih =>
    intro t ht
    simp only [tierLoop] at ht
    split at ht
    · cases ht
    · rcases List.mem_cons.mp ht with rfl | ht
      · exact mkTier_shape hmax (hls level List.mem_cons_self) (Nat.sub_le _ _)
      · exact ih (fun l hl => hls l (List.mem_cons_of_mem level hl)) level t ht

theorem planTiers_shape {holdings : List NoHolding} {floor maxLegs : Nat} (hmax : 0 < maxLegs) :
    ∀ t ∈ planTiers holdings floor maxLegs, TierShape holdings t := by
  apply tierLoop_shape hmax
  intro l hl
  rw [tierLevels_eq, mem_levels] at hl
  obtain ⟨h, hh, rfl⟩ := List.mem_map.mp hl
  exact ⟨h, hh, le_rfl⟩

theorem plan_tier_shape (e : Event) (ledger : Ledger) (floor : Nat) :
    ∀ t ∈ (e.plan ledger floor).tiers, TierShape (holdingsAt ledger e.legs) t := by
  rw [plan_tiers]
  exact planTiers_shape maxLegsPerConvert_pos

theorem tier_ids_sublist {e : Event} {ledger : Ledger} {t : ConvertTier}
    (h : TierShape (holdingsAt ledger e.legs) t) : t.questionIds.Sublist e.questions :=
  h.ids.trans (questions_holdingsAt ledger e.legs)

/-! ## Credits of a plan -/

def mergesCredit (merges : List (B256 × Nat)) : Nat := (merges.map Prod.snd).sum

def tierCredit (t : ConvertTier) : Nat :=
  (t.questionIds.length - 1) * t.amount + mergesCredit t.postMerges

def planCredit (plan : EventPlan) : Nat :=
  mergesCredit plan.merges + (plan.tiers.map tierCredit).sum

theorem credits_append (ops ops' : List Op) : credits (ops ++ ops') = credits ops + credits ops' := by
  simp [credits]

theorem credits_merges (merges : List (B256 × Nat)) :
    credits (merges.map mergeOp) = mergesCredit merges := by
  simp [credits, mergesCredit, Function.comp_def, mergeOp, Op.credit]

theorem credits_tierOps {e : Event} {ledger : Ledger} {t : ConvertTier}
    (h : TierShape (holdingsAt ledger e.legs) t) : credits (tierOps t) = tierCredit t := by
  have hn : (t.questionIds.map questionIndex).Nodup := by
    have hd := e.distinctIndex
    rw [← Function.comp_def questionIndex, ← List.map_map] at hd
    exact hd.sublist ((tier_ids_sublist h).map questionIndex)
  have hpop := popcount_indexSet hn
  have hc := credits_merges t.postMerges
  unfold tierOps tierCredit
  cases hq : t.questionIds with
  | nil => exact absurd hq h.nonempty
  | cons q qs =>
    rw [hq] at hpop
    simp only [credits, List.map_cons, List.sum_cons, Op.credit, hpop] at hc ⊢
    rw [hc]

/-- What executing a plan credits, read off the plan. -/
theorem credits_planOps (e : Event) (ledger : Ledger) (floor : Nat) :
    credits (planOps (e.plan ledger floor)) = planCredit (e.plan ledger floor) := by
  have hshape := plan_tier_shape e ledger floor
  rw [planOps, credits_append, credits_merges, planCredit]
  congr 1
  generalize (e.plan ledger floor).tiers = ts at hshape
  induction ts with
  | nil => rfl
  | cons t ts ih =>
    rw [List.flatMap_cons, credits_append, List.map_cons, List.sum_cons,
      credits_tierOps (hshape t List.mem_cons_self),
      ih (fun k hk => hshape k (List.mem_cons_of_mem t hk))]

/-! ## Wrapping sums -/

theorem addMerges_mod (acc : Nat) (merges : List (B256 × Nat)) :
    addMerges acc merges % wordSize = (acc + mergesCredit merges) % wordSize := by
  induction merges generalizing acc with
  | nil => rfl
  | cons m merges ih =>
    have h := ih (U256.add acc m.2)
    simp only [addMerges, mergesCredit, List.foldl_cons, List.map_cons, List.sum_cons] at h ⊢
    rw [h, U256.add, Nat.mod_add_mod, Nat.add_assoc]

theorem addTier_mod (acc : Nat) (t : ConvertTier) :
    addTier acc t % wordSize = (acc + tierCredit t) % wordSize := by
  rw [addTier, addMerges_mod, U256.add, U256.mul, Nat.mod_add_mod, Nat.add_right_comm,
    Nat.add_mod_mod, tierCredit, Nat.add_right_comm, Nat.add_assoc]

theorem foldl_addTier_mod (acc : Nat) (ts : List ConvertTier) :
    ts.foldl addTier acc % wordSize = (acc + (ts.map tierCredit).sum) % wordSize := by
  induction ts generalizing acc with
  | nil => rfl
  | cons t ts ih =>
    rw [List.foldl_cons, ih, List.map_cons, List.sum_cons, ← Nat.mod_add_mod, addTier_mod,
      Nat.mod_add_mod, Nat.add_assoc]

/-- The planner's sum is the plan's credit, wrapped. -/
theorem proceeds_mod (merges : List (B256 × Nat)) (tiers : List ConvertTier) (nLegs : Nat) :
    (planEvent merges tiers nLegs).proceeds % wordSize =
      planCredit (planEvent merges tiers nLegs) % wordSize := by
  simp only [planEvent, planCredit]
  rw [foldl_addTier_mod, ← Nat.mod_add_mod, addMerges_mod, Nat.mod_add_mod, Nat.zero_add]

private theorem addMerges_lt (merges : List (B256 × Nat)) {acc : Nat} (h : acc < wordSize) :
    addMerges acc merges < wordSize := by
  induction merges generalizing acc with
  | nil => exact h
  | cons m merges ih => exact ih (Nat.mod_lt _ (by decide))

private theorem foldl_addTier_lt (ts : List ConvertTier) {acc : Nat} (h : acc < wordSize) :
    ts.foldl addTier acc < wordSize := by
  induction ts generalizing acc with
  | nil => exact h
  | cons t ts ih => exact ih (addMerges_lt t.postMerges (Nat.mod_lt _ (by decide)))

theorem proceeds_lt (merges : List (B256 × Nat)) (tiers : List ConvertTier) (nLegs : Nat) :
    (planEvent merges tiers nLegs).proceeds < wordSize :=
  foldl_addTier_lt tiers (addMerges_lt merges (by decide))

theorem proceeds_eq_mod (e : Event) (ledger : Ledger) (floor : Nat) :
    (e.plan ledger floor).proceeds = planCredit (e.plan ledger floor) % wordSize := by
  have h : (e.plan ledger floor).proceeds % wordSize = planCredit (e.plan ledger floor) % wordSize :=
    proceeds_mod _ _ _
  rwa [Nat.mod_eq_of_lt (a := (e.plan ledger floor).proceeds) (proceeds_lt _ _ _)] at h

/-! ## The closed form -/

/-- The members of a level that the cap leaves out of its tier. -/
def truncatedMembers (holdings : List NoHolding) (level maxLegs : Nat) : List NoHolding :=
  (tierMembers holdings level).drop maxLegs

/-- The YES minted on truncated members that no merge can free: a list of tiers, each
behind the level it was cut at. -/
def uncompensated (holdings : List NoHolding) (maxLegs : Nat)
    (cuts : List (Nat × ConvertTier)) : Nat :=
  (cuts.map fun cut =>
    cut.2.amount * (truncatedMembers holdings cut.1 maxLegs).countP (·.conditionId.isNone)).sum

theorem uncompensated_eq_zero {holdings : List NoHolding} (maxLegs : Nat)
    (hc : ∀ h ∈ holdings, h.conditionId.isSome = true) (cuts : List (Nat × ConvertTier)) :
    uncompensated holdings maxLegs cuts = 0 := by
  apply List.sum_eq_zero
  intro x hx
  obtain ⟨cut, -, rfl⟩ := List.mem_map.mp hx
  have hnone : (truncatedMembers holdings cut.1 maxLegs).countP (·.conditionId.isNone) = 0 := by
    apply List.countP_eq_zero.mpr
    intro h hh
    obtain ⟨cid, hcid⟩ :=
      Option.isSome_iff_exists.mp (hc h (List.mem_of_mem_filter (List.mem_of_mem_drop hh)))
    simp [hcid]
  rw [hnone, Nat.mul_zero]

theorem length_tierMembers (holdings : List NoHolding) (level : Nat) :
    (tierMembers holdings level).length = (holdings.map (·.remainingNo)).countP (level ≤ ·) := by
  rw [tierMembers, List.countP_map, List.countP_eq_length_filter]
  rfl

/-- Each member of a list is paid for by a merge or has no condition id. -/
theorem mergesCredit_filterMap (hs : List NoHolding) (amount : Nat) :
    mergesCredit (hs.filterMap fun h => h.conditionId.map fun cid => (cid, amount)) +
      amount * hs.countP (·.conditionId.isNone) = hs.length * amount := by
  induction hs with
  | nil => simp [mergesCredit]
  | cons h hs ih =>
    cases hcid : h.conditionId with
    | none =>
      simp only [List.filterMap_cons, hcid, Option.map_none, List.countP_cons, Option.isNone_none,
        if_true, List.length_cons, Nat.succ_mul, Nat.mul_add, Nat.mul_one]
      omega
    | some cid =>
      simp only [mergesCredit, List.filterMap_cons, hcid, Option.map_some, List.map_cons,
        List.sum_cons, List.countP_cons, Option.isNone_some, List.length_cons,
        Nat.succ_mul] at ih ⊢
      simp only [Bool.false_eq_true, if_false, Nat.add_zero]
      omega

section Capped
variable {maxLegs : Nat} (hmax : 0 < maxLegs)
include hmax

/-- A truncated tier credits as much as an untruncated one, but for the members that
cannot be merged against the YES the convert minted on them. -/
theorem tierCredit_mkTier {members : List NoHolding} (hne : members ≠ []) (amount : Nat) :
    tierCredit (mkTier members amount maxLegs) +
        amount * (members.drop maxLegs).countP (·.conditionId.isNone) + amount =
      members.length * amount := by
  have hpost := mergesCredit_filterMap (members.drop maxLegs) amount
  have hlen : 0 < members.length := List.length_pos_iff.mpr hne
  have htake : 0 < min maxLegs members.length := by omega
  have hsplit : min maxLegs members.length + (members.length - maxLegs) = members.length := by omega
  rw [List.length_drop] at hpost
  simp only [tierCredit, mkTier, List.length_map, List.length_take]
  calc (min maxLegs members.length - 1) * amount + mergesCredit _ + amount * _ + amount
      = (min maxLegs members.length - 1) * amount + (members.length - maxLegs) * amount + amount := by
        rw [Nat.add_assoc _ (mergesCredit _), hpost]
    _ = (min maxLegs members.length - 1 + 1) * amount + (members.length - maxLegs) * amount := by
        rw [Nat.succ_mul, Nat.add_right_comm]
    _ = (min maxLegs members.length + (members.length - maxLegs)) * amount := by
        rw [Nat.sub_add_cancel htake, Nat.add_mul]
    _ = members.length * amount := by rw [hsplit]

/-- From a level on, the tiers free what lies above it but for the largest holding. The
induction is on the levels still to come; dropping a lone last one costs nothing. -/
theorem tiersCredit_tierLoop (holdings : List NoHolding) (floor : Nat) {prev : Nat} {ls : List Nat}
    (h : LevelsAbove (holdings.map (·.remainingNo)) prev ls) :
    ((tierLoop holdings floor maxLegs prev ls).map tierCredit).sum +
        uncompensated holdings maxLegs (ls.zip (tierLoop holdings floor maxLegs prev ls)) +
        (top (holdings.map (·.remainingNo)) - prev) =
      ((holdings.map (·.remainingNo)).map (· - prev)).sum := by
  induction ls generalizing prev with
  | nil =>
    have hzero : ((holdings.map (·.remainingNo)).map (· - prev)).sum = 0 := by
      apply List.sum_eq_zero
      intro x hx
      obtain ⟨size, hsize, rfl⟩ := List.mem_map.mp hx
      exact Nat.sub_eq_zero_of_le (h.le_prev size hsize)
    have htop : top (holdings.map (·.remainingNo)) - prev = 0 :=
      Nat.sub_eq_zero_of_le (top_le h.le_prev)
    rw [hzero, htop]
    rfl
  | cons level ls ih =>
    obtain ⟨hlevel, hlt⟩ := h.head
    have htop := Levels.le_top hlevel
    have hgap := sum_sub_gap hlt.le h.gap
    rw [← length_tierMembers] at hgap
    rw [hgap, ← ih h.next, tierLoop]
    split
    next hdust =>
      obtain ⟨hlone, -⟩ := hdust
      obtain rfl := h.last_of_lone (length_tierMembers holdings level ▸ hlone)
      rw [hlone]
      simp only [tierLoop, List.zip_nil_right, uncompensated, List.map_nil, List.sum_nil]
      omega
    next =>
      have hne : tierMembers holdings level ≠ [] := by
        obtain ⟨x, hx, rfl⟩ := List.mem_map.mp hlevel
        exact List.ne_nil_of_mem (List.mem_filter.mpr ⟨hx, decide_eq_true le_rfl⟩)
      have htier := tierCredit_mkTier hmax hne (level - prev)
      simp only [List.zip_cons_cons, uncompensated, List.map_cons, List.sum_cons, truncatedMembers,
        mkTier] at htier ⊢
      omega

/-- The tiers free everything but the largest holding, whatever the floor, but for the
members they cannot compensate. -/
theorem tiersCredit_planTiers {holdings : List NoHolding} (hpos : ∀ h ∈ holdings, 0 < h.remainingNo)
    (floor : Nat) :
    ((planTiers holdings floor maxLegs).map tierCredit).sum +
        uncompensated holdings maxLegs ((tierLevels holdings).zip (planTiers holdings floor maxLegs)) +
        top (holdings.map (·.remainingNo)) =
      (holdings.map (·.remainingNo)).sum := by
  have h := tiersCredit_tierLoop hmax holdings floor (levelsAbove_tierLevels hpos)
  simp only [Nat.sub_zero, List.map_id'] at h
  exact h

end Capped

/-! ## The value of an event, read off the plan -/

def Event.totalNo (e : Event) (ledger : Ledger) : Nat :=
  CompleteSet.totalNo e.outcomes (e.position ledger)

/-- The event's NO total as the plain sum over its legs. -/
theorem totalNo_eq (e : Event) (ledger : Ledger) :
    e.totalNo ledger = (e.legs.map (fun l => ledger.no l.questionId)).sum := by
  unfold Event.totalNo CompleteSet.totalNo Event.outcomes
  rw [List.sum_toFinset _ e.questions_nodup, Event.questions, List.map_map]
  rfl

theorem value_le_totalNo (e : Event) (ledger : Ledger) : e.value ledger ≤ e.totalNo ledger :=
  Nat.sub_le _ _

theorem depth_eq_top (e : Event) (ledger : Ledger) :
    e.depth ledger = top ((holdingsAt ledger e.legs).map (·.remainingNo)) := by
  unfold Event.depth CompleteSet.depth
  apply le_antisymm
  · apply Finset.sup_le
    intro q hq
    obtain ⟨l, hl, rfl⟩ := List.mem_map.mp (List.mem_toFinset.mp hq)
    simp only [Event.position]
    by_cases hlt : ledger.yes l.questionId < ledger.no l.questionId
    · have hheld : holdingOf l (ledger.no l.questionId) (ledger.yes l.questionId) = some
          ⟨l.questionId, l.conditionId, ledger.no l.questionId - ledger.yes l.questionId⟩ := by
        rw [holdingOf_eq, if_pos hlt]
      have hmem : _ ∈ holdingsAt ledger e.legs := List.mem_filterMap.mpr ⟨l, hl, hheld⟩
      exact Levels.le_top (List.mem_map_of_mem (f := NoHolding.remainingNo) hmem)
    · have hzero : ledger.no l.questionId - ledger.yes l.questionId = 0 := by omega
      exact hzero.le.trans (Nat.zero_le _)
  · apply top_le
    intro x hx
    obtain ⟨h, hh, rfl⟩ := List.mem_map.mp hx
    obtain ⟨l, hl, _, _, hr, _⟩ := mem_holdingsAt hh
    rw [hr]
    exact Finset.le_sup (f := fun q => ledger.no q - ledger.yes q)
      (List.mem_toFinset.mpr (e.mem_questions hl))

/-- Merges and holdings split every NO balance. -/
theorem merges_add_holdings (ledger : Ledger) (legs : List ConvertLeg)
    (hc : ∀ l ∈ legs, l.conditionId.isSome = true) :
    mergesCredit (mergesAt ledger legs) + ((holdingsAt ledger legs).map (·.remainingNo)).sum =
      (legs.map (fun l => ledger.no l.questionId)).sum := by
  induction legs with
  | nil => rfl
  | cons l legs ih =>
    have ih' := ih (fun k hk => hc k (List.mem_cons_of_mem l hk))
    obtain ⟨c, hcid⟩ := Option.isSome_iff_exists.mp (hc l List.mem_cons_self)
    have hmerge : mergesCredit (mergesAt ledger (l :: legs)) =
        min (ledger.yes l.questionId) (ledger.no l.questionId) +
          mergesCredit (mergesAt ledger legs) := by
      rw [mergesAt_cons]
      by_cases hpos : 0 < ledger.yes l.questionId ∧ 0 < ledger.no l.questionId
      · simp [mergeOf, hpos, hcid, mergesCredit]
      · have hzero : min (ledger.yes l.questionId) (ledger.no l.questionId) = 0 := by omega
        simp [mergeOf, hpos, hzero]
    have hhold : ((holdingsAt ledger (l :: legs)).map (·.remainingNo)).sum =
        (ledger.no l.questionId - ledger.yes l.questionId) +
          ((holdingsAt ledger legs).map (·.remainingNo)).sum := by
      by_cases hlt : ledger.yes l.questionId < ledger.no l.questionId
      · simp [holdingsAt, holdingOf_eq, hlt]
      · have hzero : ledger.no l.questionId - ledger.yes l.questionId = 0 := by omega
        simp [holdingsAt, holdingOf_eq, hlt, hzero]
    rw [hmerge, hhold, List.map_cons, List.sum_cons]
    omega

/-- When every leg has a condition id the plan credits the whole value of the event. -/
theorem planCredit_eq_value (e : Event) (ledger : Ledger) (floor : Nat)
    (hc : ∀ l ∈ e.legs, l.conditionId.isSome = true) :
    planCredit (e.plan ledger floor) = e.value ledger := by
  have hsome : ∀ h ∈ holdingsAt ledger e.legs, h.conditionId.isSome = true := by
    intro h hh
    obtain ⟨l, hl, _, hcid, _⟩ := mem_holdingsAt hh
    rw [hcid]
    exact hc l hl
  have hpos : ∀ h ∈ holdingsAt ledger e.legs, 0 < h.remainingNo := by
    intro h hh
    obtain ⟨l, _, _, _, hr, hlt⟩ := mem_holdingsAt hh
    omega
  have htiers := tiersCredit_planTiers maxLegsPerConvert_pos hpos floor
  rw [uncompensated_eq_zero maxLegsPerConvert hsome] at htiers
  have hsplit := merges_add_holdings ledger e.legs hc
  rw [← totalNo_eq] at hsplit
  rw [← depth_eq_top] at htiers
  have hvalue : e.value ledger = e.totalNo ledger - e.depth ledger := rfl
  rw [hvalue, planCredit, plan_merges, plan_tiers]
  omega

/-- No wrapping: the planned proceeds are the event's value. -/
theorem proceeds_eq_value (e : Event) (ledger : Ledger) (floor : Nat)
    (hc : ∀ l ∈ e.legs, l.conditionId.isSome = true) (hlt : e.totalNo ledger < wordSize) :
    (e.plan ledger floor).proceeds = e.value ledger := by
  rw [proceeds_eq_mod, planCredit_eq_value e ledger floor hc]
  exact Nat.mod_eq_of_lt (lt_of_le_of_lt (value_le_totalNo e ledger) hlt)

end Eggplant.Convert
