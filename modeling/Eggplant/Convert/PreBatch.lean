import Eggplant.Convert.Execute

/-!
# Calls against the pre-batch snapshot

A relayer that simulates every call on its own sees the balances from before the
batch. Merges and converts pass that test always. A post-merge burns YES that its
own tier's convert mints, so it passes only when the leg held that much YES
already: `PreBatchCovered` is the exact condition, in raw balances.
-/
namespace Eggplant.Convert

set_option autoImplicit false

open Eggplant.Lib Eggplant.Lib.Words Eggplant.Lib.Levels

/-! ## The tiers that reach past the cap -/

/-- The next smaller size, zero below the smallest. -/
def sizeBelow (holdings : List NoHolding) (level : Nat) : Nat :=
  top ((holdings.map (·.remainingNo)).filter (fun x => decide (x < level)))

/-- The amount a tier at `level` takes off every member fits into `y`. -/
theorem sub_sizeBelow_le (holdings : List NoHolding) (level y : Nat) :
    level - sizeBelow holdings level ≤ y ↔
      level ≤ y ∨ ∃ h ∈ holdings, h.remainingNo < level ∧ level ≤ h.remainingNo + y := by
  constructor
  · intro h
    by_cases hnone : (holdings.map (·.remainingNo)).filter (fun x => decide (x < level)) = []
    · rw [sizeBelow, hnone] at h
      exact Or.inl h
    · have hmem := top_mem hnone
      obtain ⟨hsize, hlt⟩ := List.mem_filter.mp hmem
      obtain ⟨x, hx, hxe⟩ := List.mem_map.mp hsize
      have hlt' := of_decide_eq_true hlt
      refine Or.inr ⟨x, hx, ?_, ?_⟩
      · rw [hxe]
        exact hlt'
      · rw [hxe]
        unfold sizeBelow at h
        omega
  · intro h
    rcases h with h | ⟨x, hx, hlt, hle⟩
    · exact (Nat.sub_le _ _).trans h
    · have hmem : x.remainingNo ∈
          (holdings.map (·.remainingNo)).filter (fun x => decide (x < level)) :=
        List.mem_filter.mpr ⟨List.mem_map_of_mem hx, decide_eq_true hlt⟩
      have hbelow : x.remainingNo ≤ sizeBelow holdings level := Levels.le_top hmem
      omega

/-- What must hold of the holdings a tier leaves to post-merges. -/
def PostMergesOk (ok : B256 × Nat → Prop) (holdings : List NoHolding) (maxLegs level : Nat) : Prop :=
  ∀ h ∈ (tierMembers holdings level).drop maxLegs, ∀ c, h.conditionId = some c →
    ok (c, level - sizeBelow holdings level)

private theorem mem_postMerges {members : List NoHolding} {amount maxLegs : Nat} {m : B256 × Nat} :
    m ∈ (mkTier members amount maxLegs).postMerges ↔
      ∃ h ∈ members.drop maxLegs, ∃ c, h.conditionId = some c ∧ (c, amount) = m := by
  simp only [mkTier, List.mem_filterMap, Option.map_eq_some_iff]

/-- A level with a single member leaves none to a post-merge. -/
private theorem postMergesOk_of_lone {ok : B256 × Nat → Prop} {holdings : List NoHolding}
    {maxLegs level : Nat} (hmax : 0 < maxLegs) (hlone : (tierMembers holdings level).length = 1) :
    PostMergesOk ok holdings maxLegs level := by
  intro h hh
  rw [List.drop_eq_nil_of_le (by omega)] at hh
  cases hh

private theorem mkTier_postMerges {ok : B256 × Nat → Prop} {holdings : List NoHolding}
    {maxLegs level prev : Nat} (hbelow : sizeBelow holdings level = prev) :
    (∀ m ∈ (mkTier (tierMembers holdings level) (level - prev) maxLegs).postMerges, ok m) ↔
      PostMergesOk ok holdings maxLegs level := by
  rw [PostMergesOk, hbelow]
  constructor
  · intro h x hx c hc
    exact h _ (mem_postMerges.mpr ⟨x, hx, c, hc, rfl⟩)
  · intro h m hm
    obtain ⟨x, hx, c, hc, rfl⟩ := mem_postMerges.mp hm
    exact h x hx c hc

/-- A lone member is never left to a post-merge, so where the loop stops does not
matter: all levels count. The induction is on the levels still to come. -/
private theorem tierLoop_postMerges {holdings : List NoHolding} {floor maxLegs : Nat}
    (hmax : 0 < maxLegs) (ok : B256 × Nat → Prop) {ls : List Nat} {prev : Nat}
    (h : LevelsAbove (holdings.map (·.remainingNo)) prev ls) :
    (∀ t ∈ tierLoop holdings floor maxLegs prev ls, ∀ m ∈ t.postMerges, ok m) ↔
      ∀ level ∈ ls, PostMergesOk ok holdings maxLegs level := by
  induction ls generalizing prev with
  | nil => simp [tierLoop]
  | cons level ls ih =>
    have hbelow : sizeBelow holdings level = prev := h.top_below
    by_cases hstop : (tierMembers holdings level).length = 1 ∧ level - prev < floor
    · obtain rfl := h.last_of_lone (length_tierMembers holdings level ▸ hstop.1)
      have hloop : tierLoop holdings floor maxLegs prev [level] = [] := by
        rw [tierLoop]
        exact if_pos hstop
      have hok : PostMergesOk ok holdings maxLegs level := postMergesOk_of_lone hmax hstop.1
      rw [hloop]
      exact ⟨fun _ => List.forall_mem_singleton.mpr hok, fun _ t ht => absurd ht List.not_mem_nil⟩
    · have hloop : tierLoop holdings floor maxLegs prev (level :: ls) =
          mkTier (tierMembers holdings level) (level - prev) maxLegs ::
            tierLoop holdings floor maxLegs level ls := by
        rw [tierLoop]
        exact if_neg hstop
      rw [hloop, List.forall_mem_cons, List.forall_mem_cons, mkTier_postMerges hbelow, ih h.next]

theorem planTiers_postMerges {holdings : List NoHolding} {floor maxLegs : Nat}
    (hmax : 0 < maxLegs) (hpos : ∀ h ∈ holdings, 0 < h.remainingNo) (ok : B256 × Nat → Prop) :
    (∀ t ∈ planTiers holdings floor maxLegs, ∀ m ∈ t.postMerges, ok m) ↔
      ∀ h ∈ holdings, PostMergesOk ok holdings maxLegs h.remainingNo := by
  have hloop : (∀ t ∈ planTiers holdings floor maxLegs, ∀ m ∈ t.postMerges, ok m) ↔ _ :=
    tierLoop_postMerges hmax ok (levelsAbove_tierLevels hpos)
  rw [hloop]
  simp only [tierLevels_eq, mem_levels, List.forall_mem_map]

/-! ## In raw balances -/

def Ledger.net (ledger : Ledger) (l : ConvertLeg) : Nat :=
  ledger.no l.questionId - ledger.yes l.questionId

def Ledger.holding (ledger : Ledger) (l : ConvertLeg) : NoHolding where
  questionId := l.questionId
  conditionId := l.conditionId
  remainingNo := ledger.net l

theorem holdingsAt_eq (ledger : Ledger) (legs : List ConvertLeg) :
    holdingsAt ledger legs =
      (legs.filter (fun l => decide (0 < ledger.net l))).map ledger.holding := by
  rw [holdingsAt, ← List.filterMap_eq_map, List.filterMap_filter]
  apply List.filterMap_congr
  intro l _
  rw [holdingOf_eq]
  by_cases h : 0 < ledger.net l
  · have hlt : ledger.yes l.questionId < ledger.no l.questionId := by
      unfold Ledger.net at h
      omega
    simp [hlt, Ledger.holding, Ledger.net]
  · have hge : ¬ ledger.yes l.questionId < ledger.no l.questionId := by
      unfold Ledger.net at h
      omega
    simp [h, hge]

theorem tierMembers_holdingsAt (ledger : Ledger) (legs : List ConvertLeg) {level : Nat}
    (hpos : 0 < level) : tierMembers (holdingsAt ledger legs) level =
      (legs.filter (fun l => decide (level ≤ ledger.net l))).map ledger.holding := by
  rw [tierMembers, holdingsAt_eq, List.filter_map, List.filter_filter]
  congr 1
  apply List.filter_congr
  intro l _
  by_cases h : level ≤ ledger.net l
  · have h0 : 0 < ledger.net l := by omega
    simp [Ledger.holding, h, h0]
  · simp [Ledger.holding, h]

/-- The members a cap cuts off, each with what stands before it. -/
private theorem mem_drop_filter {α : Type} (p : α → Bool) (xs : List α) (k : Nat) (x : α) :
    x ∈ (xs.filter p).drop k ↔
      ∃ before after, xs = before ++ x :: after ∧ p x = true ∧ k ≤ (before.filter p).length := by
  induction xs generalizing k with
  | nil => simp
  | cons y ys ih =>
    have hshift (n : Nat) : (∃ before after, y :: ys = before ++ x :: after ∧ p x = true ∧
        n ≤ (before.filter p).length) ↔ (y = x ∧ p x = true ∧ n = 0) ∨
        ∃ before after, ys = before ++ x :: after ∧ p x = true ∧
          n ≤ ((y :: before).filter p).length := by
      constructor
      · intro h
        obtain ⟨before, after, hsplit, hx, hn⟩ := h
        cases before with
        | nil =>
          obtain ⟨rfl, rfl⟩ := List.cons.inj hsplit
          exact Or.inl ⟨rfl, hx, Nat.le_zero.mp hn⟩
        | cons z before =>
          obtain ⟨rfl, rfl⟩ := List.cons.inj hsplit
          exact Or.inr ⟨before, after, rfl, hx, hn⟩
      · intro h
        rcases h with ⟨rfl, hx, rfl⟩ | ⟨before, after, rfl, hx, hn⟩
        · exact ⟨[], ys, rfl, hx, Nat.zero_le _⟩
        · exact ⟨y :: before, after, rfl, hx, hn⟩
    rw [hshift]
    by_cases hy : p y = true
    · cases k with
      | zero =>
        have h0 := ih 0
        rw [List.drop_zero] at h0
        rw [List.filter_cons_of_pos hy, List.drop_zero, List.mem_cons, h0]
        simp only [Nat.zero_le, and_true]
        constructor
        · intro h
          rcases h with rfl | h
          · exact Or.inl ⟨rfl, hy⟩
          · exact Or.inr h
        · intro h
          rcases h with ⟨rfl, _⟩ | h
          · exact Or.inl rfl
          · exact Or.inr h
      | succ k =>
        rw [List.filter_cons_of_pos hy, List.drop_succ_cons, ih k]
        simp only [List.filter_cons_of_pos hy, List.length_cons, Nat.add_le_add_iff_right]
        simp
    · rw [List.filter_cons_of_neg hy, ih k]
      simp only [List.filter_cons_of_neg hy]
      constructor
      · exact Or.inr
      · intro h
        rcases h with ⟨rfl, hx, _⟩ | h
        · exact absurd hx hy
        · exact h

/-- Every leg with a condition id that stands behind 20 legs of the same tier already
held the YES its post-merge burns: the tier's amount, which is the tier's level
down to the next smaller net NO position. -/
def PreBatchCovered (e : Event) (ledger : Ledger) : Prop :=
  ∀ before l after, e.legs = before ++ l :: after → l.conditionId.isSome = true →
    ∀ k ∈ e.legs, 0 < ledger.net k → ledger.net k ≤ ledger.net l →
      maxLegsPerConvert ≤ (before.filter (fun j => decide (ledger.net k ≤ ledger.net j))).length →
      ledger.net k ≤ ledger.yes l.questionId ∨
        ∃ j ∈ e.legs, ledger.net j < ledger.net k ∧
          ledger.net k ≤ ledger.net j + ledger.yes l.questionId

theorem sizeBelow_holdingsAt (ledger : Ledger) (legs : List ConvertLeg) (level y : Nat) :
    level - sizeBelow (holdingsAt ledger legs) level ≤ y ↔
      level ≤ y ∨ ∃ j ∈ legs, ledger.net j < level ∧ level ≤ ledger.net j + y := by
  rw [sub_sizeBelow_le, holdingsAt_eq]
  constructor
  · intro h
    rcases h with h | ⟨x, hx, hlt, hle⟩
    · exact Or.inl h
    · obtain ⟨j, hj, rfl⟩ := List.mem_map.mp hx
      exact Or.inr ⟨j, (List.mem_filter.mp hj).1, hlt, hle⟩
  · intro h
    rcases h with h | ⟨j, hj, hlt, hle⟩
    · exact Or.inl h
    · by_cases hpos : 0 < ledger.net j
      · refine Or.inr ⟨ledger.holding j, List.mem_map_of_mem ?_, hlt, hle⟩
        exact List.mem_filter.mpr ⟨hj, decide_eq_true hpos⟩
      · exact Or.inl (by omega)

/-! ## Single calls -/

section Listed
variable {registry : List ConvertLeg} {e : Event} (hl : Listed registry e)
include hl

theorem exec_merge_isSome {l : ConvertLeg} (hleg : l ∈ e.legs) {c : B256}
    (hc : l.conditionId = some c) (ledger : Ledger) (a : Nat) :
    (exec registry ledger (.merge c a)).isSome = true ↔
      a ≤ ledger.no l.questionId ∧ a ≤ ledger.yes l.questionId := by
  rw [exec_merge_listed hl hleg hc]
  split
  · rename_i h
    exact ⟨fun _ => h, fun _ => rfl⟩
  · rename_i h
    exact ⟨fun h' => (nomatch h'), fun h' => absurd h' h⟩

theorem exec_tierConvert_isSome (ledger : Ledger) {t : ConvertTier}
    (h : TierShape (holdingsAt ledger e.legs) t) :
    ∀ op ∈ tierConvert t, (exec registry ledger op).isSome = true := by
  intro op hop
  unfold tierConvert tierOps at hop
  cases hq : t.questionIds with
  | nil => exact absurd hq h.nonempty
  | cons q qs =>
    rw [hq, List.take_succ_cons, List.take_zero, List.mem_singleton] at hop
    have hids := tier_ids_sublist h
    have hcovered := h.covered
    rw [hq] at hids hcovered
    have hno : ∀ q' ∈ q :: qs, t.amount ≤ ledger.no q' := by
      intro q' hq'
      obtain ⟨x, hx, rfl, hle⟩ := hcovered q' hq'
      obtain ⟨l, _, hxq, _, hr, _⟩ := mem_holdingsAt hx
      rw [hxq]
      omega
    obtain ⟨l, _, hmarket, burned, _, hexec⟩ :=
      exec_convert_listed hl (fun q' hq' => hids.subset hq') hno
    rw [hop, hmarket, hexec]
    rfl

/-- All post-merges pass on the snapshot exactly when the snapshot covers them. -/
theorem postMerges_isSome_iff (ledger : Ledger) (floor : Nat) :
    (∀ t ∈ (e.plan ledger floor).tiers, ∀ m ∈ t.postMerges,
      (exec registry ledger (mergeOp m)).isSome = true) ↔ PreBatchCovered e ledger := by
  have hpos : ∀ h ∈ holdingsAt ledger e.legs, 0 < h.remainingNo := by
    intro h hh
    obtain ⟨l, _, _, _, hr, hlt⟩ := mem_holdingsAt hh
    omega
  rw [plan_tiers, planTiers_postMerges maxLegsPerConvert_pos hpos
    (fun m => (exec registry ledger (mergeOp m)).isSome = true)]
  have hleg (k l : ConvertLeg) (hk : 0 < ledger.net k) (hlegs : l ∈ e.legs)
      (hle : ledger.net k ≤ ledger.net l) {c : B256} (hc : l.conditionId = some c) :
      (exec registry ledger (mergeOp
        (c, ledger.net k - sizeBelow (holdingsAt ledger e.legs) (ledger.net k)))).isSome = true ↔
      (ledger.net k ≤ ledger.yes l.questionId ∨ ∃ j ∈ e.legs, ledger.net j < ledger.net k ∧
        ledger.net k ≤ ledger.net j + ledger.yes l.questionId) := by
    have hnet : ledger.net l ≤ ledger.no l.questionId := Nat.sub_le _ _
    rw [mergeOp, exec_merge_isSome hl hlegs hc, ← sizeBelow_holdingsAt ledger e.legs]
    exact ⟨fun h => h.2, fun h => ⟨by omega, h⟩⟩
  constructor
  · intro h before l after hsplit hsome k hk hkpos hle hcut
    obtain ⟨c, hc⟩ := Option.isSome_iff_exists.mp hsome
    have hlegs : l ∈ e.legs := by
      rw [hsplit]
      exact List.mem_append_right before List.mem_cons_self
    have hheld : ledger.holding k ∈ holdingsAt ledger e.legs := by
      rw [holdingsAt_eq]
      exact List.mem_map_of_mem (List.mem_filter.mpr ⟨hk, decide_eq_true hkpos⟩)
    apply (hleg k l hkpos hlegs hle hc).mp
    apply h (ledger.holding k) hheld (ledger.holding l) _ c hc
    rw [show (ledger.holding k).remainingNo = ledger.net k from rfl,
      tierMembers_holdingsAt ledger e.legs hkpos, ← List.map_drop]
    apply List.mem_map_of_mem
    exact (mem_drop_filter _ _ _ _).mpr ⟨before, after, hsplit, decide_eq_true hle, hcut⟩
  · intro h x hx y hy c hc
    rw [holdingsAt_eq] at hx
    obtain ⟨k, hk, rfl⟩ := List.mem_map.mp hx
    obtain ⟨hklegs, hkpos⟩ := List.mem_filter.mp hk
    have hkpos' := of_decide_eq_true hkpos
    rw [show (ledger.holding k).remainingNo = ledger.net k from rfl,
      tierMembers_holdingsAt ledger e.legs hkpos', ← List.map_drop] at hy
    obtain ⟨l, hlmem, rfl⟩ := List.mem_map.mp hy
    obtain ⟨before, after, hsplit, hle, hcut⟩ := (mem_drop_filter _ _ _ _).mp hlmem
    have hle' := of_decide_eq_true hle
    have hlegs : l ∈ e.legs := by
      rw [hsplit]
      exact List.mem_append_right before List.mem_cons_self
    have hsome : l.conditionId.isSome = true := Option.isSome_iff_exists.mpr ⟨c, hc⟩
    exact (hleg k l hkpos' hlegs hle' hc).mpr
      (h before l after hsplit hsome k hklegs hkpos' hle' hcut)

theorem planOps_isSome_iff (ledger : Ledger) (floor : Nat) :
    (∀ op ∈ planOps (e.plan ledger floor), (exec registry ledger op).isSome = true) ↔
      PreBatchCovered e ledger := by
  have hshape := plan_tier_shape e ledger floor
  rw [← postMerges_isSome_iff hl ledger floor]
  constructor
  · intro h t ht m hm
    apply h
    apply List.mem_append_right
    refine List.mem_flatMap.mpr ⟨t, ht, ?_⟩
    rw [tierOps_eq (hshape t ht).nonempty]
    exact List.mem_append_right _ (List.mem_map_of_mem hm)
  · intro h op hop
    rcases List.mem_append.mp hop with hop | hop
    · obtain ⟨m, hm, rfl⟩ := List.mem_map.mp hop
      rw [plan_merges] at hm
      obtain ⟨l, hleg, he⟩ := List.mem_filterMap.mp hm
      obtain ⟨hc, hmin, _, _⟩ := mergeOf_eq_some he
      exact (exec_merge_isSome hl hleg hc ledger m.2).mpr ⟨by omega, by omega⟩
    · obtain ⟨t, ht, hop⟩ := List.mem_flatMap.mp hop
      rw [tierOps_eq (hshape t ht).nonempty] at hop
      rcases List.mem_append.mp hop with hop | hop
      · exact exec_tierConvert_isSome hl ledger (hshape t ht) op hop
      · obtain ⟨m, hm, rfl⟩ := List.mem_map.mp hop
        exact h t ht m hm

end Listed

/-- Legs behind the first 20 that hold their whole net NO position as YES can pay for
every post-merge that meets them; an event within the cap has no such legs. -/
theorem covered_of_held {e : Event} {ledger : Ledger}
    (h : ∀ l ∈ e.legs.drop maxLegsPerConvert, ledger.net l ≤ ledger.yes l.questionId) :
    PreBatchCovered e ledger := by
  intro before l after hsplit _ k _ _ hle hcut
  have hbefore : maxLegsPerConvert ≤ before.length := hcut.trans (List.length_filter_le _ _)
  have hdropped : l ∈ e.legs.drop maxLegsPerConvert := by
    rw [hsplit, List.drop_append_of_le_length hbefore]
    exact List.mem_append_right _ List.mem_cons_self
  exact Or.inl (hle.trans (h l hdropped))

/-! ## The call list -/

theorem stands_isSome {registry : List ConvertLeg} {ledger : Ledger}
    {calls : List DepositWalletCall} {ops : List Op} (h : Stands calls ops) :
    (∀ call ∈ calls, (execCall registry ledger call).isSome = true) ↔
      ∀ op ∈ ops, (exec registry ledger op).isSome = true := by
  induction h with
  | nil => simp
  | cons hop _ ih =>
    rw [List.forall_mem_cons, List.forall_mem_cons, ih, execCall, hop, Option.bind_some]

/-- Every planned call executes alone on the snapshot if and only if every event's
snapshot covers its post-merges. -/
theorem calls_valid_pre_batch_iff (P : Portfolio) (ledger : Ledger) (singleLegMinQtyRaw : Nat)
    (hbal : ∀ e ∈ P.events, ∀ l ∈ e.legs, ledger.no l.questionId < wordSize) :
    ∃ calls,
      planCalls (P.events.map (fun e =>
        planEventFromBalances e.legs (ledger.pairs e.legs) singleLegMinQtyRaw)) = .ok calls ∧
      ((∀ p ∈ calls, (execCall P.legs ledger p.call).isSome = true) ↔
        ∀ e ∈ P.events, PreBatchCovered e ledger) := by
  obtain ⟨calls, _, hcalls, hstands, _⟩ := planCalls_reap P ledger singleLegMinQtyRaw hbal
  refine ⟨calls, hcalls, ?_⟩
  have hvalid : (∀ p ∈ calls, (execCall P.legs ledger p.call).isSome = true) ↔ _ :=
    List.forall_mem_map.symm.trans (stands_isSome hstands)
  rw [hvalid]
  constructor
  · intro h e he
    apply (planOps_isSome_iff (P.listed he) ledger singleLegMinQtyRaw).mp
    intro op hop
    exact h op (List.mem_flatMap.mpr ⟨e, he, hop⟩)
  · intro h op hop
    obtain ⟨e, he, hop⟩ := List.mem_flatMap.mp hop
    exact (planOps_isSome_iff (P.listed he) ledger singleLegMinQtyRaw).mpr (h e he) op hop

/-- An event one leg wider than the cap. -/
def wideMarket : Portfolio where
  events := [.numbered 0 21 (by decide)]
  differentMarkets := by decide
  distinctConditions := by decide +kernel

/-- Three NO on each of 21 legs and two YES on the last: its post-merge burns one YES,
which the snapshot holds. -/
def coveredLedger : Ledger :=
  ⟨fun _ => 3, fun q => if questionIndex q = 20 then 2 else 0, fun _ => 0⟩

/-- The wide event, covered: its plan has a post-merge and every call is valid on the snapshot. -/
theorem calls_valid_pre_batch_iff_wideMarket :
    (∃ e ∈ wideMarket.events, ∃ t ∈ (e.plan coveredLedger 0).tiers, t.postMerges ≠ []) ∧
    ∃ calls,
      planCalls (wideMarket.events.map (fun e =>
        planEventFromBalances e.legs (coveredLedger.pairs e.legs) 0)) = .ok calls ∧
      ∀ p ∈ calls, (execCall wideMarket.legs coveredLedger p.call).isSome = true := by
  refine ⟨by decide +kernel, ?_⟩
  obtain ⟨calls, hcalls, hiff⟩ :=
    calls_valid_pre_batch_iff wideMarket coveredLedger 0 (by decide +kernel)
  refine ⟨calls, hcalls, hiff.mpr ?_⟩
  have hheld : ∀ e ∈ wideMarket.events, ∀ l ∈ e.legs.drop maxLegsPerConvert,
      coveredLedger.net l ≤ coveredLedger.yes l.questionId := by decide +kernel
  exact fun e he => covered_of_held (hheld e he)

/-- One NO on each of 21 legs and no YES: the post-merge of the last leg burns a YES
that only the batch itself mints. -/
theorem wideMarket_post_merge_invalid :
    let ledger : Ledger := ⟨fun _ => 1, fun _ => 0, fun _ => 0⟩
    ∃ calls,
      planCalls (wideMarket.events.map (fun e =>
        planEventFromBalances e.legs (ledger.pairs e.legs) 0)) = .ok calls ∧
      ∃ p ∈ calls, (execCall wideMarket.legs ledger p.call).isSome = false := by
  intro ledger
  have hbad : (match planCalls (wideMarket.events.map (fun e =>
        planEventFromBalances e.legs (ledger.pairs e.legs) 0)) with
      | .ok calls => calls.any (fun p => !(execCall wideMarket.legs ledger p.call).isSome)
      | .error _ => false) = true := by decide +kernel
  cases hc : planCalls (wideMarket.events.map (fun e =>
      planEventFromBalances e.legs (ledger.pairs e.legs) 0)) with
  | error err =>
    rw [hc] at hbad
    cases hbad
  | ok calls =>
    rw [hc] at hbad
    obtain ⟨p, hp, hnone⟩ := List.any_eq_true.mp hbad
    exact ⟨calls, rfl, p, hp, Bool.not_eq_true' _ |>.mp hnone⟩

end Eggplant.Convert
