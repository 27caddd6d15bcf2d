import Eggplant.Convert.Harvest

/-!
# Planning again after the first convert

The planner reads one snapshot; a careful operator would read, convert once, and
read again. `replan_cons` says both do the same: after a plan's merges and its
first convert, the plan from the true balances is the rest of the first plan,
with the first tier's post-merges as its merges. Executing a whole plan is then
an induction on its tiers, `harvest_plan`.
-/
namespace Eggplant.Convert

set_option autoImplicit false

open Eggplant.Lib Eggplant.Lib.Words Eggplant.Lib.Levels

def mergesAt (ledger : Ledger) (legs : List ConvertLeg) : List (B256 × Nat) :=
  legs.filterMap (fun l => mergeOf l (ledger.no l.questionId) (ledger.yes l.questionId))

def holdingsAt (ledger : Ledger) (legs : List ConvertLeg) : List NoHolding :=
  legs.filterMap (fun l => holdingOf l (ledger.no l.questionId) (ledger.yes l.questionId))

def Event.plan (e : Event) (ledger : Ledger) (floor : Nat) : EventPlan :=
  planEventFromBalances e.legs (ledger.pairs e.legs) floor

theorem classifyEvent_pairs (ledger : Ledger) (legs : List ConvertLeg) :
    classifyEvent legs (ledger.pairs legs) = (mergesAt ledger legs, holdingsAt ledger legs) := by
  have hz : legs.zip (ledger.pairs legs) =
      legs.map (fun l => (l, ledger.no l.questionId, ledger.yes l.questionId)) := by
    rw [Ledger.pairs]
    conv_lhs => arg 1; rw [← List.map_id legs]
    rw [List.zip_map']
    rfl
  rw [classifyEvent_eq, hz, List.filterMap_map, List.filterMap_map]
  rfl

section
variable (e : Event) (ledger : Ledger) (floor : Nat)

theorem plan_merges : (e.plan ledger floor).merges = mergesAt ledger e.legs := by
  simp only [Event.plan, planEventFromBalances, classifyEvent_pairs, planEvent]

theorem plan_tiers : (e.plan ledger floor).tiers =
    planTiers (holdingsAt ledger e.legs) floor maxLegsPerConvert := by
  simp only [Event.plan, planEventFromBalances, classifyEvent_pairs, planEvent]

end

/-! ## One leg -/

theorem mergeOf_eq_some {l : ConvertLeg} {n y : Nat} {m : B256 × Nat} (h : mergeOf l n y = some m) :
    l.conditionId = some m.1 ∧ m.2 = min y n ∧ 0 < y ∧ 0 < n := by
  unfold mergeOf at h
  split at h
  · rename_i hpos
    obtain ⟨c, hc, rfl⟩ := Option.map_eq_some_iff.mp h
    exact ⟨hc, rfl, hpos⟩
  · cases h

theorem mergeOf_eq_none {l : ConvertLeg} {n y : Nat} (h : mergeOf l n y = none)
    (hc : l.conditionId.isSome = true) : n = 0 ∨ y = 0 := by
  obtain ⟨c, hc⟩ := Option.isSome_iff_exists.mp hc
  unfold mergeOf at h
  split at h
  · rw [hc] at h
    cases h
  · omega

theorem holdingOf_eq (l : ConvertLeg) (n y : Nat) :
    holdingOf l n y = if y < n then
      some { questionId := l.questionId, conditionId := l.conditionId, remainingNo := n - y }
    else none := by
  have hr : n - min y n = n - y := by omega
  unfold holdingOf
  rw [hr]
  by_cases h : y < n
  · rw [if_pos (by omega), if_pos h]
  · rw [if_neg (by omega), if_neg h]

theorem holdingOf_congr (l : ConvertLeg) {n y n' y' : Nat} (h : n' - y' = n - y) :
    holdingOf l n' y' = holdingOf l n y := by
  rw [holdingOf_eq, holdingOf_eq, h]
  by_cases hlt : y < n
  · rw [if_pos hlt, if_pos (by omega)]
  · rw [if_neg hlt, if_neg (by omega)]

theorem mem_holdingsAt {ledger : Ledger} {legs : List ConvertLeg} {h : NoHolding}
    (hh : h ∈ holdingsAt ledger legs) : ∃ l ∈ legs, h.questionId = l.questionId ∧
      h.conditionId = l.conditionId ∧
      h.remainingNo = ledger.no l.questionId - ledger.yes l.questionId ∧
      ledger.yes l.questionId < ledger.no l.questionId := by
  obtain ⟨l, hl, he⟩ := List.mem_filterMap.mp hh
  rw [holdingOf_eq] at he
  split at he
  · rename_i hlt
    obtain rfl := Option.some.inj he
    exact ⟨l, hl, rfl, rfl, rfl, hlt⟩
  · cases he

/-! ## The merges -/

/-- After the merges every leg has its old net NO, and a leg that can merge holds
one side only. -/
structure Netted (legs : List ConvertLeg) (before after : Ledger) : Prop where
  net : ∀ l ∈ legs, after.no l.questionId - after.yes l.questionId =
    before.no l.questionId - before.yes l.questionId
  apart : ∀ l ∈ legs, l.conditionId.isSome = true →
    after.no l.questionId = 0 ∨ after.yes l.questionId = 0

theorem mergesAt_cons (ledger : Ledger) (l : ConvertLeg) (legs : List ConvertLeg) :
    mergesAt ledger (l :: legs) =
      (mergeOf l (ledger.no l.questionId) (ledger.yes l.questionId)).toList ++ mergesAt ledger legs := by
  cases hm : mergeOf l (ledger.no l.questionId) (ledger.yes l.questionId) <;>
    simp [mergesAt, hm]

theorem mergesAt_congr {ledger ledger' : Ledger} {legs : List ConvertLeg}
    (h : ∀ l ∈ legs, ledger'.no l.questionId = ledger.no l.questionId ∧
      ledger'.yes l.questionId = ledger.yes l.questionId) :
    mergesAt ledger' legs = mergesAt ledger legs := by
  apply List.filterMap_congr
  intro l hl
  rw [(h l hl).1, (h l hl).2]

theorem holdingsAt_netted {legs : List ConvertLeg} {before after : Ledger}
    (h : Netted legs before after) : holdingsAt after legs = holdingsAt before legs :=
  List.filterMap_congr (fun l hl => holdingOf_congr l (h.net l hl))

theorem mergesAt_netted {legs : List ConvertLeg} {before after : Ledger}
    (h : Netted legs before after) : mergesAt after legs = [] := by
  apply List.filterMap_eq_nil_iff.mpr
  intro l hl
  cases hm : mergeOf l (after.no l.questionId) (after.yes l.questionId) with
  | none => rfl
  | some m =>
    obtain ⟨hc, _, hy, hn⟩ := mergeOf_eq_some hm
    rcases h.apart l hl (by rw [hc]; rfl) with h0 | h0 <;> omega

theorem Netted.cons {l : ConvertLeg} {legs : List ConvertLeg} {before after : Ledger}
    (hnet : after.no l.questionId - after.yes l.questionId =
      before.no l.questionId - before.yes l.questionId)
    (hapart : l.conditionId.isSome = true → after.no l.questionId = 0 ∨ after.yes l.questionId = 0)
    (h : Netted legs before after) : Netted (l :: legs) before after :=
  ⟨List.forall_mem_cons.mpr ⟨hnet, h.net⟩, List.forall_mem_cons.mpr ⟨hapart, h.apart⟩⟩

section Listed
variable {registry : List ConvertLeg} {e : Event} (hl : Listed registry e)
include hl

/-- The merges of any part of the event execute; the induction is on that part, and
what the later legs hold is untouched by the earlier merges. -/
private theorem harvest_mergesAt (legs : List ConvertLeg) (hsub : ∀ l ∈ legs, l ∈ e.legs)
    (hn : (legs.map (·.questionId)).Nodup) (ledger : Ledger) :
    ∃ after, Harvest registry e ledger ((mergesAt ledger legs).map mergeOp) after ∧
      Netted legs ledger after ∧
      ∀ q, q ∉ legs.map (·.questionId) → after.no q = ledger.no q ∧ after.yes q = ledger.yes q := by
  induction legs generalizing ledger with
  | nil => exact ⟨ledger, .nil ledger, ⟨by simp, by simp⟩, fun _ _ => ⟨rfl, rfl⟩⟩
  | cons l legs ih =>
    rw [List.map_cons, List.nodup_cons] at hn
    have hsub' : ∀ k ∈ legs, k ∈ e.legs := fun k hk => hsub k (List.mem_cons_of_mem l hk)
    have hleg := hsub l List.mem_cons_self
    have hother : ∀ k ∈ legs, k.questionId ≠ l.questionId := by
      intro k hk he
      exact hn.1 (he ▸ List.mem_map_of_mem hk)
    cases hm : mergeOf l (ledger.no l.questionId) (ledger.yes l.questionId) with
    | none =>
      obtain ⟨after, hrun, hnet, hframe⟩ := ih hsub' hn.2 ledger
      have hkeep := hframe l.questionId hn.1
      refine ⟨after, ?_, .cons ?_ ?_ hnet, ?_⟩
      · rw [mergesAt_cons, hm, Option.toList_none, List.nil_append]
        exact hrun
      · rw [hkeep.1, hkeep.2]
      · rw [hkeep.1, hkeep.2]
        exact mergeOf_eq_none hm
      · intro q hq
        exact hframe q (fun h => hq (List.mem_cons_of_mem _ h))
    | some m =>
      obtain ⟨hc, hamt, hy, hno⟩ := mergeOf_eq_some hm
      have hmin : m.2 ≤ ledger.no l.questionId ∧ m.2 ≤ ledger.yes l.questionId := by omega
      have hexec : exec registry ledger (mergeOp m) = some (ledger.merge l m.2) := by
        rw [mergeOp, exec_merge_listed hl hleg hc, if_pos hmin]
      have hsame : ∀ k ∈ legs, (ledger.merge l m.2).no k.questionId = ledger.no k.questionId ∧
          (ledger.merge l m.2).yes k.questionId = ledger.yes k.questionId := by
        intro k hk
        simp only [Ledger.merge, if_neg (hother k hk), and_self]
      obtain ⟨after, hrun, hnet, hframe⟩ := ih hsub' hn.2 (ledger.merge l m.2)
      have hkeep := hframe l.questionId hn.1
      simp only [Ledger.merge, if_true] at hkeep
      have htail : Netted legs ledger after := by
        refine ⟨fun k hk => ?_, hnet.apart⟩
        rw [hnet.net k hk, (hsame k hk).1, (hsame k hk).2]
      refine ⟨after, ?_, .cons ?_ ?_ htail, ?_⟩
      · rw [mergesAt_cons, hm, Option.toList_some, List.singleton_append, List.map_cons]
        rw [mergesAt_congr hsame] at hrun
        exact .cons ⟨.merge hleg hc m.2, Nat.zero_le _⟩ hexec hrun
      · rw [hkeep.1, hkeep.2]
        omega
      · rw [hkeep.1, hkeep.2]
        omega
      · intro q hq
        rw [List.map_cons, List.mem_cons, not_or] at hq
        obtain ⟨h1, h2⟩ := hframe q hq.2
        simp only [Ledger.merge, if_neg hq.1] at h1 h2
        exact ⟨h1, h2⟩

theorem harvest_merges (ledger : Ledger) :
    ∃ after, Harvest registry e ledger ((mergesAt ledger e.legs).map mergeOp) after ∧
      Netted e.legs ledger after := by
  obtain ⟨after, hrun, hnet, _⟩ :=
    harvest_mergesAt hl e.legs (fun _ h => h) e.questions_nodup ledger
  exact ⟨after, hrun, hnet⟩

end Listed

/-! ## The first convert -/

theorem questions_holdingsAt (ledger : Ledger) (legs : List ConvertLeg) :
    ((holdingsAt ledger legs).map (·.questionId)).Sublist (legs.map (·.questionId)) := by
  induction legs with
  | nil => exact List.Sublist.slnil
  | cons l legs ih =>
    cases hh : holdingOf l (ledger.no l.questionId) (ledger.yes l.questionId) with
    | none =>
      simp only [holdingsAt, List.filterMap_cons, hh, List.map_cons] at ih ⊢
      exact ih.cons _
    | some h =>
      have hq : h.questionId = l.questionId := by
        rw [holdingOf_eq] at hh
        split at hh
        · rw [← Option.some.inj hh]
        · cases hh
      simp only [holdingsAt, List.filterMap_cons, hh, List.map_cons, hq] at ih ⊢
      exact ih.cons_cons _

/-- Dropping a prefix is skipping the ids that stand in it. -/
private theorem filterMap_drop {β : Type} (hs : List NoHolding) (k : Nat) (g : NoHolding → Option β)
    (hn : (hs.map (·.questionId)).Nodup) :
    (hs.drop k).filterMap g = hs.filterMap (fun h =>
      if h.questionId ∈ (hs.take k).map (·.questionId) then none else g h) := by
  have hsplit : (hs.map (·.questionId)) =
      (hs.take k).map (·.questionId) ++ (hs.drop k).map (·.questionId) := by
    rw [← List.map_append, List.take_append_drop]
  have hdisj := List.disjoint_of_nodup_append (hsplit ▸ hn)
  conv_rhs => rw [← List.take_append_drop k hs, List.filterMap_append, List.take_append_drop]
  have hfirst : (hs.take k).filterMap (fun h =>
      if h.questionId ∈ (hs.take k).map (·.questionId) then none else g h) = [] := by
    apply List.filterMap_eq_nil_iff.mpr
    intro h hh
    rw [if_pos (List.mem_map_of_mem hh)]
  rw [hfirst, List.nil_append]
  apply List.filterMap_congr
  intro h hh
  rw [if_neg (fun hin => hdisj hin (List.mem_map_of_mem hh))]

/-- The balances a convert over `ids` leaves on an event's questions. -/
structure Converted (e : Event) (ids : List B256) (amount : Nat) (before after : Ledger) : Prop where
  inside : ∀ q ∈ e.questions, q ∈ ids →
    after.no q = before.no q - amount ∧ after.yes q = before.yes q
  outside : ∀ q ∈ e.questions, q ∉ ids →
    after.no q = before.no q ∧ after.yes q = before.yes q + amount

theorem holdingsAt_converted {e : Event} {ids : List B256} {amount : Nat} {before after : Ledger}
    (h : Converted e ids amount before after) :
    holdingsAt after e.legs = lowerHoldings amount (holdingsAt before e.legs) := by
  rw [holdingsAt, lowerHoldings, holdingsAt, List.filterMap_filterMap]
  apply List.filterMap_congr
  intro l hl
  have hnet : after.no l.questionId - after.yes l.questionId =
      before.no l.questionId - before.yes l.questionId - amount := by
    by_cases hin : l.questionId ∈ ids
    · obtain ⟨hn, hy⟩ := h.inside _ (e.mem_questions hl) hin
      omega
    · obtain ⟨hn, hy⟩ := h.outside _ (e.mem_questions hl) hin
      omega
  rw [holdingOf_eq, holdingOf_eq, hnet]
  by_cases hlt : before.yes l.questionId < before.no l.questionId
  · by_cases hamt : amount < before.no l.questionId - before.yes l.questionId
    · rw [if_pos (by omega), if_pos hlt]
      simp only [Option.bind_some, lowerHolding, if_pos hamt]
    · rw [if_neg (by omega), if_pos hlt]
      simp only [Option.bind_some, lowerHolding, if_neg hamt]
  · rw [if_neg (by omega), if_neg hlt]
    rfl

/-- YES is minted exactly where a leg was left out of the index set, so the new
merges are the tier's post-merges. -/
theorem mergesAt_converted {e : Event} {m maxLegs : Nat} {ls : List Nat} {before after : Ledger}
    (hl : tierLevels (holdingsAt before e.legs) = m :: ls)
    (hapart : ∀ l ∈ e.legs, l.conditionId.isSome = true →
      before.no l.questionId = 0 ∨ before.yes l.questionId = 0)
    (h : Converted e (mkTier (holdingsAt before e.legs) m maxLegs).questionIds m before after) :
    mergesAt after e.legs = (mkTier (holdingsAt before e.legs) m maxLegs).postMerges := by
  have hnodup : ((holdingsAt before e.legs).map (·.questionId)).Nodup :=
    e.questions_nodup.sublist (questions_holdingsAt before e.legs)
  have hle := tierLevels_head_le hl
  have hpos : 0 < m := by
    obtain ⟨x, hx, rfl⟩ := List.mem_map.mp (levels_head (tierLevels_eq _ ▸ hl)).1
    obtain ⟨l, _, _, _, hr, hlt⟩ := mem_holdingsAt hx
    omega
  simp only [mkTier] at h ⊢
  rw [filterMap_drop _ _ _ hnodup]
  generalize hids : ((holdingsAt before e.legs).take maxLegs).map (·.questionId) = ids at h ⊢
  conv_rhs => rw [holdingsAt, List.filterMap_filterMap]
  apply List.filterMap_congr
  intro l hleg
  have hap := hapart l hleg
  rw [holdingOf_eq]
  by_cases hin : l.questionId ∈ ids
  · -- a member inside the index set held no YES, and got none
    obtain ⟨hn, hy⟩ := h.inside _ (e.mem_questions hleg) hin
    have hheld : before.yes l.questionId < before.no l.questionId := by
      rw [← hids] at hin
      obtain ⟨x, hx, hxq⟩ := List.mem_map.mp hin
      obtain ⟨k, hk, hkq, _, _, hlt⟩ := mem_holdingsAt (List.mem_of_mem_take hx)
      rwa [e.leg_eq hleg hk (hxq.symm.trans hkq)]
    rw [if_pos hheld]
    simp only [Option.bind_some, hin, if_true]
    cases hc : l.conditionId with
    | none => simp [mergeOf, hc]
    | some c =>
      have h0 : before.yes l.questionId = 0 := by
        rcases hap (by rw [hc]; rfl) with h0 | h0 <;> omega
      simp [mergeOf, hy, h0]
  · obtain ⟨hn, hy⟩ := h.outside _ (e.mem_questions hleg) hin
    cases hc : l.conditionId with
    | none =>
      by_cases hheld : before.yes l.questionId < before.no l.questionId
      · simp [mergeOf, hc, hheld, hin]
      · simp [mergeOf, hc, hheld]
    | some c =>
      have h0 := hap (by rw [hc]; rfl)
      by_cases hheld : before.yes l.questionId < before.no l.questionId
      · have hmem : holdingOf l (before.no l.questionId) (before.yes l.questionId) = some
            ⟨l.questionId, l.conditionId, before.no l.questionId - before.yes l.questionId⟩ := by
          rw [holdingOf_eq, if_pos hheld]
        have hm := hle _ (List.mem_filterMap.mpr ⟨l, hleg, hmem⟩)
        have hmin : min (before.yes l.questionId + m) (before.no l.questionId) = m := by
          simp only at hm
          omega
        have hboth : 0 < before.yes l.questionId + m ∧ 0 < before.no l.questionId := by omega
        simp [mergeOf, hc, hheld, hin, hn, hy, hmin, hboth]
      · have hzero : before.no l.questionId = 0 := by omega
        simp [mergeOf, hn, hzero]

section Listed
variable {registry : List ConvertLeg} {e : Event} (hl : Listed registry e)
include hl

/-- The first tier's convert executes: every member holds at least the lowest level. -/
theorem harvest_convert (before : Ledger) {m : Nat} {ls : List Nat} {maxLegs : Nat}
    (hmax : 0 < maxLegs) (htl : tierLevels (holdingsAt before e.legs) = m :: ls) :
    ∃ after, Harvest registry e before
        (tierConvert (mkTier (holdingsAt before e.legs) m maxLegs)) after ∧
      Converted e (mkTier (holdingsAt before e.legs) m maxLegs).questionIds m before after := by
  have hle := tierLevels_head_le htl
  have hids : ∀ q ∈ (mkTier (holdingsAt before e.legs) m maxLegs).questionIds,
      q ∈ e.questions ∧ m ≤ before.no q - before.yes q := by
    intro q hq
    obtain ⟨x, hx, rfl⟩ := List.mem_map.mp hq
    have hx' := List.mem_of_mem_take hx
    obtain ⟨l, hleg, hqid, _, hr, _⟩ := mem_holdingsAt hx'
    have hm := hle x hx'
    rw [hqid]
    exact ⟨e.mem_questions hleg, hr ▸ hm⟩
  generalize htier : mkTier (holdingsAt before e.legs) m maxLegs = tier at hids ⊢
  have hamount : tier.amount = m := by rw [← htier]; rfl
  obtain ⟨q, qs, hcons⟩ : ∃ q qs, tier.questionIds = q :: qs := by
    cases hq : tier.questionIds with
    | cons q qs => exact ⟨q, qs, rfl⟩
    | nil =>
      rw [← htier] at hq
      simp only [mkTier, List.map_eq_nil_iff, List.take_eq_nil_iff] at hq
      rcases hq with h0 | h0
      · omega
      · rw [h0] at htl
        cases htl
  rw [hcons] at hids
  have hno : ∀ q' ∈ q :: qs, m ≤ before.no q' :=
    fun q' hq' => (hids q' hq').2.trans (Nat.sub_le _ _)
  obtain ⟨l, hleg, hmarket, burned, hburned, hexec⟩ :=
    exec_convert_listed hl (fun q' hq' => (hids q' hq').1) hno
  have hops : tierConvert tier = [.convert l.marketId (indexSet (q :: qs)) m] := by
    simp only [tierConvert, tierOps, hcons, List.take_succ_cons, List.take_zero, hmarket, hamount]
  have hdeep : m ≤ e.depth before := by
    obtain ⟨hq, hm⟩ := hids q List.mem_cons_self
    exact hm.trans (Finset.le_sup (f := fun q => before.no q - before.yes q)
      (List.mem_toFinset.mpr hq))
  rw [hops, hcons]
  refine ⟨_, .single ⟨.convert hleg _ m, hdeep⟩ hexec, ?_, ?_⟩
  · intro q' _ hin
    simp only [Ledger.convert, (hburned q').mpr hin, not_true_eq_false, and_false, if_true,
      if_false, and_self]
  · intro q' hq' hout
    have hb : q' ∉ burned := fun h => hout ((hburned q').mp h)
    simp only [Ledger.convert, hb, hq', not_false_eq_true, and_self, if_true, if_false]

/-! ## The plan of what is left -/

/-- Nothing to convert: after the merges there is nothing to do at all. -/
theorem replan_nil (ledger : Ledger) (floor : Nat) (ht : (e.plan ledger floor).tiers = []) :
    ∃ after, Harvest registry e ledger ((e.plan ledger floor).merges.map mergeOp) after ∧
      (e.plan after floor).merges = [] ∧ (e.plan after floor).tiers = [] := by
  obtain ⟨after, hrun, hnet⟩ := harvest_merges hl ledger
  refine ⟨after, ?_, ?_, ?_⟩
  · rw [plan_merges]
    exact hrun
  · rw [plan_merges, mergesAt_netted hnet]
  · rw [plan_tiers] at ht ⊢
    rw [holdingsAt_netted hnet, ht]

/-- After the merges and the first convert, the plan from the balances is the rest
of the plan. -/
theorem replan_cons (ledger : Ledger) (floor : Nat) {t : ConvertTier} {ts : List ConvertTier}
    (ht : (e.plan ledger floor).tiers = t :: ts) :
    ∃ after, Harvest registry e ledger
        ((e.plan ledger floor).merges.map mergeOp ++ tierConvert t) after ∧
      (e.plan after floor).merges = t.postMerges ∧ (e.plan after floor).tiers = ts ∧
      t.questionIds ≠ [] := by
  obtain ⟨mid, hrun, hnet⟩ := harvest_merges hl ledger
  rw [plan_tiers, ← holdingsAt_netted hnet] at ht
  have hne : holdingsAt mid e.legs ≠ [] := by
    intro h0
    rw [h0, planTiers_nil] at ht
    cases ht
  obtain ⟨m, ls, htl⟩ := tierLevels_cons hne
  rw [planTiers_peel htl] at ht
  split at ht
  · cases ht
  · obtain ⟨rfl, rfl⟩ := List.cons.inj ht
    obtain ⟨after, hconv, hspec⟩ := harvest_convert hl mid maxLegsPerConvert_pos htl
    refine ⟨after, ?_, ?_, ?_, ?_⟩
    · rw [plan_merges]
      exact hrun.append hconv
    · rw [plan_merges, mergesAt_converted htl hnet.apart hspec]
    · rw [plan_tiers, holdingsAt_converted hspec]
    · simp only [mkTier, ne_eq, List.map_eq_nil_iff, List.take_eq_nil_iff, not_or]
      exact ⟨by decide, hne⟩

/-- Executing a whole plan never reverts, loses nothing, and leaves nothing to do.
The induction is on the tiers: each one hands over to the plan of what it left. -/
theorem harvest_plan (ledger : Ledger) (floor : Nat) :
    ∃ after, Harvest registry e ledger (planOps (e.plan ledger floor)) after ∧
      (e.plan after floor).merges = [] ∧ (e.plan after floor).tiers = [] := by
  generalize hts : (e.plan ledger floor).tiers = ts
  induction ts generalizing ledger with
  | nil =>
    obtain ⟨after, hrun, hm, ht⟩ := replan_nil hl ledger floor hts
    refine ⟨after, ?_, hm, ht⟩
    rw [planOps, hts, List.flatMap_nil, List.append_nil]
    exact hrun
  | cons t ts ih =>
    obtain ⟨mid, hrun, hm, ht, hids⟩ := replan_cons hl ledger floor hts
    obtain ⟨after, hrest, hend⟩ := ih mid ht
    refine ⟨after, ?_, hend⟩
    rw [planOps, hm, ht] at hrest
    rw [planOps, hts, List.flatMap_cons, tierOps_eq hids, List.append_assoc, ← List.append_assoc]
    exact hrun.append hrest

end Listed

end Eggplant.Convert
