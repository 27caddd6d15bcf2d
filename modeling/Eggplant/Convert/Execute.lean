import Eggplant.Convert.Portfolio

/-!
# From plans to calldata and back

`planCalls` succeeds on every plan the planner makes, and its calls decode to the
plan's operations, so what holds of operations holds of the submitted bytes. The
module ends with the two results about whole call lists: every call of a plan
executes and pays what was planned, and planning again after the first convert
gives the rest of the plan.
-/
namespace Eggplant.Convert

set_option autoImplicit false

open Eggplant.Lib Eggplant.Lib.Words

/-- What a plan needs for its calls to be built and read back. -/
structure Encodable (plan : EventPlan) : Prop where
  merges : ∀ m ∈ plan.merges, m.2 < wordSize
  named : ∀ t ∈ plan.tiers, t.questionIds ≠ []
  amount : ∀ t ∈ plan.tiers, t.amount < wordSize
  post : ∀ t ∈ plan.tiers, ∀ m ∈ t.postMerges, m.2 < wordSize

theorem planEvent_encodable (legs : List ConvertLeg) (pairs : List (Nat × Nat)) (floor : Nat)
    (h : ∀ p ∈ pairs, p.1 < wordSize) : Encodable (planEventFromBalances legs pairs floor) := by
  have hplan : planEventFromBalances legs pairs floor = planEvent (classifyEvent legs pairs).1
      (planTiers (classifyEvent legs pairs).2 floor maxLegsPerConvert) legs.length := rfl
  rw [hplan, classifyEvent_eq]
  have hrow {row : ConvertLeg × Nat × Nat} (hr : row ∈ legs.zip pairs) : row.2.1 < wordSize :=
    h row.2 (List.of_mem_zip hr).2
  generalize hheld : (legs.zip pairs).filterMap (fun r => holdingOf r.1 r.2.1 r.2.2) = holdings
  have hshape : ∀ t ∈ planTiers holdings floor maxLegsPerConvert, TierShape holdings t :=
    planTiers_shape maxLegsPerConvert_pos
  have hamount : ∀ t ∈ planTiers holdings floor maxLegsPerConvert, t.amount < wordSize := by
    intro t ht
    obtain ⟨x, hx, hle⟩ := (hshape t ht).amount
    obtain ⟨row, hr, he⟩ := List.mem_filterMap.mp (hheld ▸ hx)
    have hbal := hrow hr
    rw [holdingOf_eq] at he
    split at he
    · obtain rfl := Option.some.inj he
      simp only at hle
      omega
    · cases he
  constructor
  · intro m hm
    obtain ⟨row, hr, he⟩ := List.mem_filterMap.mp hm
    obtain ⟨_, hmin, _, _⟩ := mergeOf_eq_some he
    have hbal := hrow hr
    omega
  · exact fun t ht => (hshape t ht).nonempty
  · exact hamount
  · intro t ht m hm
    rw [(hshape t ht).post m hm]
    exact hamount t ht

theorem plan_encodable (e : Event) (ledger : Ledger) (floor : Nat)
    (h : ∀ l ∈ e.legs, ledger.no l.questionId < wordSize) : Encodable (e.plan ledger floor) := by
  apply planEvent_encodable
  intro p hp
  obtain ⟨l, hl, rfl⟩ := List.mem_map.mp hp
  exact h l hl

theorem planOps_eq_nil {plan : EventPlan} (h : Encodable plan) :
    planOps plan = [] ↔ plan.merges = [] ∧ plan.tiers = [] := by
  rw [planOps, List.append_eq_nil_iff, List.map_eq_nil_iff, List.flatMap_eq_nil_iff]
  constructor
  · intro h'
    obtain ⟨hm, ht⟩ := h'
    refine ⟨hm, List.eq_nil_iff_forall_not_mem.mpr ?_⟩
    intro t hin
    have hops := ht t hin
    rw [tierOps_eq (h.named t hin), List.append_eq_nil_iff] at hops
    have hconvert := hops.1
    unfold tierConvert tierOps at hconvert
    cases hq : t.questionIds with
    | nil => exact h.named t hin hq
    | cons q qs =>
      rw [hq] at hconvert
      cases hconvert
  · intro h'
    rw [h'.1, h'.2]
    exact ⟨rfl, fun t hin => absurd hin List.not_mem_nil⟩

/-- The calls that stand for some operations, in order. -/
abbrev Stands : List DepositWalletCall → List Op → Prop :=
  List.Forall₂ (fun call op => decodeOp call = some op)

theorem stands_append {calls calls' : List DepositWalletCall} {ops ops' : List Op}
    (h : Stands calls ops) (h' : Stands calls' ops') : Stands (calls ++ calls') (ops ++ ops') :=
  List.rel_append h h'

theorem stands_mergeCalls (merges : List (B256 × Nat)) (h : ∀ m ∈ merges, m.2 < wordSize) :
    Stands (mergeCalls merges) (merges.map mergeOp) := by
  induction merges with
  | nil => exact .nil
  | cons m merges ih =>
    refine .cons ?_ (ih (fun k hk => h k (List.mem_cons_of_mem m hk)))
    exact decodeOp_mergeCall m.1 (h m List.mem_cons_self)

private theorem call_plannedMerge (calls : List DepositWalletCall) :
    (calls.map plannedMerge).map (·.call) = calls := by
  rw [List.map_map]
  exact List.map_id calls

theorem stands_convert {tier : ConvertTier} (hne : tier.questionIds ≠ [])
    (hamount : tier.amount < wordSize) :
    ∃ data, buildConvertCalldata tier.questionIds tier.amount = .ok data ∧
      Stands [{ target := Chain.negRiskCollateralAdapter, data }] (tierConvert tier) := by
  unfold tierConvert tierOps
  cases hq : tier.questionIds with
  | nil => exact absurd hq hne
  | cons q qs =>
    refine ⟨_, rfl, .cons ?_ .nil⟩
    exact decodeOp_convertCall _ (indexSet_lt (q :: qs)) hamount

theorem tierCalls_ok (nLegs : Nat) {tier : ConvertTier} (hne : tier.questionIds ≠ [])
    (hamount : tier.amount < wordSize) (hpost : ∀ m ∈ tier.postMerges, m.2 < wordSize) :
    ∃ calls, tierCalls nLegs tier = .ok calls ∧ Stands (calls.map (·.call)) (tierOps tier) := by
  obtain ⟨data, hdata, hstands⟩ := stands_convert hne hamount
  refine ⟨_, by rw [tierCalls, hdata]; rfl, ?_⟩
  rw [tierOps_eq hne, List.map_cons, call_plannedMerge]
  exact stands_append hstands (stands_mergeCalls tier.postMerges hpost)

theorem tiersCalls_ok (nLegs : Nat) (tiers : List ConvertTier)
    (hne : ∀ t ∈ tiers, t.questionIds ≠ []) (hamount : ∀ t ∈ tiers, t.amount < wordSize)
    (hpost : ∀ t ∈ tiers, ∀ m ∈ t.postMerges, m.2 < wordSize) :
    ∃ calls, tiersCalls nLegs tiers = .ok calls ∧
      Stands (calls.map (·.call)) (tiers.flatMap tierOps) := by
  induction tiers with
  | nil => exact ⟨[], rfl, .nil⟩
  | cons t ts ih =>
    have hin {k : ConvertTier} (hk : k ∈ ts) : k ∈ t :: ts := List.mem_cons_of_mem t hk
    obtain ⟨calls, hcalls, hfirst⟩ := tierCalls_ok nLegs (hne t List.mem_cons_self)
      (hamount t List.mem_cons_self) (hpost t List.mem_cons_self)
    obtain ⟨rest, hrest, htail⟩ := ih (fun k hk => hne k (hin hk)) (fun k hk => hamount k (hin hk))
      (fun k hk => hpost k (hin hk))
    refine ⟨calls ++ rest, by rw [tiersCalls, hcalls, hrest]; rfl, ?_⟩
    rw [List.map_append, List.flatMap_cons]
    exact stands_append hfirst htail

/-- Building the calls of encodable plans never fails. -/
theorem planCalls_ok (plans : List EventPlan) (h : ∀ p ∈ plans, Encodable p) :
    ∃ calls, planCalls plans = .ok calls ∧
      Stands (calls.map (·.call)) (plans.flatMap planOps) := by
  induction plans with
  | nil => exact ⟨[], rfl, .nil⟩
  | cons p ps ih =>
    have hp := h p List.mem_cons_self
    obtain ⟨converts, hconverts, hops⟩ := tiersCalls_ok p.nLegs p.tiers hp.named hp.amount hp.post
    obtain ⟨rest, hrest, htail⟩ := ih (fun q hq => h q (List.mem_cons_of_mem p hq))
    refine ⟨_, by rw [planCalls, hconverts, hrest]; rfl, ?_⟩
    rw [List.map_append, List.map_append, call_plannedMerge, List.flatMap_cons, planOps]
    exact stands_append (stands_append (stands_mergeCalls p.merges hp.merges) hops) htail

/-- There is something to submit exactly when some plan has a merge or a tier. -/
theorem planCalls_nil_iff {plans : List EventPlan} (h : ∀ p ∈ plans, Encodable p) :
    planCalls plans = .ok [] ↔ ∀ p ∈ plans, p.merges = [] ∧ p.tiers = [] := by
  obtain ⟨calls, hcalls, hstands⟩ := planCalls_ok plans h
  have hops : plans.flatMap planOps = [] ↔ ∀ p ∈ plans, p.merges = [] ∧ p.tiers = [] := by
    rw [List.flatMap_eq_nil_iff]
    exact forall₂_congr (fun p hp => planOps_eq_nil (h p hp))
  rw [hcalls, ← hops, Except.ok.injEq]
  constructor
  · rintro rfl
    exact List.forall₂_nil_left_iff.mp hstands
  · intro hnil
    rw [hnil] at hstands
    exact List.map_eq_nil_iff.mp (List.forall₂_nil_right_iff.mp hstands)

/-! ## Snapshots -/

/-- Any balances of the right number are the balances of some ledger. -/
private theorem exists_balances (qs : List B256) (hn : qs.Nodup) (pairs : List (Nat × Nat))
    (hlen : pairs.length = qs.length) : ∃ bal : B256 → Nat × Nat, qs.map bal = pairs := by
  induction qs generalizing pairs with
  | nil => exact ⟨fun _ => (0, 0), (List.length_eq_zero_iff.mp hlen).symm⟩
  | cons q qs ih =>
    obtain ⟨hq, hqs⟩ := List.nodup_cons.mp hn
    cases pairs with
    | nil => cases hlen
    | cons p ps =>
      obtain ⟨bal, hbal⟩ := ih hqs ps (Nat.succ.inj hlen)
      refine ⟨Function.update bal q p, ?_⟩
      rw [List.map_cons, Function.update_self, ← hbal]
      congr 1
      apply List.map_congr_left
      intro k hk
      have hne : k ≠ q := fun he => hq (he ▸ hk)
      exact Function.update_of_ne hne p bal

private theorem flatMap_split {α β : Type} (es : List α) (f g : α → List β)
    (hlen : ∀ e ∈ es, (f e).length = (g e).length) (h : es.flatMap f = es.flatMap g) :
    ∀ e ∈ es, f e = g e := by
  induction es with
  | nil => exact fun e he => nomatch he
  | cons e es ih =>
    rw [List.flatMap_cons, List.flatMap_cons] at h
    obtain ⟨hhead, htail⟩ := List.append_inj h (hlen e List.mem_cons_self)
    intro k hk
    rcases List.mem_cons.mp hk with rfl | hk
    · exact hhead
    · exact ih (fun j hj => hlen j (List.mem_cons_of_mem e hj)) htail k hk

theorem Portfolio.questions_nodup (P : Portfolio) : (P.legs.map (·.questionId)).Nodup := by
  rw [Portfolio.legs, List.map_flatMap, List.nodup_flatMap]
  refine ⟨fun e _ => e.questions_nodup, P.differentMarkets.imp ?_⟩
  intro e f hef q hq hq'
  exact hef.questions hq' hq

theorem Portfolio.exists_ledger (P : Portfolio) (snapshot : Event → List (Nat × Nat))
    (hlen : ∀ e ∈ P.events, (snapshot e).length = e.legs.length) :
    ∃ ledger : Ledger, ∀ e ∈ P.events, ledger.pairs e.legs = snapshot e := by
  have htotal : (P.events.flatMap snapshot).length = (P.legs.map (·.questionId)).length := by
    rw [List.length_map, Portfolio.legs, List.length_flatMap, List.length_flatMap]
    exact congrArg List.sum (List.map_congr_left hlen)
  obtain ⟨bal, hbal⟩ := exists_balances _ P.questions_nodup _ htotal
  refine ⟨⟨fun q => (bal q).1, fun q => (bal q).2, fun _ => 0⟩, ?_⟩
  apply flatMap_split
  · intro e he
    rw [hlen e he, Ledger.pairs, List.length_map]
  · rw [← hbal, Portfolio.legs, List.map_map, List.map_flatMap]
    rfl

/-- The ledger's balances are the snapshot's. -/
def Portfolio.Holds (P : Portfolio) (snapshot : Event → List (Nat × Nat)) (ledger : Ledger) : Prop :=
  ∀ e ∈ P.events, ledger.pairs e.legs = snapshot e

theorem totalNo_pairs (e : Event) (ledger : Ledger) :
    e.totalNo ledger = ((ledger.pairs e.legs).map Prod.fst).sum := by
  rw [totalNo_eq, Ledger.pairs, List.map_map]
  rfl

theorem no_lt_of_total {e : Event} {ledger : Ledger} (h : e.totalNo ledger < wordSize) :
    ∀ l ∈ e.legs, ledger.no l.questionId < wordSize := by
  intro l hl
  rw [totalNo_eq] at h
  have hmem : ledger.no l.questionId ∈ e.legs.map (fun k => ledger.no k.questionId) :=
    List.mem_map.mpr ⟨l, hl, rfl⟩
  exact lt_of_le_of_lt (List.le_sum_of_mem hmem) h

/-! ## The whole call list -/

/-- The calls planned for a portfolio's ledger, and what they execute to. -/
theorem planCalls_reap (P : Portfolio) (ledger : Ledger) (floor : Nat)
    (hbal : ∀ e ∈ P.events, ∀ l ∈ e.legs, ledger.no l.questionId < wordSize) :
    ∃ calls after, planCalls (P.events.map (fun e => e.plan ledger floor)) = .ok calls ∧
      Stands (calls.map (·.call)) (P.events.flatMap (fun e => planOps (e.plan ledger floor))) ∧
      Reap P ledger (P.events.flatMap (fun e => planOps (e.plan ledger floor))) after ∧
      Reaped P.events floor ledger after := by
  have henc : ∀ p ∈ P.events.map (fun e => e.plan ledger floor), Encodable p := by
    intro p hp
    obtain ⟨e, he, rfl⟩ := List.mem_map.mp hp
    exact plan_encodable e ledger floor (hbal e he)
  obtain ⟨calls, hcalls, hstands⟩ := planCalls_ok _ henc
  obtain ⟨after, hrun, hdone⟩ := reap_plans P ledger floor
  rw [List.flatMap_map] at hstands
  exact ⟨calls, after, hcalls, hstands, hrun, hdone⟩

/-- Every call of the plans executes in order, and every event is credited exactly
its planned proceeds. The bound is on each event's NO total. -/
theorem plan_calls_execute (P : Portfolio) (snapshot : Event → List (Nat × Nat))
    (singleLegMinQtyRaw : Nat)
    (hlen : ∀ e ∈ P.events, (snapshot e).length = e.legs.length)
    (htotal : ∀ e ∈ P.events, ((snapshot e).map Prod.fst).sum < wordSize) :
    ∃ calls,
      planCalls (P.events.map (fun e =>
        planEventFromBalances e.legs (snapshot e) singleLegMinQtyRaw)) = .ok calls ∧
      (∃ ledger, P.Holds snapshot ledger) ∧
      ∀ ledger, P.Holds snapshot ledger →
        ∃ after, execCalls P.legs ledger (calls.map (·.call)) = some after ∧
          ∀ e ∈ P.events, e.credited after = e.credited ledger +
            (planEventFromBalances e.legs (snapshot e) singleLegMinQtyRaw).proceeds := by
  have hno {ledger : Ledger} (h : P.Holds snapshot ledger) {e : Event} (he : e ∈ P.events) :
      e.totalNo ledger < wordSize := by
    rw [totalNo_pairs, h e he]
    exact htotal e he
  have hplans {ledger : Ledger} (h : P.Holds snapshot ledger) :
      P.events.map (fun e => planEventFromBalances e.legs (snapshot e) singleLegMinQtyRaw) =
        P.events.map (fun e => e.plan ledger singleLegMinQtyRaw) := by
    apply List.map_congr_left
    intro e he
    rw [Event.plan, h e he]
  obtain ⟨start, hstart⟩ := P.exists_ledger snapshot hlen
  obtain ⟨calls, _, hcalls, _⟩ := planCalls_reap P start singleLegMinQtyRaw
    (fun e he => no_lt_of_total (hno hstart he))
  refine ⟨calls, by rw [hplans hstart]; exact hcalls, ⟨start, hstart⟩, ?_⟩
  intro ledger hledger
  obtain ⟨calls', after, hcalls', hstands, hrun, hdone⟩ := planCalls_reap P ledger singleLegMinQtyRaw
    (fun e he => no_lt_of_total (hno hledger he))
  have hsame : calls = calls' := by
    rw [← hplans hledger, hplans hstart, hcalls] at hcalls'
    exact Except.ok.inj hcalls'
  subst hsame
  refine ⟨after, ?_, ?_⟩
  · rw [execCalls_eq P.legs ledger hstands]
    exact hrun.execAll_eq
  · intro e he
    have hproceeds := proceeds_eq_planCredit (P.listed he) ledger singleLegMinQtyRaw
      (hno hledger he)
    rw [hdone.credited e he, ← hproceeds, Event.plan, hledger e he]

/-- Three legs and two legs, merges and converts together: 8 and 4 are credited. -/
theorem plan_calls_execute_twoMarkets :
    let three := Event.numbered 0 3 (by decide)
    let two := Event.numbered 1 2 (by decide)
    let snapshot (e : Event) := if e.legs.length = 3 then [(3, 0), (5, 1), (5, 0)] else [(4, 0), (6, 0)]
    ∃ calls ledger after,
      planCalls [planEventFromBalances three.legs (snapshot three) 0,
        planEventFromBalances two.legs (snapshot two) 0] = .ok calls ∧
      twoMarkets.Holds snapshot ledger ∧
      execCalls twoMarkets.legs ledger (calls.map (·.call)) = some after ∧
      three.credited after = three.credited ledger + 8 ∧
      two.credited after = two.credited ledger + 4 := by
  intro three two snapshot
  obtain ⟨calls, hcalls, ⟨ledger, hledger⟩, hexec⟩ :=
    plan_calls_execute twoMarkets snapshot 0 (by decide) (by decide)
  obtain ⟨after, hafter, hcredit⟩ := hexec ledger hledger
  refine ⟨calls, ledger, after, hcalls, hledger, hafter, ?_, ?_⟩
  · exact hcredit three List.mem_cons_self
  · exact hcredit two (List.mem_cons_of_mem _ List.mem_cons_self)

/-- Reading once and planning every tier is reading again before each convert: after
the merges and the first convert the plan from the true balances is the rest of
the plan, a plan without tiers leaves nothing to plan, and so does a whole plan. -/
theorem replan_after_first_convert (e : Event) (hc : e.DistinctConditions) (ledger : Ledger)
    (floor : Nat) (hbal : ∀ l ∈ e.legs, ledger.no l.questionId < wordSize) :
    (∀ t ts, (e.plan ledger floor).tiers = t :: ts →
      ∃ data after, buildConvertCalldata t.questionIds t.amount = .ok data ∧
        execCalls e.legs ledger (mergeCalls (e.plan ledger floor).merges ++
          [{ target := Chain.negRiskCollateralAdapter, data }]) = some after ∧
        (e.plan after floor).merges = t.postMerges ∧ (e.plan after floor).tiers = ts) ∧
    ((e.plan ledger floor).tiers = [] →
      ∃ after, execCalls e.legs ledger (mergeCalls (e.plan ledger floor).merges) = some after ∧
        (e.plan after floor).merges = [] ∧ (e.plan after floor).tiers = []) ∧
    ∃ calls after, planCalls [e.plan ledger floor] = .ok calls ∧
      execCalls e.legs ledger (calls.map (·.call)) = some after ∧
      (e.plan after floor).merges = [] ∧ (e.plan after floor).tiers = [] ∧
      planCalls [e.plan after floor] = .ok [] := by
  have hl := listed_self hc
  have henc := plan_encodable e ledger floor hbal
  refine ⟨?_, ?_, ?_⟩
  · intro t ts ht
    have hmem : t ∈ (e.plan ledger floor).tiers := by
      rw [ht]
      exact List.mem_cons_self
    obtain ⟨after, hrun, hm, hts, hne⟩ := replan_cons hl ledger floor ht
    obtain ⟨data, hdata, hconvert⟩ := stands_convert hne (henc.amount t hmem)
    refine ⟨data, after, hdata, ?_, hm, hts⟩
    rw [execCalls_eq e.legs ledger (stands_append (stands_mergeCalls _ henc.merges) hconvert)]
    exact hrun.execAll_eq
  · intro ht
    obtain ⟨after, hrun, hend⟩ := replan_nil hl ledger floor ht
    refine ⟨after, ?_, hend⟩
    rw [execCalls_eq e.legs ledger (stands_mergeCalls _ henc.merges)]
    exact hrun.execAll_eq
  · obtain ⟨after, hrun, hm, ht⟩ := harvest_plan hl ledger floor
    obtain ⟨calls, hcalls, hstands⟩ := planCalls_ok [e.plan ledger floor]
      (fun p hp => by rwa [List.mem_singleton.mp hp])
    rw [List.flatMap_singleton] at hstands
    refine ⟨calls, after, hcalls, ?_, hm, ht, ?_⟩
    · rw [execCalls_eq e.legs ledger hstands]
      exact hrun.execAll_eq
    · rw [planCalls, hm, ht]
      rfl

/-- Three legs at 3, 5 and 5 net NO: the first tier takes 3 off each, and planning
again from the balances it leaves gives the second. -/
theorem replan_after_first_convert_threeLegs :
    let e := Event.numbered 0 3 (by decide)
    let ledger : Ledger := ⟨fun q => if questionIndex q = 0 then 3 else 5, fun _ => 0, fun _ => 0⟩
    ∃ t ts data after, (e.plan ledger 0).tiers = t :: ts ∧ ts.length = 1 ∧
      execCalls e.legs ledger (mergeCalls (e.plan ledger 0).merges ++
        [{ target := Chain.negRiskCollateralAdapter, data }]) = some after ∧
      (e.plan after 0).tiers = ts := by
  intro e ledger
  obtain ⟨hfirst, _⟩ := replan_after_first_convert e (by decide) ledger 0 (by decide)
  obtain ⟨data, after, _, hexec, _, hts⟩ := hfirst _ _ rfl
  exact ⟨_, _, data, after, rfl, rfl, hexec, hts⟩

end Eggplant.Convert
