import Eggplant.Lib.Rounds
import Eggplant.Redeem.Drain

/-!
# What the summary counts

`redeem_all` adds up the counts of its passes. The conditions of a run are read from its
submissions: every redeem call names its condition.
-/
namespace Eggplant.Redeem

set_option autoImplicit false

open Eggplant.Lib Eggplant.Lib.Words
open Eggplant.Convert (DepositWalletCall)

/-! ## Conditions of submissions -/

/-- The condition of a redeem call, its third argument. -/
def conditionOf (call : DepositWalletCall) : Option B256 := Abi.readWord (call.data.drop 4) 64

theorem readWord_redeemCtf (token : Address) (conditionId : B256) (indexSets : List Nat) :
    Abi.readWord ((Convert.buildRedeemCalldataCtf token conditionId indexSets).drop 4) 64 =
      some conditionId := by
  apply Abi.readWord_at
  have hargs : (Convert.buildRedeemCalldataCtf token conditionId indexSets).drop 4 =
      Abi.encode [.word token.toWord, .word (FixedBytes.zero 32), .word conditionId,
        .words (indexSets.map Word.ofNat)] :=
    List.drop_left' Convert.redeemPositionsSelector.length_eq
  -- the first two head slots are the token and the zero parent collection
  obtain ⟨rest, hrest⟩ : ∃ rest, Abi.encode [.word token.toWord, .word (FixedBytes.zero 32),
      .word conditionId, .words (indexSets.map Word.ofNat)] =
        (token.toWord.bytes ++ (FixedBytes.zero 32).bytes) ++ (conditionId.bytes ++ rest) := by
    simp only [Abi.encode, Abi.heads, List.append_assoc]
    exact ⟨_, rfl⟩
  have hfront : (token.toWord.bytes ++ (FixedBytes.zero 32).bytes).length = 64 := by
    rw [List.length_append, FixedBytes.length_eq, FixedBytes.length_eq]
  rw [hargs, hrest, Abi.At, List.drop_left' hfront]
  exact List.prefix_append _ _

theorem conditionOf_buildCall (token : Address) (r : Redemption) :
    conditionOf (buildCall token r) = some r.conditionId := by
  unfold conditionOf buildCall
  split
  next => exact readWord_redeemCtf _ _ _
  next => exact readWord_redeemCtf _ _ _

def submittedConditions (log : List Submitted) : Finset B256 :=
  (log.flatMap fun s => s.calls.filterMap conditionOf).toFinset

def acceptedConditions (log : List Submitted) : Finset B256 :=
  submittedConditions (log.filter (·.Accepted))

/-- Submitted, and never accepted. -/
def refusedConditions (log : List Submitted) : Finset B256 :=
  submittedConditions log \ acceptedConditions log

theorem mem_submittedConditions {log : List Submitted} {c : B256} :
    c ∈ submittedConditions log ↔ ∃ s ∈ log, c ∈ s.calls.filterMap conditionOf := by
  unfold submittedConditions
  rw [List.mem_toFinset, List.mem_flatMap]

theorem mem_acceptedConditions {log : List Submitted} {c : B256} :
    c ∈ acceptedConditions log ↔ ∃ s ∈ log, s.Accepted ∧ c ∈ s.calls.filterMap conditionOf := by
  unfold acceptedConditions
  rw [mem_submittedConditions]
  simp [and_assoc]

theorem accepted_subset (log : List Submitted) : acceptedConditions log ⊆ submittedConditions log := by
  intro c hc
  obtain ⟨s, hs, -, hmem⟩ := mem_acceptedConditions.mp hc
  exact mem_submittedConditions.mpr ⟨s, hs, hmem⟩

theorem submitted_flatMap {ι : Type} (log : ι → List Submitted) (steps : List ι) :
    submittedConditions (steps.flatMap log) =
      Rounds.all (fun step => submittedConditions (log step)) steps := by
  induction steps with
  | nil => rfl
  | cons step steps ih =>
    rw [Rounds.all_cons, ← ih]
    unfold submittedConditions
    rw [List.flatMap_cons, List.flatMap_append, List.toFinset_append]

theorem accepted_flatMap {ι : Type} (log : ι → List Submitted) (steps : List ι) :
    acceptedConditions (steps.flatMap log) =
      Rounds.all (fun step => acceptedConditions (log step)) steps := by
  unfold acceptedConditions
  rw [List.filter_flatMap]
  exact submitted_flatMap _ steps

/-! ## One batch run -/

section
variable {opts : RedeemOptions} {attempts : List Attempt}

theorem submitted_attempts (h : ∀ a ∈ attempts, a.Tried opts) :
    submittedConditions (attempts.flatMap (·.tries)) =
      ((attempts.flatMap (·.chunk)).filterMap conditionOf).toFinset := by
  ext c
  rw [mem_submittedConditions, List.mem_toFinset, List.mem_filterMap]
  simp only [List.mem_flatMap, List.mem_filterMap]
  constructor
  · rintro ⟨s, ⟨a, ha, hs⟩, call, hcall, hc⟩
    rw [(h a ha).own s hs] at hcall
    exact ⟨call, ⟨a, ha, hcall⟩, hc⟩
  · rintro ⟨call, ⟨a, ha, hcall⟩, hc⟩
    obtain ⟨s, hs⟩ := List.exists_mem_of_ne_nil _ (h a ha).tries_ne_nil
    exact ⟨s, ⟨a, ha, hs⟩, call, (h a ha).own s hs ▸ hcall, hc⟩

theorem accepted_attempts (h : ∀ a ∈ attempts, a.Tried opts) :
    acceptedConditions (attempts.flatMap (·.tries)) =
      ((acceptedCalls attempts).filterMap conditionOf).toFinset := by
  ext c
  rw [mem_acceptedConditions, List.mem_toFinset, List.mem_filterMap, acceptedCalls]
  simp only [List.mem_flatMap, List.mem_filterMap, List.mem_filter, decide_eq_true_eq]
  constructor
  · rintro ⟨s, ⟨a, ha, hs⟩, hacc, call, hcall, hc⟩
    rw [(h a ha).own s hs] at hcall
    exact ⟨call, ⟨a, ⟨ha, s, hs, hacc⟩, hcall⟩, hc⟩
  · rintro ⟨call, ⟨a, ⟨ha, s, hs, hacc⟩, hcall⟩, hc⟩
    exact ⟨s, ⟨a, ha, hs⟩, hacc, call, (h a ha).own s hs ▸ hcall, hc⟩

end

/-- A run over calls of different conditions counts its conditions. -/
theorem submitBatches_counts (relayer : Nat → Except Error String) (opts : RedeemOptions)
    {calls : List DepositWalletCall} (hall : ∀ call ∈ calls, (conditionOf call).isSome = true)
    (hnodup : (calls.filterMap conditionOf).Nodup) :
    let t := submitBatches relayer opts calls
    submittedConditions t.log = (calls.filterMap conditionOf).toFinset ∧
      t.ok = (acceptedConditions t.log).card ∧ t.bad = (refusedConditions t.log).card := by
  intro t
  obtain ⟨attempts, hcalls, heach, hlog, hok, hsum⟩ := submitBatches_attempts relayer opts calls
  have htries (a : Attempt) (ha : a ∈ attempts) : a.Tried opts := (heach a ha).2.2
  replace hlog : t.log = attempts.flatMap (·.tries) := hlog
  have hsub : List.Sublist (acceptedCalls attempts) calls := by
    rw [← hcalls]
    exact List.filter_sublist.flatMap _
  have hsubmitted : submittedConditions t.log = (calls.filterMap conditionOf).toFinset := by
    rw [hlog, submitted_attempts htries, hcalls]
  have hcount {l : List DepositWalletCall} (hl : List.Sublist l calls) :
      (l.filterMap conditionOf).toFinset.card = l.length := by
    rw [List.toFinset_card_of_nodup (hnodup.sublist (hl.filterMap _)),
      List.filterMap_length_eq_length]
    exact fun call hcall => hall call (hl.subset hcall)
  have haccepted : t.ok = (acceptedConditions t.log).card := by
    rw [hlog, accepted_attempts htries, hcount hsub]
    exact hok
  refine ⟨hsubmitted, haccepted, ?_⟩
  rw [refusedConditions, Finset.card_sdiff_of_subset (accepted_subset t.log), ← haccepted,
    hsubmitted, hcount (List.Sublist.refl _)]
  replace hsum : t.ok + t.bad = calls.length := hsum
  omega

/-! ## The passes of a run -/

section
variable (parse : Parsers) (opts : RedeemOptions)

def passTally (answers : PassAnswers) (summary : RedeemSummary) : Tally :=
  submitBatches answers.relayer opts
    (buildCalls (plannedIn parse opts answers summary) (collateral opts))

/-- What a pass set out to submit, and its submissions. -/
structure PassStep where
  planned : List Redemption
  log : List Submitted

/-- The passes of `redeemLoop`. -/
def passSteps (pass : Nat → PassAnswers) : Nat → Nat → RedeemSummary → List PassStep
  | 0, _, _ => []
  | fuel + 1, k, summary =>
    ⟨plannedIn parse opts (pass k) summary, (passTally parse opts (pass k) summary).log⟩ ::
      match redeemPass parse opts (pass k) summary with
      | .returns _ => []
      | .again next => passSteps pass fuel (k + 1) next

/-- The summary a pass ends with, unless it fails. -/
def Pass.summary : Pass → Option RedeemSummary
  | .returns (.ok summary) => some summary
  | .returns (.error _) => none
  | .again summary => some summary

variable {parse : Parsers} {opts : RedeemOptions}

theorem redeemPlanned_summary (relayer : Nat → Except Error String) (hitCap : Bool)
    (summary : RedeemSummary) (redemptions : List Redemption) :
    let t := submitBatches relayer opts (buildCalls redemptions (collateral opts))
    (redeemPlanned opts relayer hitCap summary redemptions).summary =
      some { summary with
        redeemed := summary.redeemed + t.ok, failed := summary.failed + t.bad } := by
  intro t
  show (if _ then _ else if t.ok = 0 then _ else if !hitCap then _ else _ : Pass).summary = _
  split
  next => rfl
  next =>
    split
    next => rfl
    next => cases hitCap <;> rfl

/-- A pass that submits nothing counts nothing. -/
theorem passTally_of_nil {answers : PassAnswers} {summary : RedeemSummary}
    (h : plannedIn parse opts answers summary = []) :
    (passTally parse opts answers summary).ok = 0 ∧
      (passTally parse opts answers summary).bad = 0 := by
  unfold passTally
  rw [h]
  exact ⟨rfl, rfl⟩

/-- A pass that does not fail has added the counts of what it submitted. -/
theorem redeemPass_counts {answers : PassAnswers} {summary next : RedeemSummary}
    (h : (redeemPass parse opts answers summary).summary = some next) :
    next.redeemed = summary.redeemed + (passTally parse opts answers summary).ok ∧
      next.failed = summary.failed + (passTally parse opts answers summary).bad := by
  rcases redeemPass_cases parse opts answers summary with
    ⟨-, e, hpass⟩ | ⟨hplanned, hpass⟩ | ⟨positions, hitCap, redemptions, -, -, -, hpass⟩
  · rw [hpass] at h
    cases h
  · rw [hpass] at h
    obtain ⟨hok, hbad⟩ := passTally_of_nil hplanned
    rw [hok, hbad, ← Option.some.inj h]
    exact ⟨rfl, rfl⟩
  · rw [hpass, redeemPlanned_summary] at h
    rw [← Option.some.inj h]
    exact ⟨rfl, rfl⟩

theorem conditionOf_buildCalls (redemptions : List Redemption) (token : Address) :
    (buildCalls redemptions token).filterMap conditionOf = redemptions.map (·.conditionId) := by
  unfold buildCalls
  rw [List.filterMap_map, ← List.filterMap_eq_map]
  exact List.filterMap_congr fun r _ => conditionOf_buildCall token r

/-- A plan is built from balances that were read. -/
theorem readAndPlan_ok {balanceOfBatch : Nat → List Nat → Except String (List Nat)}
    {positions : List Position} {redemptions : List Redemption}
    (h : readAndPlan parse opts balanceOfBatch positions = .ok redemptions) :
    ∃ balances, readBalances balanceOfBatch
        ((groupRedeemable parse positions).flatMap tokenIds) = .ok balances ∧
      redemptions =
        buildRedemptions (groupRedeemable parse positions) balances opts.minSharesRaw := by
  unfold readAndPlan at h
  cases hread : readBalances balanceOfBatch
      ((groupRedeemable parse positions).flatMap tokenIds) with
  | error e =>
    simp only [hread] at h
    cases h
  | ok balances =>
    simp only [hread] at h
    exact ⟨balances, rfl, (Except.ok.inj h).symm⟩

theorem plannedIn_nodup (answers : PassAnswers) (summary : RedeemSummary) :
    ((plannedIn parse opts answers summary).map (·.conditionId)).Nodup := by
  unfold plannedIn
  split
  next => exact List.nodup_nil
  next positions _ _ =>
    split
    next => exact List.nodup_nil
    next redemptions hplan =>
      have hnodup : (redemptions.map (·.conditionId)).Nodup := by
        obtain ⟨balances, -, rfl⟩ := readAndPlan_ok hplan
        exact buildRedemptions_nodup parse positions balances opts.minSharesRaw
      split
      next => exact hnodup.sublist ((List.take_sublist _ _).map _)
      next => exact hnodup

variable (parse opts)

/-- A pass counts the conditions of its submissions. -/
theorem passTally_counts (answers : PassAnswers) (summary : RedeemSummary) :
    let t := passTally parse opts answers summary
    submittedConditions t.log =
        ((plannedIn parse opts answers summary).map (·.conditionId)).toFinset ∧
      t.ok = (acceptedConditions t.log).card ∧ t.bad = (refusedConditions t.log).card := by
  have hconditions :=
    conditionOf_buildCalls (plannedIn parse opts answers summary) (collateral opts)
  unfold passTally
  rw [← hconditions]
  apply submitBatches_counts
  · intro call hcall
    obtain ⟨r, -, rfl⟩ := List.mem_map.mp hcall
    rw [conditionOf_buildCall]
    rfl
  · rw [hconditions]
    exact plannedIn_nodup answers summary

variable {parse opts}

/-- A run that does not fail has added up the counts of its passes. -/
theorem redeemLoop_counts (pass : Nat → PassAnswers) (fuel k : Nat)
    {summary final : RedeemSummary}
    (h : redeemLoop parse opts pass fuel k summary = some (.ok final)) :
    let steps := passSteps parse opts pass fuel k summary
    final.redeemed =
        summary.redeemed + (steps.map fun step => (acceptedConditions step.log).card).sum ∧
      final.failed =
        summary.failed + (steps.map fun step => (refusedConditions step.log).card).sum := by
  induction fuel generalizing k summary with
  | zero => cases h
  | succ fuel ih =>
    obtain ⟨-, hok, hbad⟩ := passTally_counts parse opts (pass k) summary
    rw [redeemLoop] at h
    rw [passSteps]
    cases hpass : redeemPass parse opts (pass k) summary with
    | returns result =>
      rw [hpass] at h
      obtain rfl : result = .ok final := Option.some.inj h
      have hsummary : (redeemPass parse opts (pass k) summary).summary = some final := by
        rw [hpass]
        rfl
      have hcounts := redeemPass_counts hsummary
      rw [hok, hbad] at hcounts
      exact hcounts
    | again next =>
      rw [hpass] at h
      have hsummary : (redeemPass parse opts (pass k) summary).summary = some next := by
        rw [hpass]
        rfl
      have hcounts := redeemPass_counts hsummary
      rw [hok, hbad] at hcounts
      obtain ⟨hredeemed, hfailed⟩ := ih (k + 1) h
      simp only [List.map_cons, List.sum_cons]
      omega

theorem passSteps_getElem {pass : Nat → PassAnswers} {fuel k : Nat} {summary : RedeemSummary}
    {i : Nat} {step : PassStep}
    (h : (passSteps parse opts pass fuel k summary)[i]? = some step) :
    ∃ before, step = ⟨plannedIn parse opts (pass (k + i)) before,
      (passTally parse opts (pass (k + i)) before).log⟩ := by
  induction fuel generalizing k summary i with
  | zero => cases h
  | succ fuel ih =>
    rw [passSteps] at h
    cases i with
    | zero => exact ⟨summary, (Option.some.inj h).symm⟩
    | succ i =>
      rw [List.getElem?_cons_succ] at h
      split at h
      next => cases h
      next next _ =>
        obtain ⟨before, hstep⟩ := ih h
        rw [Nat.add_assoc, Nat.add_comm 1] at hstep
        exact ⟨before, hstep⟩

/-- A step submits the conditions it set out to submit. -/
theorem passSteps_submitted {pass : Nat → PassAnswers} {fuel k : Nat} {summary : RedeemSummary}
    {step : PassStep} (h : step ∈ passSteps parse opts pass fuel k summary) :
    submittedConditions step.log = (step.planned.map (·.conditionId)).toFinset := by
  obtain ⟨i, hi⟩ := List.mem_iff_getElem?.mp h
  obtain ⟨before, rfl⟩ := passSteps_getElem hi
  exact (passTally_counts parse opts _ before).1

variable (parse opts)

/-- The wallet holds nothing of a condition where a pass looks for it. -/
def Gone (answers : PassAnswers) (c : B256) : Prop :=
  ∀ positions hitCap balances, answers.listing = .ok (positions, hitCap) →
    readBalances answers.balanceOfBatch
      ((groupRedeemable parse positions).flatMap tokenIds) = .ok balances →
    labelledTotal parse positions balances c = 0

/-- Accepted batches redeem: what one pass had accepted is gone in every later one. -/
def TakesEffect (pass : Nat → PassAnswers) (fuel : Nat) : Prop :=
  ∀ (j : Nat) (step : PassStep), (passSteps parse opts pass fuel 0 ⟨0, 0, 0⟩)[j]? = some step →
    ∀ c ∈ acceptedConditions step.log, ∀ k, j < k → Gone parse (pass k) c

variable {parse opts}

theorem Gone.not_planned {answers : PassAnswers} {c : B256} (h : Gone parse answers c)
    (summary : RedeemSummary) :
    c ∉ (plannedIn parse opts answers summary).map (·.conditionId) := by
  unfold plannedIn
  split
  next => exact List.not_mem_nil
  next positions hitCap hlisting =>
    split
    next => exact List.not_mem_nil
    next redemptions hplan =>
      obtain ⟨balances, hread, rfl⟩ := readAndPlan_ok hplan
      intro hmem
      have hplanned : ∃ r ∈ buildRedemptions (groupRedeemable parse positions) balances
          opts.minSharesRaw, r.conditionId = c := by
        obtain ⟨r, hr, hc⟩ := List.mem_map.mp hmem
        split at hr
        next => exact ⟨r, List.mem_of_mem_take hr, hc⟩
        next => exact ⟨r, hr, hc⟩
      have hheld := ((redeemed_iff parse positions balances opts.minSharesRaw c).mp hplanned).2.1
      exact hheld (h positions hitCap balances hlisting hread)

/-- What a pass had accepted no later pass submits. -/
theorem TakesEffect.disjoint {pass : Nat → PassAnswers} {fuel : Nat}
    (h : TakesEffect parse opts pass fuel) :
    (passSteps parse opts pass fuel 0 ⟨0, 0, 0⟩).Pairwise fun earlier later =>
      Disjoint (acceptedConditions earlier.log) (submittedConditions later.log) := by
  rw [List.pairwise_iff_getElem]
  intro i j hi hj hij
  obtain ⟨before, hlater⟩ := passSteps_getElem (List.getElem?_eq_getElem hj)
  refine Finset.disjoint_left.mpr fun c hc hc' => ?_
  have hgone := h i _ (List.getElem?_eq_getElem hi) c hc j hij
  rw [passSteps_submitted (List.getElem_mem hj), hlater, List.mem_toFinset, Nat.zero_add] at hc'
  exact hgone.not_planned before hc'

end

/-- When accepted batches redeem, a summary counts the conditions of the run exactly when no
pass sets out to submit a condition that an earlier pass had refused. -/
theorem summary_counts_conditions_iff (parse : Parsers) (opts : RedeemOptions) (outside : Outside)
    (fuel : Nat) (summary : RedeemSummary) (heffect : TakesEffect parse opts outside.pass fuel)
    (hreturns : redeemAll parse opts outside fuel = some (.ok summary)) :
    let steps := passSteps parse opts outside.pass fuel 0 ⟨0, 0, 0⟩
    let log := steps.flatMap (·.log)
    summary.redeemed = (acceptedConditions log).card ∧
        summary.failed = (refusedConditions log).card ↔
      steps.Pairwise fun earlier later =>
        ∀ r ∈ later.planned, r.conditionId ∉ refusedConditions earlier.log := by
  intro steps log
  have hloop : redeemLoop parse opts outside.pass fuel 0 ⟨0, 0, 0⟩ = some (.ok summary) := by
    unfold redeemAll at hreturns
    split at hreturns
    next => cases hreturns
    next => exact hreturns
  obtain ⟨hredeemed, hfailed⟩ := redeemLoop_counts outside.pass fuel 0 hloop
  have haccepted : summary.redeemed = (acceptedConditions log).card := by
    rw [hredeemed, accepted_flatMap, Rounds.card_all]
    · exact Nat.zero_add _
    · exact heffect.disjoint.imp fun h => h.mono_right (accepted_subset _)
  have hrefused := (Rounds.sum_unfinished (fun step => accepted_subset (PassStep.log step))
    heffect.disjoint).2
  rw [and_iff_right haccepted, hfailed, refusedConditions, submitted_flatMap, accepted_flatMap,
    Nat.zero_add]
  refine hrefused.trans (List.Pairwise.iff_of_mem fun _ hlater => ?_)
  rw [passSteps_submitted hlater, Finset.disjoint_right]
  simp only [List.mem_toFinset, List.forall_mem_map]
  exact Iff.rfl

/-! ## A refused condition that comes back -/

/-- One call a batch and no retries. -/
def oneByOne : RedeemOptions := { batchSize := 1, batchMaxRetries := 0, walletBusyMaxRetries := 0 }

def firstHeld : Position :=
  ⟨"7", 5, "0x00000000000000000000000000000000000000000000000000000000000000c1", "Yes", false⟩

def secondHeld : Position :=
  ⟨"8", 5, "0x00000000000000000000000000000000000000000000000000000000000000c2", "Yes", false⟩

/-- Of two conditions the relayer takes the first and refuses the second; the passes after
that list `rest` and are refused. -/
def secondRefused (rest : List Position) : Nat → PassAnswers
  | 0 =>
    { listing := .ok ([firstHeld, secondHeld], true)
      balanceOfBatch := fun _ ids => .ok (ids.map fun _ => 5)
      relayer := fun i => if i = 0 then .ok "tx" else .error (.invalidData "refused") }
  | _ + 1 =>
    { listing := .ok (rest, true)
      balanceOfBatch := fun _ ids => .ok (ids.map fun _ => 5)
      relayer := fun _ => .error (.invalidData "refused") }

theorem secondRefused_takesEffect {rest : List Position}
    (hrest : rowsOf readers (Words.Word.ofNat 0xc1) rest = [])
    (haccepted : (passSteps readers oneByOne (secondRefused rest) 2 0 ⟨0, 0, 0⟩).map
      (fun step => acceptedConditions step.log) = [{Words.Word.ofNat 0xc1}, ∅]) :
    TakesEffect readers oneByOne (secondRefused rest) 2 := by
  have hgone (k : Nat) : Gone readers (secondRefused rest (k + 1)) (Words.Word.ofNat 0xc1) := by
    intro positions hitCap balances hlisting _
    cases hlisting
    unfold labelledTotal
    rw [lastToken_none "yes" hrest, lastToken_none "no" hrest]
    rfl
  intro j step hstep c hc k hjk
  have hj := congrArg (·[j]?) haccepted
  simp only [List.getElem?_map, hstep, Option.map_some] at hj
  obtain _ | _ | j := j
  · obtain rfl := Finset.mem_singleton.mp (Option.some.inj hj ▸ hc)
    obtain ⟨k, rfl⟩ := Nat.exists_eq_succ_of_ne_zero (Nat.ne_of_gt hjk)
    exact hgone k
  · exact absurd (Option.some.inj hj ▸ hc) (Finset.notMem_empty c)
  · cases hj

theorem summary_counts_conditions_iff_resumed :
    let steps := passSteps readers oneByOne (secondRefused []) 2 0 ⟨0, 0, 0⟩
    let log := steps.flatMap (·.log)
    1 = (acceptedConditions log).card ∧ 1 = (refusedConditions log).card ↔
      steps.Pairwise fun earlier later =>
        ∀ r ∈ later.planned, r.conditionId ∉ refusedConditions earlier.log :=
  summary_counts_conditions_iff readers oneByOne ⟨.ok (), secondRefused []⟩ 2 ⟨1, 1, 2⟩
    (secondRefused_takesEffect (by decide +kernel) (by decide +kernel)) (by decide +kernel)

theorem refused_counted_twice :
    ¬∀ (parse : Parsers) (opts : RedeemOptions) (outside : Outside) (fuel : Nat)
      (summary : RedeemSummary), TakesEffect parse opts outside.pass fuel →
        redeemAll parse opts outside fuel = some (.ok summary) →
        let log := (passSteps parse opts outside.pass fuel 0 ⟨0, 0, 0⟩).flatMap (·.log)
        summary.redeemed = (acceptedConditions log).card ∧
          summary.failed = (refusedConditions log).card := by
  intro h
  have hcounts := h readers oneByOne ⟨.ok (), secondRefused [secondHeld]⟩ 2 ⟨1, 2, 2⟩
    (secondRefused_takesEffect (by decide +kernel) (by decide +kernel)) (by decide +kernel)
  revert hcounts
  decide +kernel

end Eggplant.Redeem
