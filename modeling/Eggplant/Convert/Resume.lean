import Eggplant.Convert.Engine
import Eggplant.Convert.Execute

/-!
# Resuming after a failed submission

A failure can cut the call list at any chunk boundary. Every prefix of a planned
list is a certified run, so wherever the cut falls the ledger is `Reachable` from
the start: what was freed and what can still be freed add up to the first plan,
and the next round plans from there. `Safe` carries this through the engine, one
function at a time.
-/
namespace Eggplant.Convert

set_option autoImplicit false

open Eggplant.Lib Eggplant.Lib.Words

def Reachable (P : Portfolio) (start ledger : Ledger) : Prop := ∃ ops, Reap P start ops ledger

namespace Reachable

variable {P : Portfolio} {start ledger next : Ledger}

theorem refl (P : Portfolio) (start : Ledger) : Reachable P start start := ⟨[], .nil start⟩

theorem trans (h : Reachable P start ledger) {ops : List Op} (h' : Reap P ledger ops next) :
    Reachable P start next := by
  obtain ⟨before, hrun⟩ := h
  exact ⟨before ++ ops, hrun.append h'⟩

theorem no_le (h : Reachable P start ledger) (q : B256) : ledger.no q ≤ start.no q := by
  obtain ⟨ops, hrun⟩ := h
  apply hrun.invariant (p := fun l => l.no q ≤ start.no q) _ le_rfl
  intro l op l' _ hexec hle
  exact ((exec_monotone hexec).1 q).trans hle

theorem credited_le (h : Reachable P start ledger) (m : B256) :
    start.credited m ≤ ledger.credited m := by
  obtain ⟨ops, hrun⟩ := h
  apply hrun.invariant (p := fun l => start.credited m ≤ l.credited m) _ le_rfl
  intro l op l' _ hexec hle
  exact hle.trans ((exec_monotone hexec).2 m)

/-- Freed plus freeable, event by event. -/
theorem balance (h : Reachable P start ledger) {e : Event} (he : e ∈ P.events) :
    (e.credited ledger - e.credited start) + e.value ledger = e.value start := by
  have hmono : e.credited start ≤ e.credited ledger := by
    unfold Event.credited
    cases e.legs with
    | nil => exact le_rfl
    | cons l ls => exact h.credited_le l.marketId
  obtain ⟨ops, hrun⟩ := h
  have hsum := reap_balance hrun he
  omega

end Reachable

/-! ## Proceeds of a fresh plan -/

def Portfolio.plans (P : Portfolio) (ledger : Ledger) (floor : Nat) : List EventPlan :=
  P.events.map (fun e => planEventFromBalances e.legs (ledger.pairs e.legs) floor)

/-- Collateral freed since `start`, over all events. -/
def Portfolio.freed (P : Portfolio) (start ledger : Ledger) : Nat :=
  (P.events.map (fun e => e.credited ledger - e.credited start)).sum

def Portfolio.value (P : Portfolio) (ledger : Ledger) : Nat :=
  (P.events.map (fun e => e.value ledger)).sum

def Portfolio.totalNo (P : Portfolio) (ledger : Ledger) : Nat :=
  (P.events.map (fun e => e.totalNo ledger)).sum

theorem Reachable.total {P : Portfolio} {start ledger : Ledger} (h : Reachable P start ledger) :
    P.freed start ledger + P.value ledger = P.value start := by
  unfold Portfolio.freed Portfolio.value
  rw [← List.sum_map_add]
  congr 1
  apply List.map_congr_left
  intro e he
  exact h.balance he

theorem value_le_totalNo_all (P : Portfolio) (ledger : Ledger) :
    P.value ledger ≤ P.totalNo ledger :=
  List.sum_le_sum (fun e _ => value_le_totalNo e ledger)

private theorem foldl_proceeds (plans : List EventPlan) (acc : Nat) :
    plans.foldl (fun acc p => U256.add acc p.proceeds) acc % wordSize =
      (acc + (plans.map (·.proceeds)).sum) % wordSize := by
  induction plans generalizing acc with
  | nil => rfl
  | cons p ps ih =>
    rw [List.foldl_cons, ih, U256.add, Nat.mod_add_mod, List.map_cons, List.sum_cons, Nat.add_assoc]

private theorem foldl_proceeds_lt (plans : List EventPlan) {acc : Nat} (h : acc < wordSize) :
    plans.foldl (fun acc p => U256.add acc p.proceeds) acc < wordSize := by
  induction plans generalizing acc with
  | nil => exact h
  | cons p ps ih => exact ih (Nat.mod_lt _ (by decide))

theorem totalProceeds_eq (plans : List EventPlan) :
    totalProceeds plans = (plans.map (·.proceeds)).sum % wordSize := by
  have h := foldl_proceeds plans 0
  rw [Nat.zero_add] at h
  rw [totalProceeds, ← h, Nat.mod_eq_of_lt (foldl_proceeds_lt plans (by decide))]

private theorem sum_mod_congr {α : Type} (xs : List α) (f g : α → Nat) {n : Nat}
    (h : ∀ x ∈ xs, f x % n = g x % n) : (xs.map f).sum % n = (xs.map g).sum % n := by
  induction xs with
  | nil => rfl
  | cons x xs ih =>
    have hx := h x List.mem_cons_self
    have hxs := ih (fun y hy => h y (List.mem_cons_of_mem x hy))
    rw [List.map_cons, List.map_cons, List.sum_cons, List.sum_cons, Nat.add_mod, hx, hxs,
      ← Nat.add_mod]

/-- A fresh plan's proceeds are the portfolio's value, as a 256-bit word. -/
theorem totalProceeds_plans (P : Portfolio) (hcid : ∀ l ∈ P.legs, l.conditionId.isSome = true)
    (ledger : Ledger) (floor : Nat) :
    totalProceeds (P.plans ledger floor) = P.value ledger % wordSize := by
  rw [totalProceeds_eq, Portfolio.plans, List.map_map, Portfolio.value]
  apply sum_mod_congr
  intro e he
  have hsome : ∀ l ∈ e.legs, l.conditionId.isSome = true :=
    fun l hl => hcid l (List.mem_flatMap.mpr ⟨e, he, hl⟩)
  show (e.plan ledger floor).proceeds % wordSize = e.value ledger % wordSize
  rw [proceeds_eq_mod, planCredit_eq_value e ledger floor hsome, Nat.mod_mod]

/-! ## Registries -/

/-- Two registries that list an event execute its operations alike. -/
theorem exec_registry {registry registry' : List ConvertLeg} {e : Event} (hl : Listed registry e)
    (hl' : Listed registry' e) {op : Op} (hop : OnEvent e op) (ledger : Ledger) :
    exec registry ledger op = exec registry' ledger op := by
  cases hop with
  | merge hleg hc a => simp only [exec, hl.condition _ hleg _ hc, hl'.condition _ hleg _ hc]
  | convert hleg bits a => simp only [exec, hl.market _ hleg, hl'.market _ hleg]

/-- A certified run executes under every registry that lists the portfolio's events. -/
theorem reap_registry {P : Portfolio} {registry : List ConvertLeg}
    (hreg : ∀ e ∈ P.events, Listed registry e) {first last : Ledger} {ops : List Op}
    (h : Reap P first ops last) : execAll registry first ops = some last := by
  induction h with
  | nil s => rfl
  | @cons s mid last op ops hok hexec _ ih =>
    obtain ⟨e, he, hop, _⟩ := hok
    have hstep : exec registry s op = some mid :=
      (exec_registry (hreg e he) (P.listed he) hop s).trans hexec
    rw [execAll, Runs.execAll, hstep]
    exact ih

/-! ## Submissions -/

def isQuotaAnswer {α : Type} : Except Error α → Bool
  | .ok _ => false
  | .error e => e.isQuotaExhausted

theorem not_quota_of_busy {e : Error} (h : e.isWalletBusy = true) : e.isQuotaExhausted = false := by
  by_contra hq
  rw [Error.quota_not_busy (by simpa using hq)] at h
  cases h

structure Safe (P : Portfolio) (start : Ledger) (w : World) : Prop where
  reach : Reachable P start w.ledger
  settled : ∀ r ∈ w.log, r.reverted = false ∧ Reachable P start r.after
  halted : ∀ before r after, w.log = before ++ r :: after → isQuotaAnswer r.answer = true →
    after = []

/-- The relayer's quota has not been reported spent. -/
def QuotaLeft (w : World) : Prop := ∀ r ∈ w.log, isQuotaAnswer r.answer = false

/-- A safe world whose quota is left unless the result says otherwise. -/
structure Continues (P : Portfolio) (start : Ledger) {α : Type} (res : Except Error α × World) :
    Prop where
  safe : Safe P start res.2
  quota : isQuotaAnswer res.1 = false → QuotaLeft res.2

section Engine
variable {P : Portfolio} {start : Ledger} (env : Env)

theorem safe_submit {w : World} (hs : Safe P start w) (hq : QuotaLeft w) (submission : Submission)
    (hreach : Reachable P start
      (settleSubmission env.registry w.ledger (env.answer w.log.length) submission).1)
    (hok : (settleSubmission env.registry w.ledger (env.answer w.log.length) submission).2 = false) :
    Continues P start (submitAndSettle env w submission) := by
  refine ⟨⟨hreach, ?_, ?_⟩, ?_⟩
  · intro r hr
    rcases List.mem_append.mp hr with hr | hr
    · exact hs.settled r hr
    · obtain rfl := List.mem_singleton.mp hr
      exact ⟨hok, hreach⟩
  · -- a quota answer with something behind it would stand in the old log
    intro before r after hlog hquota
    rcases List.eq_nil_or_concat after with hnil | ⟨rest, last, rfl⟩
    · exact hnil
    · simp only [submitAndSettle, List.concat_eq_append] at hlog
      rw [← List.cons_append, ← List.append_assoc] at hlog
      have hin : r ∈ w.log := by
        rw [(List.append_inj' hlog rfl).1]
        exact List.mem_append_right before List.mem_cons_self
      rw [hq r hin] at hquota
      cases hquota
  · intro hanswer r hr
    rcases List.mem_append.mp hr with hr | hr
    · exact hq r hr
    · obtain rfl := List.mem_singleton.mp hr
      exact hanswer

theorem submit_wrap {w : World} (hs : Safe P start w) (hq : QuotaLeft w)
    (calls : List DepositWalletCall) :
    Continues P start (submitAndSettle env w (.wrap calls)) ∧
      (submitAndSettle env w (.wrap calls)).2.ledger = w.ledger :=
  ⟨safe_submit env hs hq (.wrap calls) hs.reach rfl, rfl⟩

/-- An accepted chunk takes the certified run it stands for; a rejected one nothing. -/
theorem submit_cycle (hreg : ∀ e ∈ P.events, Listed env.registry e) {w : World} (hs : Safe P start w)
    (hq : QuotaLeft w) {calls : List DepositWalletCall} {ops : List Op} {next : Ledger}
    (hst : Stands calls ops) (hrun : Reap P w.ledger ops next) :
    Continues P start (submitAndSettle env w (.cycle calls)) ∧
      (∀ txId, (submitAndSettle env w (.cycle calls)).1 = .ok txId →
        (submitAndSettle env w (.cycle calls)).2.ledger = next) ∧
      (∀ e, (submitAndSettle env w (.cycle calls)).1 = .error e →
        (submitAndSettle env w (.cycle calls)).2.ledger = w.ledger) := by
  have hexec : execCalls env.registry w.ledger calls = some next := by
    rw [execCalls_eq env.registry w.ledger hst]
    exact reap_registry hreg hrun
  cases ha : env.answer w.log.length with
  | error e =>
    have hsettle : settleSubmission env.registry w.ledger (env.answer w.log.length)
        (.cycle calls) = (w.ledger, false) := by
      rw [ha]
      rfl
    refine ⟨safe_submit env hs hq _ ?_ ?_, ?_, ?_⟩
    · rw [hsettle]
      exact hs.reach
    · rw [hsettle]
    · intro txId h
      simp only [submitAndSettle, ha] at h
      cases h
    · intro _ _
      simp only [submitAndSettle, hsettle]
  | ok txId =>
    have hsettle : settleSubmission env.registry w.ledger (env.answer w.log.length)
        (.cycle calls) = (next, false) := by
      rw [ha]
      simp only [settleSubmission, hexec]
    refine ⟨safe_submit env hs hq _ ?_ ?_, ?_, ?_⟩
    · rw [hsettle]
      exact hs.reach.trans hrun
    · rw [hsettle]
    · intro _ _
      simp only [submitAndSettle, hsettle]
    · intro e h
      simp only [submitAndSettle, ha] at h
      cases h

/-- Retrying a busy wallet changes nothing until an attempt is accepted. -/
theorem submit_retry_cycle (hreg : ∀ e ∈ P.events, Listed env.registry e) (retries : Nat) {w : World}
    (hs : Safe P start w) (hq : QuotaLeft w) {calls : List DepositWalletCall} {ops : List Op}
    {next : Ledger} (hst : Stands calls ops) (hrun : Reap P w.ledger ops next) :
    Continues P start (submitAndSettleWithBusyRetry env retries w (.cycle calls)) ∧
      ∀ txId, (submitAndSettleWithBusyRetry env retries w (.cycle calls)).1 = .ok txId →
        (submitAndSettleWithBusyRetry env retries w (.cycle calls)).2.ledger = next := by
  induction retries generalizing w with
  | zero =>
    obtain ⟨hcont, hok, _⟩ := submit_cycle env hreg hs hq hst hrun
    exact ⟨hcont, hok⟩
  | succ retries ih =>
    obtain ⟨hcont, hok, herr⟩ := submit_cycle env hreg hs hq hst hrun
    rw [submitAndSettleWithBusyRetry]
    cases hres : submitAndSettle env w (.cycle calls) with
    | mk answer w' =>
      rw [hres] at hcont hok herr
      cases answer with
      | ok txId => exact ⟨hcont, hok⟩
      | error e =>
        simp only
        by_cases hbusy : e.isWalletBusy = true
        · rw [if_pos hbusy]
          have hsame : w'.ledger = w.ledger := herr e rfl
          exact ih hcont.safe (hcont.quota (not_quota_of_busy hbusy)) (hsame ▸ hrun)
        · rw [if_neg hbusy]
          exact ⟨hcont, fun txId h => by cases h⟩

/-- Reads change neither the ledger nor the log. -/
theorem Safe.reads {w w' : World} (hs : Safe P start w) (hledger : w'.ledger = w.ledger)
    (hlog : w'.log = w.log) : Safe P start w' where
  reach := hledger ▸ hs.reach
  settled := hlog ▸ hs.settled
  halted := hlog ▸ hs.halted

theorem wrapUsdcE_continues {w : World} (hs : Safe P start w) (hq : QuotaLeft w) :
    Continues P start (wrapUsdcE env w) ∧ (wrapUsdcE env w).2.ledger = w.ledger := by
  let w₁ : World := { w with wrapReads := w.wrapReads + 1 }
  have hs₁ : Safe P start w₁ := hs.reads rfl rfl
  have hq₁ : QuotaLeft w₁ := hq
  unfold wrapUsdcE
  cases env.wrapSnapshot w.wrapReads with
  | error e => exact ⟨⟨hs₁, fun _ => hq₁⟩, rfl⟩
  | ok snapshot =>
    simp only
    by_cases hzero : snapshot.balance = 0
    · rw [if_pos hzero]
      exact ⟨⟨hs₁, fun _ => hq₁⟩, rfl⟩
    · rw [if_neg hzero]
      obtain ⟨hcont, hledger⟩ := submit_wrap env hs₁ hq₁
        (wrapCalls env.wallet snapshot.balance (decide (snapshot.allowance < snapshot.balance)))
      cases hres : submitAndSettle env w₁ (.wrap (wrapCalls env.wallet snapshot.balance
          (decide (snapshot.allowance < snapshot.balance)))) with
      | mk answer w₂ =>
        rw [hres] at hcont hledger
        cases answer with
        | ok txId => exact ⟨⟨hcont.safe, hcont.quota⟩, hledger⟩
        | error e => exact ⟨⟨hcont.safe, hcont.quota⟩, hledger⟩

theorem wrapWithBusyRetry_continues (retries : Nat) {w : World} (hs : Safe P start w)
    (hq : QuotaLeft w) : Continues P start (wrapWithBusyRetry env retries w) ∧
      (wrapWithBusyRetry env retries w).2.ledger = w.ledger := by
  induction retries generalizing w with
  | zero => exact wrapUsdcE_continues env hs hq
  | succ retries ih =>
    obtain ⟨hcont, hledger⟩ := wrapUsdcE_continues env hs hq
    rw [wrapWithBusyRetry]
    cases hres : wrapUsdcE env w with
    | mk answer w' =>
      rw [hres] at hcont hledger
      cases answer with
      | ok u => exact ⟨hcont, hledger⟩
      | error e =>
        simp only
        by_cases hbusy : e.isWalletBusy = true
        · rw [if_pos hbusy]
          have hnext := ih hcont.safe (hcont.quota (not_quota_of_busy hbusy))
          exact ⟨hnext.1, hnext.2.trans hledger⟩
        · rw [if_neg hbusy]
          exact ⟨hcont, hledger⟩

theorem wrapBestEffort_safe (delays : ConvertDelays) {w : World} (hs : Safe P start w)
    (hq : QuotaLeft w) : Safe P start (wrapBestEffort env delays w) ∧
      (wrapBestEffort env delays w).ledger = w.ledger := by
  obtain ⟨hcont, hledger⟩ := wrapWithBusyRetry_continues env
    delays.walletBusyMaxRetries hs hq
  exact ⟨hcont.safe, hledger⟩

/-! ## Chunks -/

omit env in
/-- The operations behind a list of calls split where the list does. -/
private theorem stands_split {calls calls' : List DepositWalletCall} {ops : List Op}
    (h : Stands (calls ++ calls') ops) :
    ∃ ops₁ ops₂, ops = ops₁ ++ ops₂ ∧ Stands calls ops₁ ∧ Stands calls' ops₂ := by
  induction calls generalizing ops with
  | nil => exact ⟨[], ops, rfl, .nil, h⟩
  | cons call calls ih =>
    cases h with
    | cons hop htail =>
      obtain ⟨ops₁, ops₂, rfl, h₁, h₂⟩ := ih htail
      exact ⟨_ :: ops₁, ops₂, rfl, .cons hop h₁, h₂⟩

/-- Wherever the chunks are cut off, what was accepted is a prefix of the run. -/
theorem submitChunks_continues (hreg : ∀ e ∈ P.events, Listed env.registry e) (retries : Nat)
    (calls : List DepositWalletCall) (ranges : List CallRange) {w : World} (hs : Safe P start w)
    (hq : QuotaLeft w) {ops : List Op} {last : Ledger}
    (hst : Stands (ranges.flatMap (fun r => r.slice calls)) ops) (hrun : Reap P w.ledger ops last)
    (txId : String) :
    Continues P start (submitChunks env retries calls ranges w txId) ∧
      ∀ txId', (submitChunks env retries calls ranges w txId).1 = .ok txId' →
        (submitChunks env retries calls ranges w txId).2.ledger = last := by
  induction ranges generalizing w ops txId with
  | nil =>
    cases hst
    cases hrun
    exact ⟨⟨hs, fun _ => hq⟩, fun _ _ => rfl⟩
  | cons range ranges ih =>
    rw [List.flatMap_cons] at hst
    obtain ⟨ops₁, ops₂, rfl, hst₁, hst₂⟩ := stands_split hst
    obtain ⟨mid, hrun₁, hrun₂⟩ := hrun.split ops₁
    obtain ⟨hcont, hok⟩ := submit_retry_cycle env hreg retries hs hq hst₁ hrun₁
    rw [submitChunks]
    cases hres : submitAndSettleWithBusyRetry env retries w (.cycle (range.slice calls)) with
    | mk answer w' =>
      rw [hres] at hcont hok
      cases answer with
      | error e => exact ⟨hcont, fun _ h => by cases h⟩
      | ok tx =>
        have hmid : w'.ledger = mid := hok tx rfl
        exact ih hcont.safe (hcont.quota rfl) hst₂ (hmid ▸ hrun₂) tx

/-! ## Planning -/

theorem planJobs_world (jobs : List ConvertJob) (floor : Nat) (w : World) :
    (planJobs env jobs floor w).2.ledger = w.ledger ∧ (planJobs env jobs floor w).2.log = w.log := by
  have hread : (readBalancesMulti env jobs w).2.ledger = w.ledger ∧
      (readBalancesMulti env jobs w).2.log = w.log := by
    unfold readBalancesMulti
    simp only
    split
    · exact ⟨rfl, rfl⟩
    · split
      · exact ⟨rfl, rfl⟩
      · exact ⟨rfl, rfl⟩
  unfold planJobs
  cases hb : readBalancesMulti env jobs w with
  | mk balances w' =>
    rw [hb] at hread
    cases balances with
    | error e => exact hread
    | ok balances =>
      cases env.wrapSnapshot w.wrapReads with
      | error e => exact hread
      | ok snap => exact hread

/-! ## The record -/

/-- What a submission logs: the relayer's answer at its position, and what that answer makes of
the ledger before it. -/
def Env.record (log : List Submitted) (ledger : Ledger) (submission : Submission) : Submitted :=
  let answer := env.answer log.length
  let settled := settleSubmission env.registry ledger answer submission
  { submission, answer, after := settled.1, reverted := settled.2 }

/-- A log that records what happened since `start`, and the ledger it leads to. -/
inductive Recorded (start : Ledger) : List Submitted → Ledger → Prop
  | start : Recorded start [] start
  | submitted {log : List Submitted} {ledger : Ledger} (h : Recorded start log ledger)
    (submission : Submission) :
    Recorded start (log ++ [env.record log ledger submission])
      (env.record log ledger submission).after

variable {env} in
theorem Recorded.scripted {log : List Submitted} {ledger : Ledger}
    (h : Recorded env start log ledger) : Retry.Scripted Submitted.answer env.answer log := by
  induction h with
  | start => exact Retry.Scripted.nil _ _
  | submitted _ submission ih => exact ih.concat rfl

section Record
variable {Q : List Submitted → Ledger → Prop}
  (hsubmit : ∀ log ledger submission, Q log ledger →
    Q (log ++ [env.record log ledger submission]) (env.record log ledger submission).after)
include hsubmit

theorem submitAndSettle_keeps (submission : Submission) {w : World} (h : Q w.log w.ledger) :
    Q (submitAndSettle env w submission).2.log (submitAndSettle env w submission).2.ledger :=
  hsubmit w.log w.ledger submission h

theorem submitAndSettleWithBusyRetry_keeps (retries : Nat) (submission : Submission) {w : World}
    (h : Q w.log w.ledger) :
    Q (submitAndSettleWithBusyRetry env retries w submission).2.log
      (submitAndSettleWithBusyRetry env retries w submission).2.ledger := by
  rw [submitAndSettleWithBusyRetry_eq]
  exact Retry.retry_keeps (Q := fun w : World => Q w.log w.ledger)
    (fun w hw => submitAndSettle_keeps env hsubmit submission hw) _ _ h

theorem wrapBestEffort_keeps (delays : ConvertDelays) {w : World} (h : Q w.log w.ledger) :
    Q (wrapBestEffort env delays w).log (wrapBestEffort env delays w).ledger := by
  have hwrap (w : World) (hw : Q w.log w.ledger) :
      Q (wrapUsdcE env w).2.log (wrapUsdcE env w).2.ledger := by
    unfold wrapUsdcE
    cases env.wrapSnapshot w.wrapReads with
    | error e => exact hw
    | ok snapshot =>
      simp only
      by_cases hzero : snapshot.balance = 0
      · rw [if_pos hzero]
        exact hw
      · rw [if_neg hzero]
        let w₁ : World := { w with wrapReads := w.wrapReads + 1 }
        have hw₁ : Q w₁.log w₁.ledger := hw
        have hnext := submitAndSettle_keeps env hsubmit (.wrap (wrapCalls env.wallet
          snapshot.balance (decide (snapshot.allowance < snapshot.balance)))) hw₁
        cases hres : submitAndSettle env w₁ (.wrap (wrapCalls env.wallet snapshot.balance
            (decide (snapshot.allowance < snapshot.balance)))) with
        | mk answer w₂ =>
          rw [hres] at hnext
          cases answer with
          | ok txId => exact hnext
          | error e => exact hnext
  rw [wrapBestEffort, wrapWithBusyRetry_eq]
  exact Retry.retry_keeps (Q := fun w : World => Q w.log w.ledger) hwrap _ _ h

theorem submitChunks_keeps (retries : Nat) (calls : List DepositWalletCall)
    (ranges : List CallRange) (txId : String) {w : World} (h : Q w.log w.ledger) :
    Q (submitChunks env retries calls ranges w txId).2.log
      (submitChunks env retries calls ranges w txId).2.ledger := by
  induction ranges generalizing w txId with
  | nil => exact h
  | cons range ranges ih =>
    have hnext := submitAndSettleWithBusyRetry_keeps env hsubmit retries
      (.cycle (range.slice calls)) h
    rw [submitChunks]
    cases hres : submitAndSettleWithBusyRetry env retries w (.cycle (range.slice calls)) with
    | mk answer w' =>
      rw [hres] at hnext
      cases answer with
      | ok txId' => exact ih txId' hnext
      | error e => exact hnext

theorem processRound_keeps (jobs : List ConvertJob) (delays : ConvertDelays) {w : World}
    (h : Q w.log w.ledger) :
    Q (processRound env jobs delays w).2.log (processRound env jobs delays w).2.ledger := by
  obtain ⟨hledger, hlog⟩ := planJobs_world env jobs delays.singleLegMinQtyRaw w
  unfold processRound
  cases hplan : planJobs env jobs delays.singleLegMinQtyRaw w with
  | mk planned w₁ =>
    rw [hplan] at hledger hlog
    rw [← show w₁.ledger = w.ledger from hledger, ← show w₁.log = w.log from hlog] at h
    cases planned with
    | error e => exact h
    | ok planned =>
      obtain ⟨plans, snapshot⟩ := planned
      simp only
      cases planCalls plans with
      | error e => exact h
      | ok calls =>
        simp only
        by_cases hnil : calls = []
        · rw [if_pos hnil]
          split
          · exact wrapBestEffort_keeps env hsubmit delays h
          · exact h
        · rw [if_neg hnil]
          have hnext := submitChunks_keeps env hsubmit delays.walletBusyMaxRetries
            (calls.map (·.call))
            (gasChunks calls delays.maxCallsPerSubmission delays.maxGasPerSubmission) "" h
          cases hres : submitChunks env delays.walletBusyMaxRetries (calls.map (·.call))
              (gasChunks calls delays.maxCallsPerSubmission delays.maxGasPerSubmission) w₁ "" with
          | mk answer w₂ =>
            rw [hres] at hnext
            cases answer with
            | ok txId => exact wrapBestEffort_keeps env hsubmit delays hnext
            | error e => exact hnext

/-- What every submission keeps, a run keeps. -/
theorem processRounds_keeps (jobs : List ConvertJob) (delays : ConvertDelays) (rounds : Nat)
    (lastErr : Option Error) {w : World} (h : Q w.log w.ledger) :
    Q (processRounds env jobs delays rounds lastErr w).2.log
      (processRounds env jobs delays rounds lastErr w).2.ledger := by
  induction rounds generalizing w lastErr with
  | zero => exact wrapBestEffort_keeps env hsubmit delays h
  | succ rounds ih =>
    have hnext := processRound_keeps env hsubmit jobs delays h
    rw [processRounds]
    cases hres : processRound env jobs delays w with
    | mk answer w' =>
      rw [hres] at hnext
      cases answer with
      | ok detail => exact hnext
      | error e =>
        simp only
        by_cases hquota : e.isQuotaExhausted = true
        · rw [if_pos hquota]
          exact hnext
        · rw [if_neg hquota]
          exact ih (some e) hnext

end Record

theorem processJobs_recorded (jobs : List ConvertJob) (delays : ConvertDelays) (start : Ledger) :
    Recorded env start (processJobs env jobs delays (World.init start)).2.log
      (processJobs env jobs delays (World.init start)).2.ledger :=
  processRounds_keeps env (fun _ _ submission h => .submitted h submission) jobs delays _ none
    .start

/-- The balance reads show the ledger. -/
structure ReadsLedger (P : Portfolio) (balanceOf : Ledger → Nat → Nat) : Prop where
  no : ∀ l ∈ P.legs, ∀ ledger, balanceOf ledger l.noTokenId = ledger.no l.questionId
  yes : ∀ l ∈ P.legs, ∀ y, l.yesTokenId = some y →
    ∀ ledger, balanceOf ledger y = ledger.yes l.questionId

/-- The jobs are the portfolio's events, in its order. -/
def JobsOf (P : Portfolio) (jobs : List ConvertJob) : Prop :=
  jobs.map (·.legs) = P.events.map (·.legs)

section Planning
variable {jobs : List ConvertJob} (hread : ReadsLedger P env.balanceOf)
  (hyes : ∀ l ∈ P.legs, l.yesTokenId.isSome = true) (hjobs : JobsOf P jobs)
include hread hyes

theorem legPair_reads (ledger : Ledger) {e : Event} (he : e ∈ P.events) :
    e.legs.map (legPair (env.balanceOf ledger)) = ledger.pairs e.legs := by
  apply List.map_congr_left
  intro l hl
  have hin : l ∈ P.legs := List.mem_flatMap.mpr ⟨e, he, hl⟩
  obtain ⟨y, hy⟩ := Option.isSome_iff_exists.mp (hyes l hin)
  simp only [legPair, hy, Option.map_some, Option.getD_some, hread.no l hin, hread.yes l hin y hy]

include hjobs

/-- What a successful read returns are the ledger's balances, job by job. -/
theorem readBalancesMulti_ok {w : World} {balances : List (List (Nat × Nat))}
    (h : (readBalancesMulti env jobs w).1 = .ok balances) :
    balances = P.events.map (fun e => w.ledger.pairs e.legs) := by
  have hpairs : jobs.map (fun j => j.legs.map (legPair (env.balanceOf w.ledger))) =
      P.events.map (fun e => w.ledger.pairs e.legs) := by
    calc jobs.map (fun j => j.legs.map (legPair (env.balanceOf w.ledger)))
        = (jobs.map (·.legs)).map (fun legs => legs.map (legPair (env.balanceOf w.ledger))) := by
          rw [List.map_map]
          rfl
      _ = P.events.map (fun e => e.legs.map (legPair (env.balanceOf w.ledger))) := by
          rw [hjobs, List.map_map]
          rfl
      _ = P.events.map (fun e => w.ledger.pairs e.legs) :=
          List.map_congr_left (fun _ he => legPair_reads env hread hyes w.ledger he)
  unfold readBalancesMulti at h
  simp only at h
  split at h
  · rename_i hnone
    rw [← hpairs, ← Except.ok.inj h]
    apply List.map_congr_left
    intro job hjob
    -- no token ids at all means no legs
    have hids := List.flatMap_eq_nil_iff.mp hnone job hjob
    cases hlegs : job.legs with
    | nil => rfl
    | cons l ls =>
      rw [hlegs] at hids
      cases hids
  · split at h
    · cases h
    · simp only at h
      rw [unpackMulti_batch] at h
      rw [← hpairs]
      exact (Except.ok.inj h).symm

theorem planJobs_ok {w : World} {floor : Nat} {plans : List EventPlan} {snapshot : WrapSnapshot}
    (h : (planJobs env jobs floor w).1 = .ok (plans, snapshot)) : plans = P.plans w.ledger floor := by
  unfold planJobs at h
  cases hb : readBalancesMulti env jobs w with
  | mk balances w' =>
    rw [hb] at h
    cases balances with
    | error e => cases h
    | ok balances =>
      have hok : balances = P.events.map (fun e => w.ledger.pairs e.legs) :=
        readBalancesMulti_ok env hread hyes hjobs (by rw [hb])
      cases hsnap : env.wrapSnapshot w.wrapReads with
      | error e =>
        simp only [hsnap] at h
        cases h
      | ok snap =>
        simp only [hsnap, Except.ok.injEq, Prod.mk.injEq] at h
        have hzip : (jobs.zip balances).map
            (fun row => planEventFromBalances row.1.legs row.2 floor) =
            ((jobs.map (·.legs)).zip balances).map
              (fun row => planEventFromBalances row.1 row.2 floor) := by
          rw [List.zip_map_left, List.map_map]
          rfl
        rw [← h.1, hzip, hjobs, hok, List.zip_map', List.map_map]
        rfl

end Planning

/-! ## Rounds -/

/-- Nothing left to merge or convert. -/
def Portfolio.Settled (P : Portfolio) (ledger : Ledger) (floor : Nat) : Prop :=
  planCalls (P.plans ledger floor) = .ok []

theorem settled_of_empty {P : Portfolio} {ledger : Ledger} {floor : Nat}
    (h : ∀ e ∈ P.events, (e.plan ledger floor).merges = [] ∧ (e.plan ledger floor).tiers = []) :
    P.Settled ledger floor := by
  unfold Portfolio.Settled Portfolio.plans
  generalize P.events = es at h
  induction es with
  | nil => rfl
  | cons e es ih =>
    have ih' := ih (fun f hf => h f (List.mem_cons_of_mem e hf))
    obtain ⟨hm, ht⟩ := h e List.mem_cons_self
    show planCalls (e.plan ledger floor :: es.map _) = .ok []
    rw [planCalls, hm, ht, ih']
    rfl

/-- The salvage wrap at the end of a round leaves a settled ledger settled. -/
theorem wrapBestEffort_settled (delays : ConvertDelays) {w : World} (hs : Safe P start w)
    (hq : QuotaLeft w) {floor : Nat} (h : P.Settled w.ledger floor) :
    Safe P start (wrapBestEffort env delays w) ∧
      P.Settled (wrapBestEffort env delays w).ledger floor := by
  obtain ⟨hsafe, hsame⟩ := wrapBestEffort_safe env delays hs hq
  rw [hsame]
  exact ⟨hsafe, h⟩

section Rounds
variable {jobs : List ConvertJob} (hread : ReadsLedger P env.balanceOf)
  (hyes : ∀ l ∈ P.legs, l.yesTokenId.isSome = true) (hjobs : JobsOf P jobs)
  (hreg : ∀ e ∈ P.events, Listed env.registry e)
  (hbal : ∀ l ∈ P.legs, start.no l.questionId < wordSize)
  (delays : ConvertDelays)
include hread hyes hjobs hreg hbal

/-- A round ends safe; when it succeeds there is nothing left to plan, and when it
fails on anything but the quota the next round may submit. -/
theorem processRound_safe {w : World} (hs : Safe P start w) (hq : QuotaLeft w) :
    Safe P start (processRound env jobs delays w).2 ∧
      (∀ e, (processRound env jobs delays w).1 = .error e → e.isQuotaExhausted = false →
        QuotaLeft (processRound env jobs delays w).2) ∧
      ∀ detail, (processRound env jobs delays w).1 = .ok detail →
        P.Settled (processRound env jobs delays w).2.ledger delays.singleLegMinQtyRaw := by
  obtain ⟨hledger, hlog⟩ := planJobs_world env jobs delays.singleLegMinQtyRaw w
  have hok : ∀ plans snapshot,
      (planJobs env jobs delays.singleLegMinQtyRaw w).1 = .ok (plans, snapshot) →
        plans = P.plans w.ledger delays.singleLegMinQtyRaw :=
    fun _ _ h => planJobs_ok env hread hyes hjobs h
  unfold processRound
  cases hp : planJobs env jobs delays.singleLegMinQtyRaw w with
  | mk planned w₁ =>
    rw [hp] at hledger hlog hok
    simp only at hledger hlog
    have hs₁ : Safe P start w₁ := hs.reads hledger hlog
    have hq₁ : QuotaLeft w₁ := by
      unfold QuotaLeft
      rw [hlog]
      exact hq
    cases planned with
    | error e => exact ⟨hs₁, fun _ _ _ => hq₁, fun _ h => by cases h⟩
    | ok planned =>
      obtain ⟨plans, snapshot⟩ := planned
      obtain rfl : plans = P.plans w.ledger delays.singleLegMinQtyRaw := hok _ _ rfl
      rw [← hledger]
      have hno : ∀ e ∈ P.events, ∀ l ∈ e.legs, w₁.ledger.no l.questionId < wordSize := by
        intro e he l hl
        exact lt_of_le_of_lt (hs₁.reach.no_le l.questionId)
          (hbal l (List.mem_flatMap.mpr ⟨e, he, hl⟩))
      obtain ⟨calls, after, hcalls, hstands, hrun, hdone⟩ :=
        planCalls_reap P w₁.ledger delays.singleLegMinQtyRaw hno
      have hplan : planCalls (P.plans w₁.ledger delays.singleLegMinQtyRaw) = .ok calls := hcalls
      simp only [hplan]
      by_cases hnil : calls = []
      · rw [if_pos hnil]
        have hsettled : P.Settled w₁.ledger delays.singleLegMinQtyRaw := by
          rw [Portfolio.Settled, hplan, hnil]
        by_cases hleft : 0 < snapshot.balance
        · rw [if_pos hleft]
          obtain ⟨hsafe, hkept⟩ := wrapBestEffort_settled env delays hs₁ hq₁ hsettled
          exact ⟨hsafe, fun _ h => (by cases h), fun _ _ => hkept⟩
        · rw [if_neg hleft]
          exact ⟨hs₁, fun _ h => (by cases h), fun _ _ => hsettled⟩
      · rw [if_neg hnil]
        have hcover := gasChunks_cover calls delays.maxCallsPerSubmission
          delays.maxGasPerSubmission
        rw [← hcover] at hstands
        obtain ⟨hcont, hend⟩ := submitChunks_continues env hreg delays.walletBusyMaxRetries
          (calls.map (·.call)) _ hs₁ hq₁ hstands hrun ""
        cases hres : submitChunks env delays.walletBusyMaxRetries (calls.map (·.call))
            (gasChunks calls delays.maxCallsPerSubmission delays.maxGasPerSubmission) w₁ "" with
        | mk answer w₂ =>
          rw [hres] at hcont hend
          cases answer with
          | error e =>
            refine ⟨hcont.safe, ?_, fun _ h => by cases h⟩
            intro e' he hnq
            obtain rfl := Except.error.inj he
            exact hcont.quota hnq
          | ok txId =>
            have hlast : w₂.ledger = after := hend txId rfl
            have hsettled : P.Settled w₂.ledger delays.singleLegMinQtyRaw := by
              rw [hlast]
              exact settled_of_empty (fun e he => ⟨hdone.noMerges e he, hdone.noTiers e he⟩)
            obtain ⟨hsafe, hkept⟩ := wrapBestEffort_settled env delays hcont.safe
              (hcont.quota rfl) hsettled
            exact ⟨hsafe, fun _ h => (by cases h), fun _ _ => hkept⟩

theorem processRounds_listed (rounds : Nat) (lastErr : Option Error) {w : World}
    (hs : Safe P start w) (hq : QuotaLeft w) :
    Safe P start (processRounds env jobs delays rounds lastErr w).2 ∧
      ∀ detail, (processRounds env jobs delays rounds lastErr w).1 = .ok detail →
        P.Settled (processRounds env jobs delays rounds lastErr w).2.ledger
          delays.singleLegMinQtyRaw := by
  induction rounds generalizing w lastErr with
  | zero =>
    obtain ⟨hsafe, _⟩ := wrapBestEffort_safe env delays hs hq
    exact ⟨hsafe, fun _ h => by cases h⟩
  | succ rounds ih =>
    obtain ⟨hsafe, hfail, hok⟩ := processRound_safe env hread hyes hjobs hreg hbal delays hs hq
    rw [processRounds]
    cases hres : processRound env jobs delays w with
    | mk answer w' =>
      rw [hres] at hsafe hfail hok
      cases answer with
      | ok detail => exact ⟨hsafe, hok⟩
      | error e =>
        simp only
        by_cases hquota : e.isQuotaExhausted = true
        · rw [if_pos hquota]
          exact ⟨hsafe, fun _ h => by cases h⟩
        · rw [if_neg hquota]
          exact ih (some e) hsafe (hfail e rfl (by simpa using hquota))

end Rounds

theorem processRounds_safe {jobs : List ConvertJob} (hread : ReadsLedger P env.balanceOf)
    (hyes : ∀ l ∈ P.legs, l.yesTokenId.isSome = true) (hjobs : JobsOf P jobs)
    (henv : env.registry = P.legs) (hbal : ∀ l ∈ P.legs, start.no l.questionId < wordSize)
    (delays : ConvertDelays) (rounds : Nat) (lastErr : Option Error) {w : World}
    (hs : Safe P start w) (hq : QuotaLeft w) :
    Safe P start (processRounds env jobs delays rounds lastErr w).2 ∧
      ∀ detail, (processRounds env jobs delays rounds lastErr w).1 = .ok detail →
        P.Settled (processRounds env jobs delays rounds lastErr w).2.ledger
          delays.singleLegMinQtyRaw :=
  processRounds_listed env hread hyes hjobs (fun _ he => henv ▸ P.listed he) hbal delays rounds
    lastErr hs hq

end Engine

/-- The ledgers the wallet goes through: before the run and after each submission. -/
def World.moments (w : World) (start : Ledger) : List Ledger := start :: w.log.map (·.after)

theorem safe_init (P : Portfolio) (start : Ledger) : Safe P start (World.init start) where
  reach := Reachable.refl P start
  settled := fun _ hr => nomatch hr
  halted := by
    intro before r after hlog
    cases before <;> cases hlog

/-- No accepted call reverts; freed and freeable collateral always add up to the first
plan, in 256-bit words and, when the NO totals fit a word, as numbers; a quota
answer is the last submission; and success leaves nothing to plan. Each entry of the log
carries the relayer's answer at its place and what that answer made of the ledger. -/
theorem process_jobs_resume_safe (P : Portfolio)
    (hcid : ∀ l ∈ P.legs, l.conditionId.isSome = true)
    (hyes : ∀ l ∈ P.legs, l.yesTokenId.isSome = true)
    (env : Env) (henv : env.registry = P.legs) (hread : ReadsLedger P env.balanceOf)
    (jobs : List ConvertJob) (hjobs : JobsOf P jobs) (delays : ConvertDelays) (start : Ledger)
    (hbal : ∀ l ∈ P.legs, start.no l.questionId < wordSize) :
    let run := processJobs env jobs delays (World.init start)
    let fresh (ledger : Ledger) := totalProceeds (P.plans ledger delays.singleLegMinQtyRaw)
    (∀ r ∈ run.2.log, r.reverted = false) ∧
    (∀ ledger ∈ run.2.moments start,
      U256.add (P.freed start ledger) (fresh ledger) = fresh start ∧
      (P.totalNo start < wordSize → P.freed start ledger + fresh ledger = fresh start)) ∧
    (∀ before r after, run.2.log = before ++ r :: after → isQuotaAnswer r.answer = true →
      after = []) ∧
    (∀ detail, run.1 = .ok detail → P.Settled run.2.ledger delays.singleLegMinQtyRaw) ∧
    (∀ (i : Nat) (hi : i < run.2.log.length), run.2.log[i].answer = env.answer i) ∧
    Recorded env start run.2.log run.2.ledger := by
  intro run fresh
  obtain ⟨hsafe, hend⟩ := processRounds_safe env hread hyes hjobs henv hbal delays
    (rebuildAttempts + 1) none (safe_init P start) (fun _ hr => nomatch hr)
  have hmoment : ∀ ledger ∈ run.2.moments start, Reachable P start ledger := by
    intro ledger hin
    rcases List.mem_cons.mp hin with rfl | hin
    · exact Reachable.refl P ledger
    · obtain ⟨r, hr, rfl⟩ := List.mem_map.mp hin
      exact (hsafe.settled r hr).2
  have hrecorded := processJobs_recorded env jobs delays start
  refine ⟨fun r hr => (hsafe.settled r hr).1, ?_, hsafe.halted, hend, hrecorded.scripted,
    hrecorded⟩
  intro ledger hin
  have htotal := (hmoment ledger hin).total
  have hfresh (l : Ledger) : fresh l = P.value l % wordSize := totalProceeds_plans P hcid l _
  constructor
  · rw [hfresh, hfresh, U256.add, Nat.add_mod_mod, htotal]
  · intro hfits
    have hle := value_le_totalNo_all P start
    rw [hfresh, hfresh, Nat.mod_eq_of_lt (by omega), Nat.mod_eq_of_lt (by omega), htotal]

/-! ## A run with a rejected chunk -/

/-- Token balances as the legs' token ids name them. -/
def tokenBalance (registry : List ConvertLeg) (ledger : Ledger) (id : Nat) : Nat :=
  match registry.find? (fun l => decide (l.noTokenId = id)) with
  | some l => ledger.no l.questionId
  | none =>
      match registry.find? (fun l => decide (l.yesTokenId = some id)) with
      | some l => ledger.yes l.questionId
      | none => 0

/-- Balances by token id show the ledger when every token id names its own leg. -/
theorem readsLedger_tokenBalance (P : Portfolio)
    (hno : ∀ l ∈ P.legs, P.legs.find? (fun k => decide (k.noTokenId = l.noTokenId)) = some l)
    (hyes : ∀ l ∈ P.legs, P.legs.find? (fun k => decide (k.yesTokenId = l.yesTokenId)) = some l)
    (hapart : ∀ l ∈ P.legs, ∀ k ∈ P.legs, l.yesTokenId ≠ some k.noTokenId) :
    ReadsLedger P (tokenBalance P.legs) where
  no := by
    intro l hl ledger
    rw [tokenBalance, hno l hl]
  yes := by
    intro l hl y hy ledger
    have hnone : P.legs.find? (fun k => decide (k.noTokenId = y)) = none := by
      rw [List.find?_eq_none]
      intro k hk
      have hne : k.noTokenId ≠ y := fun he => hapart l hl k hk (hy.trans (congrArg some he.symm))
      rw [decide_eq_true_eq]
      exact hne
    have hself := hyes l hl
    rw [hy] at hself
    simp only [tokenBalance, hnone, hself]

/-- Rejects the second submission and accepts all others. -/
def flakyEnv : Env where
  registry := twoMarkets.legs
  wallet := Chain.ctf
  answer := fun n => if n = 1 then .error (.invalidData "batch would revert") else .ok "tx"
  balanceError := fun _ => none
  balanceOf := tokenBalance twoMarkets.legs
  wrapSnapshot := fun n => .ok { balance := n, allowance := 0 }

def flakyStart : Ledger where
  no := fun q => 3 + questionIndex q
  yes := questionIndex
  credited := fun _ => 0

def flakyDelays : ConvertDelays := { maxCallsPerSubmission := 2, singleLegMinQtyRaw := 0 }

def flakyJobs : List ConvertJob := twoMarkets.events.map (fun e => ⟨"event", e.legs, 0, 0, 0⟩)

def flakyRun : Except Error String × World :=
  processJobs flakyEnv flakyJobs flakyDelays (World.init flakyStart)

/-- Five submissions, the second of them rejected; 13 stays 13 throughout. -/
theorem process_jobs_resume_safe_flakyRun :
    flakyRun.2.log.length = 5 ∧ (∀ r ∈ flakyRun.2.log, r.reverted = false) ∧
      ∀ ledger ∈ flakyRun.2.moments flakyStart,
        twoMarkets.freed flakyStart ledger + totalProceeds (twoMarkets.plans ledger 0) = 13 := by
  have hread : ReadsLedger twoMarkets flakyEnv.balanceOf :=
    readsLedger_tokenBalance twoMarkets (by decide) (by decide) (by decide)
  obtain ⟨hreverted, hmoments, _⟩ := process_jobs_resume_safe twoMarkets (by decide) (by decide)
    flakyEnv rfl hread flakyJobs rfl flakyDelays flakyStart (by decide)
  have hlength : flakyRun.2.log.length = 5 := by decide +kernel
  have hfirst : totalProceeds (twoMarkets.plans flakyStart 0) = 13 := by decide +kernel
  have hfits : twoMarkets.totalNo flakyStart < wordSize := by decide +kernel
  unfold flakyRun at hlength ⊢
  refine ⟨hlength, hreverted, ?_⟩
  intro ledger hin
  exact ((hmoments ledger hin).2 hfits).trans hfirst

end Eggplant.Convert
