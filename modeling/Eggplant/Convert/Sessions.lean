import Eggplant.Convert.Resume

/-!
# One engine run after another

The engine looks at the past only to count: which answer of the relayer comes next, which
balance read, which wrap snapshot. So a run that starts in the middle of a wallet's history
is a run from its ledger against the answers still to come, its log behind the log so far.
-/
namespace Eggplant.Convert

set_option autoImplicit false

open Eggplant.Lib Eggplant.Lib.Words

/-- The answers still to come after `past`. -/
def Env.after (env : Env) (past : World) : Env where
  registry := env.registry
  wallet := env.wallet
  answer := fun n => env.answer (past.log.length + n)
  balanceError := fun n => env.balanceError (past.balanceReads + n)
  balanceOf := env.balanceOf
  wrapSnapshot := fun n => env.wrapSnapshot (past.wrapReads + n)

/-- `w` with everything that happened in `past` before it. -/
def World.behind (past w : World) : World where
  ledger := w.ledger
  log := past.log ++ w.log
  balanceReads := past.balanceReads + w.balanceReads
  wrapReads := past.wrapReads + w.wrapReads

theorem behind_init (past : World) : past.behind (World.init past.ledger) = past := by
  simp [World.behind, World.init]

section Follows
variable (env : Env) (past : World)

theorem submitAndSettle_follows (submission : Submission) :
    Retry.Follows past.behind (fun w => submitAndSettle (env.after past) w submission)
      (fun w => submitAndSettle env w submission) := by
  intro w
  simp [submitAndSettle, Env.after, World.behind]

theorem submitRetry_follows (retries : Nat) (submission : Submission) (w : World) :
    submitAndSettleWithBusyRetry env retries (past.behind w) submission =
      Prod.map id past.behind
        (submitAndSettleWithBusyRetry (env.after past) retries w submission) := by
  rw [submitAndSettleWithBusyRetry_eq, submitAndSettleWithBusyRetry_eq]
  exact (submitAndSettle_follows env past submission).retry Error.isWalletBusy retries w

theorem wrapUsdcE_follows :
    Retry.Follows past.behind (wrapUsdcE (env.after past)) (wrapUsdcE env) := by
  intro w
  have hsnapshot : env.wrapSnapshot (past.behind w).wrapReads =
      (env.after past).wrapSnapshot w.wrapReads := rfl
  unfold wrapUsdcE
  rw [hsnapshot]
  cases (env.after past).wrapSnapshot w.wrapReads with
  | error e => rfl
  | ok snapshot =>
    simp only
    by_cases hzero : snapshot.balance = 0
    · rw [if_pos hzero, if_pos hzero]
      rfl
    · rw [if_neg hzero, if_neg hzero]
      generalize hcalls : wrapCalls env.wallet snapshot.balance
        (decide (snapshot.allowance < snapshot.balance)) = calls
      have hsubmit := submitAndSettle_follows env past (.wrap calls)
        { w with wrapReads := w.wrapReads + 1 }
      have hcalls' : wrapCalls (env.after past).wallet snapshot.balance
        (decide (snapshot.allowance < snapshot.balance)) = calls := hcalls
      have hpast : past.behind { w with wrapReads := w.wrapReads + 1 } =
          { past.behind w with wrapReads := (past.behind w).wrapReads + 1 } := rfl
      rw [hpast] at hsubmit
      simp only [hcalls', hsubmit]
      cases submitAndSettle (env.after past) { w with wrapReads := w.wrapReads + 1 }
          (.wrap calls) with
      | mk answer next => cases answer <;> rfl

theorem wrapBestEffort_follows (delays : ConvertDelays) (w : World) :
    wrapBestEffort env delays (past.behind w) =
      past.behind (wrapBestEffort (env.after past) delays w) := by
  have hwrap := (wrapUsdcE_follows env past).retry Error.isWalletBusy delays.walletBusyMaxRetries w
  rw [wrapBestEffort, wrapBestEffort, wrapWithBusyRetry_eq, wrapWithBusyRetry_eq, hwrap]
  rfl

theorem readBalancesMulti_follows (jobs : List ConvertJob) :
    Retry.Follows past.behind (readBalancesMulti (env.after past) jobs)
      (readBalancesMulti env jobs) := by
  intro w
  have herror : env.balanceError (past.behind w).balanceReads =
      (env.after past).balanceError w.balanceReads := rfl
  unfold readBalancesMulti
  simp only [herror]
  split
  next => rfl
  next =>
    cases (env.after past).balanceError w.balanceReads with
    | some e => rfl
    | none => rfl

theorem planJobs_follows (jobs : List ConvertJob) (floor : Nat) :
    Retry.Follows past.behind (planJobs (env.after past) jobs floor) (planJobs env jobs floor) := by
  intro w
  have hsnapshot : env.wrapSnapshot (past.behind w).wrapReads =
      (env.after past).wrapSnapshot w.wrapReads := rfl
  unfold planJobs
  simp only [readBalancesMulti_follows env past jobs w, hsnapshot]
  cases readBalancesMulti (env.after past) jobs w with
  | mk balances next =>
    cases balances with
    | error e => rfl
    | ok balances => cases (env.after past).wrapSnapshot w.wrapReads <;> rfl

theorem submitChunks_follows (retries : Nat) (calls : List DepositWalletCall)
    (ranges : List CallRange) (w : World) (txId : String) :
    submitChunks env retries calls ranges (past.behind w) txId =
      Prod.map id past.behind (submitChunks (env.after past) retries calls ranges w txId) := by
  induction ranges generalizing w txId with
  | nil => rfl
  | cons range ranges ih =>
    rw [submitChunks, submitChunks, submitRetry_follows]
    cases submitAndSettleWithBusyRetry (env.after past) retries w (.cycle (range.slice calls)) with
    | mk answer next =>
      cases answer with
      | error e => rfl
      | ok tx => exact ih next tx

theorem processRound_follows (jobs : List ConvertJob) (delays : ConvertDelays) :
    Retry.Follows past.behind (processRound (env.after past) jobs delays)
      (processRound env jobs delays) := by
  intro w
  unfold processRound
  rw [planJobs_follows env past jobs delays.singleLegMinQtyRaw w]
  cases planJobs (env.after past) jobs delays.singleLegMinQtyRaw w with
  | mk planned next =>
    cases planned with
    | error e => rfl
    | ok planned =>
      obtain ⟨plans, snapshot⟩ := planned
      simp only [Prod.map_apply, id_eq]
      cases planCalls plans with
      | error e => rfl
      | ok calls =>
        simp only [submitChunks_follows]
        by_cases hnone : calls = []
        · rw [if_pos hnone, if_pos hnone]
          by_cases hleft : 0 < snapshot.balance
          · rw [if_pos hleft, if_pos hleft, wrapBestEffort_follows]
            rfl
          · rw [if_neg hleft, if_neg hleft]
            rfl
        · rw [if_neg hnone, if_neg hnone]
          cases submitChunks (env.after past) delays.walletBusyMaxRetries (calls.map (·.call))
              (gasChunks calls delays.maxCallsPerSubmission delays.maxGasPerSubmission) next ""
            with
          | mk answer last =>
            cases answer with
            | error e => rfl
            | ok txId =>
              simp only [Prod.map_apply, id_eq, wrapBestEffort_follows]

theorem processRounds_follows (jobs : List ConvertJob) (delays : ConvertDelays) (rounds : Nat)
    (lastErr : Option Error) (w : World) :
    processRounds env jobs delays rounds lastErr (past.behind w) =
      Prod.map id past.behind (processRounds (env.after past) jobs delays rounds lastErr w) := by
  induction rounds generalizing lastErr w with
  | zero =>
    rw [processRounds, processRounds, wrapBestEffort_follows]
    rfl
  | succ rounds ih =>
    rw [processRounds, processRounds, processRound_follows env past jobs delays w]
    cases processRound (env.after past) jobs delays w with
    | mk answer next =>
      cases answer with
      | ok detail => rfl
      | error e =>
        simp only [Prod.map_apply, id_eq]
        split
        next => rfl
        next => exact ih (some e) next

end Follows

/-- A run in the middle of a history is a fresh run against the answers still to come. -/
theorem processJobs_follows (env : Env) (jobs : List ConvertJob) (delays : ConvertDelays)
    (w : World) :
    processJobs env jobs delays w =
      Prod.map id w.behind (processJobs (env.after w) jobs delays (World.init w.ledger)) := by
  have hrun := processRounds_follows env w jobs delays (rebuildAttempts + 1) none
    (World.init w.ledger)
  rwa [behind_init] at hrun

/-! ## One event of a portfolio -/

/-- The portfolio of one of its events. -/
def Portfolio.only (P : Portfolio) {e : Event} (he : e ∈ P.events) : Portfolio where
  events := [e]
  differentMarkets := List.pairwise_singleton _ _
  distinctConditions :=
    P.distinctConditions.sublist (((List.singleton_sublist.mpr he).flatMap (·.legs)).filterMap _)

section Only
variable {P : Portfolio} {e : Event} (he : e ∈ P.events) {before after : Ledger}

theorem only_legs : (P.only he).legs = e.legs := List.flatMap_singleton _ _

theorem mem_legs_of_only {l : ConvertLeg} (hl : l ∈ (P.only he).legs) : l ∈ P.legs := by
  rw [only_legs] at hl
  exact List.mem_flatMap.mpr ⟨e, he, hl⟩

theorem jobsOf_only {job : ConvertJob} (hjob : job.legs = e.legs) : JobsOf (P.only he) [job] := by
  rw [JobsOf, List.map_singleton, hjob]
  rfl

/-- What one event's operations reach, the whole portfolio's reach. -/
theorem reachable_of_only (h : Reachable (P.only he) before after) : Reachable P before after := by
  obtain ⟨ops, hrun⟩ := h
  refine ⟨ops, ?_⟩
  induction hrun with
  | nil s => exact .nil s
  | @cons s mid last op ops hok hexec _ ih =>
    obtain ⟨f, hf, hop, hdepth⟩ := hok
    obtain rfl : f = e := List.mem_singleton.mp hf
    have hstep : exec P.legs s op = some mid :=
      (exec_registry (P.listed he) ((P.only he).listed hf) hop s).trans hexec
    exact .cons ⟨f, he, hop, hdepth⟩ hstep ih

theorem untouched_of_only (h : Reachable (P.only he) before after) {f : Event}
    (hf : f ∈ P.events) (hne : e ≠ f) : Untouched f before after := by
  obtain ⟨ops, hrun⟩ := h
  have hself : e ∈ (P.only he).events := List.mem_singleton.mpr rfl
  refine harvest_untouched ((P.only he).listed hself) (P.apart he hf hne)
    (hrun.mono fun s op hok => ?_)
  obtain ⟨g, hg, hop⟩ := hok
  obtain rfl : g = e := List.mem_singleton.mp hg
  exact hop

end Only

/-! ## A settled ledger -/

section Settled
variable {P : Portfolio} {start : Ledger} (env : Env) {jobs : List ConvertJob}
  (hread : ReadsLedger P env.balanceOf) (hyes : ∀ l ∈ P.legs, l.yesTokenId.isSome = true)
  (hjobs : JobsOf P jobs) (delays : ConvertDelays)
include hread hyes hjobs

/-- With nothing to plan a round can only wrap. -/
theorem processRound_settled {w : World} (hs : Safe P start w) (hq : QuotaLeft w)
    (hsettled : P.Settled w.ledger delays.singleLegMinQtyRaw) :
    (processRound env jobs delays w).2.ledger = w.ledger := by
  obtain ⟨hledger, hlog⟩ := planJobs_world env jobs delays.singleLegMinQtyRaw w
  unfold processRound
  cases hp : planJobs env jobs delays.singleLegMinQtyRaw w with
  | mk planned next =>
    rw [hp] at hledger hlog
    cases planned with
    | error e => exact hledger
    | ok planned =>
      obtain ⟨plans, snapshot⟩ := planned
      obtain rfl : plans = P.plans w.ledger delays.singleLegMinQtyRaw :=
        planJobs_ok env hread hyes hjobs (by rw [hp])
      have hnone : planCalls (P.plans w.ledger delays.singleLegMinQtyRaw) = .ok [] := hsettled
      have hquota : QuotaLeft next := by
        unfold QuotaLeft
        rw [hlog]
        exact hq
      simp only [hnone, if_true]
      split
      next => exact (wrapBestEffort_safe env delays (hs.reads hledger hlog) hquota).2.trans hledger
      next => exact hledger

theorem processRounds_settled (hreg : ∀ e ∈ P.events, Listed env.registry e)
    (hbal : ∀ l ∈ P.legs, start.no l.questionId < wordSize) (rounds : Nat)
    (lastErr : Option Error) {w : World} (hs : Safe P start w) (hq : QuotaLeft w)
    (hsettled : P.Settled w.ledger delays.singleLegMinQtyRaw) :
    (processRounds env jobs delays rounds lastErr w).2.ledger = w.ledger := by
  induction rounds generalizing w lastErr with
  | zero => exact (wrapBestEffort_safe env delays hs hq).2
  | succ rounds ih =>
    have hsame := processRound_settled env hread hyes hjobs delays hs hq hsettled
    obtain ⟨hsafe, hfail, _⟩ := processRound_safe env hread hyes hjobs hreg hbal delays hs hq
    rw [processRounds]
    cases hres : processRound env jobs delays w with
    | mk answer next =>
      rw [hres] at hsame hsafe hfail
      cases answer with
      | ok detail => exact hsame
      | error e =>
        simp only
        split
        next => exact hsame
        next hquota =>
          have hnext : P.Settled next.ledger delays.singleLegMinQtyRaw := hsame ▸ hsettled
          exact (ih (some e) hsafe (hfail e rfl (Bool.eq_false_iff.mpr hquota)) hnext).trans hsame

end Settled

/-! ## One job in the middle of a history -/

/-- `process_job`: a cycle of a single job. -/
def processJob (env : Env) (job : ConvertJob) (delays : ConvertDelays) (w : World) :
    Except Error String × World :=
  processJobs env [job] delays w

/-- Nothing to merge or convert on the event. -/
def Event.Idle (e : Event) (floor : Nat) (ledger : Ledger) : Prop :=
  (e.plan ledger floor).merges = [] ∧ (e.plan ledger floor).tiers = []

theorem Untouched.idle {e : Event} {before after : Ledger} (h : Untouched e before after)
    {floor : Nat} (hidle : e.Idle floor before) : e.Idle floor after := by
  unfold Event.Idle
  rwa [h.plan]

theorem idle_of_settled {P : Portfolio} {e : Event} (he : e ∈ P.events) {ledger : Ledger}
    {floor : Nat} (hbal : ∀ l ∈ e.legs, ledger.no l.questionId < wordSize)
    (h : (P.only he).Settled ledger floor) : e.Idle floor ledger := by
  have henc : ∀ p ∈ (P.only he).plans ledger floor, Encodable p := by
    intro p hp
    obtain rfl := List.mem_singleton.mp hp
    exact plan_encodable e ledger floor hbal
  exact (planCalls_nil_iff henc).mp h _ List.mem_cons_self

/-- The chain and the wallet's reads of it, for every event of a portfolio. -/
structure Shows (P : Portfolio) (env : Env) : Prop where
  listed : ∀ e ∈ P.events, Listed env.registry e
  reads : ReadsLedger P env.balanceOf
  yes : ∀ l ∈ P.legs, l.yesTokenId.isSome = true

theorem Shows.only {P : Portfolio} {env : Env} (h : Shows P env) {e : Event} (he : e ∈ P.events) :
    Shows (P.only he) env where
  listed := by
    intro f hf
    obtain rfl : f = e := List.mem_singleton.mp hf
    exact h.listed f he
  reads :=
    { no := fun l hl => h.reads.no l (mem_legs_of_only he hl)
      yes := fun l hl => h.reads.yes l (mem_legs_of_only he hl) }
  yes := fun l hl => h.yes l (mem_legs_of_only he hl)

/-- What a cycle of the event's job did to the wallet. -/
structure CycleOf {P : Portfolio} {e : Event} (he : e ∈ P.events) (floor : Nat) (w : World)
    (res : Except Error String × World) : Prop where
  log : ∃ new, res.2.log = w.log ++ new ∧
    ∀ r ∈ new, r.reverted = false ∧ Reachable (P.only he) w.ledger r.after
  reach : Reachable (P.only he) w.ledger res.2.ledger
  idle : ∀ detail, res.1 = .ok detail → e.Idle floor res.2.ledger

section Job
variable {P : Portfolio} {env : Env} (hshows : Shows P env) {e : Event} (he : e ∈ P.events)
  {job : ConvertJob} (hjob : job.legs = e.legs) (delays : ConvertDelays) {w : World}
  (hbal : ∀ l ∈ e.legs, w.ledger.no l.questionId < wordSize)
include hshows he hjob hbal

theorem processJob_cycle :
    CycleOf he delays.singleLegMinQtyRaw w (processJob env job delays w) := by
  have hone := hshows.only he
  have hjobs := jobsOf_only he hjob
  have hbal' : ∀ l ∈ (P.only he).legs, w.ledger.no l.questionId < wordSize := by
    rwa [only_legs]
  obtain ⟨hsafe, hdone⟩ := processRounds_listed (P := P.only he) (env.after w)
    hone.reads hone.yes hjobs hone.listed hbal' delays (rebuildAttempts + 1) none
    (safe_init (P.only he) w.ledger) nofun
  rw [processJob, processJobs_follows]
  refine ⟨⟨_, rfl, hsafe.settled⟩, hsafe.reach, fun detail hok => ?_⟩
  apply idle_of_settled he _ (hdone detail hok)
  intro l hl
  exact lt_of_le_of_lt (hsafe.reach.no_le l.questionId) (hbal l hl)

/-- A cycle on an idle event submits no call that moves a position. -/
theorem processJob_idle (hidle : e.Idle delays.singleLegMinQtyRaw w.ledger) :
    (processJob env job delays w).2.ledger = w.ledger := by
  have hone := hshows.only he
  have hjobs := jobsOf_only he hjob
  have hbal' : ∀ l ∈ (P.only he).legs, w.ledger.no l.questionId < wordSize := by
    rwa [only_legs]
  have hsettled : (P.only he).Settled w.ledger delays.singleLegMinQtyRaw := by
    apply settled_of_empty
    intro f hf
    obtain rfl : f = e := List.mem_singleton.mp hf
    exact hidle
  rw [processJob, processJobs_follows]
  exact processRounds_settled (P := P.only he) (env.after w) hone.reads hone.yes
    hjobs delays hone.listed hbal' (rebuildAttempts + 1) none (safe_init (P.only he) w.ledger) nofun
    hsettled

end Job

end Eggplant.Convert
