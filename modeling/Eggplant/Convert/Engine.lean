import Eggplant.Convert.Balances
import Eggplant.Convert.Chunks
import Eggplant.Convert.Ledger
import Eggplant.Lib.Retry

/-!
# The merge/convert engine

`process_jobs` and the submission helpers below it, run against an environment
that answers every submission and every read in turn. An accepted submission takes
effect as a whole before anything else happens, a rejected one has no effect, and
waits are not modelled.
-/
namespace Eggplant.Convert

set_option autoImplicit false

open Eggplant.Lib Eggplant.Lib.Words

/-- Durations are in nanoseconds. -/
structure ConvertDelays where
  fillToConvert : Nat := 5000000000
  settle : Nat := 5000000000
  walletBusyMaxRetries : Nat := 10
  singleLegMinQtyRaw : Nat := 100000
  maxCallsPerSubmission : Nat := 20
  maxGasPerSubmission : Nat := 8000000
  retryBackoff : Nat := 45000000000

structure WrapSnapshot where
  balance : Nat
  allowance : Nat

/-- `approve(address,uint256)`. -/
def approveSelector : FixedBytes 4 := ⟨[0x09, 0x5e, 0xa7, 0xb3], rfl⟩

/-- `wrap(address,address,uint256)`. -/
def wrapSelector : FixedBytes 4 := ⟨[0x62, 0x35, 0x56, 0x38], rfl⟩

def wrapCalls (wallet : Address) (amount : Nat) (includeApprove : Bool) : List DepositWalletCall :=
  (if includeApprove then
    [{ target := Chain.usdcE,
       data := Abi.encodeCall approveSelector
         [.word Chain.collateralOnramp.toWord, .word (Word.ofNat U256.max)] }]
  else []) ++
  [{ target := Chain.collateralOnramp,
     data := Abi.encodeCall wrapSelector
       [.word Chain.usdcE.toWord, .word wallet.toWord, .word (Word.ofNat amount)] }]

/-- A raw 6-decimal amount; `{:06}` pads the fraction. -/
def fmtUsdc (raw : Nat) : String :=
  let v := if raw < 2 ^ 128 then raw else 2 ^ 128 - 1
  let frac := toString (v % 1000000)
  toString (v / 1000000) ++ "." ++ "".pushn '0' (6 - frac.length) ++ frac

/-! ## The world the engine acts on -/

inductive Submission where
  | cycle (calls : List DepositWalletCall)
  | wrap (calls : List DepositWalletCall)

/-- One submission with the relayer's answer and the ledger once it has settled. -/
structure Submitted where
  submission : Submission
  answer : Except Error String
  after : Ledger
  reverted : Bool

structure World where
  ledger : Ledger
  log : List Submitted
  balanceReads : Nat
  wrapReads : Nat

def World.init (ledger : Ledger) : World := { ledger, log := [], balanceReads := 0, wrapReads := 0 }

/-- Answers by position: the relayer's to each submission, the node's to each read. -/
structure Env where
  registry : List ConvertLeg
  wallet : Address
  answer : Nat → Except Error String
  balanceError : Nat → Option Error
  balanceOf : Ledger → Nat → Nat
  wrapSnapshot : Nat → Except Error WrapSnapshot

/-- What a settled submission does to the ledger, and whether it reverted. Wrapping
touches no outcome token. -/
def settleSubmission (registry : List ConvertLeg) (ledger : Ledger) (answer : Except Error String) :
    Submission → Ledger × Bool
  | .wrap _ => (ledger, false)
  | .cycle calls =>
      match answer with
      | .error _ => (ledger, false)
      | .ok _ =>
          match execCalls registry ledger calls with
          | some next => (next, false)
          | none => (ledger, true)

section Engine
variable (env : Env)

/-- `submit_deposit_wallet_batch` and the wait for settlement. -/
def submitAndSettle (w : World) (submission : Submission) : Except Error String × World :=
  let answer := env.answer w.log.length
  let settled := settleSubmission env.registry w.ledger answer submission
  (answer,
    { w with
      ledger := settled.1
      log := w.log ++ [{ submission, answer, after := settled.1, reverted := settled.2 }] })

/-- The first argument is the number of retries left. -/
def submitAndSettleWithBusyRetry : Nat → World → Submission → Except Error String × World
  | 0, w, submission => submitAndSettle env w submission
  | retries + 1, w, submission =>
      match submitAndSettle env w submission with
      | (.ok txId, w) => (.ok txId, w)
      | (.error e, w) =>
          if e.isWalletBusy then submitAndSettleWithBusyRetry retries w submission
          else (.error e, w)

def wrapUsdcE (w : World) : Except Error Unit × World :=
  let snapshot := env.wrapSnapshot w.wrapReads
  let w := { w with wrapReads := w.wrapReads + 1 }
  match snapshot with
  | .error e => (.error e, w)
  | .ok snapshot =>
      if snapshot.balance = 0 then (.ok (), w)
      else
        let calls := wrapCalls env.wallet snapshot.balance
          (decide (snapshot.allowance < snapshot.balance))
        match submitAndSettle env w (.wrap calls) with
        | (.ok _, w) => (.ok (), w)
        | (.error e, w) => (.error e, w)

/-- The first argument is the number of retries left. -/
def wrapWithBusyRetry : Nat → World → Except Error Unit × World
  | 0, w => wrapUsdcE env w
  | retries + 1, w =>
      match wrapUsdcE env w with
      | (.ok u, w) => (.ok u, w)
      | (.error e, w) => if e.isWalletBusy then wrapWithBusyRetry retries w else (.error e, w)

/-- Both busy loops are bounded retries, of the submission and of the wrap. -/
theorem submitAndSettleWithBusyRetry_eq (n : Nat) (w : World) (submission : Submission) :
    submitAndSettleWithBusyRetry env n w submission =
      Retry.retry Error.isWalletBusy (fun w => submitAndSettle env w submission) n w := by
  induction n generalizing w with
  | zero => rfl
  | succ n ih =>
    rw [submitAndSettleWithBusyRetry, Retry.retry]
    cases submitAndSettle env w submission with
    | mk answer next =>
      cases answer with
      | ok txId => rfl
      | error e => simp only [ih]

theorem wrapWithBusyRetry_eq (n : Nat) (w : World) :
    wrapWithBusyRetry env n w = Retry.retry Error.isWalletBusy (wrapUsdcE env) n w := by
  induction n generalizing w with
  | zero => rfl
  | succ n ih =>
    rw [wrapWithBusyRetry, Retry.retry]
    cases wrapUsdcE env w with
    | mk answer next =>
      cases answer with
      | ok _ => rfl
      | error e => simp only [ih]

/-- A failed wrap is logged, never fatal. -/
def wrapBestEffort (delays : ConvertDelays) (w : World) : World :=
  (wrapWithBusyRetry env delays.walletBusyMaxRetries w).2

def readBalancesMulti (jobs : List ConvertJob) (w : World) :
    Except Error (List (List (Nat × Nat))) × World :=
  let ids := jobs.flatMap (fun job => batchTokenIds job.legs)
  if ids = [] then (.ok (jobs.map (fun _ => [])), w)
  else
    let next := { w with balanceReads := w.balanceReads + 1 }
    match env.balanceError w.balanceReads with
    | some e => (.error e, next)
    | none => (unpackMulti jobs (ids.map (env.balanceOf w.ledger)), next)

/-- The two reads run side by side; an error of the balance read is reported first. -/
def planJobs (jobs : List ConvertJob) (singleLegMinQtyRaw : Nat) (w : World) :
    Except Error (List EventPlan × WrapSnapshot) × World :=
  let snapshot := env.wrapSnapshot w.wrapReads
  let (balances, w) := readBalancesMulti env jobs w
  let w := { w with wrapReads := w.wrapReads + 1 }
  match balances, snapshot with
  | .error e, _ => (.error e, w)
  | .ok _, .error e => (.error e, w)
  | .ok balances, .ok snapshot =>
      let plans := (jobs.zip balances).map
        (fun row => planEventFromBalances row.1.legs row.2 singleLegMinQtyRaw)
      (.ok (plans, snapshot), w)

/-- Submits the ranges one after the other and stops at the first that fails. -/
def submitChunks (retries : Nat) (calls : List DepositWalletCall) :
    List CallRange → World → String → Except Error String × World
  | [], w, txId => (.ok txId, w)
  | range :: ranges, w, _ =>
      match submitAndSettleWithBusyRetry env retries w (.cycle (range.slice calls)) with
      | (.ok txId, w) => submitChunks retries calls ranges w txId
      | (.error e, w) => (.error e, w)

def totalProceeds (plans : List EventPlan) : Nat :=
  plans.foldl (fun acc p => U256.add acc p.proceeds) 0

def cycleDetail (jobs : List ConvertJob) (plans : List EventPlan) (nChunks : Nat) (txId : String) :
    String :=
  let merges := (plans.map (fun p =>
    p.merges.length + (p.tiers.map (fun t => t.postMerges.length)).sum)).sum
  let converts := (plans.map (fun p => p.tiers.length)).sum
  "events=" ++ toString jobs.length ++ " merges=" ++ toString merges ++ " converts=" ++
    toString converts ++ " proceeds=" ++ fmtUsdc (totalProceeds plans) ++ " chunks=" ++
    toString nChunks ++ " tx=" ++ txId

/-- One pass of the loop of `process_jobs`. -/
def processRound (jobs : List ConvertJob) (delays : ConvertDelays) (w : World) :
    Except Error String × World :=
  match planJobs env jobs delays.singleLegMinQtyRaw w with
  | (.error e, w) => (.error e, w)
  | (.ok (plans, snapshot), w) =>
      match planCalls plans with
      | .error e => (.error e, w)
      | .ok planned =>
          if planned = [] then
            if 0 < snapshot.balance then
              (.ok ("no-op: wrapped leftover " ++ fmtUsdc snapshot.balance ++ " USDC.e"),
                wrapBestEffort env delays w)
            else (.ok "no-op: nothing to merge/convert/wrap", w)
          else
            let ranges := gasChunks planned delays.maxCallsPerSubmission delays.maxGasPerSubmission
            match submitChunks env delays.walletBusyMaxRetries (planned.map (·.call)) ranges w "" with
            | (.error e, w) => (.error e, w)
            | (.ok txId, w) =>
                (.ok (cycleDetail jobs plans ranges.length txId), wrapBestEffort env delays w)

def rebuildAttempts : Nat := 2

/-- The rounds left, and the error of the round before. A spent quota ends the run
without the salvage wrap. -/
def processRounds (jobs : List ConvertJob) (delays : ConvertDelays) :
    Nat → Option Error → World → Except Error String × World
  | 0, lastErr, w =>
      (.error (lastErr.getD (.invalidData "convert cycle failed")), wrapBestEffort env delays w)
  | rounds + 1, _, w =>
      match processRound env jobs delays w with
      | (.ok detail, w) => (.ok detail, w)
      | (.error e, w) =>
          if e.isQuotaExhausted then (.error e, w) else processRounds jobs delays rounds (some e) w

def processJobs (jobs : List ConvertJob) (delays : ConvertDelays) (w : World) :
    Except Error String × World :=
  processRounds env jobs delays (rebuildAttempts + 1) none w

end Engine

end Eggplant.Convert
