import Eggplant.Convert.Calldata
import Eggplant.Lib.Batches
import Eggplant.Lib.Retry
import Eggplant.Redeem.Plan

/-!
# Submitting redeem calls

One call redeems one condition. The calls go out in batches; a batch is retried whole,
and within each try the submission is retried while the wallet is busy. An acknowledged
submission counts as redeemed, whatever it does on chain.
-/
namespace Eggplant.Redeem

set_option autoImplicit false

open Eggplant.Lib Eggplant.Lib.Retry
open Eggplant.Convert (DepositWalletCall)

/-- Durations are in nanoseconds. -/
structure RedeemOptions where
  minSharesRaw : Nat := 0
  batchSize : Nat := 20
  maxConditions : Nat := 0
  settle : Nat := 5000000000
  walletBusyMaxRetries : Nat := 10
  batchMaxRetries : Nat := 5
  ctfCollateral : Option Address := none

/-- Both outcome slots of a binary condition. -/
def binaryIndexSets : List Nat := [1, 2]

def buildCall (ctfCollateral : Address) (r : Redemption) : DepositWalletCall :=
  if r.negRisk then
    { target := Chain.negRiskCollateralAdapter
      data := Convert.buildRedeemCalldata r.conditionId r.yesAmount r.noAmount }
  else
    { target := Chain.ctf
      data := Convert.buildRedeemCalldataCtf ctfCollateral r.conditionId binaryIndexSets }

def buildCalls (redemptions : List Redemption) (ctfCollateral : Address) :
    List DepositWalletCall :=
  redemptions.map (buildCall ctfCollateral)

/-- One submission and the relayer's answer: a transaction id or an error. -/
structure Submitted where
  calls : List DepositWalletCall
  answer : Except Error String

def Submitted.Accepted (t : Submitted) : Prop := ∃ txId, t.answer = .ok txId

/-- The relayer answers by position in the log. -/
def submitAndSettle (answer : Nat → Except Error String) (calls : List DepositWalletCall)
    (log : List Submitted) : Except Error String × List Submitted :=
  (answer log.length, log ++ [{ calls, answer := answer log.length }])

def submitAndSettleWithBusyRetry (answer : Nat → Except Error String)
    (calls : List DepositWalletCall) (maxRetries : Nat) :
    List Submitted → Except Error String × List Submitted :=
  retry Error.isWalletBusy (submitAndSettle answer calls) maxRetries

/-- Redeemed and failed conditions so far, and every submission. -/
structure Tally where
  ok : Nat
  bad : Nat
  log : List Submitted

/-- One chunk of `submit_batches`: any failure is retried, a last one is counted. -/
def submitBatch (answer : Nat → Except Error String) (opts : RedeemOptions) (t : Tally)
    (chunk : List DepositWalletCall) : Tally :=
  match retry (fun _ => true) (submitAndSettleWithBusyRetry answer chunk opts.walletBusyMaxRetries)
      opts.batchMaxRetries t.log with
  | (.ok _, log) => { t with ok := t.ok + chunk.length, log }
  | (.error _, log) => { t with bad := t.bad + chunk.length, log }

def submitBatches (answer : Nat → Except Error String) (opts : RedeemOptions)
    (calls : List DepositWalletCall) : Tally :=
  (batches (max opts.batchSize 1) calls).foldl (submitBatch answer opts) ⟨0, 0, []⟩

instance (t : Submitted) : Decidable t.Accepted :=
  decidable_of_iff (t.answer.toOption.isSome = true) (by
    unfold Submitted.Accepted
    cases t.answer with
    | error e => exact iff_of_false nofun nofun
    | ok txId => exact iff_of_true rfl ⟨txId, rfl⟩)

/-! ## What the tally says -/

/-- The submissions of one round: repeated while the wallet is busy. -/
def RoundTried (opts : RedeemOptions) (chunk : List DepositWalletCall) :
    List Submitted → Except Error String → Prop :=
  Retried Error.isWalletBusy (fun tries result => tries = [⟨chunk, result⟩])
    opts.walletBusyMaxRetries

/-- A chunk's submissions: rounds, repeated after any failure. -/
def ChunkTried (opts : RedeemOptions) (chunk : List DepositWalletCall) :
    List Submitted → Except Error String → Prop :=
  Retried (fun _ => true) (RoundTried opts chunk) opts.batchMaxRetries

section
variable (answer : Nat → Except Error String) (opts : RedeemOptions)

theorem chunk_logs (chunk : List DepositWalletCall) :
    Logs (ChunkTried opts chunk)
      (retry (fun _ => true)
        (submitAndSettleWithBusyRetry answer chunk opts.walletBusyMaxRetries)
        opts.batchMaxRetries) := by
  have hone : Logs (fun tries result => tries = [⟨chunk, result⟩])
      (submitAndSettle answer chunk) := fun log => ⟨_, rfl, rfl⟩
  exact (hone.retry Error.isWalletBusy opts.walletBusyMaxRetries).retry _ opts.batchMaxRetries

/-- A chunk is counted by the result of its tries. -/
theorem submitBatch_tried (t : Tally) (chunk : List DepositWalletCall) :
    ∃ tries result, ChunkTried opts chunk tries result ∧
      submitBatch answer opts t chunk =
        { ok := t.ok + if result.toOption.isSome then chunk.length else 0
          bad := t.bad + if result.toOption.isSome then 0 else chunk.length
          log := t.log ++ tries } := by
  obtain ⟨tries, hlog, htried⟩ := chunk_logs answer opts chunk t.log
  refine ⟨tries, _, htried, ?_⟩
  unfold submitBatch
  split
  next txId log heq =>
    rw [heq] at hlog ⊢
    rw [← show log = t.log ++ tries from hlog]
    rfl
  next e log heq =>
    rw [heq] at hlog ⊢
    rw [← show log = t.log ++ tries from hlog]
    rfl

variable {opts}

theorem ChunkTried.own {chunk : List DepositWalletCall} {tries : List Submitted}
    {result : Except Error String} (h : ChunkTried opts chunk tries result) :
    ∀ s ∈ tries, s.calls = chunk := by
  refine Retried.forall (fun _ _ => Retried.forall fun tries result hone s hs => ?_) h
  rw [hone, List.mem_singleton] at hs
  rw [hs]

theorem RoundTried.acceptedLast {chunk : List DepositWalletCall} {tries : List Submitted}
    {result : Except Error String} (h : RoundTried opts chunk tries result) :
    AcceptedLast Submitted.Accepted tries result :=
  Retried.acceptedLast (fun _ _ hone => ⟨[], _, hone, nofun, Iff.rfl⟩) h

theorem ChunkTried.acceptedLast {chunk : List DepositWalletCall} {tries : List Submitted}
    {result : Except Error String} (h : ChunkTried opts chunk tries result) :
    AcceptedLast Submitted.Accepted tries result :=
  Retried.acceptedLast (fun _ _ hround => RoundTried.acceptedLast hround) h

/-- A chunk is redeemed exactly when one of its submissions was accepted. -/
theorem ChunkTried.accepted_iff {chunk : List DepositWalletCall} {tries : List Submitted}
    {result : Except Error String} (h : ChunkTried opts chunk tries result) :
    (∃ s ∈ tries, s.Accepted) ↔ result.toOption.isSome = true := by
  cases result with
  | error e => exact iff_of_false (fun ⟨s, hs, hacc⟩ => h.acceptedLast.not_mem s hs hacc) nofun
  | ok txId =>
    obtain ⟨earlier, last, rfl, -, hlast⟩ := h.acceptedLast
    exact iff_of_true
      ⟨last, List.mem_append_right _ (List.mem_singleton_self _), hlast.mpr ⟨txId, rfl⟩⟩ rfl

end

end Eggplant.Redeem
