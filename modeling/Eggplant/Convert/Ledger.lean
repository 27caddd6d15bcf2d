import Eggplant.Convert.Planner
import Eggplant.Lib.Runs

/-!
# The on-chain ledger the calls act on

Every leg has a NO and a YES balance, filed under its question id; the collateral
credited to the wallet is filed under the event's market id. A call is executed
from its calldata: what does not decode to a merge or a convert through the
collateral adapter reverts, and so does an operation whose balances fall short
or whose index set names a question the market does not have.
-/
namespace Eggplant.Convert

set_option autoImplicit false

open Eggplant.Lib Eggplant.Lib.Words

structure Ledger where
  no : B256 → Nat
  yes : B256 → Nat
  credited : B256 → Nat

inductive Op where
  | merge (conditionId : B256) (amount : Nat)
  | convert (marketId : B256) (indexSet amount : Nat)
  deriving DecidableEq

def ConvertLeg.marketId (leg : ConvertLeg) : B256 := marketIdFromQuestionId leg.questionId

/-- The `(no, yes)` snapshot of some legs, in leg order. -/
def Ledger.pairs (ledger : Ledger) (legs : List ConvertLeg) : List (Nat × Nat) :=
  legs.map (fun l => (ledger.no l.questionId, ledger.yes l.questionId))

def Ledger.merge (ledger : Ledger) (leg : ConvertLeg) (amount : Nat) : Ledger where
  no := fun q => if q = leg.questionId then ledger.no q - amount else ledger.no q
  yes := fun q => if q = leg.questionId then ledger.yes q - amount else ledger.yes q
  credited := fun m => if m = leg.marketId then ledger.credited m + amount else ledger.credited m

def Ledger.convert (ledger : Ledger) (marketId : B256) (event burned : List B256)
    (credit amount : Nat) : Ledger where
  no := fun q => if q ∈ burned then ledger.no q - amount else ledger.no q
  yes := fun q => if q ∈ event ∧ q ∉ burned then ledger.yes q + amount else ledger.yes q
  credited := fun m => if m = marketId then ledger.credited m + credit else ledger.credited m

/-- Question ids registered under a market. -/
def marketQuestions (registry : List ConvertLeg) (marketId : B256) : List B256 :=
  (registry.filter (fun l => decide (l.marketId = marketId))).map (·.questionId)

def namedQuestions (event : List B256) (bits : Nat) : List B256 :=
  event.filter (fun q => bits.testBit (questionIndex q))

def legOfCondition (registry : List ConvertLeg) (conditionId : B256) : Option ConvertLeg :=
  registry.find? (fun l => decide (l.conditionId = some conditionId))

def exec (registry : List ConvertLeg) (ledger : Ledger) : Op → Option Ledger
  | .merge conditionId amount =>
      match legOfCondition registry conditionId with
      | none => none
      | some leg =>
          if amount ≤ ledger.no leg.questionId ∧ amount ≤ ledger.yes leg.questionId then
            some (ledger.merge leg amount)
          else none
  | .convert marketId bits amount =>
      let event := marketQuestions registry marketId
      let burned := namedQuestions event bits
      if burned ≠ [] ∧ indexSet burned = bits ∧ ∀ q ∈ burned, amount ≤ ledger.no q then
        some (ledger.convert marketId event burned ((popcount bits - 1) * amount) amount)
      else none

def execAll (registry : List ConvertLeg) : Ledger → List Op → Option Ledger :=
  Runs.execAll (exec registry)

/-! ## Calldata -/

def decodeOp (call : DepositWalletCall) : Option Op :=
  if call.target = Chain.negRiskCollateralAdapter then
    match Abi.decodeCall convertPositionsSelector convertPositionsTypes call.data with
    | some [.word marketId, .word bits, .word amount] =>
        some (.convert marketId bits.toNat amount.toNat)
    | _ =>
        match Abi.decodeCall mergePositionsSelector mergePositionsTypes call.data with
        | some [.word token, .word parent, .word conditionId, .words partition, .word amount] =>
            if token = Chain.collateral.toWord ∧ parent = FixedBytes.zero 32 ∧
                partition = [Word.ofNat 1, Word.ofNat 2] then
              some (.merge conditionId amount.toNat)
            else none
        | _ => none
  else none

def execCall (registry : List ConvertLeg) (ledger : Ledger) (call : DepositWalletCall) :
    Option Ledger :=
  (decodeOp call).bind (exec registry ledger)

/-- Calls of one submission run in order; the first that reverts reverts them all. -/
def execCalls (registry : List ConvertLeg) : Ledger → List DepositWalletCall → Option Ledger :=
  Runs.execAll (execCall registry)

/-- Calls that decode to some operations execute as these do. -/
theorem execCalls_eq (registry : List ConvertLeg) (ledger : Ledger) {calls : List DepositWalletCall}
    {ops : List Op} (h : List.Forall₂ (fun call op => decodeOp call = some op) calls ops) :
    execCalls registry ledger calls = execAll registry ledger ops := by
  apply Runs.execAll_congr _ h
  intro s call op hop
  rw [execCall, hop, Option.bind_some]

private theorem selectors_differ : convertPositionsSelector ≠ mergePositionsSelector := by decide

private theorem block_lt {n : Nat} (h : n ≤ 1024) : n < wordSize :=
  lt_of_le_of_lt h (by decide)

private theorem merge_block_length (token parent conditionId amount a b : Word) :
    (Abi.encode [.word token, .word parent, .word conditionId, .words [a, b], .word amount]).length =
      256 := by
  simp [Abi.encode, Abi.heads_length, Abi.tails, Abi.tailOf, Abi.wordsBytes, FixedBytes.length_eq]

/-- A merge call means the merge it was built for. -/
theorem decodeOp_mergeCall (conditionId : B256) {amount : Nat} (h : amount < wordSize) :
    decodeOp (mergeCall (conditionId, amount)) = some (.merge conditionId amount) := by
  have hother := Abi.decodeCall_other selectors_differ
    [.word Chain.collateral.toWord, .word (FixedBytes.zero 32), .word conditionId,
      .words [Word.ofNat 1, Word.ofNat 2], .word (Word.ofNat amount)] convertPositionsTypes
  have hself := Abi.decodeCall_encodeCall mergePositionsSelector
    [.word Chain.collateral.toWord, .word (FixedBytes.zero 32), .word conditionId,
      .words [Word.ofNat 1, Word.ofNat 2], .word (Word.ofNat amount)]
    (by rw [merge_block_length]; exact block_lt (by decide))
  have hamount := Word.toNat_ofNat_of_lt h
  simp only [List.map_cons, List.map_nil, Abi.Arg.type] at hself
  simp only [decodeOp, mergeCall, buildMergeCalldata, buildMergeCalldataCtf, mergePositionsCall,
    List.map_cons, List.map_nil, mergePositionsTypes, if_true, hother, hself, hamount, and_self]

/-- A convert call means the convert it was built for. -/
theorem decodeOp_convertCall (marketId : B256) {bits amount : Nat} (hb : bits < wordSize)
    (ha : amount < wordSize) :
    decodeOp { target := Chain.negRiskCollateralAdapter,
               data := convertPositionsCall marketId bits amount } =
      some (.convert marketId bits amount) := by
  have hself := Abi.decodeCall_encodeCall convertPositionsSelector
    [.word marketId, .word (Word.ofNat bits), .word (Word.ofNat amount)]
    (by
      apply block_lt
      simp [Abi.encode, Abi.heads_length, Abi.tails, Abi.tailOf])
  simp only [List.map_cons, List.map_nil, Abi.Arg.type] at hself
  simp only [decodeOp, convertPositionsCall, convertPositionsTypes, if_true, hself,
    Word.toNat_ofNat_of_lt hb, Word.toNat_ofNat_of_lt ha]

/-! ## What an operation can do -/

/-- The collateral an operation pays out. -/
def Op.credit : Op → Nat
  | .merge _ amount => amount
  | .convert _ bits amount => (popcount bits - 1) * amount

theorem exec_merge_cases {registry : List ConvertLeg} {ledger next : Ledger} {conditionId : B256}
    {amount : Nat} (h : exec registry ledger (.merge conditionId amount) = some next) :
    ∃ leg, legOfCondition registry conditionId = some leg ∧ leg ∈ registry ∧
      leg.conditionId = some conditionId ∧ amount ≤ ledger.no leg.questionId ∧
      amount ≤ ledger.yes leg.questionId ∧ next = ledger.merge leg amount := by
  simp only [exec] at h
  cases hf : legOfCondition registry conditionId with
  | none => simp [hf] at h
  | some leg =>
    simp only [hf] at h
    split at h
    · rename_i hle
      have hcid := List.find?_some hf
      simp only [decide_eq_true_eq] at hcid
      exact ⟨leg, rfl, List.mem_of_find?_eq_some hf, hcid, hle.1, hle.2, (Option.some.inj h).symm⟩
    · cases h

theorem exec_convert_cases {registry : List ConvertLeg} {ledger next : Ledger} {marketId : B256}
    {bits amount : Nat} (h : exec registry ledger (.convert marketId bits amount) = some next) :
    let event := marketQuestions registry marketId
    let burned := namedQuestions event bits
    burned ≠ [] ∧ indexSet burned = bits ∧ (∀ q ∈ burned, amount ≤ ledger.no q) ∧
      next = ledger.convert marketId event burned ((popcount bits - 1) * amount) amount := by
  simp only [exec] at h
  split at h
  · rename_i hc
    exact ⟨hc.1, hc.2.1, hc.2.2, (Option.some.inj h).symm⟩
  · cases h

/-- NO is never minted and collateral never taken back. -/
theorem exec_monotone {registry : List ConvertLeg} {ledger next : Ledger} {op : Op}
    (h : exec registry ledger op = some next) :
    (∀ q, next.no q ≤ ledger.no q) ∧ ∀ m, ledger.credited m ≤ next.credited m := by
  cases op with
  | merge c a =>
    obtain ⟨leg, _, _, _, _, _, rfl⟩ := exec_merge_cases h
    constructor
    · intro q
      simp only [Ledger.merge]
      split <;> omega
    · intro m
      simp only [Ledger.merge]
      split <;> omega
  | convert market bits a =>
    obtain ⟨_, _, _, rfl⟩ := exec_convert_cases h
    constructor
    · intro q
      simp only [Ledger.convert]
      split <;> omega
    · intro m
      simp only [Ledger.convert]
      split <;> omega

end Eggplant.Convert
