import Eggplant.Convert.Calldata

/-!
# The merge/convert planner

`convert.rs` from a balance snapshot to the ordered call list: classification,
tier decomposition, proceeds, calldata and gas-budgeted chunks. Pairs are
`(no, yes)` balances in leg order.
-/
namespace Eggplant.Convert

set_option autoImplicit false

def maxLegsPerConvert : Nat := 20

theorem maxLegsPerConvert_pos : 0 < maxLegsPerConvert := by decide

structure NoHolding where
  questionId : B256
  conditionId : Option B256
  remainingNo : Nat
  deriving DecidableEq

structure ConvertTier where
  questionIds : List B256
  amount : Nat
  postMerges : List (B256 × Nat)
  deriving DecidableEq

structure EventPlan where
  merges : List (B256 × Nat)
  tiers : List ConvertTier
  proceeds : Nat
  nLegs : Nat
  deriving DecidableEq

structure PlannedCall where
  call : DepositWalletCall
  gas : Nat
  deriving DecidableEq

def mergeGas : Nat := 400000

def convertGas (nEventLegs : Nat) : Nat := satAdd64 700000 (satMul64 175000 nEventLegs)

/-- One turn of the `classify_event` loop, pushing onto the two vectors. -/
def classifyLeg (acc : List (B256 × Nat) × List NoHolding) (row : ConvertLeg × Nat × Nat) :
    List (B256 × Nat) × List NoHolding :=
  let (leg, noBal, yesBal) := row
  let merges :=
    if 0 < yesBal ∧ 0 < noBal then
      match leg.conditionId with
      | some cid => acc.1 ++ [(cid, min yesBal noBal)]
      | none => acc.1
    else acc.1
  let remainingNo := noBal - min yesBal noBal
  let holdings :=
    if 0 < remainingNo then
      acc.2 ++ [{ questionId := leg.questionId, conditionId := leg.conditionId, remainingNo }]
    else acc.2
  (merges, holdings)

def classifyEvent (legs : List ConvertLeg) (pairs : List (Nat × Nat)) :
    List (B256 × Nat) × List NoHolding :=
  (legs.zip pairs).foldl classifyLeg ([], [])

/-- `sort_unstable` then `dedup` over the holding sizes. -/
def tierLevels (holdings : List NoHolding) : List Nat :=
  ((holdings.map (·.remainingNo)).insertionSort (· ≤ ·)).destutter (· ≠ ·)

def tierMembers (holdings : List NoHolding) (level : Nat) : List NoHolding :=
  holdings.filter (fun h => decide (level ≤ h.remainingNo))

def mkTier (members : List NoHolding) (amount : Nat) (maxLegs : Nat) : ConvertTier where
  questionIds := (members.take maxLegs).map (·.questionId)
  amount := amount
  postMerges := (members.drop maxLegs).filterMap (fun h => h.conditionId.map (fun cid => (cid, amount)))

/-- The loop over ascending levels. Levels only rise, so the difference never wraps. -/
def tierLoop (holdings : List NoHolding) (singleLegMinQtyRaw : Nat) (maxLegs : Nat) :
    Nat → List Nat → List ConvertTier
  | _, [] => []
  | prev, level :: levels =>
      let amount := level - prev
      let members := tierMembers holdings level
      if members.length = 1 ∧ amount < singleLegMinQtyRaw then []
      else mkTier members amount maxLegs :: tierLoop holdings singleLegMinQtyRaw maxLegs level levels

def planTiers (holdings : List NoHolding) (singleLegMinQtyRaw : Nat) (maxLegs : Nat) :
    List ConvertTier :=
  tierLoop holdings singleLegMinQtyRaw maxLegs 0 (tierLevels holdings)

def addMerges (acc : Nat) (merges : List (B256 × Nat)) : Nat :=
  merges.foldl (fun acc m => U256.add acc m.2) acc

def addTier (acc : Nat) (tier : ConvertTier) : Nat :=
  addMerges (U256.add acc (U256.mul (tier.questionIds.length - 1) tier.amount)) tier.postMerges

def planEvent (merges : List (B256 × Nat)) (tiers : List ConvertTier) (nLegs : Nat) : EventPlan where
  merges := merges
  tiers := tiers
  proceeds := tiers.foldl addTier (addMerges 0 merges)
  nLegs := nLegs

def planEventFromBalances (legs : List ConvertLeg) (pairs : List (Nat × Nat))
    (singleLegMinQtyRaw : Nat) : EventPlan :=
  let (merges, holdings) := classifyEvent legs pairs
  planEvent merges (planTiers holdings singleLegMinQtyRaw maxLegsPerConvert) legs.length

def plannedMerge (call : DepositWalletCall) : PlannedCall := { call, gas := mergeGas }

/-- A tier's convert, with its post-merges directly behind it. -/
def tierCalls (nLegs : Nat) (tier : ConvertTier) : Except Error (List PlannedCall) := do
  let data ← buildConvertCalldata tier.questionIds tier.amount
  let convert : PlannedCall :=
    { call := { target := Chain.negRiskCollateralAdapter, data }, gas := convertGas nLegs }
  return convert :: (mergeCalls tier.postMerges).map plannedMerge

def tiersCalls (nLegs : Nat) : List ConvertTier → Except Error (List PlannedCall)
  | [] => .ok []
  | tier :: tiers => do
      let calls ← tierCalls nLegs tier
      let rest ← tiersCalls nLegs tiers
      return calls ++ rest

def planCalls : List EventPlan → Except Error (List PlannedCall)
  | [] => .ok []
  | plan :: plans => do
      let converts ← tiersCalls plan.nLegs plan.tiers
      let rest ← planCalls plans
      return (mergeCalls plan.merges).map plannedMerge ++ converts ++ rest

/-- A half-open range of call indices. -/
structure CallRange where
  start : Nat
  stop : Nat
  deriving DecidableEq

/-- The `gas_chunks` loop at call `i`, with the open chunk's start and gas. -/
def gasChunksLoop (maxCalls maxGas : Nat) : Nat → Nat → Nat → List PlannedCall → List CallRange
  | i, start, _, [] => if start < i then [⟨start, i⟩] else []
  | i, start, gas, p :: ps =>
      let count := i - start
      if 0 < count ∧ (maxCalls ≤ count ∨ maxGas < satAdd64 gas p.gas) then
        ⟨start, i⟩ :: gasChunksLoop maxCalls maxGas (i + 1) i (satAdd64 0 p.gas) ps
      else gasChunksLoop maxCalls maxGas (i + 1) start (satAdd64 gas p.gas) ps

def gasChunks (planned : List PlannedCall) (maxCalls maxGas : Nat) : List CallRange :=
  gasChunksLoop (max maxCalls 1) maxGas 0 0 0 planned

end Eggplant.Convert
