import Eggplant.Lib.Abi
import Eggplant.Chain
import Eggplant.Error

/-!
# Convert and merge calldata

The builders of `convert.rs` down to the bytes a `DepositWallet` call carries.
Selectors are the first four bytes of the keccak hash of the signature, as the
`sol!` macro derives them.
-/
namespace Eggplant.Convert

set_option autoImplicit false

open Eggplant.Lib Eggplant.Lib.Words

structure ConvertLeg where
  questionId : B256
  conditionId : Option B256
  yesTokenId : Option Nat
  noTokenId : Nat
  deriving DecidableEq

/-- One call of a `DepositWallet` batch (`value` is always zero on this path). -/
structure DepositWalletCall where
  target : Address
  data : Bytes
  deriving DecidableEq

/-- `question_id.0[31]`: the question's position within its event. -/
def questionIndex (questionId : B256) : Nat := (questionId.get 31 (by decide)).toNat

def marketIdFromQuestionId (questionId : B256) : B256 := questionId.set 31 0

def indexSet (questionIds : List B256) : Nat :=
  questionIds.foldl (fun bits qid => bits ||| 1 <<< questionIndex qid) 0

/-- `convertPositions(bytes32,uint256,uint256)`. -/
def convertPositionsSelector : FixedBytes 4 := ⟨[0xc6, 0x47, 0x48, 0xc4], rfl⟩

/-- `mergePositions(address,bytes32,bytes32,uint256[],uint256)`. -/
def mergePositionsSelector : FixedBytes 4 := ⟨[0x9e, 0x72, 0x12, 0xad], rfl⟩

def convertPositionsTypes : List Abi.ArgType := [.word, .word, .word]

def mergePositionsTypes : List Abi.ArgType := [.word, .word, .word, .words, .word]

def convertPositionsCall (marketId : B256) (indexSet amount : Nat) : Bytes :=
  Abi.encodeCall convertPositionsSelector
    [.word marketId, .word (Word.ofNat indexSet), .word (Word.ofNat amount)]

def mergePositionsCall (collateralToken : Address) (parentCollectionId conditionId : B256)
    (partition : List Nat) (amount : Nat) : Bytes :=
  Abi.encodeCall mergePositionsSelector
    [.word collateralToken.toWord, .word parentCollectionId, .word conditionId,
      .words (partition.map Word.ofNat), .word (Word.ofNat amount)]

def buildConvertCalldata : List B256 → Nat → Except Error Bytes
  | [], _ => .error (.invalidData "convert requires at least one question_id")
  | qid :: qids, amount =>
      .ok (convertPositionsCall (marketIdFromQuestionId qid) (indexSet (qid :: qids)) amount)

def buildMergeCalldataCtf (collateral : Address) (conditionId : B256) (amount : Nat) : Bytes :=
  mergePositionsCall collateral (FixedBytes.zero 32) conditionId [1, 2] amount

def buildMergeCalldata (conditionId : B256) (amount : Nat) : Bytes :=
  buildMergeCalldataCtf Chain.collateral conditionId amount

def mergeCall (merge : B256 × Nat) : DepositWalletCall :=
  { target := Chain.negRiskCollateralAdapter, data := buildMergeCalldata merge.1 merge.2 }

def mergeCalls (merges : List (B256 × Nat)) : List DepositWalletCall := merges.map mergeCall

/-- `redeemPositions(address,bytes32,bytes32,uint256[])`. -/
def redeemPositionsSelector : FixedBytes 4 := ⟨[0x01, 0xb7, 0x03, 0x7c], rfl⟩

def buildRedeemCalldataCtf (collateral : Address) (conditionId : B256) (indexSets : List Nat) :
    Bytes :=
  Abi.encodeCall redeemPositionsSelector
    [.word collateral.toWord, .word (FixedBytes.zero 32), .word conditionId,
      .words (indexSets.map Word.ofNat)]

/-- The amounts only decide which sides are redeemed. -/
def buildRedeemCalldata (conditionId : B256) (yesAmount noAmount : Nat) : Bytes :=
  buildRedeemCalldataCtf Chain.collateral conditionId
    ((if 0 < yesAmount then [1] else []) ++ (if 0 < noAmount then [2] else []))

theorem questionIndex_lt (questionId : B256) : questionIndex questionId < 256 := UInt8.toNat_lt _

/-! ## Index sets -/

theorem indexSet_concat (qids : List B256) (qid : B256) :
    indexSet (qids ++ [qid]) = indexSet qids ||| 1 <<< questionIndex qid := by
  simp [indexSet]

/-- The bitmap holds exactly the listed positions. -/
theorem testBit_indexSet (qids : List B256) (i : Nat) :
    (indexSet qids).testBit i = true ↔ i ∈ qids.map questionIndex := by
  induction qids using List.reverseRecOn with
  | nil => simp [indexSet]
  | append_singleton qids qid ih =>
    rw [indexSet_concat, Nat.testBit_or, Bool.or_eq_true, ih, Nat.shiftLeft_eq, Nat.one_mul,
      Nat.testBit_two_pow]
    simp [eq_comm]

/-- Order and repetition of the ids do not matter. -/
theorem indexSet_congr {qids qids' : List B256}
    (h : ∀ i, i ∈ qids.map questionIndex ↔ i ∈ qids'.map questionIndex) :
    indexSet qids = indexSet qids' := by
  apply Nat.eq_of_testBit_eq
  intro i
  rw [Bool.eq_iff_iff, testBit_indexSet, testBit_indexSet]
  exact h i

theorem indexSet_lt (qids : List B256) : indexSet qids < wordSize := by
  apply Nat.lt_pow_two_of_testBit
  intro i hi
  rw [Bool.eq_false_iff, ne_eq, testBit_indexSet, List.mem_map]
  intro h
  obtain ⟨qid, -, rfl⟩ := h
  have h := questionIndex_lt qid
  omega

/-- Number of set bits of a 256-bit bitmap. -/
def popcount (bits : Nat) : Nat := ((List.range 256).filter (fun i => bits.testBit i)).length

theorem popcount_indexSet {qids : List B256} (h : (qids.map questionIndex).Nodup) :
    popcount (indexSet qids) = qids.length := by
  have hp : ((List.range 256).filter (fun i => (indexSet qids).testBit i)).Perm
      (qids.map questionIndex) := by
    apply (List.perm_ext_iff_of_nodup (List.nodup_range.filter _) h).mpr
    intro i
    rw [List.mem_filter, List.mem_range, testBit_indexSet]
    constructor
    · exact fun hi => hi.2
    · intro hi
      refine ⟨?_, hi⟩
      obtain ⟨qid, -, rfl⟩ := List.mem_map.mp hi
      exact questionIndex_lt qid
  rw [popcount, hp.length_eq, List.length_map]

/-! ## Market ids -/

/-- A market id is the first 31 bytes of any of its questions. -/
theorem marketId_eq_iff (a b : B256) :
    marketIdFromQuestionId a = marketIdFromQuestionId b ↔ a.bytes.take 31 = b.bytes.take 31 := by
  have hset (q : B256) : (marketIdFromQuestionId q).bytes = q.bytes.take 31 ++ [0] := by
    have hl := q.length_eq
    have hd : q.bytes.drop 32 = [] := List.drop_eq_nil_of_le (by omega)
    simp [marketIdFromQuestionId, FixedBytes.set, List.set_eq_take_append_cons_drop, hl, hd]
  constructor
  · intro h
    have hb := congrArg FixedBytes.bytes h
    rw [hset, hset] at hb
    exact List.append_cancel_right hb
  · intro h
    apply FixedBytes.eq_of_bytes
    rw [hset, hset, h]

/-- Market and position together determine the question. -/
theorem questionId_eq {a b : B256} (hm : marketIdFromQuestionId a = marketIdFromQuestionId b)
    (hi : questionIndex a = questionIndex b) : a = b := by
  have hsplit (q : B256) : q.bytes = q.bytes.take 31 ++ [q.get 31 (by decide)] := by
    have hl := q.length_eq
    have hlt : 31 < q.bytes.length := by omega
    have hall : q.bytes.take 32 = q.bytes := List.take_of_length_le (by omega)
    have ht : q.bytes.take 31 ++ [q.bytes[31]] = q.bytes.take 32 := List.take_append_getElem hlt
    exact (ht.trans hall).symm
  apply FixedBytes.eq_of_bytes
  rw [hsplit a, hsplit b, (marketId_eq_iff a b).mp hm, UInt8.toNat_inj.mp hi]

end Eggplant.Convert
