import Eggplant.Convert.Calldata

/-!
# The questions a convert call names

The call carries one market id and a bitmap. The market id is that of the first
question and the bitmap that of all of them, so the call names the questions it was
built for when they are of one event.
-/
namespace Eggplant.Convert

set_option autoImplicit false

open Eggplant.Lib Eggplant.Lib.Words

/-- The question at a position of a market. -/
def questionAt (marketId : B256) (i : Nat) : B256 := marketId.set 31 (UInt8.ofNat i)

/-- The questions at the set positions of a bitmap. -/
def questionsAt (marketId : B256) (bits : Nat) : List B256 :=
  ((List.range 256).filter (fun i => bits.testBit i)).map (questionAt marketId)

/-- The questions a convert call names, and the size of its bitmap. -/
def decodeQuestions (data : Bytes) : Option (List B256 × Nat) :=
  match Abi.decodeCall convertPositionsSelector convertPositionsTypes data with
  | some [.word marketId, .word bits, .word _] =>
      some (questionsAt marketId bits.toNat, popcount bits.toNat)
  | _ => none

theorem questionIndex_questionAt (marketId : B256) {i : Nat} (hi : i < 256) :
    questionIndex (questionAt marketId i) = i := by
  have hbyte : (questionAt marketId i).get 31 (by decide) = UInt8.ofNat i := by
    simp [questionAt, FixedBytes.get, FixedBytes.set]
  rw [questionIndex, hbyte, UInt8.toNat_ofNat', Nat.mod_eq_of_lt hi]

/-- Every position of a market is one of its questions. -/
theorem marketId_questionAt (qid : B256) (i : Nat) :
    marketIdFromQuestionId (questionAt (marketIdFromQuestionId qid) i) =
      marketIdFromQuestionId qid := by
  apply FixedBytes.eq_of_bytes
  simp [questionAt, marketIdFromQuestionId, FixedBytes.set]

/-- A question is named when it is of the market and its position is set. -/
theorem mem_questionsAt {qid q : B256} {bits : Nat} :
    q ∈ questionsAt (marketIdFromQuestionId qid) bits ↔
      marketIdFromQuestionId q = marketIdFromQuestionId qid ∧
        bits.testBit (questionIndex q) = true := by
  rw [questionsAt, List.mem_map]
  constructor
  · intro h
    obtain ⟨i, hi, rfl⟩ := h
    obtain ⟨hrange, hbit⟩ := List.mem_filter.mp hi
    refine ⟨marketId_questionAt qid i, ?_⟩
    rwa [questionIndex_questionAt _ (List.mem_range.mp hrange)]
  · intro h
    obtain ⟨hmarket, hbit⟩ := h
    have hlt := questionIndex_lt q
    refine ⟨questionIndex q, List.mem_filter.mpr ⟨List.mem_range.mpr hlt, hbit⟩, ?_⟩
    exact questionId_eq ((marketId_questionAt qid _).trans hmarket.symm)
      (questionIndex_questionAt _ hlt)

theorem decodeQuestions_build (qid : B256) (qids : List B256) (amount : Nat) :
    ∃ data, buildConvertCalldata (qid :: qids) amount = .ok data ∧
      decodeQuestions data =
        some (questionsAt (marketIdFromQuestionId qid) (indexSet (qid :: qids)),
          popcount (indexSet (qid :: qids))) := by
  refine ⟨_, rfl, ?_⟩
  have hself := Abi.decodeCall_encodeCall convertPositionsSelector
    [.word (marketIdFromQuestionId qid), .word (Word.ofNat (indexSet (qid :: qids))),
      .word (Word.ofNat amount)]
    (by
      have hsmall : (96 : Nat) < wordSize := by decide
      simpa [Abi.encode, Abi.heads_length, Abi.tails, Abi.tailOf] using hsmall)
  simp only [List.map_cons, List.map_nil, Abi.Arg.type] at hself
  rw [decodeQuestions, convertPositionsCall, convertPositionsTypes, hself]
  simp only [Word.toNat_ofNat_of_lt (indexSet_lt _)]

/-- The positions of distinct questions of one market are distinct. -/
theorem popcount_of_one_market {qids : List B256}
    (h : ∀ a ∈ qids, ∀ b ∈ qids, marketIdFromQuestionId a = marketIdFromQuestionId b) :
    popcount (indexSet qids) = qids.dedup.length := by
  have hsame : indexSet qids = indexSet qids.dedup := by
    apply indexSet_congr
    intro i
    simp only [List.mem_map, List.mem_dedup]
  rw [hsame]
  apply popcount_indexSet
  refine List.Nodup.map_on ?_ (List.nodup_dedup qids)
  intro a ha b hb hindex
  exact questionId_eq (h a (List.mem_dedup.mp ha) b (List.mem_dedup.mp hb)) hindex

/-- Any non-empty list of questions is encoded, and the call names exactly those questions,
with one bit for each, if and only if they are of one event: their ids share the first 31
bytes. -/
theorem convert_names_questions (qid : B256) (qids : List B256) (amount : Nat) :
    ∃ data named bits, buildConvertCalldata (qid :: qids) amount = .ok data ∧
      decodeQuestions data = some (named, bits) ∧
      (((∀ q, q ∈ named ↔ q ∈ qid :: qids) ∧ bits = (qid :: qids).dedup.length) ↔
        ∀ a ∈ qid :: qids, ∀ b ∈ qid :: qids, a.bytes.take 31 = b.bytes.take 31) := by
  obtain ⟨data, hbuild, hdecode⟩ := decodeQuestions_build qid qids amount
  refine ⟨data, _, _, hbuild, hdecode, ?_⟩
  simp only [← marketId_eq_iff]
  constructor
  · intro h a ha b hb
    have hmarket : ∀ q ∈ qid :: qids, marketIdFromQuestionId q = marketIdFromQuestionId qid :=
      fun q hq => (mem_questionsAt.mp ((h.1 q).mpr hq)).1
    rw [hmarket a ha, hmarket b hb]
  · intro h
    refine ⟨?_, popcount_of_one_market h⟩
    intro q
    rw [mem_questionsAt, testBit_indexSet, List.mem_map]
    constructor
    · intro hnamed
      obtain ⟨hmarket, q', hq', hindex⟩ := hnamed
      have heq : q' = q :=
        questionId_eq ((h q' hq' qid List.mem_cons_self).trans hmarket.symm) hindex
      exact heq ▸ hq'
    · intro hq
      exact ⟨h q hq qid List.mem_cons_self, q, hq, rfl⟩

/-- Questions of two events: the call names the second one's position in the first event. -/
theorem mixed_questions_misnamed :
    let first : B256 := Word.ofNat 0x0100
    let second : B256 := Word.ofNat 0x0201
    ∃ data named bits, buildConvertCalldata [first, second] 5 = .ok data ∧
      decodeQuestions data = some (named, bits) ∧ Word.ofNat 0x0101 ∈ named ∧
      ¬∀ q, q ∈ named ↔ q ∈ [first, second] := by
  intro first second
  obtain ⟨data, hbuild, hdecode⟩ := decodeQuestions_build first [second] 5
  have hother : Word.ofNat 0x0101 ∈
      questionsAt (marketIdFromQuestionId first) (indexSet [first, second]) :=
    mem_questionsAt.mpr ⟨by decide, by decide⟩
  refine ⟨data, _, _, hbuild, hdecode, hother, ?_⟩
  intro h
  exact absurd ((h _).mp hother) (by decide)

end Eggplant.Convert
