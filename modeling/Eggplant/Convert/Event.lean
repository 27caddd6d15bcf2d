import Eggplant.Convert.Ledger
import Eggplant.Convert.Tiers
import Eggplant.Lib.CompleteSet

/-!
# Events on the ledger

An `Event` carries what makes its legs one negRisk event: question ids that share
their first 31 bytes and differ in the last. `Listed` says that a registry knows
the event's market and conditions; operations on a listed event touch only its
own questions and are steps of the outcome-claim ledger of `Lib.CompleteSet`.
-/
namespace Eggplant.Convert

set_option autoImplicit false

open Eggplant.Lib Eggplant.Lib.Words

structure Event where
  legs : List ConvertLeg
  sharedPrefix : ∀ l ∈ legs, ∀ k ∈ legs, l.questionId.bytes.take 31 = k.questionId.bytes.take 31
  distinctIndex : (legs.map (fun l => questionIndex l.questionId)).Nodup

namespace Event

def questions (e : Event) : List B256 := e.legs.map (·.questionId)

def DistinctConditions (e : Event) : Prop := (e.legs.filterMap (·.conditionId)).Nodup

instance (e : Event) : Decidable e.DistinctConditions :=
  inferInstanceAs (Decidable (e.legs.filterMap (·.conditionId)).Nodup)

/-- Collateral credited to the event's market; an event without legs has none. -/
def credited (e : Event) (ledger : Ledger) : Nat :=
  match e.legs with
  | [] => 0
  | l :: _ => ledger.credited l.marketId

theorem marketId_eq (e : Event) {l k : ConvertLeg} (hl : l ∈ e.legs) (hk : k ∈ e.legs) :
    l.marketId = k.marketId :=
  (marketId_eq_iff _ _).mpr (e.sharedPrefix l hl k hk)

theorem questions_nodup (e : Event) : e.questions.Nodup := by
  have h := e.distinctIndex
  rw [← Function.comp_def questionIndex, ← List.map_map] at h
  exact h.of_map questionIndex

theorem index_injective (e : Event) {q q' : B256} (hq : q ∈ e.questions) (hq' : q' ∈ e.questions)
    (h : questionIndex q = questionIndex q') : q = q' := by
  obtain ⟨l, hl, rfl⟩ := List.mem_map.mp hq
  obtain ⟨k, hk, rfl⟩ := List.mem_map.mp hq'
  exact questionId_eq (e.marketId_eq hl hk) h

/-- Within an event the question id identifies the leg. -/
theorem leg_eq (e : Event) {l k : ConvertLeg} (hl : l ∈ e.legs) (hk : k ∈ e.legs)
    (h : l.questionId = k.questionId) : l = k :=
  List.inj_on_of_nodup_map e.questions_nodup hl hk h

theorem mem_questions (e : Event) {l : ConvertLeg} (hl : l ∈ e.legs) :
    l.questionId ∈ e.questions :=
  List.mem_map_of_mem hl

theorem credited_eq (e : Event) {l : ConvertLeg} (hl : l ∈ e.legs) (ledger : Ledger) :
    e.credited ledger = ledger.credited l.marketId := by
  unfold credited
  cases hlegs : e.legs with
  | nil =>
    rw [hlegs] at hl
    cases hl
  | cons k ks =>
    have hk : k ∈ e.legs := by
      rw [hlegs]
      exact List.mem_cons_self
    simp only [e.marketId_eq hk hl]

/-- An index set over an event's questions names exactly the listed ones. -/
theorem mem_named (e : Event) {ids : List B256} (hids : ∀ q ∈ ids, q ∈ e.questions) {q : B256} :
    q ∈ namedQuestions e.questions (indexSet ids) ↔ q ∈ ids := by
  rw [namedQuestions, List.mem_filter, testBit_indexSet, List.mem_map]
  constructor
  · intro h
    obtain ⟨hq, q', hq', hi⟩ := h
    rwa [← e.index_injective (hids q' hq') hq hi]
  · intro hq
    exact ⟨hids q hq, q, hq, rfl⟩

end Event

/-- Leg `i` of a concrete event: the market number is the first byte of the prefix. -/
def numberedLeg (market i : UInt8) : ConvertLeg where
  questionId := ((FixedBytes.zero 32).set 0 market).set 31 i
  conditionId := some (((FixedBytes.zero 32).set 1 market).set 2 i)
  yesTokenId := some (512 * market.toNat + 2 * i.toNat + 1)
  noTokenId := 512 * market.toNat + 2 * i.toNat

/-- The event with legs `0` to `n - 1`, all of them with a condition id. -/
def Event.numbered (market : UInt8) (n : Nat) (hn : n ≤ 256) : Event where
  legs := (List.range n).map (fun i => numberedLeg market (UInt8.ofNat i))
  sharedPrefix := by
    intro l hl k hk
    obtain ⟨i, _, rfl⟩ := List.mem_map.mp hl
    obtain ⟨j, _, rfl⟩ := List.mem_map.mp hk
    rfl
  distinctIndex := by
    have hindex : ∀ i ∈ List.range n,
        ((fun l => questionIndex l.questionId) ∘ fun i => numberedLeg market (UInt8.ofNat i)) i = i := by
      intro i hi
      have hlt := List.mem_range.mp hi
      show (UInt8.ofNat i).toNat = i
      rw [UInt8.toNat_ofNat']
      exact Nat.mod_eq_of_lt (lt_of_lt_of_le hlt hn)
    rw [List.map_map, List.map_congr_left hindex, List.map_id']
    exact List.nodup_range

structure Listed (registry : List ConvertLeg) (e : Event) : Prop where
  market : ∀ l ∈ e.legs, marketQuestions registry l.marketId = e.questions
  condition : ∀ l ∈ e.legs, ∀ c, l.conditionId = some c → legOfCondition registry c = some l

theorem marketQuestions_self (e : Event) {l : ConvertLeg} (hl : l ∈ e.legs) :
    marketQuestions e.legs l.marketId = e.questions := by
  unfold marketQuestions Event.questions
  congr 1
  apply List.filter_eq_self.mpr
  intro k hk
  exact decide_eq_true (e.marketId_eq hk hl)

/-- The first leg with a condition id is the leg itself when no other leg has it. -/
theorem legOfCondition_eq {registry : List ConvertLeg}
    (hn : (registry.filterMap (·.conditionId)).Nodup) {l : ConvertLeg} (hl : l ∈ registry) {c : B256}
    (hc : l.conditionId = some c) : legOfCondition registry c = some l := by
  unfold legOfCondition
  induction registry with
  | nil => cases hl
  | cons k ks ih =>
    by_cases hk : k.conditionId = some c
    · rw [List.find?_cons_of_pos (by simpa using hk)]
      rcases List.mem_cons.mp hl with rfl | hmem
      · rfl
      · rw [List.filterMap_cons_some hk, List.nodup_cons] at hn
        exact absurd (List.mem_filterMap.mpr ⟨l, hmem, hc⟩) hn.1
    · rw [List.find?_cons_of_neg (by simpa using hk)]
      have hn' : (ks.filterMap (·.conditionId)).Nodup := by
        cases hkc : k.conditionId with
        | none => rwa [List.filterMap_cons_none hkc] at hn
        | some c' =>
          rw [List.filterMap_cons_some hkc, List.nodup_cons] at hn
          exact hn.2
      rcases List.mem_cons.mp hl with rfl | hmem
      · exact absurd hc hk
      · exact ih hn' hmem

theorem listed_self {e : Event} (hc : e.DistinctConditions) : Listed e.legs e where
  market := fun _ hl => marketQuestions_self e hl
  condition := fun _ hl _ hcid => legOfCondition_eq hc hl hcid

/-! ## Operations on an event -/

inductive OnEvent (e : Event) : Op → Prop where
  | merge {l : ConvertLeg} {c : B256} (hl : l ∈ e.legs) (hc : l.conditionId = some c) (a : Nat) :
      OnEvent e (.merge c a)
  | convert {l : ConvertLeg} (hl : l ∈ e.legs) (bits a : Nat) :
      OnEvent e (.convert l.marketId bits a)

/-- The event's part of the ledger as a position in the general outcome ledger. -/
def Event.position (e : Event) (ledger : Ledger) : CompleteSet.Position B256 where
  no := ledger.no
  yes := ledger.yes
  cash := e.credited ledger

abbrev Event.outcomes (e : Event) : Finset B256 := e.questions.toFinset

/-- The most the event's balances can still free. -/
def Event.value (e : Event) (ledger : Ledger) : Nat :=
  CompleteSet.value e.outcomes (e.position ledger)

theorem position_merge (e : Event) (ledger : Ledger) {l : ConvertLeg} (hl : l ∈ e.legs) (a : Nat) :
    e.position (ledger.merge l a) = (e.position ledger).merge l.questionId a := by
  simp only [Event.position, e.credited_eq hl, Ledger.merge, CompleteSet.Position.merge, if_true]

theorem position_convert (e : Event) (ledger : Ledger) {l : ConvertLeg} (hl : l ∈ e.legs)
    {burned : List B256} (hn : burned.Nodup) (a : Nat) :
    e.position (ledger.convert l.marketId e.questions burned ((burned.length - 1) * a) a) =
      (e.position ledger).convert e.outcomes burned.toFinset a := by
  have hcard : burned.toFinset.card = burned.length := List.toFinset_card_of_nodup hn
  simp only [Event.position, e.credited_eq hl, Ledger.convert, CompleteSet.Position.convert,
    Event.outcomes, List.mem_toFinset, hcard, if_true]

theorem popcount_named (e : Event) (bits : Nat)
    (h : indexSet (namedQuestions e.questions bits) = bits) :
    popcount bits = (namedQuestions e.questions bits).length := by
  have hn : ((namedQuestions e.questions bits).map questionIndex).Nodup := by
    have hd := e.distinctIndex
    rw [← Function.comp_def questionIndex, ← List.map_map] at hd
    exact hd.sublist (List.filter_sublist.map questionIndex)
  conv_lhs => rw [← h]
  exact popcount_indexSet hn

theorem named_subset (e : Event) (bits : Nat) :
    (namedQuestions e.questions bits).toFinset ⊆ e.outcomes := by
  intro q hq
  rw [List.mem_toFinset] at hq ⊢
  exact List.mem_of_mem_filter hq

/-- A merge on one of the event's legs is a step of the general ledger. -/
theorem merge_step (e : Event) (ledger : Ledger) {l : ConvertLeg} (hl : l ∈ e.legs) {a : Nat}
    (hn : a ≤ ledger.no l.questionId) (hy : a ≤ ledger.yes l.questionId) :
    CompleteSet.Step e.outcomes (e.position ledger) (e.position (ledger.merge l a)) := by
  rw [position_merge e ledger hl]
  exact .merge _ l.questionId a (List.mem_toFinset.mpr (e.mem_questions hl)) hn hy

/-- A convert that executes on the event's market is a step of the general ledger. -/
theorem convert_step (e : Event) (ledger : Ledger) {l : ConvertLeg} (hl : l ∈ e.legs)
    {bits a : Nat} (hne : namedQuestions e.questions bits ≠ [])
    (hbits : indexSet (namedQuestions e.questions bits) = bits)
    (hno : ∀ q ∈ namedQuestions e.questions bits, a ≤ ledger.no q) :
    CompleteSet.Step e.outcomes (e.position ledger)
      (e.position (ledger.convert l.marketId e.questions (namedQuestions e.questions bits)
        ((popcount bits - 1) * a) a)) := by
  have hn : (namedQuestions e.questions bits).Nodup := e.questions_nodup.filter _
  rw [popcount_named e bits hbits, position_convert e ledger hl hn]
  refine .convert _ _ a (named_subset e bits) ?_ ?_
  · exact List.toFinset_nonempty_iff _ |>.mpr hne
  · intro q hq
    exact hno q (List.mem_toFinset.mp hq)

section Listed
variable {registry : List ConvertLeg} {e : Event} (hl : Listed registry e)
include hl

theorem exec_merge_listed {l : ConvertLeg} (hleg : l ∈ e.legs) {c : B256}
    (hc : l.conditionId = some c) (ledger : Ledger) (a : Nat) :
    exec registry ledger (.merge c a) =
      if a ≤ ledger.no l.questionId ∧ a ≤ ledger.yes l.questionId then some (ledger.merge l a)
      else none := by
  simp only [exec, hl.condition l hleg c hc]

/-- A convert over questions of the event that all hold enough NO executes, and burns
exactly what it lists. -/
theorem exec_convert_listed {ledger : Ledger} {q : B256} {qs : List B256} {a : Nat}
    (hsub : ∀ q' ∈ q :: qs, q' ∈ e.questions) (hno : ∀ q' ∈ q :: qs, a ≤ ledger.no q') :
    ∃ l ∈ e.legs, marketIdFromQuestionId q = l.marketId ∧
      ∃ burned, (∀ q', q' ∈ burned ↔ q' ∈ q :: qs) ∧
        exec registry ledger (.convert l.marketId (indexSet (q :: qs)) a) =
          some (ledger.convert l.marketId e.questions burned
            ((popcount (indexSet (q :: qs)) - 1) * a) a) := by
  obtain ⟨l, hleg, hlq⟩ := List.mem_map.mp (hsub q List.mem_cons_self)
  have hnamed (q' : B256) : q' ∈ namedQuestions e.questions (indexSet (q :: qs)) ↔ q' ∈ q :: qs :=
    e.mem_named hsub
  generalize hb : namedQuestions e.questions (indexSet (q :: qs)) = burned at hnamed
  have hbits : indexSet burned = indexSet (q :: qs) := by
    apply indexSet_congr
    intro i
    simp only [List.mem_map, hnamed]
  have hne : burned ≠ [] := List.ne_nil_of_mem ((hnamed q).mpr List.mem_cons_self)
  have hburn : ∀ q' ∈ burned, a ≤ ledger.no q' := fun q' hq' => hno q' ((hnamed q').mp hq')
  refine ⟨l, hleg, by rw [← hlq]; rfl, burned, hnamed, ?_⟩
  simp only [exec, hl.market l hleg, hb]
  rw [if_pos ⟨hne, hbits, hburn⟩]

/-- An operation on the event leaves every other question and market alone, and
credits the event's market with what the operation pays. -/
theorem exec_frame {ledger next : Ledger} {op : Op} (hop : OnEvent e op)
    (h : exec registry ledger op = some next) :
    (∀ q, q ∉ e.questions → next.no q = ledger.no q ∧ next.yes q = ledger.yes q) ∧
    (∀ m, (∀ l ∈ e.legs, l.marketId ≠ m) → next.credited m = ledger.credited m) ∧
    e.credited next = e.credited ledger + op.credit := by
  cases hop with
  | @merge l c hleg hc a =>
    obtain ⟨k, hk, _, _, _, _, rfl⟩ := exec_merge_cases h
    obtain rfl : l = k := Option.some.inj ((hl.condition l hleg c hc).symm.trans hk)
    refine ⟨?_, ?_, ?_⟩
    · intro q hq
      have hne : q ≠ l.questionId := fun he => hq (he ▸ e.mem_questions hleg)
      simp only [Ledger.merge, if_neg hne, and_self]
    · intro m hm
      simp only [Ledger.merge, if_neg (hm l hleg).symm]
    · simp only [e.credited_eq hleg, Ledger.merge, if_true, Op.credit]
  | @convert l hleg bits a =>
    obtain ⟨_, _, _, rfl⟩ := exec_convert_cases h
    rw [hl.market l hleg]
    refine ⟨?_, ?_, ?_⟩
    · intro q hq
      have hb : q ∉ namedQuestions e.questions bits := fun hb => hq (List.mem_of_mem_filter hb)
      simp only [Ledger.convert, hb, hq, false_and, if_false, and_self]
    · intro m hm
      simp only [Ledger.convert, if_neg (hm l hleg).symm]
    · simp only [e.credited_eq hleg, Ledger.convert, if_true, Op.credit]

end Listed

end Eggplant.Convert
