import Eggplant.Convert.Event

/-!
# Certified runs on one event

A `Harvest` is a run of operations that all execute, all concern one event, and
never convert deeper than the event's largest net NO position. Such a run loses
nothing: what it credits is exactly what the event's value drops by.
-/
namespace Eggplant.Convert

set_option autoImplicit false

open Eggplant.Lib Eggplant.Lib.Words

/-- How much net NO a convert takes off every leg. -/
def Op.depth : Op → Nat
  | .merge _ _ => 0
  | .convert _ _ amount => amount

def Event.depth (e : Event) (ledger : Ledger) : Nat :=
  CompleteSet.depth e.outcomes (e.position ledger)

def credits (ops : List Op) : Nat := (ops.map Op.credit).sum

abbrev Harvest (registry : List ConvertLeg) (e : Event) : Ledger → List Op → Ledger → Prop :=
  Runs.Certified (exec registry) (fun ledger op => OnEvent e op ∧ op.depth ≤ e.depth ledger)

variable {registry : List ConvertLeg} {e : Event}

section Listed
variable (hl : Listed registry e)
include hl

/-- One certified operation: the value drops by exactly the credit. -/
theorem step_value {ledger next : Ledger} {op : Op} (hop : OnEvent e op)
    (hdepth : op.depth ≤ e.depth ledger) (hexec : exec registry ledger op = some next) :
    e.value next + op.credit = e.value ledger := by
  cases hop with
  | @merge l c hleg hc a =>
    obtain ⟨k, hk, _, _, hn, hy, rfl⟩ := exec_merge_cases hexec
    obtain rfl : l = k := Option.some.inj ((hl.condition l hleg c hc).symm.trans hk)
    unfold Event.value
    rw [position_merge e ledger hleg]
    exact CompleteSet.value_merge _ (List.mem_toFinset.mpr (e.mem_questions hleg)) hn hy
  | @convert l hleg bits a =>
    obtain ⟨hne, hbits, hno, rfl⟩ := exec_convert_cases hexec
    rw [hl.market l hleg] at hne hbits hno ⊢
    have hn : (namedQuestions e.questions bits).Nodup := e.questions_nodup.filter _
    have hcard := List.toFinset_card_of_nodup hn
    have hv := CompleteSet.value_convert (e.position ledger) (named_subset e bits)
      ((List.toFinset_nonempty_iff _).mpr hne)
      (fun q hq => hno q (List.mem_toFinset.mp hq)) hdepth
    rw [hcard, ← position_convert e ledger hleg hn] at hv
    simp only [Event.value, Op.credit, popcount_named e bits hbits]
    exact hv

theorem harvest_value {first last : Ledger} {ops : List Op}
    (h : Harvest registry e first ops last) : e.value last + credits ops = e.value first :=
  h.telescope (fun _ _ _ hok hexec => step_value hl hok.1 hok.2 hexec)

theorem harvest_credited {first last : Ledger} {ops : List Op}
    (h : Harvest registry e first ops last) : e.credited last = e.credited first + credits ops := by
  induction h with
  | nil => simp [credits]
  | cons hok hexec _ ih =>
    obtain ⟨_, _, hcredit⟩ := exec_frame hl hok.1 hexec
    simp only [credits, List.map_cons, List.sum_cons] at ih ⊢
    omega

/-- Other questions and other markets are as they were. -/
theorem harvest_frame {first last : Ledger} {ops : List Op}
    (h : Harvest registry e first ops last) :
    (∀ q, q ∉ e.questions → last.no q = first.no q ∧ last.yes q = first.yes q) ∧
    (∀ m, (∀ l ∈ e.legs, l.marketId ≠ m) → last.credited m = first.credited m) := by
  apply h.invariant (p := fun ledger =>
    (∀ q, q ∉ e.questions → ledger.no q = first.no q ∧ ledger.yes q = first.yes q) ∧
    (∀ m, (∀ l ∈ e.legs, l.marketId ≠ m) → ledger.credited m = first.credited m))
  · intro s op s' hok hexec ih
    obtain ⟨hq, hm, _⟩ := exec_frame hl hok.1 hexec
    constructor
    · intro q hout
      exact ⟨(hq q hout).1.trans (ih.1 q hout).1, (hq q hout).2.trans (ih.1 q hout).2⟩
    · intro m hout
      exact (hm m hout).trans (ih.2 m hout)
  · exact ⟨fun _ _ => ⟨rfl, rfl⟩, fun _ _ => rfl⟩

end Listed

/-! ## What a plan means as operations -/

def mergeOp (m : B256 × Nat) : Op := .merge m.1 m.2

def tierOps (tier : ConvertTier) : List Op :=
  match tier.questionIds with
  | [] => []
  | q :: qs =>
      .convert (marketIdFromQuestionId q) (indexSet (q :: qs)) tier.amount ::
        tier.postMerges.map mergeOp

def planOps (plan : EventPlan) : List Op :=
  plan.merges.map mergeOp ++ plan.tiers.flatMap tierOps

/-- The tier's convert alone, without the post-merges behind it. -/
def tierConvert (tier : ConvertTier) : List Op := (tierOps tier).take 1

theorem tierOps_eq {tier : ConvertTier} (h : tier.questionIds ≠ []) :
    tierOps tier = tierConvert tier ++ tier.postMerges.map mergeOp := by
  unfold tierConvert tierOps
  cases hq : tier.questionIds with
  | nil => exact absurd hq h
  | cons q qs => rfl

end Eggplant.Convert
