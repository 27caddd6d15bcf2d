import Eggplant.Convert.Proceeds

/-!
# No other call sequence frees more

Any operations that execute on an event alone are steps of the general outcome
ledger, so what they credit is bounded by the event's value; the plan credits the
value itself. The condition ids need not be distinct here: a merge names whichever
leg the ledger files under its condition, and that is a leg of the event.
-/
namespace Eggplant.Convert

set_option autoImplicit false

open Eggplant.Lib Eggplant.Lib.Words

/-- On a registry that is the event itself every operation that executes is a step. -/
theorem exec_self_step (e : Event) {ledger next : Ledger} {op : Op}
    (h : exec e.legs ledger op = some next) :
    CompleteSet.Step e.outcomes (e.position ledger) (e.position next) := by
  cases op with
  | merge c a =>
    obtain ⟨leg, _, hleg, _, hn, hy, rfl⟩ := exec_merge_cases h
    exact merge_step e ledger hleg hn hy
  | convert m bits a =>
    obtain ⟨hne, hbits, hno, rfl⟩ := exec_convert_cases h
    -- a market with a question to burn is the market of some leg
    obtain ⟨q, hq⟩ := List.exists_mem_of_ne_nil _ hne
    obtain ⟨leg, hmem, _⟩ := List.mem_map.mp (List.mem_of_mem_filter hq)
    obtain ⟨hleg, hm⟩ := List.mem_filter.mp hmem
    obtain rfl := of_decide_eq_true hm
    rw [marketQuestions_self e hleg] at hne hbits hno ⊢
    exact convert_step e ledger hleg hne hbits hno

theorem execAll_self_run (e : Event) {ledger after : Ledger} {ops : List Op}
    (h : execAll e.legs ledger ops = some after) :
    CompleteSet.Run e.outcomes (e.position ledger) (e.position after) := by
  apply Runs.execAll_invariant (p := fun next =>
    CompleteSet.Run e.outcomes (e.position ledger) (e.position next)) _ h .refl
  intro mid op next hexec hrun
  exact hrun.tail (exec_self_step e hexec)

theorem credited_le_value (e : Event) {ledger after : Ledger} {ops : List Op}
    (h : execAll e.legs ledger ops = some after) :
    e.credited after ≤ e.credited ledger + e.value ledger :=
  CompleteSet.cash_le_value (execAll_self_run e h)

/-- When every leg has a condition id, no sequence of operations on the event credits
more than the planned proceeds. -/
theorem no_ops_beat_proceeds (e : Event) (hcid : ∀ l ∈ e.legs, l.conditionId.isSome = true)
    (ledger : Ledger) (htotal : e.totalNo ledger < wordSize) (singleLegMinQtyRaw : Nat)
    (ops : List Op) (after : Ledger) (hrun : execAll e.legs ledger ops = some after) :
    e.credited after ≤ e.credited ledger +
      (planEventFromBalances e.legs (ledger.pairs e.legs) singleLegMinQtyRaw).proceeds := by
  have hvalue : (planEventFromBalances e.legs (ledger.pairs e.legs) singleLegMinQtyRaw).proceeds =
      e.value ledger := proceeds_eq_value e ledger singleLegMinQtyRaw hcid htotal
  rw [hvalue]
  exact credited_le_value e hrun

/-- One convert over all three legs frees 6 of the 8 the plan gets. -/
theorem no_ops_beat_proceeds_threeLegs :
    let e := Event.numbered 0 3 (by decide)
    let ledger : Ledger := ⟨fun q => if questionIndex q = 0 then 3 else 5, fun _ => 0, fun _ => 0⟩
    ∃ after, execAll e.legs ledger [.convert (FixedBytes.zero 32) 7 3] = some after ∧
      e.credited after = 6 ∧ e.credited after ≤ e.credited ledger +
        (planEventFromBalances e.legs (ledger.pairs e.legs) 0).proceeds := by
  intro e ledger
  have hrun : ∃ after, execAll e.legs ledger [.convert (FixedBytes.zero 32) 7 3] = some after ∧
      e.credited after = 6 := ⟨_, rfl, rfl⟩
  obtain ⟨after, hexec, hcredit⟩ := hrun
  refine ⟨after, hexec, hcredit, ?_⟩
  exact no_ops_beat_proceeds e (by decide) ledger (by decide) 0 _ after hexec

end Eggplant.Convert
