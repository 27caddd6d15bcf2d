import Mathlib.Data.Rat.Cast.Order
import Eggplant.Convert.Execute
import Eggplant.Sweep.LegSizes

/-!
# The scan's classifier against the planner

The sweep classifies Data API sizes; the engine plans raw balances. Leg by leg the
scan's tally counts what the planner's loop pushes, so the two agree on every event
whose rows report its balances.
-/
namespace Eggplant.Sweep

set_option autoImplicit false

open Eggplant.Lib.Words Eggplant.Convert

structure EventClassification where
  mergePairs : Nat
  mergeShares : Rat
  convertLegs : Nat
  convertMinNo : Rat
  mergeable : Bool
  convertible : Bool
  deriving DecidableEq

def EventClassification.actionable (c : EventClassification) : Bool := c.mergeable || c.convertible

/-- The loop variables of `classify_event`; `minNo` starts at infinity, here `none`. -/
structure Tally where
  mergePairs : Nat
  mergeShares : Rat
  convertLegs : Nat
  minNo : Option Rat

def lowerMin (minNo : Option Rat) (remainingNo : Rat) : Option Rat :=
  some ((minNo.map (fun m => min m remainingNo)).getD remainingNo)

def tallyLeg (acc : Tally) (row : ConvertLeg × Rat × Rat) : Tally :=
  let (leg, no, yes) := row
  let acc :=
    if 0 < no ∧ 0 < yes ∧ leg.conditionId.isSome then
      { acc with
        mergePairs := acc.mergePairs + 1
        mergeShares := acc.mergeShares + min no yes }
    else acc
  let remainingNo := no - min no yes
  if 0 < remainingNo then
    { acc with
      convertLegs := acc.convertLegs + 1
      minNo := lowerMin acc.minNo remainingNo }
  else acc

def classifyEvent (legs : List ConvertLeg) (sizes : List (Rat × Rat)) (singleLegMinQty : Rat) :
    EventClassification :=
  let t := (legs.zip sizes).foldl tallyLeg ⟨0, 0, 0, none⟩
  { mergePairs := t.mergePairs
    mergeShares := t.mergeShares
    convertLegs := t.convertLegs
    convertMinNo := t.minNo.getD 0
    mergeable := decide (0 < t.mergePairs)
    convertible := decide (1 < t.convertLegs) ||
      (decide (t.convertLegs = 1) && t.minNo.all (fun m => decide (singleLegMinQty ≤ m))) }

/-! ## Shares and raw amounts -/

/-- A raw 6-decimal amount in shares. -/
def toShares (raw : Nat) : Rat := (raw : Rat) / 10 ^ 6

theorem toShares_le {a b : Nat} : toShares a ≤ toShares b ↔ a ≤ b := by
  unfold toShares
  rw [div_le_div_iff_of_pos_right (by norm_num), Nat.cast_le]

theorem toShares_pos {a : Nat} : 0 < toShares a ↔ 0 < a := by
  have h := not_congr (toShares_le (a := a) (b := 0))
  rwa [not_le, not_le, toShares, Nat.cast_zero, zero_div] at h

theorem toShares_zero : toShares 0 = 0 := by
  rw [toShares, Nat.cast_zero, zero_div]

theorem toShares_add (a b : Nat) : toShares (a + b) = toShares a + toShares b := by
  rw [toShares, Nat.cast_add, add_div]
  rfl

theorem toShares_sub {a b : Nat} (h : b ≤ a) : toShares (a - b) = toShares a - toShares b := by
  rw [toShares, Nat.cast_sub h, sub_div]
  rfl

theorem toShares_min (a b : Nat) : toShares (min a b) = min (toShares a) (toShares b) := by
  have hmono : Monotone toShares := fun _ _ h => toShares_le.mpr h
  exact hmono.map_min

/-! ## The tally counts what the planner pushes -/

def shareRow (row : ConvertLeg × Nat × Nat) : ConvertLeg × Rat × Rat :=
  (row.1, toShares row.2.1, toShares row.2.2)

def tallyOf (acc : List (B256 × Nat) × List NoHolding) : Tally where
  mergePairs := acc.1.length
  mergeShares := toShares (acc.1.map (·.2)).sum
  convertLegs := acc.2.length
  minNo := (acc.2.map (fun h => toShares h.remainingNo)).foldl lowerMin none

theorem tallyOf_merge (merges : List (B256 × Nat)) (holdings : List NoHolding) (m : B256 × Nat) :
    tallyOf (merges ++ [m], holdings) =
      { tallyOf (merges, holdings) with
        mergePairs := (tallyOf (merges, holdings)).mergePairs + 1
        mergeShares := (tallyOf (merges, holdings)).mergeShares + toShares m.2 } := by
  simp [tallyOf, toShares_add]

theorem tallyOf_holding (merges : List (B256 × Nat)) (holdings : List NoHolding) (h : NoHolding) :
    tallyOf (merges, holdings ++ [h]) =
      { tallyOf (merges, holdings) with
        convertLegs := (tallyOf (merges, holdings)).convertLegs + 1
        minNo := lowerMin (tallyOf (merges, holdings)).minNo (toShares h.remainingNo) } := by
  simp [tallyOf, List.foldl_append]

theorem tallyLeg_tallyOf (acc : List (B256 × Nat) × List NoHolding) (row : ConvertLeg × Nat × Nat) :
    tallyLeg (tallyOf acc) (shareRow row) = tallyOf (classifyLeg acc row) := by
  obtain ⟨merges, holdings⟩ := acc
  obtain ⟨leg, no, yes⟩ := row
  have hmin : min (toShares no) (toShares yes) = toShares (min yes no) := by
    rw [min_comm, toShares_min]
  have hrem : toShares no - toShares (min yes no) = toShares (no - min yes no) :=
    (toShares_sub (min_le_right yes no)).symm
  have hmerge : (if 0 < no ∧ 0 < yes ∧ leg.conditionId.isSome then
        { tallyOf (merges, holdings) with
          mergePairs := (tallyOf (merges, holdings)).mergePairs + 1
          mergeShares := (tallyOf (merges, holdings)).mergeShares + toShares (min yes no) }
      else tallyOf (merges, holdings)) =
      tallyOf ((classifyLeg (merges, holdings) (leg, no, yes)).1, holdings) := by
    by_cases hboth : 0 < yes ∧ 0 < no
    · cases hcid : leg.conditionId with
      | none => simp [classifyLeg, hcid]
      | some cid => simp [classifyLeg, hcid, hboth, tallyOf_merge]
    · have hskip : ¬ (0 < no ∧ 0 < yes ∧ leg.conditionId.isSome) := fun h => hboth ⟨h.2.1, h.1⟩
      rw [if_neg hskip, classifyLeg, if_neg hboth]
  simp only [tallyLeg, shareRow, hmin, hrem, toShares_pos, hmerge]
  by_cases hleft : 0 < no - min yes no
  · rw [if_pos hleft]
    simp only [classifyLeg, if_pos hleft, tallyOf_holding]
  · rw [if_neg hleft]
    simp only [classifyLeg, if_neg hleft]

theorem tally_eq (legs : List ConvertLeg) (pairs : List (Nat × Nat)) :
    (legs.zip (pairs.map (Prod.map toShares toShares))).foldl tallyLeg ⟨0, 0, 0, none⟩ =
      tallyOf (Convert.classifyEvent legs pairs) := by
  have hrows : legs.zip (pairs.map (Prod.map toShares toShares)) = (legs.zip pairs).map shareRow := by
    rw [List.zip_map_right]
    rfl
  have hstart : (⟨0, 0, 0, none⟩ : Tally) = tallyOf ([], []) := by
    simp [tallyOf, toShares_zero]
  rw [hrows, List.foldl_map, hstart]
  exact List.foldl_hom tallyOf tallyLeg_tallyOf

/-- The scan converts exactly where the planner has a tier. -/
theorem convertible_iff (legs : List ConvertLeg) (pairs : List (Nat × Nat)) (floorRaw maxLegs : Nat) :
    (classifyEvent legs (pairs.map (Prod.map toShares toShares)) (toShares floorRaw)).convertible =
        true ↔
      planTiers (Convert.classifyEvent legs pairs).2 floorRaw maxLegs ≠ [] := by
  rw [classifyEvent, tally_eq, Ne, planTiers_eq_nil]
  generalize (Convert.classifyEvent legs pairs) = acc
  obtain ⟨merges, holdings⟩ := acc
  match holdings with
  | [] => simp [tallyOf]
  | [h] => simp [tallyOf, lowerMin, toShares_le]
  | h :: k :: rest => simp [tallyOf]

/-! ## Agreement -/

/-- The rows of the event's tokens report the balances: one row per held token. -/
structure RowsReport (parse : Parsers) (legs : List ConvertLeg) (bal : Nat → Nat)
    (positions : List Position) : Prop where
  held : ∀ t ∈ batchTokenIds legs, bal t ≠ 0 →
    (rowsOfToken parse t positions).map (·.size) = [toShares (bal t)]
  unheld : ∀ t ∈ batchTokenIds legs, bal t = 0 → ∀ p ∈ rowsOfToken parse t positions, p.size = 0

section Report
variable {parse : Parsers} {legs : List ConvertLeg} {bal : Nat → Nat} {positions : List Position}
  (hrows : RowsReport parse legs bal positions)
include hrows

theorem tokenShares_report {t : Nat} (ht : t ∈ batchTokenIds legs) :
    tokenShares parse t positions = toShares (bal t) := by
  by_cases hb : bal t = 0
  · rw [hb, toShares_zero]
    apply List.sum_eq_zero
    intro size hsize
    obtain ⟨p, hp, rfl⟩ := List.mem_map.mp hsize
    exact hrows.unheld t ht hb p hp
  · rw [tokenShares, hrows.held t ht hb, List.sum_singleton]

theorem legSizes_report (hids : (batchTokenIds legs).Nodup) :
    legSizes parse legs positions =
      (legs.map (legPair bal)).map (Prod.map toShares toShares) := by
  rw [legSizes_eq hids, List.map_map]
  apply List.map_congr_left
  intro leg hleg
  have hno := tokenShares_report hrows (noTokenId_mem hleg)
  cases hy : leg.yesTokenId with
  | none => simp [legShares, legPair, hy, hno, toShares_zero]
  | some y =>
    have hyes := tokenShares_report hrows (yesTokenId_mem hleg hy)
    simp [legShares, legPair, hy, hno, hyes]

end Report

/-- The scan and the planner agree on the work of an event: how many merges, for how
many shares, whether a convert is worth a tier, and so whether any call is planned. -/
theorem scan_agrees_with_plan (parse : Parsers) (legs : List ConvertLeg)
    (hids : (batchTokenIds legs).Nodup) (bal : Nat → Nat)
    (hbal : ∀ t ∈ batchTokenIds legs, bal t < wordSize) (positions : List Position)
    (hrows : RowsReport parse legs bal positions) (floorRaw : Nat) :
    ∃ pairs calls, unpackBalances legs ((batchTokenIds legs).map bal) = .ok pairs ∧
      planCalls [planEventFromBalances legs pairs floorRaw] = .ok calls ∧
      let scan := classifyEvent legs (legSizes parse legs positions) (toShares floorRaw)
      let plan := planEventFromBalances legs pairs floorRaw
      scan.mergePairs = plan.merges.length ∧
      scan.mergeShares = toShares (plan.merges.map (·.2)).sum ∧
      (scan.convertible = true ↔ plan.tiers ≠ []) ∧
      (scan.actionable = true ↔ calls ≠ []) := by
  have henc : ∀ p ∈ [planEventFromBalances legs (legs.map (legPair bal)) floorRaw], Encodable p := by
    intro p hp
    rw [List.mem_singleton.mp hp]
    apply planEvent_encodable
    intro pair hpair
    obtain ⟨leg, hleg, rfl⟩ := List.mem_map.mp hpair
    exact hbal _ (noTokenId_mem hleg)
  obtain ⟨calls, hcalls, _⟩ := planCalls_ok _ henc
  refine ⟨_, calls, unpackBalances_batch bal legs, hcalls, ?_⟩
  intro scan plan
  have htally : scan.mergePairs = plan.merges.length ∧
      scan.mergeShares = toShares (plan.merges.map (·.2)).sum := by
    simp only [scan, plan, legSizes_report hrows hids, classifyEvent, tally_eq]
    exact ⟨rfl, rfl⟩
  have hconvert : scan.convertible = true ↔ plan.tiers ≠ [] := by
    simp only [scan, plan, legSizes_report hrows hids]
    exact convertible_iff legs _ floorRaw maxLegsPerConvert
  have hmergeable : scan.mergeable = true ↔ plan.merges ≠ [] := by
    rw [← List.length_pos_iff, ← htally.1]
    exact decide_eq_true_iff
  have hnil : calls = [] ↔ plan.merges = [] ∧ plan.tiers = [] := by
    have h := planCalls_nil_iff henc
    rwa [hcalls, Except.ok.injEq, List.forall_mem_singleton] at h
  refine ⟨htally.1, htally.2, hconvert, ?_⟩
  rw [EventClassification.actionable, Bool.or_eq_true, hmergeable, hconvert]
  exact not_and_or.symm.trans (not_congr hnil).symm

/-- Three legs, one with both sides held, and the rows of a wallet with another event. -/
theorem scan_agrees_with_plan_threeLegs :
    let parse : Parsers := ⟨fun s => if s = "512" then some 512 else if s = "513" then some 513
      else if s = "514" then some 514 else if s = "9" then some 9 else none, fun _ => none⟩
    let legs := (Event.numbered 1 3 (by decide)).legs
    let bal (t : Nat) : Nat :=
      if t = 512 then 10000000 else if t = 513 then 4000000 else if t = 514 then 7000000 else 0
    let positions : List Position := [⟨"514", 7, "", "No", true⟩, ⟨"9", 5, "", "Yes", true⟩,
      ⟨"513", 4, "", "Yes", true⟩, ⟨"512", 10, "", "No", true⟩]
    let scan := classifyEvent legs (legSizes parse legs positions) (toShares 100000)
    scan.mergePairs = 1 ∧ scan.mergeShares = toShares 4000000 ∧ scan.convertible = true ∧
      ∃ calls, planCalls [planEventFromBalances legs (legs.map (legPair bal)) 100000] = .ok calls ∧
        calls ≠ [] := by
  intro parse legs bal positions scan
  have hreport : RowsReport parse legs bal positions :=
    ⟨by decide +kernel, by decide +kernel⟩
  obtain ⟨pairs, calls, hpairs, hcalls, hpairsEq, hshares, hconvert, hwork⟩ :=
    scan_agrees_with_plan parse legs (by decide +kernel) bal (by decide +kernel) positions hreport 100000
  obtain rfl : legs.map (legPair bal) = pairs :=
    Except.ok.inj ((unpackBalances_batch bal legs).symm.trans hpairs)
  have htiers := hconvert.mpr (by decide +kernel)
  refine ⟨hpairsEq, hshares, htiers, calls, hcalls, hwork.mp ?_⟩
  rw [EventClassification.actionable, htiers, Bool.or_true]

end Eggplant.Sweep
