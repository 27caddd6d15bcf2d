import Mathlib.Algebra.BigOperators.Group.List.Basic
import Eggplant.Lib.Table
import Eggplant.Data
import Eggplant.Convert.Balances

/-!
# Held shares per leg

`leg_sizes` writes every token of an event into a map to its leg and side, and adds
each position row to the side its token names. Where the token ids are distinct the
result is, leg by leg, the sum of the rows of the leg's NO and YES tokens.
-/
namespace Eggplant.Sweep

set_option autoImplicit false

open Eggplant.Lib Eggplant.Convert

/-- Where a token sits: the leg's index, and whether it is the NO side. -/
abbrev Slot := Nat × Bool

def indexLeg (byToken : Table Nat Slot) (row : ConvertLeg × Nat) : Table Nat Slot :=
  let byToken := byToken.insert row.1.noTokenId (row.2, true)
  match row.1.yesTokenId with
  | some y => byToken.insert y (row.2, false)
  | none => byToken

def tokenIndex (legs : List ConvertLeg) : Table Nat Slot :=
  legs.zipIdx.foldl indexLeg Table.empty

def addSize (size : Rat) (isNo : Bool) (held : Rat × Rat) : Rat × Rat :=
  if isNo then (held.1 + size, held.2) else (held.1, held.2 + size)

def addPosition (parse : Parsers) (byToken : Table Nat Slot) (sizes : List (Rat × Rat))
    (p : Position) : List (Rat × Rat) :=
  match parse.u256 p.asset with
  | none => sizes
  | some tid =>
      match byToken tid with
      | none => sizes
      | some (i, isNo) => sizes.modify i (addSize p.size isNo)

/-- Per leg `(no_shares, yes_shares)`, in leg order. -/
def legSizes (parse : Parsers) (legs : List ConvertLeg) (positions : List Position) :
    List (Rat × Rat) :=
  positions.foldl (addPosition parse (tokenIndex legs)) (List.replicate legs.length (0, 0))

/-! ## The token index -/

def legEntries (row : ConvertLeg × Nat) : List (Nat × Slot) :=
  (row.1.noTokenId, (row.2, true)) :: row.1.yesTokenId.toList.map (fun y => (y, (row.2, false)))

def tokenEntries (legs : List ConvertLeg) : List (Nat × Slot) := legs.zipIdx.flatMap legEntries

theorem tokenIndex_eq (legs : List ConvertLeg) :
    tokenIndex legs = Table.insertAll Table.empty (tokenEntries legs) := by
  have hleg (byToken : Table Nat Slot) (row : ConvertLeg × Nat) :
      indexLeg byToken row = Table.insertAll byToken (legEntries row) := by
    cases hy : row.1.yesTokenId <;> simp [indexLeg, Table.insertAll, legEntries, hy]
  rw [tokenIndex, tokenEntries, Table.insertAll, List.foldl_flatMap]
  congr 1
  funext byToken row
  exact hleg byToken row

theorem tokenEntries_keys (legs : List ConvertLeg) :
    (tokenEntries legs).map Prod.fst = batchTokenIds legs := by
  have hleg (row : ConvertLeg × Nat) :
      (legEntries row).map Prod.fst = row.1.noTokenId :: row.1.yesTokenId.toList := by
    simp [legEntries, Function.comp_def]
  have hlegs : legs = legs.zipIdx.map Prod.fst := (List.zipIdx_map_fst 0 legs).symm
  rw [tokenEntries, List.map_flatMap, batchTokenIds]
  conv_rhs => rw [hlegs, List.flatMap_map]
  exact List.flatMap_congr (fun row _ => hleg row)

theorem mem_tokenEntries {legs : List ConvertLeg} {t i : Nat} {isNo : Bool} :
    (t, (i, isNo)) ∈ tokenEntries legs ↔
      ∃ leg, legs[i]? = some leg ∧ (if isNo then leg.noTokenId = t else leg.yesTokenId = some t) := by
  rw [tokenEntries, List.mem_flatMap]
  constructor
  · intro h
    obtain ⟨⟨leg, j⟩, hmem, hentry⟩ := h
    have hj := List.mem_zipIdx_iff_getElem?.mp hmem
    rcases List.mem_cons.mp hentry with h | h
    · obtain ⟨rfl, rfl, rfl⟩ : t = leg.noTokenId ∧ i = j ∧ isNo = true := by simpa using h
      exact ⟨leg, hj, by simp⟩
    · obtain ⟨y, hy, h⟩ := List.mem_map.mp h
      obtain ⟨rfl, rfl, rfl⟩ : y = t ∧ j = i ∧ false = isNo := by simpa using h
      exact ⟨leg, hj, by simpa using hy⟩
  · intro h
    obtain ⟨leg, hi, hside⟩ := h
    refine ⟨(leg, i), List.mem_zipIdx_iff_getElem?.mpr hi, ?_⟩
    cases isNo with
    | true =>
      have hno : leg.noTokenId = t := hside
      simp [legEntries, hno]
    | false =>
      have hyes : leg.yesTokenId = some t := hside
      simp [legEntries, hyes]

/-! ## The rows of a token -/

def rowsOfToken (parse : Parsers) (t : Nat) (positions : List Position) : List Position :=
  positions.filter (fun p => parse.u256 p.asset = some t)

def tokenShares (parse : Parsers) (t : Nat) (positions : List Position) : Rat :=
  ((rowsOfToken parse t positions).map (·.size)).sum

def legShares (shares : Nat → Rat) (leg : ConvertLeg) : Rat × Rat :=
  (shares leg.noTokenId, (leg.yesTokenId.map shares).getD 0)

theorem tokenShares_concat (parse : Parsers) (t : Nat) (positions : List Position) (p : Position) :
    tokenShares parse t (positions ++ [p]) =
      tokenShares parse t positions + if parse.u256 p.asset = some t then p.size else 0 := by
  unfold tokenShares rowsOfToken
  rw [List.filter_append, List.map_append, List.sum_append]
  by_cases h : parse.u256 p.asset = some t <;> simp [h]

theorem legShares_congr {shares shares' : Nat → Rat} {leg : ConvertLeg}
    (hno : shares' leg.noTokenId = shares leg.noTokenId)
    (hyes : ∀ y, leg.yesTokenId = some y → shares' y = shares y) :
    legShares shares' leg = legShares shares leg := by
  unfold legShares
  rw [hno]
  cases hy : leg.yesTokenId with
  | none => rfl
  | some y => rw [Option.map_some, Option.map_some, hyes y hy]

section Distinct
variable {legs : List ConvertLeg} (hids : (batchTokenIds legs).Nodup)
include hids

theorem tokenIndex_eq_some {t : Nat} {slot : Slot} :
    tokenIndex legs t = some slot ↔ (t, slot) ∈ tokenEntries legs := by
  rw [tokenIndex_eq]
  apply Table.insertAll_eq_some
  rwa [tokenEntries_keys]

/-- A token id names one leg and one side of it. -/
theorem token_ne {t u : Nat} {slot slot' : Slot} (h : (t, slot) ∈ tokenEntries legs)
    (h' : (u, slot') ∈ tokenEntries legs) (hne : slot' ≠ slot) : u ≠ t := by
  have hkeys : ((tokenEntries legs).map Prod.fst).Nodup := by rwa [tokenEntries_keys]
  intro heq
  exact hne (Prod.mk.inj (List.inj_on_of_nodup_map hkeys h' h heq)).2

/-- Adding to the slot of a token changes what its leg holds of it, and no other leg. -/
theorem addSize_slot {shares shares' : Nat → Rat} {t i : Nat} {isNo : Bool} {size : Rat}
    (hslot : (t, (i, isNo)) ∈ tokenEntries legs) (hadd : shares' t = shares t + size)
    (hother : ∀ u, u ≠ t → shares' u = shares u) :
    (legs.map (legShares shares)).modify i (addSize size isNo) = legs.map (legShares shares') := by
  apply List.ext_getElem?
  intro j
  rw [List.getElem?_modify, List.getElem?_map, List.getElem?_map]
  cases hleg : legs[j]? with
  | none => rfl
  | some leg =>
    have hnoEntry : (leg.noTokenId, (j, true)) ∈ tokenEntries legs :=
      mem_tokenEntries.mpr ⟨leg, hleg, rfl⟩
    have hyesEntry {y : Nat} (hy : leg.yesTokenId = some y) : (y, (j, false)) ∈ tokenEntries legs :=
      mem_tokenEntries.mpr ⟨leg, hleg, hy⟩
    by_cases hij : i = j
    · subst hij
      obtain ⟨leg', hleg', hside⟩ := mem_tokenEntries.mp hslot
      obtain rfl : leg = leg' := Option.some.inj (hleg.symm.trans hleg')
      cases isNo with
      | true =>
        have hno : leg.noTokenId = t := hside
        cases hy : leg.yesTokenId with
        | none => simp [legShares, hno, hy, addSize, hadd]
        | some y =>
          have hyes : y ≠ t := token_ne hids hslot (hyesEntry hy) (by simp)
          simp [legShares, hno, hy, addSize, hadd, hother _ hyes]
      | false =>
        have hyes : leg.yesTokenId = some t := hside
        have hno : leg.noTokenId ≠ t := token_ne hids hslot hnoEntry (by simp)
        simp [legShares, hyes, addSize, hadd, hother _ hno]
    · have hne (side : Bool) : ((j, side) : Slot) ≠ (i, isNo) :=
        fun h => hij (congrArg Prod.fst h).symm
      have hno : leg.noTokenId ≠ t := token_ne hids hslot hnoEntry (hne true)
      have hyes (y : Nat) (hy : leg.yesTokenId = some y) : shares' y = shares y :=
        hother y (token_ne hids hslot (hyesEntry hy) (hne false))
      simp [hij, legShares_congr (hother _ hno) hyes]

/-- One more row adds its size to its own token. -/
theorem addPosition_legShares (parse : Parsers) (positions : List Position) (p : Position) :
    addPosition parse (tokenIndex legs)
        (legs.map (legShares (fun t => tokenShares parse t positions))) p =
      legs.map (legShares (fun t => tokenShares parse t (positions ++ [p]))) := by
  have hconcat (t : Nat) := tokenShares_concat parse t positions p
  unfold addPosition
  cases hp : parse.u256 p.asset with
  | none =>
    simp only [hp, reduceCtorEq, if_false, add_zero] at hconcat
    simp only [hconcat]
  | some tid =>
    have hother (u : Nat) (hu : u ≠ tid) :
        tokenShares parse u (positions ++ [p]) = tokenShares parse u positions := by
      rw [hconcat, hp, if_neg (fun h => hu (Option.some.inj h).symm), add_zero]
    dsimp only
    cases hslot : tokenIndex legs tid with
    | none =>
      rw [tokenIndex_eq, Table.insertAll_eq_none, tokenEntries_keys] at hslot
      have hforeign {t : Nat} (ht : t ∈ batchTokenIds legs) : t ≠ tid :=
        fun h => hslot (h ▸ ht)
      apply List.map_congr_left
      intro leg hleg
      refine (legShares_congr (hother _ ?_) (fun y hy => hother y ?_)).symm
      · exact hforeign (noTokenId_mem hleg)
      · exact hforeign (yesTokenId_mem hleg hy)
    | some slot =>
      have hadd : tokenShares parse tid (positions ++ [p]) =
          tokenShares parse tid positions + p.size := by
        rw [hconcat, hp, if_pos rfl]
      exact addSize_slot hids ((tokenIndex_eq_some hids).mp hslot) hadd hother

/-- The rows of a token add up on its own leg and side. -/
theorem legSizes_eq (parse : Parsers) (positions : List Position) :
    legSizes parse legs positions =
      legs.map (legShares (fun t => tokenShares parse t positions)) := by
  induction positions using List.reverseRecOn with
  | nil =>
    have hzero : legShares (fun t => tokenShares parse t []) = fun _ => (0, 0) := by
      funext leg
      cases hy : leg.yesTokenId <;> simp [legShares, tokenShares, rowsOfToken, hy]
    rw [hzero, List.map_const']
    rfl
  | append_singleton positions p ih =>
    rw [legSizes, List.foldl_append, ← legSizes, ih, List.foldl_cons, List.foldl_nil,
      addPosition_legShares hids]

end Distinct

end Eggplant.Sweep
