import Eggplant.Redeem.Submit

/-!
# What a redemption rests on

The conditions are redeemed in the order of their first rows, each for the balances
of tokens its own rows carry, and each in one call. The amounts do not enter the
call: they only choose the index sets of a negRisk condition.
-/
namespace Eggplant.Redeem

set_option autoImplicit false

open Eggplant.Lib Eggplant.Lib.Words
open Eggplant.Convert (DepositWalletCall)

/-- The place of the first row that files under a condition. -/
def firstRow (parse : Parsers) (positions : List Position) (cid : B256) : Nat :=
  positions.findIdx (fun p => decide ((rowIds parse p).map Prod.fst = some cid))

/-! ## Order -/

section Order
variable {parse : Parsers}

theorem mem_order_iff {positions : List Position} {cid : B256} :
    cid ∈ (grouping parse positions).order ↔ firstRow parse positions cid < positions.length := by
  rw [mem_order, grouping_byCond, Option.isSome_map, List.isSome_head?, firstRow,
    List.findIdx_lt_length, rowsOf, ne_eq, List.filter_eq_nil_iff]
  simp

theorem firstRow_concat {positions : List Position} {cid : B256} (p : Position)
    (h : cid ∈ (grouping parse positions).order) :
    firstRow parse (positions ++ [p]) cid = firstRow parse positions cid := by
  have hlt := mem_order_iff.mp h
  rw [firstRow] at hlt ⊢
  rw [List.findIdx_append, if_pos hlt]
  rfl

/-- A new condition's first row is the last one read. -/
theorem length_le_firstRow_concat {positions : List Position} {cid : B256} (p : Position)
    (h : cid ∉ (grouping parse positions).order) :
    positions.length ≤ firstRow parse (positions ++ [p]) cid := by
  rw [mem_order_iff, firstRow] at h
  rw [firstRow, List.findIdx_append, if_neg h]
  omega

/-- Conditions are listed by their first rows. The induction is on the rows, last one first. -/
theorem order_firstRow (positions : List Position) :
    (grouping parse positions).order.Pairwise (fun a b =>
      firstRow parse positions a < firstRow parse positions b) := by
  induction positions using List.reverseRecOn with
  | nil => exact .nil
  | append_singleton positions p ih =>
    have hold : (grouping parse positions).order.Pairwise (fun a b =>
        firstRow parse (positions ++ [p]) a < firstRow parse (positions ++ [p]) b) := by
      refine ih.imp_of_mem ?_
      intro a b ha hb hab
      rwa [firstRow_concat p ha, firstRow_concat p hb]
    rw [grouping_concat, groupRow]
    cases hids : rowIds parse p with
    | none => exact hold
    | some ids =>
      obtain ⟨cid, asset⟩ := ids
      simp only [Grouping.entry]
      cases hg : (grouping parse positions).byCond cid with
      | some group => exact hold
      | none =>
        have hnew : cid ∉ (grouping parse positions).order := by
          rw [mem_order, hg]
          exact Bool.false_ne_true
        refine List.pairwise_append.mpr ⟨hold, List.pairwise_singleton _ _, ?_⟩
        intro a ha b hb
        rw [List.mem_singleton.mp hb, firstRow_concat p ha]
        exact lt_of_lt_of_le (mem_order_iff.mp ha) (length_le_firstRow_concat p hnew)

end Order

/-! ## Amounts -/

/-- The balance of a token that some row of the condition carries under the label, and
zero when no row of it has the label. -/
def LabelledBalance (parse : Parsers) (positions : List Position) (balances : Nat → Option Nat)
    (cid : B256) (label : String) (amount : Nat) : Prop :=
  (∃ p ∈ positions, ∃ asset, rowIds parse p = some (cid, asset) ∧
    eqIgnoreAsciiCase p.outcome label = true ∧ amount = (balances asset).getD 0) ∨
  ((∀ p ∈ positions, ∀ asset, rowIds parse p = some (cid, asset) →
    eqIgnoreAsciiCase p.outcome label = false) ∧ amount = 0)

/-- What a redemption claims of its rows and their balances. -/
structure Sound (parse : Parsers) (positions : List Position) (balances : Nat → Option Nat)
    (minRaw : Nat) (r : Redemption) : Prop where
  path : (rowsOf parse r.conditionId positions).head?.map (·.negativeRisk) = some r.negRisk
  yes : LabelledBalance parse positions balances r.conditionId "yes" r.yesAmount
  no : LabelledBalance parse positions balances r.conditionId "no" r.noAmount
  nonzero : r.yesAmount + r.noAmount ≠ 0
  floor : minRaw ≤ r.yesAmount + r.noAmount

theorem labelledToken_eq_some {parse : Parsers} {cid : B256} {label : String} {p : Position}
    {asset : Nat} :
    labelledToken parse cid label p = some asset ↔
      rowIds parse p = some (cid, asset) ∧ eqIgnoreAsciiCase p.outcome label = true := by
  unfold labelledToken
  cases rowIds parse p with
  | none => simp
  | some ids =>
    obtain ⟨c, token⟩ := ids
    by_cases hc : c = cid
    · subst hc
      by_cases hl : eqIgnoreAsciiCase p.outcome label = true
      · simp [hl]
      · simp [hl]
    · simp [hc]

/-- A side is worth what the last row with its label says. -/
theorem held_lastToken (parse : Parsers) (positions : List Position)
    (balances : Nat → Option Nat) (cid : B256) (label : String) :
    LabelledBalance parse positions balances cid label
      (held balances (lastToken parse cid label positions)) := by
  unfold lastToken
  cases hlast : (positions.filterMap (labelledToken parse cid label)).getLast? with
  | none =>
    right
    refine ⟨?_, rfl⟩
    intro p hp asset hids
    have hnil := List.getLast?_eq_none_iff.mp hlast
    have hnone := List.filterMap_eq_nil_iff.mp hnil p hp
    rw [Bool.eq_false_iff]
    intro hlabel
    rw [labelledToken_eq_some.mpr ⟨hids, hlabel⟩] at hnone
    cases hnone
  | some asset =>
    left
    obtain ⟨p, hp, htoken⟩ := List.mem_filterMap.mp (List.mem_of_getLast? hlast)
    obtain ⟨hids, hlabel⟩ := labelledToken_eq_some.mp htoken
    exact ⟨p, hp, asset, hids, hlabel, rfl⟩

theorem saturatingAdd_le (a b : Nat) : U256.saturatingAdd a b ≤ a + b := Nat.min_le_left _ _

theorem sound_of_mem {parse : Parsers} {positions : List Position} {balances : Nat → Option Nat}
    {minRaw : Nat} {r : Redemption}
    (h : r ∈ buildRedemptions (groupRedeemable parse positions) balances minRaw) :
    Sound parse positions balances minRaw r := by
  obtain ⟨group, hgroup, hbuild⟩ := List.mem_filterMap.mp h
  have hby := mem_groupRedeemable.mp hgroup
  rw [grouping_byCond] at hby
  obtain ⟨first, hfirst, hg⟩ := Option.map_eq_some_iff.mp hby
  rw [← hg] at hbuild
  unfold buildRedemption at hbuild
  simp only at hbuild
  split at hbuild
  next htotal =>
    obtain ⟨hnonzero, hfloor⟩ := htotal
    obtain rfl := Option.some.inj hbuild
    have hle := saturatingAdd_le (held balances (lastToken parse group.conditionId "yes" positions))
      (held balances (lastToken parse group.conditionId "no" positions))
    exact
      { path := by rw [hfirst]; rfl
        yes := held_lastToken parse positions balances _ "yes"
        no := held_lastToken parse positions balances _ "no"
        nonzero := by simp only; omega
        floor := hfloor.trans hle }
  next => cases hbuild

/-! ## Calls -/

/-- `redeemPositions(address,bytes32,bytes32,uint256[])`. -/
def redeemPositionsTypes : List Abi.ArgType := [.word, .word, .word, .words]

/-- The call asks `target` to redeem `indexSets` of a condition for a collateral token. -/
def Redeems (target token : Address) (conditionId : B256) (indexSets : List Nat)
    (call : DepositWalletCall) : Prop :=
  call.target = target ∧
    Abi.decodeCall Convert.redeemPositionsSelector redeemPositionsTypes call.data =
      some [.word token.toWord, .word (FixedBytes.zero 32), .word conditionId,
        .words (indexSets.map Word.ofNat)]

/-- Index set 1 is the Yes side of a condition, index set 2 its No side. -/
structure HeldSides (r : Redemption) (indexSets : List Nat) : Prop where
  nonempty : indexSets ≠ []
  nodup : indexSets.Nodup
  mem_iff : ∀ side, side ∈ indexSets ↔
    (side = 1 ∧ 0 < r.yesAmount) ∨ (side = 2 ∧ 0 < r.noAmount)

/-- Where a redemption goes and what it asks for. -/
structure Routed (ctfCollateral : Address) (r : Redemption) (call : DepositWalletCall) :
    Prop where
  adapter : r.negRisk = true → ∃ sides, HeldSides r sides ∧
    Redeems Chain.negRiskCollateralAdapter Chain.collateral r.conditionId sides call
  ctf : r.negRisk = false → Redeems Chain.ctf ctfCollateral r.conditionId [1, 2] call

theorem buildRedeemCalldataCtf_decodes (target token : Address) (conditionId : B256)
    {indexSets : List Nat} (h : indexSets.length ≤ 2) :
    Redeems target token conditionId indexSets
      { target, data := Convert.buildRedeemCalldataCtf token conditionId indexSets } := by
  refine ⟨rfl, ?_⟩
  have hlen : (Abi.encode [.word token.toWord, .word (FixedBytes.zero 32), .word conditionId,
      .words (indexSets.map Word.ofNat)]).length < wordSize := by
    have hsmall : (224 : Nat) < wordSize := by decide
    refine lt_of_le_of_lt ?_ hsmall
    simp only [Abi.encode, Abi.heads_length, Abi.tails, Abi.tailOf, List.flatMap_cons,
      List.flatMap_nil, List.length_append, List.length_cons, List.length_nil,
      Abi.wordsBytes_length, List.length_map, FixedBytes.length_eq]
    omega
  exact Abi.decodeCall_encodeCall Convert.redeemPositionsSelector _ hlen

/-- The sides a negRisk redemption lists are those held. -/
theorem heldSides (r : Redemption) (h : r.yesAmount + r.noAmount ≠ 0) :
    HeldSides r
      ((if 0 < r.yesAmount then [1] else []) ++ (if 0 < r.noAmount then [2] else [])) := by
  by_cases hyes : 0 < r.yesAmount
  · by_cases hno : 0 < r.noAmount
    · rw [if_pos hyes, if_pos hno]
      exact ⟨by decide, by decide, by simp [hyes, hno]⟩
    · rw [if_pos hyes, if_neg hno]
      exact ⟨by decide, by decide, by simp [hyes, hno]⟩
  · have hno : 0 < r.noAmount := by omega
    rw [if_neg hyes, if_pos hno]
    exact ⟨by decide, by decide, by simp [hyes, hno]⟩

theorem routed (ctfCollateral : Address) {r : Redemption} (h : r.yesAmount + r.noAmount ≠ 0) :
    Routed ctfCollateral r (buildCall ctfCollateral r) where
  adapter := by
    intro hneg
    refine ⟨_, heldSides r h, ?_⟩
    rw [buildCall, if_pos hneg]
    exact buildRedeemCalldataCtf_decodes _ _ _ (by split <;> split <;> decide)
  ctf := by
    intro hneg
    rw [buildCall, if_neg (by rw [hneg]; exact Bool.false_ne_true)]
    exact buildRedeemCalldataCtf_decodes _ _ _ (by decide)

/-- Each condition is redeemed once, in the order of the first rows, for the balances of
its own labelled tokens, in one call for the sides those balances hold. -/
theorem redemptions_sound (parse : Parsers) (positions : List Position)
    (balances : Nat → Option Nat) (minRaw : Nat) (ctfCollateral : Address) :
    let redemptions := buildRedemptions (groupRedeemable parse positions) balances minRaw
    (redemptions.map (·.conditionId)).Nodup ∧
    (redemptions.map (·.conditionId)).Pairwise (fun a b =>
      firstRow parse positions a < firstRow parse positions b) ∧
    (∀ r ∈ redemptions, Sound parse positions balances minRaw r) ∧
    List.Forall₂ (Routed ctfCollateral) redemptions (buildCalls redemptions ctfCollateral) := by
  intro redemptions
  refine ⟨buildRedemptions_nodup parse positions balances minRaw, ?_, fun r hr => sound_of_mem hr,
    ?_⟩
  · have hsub := (buildRedemptions_sublist (groupRedeemable parse positions) balances minRaw).trans
      (groupRedeemable_sublist parse positions)
    exact (order_firstRow positions).sublist hsub
  · rw [buildCalls, List.forall₂_map_right_iff, List.forall₂_same]
    intro r hr
    exact routed ctfCollateral (sound_of_mem hr).nonzero

end Eggplant.Redeem
