import Eggplant.Data

/-!
# Grouping redeemable positions

`group_redeemable` files the rows under their conditions, one token a side, and
`build_redemptions` looks the tokens up. A side is found by its label, so a row
labelled neither Yes nor No leaves its condition without that token, and a later
row of the same side replaces an earlier one.
-/
namespace Eggplant.Redeem

set_option autoImplicit false

structure RedeemGroup where
  conditionId : B256
  yesToken : Option Nat
  noToken : Option Nat
  negRisk : Bool
  deriving DecidableEq

structure Redemption where
  conditionId : B256
  yesAmount : Nat
  noAmount : Nat
  negRisk : Bool
  deriving DecidableEq

/-- First-seen condition order, and the group of each condition. -/
structure Grouping where
  order : List B256
  byCond : B256 → Option RedeemGroup

def Grouping.empty : Grouping := { order := [], byCond := fun _ => none }

/-- `entry(cid).or_insert_with(..)`: a new condition is appended to the order. -/
def Grouping.entry (g : Grouping) (cid : B256) (negRisk : Bool) : List B256 × RedeemGroup :=
  match g.byCond cid with
  | some group => (g.order, group)
  | none => (g.order ++ [cid], { conditionId := cid, yesToken := none, noToken := none, negRisk })

def setToken (group : RedeemGroup) (outcome : String) (asset : Nat) : RedeemGroup :=
  if eqIgnoreAsciiCase outcome "yes" then { group with yesToken := some asset }
  else if eqIgnoreAsciiCase outcome "no" then { group with noToken := some asset }
  else group

/-- The ids of a row, when both parse. -/
def rowIds (parse : Parsers) (p : Position) : Option (B256 × Nat) :=
  match parse.hexB256 p.conditionId, parse.u256 p.asset with
  | some cid, some asset => some (cid, asset)
  | _, _ => none

def groupRow (parse : Parsers) (g : Grouping) (p : Position) : Grouping :=
  match rowIds parse p with
  | none => g
  | some (cid, asset) =>
      let (order, group) := g.entry cid p.negativeRisk
      { order, byCond := Function.update g.byCond cid (some (setToken group p.outcome asset)) }

def grouping (parse : Parsers) (positions : List Position) : Grouping :=
  positions.foldl (groupRow parse) Grouping.empty

/-- Each condition stands in the order once, so removing it from the map reads it. -/
def groupRedeemable (parse : Parsers) (positions : List Position) : List RedeemGroup :=
  let g := grouping parse positions
  g.order.filterMap g.byCond

def held (balances : Nat → Option Nat) (token : Option Nat) : Nat := (token.bind balances).getD 0

def buildRedemption (balances : Nat → Option Nat) (minRaw : Nat) (g : RedeemGroup) :
    Option Redemption :=
  let yes := held balances g.yesToken
  let no := held balances g.noToken
  let total := U256.saturatingAdd yes no
  if total ≠ 0 ∧ minRaw ≤ total then
    some { conditionId := g.conditionId, yesAmount := yes, noAmount := no, negRisk := g.negRisk }
  else none

def buildRedemptions (groups : List RedeemGroup) (balances : Nat → Option Nat) (minRaw : Nat) :
    List Redemption :=
  groups.filterMap (buildRedemption balances minRaw)

/-! ## What the grouping holds -/

/-- The rows filed under a condition. -/
def rowsOf (parse : Parsers) (cid : B256) (positions : List Position) : List Position :=
  positions.filter (fun p => decide ((rowIds parse p).map Prod.fst = some cid))

/-- The token a row files under a condition's label. -/
def labelledToken (parse : Parsers) (cid : B256) (label : String) (p : Position) : Option Nat :=
  match rowIds parse p with
  | none => none
  | some (c, asset) =>
      if c = cid ∧ eqIgnoreAsciiCase p.outcome label = true then some asset else none

/-- The token of the last row of a condition with a label. -/
def lastToken (parse : Parsers) (cid : B256) (label : String) (positions : List Position) :
    Option Nat :=
  (positions.filterMap (labelledToken parse cid label)).getLast?

section Grouping
variable {parse : Parsers} {cid : B256}

theorem grouping_concat (positions : List Position) (p : Position) :
    grouping parse (positions ++ [p]) = groupRow parse (grouping parse positions) p := by
  rw [grouping, List.foldl_append]
  rfl

theorem rowsOf_concat (positions : List Position) (p : Position) :
    rowsOf parse cid (positions ++ [p]) = rowsOf parse cid positions ++
      if (rowIds parse p).map Prod.fst = some cid then [p] else [] := by
  rw [rowsOf, List.filter_append, rowsOf]
  by_cases h : (rowIds parse p).map Prod.fst = some cid
  · simp [h]
  · simp [h]

theorem lastToken_concat (label : String) (positions : List Position) (p : Position) :
    lastToken parse cid label (positions ++ [p]) =
      (labelledToken parse cid label p).or (lastToken parse cid label positions) := by
  unfold lastToken
  rw [List.filterMap_append]
  cases h : labelledToken parse cid label p with
  | none => simp [h]
  | some asset => simp [h]

theorem lastToken_none (label : String) {positions : List Position}
    (h : rowsOf parse cid positions = []) : lastToken parse cid label positions = none := by
  rw [lastToken, List.getLast?_eq_none_iff, List.filterMap_eq_nil_iff]
  intro p hp
  have hother := List.filter_eq_nil_iff.mp h p hp
  unfold labelledToken
  cases hids : rowIds parse p with
  | none => rfl
  | some ids =>
    rw [hids, decide_eq_true_eq, Option.map_some, Option.some.injEq] at hother
    simp only
    rw [if_neg (fun hc => hother hc.1)]

private theorem labels_differ {outcome : String} (hyes : eqIgnoreAsciiCase outcome "yes" = true) :
    eqIgnoreAsciiCase outcome "no" = false := by
  unfold eqIgnoreAsciiCase at hyes ⊢
  rw [beq_iff_eq] at hyes
  rw [hyes]
  decide

private theorem setToken_eq (group : RedeemGroup) (p : Position) (asset : Nat)
    (hids : rowIds parse p = some (cid, asset)) :
    setToken group p.outcome asset =
      { group with yesToken := (labelledToken parse cid "yes" p).or group.yesToken
                   noToken := (labelledToken parse cid "no" p).or group.noToken } := by
  unfold setToken labelledToken
  rw [hids]
  by_cases hyes : eqIgnoreAsciiCase p.outcome "yes" = true
  · simp [hyes, labels_differ hyes]
  · by_cases hno : eqIgnoreAsciiCase p.outcome "no" = true
    · simp [hyes, hno]
    · simp [hyes, hno]

/-- A condition's group: the redeem path of its first row, and the token of the last
row of either label. The induction is on the rows, last one first. -/
theorem grouping_byCond (positions : List Position) :
    (grouping parse positions).byCond cid = (rowsOf parse cid positions).head?.map (fun p =>
      { conditionId := cid
        yesToken := lastToken parse cid "yes" positions
        noToken := lastToken parse cid "no" positions
        negRisk := p.negativeRisk }) := by
  induction positions using List.reverseRecOn with
  | nil => rfl
  | append_singleton positions p ih =>
    rw [grouping_concat, groupRow, rowsOf_concat, lastToken_concat, lastToken_concat]
    cases hids : rowIds parse p with
    | none =>
      have hy (label : String) : labelledToken parse cid label p = none := by
        unfold labelledToken
        rw [hids]
      simp [hy, ih]
    | some ids =>
      obtain ⟨c, asset⟩ := ids
      by_cases hc : c = cid
      · subst hc
        simp only [Function.update_self, Option.map_some, if_true, Grouping.entry]
        rw [setToken_eq _ p asset hids, ih]
        cases hhead : (rowsOf parse c positions).head? with
        | none =>
          have hnil := List.head?_eq_none_iff.mp hhead
          simp [hnil, lastToken_none _ hnil]
        | some first => simp [hhead]
      · have hy (label : String) : labelledToken parse cid label p = none := by
          unfold labelledToken
          rw [hids]
          simp only
          rw [if_neg (fun h => hc h.1)]
        have hne : cid ≠ c := fun h => hc h.symm
        simp [hy, ih, hc, Function.update_of_ne hne]

theorem mem_order (positions : List Position) :
    cid ∈ (grouping parse positions).order ↔
      ((grouping parse positions).byCond cid).isSome = true := by
  induction positions using List.reverseRecOn with
  | nil => exact ⟨fun h => (nomatch h), fun h => (nomatch h)⟩
  | append_singleton positions p ih =>
    rw [grouping_concat, groupRow]
    cases hids : rowIds parse p with
    | none => exact ih
    | some ids =>
      obtain ⟨c, asset⟩ := ids
      simp only [Grouping.entry]
      by_cases hc : cid = c
      · subst hc
        rw [Function.update_self]
        cases hg : (grouping parse positions).byCond cid with
        | none => simp
        | some group =>
          rw [hg] at ih
          simpa using ih
      · rw [Function.update_of_ne hc]
        cases hg : (grouping parse positions).byCond c with
        | none => simpa [hc] using ih
        | some group => exact ih

theorem order_nodup (positions : List Position) : (grouping parse positions).order.Nodup := by
  induction positions using List.reverseRecOn with
  | nil => exact List.nodup_nil
  | append_singleton positions p ih =>
    rw [grouping_concat, groupRow]
    cases hids : rowIds parse p with
    | none => exact ih
    | some ids =>
      obtain ⟨c, asset⟩ := ids
      simp only [Grouping.entry]
      cases hg : (grouping parse positions).byCond c with
      | some group => exact ih
      | none =>
        have hnew : c ∉ (grouping parse positions).order := by
          rw [mem_order, hg]
          exact Bool.false_ne_true
        exact List.nodup_append.mpr
          ⟨ih, List.nodup_singleton c, fun a ha b hb heq => hnew (by
            rwa [← List.mem_singleton.mp hb, ← heq])⟩

end Grouping

/-- The groups stand in the order of their conditions. -/
theorem groupRedeemable_sublist (parse : Parsers) (positions : List Position) :
    List.Sublist ((groupRedeemable parse positions).map (·.conditionId))
      (grouping parse positions).order := by
  have hsub (order : List B256) :
      List.Sublist ((order.filterMap (grouping parse positions).byCond).map (·.conditionId))
        order := by
    induction order with
    | nil => exact .slnil
    | cons cid order ih =>
      rw [List.filterMap_cons, grouping_byCond]
      cases (rowsOf parse cid positions).head? with
      | none => exact ih.cons cid
      | some first => exact ih.cons_cons cid
  exact hsub _

/-- The redemptions stand in the order of their groups. -/
theorem buildRedemptions_sublist (groups : List RedeemGroup) (balances : Nat → Option Nat)
    (minRaw : Nat) :
    List.Sublist ((buildRedemptions groups balances minRaw).map (·.conditionId))
      (groups.map (·.conditionId)) := by
  unfold buildRedemptions
  induction groups with
  | nil => exact .slnil
  | cons g groups ih =>
    rw [List.filterMap_cons, buildRedemption]
    split
    next hnone => exact ih.cons g.conditionId
    next r hsome =>
      split at hsome
      next =>
        rw [← Option.some.inj hsome]
        exact ih.cons_cons g.conditionId
      next => cases hsome

/-- The groups are of different conditions. -/
theorem groupRedeemable_nodup (parse : Parsers) (positions : List Position) :
    ((groupRedeemable parse positions).map (·.conditionId)).Nodup :=
  (order_nodup positions).sublist (groupRedeemable_sublist parse positions)

/-- So are the redemptions. -/
theorem buildRedemptions_nodup (parse : Parsers) (positions : List Position)
    (balances : Nat → Option Nat) (minRaw : Nat) :
    ((buildRedemptions (groupRedeemable parse positions) balances minRaw).map
      (·.conditionId)).Nodup :=
  (groupRedeemable_nodup parse positions).sublist (buildRedemptions_sublist _ balances minRaw)

/-! ## What is redeemed -/

/-- The balances of a condition's last labelled tokens. -/
def labelledTotal (parse : Parsers) (positions : List Position) (balances : Nat → Option Nat)
    (cid : B256) : Nat :=
  U256.saturatingAdd (held balances (lastToken parse cid "yes" positions))
    (held balances (lastToken parse cid "no" positions))

theorem mem_groupRedeemable {parse : Parsers} {positions : List Position} {group : RedeemGroup} :
    group ∈ groupRedeemable parse positions ↔
      (grouping parse positions).byCond group.conditionId = some group := by
  rw [groupRedeemable, List.mem_filterMap]
  constructor
  · intro h
    obtain ⟨cid, _, hcid⟩ := h
    have hid : group.conditionId = cid := by
      rw [grouping_byCond] at hcid
      obtain ⟨first, _, rfl⟩ := Option.map_eq_some_iff.mp hcid
      rfl
    rwa [hid]
  · intro h
    exact ⟨group.conditionId, (mem_order positions).mpr (by rw [h]; rfl), h⟩

/-- A condition is redeemed exactly when a row files under it and the balances of its
last labelled tokens reach the floor and are not zero. -/
theorem redeemed_iff (parse : Parsers) (positions : List Position) (balances : Nat → Option Nat)
    (minRaw : Nat) (cid : B256) :
    (∃ r ∈ buildRedemptions (groupRedeemable parse positions) balances minRaw,
      r.conditionId = cid) ↔
    rowsOf parse cid positions ≠ [] ∧ labelledTotal parse positions balances cid ≠ 0 ∧
      minRaw ≤ labelledTotal parse positions balances cid := by
  constructor
  · intro h
    obtain ⟨r, hr, rfl⟩ := h
    obtain ⟨group, hgroup, hbuild⟩ := List.mem_filterMap.mp hr
    have hby := mem_groupRedeemable.mp hgroup
    rw [grouping_byCond] at hby
    obtain ⟨first, hfirst, hg⟩ := Option.map_eq_some_iff.mp hby
    rw [← hg] at hbuild
    unfold buildRedemption at hbuild
    simp only at hbuild
    split at hbuild
    · rename_i htotal
      have hid : r.conditionId = group.conditionId := by rw [← Option.some.inj hbuild]
      rw [hid]
      refine ⟨?_, htotal⟩
      intro hnil
      rw [hnil] at hfirst
      cases hfirst
    · cases hbuild
  · intro h
    obtain ⟨hrows, htotal⟩ := h
    obtain ⟨first, rest, hcons⟩ := List.exists_cons_of_ne_nil hrows
    have hby : (grouping parse positions).byCond cid = _ := grouping_byCond positions
    rw [hcons, List.head?_cons, Option.map_some] at hby
    have hbuild : buildRedemption balances minRaw
        ⟨cid, lastToken parse cid "yes" positions, lastToken parse cid "no" positions,
          first.negativeRisk⟩ = some _ := if_pos htotal
    exact ⟨_, List.mem_filterMap.mpr ⟨_, mem_groupRedeemable.mpr hby, hbuild⟩, rfl⟩

/-- A row whose position the wallet holds in at least the floor's amount. -/
def HeldRow (parse : Parsers) (balances : Nat → Option Nat) (minRaw : Nat) (cid : B256)
    (p : Position) : Prop :=
  ∃ asset amount, rowIds parse p = some (cid, asset) ∧ balances asset = some amount ∧
    amount ≠ 0 ∧ minRaw ≤ amount

/-- Every held row is redeemed if and only if the last Yes row and the last No row of
its condition name tokens whose balances are, together, not zero and not below
the floor. -/
theorem held_rows_redeemed_iff (parse : Parsers) (positions : List Position)
    (balances : Nat → Option Nat) (minRaw : Nat) :
    (∀ p ∈ positions, ∀ cid, HeldRow parse balances minRaw cid p →
      ∃ r ∈ buildRedemptions (groupRedeemable parse positions) balances minRaw,
        r.conditionId = cid) ↔
    ∀ p ∈ positions, ∀ cid, HeldRow parse balances minRaw cid p →
      labelledTotal parse positions balances cid ≠ 0 ∧
        minRaw ≤ labelledTotal parse positions balances cid := by
  have hfiled : ∀ p ∈ positions, ∀ cid, HeldRow parse balances minRaw cid p →
      rowsOf parse cid positions ≠ [] := by
    intro p hp cid hheld
    obtain ⟨asset, _, hids, _⟩ := hheld
    have hmem : p ∈ rowsOf parse cid positions :=
      List.mem_filter.mpr ⟨hp, decide_eq_true (by rw [hids]; rfl)⟩
    exact List.ne_nil_of_mem hmem
  constructor
  · intro h p hp cid hheld
    exact ((redeemed_iff parse positions balances minRaw cid).mp (h p hp cid hheld)).2
  · intro h p hp cid hheld
    exact (redeemed_iff parse positions balances minRaw cid).mpr
      ⟨hfiled p hp cid hheld, h p hp cid hheld⟩

/-- A resolved two-outcome market labelled Up and Down: the held row is lost. -/
theorem up_row_not_redeemed :
    let parse : Parsers := ⟨fun s => if s = "300" then some 300 else none,
      fun s => if s = "11" then some (Address.ofNat 17).toWord else none⟩
    let row : Position := ⟨"300", 1, "0x11", "Up", false⟩
    let balances (token : Nat) : Option Nat := if token = 300 then some 1000000 else none
    HeldRow parse balances 1000 (Address.ofNat 17).toWord row ∧
      ¬ ∃ r ∈ buildRedemptions (groupRedeemable parse [row]) balances 1000,
        r.conditionId = (Address.ofNat 17).toWord := by
  intro parse row balances
  refine ⟨⟨300, 1000000, by decide, by decide, by decide, by decide⟩, ?_⟩
  have hnone : buildRedemptions (groupRedeemable parse [row]) balances 1000 = [] := by decide
  rw [hnone]
  intro h
  obtain ⟨r, hr, _⟩ := h
  cases hr

end Eggplant.Redeem
