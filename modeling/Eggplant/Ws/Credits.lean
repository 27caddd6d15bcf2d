import Eggplant.Ws.User

/-!
# Crediting fills

What the consumer credits of a trade is what the venue settled: our orders that the sweep hit,
each once and with the side it had, whichever connection was first and whatever was lost on
the others. A buyer and a seller on one key split these fills between them.
-/
namespace Eggplant.Ws.User

set_option autoImplicit false

open Eggplant.Lib Eggplant.Lib.Words Eggplant.Lib.Window Eggplant.Clob
open Eggplant.Lib.Serde (Value)

/-! ## Messages that are read -/

section
variable (lib : UserLibrary) (ourKey : ApiKey)

def read (deliveries : List (Except Error (Option String))) : List UserMessage :=
  deliveries.filterMap fun next => (nextMessage lib next).toOption.bind id

def tradeOf : UserMessage → Option Trade
  | .trade t => some t
  | _ => none

/-- The trade messages among the deliveries. -/
def trades (deliveries : List (Except Error (Option String))) : List Trade :=
  (read lib deliveries).filterMap tradeOf

theorem consume_eq (c : Consumer) (deliveries : List (Except Error (Option String))) :
    c.consume lib ourKey deliveries =
      (read lib deliveries).foldl (Consumer.onMessage ourKey) c := by
  induction deliveries generalizing c with
  | nil => rfl
  | cons next rest ih =>
    rw [Consumer.consume, read, List.filterMap_cons]
    rcases hnext : nextMessage lib next with e | (_ | message)
    · exact ih c
    · exact ih c
    · exact ih (c.onMessage ourKey message)

end

def Trade.message (t : Trade) : TradeMessage := ⟨t.id, t.status⟩

/-- The trades a consumer credits, in order. -/
def credited (seen : SeenIds) : List Trade → List Trade
  | [] => []
  | t :: ts =>
    if (seen.onTrade t.message).2 then t :: credited (seen.onTrade t.message).1 ts
    else credited (seen.onTrade t.message).1 ts

theorem credited_message (seen : SeenIds) (ts : List Trade) :
    (credited seen ts).map Trade.message = seen.handled (ts.map Trade.message) := by
  induction ts generalizing seen with
  | nil => rfl
  | cons t ts ih =>
    rw [credited, List.map_cons, SeenIds.handled]
    split
    · rw [List.map_cons, ih]
    · exact ih _

theorem credited_sublist (seen : SeenIds) (ts : List Trade) : (credited seen ts).Sublist ts := by
  induction ts generalizing seen with
  | nil => exact List.Sublist.slnil
  | cons t ts ih =>
    rw [credited]
    split
    · exact (ih _).cons_cons t
    · exact (ih _).cons t

/-- A trade message does to the id set what it did in the model of the stream. -/
theorem onMessage_trade (ourKey : ApiKey) (c : Consumer) (t : Trade) :
    c.onMessage ourKey (.trade t) = ⟨(c.seen.onTrade t.message).1,
      if (c.seen.onTrade t.message).2 then c.fills ++ t.ourFills ourKey else c.fills⟩ := by
  rw [Consumer.onMessage, SeenIds.onTrade, Trade.message]
  cases hfinal : t.status.isFinal with
  | false => rfl
  | true =>
    simp only [Bool.not_true, Bool.false_eq_true, if_false]
    cases hnew : (c.seen.insert t.id).2 <;> simp

theorem foldl_onMessage (ourKey : ApiKey) (c : Consumer) (messages : List UserMessage) :
    (messages.foldl (Consumer.onMessage ourKey) c).fills =
      c.fills ++ (credited c.seen (messages.filterMap tradeOf)).flatMap
        (Trade.ourFills ourKey) := by
  induction messages generalizing c with
  | nil => exact (List.append_nil _).symm
  | cons message rest ih =>
    rw [List.foldl_cons, ih]
    cases message with
    | trade t =>
      have htrade : (UserMessage.trade t :: rest).filterMap tradeOf =
          t :: rest.filterMap tradeOf := rfl
      rw [htrade, credited, onMessage_trade]
      cases hnew : (c.seen.onTrade t.message).2 with
      | true => simp only [if_true, List.flatMap_cons, List.append_assoc]
      | false => simp only [Bool.false_eq_true, if_false]
    | order o => rfl
    | unknown => rfl

/-! ## Each trade -/

theorem ourFills_tradeId {ourKey : ApiKey} {t : Trade} {f : Fill} (h : f ∈ t.ourFills ourKey) :
    f.tradeId = t.id := by
  obtain ⟨maker, -, rfl⟩ := List.mem_map.mp h
  rfl

/-- The fills of one trade are those of its credited messages. -/
theorem fills_of_trade (ourKey : ApiKey) (ts : List Trade) (id : String) :
    (ts.flatMap (Trade.ourFills ourKey)).filter (fun f => f.tradeId = id) =
      (ts.filter fun t => t.id = id).flatMap (Trade.ourFills ourKey) := by
  induction ts with
  | nil => rfl
  | cons t ts ih =>
    rw [List.flatMap_cons, List.filter_append, ih, List.filter_cons]
    by_cases hid : t.id = id
    · have hall : (t.ourFills ourKey).filter (fun f => f.tradeId = id) = t.ourFills ourKey :=
        List.filter_eq_self.mpr fun f hf => decide_eq_true ((ourFills_tradeId hf).trans hid)
      simp [hid, hall]
    · have hnone : (t.ourFills ourKey).filter (fun f => f.tradeId = id) = [] :=
        List.filter_eq_nil_iff.mpr fun f hf h =>
          hid ((ourFills_tradeId hf).symm.trans (of_decide_eq_true h))
      simp [hid, hnone]

section
variable {cap : Nat} {ts : List Trade}

theorem credited_ids (cap : Nat) (ts : List Trade) :
    (credited (SeenIds.new cap) ts).map Trade.id =
      admissions cap [] (finalIds (ts.map Trade.message)) := by
  have hids : (credited (SeenIds.new cap) ts).map Trade.id =
      ((credited (SeenIds.new cap) ts).map Trade.message).map TradeMessage.id := by
    rw [List.map_map]
    rfl
  rw [hids, credited_message]
  exact SeenIds.handled_after cap [] (ts.map Trade.message)

/-- A trade that arrives final is credited by one of its messages; others are not credited. -/
theorem credited_of_trade (hwindow : StaysInWindow cap (ts.map Trade.message)) (id : String) :
    ((∃ t ∈ ts, t.id = id ∧ t.status.isFinal = true) →
      ∃ t ∈ ts, t.id = id ∧ (credited (SeenIds.new cap) ts).filter (fun t => t.id = id) = [t]) ∧
    ((∀ t ∈ ts, t.id = id → t.status.isFinal = false) →
      (credited (SeenIds.new cap) ts).filter (fun t => t.id = id) = []) := by
  obtain ⟨hnodup, hmem⟩ := admissions_once hwindow.fits _ [] (List.append_nil _).symm
  rw [← credited_ids] at hnodup
  have hcredited : (∃ t ∈ credited (SeenIds.new cap) ts, t.id = id) ↔
      ∃ t ∈ ts, t.id = id ∧ t.status.isFinal = true := by
    rw [← List.mem_map (f := Trade.id), credited_ids, hmem, mem_finalIds]
    constructor
    · intro h
      obtain ⟨message, hmessage, hid, hfinal⟩ := h
      obtain ⟨t, ht, rfl⟩ := List.mem_map.mp hmessage
      exact ⟨t, ht, hid, hfinal⟩
    · intro h
      obtain ⟨t, ht, hid, hfinal⟩ := h
      exact ⟨t.message, List.mem_map_of_mem ht, hid, hfinal⟩
  constructor
  · intro hfinal
    obtain ⟨t, ht, hid⟩ := hcredited.mpr hfinal
    refine ⟨t, (credited_sublist _ _).subset ht, hid, ?_⟩
    -- no other credited message has this id
    obtain ⟨before, after, hsplit⟩ := List.append_of_mem ht
    rw [hsplit] at hnodup ⊢
    rw [List.map_append, List.map_cons, List.nodup_append, List.nodup_cons] at hnodup
    have hbefore : before.filter (fun u => u.id = id) = [] := by
      refine List.filter_eq_nil_iff.mpr fun u hu h => ?_
      refine hnodup.2.2 u.id (List.mem_map_of_mem hu) t.id List.mem_cons_self ?_
      rw [of_decide_eq_true h, hid]
    have hafter : after.filter (fun u => u.id = id) = [] := by
      refine List.filter_eq_nil_iff.mpr fun u hu h => ?_
      refine hnodup.2.1.1 (List.mem_map.mpr ⟨u, hu, ?_⟩)
      rw [of_decide_eq_true h, hid]
    simp [hbefore, hafter, hid]
  · intro hpending
    refine List.filter_eq_nil_iff.mpr fun t ht h => ?_
    obtain ⟨u, hu, hid, hfinal⟩ := hcredited.mp ⟨t, ht, of_decide_eq_true h⟩
    rw [hpending u hu hid] at hfinal
    cases hfinal

end

/-! ## What the venue settled -/

/-- Two orders that cross: the same token on opposite sides, or complementary tokens on the
same side, which mints or merges a pair. -/
inductive Crosses (takerSide : Side) (takerOutcome : String) (makerSide : Side)
    (makerOutcome : String) : Prop
  | swap (same : eqIgnoreAsciiCase makerOutcome takerOutcome = true)
      (known : takerSide ≠ .unknown) (side : makerSide = opposite takerSide) :
      Crosses takerSide takerOutcome makerSide makerOutcome
  | pair (other : eqIgnoreAsciiCase makerOutcome takerOutcome = false)
      (known : takerSide ≠ .unknown) (side : makerSide = takerSide) :
      Crosses takerSide takerOutcome makerSide makerOutcome

theorem Crosses.ourMakerSide_eq {takerSide makerSide : Side} {takerOutcome makerOutcome : String}
    (h : Crosses takerSide takerOutcome makerSide makerOutcome) :
    ourMakerSide takerSide (some takerOutcome) makerOutcome = some makerSide := by
  cases h with
  | swap same known side =>
    rw [ourMakerSide, Option.bind_some, same, side]
    cases takerSide with
    | unknown => exact absurd rfl known
    | _ => rfl
  | pair other known side =>
    rw [ourMakerSide, Option.bind_some, other, side]
    cases takerSide with
    | unknown => exact absurd rfl known
    | _ => rfl

/-- One trade: the taker, and every maker order it hit, with the side that order had. -/
structure Settled where
  side : Side
  outcome : String
  makers : List (MakerOrder × Side)

/-- A message of the trade; its status and its other fields may vary. -/
def Settled.Tells (s : Settled) (t : Trade) : Prop :=
  t.side = s.side ∧ t.outcome = some s.outcome ∧ t.makerOrders = s.makers.map Prod.fst

/-- Our orders cross the taker's. -/
def Settled.Crossed (s : Settled) (ourKey : ApiKey) : Prop :=
  ∀ maker ∈ s.makers, maker.1.owner = ourKey →
    Crosses s.side s.outcome maker.2 maker.1.outcome

def fillOf (id : String) (maker : MakerOrder × Side) : Fill where
  side := some maker.2
  matchedAmount := maker.1.matchedAmount
  outcome := maker.1.outcome
  price := maker.1.price
  assetId := maker.1.assetId
  tradeId := id

/-- The fills of our orders. -/
def Settled.fills (s : Settled) (ourKey : ApiKey) (id : String) : List Fill :=
  (s.makers.filter fun maker => maker.1.owner = ourKey).map (fillOf id)

theorem Settled.ourFills_eq {s : Settled} {t : Trade} {ourKey : ApiKey} (htells : s.Tells t)
    (hcrossed : s.Crossed ourKey) : t.ourFills ourKey = s.fills ourKey t.id := by
  obtain ⟨hside, houtcome, hmakers⟩ := htells
  rw [Trade.ourFills, Settled.fills, hmakers, List.filter_map, List.map_map]
  refine List.map_congr_left fun maker hmaker => ?_
  obtain ⟨hmem, howner⟩ := List.mem_filter.mp hmaker
  have hours := (hcrossed maker hmem (of_decide_eq_true howner)).ourMakerSide_eq
  show t.fill maker.1 = fillOf t.id maker
  rw [Trade.fill, hside, houtcome, hours, fillOf]

/-- What one of two processes on a key keeps: it drops the fills that are provably of the other
side. -/
def keptBy (side : Side) (f : Fill) : Bool := f.side ≠ some (opposite side)

theorem Settled.fills_keptBy {s : Settled} {ourKey : ApiKey} (hcrossed : s.Crossed ourKey)
    (id : String) {side : Side} (hside : side ≠ .unknown) :
    (s.fills ourKey id).filter (keptBy side) =
      (s.makers.filter fun maker => maker.1.owner = ourKey ∧ maker.2 = side).map (fillOf id) := by
  rw [Settled.fills, List.filter_map, List.filter_filter]
  congr 1
  refine List.filter_congr fun maker hmaker => ?_
  show (keptBy side (fillOf id maker) && decide (maker.1.owner = ourKey)) =
    decide (maker.1.owner = ourKey ∧ maker.2 = side)
  by_cases howner : maker.1.owner = ourKey
  · have hknown : maker.2 ≠ .unknown := by
      intro hunknown
      cases hcrossed maker hmaker howner with
      | swap same known hmakerSide =>
        rw [hunknown] at hmakerSide
        cases hs : s.side with
        | unknown => exact known hs
        | buy => rw [hs] at hmakerSide; cases hmakerSide
        | sell => rw [hs] at hmakerSide; cases hmakerSide
      | pair other known hmakerSide => exact known (hmakerSide.symm.trans hunknown)
    have hkept : keptBy side (fillOf id maker) = decide (maker.2 = side) := by
      rw [keptBy, fillOf]
      cases hm : maker.2 <;> cases side <;> simp_all [opposite]
    simp [howner, hkept]
  · simp [howner]

def ourOwner : ApiKey := FixedBytes.zero 16

def otherOwner : ApiKey := ⟨List.replicate 16 1, rfl⟩

/-- A taker that buys YES, filled by our order to buy NO and by another's to sell YES. -/
def mint : Settled where
  side := .buy
  outcome := "YES"
  makers :=
    [(⟨"222", .zero, "0x1", "No", ourOwner, .zero⟩, .buy),
      (⟨"111", .zero, "0x2", "Yes", otherOwner, .zero⟩, .sell)]

def mintMembers (status : String) : List (String × Value) :=
  [("event_type", .str "trade"), ("id", .str "t1"), ("status", .str status), ("side", .str "BUY"),
    ("outcome", .str "YES"), ("size", .str "0"), ("price", .str "0"),
    ("maker_orders", .arr
      [.obj [("asset_id", .str "222"), ("matched_amount", .str "0"), ("order_id", .str "0x1"),
        ("outcome", .str "No"), ("owner", .str "ours"), ("price", .str "0")],
      .obj [("asset_id", .str "111"), ("matched_amount", .str "0"), ("order_id", .str "0x2"),
        ("outcome", .str "Yes"), ("owner", .str "theirs"), ("price", .str "0")]])]

def mintLibrary : UserLibrary where
  readText := fun text => .ok (.obj (mintMembers text))
  mismatch := fun _ => "invalid type"
  numerals := ⟨fun _ => none, fun s => if s = "0" then some .zero else none⟩
  uuid := fun s => if s = "ours" then some ourOwner else some otherOwner

def mintTrade (status : TradeStatus) : Trade where
  id := "t1"
  market := ""
  assetId := ""
  side := .buy
  size := .zero
  price := .zero
  status := status
  outcome := some "YES"
  owner := none
  tradeOwner := none
  takerOrderId := none
  makerOrders := mint.makers.map Prod.fst
  lastUpdate := none
  matchtime := none
  timestamp := none
  feeRateBps := none
  transactionHash := ""
  traderSide := ""

end Eggplant.Ws.User
