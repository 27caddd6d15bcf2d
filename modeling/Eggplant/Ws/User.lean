import Eggplant.Clob.OpenOrders
import Eggplant.Lib.Tagged
import Eggplant.Ws.Fills

/-!
# User-channel messages

Trades and order events of the key, and the side our order had in a trade: the message names
the taker's side only. Kinds and statuses the crate does not know are read as such.
-/
namespace Eggplant.Ws.User

set_option autoImplicit false

open Eggplant.Lib Eggplant.Lib.Words Eggplant.Clob
open Eggplant.Lib.Serde (Value Decoder Fields field)

/-- A UUID. -/
abbrev ApiKey := FixedBytes 16

/-- The libraries a message is read with. -/
structure UserLibrary extends JsonLibrary where
  numerals : Numerals
  uuid : String → Option ApiKey

/-! ## Statuses -/

/-- A variant by its own name or one of its aliases, in lower or in upper case. -/
def oneOf (name lower upper given : String) : Bool := given = name || given = lower || given = upper

/-- `TradeStatus::deserialize`. -/
def tradeStatus : Decoder TradeStatus :=
  Serde.orString (fun name =>
    if oneOf "Matched" "matched" "MATCHED" name then some .matched
    else if oneOf "Mined" "mined" "MINED" name then some .mined
    else if oneOf "Confirmed" "confirmed" "CONFIRMED" name then some .confirmed
    else if oneOf "Retrying" "retrying" "RETRYING" name then some .retrying
    else if oneOf "Failed" "failed" "FAILED" name then some .failed
    else none) .unknown

inductive OrderEventType where
  | placement
  | update
  | cancellation
  | unknown (raw : String)
  deriving DecidableEq

def OrderEventType.deserialize : Decoder OrderEventType :=
  Serde.orString (fun name =>
    if oneOf "Placement" "placement" "PLACEMENT" name then some .placement
    else if oneOf "Update" "update" "UPDATE" name then some .update
    else if oneOf "Cancellation" "cancellation" "CANCELLATION" name then some .cancellation
    else none) .unknown

/-! ## Messages -/

structure MakerOrder where
  assetId : String
  matchedAmount : Decimal
  orderId : String
  outcome : String
  owner : ApiKey
  price : Decimal
  deriving DecidableEq

structure Trade where
  id : String
  market : String
  assetId : String
  side : Side
  size : Decimal
  price : Decimal
  status : TradeStatus
  outcome : Option String
  owner : Option ApiKey
  tradeOwner : Option ApiKey
  takerOrderId : Option String
  makerOrders : List MakerOrder
  lastUpdate : Option Int
  matchtime : Option Int
  timestamp : Option Int
  feeRateBps : Option Decimal
  transactionHash : String
  traderSide : String
  deriving DecidableEq

structure OrderMessage where
  id : String
  market : String
  assetId : String
  side : Side
  price : Decimal
  msgType : Option OrderEventType
  outcome : Option String
  owner : Option ApiKey
  orderOwner : Option ApiKey
  originalSize : Option Decimal
  sizeMatched : Option Decimal
  timestamp : Option Int
  associateTrades : Option (List String)
  status : Option OrderStatus
  deriving DecidableEq

inductive UserMessage where
  | trade (t : Trade)
  | order (o : OrderMessage)
  | unknown
  deriving DecidableEq

/-- The characters `str::trim` removes. -/
def isWhitespace (c : Char) : Bool :=
  (0x9 ≤ c.toNat && c.toNat ≤ 0xd) || (0x2000 ≤ c.toNat && c.toNat ≤ 0x200a) ||
    [0x20, 0x85, 0xa0, 0x1680, 0x2028, 0x2029, 0x202f, 0x205f, 0x3000].contains c.toNat

def trim (s : String) : String :=
  String.ofList ((s.toList.dropWhile isWhitespace).reverse.dropWhile isWhitespace).reverse

/-- `lenient_i64`: a text that is no number counts as missing. -/
def lenientI64 : Decoder (Option Int) := fun v =>
  match v with
  | .null => some none
  | .str s => some (Text.readI64 (trim s))
  | v => (Serde.i64 v).map fun n => some n.toInt

/-- A field with a second name. -/
def withAlias {α : Type} (name second : String) (decode : Decoder α) : Decoder α
  | .obj members => decode (.obj (Serde.renamed name second members))
  | v => decode v

section
variable (lib : UserLibrary)

def apiKey : Decoder ApiKey := fun v => (Serde.string v).bind lib.uuid

def MakerOrder.deserialize : Decoder MakerOrder :=
  Serde.struct ["asset_id", "matched_amount", "order_id", "outcome", "owner", "price"]
    fun fields => do
      let assetId ← field fields "asset_id" (some "") Serde.string
      let matchedAmount ← field fields "matched_amount" none (decimal lib.numerals)
      let orderId ← field fields "order_id" none Serde.string
      let outcome ← field fields "outcome" (some "") Serde.string
      let owner ← field fields "owner" none (apiKey lib)
      let price ← field fields "price" none (decimal lib.numerals)
      pure { assetId, matchedAmount, orderId, outcome, owner, price }

def Trade.fieldNames : List String :=
  ["id", "market", "asset_id", "side", "size", "price", "status", "outcome", "owner",
    "trade_owner", "taker_order_id", "maker_orders", "last_update", "matchtime", "timestamp",
    "fee_rate_bps", "transaction_hash", "trader_side"]

def Trade.read (fields : Fields) : Option Trade := do
  let id ← field fields "id" none Serde.string
  let market ← field fields "market" (some "") Serde.string
  let assetId ← field fields "asset_id" (some "") Serde.string
  let side ← field fields "side" none Side.deserialize
  let size ← field fields "size" none (decimal lib.numerals)
  let price ← field fields "price" none (decimal lib.numerals)
  let status ← field fields "status" none tradeStatus
  let outcome ← field fields "outcome" (some none) (Serde.option Serde.string)
  let owner ← field fields "owner" (some none) (Serde.option (apiKey lib))
  let tradeOwner ← field fields "trade_owner" (some none) (Serde.option (apiKey lib))
  let takerOrderId ← field fields "taker_order_id" (some none) (Serde.option Serde.string)
  let makerOrders ← field fields "maker_orders" (some []) (Serde.vec (MakerOrder.deserialize lib))
  let lastUpdate ← field fields "last_update" (some none) lenientI64
  let matchtime ← field fields "matchtime" (some none) lenientI64
  let timestamp ← field fields "timestamp" (some none) lenientI64
  let feeRateBps ← field fields "fee_rate_bps" (some none) (Serde.option (decimal lib.numerals))
  let transactionHash ← field fields "transaction_hash" (some "") Serde.string
  let traderSide ← field fields "trader_side" (some "") Serde.string
  pure
    { id, market, assetId, side, size, price, status, outcome, owner, tradeOwner, takerOrderId,
      makerOrders, lastUpdate, matchtime, timestamp, feeRateBps, transactionHash, traderSide }

def Trade.deserialize : Decoder Trade :=
  withAlias "matchtime" "match_time" (Serde.struct Trade.fieldNames (Trade.read lib))

def OrderMessage.fieldNames : List String :=
  ["id", "market", "asset_id", "side", "price", "type", "outcome", "owner", "order_owner",
    "original_size", "size_matched", "timestamp", "associate_trades", "status"]

def OrderMessage.deserialize : Decoder OrderMessage :=
  Serde.struct OrderMessage.fieldNames fun fields => do
    let id ← field fields "id" none Serde.string
    let market ← field fields "market" (some "") Serde.string
    let assetId ← field fields "asset_id" (some "") Serde.string
    let side ← field fields "side" none Side.deserialize
    let price ← field fields "price" none (decimal lib.numerals)
    let msgType ← field fields "type" (some none) (Serde.option OrderEventType.deserialize)
    let outcome ← field fields "outcome" (some none) (Serde.option Serde.string)
    let owner ← field fields "owner" (some none) (Serde.option (apiKey lib))
    let orderOwner ← field fields "order_owner" (some none) (Serde.option (apiKey lib))
    let originalSize ←
      field fields "original_size" (some none) (Serde.option (decimal lib.numerals))
    let sizeMatched ← field fields "size_matched" (some none) (Serde.option (decimal lib.numerals))
    let timestamp ← field fields "timestamp" (some none) lenientI64
    let associateTrades ←
      field fields "associate_trades" (some none) (Serde.option (Serde.vec Serde.string))
    let status ← field fields "status" (some none) (Serde.option OrderStatus.deserialize)
    pure
      { id, market, assetId, side, price, msgType, outcome, owner, orderOwner, originalSize,
        sizeMatched, timestamp, associateTrades, status }

/-- An event kind the crate does not know is no error. -/
def UserMessage.deserialize : Decoder UserMessage :=
  Serde.tagged "event_type" fun kind v =>
    if kind = "trade" then (Trade.deserialize lib v).map .trade
    else if kind = "order" then (OrderMessage.deserialize lib v).map .order
    else (Serde.unit v).map fun _ => .unknown

/-- `UserStream::next_message`, given what `next_text` returns. -/
def nextMessage : Except Error (Option String) → Except Error (Option UserMessage)
  | .error e => .error e
  | .ok none => .ok none
  | .ok (some text) =>
    match fromStr lib.toJsonLibrary (UserMessage.deserialize lib) text with
    | .error e => .error (.invalidData ("user frame parse: " ++ e))
    | .ok message => .ok (some message)

end

/-! ## Our side of a trade -/

def opposite : Side → Side
  | .buy => .sell
  | .sell => .buy
  | other => other

def ourMakerSide (takerSide : Side) (takerOutcome : Option String) (makerOutcome : String) :
    Option Side :=
  takerOutcome.bind fun outcome =>
    match takerSide with
    | .unknown => none
    | side => some (if eqIgnoreAsciiCase makerOutcome outcome then opposite side else side)

/-! ## The consumer -/

/-- A fill as it is credited. -/
structure Fill where
  side : Option Side
  matchedAmount : Decimal
  outcome : String
  price : Decimal
  assetId : String
  tradeId : String
  deriving DecidableEq

def Trade.fill (t : Trade) (maker : MakerOrder) : Fill where
  side := ourMakerSide t.side t.outcome maker.outcome
  matchedAmount := maker.matchedAmount
  outcome := maker.outcome
  price := maker.price
  assetId := maker.assetId
  tradeId := t.id

/-- The fills of our orders among all that the sweep hit. -/
def Trade.ourFills (ourKey : ApiKey) (t : Trade) : List Fill :=
  (t.makerOrders.filter fun maker => maker.owner = ourKey).map t.fill

structure Consumer where
  seen : SeenIds
  fills : List Fill

def Consumer.new (cap : Nat) : Consumer := ⟨SeenIds.new cap, []⟩

/-- The body of the loop over messages: a final status, then the id set, then our orders. -/
def Consumer.onMessage (ourKey : ApiKey) (c : Consumer) : UserMessage → Consumer
  | .trade t =>
    if !t.status.isFinal then c
    else if !(c.seen.insert t.id).2 then { c with seen := (c.seen.insert t.id).1 }
    else ⟨(c.seen.insert t.id).1, c.fills ++ t.ourFills ourKey⟩
  | _ => c

/-- What the connections deliver, in the order in which they do; what is not read ends its
connection and nothing else. -/
def Consumer.consume (lib : UserLibrary) (ourKey : ApiKey) (c : Consumer) :
    List (Except Error (Option String)) → Consumer
  | [] => c
  | next :: rest =>
    match nextMessage lib next with
    | .ok (some message) => Consumer.consume lib ourKey (c.onMessage ourKey message) rest
    | _ => Consumer.consume lib ourKey c rest

end Eggplant.Ws.User
