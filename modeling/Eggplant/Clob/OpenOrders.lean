import Eggplant.Clob.Cancel
import Eggplant.Clob.Listing
import Eggplant.Clob.Types
import Eggplant.Decimal
import Eggplant.Lib.Serde

/-!
# Reading open orders

The struct asks for the id only. A row fails all the same, and its page with it, when one
of the other names holds a value that the field does not read: most defaults are for a
name that does not occur.
-/
namespace Eggplant.Clob

set_option autoImplicit false

open Eggplant.Lib
open Eggplant.Lib.Serde (Value Number Decoder Fields field ofMembers Once IsText IsTag)

/-- What the decimal library reads from a number and from a string. -/
structure Numerals where
  ofNumber : Number → Option Decimal
  ofText : String → Option Decimal

/-- `Decimal::deserialize`. -/
def decimal (numerals : Numerals) : Decoder Decimal
  | .num n => numerals.ofNumber n
  | .str s => numerals.ofText s
  | _ => none

inductive OrderStatus where
  | live
  | matched
  | canceled
  | delayed
  | unmatched
  | unknown (raw : String)
  deriving DecidableEq

namespace OrderStatus

/-- The upper-case names and their aliases. -/
def tagged (name : String) : Option OrderStatus :=
  if name = "LIVE" ∨ name = "live" then some live
  else if name = "MATCHED" ∨ name = "matched" then some matched
  else if name = "CANCELED" ∨ name = "canceled" then some canceled
  else if name = "DELAYED" ∨ name = "delayed" then some delayed
  else if name = "UNMATCHED" ∨ name = "unmatched" then some unmatched
  else none

def deserialize : Decoder OrderStatus := Serde.orString tagged unknown

end OrderStatus

/-- Any other name is the catch-all variant. -/
def Side.deserialize : Decoder Side := fun v =>
  (Serde.variantName v).map fun name =>
    if name = "BUY" ∨ name = "buy" then buy
    else if name = "SELL" ∨ name = "sell" then sell
    else unknown

namespace OrderType

def tagged (name : String) : Option OrderType :=
  if name = "GTC" ∨ name = "gtc" then some gtc
  else if name = "FOK" ∨ name = "fok" then some fok
  else if name = "GTD" ∨ name = "gtd" then some gtd
  else if name = "FAK" ∨ name = "fak" then some fak
  else none

def deserialize : Decoder OrderType := Serde.orString tagged unknown

end OrderType

/-- `null_to_default`, for a list. -/
def nullToDefault {α : Type} (decode : Decoder (List α)) : Decoder (List α) := fun v =>
  (Serde.option decode v).map fun list => list.getD []

structure OpenOrder where
  id : String
  status : OrderStatus
  owner : String
  market : String
  assetId : String
  side : Side
  originalSize : Decimal
  sizeMatched : Decimal
  price : Decimal
  outcome : String
  createdAt : Option Int64
  orderType : Option OrderType
  associateTrades : List String
  deriving DecidableEq

namespace OpenOrder

def fieldNames : List String :=
  ["id", "status", "owner", "market", "asset_id", "side", "original_size", "size_matched",
    "price", "outcome", "created_at", "order_type", "associate_trades"]

/-- The fields, each with its default and its rule. -/
def read (numerals : Numerals) (fields : Fields) : Option OpenOrder := do
  let id ← field fields "id" none Serde.string
  let status ← field fields "status" (some (.unknown "")) OrderStatus.deserialize
  let owner ← field fields "owner" (some "") Serde.string
  let market ← field fields "market" (some "") Serde.string
  let assetId ← field fields "asset_id" (some "") Serde.string
  let side ← field fields "side" (some .unknown) Side.deserialize
  let originalSize ← field fields "original_size" (some .zero) (decimal numerals)
  let sizeMatched ← field fields "size_matched" (some .zero) (decimal numerals)
  let price ← field fields "price" (some .zero) (decimal numerals)
  let outcome ← field fields "outcome" (some "") Serde.string
  let createdAt ← field fields "created_at" (some none) (Serde.option Serde.i64)
  let orderType ← field fields "order_type" (some none) (Serde.option OrderType.deserialize)
  let associateTrades ←
    field fields "associate_trades" (some []) (nullToDefault (Serde.vec Serde.string))
  return ⟨id, status, owner, market, assetId, side, originalSize, sizeMatched, price, outcome,
    createdAt, orderType, associateTrades⟩

def deserialize (numerals : Numerals) : Decoder OpenOrder :=
  Serde.struct fieldNames (read numerals)

end OpenOrder

/-- `limit` and `count` are read and then ignored by every caller. -/
def Page.deserialize {α : Type} (row : Decoder α) : Decoder (Page α) :=
  Serde.struct ["data", "next_cursor", "limit", "count"] fun fields => do
    let data ← field fields "data" (some []) (Serde.vec row)
    let nextCursor ← field fields "next_cursor" (some "") Serde.string
    let _ ← field fields "limit" (some 0) Serde.u64
    let _ ← field fields "count" (some 0) Serde.u64
    return ⟨data, nextCursor⟩

/-- A response, with its body as text unless the connection broke. -/
structure Response where
  status : Nat
  retryAfter : Option String
  text : Except String String

/-- The JSON library: the value a text spells, and what it says of a value that is not read. -/
structure JsonLibrary where
  readText : String → Except String Value
  mismatch : Value → String

section
variable {α : Type} (json : JsonLibrary)

/-- `serde_json::from_str`. -/
def fromStr (decode : Decoder α) (text : String) : Except String α := do
  let value ← json.readText text
  (decode value).elim (.error (json.mismatch value)) .ok

def parseResponse (decode : Decoder α) (response : Response) : Except Error α :=
  if response.status = 429 then .error (.rateLimit response.retryAfter)
  else
    match response.text with
    | .error e => .error (.http e)
    | .ok text =>
      if ¬(200 ≤ response.status ∧ response.status < 300) then
        .error (.api response.status (String.ofList (text.toList.take 300)))
      else
        match fromStr json decode text with
        | .ok a => .ok a
        | .error e => .error (.json e)

/-- `get_l2`; `send` signs the request for a URL below the host and sends it. -/
def getL2 (decode : Decoder α) (send : String → Except Error Response) (endpoint query : String) :
    Except Error α := do
  let response ← send (endpoint ++ query)
  parseResponse json decode response

end

/-! ## Rows -/

/-- A number or a string that the decimal library reads. -/
def Numerals.Reads (numerals : Numerals) (v : Value) : Prop :=
  (∃ n, v = .num n ∧ (numerals.ofNumber n).isSome) ∨ ∃ s, v = .str s ∧ (numerals.ofText s).isSome

/-- The values each name of a row may hold. -/
def OpenOrder.kinds (numerals : Numerals) : List (String × (Value → Prop)) :=
  [("id", IsText),
    ("status", fun v => IsText v ∨ IsTag (fun name => (OrderStatus.tagged name).isSome) v),
    ("owner", IsText),
    ("market", IsText),
    ("asset_id", IsText),
    ("side", fun v => IsText v ∨ IsTag (fun _ => True) v),
    ("original_size", numerals.Reads),
    ("size_matched", numerals.Reads),
    ("price", numerals.Reads),
    ("outcome", IsText),
    ("created_at", fun v => v = .null ∨ ∃ n, v = .num n ∧ n.InI64),
    ("order_type", fun v =>
      v = .null ∨ IsText v ∨ IsTag (fun name => (OrderType.tagged name).isSome) v),
    ("associate_trades", fun v => v = .null ∨ ∃ elems, v = .arr elems ∧ ∀ e ∈ elems, IsText e)]

/-- The members of an object of a page. -/
abbrev Row := List (String × Value)

/-- No name of the struct occurs twice, and each holds a value of its kind where it occurs. -/
def Readable (numerals : Numerals) (members : Row) : Prop :=
  ∀ rule ∈ OpenOrder.kinds numerals,
    Once rule.1 members ∧ ∀ v, (rule.1, v) ∈ members → rule.2 v

section
variable {numerals : Numerals}

theorem decimal_isSome_iff (numerals : Numerals) (v : Value) :
    (decimal numerals v).isSome ↔ numerals.Reads v := by
  cases v <;> simp [decimal, Numerals.Reads]

theorem Side.deserialize_isSome_iff (v : Value) :
    (Side.deserialize v).isSome ↔ IsText v ∨ IsTag (fun _ => True) v := by
  rw [Side.deserialize, Option.isSome_map, Serde.variantName_isSome_iff]

theorem nullToDefault_isSome_iff {α : Type} {decode : Decoder (List α)} {kind : Value → Prop}
    (hkind : ∀ v, (decode v).isSome ↔ kind v) (v : Value) :
    (nullToDefault decode v).isSome ↔ v = .null ∨ kind v := by
  rw [nullToDefault, Option.isSome_map, Serde.option_isSome_iff hkind]

theorem OpenOrder.read_eq_some_iff (fields : Fields) (order : OpenOrder) :
    OpenOrder.read numerals fields = some order ↔
      field fields "id" none Serde.string = some order.id ∧
      field fields "status" (some (.unknown "")) OrderStatus.deserialize = some order.status ∧
      field fields "owner" (some "") Serde.string = some order.owner ∧
      field fields "market" (some "") Serde.string = some order.market ∧
      field fields "asset_id" (some "") Serde.string = some order.assetId ∧
      field fields "side" (some .unknown) Side.deserialize = some order.side ∧
      field fields "original_size" (some .zero) (decimal numerals) = some order.originalSize ∧
      field fields "size_matched" (some .zero) (decimal numerals) = some order.sizeMatched ∧
      field fields "price" (some .zero) (decimal numerals) = some order.price ∧
      field fields "outcome" (some "") Serde.string = some order.outcome ∧
      field fields "created_at" (some none) (Serde.option Serde.i64) = some order.createdAt ∧
      field fields "order_type" (some none) (Serde.option OrderType.deserialize) =
        some order.orderType ∧
      field fields "associate_trades" (some []) (nullToDefault (Serde.vec Serde.string)) =
        some order.associateTrades := by
  constructor
  · intro h
    obtain ⟨id, h1, h⟩ := Option.bind_eq_some_iff.mp h
    obtain ⟨status, h2, h⟩ := Option.bind_eq_some_iff.mp h
    obtain ⟨owner, h3, h⟩ := Option.bind_eq_some_iff.mp h
    obtain ⟨market, h4, h⟩ := Option.bind_eq_some_iff.mp h
    obtain ⟨assetId, h5, h⟩ := Option.bind_eq_some_iff.mp h
    obtain ⟨side, h6, h⟩ := Option.bind_eq_some_iff.mp h
    obtain ⟨originalSize, h7, h⟩ := Option.bind_eq_some_iff.mp h
    obtain ⟨sizeMatched, h8, h⟩ := Option.bind_eq_some_iff.mp h
    obtain ⟨price, h9, h⟩ := Option.bind_eq_some_iff.mp h
    obtain ⟨outcome, h10, h⟩ := Option.bind_eq_some_iff.mp h
    obtain ⟨createdAt, h11, h⟩ := Option.bind_eq_some_iff.mp h
    obtain ⟨orderType, h12, h⟩ := Option.bind_eq_some_iff.mp h
    obtain ⟨associateTrades, h13, h⟩ := Option.bind_eq_some_iff.mp h
    cases h
    exact ⟨h1, h2, h3, h4, h5, h6, h7, h8, h9, h10, h11, h12, h13⟩
  · rintro ⟨h1, h2, h3, h4, h5, h6, h7, h8, h9, h10, h11, h12, h13⟩
    simp only [OpenOrder.read, h1, h2, h3, h4, h5, h6, h7, h8, h9, h10, h11, h12, h13,
      Option.bind_eq_bind, Option.bind_some, Option.pure_def]

/-- A row with an id is read exactly when all its names are. -/
theorem OpenOrder.deserialize_iff {members : Row} {id : String}
    (hid : ("id", .str id) ∈ members) :
    (∃ order, OpenOrder.deserialize numerals (.obj members) = some order) ↔
      Readable numerals members := by
  have htext (name : String) (a : String) :=
    Serde.field_isSome_iff members name a Serde.string_isSome_iff
  have hdecimal (name : String) (a : Decimal) :=
    Serde.field_isSome_iff members name a (decimal_isSome_iff numerals)
  have hstatus := Serde.field_isSome_iff members "status" (OrderStatus.unknown "")
    (Serde.orString_isSome_iff OrderStatus.tagged OrderStatus.unknown)
  have hside := Serde.field_isSome_iff members "side" Side.unknown Side.deserialize_isSome_iff
  have hcreated := Serde.field_isSome_iff members "created_at" none
    (Serde.option_isSome_iff Serde.i64_isSome_iff)
  have htype := Serde.field_isSome_iff members "order_type" none
    (Serde.option_isSome_iff (Serde.orString_isSome_iff OrderType.tagged OrderType.unknown))
  have htrades := Serde.field_isSome_iff members "associate_trades" []
    (nullToDefault_isSome_iff (Serde.vec_isSome_iff Serde.string_isSome_iff))
  simp only [Readable, kinds, List.forall_mem_cons, List.not_mem_nil, false_imp_iff, implies_true,
    and_true, ← hstatus, ← hside, ← hcreated, ← htype, ← htrades, ← htext _ "",
    ← hdecimal _ .zero]
  constructor
  · rintro ⟨order, h⟩
    obtain ⟨h1, h2, h3, h4, h5, h6, h7, h8, h9, h10, h11, h12, h13⟩ := (read_eq_some_iff _ _).mp h
    have honce := Serde.once_of_field (Option.isSome_of_eq_some h1)
    have hid : ∀ v, ("id", v) ∈ members → IsText v := by
      intro v hv
      rw [Serde.field_of_mem honce hv] at h1
      exact (Serde.string_isSome_iff v).mp (Option.isSome_of_eq_some h1)
    exact ⟨(htext "id" "").mpr ⟨honce, hid⟩, Option.isSome_of_eq_some h2,
      Option.isSome_of_eq_some h3, Option.isSome_of_eq_some h4, Option.isSome_of_eq_some h5,
      Option.isSome_of_eq_some h6, Option.isSome_of_eq_some h7, Option.isSome_of_eq_some h8,
      Option.isSome_of_eq_some h9, Option.isSome_of_eq_some h10, Option.isSome_of_eq_some h11,
      Option.isSome_of_eq_some h12, Option.isSome_of_eq_some h13⟩
  · rintro ⟨hfield, h2, h3, h4, h5, h6, h7, h8, h9, h10, h11, h12, h13⟩
    have honce := ((htext "id" "").mp hfield).1
    obtain ⟨status, h2⟩ := Option.isSome_iff_exists.mp h2
    obtain ⟨owner, h3⟩ := Option.isSome_iff_exists.mp h3
    obtain ⟨market, h4⟩ := Option.isSome_iff_exists.mp h4
    obtain ⟨assetId, h5⟩ := Option.isSome_iff_exists.mp h5
    obtain ⟨side, h6⟩ := Option.isSome_iff_exists.mp h6
    obtain ⟨originalSize, h7⟩ := Option.isSome_iff_exists.mp h7
    obtain ⟨sizeMatched, h8⟩ := Option.isSome_iff_exists.mp h8
    obtain ⟨price, h9⟩ := Option.isSome_iff_exists.mp h9
    obtain ⟨outcome, h10⟩ := Option.isSome_iff_exists.mp h10
    obtain ⟨createdAt, h11⟩ := Option.isSome_iff_exists.mp h11
    obtain ⟨orderType, h12⟩ := Option.isSome_iff_exists.mp h12
    obtain ⟨associateTrades, h13⟩ := Option.isSome_iff_exists.mp h13
    refine ⟨⟨id, status, owner, market, assetId, side, originalSize, sizeMatched, price, outcome,
      createdAt, orderType, associateTrades⟩, ?_⟩
    exact (read_eq_some_iff _ _).mpr ⟨Serde.field_of_mem honce hid _ _, h2, h3, h4, h5, h6, h7, h8,
      h9, h10, h11, h12, h13⟩

/-- An order that is read has the id of its row. -/
theorem OpenOrder.deserialize_id {members : Row} {id : String} {order : OpenOrder}
    (hid : ("id", .str id) ∈ members)
    (h : OpenOrder.deserialize numerals (.obj members) = some order) : order.id = id := by
  have hfield := ((read_eq_some_iff _ _).mp h).1
  rw [Serde.field_of_mem (Serde.once_of_field (Option.isSome_of_eq_some hfield)) hid] at hfield
  exact (Option.some.inj hfield).symm

/-! ## Pages -/

/-- An object whose `data` is an array of rows and whose other names are in order. -/
def IsPage (value : Value) (page : Page Row) : Prop :=
  ∃ members, value = .obj members ∧
    Once "data" members ∧ ("data", .arr (page.data.map .obj)) ∈ members ∧
    field (ofMembers members) "next_cursor" (some "") Serde.string = some page.nextCursor ∧
    (field (ofMembers members) "limit" (some 0) Serde.u64).isSome ∧
    (field (ofMembers members) "count" (some 0) Serde.u64).isSome

/-- A page is read exactly when each of its rows is. -/
theorem Page.deserialize_iff {α : Type} {row : Decoder α} {value : Value} {page : Page Row}
    (hvalue : IsPage value page) :
    (∃ p, Page.deserialize row value = some p) ↔ ∀ r ∈ page.data, (row (.obj r)).isSome := by
  obtain ⟨members, rfl, honce, hdata, hcursor, hlimit, hcount⟩ := hvalue
  have hrows : (Serde.vec row (.arr (page.data.map .obj))).isSome ↔
      ∀ r ∈ page.data, (row (.obj r)).isSome := by
    rw [Serde.vec, Serde.mapM_isSome_iff, List.forall_mem_map]
  rw [← hrows, ← Serde.field_of_mem honce hdata (some []) (Serde.vec row)]
  constructor
  · rintro ⟨p, h⟩
    obtain ⟨data, hdata, -⟩ := Option.bind_eq_some_iff.mp h
    exact Option.isSome_of_eq_some hdata
  · intro h
    obtain ⟨data, hdata⟩ := Option.isSome_iff_exists.mp h
    obtain ⟨limit, hlimit⟩ := Option.isSome_iff_exists.mp hlimit
    obtain ⟨count, hcount⟩ := Option.isSome_iff_exists.mp hcount
    refine ⟨⟨data, page.nextCursor⟩, ?_⟩
    simp only [Page.deserialize, Serde.struct, hdata, hcursor, hlimit, hcount, Option.bind_eq_bind,
      Option.bind_some, Option.pure_def]

theorem Page.deserialize_nextCursor {α : Type} {row : Decoder α} {value : Value} {page : Page Row}
    {p : Page α} (hvalue : IsPage value page) (h : Page.deserialize row value = some p) :
    p.nextCursor = page.nextCursor := by
  obtain ⟨members, rfl, -, -, hcursor, -, -⟩ := hvalue
  obtain ⟨data, -, h⟩ := Option.bind_eq_some_iff.mp h
  obtain ⟨next, hnext, h⟩ := Option.bind_eq_some_iff.mp h
  obtain ⟨limit, -, h⟩ := Option.bind_eq_some_iff.mp h
  obtain ⟨count, -, h⟩ := Option.bind_eq_some_iff.mp h
  rw [hcursor] at hnext
  cases h
  exact (Option.some.inj hnext).symm

/-- A successful response with a page in its body. -/
def Answers (json : JsonLibrary) (outcome : Except Error Response) (page : Page Row) : Prop :=
  ∃ response text value, outcome = .ok response ∧
    200 ≤ response.status ∧ response.status < 300 ∧
    response.text = .ok text ∧ json.readText text = .ok value ∧ IsPage value page

/-- The page of such a response, or the JSON library's error. -/
theorem getL2_of_answers {α : Type} {json : JsonLibrary} (decode : Decoder (Page α))
    {send : String → Except Error Response} {endpoint query : String} {page : Page Row}
    (h : Answers json (send (endpoint ++ query)) page) :
    ∃ value, IsPage value page ∧
      getL2 json decode send endpoint query =
        (decode value).elim (.error (.json (json.mismatch value))) .ok := by
  obtain ⟨response, text, value, hsend, hlow, hhigh, htext, hread, hvalue⟩ := h
  have hbusy : ¬response.status = 429 := by omega
  have hgood : ¬¬(200 ≤ response.status ∧ response.status < 300) := not_not.mpr ⟨hlow, hhigh⟩
  have hget : getL2 json decode send endpoint query = parseResponse json decode response := by
    rw [getL2, hsend]
    rfl
  have hstr : fromStr json decode text =
      (decode value).elim (.error (json.mismatch value)) .ok := by
    rw [fromStr, hread]
    rfl
  refine ⟨value, hvalue, ?_⟩
  rw [hget, parseResponse, if_neg hbusy, htext]
  simp only [if_neg hgood, hstr]
  cases decode value <;> rfl

/-- The rows of the venue's pages have ids; all else in them is open. -/
def HaveIds (server : Option String → Page Row) : Prop :=
  ∀ cursor, ∀ row ∈ (server cursor).data, ∃ id, ("id", .str id) ∈ row

/-- `open_orders`, with the readers the compiler picks. -/
def fetchOrders (json : JsonLibrary) (numerals : Numerals)
    (send : String → Except Error Response) (request : OpenOrdersRequest)
    (cursor : Option String) : Except Error (Page OpenOrder) :=
  openOrders (getL2 json (Page.deserialize (OpenOrder.deserialize numerals)) send) request cursor

section
variable {json : JsonLibrary} {send : String → Except Error Response}
  {request : OpenOrdersRequest} {server : Option String → Page Row} {cursor : Option String}

theorem fetchOrders_nextCursor {page : Page OpenOrder}
    (hsend : Answers json (send ("data/orders" ++ request.query cursor)) (server cursor))
    (h : fetchOrders json numerals send request cursor = .ok page) :
    page.nextCursor = (server cursor).nextCursor := by
  obtain ⟨value, hvalue, hget⟩ :=
    getL2_of_answers (Page.deserialize (OpenOrder.deserialize numerals)) hsend
  rw [fetchOrders, openOrders, hget] at h
  cases hdecode : Page.deserialize (OpenOrder.deserialize numerals) value with
  | none =>
    rw [hdecode] at h
    cases h
  | some p =>
    rw [hdecode] at h
    cases h
    exact Page.deserialize_nextCursor hvalue hdecode

theorem fetchOrders_ok_iff
    (hsend : Answers json (send ("data/orders" ++ request.query cursor)) (server cursor))
    (hids : ∀ row ∈ (server cursor).data, ∃ id, ("id", .str id) ∈ row) :
    (∃ page, fetchOrders json numerals send request cursor = .ok page) ↔
      ∀ row ∈ (server cursor).data, Readable numerals row := by
  obtain ⟨value, hvalue, hget⟩ :=
    getL2_of_answers (Page.deserialize (OpenOrder.deserialize numerals)) hsend
  have hok : (∃ page, fetchOrders json numerals send request cursor = .ok page) ↔
      ∃ p, Page.deserialize (OpenOrder.deserialize numerals) value = some p := by
    rw [fetchOrders, openOrders, hget]
    cases Page.deserialize (OpenOrder.deserialize numerals) value <;> simp
  rw [hok, Page.deserialize_iff hvalue]
  apply forall₂_congr
  intro row hrow
  obtain ⟨id, hid⟩ := hids row hrow
  rw [Option.isSome_iff_exists, OpenOrder.deserialize_iff hid]

end

/-- A row with an id is read, under that id, exactly when the other names hold values of
their kinds; a listing of such rows fails on none of its pages exactly when all are. -/
theorem openOrders_degrade_iff (json : JsonLibrary) (numerals : Numerals)
    (send : String → Except Error Response) (request : OpenOrdersRequest)
    (server : Option String → Page Row)
    (hsend : ∀ cursor,
      Answers json (send ("data/orders" ++ request.query cursor)) (server cursor))
    (hids : HaveIds server) :
    (∀ (row : Row) (id : String), ("id", .str id) ∈ row →
      ((∃ order, OpenOrder.deserialize numerals (.obj row) = some order ∧ order.id = id) ↔
        Readable numerals row)) ∧
    ((∀ fuel e, allOpenOrders (fetchOrders json numerals send request) fuel ≠ some (.error e)) ↔
      ∀ cursor, Reachable server cursor → ∀ row ∈ (server cursor).data, Readable numerals row) := by
  constructor
  · intro row id hid
    rw [← OpenOrder.deserialize_iff hid]
    constructor
    · rintro ⟨order, h, -⟩
      exact ⟨order, h⟩
    · rintro ⟨order, h⟩
      exact ⟨order, h, OpenOrder.deserialize_id hid h⟩
  · rw [allOpenOrders_no_error_iff fun cursor page => fetchOrders_nextCursor (hsend cursor)]
    apply forall₂_congr
    intro cursor _
    exact fetchOrders_ok_iff (hsend cursor) (hids cursor)

/-- One page with one row. -/
theorem openOrders_degrade_one_row :
    let row : Row := [("id", .str "0x1"), ("price", .str "0.5"), ("created_at", .null)]
    let text := "\x7b\"data\":[\x7b\"id\":\"0x1\",\"price\":\"0.5\",\"created_at\":null\x7d]," ++
      "\"next_cursor\":\"LTE=\"\x7d"
    let value : Value := .obj [("data", .arr [.obj row]), ("next_cursor", .str "LTE=")]
    let json : JsonLibrary :=
      ⟨fun t => if t = text then .ok value else .error "expected value", fun _ => "invalid type"⟩
    let numerals : Numerals :=
      ⟨fun _ => none, fun s => if s = "0.5" then some ⟨false, 5, 1, by decide, by decide⟩ else none⟩
    let send : String → Except Error Response := fun _ => .ok ⟨200, none, .ok text⟩
    let server : Option String → Page Row := fun _ => ⟨[row], "LTE="⟩
    ((∃ order, OpenOrder.deserialize numerals (.obj row) = some order ∧ order.id = "0x1") ↔
      Readable numerals row) ∧
    ((∀ fuel e, allOpenOrders (fetchOrders json numerals send ⟨none, none, none⟩) fuel ≠
        some (.error e)) ↔
      ∀ cursor, Reachable server cursor → ∀ r ∈ (server cursor).data, Readable numerals r) := by
  intro row text value json numerals send server
  have hid : ("id", Value.str "0x1") ∈ row := List.mem_cons_self
  have hread : json.readText text = .ok value := by simp [json]
  have h := openOrders_degrade_iff json numerals send ⟨none, none, none⟩ server
    (fun _ => ⟨_, text, value, rfl, by decide, by decide, rfl, hread, _, rfl, by decide,
      List.mem_cons_self, rfl, rfl, rfl⟩)
    (fun _ r hr => ⟨"0x1", List.mem_singleton.mp hr ▸ hid⟩)
  exact ⟨h.1 row "0x1" hid, h.2⟩

/-- A null where the name has only a default fails the row and its page. -/
theorem null_fails_page :
    let row : Row := [("id", .str "0x1"), ("owner", .null)]
    ("id", .str "0x1") ∈ row ∧
      (∀ numerals, OpenOrder.deserialize numerals (.obj row) = none) ∧
      (∀ numerals, Page.deserialize (OpenOrder.deserialize numerals)
        (.obj [("data", .arr [.obj row]), ("next_cursor", .str "LTE=")]) = none) ∧
      ∀ numerals,
        OpenOrder.deserialize numerals (.obj [("id", .str "0x1"), ("price", .null)]) = none :=
  ⟨List.mem_cons_self, fun _ => rfl, fun _ => rfl, fun _ => rfl⟩

end

end Eggplant.Clob
