import Eggplant.Clob.Posting
import Eggplant.Lib.JsonText
import Eggplant.Lib.PrefixCode

/-!
# Signed requests

A request is signed over its timestamp, method, path and body, laid end to end without a
delimiter. `auth` formats that text; the poster fills a buffer of its own in each of its
functions and sends the tail of the buffer as the body.
-/
namespace Eggplant.Clob

set_option autoImplicit false

open Eggplant.Lib Eggplant.Lib.Words Eggplant.Lib.Text

/-- The exact text L2 signs; the path is without the query. -/
def l2Message (timestamp : Int64) (method path body : String) : String :=
  timestamp.toInt.repr ++ method ++ path ++ body

/-- A request on its way: what was signed, and what is sent. -/
structure SentRequest where
  method : String
  path : String
  timestamp : String
  signed : Bytes
  body : Bytes
  deriving DecidableEq

/-! ## The poster -/

/-- The POST of a serialized body: the buffer is signed, its tail is sent. -/
def signPost (signPath path : String) (json : Except String String) (apiTs : Int64) :
    Except Error SentRequest :=
  let tsStr := apiTs.toInt.repr
  let msgBuf := utf8 tsStr ++ utf8 signPath
  let bodyStart := msgBuf.length
  match json with
  | .error e => .error (.invalidData ("JSON serialization failed: " ++ e))
  | .ok text =>
    let msgBuf := msgBuf ++ utf8 text
    .ok ⟨"POST", path, tsStr, msgBuf, msgBuf.drop bodyStart⟩

/-- `post_orders`, up to the round trip. -/
def postOrdersRequest (tooLarge : BitVec 256 → String) (orders : List SignedOrder)
    (apiTs : Int64) : Except Error SentRequest :=
  signPost "POST/orders" "/orders" ((serializeOrders tooLarge orders).map Json.arrayText) apiTs

/-- `post_order_single`, up to the round trip. -/
def postOrderSingleRequest (tooLarge : BitVec 256 → String) (order : SignedOrder)
    (apiTs : Int64) : Except Error SentRequest :=
  signPost "POST/order" "/order" ((order.serialize tooLarge).map Json.text) apiTs

/-- `send_delete`, up to the round trip. -/
def sendDelete (path signPath : String) (body : Bytes) (timestamp : Int64) : SentRequest :=
  let tsStr := timestamp.toInt.repr
  let msgBuf := utf8 tsStr ++ utf8 signPath ++ body
  ⟨"DELETE", path, tsStr, msgBuf, body⟩

def cancelOrdersRequest (orderIds : List String) (timestamp : Int64) : SentRequest :=
  sendDelete "/orders" "DELETE/orders" (utf8 (Json.arrayText (orderIds.map .str))) timestamp

def cancelOrderBody (orderId : String) : String := (Json.obj [("orderID", .str orderId)]).text

example : cancelOrderBody "0xabc" = "\x7b\"orderID\":\"0xabc\"\x7d" := by decide

def cancelSingleRequest (orderId : String) (timestamp : Int64) : SentRequest :=
  sendDelete "/order" "DELETE/order" (utf8 (cancelOrderBody orderId)) timestamp

/-! ## The client -/

/-- A request without a body under the headers of `auth::l2_headers`. -/
def signHeaders (method path : String) (timestamp : Int64) : SentRequest :=
  ⟨method, path, timestamp.toInt.repr, utf8 (l2Message timestamp method path ""), []⟩

def cancelAllRequest (timestamp : Int64) : SentRequest :=
  signHeaders "DELETE" "/cancel-all" timestamp

def getL2Request (endpoint : String) (timestamp : Int64) : SentRequest :=
  signHeaders "GET" ("/" ++ endpoint) timestamp

/-- The calls that sign a request. -/
inductive Call where
  | postOrders (orders : List SignedOrder)
  | postOrderSingle (order : SignedOrder)
  | cancelOrders (orderIds : List String)
  | cancelSingle (orderId : String)
  | cancelAll
  | openOrders
  | trades

def Call.request (tooLarge : BitVec 256 → String) (timestamp : Int64) :
    Call → Except Error SentRequest
  | postOrders orders => postOrdersRequest tooLarge orders timestamp
  | postOrderSingle order => postOrderSingleRequest tooLarge order timestamp
  | cancelOrders orderIds => .ok (cancelOrdersRequest orderIds timestamp)
  | cancelSingle orderId => .ok (cancelSingleRequest orderId timestamp)
  | cancelAll => .ok (cancelAllRequest timestamp)
  | openOrders => .ok (getL2Request "data/orders" timestamp)
  | trades => .ok (getL2Request "data/trades" timestamp)

/-! ## Messages -/

structure L2Request where
  method : String
  path : String
  body : String
  deriving DecidableEq

/-- The requests there are: a list of orders or ids goes to one path as an array, a single
one to another as an object, and the rest have no body. -/
inductive Issued : L2Request → Prop
  | orders {method : String} (hmethod : method = "POST" ∨ method = "DELETE") (rest : String) :
    Issued ⟨method, "/orders", "[" ++ rest⟩
  | order {method : String} (hmethod : method = "POST" ∨ method = "DELETE") (rest : String) :
    Issued ⟨method, "/order", "\x7b" ++ rest⟩
  | cancelAll : Issued ⟨"DELETE", "/cancel-all", ""⟩
  | data {endpoint : String} (hendpoint : endpoint = "data/orders" ∨ endpoint = "data/trades") :
    Issued ⟨"GET", "/" ++ endpoint, ""⟩

/-- Method, path and the first character of the body. -/
inductive Opening where
  | postOrders | deleteOrders | postOrder | deleteOrder | cancelAll | dataOrders | dataTrades
  deriving DecidableEq

namespace Opening

instance : Fintype Opening where
  elems := {postOrders, deleteOrders, postOrder, deleteOrder, cancelAll, dataOrders, dataTrades}
  complete := by
    intro opening
    cases opening <;> decide

def method : Opening → String
  | postOrders | postOrder => "POST"
  | deleteOrders | deleteOrder | cancelAll => "DELETE"
  | dataOrders | dataTrades => "GET"

def path : Opening → String
  | postOrders | deleteOrders => "/orders"
  | postOrder | deleteOrder => "/order"
  | cancelAll => "/cancel-all"
  | dataOrders => "/data/orders"
  | dataTrades => "/data/trades"

def bracket : Opening → String
  | postOrders | deleteOrders => "["
  | postOrder | deleteOrder => "\x7b"
  | cancelAll | dataOrders | dataTrades => ""

def word (opening : Opening) : List Char :=
  (opening.method ++ opening.path ++ opening.bracket).toList

/-- One path starts another, but the bracket after it is not a letter. -/
theorem word_prefixCode : PrefixCode word := by
  unfold PrefixCode
  decide

/-- A method is no part of a number. -/
theorem word_head (opening : Opening) (s : List Char) :
    ∀ c ∈ (opening.word ++ s).head?, (c.isDigit || c = '-') = false := by
  cases opening <;> simp [word, method, path, bracket]

end Opening

theorem Issued.opening {r : L2Request} (h : Issued r) :
    ∃ (opening : Opening) (rest : String),
      r = ⟨opening.method, opening.path, opening.bracket ++ rest⟩ := by
  cases h with
  | orders hmethod rest =>
    rcases hmethod with rfl | rfl
    · exact ⟨.postOrders, rest, rfl⟩
    · exact ⟨.deleteOrders, rest, rfl⟩
  | order hmethod rest =>
    rcases hmethod with rfl | rfl
    · exact ⟨.postOrder, rest, rfl⟩
    · exact ⟨.deleteOrder, rest, rfl⟩
  | cancelAll => exact ⟨.cancelAll, "", rfl⟩
  | data hendpoint =>
    rcases hendpoint with rfl | rfl
    · exact ⟨.dataOrders, "", rfl⟩
    · exact ⟨.dataTrades, "", rfl⟩

theorem isDigit_or_sign_of_mem_repr {n : Int} {c : Char} (h : c ∈ n.repr.toList) :
    (c.isDigit || c = '-') = true := by
  cases n with
  | ofNat n =>
    have hdigit : c.isDigit = true := isDigit_of_mem_repr h
    rw [hdigit, Bool.true_or]
  | negSucc n =>
    rw [Int.repr, String.toList_append, List.mem_append] at h
    rcases h with hsign | hdigit
    · rw [List.mem_singleton.mp hsign]
      rfl
    · rw [isDigit_of_mem_repr hdigit, Bool.true_or]

/-- The message determines the timestamp and the request. -/
theorem l2Message_injective {ts ts' : Int64} {r r' : L2Request} (hr : Issued r) (hr' : Issued r')
    (h : l2Message ts r.method r.path r.body = l2Message ts' r'.method r'.path r'.body) :
    ts = ts' ∧ r = r' := by
  obtain ⟨opening, rest, rfl⟩ := hr.opening
  obtain ⟨opening', rest', rfl⟩ := hr'.opening
  have hsplit (ts : Int64) (opening : Opening) (rest : String) :
      (l2Message ts opening.method opening.path (opening.bracket ++ rest)).toList =
        ts.toInt.repr.toList ++ (opening.word ++ rest.toList) := by
    simp [l2Message, Opening.word]
  have htexts := congrArg String.toList h
  rw [hsplit, hsplit] at htexts
  obtain ⟨hts, htail⟩ := append_inj_of_class (fun c => isDigit_or_sign_of_mem_repr)
    (fun c => isDigit_or_sign_of_mem_repr) (opening.word_head rest.toList)
    (opening'.word_head rest'.toList) htexts
  obtain ⟨rfl, hrest⟩ := Opening.word_prefixCode.append_inj htail
  obtain rfl := String.toList_inj.mp hrest
  exact ⟨Int64.toInt_inj.mp (intRepr_injective (String.toList_inj.mp hts)), rfl⟩

/-! ## The two ways of signing -/

/-- What is sent is the request, and what was signed is its message. -/
structure Carries (sent : SentRequest) (ts : Int64) (r : L2Request) : Prop where
  method_eq : sent.method = r.method
  path_eq : sent.path = r.path
  timestamp_eq : sent.timestamp = ts.toInt.repr
  body_eq : sent.body = utf8 r.body
  signed_eq : sent.signed = utf8 (l2Message ts r.method r.path r.body)

theorem signPost_carries {β : Type} {signPath path : String} (hpath : signPath = "POST" ++ path)
    {values : Except String β} {toText : β → String} {ts : Int64} {sent : SentRequest}
    (h : signPost signPath path (values.map toText) ts = .ok sent) :
    ∃ value, values = .ok value ∧ Carries sent ts ⟨"POST", path, toText value⟩ := by
  subst hpath
  cases values with
  | error e => cases h
  | ok value =>
    cases h
    refine ⟨value, rfl, rfl, rfl, rfl, ?_, ?_⟩
    · exact List.drop_left
    · simp only [l2Message, utf8_append, List.append_assoc]

theorem sendDelete_carries {signPath path : String} (hpath : signPath = "DELETE" ++ path)
    (body : String) (ts : Int64) :
    Carries (sendDelete path signPath (utf8 body) ts) ts ⟨"DELETE", path, body⟩ := by
  subst hpath
  refine ⟨rfl, rfl, rfl, rfl, ?_⟩
  simp only [sendDelete, l2Message, utf8_append, List.append_assoc]

theorem signHeaders_carries (method path : String) (ts : Int64) :
    Carries (signHeaders method path ts) ts ⟨method, path, ""⟩ :=
  ⟨rfl, rfl, rfl, rfl, rfl⟩

/-- The text of an array or an object starts with its bracket. -/
theorem arrayText_eq (elems : List Json) :
    ∃ rest, Json.arrayText elems = "[" ++ rest :=
  ⟨_, String.append_assoc⟩

theorem objText_eq (members : List (String × Json)) :
    ∃ rest, (Json.obj members).text = "\x7b" ++ rest := by
  rw [Json.text]
  exact ⟨_, String.append_assoc⟩

theorem cancelOrderBody_eq (orderId : String) :
    ∃ rest, cancelOrderBody orderId = "\x7b" ++ rest :=
  objText_eq _

theorem SignedOrder.serialize_obj {tooLarge : BitVec 256 → String} {order : SignedOrder}
    {json : Json} (h : order.serialize tooLarge = .ok json) : ∃ members, json = .obj members := by
  obtain ⟨body, -, h⟩ := bind_ok h
  cases h
  exact ⟨_, rfl⟩

/-- Every call signs the message of the request it sends. -/
theorem Call.request_carries {tooLarge : BitVec 256 → String} {call : Call} {ts : Int64}
    {sent : SentRequest} (h : call.request tooLarge ts = .ok sent) :
    ∃ r, Issued r ∧ Carries sent ts r := by
  cases call with
  | postOrders orders =>
    obtain ⟨values, -, hsent⟩ := signPost_carries rfl h
    obtain ⟨rest, hrest⟩ := arrayText_eq values
    exact ⟨_, hrest ▸ .orders (.inl rfl) rest, hsent⟩
  | postOrderSingle order =>
    obtain ⟨value, hvalue, hsent⟩ := signPost_carries rfl h
    obtain ⟨members, rfl⟩ := SignedOrder.serialize_obj hvalue
    obtain ⟨rest, hrest⟩ := objText_eq members
    exact ⟨_, hrest ▸ .order (.inl rfl) rest, hsent⟩
  | cancelOrders orderIds =>
    cases h
    obtain ⟨rest, hrest⟩ := arrayText_eq (orderIds.map .str)
    exact ⟨_, hrest ▸ .orders (.inr rfl) rest, sendDelete_carries rfl _ ts⟩
  | cancelSingle orderId =>
    cases h
    obtain ⟨rest, hrest⟩ := cancelOrderBody_eq orderId
    exact ⟨_, hrest ▸ .order (.inr rfl) rest, sendDelete_carries rfl _ ts⟩
  | cancelAll =>
    cases h
    exact ⟨_, .cancelAll, signHeaders_carries _ _ ts⟩
  | openOrders =>
    cases h
    exact ⟨_, .data (.inl rfl), signHeaders_carries _ _ ts⟩
  | trades =>
    cases h
    exact ⟨_, .data (.inr rfl), signHeaders_carries _ _ ts⟩

/-- Equal signed bytes are one timestamp, method, path and body, and every call signs the
message of what it sends; so two calls that sign the same bytes send the same request. -/
theorem l2_messages_unambiguous (tooLarge : BitVec 256 → String) :
    (∀ (ts ts' : Int64) (r r' : L2Request), Issued r → Issued r' →
      utf8 (l2Message ts r.method r.path r.body) =
        utf8 (l2Message ts' r'.method r'.path r'.body) →
      ts = ts' ∧ r.method = r'.method ∧ r.path = r'.path ∧ r.body = r'.body) ∧
    (∀ (call : Call) (ts : Int64) (sent : SentRequest), call.request tooLarge ts = .ok sent →
      ∃ r, Issued r ∧ Carries sent ts r) ∧
    ∀ (call call' : Call) (ts ts' : Int64) (sent sent' : SentRequest),
      call.request tooLarge ts = .ok sent → call'.request tooLarge ts' = .ok sent' →
      sent.signed = sent'.signed → ts = ts' ∧ sent = sent' := by
  refine ⟨?_, fun call ts sent => Call.request_carries, ?_⟩
  · intro ts ts' r r' hr hr' h
    obtain ⟨hts, rfl⟩ := l2Message_injective hr hr' (utf8_injective h)
    exact ⟨hts, rfl, rfl, rfl⟩
  · intro call call' ts ts' sent sent' hsent hsent' h
    obtain ⟨r, hr, hcarries⟩ := Call.request_carries hsent
    obtain ⟨r', hr', hcarries'⟩ := Call.request_carries hsent'
    have hmessages := h
    rw [hcarries.signed_eq, hcarries'.signed_eq] at hmessages
    obtain ⟨rfl, rfl⟩ := l2Message_injective hr hr' (utf8_injective hmessages)
    refine ⟨rfl, ?_⟩
    cases sent
    cases sent'
    simp only [SentRequest.mk.injEq]
    exact ⟨hcarries.method_eq.trans hcarries'.method_eq.symm,
      hcarries.path_eq.trans hcarries'.path_eq.symm,
      hcarries.timestamp_eq.trans hcarries'.timestamp_eq.symm, h,
      hcarries.body_eq.trans hcarries'.body_eq.symm⟩

/-- One cancel, signed twice. -/
theorem l2_messages_unambiguous_cancel :
    ((5 : Int64) = 5 ∧ "DELETE" = "DELETE" ∧ "/order" = "/order" ∧
      cancelOrderBody "0xabc" = cancelOrderBody "0xabc") ∧
    (∃ r, Issued r ∧ Carries (cancelSingleRequest "0xabc" 5) 5 r) ∧
    ((5 : Int64) = 5 ∧ cancelSingleRequest "0xabc" 5 = cancelSingleRequest "0xabc" 5) := by
  obtain ⟨rest, hrest⟩ := cancelOrderBody_eq "0xabc"
  have hissued : Issued ⟨"DELETE", "/order", cancelOrderBody "0xabc"⟩ :=
    hrest ▸ .order (.inr rfl) rest
  have h := l2_messages_unambiguous fun _ => "out of range"
  exact ⟨h.1 5 5 _ _ hissued hissued rfl, h.2.1 (.cancelSingle "0xabc") 5 _ rfl,
    h.2.2 (.cancelSingle "0xabc") (.cancelSingle "0xabc") 5 5 _ _ rfl rfl rfl⟩

end Eggplant.Clob
