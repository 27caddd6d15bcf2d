import Eggplant.Auth
import Eggplant.Clob.L2
import Eggplant.Lib.Base64

/-!
# Authenticated requests

The client formats the headers of a request; the poster decodes the secret and checks its
fixed headers once, and signs from its buffers. The requests on the wire carry the same
headers either way, a venue that knows the credentials accepts each of them, and it accepts no
other request under the same signature unless the MAC collides.
-/
namespace Eggplant.Clob

set_option autoImplicit false

open Eggplant.Lib Eggplant.Lib.Words Eggplant.Lib.Text Eggplant.Lib.Oracle
open Eggplant.Auth (HeaderMap insertHeader polyAddress polyApiKey polyPassphrase polySignature
  polyTimestamp Visible AcceptsVisible)

structure Credentials where
  key : FixedBytes 16
  secret : String
  passphrase : String
  deriving DecidableEq

/-- A UUID as it is printed. -/
def uuidText (key : FixedBytes 16) : String :=
  hexText (key.bytes.take 4) ++ "-" ++ hexText ((key.bytes.drop 4).take 2) ++ "-" ++
    hexText ((key.bytes.drop 6).take 2) ++ "-" ++ hexText ((key.bytes.drop 8).take 2) ++ "-" ++
    hexText (key.bytes.drop 10)

example : uuidText (FixedBytes.zero 16) = "00000000-0000-0000-0000-000000000000" := by decide

/-- The libraries requests are signed with: the MAC under a key, the check of a header value,
and the texts the errors quote. -/
structure L2Library where
  hmac : Bytes → Bytes → FixedBytes 32
  validHeader : String → Bool
  badSecret : String → String
  badHeader : String
  smallSlice : String

/-- The client, less its connection. -/
structure ClobClient where
  host : String
  chainId : UInt64
  address : Address
  identity : OrderIdentity
  credentials : Credentials

/-- A parsed URL, as far as requests use it. -/
structure Uri where
  host : Option String
  port : Option UInt16
  path : String

/-- What requests go out over: the URL parsers of the poster and of the client, the resolver, and
the setup of TLS, which panics with a text where no cryptography provider is installed. -/
structure Transport where
  parseUri : String → Except String Uri
  parseUrl : String → Except String Uri
  lookupHost : String → UInt16 → Except String (List String)
  tls : Except String Unit

section
variable (lib : L2Library) (transport : Transport) (keccak256 : Bytes → B256) (clob : ClobClient)

def decodeSecret (secret : String) : Option Bytes := Base64.decode secret.toList

/-! ## The client -/

/-- `auth::l2_hmac`. -/
def l2Hmac (secret message : String) : Except Error String :=
  match decodeSecret secret with
  | none =>
    .error (.invalidData ("credentials secret is not base64: " ++ lib.badSecret secret))
  | some key => .ok (String.ofList (Base64.encode (lib.hmac key (utf8 message)).bytes))

/-- `auth::l2_headers`. -/
def l2Headers (timestamp : Int64) (method path body : String) : Except Error HeaderMap := do
  let signature ← l2Hmac lib clob.credentials.secret (l2Message timestamp method path body)
  let map ← insertHeader lib.validHeader [] polyAddress (clob.address.display keccak256)
  let map ← insertHeader lib.validHeader map polyApiKey (uuidText clob.credentials.key)
  let map ← insertHeader lib.validHeader map polyPassphrase clob.credentials.passphrase
  let map ← insertHeader lib.validHeader map polySignature signature
  insertHeader lib.validHeader map polyTimestamp timestamp.toInt.repr

/-- A request on the wire; the query, which is not signed, is left out of the path. -/
structure WireRequest where
  method : String
  path : String
  headers : HeaderMap
  body : Bytes

/-- A call of the client; a URL that does not parse is an error of the send. -/
def clientRequest (method endpoint : String) (timestamp : Int64) : Except Error WireRequest := do
  let headers ← l2Headers lib keccak256 clob timestamp method ("/" ++ endpoint) ""
  let url ← (transport.parseUrl (clob.host ++ endpoint)).mapError Error.http
  pure ⟨method, url.path, headers, []⟩

/-! ## The poster -/

/-- A pool of connections to one address. -/
structure PostClient where
  addr : String

structure FastPoster where
  client : PostClient
  cancelClient : PostClient
  url : Uri
  orderUrl : Uri
  hmacKey : Bytes
  addressHeader : String
  apiKeyHeader : String
  passphraseHeader : String

def buildClient (addr : String) : Except Stop PostClient := do
  let _ ← transport.tls.mapError Stop.panicked
  pure ⟨addr⟩

/-- `HeaderValue::from_str`, with the error a caller makes of a refusal. -/
def parseHeader (what value : String) : Except Error String :=
  if lib.validHeader value then .ok value
  else .error (.invalidData (what ++ ": " ++ lib.badHeader))

def FastPoster.new : Except Stop FastPoster := do
  let secret := clob.credentials.secret
  let hmacKey ← (decodeSecret secret).elim
    (.error (.failed (.invalidData ("invalid HMAC secret: " ++ lib.badSecret secret)))) .ok
  let url ← (transport.parseUri (clob.host ++ "orders")).mapError
    fun e => .failed (.invalidData ("invalid URL: " ++ e))
  let orderUrl ← (transport.parseUri (clob.host ++ "order")).mapError
    fun e => .failed (.invalidData ("invalid order URL: " ++ e))
  let host ← url.host.elim (.error (.failed (.invalidData "CLOB URL has no host"))) .ok
  let addrs ← (transport.lookupHost host (url.port.getD 443)).mapError
    fun e => .failed (.invalidData ("DNS lookup failed for " ++ host ++ ": " ++ e))
  let addr ← addrs.head?.elim
    (.error (.failed (.invalidData ("DNS returned no addresses for " ++ host)))) .ok
  let client ← buildClient transport addr
  let cancelClient ← buildClient transport addr
  let header (value : String) : Except Stop String :=
    (parseHeader lib "invalid header value" value).mapError .failed
  let addressHeader ← header (clob.address.display keccak256)
  let apiKeyHeader ← header (uuidText clob.credentials.key)
  let passphraseHeader ← header clob.credentials.passphrase
  pure { client, cancelClient, url, orderUrl, hmacKey, addressHeader, apiKeyHeader,
         passphraseHeader }

/-- `encode_slice` into a buffer. -/
def encodeSlice (bytes : Bytes) (size : Nat) : Except Error String :=
  if (Base64.encode bytes).length ≤ size then .ok (String.ofList (Base64.encode bytes))
  else .error (.invalidData ("base64 encode failed: " ++ lib.smallSlice))

/-- `build_post`, and the same in `send_delete`: the MAC of the buffer, and the tail of the
buffer as the body. -/
def FastPoster.build (poster : FastPoster) (uri : Uri) (sent : SentRequest) :
    Except Error WireRequest := do
  let signature ← encodeSlice lib (lib.hmac poster.hmacKey sent.signed).bytes 44
  let signatureHeader ← parseHeader lib "signature header" signature
  let timestampHeader ← parseHeader lib "timestamp header" sent.timestamp
  pure
    { method := sent.method
      path := uri.path
      headers :=
        [("Content-Type", "application/json"), ("Connection", "keep-alive"),
          (polyAddress, poster.addressHeader), (polyApiKey, poster.apiKeyHeader),
          (polyPassphrase, poster.passphraseHeader), (polySignature, signatureHeader),
          (polyTimestamp, timestampHeader)]
      body := sent.body }

/-- The URL a call of the poster goes to. -/
def FastPoster.uri (poster : FastPoster) : Call → Uri
  | .postOrderSingle _ | .cancelSingle _ => poster.orderUrl
  | _ => poster.url

/-- A call as its request goes out. -/
def Call.wire (tooLarge : BitVec 256 → String) (timestamp : Int64) :
    Call → Except Stop WireRequest
  | cancelAll =>
    (clientRequest lib transport keccak256 clob "DELETE" "cancel-all" timestamp).mapError .failed
  | openOrders =>
    (clientRequest lib transport keccak256 clob "GET" "data/orders" timestamp).mapError .failed
  | trades =>
    (clientRequest lib transport keccak256 clob "GET" "data/trades" timestamp).mapError .failed
  | call => do
    let poster ← FastPoster.new lib transport keccak256 clob
    let sent ← (call.request tooLarge timestamp).mapError .failed
    (poster.build lib (poster.uri call) sent).mapError .failed

/-! ## What a call needs -/

/-- The endpoint behind the host. -/
def Call.endpoint : Call → String
  | postOrders _ | cancelOrders _ => "orders"
  | postOrderSingle _ | cancelSingle _ => "order"
  | cancelAll => "cancel-all"
  | openOrders => "data/orders"
  | trades => "data/trades"

/-- Both URLs of the poster parse, the first names a host that resolves, and TLS can be set up. -/
structure Transport.Pins (transport : Transport) (host : String) (url orderUrl : Uri)
    (addr : String) : Prop where
  url_ok : transport.parseUri (host ++ "orders") = .ok url
  orderUrl_ok : transport.parseUri (host ++ "order") = .ok orderUrl
  resolves : ∃ name rest, url.host = some name ∧
    transport.lookupHost name (url.port.getD 443) = .ok (addr :: rest)
  tls_ok : transport.tls = .ok ()

/-- The call finds its way to the host. -/
def Call.Routed (host : String) : Call → Prop
  | cancelAll => ∃ url, transport.parseUrl (host ++ "cancel-all") = .ok url
  | openOrders => ∃ url, transport.parseUrl (host ++ "data/orders") = .ok url
  | trades => ∃ url, transport.parseUrl (host ++ "data/trades") = .ok url
  | _ => ∃ url orderUrl addr, transport.Pins host url orderUrl addr

/-- The host brings no path of its own, which would not be signed. -/
def Call.Bare (host : String) (call : Call) : Prop :=
  ∀ uri, transport.parseUri (host ++ call.endpoint) = .ok uri ∨
    transport.parseUrl (host ++ call.endpoint) = .ok uri → uri.path = "/" ++ call.endpoint

/-! ## The venue -/

/-- What a venue that knows the clob checks: the fixed headers, and the MAC of the timestamp
header, the method, the path and the body it received. -/
def Accepts (key : Bytes) (r : WireRequest) : Prop :=
  r.headers.lookup polyAddress = some (clob.address.display keccak256) ∧
  r.headers.lookup polyApiKey = some (uuidText clob.credentials.key) ∧
  r.headers.lookup polyPassphrase = some clob.credentials.passphrase ∧
  ∃ timestamp, r.headers.lookup polyTimestamp = some timestamp ∧
    r.headers.lookup polySignature = some (String.ofList (Base64.encode
      (lib.hmac key (utf8 timestamp ++ utf8 r.method ++ utf8 r.path ++ r.body)).bytes))

end

/-- The five headers of a signed request. -/
def signedHeaders (headers : HeaderMap) : HeaderMap :=
  headers.filter fun header =>
    header.1 ∈ [polyAddress, polyApiKey, polyPassphrase, polySignature, polyTimestamp]

/-! ## Header values -/

theorem visible_uuidText (key : FixedBytes 16) : ∀ c ∈ (uuidText key).toList, Visible c := by
  have hhex (bs : Bytes) : ∀ c ∈ (hexText bs).toList, Visible c := by
    intro c hc
    refine Auth.visible_hexText bs c ?_
    rw [String.toList_append]
    exact List.mem_append_right _ hc
  have hdash : ∀ c ∈ "-".toList, Visible c := by
    intro c hc
    rw [List.mem_singleton.mp hc]
    unfold Visible
    decide
  intro c hc
  simp only [uuidText, String.toList_append, List.mem_append] at hc
  rcases hc with (((((((h | h) | h) | h) | h) | h) | h) | h) | h
  · exact hhex _ c h
  · exact hdash c h
  · exact hhex _ c h
  · exact hdash c h
  · exact hhex _ c h
  · exact hdash c h
  · exact hhex _ c h
  · exact hdash c h
  · exact hhex _ c h

theorem visible_base64 (bytes : Bytes) :
    ∀ c ∈ (String.ofList (Base64.encode bytes)).toList, Visible c := by
  have hall : Base64.alphabet.all (fun c => 0x20 ≤ c.toNat && c.toNat ≤ 0x7e) = true := by
    decide +kernel
  intro c hc
  rw [String.toList_ofList] at hc
  rcases Base64.mem_encode hc with h | rfl
  · have hc := List.all_eq_true.mp hall c h
    rw [Bool.and_eq_true, decide_eq_true_eq, decide_eq_true_eq] at hc
    exact hc
  · unfold Visible
    decide

theorem visible_toUpper (n : Nat) : Visible (hexDigit n).toUpper := by
  have hall : ∀ m : Fin 16, Visible (hexDigit m.val).toUpper := by
    unfold Visible
    decide
  by_cases h : n < 16
  · exact hall ⟨n, h⟩
  · have hlen : "0123456789abcdef".toList.length ≤ n := by simpa using h
    rw [hexDigit, List.getD_eq_default _ _ hlen]
    unfold Visible
    decide

theorem visible_display (keccak256 : Bytes → B256) (address : Address) :
    ∀ c ∈ (address.display keccak256).toList, Visible c := by
  intro c hc
  simp only [Address.display, String.toList_append, String.toList_ofList, List.mem_append] at hc
  rcases hc with hmark | hdigit
  · have hcases : c = '0' ∨ c = 'x' := by simpa using hmark
    unfold Visible
    rcases hcases with rfl | rfl <;> decide
  · obtain ⟨digit, hmem, rfl⟩ := List.mem_map.mp hdigit
    obtain ⟨b, _, hb⟩ := List.mem_flatMap.mp (List.of_mem_zip hmem).1
    by_cases hcap : 8 ≤ digit.2
    · rw [if_pos hcap]
      rcases List.mem_pair.mp hb with h | h
      · rw [h]
        exact visible_toUpper _
      · rw [h]
        exact visible_toUpper _
    · rw [if_neg hcap]
      rcases List.mem_pair.mp hb with h | h
      · rw [h]
        exact Auth.visible_hexDigit _
      · rw [h]
        exact Auth.visible_hexDigit _

/-! ## Signing -/

section
variable {lib : L2Library} {transport : Transport} (hvalid : AcceptsVisible lib.validHeader)
  (keccak256 : Bytes → B256) (clob : ClobClient)

/-- The headers of a signed request, in the order in which they are inserted. -/
def headersOf (signature timestamp : String) : HeaderMap :=
  [(polyAddress, clob.address.display keccak256), (polyApiKey, uuidText clob.credentials.key),
    (polyPassphrase, clob.credentials.passphrase), (polySignature, signature),
    (polyTimestamp, timestamp)]

/-- The signature of a message under a key. -/
def macText (lib : L2Library) (key : Bytes) (message : Bytes) : String :=
  String.ofList (Base64.encode (lib.hmac key message).bytes)

include hvalid in
/-- Only the secret and the passphrase can be refused. -/
theorem l2Headers_value (timestamp : Int64) (method path body : String) {key : Bytes}
    (hkey : decodeSecret clob.credentials.secret = some key) :
    l2Headers lib keccak256 clob timestamp method path body =
      if lib.validHeader clob.credentials.passphrase then
        .ok (headersOf keccak256 clob
          (macText lib key (utf8 (l2Message timestamp method path body))) timestamp.toInt.repr)
      else .error (.invalidData ("invalid header value for " ++ polyPassphrase)) := by
  have haddress := hvalid _ (visible_display keccak256 clob.address)
  have hapiKey := hvalid _ (visible_uuidText clob.credentials.key)
  have hsignature := hvalid _ (visible_base64
    (lib.hmac key (utf8 (l2Message timestamp method path body))).bytes)
  have htimestamp := hvalid _ (Auth.visible_repr timestamp.toInt)
  rw [l2Headers, l2Hmac, hkey]
  show (do
    let map ← insertHeader lib.validHeader [] polyAddress (clob.address.display keccak256)
    let map ← insertHeader lib.validHeader map polyApiKey (uuidText clob.credentials.key)
    let map ← insertHeader lib.validHeader map polyPassphrase clob.credentials.passphrase
    let map ← insertHeader lib.validHeader map polySignature _
    insertHeader lib.validHeader map polyTimestamp _) = _
  by_cases hpass : lib.validHeader clob.credentials.passphrase = true
  · simp only [insertHeader, haddress, hapiKey, hpass, hsignature, htimestamp, if_true]
    rfl
  · simp only [insertHeader, haddress, hapiKey, hpass, if_true]
    rfl

theorem mapError_ok {ε ε' α : Type} {x : Except ε α} {f : ε → ε'} {a : α} :
    x.mapError f = .ok a ↔ x = .ok a := by
  cases x <;> simp [Except.mapError]

theorem elim_ok {ε α : Type} {x : Option α} {e : ε} {a : α} :
    (x.elim (.error e) .ok : Except ε α) = .ok a ↔ x = some a := by
  cases x <;> simp

/-- A header that is taken is the value. -/
theorem parseHeader_ok {what value header : String} (h : parseHeader lib what value = .ok header) :
    lib.validHeader value = true ∧ header = value := by
  unfold parseHeader at h
  split at h
  next hok => exact ⟨hok, (Except.ok.inj h).symm⟩
  next => cases h

/-- The poster of a client. -/
def posterOf (key : Bytes) (url orderUrl : Uri) (addr : String) : FastPoster where
  client := ⟨addr⟩
  cancelClient := ⟨addr⟩
  url
  orderUrl
  hmacKey := key
  addressHeader := clob.address.display keccak256
  apiKeyHeader := uuidText clob.credentials.key
  passphraseHeader := clob.credentials.passphrase

/-- What a poster that was built needed. -/
theorem newPoster_inv {poster : FastPoster}
    (h : FastPoster.new lib transport keccak256 clob = .ok poster) :
    ∃ key url orderUrl addr, decodeSecret clob.credentials.secret = some key ∧
      lib.validHeader clob.credentials.passphrase = true ∧
      transport.Pins clob.host url orderUrl addr ∧
      poster = posterOf keccak256 clob key url orderUrl addr := by
  obtain ⟨key, hkey, h⟩ := bind_ok h
  obtain ⟨url, hurl, h⟩ := bind_ok h
  obtain ⟨orderUrl, horderUrl, h⟩ := bind_ok h
  obtain ⟨name, hname, h⟩ := bind_ok h
  obtain ⟨addrs, haddrs, h⟩ := bind_ok h
  obtain ⟨addr, haddr, h⟩ := bind_ok h
  obtain ⟨client, hclient, h⟩ := bind_ok h
  obtain ⟨cancelClient, hcancelClient, h⟩ := bind_ok h
  obtain ⟨address, haddress, h⟩ := bind_ok h
  obtain ⟨apiKey, hapiKey, h⟩ := bind_ok h
  obtain ⟨passphrase, hpassphrase, h⟩ := bind_ok h
  obtain ⟨setup, htls, hclient⟩ := bind_ok hclient
  obtain ⟨-, -, hcancelClient⟩ := bind_ok hcancelClient
  obtain ⟨-, rfl⟩ := parseHeader_ok (mapError_ok.mp haddress)
  obtain ⟨-, rfl⟩ := parseHeader_ok (mapError_ok.mp hapiKey)
  obtain ⟨hvalid, rfl⟩ := parseHeader_ok (mapError_ok.mp hpassphrase)
  obtain ⟨rest, rfl⟩ := List.head?_eq_some_iff.mp (elim_ok.mp haddr)
  obtain rfl := Except.ok.inj hclient
  obtain rfl := Except.ok.inj hcancelClient
  exact ⟨key, url, orderUrl, addr, elim_ok.mp hkey, hvalid,
    ⟨mapError_ok.mp hurl, mapError_ok.mp horderUrl,
      ⟨name, rest, elim_ok.mp hname, mapError_ok.mp haddrs⟩, mapError_ok.mp htls⟩,
    (Except.ok.inj h).symm⟩

include hvalid in
theorem newPoster_ok {key : Bytes} (hkey : decodeSecret clob.credentials.secret = some key)
    (hpass : lib.validHeader clob.credentials.passphrase = true) {url orderUrl : Uri}
    {addr : String} (h : transport.Pins clob.host url orderUrl addr) :
    FastPoster.new lib transport keccak256 clob =
      .ok (posterOf keccak256 clob key url orderUrl addr) := by
  have haddress := hvalid _ (visible_display keccak256 clob.address)
  have hapiKey := hvalid _ (visible_uuidText clob.credentials.key)
  obtain ⟨name, rest, hname, haddrs⟩ := h.resolves
  simp only [FastPoster.new, hkey, h.url_ok, h.orderUrl_ok, Option.elim_some, Except.mapError, bind,
    Except.bind, hname, haddrs, List.head?_cons, buildClient, h.tls_ok, parseHeader, haddress,
    hapiKey, hpass, if_true]
  rfl

/-- The signature fits its buffer, to the byte. -/
theorem encodeSlice_mac (key message : Bytes) :
    encodeSlice lib (lib.hmac key message).bytes 44 = .ok (macText lib key message) := by
  have hlen : (Base64.encode (lib.hmac key message).bytes).length = 44 := by
    rw [Base64.length_encode, FixedBytes.length_eq]
  rw [encodeSlice, if_pos (Nat.le_of_eq hlen)]
  rfl

def posterHeaders (signature timestamp : String) : HeaderMap :=
  ("Content-Type", "application/json") :: ("Connection", "keep-alive") ::
    headersOf keccak256 clob signature timestamp

include hvalid in
theorem build_value (key : Bytes) (url orderUrl uri : Uri) (addr : String) {sent : SentRequest}
    {timestamp : Int64} (htimestamp : sent.timestamp = timestamp.toInt.repr) :
    (posterOf keccak256 clob key url orderUrl addr).build lib uri sent =
      .ok ⟨sent.method, uri.path,
        posterHeaders keccak256 clob (macText lib key sent.signed) sent.timestamp,
        sent.body⟩ := by
  have hsignature := hvalid _ (visible_base64 (lib.hmac key sent.signed).bytes)
  have hstamp := hvalid _ (Auth.visible_repr timestamp.toInt)
  rw [← htimestamp] at hstamp
  rw [FastPoster.build, show (posterOf keccak256 clob key url orderUrl addr).hmacKey = key from rfl,
    encodeSlice_mac]
  simp only [parseHeader, macText, bind, Except.bind, hsignature, hstamp, if_true]
  rfl

/-- The request of a call goes out to a path with what was signed, its signature and the headers
of one of the two ways. -/
def Sent (lib : L2Library) (key : Bytes) (sent : SentRequest) (path : String) (w : WireRequest) :
    Prop :=
  w.method = sent.method ∧ w.path = path ∧ w.body = sent.body ∧
    (w.headers = headersOf keccak256 clob (macText lib key sent.signed) sent.timestamp ∨
      w.headers = posterHeaders keccak256 clob (macText lib key sent.signed) sent.timestamp)

variable {tooLarge : BitVec 256 → String} {timestamp : Int64} {sent : SentRequest} {path : String}

include hvalid in
theorem clientRequest_sent {key : Bytes} (hkey : decodeSecret clob.credentials.secret = some key)
    (hpass : lib.validHeader clob.credentials.passphrase = true) {method endpoint : String}
    {url : Uri} (hurl : transport.parseUrl (clob.host ++ endpoint) = .ok url) :
    ∃ w, clientRequest lib transport keccak256 clob method endpoint timestamp = .ok w ∧
      Sent keccak256 clob lib key (signHeaders method ("/" ++ endpoint) timestamp) url.path w := by
  rw [clientRequest, l2Headers_value hvalid keccak256 clob _ _ _ _ hkey, if_pos hpass, hurl]
  exact ⟨_, rfl, rfl, rfl, rfl, .inl rfl⟩

/-- What a call of the client that went out needed. -/
theorem clientRequest_inv {method endpoint : String} {w : WireRequest}
    (h : clientRequest lib transport keccak256 clob method endpoint timestamp = .ok w) :
    (∃ key, decodeSecret clob.credentials.secret = some key) ∧
      lib.validHeader clob.credentials.passphrase = true ∧
      ∃ url, transport.parseUrl (clob.host ++ endpoint) = .ok url := by
  obtain ⟨headers, hheaders, h⟩ := bind_ok h
  obtain ⟨url, hurl, -⟩ := bind_ok h
  obtain ⟨signature, hsignature, hheaders⟩ := bind_ok hheaders
  obtain ⟨address, -, hheaders⟩ := bind_ok hheaders
  obtain ⟨apiKey, -, hheaders⟩ := bind_ok hheaders
  obtain ⟨passphrase, hpass, -⟩ := bind_ok hheaders
  refine ⟨?_, ?_, url, mapError_ok.mp hurl⟩
  · unfold l2Hmac at hsignature
    split at hsignature
    next => cases hsignature
    next key hkey => exact ⟨key, hkey⟩
  · unfold insertHeader at hpass
    split at hpass
    next hok => exact hok
    next => cases hpass

include hvalid in
/-- With usable credentials and a way to the host, the request of a call goes out. -/
theorem Call.wire_sent {key : Bytes} (hkey : decodeSecret clob.credentials.secret = some key)
    (hpass : lib.validHeader clob.credentials.passphrase = true) {call : Call}
    (hrouted : call.Routed transport clob.host)
    (hsent : call.request tooLarge timestamp = .ok sent) :
    ∃ w uri, call.wire lib transport keccak256 clob tooLarge timestamp = .ok w ∧
      (transport.parseUri (clob.host ++ call.endpoint) = .ok uri ∨
        transport.parseUrl (clob.host ++ call.endpoint) = .ok uri) ∧
      Sent keccak256 clob lib key sent uri.path w := by
  obtain ⟨r, -, hcarries⟩ := Call.request_carries hsent
  have hclient {method endpoint : String} {url : Uri}
      (hurl : transport.parseUrl (clob.host ++ endpoint) = .ok url)
      (hsame : sent = signHeaders method ("/" ++ endpoint) timestamp) :
      ∃ w, clientRequest lib transport keccak256 clob method endpoint timestamp = .ok w ∧
        Sent keccak256 clob lib key sent url.path w := by
    rw [hsame]
    exact clientRequest_sent hvalid keccak256 clob hkey hpass hurl
  have hposted {url orderUrl : Uri} {addr : String}
      (hpins : transport.Pins clob.host url orderUrl addr)
      (h : call.wire lib transport keccak256 clob tooLarge timestamp = (do
        let poster ← FastPoster.new lib transport keccak256 clob
        let sent ← (call.request tooLarge timestamp).mapError Stop.failed
        (poster.build lib (poster.uri call) sent).mapError Stop.failed)) :
      ∃ w, call.wire lib transport keccak256 clob tooLarge timestamp = .ok w ∧
        Sent keccak256 clob lib key sent
          ((posterOf keccak256 clob key url orderUrl addr).uri call).path w := by
    rw [h, newPoster_ok hvalid keccak256 clob hkey hpass hpins, hsent]
    simp only [bind, Except.bind, Except.mapError,
      build_value hvalid keccak256 clob key _ _ _ _ hcarries.timestamp_eq]
    exact ⟨_, rfl, rfl, rfl, rfl, .inr rfl⟩
  cases call with
  | postOrders | cancelOrders =>
    obtain ⟨url, orderUrl, addr, hpins⟩ := hrouted
    obtain ⟨w, hw, hout⟩ := hposted hpins rfl
    exact ⟨w, url, hw, .inl hpins.url_ok, hout⟩
  | postOrderSingle | cancelSingle =>
    obtain ⟨url, orderUrl, addr, hpins⟩ := hrouted
    obtain ⟨w, hw, hout⟩ := hposted hpins rfl
    exact ⟨w, orderUrl, hw, .inl hpins.orderUrl_ok, hout⟩
  | cancelAll | openOrders | trades =>
    obtain ⟨url, hurl⟩ := hrouted
    obtain ⟨w, hw, hout⟩ := hclient hurl (Except.ok.inj hsent).symm
    exact ⟨w, url, mapError_ok.mpr hw, .inr hurl, hout⟩

include hvalid in
/-- A call goes out exactly when the credentials are usable, there is a way to the host and its
body can be written. -/
theorem Call.wire_ok_iff (call : Call) :
    (∃ w, call.wire lib transport keccak256 clob tooLarge timestamp = .ok w) ↔
      (∃ key, decodeSecret clob.credentials.secret = some key) ∧
        lib.validHeader clob.credentials.passphrase = true ∧
        call.Routed transport clob.host ∧ ∃ sent, call.request tooLarge timestamp = .ok sent := by
  constructor
  · intro h
    obtain ⟨w, hw⟩ := h
    cases call with
    | cancelAll | openOrders | trades =>
      obtain ⟨hkey, hpass, hurl⟩ := clientRequest_inv keccak256 clob (mapError_ok.mp hw)
      exact ⟨hkey, hpass, hurl, _, rfl⟩
    | postOrders | postOrderSingle | cancelOrders | cancelSingle =>
      obtain ⟨poster, hposter, hw⟩ := bind_ok hw
      obtain ⟨sent, hsent, -⟩ := bind_ok hw
      obtain ⟨key, url, orderUrl, addr, hkey, hpass, hpins, -⟩ :=
        newPoster_inv keccak256 clob hposter
      exact ⟨⟨key, hkey⟩, hpass, ⟨url, orderUrl, addr, hpins⟩, sent, mapError_ok.mp hsent⟩
  · intro h
    obtain ⟨⟨key, hkey⟩, hpass, hrouted, sent, hsent⟩ := h
    obtain ⟨w, -, hw, -⟩ := Call.wire_sent hvalid keccak256 clob hkey hpass hrouted hsent
    exact ⟨w, hw⟩

/-- What is signed names the endpoint of the call. -/
theorem Call.request_path {call : Call} (h : call.request tooLarge timestamp = .ok sent) :
    sent.path = "/" ++ call.endpoint := by
  have hpost {signPath path : String} {json : Except String String}
      (h : signPost signPath path json timestamp = .ok sent) : sent.path = path := by
    cases json with
    | error e => cases h
    | ok text =>
      cases h
      rfl
  cases call with
  | postOrders | postOrderSingle => exact hpost h
  | cancelOrders | cancelSingle | cancelAll | openOrders | trades =>
    cases h
    rfl

theorem Sent.signedHeaders_eq {key : Bytes} {w : WireRequest}
    (h : Sent keccak256 clob lib key sent path w) :
    signedHeaders w.headers =
      headersOf keccak256 clob (macText lib key sent.signed) sent.timestamp := by
  rcases h.2.2.2 with hheaders | hheaders
  · rw [hheaders]
    rfl
  · rw [hheaders]
    rfl

theorem Sent.lookups {key : Bytes} {w : WireRequest}
    (h : Sent keccak256 clob lib key sent path w) :
    w.headers.lookup polyAddress = some (clob.address.display keccak256) ∧
    w.headers.lookup polyApiKey = some (uuidText clob.credentials.key) ∧
    w.headers.lookup polyPassphrase = some clob.credentials.passphrase ∧
    w.headers.lookup polyTimestamp = some sent.timestamp ∧
    w.headers.lookup polySignature = some (macText lib key sent.signed) := by
  rcases h.2.2.2 with hheaders | hheaders
  · rw [hheaders]
    exact ⟨rfl, rfl, rfl, rfl, rfl⟩
  · rw [hheaders]
    exact ⟨rfl, rfl, rfl, rfl, rfl⟩

theorem message_bytes (timestamp : Int64) (r : L2Request) :
    utf8 timestamp.toInt.repr ++ utf8 r.method ++ utf8 r.path ++ utf8 r.body =
      utf8 (l2Message timestamp r.method r.path r.body) := by
  simp only [l2Message, utf8_append]

end

/-- A MAC that keeps the end of the message, and a header check that takes visible text only. -/
def plainLibrary : L2Library where
  hmac key message := ⟨beBytes 32 (beNat (key ++ message)), beBytes_length 32 _⟩
  validHeader value := value.toList.all fun c => 0x20 ≤ c.toNat && c.toNat ≤ 0x7e
  badSecret _ := "Invalid padding"
  badHeader := "failed to parse header value"
  smallSlice := "Output slice is too small"

/-- A URL without a port: what stands before the first slash, and the rest. -/
def plainUri (text : String) : Except String Uri :=
  if "https://".toList.isPrefixOf text.toList then
    let rest := text.toList.drop 8
    .ok ⟨some (String.ofList (rest.takeWhile (· ≠ '/'))), none,
      String.ofList (rest.dropWhile (· ≠ '/'))⟩
  else .error "invalid uri character"

def plainTransport : Transport where
  parseUri := plainUri
  parseUrl := plainUri
  lookupHost _ _ := .ok ["104.18.34.205:443"]
  tls := .ok ()

def plainClient : ClobClient where
  host := "https://clob.polymarket.com/"
  chainId := 137
  address := Address.ofNat 1
  identity := .eoa (Address.ofNat 1)
  credentials := ⟨FixedBytes.zero 16, "c2VjcmV0", "phrase"⟩

theorem plainLibrary_visible : AcceptsVisible plainLibrary.validHeader := by
  intro s hs
  refine List.all_eq_true.mpr fun c hc => ?_
  rw [Bool.and_eq_true, decide_eq_true_eq, decide_eq_true_eq]
  exact hs c hc

end Eggplant.Clob
