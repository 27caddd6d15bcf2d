import Eggplant.Clob.Headers
import Eggplant.Clob.OpenOrders
import Eggplant.Lib.Tagged
import Eggplant.Relayer.Submit
import Eggplant.Wallets
import Eggplant.Ws.User

/-!
# Obtaining an API key

A process asks the venue to create a key and, when the venue answers with an error, to derive
the one there is. Processes do so in any interleaving, requests and answers get lost, and
processes start again. Each wallet and nonce still has one key, and whoever obtains it obtains
the same.
-/
namespace Eggplant.Clob

set_option autoImplicit false

open Eggplant.Lib Eggplant.Lib.Words Eggplant.Lib.Text Eggplant.Lib.Oracle
open Eggplant.Lib.Serde (Decoder field renamed string struct)
open Eggplant.Auth (AcceptsVisible HeaderMap l1Headers polyAddress polyNonce)
open Eggplant.Chain (WalletKind)
open Eggplant.Relayer (Signer)

/-! ## The builder -/

structure ClobClientBuilder where
  host : String := "https://clob.polymarket.com"
  chainId : UInt64 := Chain.polygon
  signatureType : SignatureType := .eoa
  funder : Option Address := none
  nonce : Option UInt32 := none
  useServerTime : Bool := false

def normalizeHost (host : String) : String :=
  if host.toList.getLast? = some '/' then host else host ++ "/"

def ClobClientBuilder.resolveIdentity (builder : ClobClientBuilder) (signerAddress : Address) :
    Except Error OrderIdentity :=
  match builder.signatureType with
  | .eoa =>
    if builder.funder.any (· ≠ signerAddress) then
      .error (.invalidData
        "signature type 0 (EOA) takes no separate funder — the EOA itself is the maker")
    else .ok (.eoa signerAddress)
  | .proxy =>
    (builder.funder.map (OrderIdentity.proxy signerAddress)).elim
      (.error (.invalidData ("signature type 1 (proxy) requires .funder(proxy_wallet); " ++
        "derive it with chain::derive_proxy_wallet"))) .ok
  | .gnosisSafe =>
    (builder.funder.map (OrderIdentity.gnosisSafe signerAddress)).elim
      (.error (.invalidData ("signature type 2 (Safe) requires .funder(safe_wallet); " ++
        "derive it with chain::derive_safe_wallet"))) .ok
  | .poly1271 =>
    (builder.funder.map OrderIdentity.poly1271).elim
      (.error (.invalidData "signature type 3 (Poly1271) requires .funder(deposit_wallet)")) .ok

def ClobClientBuilder.withCredentials (builder : ClobClientBuilder) (signerAddress : Address)
    (credentials : Credentials) : Except Error ClobClient := do
  let identity ← builder.resolveIdentity signerAddress
  pure
    { host := normalizeHost builder.host
      chainId := builder.chainId
      address := signerAddress
      identity
      credentials }

/-! ## The requests -/

/-- Reading JSON and key texts, and the check of a header value. -/
structure AuthLibrary where
  json : JsonLibrary
  uuid : String → Option (FixedBytes 16)
  validHeader : String → Bool

inductive Endpoint where
  | create
  | derive
  deriving DecidableEq

def Endpoint.method : Endpoint → String
  | create => "POST"
  | derive => "GET"

def Endpoint.path : Endpoint → String
  | create => "auth/api-key"
  | derive => "auth/derive-api-key"

structure KeyRequest where
  method : String
  url : String
  headers : HeaderMap

/-- The local clock, and what becomes of asking the venue for its time. -/
structure Clock where
  now : Int64
  venue : Except Error Response

/-- `trim_matches` of the double quote. -/
def trimQuotes (s : String) : String :=
  String.ofList ((s.toList.dropWhile (· = '"')).reverse.dropWhile (· = '"')).reverse

def fetchServerTime (answer : Except Error Response) : Except Error Int64 := do
  let response ← answer
  match response.text with
  | .error e => .error (.http e)
  | .ok text =>
    if ¬(200 ≤ response.status ∧ response.status < 300) then
      .error (.api response.status (String.ofList (text.toList.take 300)))
    else
      match readI64 (trimQuotes (Ws.User.trim text)) with
      | some n => .ok (Int64.ofInt n)
      | none => .error (.invalidData ("unparseable server time: " ++ text))

def ClobClientBuilder.timestamp (builder : ClobClientBuilder) (clock : Clock) :
    Except Error Int64 :=
  if builder.useServerTime then fetchServerTime clock.venue else .ok clock.now

section
variable (keccak256 : Bytes → B256) (lib : AuthLibrary)

/-- The key goes by either of two names. -/
def Credentials.deserialize : Decoder Credentials :=
  Ws.User.withAlias "key" "apiKey" (struct ["key", "secret", "passphrase"] fun fields => do
    let key ← field fields "key" none fun v => (string v).bind lib.uuid
    let secret ← field fields "secret" none string
    let passphrase ← field fields "passphrase" none string
    pure { key, secret, passphrase })

/-- `api_key_request` up to the send. -/
def keyRequest (builder : ClobClientBuilder) (signer : Signer) (clock : Clock)
    (endpoint : Endpoint) : Except Error KeyRequest := do
  let timestamp ← builder.timestamp clock
  let headers ← (l1Headers keccak256 lib.validHeader signer.address signer.signHash builder.chainId
    timestamp builder.nonce).value
  pure ⟨endpoint.method, normalizeHost builder.host ++ endpoint.path, headers⟩

def apiKeyRequest (builder : ClobClientBuilder) (signer : Signer) (clock : Clock)
    (send : KeyRequest → Except Error Response) (endpoint : Endpoint) :
    Except Error Credentials := do
  let request ← keyRequest keccak256 lib builder signer clock endpoint
  let response ← send request
  parseResponse lib.json (Credentials.deserialize lib) response

def createApiKey (builder : ClobClientBuilder) (signer : Signer) (clock : Clock)
    (send : KeyRequest → Except Error Response) : Except Error Credentials :=
  apiKeyRequest keccak256 lib builder signer clock send .create

def deriveApiKey (builder : ClobClientBuilder) (signer : Signer) (clock : Clock)
    (send : KeyRequest → Except Error Response) : Except Error Credentials :=
  apiKeyRequest keccak256 lib builder signer clock send .derive

/-- A key is derived only when the venue answered with an error. The clocks and the answers are
those of the request at each endpoint. -/
def authenticate (builder : ClobClientBuilder) (signer : Signer) (clock : Endpoint → Clock)
    (send : Endpoint → KeyRequest → Except Error Response) : Except Error ClobClient := do
  let credentials ←
    match createApiKey keccak256 lib builder signer (clock .create) (send .create) with
    | .ok credentials => .ok credentials
    | .error (.api _ _) =>
      deriveApiKey keccak256 lib builder signer (clock .derive) (send .derive)
    | .error e => .error e
  builder.withCredentials signer.address credentials

end

/-! ## The venue -/

/-- The keys that have been issued, by wallet and nonce. -/
abbrev Keys := Table (Address × Nat) Credentials

/-- The wallet and the nonce a request names. -/
def readKey (headers : HeaderMap) : Option (Address × Nat) := do
  let address ← (headers.lookup polyAddress).bind (readFixedHex 20)
  let nonce ← (headers.lookup polyNonce).bind readDec
  some (address, nonce)

/-- An answer that is an HTTP error, and no rate limit. -/
def Refused (response : Response) : Prop :=
  response.status ≠ 429 ∧ ¬(200 ≤ response.status ∧ response.status < 300) ∧
    response.text.isOk = true

section
variable (lib : AuthLibrary) (text : Credentials → String)

/-- The client reads the credentials the venue wrote. -/
def Spelled (c : Credentials) : Prop :=
  parseResponse lib.json (Credentials.deserialize lib) ⟨200, none, .ok (text c)⟩ = .ok c

/-- How the venue serves a request: each nonce maps to one API key per wallet, which is written
when it is created or derived. -/
inductive Served (keys : Keys) (request : KeyRequest) : Keys → Response → Prop
  | created {key : Address × Nat} {fresh : Credentials} :
      readKey request.headers = some key → request.method = "POST" → keys key = none →
      Spelled lib text fresh →
      Served keys request (keys.insert key fresh) ⟨200, none, .ok (text fresh)⟩
  | derived {key : Address × Nat} {c : Credentials} :
      readKey request.headers = some key → request.method = "GET" → keys key = some c →
      Served keys request keys ⟨200, none, .ok (text c)⟩
  | taken {key : Address × Nat} {c : Credentials} {response : Response} :
      readKey request.headers = some key → request.method = "POST" → keys key = some c →
      Refused response → Served keys request keys response
  | missing {key : Address × Nat} {response : Response} :
      readKey request.headers = some key → request.method = "GET" → keys key = none →
      Refused response → Served keys request keys response

end

/-! ## Many processes -/

/-- One `authenticate`: what it is built with, and the key that signs. -/
structure Party where
  builder : ClobClientBuilder
  signer : Signer

/-- The wallet and the nonce it asks for. -/
def Party.key (p : Party) : Address × Nat := (p.signer.address, (p.builder.nonce.getD 0).toNat)

inductive Stage where
  | asking (endpoint : Endpoint)
  | answered (endpoint : Endpoint) (result : Except Error Credentials)
  | ended (result : Except Error Credentials)

/-- What `authenticate` makes of an answer. -/
def advance : Endpoint → Except Error Credentials → Stage
  | .create, .error (.api _ _) => .asking .derive
  | _, result => .ended result

/-- `authenticate` goes through these stages. -/
theorem authenticate_advance (keccak256 : Bytes → B256) (lib : AuthLibrary)
    (builder : ClobClientBuilder) (signer : Signer) (clock : Endpoint → Clock)
    (send : Endpoint → KeyRequest → Except Error Response) :
    authenticate keccak256 lib builder signer clock send =
      match advance .create
          (apiKeyRequest keccak256 lib builder signer (clock .create) (send .create) .create) with
      | .asking endpoint =>
        (apiKeyRequest keccak256 lib builder signer (clock endpoint) (send endpoint)
          endpoint).bind (builder.withCredentials signer.address)
      | .answered _ result | .ended result =>
        result.bind (builder.withCredentials signer.address) := by
  rw [authenticate, createApiKey]
  cases apiKeyRequest keccak256 lib builder signer (clock .create) (send .create) .create with
  | ok credentials => rfl
  | error e => cases e <;> rfl

structure System where
  keys : Keys
  stage : Nat → Stage

section
variable (keccak256 : Bytes → B256) (lib : AuthLibrary) (text : Credentials → String)
  (party : Nat → Party)

/-- A request is served and answered, or its answer is lost, or it comes to nothing; the process
goes on with the answer, and starts again once it has ended. -/
inductive System.Step (s : System) : System → Prop
  | handled {i : Nat} {endpoint : Endpoint} {clock : Clock} {request : KeyRequest} {keys : Keys}
      {response : Response} : s.stage i = .asking endpoint →
      keyRequest keccak256 lib (party i).builder (party i).signer clock endpoint = .ok request →
      Served lib text s.keys request keys response →
      System.Step s ⟨keys, Function.update s.stage i (.answered endpoint
        (parseResponse lib.json (Credentials.deserialize lib) response))⟩
  | lost {i : Nat} {endpoint : Endpoint} {clock : Clock} {request : KeyRequest} {keys : Keys}
      {response : Response} (e : Error) : s.stage i = .asking endpoint →
      keyRequest keccak256 lib (party i).builder (party i).signer clock endpoint = .ok request →
      Served lib text s.keys request keys response →
      System.Step s ⟨keys, Function.update s.stage i (.answered endpoint (.error e))⟩
  | failed {i : Nat} {endpoint : Endpoint} (e : Error) : s.stage i = .asking endpoint →
      System.Step s ⟨s.keys, Function.update s.stage i (.answered endpoint (.error e))⟩
  | next {i : Nat} {endpoint : Endpoint} {result : Except Error Credentials} :
      s.stage i = .answered endpoint result →
      System.Step s ⟨s.keys, Function.update s.stage i (advance endpoint result)⟩
  | again {i : Nat} {result : Except Error Credentials} : s.stage i = .ended result →
      System.Step s ⟨s.keys, Function.update s.stage i (.asking .create)⟩

def System.Run : System → System → Prop :=
  Relation.ReflTransGen (System.Step keccak256 lib text party)

/-- Every process is about to ask. -/
def System.start (keys : Keys) : System := ⟨keys, fun _ => .asking .create⟩

/-- The request goes out, is served, and the answer arrives. -/
def Answered (p : Party) (clock : Clock) (endpoint : Endpoint)
    (send : KeyRequest → Except Error Response) (keys keys' : Keys) : Prop :=
  (p.builder.timestamp clock).isOk = true ∧
    ∀ request, keyRequest keccak256 lib p.builder p.signer clock endpoint = .ok request →
      ∃ response, send request = .ok response ∧ Served lib text keys request keys' response

end

/-- A process that is served goes on with the answer. -/
theorem System.Run.exchange {keccak256 : Bytes → B256} {lib : AuthLibrary}
    {text : Credentials → String} {party : Nat → Party} {s : System} {i : Nat}
    {endpoint : Endpoint} {clock : Clock} {request : KeyRequest} {keys : Keys}
    {response : Response} (hstage : s.stage i = .asking endpoint)
    (hrequest : keyRequest keccak256 lib (party i).builder (party i).signer clock endpoint =
      .ok request) (hserved : Served lib text s.keys request keys response) :
    System.Run keccak256 lib text party s ⟨keys, Function.update s.stage i
      (advance endpoint (parseResponse lib.json (Credentials.deserialize lib) response))⟩ := by
  let result := parseResponse lib.json (Credentials.deserialize lib) response
  let answered : System := ⟨keys, Function.update s.stage i (.answered endpoint result)⟩
  have hhandled : System.Step keccak256 lib text party s answered :=
    .handled hstage hrequest hserved
  have hnext : System.Step keccak256 lib text party answered
      ⟨keys, Function.update answered.stage i (advance endpoint result)⟩ :=
    .next (Function.update_self i _ _)
  rw [Function.update_idem] at hnext
  exact .tail (.single hhandled) hnext

/-! ## One request -/

section
variable {keccak256 : Bytes → B256} {lib : AuthLibrary} {text : Credentials → String}
  (hvalid : AcceptsVisible lib.validHeader)

include hvalid in
/-- The venue reads the wallet and the nonce of the one who asks. -/
theorem keyRequest_key {p : Party} {clock : Clock} {endpoint : Endpoint}
    {request : KeyRequest}
    (h : keyRequest keccak256 lib p.builder p.signer clock endpoint = .ok request) :
    readKey request.headers = some p.key ∧ request.method = endpoint.method := by
  obtain ⟨timestamp, -, h⟩ := bind_ok h
  obtain ⟨headers, hheaders, h⟩ := bind_ok h
  obtain rfl := Except.ok.inj h
  refine ⟨?_, rfl⟩
  cases hsig : p.signer.signHash (Eip712.digest keccak256 (Auth.clobAuthDomain p.builder.chainId)
      (Auth.attestation p.signer.address timestamp (p.builder.nonce.getD 0)).toStruct) with
  | error e =>
    rw [l1Headers, Logged.bind_value, Logged.ask_value, hsig] at hheaders
    cases hheaders
  | ok signature =>
    rw [Auth.l1Headers_value keccak256 hvalid _ _ _ _ _ hsig] at hheaders
    obtain rfl := Except.ok.inj hheaders
    show ((some p.signer.address.lowerHex).bind (readFixedHex 20)).bind (fun address =>
      ((some (p.builder.nonce.getD 0).toNat.repr).bind readDec).bind fun nonce =>
        some (address, nonce)) = some p.key
    rw [Option.bind_some, readFixedHex_lowerHex, Option.bind_some, Option.bind_some, readDec_repr]
    rfl

theorem parseResponse_refused {response : Response} (h : Refused response) :
    ∃ status body, parseResponse lib.json (Credentials.deserialize lib) response =
      .error (.api status body) := by
  obtain ⟨hlimit, hstatus, htext⟩ := h
  rw [parseResponse, if_neg hlimit]
  cases hbody : response.text with
  | ok body =>
    simp only [if_pos hstatus]
    exact ⟨_, _, rfl⟩
  | error e =>
    rw [hbody] at htext
    cases htext

variable {keys keys' : Keys} {request : KeyRequest} {response : Response} {key : Address × Nat}

theorem insert_other {c : Credentials} {k : Address × Nat} (h : k ≠ key) :
    keys.insert key c k = keys k := by
  simp [Table.insert, Table.extend, Table.single, h]

theorem insert_self {c : Credentials} : keys.insert key c key = some c := by
  simp [Table.insert, Table.extend, Table.single]

/-- A key that has been issued stays. -/
theorem Served.mono (h : Served lib text keys request keys' response) {k : Address × Nat}
    {c : Credentials} (hc : keys k = some c) : keys' k = some c := by
  cases h with
  | @created key _ _ _ hnone _ =>
    have hne : k ≠ key := by
      rintro rfl
      rw [hnone] at hc
      cases hc
    exact (insert_other hne).trans hc
  | derived => exact hc
  | taken => exact hc
  | missing => exact hc

/-- A key that appears is the one asked for, and can be read. -/
theorem Served.new (h : Served lib text keys request keys' response)
    (hkey : readKey request.headers = some key) {k : Address × Nat} {c : Credentials}
    (hc : keys' k = some c) : keys k = some c ∨ (k = key ∧ Spelled lib text c) := by
  cases h with
  | created hasked _ _ hfresh =>
    obtain rfl := Option.some.inj (hkey.symm.trans hasked)
    by_cases hk : k = key
    · rw [hk, insert_self] at hc
      obtain rfl := Option.some.inj hc
      exact .inr ⟨hk, hfresh⟩
    · exact .inl ((insert_other hk).symm.trans hc)
  | derived => exact .inl hc
  | taken => exact .inl hc
  | missing => exact .inl hc

/-- Credentials that are read from an answer are the key's. -/
theorem Served.answer (h : Served lib text keys request keys' response)
    (hkey : readKey request.headers = some key)
    (hspelled : ∀ c, keys key = some c → Spelled lib text c) {c : Credentials}
    (hc : parseResponse lib.json (Credentials.deserialize lib) response = .ok c) :
    keys' key = some c := by
  have hrefusal (hrefused : Refused response) : False := by
    obtain ⟨status, body, hanswer⟩ := parseResponse_refused hrefused
    rw [hanswer] at hc
    cases hc
  cases h with
  | created hasked _ _ hfresh =>
    obtain rfl := Option.some.inj (hkey.symm.trans hasked)
    rw [hfresh] at hc
    rw [← Except.ok.inj hc]
    exact insert_self
  | derived hasked _ hissued =>
    obtain rfl := Option.some.inj (hkey.symm.trans hasked)
    rw [hspelled _ hissued] at hc
    rw [← Except.ok.inj hc]
    exact hissued
  | taken _ _ _ hrefused => exact (hrefusal hrefused).elim
  | missing _ _ _ hrefused => exact (hrefusal hrefused).elim

/-- After a create there is a key; where the answer does not bring it, it is refused. -/
theorem Served.create (h : Served lib text keys request keys' response)
    (hkey : readKey request.headers = some key) (hpost : request.method = "POST") :
    ∃ c, keys' key = some c ∧
      (parseResponse lib.json (Credentials.deserialize lib) response = .ok c ∨
        ∃ status body, parseResponse lib.json (Credentials.deserialize lib) response =
          .error (.api status body)) := by
  have hnotget (hget : request.method = "GET") : False :=
    absurd (hpost.symm.trans hget) (by decide)
  cases h with
  | created hasked _ _ hfresh =>
    obtain rfl := Option.some.inj (hkey.symm.trans hasked)
    exact ⟨_, insert_self, .inl hfresh⟩
  | derived _ hget _ => exact (hnotget hget).elim
  | taken hasked _ hissued hrefused =>
    obtain rfl := Option.some.inj (hkey.symm.trans hasked)
    exact ⟨_, hissued, .inr (parseResponse_refused hrefused)⟩
  | missing _ hget _ _ => exact (hnotget hget).elim

/-- A derive brings the key there is. -/
theorem Served.derive (h : Served lib text keys request keys' response)
    (hkey : readKey request.headers = some key) (hget : request.method = "GET")
    {c : Credentials} (hissued : keys key = some c) (hspelled : Spelled lib text c) :
    parseResponse lib.json (Credentials.deserialize lib) response = .ok c := by
  have hnotpost (hpost : request.method = "POST") : False :=
    absurd (hpost.symm.trans hget) (by decide)
  cases h with
  | created _ hpost _ _ => exact (hnotpost hpost).elim
  | derived hasked _ hissued' =>
    obtain rfl := Option.some.inj (hkey.symm.trans hasked)
    obtain rfl := Option.some.inj (hissued.symm.trans hissued')
    exact hspelled
  | taken _ hpost _ _ => exact (hnotpost hpost).elim
  | missing hasked _ hnone _ =>
    obtain rfl := Option.some.inj (hkey.symm.trans hasked)
    rw [hissued] at hnone
    cases hnone

end

/-! ## Runs -/

/-- The credentials a process has been given. -/
def Stage.credentials : Stage → Option Credentials
  | .answered _ (.ok c) => some c
  | .ended (.ok c) => some c
  | _ => none

theorem advance_credentials {endpoint : Endpoint} {result : Except Error Credentials}
    {c : Credentials} (h : (advance endpoint result).credentials = some c) :
    (Stage.answered endpoint result).credentials = some c := by
  cases result with
  | ok c' => cases endpoint <;> exact h
  | error e =>
    cases endpoint with
    | create => cases e <;> cases h
    | derive => cases h

section
variable {keccak256 : Bytes → B256} {lib : AuthLibrary} {text : Credentials → String}
  {party : Nat → Party} {s s' : System}

/-- What has been issued can be read, and what a process has been given is its key. -/
structure Consistent (lib : AuthLibrary) (text : Credentials → String) (party : Nat → Party)
    (s : System) : Prop where
  spelled : ∀ k c, s.keys k = some c → Spelled lib text c
  given : ∀ i c, (s.stage i).credentials = some c → s.keys (party i).key = some c

theorem Consistent.move (h : Consistent lib text party s) {keys : Keys} {i : Nat} {stage : Stage}
    (hspelled : ∀ k c, keys k = some c → Spelled lib text c)
    (hmono : ∀ k c, s.keys k = some c → keys k = some c)
    (hgiven : ∀ c, stage.credentials = some c → keys (party i).key = some c) :
    Consistent lib text party ⟨keys, Function.update s.stage i stage⟩ := by
  refine ⟨hspelled, fun j c hc => ?_⟩
  simp only at hc
  by_cases hj : j = i
  · subst hj
    rw [Function.update_self] at hc
    exact hgiven c hc
  · rw [Function.update_of_ne hj] at hc
    exact hmono _ _ (h.given j c hc)

variable (hvalid : AcceptsVisible lib.validHeader)
include hvalid

/-- A step issues keys to those who ask, and takes none back. -/
theorem step_keys (h : System.Step keccak256 lib text party s s') :
    (∀ k c, s.keys k = some c → s'.keys k = some c) ∧
      ∀ k c, s'.keys k = some c →
        s.keys k = some c ∨ (Spelled lib text c ∧ ∃ i, (party i).key = k) := by
  have hkept : (∀ k c, s.keys k = some c → s.keys k = some c) ∧
      ∀ k c, s.keys k = some c →
        s.keys k = some c ∨ (Spelled lib text c ∧ ∃ i, (party i).key = k) :=
    ⟨fun _ _ h => h, fun _ _ h => .inl h⟩
  have hasked {i : Nat} {endpoint : Endpoint} {clock : Clock} {request : KeyRequest}
      {keys : Keys} {response : Response}
      (hrequest : keyRequest keccak256 lib (party i).builder (party i).signer clock endpoint =
        .ok request) (hserved : Served lib text s.keys request keys response) :
      (∀ k c, s.keys k = some c → keys k = some c) ∧
        ∀ k c, keys k = some c →
          s.keys k = some c ∨ (Spelled lib text c ∧ ∃ i, (party i).key = k) := by
    obtain ⟨hkey, -⟩ := keyRequest_key hvalid hrequest
    refine ⟨fun k c => hserved.mono, fun k c hc => ?_⟩
    rcases hserved.new hkey hc with hold | ⟨rfl, hspelled⟩
    · exact .inl hold
    · exact .inr ⟨hspelled, i, rfl⟩
  cases h with
  | handled _ hrequest hserved => exact hasked hrequest hserved
  | lost _ _ hrequest hserved => exact hasked hrequest hserved
  | failed e _ => exact hkept
  | next _ => exact hkept
  | again _ => exact hkept

theorem Consistent.step (hs : Consistent lib text party s)
    (h : System.Step keccak256 lib text party s s') : Consistent lib text party s' := by
  obtain ⟨hmono, hnew⟩ := step_keys hvalid h
  have hspelled : ∀ k c, s'.keys k = some c → Spelled lib text c := by
    intro k c hc
    rcases hnew k c hc with hold | ⟨hfresh, -⟩
    · exact hs.spelled k c hold
    · exact hfresh
  cases h with
  | @handled _ _ _ _ _ response _ hrequest hserved =>
    obtain ⟨hkey, -⟩ := keyRequest_key hvalid hrequest
    refine hs.move hspelled hmono fun c hc => ?_
    cases hanswer : parseResponse lib.json (Credentials.deserialize lib) response with
    | error e =>
      rw [hanswer] at hc
      cases hc
    | ok c' =>
      rw [hanswer] at hc
      obtain rfl := Option.some.inj hc
      exact hserved.answer hkey (fun c => hs.spelled _ c) hanswer
  | lost e _ _ _ => exact hs.move hspelled hmono nofun
  | failed e _ => exact hs.move hspelled hmono nofun
  | next hstage =>
    refine hs.move hspelled hmono fun c hc => hs.given _ c ?_
    rw [hstage]
    exact advance_credentials hc
  | again _ => exact hs.move hspelled hmono nofun

theorem Consistent.run (hs : Consistent lib text party s)
    (h : System.Run keccak256 lib text party s s') :
    Consistent lib text party s' ∧ (∀ k c, s.keys k = some c → s'.keys k = some c) ∧
      ∀ k c, s'.keys k = some c → s.keys k = some c ∨ ∃ i, (party i).key = k := by
  induction h with
  | refl => exact ⟨hs, fun _ _ h => h, fun _ _ h => .inl h⟩
  | tail _ hstep ih =>
    obtain ⟨hconsistent, hmono, hnew⟩ := ih
    obtain ⟨hmono', hnew'⟩ := step_keys hvalid hstep
    refine ⟨hconsistent.step hvalid hstep, fun k c hc => hmono' k c (hmono k c hc), ?_⟩
    intro k c hc
    rcases hnew' k c hc with hold | ⟨-, hasked⟩
    · exact hnew k c hold
    · exact .inr hasked

/-- A request goes out when there is a time and the key signs. -/
theorem keyRequest_ok (p : Party) (hsigns : ∀ hash, (p.signer.signHash hash).isOk = true)
    {clock : Clock} (hclock : (p.builder.timestamp clock).isOk = true) (endpoint : Endpoint) :
    ∃ request, keyRequest keccak256 lib p.builder p.signer clock endpoint = .ok request := by
  obtain ⟨timestamp, htimestamp⟩ : ∃ timestamp, p.builder.timestamp clock = .ok timestamp := by
    cases h : p.builder.timestamp clock with
    | ok timestamp => exact ⟨timestamp, rfl⟩
    | error e =>
      rw [h] at hclock
      cases hclock
  have hok := hsigns (Eip712.digest keccak256 (Auth.clobAuthDomain p.builder.chainId)
    (Auth.attestation p.signer.address timestamp (p.builder.nonce.getD 0)).toStruct)
  cases hsig : p.signer.signHash (Eip712.digest keccak256 (Auth.clobAuthDomain p.builder.chainId)
      (Auth.attestation p.signer.address timestamp (p.builder.nonce.getD 0)).toStruct) with
  | error e =>
    rw [hsig] at hok
    cases hok
  | ok signature =>
    have hheaders := Auth.l1Headers_value keccak256 hvalid p.signer.address p.signer.signHash
      p.builder.chainId timestamp p.builder.nonce hsig
    exact ⟨_, by simp only [keyRequest, bind, Except.bind, htimestamp, hheaders]; rfl⟩

theorem Answered.served {p : Party} (hsigns : ∀ hash, (p.signer.signHash hash).isOk = true)
    {clock : Clock} {endpoint : Endpoint} {send : KeyRequest → Except Error Response}
    {keys keys' : Keys} (h : Answered keccak256 lib text p clock endpoint send keys keys') :
    ∃ request response, keyRequest keccak256 lib p.builder p.signer clock endpoint = .ok request ∧
      send request = .ok response ∧ Served lib text keys request keys' response := by
  obtain ⟨hclock, hanswered⟩ := h
  obtain ⟨request, hrequest⟩ : ∃ request, keyRequest keccak256 lib p.builder p.signer clock
      endpoint = .ok request := keyRequest_ok hvalid p hsigns hclock endpoint
  obtain ⟨response, hsend, hserved⟩ := hanswered request hrequest
  exact ⟨request, response, hrequest, hsend, hserved⟩

/-- `authenticate` obtains the key there is once the create has been served. -/
theorem authenticate_obtains {p : Party} (hsigns : ∀ hash, (p.signer.signHash hash).isOk = true)
    {identity : OrderIdentity}
    (hidentity : p.builder.resolveIdentity p.signer.address = .ok identity)
    {clock : Endpoint → Clock} {send : Endpoint → KeyRequest → Except Error Response}
    {keys keys' later later' : Keys}
    (hcreate : Answered keccak256 lib text p (clock .create) .create (send .create) keys keys')
    (hderive : Answered keccak256 lib text p (clock .derive) .derive (send .derive) later later')
    (hspelled : ∀ c, keys' p.key = some c → Spelled lib text c)
    (hlater : ∀ c, keys' p.key = some c → later p.key = some c) :
    ∃ c, keys' p.key = some c ∧ authenticate keccak256 lib p.builder p.signer clock send =
      .ok
        { host := normalizeHost p.builder.host
          chainId := p.builder.chainId
          address := p.signer.address
          identity
          credentials := c } := by
  obtain ⟨create, response, hrequest, hsend, hserved⟩ := hcreate.served hvalid hsigns
  obtain ⟨derive, response', hrequest', hsend', hserved'⟩ := hderive.served hvalid hsigns
  obtain ⟨hkey, hpost⟩ := keyRequest_key hvalid hrequest
  obtain ⟨hkey', hget⟩ := keyRequest_key hvalid hrequest'
  obtain ⟨c, hissued, hanswer⟩ := hserved.create hkey hpost
  have hanswer' := hserved'.derive hkey' hget (hlater c hissued) (hspelled c hissued)
  refine ⟨c, hissued, ?_⟩
  simp only [authenticate_advance, apiKeyRequest, hrequest, hsend, bind, Except.bind]
  rcases hanswer with hanswer | ⟨status, body, hrefused⟩
  · simp only [hanswer, advance, ClobClientBuilder.withCredentials, hidentity]
    rfl
  · simp only [hrefused, advance, hrequest', hsend', hanswer', ClobClientBuilder.withCredentials,
      hidentity]
    rfl

end

/-- In every interleaving of processes that authenticate, with requests and answers lost at any
point and processes starting again: whoever ends with credentials has those issued for its own
wallet and nonce, all who ask for one wallet and nonce end with the same, nothing issued is taken
back or changed, and keys are issued only to those who ask. From any state so reached an
`authenticate` whose requests are answered gives a client with the key there is, or with the one
that its create issued, whatever the others do between its requests. -/
theorem handshake_agrees (keccak256 : Bytes → B256) (lib : AuthLibrary)
    (hvalid : AcceptsVisible lib.validHeader) (text : Credentials → String) (party : Nat → Party)
    {issued : Keys} (hissued : ∀ k c, issued k = some c → Spelled lib text c) {s : System}
    (hrun : System.Run keccak256 lib text party (.start issued) s) :
    (∀ i c, s.stage i = .ended (.ok c) → s.keys (party i).key = some c) ∧
    (∀ i j c c', s.stage i = .ended (.ok c) → s.stage j = .ended (.ok c') →
      (party i).key = (party j).key → c = c') ∧
    (∀ k c, s.keys k = some c → issued k = some c ∨ ∃ i, (party i).key = k) ∧
    (∀ s', System.Run keccak256 lib text party s s' →
      ∀ k c, s.keys k = some c → s'.keys k = some c) ∧
    ∀ (p : Party) (identity : OrderIdentity) (clock : Endpoint → Clock)
      (send : Endpoint → KeyRequest → Except Error Response) (keys keys' : Keys) (s' : System),
      (∀ hash, (p.signer.signHash hash).isOk = true) →
      p.builder.resolveIdentity p.signer.address = .ok identity →
      Answered keccak256 lib text p (clock .create) .create (send .create) s.keys keys →
      System.Run keccak256 lib text party ⟨keys, s.stage⟩ s' →
      Answered keccak256 lib text p (clock .derive) .derive (send .derive) s'.keys keys' →
      ∃ c, keys p.key = some c ∧ (s.keys p.key).getD c = c ∧
        authenticate keccak256 lib p.builder p.signer clock send =
          .ok
            { host := normalizeHost p.builder.host
              chainId := p.builder.chainId
              address := p.signer.address
              identity
              credentials := c } := by
  have hstart : Consistent lib text party (.start issued) := ⟨hissued, nofun⟩
  obtain ⟨hconsistent, -, hasked⟩ := hstart.run hvalid hrun
  have hgiven (i : Nat) (c : Credentials) (h : s.stage i = .ended (.ok c)) :
      s.keys (party i).key = some c := by
    refine hconsistent.given i c ?_
    rw [h]
    rfl
  refine ⟨hgiven, ?_, hasked, fun s' hrun' => (hconsistent.run hvalid hrun').2.1, ?_⟩
  · intro i j c c' hi hj hkey
    have hc := hgiven i c hi
    rw [hkey, hgiven j c' hj] at hc
    exact (Option.some.inj hc).symm
  · intro p identity clock send keys keys' s' hsigns hidentity hcreate hrun' hderive
    obtain ⟨request, response, hrequest, -, hserved⟩ := hcreate.served hvalid hsigns
    obtain ⟨hkey, -⟩ := keyRequest_key hvalid hrequest
    have hspelled (k : Address × Nat) (c : Credentials) (hc : keys k = some c) :
        Spelled lib text c := by
      rcases hserved.new hkey hc with hold | ⟨-, hfresh⟩
      · exact hconsistent.spelled k c hold
      · exact hfresh
    have hbetween : Consistent lib text party ⟨keys, s.stage⟩ :=
      ⟨hspelled, fun i c hc => hserved.mono (hconsistent.given i c hc)⟩
    obtain ⟨c, hobtained, hclient⟩ := authenticate_obtains hvalid hsigns hidentity hcreate hderive
      (hspelled p.key) ((hbetween.run hvalid hrun').2.1 p.key)
    refine ⟨c, hobtained, ?_, hclient⟩
    cases hold : s.keys p.key with
    | none => rfl
    | some c' => exact Option.some.inj ((hserved.mono hold).symm.trans hobtained)

/-! ## Two processes -/

def oneText : String := "\x7b\"apiKey\":\"k\",\"secret\":\"s\",\"passphrase\":\"p\"\x7d"

def oneCredentials : Credentials := ⟨FixedBytes.zero 16, "s", "p"⟩

/-- Reads one text. -/
def oneAuthLibrary : AuthLibrary where
  json :=
    { readText := fun text =>
        if text = oneText then
          .ok (.obj [("apiKey", .str "k"), ("secret", .str "s"), ("passphrase", .str "p")])
        else .error "expected value"
      mismatch := fun _ => "invalid type" }
  uuid := fun _ => some (FixedBytes.zero 16)
  validHeader := fun value => value.toList.all fun c => 0x20 ≤ c.toNat && c.toNat ≤ 0x7e

def oneParty : Party := ⟨{}, ⟨Address.ofNat 1, fun _ => .ok ⟨1, 2, true⟩⟩⟩

theorem oneAuthLibrary_visible : AcceptsVisible oneAuthLibrary.validHeader :=
  plainLibrary_visible

theorem oneCredentials_spelled :
    Spelled oneAuthLibrary (fun _ => oneText) oneCredentials := by
  simp only [Spelled, parseResponse, fromStr, oneAuthLibrary, if_true]
  rfl

/-- What the venue answers a create with when there is a key. -/
def takenResponse : Response := ⟨400, none, .ok "could not create api key"⟩

theorem takenResponse_refused : Refused takenResponse :=
  ⟨by decide, by decide, rfl⟩

def oneClock : Clock := ⟨1700000000, .error (.http "")⟩

theorem oneParty_asks (endpoint : Endpoint) : ∃ request,
    keyRequest (fun _ => FixedBytes.zero 32) oneAuthLibrary oneParty.builder oneParty.signer
      oneClock endpoint = .ok request ∧
    readKey request.headers = some oneParty.key ∧ request.method = endpoint.method := by
  obtain ⟨request, hrequest⟩ : ∃ request, keyRequest (fun _ => FixedBytes.zero 32) oneAuthLibrary
      oneParty.builder oneParty.signer oneClock endpoint = .ok request :=
    keyRequest_ok oneAuthLibrary_visible oneParty (fun _ => rfl) rfl endpoint
  exact ⟨request, hrequest, keyRequest_key oneAuthLibrary_visible hrequest⟩

/-- How the venue answers once there is a key. -/
def answerTaken : Endpoint → Response
  | .create => takenResponse
  | .derive => ⟨200, none, .ok oneText⟩

theorem answerTaken_served {keys : Keys} (hissued : keys oneParty.key = some oneCredentials)
    {endpoint : Endpoint} {request : KeyRequest}
    (hkey : readKey request.headers = some oneParty.key)
    (hmethod : request.method = endpoint.method) :
    Served oneAuthLibrary (fun _ => oneText) keys request keys (answerTaken endpoint) := by
  cases endpoint with
  | create => exact .taken hkey hmethod hissued takenResponse_refused
  | derive => exact .derived hkey hmethod hissued

/-- Runs of processes for one wallet and nonce. -/
abbrev OneRun : System → System → Prop :=
  System.Run (fun _ => FixedBytes.zero 32) oneAuthLibrary (fun _ => oneText) fun _ => oneParty

/-- The first process creates the key, the second is refused and derives it, and so does an
`authenticate` afterwards. -/
theorem handshake_agrees_twoProcesses : ∃ s,
    OneRun (.start Table.empty) s ∧
    s.stage 0 = .ended (.ok oneCredentials) ∧ s.stage 1 = .ended (.ok oneCredentials) ∧
    s.keys oneParty.key = some oneCredentials ∧
    authenticate (fun _ => FixedBytes.zero 32) oneAuthLibrary oneParty.builder oneParty.signer
        (fun _ => oneClock) (fun endpoint _ => .ok (answerTaken endpoint)) =
      .ok
        { host := normalizeHost "https://clob.polymarket.com"
          chainId := Chain.polygon
          address := oneParty.signer.address
          identity := .eoa oneParty.signer.address
          credentials := oneCredentials } := by
  obtain ⟨create, hcreate, hcreateKey, hpost⟩ := oneParty_asks .create
  obtain ⟨derive, hderive, hderiveKey, hget⟩ := oneParty_asks .derive
  let keys : Keys := Table.empty.insert oneParty.key oneCredentials
  have hissued : keys oneParty.key = some oneCredentials := insert_self
  have hcreated : Served oneAuthLibrary (fun _ => oneText) Table.empty create keys
      ⟨200, none, .ok oneText⟩ := .created hcreateKey hpost rfl oneCredentials_spelled
  let first : System :=
    ⟨keys, Function.update (System.start Table.empty).stage 0 (.ended (.ok oneCredentials))⟩
  let refused : System := ⟨keys, Function.update first.stage 1 (.asking .derive)⟩
  let second : System := ⟨keys, Function.update refused.stage 1 (.ended (.ok oneCredentials))⟩
  have hfirst : OneRun (.start Table.empty) first := by
    have h : OneRun (.start Table.empty) _ := .exchange (i := 0) rfl hcreate hcreated
    rwa [oneCredentials_spelled] at h
  have hrefused : OneRun first refused := by
    obtain ⟨status, body, hparse⟩ : ∃ status body, parseResponse oneAuthLibrary.json
        (Credentials.deserialize oneAuthLibrary) takenResponse = .error (.api status body) :=
      parseResponse_refused takenResponse_refused
    have h : OneRun first _ :=
      .exchange (i := 1) rfl hcreate (answerTaken_served hissued hcreateKey hpost)
    rwa [answerTaken, hparse] at h
  have hsecond : OneRun refused second := by
    have hasks : refused.stage 1 = .asking .derive := by
      simp only [refused, Function.update_self]
    have h : OneRun refused _ :=
      .exchange hasks hderive (answerTaken_served hissued hderiveKey hget)
    rwa [answerTaken, oneCredentials_spelled] at h
  have hrun := (hfirst.trans hrefused).trans hsecond
  have hnone (k : Address × Nat) (c : Credentials)
      (h : (Table.empty : Keys) k = some c) : Spelled oneAuthLibrary (fun _ => oneText) c := by
    cases h
  obtain ⟨hgiven, -, -, -, hclient⟩ := handshake_agrees (fun _ => FixedBytes.zero 32)
    oneAuthLibrary oneAuthLibrary_visible (fun _ => oneText) (fun _ => oneParty) hnone hrun
  have hanswered (endpoint : Endpoint) : Answered (fun _ => FixedBytes.zero 32) oneAuthLibrary
      (fun _ => oneText) oneParty oneClock endpoint (fun _ => .ok (answerTaken endpoint))
      keys keys := by
    refine ⟨rfl, fun request hrequest => ⟨_, rfl, ?_⟩⟩
    obtain ⟨hkey, hmethod⟩ := keyRequest_key oneAuthLibrary_visible hrequest
    exact answerTaken_served hissued hkey hmethod
  obtain ⟨c, hc, -, hauthenticate⟩ := hclient oneParty _ (fun _ => oneClock)
    (fun endpoint _ => .ok (answerTaken endpoint)) keys keys second (fun _ => rfl) rfl
    (hanswered .create) .refl (hanswered .derive)
  obtain rfl := Option.some.inj (hissued.symm.trans hc)
  have hended : second.stage 0 = .ended (.ok oneCredentials) := rfl
  exact ⟨second, hrun, hended, rfl, hgiven 0 _ hended, hauthenticate⟩

end Eggplant.Clob
