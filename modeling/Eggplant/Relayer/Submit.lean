import Eggplant.Chain
import Eggplant.Lib.Serde
import Eggplant.Payloads

/-!
# What the relayer is sent

The three submissions: a call from a Safe, the deployment of the Safe, and a batch from a
deposit wallet. Each hashes, asks the key for a signature and posts a body. Whoever receives
the body, and knows the chain, can put together the very message that was signed.
-/
namespace Eggplant.Relayer

set_option autoImplicit false

open Eggplant.Lib Eggplant.Lib.Words Eggplant.Lib.Text Eggplant.Lib.Oracle Eggplant.Lib.Serde
open Eggplant.Convert (DepositWalletCall)
open Eggplant.Clob (Signature)

/-! ## The client and what it reaches -/

structure RelayerClient where
  host : String
  chainId : UInt64
  apiKey : String
  apiKeyAddress : String
  deriving DecidableEq

/-- The production relayer on Polygon. -/
def RelayerClient.new (apiKey apiKeyAddress : String) : RelayerClient where
  host := "https://relayer-v2.polymarket.com"
  chainId := 137
  apiKey := apiKey
  apiKeyAddress := apiKeyAddress

structure HttpRequest where
  method : String
  url : String
  headers : List (String × String)
  body : Option Value

/-- A response: the body as text, which can fail to arrive, and as JSON, which can fail to
parse. -/
structure HttpResponse where
  status : Nat
  text : Option String
  json : Except String Value

/-- What a submission does, in order. -/
inductive Effect where
  | signed (hash : B256)
  | sent (request : HttpRequest)

/-- The wallet key: its address, and what it answers when asked to sign a hash. -/
structure Signer where
  address : Address
  signHash : B256 → Except String Signature

structure SubmitResponse where
  transactionId : String
  transactionHash : Option String
  deriving DecidableEq

/-! ## Text -/

/-- `pack_signature`: `r ‖ s ‖ v` with `v = parity + v_base`. -/
def packSignature (sig : Signature) (vBase : UInt8) : FixedBytes 65 :=
  ⟨beBytes 32 sig.r.toNat ++ beBytes 32 sig.s.toNat ++ [(if sig.yParity then 1 else 0) + vBase], by
    simp only [List.length_append, beBytes_length, List.length_singleton]⟩

/-- `to_hex`. -/
def toHex (bytes : Bytes) : String := "0x" ++ hexText bytes

def zeroAddressStr : String := "0x0000000000000000000000000000000000000000"

/-- What stands behind the first occurrence of a pattern. -/
def afterFirst (pat : List Char) : List Char → Option (List Char)
  | [] => if pat = [] then some [] else none
  | c :: cs => if pat.isPrefixOf (c :: cs) then some ((c :: cs).drop pat.length)
    else afterFirst pat cs

def isQuotaResponse (status : Nat) (body : String) : Bool :=
  status = 429 || strContains (toAsciiLowercase body) "quota"

def parseQuotaReset (body : String) : Option Nat := do
  let rest ← afterFirst "resets in ".toList body.toList
  let secs ← readDec (String.ofList (rest.takeWhile Char.isDigit))
  if secs ≤ u64Max then some secs else none

section
variable (keccak256 : Bytes → B256)

/-! ## Request bodies -/

structure SubmitRequest where
  sender : String
  toText : String
  proxyWallet : String
  data : String
  nonce : String
  signature : String

/-- All gas parameters are zero. -/
def zeroParams : Value :=
  .obj [("gasPrice", .str "0"), ("operation", .str "0"), ("safeTxnGas", .str "0"),
    ("baseGas", .str "0"), ("gasToken", .str zeroAddressStr),
    ("refundReceiver", .str zeroAddressStr)]

def SubmitRequest.body (r : SubmitRequest) : Value :=
  .obj [("from", .str r.sender), ("to", .str r.toText), ("proxyWallet", .str r.proxyWallet),
    ("data", .str r.data), ("nonce", .str r.nonce), ("signature", .str r.signature),
    ("signatureParams", zeroParams), ("type", .str "SAFE")]

structure DeployRequest where
  sender : String
  toText : String
  proxyWallet : String
  signature : String

def DeployRequest.body (r : DeployRequest) : Value :=
  .obj [("from", .str r.sender), ("to", .str r.toText), ("proxyWallet", .str r.proxyWallet),
    ("data", .str "0x"), ("signature", .str r.signature),
    ("signatureParams", .obj [("paymentToken", .str zeroAddressStr), ("payment", .str "0"),
      ("paymentReceiver", .str zeroAddressStr)]),
    ("type", .str "SAFE-CREATE")]

structure DepositWalletBatchRequest where
  sender : String
  toText : String
  nonce : String
  signature : String
  depositWallet : String
  deadline : String
  calls : List (String × String)

/-- A call's target and data; its value is always zero. -/
def callBody (call : String × String) : Value :=
  .obj [("target", .str call.1), ("value", .str "0"), ("data", .str call.2)]

def DepositWalletBatchRequest.body (r : DepositWalletBatchRequest) : Value :=
  .obj [("type", .str "WALLET"), ("from", .str r.sender), ("to", .str r.toText),
    ("nonce", .str r.nonce), ("signature", .str r.signature),
    ("depositWalletParams", .obj [("depositWallet", .str r.depositWallet),
      ("deadline", .str r.deadline), ("calls", .arr (r.calls.map callBody))])]

/-! ## Sending -/

/-- The network and the clock: responses, the texts the HTTP library prints, and the seconds
since the epoch where the clock is past it. -/
structure Net where
  send : HttpRequest → Except String HttpResponse
  statusText : Nat → String
  decodeText : String
  now : Except String UInt64

variable (net : Net) (client : RelayerClient)

def authHeaders : List (String × String) :=
  [("RELAYER_API_KEY", client.apiKey), ("RELAYER_API_KEY_ADDRESS", client.apiKeyAddress)]

/-- `.send().await?`. -/
def sendRequest (request : HttpRequest) : Logged Effect (Except Error HttpResponse) :=
  ⟨[.sent request], (net.send request).mapError Error.http⟩

def HttpResponse.isSuccess (resp : HttpResponse) : Bool := 200 ≤ resp.status && resp.status < 300

def readSubmitResponse : Decoder SubmitResponse :=
  struct ["transactionID", "transactionHash"] fun fields => do
    let transactionId ← field fields "transactionID" none string
    let transactionHash ← field fields "transactionHash" (some none) (option string)
    pure { transactionId, transactionHash }

/-- `resp.json()`, whose failures are the HTTP library's errors. -/
def submitResponse (resp : HttpResponse) : Except Error SubmitResponse := do
  let value ← resp.json.mapError Error.http
  (readSubmitResponse value).elim (.error (.http net.decodeText)) .ok

/-- `POST {host}/submit` with the API key pair. -/
def submitPost (body : Value) : HttpRequest where
  method := "POST"
  url := client.host ++ "/submit"
  headers := authHeaders client
  body := some body

/-- `post_submit`: a spent quota is told apart from other refusals. -/
def postSubmit (body : Value) : Logged Effect (Except Error SubmitResponse) := do
  match ← sendRequest net (submitPost client body) with
  | .error e => pure (.error e)
  | .ok resp =>
    if resp.isSuccess then pure (submitResponse net resp)
    else
      let text := resp.text.getD ""
      if isQuotaResponse resp.status text then
        pure (.error (.relayerQuotaExhausted ((parseQuotaReset text).getD 3600)))
      else
        pure (.error (.invalidData
          ("relayer error (" ++ net.statusText resp.status ++ "): " ++ text)))

def sign (signer : Signer) (hash : B256) : Logged Effect (Except Error Signature) :=
  ⟨[.signed hash], (signer.signHash hash).mapError fun e => .invalidData ("signing failed: " ++ e)⟩

/-! ## The three submissions -/

def submit (signer : Signer) (safe toAddr : Address) (data : Bytes) (nonce : UInt64) :
    Logged Effect (Except Error SubmitResponse) := do
  let txHash := (computeSafeTxHash keccak256 safe client.chainId toAddr data nonce).value
  -- `sign_message` puts the prefix in front and hashes again
  match ← sign signer (keccak256 (Eip712.personalInput txHash.bytes)) with
  | .error e => pure (.error e)
  | .ok sig =>
    let request : SubmitRequest :=
      { sender := signer.address.display keccak256
        toText := toAddr.display keccak256
        proxyWallet := safe.display keccak256
        data := toHex data
        nonce := nonce.toNat.repr
        signature := toHex (packSignature sig 31).bytes }
    postSubmit net client request.body

/-- A refused deployment is no quota error, whatever the response says. -/
def deploy (signer : Signer) (safeFactory safeAddress : Address) (chainId : UInt64) :
    Logged Effect (Except Error SubmitResponse) := do
  match ← sign signer (computeCreateProxyHash keccak256 safeFactory chainId).value with
  | .error e => pure (.error e)
  | .ok sig =>
    let request : DeployRequest :=
      { sender := signer.address.display keccak256
        toText := safeFactory.display keccak256
        proxyWallet := safeAddress.display keccak256
        signature := toHex (packSignature sig 27).bytes }
    match ← sendRequest net (submitPost client request.body) with
    | .error e => pure (.error e)
    | .ok resp =>
      if resp.isSuccess then pure (submitResponse net resp)
      else
        pure (.error (.invalidData ("relayer deploy error (" ++ net.statusText resp.status ++ "): " ++
          resp.text.getD "")))

/-- `str::parse::<u64>`: digits, with a plus sign in front at most. -/
def parseU64 (s : String) : Option UInt64 := do
  let n ← readDec (String.ofList (if s.toList.head? = some '+' then s.toList.tail else s.toList))
  if n ≤ u64Max then some (UInt64.ofNat n) else none

/-- `body["nonce"]`: a number, or a text that is one; anything else there counts as missing. -/
def readNonce : Decoder UInt64
  | .obj members =>
    match (members.reverse.lookup "nonce").getD .null with
    | .num (.posInt n) => some n
    | .str s => parseU64 s
    | _ => none
  | _ => none

variable (printJson : Value → String)

def nonceGet (eoa : Address) : HttpRequest where
  method := "GET"
  url := client.host ++ "/nonce?address=" ++ eoa.display keccak256 ++ "&type=WALLET"
  headers := authHeaders client
  body := none

def getWalletNonce (eoa : Address) : Logged Effect (Except Error UInt64) := do
  match ← sendRequest net (nonceGet keccak256 client eoa) with
  | .error e => pure (.error e)
  | .ok resp =>
    if resp.isSuccess then
      pure do
        let body ← resp.json.mapError Error.http
        (readNonce body).elim
          (.error (.invalidData ("no nonce in response: " ++ printJson body))) .ok
    else pure (.error (.invalidData ("nonce request failed: " ++ resp.text.getD "")))

def depositWalletDeadlineSecs : UInt64 := 600

def depositWalletFactory : Address :=
  Address.ofNat 0x00000000000Fb5C9ADea0298D729A0CB3823Cc07

def submitDepositWalletBatch (signer : Signer) (wallet : Address) (chainId : UInt64)
    (calls : List DepositWalletCall) : Logged Effect (Except Error SubmitResponse) := do
  match ← getWalletNonce keccak256 net client printJson signer.address with
  | .error e => pure (.error e)
  | .ok nonce =>
    match net.now with
    | .error e => pure (.error (.invalidData ("clock error: " ++ e)))
    | .ok secs =>
      let deadline := secs + depositWalletDeadlineSecs
      let hash :=
        (computeDepositWalletBatchHash keccak256 wallet chainId nonce deadline calls).value
      match ← sign signer hash with
      | .error e => pure (.error e)
      | .ok sig =>
        let request : DepositWalletBatchRequest :=
          { sender := signer.address.display keccak256
            toText := depositWalletFactory.display keccak256
            nonce := nonce.toNat.repr
            signature := toHex (packSignature sig 27).bytes
            depositWallet := wallet.display keccak256
            deadline := deadline.toNat.repr
            calls := calls.map fun call => (call.target.display keccak256, toHex call.data) }
        postSubmit net client request.body

end

end Eggplant.Relayer
