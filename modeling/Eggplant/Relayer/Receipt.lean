import Eggplant.Relayer.Submit

/-!
# The relayer's side of a submission

The reader puts the typed message back together from the fields of the body. On what the
client posts it arrives at the message that was signed and at its signature; on any other
body that fits the signature it arrives at the same message, unless the hash collides.
-/
namespace Eggplant.Relayer

set_option autoImplicit false

open Eggplant.Lib Eggplant.Lib.Words Eggplant.Lib.Text Eggplant.Lib.Oracle Eggplant.Lib.Serde
open Eggplant.Convert (DepositWalletCall)
open Eggplant.Clob (Signature)

/-! ## The reader -/

structure Submission where
  sender : Address
  request : Eip712.Request
  signature : Signature

def readAddress : Decoder Address := fun v => (string v).bind (readFixedHex 20)

def readData : Decoder Bytes := fun v => (string v).bind readHex

/-- A decimal text that fits the integer type. -/
def readUint (bits : Nat) : Decoder (BitVec bits) := fun v => do
  let n ← (string v).bind readDec
  if n < 2 ^ bits then some (BitVec.ofNat bits n) else none

/-- `r ‖ s ‖ v` with `v` one of the two values above the base. -/
def unpackSignature (vBase : UInt8) (sig : FixedBytes 65) : Option Signature :=
  let r := BitVec.ofNat 256 (beNat (sig.bytes.take 32))
  let s := BitVec.ofNat 256 (beNat ((sig.bytes.drop 32).take 32))
  let v := sig.bytes.drop 64
  if v = [vBase] then some ⟨r, s, false⟩
  else if v = [1 + vBase] then some ⟨r, s, true⟩
  else none

def readSignature (vBase : UInt8) : Decoder Signature := fun v =>
  ((string v).bind (readFixedHex 65)).bind (unpackSignature vBase)

/-- The parameters of a `SafeTx`, in the order of its members. -/
structure SafeParams where
  operation : BitVec 8
  safeTxGas : BitVec 256
  baseGas : BitVec 256
  gasPrice : BitVec 256
  gasToken : Address
  refundReceiver : Address

def readSafeParams : Decoder SafeParams :=
  struct [] fun fields => do
    let gasPrice ← field fields "gasPrice" none (readUint 256)
    let operation ← field fields "operation" none (readUint 8)
    let safeTxGas ← field fields "safeTxnGas" none (readUint 256)
    let baseGas ← field fields "baseGas" none (readUint 256)
    let gasToken ← field fields "gasToken" none readAddress
    let refundReceiver ← field fields "refundReceiver" none readAddress
    pure { operation, safeTxGas, baseGas, gasPrice, gasToken, refundReceiver }

/-- A call without value. -/
def safeRequest (safe : Address) (chainId : UInt64) (toAddr : Address) (data : Bytes)
    (p : SafeParams) (nonce : BitVec 256) : Eip712.Request where
  personal := true
  domain := (safeDomain safe chainId).toStruct
  message :=
    { name := "SafeTx"
      members := safeTxMembers
      value := (toAddr, (0 : BitVec 256), data, p.operation, p.safeTxGas, p.baseGas, p.gasPrice,
        p.gasToken, p.refundReceiver, nonce, ()) }

/-- `SAFE`. -/
def readSafe (chainId : UInt64) : Decoder Submission :=
  struct [] fun fields => do
    let sender ← field fields "from" none readAddress
    let toAddr ← field fields "to" none readAddress
    let safe ← field fields "proxyWallet" none readAddress
    let data ← field fields "data" none readData
    let nonce ← field fields "nonce" none (readUint 256)
    let signature ← field fields "signature" none (readSignature 31)
    let params ← field fields "signatureParams" none readSafeParams
    pure { sender, request := safeRequest safe chainId toAddr data params nonce, signature }

structure Payment where
  token : Address
  amount : BitVec 256
  receiver : Address

def readPayment : Decoder Payment :=
  struct [] fun fields => do
    let token ← field fields "paymentToken" none readAddress
    let amount ← field fields "payment" none (readUint 256)
    let receiver ← field fields "paymentReceiver" none readAddress
    pure { token, amount, receiver }

def deployRequest (safeFactory : Address) (chainId : UInt64) (p : Payment) : Eip712.Request where
  personal := false
  domain := (factoryDomain safeFactory chainId).toStruct
  message :=
    { name := "CreateProxy"
      members := createProxyMembers
      value := (p.token, p.amount, p.receiver, ()) }

/-- `SAFE-CREATE`. -/
def readDeploy (chainId : UInt64) : Decoder Submission :=
  struct [] fun fields => do
    let sender ← field fields "from" none readAddress
    let safeFactory ← field fields "to" none readAddress
    let signature ← field fields "signature" none (readSignature 27)
    let payment ← field fields "signatureParams" none readPayment
    pure { sender, request := deployRequest safeFactory chainId payment, signature }

abbrev CallVal := (Eip712.Ty.struct "Call" callMembers).Val

def readCallBody : Decoder CallVal :=
  struct [] fun fields => do
    let target ← field fields "target" none readAddress
    let value ← field fields "value" none (readUint 256)
    let data ← field fields "data" none readData
    pure (target, value, data, ())

structure WalletParams where
  wallet : Address
  deadline : BitVec 256
  calls : List CallVal

def readWalletParams : Decoder WalletParams :=
  struct [] fun fields => do
    let wallet ← field fields "depositWallet" none readAddress
    let deadline ← field fields "deadline" none (readUint 256)
    let calls ← field fields "calls" none (vec readCallBody)
    pure { wallet, deadline, calls }

def batchRequest (chainId : UInt64) (nonce : BitVec 256) (p : WalletParams) : Eip712.Request where
  personal := false
  domain := (walletDomain p.wallet chainId).toStruct
  message :=
    { name := "Batch"
      members := batchMembers
      value := (p.wallet, nonce, p.deadline, p.calls, ()) }

/-- `WALLET`. -/
def readBatch (chainId : UInt64) : Decoder Submission :=
  struct [] fun fields => do
    let sender ← field fields "from" none readAddress
    let nonce ← field fields "nonce" none (readUint 256)
    let signature ← field fields "signature" none (readSignature 27)
    let params ← field fields "depositWalletParams" none readWalletParams
    pure { sender, request := batchRequest chainId nonce params, signature }

/-- A body by its type tag. -/
def readSubmission (chainId : UInt64) : Decoder Submission
  | .obj members => do
    let tag ← field (ofMembers members) "type" none string
    if tag = "SAFE" then readSafe chainId (.obj members)
    else if tag = "SAFE-CREATE" then readDeploy chainId (.obj members)
    else if tag = "WALLET" then readBatch chainId (.obj members)
    else none
  | _ => none

/-! ## Reading what was written -/

@[simp] theorem string_str (text : String) : string (.str text) = some text := rfl

theorem readAddress_display (keccak256 : Bytes → B256) (a : Address) :
    readAddress (.str (a.display keccak256)) = some a := by
  rw [readAddress, string_str, Option.bind_some, readFixedHex_display]

theorem readAddress_zero : readAddress (.str zeroAddressStr) = some (FixedBytes.zero 20) := by
  have htext : zeroAddressStr = "0x" ++ hexText (FixedBytes.zero 20).bytes := by decide
  rw [readAddress, string_str, Option.bind_some, htext, readFixedHex_hexText]

theorem readData_toHex (bytes : Bytes) : readData (.str (toHex bytes)) = some bytes := by
  rw [readData, string_str, Option.bind_some, toHex, readHex_hexText]

theorem readUint_repr {bits n : Nat} (h : n < 2 ^ bits) :
    readUint bits (.str n.repr) = some (BitVec.ofNat bits n) := by
  rw [readUint, string_str, Option.bind_some, readDec_repr]
  exact if_pos h

theorem readUint_u64 (n : UInt64) : readUint 256 (.str n.toNat.repr) = some (u64Uint n) := by
  have hlt : n.toNat < 2 ^ 256 := lt_trans n.toNat_lt (by decide)
  rw [readUint_repr hlt]
  congr 1
  apply BitVec.eq_of_toNat_eq
  rw [BitVec.toNat_ofNat, Nat.mod_eq_of_lt hlt, u64Uint, BitVec.toNat_setWidth,
    UInt64.toNat_toBitVec, Nat.mod_eq_of_lt hlt]

theorem readUint_zero (bits : Nat) : readUint bits (.str "0") = some 0 := by
  have hzero : Nat.repr 0 = "0" := by decide
  rw [← hzero, readUint_repr (Nat.two_pow_pos bits)]
  rfl

theorem ofNat_beNat (v : BitVec 256) : BitVec.ofNat 256 (beNat (beBytes 32 v.toNat)) = v := by
  apply BitVec.eq_of_toNat_eq
  rw [beNat_beBytes, BitVec.toNat_ofNat, ← wordSize_eq]
  have hlt : v.toNat < wordSize := v.isLt
  rw [Nat.mod_eq_of_lt hlt]
  exact Nat.mod_eq_of_lt hlt

theorem packSignature_bytes (sig : Signature) (vBase : UInt8) :
    (packSignature sig vBase).bytes = beBytes 32 sig.r.toNat ++ (beBytes 32 sig.s.toNat ++
      [(if sig.yParity then 1 else 0) + vBase]) := List.append_assoc _ _ _

theorem unpack_packSignature (sig : Signature) (vBase : UInt8) :
    unpackSignature vBase (packSignature sig vBase) = some sig := by
  have hr : (packSignature sig vBase).bytes.take 32 = beBytes 32 sig.r.toNat := by
    rw [packSignature_bytes, List.take_left' (beBytes_length 32 _)]
  have hrest : (packSignature sig vBase).bytes.drop 32 = beBytes 32 sig.s.toNat ++
      [(if sig.yParity then 1 else 0) + vBase] := by
    rw [packSignature_bytes, List.drop_left' (beBytes_length 32 _)]
  have hv : (packSignature sig vBase).bytes.drop 64 =
      [(if sig.yParity then 1 else 0) + vBase] := by
    rw [show 64 = 32 + 32 from rfl, ← List.drop_drop, hrest,
      List.drop_left' (beBytes_length 32 _)]
  rw [unpackSignature, hr, hrest, List.take_left' (beBytes_length 32 _), hv, ofNat_beNat,
    ofNat_beNat]
  obtain ⟨r, s, yParity⟩ := sig
  cases yParity with
  | false => simp
  | true =>
    have hne : (1 : UInt8) + vBase ≠ vBase := by
      intro h
      have hnat := congrArg UInt8.toNat h
      have hlt := vBase.toNat_lt
      have hone : (1 : UInt8).toNat = 1 := rfl
      rw [UInt8.toNat_add, hone] at hnat
      omega
    simp [hne]

theorem readSignature_pack (sig : Signature) (vBase : UInt8) :
    readSignature vBase (.str (toHex (packSignature sig vBase).bytes)) = some sig := by
  rw [readSignature, string_str, Option.bind_some, toHex, readFixedHex_hexText, Option.bind_some,
    unpack_packSignature]

/-! ## Bodies -/

theorem readSafeParams_obj (gasPrice operation safeTxGas baseGas gasToken refundReceiver : Value) :
    readSafeParams (.obj [("gasPrice", gasPrice), ("operation", operation),
      ("safeTxnGas", safeTxGas), ("baseGas", baseGas), ("gasToken", gasToken),
      ("refundReceiver", refundReceiver)]) = (do
        let gasPrice ← readUint 256 gasPrice
        let operation ← readUint 8 operation
        let safeTxGas ← readUint 256 safeTxGas
        let baseGas ← readUint 256 baseGas
        let gasToken ← readAddress gasToken
        let refundReceiver ← readAddress refundReceiver
        pure { operation, safeTxGas, baseGas, gasPrice, gasToken, refundReceiver }) := rfl

theorem readSafe_obj (chainId : UInt64)
    (sender toAddr safe data nonce signature params tag : Value) :
    readSafe chainId (.obj [("from", sender), ("to", toAddr), ("proxyWallet", safe),
      ("data", data), ("nonce", nonce), ("signature", signature), ("signatureParams", params),
      ("type", tag)]) = (do
        let sender ← readAddress sender
        let toAddr ← readAddress toAddr
        let safe ← readAddress safe
        let data ← readData data
        let nonce ← readUint 256 nonce
        let signature ← readSignature 31 signature
        let params ← readSafeParams params
        pure { sender, request := safeRequest safe chainId toAddr data params nonce, signature }) :=
  rfl

theorem readPayment_obj (token amount receiver : Value) :
    readPayment (.obj [("paymentToken", token), ("payment", amount),
      ("paymentReceiver", receiver)]) = (do
        let token ← readAddress token
        let amount ← readUint 256 amount
        let receiver ← readAddress receiver
        pure { token, amount, receiver }) := rfl

theorem readDeploy_obj (chainId : UInt64)
    (sender safeFactory safe data signature payment tag : Value) :
    readDeploy chainId (.obj [("from", sender), ("to", safeFactory), ("proxyWallet", safe),
      ("data", data), ("signature", signature), ("signatureParams", payment), ("type", tag)]) = (do
        let sender ← readAddress sender
        let safeFactory ← readAddress safeFactory
        let signature ← readSignature 27 signature
        let payment ← readPayment payment
        pure { sender, request := deployRequest safeFactory chainId payment, signature }) := rfl

theorem readCallBody_obj (target value data : Value) :
    readCallBody (.obj [("target", target), ("value", value), ("data", data)]) = (do
      let target ← readAddress target
      let value ← readUint 256 value
      let data ← readData data
      pure (target, value, data, ())) := rfl

theorem readWalletParams_obj (wallet deadline calls : Value) :
    readWalletParams (.obj [("depositWallet", wallet), ("deadline", deadline),
      ("calls", calls)]) = (do
        let wallet ← readAddress wallet
        let deadline ← readUint 256 deadline
        let calls ← vec readCallBody calls
        pure { wallet, deadline, calls }) := rfl

theorem readBatch_obj (chainId : UInt64) (tag sender factory nonce signature params : Value) :
    readBatch chainId (.obj [("type", tag), ("from", sender), ("to", factory), ("nonce", nonce),
      ("signature", signature), ("depositWalletParams", params)]) = (do
        let sender ← readAddress sender
        let nonce ← readUint 256 nonce
        let signature ← readSignature 27 signature
        let params ← readWalletParams params
        pure { sender, request := batchRequest chainId nonce params, signature }) := rfl

theorem readSubmission_safe (chainId : UInt64) (r : SubmitRequest) :
    readSubmission chainId r.body = readSafe chainId r.body := rfl

theorem readSubmission_create (chainId : UInt64) (r : DeployRequest) :
    readSubmission chainId r.body = readDeploy chainId r.body := rfl

theorem readSubmission_wallet (chainId : UInt64) (r : DepositWalletBatchRequest) :
    readSubmission chainId r.body = readBatch chainId r.body := rfl

section Bodies
variable (keccak256 : Bytes → B256) (sender : Address) (sig : Signature) (chainId : UInt64)

theorem readSubmission_submit (safe toAddr : Address) (data : Bytes) (nonce : UInt64) :
    readSubmission chainId (SubmitRequest.body
      { sender := sender.display keccak256
        toText := toAddr.display keccak256
        proxyWallet := safe.display keccak256
        data := toHex data
        nonce := nonce.toNat.repr
        signature := toHex (packSignature sig 31).bytes }) =
      some ⟨sender, (Payload.safeTx safe chainId toAddr data nonce).request, sig⟩ := by
  rw [readSubmission_safe, SubmitRequest.body, readSafe_obj, zeroParams, readSafeParams_obj]
  simp only [readAddress_display, readAddress_zero, readData_toHex, readUint_u64, readUint_zero,
    readSignature_pack]
  rfl

theorem readSubmission_deploy (safeFactory safe : Address) :
    readSubmission chainId (DeployRequest.body
      { sender := sender.display keccak256
        toText := safeFactory.display keccak256
        proxyWallet := safe.display keccak256
        signature := toHex (packSignature sig 27).bytes }) =
      some ⟨sender, (Payload.createProxy safeFactory chainId).request, sig⟩ := by
  rw [readSubmission_create, DeployRequest.body, readDeploy_obj, readPayment_obj]
  simp only [readAddress_display, readAddress_zero, readUint_zero, readSignature_pack]
  rfl

theorem readCalls (calls : List DepositWalletCall) :
    vec readCallBody (.arr ((calls.map fun call =>
      (call.target.display keccak256, toHex call.data)).map callBody)) =
      some (calls.map callValue) := by
  show List.mapM readCallBody _ = _
  induction calls with
  | nil => rfl
  | cons call calls ih =>
    have hcall : readCallBody (callBody (call.target.display keccak256, toHex call.data)) =
        some (callValue call) := by
      rw [callBody, readCallBody_obj]
      simp only [readAddress_display, readUint_zero, readData_toHex]
      rfl
    rw [List.map_cons, List.map_cons, List.mapM_cons, hcall, ih]
    rfl

theorem readSubmission_batch (wallet factory : Address) (nonce deadline : UInt64)
    (calls : List DepositWalletCall) :
    readSubmission chainId (DepositWalletBatchRequest.body
      { sender := sender.display keccak256
        toText := factory.display keccak256
        nonce := nonce.toNat.repr
        signature := toHex (packSignature sig 27).bytes
        depositWallet := wallet.display keccak256
        deadline := deadline.toNat.repr
        calls := calls.map fun call => (call.target.display keccak256, toHex call.data) }) =
      some ⟨sender, (Payload.batch wallet chainId nonce deadline calls).request, sig⟩ := by
  rw [readSubmission_wallet, DepositWalletBatchRequest.body, readBatch_obj, readWalletParams_obj]
  simp only [readAddress_display, readUint_u64, readSignature_pack, readCalls]
  rfl

end Bodies

/-! ## Other bodies -/

/-- The types of a request are those of a kind. -/
structure OfKind (kind : Kind) (r : Eip712.Request) : Prop where
  domain_name : r.domain.name = "EIP712Domain"
  domain_members : r.domain.members = kind.domain
  message_name : r.message.name = kind.name
  message_members : r.message.members = kind.members

theorem OfKind.typeTexts {kind : Kind} {r : Eip712.Request} (h : OfKind kind r) :
    r.typeTexts = kind.typeTexts := by
  rw [Eip712.Request.typeTexts, h.domain_name, h.domain_members, h.message_name,
    h.message_members, Kind.typeTexts]

theorem ofKind_request (p : Payload) : OfKind p.kind p.request := by
  obtain ⟨hdomain, hdomainMembers, hname, hmembers⟩ := p.request_types
  exact ⟨hdomain, hdomainMembers, hname, hmembers⟩

/-- Two requests of known kinds under one hash. -/
theorem OfKind.eq_of_hash {keccak256 : Bytes → B256} {kind kind' : Kind} {r r' : Eip712.Request}
    (h : OfKind kind r) (h' : OfKind kind' r')
    (hno : ¬Collision keccak256 (r.hashed keccak256) (r'.hashed keccak256))
    (heq : r.hash keccak256 = r'.hash keccak256) : r = r' := by
  obtain rfl : kind = kind' := by
    apply Kind.typeTexts_injective
    rw [← h.typeTexts, ← h'.typeTexts]
    exact Eip712.Request.typeTexts_eq_of_hash hno heq
  refine Eip712.Request.eq_of_hash ?_ ?_ ?_ hno heq
  · exact ⟨h.domain_name.trans h'.domain_name.symm, h.domain_members.trans h'.domain_members.symm,
      h.message_name.trans h'.message_name.symm, h.message_members.trans h'.message_members.symm⟩
  · rw [h.domain_members]
    exact kind.domain_fits
  · rw [h.message_members]
    exact kind.members_fits

/-- A read struct comes from some fields. -/
theorem fields_of_struct {α : Type} {names : List String} {read : Fields → Option α} {v : Value}
    {a : α} (h : struct names read v = some a) : ∃ fields, read fields = some a := by
  cases v with
  | obj members => exact ⟨_, h⟩
  | arr elems =>
    simp only [struct] at h
    split at h
    · exact ⟨_, h⟩
    · cases h
  | _ => cases h

theorem readSafe_request {chainId : UInt64} {v : Value} {sub : Submission}
    (h : readSafe chainId v = some sub) : OfKind .safeTx sub.request := by
  obtain ⟨fields, h⟩ := fields_of_struct h
  simp only [Option.bind_eq_bind, Option.bind_eq_some_iff] at h
  obtain ⟨_, _, _, _, _, _, _, _, _, _, _, _, _, _, h⟩ := h
  cases h
  exact ⟨rfl, rfl, rfl, rfl⟩

theorem readDeploy_request {chainId : UInt64} {v : Value} {sub : Submission}
    (h : readDeploy chainId v = some sub) : OfKind .createProxy sub.request := by
  obtain ⟨fields, h⟩ := fields_of_struct h
  simp only [Option.bind_eq_bind, Option.bind_eq_some_iff] at h
  obtain ⟨_, _, _, _, _, _, _, _, h⟩ := h
  cases h
  exact ⟨rfl, rfl, rfl, rfl⟩

theorem readBatch_request {chainId : UInt64} {v : Value} {sub : Submission}
    (h : readBatch chainId v = some sub) : OfKind .batch sub.request := by
  obtain ⟨fields, h⟩ := fields_of_struct h
  simp only [Option.bind_eq_bind, Option.bind_eq_some_iff] at h
  obtain ⟨_, _, _, _, _, _, _, _, h⟩ := h
  cases h
  exact ⟨rfl, rfl, rfl, rfl⟩

theorem readSubmission_ofKind {chainId : UInt64} {v : Value} {sub : Submission}
    (h : readSubmission chainId v = some sub) : ∃ kind, OfKind kind sub.request := by
  cases v with
  | obj members =>
    obtain ⟨tag, _, h⟩ := Option.bind_eq_some_iff.mp h
    by_cases hsafe : tag = "SAFE"
    · rw [if_pos hsafe] at h
      exact ⟨_, readSafe_request h⟩
    by_cases hcreate : tag = "SAFE-CREATE"
    · rw [if_neg hsafe, if_pos hcreate] at h
      exact ⟨_, readDeploy_request h⟩
    by_cases hwallet : tag = "WALLET"
    · rw [if_neg hsafe, if_neg hcreate, if_pos hwallet] at h
      exact ⟨_, readBatch_request h⟩
    · rw [if_neg hsafe, if_neg hcreate, if_neg hwallet] at h
      cases h
  | _ => cases h

/-! ## Runs -/

/-- Once the message is fixed: the key refuses it, or its signature goes out on a body from
which the message, the signature and the signer are read. -/
inductive Relays (keccak256 : Bytes → B256) (client : RelayerClient) (signer : Signer)
    (chainId : UInt64) (p : Payload) : List Effect → Prop
  | refused {e : String} (hsig : signer.signHash (p.request.hash keccak256) = .error e) :
    Relays keccak256 client signer chainId p [.signed (p.request.hash keccak256)]
  | posted {sig : Signature} {body : Value}
    (hsig : signer.signHash (p.request.hash keccak256) = .ok sig)
    (hread : readSubmission chainId body = some ⟨signer.address, p.request, sig⟩) :
    Relays keccak256 client signer chainId p
      [.signed (p.request.hash keccak256), .sent (submitPost client body)]

/-- A signed message is posted. -/
theorem Relays.of_signed {keccak256 : Bytes → B256} {client : RelayerClient} {signer : Signer}
    {chainId : UInt64} {p : Payload} {effects : List Effect}
    (h : Relays keccak256 client signer chainId p effects) {sig : Signature}
    (hsig : signer.signHash (p.request.hash keccak256) = .ok sig) :
    ∃ body, effects = [.signed (p.request.hash keccak256), .sent (submitPost client body)] ∧
      readSubmission chainId body = some ⟨signer.address, p.request, sig⟩ := by
  cases h with
  | refused hno =>
    rw [hno] at hsig
    cases hsig
  | posted hsig' hread =>
    obtain rfl := Except.ok.inj (hsig.symm.trans hsig')
    exact ⟨_, rfl, hread⟩

section Runs
variable (keccak256 : Bytes → B256) (net : Net) (client : RelayerClient) (signer : Signer)

theorem postSubmit_queries (body : Value) :
    (postSubmit net client body).queries = [.sent (submitPost client body)] := by
  rw [postSubmit, Logged.bind_queries]
  show [Effect.sent (submitPost client body)] ++ _ = _
  cases (sendRequest net (submitPost client body)).value with
  | error e => rfl
  | ok resp =>
    simp only
    split
    · rfl
    · split <;> rfl

variable {keccak256} (pinned : PinnedHashes keccak256)

include pinned in
theorem submit_relays (safe toAddr : Address) (data : Bytes) (nonce : UInt64) :
    Relays keccak256 client signer client.chainId
      (.safeTx safe client.chainId toAddr data nonce)
      (submit keccak256 net client signer safe toAddr data nonce).queries := by
  have hhash := (Payload.safeTx safe client.chainId toAddr data nonce).handed_eq pinned
    (FixedBytes.zero 16)
  simp only [Payload.handed] at hhash
  rw [submit, Logged.bind_queries]
  simp only [sign, hhash]
  cases hsig : signer.signHash (Payload.safeTx safe client.chainId toAddr data nonce |>.request.hash
      keccak256) with
  | error e => exact .refused hsig
  | ok sig =>
    simp only [Except.mapError, postSubmit_queries]
    exact .posted hsig (readSubmission_submit keccak256 signer.address sig _ _ _ _ _)

include pinned in
theorem deploy_relays (safeFactory safe : Address) (chainId : UInt64) :
    Relays keccak256 client signer chainId (.createProxy safeFactory chainId)
      (deploy keccak256 net client signer safeFactory safe chainId).queries := by
  have hhash := (Payload.createProxy safeFactory chainId).handed_eq pinned (FixedBytes.zero 16)
  simp only [Payload.handed] at hhash
  rw [deploy, Logged.bind_queries]
  simp only [sign, hhash]
  cases hsig : signer.signHash ((Payload.createProxy safeFactory chainId).request.hash
      keccak256) with
  | error e => exact .refused hsig
  | ok sig =>
    have hposted : Relays keccak256 client signer chainId (.createProxy safeFactory chainId) _ :=
      .posted hsig (readSubmission_deploy keccak256 signer.address sig chainId safeFactory safe)
    simp only [Except.mapError, Logged.bind_queries]
    cases (sendRequest net _).value with
    | error e => exact hposted
    | ok resp =>
      cases hok : resp.isSuccess with
      | true =>
        simp only [hok, if_true]
        exact hposted
      | false =>
        simp only [hok, Bool.false_eq_true, if_false]
        exact hposted

theorem nonce_queries (printJson : Value → String) (eoa : Address) :
    (getWalletNonce keccak256 net client printJson eoa).queries =
      [.sent (nonceGet keccak256 client eoa)] := by
  rw [getWalletNonce, Logged.bind_queries]
  show [Effect.sent _] ++ _ = _
  cases (sendRequest net _).value with
  | error e => rfl
  | ok resp =>
    simp only
    split <;> rfl

include pinned in
theorem batch_relays (printJson : Value → String) (wallet : Address) (chainId : UInt64)
    (calls : List DepositWalletCall) {nonce secs : UInt64}
    (hnonce : (getWalletNonce keccak256 net client printJson signer.address).value = .ok nonce)
    (hnow : net.now = .ok secs) :
    ∃ rest, (submitDepositWalletBatch keccak256 net client printJson signer wallet chainId
        calls).queries = .sent (nonceGet keccak256 client signer.address) :: rest ∧
      Relays keccak256 client signer chainId
        (.batch wallet chainId nonce (secs + depositWalletDeadlineSecs) calls) rest := by
  rw [submitDepositWalletBatch, Logged.bind_queries, nonce_queries]
  refine ⟨_, rfl, ?_⟩
  have hhash := (Payload.batch wallet chainId nonce (secs + depositWalletDeadlineSecs)
    calls).handed_eq pinned (FixedBytes.zero 16)
  simp only [Payload.handed] at hhash
  simp only [hnonce, hnow, Logged.bind_queries, sign, hhash]
  cases hsig : signer.signHash ((Payload.batch wallet chainId nonce
      (secs + depositWalletDeadlineSecs) calls).request.hash keccak256) with
  | error e => exact .refused hsig
  | ok sig =>
    simp only [Except.mapError, postSubmit_queries]
    exact .posted hsig (readSubmission_batch keccak256 signer.address sig _ _ _ _ _ _)

/-- Without a nonce or a time the key is not asked, and nothing but the nonce request is sent. -/
theorem batch_stops (printJson : Value → String) (wallet : Address) (chainId : UInt64)
    (calls : List DepositWalletCall)
    (h : (∃ e, (getWalletNonce keccak256 net client printJson signer.address).value = .error e) ∨
      ∃ e, net.now = .error e) :
    (submitDepositWalletBatch keccak256 net client printJson signer wallet chainId
        calls).queries = [.sent (nonceGet keccak256 client signer.address)] ∧
      ∃ e, (submitDepositWalletBatch keccak256 net client printJson signer wallet chainId
        calls).value = .error e := by
  rw [submitDepositWalletBatch, Logged.bind_queries, Logged.bind_value, nonce_queries]
  cases hnonce : (getWalletNonce keccak256 net client printJson signer.address).value with
  | error e => exact ⟨rfl, _, rfl⟩
  | ok nonce =>
    rcases h with ⟨e, he⟩ | ⟨e, he⟩
    · rw [hnonce] at he
      cases he
    · simp only [he]
      exact ⟨rfl, _, rfl⟩

end Runs

/-- Each submission asks the key for one hash, that of its message, and posts nothing the key
refused; from what it posts, the message, the signature and the signer are read back. A batch
does so once it has a nonce and a time, and otherwise asks for nothing and fails. A body that
fits the signed hash in any other way gives away a collision. -/
theorem relayer_reads_what_was_signed (keccak256 : Bytes → B256) (pinned : PinnedHashes keccak256)
    (net : Net) (client : RelayerClient) (printJson : Value → String) (signer : Signer) :
    (∀ (safe toAddr : Address) (data : Bytes) (nonce : UInt64),
      Relays keccak256 client signer client.chainId
        (.safeTx safe client.chainId toAddr data nonce)
        (submit keccak256 net client signer safe toAddr data nonce).queries) ∧
    (∀ (safeFactory safe : Address) (chainId : UInt64),
      Relays keccak256 client signer chainId (.createProxy safeFactory chainId)
        (deploy keccak256 net client signer safeFactory safe chainId).queries) ∧
    (∀ (wallet : Address) (chainId : UInt64) (calls : List DepositWalletCall),
      let nonceRead := (getWalletNonce keccak256 net client printJson signer.address).value
      let run := submitDepositWalletBatch keccak256 net client printJson signer wallet chainId calls
      (∀ nonce secs, nonceRead = .ok nonce → net.now = .ok secs →
        ∃ rest, run.queries = .sent (nonceGet keccak256 client signer.address) :: rest ∧
          Relays keccak256 client signer chainId
            (.batch wallet chainId nonce (secs + depositWalletDeadlineSecs) calls) rest) ∧
      ((∃ e, nonceRead = .error e) ∨ (∃ e, net.now = .error e) →
        run.queries = [.sent (nonceGet keccak256 client signer.address)] ∧
          ∃ e, run.value = .error e)) ∧
    ∀ (p : Payload) (chainId : UInt64) (body : Value) (sub : Submission),
      readSubmission chainId body = some sub →
      p.request.hash keccak256 = sub.request.hash keccak256 →
      p.request = sub.request ∨
        Collision keccak256 (p.request.hashed keccak256) (sub.request.hashed keccak256) := by
  refine ⟨submit_relays net client signer pinned, deploy_relays net client signer pinned, ?_, ?_⟩
  · intro wallet chainId calls nonceRead run
    exact ⟨fun _ _ => batch_relays net client signer pinned printJson wallet chainId calls,
      batch_stops net client signer printJson wallet chainId calls⟩
  intro p chainId body sub hread hhash
  refine or_iff_not_imp_right.mpr fun hno => ?_
  obtain ⟨kind, hkind⟩ := readSubmission_ofKind hread
  exact (ofKind_request p).eq_of_hash hkind hno hhash

/-- A relayer that answers every request, and a key that signs every hash. -/
def openNet : Net where
  send := fun _ => .ok ⟨200, some "", .ok (.obj [("transactionID", .str "7"), ("nonce", .str "4")])⟩
  statusText := Nat.repr
  decodeText := "error decoding response body"
  now := .ok 1700000000

def openSigner : Signer := ⟨Chain.exchangeV2, fun _ => .ok ⟨1, 2, true⟩⟩

/-- A call from a Safe, and a batch with one call. -/
theorem relayer_reads_what_was_signed_call :
    let client := RelayerClient.new "key" "address"
    let p := Payload.safeTx Chain.exchangeV3 137 Chain.collateral [0x09] 4
    let q := Payload.batch Chain.exchangeV3 137 4 1700000600 [⟨Chain.ctf, [0x09]⟩]
    (∃ body, (submit Keccak.keccak256 openNet client openSigner Chain.exchangeV3
        Chain.collateral [0x09] 4).queries =
          [.signed (p.request.hash Keccak.keccak256), .sent (submitPost client body)] ∧
      readSubmission 137 body = some ⟨Chain.exchangeV2, p.request, ⟨1, 2, true⟩⟩) ∧
    ∃ body, (submitDepositWalletBatch Keccak.keccak256 openNet client (fun _ => "") openSigner
        Chain.exchangeV3 137 [⟨Chain.ctf, [0x09]⟩]).queries =
          [.sent (nonceGet Keccak.keccak256 client Chain.exchangeV2),
            .signed (q.request.hash Keccak.keccak256), .sent (submitPost client body)] ∧
      readSubmission 137 body = some ⟨Chain.exchangeV2, q.request, ⟨1, 2, true⟩⟩ := by
  intro client p q
  obtain ⟨hsubmit, -, hbatch, -⟩ := relayer_reads_what_was_signed Keccak.keccak256
    pinnedHashes_keccak openNet client (fun _ => "") openSigner
  refine ⟨(hsubmit Chain.exchangeV3 Chain.collateral [0x09] 4).of_signed rfl, ?_⟩
  have hnonce : (getWalletNonce Keccak.keccak256 openNet client (fun _ => "")
      openSigner.address).value = .ok 4 := by
    have hread : readNonce (.obj [("transactionID", .str "7"), ("nonce", .str "4")]) = some 4 := by
      decide +kernel
    rw [getWalletNonce, Logged.bind_value]
    simp only [sendRequest, openNet, Except.mapError]
    rw [if_pos (by decide), Logged.pure_value]
    simp only [bind, Except.bind, hread]
    rfl
  obtain ⟨rest, hqueries, hrelays⟩ := (hbatch Chain.exchangeV3 137 [⟨Chain.ctf, [0x09]⟩]).1
    4 1700000000 hnonce rfl
  obtain ⟨body, hrest, hread⟩ := hrelays.of_signed rfl
  rw [hrest] at hqueries
  exact ⟨body, hqueries, hread⟩

end Eggplant.Relayer
