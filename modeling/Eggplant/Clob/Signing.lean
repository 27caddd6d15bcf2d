import Eggplant.Chain
import Eggplant.Clob.Types
import Eggplant.Lib.Oracle
import Eggplant.TypedData

/-!
# Order signing

`OrderSigner` hashes its exchange domain and lays out the wallet's wrapper template
once; an order then costs one struct hash, a spliced buffer for deposit wallets,
and one signature. The hash function and the key are parameters; the digests
handed to the key are logged.
-/
namespace Eggplant.Clob

set_option autoImplicit false

open Eggplant.Lib Eggplant.Lib.Words Eggplant.Lib.Text Eggplant.Lib.Buffer Eggplant.Lib.Oracle

def domainTypeString : String :=
  "EIP712Domain(string name,string version,uint256 chainId,address verifyingContract)"

/-- The domain name every exchange deployment shares. -/
def orderDomainName : String := "Polymarket CTF Exchange"

def orderTypeString : String :=
  "Order(uint256 salt,address maker,address signer,uint256 tokenId," ++
  "uint256 makerAmount,uint256 takerAmount,uint8 side,uint8 signatureType," ++
  "uint256 timestamp,bytes32 metadata,bytes32 builder)"

def soladyTypeString : String :=
  "TypedDataSign(Order contents,string name,string version,uint256 chainId," ++
  "address verifyingContract,bytes32 salt)" ++
  "Order(uint256 salt,address maker,address signer,uint256 tokenId," ++
  "uint256 makerAmount,uint256 takerAmount,uint8 side,uint8 signatureType," ++
  "uint256 timestamp,bytes32 metadata,bytes32 builder)"

def depositWalletName : String := "DepositWallet"

def depositWalletVersion : String := "1"

/-- `push_hex`: two table look-ups per byte. -/
def pushHex (out : String) (bytes : Bytes) : String :=
  bytes.foldl (fun out (byte : UInt8) =>
    (out.push (hexDigit (byte >>> 4).toNat)).push (hexDigit (byte &&& 0x0f).toNat)) out

theorem pushHex_eq (bytes : Bytes) (out : String) : pushHex out bytes = out ++ hexText bytes := by
  induction bytes generalizing out with
  | nil => simp [pushHex, hexText, hexChars]
  | cons b bs ih =>
    have hhi : (b >>> 4).toNat = b.toNat / 16 := by
      simp [UInt8.toNat_shiftRight, Nat.shiftRight_eq_div_pow]
    have hlo : (b &&& 0x0f).toNat = b.toNat % 16 := by
      rw [UInt8.toNat_and]
      exact Nat.and_two_pow_sub_one_eq_mod b.toNat 4
    calc pushHex out (b :: bs)
        = pushHex ((out.push (hexDigit (b >>> 4).toNat)).push (hexDigit (b &&& 0x0f).toNat)) bs :=
          rfl
      _ = (out.push (hexDigit (b >>> 4).toNat)).push (hexDigit (b &&& 0x0f).toNat) ++
          hexText bs := ih _
      _ = out ++ hexText (b :: bs) := by
        rw [hhi, hlo]
        apply String.toList_injective
        simp [hexText, hexChars, hexPair]

structure ExchangeDomain where
  name : String
  version : String
  verifyingContract : Address
  deriving DecidableEq

namespace ExchangeDomain

def ctfV2 (negRisk : Bool) : ExchangeDomain where
  name := orderDomainName
  version := "2"
  verifyingContract := if negRisk then Chain.negRiskExchangeV2 else Chain.exchangeV2

def combosV3 : ExchangeDomain where
  name := orderDomainName
  version := "3"
  verifyingContract := Chain.exchangeV3

/-- A deployment the crate does not know. -/
def custom (version : String) (verifyingContract : Address) : ExchangeDomain where
  name := orderDomainName
  version := version
  verifyingContract := verifyingContract

end ExchangeDomain

structure OrderIdentity where
  maker : Address
  signer : Address
  signatureType : SignatureType
  deriving DecidableEq

namespace OrderIdentity

def eoa (address : Address) : OrderIdentity := ⟨address, address, .eoa⟩

def proxy (eoa proxyWallet : Address) : OrderIdentity := ⟨proxyWallet, eoa, .proxy⟩

def gnosisSafe (eoa safeWallet : Address) : OrderIdentity := ⟨safeWallet, eoa, .gnosisSafe⟩

def poly1271 (depositWallet : Address) : OrderIdentity := ⟨depositWallet, depositWallet, .poly1271⟩

/-- The order names the identity's addresses and its signature type. -/
def CarriedBy (identity : OrderIdentity) (order : OrderV2) : Prop :=
  order.maker = identity.maker ∧ order.signer = identity.signer ∧
    order.signatureType = identity.signatureType.asU8

end OrderIdentity

structure OrderSigner where
  domainSeparator : B256
  identity : OrderIdentity
  /-- The wrapper's struct buffer with an empty slot for the contents hash. -/
  typedDataTemplate : Bytes
  domainSeparatorHex : String
  orderTypeSuffix : String
  owner : ApiKey

/-- How a signing call ends early. -/
inductive Stop where
  | panicked (message : String)
  | failed (error : Error)
  deriving DecidableEq

section Signing
variable (keccak256 : Bytes → B256)

/-- The wallet wrapper's buffer before an order is known. -/
def walletTemplate (chainId : UInt64) (identity : OrderIdentity) : Bytes :=
  fill 224
    [(0, (keccak256 (utf8 soladyTypeString)).bytes),
      -- slot 1, the contents hash, stays empty
      (64, (keccak256 (utf8 depositWalletName)).bytes),
      (96, (keccak256 (utf8 depositWalletVersion)).bytes),
      (128, (u64Word chainId).bytes),
      (172, identity.signer.bytes)]

def OrderSigner.new (chainId : UInt64) (domain : ExchangeDomain) (identity : OrderIdentity)
    (owner : ApiKey) : OrderSigner :=
  let domainBuf := fill 160
    [(0, (keccak256 (utf8 domainTypeString)).bytes),
      (32, (keccak256 (utf8 domain.name)).bytes),
      (64, (keccak256 (utf8 domain.version)).bytes),
      (96, (u64Word chainId).bytes),
      (140, domain.verifyingContract.bytes)]
  let domainSeparator := keccak256 domainBuf
  -- `as u16` keeps the low two bytes of the length
  let len : UInt16 := UInt16.ofNat (utf8 orderTypeString).length
  { domainSeparator
    identity
    typedDataTemplate := walletTemplate keccak256 chainId identity
    domainSeparatorHex := pushHex "" domainSeparator.bytes
    orderTypeSuffix := pushHex (pushHex "" (utf8 orderTypeString)) (beBytes 2 len.toNat)
    owner }

/-- What stands in the struct-hash slot of the digest. -/
def OrderSigner.structHash (self : OrderSigner) (contentsHash : B256) : B256 :=
  match self.identity.signatureType with
  | .eoa | .proxy | .gnosisSafe => contentsHash
  | .poly1271 => keccak256 (copyAt self.typedDataTemplate 32 contentsHash.bytes)

/-- The plain signature, or the hex envelope a deposit wallet unwraps. -/
def OrderSigner.wireSignature (self : OrderSigner) (contentsHash : B256) (sig : Signature) :
    OrderSignature :=
  match self.identity.signatureType with
  | .eoa | .proxy | .gnosisSafe => .ecdsa sig
  | .poly1271 =>
      let wrapped := pushHex "0x" sig.asBytes.bytes ++ self.domainSeparatorHex
      .wrapped (pushHex wrapped contentsHash.bytes ++ self.orderTypeSuffix)

/-- `sign_order`. `debugAssertions` says whether the build checks `debug_assert_eq!`. -/
def OrderSigner.signOrder (debugAssertions : Bool) (self : OrderSigner) (order : SignableOrder)
    (signer : B256 → Except String Signature) : Logged B256 (Except Stop SignedOrder) :=
  match order.payload with
  | .v1 _ => pure (.error (.failed (.invalidData "expected V2 order")))
  | .v2 p =>
      if debugAssertions ∧ p.order.maker ≠ self.identity.maker then
        pure (.error (.panicked "order maker must match the signer's identity"))
      else if debugAssertions ∧ p.order.signatureType ≠ self.identity.signatureType.asU8 then
        pure (.error (.panicked "order signatureType must match the signer's identity"))
      else do
        let contentsHash := p.order.eip712HashStruct keccak256
        let structHash := self.structHash keccak256 contentsHash
        let digest := keccak256 (digestInput self.domainSeparator structHash)
        match ← Logged.ask signer digest with
        | .error e => pure (.error (.failed (.invalidData ("signing failed: " ++ e))))
        | .ok sig =>
            let signature := self.wireSignature contentsHash sig
            pure (.ok { SignedOrder.new order.payload signature order.orderType self.owner with
              postOnly := order.postOnly, deferExec := order.deferExec })

/-! ## The domain -/

/-- The exchange domain as the standard has it. -/
def ExchangeDomain.eip712 (domain : ExchangeDomain) (chainId : UInt64) : Eip712.Domain where
  name := some domain.name
  version := some domain.version
  chainId := some (u64Uint chainId)
  verifyingContract := some domain.verifyingContract

def domainMembers : Eip712.Members :=
  .cons "name" .string <| .cons "version" .string <| .cons "chainId" (.uint 256) <|
  .cons "verifyingContract" .address .nil

theorem encodeType_domain :
    Eip712.encodeType "EIP712Domain" domainMembers = domainTypeString := by
  decide +kernel

/-- What the library derives from the struct declaration is the pinned type string. -/
theorem encodeType_order : Eip712.encodeType "Order" OrderV2.members = orderTypeString := by
  decide +kernel

theorem domainSeparator_eq (chainId : UInt64) (domain : ExchangeDomain) (identity : OrderIdentity)
    (owner : ApiKey) :
    (OrderSigner.new keccak256 chainId domain identity owner).domainSeparator =
      Eip712.domainSeparator keccak256 (domain.eip712 chainId) := by
  show keccak256 (fill 160 _) = _
  have hs : (domain.eip712 chainId).toStruct =
      { name := "EIP712Domain", members := domainMembers
        value := (domain.name, domain.version, u64Uint chainId, domain.verifyingContract, ()) } :=
    rfl
  rw [fill_eq_layout _ (by simp [Ordered, FixedBytes.length_eq]), Eip712.domainSeparator, hs,
    Eip712.hashStruct_eq, Eip712.typeHash, encodeType_domain]
  simp [layout, FixedBytes.length_eq, domainMembers, Eip712.Members.encodeData, Eip712.Ty.encode,
    word_u64Uint, Word.leftPad, zeros]

/-! ## What one call does -/

/-- The digest an order is signed under. -/
def OrderSigner.digest (self : OrderSigner) (order : OrderV2) : B256 :=
  keccak256 (digestInput self.domainSeparator
    (self.structHash keccak256 (order.eip712HashStruct keccak256)))

/-- The order as it leaves the signer. -/
def OrderSigner.signedOrder (self : OrderSigner) (order : SignableOrder) (p : OrderPayloadV2)
    (sig : Signature) : SignedOrder :=
  { SignedOrder.new order.payload
      (self.wireSignature (p.order.eip712HashStruct keccak256) sig) order.orderType self.owner with
    postOnly := order.postOnly, deferExec := order.deferExec }

/-- An order that carries the signer's identity passes both debug assertions. -/
theorem signOrder_carried {debugAssertions : Bool} {self : OrderSigner} {order : SignableOrder}
    {p : OrderPayloadV2} (hp : order.payload = .v2 p) (h : self.identity.CarriedBy p.order)
    (signer : B256 → Except String Signature) :
    self.signOrder keccak256 debugAssertions order signer =
      (do
        match ← Logged.ask signer (self.digest keccak256 p.order) with
        | .error e => pure (.error (.failed (.invalidData ("signing failed: " ++ e))))
        | .ok sig => pure (.ok (self.signedOrder keccak256 order p sig))) := by
  obtain ⟨hmaker, -, htype⟩ := h
  unfold OrderSigner.signOrder
  rw [hp]
  simp only [hmaker, htype, ne_eq, not_true_eq_false, and_false, if_false]
  simp only [OrderSigner.signedOrder, hp]
  rfl

theorem signOrder_queries {debugAssertions : Bool} {self : OrderSigner} {order : SignableOrder}
    {p : OrderPayloadV2} (hp : order.payload = .v2 p) (h : self.identity.CarriedBy p.order)
    (signer : B256 → Except String Signature) :
    (self.signOrder keccak256 debugAssertions order signer).queries =
      [self.digest keccak256 p.order] := by
  rw [signOrder_carried keccak256 hp h, Logged.bind_queries, Logged.ask_queries, Logged.ask_value]
  cases signer (self.digest keccak256 p.order) with
  | error e => rfl
  | ok sig => rfl

theorem signOrder_value {debugAssertions : Bool} {self : OrderSigner} {order : SignableOrder}
    {p : OrderPayloadV2} (hp : order.payload = .v2 p) (h : self.identity.CarriedBy p.order)
    {signer : B256 → Except String Signature} {sig : Signature}
    (hsig : signer (self.digest keccak256 p.order) = .ok sig) :
    (self.signOrder keccak256 debugAssertions order signer).value =
      .ok (self.signedOrder keccak256 order p sig) := by
  rw [signOrder_carried keccak256 hp h, Logged.bind_value, Logged.ask_value, hsig]
  rfl

end Signing

end Eggplant.Clob
