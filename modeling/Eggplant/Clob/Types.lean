import Eggplant.Error
import Eggplant.Lib.Eip712

/-!
# CLOB order types

The V1 and V2 order structs, their payloads and the signed order. A `uint256`
field is a 256-bit vector and a `uint8` field a byte, so every value of the type
is one the struct can hold.
-/
namespace Eggplant.Clob

set_option autoImplicit false

open Eggplant.Lib Eggplant.Lib.Words Eggplant.Lib.Text

inductive Side where
  | buy
  | sell
  | unknown
  deriving DecidableEq

namespace Side

/-- `Display`, and the upper-case name the serializer prints. -/
def display : Side → String
  | buy => "BUY"
  | sell => "SELL"
  | unknown => "UNKNOWN"

/-- `Side::try_from`: the catch-all variant is not a side to send. -/
def tryFrom (value : UInt8) : Except Error Side :=
  if value = 0 then .ok buy
  else if value = 1 then .ok sell
  else .error (.invalidData ("unable to create Side from " ++ value.toNat.repr))

end Side

inductive OrderType where
  | gtc
  | fok
  | gtd
  | fak
  | unknown (raw : String)
  deriving DecidableEq

/-- `Display`, and the text the serializer prints. -/
def OrderType.display : OrderType → String
  | gtc => "GTC"
  | fok => "FOK"
  | gtd => "GTD"
  | fak => "FAK"
  | unknown raw => raw

inductive SignatureType where
  | eoa
  | proxy
  | gnosisSafe
  | poly1271
  deriving DecidableEq

/-- `self as u8`. -/
def SignatureType.asU8 : SignatureType → UInt8
  | eoa => 0
  | proxy => 1
  | gnosisSafe => 2
  | poly1271 => 3

/-- The legacy exchange's `Order`; `expiration` is part of what is signed. -/
structure OrderV1 where
  salt : BitVec 256
  maker : Address
  signer : Address
  taker : Address
  tokenId : BitVec 256
  makerAmount : BitVec 256
  takerAmount : BitVec 256
  expiration : BitVec 256
  nonce : BitVec 256
  feeRateBps : BitVec 256
  side : UInt8
  signatureType : UInt8
  deriving DecidableEq

/-- The V2 exchange's `Order`. -/
structure OrderV2 where
  salt : BitVec 256
  maker : Address
  signer : Address
  tokenId : BitVec 256
  makerAmount : BitVec 256
  takerAmount : BitVec 256
  side : UInt8
  signatureType : UInt8
  timestamp : BitVec 256
  metadata : B256
  builder : B256
  deriving DecidableEq

/-- The members `sol!` declares for the V2 struct, in order. -/
def OrderV2.members : Eip712.Members :=
  .cons "salt" (.uint 256) <| .cons "maker" .address <| .cons "signer" .address <|
  .cons "tokenId" (.uint 256) <| .cons "makerAmount" (.uint 256) <|
  .cons "takerAmount" (.uint 256) <| .cons "side" (.uint 8) <| .cons "signatureType" (.uint 8) <|
  .cons "timestamp" (.uint 256) <| .cons "metadata" .bytes32 <| .cons "builder" .bytes32 .nil

/-- The order as a typed message; `sol!` names the Solidity type `Order`. -/
def OrderV2.message (o : OrderV2) : Eip712.Struct where
  name := "Order"
  members := OrderV2.members
  value := (o.salt, o.maker, o.signer, o.tokenId, o.makerAmount, o.takerAmount, o.side.toBitVec,
    o.signatureType.toBitVec, o.timestamp, o.metadata, o.builder, ())

/-- `eip712_hash_struct`, which the library derives from the struct's declaration. -/
def OrderV2.eip712HashStruct (keccak256 : Bytes → B256) (o : OrderV2) : B256 :=
  Eip712.hashStruct keccak256 o.message

structure OrderPayloadV1 where
  order : OrderV1
  deriving DecidableEq

/-- The signed struct plus the out-of-struct `expiration`. -/
structure OrderPayloadV2 where
  order : OrderV2
  expiration : BitVec 256
  deriving DecidableEq

inductive OrderPayload where
  | v1 (payload : OrderPayloadV1)
  | v2 (payload : OrderPayloadV2)
  deriving DecidableEq

/-- `uuid::Uuid`. -/
abbrev ApiKey := FixedBytes 16

/-- The library's ECDSA signature. -/
structure Signature where
  r : BitVec 256
  s : BitVec 256
  yParity : Bool
  deriving DecidableEq

/-- `as_bytes`: `r ‖ s ‖ v` with `v` 27 or 28. -/
def Signature.asBytes (sig : Signature) : FixedBytes 65 :=
  ⟨beBytes 32 sig.r.toNat ++ beBytes 32 sig.s.toNat ++ [if sig.yParity then 28 else 27], by
    simp only [List.length_append, beBytes_length, List.length_singleton]⟩

inductive OrderSignature where
  | ecdsa (sig : Signature)
  | wrapped (text : String)
  deriving DecidableEq

/-- `Display`: the wire form of the signature. -/
def OrderSignature.display : OrderSignature → String
  | ecdsa sig => "0x" ++ hexText sig.asBytes.bytes
  | wrapped text => text

structure SignableOrder where
  payload : OrderPayload
  orderType : OrderType
  postOnly : Option Bool
  deferExec : Option Bool
  deriving DecidableEq

structure SignedOrder where
  payload : OrderPayload
  signature : OrderSignature
  orderType : OrderType
  owner : ApiKey
  postOnly : Option Bool
  deferExec : Option Bool
  deriving DecidableEq

/-- `SignedOrder::new`, without flags. -/
def SignedOrder.new (payload : OrderPayload) (signature : OrderSignature) (orderType : OrderType)
    (owner : ApiKey) : SignedOrder :=
  { payload, signature, orderType, owner, postOnly := none, deferExec := none }

theorem Side.tryFrom_isOk_iff (value : UInt8) :
    (∃ side, Side.tryFrom value = .ok side) ↔ value = 0 ∨ value = 1 := by
  unfold Side.tryFrom
  split
  next h => simp [h]
  next h0 =>
    split
    next h => simp [h]
    next h1 => simp [h0, h1]

end Eggplant.Clob
