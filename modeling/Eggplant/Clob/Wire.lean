import Eggplant.Clob.Types
import Eggplant.Lib.Json

/-!
# The signed order on the wire

`SignedOrder` is serialized through a mirror struct for each version, with the
signature folded into the inner object. The reader here is the venue's side: it
takes the object apart by its keys.
-/
namespace Eggplant.Clob

set_option autoImplicit false

open Eggplant.Lib Eggplant.Lib.Words Eggplant.Lib.Text

/-! ## Writers -/

/-- The hyphenated lower-case form of a `Uuid`. -/
def apiKeyText (key : ApiKey) : String :=
  String.ofList (writeGroups [4, 2, 2, 2, 6] key.bytes).tail

/-- An address or a 32-byte word as a marked hexadecimal string. -/
def hexJson {n : Nat} (a : FixedBytes n) : Json := .str ("0x" ++ hexText a.bytes)

def boolJson (b : Bool) : Json := .bool b

/-- `ser_u256_dec`. -/
def serU256Dec (value : BitVec 256) : Json := .str value.toNat.repr

/-- `ser_salt`: a JSON number, or an error where `u64::try_from` has one. `tooLarge` is
the integer library's message. -/
def serSalt (tooLarge : BitVec 256 → String) (value : BitVec 256) : Except String Json :=
  if value.toNat < 2 ^ 64 then .ok (.num value.toNat)
  else .error ("salt does not fit into u64: " ++ tooLarge value)

structure OrderV2WithSignature where
  salt : BitVec 256
  maker : Address
  signer : Address
  tokenId : BitVec 256
  makerAmount : BitVec 256
  takerAmount : BitVec 256
  side : Side
  expiration : BitVec 256
  signatureType : UInt8
  timestamp : BitVec 256
  metadata : B256
  builder : B256
  signature : String

/-- The members in the order of the struct, under their wire names. -/
def OrderV2WithSignature.members (o : OrderV2WithSignature) (salt : Json) :
    List (String × Json) :=
  [("salt", salt),
    ("maker", hexJson o.maker),
    ("signer", hexJson o.signer),
    ("tokenId", serU256Dec o.tokenId),
    ("makerAmount", serU256Dec o.makerAmount),
    ("takerAmount", serU256Dec o.takerAmount),
    ("side", .str o.side.display),
    ("expiration", serU256Dec o.expiration),
    ("signatureType", .num o.signatureType.toNat),
    ("timestamp", serU256Dec o.timestamp),
    ("metadata", hexJson o.metadata),
    ("builder", hexJson o.builder),
    ("signature", .str o.signature)]

def OrderV2WithSignature.serialize (tooLarge : BitVec 256 → String) (o : OrderV2WithSignature) :
    Except String Json := do
  let salt ← serSalt tooLarge o.salt
  pure (.obj (o.members salt))

structure OrderV1WithSignature where
  salt : BitVec 256
  maker : Address
  signer : Address
  taker : Address
  tokenId : BitVec 256
  makerAmount : BitVec 256
  takerAmount : BitVec 256
  side : Side
  expiration : BitVec 256
  nonce : BitVec 256
  feeRateBps : BitVec 256
  signatureType : UInt8
  signature : String

def OrderV1WithSignature.members (o : OrderV1WithSignature) (salt : Json) :
    List (String × Json) :=
  [("salt", salt),
    ("maker", hexJson o.maker),
    ("signer", hexJson o.signer),
    ("taker", hexJson o.taker),
    ("tokenId", serU256Dec o.tokenId),
    ("makerAmount", serU256Dec o.makerAmount),
    ("takerAmount", serU256Dec o.takerAmount),
    ("side", .str o.side.display),
    ("expiration", serU256Dec o.expiration),
    ("nonce", serU256Dec o.nonce),
    ("feeRateBps", serU256Dec o.feeRateBps),
    ("signatureType", .num o.signatureType.toNat),
    ("signature", .str o.signature)]

def OrderV1WithSignature.serialize (tooLarge : BitVec 256 → String) (o : OrderV1WithSignature) :
    Except String Json := do
  let salt ← serSalt tooLarge o.salt
  pure (.obj (o.members salt))

/-- The V2 body as `SignedOrder` fills it. -/
def OrderPayloadV2.mirror (payload : OrderPayloadV2) (side : Side) (signature : OrderSignature) :
    OrderV2WithSignature :=
  let order := payload.order
  { salt := order.salt
    maker := order.maker
    signer := order.signer
    tokenId := order.tokenId
    makerAmount := order.makerAmount
    takerAmount := order.takerAmount
    side := side
    expiration := payload.expiration
    signatureType := order.signatureType
    timestamp := order.timestamp
    metadata := order.metadata
    builder := order.builder
    signature := signature.display }

/-- The V1 body as `SignedOrder` fills it. -/
def OrderPayloadV1.mirror (payload : OrderPayloadV1) (side : Side) (signature : OrderSignature) :
    OrderV1WithSignature :=
  let order := payload.order
  { salt := order.salt
    maker := order.maker
    signer := order.signer
    taker := order.taker
    tokenId := order.tokenId
    makerAmount := order.makerAmount
    takerAmount := order.takerAmount
    side := side
    expiration := order.expiration
    nonce := order.nonce
    feeRateBps := order.feeRateBps
    signatureType := order.signatureType
    signature := signature.display }

/-- The `order` member: the mirror struct of the payload's version. -/
def serializeBody (tooLarge : BitVec 256 → String) (signature : OrderSignature) :
    OrderPayload → Except String Json
  | .v2 payload => do
      let side ← (Side.tryFrom payload.order.side).mapError Error.display
      (payload.mirror side signature).serialize tooLarge
  | .v1 payload => do
      let side ← (Side.tryFrom payload.order.side).mapError Error.display
      (payload.mirror side signature).serialize tooLarge

/-- A member that is left out when the flag is not set. -/
def flagMember (key : String) (flag : Option Bool) : List (String × Json) :=
  (flag.map fun b => (key, boolJson b)).toList

/-- `Serialize for SignedOrder`. -/
def SignedOrder.serialize (tooLarge : BitVec 256 → String) (self : SignedOrder) :
    Except String Json := do
  let body ← serializeBody tooLarge self.signature self.payload
  pure (.obj
    ([("order", body),
      ("orderType", .str self.orderType.display),
      ("owner", .str (apiKeyText self.owner))] ++
      flagMember "postOnly" self.postOnly ++ flagMember "deferExec" self.deferExec))

/-! ## The venue's reader -/

def readUint (body : Json) (key : String) : Option (BitVec 256) := do
  let j ← body.member key
  let s ← j.asStr
  let n ← readDec s
  if n < 2 ^ 256 then some (BitVec.ofNat 256 n) else none

def readSalt (body : Json) : Option (BitVec 256) := do
  let j ← body.member "salt"
  let n ← j.asNum
  if n < 2 ^ 64 then some (BitVec.ofNat 256 n) else none

def readHexField (n : Nat) (body : Json) (key : String) : Option (FixedBytes n) := do
  let j ← body.member key
  let s ← j.asStr
  readFixedHex n s

def readByte (body : Json) (key : String) : Option UInt8 := do
  let j ← body.member key
  let n ← j.asNum
  if n < 256 then some (UInt8.ofNat n) else none

def readSide (body : Json) : Option UInt8 := do
  let j ← body.member "side"
  let s ← j.asStr
  if s = "BUY" then some 0 else if s = "SELL" then some 1 else none

def readText (body : Json) (key : String) : Option String := do
  let j ← body.member key
  j.asStr

/-- An absent key is no flag. -/
def readFlag (outer : Json) (key : String) : Option (Option Bool) :=
  match outer.member key with
  | none => some none
  | some j => j.asBool.map some

def readApiKey (s : String) : Option ApiKey := do
  let bs ← readGroups [4, 2, 2, 2, 6] ('-' :: s.toList)
  if h : bs.length = 16 then some ⟨bs, h⟩ else none

def readV2 (body : Json) : Option OrderPayload := do
  let salt ← readSalt body
  let maker ← readHexField 20 body "maker"
  let signer ← readHexField 20 body "signer"
  let tokenId ← readUint body "tokenId"
  let makerAmount ← readUint body "makerAmount"
  let takerAmount ← readUint body "takerAmount"
  let side ← readSide body
  let expiration ← readUint body "expiration"
  let signatureType ← readByte body "signatureType"
  let timestamp ← readUint body "timestamp"
  let metadata ← readHexField 32 body "metadata"
  let builder ← readHexField 32 body "builder"
  let order : OrderV2 :=
    { salt, maker, signer, tokenId, makerAmount, takerAmount, side, signatureType, timestamp,
      metadata, builder }
  some (.v2 { order, expiration })

def readV1 (body : Json) : Option OrderPayload := do
  let salt ← readSalt body
  let maker ← readHexField 20 body "maker"
  let signer ← readHexField 20 body "signer"
  let taker ← readHexField 20 body "taker"
  let tokenId ← readUint body "tokenId"
  let makerAmount ← readUint body "makerAmount"
  let takerAmount ← readUint body "takerAmount"
  let side ← readSide body
  let expiration ← readUint body "expiration"
  let nonce ← readUint body "nonce"
  let feeRateBps ← readUint body "feeRateBps"
  let signatureType ← readByte body "signatureType"
  let order : OrderV1 :=
    { salt, maker, signer, taker, tokenId, makerAmount, takerAmount, expiration, nonce, feeRateBps,
      side, signatureType }
  some (.v1 { order })

/-- What the wire says about a signed order. -/
structure WireOrder where
  payload : OrderPayload
  signature : String
  orderType : String
  owner : ApiKey
  postOnly : Option Bool
  deferExec : Option Bool
  deriving DecidableEq

/-- Only the legacy body names a taker. -/
def readBody (body : Json) : Option OrderPayload :=
  if (body.member "taker").isSome then readV1 body else readV2 body

def readSignedOrder (outer : Json) : Option WireOrder := do
  let body ← outer.member "order"
  let payload ← readBody body
  let signature ← readText body "signature"
  let orderType ← readText outer "orderType"
  let ownerText ← readText outer "owner"
  let owner ← readApiKey ownerText
  let postOnly ← readFlag outer "postOnly"
  let deferExec ← readFlag outer "deferExec"
  some { payload, signature, orderType, owner, postOnly, deferExec }

/-! ## Reading back one member -/

section
variable {body : Json} {key : String}

theorem readUint_eq {v : BitVec 256} (h : body.member key = some (serU256Dec v)) :
    readUint body key = some v := by
  have hv : v.toNat < 2 ^ 256 := v.isLt
  simp only [readUint, h, serU256Dec, Json.asStr, readDec_repr, Option.bind_eq_bind,
    Option.bind_some, if_pos hv, BitVec.ofNat_toNat, BitVec.setWidth_eq]

theorem readSalt_eq {v : BitVec 256} (hv : v.toNat < 2 ^ 64)
    (h : body.member "salt" = some (.num v.toNat)) : readSalt body = some v := by
  simp only [readSalt, h, Json.asNum, Option.bind_eq_bind, Option.bind_some, if_pos hv,
    BitVec.ofNat_toNat, BitVec.setWidth_eq]

theorem readHexField_eq {n : Nat} {a : FixedBytes n} (h : body.member key = some (hexJson a)) :
    readHexField n body key = some a := by
  simp only [readHexField, h, hexJson, Json.asStr, Option.bind_eq_bind, Option.bind_some,
    readFixedHex_hexText]

theorem readByte_eq {b : UInt8} (h : body.member key = some (.num b.toNat)) :
    readByte body key = some b := by
  have hb : b.toNat < 256 := b.toNat_lt
  simp only [readByte, h, Json.asNum, Option.bind_eq_bind, Option.bind_some, if_pos hb,
    UInt8.ofNat_toNat]

/-- A side that may be sent is printed as a name that names the side byte. -/
theorem readSide_eq {b : UInt8} {side : Side} (hside : Side.tryFrom b = .ok side)
    (h : body.member "side" = some (.str side.display)) : readSide body = some b := by
  simp only [readSide, h, Json.asStr, Option.bind_eq_bind, Option.bind_some]
  unfold Side.tryFrom at hside
  split at hside
  next hb =>
    cases hside
    rw [hb]
    rfl
  next =>
    split at hside
    next hb =>
      cases hside
      rw [hb]
      rfl
    next => cases hside

end

theorem readApiKey_text (key : ApiKey) : readApiKey (apiKeyText key) = some key := by
  have hcs : '-' :: (apiKeyText key).toList = writeGroups [4, 2, 2, 2, 6] key.bytes := by
    rw [apiKeyText, String.toList_ofList]
    rfl
  have hlen : key.bytes.length = [4, 2, 2, 2, 6].sum := key.length_eq
  simp only [readApiKey, hcs, readGroups_writeGroups _ _ hlen, Option.bind_eq_bind,
    Option.bind_some, dif_pos key.length_eq]

/-! ## Reading back a body -/

theorem readV2_mirror {p : OrderPayloadV2} {side : Side} (signature : OrderSignature)
    (hside : Side.tryFrom p.order.side = .ok side) (hsalt : p.order.salt.toNat < 2 ^ 64) :
    readV2 (.obj ((p.mirror side signature).members (.num p.order.salt.toNat))) =
      some (.v2 p) := by
  generalize hbody : Json.obj ((p.mirror side signature).members (.num p.order.salt.toNat)) = body
  have hmaker : readHexField 20 body "maker" = some p.order.maker :=
    readHexField_eq (by rw [← hbody]; rfl)
  have hsigner : readHexField 20 body "signer" = some p.order.signer :=
    readHexField_eq (by rw [← hbody]; rfl)
  have htoken : readUint body "tokenId" = some p.order.tokenId :=
    readUint_eq (by rw [← hbody]; rfl)
  have hmakerAmount : readUint body "makerAmount" = some p.order.makerAmount :=
    readUint_eq (by rw [← hbody]; rfl)
  have htakerAmount : readUint body "takerAmount" = some p.order.takerAmount :=
    readUint_eq (by rw [← hbody]; rfl)
  have hexpiration : readUint body "expiration" = some p.expiration :=
    readUint_eq (by rw [← hbody]; rfl)
  have htype : readByte body "signatureType" = some p.order.signatureType :=
    readByte_eq (by rw [← hbody]; rfl)
  have htimestamp : readUint body "timestamp" = some p.order.timestamp :=
    readUint_eq (by rw [← hbody]; rfl)
  have hmetadata : readHexField 32 body "metadata" = some p.order.metadata :=
    readHexField_eq (by rw [← hbody]; rfl)
  have hbuilder : readHexField 32 body "builder" = some p.order.builder :=
    readHexField_eq (by rw [← hbody]; rfl)
  have hside : readSide body = some p.order.side := readSide_eq hside (by rw [← hbody]; rfl)
  have hsalt : readSalt body = some p.order.salt := readSalt_eq hsalt (by rw [← hbody]; rfl)
  simp only [readV2, hsalt, hmaker, hsigner, htoken, hmakerAmount, htakerAmount, hside,
    hexpiration, htype, htimestamp, hmetadata, hbuilder, Option.bind_eq_bind, Option.bind_some]

theorem readV1_mirror {p : OrderPayloadV1} {side : Side} (signature : OrderSignature)
    (hside : Side.tryFrom p.order.side = .ok side) (hsalt : p.order.salt.toNat < 2 ^ 64) :
    readV1 (.obj ((p.mirror side signature).members (.num p.order.salt.toNat))) =
      some (.v1 p) := by
  generalize hbody : Json.obj ((p.mirror side signature).members (.num p.order.salt.toNat)) = body
  have hmaker : readHexField 20 body "maker" = some p.order.maker :=
    readHexField_eq (by rw [← hbody]; rfl)
  have hsigner : readHexField 20 body "signer" = some p.order.signer :=
    readHexField_eq (by rw [← hbody]; rfl)
  have htaker : readHexField 20 body "taker" = some p.order.taker :=
    readHexField_eq (by rw [← hbody]; rfl)
  have htoken : readUint body "tokenId" = some p.order.tokenId :=
    readUint_eq (by rw [← hbody]; rfl)
  have hmakerAmount : readUint body "makerAmount" = some p.order.makerAmount :=
    readUint_eq (by rw [← hbody]; rfl)
  have htakerAmount : readUint body "takerAmount" = some p.order.takerAmount :=
    readUint_eq (by rw [← hbody]; rfl)
  have hexpiration : readUint body "expiration" = some p.order.expiration :=
    readUint_eq (by rw [← hbody]; rfl)
  have hnonce : readUint body "nonce" = some p.order.nonce :=
    readUint_eq (by rw [← hbody]; rfl)
  have hfee : readUint body "feeRateBps" = some p.order.feeRateBps :=
    readUint_eq (by rw [← hbody]; rfl)
  have htype : readByte body "signatureType" = some p.order.signatureType :=
    readByte_eq (by rw [← hbody]; rfl)
  have hside : readSide body = some p.order.side := readSide_eq hside (by rw [← hbody]; rfl)
  have hsalt : readSalt body = some p.order.salt := readSalt_eq hsalt (by rw [← hbody]; rfl)
  simp only [readV1, hsalt, hmaker, hsigner, htaker, htoken, hmakerAmount, htakerAmount, hside,
    hexpiration, hnonce, hfee, htype, Option.bind_eq_bind, Option.bind_some]

/-! ## Reading back an order -/

/-- The side byte and the salt, the two fields that can keep an order off the wire. -/
def OrderPayload.side : OrderPayload → UInt8
  | .v1 payload => payload.order.side
  | .v2 payload => payload.order.side

def OrderPayload.salt : OrderPayload → BitVec 256
  | .v1 payload => payload.order.salt
  | .v2 payload => payload.order.salt

/-- The body of either version, with its salt already written. -/
def OrderPayload.body (payload : OrderPayload) (side : Side) (signature : OrderSignature)
    (salt : Json) : Json :=
  match payload with
  | .v1 p => .obj ((p.mirror side signature).members salt)
  | .v2 p => .obj ((p.mirror side signature).members salt)

variable (tooLarge : BitVec 256 → String)

/-- Both versions are written in the same two steps. -/
theorem serializeBody_eq (signature : OrderSignature) (payload : OrderPayload) :
    serializeBody tooLarge signature payload = (do
      let side ← (Side.tryFrom payload.side).mapError Error.display
      let salt ← serSalt tooLarge payload.salt
      pure (payload.body side signature salt)) := by
  cases payload <;> rfl

/-- The body reads back as the payload it was written from. -/
theorem readBody_body {payload : OrderPayload} {side : Side} (signature : OrderSignature)
    (hside : Side.tryFrom payload.side = .ok side) (hsalt : payload.salt.toNat < 2 ^ 64) :
    readBody (payload.body side signature (.num payload.salt.toNat)) = some payload := by
  cases payload with
  | v1 p => exact readV1_mirror signature hside hsalt
  | v2 p => exact readV2_mirror signature hside hsalt

theorem readText_body (payload : OrderPayload) (side : Side) (signature : OrderSignature)
    (salt : Json) :
    readText (payload.body side signature salt) "signature" = some signature.display := by
  cases payload <;> rfl

/-- A body is written exactly when the side is one to send and the salt fits. -/
theorem serializeBody_cases (signature : OrderSignature) (payload : OrderPayload) :
    (∃ side, Side.tryFrom payload.side = .ok side ∧ payload.salt.toNat < 2 ^ 64 ∧
      serializeBody tooLarge signature payload =
        .ok (payload.body side signature (.num payload.salt.toNat))) ∨
    (¬((∃ side, Side.tryFrom payload.side = .ok side) ∧ payload.salt.toNat < 2 ^ 64) ∧
      ∃ e, serializeBody tooLarge signature payload = .error e) := by
  rw [serializeBody_eq]
  cases hside : Side.tryFrom payload.side with
  | error e =>
    refine Or.inr ⟨?_, e.display, rfl⟩
    intro h
    obtain ⟨⟨side, hok⟩, -⟩ := h
    cases hok
  | ok side =>
    by_cases hsalt : payload.salt.toNat < 2 ^ 64
    · refine Or.inl ⟨side, rfl, hsalt, ?_⟩
      rw [serSalt, if_pos hsalt]
      rfl
    · refine Or.inr ⟨fun h => hsalt h.2, "salt does not fit into u64: " ++ tooLarge payload.salt, ?_⟩
      rw [serSalt, if_neg hsalt]
      rfl

/-- What the order says, with its texts as they are printed. -/
def SignedOrder.wire (self : SignedOrder) : WireOrder where
  payload := self.payload
  signature := self.signature.display
  orderType := self.orderType.display
  owner := self.owner
  postOnly := self.postOnly
  deferExec := self.deferExec

theorem readSignedOrder_eq {self : SignedOrder} {body outer : Json}
    (houter : Json.obj
      ([("order", body), ("orderType", .str self.orderType.display),
        ("owner", .str (apiKeyText self.owner))] ++
        flagMember "postOnly" self.postOnly ++ flagMember "deferExec" self.deferExec) = outer)
    (hbody : readBody body = some self.payload)
    (hsignature : readText body "signature" = some self.signature.display) :
    readSignedOrder outer = some self.wire := by
  have horder : outer.member "order" = some body := by rw [← houter]; rfl
  have htype : readText outer "orderType" = some self.orderType.display := by rw [← houter]; rfl
  have howner : readText outer "owner" = some (apiKeyText self.owner) := by rw [← houter]; rfl
  have hpost : readFlag outer "postOnly" = some self.postOnly := by
    rw [← houter]
    cases self.postOnly <;> cases self.deferExec <;> rfl
  have hdefer : readFlag outer "deferExec" = some self.deferExec := by
    rw [← houter]
    cases self.postOnly <;> cases self.deferExec <;> rfl
  simp only [readSignedOrder, horder, hbody, hsignature, htype, howner, readApiKey_text, hpost,
    hdefer, Option.bind_eq_bind, Option.bind_some, SignedOrder.wire]

/-- An order goes on the wire exactly when its side is 0 or 1 and its salt fits a `u64`,
and then the wire says everything that was signed. -/
theorem signed_order_wire (self : SignedOrder) :
    ((∃ json, self.serialize tooLarge = .ok json) ↔
      (self.payload.side = 0 ∨ self.payload.side = 1) ∧ self.payload.salt.toNat < 2 ^ 64) ∧
    ∀ json, self.serialize tooLarge = .ok json → readSignedOrder json = some self.wire := by
  rw [← Side.tryFrom_isOk_iff]
  have hcases := serializeBody_cases tooLarge self.signature self.payload
  obtain ⟨side, hside, hsalt, hbody⟩ | ⟨hbad, e, hbody⟩ := hcases
  · have hrun : self.serialize tooLarge = .ok (.obj
        ([("order", self.payload.body side self.signature (.num self.payload.salt.toNat)),
          ("orderType", .str self.orderType.display), ("owner", .str (apiKeyText self.owner))] ++
          flagMember "postOnly" self.postOnly ++ flagMember "deferExec" self.deferExec)) := by
      rw [SignedOrder.serialize, hbody]
      rfl
    refine ⟨⟨fun _ => ⟨⟨side, hside⟩, hsalt⟩, fun _ => ⟨_, hrun⟩⟩, ?_⟩
    intro json hjson
    rw [hrun] at hjson
    exact readSignedOrder_eq (Except.ok.inj hjson) (readBody_body self.signature hside hsalt)
      (readText_body _ _ _ _)
  · have hrun : self.serialize tooLarge = .error e := by
      rw [SignedOrder.serialize, hbody]
      rfl
    rw [hrun]
    refine ⟨⟨fun h => ?_, fun h => absurd h hbad⟩, fun json hjson => ?_⟩
    · obtain ⟨json, hjson⟩ := h
      cases hjson
    · cases hjson

/-- The order of the crate's wire-shape test. -/
def goldenOrder : SignedOrder :=
  let eleven : Address := ⟨List.replicate 20 0x11, List.length_replicate⟩
  { payload := .v2
      { order :=
          { salt := 12345
            maker := eleven
            signer := eleven
            tokenId := 777
            makerAmount := 4850000
            takerAmount := 5000000
            side := 0
            signatureType := 3
            timestamp := 1700000000000
            metadata := FixedBytes.zero 32
            builder := FixedBytes.zero 32 }
        expiration := 0 }
    signature := .wrapped "0xdeadbeef"
    orderType := .gtc
    owner := FixedBytes.zero 16
    postOnly := some true
    deferExec := none }

theorem signed_order_wire_golden :
    ∃ json, goldenOrder.serialize (fun _ => "value too large") = .ok json ∧
      readSignedOrder json = some goldenOrder.wire := by
  obtain ⟨hok, hread⟩ := signed_order_wire (fun _ => "value too large") goldenOrder
  obtain ⟨json, hjson⟩ := hok.mpr ⟨Or.inl rfl, by decide⟩
  exact ⟨json, hjson, hread json hjson⟩

example : apiKeyText (FixedBytes.zero 16) = "00000000-0000-0000-0000-000000000000" := by
  decide +kernel

end Eggplant.Clob
