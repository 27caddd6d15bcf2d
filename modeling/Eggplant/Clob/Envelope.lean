import Eggplant.Clob.Signing
import Eggplant.Lib.Keccak

/-!
# The deposit-wallet envelope

A wallet that validates an order sees only the wire signature. It cuts the
envelope from its end, rebuilds its own wrapper struct around the contents hash it
finds there, and must arrive at the digest the key was given.
-/
namespace Eggplant.Clob

set_option autoImplicit false

open Eggplant.Lib Eggplant.Lib.Words Eggplant.Lib.Text Eggplant.Lib.Buffer Eggplant.Lib.Oracle

/-! ## The wallet's side -/

structure Envelope where
  signature : Bytes
  domainSeparator : B256
  contentsHash : B256
  contentsType : Bytes

/-- Cut the last `n` bytes off. -/
def splitTail (n : Nat) (bs : Bytes) : Option (Bytes × FixedBytes n) :=
  if h : n ≤ bs.length then
    some (bs.take (bs.length - n), ⟨bs.drop (bs.length - n), by rw [List.length_drop]; omega⟩)
  else none

/-- The envelope from its end: length, contents type, contents hash, domain separator. -/
def cutEnvelope (bs : Bytes) : Option Envelope := do
  let (rest, len) ← splitTail 2 bs
  let (rest, contentsType) ← splitTail (beNat len.bytes) rest
  let (rest, contentsHash) ← splitTail 32 rest
  let (signature, domainSeparator) ← splitTail 32 rest
  pure { signature, domainSeparator, contentsHash, contentsType := contentsType.bytes }

def decodeEnvelope (wire : String) : Option Envelope := (readHex wire).bind cutEnvelope

/-- The name before the first parenthesis. -/
def contentsName (contentsType : Bytes) : Bytes := contentsType.takeWhile (· ≠ 0x28)

/-- The wrapper's type string around the contents type. -/
def typedDataSignType (contentsType : Bytes) : Bytes :=
  utf8 "TypedDataSign(" ++ contentsName contentsType ++
    utf8 (" contents,string name,string version,uint256 chainId," ++
      "address verifyingContract,bytes32 salt)") ++ contentsType

section
variable (keccak256 : Bytes → B256)

/-- The wrapper struct over the wallet's own domain, with a zero salt. -/
def typedDataSignHash (wallet : Address) (chainId : UInt64) (env : Envelope) : B256 :=
  keccak256 ((keccak256 (typedDataSignType env.contentsType)).bytes ++ env.contentsHash.bytes ++
    (keccak256 (utf8 "DepositWallet")).bytes ++ (keccak256 (utf8 "1")).bytes ++
    (Word.ofNat chainId.toNat).bytes ++ wallet.toWord.bytes ++ (FixedBytes.zero 32).bytes)

/-- What a wallet that knows its address, its chain and the envelope checks the
signature against. -/
def verifierDigest (wallet : Address) (chainId : UInt64) (env : Envelope) : B256 :=
  keccak256 ([0x19, 0x01] ++ env.domainSeparator.bytes ++
    (typedDataSignHash keccak256 wallet chainId env).bytes)

end

/-! ## Cutting what was laid down -/

theorem splitTail_append {n : Nat} (a : Bytes) (b : FixedBytes n) :
    splitTail n (a ++ b.bytes) = some (a, b) := by
  have hlen : (a ++ b.bytes).length - n = a.length := by
    rw [List.length_append, b.length_eq, Nat.add_sub_cancel]
  have hle : n ≤ (a ++ b.bytes).length := by
    rw [List.length_append, b.length_eq]
    exact Nat.le_add_left n _
  rw [splitTail, dif_pos hle]
  congr 2
  · rw [hlen, List.take_left]
  · apply FixedBytes.eq_of_bytes
    show (a ++ b.bytes).drop ((a ++ b.bytes).length - n) = b.bytes
    rw [hlen, List.drop_left]

/-- The envelope as bytes. -/
def envelopeBytes (env : Envelope) : Bytes :=
  env.signature ++ env.domainSeparator.bytes ++ env.contentsHash.bytes ++ env.contentsType ++
    beBytes 2 env.contentsType.length

/-- An envelope whose contents type has a 16-bit length is cut into its parts. -/
theorem cutEnvelope_bytes (env : Envelope) (h : env.contentsType.length < 65536) :
    cutEnvelope (envelopeBytes env) = some env := by
  have hlen : beNat (beBytes 2 env.contentsType.length) = env.contentsType.length := by
    rw [beNat_beBytes]
    exact Nat.mod_eq_of_lt h
  have hlast := splitTail_append
    (env.signature ++ env.domainSeparator.bytes ++ env.contentsHash.bytes ++ env.contentsType)
    ⟨beBytes 2 env.contentsType.length, beBytes_length 2 _⟩
  have htype := splitTail_append
    (env.signature ++ env.domainSeparator.bytes ++ env.contentsHash.bytes)
    ⟨env.contentsType, hlen.symm⟩
  have hhash := splitTail_append (env.signature ++ env.domainSeparator.bytes) env.contentsHash
  have hsep := splitTail_append env.signature env.domainSeparator
  rw [cutEnvelope, envelopeBytes, hlast]
  show (splitTail (beNat (beBytes 2 env.contentsType.length)) _).bind _ = _
  rw [htype]
  show (splitTail 32 _).bind _ = _
  rw [hhash]
  show (splitTail 32 _).bind _ = _
  rw [hsep]
  rfl

/-! ## What the signer sends -/

section
variable (keccak256 : Bytes → B256)

/-- The parts a deposit-wallet order's signature is packed from. -/
def envelopeOf (chainId : UInt64) (domain : ExchangeDomain) (order : OrderV2) (sig : Signature) :
    Envelope where
  signature := sig.asBytes.bytes
  domainSeparator := Eip712.domainSeparator keccak256 (domain.eip712 chainId)
  contentsHash := Eip712.hashStruct keccak256 order.message
  contentsType := utf8 orderTypeString

theorem orderTypeString_short : (utf8 orderTypeString).length < 65536 := by decide +kernel

theorem new_orderTypeSuffix (chainId : UInt64) (domain : ExchangeDomain)
    (identity : OrderIdentity) (owner : ApiKey) :
    (OrderSigner.new keccak256 chainId domain identity owner).orderTypeSuffix =
      hexText (utf8 orderTypeString ++ beBytes 2 (utf8 orderTypeString).length) := by
  have hlen : (UInt16.ofNat (utf8 orderTypeString).length).toNat =
      (utf8 orderTypeString).length :=
    UInt16.toNat_ofNat_of_lt' orderTypeString_short
  show pushHex (pushHex "" _) (beBytes 2 (UInt16.ofNat _).toNat) = _
  rw [hlen, pushHex_eq, pushHex_eq, String.empty_append, hexText_append]

theorem new_domainSeparatorHex (chainId : UInt64) (domain : ExchangeDomain)
    (identity : OrderIdentity) (owner : ApiKey) :
    (OrderSigner.new keccak256 chainId domain identity owner).domainSeparatorHex =
      hexText (Eip712.domainSeparator keccak256 (domain.eip712 chainId)).bytes := by
  rw [← domainSeparator_eq keccak256 chainId domain identity owner]
  show pushHex "" _ = hexText _
  rw [pushHex_eq, String.empty_append]
  rfl

/-- The wire signature of a deposit-wallet order is its envelope in hexadecimal. -/
theorem wireSignature_poly1271 (chainId : UInt64) (domain : ExchangeDomain) (wallet : Address)
    (owner : ApiKey) (order : OrderV2) (sig : Signature) :
    ((OrderSigner.new keccak256 chainId domain (.poly1271 wallet) owner).wireSignature
        (order.eip712HashStruct keccak256) sig).display =
      "0x" ++ hexText (envelopeBytes (envelopeOf keccak256 chainId domain order sig)) := by
  have hsuffix := new_orderTypeSuffix keccak256 chainId domain (.poly1271 wallet) owner
  have hsep := new_domainSeparatorHex keccak256 chainId domain (.poly1271 wallet) owner
  show pushHex (pushHex "0x" _ ++ OrderSigner.domainSeparatorHex _) _ ++
    OrderSigner.orderTypeSuffix _ = _
  rw [hsuffix, hsep, pushHex_eq, pushHex_eq, envelopeBytes, envelopeOf]
  simp only [hexText_append, String.append_assoc]
  rfl

theorem typedDataSignType_order :
    typedDataSignType (utf8 orderTypeString) = utf8 soladyTypeString := by
  decide +kernel

/-- The template with the contents hash in its slot. -/
theorem walletTemplate_splice (chainId : UInt64) (identity : OrderIdentity)
    (contentsHash : B256) :
    copyAt (walletTemplate keccak256 chainId identity) 32 contentsHash.bytes =
      (keccak256 (utf8 soladyTypeString)).bytes ++ contentsHash.bytes ++
        (keccak256 (utf8 depositWalletName)).bytes ++
        (keccak256 (utf8 depositWalletVersion)).bytes ++ (u64Word chainId).bytes ++
        identity.signer.toWord.bytes ++ (FixedBytes.zero 32).bytes := by
  have hsplice := copyAt_fill 224 32 contentsHash.bytes
    [(0, (keccak256 (utf8 soladyTypeString)).bytes)]
    [(64, (keccak256 (utf8 depositWalletName)).bytes),
      (96, (keccak256 (utf8 depositWalletVersion)).bytes), (128, (u64Word chainId).bytes),
      (172, identity.signer.bytes)]
    (by simp [Ordered, FixedBytes.length_eq]) (by simp [Ordered, FixedBytes.length_eq])
  rw [List.singleton_append, List.singleton_append] at hsplice
  rw [walletTemplate, hsplice, fill_eq_layout _ (by simp [Ordered, FixedBytes.length_eq])]
  simp [layout, FixedBytes.length_eq, Address.toWord, Word.leftPad, zeros, FixedBytes.zero]

/-- The spliced template is the wrapper struct the wallet rebuilds. -/
theorem structHash_poly1271 (chainId : UInt64) (domain : ExchangeDomain) (wallet : Address)
    (owner : ApiKey) (order : OrderV2) (sig : Signature) :
    (OrderSigner.new keccak256 chainId domain (.poly1271 wallet) owner).structHash keccak256
        (order.eip712HashStruct keccak256) =
      typedDataSignHash keccak256 wallet chainId
        (envelopeOf keccak256 chainId domain order sig) := by
  have htemplate := walletTemplate_splice keccak256 chainId (.poly1271 wallet)
    (order.eip712HashStruct keccak256)
  have hrun : (OrderSigner.new keccak256 chainId domain (.poly1271 wallet) owner).structHash
      keccak256 (order.eip712HashStruct keccak256) =
        keccak256 (copyAt (walletTemplate keccak256 chainId (.poly1271 wallet)) 32
          (order.eip712HashStruct keccak256).bytes) := rfl
  have htype : typedDataSignType
      (envelopeOf keccak256 chainId domain order sig).contentsType = utf8 soladyTypeString :=
    typedDataSignType_order
  rw [hrun, htemplate, typedDataSignHash, htype]
  rfl

/-- The envelope of a deposit-wallet order decodes to its parts, and the wallet that
decodes it arrives at the digest that was signed. -/
theorem poly1271_wallet_agrees (debugAssertions : Bool) (chainId : UInt64)
    (domain : ExchangeDomain) (wallet : Address) (owner : ApiKey) (order : SignableOrder)
    (p : OrderPayloadV2) (hp : order.payload = .v2 p)
    (hcarried : (OrderIdentity.poly1271 wallet).CarriedBy p.order)
    (signer : B256 → Except String Signature) :
    let run := (OrderSigner.new keccak256 chainId domain (.poly1271 wallet) owner).signOrder
      keccak256 debugAssertions order signer
    ∃ digest, run.queries = [digest] ∧
      ∀ sig, signer digest = .ok sig →
        ∃ signed env, run.value = .ok signed ∧
          decodeEnvelope signed.signature.display = some env ∧
          env.signature = sig.asBytes.bytes ∧
          env.domainSeparator = Eip712.domainSeparator keccak256 (domain.eip712 chainId) ∧
          env.contentsHash = Eip712.hashStruct keccak256 p.order.message ∧
          env.contentsType = utf8 orderTypeString ∧
          verifierDigest keccak256 wallet chainId env = digest := by
  intro run
  have hwire := wireSignature_poly1271 keccak256 chainId domain wallet owner p.order
  have hsep := domainSeparator_eq keccak256 chainId domain (.poly1271 wallet) owner
  refine ⟨_, signOrder_queries keccak256 hp hcarried signer, fun sig hsig => ?_⟩
  refine ⟨_, envelopeOf keccak256 chainId domain p.order sig,
    signOrder_value keccak256 hp hcarried hsig, ?_, rfl, rfl, rfl, rfl, ?_⟩
  · rw [OrderSigner.signedOrder, SignedOrder.new, hwire sig, decodeEnvelope, readHex_hexText,
      Option.bind_some]
    exact cutEnvelope_bytes _ orderTypeString_short
  · rw [verifierDigest, ← structHash_poly1271 keccak256 chainId domain wallet owner,
      OrderSigner.digest, hsep, digestInput_eq]
    rfl

end

/-- A buy of five shares at 0.97 under an identity. -/
def sampleOrder (identity : OrderIdentity) : OrderPayloadV2 where
  order :=
    { salt := 7
      maker := identity.maker
      signer := identity.signer
      tokenId := 777
      makerAmount := 4850000
      takerAmount := 5000000
      side := 0
      signatureType := identity.signatureType.asU8
      timestamp := 1700000000000
      metadata := FixedBytes.zero 32
      builder := FixedBytes.zero 32 }
  expiration := 0

theorem poly1271_wallet_agrees_sample :
    let wallet := Chain.exchangeV3
    let run := (OrderSigner.new Keccak.keccak256 137 (.ctfV2 true) (.poly1271 wallet)
        (FixedBytes.zero 16)).signOrder Keccak.keccak256 true
      ⟨.v2 (sampleOrder (.poly1271 wallet)), .gtc, none, none⟩ (fun _ => .ok ⟨1, 2, true⟩)
    ∃ digest, run.queries = [digest] ∧ ∃ signed env, run.value = .ok signed ∧
      decodeEnvelope signed.signature.display = some env ∧
      env.contentsType = utf8 orderTypeString ∧
      verifierDigest Keccak.keccak256 wallet 137 env = digest := by
  intro wallet run
  obtain ⟨digest, hqueries, hsigned⟩ := poly1271_wallet_agrees Keccak.keccak256 true 137
    (.ctfV2 true) wallet (FixedBytes.zero 16)
    ⟨.v2 (sampleOrder (.poly1271 wallet)), .gtc, none, none⟩ (sampleOrder (.poly1271 wallet)) rfl
    ⟨rfl, rfl, rfl⟩ (fun _ => .ok ⟨1, 2, true⟩)
  obtain ⟨signed, env, hvalue, hdecode, -, -, -, htype, hdigest⟩ := hsigned _ rfl
  exact ⟨digest, hqueries, signed, env, hvalue, hdecode, htype, hdigest⟩

end Eggplant.Clob
