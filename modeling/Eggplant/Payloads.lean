import Eggplant.Auth
import Eggplant.Digests
import Eggplant.Lib.TypedBinding
import Eggplant.Relayer.Binding

/-!
# One key, many messages

The wallet key signs orders, wrapped orders, relayer submissions and the attestation for API
keys, over hashes that different modules compute. No two of these messages share a hash
unless the hash function collides, so a signature given for one is of no use as another.
-/
namespace Eggplant

set_option autoImplicit false

open Eggplant.Lib Eggplant.Lib.Words Eggplant.Lib.Text Eggplant.Lib.Oracle Eggplant.Clob
open Eggplant.Convert (DepositWalletCall)
open Eggplant.Auth (ClobAuth)

/-- What the crate asks the wallet key to sign. -/
inductive Payload where
  | order (chainId : UInt64) (domain : ExchangeDomain) (identity : OrderIdentity) (order : OrderV2)
  | safeTx (safe : Address) (chainId : UInt64) (toAddr : Address) (data : Bytes) (nonce : UInt64)
  | createProxy (safeFactory : Address) (chainId : UInt64)
  | batch (wallet : Address) (chainId nonce deadline : UInt64) (calls : List DepositWalletCall)
  | clobAuth (chainId : UInt64) (address : Address) (timestamp : Int64) (nonce : UInt32)

namespace Payload

/-- An order names the identity it is signed for. -/
def Carried : Payload → Prop
  | .order _ _ identity o => identity.CarriedBy o
  | _ => True

/-- The hash the key is handed; `owner` is the API key an order signer is built with. -/
def handed (keccak256 : Bytes → B256) (owner : ApiKey) : Payload → B256
  | .order chainId domain identity o =>
    (OrderSigner.new keccak256 chainId domain identity owner).digest keccak256 o
  | .safeTx safe chainId toAddr data nonce =>
    -- `sign_message` hashes once more, behind the prefix
    keccak256 (Eip712.personalInput
      (Relayer.computeSafeTxHash keccak256 safe chainId toAddr data nonce).value.bytes)
  | .createProxy safeFactory chainId =>
    (Relayer.computeCreateProxyHash keccak256 safeFactory chainId).value
  | .batch wallet chainId nonce deadline calls =>
    (Relayer.computeDepositWalletBatchHash keccak256 wallet chainId nonce deadline calls).value
  | .clobAuth chainId address timestamp nonce =>
    Eip712.digest keccak256 (Auth.clobAuthDomain chainId)
      (Auth.attestation address timestamp nonce).toStruct

end Payload

/-! ## The messages as typed data -/

/-- The members of the wallet's wrapper around an order. -/
def wrapperMembers : Eip712.Members :=
  .cons "contents" (.struct "Order" OrderV2.members) <| .cons "name" .string <|
  .cons "version" .string <| .cons "chainId" (.uint 256) <|
  .cons "verifyingContract" .address <| .cons "salt" .bytes32 .nil

/-- An order inside the wallet's own domain, with a zero salt. -/
def wrapperMessage (chainId : UInt64) (wallet : Address) (order : OrderV2) : Eip712.Struct where
  name := "TypedDataSign"
  members := wrapperMembers
  value := (order.message.value, depositWalletName, depositWalletVersion, u64Uint chainId, wallet,
    FixedBytes.zero 32, ())

theorem encodeType_wrapper :
    Eip712.encodeType "TypedDataSign" wrapperMembers = soladyTypeString := by
  decide +kernel

/-- The spliced template hashes to the wrapper's struct hash. -/
theorem structHash_wrapper (keccak256 : Bytes → B256) (chainId : UInt64) (domain : ExchangeDomain)
    {identity : OrderIdentity} (h : identity.signatureType = .poly1271) (owner : ApiKey)
    (order : OrderV2) :
    (OrderSigner.new keccak256 chainId domain identity owner).structHash keccak256
        (order.eip712HashStruct keccak256) =
      Eip712.hashStruct keccak256 (wrapperMessage chainId identity.signer order) := by
  obtain ⟨maker, signer, signatureType⟩ := identity
  obtain rfl : signatureType = .poly1271 := h
  have htemplate := walletTemplate_splice keccak256 chainId ⟨maker, signer, .poly1271⟩
    (order.eip712HashStruct keccak256)
  have hrun : (OrderSigner.new keccak256 chainId domain ⟨maker, signer, .poly1271⟩
      owner).structHash keccak256 (order.eip712HashStruct keccak256) =
        keccak256 (Buffer.copyAt (walletTemplate keccak256 chainId ⟨maker, signer, .poly1271⟩) 32
          (order.eip712HashStruct keccak256).bytes) := rfl
  have htext : Eip712.encodeType (wrapperMessage chainId signer order).name
      (wrapperMessage chainId signer order).members = soladyTypeString := encodeType_wrapper
  have hcontents : ((Eip712.Ty.struct "Order" OrderV2.members).encode keccak256
      order.message.value) = order.eip712HashStruct keccak256 := rfl
  have hdata : (wrapperMessage chainId signer order).members.encodeData keccak256
      (wrapperMessage chainId signer order).value =
        ((Eip712.Ty.struct "Order" OrderV2.members).encode keccak256 order.message.value).bytes ++
          ((keccak256 (utf8 depositWalletName)).bytes ++
            ((keccak256 (utf8 depositWalletVersion)).bytes ++
              ((Word.ofNat (u64Uint chainId).toNat).bytes ++
                (signer.toWord.bytes ++ ((FixedBytes.zero 32).bytes ++ []))))) := rfl
  rw [hrun, htemplate, Eip712.hashStruct_eq, Eip712.typeHash, htext, hdata, hcontents,
    word_u64Uint, List.append_nil]
  simp only [List.append_assoc]

/-- The request for a signature that a payload stands for. -/
def Payload.request : Payload → Eip712.Request
  | .order chainId domain identity o =>
    { personal := false
      domain := (domain.eip712 chainId).toStruct
      message :=
        if identity.signatureType = .poly1271 then wrapperMessage chainId identity.signer o
        else o.message }
  | .safeTx safe chainId toAddr data nonce =>
    ⟨true, (Relayer.safeDomain safe chainId).toStruct, Relayer.safeTxMessage toAddr data nonce⟩
  | .createProxy safeFactory chainId =>
    ⟨false, (Relayer.factoryDomain safeFactory chainId).toStruct, Relayer.createProxyMessage⟩
  | .batch wallet chainId nonce deadline calls =>
    ⟨false, (Relayer.walletDomain wallet chainId).toStruct,
      Relayer.batchMessage wallet nonce deadline calls⟩
  | .clobAuth chainId address timestamp nonce =>
    ⟨false, (Auth.clobAuthDomain chainId).toStruct,
      (Auth.attestation address timestamp nonce).toStruct⟩

theorem Payload.handed_eq {keccak256 : Bytes → B256} (pinned : Relayer.PinnedHashes keccak256)
    (owner : ApiKey) (p : Payload) : p.handed keccak256 owner = p.request.hash keccak256 := by
  cases p with
  | order chainId domain identity o =>
    show OrderSigner.digest keccak256 _ o = _
    by_cases htype : identity.signatureType = .poly1271
    · have hstruct := structHash_wrapper keccak256 chainId domain htype owner o
      have hsep := domainSeparator_eq keccak256 chainId domain identity owner
      rw [OrderSigner.digest, hstruct, hsep, digestInput_eq, request, if_pos htype]
      rfl
    · have hplain : identity.signatureType = .eoa ∨ identity.signatureType = .proxy ∨
          identity.signatureType = .gnosisSafe := by
        cases hcase : identity.signatureType with
        | eoa => exact .inl rfl
        | proxy => exact .inr (.inl rfl)
        | gnosisSafe => exact .inr (.inr rfl)
        | poly1271 => exact (htype hcase).elim
      rw [digest_plain keccak256 chainId domain identity owner o hplain, request,
        if_neg htype]
      rfl
  | safeTx safe chainId toAddr data nonce =>
    show keccak256 (Eip712.personalInput _) = _
    rw [Relayer.safeTxHash_standard pinned]
    rfl
  | createProxy safeFactory chainId =>
    exact Relayer.createProxyHash_standard pinned safeFactory chainId
  | batch wallet chainId nonce deadline calls =>
    exact Relayer.batchHash_standard pinned wallet chainId nonce deadline calls
  | clobAuth chainId address timestamp nonce => rfl

/-! ## Kinds -/

/-- The pairs of types the key signs under. -/
inductive Kind where
  | plainOrder | wrappedOrder | safeTx | createProxy | batch | clobAuth
  deriving DecidableEq

namespace Kind

instance : Fintype Kind where
  elems := {plainOrder, wrappedOrder, safeTx, createProxy, batch, clobAuth}
  complete := by
    intro kind
    cases kind <;> decide

def domain : Kind → Eip712.Members
  | plainOrder | wrappedOrder | batch => domainMembers
  | safeTx => .cons "chainId" (.uint 256) <| .cons "verifyingContract" .address .nil
  | createProxy =>
    .cons "name" .string <| .cons "chainId" (.uint 256) <| .cons "verifyingContract" .address .nil
  | clobAuth => .cons "name" .string <| .cons "version" .string <| .cons "chainId" (.uint 256) .nil

def name : Kind → String
  | plainOrder => "Order"
  | wrappedOrder => "TypedDataSign"
  | safeTx => "SafeTx"
  | createProxy => "CreateProxy"
  | batch => "Batch"
  | clobAuth => "ClobAuth"

def members : Kind → Eip712.Members
  | plainOrder => OrderV2.members
  | wrappedOrder => wrapperMembers
  | safeTx => Relayer.safeTxMembers
  | createProxy => Relayer.createProxyMembers
  | batch => Relayer.batchMembers
  | clobAuth => ClobAuth.members

def typeTexts (kind : Kind) : String × String :=
  (Eip712.encodeType "EIP712Domain" kind.domain, Eip712.encodeType kind.name kind.members)

theorem typeTexts_injective : Function.Injective typeTexts := by
  have hall : ∀ kind kind' : Kind, typeTexts kind = typeTexts kind' → kind = kind' := by
    decide +kernel
  exact fun kind kind' => hall kind kind'

theorem domain_fits (kind : Kind) : kind.domain.Fits := by
  cases kind <;> simp [domain, domainMembers, Eip712.Members.Fits, Eip712.Ty.Fits]

theorem members_fits (kind : Kind) : kind.members.Fits := by
  cases kind <;> simp [members, OrderV2.members, wrapperMembers, Relayer.safeTxMembers,
    Relayer.createProxyMembers, Relayer.batchMembers, Relayer.callMembers, ClobAuth.members,
    Eip712.Members.Fits, Eip712.Ty.Fits]

end Kind

namespace Payload

def kind : Payload → Kind
  | .order _ _ identity _ =>
    if identity.signatureType = .poly1271 then .wrappedOrder else .plainOrder
  | .safeTx .. => .safeTx
  | .createProxy .. => .createProxy
  | .batch .. => .batch
  | .clobAuth .. => .clobAuth

theorem request_types (p : Payload) :
    p.request.domain.name = "EIP712Domain" ∧ p.request.domain.members = p.kind.domain ∧
      p.request.message.name = p.kind.name ∧ p.request.message.members = p.kind.members := by
  cases p with
  | order chainId domain identity o =>
    by_cases htype : identity.signatureType = .poly1271
    · rw [request, kind, if_pos htype, if_pos htype]
      exact ⟨rfl, rfl, rfl, rfl⟩
    · rw [request, kind, if_neg htype, if_neg htype]
      exact ⟨rfl, rfl, rfl, rfl⟩
  | safeTx => exact ⟨rfl, rfl, rfl, rfl⟩
  | createProxy => exact ⟨rfl, rfl, rfl, rfl⟩
  | batch => exact ⟨rfl, rfl, rfl, rfl⟩
  | clobAuth => exact ⟨rfl, rfl, rfl, rfl⟩

theorem request_typeTexts (p : Payload) : p.request.typeTexts = p.kind.typeTexts := by
  obtain ⟨hdomain, hdomainMembers, hname, hmembers⟩ := p.request_types
  rw [Eip712.Request.typeTexts, hdomain, hdomainMembers, hname, hmembers, Kind.typeTexts]

theorem sameTypes_of_kind {p q : Payload} (h : p.kind = q.kind) :
    p.request.SameTypes q.request := by
  obtain ⟨hdomain, hdomainMembers, hname, hmembers⟩ := p.request_types
  obtain ⟨hdomain', hdomainMembers', hname', hmembers'⟩ := q.request_types
  rw [h] at hdomainMembers hname hmembers
  exact ⟨hdomain.trans hdomain'.symm, hdomainMembers.trans hdomainMembers'.symm,
    hname.trans hname'.symm, hmembers.trans hmembers'.symm⟩

/-! ## Payloads -/

theorem u64Uint_inj {a b : UInt64} (h : u64Uint a = u64Uint b) : a = b := by
  have hword := congrArg (fun v : BitVec 256 => Word.ofNat v.toNat) h
  simp only [word_u64Uint] at hword
  exact Relayer.u64Word_inj hword

/-- The call a typed value stands for. -/
def readCall (v : Relayer.callMembers.Val) : DepositWalletCall := ⟨v.1, v.2.2.1⟩

theorem callValue_injective : Function.Injective Relayer.callValue := by
  have hread : Function.LeftInverse readCall Relayer.callValue := fun _ => rfl
  exact hread.injective

/-- The order a typed value stands for. -/
def readOrder (v : OrderV2.members.Val) : OrderV2 :=
  let ⟨salt, maker, signer, tokenId, makerAmount, takerAmount, side, signatureType, timestamp,
    metadata, builder, _⟩ := v
  { salt, maker, signer, tokenId, makerAmount, takerAmount
    side := ⟨side⟩
    signatureType := ⟨signatureType⟩
    timestamp, metadata, builder }

theorem orderValue_injective {o o' : OrderV2} (h : o.message.value = o'.message.value) : o = o' :=
  congrArg readOrder h

theorem asU8_injective : Function.Injective SignatureType.asU8 := by
  intro a b
  cases a <;> cases b <;> decide

/-- An order carries one identity only. -/
theorem identity_eq {identity identity' : OrderIdentity} {o : OrderV2}
    (h : identity.CarriedBy o) (h' : identity'.CarriedBy o) : identity = identity' := by
  obtain ⟨maker, signer, signatureType⟩ := identity
  obtain ⟨maker', signer', signatureType'⟩ := identity'
  obtain ⟨hmaker, hsigner, htype⟩ := h
  obtain ⟨hmaker', hsigner', htype'⟩ := h'
  simp only [OrderIdentity.mk.injEq]
  exact ⟨hmaker.symm.trans hmaker', hsigner.symm.trans hsigner',
    asU8_injective (htype.symm.trans htype')⟩

theorem exchange_eq {domain domain' : ExchangeDomain} {chainId chainId' : UInt64}
    (h : (domain.eip712 chainId).toStruct = (domain'.eip712 chainId').toStruct) :
    domain = domain' ∧ chainId = chainId' := by
  obtain ⟨name, version, contract⟩ := domain
  obtain ⟨name', version', contract'⟩ := domain'
  have hvalue : (name, version, u64Uint chainId, contract, ()) =
      (name', version', u64Uint chainId', contract', ()) :=
    @Eip712.Struct.value_inj "EIP712Domain" domainMembers _ _ h
  simp only [Prod.mk.injEq, and_true] at hvalue
  obtain ⟨rfl, rfl, hchain, rfl⟩ := hvalue
  exact ⟨rfl, u64Uint_inj hchain⟩

theorem order_eq {chainId chainId' : UInt64} {domain domain' : ExchangeDomain}
    {identity identity' : OrderIdentity} {o o' : OrderV2} (hp : identity.CarriedBy o)
    (hq : identity'.CarriedBy o')
    (hkind : (order chainId domain identity o).kind = (order chainId' domain' identity' o').kind)
    (h : (order chainId domain identity o).request = (order chainId' domain' identity' o').request) :
    order chainId domain identity o = order chainId' domain' identity' o' := by
  obtain ⟨rfl, rfl⟩ := exchange_eq (congrArg Eip712.Request.domain h)
  have hmessage := congrArg Eip712.Request.message h
  simp only [request] at hmessage
  simp only [kind] at hkind
  have horder : o = o' := by
    by_cases htype : identity.signatureType = .poly1271 <;>
      by_cases htype' : identity'.signatureType = .poly1271
    · rw [if_pos htype, if_pos htype'] at hmessage
      have hvalue := @Eip712.Struct.value_inj "TypedDataSign" wrapperMembers _ _ hmessage
      exact orderValue_injective (congrArg Prod.fst hvalue)
    · rw [if_pos htype, if_neg htype'] at hkind
      cases hkind
    · rw [if_neg htype, if_pos htype'] at hkind
      cases hkind
    · rw [if_neg htype, if_neg htype'] at hmessage
      exact orderValue_injective (@Eip712.Struct.value_inj "Order" OrderV2.members _ _ hmessage)
  subst horder
  rw [identity_eq hp hq]

theorem safeTx_eq {safe safe' : Address} {chainId chainId' : UInt64} {toAddr toAddr' : Address}
    {data data' : Bytes} {nonce nonce' : UInt64}
    (h : (safeTx safe chainId toAddr data nonce).request =
      (safeTx safe' chainId' toAddr' data' nonce').request) :
    safeTx safe chainId toAddr data nonce = safeTx safe' chainId' toAddr' data' nonce' := by
  have hdomain : (u64Uint chainId, safe, ()) = (u64Uint chainId', safe', ()) :=
    @Eip712.Struct.value_inj "EIP712Domain" (Kind.domain .safeTx) _ _
      (congrArg Eip712.Request.domain h)
  have hvalue := @Eip712.Struct.value_inj "SafeTx" Relayer.safeTxMembers _ _
    (congrArg Eip712.Request.message h)
  simp only [Prod.mk.injEq, and_true] at hdomain
  obtain ⟨hchain, rfl⟩ := hdomain
  obtain rfl := u64Uint_inj hchain
  obtain rfl : toAddr = toAddr' := congrArg (fun v => v.1) hvalue
  obtain rfl : data = data' := congrArg (fun v => v.2.2.1) hvalue
  have hnonce : u64Uint nonce = u64Uint nonce' :=
    congrArg (fun v => v.2.2.2.2.2.2.2.2.2.1) hvalue
  rw [u64Uint_inj hnonce]

theorem createProxy_eq {safeFactory safeFactory' : Address} {chainId chainId' : UInt64}
    (h : (createProxy safeFactory chainId).request = (createProxy safeFactory' chainId').request) :
    createProxy safeFactory chainId = createProxy safeFactory' chainId' := by
  have hdomain : ("Polymarket Contract Proxy Factory", u64Uint chainId, safeFactory, ()) =
      ("Polymarket Contract Proxy Factory", u64Uint chainId', safeFactory', ()) :=
    @Eip712.Struct.value_inj "EIP712Domain" (Kind.domain .createProxy) _ _
      (congrArg Eip712.Request.domain h)
  simp only [Prod.mk.injEq, and_true, true_and] at hdomain
  obtain ⟨hchain, rfl⟩ := hdomain
  rw [u64Uint_inj hchain]

theorem batch_eq {wallet wallet' : Address} {chainId chainId' nonce nonce' deadline deadline' : UInt64}
    {calls calls' : List DepositWalletCall}
    (h : (batch wallet chainId nonce deadline calls).request =
      (batch wallet' chainId' nonce' deadline' calls').request) :
    batch wallet chainId nonce deadline calls = batch wallet' chainId' nonce' deadline' calls' := by
  have hdomain : ("DepositWallet", "1", u64Uint chainId, wallet, ()) =
      ("DepositWallet", "1", u64Uint chainId', wallet', ()) :=
    @Eip712.Struct.value_inj "EIP712Domain" domainMembers _ _ (congrArg Eip712.Request.domain h)
  have hvalue := @Eip712.Struct.value_inj "Batch" Relayer.batchMembers _ _
    (congrArg Eip712.Request.message h)
  simp only [Prod.mk.injEq, and_true, true_and] at hdomain
  obtain ⟨hchain, rfl⟩ := hdomain
  obtain rfl := u64Uint_inj hchain
  have hnonce : u64Uint nonce = u64Uint nonce' := congrArg (fun v => v.2.1) hvalue
  have hdeadline : u64Uint deadline = u64Uint deadline' := congrArg (fun v => v.2.2.1) hvalue
  have hcalls : calls.map Relayer.callValue = calls'.map Relayer.callValue :=
    congrArg (fun v => v.2.2.2.1) hvalue
  rw [u64Uint_inj hnonce, u64Uint_inj hdeadline, List.map_injective_iff.mpr callValue_injective hcalls]

theorem clobAuth_eq {chainId chainId' : UInt64} {address address' : Address}
    {timestamp timestamp' : Int64} {nonce nonce' : UInt32}
    (h : (clobAuth chainId address timestamp nonce).request =
      (clobAuth chainId' address' timestamp' nonce').request) :
    clobAuth chainId address timestamp nonce = clobAuth chainId' address' timestamp' nonce' := by
  have hdomain : ("ClobAuthDomain", "1", u64Uint chainId, ()) =
      ("ClobAuthDomain", "1", u64Uint chainId', ()) :=
    @Eip712.Struct.value_inj "EIP712Domain" (Kind.domain .clobAuth) _ _
      (congrArg Eip712.Request.domain h)
  have hvalue := @Eip712.Struct.value_inj "ClobAuth" ClobAuth.members _ _
    (congrArg Eip712.Request.message h)
  simp only [Prod.mk.injEq, and_true, true_and] at hdomain
  obtain rfl := u64Uint_inj hdomain
  obtain rfl : address = address' := congrArg (fun v => v.1) hvalue
  have htimestamp : timestamp.toInt.repr = timestamp'.toInt.repr :=
    congrArg (fun v => v.2.1) hvalue
  have hnonce : nonce.toBitVec.setWidth 256 = nonce'.toBitVec.setWidth 256 :=
    congrArg (fun v => v.2.2.1) hvalue
  have hnat := congrArg BitVec.toNat hnonce
  rw [BitVec.toNat_setWidth_of_le (by decide), BitVec.toNat_setWidth_of_le (by decide)] at hnat
  rw [Int64.toInt_inj.mp (intRepr_injective htimestamp), UInt32.toNat_inj.mp hnat]

/-- A request is made for one payload only. -/
theorem eq_of_request {p q : Payload} (hp : p.Carried) (hq : q.Carried) (hkind : p.kind = q.kind)
    (h : p.request = q.request) : p = q := by
  have hother {kind : Kind} (hplain : kind ≠ .plainOrder) (hwrapped : kind ≠ .wrappedOrder)
      (identity : OrderIdentity) :
      (if identity.signatureType = .poly1271 then Kind.wrappedOrder else .plainOrder) ≠ kind := by
    split
    · exact hwrapped.symm
    · exact hplain.symm
  cases p with
  | order chainId domain identity o =>
    cases q with
    | order chainId' domain' identity' o' => exact order_eq hp hq hkind h
    | safeTx | createProxy | batch | clobAuth => exact (hother (by nofun) (by nofun) identity hkind).elim
  | safeTx safe chainId toAddr data nonce =>
    cases q with
    | order chainId' domain' identity' o' =>
      exact (hother (by nofun) (by nofun) identity' hkind.symm).elim
    | safeTx => exact safeTx_eq h
    | createProxy | batch | clobAuth => cases hkind
  | createProxy safeFactory chainId =>
    cases q with
    | order chainId' domain' identity' o' =>
      exact (hother (by nofun) (by nofun) identity' hkind.symm).elim
    | createProxy => exact createProxy_eq h
    | safeTx | batch | clobAuth => cases hkind
  | batch wallet chainId nonce deadline calls =>
    cases q with
    | order chainId' domain' identity' o' =>
      exact (hother (by nofun) (by nofun) identity' hkind.symm).elim
    | batch => exact batch_eq h
    | safeTx | createProxy | clobAuth => cases hkind
  | clobAuth chainId address timestamp nonce =>
    cases q with
    | order chainId' domain' identity' o' =>
      exact (hother (by nofun) (by nofun) identity' hkind.symm).elim
    | clobAuth => exact clobAuth_eq h
    | safeTx | createProxy | batch => cases hkind

/-- The strings hashed to encode what the key is asked to sign. -/
def hashed (keccak256 : Bytes → B256) (p : Payload) : List Bytes := p.request.hashed keccak256

end Payload

/-- The key is handed the hash of the message in typed form, and two requests for a signature
under one hash are one request, unless the hash function collides on two of the strings hashed
for them. -/
theorem signed_payload_binds (keccak256 : Bytes → B256)
    (pinned : Relayer.PinnedHashes keccak256) :
    (∀ (p : Payload) (owner : ApiKey),
      p.handed keccak256 owner = p.request.hash keccak256) ∧
    ∀ (p q : Payload), p.Carried → q.Carried → ∀ owner owner' : ApiKey,
      p.handed keccak256 owner = q.handed keccak256 owner' →
      p = q ∨ Collision keccak256 (p.hashed keccak256) (q.hashed keccak256) := by
  refine ⟨fun p owner => p.handed_eq pinned owner, ?_⟩
  intro p q hp hq owner owner' h
  refine or_iff_not_imp_right.mpr fun hno => ?_
  rw [p.handed_eq pinned, q.handed_eq pinned] at h
  have hkind : p.kind = q.kind := by
    apply Kind.typeTexts_injective
    rw [← p.request_typeTexts, ← q.request_typeTexts]
    exact Eip712.Request.typeTexts_eq_of_hash hno h
  obtain ⟨_, hdomain, _, hmembers⟩ := p.request_types
  refine Payload.eq_of_request hp hq hkind
    (Eip712.Request.eq_of_hash (Payload.sameTypes_of_kind hkind) ?_ ?_ hno h)
  · rw [hdomain]
    exact p.kind.domain_fits
  · rw [hmembers]
    exact p.kind.members_fits

/-- Keccak-256 of everything but digests. -/
def lossyHash (bytes : Bytes) : B256 :=
  if bytes.take 2 = [0x19, 0x01] then FixedBytes.zero 32 else Keccak.keccak256 bytes

theorem pinnedHashes_lossy : Relayer.PinnedHashes lossyHash := by
  have htext {text : String} (h : (utf8 text).take 2 ≠ [0x19, 0x01]) :
      lossyHash (utf8 text) = Keccak.keccak256 (utf8 text) := if_neg h
  obtain ⟨domainSeparator, safeTx, createDomain, safeFactoryName, createProxy, dwDomain, dwName,
    dwVersion, call, batch⟩ := pinnedHashes_keccak
  exact
    { domainSeparator := (htext (by decide +kernel)).trans domainSeparator
      safeTx := (htext (by decide +kernel)).trans safeTx
      createDomain := (htext (by decide +kernel)).trans createDomain
      safeFactoryName := (htext (by decide +kernel)).trans safeFactoryName
      createProxy := (htext (by decide +kernel)).trans createProxy
      dwDomain := (htext (by decide +kernel)).trans dwDomain
      dwName := (htext (by decide +kernel)).trans dwName
      dwVersion := (htext (by decide +kernel)).trans dwVersion
      call := (htext (by decide +kernel)).trans call
      batch := (htext (by decide +kernel)).trans batch }

/-- An order and a deployment, which a hash that loses its digests cannot tell apart. -/
theorem signed_payload_binds_lossy :
    let p := Payload.order 137 (.ctfV2 true) (.eoa Chain.collateral)
      (sampleOrder (.eoa Chain.collateral)).order
    let q := Payload.createProxy Chain.exchangeV3 137
    p ≠ q ∧ p.handed lossyHash (FixedBytes.zero 16) = q.handed lossyHash (FixedBytes.zero 16) ∧
      Collision lossyHash (p.hashed lossyHash) (q.hashed lossyHash) := by
  intro p q
  obtain ⟨hhanded, hbinds⟩ := signed_payload_binds lossyHash pinnedHashes_lossy
  have hlost (r : Eip712.Request) (hplain : r.personal = false) :
      r.hash lossyHash = FixedBytes.zero 32 := by
    rw [Eip712.Request.hash, hplain]
    show lossyHash (r.digestInput lossyHash) = _
    exact if_pos rfl
  have hsame : p.handed lossyHash (FixedBytes.zero 16) =
      q.handed lossyHash (FixedBytes.zero 16) := by
    rw [hhanded, hhanded, hlost p.request rfl, hlost q.request rfl]
  have hne : p ≠ q := by
    intro h
    exact absurd (congrArg Payload.kind h) (by decide)
  exact ⟨hne, hsame, (hbinds p q ⟨rfl, rfl, rfl⟩ trivial _ _ hsame).resolve_left hne⟩

end Eggplant
