import Eggplant.Clob.Envelope
import Eggplant.Relayer.Typed

/-!
# Every signed digest is the standard one

The digest of a plainly signed order and the three digests of the relayer, against
one generic encoder of typed data.
-/
namespace Eggplant

set_option autoImplicit false

open Eggplant.Lib Eggplant.Lib.Words Eggplant.Lib.Text Eggplant.Clob
open Eggplant.Convert (DepositWalletCall)

/-- Outside deposit wallets the contents hash is signed as it is. -/
theorem digest_plain (keccak256 : Bytes → B256) (chainId : UInt64) (domain : ExchangeDomain)
    (identity : OrderIdentity) (owner : ApiKey) (order : OrderV2)
    (h : identity.signatureType = .eoa ∨ identity.signatureType = .proxy ∨
      identity.signatureType = .gnosisSafe) :
    (OrderSigner.new keccak256 chainId domain identity owner).digest keccak256 order =
      Eip712.digest keccak256 (domain.eip712 chainId) order.message := by
  have hstruct : (OrderSigner.new keccak256 chainId domain identity owner).structHash keccak256
      (order.eip712HashStruct keccak256) = Eip712.hashStruct keccak256 order.message := by
    obtain ⟨maker, signer, signatureType⟩ := identity
    obtain rfl | rfl | rfl : signatureType = .eoa ∨ signatureType = .proxy ∨
      signatureType = .gnosisSafe := h
    all_goals rfl
  rw [OrderSigner.digest, hstruct, domainSeparator_eq, digest_eq]

/-- The hand-laid buffers of both signers hash to the digests the standard prescribes. -/
theorem signed_digests_standard (keccak256 : Bytes → B256)
    (pinned : Relayer.PinnedHashes keccak256) :
    (∀ (debugAssertions : Bool) (chainId : UInt64) (domain : ExchangeDomain)
        (identity : OrderIdentity) (owner : ApiKey) (order : SignableOrder) (p : OrderPayloadV2)
        (signer : B256 → Except String Signature),
      (identity.signatureType = .eoa ∨ identity.signatureType = .proxy ∨
        identity.signatureType = .gnosisSafe) →
      order.payload = .v2 p → identity.CarriedBy p.order →
      ((OrderSigner.new keccak256 chainId domain identity owner).signOrder keccak256
          debugAssertions order signer).queries =
        [Eip712.digest keccak256 (domain.eip712 chainId) p.order.message]) ∧
    (∀ (wallet : Address) (chainId nonce deadline : UInt64) (calls : List DepositWalletCall),
      (Relayer.computeDepositWalletBatchHash keccak256 wallet chainId nonce deadline
          calls).value =
        Eip712.digest keccak256 (Relayer.walletDomain wallet chainId)
          (Relayer.batchMessage wallet nonce deadline calls)) ∧
    (∀ (safe : Address) (chainId : UInt64) (toAddr : Address) (data : Bytes) (nonce : UInt64),
      (Relayer.computeSafeTxHash keccak256 safe chainId toAddr data nonce).value =
        Eip712.digest keccak256 (Relayer.safeDomain safe chainId)
          (Relayer.safeTxMessage toAddr data nonce)) ∧
    (∀ (safeFactory : Address) (chainId : UInt64),
      (Relayer.computeCreateProxyHash keccak256 safeFactory chainId).value =
        Eip712.digest keccak256 (Relayer.factoryDomain safeFactory chainId)
          Relayer.createProxyMessage) := by
  refine ⟨?_, Relayer.batchHash_standard pinned, Relayer.safeTxHash_standard pinned,
    Relayer.createProxyHash_standard pinned⟩
  intro debugAssertions chainId domain identity owner order p signer htype hp hcarried
  rw [← digest_plain keccak256 chainId domain identity owner p.order htype]
  exact signOrder_queries keccak256 hp hcarried signer

/-- The pinned constants are the Keccak-256 hashes of their strings. -/
theorem pinnedHashes_keccak : Relayer.PinnedHashes Keccak.keccak256 where
  domainSeparator := by decide +kernel
  safeTx := by decide +kernel
  createDomain := by decide +kernel
  safeFactoryName := by decide +kernel
  createProxy := by decide +kernel
  dwDomain := by decide +kernel
  dwName := by decide +kernel
  dwVersion := by decide +kernel
  call := by decide +kernel
  batch := by decide +kernel

theorem signed_digests_standard_keccak :
    ((OrderSigner.new Keccak.keccak256 137 (.ctfV2 true) (.eoa Chain.collateral)
        (FixedBytes.zero 16)).signOrder Keccak.keccak256 true
          ⟨.v2 (sampleOrder (.eoa Chain.collateral)), .gtc, none, none⟩
          (fun _ => .error "locked")).queries =
      [Eip712.digest Keccak.keccak256 ((ExchangeDomain.ctfV2 true).eip712 137)
        (sampleOrder (.eoa Chain.collateral)).order.message] ∧
    (Relayer.computeDepositWalletBatchHash Keccak.keccak256 Chain.collateral 137 5 1000
        [⟨Chain.ctf, [0xde, 0xad]⟩]).value =
      Eip712.digest Keccak.keccak256 (Relayer.walletDomain Chain.collateral 137)
        (Relayer.batchMessage Chain.collateral 5 1000 [⟨Chain.ctf, [0xde, 0xad]⟩]) ∧
    (Relayer.computeSafeTxHash Keccak.keccak256 Chain.collateral 137 Chain.ctf [0x09] 0).value =
      Eip712.digest Keccak.keccak256 (Relayer.safeDomain Chain.collateral 137)
        (Relayer.safeTxMessage Chain.ctf [0x09] 0) ∧
    (Relayer.computeCreateProxyHash Keccak.keccak256 Chain.ctf 137).value =
      Eip712.digest Keccak.keccak256 (Relayer.factoryDomain Chain.ctf 137)
        Relayer.createProxyMessage := by
  obtain ⟨horder, hbatch, hsafe, hproxy⟩ :=
    signed_digests_standard Keccak.keccak256 pinnedHashes_keccak
  exact ⟨horder true 137 (.ctfV2 true) (.eoa Chain.collateral) _ _ _ _ (Or.inl rfl) rfl
    ⟨rfl, rfl, rfl⟩, hbatch _ _ _ _ _, hsafe _ _ _ _ _, hproxy _ _⟩

-- the golden vector of the create-proxy test
example :
    (Relayer.computeCreateProxyHash Keccak.keccak256
      (Address.ofNat 0xaacFeEa03eb1561C4e67d661e40682Bd20E3541b) 137).value =
    Word.ofNat 0x563ac315294c5be01ab1f3b04a5abdfa39e8317a9d90679d4e63caf760b126a4 := by
  decide +kernel

end Eggplant
