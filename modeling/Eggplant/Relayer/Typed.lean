import Eggplant.Relayer.Hashes

/-!
# The relayer's hashes are the standard ones

The typed messages and domains the three hashes stand for. Under the pinned
constants each hand-laid buffer is what the generic encoder produces.
-/
namespace Eggplant.Relayer

set_option autoImplicit false

open Eggplant.Lib Eggplant.Lib.Words Eggplant.Lib.Text Eggplant.Lib.Buffer Eggplant.Lib.Oracle
open Eggplant.Convert (DepositWalletCall)

/-! ## Domains and messages -/

def walletDomain (wallet : Address) (chainId : UInt64) : Eip712.Domain where
  name := some "DepositWallet"
  version := some "1"
  chainId := some (u64Uint chainId)
  verifyingContract := some wallet

def factoryDomain (safeFactory : Address) (chainId : UInt64) : Eip712.Domain where
  name := some "Polymarket Contract Proxy Factory"
  chainId := some (u64Uint chainId)
  verifyingContract := some safeFactory

def safeDomain (safe : Address) (chainId : UInt64) : Eip712.Domain where
  chainId := some (u64Uint chainId)
  verifyingContract := some safe

def callMembers : Eip712.Members :=
  .cons "target" .address <| .cons "value" (.uint 256) <| .cons "data" .bytes .nil

/-- A call as a typed value; its value is zero. -/
def callValue (call : DepositWalletCall) : (Eip712.Ty.struct "Call" callMembers).Val :=
  (call.target, (0 : BitVec 256), call.data, ())

def batchMembers : Eip712.Members :=
  .cons "wallet" .address <| .cons "nonce" (.uint 256) <| .cons "deadline" (.uint 256) <|
  .cons "calls" (.array (.struct "Call" callMembers)) .nil

def batchMessage (wallet : Address) (nonce deadline : UInt64) (calls : List DepositWalletCall) :
    Eip712.Struct where
  name := "Batch"
  members := batchMembers
  value := (wallet, u64Uint nonce, u64Uint deadline, calls.map callValue, ())

def createProxyMembers : Eip712.Members :=
  .cons "paymentToken" .address <| .cons "payment" (.uint 256) <|
  .cons "paymentReceiver" .address .nil

/-- No payment. -/
def createProxyMessage : Eip712.Struct where
  name := "CreateProxy"
  members := createProxyMembers
  value := (FixedBytes.zero 20, (0 : BitVec 256), FixedBytes.zero 20, ())

def safeTxMembers : Eip712.Members :=
  .cons "to" .address <| .cons "value" (.uint 256) <| .cons "data" .bytes <|
  .cons "operation" (.uint 8) <| .cons "safeTxGas" (.uint 256) <| .cons "baseGas" (.uint 256) <|
  .cons "gasPrice" (.uint 256) <| .cons "gasToken" .address <| .cons "refundReceiver" .address <|
  .cons "nonce" (.uint 256) .nil

/-- A plain call without value and without gas refund. -/
def safeTxMessage (toAddr : Address) (data : Bytes) (nonce : UInt64) : Eip712.Struct where
  name := "SafeTx"
  members := safeTxMembers
  value := (toAddr, (0 : BitVec 256), data, (0 : BitVec 8), (0 : BitVec 256), (0 : BitVec 256),
    (0 : BitVec 256), FixedBytes.zero 20, FixedBytes.zero 20, u64Uint nonce, ())

/-! ## Type strings -/

theorem encodeType_walletDomain (wallet : Address) (chainId : UInt64) :
    Eip712.encodeType "EIP712Domain" (walletDomain wallet chainId).toStruct.members =
      "EIP712Domain(string name,string version,uint256 chainId," ++
        "address verifyingContract)" := by
  show Eip712.encodeType "EIP712Domain" (.cons "name" .string <| .cons "version" .string <|
    .cons "chainId" (.uint 256) <| .cons "verifyingContract" .address .nil) = _
  rfl

theorem encodeType_factoryDomain (safeFactory : Address) (chainId : UInt64) :
    Eip712.encodeType "EIP712Domain" (factoryDomain safeFactory chainId).toStruct.members =
      "EIP712Domain(string name,uint256 chainId,address verifyingContract)" := by
  show Eip712.encodeType "EIP712Domain" (.cons "name" .string <|
    .cons "chainId" (.uint 256) <| .cons "verifyingContract" .address .nil) = _
  rfl

theorem encodeType_safeDomain (safe : Address) (chainId : UInt64) :
    Eip712.encodeType "EIP712Domain" (safeDomain safe chainId).toStruct.members =
      "EIP712Domain(uint256 chainId,address verifyingContract)" := by
  show Eip712.encodeType "EIP712Domain"
    (.cons "chainId" (.uint 256) <| .cons "verifyingContract" .address .nil) = _
  rfl

theorem encodeType_call :
    Eip712.encodeType "Call" callMembers = "Call(address target,uint256 value,bytes data)" := by
  rfl

theorem encodeType_batch :
    Eip712.encodeType "Batch" batchMembers =
      "Batch(address wallet,uint256 nonce,uint256 deadline,Call[] calls)" ++
        "Call(address target,uint256 value,bytes data)" := by
  rfl

theorem encodeType_createProxy :
    Eip712.encodeType "CreateProxy" createProxyMembers =
      "CreateProxy(address paymentToken,uint256 payment,address paymentReceiver)" := by
  rfl

theorem encodeType_safeTx :
    Eip712.encodeType "SafeTx" safeTxMembers =
      "SafeTx(address to,uint256 value,bytes data,uint8 operation," ++
        "uint256 safeTxGas,uint256 baseGas,uint256 gasPrice,address gasToken," ++
        "address refundReceiver,uint256 nonce)" := by
  rfl

/-! ## Buffers -/

theorem word_zero : (Word.ofNat 0).bytes = zeros 32 := by decide

theorem leftPad_zero (h : 20 ≤ 32) : (Word.leftPad (FixedBytes.zero 20) h).bytes = zeros 32 := rfl

section
variable {keccak256 : Bytes → B256} (pinned : PinnedHashes keccak256)
include pinned

theorem batchDomain_eq (wallet : Address) (chainId : UInt64) :
    keccak256 (batchDomainBuf wallet chainId) =
      Eip712.domainSeparator keccak256 (walletDomain wallet chainId) := by
  have hstruct := Eip712.hashStruct_of_type (s := (walletDomain wallet chainId).toStruct)
    (encodeType_walletDomain _ _) pinned.dwDomain
  rw [Eip712.domainSeparator, hstruct, batchDomainBuf, fill_eq_layout _ (by simp [Ordered, FixedBytes.length_eq])]
  simp [layout, FixedBytes.length_eq, walletDomain, Eip712.Domain.toStruct,
    Eip712.Struct.consSome, Eip712.Members.encodeData, Eip712.Ty.encode, word_u64Uint,
    pinned.dwName, pinned.dwVersion, Address.toWord]

theorem factoryDomain_eq (safeFactory : Address) (chainId : UInt64) :
    keccak256 (createDomainBuf safeFactory chainId) =
      Eip712.domainSeparator keccak256 (factoryDomain safeFactory chainId) := by
  have hstruct := Eip712.hashStruct_of_type (s := (factoryDomain safeFactory chainId).toStruct)
    (encodeType_factoryDomain _ _) pinned.createDomain
  rw [Eip712.domainSeparator, hstruct, createDomainBuf, fill_eq_layout _ (by simp [Ordered, FixedBytes.length_eq])]
  simp [layout, FixedBytes.length_eq, factoryDomain, Eip712.Domain.toStruct,
    Eip712.Struct.consSome, Eip712.Members.encodeData, Eip712.Ty.encode, word_u64Uint,
    pinned.safeFactoryName, Address.toWord]

theorem safeDomain_eq (safe : Address) (chainId : UInt64) :
    keccak256 (safeDomainBuf safe chainId) =
      Eip712.domainSeparator keccak256 (safeDomain safe chainId) := by
  have hstruct := Eip712.hashStruct_of_type (s := (safeDomain safe chainId).toStruct)
    (encodeType_safeDomain _ _) pinned.domainSeparator
  rw [Eip712.domainSeparator, hstruct, safeDomainBuf, fill_eq_layout _ (by simp [Ordered, FixedBytes.length_eq])]
  simp [layout, FixedBytes.length_eq, safeDomain, Eip712.Domain.toStruct,
    Eip712.Struct.consSome, Eip712.Members.encodeData, Eip712.Ty.encode, word_u64Uint,
    Address.toWord]

/-- A call hash is the struct hash of the call. -/
theorem callHash_eq (call : DepositWalletCall) :
    callHash keccak256 call =
      (Eip712.Ty.struct "Call" callMembers).encode keccak256 (callValue call) := by
  have hstruct := Eip712.hashStruct_of_type (s := ⟨"Call", callMembers, callValue call⟩)
    encodeType_call pinned.call
  show _ = Eip712.hashStruct keccak256 ⟨"Call", callMembers, callValue call⟩
  rw [hstruct, callHash, callBuf, fill_eq_layout _ (by simp [Ordered, FixedBytes.length_eq])]
  simp [layout, FixedBytes.length_eq, callMembers, callValue, Eip712.Members.encodeData,
    Eip712.Ty.encode, Address.toWord, word_zero]

/-- The concatenated call hashes are the encoded array. -/
theorem callsHash_eq (calls : List DepositWalletCall) :
    callsHash keccak256 calls =
      (Eip712.Ty.array (.struct "Call" callMembers)).encode keccak256 (calls.map callValue) := by
  have hwords : Abi.wordsBytes (calls.map (callHash keccak256)) =
      (calls.map callValue).flatMap
        (fun v => ((Eip712.Ty.struct "Call" callMembers).encode keccak256 v).bytes) := by
    rw [Abi.wordsBytes, List.flatMap_map, List.flatMap_map]
    congr 1
    funext call
    exact congrArg FixedBytes.bytes (callHash_eq pinned call)
  rw [callsHash, hwords]
  rfl

theorem batch_eq (wallet : Address) (nonce deadline : UInt64) (calls : List DepositWalletCall) :
    keccak256 (batchBuf wallet nonce deadline (callsHash keccak256 calls)) =
      Eip712.hashStruct keccak256 (batchMessage wallet nonce deadline calls) := by
  have hstruct := Eip712.hashStruct_of_type (s := batchMessage wallet nonce deadline calls)
    encodeType_batch pinned.batch
  rw [hstruct, batchBuf, fill_eq_layout _ (by simp [Ordered, FixedBytes.length_eq]), callsHash_eq pinned]
  simp [layout, FixedBytes.length_eq, batchMessage, batchMembers, Eip712.Members.encodeData,
    Eip712.Ty.encode, word_u64Uint, Address.toWord]

theorem createProxy_eq :
    keccak256 createProxyBuf = Eip712.hashStruct keccak256 createProxyMessage := by
  have hstruct := Eip712.hashStruct_of_type (s := createProxyMessage)
    encodeType_createProxy pinned.createProxy
  rw [hstruct, createProxyBuf, fill_eq_layout _ (by simp [Ordered, FixedBytes.length_eq])]
  simp [layout, FixedBytes.length_eq, createProxyMessage, createProxyMembers,
    Eip712.Members.encodeData, Eip712.Ty.encode, word_zero, leftPad_zero, zeros_append]

theorem safeTx_eq (toAddr : Address) (data : Bytes) (nonce : UInt64) :
    keccak256 (safeTxBuf toAddr (keccak256 data) nonce) =
      Eip712.hashStruct keccak256 (safeTxMessage toAddr data nonce) := by
  have hstruct := Eip712.hashStruct_of_type (s := safeTxMessage toAddr data nonce)
    encodeType_safeTx pinned.safeTx
  rw [hstruct, safeTxBuf, fill_eq_layout _ (by simp [Ordered, FixedBytes.length_eq])]
  have hgap : zeros 192 = zeros 32 ++ (zeros 32 ++ (zeros 32 ++ (zeros 32 ++
      (zeros 32 ++ zeros 32)))) := by
    simp only [zeros_append]
  simp [layout, FixedBytes.length_eq, safeTxMessage, safeTxMembers, Eip712.Members.encodeData,
    Eip712.Ty.encode, word_u64Uint, Address.toWord, word_zero, leftPad_zero, hgap]

/-! ## Digests -/

theorem batchHash_standard (wallet : Address) (chainId nonce deadline : UInt64)
    (calls : List DepositWalletCall) :
    (computeDepositWalletBatchHash keccak256 wallet chainId nonce deadline calls).value =
      Eip712.digest keccak256 (walletDomain wallet chainId)
        (batchMessage wallet nonce deadline calls) := by
  rw [batchHash_value, digest_eq, batchDomain_eq pinned, batch_eq pinned]

theorem createProxyHash_standard (safeFactory : Address) (chainId : UInt64) :
    (computeCreateProxyHash keccak256 safeFactory chainId).value =
      Eip712.digest keccak256 (factoryDomain safeFactory chainId) createProxyMessage := by
  rw [digest_eq, ← factoryDomain_eq pinned, ← createProxy_eq pinned]
  rfl

theorem safeTxHash_standard (safe : Address) (chainId : UInt64) (toAddr : Address) (data : Bytes)
    (nonce : UInt64) :
    (computeSafeTxHash keccak256 safe chainId toAddr data nonce).value =
      Eip712.digest keccak256 (safeDomain safe chainId) (safeTxMessage toAddr data nonce) := by
  rw [digest_eq, ← safeDomain_eq pinned, ← safeTx_eq pinned]
  rfl

end

end Eggplant.Relayer
