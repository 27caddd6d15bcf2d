import Eggplant.Convert.Calldata
import Eggplant.Lib.Oracle
import Eggplant.TypedData

/-!
# The hashes a relayer submission signs

Each of the three submission kinds lays its domain and its struct out by hand over
pinned type hashes. The byte strings given to the hash function are logged.
-/
namespace Eggplant.Relayer

set_option autoImplicit false

open Eggplant.Lib Eggplant.Lib.Words Eggplant.Lib.Text Eggplant.Lib.Buffer Eggplant.Lib.Oracle
open Eggplant.Convert (DepositWalletCall)

/-! ## Pinned constants -/

def domainSeparatorTypehash : B256 :=
  Word.ofNat 0x47e79534a245952e8b16893a336b85a3d9ea9fa8c573f3d803afb92a79469218

def safeTxTypehash : B256 :=
  Word.ofNat 0xbb8310d486368db6bd6f849402fdd73ad53d316b5a4b2644ad6efe0f941286d8

def createDomainTypehash : B256 :=
  Word.ofNat 0x8cad95687ba82c2ce50e74f7b754645e5117c3a5bec8151c0726d5857980a866

def safeFactoryNameHash : B256 :=
  Word.ofNat 0x0e50835e49a5f2de690010a802604667466241e3a0473df3748c77850723de32

def createProxyTypehash : B256 :=
  Word.ofNat 0xdee5f5588156b735c3bff14a54c9acefc845807cec91b7fd0809fa3deccab363

def dwDomainTypehash : B256 :=
  Word.ofNat 0x8b73c3c69bb8fe3d512ecc4cf759cc79239f7b179b0ffacaa9a75d522b39400f

def dwNameHash : B256 :=
  Word.ofNat 0xd682b529a17cda19aa275f3a050608f9e9401fadd1b0d233d81519972295828b

def dwVersionHash : B256 :=
  Word.ofNat 0xc89efdaa54c0f20c7adf612882df0950f5a951637e0307cdcb4c672f298b8bc6

def callTypehash : B256 :=
  Word.ofNat 0x84fa2cf05cd88e992eae77e851af68a4ee278dcff6ef504e487a55b3baadfbe5

def batchTypehash : B256 :=
  Word.ofNat 0x712ef66e8362c387e862cabf0923c209db0fa24cfc97d25eccba7c86f3ee1dd3

/-- Each constant is the hash of the string quoted above it in the source. -/
structure PinnedHashes (keccak256 : Bytes → B256) : Prop where
  domainSeparator : keccak256 (utf8 "EIP712Domain(uint256 chainId,address verifyingContract)") =
    domainSeparatorTypehash
  safeTx : keccak256 (utf8 ("SafeTx(address to,uint256 value,bytes data,uint8 operation," ++
    "uint256 safeTxGas,uint256 baseGas,uint256 gasPrice,address gasToken," ++
    "address refundReceiver,uint256 nonce)")) = safeTxTypehash
  createDomain :
    keccak256 (utf8 "EIP712Domain(string name,uint256 chainId,address verifyingContract)") =
      createDomainTypehash
  safeFactoryName : keccak256 (utf8 "Polymarket Contract Proxy Factory") = safeFactoryNameHash
  createProxy :
    keccak256 (utf8
      "CreateProxy(address paymentToken,uint256 payment,address paymentReceiver)") =
      createProxyTypehash
  dwDomain : keccak256 (utf8 ("EIP712Domain(string name,string version,uint256 chainId," ++
    "address verifyingContract)")) = dwDomainTypehash
  dwName : keccak256 (utf8 "DepositWallet") = dwNameHash
  dwVersion : keccak256 (utf8 "1") = dwVersionHash
  call : keccak256 (utf8 "Call(address target,uint256 value,bytes data)") = callTypehash
  batch : keccak256 (utf8 ("Batch(address wallet,uint256 nonce,uint256 deadline,Call[] calls)" ++
    "Call(address target,uint256 value,bytes data)")) = batchTypehash

/-! ## The three hashes -/

def batchDomainBuf (wallet : Address) (chainId : UInt64) : Bytes :=
  fill 160
    [(0, dwDomainTypehash.bytes), (32, dwNameHash.bytes), (64, dwVersionHash.bytes),
      (96, (u64Word chainId).bytes), (128, wallet.toWord.bytes)]

/-- The value slot of a call, bytes 64 to 96, stays zero. -/
def callBuf (call : DepositWalletCall) (dataHash : B256) : Bytes :=
  fill 128 [(0, callTypehash.bytes), (32, call.target.toWord.bytes), (96, dataHash.bytes)]

def batchBuf (wallet : Address) (nonce deadline : UInt64) (callsHash : B256) : Bytes :=
  fill 160
    [(0, batchTypehash.bytes), (32, wallet.toWord.bytes), (64, (u64Word nonce).bytes),
      (96, (u64Word deadline).bytes), (128, callsHash.bytes)]

def createDomainBuf (safeFactory : Address) (chainId : UInt64) : Bytes :=
  fill 128
    [(0, createDomainTypehash.bytes), (32, safeFactoryNameHash.bytes),
      (64, (u64Word chainId).bytes), (96, safeFactory.toWord.bytes)]

/-- Payment token, payment and payment receiver are all zero. -/
def createProxyBuf : Bytes := fill 128 [(0, createProxyTypehash.bytes)]

def safeDomainBuf (safe : Address) (chainId : UInt64) : Bytes :=
  fill 96
    [(0, domainSeparatorTypehash.bytes), (32, (u64Word chainId).bytes), (64, safe.toWord.bytes)]

/-- Eleven words; value, operation and the gas parameters are zero. -/
def safeTxBuf (toAddr : Address) (dataHash : B256) (nonce : UInt64) : Bytes :=
  fill 352
    [(0, safeTxTypehash.bytes), (32, toAddr.toWord.bytes), (96, dataHash.bytes),
      (320, (u64Word nonce).bytes)]

section
variable (keccak256 : Bytes → B256)

/-- The loop body: hash the data, then the call, and append the call's hash. -/
def hashCall (callsConcat : Bytes) (call : DepositWalletCall) : Logged Bytes Bytes := do
  let dataHash ← Logged.ask keccak256 call.data
  let callHash ← Logged.ask keccak256 (callBuf call dataHash)
  pure (callsConcat ++ callHash.bytes)

def computeDepositWalletBatchHash (wallet : Address) (chainId nonce deadline : UInt64)
    (calls : List DepositWalletCall) : Logged Bytes B256 := do
  let domainSeparator ← Logged.ask keccak256 (batchDomainBuf wallet chainId)
  let callsConcat ← calls.foldlM (hashCall keccak256) []
  let callsHash ← Logged.ask keccak256 callsConcat
  let structHash ← Logged.ask keccak256 (batchBuf wallet nonce deadline callsHash)
  Logged.ask keccak256 (digestInput domainSeparator structHash)

def computeCreateProxyHash (safeFactory : Address) (chainId : UInt64) : Logged Bytes B256 := do
  let domainSeparator ← Logged.ask keccak256 (createDomainBuf safeFactory chainId)
  let structHash ← Logged.ask keccak256 createProxyBuf
  Logged.ask keccak256 (digestInput domainSeparator structHash)

def computeSafeTxHash (safe : Address) (chainId : UInt64) (toAddr : Address) (data : Bytes)
    (nonce : UInt64) : Logged Bytes B256 := do
  let domainSeparator ← Logged.ask keccak256 (safeDomainBuf safe chainId)
  let dataHash ← Logged.ask keccak256 data
  let structHash ← Logged.ask keccak256 (safeTxBuf toAddr dataHash nonce)
  Logged.ask keccak256 (digestInput domainSeparator structHash)

/-! ## What a batch computation asks -/

def callHash (call : DepositWalletCall) : B256 :=
  keccak256 (callBuf call (keccak256 call.data))

theorem hashCall_value (callsConcat : Bytes) (call : DepositWalletCall) :
    (hashCall keccak256 callsConcat call).value =
      callsConcat ++ (callHash keccak256 call).bytes := rfl

theorem hashCall_queries (callsConcat : Bytes) (call : DepositWalletCall) :
    (hashCall keccak256 callsConcat call).queries =
      [call.data, callBuf call (keccak256 call.data)] := rfl

/-- The loop leaves the call hashes one after the other. -/
theorem callsConcat_eq (calls : List DepositWalletCall) :
    (calls.foldlM (hashCall keccak256) []).value =
      Abi.wordsBytes (calls.map (callHash keccak256)) := by
  have hfold : ∀ done : Bytes,
      calls.foldl (fun concat call => (hashCall keccak256 concat call).value) done =
        done ++ Abi.wordsBytes (calls.map (callHash keccak256)) := by
    induction calls with
    | nil => intro done; simp [Abi.wordsBytes]
    | cons call calls ih =>
      intro done
      rw [List.foldl_cons, ih, hashCall_value, List.map_cons, Abi.wordsBytes, Abi.wordsBytes,
        List.flatMap_cons, List.append_assoc]
  rw [Logged.foldlM_value, hfold, List.nil_append]

def callsHash (calls : List DepositWalletCall) : B256 :=
  keccak256 (Abi.wordsBytes (calls.map (callHash keccak256)))

theorem batchHash_value (wallet : Address) (chainId nonce deadline : UInt64)
    (calls : List DepositWalletCall) :
    (computeDepositWalletBatchHash keccak256 wallet chainId nonce deadline calls).value =
      keccak256 (digestInput (keccak256 (batchDomainBuf wallet chainId))
        (keccak256 (batchBuf wallet nonce deadline (callsHash keccak256 calls)))) := by
  simp only [computeDepositWalletBatchHash, Logged.bind_value, Logged.ask_value, callsConcat_eq,
    callsHash]

theorem batchHash_queries (wallet : Address) (chainId nonce deadline : UInt64)
    (calls : List DepositWalletCall) :
    (computeDepositWalletBatchHash keccak256 wallet chainId nonce deadline calls).queries =
      batchDomainBuf wallet chainId ::
        (calls.flatMap (fun call => [call.data, callBuf call (keccak256 call.data)]) ++
          [Abi.wordsBytes (calls.map (callHash keccak256)),
            batchBuf wallet nonce deadline (callsHash keccak256 calls),
            digestInput (keccak256 (batchDomainBuf wallet chainId))
              (keccak256 (batchBuf wallet nonce deadline (callsHash keccak256 calls)))]) := by
  have hloop := Logged.foldlM_queries (hashCall keccak256) _ (hashCall_queries keccak256) calls []
  simp only [computeDepositWalletBatchHash, Logged.bind_queries, Logged.ask_queries,
    Logged.ask_value, hloop, callsConcat_eq, callsHash, List.cons_append, List.nil_append]

end

end Eggplant.Relayer
