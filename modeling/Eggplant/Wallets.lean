import Eggplant.Chain
import Eggplant.Lib.Keccak
import Eggplant.Lib.Oracle

/-!
# Wallets of a key

The contracts of each chain, and the wallets a key owns there. A wallet's address is the tail
of a hash over its factory and its owner, so two wallets at one address are one wallet unless
the hash collides.
-/
namespace Eggplant.Chain

set_option autoImplicit false

open Eggplant.Lib Eggplant.Lib.Words Eggplant.Lib.Oracle

/-- Chain id for Polygon mainnet. -/
def polygon : UInt64 := 137

/-- Chain id for the Polygon Amoy testnet. -/
def amoy : UInt64 := 80002

/-- The legacy negRisk adapter. -/
def negRiskAdapter : Address := Address.ofNat 0xd91E80cF2E7be2e162c6513ceD06f1dD0dA35296

structure ContractConfig where
  exchange : Address
  exchangeV2 : Option Address
  collateral : Address
  conditionalTokens : Address
  negRiskAdapter : Option Address
  deriving DecidableEq

def contractConfig (chainId : UInt64) (isNegRisk : Bool) : Option ContractConfig :=
  if chainId = polygon then
    if isNegRisk then
      some
        { exchange := Address.ofNat 0xC5d563A36AE78145C45a50134d48A1215220f80a
          exchangeV2 := some negRiskExchangeV2
          collateral := collateral
          conditionalTokens := ctf
          negRiskAdapter := some negRiskAdapter }
    else
      some
        { exchange := Address.ofNat 0x4bFb41d5B3570DeFd03C39a9A4D8dE6Bd8B8982E
          exchangeV2 := some exchangeV2
          collateral := collateral
          conditionalTokens := ctf
          negRiskAdapter := none }
  else if chainId = amoy then
    if isNegRisk then
      some
        { exchange := Address.ofNat 0xC5d563A36AE78145C45a50134d48A1215220f80a
          exchangeV2 := some negRiskExchangeV2
          collateral := collateral
          conditionalTokens := Address.ofNat 0x69308FB512518e39F9b16112fA8d994F4e2Bf8bB
          negRiskAdapter := some negRiskAdapter }
    else
      some
        { exchange := Address.ofNat 0xdFE02Eb6733538f8Ea35D585af8DE5958AD99E40
          exchangeV2 := some exchangeV2
          collateral := collateral
          conditionalTokens := Address.ofNat 0x69308FB512518e39F9b16112fA8d994F4e2Bf8bB
          negRiskAdapter := none }
  else none

structure WalletConfig where
  proxyFactory : Option Address
  safeFactory : Address
  deriving DecidableEq

def walletConfig (chainId : UInt64) : Option WalletConfig :=
  if chainId = polygon then
    some
      { proxyFactory := some (Address.ofNat 0xaB45c5A4B0c941a2F231C04C3f49182e1A254052)
        safeFactory := Address.ofNat 0xaacFeEa03eb1561C4e67d661e40682Bd20E3541b }
  else if chainId = amoy then
    -- no proxy factory on the testnet
    some
      { proxyFactory := none
        safeFactory := Address.ofNat 0xaacFeEa03eb1561C4e67d661e40682Bd20E3541b }
  else none

/-! ## CREATE2 -/

/-- The code of the minimal proxies. -/
def proxyInitCodeHash : B256 :=
  Word.ofNat 0xd21df8dc65880a8606f09fe0ce3df9b8869287ab0b058be05aa9e8af6330a00b

/-- The code of the Safes. -/
def safeInitCodeHash : B256 :=
  Word.ofNat 0x2bce2127ff07fb632d16c8347c4ebf501f4841168bed00d9e6ef715ddb6fcecf

/-- What an address under CREATE2 is the hash of. -/
def create2Input (factory : Address) (salt initCodeHash : B256) : Bytes :=
  [0xff] ++ factory.bytes ++ salt.bytes ++ initCodeHash.bytes

section
variable (keccak256 : Bytes → B256)

/-- The last twenty bytes of the hash. -/
def hashAddress (input : Bytes) : Address :=
  ⟨(keccak256 input).bytes.drop 12, by rw [List.length_drop, FixedBytes.length_eq]⟩

def Address.create2 (factory : Address) (salt initCodeHash : B256) : Address :=
  hashAddress keccak256 (create2Input factory salt initCodeHash)

def deriveProxyWallet (eoa : Address) (chainId : UInt64) : Option Address := do
  let factory ← (← walletConfig chainId).proxyFactory
  some (Address.create2 keccak256 factory (keccak256 eoa.bytes) proxyInitCodeHash)

def deriveSafeWallet (eoa : Address) (chainId : UInt64) : Option Address := do
  let factory := (← walletConfig chainId).safeFactory
  -- the salt is over the owner as a word
  some (Address.create2 keccak256 factory (keccak256 eoa.toWord.bytes) safeInitCodeHash)

end

/-- The owner and the wallets of the derivation's published vectors. -/
def testEoa : Address := Address.ofNat 0xf39Fd6e51aad88F6F4ce6aB8827279cffFb92266

example : deriveProxyWallet Keccak.keccak256 testEoa polygon =
    some (Address.ofNat 0x365f0cA36ae1F641E02Fe3b7743673DA42A13a70) := by decide +kernel

example : deriveSafeWallet Keccak.keccak256 testEoa polygon =
    some (Address.ofNat 0xd93b25Cb943D14d0d34FBAf01fc93a0F8b5f6e47) := by decide +kernel

/-! ## Telling wallets apart -/

/-- The two kinds of wallet that are derived. -/
inductive WalletKind where
  | proxy
  | safe
  deriving DecidableEq

namespace WalletKind
variable (keccak256 : Bytes → B256)

def derive : WalletKind → Address → UInt64 → Option Address
  | proxy => deriveProxyWallet keccak256
  | safe => deriveSafeWallet keccak256

def saltInput (eoa : Address) : WalletKind → Bytes
  | proxy => eoa.bytes
  | safe => eoa.toWord.bytes

def initCodeHash : WalletKind → B256
  | proxy => proxyInitCodeHash
  | safe => safeInitCodeHash

def factory (chainId : UInt64) : WalletKind → Option Address
  | proxy => (walletConfig chainId).bind (·.proxyFactory)
  | safe => (walletConfig chainId).map (·.safeFactory)

/-- What the wallet's address is the hash of. -/
def input (kind : WalletKind) (eoa : Address) (chainId : UInt64) : Option Bytes :=
  (kind.factory chainId).map fun factory =>
    create2Input factory (keccak256 (kind.saltInput eoa)) kind.initCodeHash

theorem derive_eq (kind : WalletKind) (eoa : Address) (chainId : UInt64) :
    kind.derive keccak256 eoa chainId =
      (kind.input keccak256 eoa chainId).map (hashAddress keccak256) := by
  cases kind with
  | proxy =>
    simp only [derive, deriveProxyWallet, input, factory]
    cases walletConfig chainId with
    | none => rfl
    | some config =>
      obtain ⟨proxyFactory, safeFactory⟩ := config
      cases proxyFactory with
      | none => rfl
      | some factory => rfl
  | safe =>
    simp only [derive, deriveSafeWallet, input, factory]
    cases walletConfig chainId <;> rfl

theorem input_eq_some {kind : WalletKind} {eoa : Address} {chainId : UInt64} {bytes : Bytes}
    (h : kind.input keccak256 eoa chainId = some bytes) :
    ∃ factory, create2Input factory (keccak256 (kind.saltInput eoa)) kind.initCodeHash = bytes := by
  obtain ⟨factory, -, hbytes⟩ := Option.map_eq_some_iff.mp h
  exact ⟨factory, hbytes⟩

theorem saltInput_injective {kind : WalletKind} {eoa eoa' : Address}
    (h : kind.saltInput eoa = kind.saltInput eoa') : eoa = eoa' := by
  cases kind with
  | proxy => exact FixedBytes.eq_of_bytes h
  | safe => exact Word.leftPad_inj (FixedBytes.eq_of_bytes h)

theorem initCodeHash_injective {kind kind' : WalletKind}
    (h : kind.initCodeHash = kind'.initCodeHash) : kind = kind' := by
  have hne : proxyInitCodeHash ≠ safeInitCodeHash := by decide
  cases kind with
  | proxy =>
    cases kind' with
    | proxy => rfl
    | safe => exact absurd h hne
  | safe =>
    cases kind' with
    | proxy => exact absurd h.symm hne
    | safe => rfl

end WalletKind

theorem create2Input_inj {factory factory' : Address} {salt salt' code code' : B256}
    (h : create2Input factory salt code = create2Input factory' salt' code') :
    factory = factory' ∧ salt = salt' ∧ code = code' := by
  obtain ⟨h, hcode⟩ := List.append_inj' h (code.length_eq.trans code'.length_eq.symm)
  obtain ⟨h, hsalt⟩ := List.append_inj' h (salt.length_eq.trans salt'.length_eq.symm)
  exact ⟨FixedBytes.eq_of_bytes (List.append_cancel_left h), FixedBytes.eq_of_bytes hsalt,
    FixedBytes.eq_of_bytes hcode⟩

/-- Two derived wallets at one address are of one kind and one owner, unless the hashes of their
owners or the tails of the hashes they are made of collide. -/
theorem wallets_apart (keccak256 : Bytes → B256) {kind kind' : WalletKind}
    {eoa eoa' wallet : Address} {chainId chainId' : UInt64}
    (h : kind.derive keccak256 eoa chainId = some wallet)
    (h' : kind'.derive keccak256 eoa' chainId' = some wallet) :
    (kind = kind' ∧ eoa = eoa') ∨
      Collision keccak256 [kind.saltInput eoa] [kind'.saltInput eoa'] ∨
      Collision (hashAddress keccak256) (kind.input keccak256 eoa chainId).toList
        (kind'.input keccak256 eoa' chainId').toList := by
  rw [WalletKind.derive_eq] at h h'
  obtain ⟨bytes, hbytes, hwallet⟩ := Option.map_eq_some_iff.mp h
  obtain ⟨bytes', hbytes', hwallet'⟩ := Option.map_eq_some_iff.mp h'
  rw [hbytes, hbytes']
  by_cases hsame : bytes = bytes'
  · obtain ⟨factory, hinput⟩ := WalletKind.input_eq_some keccak256 hbytes
    obtain ⟨factory', hinput'⟩ := WalletKind.input_eq_some keccak256 hbytes'
    obtain ⟨-, hsalt, hcode⟩ := create2Input_inj (hinput.trans (hsame.trans hinput'.symm))
    obtain rfl := WalletKind.initCodeHash_injective hcode
    by_cases howner : kind.saltInput eoa = kind.saltInput eoa'
    · exact .inl ⟨rfl, WalletKind.saltInput_injective howner⟩
    · exact .inr (.inl ⟨_, List.mem_singleton_self _, _, List.mem_singleton_self _, howner, hsalt⟩)
  · exact .inr (.inr ⟨_, List.mem_singleton_self _, _, List.mem_singleton_self _, hsame,
      hwallet.trans hwallet'.symm⟩)

end Eggplant.Chain
