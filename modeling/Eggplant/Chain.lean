import Eggplant.Primitives

/-!
# Polygon contract addresses

The public constants the position operations are laid out with.
-/
namespace Eggplant.Chain

set_option autoImplicit false

/-- Conditional Tokens Framework (ERC-1155 outcome tokens). -/
def ctf : Address := Address.ofNat 0x4D97DCd97eC945f40cF65F87097ACe5EA0476045

/-- Exchange collateral: pUSD. -/
def collateral : Address := Address.ofNat 0xC011a7E12a19f7B1f670d46F03B03f3342E82DFB

/-- The pUSD-native negRisk collateral adapter, target of merges and converts. -/
def negRiskCollateralAdapter : Address :=
  Address.ofNat 0xadA2005600Dec949baf300f4C6120000bDB6eAab

/-- Bridged USDC.e, the input of the collateral onramp. -/
def usdcE : Address := Address.ofNat 0x2791Bca1f2de4661ED88A30C99A7a9449Aa84174

/-- Collateral onramp: wraps USDC.e into pUSD. -/
def collateralOnramp : Address := Address.ofNat 0x93070a847efEf7F70739046A929D47a521F5B8ee

/-- CTF Exchange V2 for negRisk markets. -/
def negRiskExchangeV2 : Address := Address.ofNat 0xe2222d279d744050d28e00520010520000310F59

/-- CTF Exchange V2 for regular binary markets. -/
def exchangeV2 : Address := Address.ofNat 0xE111180000d2663C0091e4f400237545B87B996B

/-- Combos exchange V3. -/
def exchangeV3 : Address := Address.ofNat 0xe3333700cA9d93003F00f0F71f8515005F6c00Aa

end Eggplant.Chain
