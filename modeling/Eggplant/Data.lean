import Eggplant.Primitives

/-!
# Data API rows

A position row, reduced to the fields the scans and the redeem grouping read.
Sizes are the decimals the API prints, as exact rationals.
-/
namespace Eggplant

set_option autoImplicit false

structure Position where
  asset : String
  size : Rat
  conditionId : String
  outcome : String
  negativeRisk : Bool
  deriving DecidableEq

/-- `FromStr` of the crate's primitive types; both are library code. -/
structure Parsers where
  u256 : String → Option Nat
  b256 : String → Option B256

/-- `s.strip_prefix("0x").unwrap_or(s)`. -/
def stripHexPrefix (s : String) : String :=
  match s.toList with
  | '0' :: 'x' :: rest => String.ofList rest
  | _ => s

def Parsers.hexB256 (parse : Parsers) (s : String) : Option B256 := parse.b256 (stripHexPrefix s)

end Eggplant
