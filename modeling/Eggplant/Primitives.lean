import Eggplant.Lib.Words

/-!
# The crate's primitive values

A 256-bit integer is a natural number. The operators of the crate's big integers
wrap, so a sum or a product that can leave the word goes through `U256.add` or
`U256.mul`; differences and minima that cannot are plain natural arithmetic.
-/
namespace Eggplant

set_option autoImplicit false

open Eggplant.Lib.Words

/-- 32 opaque bytes: question ids, condition ids, market ids. -/
abbrev B256 := FixedBytes 32

abbrev Address := FixedBytes 20

namespace U256

def max : Nat := wordSize - 1

def add (a b : Nat) : Nat := (a + b) % wordSize

def mul (a b : Nat) : Nat := a * b % wordSize

def saturatingAdd (a b : Nat) : Nat := min (a + b) max

end U256

/-- `u64::MAX`. -/
def u64Max : Nat := 2 ^ 64 - 1

/-- `u64::saturating_add`. -/
def satAdd64 (a b : Nat) : Nat := min (a + b) u64Max

/-- `u64::saturating_mul`. -/
def satMul64 (a b : Nat) : Nat := min (a * b) u64Max

/-- An address written as a hexadecimal literal. -/
def Address.ofNat (v : Nat) : Address := ⟨beBytes 20 v, beBytes_length 20 v⟩

/-- An address as an ABI word. -/
def Address.toWord (a : Address) : Word := Word.leftPad a (by decide)

/-! ## Text -/

/-- `str::contains` with a string pattern. -/
def strContains (s pat : String) : Bool :=
  s.toList.tails.any (fun t => pat.toList.isPrefixOf t)

theorem strContains_iff {s pat : String} :
    strContains s pat = true ↔ pat.toList <:+: s.toList := by
  rw [strContains, List.any_eq_true, List.infix_iff_prefix_suffix]
  constructor
  · intro ⟨t, ht, hpre⟩
    exact ⟨t, List.isPrefixOf_iff_prefix.mp hpre, (List.mem_tails _ _).mp ht⟩
  · intro ⟨t, hpre, hsuffix⟩
    exact ⟨t, (List.mem_tails _ _).mpr hsuffix, List.isPrefixOf_iff_prefix.mpr hpre⟩

/-- `str::to_ascii_lowercase`. -/
def toAsciiLowercase (s : String) : String := String.ofList (s.toList.map Char.toLower)

theorem toList_toAsciiLowercase (s : String) :
    (toAsciiLowercase s).toList = s.toList.map Char.toLower := String.toList_ofList

/-- `str::eq_ignore_ascii_case`. -/
def eqIgnoreAsciiCase (a b : String) : Bool :=
  a.toList.map Char.toLower == b.toList.map Char.toLower

end Eggplant
