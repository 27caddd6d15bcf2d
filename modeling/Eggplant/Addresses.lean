import Eggplant.Lib.Keccak
import Eggplant.Lib.Text
import Eggplant.Primitives

/-!
# Addresses as text

The crate prints addresses in lower case or under the mixed-case checksum, where the hash of
the digits says which letters are capitals. Both read back to the address.
-/
namespace Eggplant

set_option autoImplicit false

open Eggplant.Lib Eggplant.Lib.Words Eggplant.Lib.Text

/-- `{:#x}`: the address in lower-case digits. -/
def Address.lowerHex (address : Address) : String := "0x" ++ hexText address.bytes

/-- Capitals where the nibble of the hash is at least eight. -/
def checksumChars (cs : List Char) (nibbles : List Nat) : List Char :=
  (cs.zip nibbles).map fun digit => if 8 ≤ digit.2 then digit.1.toUpper else digit.1

def nibblesOf (bs : Bytes) : List Nat := bs.flatMap fun b => [b.toNat / 16, b.toNat % 16]

/-- `Display`, that is `to_checksum(None)`. -/
def Address.display (keccak256 : Bytes → B256) (address : Address) : String :=
  let digits := hexChars address.bytes
  "0x" ++ String.ofList (checksumChars digits (nibblesOf (keccak256 (utf8 (String.ofList digits))).bytes))

-- the development key's address, as the credentials test prints it
example : (Address.ofNat 0xf39fd6e51aad88f6f4ce6ab8827279cfffb92266).display Keccak.keccak256 =
    "0xf39Fd6e51aad88F6F4ce6aB8827279cffFb92266" := by
  decide +kernel

/-! ## Reading them back -/

theorem unhex_congr {cs ds : List Char} (h : cs.map hexValue = ds.map hexValue) :
    unhex cs = unhex ds := by
  induction cs using unhex.induct generalizing ds with
  | case1 =>
    obtain rfl : ds = [] := List.map_eq_nil_iff.mp h.symm
    rfl
  | case2 c =>
    obtain ⟨d, ds, rfl, _, hnil⟩ := List.map_eq_cons_iff.mp h.symm
    obtain rfl : ds = [] := List.map_eq_nil_iff.mp hnil
    rfl
  | case3 a b rest ih =>
    obtain ⟨a', ds, rfl, ha, htail⟩ := List.map_eq_cons_iff.mp h.symm
    obtain ⟨b', rest', rfl, hb, hrest⟩ := List.map_eq_cons_iff.mp htail
    rw [unhex, unhex, ha, hb, ih hrest.symm]

theorem hexValue_toUpper (n : Nat) : hexValue (hexDigit n).toUpper = hexValue (hexDigit n) := by
  have hall : ∀ m : Fin 16, hexValue (hexDigit m.val).toUpper = hexValue (hexDigit m.val) := by
    decide
  by_cases h : n < 16
  · exact hall ⟨n, h⟩
  · have hlen : "0123456789abcdef".toList.length ≤ n := by simpa using h
    rw [hexDigit, List.getD_eq_default _ _ hlen]
    decide

/-- Capitals do not change what the digits denote. -/
theorem checksumChars_hexValue {bs : Bytes} {nibbles : List Nat}
    (h : (hexChars bs).length ≤ nibbles.length) :
    (checksumChars (hexChars bs) nibbles).map hexValue = (hexChars bs).map hexValue := by
  have hdigits : ∀ c ∈ hexChars bs, hexValue c.toUpper = hexValue c := by
    intro c hc
    obtain ⟨b, _, hb⟩ := List.mem_flatMap.mp hc
    rcases List.mem_pair.mp hb with rfl | rfl <;> exact hexValue_toUpper _
  generalize hexChars bs = cs at h hdigits
  rw [checksumChars, List.map_map]
  calc (cs.zip nibbles).map (hexValue ∘ fun digit => if 8 ≤ digit.2 then digit.1.toUpper else digit.1)
      = (cs.zip nibbles).map (hexValue ∘ Prod.fst) := by
        refine List.map_congr_left fun digit hdigit => ?_
        have hc := hdigits _ (List.of_mem_zip hdigit).1
        by_cases hcap : 8 ≤ digit.2
        · rw [Function.comp_apply, if_pos hcap, hc, Function.comp_apply]
        · rw [Function.comp_apply, if_neg hcap, Function.comp_apply]
    _ = cs.map hexValue := by rw [← List.map_map, List.map_fst_zip h]

theorem readFixedHex_lowerHex (address : Address) :
    readFixedHex 20 address.lowerHex = some address := readFixedHex_hexText address

theorem readFixedHex_display (keccak256 : Bytes → B256) (address : Address) :
    readFixedHex 20 (address.display keccak256) = some address := by
  have hnibbles : (nibblesOf (keccak256 (utf8 (String.ofList (hexChars address.bytes)))).bytes).length
      = 64 := by
    rw [nibblesOf, List.length_flatMap]
    simp [FixedBytes.length_eq]
  have hlen : (hexChars address.bytes).length ≤
      (nibblesOf (keccak256 (utf8 (String.ofList (hexChars address.bytes)))).bytes).length := by
    rw [hnibbles, hexChars_length, address.length_eq]
    decide
  have hchars : (address.display keccak256).toList = '0' :: 'x' ::
      checksumChars (hexChars address.bytes)
        (nibblesOf (keccak256 (utf8 (String.ofList (hexChars address.bytes)))).bytes) := by
    simp [Address.display]
  rw [readFixedHex, readHex, hchars, afterHexMarker, Option.bind_some,
    unhex_congr (checksumChars_hexValue hlen), unhex_hexChars, Option.bind_some,
    dif_pos address.length_eq]

end Eggplant
