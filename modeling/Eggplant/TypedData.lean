import Eggplant.Primitives
import Eggplant.Lib.Buffer
import Eggplant.Lib.Eip712

/-!
# Hand-laid typed-data buffers

The 66-byte buffer every signing path ends with, and how an integer of the crate
stands in a word.
-/
namespace Eggplant

set_option autoImplicit false

open Eggplant.Lib Eggplant.Lib.Words Eggplant.Lib.Buffer

/-- `U256::from(v).to_be_bytes::<32>()` for a `u64`. -/
def u64Word (v : UInt64) : B256 := Word.ofNat v.toNat

/-- `U256::from(v)`. -/
def u64Uint (v : UInt64) : BitVec 256 := v.toBitVec.setWidth 256

/-- `0x19 ‖ 0x01 ‖ domain separator ‖ struct hash`. -/
def digestInput (domainSeparator structHash : B256) : Bytes :=
  fill 66 [(0, [0x19]), (1, [0x01]), (2, domainSeparator.bytes), (34, structHash.bytes)]

theorem digestInput_eq (domainSeparator structHash : B256) :
    digestInput domainSeparator structHash =
      [0x19, 0x01] ++ domainSeparator.bytes ++ structHash.bytes := by
  rw [digestInput, fill_eq_layout _ (by simp [Ordered, FixedBytes.length_eq])]
  simp [layout, FixedBytes.length_eq]

theorem word_u64Uint (v : UInt64) : Word.ofNat (u64Uint v).toNat = u64Word v := by
  have hv : v.toNat < 2 ^ 256 := lt_trans v.toNat_lt (by decide)
  rw [u64Uint, u64Word, BitVec.toNat_setWidth, UInt64.toNat_toBitVec, Nat.mod_eq_of_lt hv]

/-- The digest of a typed message is the hash of its 66-byte buffer. -/
theorem digest_eq (keccak256 : Bytes → B256) (d : Eip712.Domain) (m : Eip712.Struct) :
    Eip712.digest keccak256 d m =
      keccak256 (digestInput (Eip712.domainSeparator keccak256 d)
        (Eip712.hashStruct keccak256 m)) := by
  rw [digestInput_eq]
  rfl

end Eggplant
