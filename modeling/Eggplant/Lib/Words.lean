import Mathlib

/-!
# Fixed-width byte strings and big-endian words

A value of `FixedBytes n` carries the proof that it is `n` bytes long, so no
consumer re-checks a length. Words are 32 bytes, most significant byte first.
-/
namespace Eggplant.Lib.Words

set_option autoImplicit false

abbrev Bytes := List UInt8

/-- A byte string whose length is part of its type. -/
structure FixedBytes (n : Nat) where
  bytes : Bytes
  length_eq : bytes.length = n
  deriving DecidableEq

namespace FixedBytes
variable {n : Nat}

theorem eq_of_bytes {a b : FixedBytes n} (h : a.bytes = b.bytes) : a = b := by
  cases a
  cases b
  cases h
  rfl

def zero (n : Nat) : FixedBytes n := ⟨List.replicate n 0, List.length_replicate⟩

/-- Byte `i`, counted from the most significant end. -/
def get (a : FixedBytes n) (i : Nat) (h : i < n) : UInt8 :=
  a.bytes.get ⟨i, by rw [a.length_eq]; exact h⟩

/-- Overwrite byte `i`; an index past the end changes nothing. -/
def set (a : FixedBytes n) (i : Nat) (b : UInt8) : FixedBytes n :=
  ⟨a.bytes.set i b, by rw [List.length_set, a.length_eq]⟩

end FixedBytes

/-- The `w` low-order bytes of `v`, most significant first. -/
def beBytes : Nat → Nat → Bytes
  | 0, _ => []
  | w + 1, v => beBytes w (v / 256) ++ [UInt8.ofNat v]

/-- The natural number a big-endian byte string denotes. -/
def beNat (bs : Bytes) : Nat := bs.foldl (fun acc b => acc * 256 + b.toNat) 0

@[simp] theorem beBytes_length (w v : Nat) : (beBytes w v).length = w := by
  induction w generalizing v with
  | zero => rfl
  | succ w ih => simp [beBytes, ih]

theorem beNat_concat (bs : Bytes) (b : UInt8) : beNat (bs ++ [b]) = beNat bs * 256 + b.toNat := by
  simp [beNat]

/-- Encoding keeps exactly the part of the value that fits. -/
theorem beNat_beBytes (w v : Nat) : beNat (beBytes w v) = v % 256 ^ w := by
  induction w generalizing v with
  | zero => simp [beBytes, beNat, Nat.mod_one]
  | succ w ih =>
    have hb : (UInt8.ofNat v).toNat = v % 256 := by simp
    rw [beBytes, beNat_concat, ih, hb, pow_succ, Nat.mul_comm (256 ^ w) 256, Nat.mod_mul]
    omega

theorem beNat_lt (bs : Bytes) : beNat bs < 256 ^ bs.length := by
  induction bs using List.reverseRecOn with
  | nil => simp [beNat]
  | append_singleton bs b ih =>
    have hb : b.toNat < 256 := b.toNat_lt
    rw [beNat_concat, List.length_append, List.length_singleton, pow_succ]
    omega

/-- A 32-byte word. -/
abbrev Word := FixedBytes 32

/-- One past the largest value a word holds. -/
def wordSize : Nat := 2 ^ 256

theorem wordSize_eq : wordSize = 256 ^ 32 := by decide

namespace Word

def ofNat (v : Nat) : Word := ⟨beBytes 32 v, beBytes_length 32 v⟩

def toNat (w : Word) : Nat := beNat w.bytes

theorem toNat_ofNat (v : Nat) : toNat (ofNat v) = v % wordSize := by
  rw [wordSize_eq]
  exact beNat_beBytes 32 v

theorem toNat_ofNat_of_lt {v : Nat} (h : v < wordSize) : toNat (ofNat v) = v := by
  rw [toNat_ofNat, Nat.mod_eq_of_lt h]

theorem toNat_lt (w : Word) : toNat w < wordSize := by
  have h := beNat_lt w.bytes
  rwa [w.length_eq, ← wordSize_eq] at h

theorem ofNat_inj {v v' : Nat} (hv : v < wordSize) (hv' : v' < wordSize)
    (h : ofNat v = ofNat v') : v = v' := by
  rw [← toNat_ofNat_of_lt hv, h, toNat_ofNat_of_lt hv']

/-- Left-pad a shorter fixed string to a word, as the ABI does for addresses. -/
def leftPad {n : Nat} (a : FixedBytes n) (h : n ≤ 32) : Word :=
  ⟨List.replicate (32 - n) 0 ++ a.bytes, by
    rw [List.length_append, List.length_replicate, a.length_eq]
    omega⟩

theorem leftPad_inj {n : Nat} {a b : FixedBytes n} {h : n ≤ 32} (heq : leftPad a h = leftPad b h) :
    a = b :=
  FixedBytes.eq_of_bytes (List.append_cancel_left (congrArg FixedBytes.bytes heq))

end Word

end Eggplant.Lib.Words
