import Eggplant.Lib.Words

/-!
# Keccak-256

The sponge over 25 lanes of 64 bits, with the original multi-rate padding. A lane
is a natural number below `2 ^ 64`; a plane is a row of five lanes.
-/
namespace Eggplant.Lib.Keccak

set_option autoImplicit false

open Eggplant.Lib.Words

def rotl (r v : Nat) : Nat := (v <<< r) % 2 ^ 64 ||| v >>> (64 - r)

def complement (v : Nat) : Nat := (2 ^ 64 - 1) ^^^ v

structure Plane where
  a : Nat
  b : Nat
  c : Nat
  d : Nat
  e : Nat
  deriving DecidableEq

namespace Plane

def zero : Plane := ⟨0, 0, 0, 0, 0⟩

def xor (p q : Plane) : Plane :=
  ⟨p.a ^^^ q.a, p.b ^^^ q.b, p.c ^^^ q.c, p.d ^^^ q.d, p.e ^^^ q.e⟩

/-- The plane whose lane `x` is lane `x + 1`, rotated by one bit. -/
def next (p : Plane) : Plane := ⟨rotl 1 p.b, rotl 1 p.c, rotl 1 p.d, rotl 1 p.e, rotl 1 p.a⟩

/-- The plane whose lane `x` is lane `x - 1`. -/
def prev (p : Plane) : Plane := ⟨p.e, p.a, p.b, p.c, p.d⟩

def chi (p : Plane) : Plane :=
  ⟨p.a ^^^ (complement p.b &&& p.c), p.b ^^^ (complement p.c &&& p.d),
    p.c ^^^ (complement p.d &&& p.e), p.d ^^^ (complement p.e &&& p.a),
    p.e ^^^ (complement p.a &&& p.b)⟩

end Plane

structure Sponge where
  y0 : Plane
  y1 : Plane
  y2 : Plane
  y3 : Plane
  y4 : Plane
  deriving DecidableEq

namespace Sponge

def zero : Sponge := ⟨.zero, .zero, .zero, .zero, .zero⟩

def xor (s t : Sponge) : Sponge :=
  ⟨s.y0.xor t.y0, s.y1.xor t.y1, s.y2.xor t.y2, s.y3.xor t.y3, s.y4.xor t.y4⟩

def theta (s : Sponge) : Sponge :=
  let parity := (((s.y0.xor s.y1).xor s.y2).xor s.y3).xor s.y4
  let d := parity.prev.xor parity.next
  s.xor ⟨d, d, d, d, d⟩

/-- The lane rotations together with the transposition of the lanes. -/
def rhoPi (s : Sponge) : Sponge :=
  ⟨⟨s.y0.a, rotl 44 s.y1.b, rotl 43 s.y2.c, rotl 21 s.y3.d, rotl 14 s.y4.e⟩,
    ⟨rotl 28 s.y0.d, rotl 20 s.y1.e, rotl 3 s.y2.a, rotl 45 s.y3.b, rotl 61 s.y4.c⟩,
    ⟨rotl 1 s.y0.b, rotl 6 s.y1.c, rotl 25 s.y2.d, rotl 8 s.y3.e, rotl 18 s.y4.a⟩,
    ⟨rotl 27 s.y0.e, rotl 36 s.y1.a, rotl 10 s.y2.b, rotl 15 s.y3.c, rotl 56 s.y4.d⟩,
    ⟨rotl 62 s.y0.c, rotl 55 s.y1.d, rotl 39 s.y2.e, rotl 41 s.y3.a, rotl 2 s.y4.b⟩⟩

def chi (s : Sponge) : Sponge := ⟨s.y0.chi, s.y1.chi, s.y2.chi, s.y3.chi, s.y4.chi⟩

def iota (rc : Nat) (s : Sponge) : Sponge := { s with y0 := { s.y0 with a := s.y0.a ^^^ rc } }

def roundConstants : List Nat :=
  [0x0000000000000001, 0x0000000000008082, 0x800000000000808a, 0x8000000080008000,
    0x000000000000808b, 0x0000000080000001, 0x8000000080008081, 0x8000000000008009,
    0x000000000000008a, 0x0000000000000088, 0x0000000080008009, 0x000000008000000a,
    0x000000008000808b, 0x800000000000008b, 0x8000000000008089, 0x8000000000008003,
    0x8000000000008002, 0x8000000000000080, 0x000000000000800a, 0x800000008000000a,
    0x8000000080008081, 0x8000000000008080, 0x0000000080000001, 0x8000000080008008]

def permute (s : Sponge) : Sponge :=
  roundConstants.foldl (fun s rc => iota rc s.theta.rhoPi.chi) s

end Sponge

/-- The little-endian number a byte string denotes. -/
def leNat (bs : Bytes) : Nat := bs.foldr (fun b acc => b.toNat + 256 * acc) 0

/-- The `w` low-order bytes of `v`, least significant first. -/
def leBytes : Nat → Nat → Bytes
  | 0, _ => []
  | w + 1, v => UInt8.ofNat v :: leBytes w (v / 256)

theorem leBytes_length (w v : Nat) : (leBytes w v).length = w := by
  induction w generalizing v with
  | zero => rfl
  | succ w ih => rw [leBytes, List.length_cons, ih]

/-- Bytes a sponge absorbs at a time. -/
def rate : Nat := 136

def laneAt (block : Bytes) (i : Nat) : Nat := leNat ((block.drop (8 * i)).take 8)

def planeAt (block : Bytes) (i : Nat) : Plane :=
  ⟨laneAt block i, laneAt block (i + 1), laneAt block (i + 2), laneAt block (i + 3),
    laneAt block (i + 4)⟩

/-- A block of `rate` bytes fills 17 lanes; the rest of the state is its capacity. -/
def absorb (s : Sponge) (block : Bytes) : Sponge :=
  (s.xor ⟨planeAt block 0, planeAt block 5, planeAt block 10, planeAt block 15,
    planeAt block 20⟩).permute

/-- The last block: a single one bit, zeros, and a closing one bit. -/
def pad (bs : Bytes) : Bytes :=
  if bs.length + 1 = rate then bs ++ [0x81]
  else bs ++ 0x01 :: (List.replicate (rate - 2 - bs.length) 0 ++ [0x80])

/-- Absorb `n` whole blocks and then the padded rest. -/
def absorbAll : Nat → Sponge → Bytes → Sponge
  | 0, s, bs => absorb s (pad bs)
  | n + 1, s, bs => absorbAll n (absorb s (bs.take rate)) (bs.drop rate)

/-- The first 32 bytes of the state. -/
def squeeze (s : Sponge) : FixedBytes 32 :=
  ⟨leBytes 8 s.y0.a ++ leBytes 8 s.y0.b ++ leBytes 8 s.y0.c ++ leBytes 8 s.y0.d, by
    simp only [List.length_append, leBytes_length]⟩

def keccak256 (bs : Bytes) : FixedBytes 32 := squeeze (absorbAll (bs.length / rate) .zero bs)

set_option maxRecDepth 4000 in
example : (keccak256 []).bytes =
    beBytes 32 0xc5d2460186f7233c927e7db2dcc703c0e500b653ca82273b7bfad8045d85a470 := by
  decide +kernel

end Eggplant.Lib.Keccak
