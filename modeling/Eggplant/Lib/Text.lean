import Eggplant.Lib.Words

/-!
# UTF-8, hexadecimal and decimal text

The writers print lower-case digits; the readers accept either case. Each reader
inverts its writer.
-/
namespace Eggplant.Lib.Text

set_option autoImplicit false

open Eggplant.Lib.Words

/-! ## UTF-8 -/

def utf8 (s : String) : Bytes := s.toByteArray.data.toList

@[simp] theorem utf8_append (s t : String) : utf8 (s ++ t) = utf8 s ++ utf8 t := by
  simp [utf8, String.toByteArray_append]

theorem utf8_injective {s t : String} (h : utf8 s = utf8 t) : s = t := by
  apply String.toByteArray_inj.mp
  apply ByteArray.ext
  exact Array.toList_inj.mp h

/-! ## Hexadecimal -/

def hexDigit (n : Nat) : Char := "0123456789abcdef".toList.getD n '0'

def hexPair (b : UInt8) : List Char := [hexDigit (b.toNat / 16), hexDigit (b.toNat % 16)]

def hexChars (bs : Bytes) : List Char := bs.flatMap hexPair

def hexText (bs : Bytes) : String := String.ofList (hexChars bs)

def hexValue (c : Char) : Option Nat :=
  if '0' ≤ c ∧ c ≤ '9' then some (c.toNat - 48)
  else if 'a' ≤ c ∧ c ≤ 'f' then some (c.toNat - 87)
  else if 'A' ≤ c ∧ c ≤ 'F' then some (c.toNat - 55)
  else none

def unhex : List Char → Option Bytes
  | [] => some []
  | [_] => none
  | a :: b :: rest => do
      let hi ← hexValue a
      let lo ← hexValue b
      let bs ← unhex rest
      pure (UInt8.ofNat (16 * hi + lo) :: bs)

theorem hexValue_hexDigit {n : Nat} (h : n < 16) : hexValue (hexDigit n) = some n := by
  have hall : ∀ m : Fin 16, hexValue (hexDigit m.val) = some m.val := by decide
  exact hall ⟨n, h⟩

theorem hexChars_append (as bs : Bytes) : hexChars (as ++ bs) = hexChars as ++ hexChars bs :=
  List.flatMap_append

theorem hexText_append (as bs : Bytes) : hexText (as ++ bs) = hexText as ++ hexText bs := by
  rw [hexText, hexChars_append, String.ofList_append]
  rfl

/-- A byte is put together from its two nibbles. -/
theorem ofNat_nibbles (b : UInt8) : UInt8.ofNat (16 * (b.toNat / 16) + b.toNat % 16) = b := by
  rw [Nat.div_add_mod]
  exact UInt8.ofNat_toNat

theorem unhex_hexChars (bs : Bytes) : unhex (hexChars bs) = some bs := by
  induction bs with
  | nil => rfl
  | cons b bs ih =>
    have hb : b.toNat < 256 := b.toNat_lt
    have hhi : hexValue (hexDigit (b.toNat / 16)) = some (b.toNat / 16) :=
      hexValue_hexDigit (by omega)
    have hlo : hexValue (hexDigit (b.toNat % 16)) = some (b.toNat % 16) :=
      hexValue_hexDigit (by omega)
    rw [hexChars, List.flatMap_cons, hexPair, List.cons_append, List.cons_append, List.nil_append,
      unhex, hhi, hlo]
    rw [hexChars] at ih
    rw [ih]
    simp only [Option.bind_eq_bind, Option.bind_some, Option.pure_def, ofNat_nibbles]

/-- A text with its hexadecimal marker taken off. -/
def afterHexMarker : List Char → Option (List Char)
  | '0' :: 'x' :: rest => some rest
  | _ => none

/-- The bytes a marked hexadecimal text denotes. -/
def readHex (s : String) : Option Bytes := (afterHexMarker s.toList).bind unhex

theorem readHex_hexText (bs : Bytes) : readHex ("0x" ++ hexText bs) = some bs := by
  have hcs : ("0x" ++ hexText bs).toList = '0' :: 'x' :: hexChars bs := by
    simp [hexText]
  rw [readHex, hcs, afterHexMarker, Option.bind_some, unhex_hexChars]

/-- A byte string of known length from a marked hexadecimal text. -/
def readFixedHex (n : Nat) (s : String) : Option (FixedBytes n) :=
  (readHex s).bind fun bs => if h : bs.length = n then some ⟨bs, h⟩ else none

theorem readFixedHex_hexText {n : Nat} (a : FixedBytes n) :
    readFixedHex n ("0x" ++ hexText a.bytes) = some a := by
  rw [readFixedHex, readHex_hexText, Option.bind_some, dif_pos a.length_eq]

theorem hexChars_length (bs : Bytes) : (hexChars bs).length = 2 * bs.length := by
  induction bs with
  | nil => rfl
  | cons b bs ih =>
    rw [hexChars, List.flatMap_cons, List.length_append, List.length_cons]
    rw [hexChars] at ih
    rw [ih, hexPair, List.length_cons, List.length_singleton]
    omega

/-! ## Hyphenated groups -/

/-- Groups of the given numbers of bytes, each with a hyphen in front. -/
def writeGroups : List Nat → Bytes → List Char
  | [], _ => []
  | n :: ns, bs => '-' :: (hexChars (bs.take n) ++ writeGroups ns (bs.drop n))

def readGroups : List Nat → List Char → Option Bytes
  | [], [] => some []
  | n :: ns, '-' :: cs => do
      let bs ← unhex (cs.take (2 * n))
      let rest ← readGroups ns (cs.drop (2 * n))
      pure (bs ++ rest)
  | _, _ => none

theorem readGroups_writeGroups (ns : List Nat) :
    ∀ bs : Bytes, bs.length = ns.sum → readGroups ns (writeGroups ns bs) = some bs := by
  induction ns with
  | nil =>
    intro bs h
    rw [List.length_eq_zero_iff.mp h]
    rfl
  | cons n ns ih =>
    intro bs h
    rw [List.sum_cons] at h
    have hlen : (hexChars (bs.take n)).length = 2 * n := by
      rw [hexChars_length, List.length_take_of_le (by omega)]
    have hrest := ih (bs.drop n) (by rw [List.length_drop]; omega)
    rw [writeGroups, readGroups, List.take_left' hlen, List.drop_left' hlen, unhex_hexChars, hrest]
    simp only [Option.bind_eq_bind, Option.bind_some, Option.pure_def, List.take_append_drop]

/-! ## Decimal -/

def readDec (s : String) : Option Nat :=
  if s.toList ≠ [] ∧ s.toList.all Char.isDigit = true then
    some (Nat.ofDigitChars 10 s.toList 0)
  else none

/-- `str::parse::<i64>`: digits, with a sign in front at most. -/
def readI64 (s : String) : Option Int :=
  let (negative, digits) : Bool × List Char :=
    match s.toList with
    | '-' :: digits => (true, digits)
    | '+' :: digits => (false, digits)
    | digits => (false, digits)
  (readDec (String.ofList digits)).bind fun n =>
    if negative then if n ≤ 2 ^ 63 then some (-(n : Int)) else none
    else if n < 2 ^ 63 then some (n : Int) else none

theorem readDec_repr (n : Nat) : readDec n.repr = some n := by
  have hdigits : ∀ c ∈ Nat.toDigits 10 n, c.isDigit = true :=
    fun c hc => Nat.isDigit_of_mem_toDigits (by decide) (by decide) hc
  rw [readDec, Nat.toList_repr, if_pos ⟨Nat.toDigits_ne_nil, List.all_eq_true.mpr hdigits⟩,
    Nat.ofDigitChars_ten_toDigits]

theorem repr_injective {m n : Nat} (h : m.repr = n.repr) : m = n := by
  have hread := congrArg readDec h
  rw [readDec_repr, readDec_repr] at hread
  exact Option.some.inj hread

theorem isDigit_of_mem_repr {n : Nat} {c : Char} (h : c ∈ n.repr.toList) : c.isDigit = true := by
  rw [Nat.toList_repr] at h
  exact Nat.isDigit_of_mem_toDigits (by decide) (by decide) h

/-- `Display` of a signed integer. -/
theorem intRepr_injective {m n : Int} (h : m.repr = n.repr) : m = n := by
  have hsign {k : Nat} {t : String} (h : k.repr = "-" ++ t) : False := by
    have hmem : '-' ∈ k.repr.toList := by
      rw [h, String.toList_append]
      exact List.mem_append_left _ List.mem_cons_self
    exact absurd (isDigit_of_mem_repr hmem) (by decide)
  cases m with
  | ofNat m =>
    cases n with
    | ofNat n => exact congrArg Int.ofNat (repr_injective h)
    | negSucc n => exact (hsign h).elim
  | negSucc m =>
    cases n with
    | ofNat n => exact (hsign h.symm).elim
    | negSucc n =>
      have htail := congrArg String.toList h
      rw [Int.repr, Int.repr, String.toList_append, String.toList_append] at htail
      have hrepr := repr_injective (String.toList_inj.mp (List.append_cancel_left htail))
      exact congrArg Int.negSucc (Nat.succ.inj hrepr)

end Eggplant.Lib.Text
