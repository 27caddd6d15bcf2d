import Eggplant.Lib.UrlQuery

/-!
# Percent encoding

A byte that is an unreserved character stands for itself, any other one is a percent sign
with its two upper-case hexadecimal digits. Encoded text decodes to the bytes it was made
of, and the reader of a form-encoded query finds nothing else in it to act on.
-/
namespace Eggplant.Lib.Percent

set_option autoImplicit false

open Eggplant.Lib.Words Eggplant.Lib.Text
open Eggplant.Lib.UrlQuery (decode encode piece readPairs IsEscape IsName)

/-- A letter, a digit or one of the four marks. -/
def Unreserved (c : Char) : Prop :=
  ('A' ≤ c ∧ c ≤ 'Z') ∨ ('a' ≤ c ∧ c ≤ 'z') ∨ ('0' ≤ c ∧ c ≤ '9') ∨ c ∈ ['-', '.', '_', '~']

instance (c : Char) : Decidable (Unreserved c) :=
  inferInstanceAs (Decidable (_ ∨ _))

def UpperHexDigit (c : Char) : Prop := ('0' ≤ c ∧ c ≤ '9') ∨ ('A' ≤ c ∧ c ≤ 'F')

instance (c : Char) : Decidable (UpperHexDigit c) :=
  inferInstanceAs (Decidable (_ ∨ _))

/-- Unreserved characters and upper-case escapes, nothing else. -/
inductive PercentEncoded : List Char → Prop
  | nil : PercentEncoded []
  | unreserved {c : Char} {rest : List Char} :
      Unreserved c → PercentEncoded rest → PercentEncoded (c :: rest)
  | escape {h l : Char} {rest : List Char} :
      UpperHexDigit h → UpperHexDigit l → PercentEncoded rest →
        PercentEncoded ('%' :: h :: l :: rest)

/-- A percent sign with two hexadecimal digits is a byte, any other character its UTF-8. -/
def percentDecode : List Char → Bytes
  | [] => []
  | '%' :: h :: l :: rest =>
    match hexValue h, hexValue l with
    | some hi, some lo => UInt8.ofNat (16 * hi + lo) :: percentDecode rest
    | _, _ => String.utf8EncodeChar '%' ++ percentDecode (h :: l :: rest)
  | c :: rest => String.utf8EncodeChar c ++ percentDecode rest

def upperHexDigit (n : Nat) : Char := "0123456789ABCDEF".toList.getD n '0'

def encodeByte (b : UInt8) : List Char :=
  if Unreserved (Char.ofNat b.toNat) then [Char.ofNat b.toNat]
  else ['%', upperHexDigit (b.toNat / 16), upperHexDigit (b.toNat % 16)]

def percentEncode (bs : Bytes) : List Char := bs.flatMap encodeByte

/-! ## Characters -/

theorem upperHexDigit_upper {n : Nat} (h : n < 16) : UpperHexDigit (upperHexDigit n) := by
  have hall : ∀ m : Fin 16, UpperHexDigit (upperHexDigit m.val) := by decide
  exact hall ⟨n, h⟩

theorem hexValue_upperHexDigit {n : Nat} (h : n < 16) : hexValue (upperHexDigit n) = some n := by
  have hall : ∀ m : Fin 16, hexValue (upperHexDigit m.val) = some m.val := by decide
  exact hall ⟨n, h⟩

theorem UpperHexDigit.unreserved {c : Char} (h : UpperHexDigit c) : Unreserved c := by
  rcases h with hdigit | ⟨hA, hF⟩
  · exact .inr (.inr (.inl hdigit))
  · exact .inl ⟨hA, Char.le_trans hF (by decide)⟩

theorem UpperHexDigit.hexValue_isSome {c : Char} (h : UpperHexDigit c) : (hexValue c).isSome := by
  unfold hexValue
  rcases h with hdigit | hletter
  · rw [if_pos hdigit]
    rfl
  · split
    · rfl
    · split <;> rfl

theorem Unreserved.toNat_lt {c : Char} (h : Unreserved c) : c.toNat < 128 := by
  have hle {d : Char} (hcd : c ≤ d) : c.toNat ≤ d.toNat := Char.le_def.mp hcd
  rcases h with ⟨-, hZ⟩ | ⟨-, hz⟩ | ⟨-, h9⟩ | hmark
  · exact Nat.lt_of_le_of_lt (hle hZ) (by decide)
  · exact Nat.lt_of_le_of_lt (hle hz) (by decide)
  · exact Nat.lt_of_le_of_lt (hle h9) (by decide)
  · have hall : ∀ d ∈ ['-', '.', '_', '~'], d.toNat < 128 := by simp
    exact hall c hmark

theorem Unreserved.utf8EncodeChar {c : Char} (h : Unreserved c) :
    String.utf8EncodeChar c = [UInt8.ofNat c.toNat] := by
  have hone : c.utf8Size = 1 := by
    rw [Char.utf8Size_eq_one_iff, UInt32.le_iff_toNat_le]
    exact Nat.le_of_lt_succ h.toNat_lt
  exact String.utf8EncodeChar_eq_singleton hone

theorem unreserved_of_isDigit {c : Char} (h : c.isDigit = true) : Unreserved c := by
  have hrange : '0'.val ≤ c.val ∧ c.val ≤ '9'.val := by simpa [Char.isDigit] using h
  exact .inr (.inr (.inl hrange))

/-- No character that an escape or a query is built with is unreserved. -/
theorem not_unreserved : ∀ c ∈ ['%', '+', '&', '=', '#', '?'], ¬Unreserved c := by
  simp [Unreserved]

/-! ## Decoding -/

theorem percentDecode_escape {h l : Char} {hi lo : Nat} (hh : hexValue h = some hi)
    (hl : hexValue l = some lo) (rest : List Char) :
    percentDecode ('%' :: h :: l :: rest) = UInt8.ofNat (16 * hi + lo) :: percentDecode rest := by
  rw [percentDecode, hh, hl]

theorem percentDecode_cons {c : Char} (hc : c ≠ '%') (rest : List Char) :
    percentDecode (c :: rest) = String.utf8EncodeChar c ++ percentDecode rest := by
  rw [percentDecode.eq_def]
  split
  next heq => cases heq
  next heq =>
    cases heq
    exact absurd rfl hc
  next heq =>
    cases heq
    rfl

theorem percentDecode_unreserved {c : Char} (hc : Unreserved c) (rest : List Char) :
    percentDecode (c :: rest) = UInt8.ofNat c.toNat :: percentDecode rest := by
  have hne : c ≠ '%' := fun h => not_unreserved '%' (by decide) (h ▸ hc)
  rw [percentDecode_cons hne, hc.utf8EncodeChar, List.singleton_append]

/-! ## Encoding -/

/-- Encoding a byte puts one group in front. -/
theorem percentEncoded_encodeByte (b : UInt8) {rest : List Char} (h : PercentEncoded rest) :
    PercentEncoded (encodeByte b ++ rest) := by
  have hb : b.toNat < 256 := b.toNat_lt
  unfold encodeByte
  split
  next hc => exact .unreserved hc h
  next =>
    have hhi := upperHexDigit_upper (n := b.toNat / 16) (by omega)
    have hlo := upperHexDigit_upper (n := b.toNat % 16) (by omega)
    exact .escape hhi hlo h

theorem percentDecode_encodeByte (b : UInt8) (rest : List Char) :
    percentDecode (encodeByte b ++ rest) = b :: percentDecode rest := by
  have hb : b.toNat < 256 := b.toNat_lt
  unfold encodeByte
  split
  next hc =>
    have hvalid : b.toNat.isValidChar := .inl (by omega)
    have hchar : (Char.ofNat b.toNat).toNat = b.toNat := by
      rw [Char.ofNat, dif_pos hvalid]
      rfl
    rw [List.singleton_append, percentDecode_unreserved hc, hchar, UInt8.ofNat_toNat]
  next =>
    have hhi := hexValue_upperHexDigit (n := b.toNat / 16) (by omega)
    have hlo := hexValue_upperHexDigit (n := b.toNat % 16) (by omega)
    rw [List.cons_append, List.cons_append, List.singleton_append, percentDecode_escape hhi hlo,
      ofNat_nibbles]

theorem percentEncoded_percentEncode (bs : Bytes) : PercentEncoded (percentEncode bs) := by
  induction bs with
  | nil => exact .nil
  | cons b bs ih =>
    rw [percentEncode, List.flatMap_cons]
    exact percentEncoded_encodeByte b ih

theorem percentDecode_percentEncode (bs : Bytes) : percentDecode (percentEncode bs) = bs := by
  induction bs with
  | nil => rfl
  | cons b bs ih =>
    rw [percentEncode, List.flatMap_cons, percentDecode_encodeByte]
    exact congrArg (b :: ·) ih

namespace PercentEncoded

theorem not_mem {text : List Char} (h : PercentEncoded text) {c : Char} (hc : ¬Unreserved c)
    (hpercent : c ≠ '%') : c ∉ text := by
  induction h with
  | nil => exact List.not_mem_nil
  | unreserved hd _ ih => exact List.not_mem_cons_of_ne_of_not_mem (fun h => hc (h ▸ hd)) ih
  | escape hh hl _ ih =>
    refine List.not_mem_cons_of_ne_of_not_mem hpercent ?_
    refine List.not_mem_cons_of_ne_of_not_mem (fun h => hc (h ▸ hh.unreserved)) ?_
    exact List.not_mem_cons_of_ne_of_not_mem (fun h => hc (h ▸ hl.unreserved)) ih

/-- Reading a form adds nothing to decoding the escapes. -/
theorem decode_eq {text : List Char} (h : PercentEncoded text) :
    decode text = percentDecode text := by
  induction h with
  | nil => rfl
  | @unreserved c rest hc _ ih =>
    have hne {d : Char} (hd : d ∈ ['%', '+', '&', '=', '#', '?']) : c ≠ d :=
      fun h => not_unreserved d hd (h ▸ hc)
    have hno : ∀ escape, IsEscape escape → ¬escape <+: c :: rest := by
      rintro _ ⟨h, l, rfl, -, -⟩ hprefix
      exact hne (d := '%') (by decide) (List.cons_prefix_cons.mp hprefix).1.symm
    rw [UrlQuery.decode_cons hno, if_neg (hne (d := '+') (by decide)),
      percentDecode_cons (hne (d := '%') (by decide)), ih]
  | escape hh hl _ ih =>
    obtain ⟨hi, hhi⟩ := Option.isSome_iff_exists.mp hh.hexValue_isSome
    obtain ⟨lo, hlo⟩ := Option.isSome_iff_exists.mp hl.hexValue_isSome
    rw [UrlQuery.decode_escape hhi hlo, percentDecode_escape hhi hlo, ih]

end PercentEncoded

/-- A text of unreserved characters is its own encoding. -/
theorem percentEncode_encode {text : List Char} (h : ∀ c ∈ text, Unreserved c) :
    percentEncode (encode text) = text := by
  induction text with
  | nil => rfl
  | cons c rest ih =>
    obtain ⟨hc, hrest⟩ := List.forall_mem_cons.mp h
    have hsmall : c.toNat < 256 := Nat.lt_trans hc.toNat_lt (by decide)
    have hbyte : encodeByte (UInt8.ofNat c.toNat) = [c] := by
      rw [encodeByte, UInt8.toNat_ofNat_of_lt' hsmall, Char.ofNat_toNat, if_pos hc]
    rw [UrlQuery.encode_cons, hc.utf8EncodeChar, List.singleton_append, percentEncode,
      List.flatMap_cons, hbyte, List.singleton_append]
    exact congrArg (c :: ·) (ih hrest)

/-! ## In a query -/

def pieceOf (pair : String × String) : List Char :=
  piece pair.1.toList (percentEncode (utf8 pair.2))

/-- Names and encoded values, as they follow the question mark. -/
def queryOf : List (String × String) → List Char
  | [] => []
  | pair :: pairs => pieceOf pair ++ pairs.flatMap fun pair => '&' :: pieceOf pair

/-- Behind the path stands one query, with these names and values and no others. -/
def Asks (url path : String) (params : List (String × String)) : Prop :=
  ∃ query : String, url = path ++ "?" ++ query ∧ '#' ∉ query.toList ∧
    readPairs query.toList = params.map fun pair => (utf8 pair.1, utf8 pair.2)

theorem queryOf_append {pairs : List (String × String)} (hne : pairs ≠ [])
    (more : List (String × String)) :
    queryOf (pairs ++ more) = queryOf pairs ++ more.flatMap fun pair => '&' :: pieceOf pair := by
  cases pairs with
  | nil => exact absurd rfl hne
  | cons pair pairs =>
    rw [List.cons_append, queryOf, queryOf, List.flatMap_append, List.append_assoc]

theorem isName_of_unreserved {name : List Char} (h : ∀ c ∈ name, Unreserved c) : IsName name := by
  have hnot {d : Char} (hd : d ∈ ['%', '+', '&', '=', '#', '?']) : d ∉ name :=
    fun hmem => not_unreserved d hd (h d hmem)
  exact UrlQuery.isName_of_not_mem
    ⟨hnot (by decide), hnot (by decide), hnot (by decide), hnot (by decide)⟩

/-- An encoded value is the value of its own piece. -/
theorem readPairs_pieceOf {pair : String × String} (hname : ∀ c ∈ pair.1.toList, Unreserved c) :
    readPairs (pieceOf pair) = [(utf8 pair.1, utf8 pair.2)] := by
  have hvalue := percentEncoded_percentEncode (utf8 pair.2)
  have hand : '&' ∉ percentEncode (utf8 pair.2) :=
    hvalue.not_mem (not_unreserved '&' (by decide)) (by decide)
  rw [pieceOf, UrlQuery.readPairs_piece (isName_of_unreserved hname) hand, hvalue.decode_eq,
    percentDecode_percentEncode, UrlQuery.encode_toList]

theorem flatMap_readPairs (pairs : List (String × String))
    (hnames : ∀ pair ∈ pairs, ∀ c ∈ pair.1.toList, Unreserved c) :
    (pairs.flatMap fun pair => readPairs (pieceOf pair)) =
      pairs.map fun pair => (utf8 pair.1, utf8 pair.2) := by
  induction pairs with
  | nil => rfl
  | cons pair pairs ih =>
    obtain ⟨hname, hnames⟩ := List.forall_mem_cons.mp hnames
    rw [List.flatMap_cons, List.map_cons, readPairs_pieceOf hname, ih hnames]
    rfl

/-- Every value comes back under its name, whatever it holds. -/
theorem readPairs_queryOf (pairs : List (String × String))
    (hnames : ∀ pair ∈ pairs, ∀ c ∈ pair.1.toList, Unreserved c) :
    readPairs (queryOf pairs) = pairs.map fun pair => (utf8 pair.1, utf8 pair.2) := by
  rw [← flatMap_readPairs pairs hnames]
  cases pairs with
  | nil => rfl
  | cons pair pairs => exact UrlQuery.readPairs_pieces pieceOf pair pairs

/-- No fragment starts within the query. -/
theorem not_mem_queryOf (pairs : List (String × String))
    (hnames : ∀ pair ∈ pairs, ∀ c ∈ pair.1.toList, Unreserved c) : '#' ∉ queryOf pairs := by
  have hpiece : ∀ pair ∈ pairs, '#' ∉ pieceOf pair := by
    intro pair hpair
    have hname : '#' ∉ pair.1.toList :=
      fun h => not_unreserved '#' (by decide) (hnames pair hpair _ h)
    have hvalue : '#' ∉ percentEncode (utf8 pair.2) :=
      (percentEncoded_percentEncode _).not_mem (not_unreserved '#' (by decide)) (by decide)
    simp [pieceOf, piece, hname, hvalue]
  cases pairs with
  | nil => exact List.not_mem_nil
  | cons pair pairs =>
    obtain ⟨hfirst, hrest⟩ := List.forall_mem_cons.mp hpiece
    simpa [queryOf, hfirst] using hrest

theorem asks_queryOf (path : String) (params : List (String × String))
    (hnames : ∀ pair ∈ params, ∀ c ∈ pair.1.toList, Unreserved c) :
    Asks (path ++ "?" ++ String.ofList (queryOf params)) path params := by
  refine ⟨String.ofList (queryOf params), rfl, ?_, ?_⟩
  · rw [String.toList_ofList]
    exact not_mem_queryOf params hnames
  · rw [String.toList_ofList]
    exact readPairs_queryOf params hnames

end Eggplant.Lib.Percent
