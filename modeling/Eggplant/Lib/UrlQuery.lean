import Eggplant.Lib.Text

/-!
# URL queries

The reader of a form-encoded query: pieces between `&`, the first `=` of a piece between
name and value, then `+` as a space and `%` with two hexadecimal digits as a byte. A
text written into a query as it is comes back where it has nothing the reader acts on.
-/
namespace Eggplant.Lib.UrlQuery

set_option autoImplicit false

open Eggplant.Lib.Words Eggplant.Lib.Text

def encode (text : List Char) : Bytes := text.flatMap String.utf8EncodeChar

def decode : List Char → Bytes
  | [] => []
  | '%' :: h :: l :: rest =>
    match hexValue h, hexValue l with
    | some hi, some lo => UInt8.ofNat (16 * hi + lo) :: decode rest
    | _, _ => String.utf8EncodeChar '%' ++ decode (h :: l :: rest)
  | c :: rest => (if c = '+' then [0x20] else String.utf8EncodeChar c) ++ decode rest

/-- The name and the value of a piece; a piece without `=` is a name. -/
def readPair (piece : List Char) : Bytes × Bytes :=
  (decode (piece.takeWhile (· ≠ '=')), decode (piece.dropWhile (· ≠ '=')).tail)

/-- The pieces that are not empty. -/
def readPairs (text : List Char) : List (Bytes × Bytes) :=
  ((text.splitOn '&').filter (· ≠ [])).map readPair

def parse : List Char → List (Bytes × Bytes)
  | '?' :: text => readPairs text
  | text => readPairs text

/-! ## Decoding -/

/-- A percent sign with two hexadecimal digits. -/
def IsEscape (text : List Char) : Prop :=
  ∃ h l, text = ['%', h, l] ∧ (hexValue h).isSome ∧ (hexValue l).isSome

/-- Nothing in the text is decoded. -/
def Literal (text : List Char) : Prop :=
  '+' ∉ text ∧ ∀ escape, IsEscape escape → ¬escape <:+: text

theorem encode_toList (s : String) : encode s.toList = utf8 s := by
  have hs : s.toByteArray = s.toList.utf8Encode := by
    rw [← String.toByteArray_ofList, String.ofList_toList]
  rw [encode, utf8, hs, List.utf8Encode, List.data_toByteArray]

theorem encode_cons (c : Char) (text : List Char) :
    encode (c :: text) = String.utf8EncodeChar c ++ encode text :=
  List.flatMap_cons

theorem encode_append (s t : List Char) : encode (s ++ t) = encode s ++ encode t :=
  List.flatMap_append

theorem length_encode_lt_cons (c : Char) (text : List Char) :
    (encode text).length < (encode (c :: text)).length := by
  have hpos : 0 < (String.utf8EncodeChar c).length :=
    List.length_pos_of_ne_nil String.utf8EncodeChar_ne_nil
  rw [encode_cons, List.length_append]
  omega

theorem decode_escape {h l : Char} {hi lo : Nat} (hh : hexValue h = some hi)
    (hl : hexValue l = some lo) (rest : List Char) :
    decode ('%' :: h :: l :: rest) = UInt8.ofNat (16 * hi + lo) :: decode rest := by
  rw [decode, hh, hl]

theorem decode_cons {c : Char} {rest : List Char}
    (hno : ∀ escape, IsEscape escape → ¬escape <+: c :: rest) :
    decode (c :: rest) =
      (if c = '+' then [0x20] else String.utf8EncodeChar c) ++ decode rest := by
  rw [decode.eq_def]
  split
  next => simp_all
  next h l tail heq =>
    cases heq
    split
    next hi lo hh hl =>
      have hescape : IsEscape ['%', h, l] := ⟨h, l, rfl, by rw [hh]; rfl, by rw [hl]; rfl⟩
      exact absurd (List.prefix_append ['%', h, l] tail) (hno _ hescape)
    next => rfl
  next heq =>
    cases heq
    rfl

/-- Induction along a text: an escape is one step, a character outside of one is one step. -/
theorem escape_induction {motive : List Char → Prop} (nil : motive [])
    (escape : ∀ {h l : Char} {hi lo : Nat} (rest : List Char), hexValue h = some hi →
      hexValue l = some lo → motive rest → motive ('%' :: h :: l :: rest))
    (cons : ∀ (c : Char) (rest : List Char),
      (∀ escape, IsEscape escape → ¬escape <+: c :: rest) → motive rest → motive (c :: rest))
    (text : List Char) : motive text := by
  induction text using decode.induct with
  | case1 => exact nil
  | case2 h l rest hi lo hl hh ih => exact escape rest hh hl ih
  | case3 h l rest hbad ih =>
    refine cons _ _ ?_ ih
    rintro _ ⟨h', l', rfl, hh, hl⟩ hprefix
    obtain ⟨hi, hh⟩ := Option.isSome_iff_exists.mp hh
    obtain ⟨lo, hl⟩ := Option.isSome_iff_exists.mp hl
    simp only [List.cons_prefix_cons, true_and] at hprefix
    obtain ⟨rfl, rfl, -⟩ := hprefix
    exact hbad hi lo hh hl
  | case4 c rest hc ih =>
    refine cons _ _ ?_ ih
    rintro _ ⟨h, l, rfl, -, -⟩ hprefix
    obtain ⟨tail, htail⟩ := hprefix
    cases htail
    exact hc _ _ _ rfl rfl

/-- An escape is three characters and one byte. -/
theorem decode_escape_length_lt {h l : Char} {hi lo : Nat} (hh : hexValue h = some hi)
    (hl : hexValue l = some lo) {rest : List Char}
    (hle : (decode rest).length ≤ (encode rest).length) :
    (decode ('%' :: h :: l :: rest)).length < (encode ('%' :: h :: l :: rest)).length := by
  have h1 := length_encode_lt_cons '%' (h :: l :: rest)
  have h2 := length_encode_lt_cons h (l :: rest)
  have h3 := length_encode_lt_cons l rest
  rw [decode_escape hh hl, List.length_cons]
  omega

theorem decode_length_le (text : List Char) : (decode text).length ≤ (encode text).length := by
  induction text using escape_induction with
  | nil => exact Nat.le_refl _
  | escape rest hh hl ih => exact Nat.le_of_lt (decode_escape_length_lt hh hl ih)
  | cons c rest hno ih =>
    have hpos := length_encode_lt_cons c rest
    rw [decode_cons hno, List.length_append]
    split
    next =>
      rw [List.length_singleton]
      omega
    next =>
      rw [encode_cons, List.length_append]
      omega

theorem literal_cons_iff {c : Char} {rest : List Char}
    (hno : ∀ escape, IsEscape escape → ¬escape <+: c :: rest) :
    Literal (c :: rest) ↔ c ≠ '+' ∧ Literal rest := by
  unfold Literal
  simp only [List.mem_cons, not_or, List.infix_cons_iff]
  constructor
  · rintro ⟨⟨hc, hplus⟩, hwithin⟩
    exact ⟨Ne.symm hc, hplus, fun escape he => (hwithin escape he).2⟩
  · rintro ⟨hc, hplus, hwithin⟩
    exact ⟨⟨Ne.symm hc, hplus⟩, fun escape he => ⟨hno escape he, hwithin escape he⟩⟩

/-- Decoding gives a text back exactly when nothing in it is decoded. -/
theorem decode_eq_encode_iff (text : List Char) : decode text = encode text ↔ Literal text := by
  induction text using escape_induction with
  | nil =>
    refine iff_of_true rfl ⟨List.not_mem_nil, ?_⟩
    rintro _ ⟨h, l, rfl, -, -⟩ hwithin
    exact absurd (List.eq_nil_of_infix_nil hwithin) (List.cons_ne_nil _ _)
  | @escape h l hi lo rest hh hl _ =>
    refine iff_of_false ?_ ?_
    · intro heq
      have hlt := decode_escape_length_lt hh hl (decode_length_le rest)
      exact Nat.ne_of_lt hlt (congrArg List.length heq)
    · intro hlit
      have hescape : IsEscape ['%', h, l] := ⟨h, l, rfl, by rw [hh]; rfl, by rw [hl]; rfl⟩
      exact hlit.2 _ hescape (List.prefix_append ['%', h, l] rest).isInfix
  | cons c rest hno ih =>
    rw [literal_cons_iff hno, ← ih, decode_cons hno, encode_cons]
    by_cases hc : c = '+'
    · subst hc
      refine iff_of_false ?_ (fun h => h.1 rfl)
      intro heq
      have hplus : String.utf8EncodeChar '+' = [0x2B] := by decide
      rw [if_pos rfl, hplus] at heq
      exact absurd (List.cons.inj heq).1 (by decide)
    · rw [if_neg hc, List.append_cancel_left_eq]
      exact ⟨fun h => ⟨hc, h⟩, fun h => h.2⟩

/-! ## Pairs -/

def piece (name value : List Char) : List Char := name ++ '=' :: value

/-- A name that reads as itself. -/
def IsName (name : List Char) : Prop := Literal name ∧ '&' ∉ name ∧ '=' ∉ name

theorem isName_of_not_mem {name : List Char}
    (h : '+' ∉ name ∧ '%' ∉ name ∧ '&' ∉ name ∧ '=' ∉ name) : IsName name := by
  obtain ⟨hplus, hpercent, hand, heq⟩ := h
  refine ⟨⟨hplus, ?_⟩, hand, heq⟩
  rintro _ ⟨h, l, rfl, -, -⟩ hwithin
  exact hpercent (hwithin.subset List.mem_cons_self)

/-- What the reader makes of one name and one value. -/
theorem readPair_piece {name : List Char} (hname : IsName name) (value : List Char) :
    readPair (piece name value) = (encode name, decode value) := by
  obtain ⟨hlit, -, heq⟩ := hname
  have hall : ∀ c ∈ name, decide (c ≠ '=') = true := by
    intro c hc
    exact decide_eq_true fun h => heq (h ▸ hc)
  rw [readPair, piece, List.takeWhile_append_of_pos hall, List.dropWhile_append_of_pos hall,
    List.takeWhile_cons_of_neg (by simp), List.dropWhile_cons_of_neg (by simp), List.append_nil,
    List.tail_cons, (decode_eq_encode_iff name).mpr hlit]

theorem piece_ne_nil (name value : List Char) : piece name value ≠ [] := by
  simp [piece]

theorem splitOn_piece {name value : List Char} (hname : IsName name) (hvalue : '&' ∉ value) :
    (piece name value).splitOn '&' = [piece name value] := by
  apply List.splitOn_eq_singleton
  simp [piece, hname.2.1, hvalue]

theorem readPairs_piece {name value : List Char} (hname : IsName name) (hvalue : '&' ∉ value) :
    readPairs (piece name value) = [(encode name, decode value)] := by
  rw [readPairs, splitOn_piece hname hvalue, List.filter_cons_of_pos (by simp [piece_ne_nil]),
    List.filter_nil, List.map_singleton, readPair_piece hname]

/-- Pieces with a separator between them are read one after the other. -/
theorem readPairs_append (s t : List Char) :
    readPairs (s ++ '&' :: t) = readPairs s ++ readPairs t := by
  rw [readPairs, List.splitOn_append_cons_self, List.filter_append, List.map_append, readPairs,
    readPairs]

theorem readPairs_pieces {α : Type} (text : α → List Char) (first : α) (rest : List α) :
    readPairs (text first ++ rest.flatMap fun item => '&' :: text item) =
      (first :: rest).flatMap fun item => readPairs (text item) := by
  induction rest generalizing first with
  | nil => simp
  | cons second rest ih =>
    rw [List.flatMap_cons, List.cons_append, readPairs_append, ih]
    rfl

/-- Nothing in a value is decoded and no separator cuts it. -/
def IsPlain (value : List Char) : Prop := '&' ∉ value ∧ Literal value

/-- Names and values come back exactly when every value is plain: one that is not already
spoils the pair it stands in. -/
theorem readPairs_eq_iff (pairs : List (List Char × List Char))
    (hnames : ∀ pair ∈ pairs, IsName pair.1) :
    (pairs.flatMap fun pair => readPairs (piece pair.1 pair.2)) =
        pairs.map (fun pair => (encode pair.1, encode pair.2)) ↔
      ∀ pair ∈ pairs, IsPlain pair.2 := by
  induction pairs with
  | nil => simp
  | cons pair pairs ih =>
    obtain ⟨name, value⟩ := pair
    obtain ⟨hname, hnames⟩ := List.forall_mem_cons.mp hnames
    rw [List.flatMap_cons, List.map_cons, List.forall_mem_cons, ← ih hnames]
    by_cases hcut : '&' ∈ value
    · refine iff_of_false ?_ (fun h => h.1.1 hcut)
      intro heq
      obtain ⟨front, back, rfl, hfront⟩ := List.eq_append_cons_of_mem hcut
      have hpiece : piece name (front ++ '&' :: back) = piece name front ++ '&' :: back := by
        simp [piece]
      rw [hpiece, readPairs_append, readPairs_piece hname hfront] at heq
      have hshort := congrArg List.length (Prod.mk.inj (List.cons.inj heq).1).2
      have hle := decode_length_le front
      have hlt := length_encode_lt_cons '&' back
      rw [encode_append, List.length_append] at hshort
      omega
    · rw [readPairs_piece hname hcut, List.singleton_append, List.cons_eq_cons, Prod.mk.injEq,
        decode_eq_encode_iff]
      exact ⟨fun h => ⟨⟨hcut, h.1.2⟩, h.2⟩, fun h => ⟨⟨rfl, h.1.2⟩, h.2⟩⟩

end Eggplant.Lib.UrlQuery
