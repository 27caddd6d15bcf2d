import Eggplant.Lib.Words

/-!
# The contract ABI for words and word arrays

An argument block is a row of 32-byte head slots followed by the tails of the
dynamic arguments; a dynamic head slot holds the offset of its tail, counted
from the start of the block. The decoder reads by offset and is bounds-checked,
so it is defined on every byte string. `decode_encode` says that it inverts the
encoder on every block shorter than a word can address.
-/
namespace Eggplant.Lib.Abi

set_option autoImplicit false

open Eggplant.Lib.Words

inductive Arg where
  | word (w : Word)
  | words (ws : List Word)
  deriving DecidableEq

inductive ArgType where
  | word
  | words
  deriving DecidableEq

def Arg.type : Arg → ArgType
  | .word _ => .word
  | .words _ => .words

def wordsBytes (ws : List Word) : Bytes := ws.flatMap (·.bytes)

theorem wordsBytes_length (ws : List Word) : (wordsBytes ws).length = 32 * ws.length := by
  induction ws with
  | nil => rfl
  | cons w ws ih =>
    rw [wordsBytes] at ih
    rw [wordsBytes, List.flatMap_cons, List.length_append, w.length_eq, ih, List.length_cons]
    omega

/-- Words of one size need no separator. -/
theorem wordsBytes_inj {ws vs : List Word} (h : wordsBytes ws = wordsBytes vs) : ws = vs := by
  induction ws generalizing vs with
  | nil =>
    cases vs with
    | nil => rfl
    | cons v vs =>
      have hlen := congrArg List.length h
      rw [wordsBytes, wordsBytes, List.flatMap_nil, List.length_nil, List.flatMap_cons,
        List.length_append, v.length_eq] at hlen
      omega
  | cons w ws ih =>
    cases vs with
    | nil =>
      have hlen := congrArg List.length h
      rw [wordsBytes, wordsBytes, List.flatMap_nil, List.length_nil, List.flatMap_cons,
        List.length_append, w.length_eq] at hlen
      omega
    | cons v vs =>
      rw [wordsBytes, wordsBytes, List.flatMap_cons, List.flatMap_cons] at h
      obtain ⟨hw, hws⟩ := List.append_inj h (w.length_eq.trans v.length_eq.symm)
      rw [FixedBytes.eq_of_bytes hw, ih hws]

def tailOf : Arg → Bytes
  | .word _ => []
  | .words ws => (Word.ofNat ws.length).bytes ++ wordsBytes ws

/-- Head slots, with the offset at which the next tail will be laid. -/
def heads : Nat → List Arg → Bytes
  | _, [] => []
  | off, .word w :: as => w.bytes ++ heads off as
  | off, .words ws :: as =>
      (Word.ofNat off).bytes ++ heads (off + (tailOf (.words ws)).length) as

def tails (as : List Arg) : Bytes := as.flatMap tailOf

def encode (as : List Arg) : Bytes := heads (32 * as.length) as ++ tails as

/-- The word at byte `pos`, when the whole word is there. -/
def readWord (bs : Bytes) (pos : Nat) : Option Word :=
  if h : ((bs.drop pos).take 32).length = 32 then some ⟨(bs.drop pos).take 32, h⟩ else none

def readWords (bs : Bytes) : Nat → Nat → Option (List Word)
  | _, 0 => some []
  | pos, n + 1 => do
      let w ← readWord bs pos
      let ws ← readWords bs (pos + 32) n
      pure (w :: ws)

def decodeFrom (bs : Bytes) : Nat → List ArgType → Option (List Arg)
  | _, [] => some []
  | pos, .word :: ts => do
      let w ← readWord bs pos
      let as ← decodeFrom bs (pos + 32) ts
      pure (.word w :: as)
  | pos, .words :: ts => do
      let off ← readWord bs pos
      let n ← readWord bs off.toNat
      let ws ← readWords bs (off.toNat + 32) n.toNat
      let as ← decodeFrom bs (pos + 32) ts
      pure (.words ws :: as)

def decode (ts : List ArgType) (bs : Bytes) : Option (List Arg) := decodeFrom bs 0 ts

/-! ## Reading what was laid down -/

/-- `sub` stands in `bs` from byte `pos` on. -/
def At (bs : Bytes) (pos : Nat) (sub : Bytes) : Prop := sub <+: bs.drop pos

theorem at_append {bs : Bytes} {pos : Nat} {a b : Bytes} :
    At bs pos (a ++ b) ↔ At bs pos a ∧ At bs (pos + a.length) b := by
  unfold At
  constructor
  · intro h
    obtain ⟨rest, hr⟩ := h
    refine ⟨⟨b ++ rest, by rw [← hr, List.append_assoc]⟩, ⟨rest, ?_⟩⟩
    rw [← List.drop_drop, ← hr, List.append_assoc, List.drop_left]
  · intro h
    obtain ⟨⟨ra, ha⟩, ⟨rb, hb⟩⟩ := h
    refine ⟨rb, ?_⟩
    rw [← List.drop_drop, ← ha, List.drop_left] at hb
    rw [List.append_assoc, hb, ha]

theorem at_length {bs : Bytes} {pos : Nat} {sub : Bytes} (h : At bs pos sub) (hn : sub ≠ []) :
    pos + sub.length ≤ bs.length := by
  have hl := h.length_le
  have hp : 0 < sub.length := List.length_pos_of_ne_nil hn
  rw [List.length_drop] at hl
  omega

theorem readWord_at {bs : Bytes} {pos : Nat} {w : Word} (h : At bs pos w.bytes) :
    readWord bs pos = some w := by
  have ht : (bs.drop pos).take 32 = w.bytes := by
    have hp := List.prefix_iff_eq_take.mp h
    rw [w.length_eq] at hp
    exact hp.symm
  unfold readWord
  rw [dif_pos (by rw [ht, w.length_eq])]
  exact congrArg some (FixedBytes.eq_of_bytes ht)

theorem readWords_at {bs : Bytes} (ws : List Word) {pos : Nat} (h : At bs pos (wordsBytes ws)) :
    readWords bs pos ws.length = some ws := by
  induction ws generalizing pos with
  | nil => rfl
  | cons w ws ih =>
    rw [wordsBytes, List.flatMap_cons, at_append, w.length_eq] at h
    simp [readWords, readWord_at h.1, ih h.2]

theorem tailOf_words_length (ws : List Word) : ws.length < (tailOf (.words ws)).length := by
  rw [tailOf, List.length_append, (Word.ofNat ws.length).length_eq, wordsBytes_length]
  omega

/-- The decoder follows the encoder through the remaining arguments: `pos` is the
next head slot and `off` the next free tail position. -/
theorem decodeFrom_at {bs : Bytes} (hbs : bs.length < wordSize) (as : List Arg) :
    ∀ (pos off : Nat), At bs pos (heads off as) → At bs off (tails as) →
      decodeFrom bs pos (as.map Arg.type) = some as := by
  induction as with
  | nil => intro pos off _ _; rfl
  | cons a as ih =>
    intro pos off hh ht
    rw [tails, List.flatMap_cons, at_append] at ht
    cases a with
    | word w =>
      rw [heads, at_append, w.length_eq] at hh
      have hrest := ih (pos + 32) off hh.2 ht.2
      simp [decodeFrom, Arg.type, readWord_at hh.1, hrest]
    | words ws =>
      rw [heads, at_append, (Word.ofNat off).length_eq] at hh
      have hrest := ih (pos + 32) _ hh.2 ht.2
      have hlt := tailOf_words_length ws
      have hend := at_length ht.1 (by intro h; rw [h] at hlt; simp at hlt)
      have hoff : (Word.ofNat off).toNat = off := Word.toNat_ofNat_of_lt (by omega)
      have hlen : (Word.ofNat ws.length).toNat = ws.length := Word.toNat_ofNat_of_lt (by omega)
      have htail := ht.1
      rw [tailOf, at_append, (Word.ofNat ws.length).length_eq] at htail
      simp [decodeFrom, Arg.type, readWord_at hh.1, hoff, readWord_at htail.1, hlen,
        readWords_at ws htail.2, hrest]

theorem heads_length (as : List Arg) (off : Nat) : (heads off as).length = 32 * as.length := by
  induction as generalizing off with
  | nil => rfl
  | cons a as ih =>
    cases a with
    | word w => rw [heads, List.length_append, w.length_eq, ih, List.length_cons]; omega
    | words ws =>
      rw [heads, List.length_append, (Word.ofNat off).length_eq, ih, List.length_cons]
      omega

/-- Every addressable argument block decodes to the arguments it was built from. -/
theorem decode_encode (as : List Arg) (h : (encode as).length < wordSize) :
    decode (as.map Arg.type) (encode as) = some as := by
  have hat : At (encode as) 0 (encode as) := List.prefix_refl _
  rw [encode] at hat
  obtain ⟨hh, ht⟩ := at_append.mp hat
  rw [heads_length, Nat.zero_add] at ht
  exact decodeFrom_at h as 0 _ hh ht

/-- A call is a four-byte selector followed by its argument block. -/
def encodeCall (selector : FixedBytes 4) (as : List Arg) : Bytes := selector.bytes ++ encode as

def decodeCall (selector : FixedBytes 4) (ts : List ArgType) (data : Bytes) : Option (List Arg) :=
  if data.take 4 = selector.bytes then decode ts (data.drop 4) else none

theorem decodeCall_encodeCall (selector : FixedBytes 4) (as : List Arg)
    (h : (encode as).length < wordSize) :
    decodeCall selector (as.map Arg.type) (encodeCall selector as) = some as := by
  have ht : (encodeCall selector as).take 4 = selector.bytes :=
    List.take_left' selector.length_eq
  have hd : (encodeCall selector as).drop 4 = encode as := List.drop_left' selector.length_eq
  rw [decodeCall, if_pos ht, hd, decode_encode as h]

/-- Calldata of one function is refused by the decoder of another. -/
theorem decodeCall_other {selector other : FixedBytes 4} (hne : other ≠ selector)
    (as : List Arg) (ts : List ArgType) :
    decodeCall other ts (encodeCall selector as) = none := by
  have ht : (encodeCall selector as).take 4 = selector.bytes :=
    List.take_left' selector.length_eq
  rw [decodeCall, ht, if_neg]
  intro h
  exact hne (FixedBytes.eq_of_bytes h.symm)

end Eggplant.Lib.Abi
